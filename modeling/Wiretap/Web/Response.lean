import Wiretap.Json.Basic
import Wiretap.Source.Diagnostic
import Wiretap.Web.Page

/-! Answers of the web service. -/

namespace Wiretap

/-- The body of an answer. -/
inductive Body where
  | none
  | json (value : Json)
  | html (text : String)

/-- An answer. -/
structure Response where
  status : Nat
  body : Body

namespace Response

/-- A plain page for a status. -/
def plain (status : Nat) (title text : String) : Response where
  status
  body := .html <| "<!doctype html>\n<html lang=en>\n<title>" ++ toString status ++ " " ++ title ++
    "</title>\n<h1>" ++ title ++ "</h1>\n<p>" ++ html text ++ "</p>\n"

/-- The page for a bad request. -/
def badRequest (text : String) : Response :=
  plain 400 "Bad Request" text

/-- The page for a request that makes no sense. -/
def misunderstood : Response :=
  badRequest "The browser (or proxy) sent a request that this server could not understand."

/-- The page for a request that is too large. -/
def tooLarge (text : String) : Response :=
  plain 413 "Request Entity Too Large" text

/-- The page for a body that is too large. -/
def oversized : Response :=
  tooLarge "The data value transmitted exceeds the capacity limit."

/-- The page that points to another address. -/
def redirect (address : String) : Response where
  status := 308
  body := .html <| "<!doctype html>\n<html lang=en>\n<title>Redirecting...</title>\n" ++
    "<h1>Redirecting...</h1>\n<p>You should be redirected automatically to the target URL: " ++
    "<a href=\"" ++ html address ++ "\">" ++ html address ++ "</a>. If not, click the link.\n"

/-- A page with a form. -/
def page (status : Nat) (p : Page) : Response :=
  ⟨status, .html p.render⟩

/-- A JSON answer to a request that went wrong. -/
def jsonError (status : Nat) (error : List (String × Json)) : Response :=
  ⟨status, .json (.object [("ok", .bool false), ("error", .object error)])⟩

end Response

/-- A fault of a source text as members of an object. -/
def Diagnostic.members (d : Diagnostic) : List (String × Json) :=
  [("line", .int d.position.line), ("column", .int d.position.column),
   ("message", .string d.message)]

end Wiretap
