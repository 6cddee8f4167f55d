import Wiretap.Source.Reference

/-! The web page: a form for a protocol, and the errors or results of the last one. -/

namespace Wiretap

/-- How `c` is written in a page. -/
def escapeHtml (c : Char) : String :=
  if c = '&' then "&amp;"
  else if c = '<' then "&lt;"
  else if c = '>' then "&gt;"
  else if c = '"' then "&#34;"
  else if c = '\'' then "&#39;"
  else String.singleton c

/-- A text in a page. -/
def html (s : String) : String :=
  s.toList.foldl (fun page c => page ++ escapeHtml c) ""

/-- The results of an analysis, in the words of the page. -/
structure PageResult where
  report : String
  warnings : List String
  ast : String

/-- What a page shows. -/
structure Page where
  source : String := ""
  error : Option String := none
  result : Option PageResult := none

namespace Page

/-- The lines of a page before the form. -/
def headLines : List String :=
  ["<!doctype html>",
   "<html lang=\"en\">",
   "<head>",
   "  <meta charset=\"utf-8\">",
   "  <title>protoknow</title>",
   "  <style>",
   "    body \x7b font-family: sans-serif; margin: 2em; \x7d",
   "    textarea \x7b width: 100%; height: 18em; font-family: monospace; \x7d",
   "    pre \x7b background: #f4f4f4; padding: 1em; overflow-x: auto; \x7d",
   "    .error \x7b color: #a00; \x7d",
   "  </style>",
   "</head>",
   "<body>",
   "  <h1>Protocol knowledge analysis</h1>"]

/-- The form with the source text. -/
def form (source : String) : String :=
  "  <form method=\"post\" action=\"/analyze\">\n" ++
    "    <textarea name=\"source\" spellcheck=\"false\">" ++ html source ++ "</textarea>\n" ++
    "    <p><button type=\"submit\">Run</button></p>\n" ++
    "  </form>\n"

/-- The part of a page about an error. -/
def errorPart (error : String) : String :=
  "\n  <h2>Errors</h2>\n  <pre class=\"error\">" ++ html error ++ "</pre>\n  "

/-- The part of a page about the results. -/
def resultPart (r : PageResult) : String :=
  "\n  <h2>Knowledge</h2>\n  <pre>" ++ html r.report ++ "</pre>\n" ++
    "  <h2>Verification Warnings</h2>\n  <ul>\n    " ++
    String.join (r.warnings.map fun w => "<li>" ++ html w ++ "</li>") ++ "\n  </ul>\n" ++
    "  <h2>AST</h2>\n  <pre>" ++ html r.ast ++ "</pre>\n  "

/-- The end of a page, with the language reference. -/
def foot : String :=
  "  <details>\n    <summary>Syntax</summary>\n    <pre>" ++ html reference ++ "</pre>\n" ++
    "  </details>\n</body>\n</html>"

/-- The text of a page. -/
def render (p : Page) : String :=
  "\n".intercalate headLines ++ "\n" ++ form p.source ++
    "\n  " ++ (p.error.map errorPart).getD "" ++ "\n" ++
    "\n  " ++ (p.result.map resultPart).getD "" ++ "\n" ++
    "\n" ++ foot

end Page

end Wiretap
