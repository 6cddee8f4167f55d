import Wiretap.Web.Request

/-! Where requests go. -/

namespace Wiretap

/-- What the service offers. -/
inductive Route where
  | page
  | analyzeForm
  | analyzeJson
  | reference
  | asset
deriving DecidableEq, Repr

namespace Route

/-- Whether it may be asked for in a way. One may always ask for the ways. -/
def allows : Route → Method → Bool
  | _, .options => true
  | page, .get | reference, .get | asset, .get => true
  | page, .head | reference, .head | asset, .head => true
  | analyzeForm, .post | analyzeJson, .post => true
  | _, _ => false

/-- The folder of the assets. -/
def assets : List Char := "/static/".toList

/-- Whether a path is that of an asset: a name that starts with no slash, and has no line break
after its first character. -/
def isAsset (path : List Char) : Bool :=
  assets.isPrefixOf path &&
    match path.drop assets.length with
    | [] => false
    | c :: rest => c != '/' && !rest.contains '\n'

/-- What stands at a path. -/
def ofPath? (path : List Char) : Option Route :=
  if path = "/".toList then some page
  else if path = "/analyze".toList then some analyzeForm
  else if path = "/api/analyze".toList then some analyzeJson
  else if path = "/api/syntax".toList then some reference
  else if isAsset path then some asset
  else none

end Route

/-- Where a request goes: to something that the service offers, to the same with another path, or
nowhere. The service has nothing to offer to a lasting connection. -/
inductive Direction where
  | to (route : Route)
  | redirect (path : List Char)
  | wrongMethod
  | noSocket
  | nowhere
deriving DecidableEq, Repr

namespace Direction

/-- A path with every run of slashes as one slash. -/
def mergeSlashes : List Char → List Char
  | '/' :: '/' :: rest => mergeSlashes ('/' :: rest)
  | c :: rest => c :: mergeSlashes rest
  | [] => []

/-- Where a request for a route goes, which is `found` if all is well. -/
def ofRoute (method : Method) (socket : Bool) (route : Route) (found : Direction) : Direction :=
  if !route.allows method then wrongMethod
  else if socket then noSocket
  else found

/-- Where a path leads. If nothing stands there, what stands at the path with single slashes is
pointed to. An empty path is that of the page, for those who ask rightly. -/
def ofPath (method : Method) (socket : Bool) (path : List Char) : Direction :=
  if path.isEmpty then
    if Route.page.allows method && !socket then redirect ['/'] else nowhere
  else
    match Route.ofPath? path with
    | some route => ofRoute method socket route (.to route)
    | none =>
      match Route.ofPath? (mergeSlashes path) with
      | some route => ofRoute method socket route (redirect (mergeSlashes path))
      | none => nowhere

end Direction

end Wiretap
