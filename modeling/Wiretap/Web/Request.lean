import Wiretap.Json.Encoding
import Wiretap.Web.Delivery
import Wiretap.Web.Form
import Wiretap.Web.Multipart

/-! Requests and what is in their bodies. -/

namespace Wiretap

/-- The ways to ask. -/
inductive Method where
  | get
  | head
  | post
  | options
  | other (name : String)
deriving DecidableEq, Repr

/-- A request. -/
structure Request where
  method : Method
  target : String
  contentType : String := ""
  body : List UInt8 := []

/-- The largest number of bytes of a request. -/
def maxBodySize : Nat := 4 * maxSourceLength

namespace Request

/-- The type of the body, in lower case. -/
def mediaType (r : Request) : String :=
  Text.lowercase (Header.parse r.contentType).value

/-- Whether the type of the body has a line break in it. -/
def hasBrokenType (r : Request) : Bool :=
  r.contentType.toList.any fun c => c = '\r' || c = '\n'

/-- Whether the body is larger than any request may be. -/
def isOversized (r : Request) : Bool :=
  maxBodySize < r.body.length

/-- Whether the body is JSON. -/
def isJson (r : Request) : Bool :=
  r.mediaType = "application/json" ||
    ("application/".toList.isPrefixOf r.mediaType.toList &&
      "+json".toList.isSuffixOf r.mediaType.toList)

/-- The value in a JSON body. What is not JSON has none. -/
def payload? (r : Request) : Option Json :=
  if r.isJson then (Json.decode r.body).toOption else none

/-- The fields of a form, or none if it is too large. What is no well-formed form has no
fields. -/
def fields? (r : Request) : Option (List (String × String)) :=
  if r.isOversized then none
  else if r.mediaType = "application/x-www-form-urlencoded" then
    some (((Text.decode? r.body).map Form.decode).getD [])
  else if r.mediaType = "multipart/form-data" then
    let boundary := ((Header.parse r.contentType).parameter? "boundary").getD ""
    match Multipart.decode boundary r.body with
    | .ok fields => some fields
    | .error .malformed => some []
    | .error .tooLarge => none
  else some []

end Request

end Wiretap
