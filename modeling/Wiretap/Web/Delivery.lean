import Wiretap.Naming.Loading
import Wiretap.Protocol.Node
import Wiretap.Web.Host
import Wiretap.Web.Response

/-! What passes between the web service and whatever takes requests for it. -/

namespace Wiretap

/-- The largest number of characters of a source text. -/
def maxSourceLength : Nat := 200000

/-- Why a request gets no answer. -/
inductive Failure where
  | address (error : HostError)
  | brokenType
  | load (error : LoadError)
  | fault (fault : Fault)
deriving DecidableEq, Repr

/-- The words for a failure. -/
def Failure.message : Failure → String
  | address e => e.message
  | brokenType => "Header values must not contain newline characters."
  | load e => e.message
  | fault f => f.message

/-- What comes of a request. -/
abbrev Reply := Except Failure Response

/-- What the service is handed of a request: that the page or the reference is asked for, the field
`source` of a form, or the value in a JSON body. A request may also be settled before it comes to
the service. -/
inductive Delivery where
  | page
  | reference
  | form (source : Option String)
  | json (payload : Option Json)
  | settled (reply : Reply)

end Wiretap
