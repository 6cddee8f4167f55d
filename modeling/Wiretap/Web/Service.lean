import Wiretap.Web.Address
import Wiretap.Web.Analysis
import Wiretap.Web.Route

/-! The web service and its requests: what of a request is handed on, and what is sent back. -/

namespace Wiretap

namespace Request

/-- What is handed on of a request for a route. There are no assets. -/
def deliveryTo (r : Request) (route : Route) : Delivery :=
  if r.method = .options then .settled (.ok ⟨200, .none⟩)
  else
    match route with
    | .page => .page
    | .reference => .reference
    | .asset => .settled (.ok ⟨404, .none⟩)
    | .analyzeForm =>
      match r.fields? with
      | none => .settled (.ok .oversized)
      | some fields => .form (Form.value? fields "source")
    | .analyzeJson =>
      if r.isJson && r.isOversized then .settled (.ok .oversized) else .json r.payload?

/-- What is handed on of a request. -/
def delivery (r : Request) : Delivery :=
  match Address.ofTarget r.target with
  | .error e => .settled (.error (.address e))
  | .ok address =>
    if r.hasBrokenType then .settled (.error .brokenType)
    else
      match Direction.ofPath r.method address.isSocket address.resolvedPath with
      | .to route => r.deliveryTo route
      | .redirect path => .settled (.ok (.redirect (address.withPath path)))
      | .wrongMethod => .settled (.ok ⟨405, .none⟩)
      | .noSocket => .settled (.ok .misunderstood)
      | .nowhere => .settled (.ok ⟨404, .none⟩)

/-- An answer as it is sent: without its body, if only the head was asked for. -/
def sent (r : Request) (response : Response) : Response :=
  if r.method = .head then { response with body := .none } else response

end Request

/-- Answers a request. -/
def Service.answer (s : Service) (disk : Disk) (environment : Option String) (r : Request) :
    Service × Reply :=
  let (t, reply) := s.handle disk environment r.delivery
  (t, reply.map r.sent)

end Wiretap
