import Wiretap.Json.Basic
import Wiretap.Protocol.Basic

/-! A protocol as a JSON value. -/

namespace Wiretap

/-- A key declaration as a JSON value. -/
def KeyDecl.toJson (d : KeyDecl) : Json :=
  .object [("kind", .string d.kind.word), ("name", .string d.name), ("owners", .strings d.owners)]

/-- A nonce declaration as a JSON value. -/
def NonceDecl.toJson (d : NonceDecl) : Json :=
  .object [("name", .string d.name), ("owner", .string d.owner)]

/-- A message as a JSON value, with the label of its body. -/
def Message.toJson (m : Message) : Except Fault Json := do
  return .object [("sender", .string m.sender), ("receiver", .string m.receiver),
    ("body", .string (← m.body.label))]

/-- A protocol as a JSON value. -/
def Protocol.toJson (p : Protocol) : Except Fault Json := do
  return .object [("roles", .strings p.roles), ("keys", .array (p.keys.map (·.toJson))),
    ("nonces", .array (p.nonces.map (·.toJson))),
    ("messages", .array (← p.messages.mapM (·.toJson)))]

end Wiretap
