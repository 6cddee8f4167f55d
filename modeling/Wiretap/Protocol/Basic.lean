import Wiretap.Protocol.Node

/-! Protocols: declarations followed by messages. -/

namespace Wiretap

/-- A message: `body` goes over the wire from `sender` to `receiver`. -/
structure Message where
  sender : String
  receiver : String
  body : Node
deriving DecidableEq

/-- The message as a node. -/
def Message.toNode (m : Message) : Node :=
  .send m.sender m.receiver m.body

/-- A protocol: its declarations and its messages in order. -/
structure Protocol extends Declarations where
  messages : List Message := []
deriving DecidableEq

/-- Kinds of keys by name. Of two entries for one name the later one counts. -/
abbrev KeyTable := List (String × KeyKind)

namespace KeyTable

/-- The kind of the key called `name`. -/
def kind? : KeyTable → String → Option KeyKind
  | [], _ => none
  | (n, k) :: rest, name => (kind? rest name).or (if n = name then some k else none)

/-- Whether `name` is a key that opens ciphertexts. -/
def opens (table : KeyTable) (name : String) : Bool :=
  (table.kind? name).any KeyKind.opens

/-- Each name once, in the order of the first entries, with the kind that counts. -/
def entries (table : KeyTable) : List (String × KeyKind) :=
  (table.map (·.1)).eraseDups.filterMap fun name => (table.kind? name).map (name, ·)

end KeyTable

/-- The messages as the script of a tree. -/
def Script.ofMessages : List Message → Script
  | [] => .done
  | m :: rest => .step m.sender m.receiver m.body (ofMessages rest)

namespace Protocol

/-- The kinds of the declared keys. -/
def keyTable (p : Protocol) : KeyTable :=
  p.keys.map fun d => (d.name, d.kind)

/-- The protocol as a tree. -/
def toNode (p : Protocol) : Node :=
  .protocol p.toDeclarations (.ofMessages p.messages)

end Protocol

end Wiretap
