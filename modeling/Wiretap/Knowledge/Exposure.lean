import Wiretap.Knowledge.Terms
import Wiretap.Protocol.Basic

/-! What a message body gives away: to whoever sees it on the wire, to whoever writes it, and to
whoever finds it inside a ciphertext that is opened. -/

namespace Wiretap

/-- A ciphertext on the wire: a plaintext under a key. -/
structure Ciphertext where
  key : String
  plaintext : Node
deriving DecidableEq

namespace Ciphertext

/-- The text of a ciphertext. -/
def text (c : Ciphertext) : String :=
  (Node.enc c.key c.plaintext).text

/-- The label of a ciphertext, if its plaintext has one. -/
def label (c : Ciphertext) : Except Fault String :=
  (Node.enc c.key c.plaintext).label

end Ciphertext

/-- What an observer of the wire sees: terms in the clear and ciphertexts. -/
structure Wire where
  visible : List String
  ciphertexts : List Ciphertext

/-- What is seen of a tree on the wire. Concatenations and names for values are transparent,
ciphertexts are kept for later, and the other constructors show as a whole. -/
def Node.wire : Node → Except Fault Wire
  | .ident name => .ok ⟨[name], []⟩
  | .assign target value => do
    let w ← value.wire
    return { w with visible := target :: w.visible }
  | .concat l r => do
    let label ← (Node.concat l r).label
    let left ← l.wire
    let right ← r.wire
    return ⟨label :: (left.visible ++ right.visible), left.ciphertexts ++ right.ciphertexts⟩
  | .enc k message =>
    if message.isProtocolFree then .ok ⟨[], [⟨k, message⟩]⟩ else .error .protocolInSet
  | .mac k message => do return ⟨[← (Node.mac k message).label], []⟩
  | .hash message => do return ⟨[← (Node.hash message).label], []⟩
  | .sign k message => do return ⟨[← (Node.sign k message).label], []⟩
  | .verify k message signature => do
    return ⟨[← (Node.verify k message signature).label], []⟩
  | n@(.roles _) => .error (.unhandled n.sort)
  | n@(.key _) => .error (.unhandled n.sort)
  | n@(.nonce _) => .error (.unhandled n.sort)
  | n@(.send _ _ _) => .error (.unhandled n.sort)
  | n@(.protocol _ _) => .error (.unhandled n.sort)
  | n@(.blank) => .error (.unhandled n.sort)

/-- The identifiers that the author of a tree has to hold. -/
def Node.author : Node → Except Fault (List String)
  | .ident name => .ok [name]
  | .assign target value => do return target :: (← value.author)
  | .concat l r => do return (← l.author) ++ (← r.author)
  | .enc k message => do return k :: (← message.author)
  | .mac k message => do return k :: (← message.author)
  | .hash message => message.author
  | .sign k message => do return k :: (← message.author)
  | .verify k message signature => do
    return k :: ((← message.author) ++ (← signature.author))
  | n@(.roles _) => .error (.unhandled n.sort)
  | n@(.key _) => .error (.unhandled n.sort)
  | n@(.nonce _) => .error (.unhandled n.sort)
  | n@(.send _ _ _) => .error (.unhandled n.sort)
  | n@(.protocol _ _) => .error (.unhandled n.sort)
  | n@(.blank) => .error (.unhandled n.sort)

/-- The leaves of the concatenations at the top of a tree, from left to right. -/
def Node.spine : Node → List Node
  | .concat l r => l.spine ++ r.spine
  | n => [n]

/-- The term that a leaf of an opened plaintext is learned as. A ciphertext inside is learned as
a whole. -/
def Node.content : Node → Except Fault String
  | .ident name => .ok name
  | n@(.enc _ _) => n.label
  | n@(.mac _ _) => n.label
  | n@(.hash _) => n.label
  | n@(.sign _ _) => n.label
  | n@(.verify _ _ _) => n.label
  | n => .error (.unhandled n.sort)

/-- What is known after a plaintext was opened, whether any of it is new, and what kept the rest
of the plaintext from being learned. -/
structure Unwrapped where
  known : Terms
  isNew : Bool
  fault : Option Fault

/-- Learns leaves from left to right, up to the first that has no content. -/
def learnLeaves (known : Terms) : List Node → Unwrapped
  | [] => ⟨known, false, none⟩
  | n :: rest =>
    match n.content with
    | .error f => ⟨known, false, some f⟩
    | .ok term =>
      if term ∈ known then learnLeaves known rest
      else { learnLeaves (known.insert term) rest with isNew := true }

/-- Learns the contents of an opened plaintext. -/
def Node.unwrap (n : Node) (known : Terms) : Unwrapped :=
  learnLeaves known n.spine

/-- All that a message gives away: terms in the clear, ciphertexts, and the terms that its sender
has to hold. -/
structure Exposure extends Wire where
  built : List String

/-- All that a message gives away. -/
def Message.exposure (m : Message) : Except Fault Exposure := do
  let wire ← m.body.wire
  let built ← m.body.author
  return { wire with built }

end Wiretap
