import Wiretap.Event
import Wiretap.Knowledge.Exposure

/-! Who knows what. Every principal starts with its declared keys and nonces, public keys are known
to all, and sender, receiver and adversary see each message. -/

namespace Wiretap

/-- The name of the passive eavesdropper. -/
def adversary : String := "Adversary"

/-- What one principal knows, and the ciphertexts that it has seen. -/
structure View where
  name : String
  knows : Terms
  pending : List Ciphertext

/-- What every principal knew at some time. -/
abbrev Snapshot := List (String × Terms)

/-- What every principal knows, in the order of the roles, with the number of rounds of opening
so far and the snapshots that were taken. -/
structure Knowledge where
  views : List View
  rounds : Nat := 0
  history : List Snapshot := []

namespace Protocol

/-- The roles, each once, and the adversary. -/
def principals (p : Protocol) : List String :=
  let roles := p.roles.eraseDups
  if adversary ∈ roles then roles else roles ++ [adversary]

/-- The keys and nonces that a principal starts with. -/
def seeds (p : Protocol) (name : String) : List String :=
  (p.keys.filter fun d => d.kind = .publicHalf || d.owners.contains name).map (·.name) ++
    (p.nonces.filter fun d => d.owner = name).map (·.name)

/-- The declarations for names that are no principals. -/
def seedEvents (p : Protocol) : List Event :=
  let stray (name : String) : Bool := !p.principals.contains name
  (p.keys.filter fun d => d.kind ≠ .publicHalf).flatMap (fun d =>
    (d.owners.filter stray).map (.strayKeyOwner d.name)) ++
    (p.nonces.filter fun d => stray d.owner).map fun d => .strayNonceOwner d.name d.owner

end Protocol

/-- Those who see a message. -/
def Message.parties (m : Message) : List String :=
  [m.sender, m.receiver, adversary].eraseDups

namespace View

/-- A view with more ciphertexts seen. -/
def addPending (v : View) (cs : List Ciphertext) : View :=
  { v with pending := cs.foldl (fun seen c => seen.insert c) v.pending }

/-- A view after a message. -/
def observe (v : View) (m : Message) (e : Exposure) : View :=
  if v.name ∈ m.parties then
    let seen := { v with knows := v.knows.insertAll e.visible }.addPending e.ciphertexts
    if v.name = m.sender then { seen with knows := seen.knows.insertAll e.built } else seen
  else v

end View

/-- A state with the events that led to it and the fault that stopped the work, if one did. -/
structure Progress where
  state : Knowledge
  events : List Event := []
  fault : Option Fault := none

namespace Knowledge

/-- What everybody knows before the first message. -/
def seed (p : Protocol) : Knowledge where
  views := p.principals.map fun name => ⟨name, .ofList (p.seeds name), []⟩

/-- The view of a principal. -/
def view? (k : Knowledge) (name : String) : Option View :=
  k.views.find? (·.name = name)

/-- What everybody knows now. -/
def snapshot (k : Knowledge) : Snapshot :=
  k.views.map fun v => (v.name, v.knows)

/-- The state with a snapshot taken. -/
def record (k : Knowledge) : Knowledge :=
  { k with history := k.history ++ [k.snapshot] }

/-- The state with the view of a principal changed, if there is such a principal. -/
def modify? (k : Knowledge) (name : String) (f : View → View) : Option Knowledge :=
  if k.views.any (·.name = name) then
    some { k with views := k.views.map fun v => if v.name = name then f v else v }
  else none

/-- The state after a message. -/
def observe (k : Knowledge) (m : Message) (e : Exposure) : Knowledge :=
  { k with views := k.views.map (·.observe m e) }

/-- The parties of message number `index` that are no principals. -/
def strayEvents (k : Knowledge) (index : Nat) (m : Message) : List Event :=
  (m.parties.filter fun name => !k.views.any (·.name = name)).map (.strayParty index)

/-- The state after messages of which the first has number `index`. A message with a fault stops
the work before it adds anything. -/
def observeFrom (index : Nat) (k : Knowledge) : List Message → Progress
  | [] => { state := k }
  | m :: rest =>
    match m.exposure with
    | .error f => { state := k, fault := some f }
    | .ok e =>
      let next := observeFrom (index + 1) (k.observe m e) rest
      { next with events := k.strayEvents index m ++ next.events }

/-- The state after the messages of a protocol. -/
def observeAll (k : Knowledge) (p : Protocol) : Progress :=
  k.observeFrom 1 p.messages

end Knowledge

end Wiretap
