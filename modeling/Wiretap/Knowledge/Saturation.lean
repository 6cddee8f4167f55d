import Wiretap.Knowledge.State

/-! Opening ciphertexts until nothing new is learned. A principal opens a ciphertext once it holds
the key that opens it: the key itself if it is shared or private, and for a public key the private
key that the naming convention pairs with it. Every ciphertext is opened at most once, so there
are no more rounds than ciphertexts, and one. -/

namespace Wiretap

/-- What opens what: the kinds of the keys and the naming convention. -/
structure Locks where
  table : KeyTable
  naming : Naming

namespace Locks

/-- The key that opens ciphertexts under `key`. -/
def requiredKey (l : Locks) (key : String) : String :=
  if l.table.kind? key = some .publicHalf then (l.naming.privateKeyFor key).getD key else key

/-- Whether `key` is known and opens ciphertexts. -/
def canOpen (l : Locks) (known : Terms) (key : String) : Bool :=
  key ∈ known && l.table.opens key

end Locks

/-- In which order a principal turns to its ciphertexts in a round. -/
structure Schedule where
  visit : Nat → String → List Ciphertext → List Ciphertext
  perm : ∀ round name cs, (visit round name cs).Perm cs

/-- Ciphertexts in the order of their texts. -/
def Schedule.byText : Schedule where
  visit _ _ cs := cs.mergeSort fun a b => a.text ≤ b.text
  perm _ _ cs := List.mergeSort_perm cs _

/-- What one principal's pass over its ciphertexts leaves: what is known then, the ciphertexts
that stay closed, and those that told something new. -/
structure Pass where
  known : Terms
  closed : List Ciphertext
  telling : List Ciphertext
  fault : Option Fault

/-- One pass over ciphertexts. What is learned from one of them helps with those after it. -/
def Locks.pass (l : Locks) (known : Terms) : List Ciphertext → Pass
  | [] => ⟨known, [], [], none⟩
  | c :: cs =>
    if l.canOpen known (l.requiredKey c.key) then
      let opened := c.plaintext.unwrap known
      match opened.fault with
      | some f => ⟨opened.known, cs, [], some f⟩
      | none =>
        let rest := l.pass opened.known cs
        if opened.isNew then { rest with telling := c :: rest.telling } else rest
    else
      let rest := l.pass known cs
      { rest with closed := c :: rest.closed }

/-- A view with the ciphertexts that are still closed. -/
structure Effort where
  view : View
  closed : List Ciphertext

/-- What a round leaves: the efforts of all principals, who learned something from what, and the
fault that stopped it, if one did. -/
structure Round where
  efforts : List Effort
  told : List (String × Ciphertext)
  fault : Option Fault

/-- Round number `n`: one pass of each principal in turn. -/
def Locks.round (l : Locks) (schedule : Schedule) (n : Nat) : List Effort → Round
  | [] => ⟨[], [], none⟩
  | e :: es =>
    let pass := l.pass e.view.knows (schedule.visit n e.view.name e.closed)
    let effort : Effort := ⟨{ e.view with knows := pass.known }, pass.closed⟩
    let told := pass.telling.map ((e.view.name, ·))
    match pass.fault with
    | some f => ⟨effort :: es, told, some f⟩
    | none =>
      let rest := l.round schedule n es
      ⟨effort :: rest.efforts, told ++ rest.told, rest.fault⟩

/-- A state after a round, with what is still closed. -/
structure Turn where
  state : Knowledge
  efforts : List Effort
  events : List Event
  fault : Option Fault

/-- Whether the round learned something, and nothing stopped it. -/
def Turn.goesOn (t : Turn) : Bool :=
  t.fault.isNone && !t.events.isEmpty

/-- The end of the work, after a last round. -/
def Turn.finish (t : Turn) : Progress :=
  match t.fault with
  | some f => ⟨t.state, t.events, some f⟩
  | none => ⟨t.state, t.events ++ [.settled t.state.rounds], none⟩

namespace Knowledge

/-- One more round. It is counted even if a fault stops it, and recorded if none does. -/
def turn (k : Knowledge) (l : Locks) (schedule : Schedule) (efforts : List Effort) : Turn :=
  let number := k.rounds + 1
  let round := l.round schedule number efforts
  let state := { k with views := round.efforts.map (·.view), rounds := number }
  { state := if round.fault.isNone then state.record else state
    efforts := round.efforts
    events := round.told.map fun (name, c) => .opened number name c.text
    fault := round.fault }

/-- Goes on with rounds, at most `budget` of them, while they learn something. -/
def settle (l : Locks) (schedule : Schedule) : Nat → Turn → Progress
  | 0, t => t.finish
  | budget + 1, t =>
    if t.goesOn then
      let rest := settle l schedule budget (t.state.turn l schedule t.efforts)
      { rest with events := t.events ++ rest.events }
    else t.finish

/-- The efforts at the start: all ciphertexts are closed. -/
def efforts (k : Knowledge) : List Effort :=
  k.views.map fun v => ⟨v, v.pending⟩

/-- Opens ciphertexts until a round learns nothing. -/
def saturate (k : Knowledge) (l : Locks) (schedule : Schedule) : Progress :=
  settle l schedule (k.views.flatMap (·.pending)).length (k.turn l schedule k.efforts)

end Knowledge

namespace Protocol

/-- What opens what in a protocol. -/
def locks (p : Protocol) (naming : Naming) : Locks :=
  ⟨p.keyTable, naming⟩

/-- What everybody knows after a run of the protocol. -/
def derive (p : Protocol) (naming : Naming) (schedule : Schedule) : Progress :=
  let observed := (Knowledge.seed p).record.observeAll p
  match observed.fault with
  | some _ => { observed with events := p.seedEvents ++ observed.events }
  | none =>
    let final := observed.state.saturate (p.locks naming) schedule
    { final with events := p.seedEvents ++ observed.events ++ final.events }

end Protocol

end Wiretap
