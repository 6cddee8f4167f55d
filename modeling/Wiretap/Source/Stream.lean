import Wiretap.Source.Token

/-! A stream of tokens that is read from left to right and never past its first end mark. -/

namespace Wiretap

/-- A place in a list of tokens: the number of tokens before it, the tokens up to the first end
mark, that end mark, and what follows it. -/
structure Stream where
  consumed : Nat
  ahead : List Token
  stop : Token
  beyond : List Token
  ahead_kind : ∀ t ∈ ahead, t.kind ≠ .ending
  stop_kind : stop.kind = .ending

namespace Stream

/-- Whether a token is not an end mark. -/
def isInner (t : Token) : Bool :=
  t.kind != .ending

theorem isInner_takeWhile (ts : List Token) : ∀ t ∈ ts.takeWhile isInner, t.kind ≠ .ending := by
  intro t ht
  have h := List.all_takeWhile (l := ts) (p := isInner)
  simpa [isInner] using List.all_eq_true.mp h t ht

/-- The stream at the start of a list of tokens. -/
def ofTokens (ts : Tokens) : Stream :=
  match h : ts.front.dropWhile isInner with
  | [] => ⟨0, ts.front.takeWhile isInner, ts.last, [], isInner_takeWhile _, ts.last_kind⟩
  | stop :: beyond =>
    ⟨0, ts.front.takeWhile isInner, stop, beyond ++ [ts.last], isInner_takeWhile _, by
      have hs := List.head?_dropWhile_not isInner ts.front
      rw [h] at hs
      simpa [isInner] using hs⟩

/-- The next token. -/
def peek (s : Stream) : Token :=
  match s.ahead with
  | [] => s.stop
  | t :: _ => t

/-- The token after the next one. -/
def second? (s : Stream) : Option Token :=
  match s.ahead with
  | [] => s.beyond.head?
  | [_] => some s.stop
  | _ :: t :: _ => some t

/-- The stream past its next token. It stays in front of an end mark. -/
def advance (s : Stream) : Stream :=
  match h : s.ahead with
  | [] => s
  | _ :: rest =>
    { s with
      consumed := s.consumed + 1
      ahead := rest
      ahead_kind := fun t ht => s.ahead_kind t (h ▸ List.mem_cons_of_mem _ ht) }

end Stream

end Wiretap
