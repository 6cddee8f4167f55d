import Wiretap.Proofs.Parsing.Acceptance
import Wiretap.Proofs.Parsing.Outcome

/-! Parsing by index. A stream cannot be read past its end, and the rules cut their loops and their
nesting off at the number of tokens. Here the same grammar is read from a plain list by a cursor
that is a number. A look outside the list is a mishap of its own. Loops and recursion know no bound:
a walk is given fuel for them, and one that runs out of it is unfinished, without an outcome. With
as much fuel as there are tokens, or more, each walk ends from every place of a stream, with the
outcome of its rule and at the same place. -/

namespace Wiretap

/-- Why a walk breaks off. -/
inductive Mishap where
  | complaint (e : ParseError)
  | overrun
deriving DecidableEq

/-- A rule that reads a list of tokens from an index on, and may be unfinished. -/
abbrev Walk := ReaderT (List Token) (ExceptT Mishap (StateT Nat Option))

namespace Walk

variable {α β : Type}

/-- What a walk comes to, and the index that it reaches. -/
def run (m : Walk α) (tokens : List Token) (current : Nat) : Option (Except Mishap α × Nat) :=
  (ReaderT.run m tokens).run.run current

/-! ### The grammar

Each walk has the name and the meaning of a rule. -/

/-- A walk without fuel. -/
def unfinished : Walk α :=
  fun _ _ => none

/-- The token at an index. -/
def fetch (i : Nat) : Walk Token := do
  match (← read)[i]? with
  | some t => return t
  | none => throw .overrun

def peek : Walk Token := do
  fetch (← get)

def check (k : Kind) : Walk Bool := do
  return (← peek).kind == k

/-- Whether there is a token after the next one and has kind `k`. -/
def checkSecond (k : Kind) : Walk Bool := do
  let second := (← get) + 1
  if second < (← read).length then return (← fetch second).kind == k else return false

/-- Takes the next token. An end mark is not passed. -/
def advance : Walk Token := do
  let t ← peek
  if t.kind != .ending then
    modify (· + 1)
  return t

def accept (k : Kind) : Walk Bool := do
  if ← check k then
    let _ ← advance
    return true
  else return false

def complaint (expected : Expectation) : Walk ParseError := do
  return ⟨expected, ← peek, ← get⟩

def refuse (expected : Expectation) : Walk α := do
  throw (.complaint (← complaint expected))

def consume (k : Kind) (expected : Expectation) : Walk Token := do
  if ← check k then advance else refuse expected

def name (expected : Expectation) : Walk String := do
  return (← consume .identifier expected).text

/-- Collects items until there is none, after `found`, which holds the earlier ones, last first. -/
def collect (item : Walk (Option α)) : Nat → List α → Walk (List α)
  | 0, _ => unfinished
  | fuel + 1, found => do
    match ← item with
    | none => return found.reverse
    | some a => collect item fuel (a :: found)

/-- An item after a mark, if the mark is there. -/
def after (mark : Kind) (item : Walk α) : Walk (Option α) := do
  if ← accept mark then return some (← item) else return none

def names (fuel : Nat) (first next : Expectation) : Walk (List String) := do
  let head ← name first
  let rest ← collect (after .comma (name next)) fuel []
  return head :: rest

def rolesDecl (fuel : Nat) : Walk (List String) := do
  let _ ← consume .rolesWord .rolesWord
  let _ ← consume .colon .rolesColon
  names fuel .firstRole .nextRole

def keyDecl (fuel : Nat) (form : KeyForm) : Walk KeyDecl := do
  let _ ← consume .keyWord (.keyWord form)
  let key ← name (.keyName form)
  let _ ← consume .colon (.keyColon form)
  if form.many then
    return ⟨form.kind, key, ← names fuel .firstOwner .nextOwner⟩
  else
    let owner ← name .firstOwner
    if ← check .comma then refuse (.singleOwner form)
    else return ⟨form.kind, key, [owner]⟩

def nonceDecl : Walk NonceDecl := do
  let nonce ← name .nonceName
  let _ ← consume .colon .nonceColon
  return ⟨nonce, ← name .firstOwner⟩

def decl? (fuel : Nat) : Walk (Option (KeyDecl ⊕ NonceDecl)) := do
  if Rule.startsDecl (← peek).kind then
    if ← accept .sharedWord then return some (.inl (← keyDecl fuel .shared))
    else if ← accept .privateWord then return some (.inl (← keyDecl fuel .privateHalf))
    else if ← accept .publicWord then return some (.inl (← keyDecl fuel .publicHalf))
    else
      let _ ← advance
      return some (.inr (← nonceDecl))
  else return none

def enc (expr : Walk Node) : Walk Node := do
  let _ ← consume .leftParen (.opening .enc)
  let badKey ← complaint .encKey
  match ← expr with
  | .ident key =>
    let _ ← consume .comma .encComma
    let message ← expr
    let _ ← consume .rightParen (.closing .enc)
    return .enc key message
  | _ => throw (.complaint badKey)

def keyed (construct : Construct) (keyExpected commaExpected : Expectation)
    (make : String → Node → Node) (expr : Walk Node) : Walk Node := do
  let _ ← consume .leftParen (.opening construct)
  let key ← name keyExpected
  let _ ← consume .comma commaExpected
  let message ← expr
  let _ ← consume .rightParen (.closing construct)
  return make key message

def verify (expr : Walk Node) : Walk Node := do
  let _ ← consume .leftParen (.opening .vrfy)
  let key ← name .vrfyKey
  let _ ← consume .comma .vrfyKeyComma
  let message ← expr
  let _ ← consume .comma .vrfyMessageComma
  let signature ← expr
  let _ ← consume .rightParen (.closing .vrfy)
  return .verify key message signature

def hash (expr : Walk Node) : Walk Node := do
  let _ ← consume .leftParen (.opening .hash)
  let message ← expr
  let _ ← consume .rightParen (.closing .hash)
  return .hash message

def operand (expr : Walk Node) : Walk Node := do
  if ← accept .encWord then enc expr
  else if ← accept .macWord then keyed .mac .macKey .macComma .mac expr
  else if ← accept .signWord then keyed .sign .signKey .signComma .sign expr
  else if ← accept .vrfyWord then verify expr
  else if ← accept .hashWord then hash expr
  else if ← check .identifier then return .ident (← name .identifier)
  else refuse .operand

/-- Joins operands to an expression as long as bars follow. -/
def joinAfter (item : Walk Node) : Nat → Node → Walk Node
  | 0, _ => unfinished
  | fuel + 1, left => do
    if ← accept .join then joinAfter item fuel (.concat left (← item)) else return left

/-- An expression. Constructors inside constructors take fuel. -/
def expr : Nat → Walk Node
  | 0 => unfinished
  | fuel + 1 => do
    joinAfter (operand (expr fuel)) (fuel + 1) (← operand (expr fuel))

/-- Whether a statement with a name starts here. -/
def startsNamed : Walk Bool := do
  if ← check .identifier then checkSecond .equals else return false

def stmt (fuel : Nat) : Walk Node := do
  if ← startsNamed then
    let target ← name .target
    let _ ← consume .equals .equals
    return .assign target (← expr fuel)
  else expr fuel

def message (fuel : Nat) : Walk Message := do
  let sender ← name .sender
  let _ ← consume .arrow .arrow
  let receiver ← name .receiver
  let _ ← consume .colon .receiverColon
  return ⟨sender, receiver, ← stmt fuel⟩

def message? (fuel : Nat) : Walk (Option Message) := do
  if ← check .identifier then return some (← message fuel) else return none

def protocol (fuel : Nat) : Walk Protocol := do
  let roles ← rolesDecl fuel
  let decls ← collect (decl? fuel) fuel []
  let messages ← collect (message? fuel) fuel []
  let next ← peek
  if Rule.startsDecl next.kind && !messages.isEmpty then refuse .noDeclaration
  else
    let _ ← consume .ending .ending
    return {
      roles
      keys := decls.filterMap (·.getLeft?)
      nonces := decls.filterMap (·.getRight?)
      messages }

end Walk

/-! ### Walks beside rules -/

/-- The stream is what the tokens have from its place on. -/
def Stream.IsOf (s : Stream) (tokens : List Token) : Prop :=
  tokens.drop s.consumed = s.ahead ++ s.stop :: s.beyond

namespace Stream.IsOf

variable {s t : Stream} {tokens ts : List Token}

theorem peek (h : s.IsOf tokens) : tokens[s.consumed]? = some s.peek := by
  have hnext : (tokens.drop s.consumed)[0]? = some s.peek := by
    rw [h]
    unfold Stream.peek
    cases s.ahead with
    | nil => rfl
    | cons x rest => rfl
  simpa using hnext

theorem second (h : s.IsOf tokens) : tokens[s.consumed + 1]? = s.second? := by
  have hsecond : (tokens.drop s.consumed)[1]? = s.second? := by
    rw [h]
    unfold Stream.second?
    match s.ahead with
    | [] => exact List.head?_eq_getElem?.symm
    | [_] => rfl
    | _ :: _ :: _ => rfl
  simpa using hsecond

theorem passes (h : s.IsOf tokens) (hpass : s.Passes ts t) : t.IsOf tokens := by
  unfold IsOf at h ⊢
  rw [hpass.consumed, ← List.drop_drop, h, hpass.ahead, hpass.stop, hpass.beyond,
    List.append_assoc, List.drop_left]

theorem length_lt (h : s.IsOf tokens) : s.ahead.length < tokens.length := by
  have hlength := congrArg List.length h
  rw [List.length_drop, List.length_append, List.length_cons] at hlength
  omega

end Stream.IsOf

theorem Stream.advance_eq_self {s : Stream} (h : s.peek.kind = .ending) : s.advance = s := by
  have hahead := ahead_eq_nil h
  unfold advance
  split
  · rfl
  · simp_all

theorem Stream.exists_passes_advance (s : Stream) : ∃ ts, s.Passes ts s.advance := by
  by_cases h : s.peek.kind = .ending
  · rw [advance_eq_self h]
    exact ⟨[], .refl s⟩
  · exact ⟨_, passes_advance h⟩

namespace Rule

variable {α : Type}

/-- The outcome of a rule, with its place as an index. -/
def counted : EStateM.Result ParseError Stream α → Except Mishap α × Nat
  | .ok a t => (.ok a, t.consumed)
  | .error e t => (.error (.complaint e), t.consumed)

/-- Where a rule ends. -/
def place : EStateM.Result ParseError Stream α → Stream
  | .ok _ t => t
  | .error _ t => t

end Rule

namespace Walk

variable {α β : Type} {tokens : List Token} {s : Stream} {i n : Nat}

theorem run_bind (m : Walk α) (f : α → Walk β) :
    (m >>= f).run tokens i = (m.run tokens i).bind fun
      | (.ok a, j) => (f a).run tokens j
      | (.error e, j) => some (.error e, j) := by
  change Option.bind _ _ = Option.bind _ _
  congr 1
  funext ⟨outcome, j⟩
  cases outcome with
  | ok a => rfl
  | error e => rfl

theorem run_bind_of_ok {m : Walk α} {f : α → Walk β} {a : α} {j : Nat}
    (h : m.run tokens i = some (.ok a, j)) : (m >>= f).run tokens i = (f a).run tokens j := by
  rw [run_bind, h]
  rfl

/-- At the stream, the walk ends with the outcome of the rule and where the rule ends. -/
structure FollowsAt (tokens : List Token) (s : Stream) (m : Walk α) (r : Rule α) : Prop where
  run : m.run tokens s.consumed = some (Rule.counted (r s))
  passes : ∃ ts, s.Passes ts (Rule.place (r s))

/-- The walk follows the rule where less than `n` tokens are left. -/
def Follows (n : Nat) (m : Walk α) (r : Rule α) : Prop :=
  ∀ ⦃tokens s⦄, s.IsOf tokens → s.ahead.length < n → FollowsAt tokens s m r

theorem FollowsAt.bind {m : Walk α} {r : Rule α} {f : α → Walk β} {g : α → Rule β}
    (h : FollowsAt tokens s m r)
    (hf : ∀ a t, r s = .ok a t → FollowsAt tokens t (f a) (g a)) :
    FollowsAt tokens s (m >>= f) (r >>= g) := by
  obtain ⟨hrun, ts, hpass⟩ := h
  cases hr : r s with
  | ok a t =>
    rw [hr] at hrun hpass
    obtain ⟨hrun', us, hpass'⟩ := hf a t hr
    have hbind : (r >>= g) s = g a t := Rule.bind_eq_of_ok hr
    refine ⟨?_, ts ++ us, ?_⟩
    · rw [run_bind_of_ok hrun, hbind, hrun']
    · rw [hbind]
      exact hpass.trans hpass'
  | error e t =>
    rw [hr] at hrun hpass
    have hbind : (r >>= g) s = .error e t := Rule.bind_eq_error.mpr (.inl hr)
    refine ⟨?_, ts, ?_⟩
    · rw [run_bind, hrun, hbind]
      rfl
    · rw [hbind]
      exact hpass

theorem FollowsAt.place {m : Walk α} {r : Rule α} (h : FollowsAt tokens s m r)
    (hs : s.IsOf tokens) : (Rule.place (r s)).IsOf tokens := by
  obtain ⟨ts, hpass⟩ := h.passes
  exact hs.passes hpass

theorem follows_zero (m : Walk α) (r : Rule α) : Follows 0 m r :=
  fun _ _ _ hlength => absurd hlength (Nat.not_lt_zero _)

theorem Follows.mono {k : Nat} {m : Walk α} {r : Rule α} (h : Follows n m r) (hk : k ≤ n) :
    Follows k m r :=
  fun _ _ hs hlength => h hs (Nat.lt_of_lt_of_le hlength hk)

theorem Follows.bind {m : Walk α} {r : Rule α} {f : α → Walk β} {g : α → Rule β}
    (h : Follows n m r) (hf : ∀ a, Follows n (f a) (g a)) :
    Follows n (m >>= f) (r >>= g) := by
  intro tokens s hs hlength
  have hm := h hs hlength
  refine hm.bind fun a t hr => ?_
  obtain ⟨ts, hpass⟩ := hm.passes
  rw [hr] at hpass
  exact hf a (hs.passes hpass) (hpass.length_le.trans_lt hlength)

theorem follows_pure (a : α) : Follows n (pure a) (pure a) :=
  fun _ s _ _ => ⟨rfl, [], .refl s⟩

/-! ### Single tokens -/

theorem run_fetch {t : Token} {j : Nat} (h : tokens[i]? = some t) :
    (fetch i).run tokens j = some (.ok t, j) := by
  have hread : (read : Walk (List Token)).run tokens j = some (.ok tokens, j) := rfl
  unfold fetch
  rw [run_bind_of_ok hread, h]
  rfl

theorem run_get : (get : Walk Nat).run tokens i = some (.ok i, i) :=
  rfl

theorem run_peek (hs : s.IsOf tokens) :
    peek.run tokens s.consumed = some (.ok s.peek, s.consumed) := by
  unfold peek
  rw [run_bind_of_ok run_get, run_fetch hs.peek]

theorem run_check (hs : s.IsOf tokens) (k : Kind) :
    (check k).run tokens s.consumed = some (.ok (s.peek.kind == k), s.consumed) := by
  unfold check
  rw [run_bind_of_ok (run_peek hs)]
  rfl

theorem run_advance (hs : s.IsOf tokens) :
    advance.run tokens s.consumed = some (.ok s.peek, s.advance.consumed) := by
  unfold advance
  rw [run_bind_of_ok (run_peek hs)]
  by_cases h : s.peek.kind = .ending
  · rw [Stream.advance_eq_self h, h]
    rfl
  · have hmoves := (Stream.passes_advance h).consumed
    rw [hmoves, if_pos (by simpa using h)]
    rfl

theorem run_complaint (hs : s.IsOf tokens) (expected : Expectation) :
    (complaint expected).run tokens s.consumed =
      some (.ok ⟨expected, s.peek, s.consumed⟩, s.consumed) := by
  unfold complaint
  rw [run_bind_of_ok (run_peek hs)]
  rfl

theorem follows_peek : Follows n peek Rule.peek :=
  fun _ s hs _ => ⟨run_peek hs, [], .refl s⟩

theorem follows_check (k : Kind) : Follows n (check k) (Rule.check k) :=
  fun _ s hs _ => ⟨run_check hs k, [], .refl s⟩

theorem follows_advance : Follows n advance Rule.advance :=
  fun _ s hs _ => ⟨run_advance hs, s.exists_passes_advance⟩

theorem follows_complaint (expected : Expectation) :
    Follows n (complaint expected) (Rule.complaint expected) :=
  fun _ s hs _ => ⟨run_complaint hs expected, [], .refl s⟩

theorem follows_throw (e : ParseError) :
    Follows n (throw (.complaint e) : Walk α) (throw e) :=
  fun _ s _ _ => ⟨rfl, [], .refl s⟩

theorem follows_refuse (expected : Expectation) :
    Follows n (refuse expected : Walk α) (Rule.refuse expected) :=
  (follows_complaint expected).bind fun e => follows_throw e

theorem follows_checkSecond (k : Kind) : Follows n (checkSecond k) (Rule.checkSecond k) := by
  intro tokens s hs _
  have hread : (read : Walk (List Token)).run tokens s.consumed = some (.ok tokens, s.consumed) :=
    rfl
  refine ⟨?_, [], .refl s⟩
  unfold checkSecond Rule.checkSecond
  rw [run_bind_of_ok run_get, run_bind_of_ok hread, ← hs.second]
  cases hsecond : tokens[s.consumed + 1]? with
  | none =>
    rw [if_neg (Nat.not_lt.mpr (List.getElem?_eq_none_iff.mp hsecond))]
    rfl
  | some t =>
    rw [if_pos (List.getElem?_eq_some_iff.mp hsecond).1, run_bind_of_ok (run_fetch hsecond)]
    rfl

theorem follows_ite {c : Prop} [Decidable c] {m m' : Walk α} {r r' : Rule α}
    (h : Follows n m r) (h' : Follows n m' r') :
    Follows n (if c then m else m') (if c then r else r') := by
  split
  · exact h
  · exact h'

theorem follows_accept (k : Kind) : Follows n (accept k) (Rule.accept k) := by
  have haccept : Rule.accept k = (do
      if ← Rule.check k then
        let _ ← Rule.advance
        return true
      else return false) := by
    funext s
    rw [Rule.check_bind_eq]
    unfold Rule.accept
    split
    · rfl
    · rfl
  rw [haccept]
  exact (follows_check k).bind fun _ =>
    follows_ite (follows_advance.bind fun _ => follows_pure true) (follows_pure false)

theorem follows_consume (k : Kind) (expected : Expectation) :
    Follows n (consume k expected) (Rule.consume k expected) := by
  have hconsume : Rule.consume k expected = (do
      if ← Rule.check k then Rule.advance else Rule.refuse expected) := by
    funext s
    rw [Rule.check_bind_eq]
    unfold Rule.consume
    split
    · rfl
    · rfl
  rw [hconsume]
  exact (follows_check k).bind fun _ => follows_ite follows_advance (follows_refuse expected)

theorem follows_name (expected : Expectation) : Follows n (name expected) (Rule.name expected) :=
  (follows_consume .identifier expected).bind fun t => follows_pure t.text

/-- What stands behind an accepted token has fewer tokens left. -/
theorem follows_accept_ite {k : Kind} (hk : k ≠ .ending) {m m' : Walk α} {r r' : Rule α}
    (h : Follows n m r) (h' : Follows (n + 1) m' r') :
    Follows (n + 1) (do if ← accept k then m else m') (do if ← Rule.accept k then r else r') := by
  intro tokens s hs hlength
  refine (follows_accept k hs hlength).bind fun taken t haccept => ?_
  by_cases hkind : s.peek.kind = k
  · rw [Rule.accept_of_kind hkind] at haccept
    cases haccept
    have hpass := Stream.passes_advance (hkind ▸ hk)
    exact h (hs.passes hpass) (Nat.lt_of_lt_of_le hpass.length_lt (Nat.le_of_lt_succ hlength))
  · rw [Rule.accept_of_kind_ne hkind] at haccept
    cases haccept
    exact h' hs hlength

/-! ### Repetition -/

/-- Every item takes a token. -/
def Takes (item : Rule (Option α)) : Prop :=
  ∀ ⦃s a t⦄, item s = .ok (some a) t → t.ahead.length < s.ahead.length

theorem takes_of_sound {item : Rule (Option α)} {G : List Token → α → Prop}
    (h : item.Sound (Rule.Optional G)) (hG : ∀ ts a, G ts a → ts ≠ []) : Takes item := by
  intro s a t hitem
  obtain ⟨ts, hpass, hts⟩ := h hitem
  obtain ⟨x, rest, rfl⟩ := List.exists_cons_of_ne_nil (hG ts a hts)
  exact hpass.length_lt

theorem manyUpTo_succ (item : Rule (Option α)) (limit : Nat) (found : List α) :
    Rule.manyUpTo item (limit + 1) found = (do
      match ← item with
      | none => return found.reverse
      | some a => Rule.manyUpTo item limit (a :: found)) := by
  funext s
  change _ = EStateM.bind _ _ s
  unfold EStateM.bind
  rw [Rule.manyUpTo]
  rcases item s with ⟨_ | a, t⟩ | ⟨e, t⟩
  · rfl
  · rfl
  · rfl

/-- Every item takes a token, so neither the bound of the repetition nor the end of the fuel is
reached. -/
theorem follows_collect {item : Walk (Option α)} {item' : Rule (Option α)}
    (hitem : Follows n item item') (htakes : Takes item') {fuel : Nat} (hfuel : n ≤ fuel)
    (found : List α) : Follows n (collect item fuel found) (Rule.manyUpTo item' n found) := by
  induction n generalizing fuel found with
  | zero => exact follows_zero _ _
  | succ n ih =>
    obtain ⟨fuel, rfl⟩ := Nat.exists_eq_add_one_of_ne_zero (n := fuel) (by omega)
    intro tokens s hs hlength
    rw [collect, manyUpTo_succ]
    have hfirst := hitem hs hlength
    refine hfirst.bind fun found? t hresult => ?_
    have ht : t.IsOf tokens := by
      have hplace := hfirst.place hs
      rwa [hresult] at hplace
    cases found? with
    | none => exact follows_pure (n := t.ahead.length + 1) _ ht (Nat.lt_succ_self _)
    | some a =>
      have hless := htakes hresult
      exact ih (hitem.mono (Nat.le_succ n)) (by omega) _ ht (by omega)

theorem follows_many {item : Walk (Option α)} {item' : Rule (Option α)}
    (hitem : Follows n item item') (htakes : Takes item') {fuel : Nat} (hfuel : n ≤ fuel) :
    Follows n (collect item fuel []) (Rule.many item') := by
  intro tokens s hs hlength
  have hwithin : s.ahead.length + 1 ≤ fuel := by omega
  have h := follows_collect (hitem.mono hlength) htakes hwithin [] hs (Nat.lt_succ_self _)
  exact ⟨h.run, h.passes⟩

theorem follows_after {mark : Kind} {item : Walk α} {item' : Rule α}
    (hitem : Follows n item item') : Follows n (after mark item) (Rule.after mark item') :=
  (follows_accept mark).bind fun _ =>
    follows_ite (hitem.bind fun a => follows_pure (some a)) (follows_pure none)

/-! ### Declarations -/

variable {fuel : Nat}

theorem follows_names (hfuel : n ≤ fuel) (first next : Expectation) :
    Follows n (names fuel first next) (Rule.names first next) := by
  have htakes : Takes (Rule.after .comma (Rule.name next)) := by
    refine takes_of_sound (Rule.after_sound (by decide) (Rule.name_sound next)) ?_
    rintro _ _ ⟨⟩
    exact List.cons_ne_nil _ _
  exact (follows_name first).bind fun _ =>
    (follows_many (follows_after (follows_name next)) htakes hfuel).bind fun _ => follows_pure _

theorem follows_rolesDecl (hfuel : n ≤ fuel) : Follows n (rolesDecl fuel) Rule.rolesDecl :=
  (follows_consume _ _).bind fun _ => (follows_consume _ _).bind fun _ => follows_names hfuel _ _

theorem follows_keyDecl (hfuel : n ≤ fuel) (form : KeyForm) :
    Follows n (keyDecl fuel form) (Rule.keyDecl form) := by
  refine (follows_consume _ _).bind fun _ => (follows_name _).bind fun _ =>
    (follows_consume _ _).bind fun _ => follows_ite ?_ ?_
  · exact (follows_names hfuel _ _).bind fun _ => follows_pure _
  · exact (follows_name _).bind fun _ => (follows_check _).bind fun _ =>
      follows_ite (follows_refuse _) (follows_pure _)

theorem follows_nonceDecl : Follows n nonceDecl Rule.nonceDecl :=
  (follows_name _).bind fun _ => (follows_consume _ _).bind fun _ =>
    (follows_name _).bind fun _ => follows_pure _

/-- A declaration whose first word is known to be one. -/
def startedDecl : Rule (Option (KeyDecl ⊕ NonceDecl)) := do
  if ← Rule.accept .sharedWord then return some (.inl (← Rule.keyDecl .shared))
  else if ← Rule.accept .privateWord then return some (.inl (← Rule.keyDecl .privateHalf))
  else if ← Rule.accept .publicWord then return some (.inl (← Rule.keyDecl .publicHalf))
  else
    let _ ← Rule.advance
    return some (.inr (← Rule.nonceDecl))

theorem decl?_eq : Rule.decl? = (do
    if Rule.startsDecl (← Rule.peek).kind then startedDecl else return none) := by
  funext s
  change _ = (if Rule.startsDecl s.peek.kind = true then startedDecl else pure none) s
  by_cases hstarts : Rule.startsDecl s.peek.kind = true
  · rw [if_pos hstarts]
    simp only [Rule.startsDecl, Bool.or_eq_true, beq_iff_eq] at hstarts
    simp only [Rule.decl?, startedDecl, Rule.accept_bind_eq, if_true, Bool.false_eq_true, if_false]
    split
    · rfl
    split
    · rfl
    split
    · rfl
    -- Only one of the four words is left.
    have hnonce : s.peek.kind = .nonceWord := by tauto
    rw [if_pos hnonce]
    rfl
  · rw [if_neg hstarts]
    simp only [Rule.startsDecl, Bool.or_eq_true, beq_iff_eq, not_or] at hstarts
    obtain ⟨⟨⟨hshared, hpublic⟩, hprivate⟩, hnonce⟩ := hstarts
    simp only [Rule.decl?, Rule.accept_bind_eq, if_neg hshared, if_neg hprivate, if_neg hpublic,
      if_neg hnonce, Bool.false_eq_true, if_false]

theorem follows_decl? (hfuel : n ≤ fuel) : Follows n (decl? fuel) Rule.decl? := by
  rw [decl?_eq]
  refine follows_peek.bind fun _ => follows_ite ?_ (follows_pure _)
  refine (follows_accept _).bind fun _ => follows_ite ?_ ?_
  · exact (follows_keyDecl hfuel _).bind fun _ => follows_pure _
  refine (follows_accept _).bind fun _ => follows_ite ?_ ?_
  · exact (follows_keyDecl hfuel _).bind fun _ => follows_pure _
  refine (follows_accept _).bind fun _ => follows_ite ?_ ?_
  · exact (follows_keyDecl hfuel _).bind fun _ => follows_pure _
  exact follows_advance.bind fun _ => follows_nonceDecl.bind fun _ => follows_pure _

/-! ### Expressions -/

section Expressions

variable {inner : Walk Node} {inner' item' : Rule Node}

theorem follows_enc (h : Follows n inner inner') : Follows n (enc inner) (Rule.enc inner') := by
  refine (follows_consume _ _).bind fun _ => (follows_complaint _).bind fun badKey =>
    h.bind fun key => ?_
  cases key with
  | ident key =>
    exact (follows_consume _ _).bind fun _ => h.bind fun _ =>
      (follows_consume _ _).bind fun _ => follows_pure _
  | _ => exact follows_throw badKey

theorem follows_keyed (h : Follows n inner inner') (construct : Construct)
    (keyExpected commaExpected : Expectation) (make : String → Node → Node) :
    Follows n (keyed construct keyExpected commaExpected make inner)
      (Rule.keyed construct keyExpected commaExpected make inner') :=
  (follows_consume _ _).bind fun _ => (follows_name _).bind fun _ =>
    (follows_consume _ _).bind fun _ => h.bind fun _ =>
      (follows_consume _ _).bind fun _ => follows_pure _

theorem follows_verify (h : Follows n inner inner') :
    Follows n (verify inner) (Rule.verify inner') :=
  (follows_consume _ _).bind fun _ => (follows_name _).bind fun _ =>
    (follows_consume _ _).bind fun _ => h.bind fun _ => (follows_consume _ _).bind fun _ =>
      h.bind fun _ => (follows_consume _ _).bind fun _ => follows_pure _

theorem follows_hash (h : Follows n inner inner') : Follows n (hash inner) (Rule.hash inner') :=
  (follows_consume _ _).bind fun _ => h.bind fun _ =>
    (follows_consume _ _).bind fun _ => follows_pure _

/-- The word of a constructor takes a token from the expressions inside it. -/
theorem follows_operand (h : Follows n inner inner') :
    Follows (n + 1) (operand inner) (Rule.operand inner') := by
  refine follows_accept_ite (by decide) (follows_enc h) ?_
  refine follows_accept_ite (by decide) (follows_keyed h _ _ _ _) ?_
  refine follows_accept_ite (by decide) (follows_keyed h _ _ _ _) ?_
  refine follows_accept_ite (by decide) (follows_verify h) ?_
  refine follows_accept_ite (by decide) (follows_hash h) ?_
  exact (follows_check _).bind fun _ =>
    follows_ite ((follows_name _).bind fun _ => follows_pure _) (follows_refuse _)

theorem joinedUpTo_succ (item : Rule Node) (limit : Nat) (first : Node) (found : List Node) :
    (do return (← Rule.manyUpTo (Rule.after .join item) (limit + 1) found).foldl .concat first) =
      (do
        if ← Rule.accept .join then
          let a ← item
          return (← Rule.manyUpTo (Rule.after .join item) limit (a :: found)).foldl .concat first
        else return found.reverse.foldl .concat first : Rule Node) := by
  rw [manyUpTo_succ]
  simp only [Rule.after, bind_assoc]
  congr 1
  funext taken
  cases taken with
  | true => simp
  | false => simp

theorem follows_joinAfter {item : Walk Node} (h : Follows n item item') (hfuel : n ≤ fuel)
    (first : Node) (found : List Node) :
    Follows n (joinAfter item fuel (found.reverse.foldl .concat first)) (do
      return (← Rule.manyUpTo (Rule.after .join item') n found).foldl .concat first) := by
  induction n generalizing fuel found with
  | zero => exact follows_zero _ _
  | succ n ih =>
    obtain ⟨fuel, rfl⟩ := Nat.exists_eq_add_one_of_ne_zero (n := fuel) (by omega)
    rw [joinAfter, joinedUpTo_succ]
    have hless := h.mono (Nat.le_succ n)
    refine follows_accept_ite (by decide) (hless.bind fun a => ?_) (follows_pure _)
    have hrest := ih hless (Nat.le_of_succ_le_succ hfuel) (a :: found)
    rwa [List.reverse_cons, List.foldl_append] at hrest

theorem follows_joined {item : Walk Node} (h : Follows n item item') (hfuel : n ≤ fuel) :
    Follows n (do joinAfter item fuel (← item)) (Rule.joined item') := by
  refine h.bind fun first tokens s hs hlength => ?_
  have hwithin : s.ahead.length + 1 ≤ fuel := by omega
  have hrest := follows_joinAfter (h.mono hlength) hwithin first [] hs (Nat.lt_succ_self _)
  exact ⟨hrest.run, hrest.passes⟩

theorem follows_exprWithin (hfuel : n ≤ fuel) : Follows n (expr fuel) (Rule.exprWithin n) := by
  induction n generalizing fuel with
  | zero => exact follows_zero _ _
  | succ n ih =>
    obtain ⟨fuel, rfl⟩ := Nat.exists_eq_add_one_of_ne_zero (n := fuel) (by omega)
    exact follows_joined (follows_operand (ih (Nat.le_of_succ_le_succ hfuel))) hfuel

theorem follows_expr (hfuel : n ≤ fuel) : Follows n (expr fuel) Rule.expr := by
  intro tokens s hs hlength
  have hwithin : s.ahead.length + 1 ≤ fuel := by omega
  have h := follows_exprWithin hwithin hs (Nat.lt_succ_self _)
  exact ⟨h.run, h.passes⟩

end Expressions

/-! ### Messages and protocols -/

theorem follows_stmt (hfuel : n ≤ fuel) : Follows n (stmt fuel) Rule.stmt := by
  have hstmt : Rule.stmt = (do
      if ← Rule.check .identifier then Rule.checkSecond .equals else return false) >>=
        Rule.stmtIf := by
    funext s
    symm
    refine Rule.bind_eq_of_ok ?_
    rw [Rule.check_bind_eq]
    cases s.peek.kind == .identifier with
    | true => rfl
    | false => rfl
  rw [hstmt]
  refine Follows.bind ?_ fun named => follows_ite ?_ (follows_expr hfuel)
  · exact (follows_check _).bind fun _ => follows_ite (follows_checkSecond _) (follows_pure _)
  · exact (follows_name _).bind fun _ => (follows_consume _ _).bind fun _ =>
      (follows_expr hfuel).bind fun _ => follows_pure _

theorem follows_message (hfuel : n ≤ fuel) : Follows n (message fuel) Rule.message :=
  (follows_name _).bind fun _ => (follows_consume _ _).bind fun _ =>
    (follows_name _).bind fun _ => (follows_consume _ _).bind fun _ =>
      (follows_stmt hfuel).bind fun _ => follows_pure _

theorem follows_message? (hfuel : n ≤ fuel) : Follows n (message? fuel) Rule.message? :=
  (follows_check _).bind fun _ =>
    follows_ite ((follows_message hfuel).bind fun _ => follows_pure _) (follows_pure _)

theorem follows_protocol (hfuel : n ≤ fuel) : Follows n (protocol fuel) Rule.protocol := by
  have hdecl : Takes Rule.decl? := takes_of_sound Rule.decl?_sound fun ts d h => by
    obtain ⟨x, rest, rfl, -⟩ := h.exists_cons
    exact List.cons_ne_nil x rest
  have hmessage : Takes Rule.message? := takes_of_sound Rule.message?_sound fun ts m h => by
    obtain ⟨x, rest, rfl, -⟩ := h.exists_cons
    exact List.cons_ne_nil x rest
  refine (follows_rolesDecl hfuel).bind fun _ => ?_
  refine (follows_many (follows_decl? hfuel) hdecl hfuel).bind fun _ => ?_
  refine (follows_many (follows_message? hfuel) hmessage hfuel).bind fun _ => ?_
  exact follows_peek.bind fun _ =>
    follows_ite (follows_refuse _) ((follows_consume _ _).bind fun _ => follows_pure _)

end Walk

end Wiretap
