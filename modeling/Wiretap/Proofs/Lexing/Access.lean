import Wiretap.Proofs.Lexing.Scan

/-! Reading a text one character at a time. The lexer passes over runs and pairs of characters at
once. Here it has two means only: a look at the character at some distance ahead of the cursor, if
there is one, and a move past the next character, which fails at the end of the text. A lexer with
these means finds the same and never moves at the end. -/

namespace Wiretap.Cursor

variable {c : Cursor}

/-- The cursor past the next character, which has to be there. -/
def forward (c : Cursor) : Except Overrun Cursor :=
  match c.advance? with
  | some (_, next) => .ok next
  | none => .error .overrun

theorem forward_shorter {next : Cursor} (h : c.forward = .ok next) :
    next.rest.length < c.rest.length := by
  unfold forward advance? at h
  cases hc : c.rest with
  | nil => simp [hc] at h
  | cons x xs =>
    simp only [hc] at h
    cases h
    exact Nat.lt_succ_self _

/-- Moves on while the next character has a property, and tells what was passed. -/
def forwardWhile (p : Char → Bool) (c : Cursor) : Except Overrun (List Char × Cursor) :=
  match c.peek 0 with
  | .error e => .error e
  | .ok none => .ok ([], c)
  | .ok (some x) =>
    if p x then
      match _ : c.forward with
      | .error e => .error e
      | .ok next => do
        let (run, last) ← forwardWhile p next
        return (x :: run, last)
    else .ok ([], c)
termination_by c.rest.length
decreasing_by
  rename_i h
  exact forward_shorter h

/-- A token of two characters, of which `x` is next. -/
def pairStepByOne (c : Cursor) (kind : Kind) (cause : LexCause) (x second : Char) :
    Except Overrun Step := do
  let next ← c.forward
  if (← next.peek 0) = some second then
    return .found ⟨kind, String.ofList [x, second], c.position⟩ (← next.forward)
  else return .failed ⟨cause, c.position⟩ next

/-- A step of the lexer by looks and moves. -/
def stepByOne (c : Cursor) : Except Overrun Step := do
  match ← c.peek 0 with
  | none => return .finished
  | some x =>
    if Text.isSpace x then return .skipped (← c.forward)
    else if x = '#' || (x = '/' && (← c.peek 1) = some '/') then
      return .skipped (← c.forwardWhile (· != '\n')).2
    else if Text.isLetter x then
      let (run, next) ← c.forwardWhile Text.isWordChar
      return .found ⟨.ofWord (String.ofList run), String.ofList run, c.position⟩ next
    else match Kind.ofMark? x with
    | some kind => return .found ⟨kind, String.singleton x, c.position⟩ (← c.forward)
    | none =>
      if x = '|' then c.pairStepByOne .join .loneBar x '|'
      else if x = '-' then c.pairStepByOne .arrow .loneDash x '>'
      else return .failed ⟨.unexpected x, c.position⟩ c

/-! ### Looks and moves inside the text -/

theorem peek_ahead (c : Cursor) (n : Nat) : c.peek n = .ok c.rest[n]? := by
  have hplace : (0 : Int) ≤ c.offset + n := by omega
  have hindex : ((c.offset : Int) + n).toNat = c.past.reverse.length + n := by
    rw [List.length_reverse]
    exact Int.toNat_natCast (c.past.length + n)
  unfold peek
  rw [if_pos hplace, hindex, List.getElem?_append_right (Nat.le_add_right _ _),
    Nat.add_sub_cancel_left]

theorem peek_zero (c : Cursor) : c.peek 0 = .ok c.rest.head? := by
  rw [List.head?_eq_getElem?]
  exact c.peek_ahead 0

theorem forward_cons {x : Char} {xs : List Char} (h : c.rest = x :: xs) :
    c.forward = .ok (c.move x xs) := by
  simp only [forward, advance?, h]

theorem readWhile_cons {p : Char → Bool} {x : Char} {xs : List Char} (h : c.rest = x :: xs)
    (hx : p x = true) :
    c.readWhile p = (x :: ((c.move x xs).readWhile p).1, ((c.move x xs).readWhile p).2) := by
  simp [readWhile, h, hx, move, Position.afterAll]

theorem readWhile_stop {p : Char → Bool} (h : ∀ x ∈ c.rest.head?, p x = false) :
    c.readWhile p = ([], c) := by
  obtain ⟨past, rest, position⟩ := c
  cases rest with
  | nil => rfl
  | cons x xs => simp [readWhile, h x rfl, Position.afterAll]

theorem forwardWhile_eq (p : Char → Bool) (c : Cursor) :
    c.forwardWhile p = .ok (c.readWhile p) := by
  -- Each move leaves less of the text.
  induction hlen : c.rest.length using Nat.strongRecOn generalizing c with
  | _ n ih =>
    subst hlen
    unfold forwardWhile
    rw [peek_zero]
    cases hc : c.rest with
    | nil => rw [readWhile_stop (by simp [hc])]; rfl
    | cons x xs =>
      have hforward := forward_cons hc
      dsimp only [List.head?_cons]
      cases hx : p x with
      | false => rw [readWhile_stop (by simp [hc, hx])]; rfl
      | true =>
        rw [readWhile_cons hc hx, if_pos rfl]
        split
        · rename_i e he
          cases he.symm.trans hforward
        · rename_i next hnext
          cases hnext.symm.trans hforward
          rw [ih _ (forward_shorter hforward) _ rfl]
          rfl

theorem pairStepByOne_eq {x : Char} {xs : List Char} (hc : c.rest = x :: xs) (kind : Kind)
    (cause : LexCause) (second : Char) :
    c.pairStepByOne kind cause x second = .ok (c.pairStep kind cause x second xs) := by
  simp only [pairStepByOne, forward_cons hc, peek_zero, bind, Except.bind]
  cases xs with
  | nil => rfl
  | cons y ys =>
    have hnext : (c.move x (y :: ys)).rest = y :: ys := rfl
    simp only [hnext, List.head?_cons, Option.some_inj, forward_cons hnext, pairStep]
    by_cases hy : y = second
    · rw [if_pos hy, if_pos hy, hy]
      rfl
    · rw [if_neg hy, if_neg hy]
      rfl

/-- A step by looks and moves is a step of the lexer. -/
theorem stepByOne_eq (c : Cursor) : c.stepByOne = .ok c.step := by
  cases hc : c.rest with
  | nil => simp only [stepByOne, step, peek_zero, hc]; rfl
  | cons x xs =>
    have hsecond : c.peek 1 = .ok xs.head? := by
      rw [List.head?_eq_getElem?]
      exact (c.peek_ahead 1).trans (by rw [hc]; rfl)
    simp only [stepByOne, step, hc, peek_zero, hsecond, forward_cons hc, forwardWhile_eq,
      pairStepByOne_eq hc, List.head?_cons, bind, Except.bind, skipLine, readWord]
    by_cases hspace : Text.isSpace x = true
    · rw [if_pos hspace, if_pos hspace]
      rfl
    rw [if_neg hspace, if_neg hspace]
    by_cases hcomment : (x = '#' || (x = '/' && xs.head? = some '/')) = true
    · rw [if_pos hcomment, if_pos hcomment]
      rfl
    rw [if_neg hcomment, if_neg hcomment]
    by_cases hletter : Text.isLetter x = true
    · rw [if_pos hletter, if_pos hletter]
      rfl
    rw [if_neg hletter, if_neg hletter]
    cases Kind.ofMark? x with
    | some kind => rfl
    | none =>
      dsimp only
      by_cases hbar : x = '|'
      · rw [if_pos hbar, if_pos hbar]
      rw [if_neg hbar, if_neg hbar]
      by_cases hdash : x = '-'
      · rw [if_pos hdash, if_pos hdash]
      rw [if_neg hdash, if_neg hdash]
      rfl

/-! ### Reading to the end -/

/-- The tokens of the rest of the text, after `found`, by looks and moves. -/
def tokensByOne (found : List Token) (c : Cursor) :
    Except Overrun (Except LexError Tokens × Cursor) :=
  match _ : c.stepByOne with
  | .error e => .error e
  | .ok .finished => .ok (.ok ⟨found.reverse, ⟨.ending, "", c.position⟩, .refl Kind.ending⟩, c)
  | .ok (.skipped next) => tokensByOne found next
  | .ok (.found token next) => tokensByOne (token :: found) next
  | .ok (.failed error next) => .ok (.error error, next)
termination_by c.rest.length
decreasing_by
  all_goals
    rename_i h
    have hstep := Except.ok.inj (c.stepByOne_eq.symm.trans h)
    exact step_shorter (by rw [hstep]; rfl)

/-- The lexer by looks and moves does not overrun the text, and its outcome is that of the lexer. -/
theorem tokensByOne_eq (found : List Token) (c : Cursor) :
    c.tokensByOne found = .ok (c.tokensAfter found) := by
  fun_induction tokensByOne found c with
  | case1 found c e h => exact nomatch c.stepByOne_eq.symm.trans h
  | case2 found c h =>
    have hstep := Except.ok.inj (c.stepByOne_eq.symm.trans h)
    rw [tokensAfter]
    split <;> simp_all
  | case3 found c next h ih =>
    rw [ih, tokensAfter_skipped (Except.ok.inj (c.stepByOne_eq.symm.trans h))]
  | case4 found c token next h ih =>
    rw [ih, tokensAfter_found (Except.ok.inj (c.stepByOne_eq.symm.trans h))]
  | case5 found c error next h =>
    rw [tokensAfter_failed (Except.ok.inj (c.stepByOne_eq.symm.trans h))]

end Wiretap.Cursor
