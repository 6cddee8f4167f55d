import Wiretap.Proofs.Lexing.Access

/-! Where a text is at fault. A text has no tokens if and only if it splits into pieces up to an
offset at which no piece starts. Line and column tell the offsets of a text apart, so there is at
most one such offset, and it is the one that the error reports. -/

namespace Wiretap

namespace Position

/-- `p` comes before `q`, by line and then by column. -/
def Before (p q : Position) : Prop :=
  p.line < q.line ∨ p.line = q.line ∧ p.column < q.column

theorem before_after (p : Position) (c : Char) : p.Before (p.after c) := by
  unfold Before after
  split
  · exact .inl (by dsimp only; omega)
  · exact .inr ⟨rfl, by dsimp only; omega⟩

theorem Before.trans {p q r : Position} (h : p.Before q) (h' : q.Before r) : p.Before r := by
  unfold Before at h h' ⊢
  omega

theorem Before.ne {p q : Position} (h : p.Before q) : p ≠ q := by
  rintro rfl
  unfold Before at h
  omega

theorem before_afterAll (p : Position) {run : List Char} (h : run ≠ []) :
    p.Before (p.afterAll run) := by
  induction run generalizing p with
  | nil => exact absurd rfl h
  | cons c run ih =>
    cases run with
    | nil => exact p.before_after c
    | cons d run => exact (p.before_after c).trans (ih (p.after c) (List.cons_ne_nil _ _))

theorem past_take_before {text : List Char} {i j : Nat} (hij : i < j) (hj : j ≤ text.length) :
    (past (text.take i)).Before (past (text.take j)) := by
  have htake : text.take j = text.take i ++ (text.take j).drop i := by
    have hsplit := List.take_append_drop i (text.take j)
    rwa [List.take_take, Nat.min_eq_left hij.le, eq_comm] at hsplit
  have hrun : (text.take j).drop i ≠ [] := by
    rw [Ne, List.drop_eq_nil_iff, List.length_take]
    omega
  rw [htake, ← afterAll_past]
  exact before_afterAll _ hrun

/-- Different offsets of a text have different places. -/
theorem past_take_inj {text : List Char} {i j : Nat} (hi : i ≤ text.length)
    (hj : j ≤ text.length) (h : past (text.take i) = past (text.take j)) : i = j := by
  rcases Nat.lt_trichotomy i j with hlt | heq | hlt
  · exact absurd h (past_take_before hlt hj).ne
  · exact heq
  · exact absurd h.symm (past_take_before hlt hi).ne

end Position

namespace Lexing

/-- The text is a sequence of pieces up to the offset `j`, and no piece starts there. -/
def FailsAt (text : List Char) (j : Nat) : Prop :=
  ∃ ts, Scan [] (text.take j) (text.drop j) ts ∧ Stuck (text.drop j)

variable {source : String} {i j : Nat}

theorem FailsAt.lt_length {text : List Char} (h : FailsAt text j) : j < text.length := by
  obtain ⟨ts, -, hstuck⟩ := h
  exact Nat.lt_of_not_le fun hle => hstuck.ne_nil (List.drop_eq_nil_of_le hle)

theorem FailsAt.tokenize_eq (h : FailsAt source.toList j) :
    ∃ x ∈ (source.toList.drop j).head?,
      tokenize source = .error ⟨.ofChar x, .past (source.toList.take j)⟩ := by
  obtain ⟨ts, hscan, hstuck⟩ := h
  obtain ⟨x, rest, hrest⟩ := List.exists_cons_of_ne_nil hstuck.ne_nil
  rw [hrest] at hscan hstuck ⊢
  refine ⟨x, rfl, tokenize_of_stuck ?_ hscan hstuck⟩
  rw [← hrest, List.take_append_drop]

theorem exists_failsAt {e : LexError} (h : tokenize source = .error e) :
    ∃ j, FailsAt source.toList j := by
  obtain ⟨piece, rest, ts, hsource, hscan, hrest⟩ := exists_scan [] source.toList
  rcases hrest with rfl | hstuck
  · rw [List.append_nil] at hsource
    subst hsource
    cases (tokenize_of_scan hscan).symm.trans h
  · refine ⟨piece.length, ts, ?_⟩
    rw [hsource, List.take_left, List.drop_left]
    exact ⟨hscan, hstuck⟩

theorem FailsAt.unique (hi : FailsAt source.toList i) (hj : FailsAt source.toList j) : i = j := by
  obtain ⟨x, -, hx⟩ := hi.tokenize_eq
  obtain ⟨y, -, hy⟩ := hj.tokenize_eq
  -- The text has one error, and both offsets are its place.
  have heq := Except.error.inj (hx.symm.trans hy)
  exact Position.past_take_inj hi.lt_length.le hj.lt_length.le (congrArg LexError.position heq)

/-- The lexer fails exactly on the texts that are stuck somewhere. There is only one such place, the
error has its line and column and names what stands there, and no character is asked for past the
end of the text. -/
theorem tokenize_error_exact (source : String) :
    ((∃ e, tokenize source = .error e) ↔ ∃ j, FailsAt source.toList j) ∧
    (∀ i j, FailsAt source.toList i → FailsAt source.toList j → i = j) ∧
    (∀ e j, tokenize source = .error e → FailsAt source.toList j →
      e.position = .past (source.toList.take j) ∧
      ∃ x ∈ (source.toList.drop j).head?, e.cause = .ofChar x) ∧
    (Cursor.ofString source).tokensByOne [] = .ok (Cursor.ofString source).tokens := by
  refine ⟨⟨fun ⟨e, he⟩ => exists_failsAt he, fun ⟨j, hj⟩ => ?_⟩, fun i j hi hj => hi.unique hj,
    fun e j he hj => ?_, Cursor.tokensByOne_eq [] _⟩
  · obtain ⟨x, -, hx⟩ := hj.tokenize_eq
    exact ⟨_, hx⟩
  · obtain ⟨x, hmem, hx⟩ := hj.tokenize_eq
    cases he.symm.trans hx
    exact ⟨rfl, x, hmem, rfl⟩

/-- A question mark in a comment and a numeral in a word do no harm, a numeral of its own does. -/
def strayNumeral : String :=
  "a1 // ?\n||1->"

theorem tokenize_error_exact_strayNumeral :
    tokenize strayNumeral = .error ⟨.unexpected '1', ⟨2, 3⟩⟩ ∧ FailsAt strayNumeral.toList 10 ∧
      ∀ i, FailsAt strayNumeral.toList i → i = 10 := by
  have herror : tokenize strayNumeral = .error ⟨.unexpected '1', ⟨2, 3⟩⟩ := by decide +kernel
  obtain ⟨hfails, hunique, hplace, -⟩ := tokenize_error_exact strayNumeral
  obtain ⟨j, hj⟩ := hfails.mp ⟨_, herror⟩
  have hten : Position.past (strayNumeral.toList.take j) = .past (strayNumeral.toList.take 10) :=
    (hplace _ j herror hj).1.symm
  obtain rfl : j = 10 := Position.past_take_inj hj.lt_length.le (by decide) hten
  exact ⟨herror, hj, fun i hi => hunique i 10 hi hj⟩

end Lexing

end Wiretap
