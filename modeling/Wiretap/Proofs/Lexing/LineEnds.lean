import Wiretap.Proofs.Lexing.Scan

/-! Line ends of two characters. A carriage return in front of a line feed is white space, or the
last character of a comment, and the line feed sets the column back. So a text and the same text
without these returns have the same tokens at the same places, or the same fault. The two are read
side by side: the cursor in the text with the returns takes one step more for some of them. -/

namespace Wiretap

namespace Text

/-- The characters of a text without the carriage return of every `\r\n`. -/
def dropReturns : List Char → List Char
  | '\r' :: '\n' :: rest => '\n' :: dropReturns rest
  | c :: rest => c :: dropReturns rest
  | [] => []

variable {c : Char} {run rest : List Char}

theorem dropReturns_cons (h : ¬(c = '\r' ∧ rest.head? = some '\n')) :
    dropReturns (c :: rest) = c :: dropReturns rest := by
  rw [dropReturns]
  rintro tail rfl rfl
  exact h ⟨rfl, rfl⟩

/-- A run within a line stays as it is, except for a return at its end in front of a line feed. -/
theorem dropReturns_append (h : '\n' ∉ run) (rest : List Char) :
    ∃ kept, dropReturns (run ++ rest) = kept ++ dropReturns rest ∧
      (kept = run ∨ run = kept ++ ['\r'] ∧ rest.head? = some '\n') := by
  induction run with
  | nil => exact ⟨[], rfl, .inl rfl⟩
  | cons c run ih =>
    have hrun : '\n' ∉ run := List.not_mem_of_not_mem_cons h
    by_cases hpair : c = '\r' ∧ (run ++ rest).head? = some '\n'
    · obtain ⟨rfl, hhead⟩ := hpair
      cases run with
      | nil =>
        obtain ⟨tail, rfl⟩ := List.head?_eq_some_iff.mp hhead
        exact ⟨[], rfl, .inr ⟨rfl, rfl⟩⟩
      | cons d run =>
        cases hhead
        exact absurd List.mem_cons_self hrun
    · obtain ⟨kept, hkept, hrest⟩ := ih hrun
      refine ⟨c :: kept, ?_, ?_⟩
      · rw [List.cons_append, dropReturns_cons hpair, hkept, List.cons_append]
      · rcases hrest with rfl | ⟨rfl, hhead⟩
        · exact .inl rfl
        · exact .inr ⟨rfl, hhead⟩

theorem dropReturns_append_of_not_mem (hfeed : '\n' ∉ run) (hreturn : '\r' ∉ run)
    (rest : List Char) : dropReturns (run ++ rest) = run ++ dropReturns rest := by
  obtain ⟨kept, hkept, rfl | ⟨rfl, -⟩⟩ := dropReturns_append hfeed rest
  · exact hkept
  · simp at hreturn

/-- What is left of a text starts within a line as the text does. -/
theorem prefix_of_dropReturns {text : List Char} (h : '\n' ∉ run)
    (hrun : run <+: dropReturns text) : run <+: text := by
  fun_induction dropReturns text generalizing run with
  | case1 rest ih =>
    cases run with
    | nil => exact List.nil_prefix
    | cons x run =>
      obtain ⟨rfl, -⟩ := List.cons_prefix_cons.mp hrun
      exact absurd List.mem_cons_self h
  | case2 c rest hpair ih =>
    cases run with
    | nil => exact List.nil_prefix
    | cons x run =>
      obtain ⟨rfl, htail⟩ := List.cons_prefix_cons.mp hrun
      exact List.cons_prefix_cons.mpr ⟨rfl, ih (List.not_mem_of_not_mem_cons h) htail⟩
  | case3 => exact hrun

theorem head?_of_dropReturns {text : List Char} (hc : c ∈ (dropReturns text).head?)
    (hne : c ≠ '\n') : c ∈ text.head? := by
  obtain ⟨tail, htail⟩ := List.head?_eq_some_iff.mp hc
  have hprefix : [c] <+: dropReturns text := ⟨tail, htail.symm⟩
  obtain ⟨rest, rfl⟩ := prefix_of_dropReturns (by simpa using hne.symm) hprefix
  rfl

end Text

theorem Position.afterAll_line {run : List Char} (h : '\n' ∉ run) (p : Position) :
    p.afterAll run = ⟨p.line, p.column + run.length⟩ := by
  induction run generalizing p with
  | nil => simp [afterAll]
  | cons c run ih =>
    have hafter : p.after c = ⟨p.line, p.column + 1⟩ := if_neg (List.ne_of_not_mem_cons h).symm
    calc
      p.afterAll (c :: run) = (p.after c).afterAll run := rfl
      _ = ⟨p.line, p.column + 1 + run.length⟩ := by
        rw [hafter, ih (List.not_mem_of_not_mem_cons h)]
      _ = ⟨p.line, p.column + (c :: run).length⟩ := by
        rw [List.length_cons, mk.injEq]
        omega

namespace Lexing

variable {rest : List Char}

/-! ### Pieces without returns -/

theorem wordEnds_dropReturns (h : WordEnds rest) : WordEnds (Text.dropReturns rest) := by
  intro c hc
  by_cases hfeed : c = '\n'
  · subst hfeed
    decide
  · exact h c (Text.head?_of_dropReturns hc hfeed)

theorem lineEnds_dropReturns (h : LineEnds rest) : LineEnds (Text.dropReturns rest) := by
  intro c hc
  by_contra hfeed
  exact hfeed (h c (Text.head?_of_dropReturns hc hfeed))

theorem Comment.of_concat {text : List Char} (h : Comment (text ++ ['\r'])) : Comment text := by
  generalize hwhole : text ++ ['\r'] = whole at h
  cases h with
  | hash hfeed =>
    cases text with
    | nil => cases hwhole
    | cons x text =>
      cases hwhole
      exact .hash fun hmem => hfeed (List.mem_append_left _ hmem)
  | slashes hfeed =>
    match text, hwhole with
    | [], hwhole => cases hwhole
    | [_], hwhole => cases hwhole
    | _ :: _ :: text, hwhole =>
      cases hwhole
      exact .slashes fun hmem => hfeed (List.mem_append_left _ hmem)

theorem Lexeme.isSpace {kind : Kind} {text : String} (h : Lexeme kind text rest) :
    ∀ x ∈ text.toList, Text.isSpace x = false := by
  cases h with
  | word hword =>
    intro x hx
    by_contra hspace
    have hinner := hword.inner x hx
    rw [Text.isWordChar_of_isSpace ((Bool.not_eq_false _).mp hspace)] at hinner
    cases hinner
  | mark hmark =>
    have hmarks : ∀ entry ∈ marks, entry.1.toList.all (!Text.isSpace ·) = true := by decide
    intro x hx
    simpa using List.all_eq_true.mp (hmarks _ hmark) x hx

theorem Lexeme.dropReturns {kind : Kind} {text : String} (h : Lexeme kind text rest) :
    Lexeme kind text (Text.dropReturns rest) := by
  cases h with
  | word hword hkind hend => exact .word hword hkind (wordEnds_dropReturns hend)
  | mark hmark => exact .mark hmark

theorem Stuck.dropReturns {x : Char} (h : Stuck (x :: rest)) :
    Stuck (x :: Text.dropReturns rest) := by
  have hkeeps : Text.dropReturns (x :: rest) = x :: Text.dropReturns rest := by
    refine Text.dropReturns_cons ?_
    rintro ⟨rfl, -⟩
    exact absurd (h.space '\r' rfl) (by decide)
  rw [← hkeeps]
  have hstart {run : List Char} (hrun : run <+: Text.dropReturns (x :: rest)) (hfeed : '\n' ∉ run) :
      run <+: x :: rest := Text.prefix_of_dropReturns hfeed hrun
  refine ⟨by rw [hkeeps]; exact List.cons_ne_nil _ _, ?_, fun hhash => h.hash (hstart hhash ?_),
    fun hslashes => h.slashes (hstart hslashes ?_), ?_, fun entry hentry hmark =>
      h.mark entry hentry (hstart hmark ?_)⟩
  · rw [hkeeps]
    exact h.space
  · decide
  · decide
  · rw [hkeeps]
    exact h.letter
  · have hmarks : ∀ entry ∈ marks, '\n' ∉ entry.1.toList := by decide
    exact hmarks entry hentry

end Lexing

/-! ### Reading both texts -/

open Lexing

namespace Cursor

variable {c d : Cursor} {rest : List Char}

/-- `d` reads what `c` reads, without the returns. The two stand at the same place, or at one end of
a line at different columns. -/
structure Trails (c d : Cursor) : Prop where
  rest : d.rest = Text.dropReturns c.rest
  line : d.position.line = c.position.line
  column : c.rest.head? = some '\n' ∨ d.position.column = c.position.column

theorem Trails.position_eq (h : c.Trails d) (hne : c.rest.head? ≠ some '\n') :
    d.position = c.position := by
  have hline := h.line
  have hcolumn := h.column.resolve_left hne
  cases hc : c.position
  cases hd : d.position
  simp_all

/-- Both cursors past the same run within a line. -/
theorem Trails.beyond (hposition : d.position = c.position) (run rest : List Char) :
    (c.beyond run rest).Trails (d.beyond run (Text.dropReturns rest)) where
  rest := rfl
  line := by
    change (d.position.afterAll run).line = (c.position.afterAll run).line
    rw [hposition]
  column := .inr (by
    change (d.position.afterAll run).column = (c.position.afterAll run).column
    rw [hposition])

/-- What a step of `c` means for `d`, which may have passed a return already. -/
inductive StepsWith (c d : Cursor) : Prop
  | finished : c.rest = [] → d.rest = [] → d.position = c.position → StepsWith c d
  | alone {c' : Cursor} : c.step = .skipped c' → c'.Trails d → StepsWith c d
  | skipped {c' d' : Cursor} :
      c.step = .skipped c' → d.step = .skipped d' → c'.Trails d' → StepsWith c d
  | found {t : Token} {c' d' : Cursor} :
      c.step = .found t c' → d.step = .found t d' → c'.Trails d' → StepsWith c d
  | failed {e : LexError} {c' d' : Cursor} :
      c.step = .failed e c' → d.step = .failed e d' → StepsWith c d

theorem Trails.space (h : c.Trails d) {x : Char} (hc : c.rest = x :: rest)
    (hx : Text.isSpace x = true) : c.StepsWith d := by
  have hstep : c.step = .skipped (c.beyond [x] rest) := step_blank hc (.space hx)
  by_cases hpair : x = '\r' ∧ rest.head? = some '\n'
  · -- The line feed comes first in the other text.
    obtain ⟨rfl, hhead⟩ := hpair
    obtain ⟨tail, rfl⟩ := List.head?_eq_some_iff.mp hhead
    have hrest := h.rest
    rw [hc] at hrest
    exact .alone hstep ⟨hrest, h.line, .inl rfl⟩
  have hd : d.rest = x :: Text.dropReturns rest := by
    rw [h.rest, hc, Text.dropReturns_cons hpair]
  have hstep' : d.step = .skipped (d.beyond [x] (Text.dropReturns rest)) :=
    step_blank hd (.space hx)
  refine .skipped hstep hstep' ?_
  by_cases hfeed : x = '\n'
  · subst hfeed
    refine ⟨rfl, ?_, .inr rfl⟩
    change d.position.line + 1 = c.position.line + 1
    rw [h.line]
  · refine .beyond (h.position_eq ?_) _ _
    rw [hc]
    simpa using hfeed

theorem Trails.comment (h : c.Trails d) {text : List Char} (hc : c.rest = text ++ rest)
    (hcomment : Comment text) (hend : LineEnds rest) : c.StepsWith d := by
  have hfeed : '\n' ∉ text := fun hmem => hcomment.no_newline _ hmem rfl
  have hhead : c.rest.head? ≠ some '\n' := by
    rw [hc]
    cases hcomment with
    | hash | slashes => simp
  have hposition := h.position_eq hhead
  have hstep : c.step = .skipped (c.beyond text rest) := step_blank hc (.comment hcomment hend)
  obtain ⟨kept, hkept, hcases⟩ := Text.dropReturns_append hfeed rest
  have hd : d.rest = kept ++ Text.dropReturns rest := by rw [h.rest, hc, hkept]
  rcases hcases with rfl | ⟨rfl, hreturn⟩
  · exact .skipped hstep (step_blank hd (.comment hcomment (lineEnds_dropReturns hend)))
      (.beyond hposition _ _)
  · have hstep' : d.step = .skipped (d.beyond kept (Text.dropReturns rest)) :=
      step_blank hd (.comment hcomment.of_concat (lineEnds_dropReturns hend))
    refine .skipped hstep hstep' ⟨rfl, ?_, .inl hreturn⟩
    have hkeptFeed : '\n' ∉ kept := fun hmem => hfeed (List.mem_append_left _ hmem)
    change (d.position.afterAll kept).line = (c.position.afterAll (kept ++ ['\r'])).line
    rw [Position.afterAll_line hfeed, Position.afterAll_line hkeptFeed, h.line]

theorem Trails.lexeme (h : c.Trails d) {kind : Kind} {text : String}
    (hc : c.rest = text.toList ++ rest) (hlexeme : Lexeme kind text rest) : c.StepsWith d := by
  have hfeed : '\n' ∉ text.toList := fun hmem => absurd (hlexeme.isSpace _ hmem) (by decide)
  have hreturn : '\r' ∉ text.toList := fun hmem => absurd (hlexeme.isSpace _ hmem) (by decide)
  have hd : d.rest = text.toList ++ Text.dropReturns rest := by
    rw [h.rest, hc, Text.dropReturns_append_of_not_mem hfeed hreturn]
  have hposition : d.position = c.position := by
    apply h.position_eq
    obtain ⟨x, xs, hx⟩ := List.exists_cons_of_ne_nil hlexeme.ne_nil
    rw [hx] at hfeed
    rw [hc, hx]
    rintro ⟨⟩
    exact hfeed List.mem_cons_self
  have hstep := step_lexeme hd hlexeme.dropReturns
  rw [hposition] at hstep
  exact .found (step_lexeme hc hlexeme) hstep (.beyond hposition _ _)

end Cursor

end Wiretap
