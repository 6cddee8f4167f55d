import Mathlib.Data.List.TakeWhile
import Wiretap.Source.Lexer

/-! How a text splits into tokens. Three sorts of pieces follow each other in it: white-space
characters, comments and lexemes. `Scan` is the relation between a stretch of text and the tokens
in it, and the lexer computes it: a step of the cursor passes over one piece, and a text has tokens
exactly if it is a sequence of pieces. -/

namespace Wiretap

/-! ### Positions -/

/-- The place right after `before`, by counting its line feeds and what follows the last of them. -/
def Position.past (before : List Char) : Position :=
  ⟨1 + before.count '\n', 1 + (before.reverse.takeWhile (· != '\n')).length⟩

theorem Position.past_concat (before : List Char) (c : Char) :
    past (before ++ [c]) = (past before).after c := by
  unfold past after
  rw [List.reverse_concat]
  by_cases hc : c = '\n'
  · subst hc
    simp only [List.count_append, List.count_singleton_self, List.takeWhile_cons_of_neg,
      bne_self_eq_false, Bool.false_eq_true, not_false_eq_true, if_true, List.length_nil, mk.injEq]
    omega
  · rw [if_neg hc, List.takeWhile_cons_of_pos (p := (· != '\n')) (bne_iff_ne.mpr hc),
      List.count_append, List.count_singleton, beq_eq_false_iff_ne.mpr hc]
    simp only [Bool.false_eq_true, if_false, List.length_cons, mk.injEq]
    omega

theorem Position.afterAll_past (before run : List Char) :
    (past before).afterAll run = past (before ++ run) := by
  induction run generalizing before with
  | nil => rw [List.append_nil]; rfl
  | cons c run ih =>
    calc
      (past before).afterAll (c :: run) = ((past before).after c).afterAll run := rfl
      _ = past (before ++ [c] ++ run) := by rw [← past_concat, ih]
      _ = past (before ++ c :: run) := by rw [List.append_assoc]; rfl

/-! ### Words hold no white space -/

namespace Text

theorem Ranges.covers_iff {ranges : Ranges} {n : Nat} :
    ranges.covers n = true ↔ ∃ r ∈ ranges, r.1 ≤ n ∧ n ≤ r.2 := by
  simp [covers]

/-- No range of one list meets a range of the other. -/
def Ranges.Apart (a b : Ranges) : Prop :=
  ∀ r ∈ a, ∀ s ∈ b, r.2 < s.1 ∨ s.2 < r.1

instance (a b : Ranges) : Decidable (Ranges.Apart a b) :=
  inferInstanceAs (Decidable (∀ r ∈ a, ∀ s ∈ b, r.2 < s.1 ∨ s.2 < r.1))

theorem Ranges.Apart.not_covers {a b : Ranges} (h : a.Apart b) {n : Nat}
    (hn : b.covers n = true) : a.covers n = false := by
  obtain ⟨s, hs, hlow, hhigh⟩ := covers_iff.mp hn
  rw [← Bool.not_eq_true, covers_iff]
  rintro ⟨r, hr, hlow', hhigh'⟩
  rcases h r hr s hs with hless | hless
  · omega
  · omega

theorem isSpace_of_ascii {c : Char} (h : 48 ≤ c.toNat ∧ c.toNat ≤ 122) : isSpace c = false := by
  unfold isSpace
  rw [← Bool.not_eq_true, Ranges.covers_iff]
  rintro ⟨r, hr, hlow, hhigh⟩
  simp only [spaceRanges, List.mem_cons, List.not_mem_nil, or_false] at hr
  rcases hr with rfl | rfl | rfl | rfl | rfl | rfl | rfl | rfl | rfl | rfl <;> omega

theorem isSpace_of_isLetter {c : Char} (h : isLetter c = true) : isSpace c = false := by
  unfold isLetter at h
  split at h
  · rcases Bool.or_eq_true _ _ |>.mp h with h | h
    · have hupper : 65 ≤ c.toNat ∧ c.toNat ≤ 90 := of_decide_eq_true h
      exact isSpace_of_ascii (by omega)
    · obtain ⟨hlow, hhigh⟩ := Bool.and_eq_true _ _ |>.mp h
      have hlower : 97 ≤ c.toNat ∧ c.toNat ≤ 122 :=
        ⟨of_decide_eq_true hlow, of_decide_eq_true hhigh⟩
      exact isSpace_of_ascii (by omega)
  · have hapart : spaceRanges.Apart letterRanges := by decide +kernel
    exact hapart.not_covers h

theorem isSpace_of_isNumeral {c : Char} (h : isNumeral c = true) : isSpace c = false := by
  unfold isNumeral at h
  split at h
  · obtain ⟨hlow, hhigh⟩ := Bool.and_eq_true _ _ |>.mp h
    have hdigit : 48 ≤ c.toNat ∧ c.toNat ≤ 57 := ⟨of_decide_eq_true hlow, of_decide_eq_true hhigh⟩
    exact isSpace_of_ascii (by omega)
  · have hapart : spaceRanges.Apart numeralRanges := by decide +kernel
    exact hapart.not_covers h

theorem isWordChar_of_isSpace {c : Char} (h : isSpace c = true) : isWordChar c = false := by
  rw [← Bool.not_eq_true]
  intro hword
  have hspace : isSpace c = false := by
    simp only [isWordChar, Bool.or_eq_true, beq_iff_eq] at hword
    rcases hword with (hletter | hnumeral) | rfl
    · exact isSpace_of_isLetter hletter
    · exact isSpace_of_isNumeral hnumeral
    · decide
  rw [hspace] at h
  cases h

end Text

/-! ### Pieces of text -/

namespace Lexing

/-- A word that is being read ends here. -/
def WordEnds (rest : List Char) : Prop :=
  ∀ c ∈ rest.head?, Text.isWordChar c = false

/-- A line ends here, or the text does. -/
def LineEnds (rest : List Char) : Prop :=
  ∀ c ∈ rest.head?, c = '\n'

inductive Comment : List Char → Prop
  | hash {text : List Char} : '\n' ∉ text → Comment ('#' :: text)
  | slashes {text : List Char} : '\n' ∉ text → Comment ('/' :: '/' :: text)

/-- A piece of text that is no token, in front of `rest`: a white-space character, or a comment,
which goes on up to the end of its line. -/
inductive Blank : List Char → List Char → Prop
  | space {c : Char} {rest : List Char} : Text.isSpace c = true → Blank [c] rest
  | comment {text rest : List Char} : Comment text → LineEnds rest → Blank text rest

/-- A word starts with a letter and goes on with word characters. -/
structure IsWord (text : String) : Prop where
  letter : ∃ c ∈ text.toList.head?, Text.isLetter c = true
  inner : ∀ c ∈ text.toList, Text.isWordChar c = true

/-- A word is of the kind of the keyword that it is in lower case, and else an identifier. -/
def WordKind (text : String) (kind : Kind) : Prop :=
  (Text.lowercase text, kind) ∈ Kind.keywords ∨
    kind = .identifier ∧ ∀ keyword, (Text.lowercase text, keyword) ∉ Kind.keywords

def marks : List (String × Kind) :=
  [("->", .arrow), (":", .colon), (",", .comma), ("=", .equals), ("(", .leftParen),
   (")", .rightParen), ("||", .join)]

/-- The text of a token and its kind, in front of `rest`. -/
inductive Lexeme : Kind → String → List Char → Prop
  | word {text : String} {kind : Kind} {rest : List Char} :
      IsWord text → WordKind text kind → WordEnds rest → Lexeme kind text rest
  | mark {text : String} {kind : Kind} {rest : List Char} :
      (text, kind) ∈ marks → Lexeme kind text rest

/-- `Scan before piece rest ts`: the text `piece` between `before` and `rest` reads as the tokens
`ts`. -/
inductive Scan : List Char → List Char → List Char → List Token → Prop
  | nil (before rest : List Char) : Scan before [] rest []
  | blank {before blank piece rest : List Char} {ts : List Token} :
      Blank blank (piece ++ rest) → Scan (before ++ blank) piece rest ts →
      Scan before (blank ++ piece) rest ts
  | token {before piece rest : List Char} {text : String} {kind : Kind} {ts : List Token} :
      Lexeme kind text (piece ++ rest) → Scan (before ++ text.toList) piece rest ts →
      Scan before (text.toList ++ piece) rest (⟨kind, text, .past before⟩ :: ts)

theorem Scan.append {before piece piece' rest : List Char} {ts us : List Token}
    (h : Scan before piece (piece' ++ rest) ts) (h' : Scan (before ++ piece) piece' rest us) :
    Scan before (piece ++ piece') rest (ts ++ us) := by
  generalize htail : piece' ++ rest = tail at h
  induction h with
  | nil before => simpa using h'
  | blank hblank _ ih =>
    subst htail
    rw [List.append_assoc]
    refine .blank (by rwa [List.append_assoc]) (ih ?_ rfl)
    rwa [List.append_assoc]
  | token hlexeme _ ih =>
    subst htail
    rw [List.append_assoc]
    refine .token (by rwa [List.append_assoc]) (ih ?_ rfl)
    rwa [List.append_assoc]

theorem Scan.lexeme {before piece rest : List Char} {ts : List Token}
    (h : Scan before piece rest ts) : ∀ t ∈ ts, Lexeme t.kind t.text [] := by
  induction h with
  | nil => exact fun _ ht => absurd ht List.not_mem_nil
  | blank _ _ ih => exact ih
  | token hlexeme _ ih =>
    intro t ht
    rcases List.mem_cons.mp ht with rfl | ht
    · cases hlexeme with
      | word hword hkind => exact .word hword hkind nofun
      | mark hmark => exact .mark hmark
    · exact ih t ht

theorem takeWhile_run {p : Char → Bool} {run rest : List Char} (hrun : ∀ x ∈ run, p x = true)
    (hrest : ∀ x ∈ rest.head?, p x = false) : (run ++ rest).takeWhile p = run := by
  rw [List.takeWhile_append_of_pos hrun]
  cases rest with
  | nil => exact List.append_nil _
  | cons x xs => rw [List.takeWhile_cons_of_neg (by simp [hrest x rfl]), List.append_nil]

theorem dropWhile_run {p : Char → Bool} {run rest : List Char} (hrun : ∀ x ∈ run, p x = true)
    (hrest : ∀ x ∈ rest.head?, p x = false) : (run ++ rest).dropWhile p = rest := by
  rw [List.dropWhile_append_of_pos hrun]
  cases rest with
  | nil => rfl
  | cons x xs => exact List.dropWhile_cons_of_neg (by simp [hrest x rfl])

theorem lookup_eq_some_iff_mem {entries : List (String × Kind)}
    (hkeys : (entries.map (·.1)).Nodup) {key : String} {kind : Kind} :
    entries.lookup key = some kind ↔ (key, kind) ∈ entries := by
  induction entries with
  | nil => simp
  | cons entry entries ih =>
    obtain ⟨hnew, hkeys⟩ := List.nodup_cons.mp hkeys
    by_cases hkey : key = entry.1
    · subst hkey
      have hother : (entry.1, kind) ∉ entries := fun hmem =>
        hnew (List.mem_map.mpr ⟨_, hmem, rfl⟩)
      rw [List.lookup_cons, beq_self_eq_true, List.mem_cons, or_iff_left hother]
      exact ⟨fun h => by cases h; rfl, fun h => by rw [← h]⟩
    · have hother : (key, kind) ≠ entry := fun h => hkey (congrArg Prod.fst h)
      rw [List.lookup_cons, beq_eq_false_iff_ne.mpr hkey, List.mem_cons, or_iff_right hother]
      exact ih hkeys

theorem wordKind_iff {text : String} {kind : Kind} :
    WordKind text kind ↔ Kind.ofWord text = kind := by
  have hlookup {keyword : Kind} : Kind.keywords.lookup (Text.lowercase text) = some keyword ↔
      (Text.lowercase text, keyword) ∈ Kind.keywords := lookup_eq_some_iff_mem (by decide)
  unfold WordKind Kind.ofWord
  simp only [← hlookup]
  cases Kind.keywords.lookup (Text.lowercase text) with
  | none => simp [eq_comm]
  | some keyword => simp

theorem Comment.no_newline {text : List Char} (h : Comment text) : ∀ x ∈ text, x ≠ '\n' := by
  intro x hx hnewline
  subst hnewline
  cases h with
  | hash htext => simp [htext] at hx
  | slashes htext => simp [htext] at hx

theorem mark_of_ofMark? {x : Char} {kind : Kind} (h : Kind.ofMark? x = some kind) :
    (String.singleton x, kind) ∈ marks := by
  unfold Kind.ofMark? at h
  split at h <;> cases h <;> decide

theorem Lexeme.ne_nil {kind : Kind} {text : String} {rest : List Char} (h : Lexeme kind text rest) :
    text.toList ≠ [] := by
  cases h with
  | word hword =>
    obtain ⟨c, hc, -⟩ := hword.letter
    intro hnil
    rw [hnil] at hc
    cases hc
  | mark hmark =>
    have hmarks : ∀ entry ∈ marks, entry.1.toList ≠ [] := by decide
    exact hmarks _ hmark

theorem Blank.ne_nil {blank rest : List Char} (h : Blank blank rest) : blank ≠ [] := by
  cases h with
  | space => exact List.cons_ne_nil _ _
  | comment hcomment =>
    cases hcomment with
    | hash | slashes => exact List.cons_ne_nil _ _

/-! ### Where no piece starts -/

/-- The text is not at its end, and what comes next starts no piece: it is no white space, no
comment, no letter and none of the marks. -/
structure Stuck (rest : List Char) : Prop where
  ne_nil : rest ≠ []
  space : ∀ c ∈ rest.head?, Text.isSpace c = false
  hash : ¬['#'] <+: rest
  slashes : ¬['/', '/'] <+: rest
  letter : ∀ c ∈ rest.head?, Text.isLetter c = false
  mark : ∀ entry ∈ marks, ¬entry.1.toList <+: rest

theorem readWhile_split (p : Char → Bool) (xs : List Char) :
    ∃ run rest, xs = run ++ rest ∧ (∀ x ∈ run, p x = true) ∧ ∀ x ∈ rest.head?, p x = false := by
  refine ⟨xs.takeWhile p, xs.dropWhile p, List.takeWhile_append_dropWhile.symm,
    fun x hx => List.mem_takeWhile_imp hx, fun x hx => ?_⟩
  have hhead := List.head?_dropWhile_not p xs
  rw [Option.mem_def.mp hx] at hhead
  exact hhead

theorem exists_comment {x : Char} {xs : List Char}
    (h : (x = '#' || (x = '/' && xs.head? = some '/')) = true) :
    ∃ blank rest, x :: xs = blank ++ rest ∧ Blank blank rest := by
  simp only [Bool.or_eq_true, Bool.and_eq_true, decide_eq_true_eq] at h
  rcases h with rfl | ⟨rfl, hxs⟩
  · obtain ⟨run, rest, rfl, hrun, hrest⟩ := readWhile_split (· != '\n') xs
    exact ⟨'#' :: run, rest, rfl, .comment (.hash fun hmem => by simpa using hrun _ hmem)
      fun x hx => by simpa using hrest x hx⟩
  · obtain ⟨ys, rfl⟩ := List.head?_eq_some_iff.mp hxs
    obtain ⟨run, rest, rfl, hrun, hrest⟩ := readWhile_split (· != '\n') ys
    exact ⟨'/' :: '/' :: run, rest, rfl, .comment (.slashes fun hmem => by simpa using hrun _ hmem)
      fun x hx => by simpa using hrest x hx⟩

theorem exists_word {x : Char} {xs : List Char} (h : Text.isLetter x = true) :
    ∃ kind text rest, x :: xs = String.toList text ++ rest ∧ Lexeme kind text rest := by
  obtain ⟨run, rest, rfl, hrun, hrest⟩ := readWhile_split Text.isWordChar xs
  have hinner : ∀ y ∈ x :: run, Text.isWordChar y = true := by
    intro y hy
    rcases List.mem_cons.mp hy with rfl | hy
    · exact Text.isWordChar_of_isLetter h
    · exact hrun y hy
  refine ⟨_, String.ofList (x :: run), rest, ?_, .word ⟨?_, ?_⟩ (wordKind_iff.mpr rfl) hrest⟩
  · rw [String.toList_ofList, List.cons_append]
  · rw [String.toList_ofList]
    exact ⟨x, rfl, h⟩
  · rwa [String.toList_ofList]

theorem piece_cases (text : List Char) :
    text = [] ∨ (∃ blank rest, text = blank ++ rest ∧ Blank blank rest) ∨
      (∃ kind word rest, text = String.toList word ++ rest ∧ Lexeme kind word rest) ∨
      Stuck text := by
  cases text with
  | nil => exact .inl rfl
  | cons x xs =>
    right
    by_cases hspace : Text.isSpace x = true
    · exact .inl ⟨[x], xs, rfl, .space hspace⟩
    by_cases hcomment : (x = '#' || (x = '/' && xs.head? = some '/')) = true
    · exact .inl (exists_comment hcomment)
    right
    by_cases hletter : Text.isLetter x = true
    · exact .inl (exists_word hletter)
    by_cases hmark : ∃ entry ∈ marks, entry.1.toList <+: x :: xs
    · obtain ⟨⟨text, kind⟩, hmem, rest, hrest⟩ := hmark
      exact .inl ⟨kind, text, rest, hrest.symm, .mark hmem⟩
    · refine .inr ⟨List.cons_ne_nil _ _, ?_, fun h => ?_, fun h => ?_, ?_, ?_⟩
      · simpa using hspace
      · obtain ⟨rest, hrest⟩ := h
        cases hrest
        exact hcomment rfl
      · obtain ⟨rest, hrest⟩ := h
        cases hrest
        exact hcomment rfl
      · simpa using hletter
      · exact fun entry hentry hstarts => hmark ⟨entry, hentry, hstarts⟩

/-- Every text is a sequence of pieces, up to its end or up to a place where no piece starts. -/
theorem exists_scan (before text : List Char) :
    ∃ piece rest ts, text = piece ++ rest ∧ Scan before piece rest ts ∧
      (rest = [] ∨ Stuck rest) := by
  -- No piece is empty, so the induction is on the length of what is left.
  induction hlen : text.length using Nat.strong_induction_on generalizing before text with
  | _ n ih =>
    subst hlen
    rcases piece_cases text with h | ⟨blank, rest, rfl, hblank⟩ | ⟨kind, word, rest, rfl, hlexeme⟩ |
      h
    · exact ⟨[], [], [], h, .nil _ _, .inl rfl⟩
    · have hpos := List.length_pos_iff.mpr hblank.ne_nil
      obtain ⟨piece, last, ts, rfl, hscan, hlast⟩ :=
        ih rest.length (by rw [List.length_append]; omega) (before ++ blank) rest rfl
      exact ⟨blank ++ piece, last, ts, (List.append_assoc ..).symm, .blank hblank hscan, hlast⟩
    · have hpos := List.length_pos_iff.mpr hlexeme.ne_nil
      obtain ⟨piece, last, ts, rfl, hscan, hlast⟩ :=
        ih rest.length (by rw [List.length_append]; omega) (before ++ word.toList) rest rfl
      exact ⟨word.toList ++ piece, last, _, (List.append_assoc ..).symm, .token hlexeme hscan, hlast⟩
    · exact ⟨[], text, [], rfl, .nil _ _, .inr h⟩

end Lexing

/-- The fault of a text that is stuck in front of a character. -/
def LexCause.ofChar (x : Char) : LexCause :=
  if x = '|' then .loneBar else if x = '-' then .loneDash else .unexpected x

/-! ### Steps of the cursor -/

open Lexing

namespace Cursor

variable {c : Cursor} {rest : List Char}

/-- The cursor past `run`, with `rest` left to read. -/
def beyond (c : Cursor) (run rest : List Char) : Cursor :=
  ⟨run.reverse ++ c.past, rest, c.position.afterAll run⟩

theorem readWhile_eq {p : Char → Bool} {run : List Char} (hc : c.rest = run ++ rest)
    (hrun : ∀ x ∈ run, p x = true) (hrest : ∀ x ∈ rest.head?, p x = false) :
    c.readWhile p = (run, c.beyond run rest) := by
  unfold readWhile beyond
  rw [hc, takeWhile_run hrun hrest, dropWhile_run hrun hrest]

theorem step_blank {blank : List Char} (hc : c.rest = blank ++ rest) (h : Blank blank rest) :
    c.step = .skipped (c.beyond blank rest) := by
  cases h with
  | space hspace =>
    simp only [step, hc, List.singleton_append, hspace, if_true]
    rfl
  | comment hcomment hend =>
    have hread : c.readWhile (· != '\n') = (blank, c.beyond blank rest) :=
      readWhile_eq hc (fun x hx => bne_iff_ne.mpr (hcomment.no_newline x hx))
        fun x hx => by rw [hend x hx]; rfl
    have hskip : c.skipLine = c.beyond blank rest := congrArg Prod.snd hread
    cases hcomment with
    | hash htext =>
      rw [List.cons_append] at hc
      simp only [step, hc, hskip]
      rfl
    | slashes htext =>
      rw [List.cons_append, List.cons_append] at hc
      simp only [step, hc, hskip]
      rfl

theorem commentStart_of_isLetter {x : Char} {xs : List Char} (h : Text.isLetter x = true) :
    (x = '#' || (x = '/' && xs.head? = some '/')) = false := by
  have hhash : x ≠ '#' := fun hx => by rw [hx] at h; exact absurd h (by decide)
  have hslash : x ≠ '/' := fun hx => by rw [hx] at h; exact absurd h (by decide)
  simp [hhash, hslash]

theorem step_lexeme {kind : Kind} {text : String} (hc : c.rest = text.toList ++ rest)
    (h : Lexeme kind text rest) :
    c.step = .found ⟨kind, text, c.position⟩ (c.beyond text.toList rest) := by
  cases h with
  | word hword hkind hend =>
    have hread : c.readWhile Text.isWordChar = (text.toList, c.beyond text.toList rest) :=
      readWhile_eq hc hword.inner hend
    obtain ⟨x, hx, hletter⟩ := hword.letter
    obtain ⟨xs, hxs⟩ := List.head?_eq_some_iff.mp hx
    have hcons : c.rest = x :: (xs ++ rest) := by rw [hc, hxs, List.cons_append]
    rw [wordKind_iff] at hkind
    simp only [step, hcons, Text.isSpace_of_isLetter hletter, commentStart_of_isLetter hletter,
      hletter, Bool.false_eq_true, if_false, if_true]
    simp only [readWord, hread, String.ofList_toList, hkind]
  | mark hmark =>
    simp only [marks, List.mem_cons, Prod.mk.injEq, List.not_mem_nil, or_false] at hmark
    rcases hmark with ⟨rfl, rfl⟩ | ⟨rfl, rfl⟩ | ⟨rfl, rfl⟩ | ⟨rfl, rfl⟩ | ⟨rfl, rfl⟩ | ⟨rfl, rfl⟩ |
      ⟨rfl, rfl⟩
    all_goals
      simp only [String.reduceToList, List.cons_append, List.nil_append] at hc
      simp only [step, hc]
      rfl

theorem pairStep_stuck {kind : Kind} {cause : LexCause} {x second : Char} {xs : List Char}
    (h : ¬[x, second] <+: x :: xs) :
    ∃ next, c.pairStep kind cause x second xs = .failed ⟨cause, c.position⟩ next := by
  cases xs with
  | nil => exact ⟨_, rfl⟩
  | cons y ys =>
    have hy : y ≠ second := by
      rintro rfl
      exact h ⟨ys, rfl⟩
    exact ⟨_, by simp only [pairStep, if_neg hy]; rfl⟩

theorem step_stuck {x : Char} (hc : c.rest = x :: rest) (h : Stuck (x :: rest)) :
    ∃ next, c.step = .failed ⟨.ofChar x, c.position⟩ next := by
  have hcomment : (x = '#' || (x = '/' && rest.head? = some '/')) = false := by
    rw [← Bool.not_eq_true]
    intro hcomment
    simp only [Bool.or_eq_true, Bool.and_eq_true, decide_eq_true_eq] at hcomment
    rcases hcomment with rfl | ⟨rfl, hslash⟩
    · exact h.hash ⟨rest, rfl⟩
    · obtain ⟨xs, rfl⟩ := List.head?_eq_some_iff.mp hslash
      exact h.slashes ⟨xs, rfl⟩
  have hmark : Kind.ofMark? x = none := by
    cases hkind : Kind.ofMark? x with
    | none => rfl
    | some kind =>
      have hstarts := h.mark _ (mark_of_ofMark? hkind)
      rw [String.toList_singleton] at hstarts
      exact absurd ⟨rest, rfl⟩ hstarts
  simp only [step, hc, h.space x rfl, hcomment, h.letter x rfl, hmark, Bool.false_eq_true, if_false]
  unfold LexCause.ofChar
  by_cases hbar : x = '|'
  · subst hbar
    exact pairStep_stuck (h.mark ("||", .join) (by decide))
  by_cases hdash : x = '-'
  · subst hdash
    exact pairStep_stuck (h.mark ("->", .arrow) (by decide))
  · simp only [if_neg hbar, if_neg hdash]
    exact ⟨c, rfl⟩

/-! ### Reading to the end -/

theorem tokensAfter_skipped {found : List Token} {next : Cursor} (h : c.step = .skipped next) :
    c.tokensAfter found = next.tokensAfter found := by
  rw [tokensAfter]
  split <;> simp_all

theorem tokensAfter_found {found : List Token} {t : Token} {next : Cursor}
    (h : c.step = .found t next) : c.tokensAfter found = next.tokensAfter (t :: found) := by
  rw [tokensAfter]
  split <;> simp_all

theorem tokensAfter_failed {found : List Token} {e : LexError} {next : Cursor}
    (h : c.step = .failed e next) : c.tokensAfter found = (.error e, next) := by
  rw [tokensAfter]
  split <;> simp_all

theorem tokensAfter_finished {found : List Token} (h : c.rest = []) :
    c.tokensAfter found = (.ok ⟨found.reverse, ⟨.ending, "", c.position⟩, rfl⟩, c) := by
  have hstep : c.step = .finished := by simp only [step, h]
  rw [tokensAfter]
  split <;> simp_all

theorem past_beyond (c : Cursor) (run rest : List Char) :
    (c.beyond run rest).past.reverse = c.past.reverse ++ run := by
  simp [beyond]

theorem position_beyond {run : List Char} (hpos : c.position = .past c.past.reverse) :
    (c.beyond run rest).position = .past (c.past.reverse ++ run) := by
  change c.position.afterAll run = _
  rw [hpos, Position.afterAll_past]

theorem beyond_beyond (c : Cursor) (run run' rest : List Char) :
    (c.beyond run (run' ++ rest)).beyond run' rest = c.beyond (run ++ run') rest := by
  simp [beyond, Position.afterAll]

/-- Reading over a stretch of text finds its tokens. -/
theorem tokensAfter_scan {before piece : List Char} {ts : List Token}
    (h : Scan before piece rest ts) (hpast : c.past.reverse = before) (hc : c.rest = piece ++ rest)
    (hpos : c.position = .past before) (found : List Token) :
    c.tokensAfter found = (c.beyond piece rest).tokensAfter (ts.reverse ++ found) := by
  induction h generalizing c found with
  | nil before rest =>
    have hstay : c.beyond [] rest = c := by
      obtain ⟨past, _, position⟩ := c
      subst hc
      rfl
    rw [hstay]
    rfl
  | @blank before blank piece rest ts hblank _ ih =>
    subst hpast
    rw [List.append_assoc] at hc
    rw [tokensAfter_skipped (step_blank hc hblank),
      ih (past_beyond ..) rfl (position_beyond hpos) found, beyond_beyond]
  | @token before piece rest text kind ts hlexeme _ ih =>
    subst hpast
    rw [List.append_assoc] at hc
    rw [tokensAfter_found (step_lexeme hc hlexeme),
      ih (past_beyond ..) rfl (position_beyond hpos) _, beyond_beyond, hpos, List.reverse_cons,
      List.append_assoc]
    rfl

end Cursor

namespace Lexing

theorem tokenize_of_scan {source : String} {ts : List Token}
    (h : Scan [] source.toList [] ts) :
    tokenize source = .ok ⟨ts, ⟨.ending, "", .past source.toList⟩, rfl⟩ := by
  have hread := Cursor.tokensAfter_scan (c := .ofString source) h rfl (List.append_nil _).symm
    rfl []
  unfold tokenize Cursor.tokens
  rw [hread, Cursor.tokensAfter_finished rfl, Cursor.position_beyond rfl]
  simp [Cursor.ofString]

/-- A text that is stuck somewhere is blamed for it at that place. -/
theorem tokenize_of_stuck {source : String} {piece rest : List Char} {x : Char} {ts : List Token}
    (hsource : source.toList = piece ++ x :: rest) (hscan : Scan [] piece (x :: rest) ts)
    (hstuck : Stuck (x :: rest)) :
    tokenize source = .error ⟨.ofChar x, .past piece⟩ := by
  have hread := Cursor.tokensAfter_scan (c := .ofString source) hscan rfl hsource rfl []
  obtain ⟨next, hstep⟩ := Cursor.step_stuck
    (c := (Cursor.ofString source).beyond piece (x :: rest)) rfl hstuck
  unfold tokenize Cursor.tokens
  rw [hread, Cursor.tokensAfter_failed hstep, Cursor.position_beyond rfl]
  rfl

/-- The tokens of a text are those of the pieces that it consists of, and a text that does not
consist of pieces has none. -/
theorem tokenize_eq_ok_iff {source : String} {tokens : Tokens} :
    tokenize source = .ok tokens ↔
      Scan [] source.toList [] tokens.front ∧
        tokens.last = ⟨.ending, "", .past source.toList⟩ := by
  constructor
  · intro h
    obtain ⟨piece, rest, ts, hsource, hscan, hrest⟩ := exists_scan [] source.toList
    cases rest with
    | nil =>
      rw [List.append_nil] at hsource
      subst hsource
      cases (tokenize_of_scan hscan).symm.trans h
      exact ⟨hscan, rfl⟩
    | cons x rest =>
      have hstuck : Stuck (x :: rest) := hrest.resolve_left (List.cons_ne_nil _ _)
      cases (tokenize_of_stuck hsource hscan hstuck).symm.trans h
  · rintro ⟨h, hlast⟩
    obtain ⟨front, last, hkind⟩ := tokens
    subst hlast
    exact tokenize_of_scan h

end Lexing

end Wiretap
