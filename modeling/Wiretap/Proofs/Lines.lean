import Wiretap.Proofs.Labels

/-! Lines of texts. A text that is put together from lines falls into these lines again, as long as
no line feed stands inside one of them. None stands in a name, and none in a label, since a label is
made of names and marks. -/

namespace Wiretap

namespace Text

/-- The lines of a text, between which the line feeds stand. -/
def linesOf (s : String) : List String :=
  (s.toList.splitOn '\n').map String.ofList

/-- The text has no line feed in it. -/
def OneLine (s : String) : Prop :=
  '\n' ∉ s.toList

instance (s : String) : Decidable (OneLine s) :=
  inferInstanceAs (Decidable (_ ∉ _))

theorem linesOf_intercalate {lines : List String} (hne : lines ≠ [])
    (h : ∀ line ∈ lines, OneLine line) : linesOf ("\n".intercalate lines) = lines := by
  have hchars : ∀ line ∈ lines.map String.toList, '\n' ∉ line := List.forall_mem_map.mpr h
  unfold linesOf
  rw [String.toList_intercalate]
  show (List.splitOn '\n' (['\n'].intercalate (lines.map String.toList))).map String.ofList = lines
  rw [List.splitOn_intercalate '\n' hchars (by simpa using hne), List.map_map]
  simp [Function.comp_def]

theorem oneLine_append {s t : String} : OneLine (s ++ t) ↔ OneLine s ∧ OneLine t := by
  simp [OneLine]

theorem oneLine_intercalate {separator : String} {parts : List String}
    (hseparator : OneLine separator) (h : ∀ part ∈ parts, OneLine part) :
    OneLine (separator.intercalate parts) := by
  induction parts with
  | nil => simp [OneLine]
  | cons first rest ih =>
    obtain ⟨hfirst, hrest⟩ := List.forall_mem_cons.mp h
    cases rest with
    | nil => rwa [String.intercalate_singleton]
    | cons second rest =>
      rw [String.intercalate_cons_cons, oneLine_append, oneLine_append]
      exact ⟨⟨hfirst, hseparator⟩, ih hrest⟩

theorem oneLine_of_isWord {s : String} (h : isWord s = true) : OneLine s := by
  intro hmem
  have hword := Node.isWordChar_of_isWord h '\n' hmem
  exact absurd hword (by decide)

end Text

open Text

namespace Node

theorem IsTerm.oneLine {n : Node} (h : n.IsTerm) : OneLine n.text := by
  induction h with
  | ident hx => exact oneLine_of_isWord hx
  | concat _ _ ihl ihr => simp_all [OneLine, text]
  | enc hk _ ih | mac hk _ ih | sign hk _ ih =>
    have hk := oneLine_of_isWord hk
    simp_all [OneLine, text]
  | hash _ ih => simp_all [OneLine, text]
  | verify hk _ _ ihm ihs =>
    have hk := oneLine_of_isWord hk
    simp_all [OneLine, text]

theorem IsNamedTerm.oneLine {n : Node} (h : n.IsNamedTerm) : OneLine n.text := by
  cases h with
  | term h => exact h.oneLine
  | assign ht hv =>
    have ht := oneLine_of_isWord ht
    have hv := hv.oneLine
    simp_all [OneLine, text]

end Node

end Wiretap
