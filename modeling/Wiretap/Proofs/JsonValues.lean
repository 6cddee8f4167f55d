import Mathlib.Data.List.Basic
import Wiretap.Json.Basic

/-! Parts of JSON values: the members of an object by name, and the texts of an array. -/

namespace Wiretap

namespace Json

variable {members : List (String × Json)} {name : String} {value : Json}

/-- An object has `value` under `name`. Of several members with this name the last one counts. -/
def HasMember (members : List (String × Json)) (name : String) (value : Json) : Prop :=
  ∃ front back, members = front ++ (name, value) :: back ∧ ∀ m ∈ back, m.1 ≠ name

/-- No member of an object has this name. -/
def Lacks (members : List (String × Json)) (name : String) : Prop :=
  ∀ m ∈ members, m.1 ≠ name

theorem lookup_eq_some_iff : lookup name members = some value ↔ HasMember members name value := by
  unfold lookup HasMember
  rw [Option.map_eq_some_iff]
  constructor
  · rintro ⟨⟨found, _⟩, hfind, rfl⟩
    obtain ⟨hname, later, earlier, hreverse, hlater⟩ := List.find?_eq_some_iff_append.mp hfind
    obtain rfl : found = name := by simpa using hname
    refine ⟨earlier.reverse, later.reverse, ?_, fun m hm => ?_⟩
    · rw [← List.reverse_reverse members, hreverse]
      simp
    · simpa using hlater m (List.mem_reverse.mp hm)
  · rintro ⟨front, back, rfl, hback⟩
    refine ⟨(name, value), ?_, rfl⟩
    rw [List.find?_eq_some_iff_append]
    refine ⟨by simp, back.reverse, front.reverse, by simp, fun m hm => ?_⟩
    simpa using hback m (List.mem_reverse.mp hm)

theorem lookup_eq_none_iff : lookup name members = none ↔ Lacks members name := by
  simp [lookup, Lacks, List.find?_eq_none]

theorem HasMember.unique {other : Json} (h : HasMember members name value)
    (h' : HasMember members name other) : value = other :=
  Option.some.inj ((lookup_eq_some_iff.mpr h).symm.trans (lookup_eq_some_iff.mpr h'))

theorem HasMember.not_lacks (h : HasMember members name value) : ¬Lacks members name := by
  intro hlacks
  cases (lookup_eq_none_iff.mpr hlacks).symm.trans (lookup_eq_some_iff.mpr h)

theorem string_injective : Json.string.Injective :=
  fun _ _ h => Json.string.inj h

theorem strings_injective : Json.strings.Injective := by
  intro texts others h
  exact List.map_injective_iff.mpr string_injective (Json.array.inj h)

theorem texts?_eq_some_iff {items : List Json} {texts : List String} :
    texts? items = some texts ↔ items = texts.map .string := by
  fun_induction texts? items generalizing texts with
  | case1 => cases texts <;> simp
  | case2 s rest ih =>
    cases texts with
    | nil => simp
    | cons t texts => simp [ih, and_comm]
  | case3 item rest hitem =>
    cases texts with
    | nil => simp
    | cons t texts =>
      have hne : item ≠ .string t := fun h => hitem t h
      simp [hne]

end Json

end Wiretap
