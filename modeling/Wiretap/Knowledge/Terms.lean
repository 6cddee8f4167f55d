/-! Finite sets of terms. A set is kept as an ascending list, so equal sets are equal values. -/

namespace Wiretap

/-- A finite set of terms, in ascending order. -/
structure Terms where
  toList : List String
  ascending : toList.Pairwise (· < ·)
deriving DecidableEq

namespace Terms

/-- The set without terms. -/
def empty : Terms := ⟨[], .nil⟩

instance : EmptyCollection Terms := ⟨empty⟩

instance : Inhabited Terms := ⟨∅⟩

instance : Membership String Terms := ⟨fun s t => t ∈ s.toList⟩

instance (t : String) (s : Terms) : Decidable (t ∈ s) :=
  inferInstanceAs (Decidable (t ∈ s.toList))

theorem mem_def {t : String} {s : Terms} : t ∈ s ↔ t ∈ s.toList := Iff.rfl

/-- Puts a term at its place in an ascending list. -/
def insertInto (t : String) : List String → List String
  | [] => [t]
  | x :: xs => if t < x then t :: x :: xs else if t = x then x :: xs else x :: insertInto t xs

theorem mem_insertInto {t u : String} {xs : List String} :
    u ∈ insertInto t xs ↔ u = t ∨ u ∈ xs := by
  induction xs with
  | nil => simp [insertInto]
  | cons x xs ih =>
    unfold insertInto
    split
    · simp
    · split
      · rename_i h
        subst h
        simp
      · simp [ih]
        constructor
        · rintro (h | h | h) <;> simp [h]
        · rintro (h | h | h) <;> simp [h]

theorem lt_of_not_lt_of_ne {a b : String} (h : ¬a < b) (hne : a ≠ b) : b < a := by
  rcases String.le_total a b with hab | hab
  · exact absurd (String.le_antisymm hab (String.not_lt.mp h)) hne
  · exact String.not_le.mp fun h' => hne (String.le_antisymm h' hab)

theorem insertInto_ascending {t : String} {xs : List String} (h : xs.Pairwise (· < ·)) :
    (insertInto t xs).Pairwise (· < ·) := by
  induction xs with
  | nil => simp [insertInto]
  | cons x xs ih =>
    obtain ⟨hx, hxs⟩ := List.pairwise_cons.mp h
    unfold insertInto
    split
    · rename_i htx
      refine List.pairwise_cons.mpr ⟨fun y hy => ?_, h⟩
      rcases List.mem_cons.mp hy with rfl | hy
      · exact htx
      · exact String.lt_trans htx (hx y hy)
    · split
      · exact h
      · rename_i htx hne
        refine List.pairwise_cons.mpr ⟨fun y hy => ?_, ih hxs⟩
        rcases mem_insertInto.mp hy with rfl | hy
        · exact lt_of_not_lt_of_ne htx hne
        · exact hx y hy

/-- The set with one more term. -/
def insert (s : Terms) (t : String) : Terms :=
  ⟨insertInto t s.toList, insertInto_ascending s.ascending⟩

/-- The set with the terms of a list added. -/
def insertAll (s : Terms) (ts : List String) : Terms :=
  ts.foldl insert s

/-- The set of the terms of a list. -/
def ofList (ts : List String) : Terms :=
  (∅ : Terms).insertAll ts

@[simp] theorem mem_empty (t : String) : ¬t ∈ (∅ : Terms) := List.not_mem_nil

@[simp] theorem mem_insert {s : Terms} {t u : String} : u ∈ s.insert t ↔ u = t ∨ u ∈ s :=
  mem_insertInto

@[simp] theorem mem_insertAll {s : Terms} {ts : List String} {u : String} :
    u ∈ s.insertAll ts ↔ u ∈ s ∨ u ∈ ts := by
  induction ts generalizing s with
  | nil => simp [insertAll]
  | cons t ts ih =>
    have h : s.insertAll (t :: ts) = (s.insert t).insertAll ts := rfl
    rw [h, ih, mem_insert, List.mem_cons]
    constructor
    · rintro ((h | h) | h) <;> simp [h]
    · rintro (h | h | h) <;> simp [h]

@[simp] theorem mem_ofList {ts : List String} {u : String} : u ∈ ofList ts ↔ u ∈ ts := by
  simp [ofList]

end Terms

end Wiretap
