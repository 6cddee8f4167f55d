import Mathlib.Data.List.Forall2
import Mathlib.Data.List.Nodup
import Wiretap.Knowledge.State

/-! What the declarations of a protocol say. Of several declarations of one key the last counts, so
the kind of a key depends on the declarations of its own name alone, in their order. Principals
stand in the order in which roles are first declared. -/

namespace Wiretap

namespace Protocol

variable {p q : Protocol} {name : String}

/-- The declarations of the key called `name`, in their order. -/
def declarationsOf (p : Protocol) (name : String) : List KeyDecl :=
  p.keys.filter (·.name = name)

theorem mem_declarationsOf {d : KeyDecl} :
    d ∈ p.declarationsOf name ↔ d ∈ p.keys ∧ d.name = name := by
  simp [declarationsOf]

theorem kind?_map_keys (keys : List KeyDecl) (name : String) :
    KeyTable.kind? (keys.map fun d => (d.name, d.kind)) name =
      ((keys.filter (·.name = name)).map (·.kind)).getLast? := by
  induction keys with
  | nil => rfl
  | cons d ds ih =>
    rw [List.map_cons, KeyTable.kind?, ih]
    by_cases hname : d.name = name
    · rw [List.filter_cons_of_pos (by simpa using hname), List.map_cons, List.getLast?_cons,
        if_pos hname]
      cases ((ds.filter (·.name = name)).map (·.kind)).getLast? with
      | none => rfl
      | some kind => rfl
    · rw [List.filter_cons_of_neg (by simpa using hname), if_neg hname, Option.or_none]

/-- The kind of a key is that of its last declaration. -/
theorem kind?_eq_getLast? (p : Protocol) (name : String) :
    p.keyTable.kind? name = ((p.declarationsOf name).map (·.kind)).getLast? :=
  kind?_map_keys p.keys name

theorem kind?_eq_none_iff : p.keyTable.kind? name = none ↔ ∀ d ∈ p.keys, d.name ≠ name := by
  rw [kind?_eq_getLast?, List.getLast?_eq_none_iff, List.map_eq_nil_iff, declarationsOf,
    List.filter_eq_nil_iff]
  simp

/-- Declarations of one name that agree one by one on the kind give it the same kind. -/
theorem kind?_eq_of_declarationsOf {R : KeyDecl → KeyDecl → Prop}
    (hR : ∀ d d', R d d' → d.kind = d'.kind)
    (h : List.Forall₂ R (p.declarationsOf name) (q.declarationsOf name)) :
    p.keyTable.kind? name = q.keyTable.kind? name := by
  have hkinds : (p.declarationsOf name).map (·.kind) = (q.declarationsOf name).map (·.kind) := by
    rw [← List.forall₂_eq_eq_eq, List.forall₂_map_left_iff, List.forall₂_map_right_iff]
    exact h.imp hR
  rw [kind?_eq_getLast?, kind?_eq_getLast?, hkinds]

end Protocol

/-! ### Principals -/

/-- Leaving out members keeps the order in which the others are first met. -/
theorem idxOf_lt_of_filter {P : String → Bool} {xs : List String} {a b : String} (hb : P b = true)
    (h : (xs.filter P).idxOf a < (xs.filter P).idxOf b) : xs.idxOf a < xs.idxOf b := by
  induction xs with
  | nil => exact h
  | cons x xs ih =>
    by_cases hxb : x = b
    · subst hxb
      rw [List.filter_cons_of_pos hb, List.idxOf_cons_self] at h
      omega
    · rw [List.idxOf_cons_ne _ hxb]
      by_cases hxa : x = a
      · rw [hxa, List.idxOf_cons_self]
        omega
      · rw [List.idxOf_cons_ne _ hxa]
        have hrest : (xs.filter P).idxOf a < (xs.filter P).idxOf b := by
          by_cases hx : P x = true
          · rw [List.filter_cons_of_pos hx, List.idxOf_cons_ne _ hxa, List.idxOf_cons_ne _ hxb] at h
            omega
          · rwa [List.filter_cons_of_neg hx] at h
        have := ih hrest
        omega

theorem eraseDups_ordered (xs : List String) :
    xs.eraseDups.Pairwise fun a b => xs.idxOf a < xs.idxOf b := by
  cases xs with
  | nil => simp
  | cons x xs =>
    have hkept : ∀ b ∈ (xs.filter fun b => !b == x).eraseDups, b ≠ x := by
      intro b hb
      have := List.mem_eraseDups.mp hb
      simp_all
    rw [List.eraseDups_cons, List.pairwise_cons]
    refine ⟨fun b hb => ?_, ?_⟩
    · rw [List.idxOf_cons_self, List.idxOf_cons_ne _ (hkept b hb).symm]
      omega
    · refine (eraseDups_ordered (xs.filter fun b => !b == x)).imp_of_mem fun {a b} ha hb hab => ?_
      have hxa : x ≠ a := (hkept a ha).symm
      have hxb : x ≠ b := (hkept b hb).symm
      have := idxOf_lt_of_filter (by simpa using hxb.symm) hab
      rw [List.idxOf_cons_ne _ hxa, List.idxOf_cons_ne _ hxb]
      omega
termination_by xs.length
decreasing_by
  have := List.length_filter_le (fun b => !b == x) xs
  rw [List.length_cons]
  omega

theorem eraseDups_nodup (xs : List String) : xs.eraseDups.Nodup :=
  (eraseDups_ordered xs).imp fun h heq => by
    subst heq
    omega

namespace Protocol

variable {p : Protocol} {name : String}

/-- The principals that are not the adversary. -/
def others (p : Protocol) : List String :=
  p.principals.filter (· ≠ adversary)

theorem others_eq (p : Protocol) : p.others = p.roles.eraseDups.filter (· ≠ adversary) := by
  unfold others principals
  dsimp only
  split
  · rfl
  · rw [List.filter_append]
    simp

theorem mem_others : name ∈ p.others ↔ name ∈ p.roles ∧ name ≠ adversary := by
  simp [others_eq]

theorem others_ordered (p : Protocol) :
    p.others.Pairwise fun a b => p.roles.idxOf a < p.roles.idxOf b := by
  rw [others_eq]
  exact (eraseDups_ordered p.roles).filter _

theorem others_nodup (p : Protocol) : p.others.Nodup := by
  rw [others_eq]
  exact (eraseDups_nodup p.roles).filter _

/-- The adversary is a principal exactly once, declared or not. -/
theorem filter_adversary (p : Protocol) : p.principals.filter (· = adversary) = [adversary] := by
  unfold principals
  dsimp only
  split
  · rename_i hmem
    rw [List.filter_eq, List.count_eq_one_of_mem (eraseDups_nodup p.roles) hmem]
    rfl
  · rename_i hmem
    have hnone : p.roles.eraseDups.filter (· = adversary) = [] := by
      rw [List.filter_eq_nil_iff]
      intro name hname
      have : name ≠ adversary := fun h => hmem (h ▸ hname)
      simpa using this
    rw [List.filter_append, hnone]
    simp

end Protocol

end Wiretap
