import Mathlib.Data.Set.Lattice
import Mathlib.Order.CompletePartialOrder
import Wiretap.Proofs.Saturation

/-! What an opened plaintext tells. Its concatenations are taken apart from left to right, and each
leaf is learned by its label. The flag that keeps the rounds going is set exactly if a term was
learned that was not known before. A leaf that is foreign to expressions stops the work, and then
exactly the leaves to the left of it are learned. -/

namespace Wiretap

/-! ### One plaintext after another -/

/-- First `u`, and then `next` with what is known by then, unless a fault stops the work before. -/
def Unwrapped.andThen (u : Unwrapped) (next : Terms → Unwrapped) : Unwrapped :=
  if u.fault.isSome then u else { next u.known with isNew := u.isNew || (next u.known).isNew }

namespace Unwrapped

variable {u : Unwrapped} {next : Terms → Unwrapped}

theorem andThen_of_fault {f : Fault} (h : u.fault = some f) : u.andThen next = u := by
  simp [andThen, h]

theorem andThen_of_none (h : u.fault = none) :
    u.andThen next = { next u.known with isNew := u.isNew || (next u.known).isNew } := by
  simp [andThen, h]

end Unwrapped

theorem learnLeaves_append (known : Terms) (xs ys : List Node) :
    learnLeaves known (xs ++ ys) = (learnLeaves known xs).andThen (learnLeaves · ys) := by
  fun_induction learnLeaves known xs with
  | case1 known => simp [Unwrapped.andThen]
  | case2 known x xs f hx => simp [learnLeaves, hx, Unwrapped.andThen]
  | case3 known x xs term hx hmem ih =>
    rw [← ih, List.cons_append]
    simp only [learnLeaves, hx, if_pos hmem]
  | case4 known x xs term hx hmem rest ih =>
    rw [List.cons_append]
    simp only [learnLeaves, hx, if_neg hmem, ih]
    -- The flag is set already, so the flags of the other leaves do not matter.
    cases hrest : (learnLeaves (known.insert term) xs).fault with
    | some f => simp [Unwrapped.andThen, rest, hrest]
    | none => simp [Unwrapped.andThen, rest, hrest]

namespace Node

variable {n x : Node} {place : List Nat}

/-- A concatenation is learned by its left operand and then by its right one, with the flags of both
joined. -/
theorem unwrap_concat (l r : Node) (known : Terms) :
    (concat l r).unwrap known = (l.unwrap known).andThen r.unwrap :=
  learnLeaves_append known l.spine r.spine

@[elab_as_elim]
theorem of_operands {motive : Node → Prop} (leaf : ∀ n, n.isConcat = false → motive n)
    (concat : ∀ l r, motive l → motive r → motive (.concat l r)) (n : Node) : motive n := by
  induction n using spine.induct with
  | case1 l r ihl ihr => exact concat l r ihl ihr
  | case2 n hn => exact leaf n (isConcat_eq_false hn)

/-! ### Leaves and their places -/

/-- Assignments, declarations, messages, protocols and blanks. No expression has one as a part. -/
def isForeign : Node → Bool
  | .assign .. | .roles _ | .key _ | .nonce _ | .send .. | .protocol .. | .blank => true
  | _ => false

/-- `n.LeafAt place x`: `x` is a leaf of the concatenations at the top of `n`, and `place` is the way
down to it. -/
inductive LeafAt : Node → List Nat → Node → Prop
  | self {n : Node} : n.isConcat = false → LeafAt n [] n
  | left {l r x : Node} {place : List Nat} : LeafAt l place x → LeafAt (.concat l r) (0 :: place) x
  | right {l r x : Node} {place : List Nat} : LeafAt r place x → LeafAt (.concat l r) (1 :: place) x

def leaves (n : Node) : Set Node :=
  {x | n.Leaf x}

/-- The leaves to the left of a place. -/
def leavesBefore (n : Node) (place : List Nat) : Set Node :=
  {x | ∃ earlier < place, n.LeafAt earlier x}

theorem mem_leaves_iff : x ∈ n.leaves ↔ ∃ place, n.LeafAt place x := by
  constructor
  · rintro ⟨hshows, hleaf⟩
    induction hshows with
    | self => exact ⟨[], .self hleaf⟩
    | left _ ih =>
      obtain ⟨place, h⟩ := ih hleaf
      exact ⟨0 :: place, .left h⟩
    | right _ ih =>
      obtain ⟨place, h⟩ := ih hleaf
      exact ⟨1 :: place, .right h⟩
  · rintro ⟨place, h⟩
    induction h with
    | self hleaf => exact ⟨.self _, hleaf⟩
    | left _ ih => exact ⟨.left ih.1, ih.2⟩
    | right _ ih => exact ⟨.right ih.1, ih.2⟩

theorem leaves_of_not_concat (h : n.isConcat = false) : n.leaves = {n} := by
  ext x
  rw [leaves, Set.mem_ofPred_eq, Leaf, shows_of_not_concat h, Set.mem_singleton_iff]
  exact ⟨fun hx => hx.1, fun hx => ⟨hx, hx ▸ h⟩⟩

theorem leaves_concat (l r : Node) : (concat l r).leaves = l.leaves ∪ r.leaves := by
  ext x
  simp only [leaves, Set.mem_union, Set.mem_ofPred_eq, ← mem_spine, spine, List.mem_append]

theorem leavesBefore_nil (n : Node) : n.leavesBefore [] = ∅ :=
  Set.eq_empty_of_forall_notMem fun _ ⟨_, hlt, _⟩ => List.not_lt_nil _ hlt

theorem leavesBefore_left (l r : Node) (place : List Nat) :
    (concat l r).leavesBefore (0 :: place) = l.leavesBefore place := by
  ext x
  constructor
  · rintro ⟨earlier, hlt, hx⟩
    cases hx with
    | self h => cases h
    | left hx => exact ⟨_, by simpa [List.cons_lt_cons_iff] using hlt, hx⟩
    | right hx => simp [List.cons_lt_cons_iff] at hlt
  · rintro ⟨earlier, hlt, hx⟩
    exact ⟨0 :: earlier, List.cons_lt_cons_iff.mpr (.inr ⟨rfl, hlt⟩), .left hx⟩

/-- All of the left operand is to the left of a place in the right one. -/
theorem leavesBefore_right (l r : Node) (place : List Nat) :
    (concat l r).leavesBefore (1 :: place) = l.leaves ∪ r.leavesBefore place := by
  ext x
  rw [Set.mem_union, mem_leaves_iff]
  constructor
  · rintro ⟨earlier, hlt, hx⟩
    cases hx with
    | self h => cases h
    | left hx => exact .inl ⟨_, hx⟩
    | right hx => exact .inr ⟨_, by simpa [List.cons_lt_cons_iff] using hlt, hx⟩
  · rintro (⟨earlier, hx⟩ | ⟨earlier, hlt, hx⟩)
    · exact ⟨0 :: earlier, List.cons_lt_cons_iff.mpr (.inl Nat.one_pos), .left hx⟩
    · exact ⟨1 :: earlier, List.cons_lt_cons_iff.mpr (.inr ⟨rfl, hlt⟩), .right hx⟩

theorem isExpr_of_leaves (h : ∀ x ∈ n.leaves, x.IsExpr) : n.IsExpr := by
  induction n using of_operands with
  | leaf n hn => exact h n (by simp [leaves_of_not_concat hn])
  | concat l r ihl ihr =>
    rw [leaves_concat] at h
    exact .concat (ihl fun x hx => h x (.inl hx)) (ihr fun x hx => h x (.inr hx))

/-! ### What is learned -/

def labels (xs : Set Node) : Set String :=
  {t | ∃ x ∈ xs, x.label = .ok t}

theorem labels_empty : labels ∅ = ∅ := by
  simp [labels]

theorem labels_union (xs ys : Set Node) : labels (xs ∪ ys) = labels xs ∪ labels ys := by
  ext t
  simp only [labels, Set.mem_union, Set.mem_ofPred_eq, or_and_right, exists_or]

theorem IsExpr.mem_labels_leaves (h : n.IsExpr) {t : String} :
    t ∈ labels n.leaves ↔ ∃ x, n.Leaf x ∧ x.text = t := by
  refine exists_congr fun x => and_congr_right fun hx => ?_
  rw [(hx.1.isExpr h).label, Except.ok.injEq]

theorem IsExpr.unwrap_toSet (h : n.IsExpr) (known : Terms) :
    (n.unwrap known).known.toSet = known.toSet ∪ labels n.leaves := by
  obtain ⟨-, hmem, -⟩ := h.unwrap known
  ext t
  exact (hmem t).trans (or_congr_right h.mem_labels_leaves.symm)

/-- The flag is set exactly if the terms that are known have become more. -/
theorem IsExpr.isNew_iff (h : n.IsExpr) (known : Terms) :
    (n.unwrap known).isNew = true ↔ known.toSet ⊂ (n.unwrap known).known.toSet := by
  obtain ⟨-, hmem, hold⟩ := h.unwrap known
  have hgrows : known.toSet ⊆ (n.unwrap known).known.toSet := fun t ht => (hmem t).mpr (.inl ht)
  constructor
  · intro hnew
    refine hgrows.ssubset_of_not_subset fun hback => ?_
    have hquiet := hold.mpr fun x hx => hback ((hmem x.text).mpr (.inr ⟨x, hx, rfl⟩))
    rw [hquiet] at hnew
    cases hnew
  · intro hgrown
    rw [← Bool.not_eq_false]
    intro hquiet
    rw [h.unwrap_known_eq hquiet] at hgrown
    exact hgrown.ne rfl

/-! ### What stops it -/

/-- The leaf `x` at `place` is foreign, and all leaves to the left of it are expressions. -/
structure FirstForeign (n : Node) (place : List Nat) (x : Node) : Prop where
  leafAt : n.LeafAt place x
  foreign : x.isForeign = true
  before : ∀ y ∈ n.leavesBefore place, y.IsExpr

theorem exists_firstForeign (h : ∀ x ∈ n.leaves, x.IsExpr ∨ x.isForeign = true)
    (hforeign : ∃ x ∈ n.leaves, x.isForeign = true) : ∃ place x, n.FirstForeign place x := by
  induction n using of_operands with
  | leaf n hn =>
    simp only [leaves_of_not_concat hn, Set.mem_singleton_iff, exists_eq_left] at hforeign
    exact ⟨[], n, .self hn, hforeign, by simp [leavesBefore_nil]⟩
  | concat l r ihl ihr =>
    simp only [leaves_concat, Set.mem_union, or_imp, forall_and, or_and_right, exists_or]
      at h hforeign
    obtain ⟨hl, hr⟩ := h
    by_cases hleft : ∃ x ∈ l.leaves, x.isForeign = true
    · obtain ⟨place, x, hfirst⟩ := ihl hl hleft
      refine ⟨0 :: place, x, .left hfirst.leafAt, hfirst.foreign, ?_⟩
      rw [leavesBefore_left]
      exact hfirst.before
    · -- The leaves of the left operand are all expressions, and to the left of the one that is found.
      obtain ⟨place, x, hfirst⟩ := ihr hr (hforeign.resolve_left hleft)
      refine ⟨1 :: place, x, .right hfirst.leafAt, hfirst.foreign, ?_⟩
      rw [leavesBefore_right]
      rintro y (hy | hy)
      · exact (hl y hy).resolve_right fun hf => hleft ⟨y, hy, hf⟩
      · exact hfirst.before y hy

theorem unwrap_of_isForeign (h : n.isForeign = true) (known : Terms) :
    n.unwrap known = ⟨known, false, some (.unhandled n.sort)⟩ := by
  cases n with
  | assign | roles | key | nonce | send | protocol | blank => rfl
  | _ => cases h

/-- The work stops at the first foreign leaf, with the leaves to the left of it learned, whatever
stands to the right. -/
theorem FirstForeign.unwrap (h : n.FirstForeign place x) (known : Terms) :
    (n.unwrap known).fault = some (.unhandled x.sort) ∧
      (n.unwrap known).known.toSet = known.toSet ∪ labels (n.leavesBefore place) := by
  obtain ⟨hx, hforeign, hbefore⟩ := h
  induction hx generalizing known with
  | self =>
    rw [unwrap_of_isForeign hforeign, leavesBefore_nil, labels_empty, Set.union_empty]
    exact ⟨rfl, rfl⟩
  | @left l r x place _ ih =>
    rw [leavesBefore_left] at hbefore ⊢
    obtain ⟨hfault, hknown⟩ := ih known hforeign hbefore
    rw [unwrap_concat, Unwrapped.andThen_of_fault hfault]
    exact ⟨hfault, hknown⟩
  | @right l r x place _ ih =>
    rw [leavesBefore_right] at hbefore ⊢
    have hl : l.IsExpr := isExpr_of_leaves fun y hy => hbefore y (.inl hy)
    obtain ⟨hfault, hknown⟩ := ih (l.unwrap known).known hforeign fun y hy => hbefore y (.inr hy)
    rw [unwrap_concat, Unwrapped.andThen_of_none (hl.unwrap known).1]
    refine ⟨hfault, ?_⟩
    calc (r.unwrap (l.unwrap known).known).known.toSet
        = (l.unwrap known).known.toSet ∪ labels (r.leavesBefore place) := hknown
      _ = known.toSet ∪ labels (l.leaves ∪ r.leavesBefore place) := by
        rw [hl.unwrap_toSet, labels_union, Set.union_assoc]

/-- An expression that is opened adds the labels of its leaves to what is known, and the flag is set
exactly if these were not all known. A tree of expressions and foreign leaves, with at least one of
the latter, is refused at the first of them, and adds the labels of the leaves to the left of it. -/
theorem unwrap_exact (n : Node) (known : Terms) :
    (n.IsExpr →
      (n.unwrap known).fault = none ∧
        (n.unwrap known).known.toSet = known.toSet ∪ labels n.leaves ∧
        ((n.unwrap known).isNew = true ↔ known.toSet ⊂ (n.unwrap known).known.toSet)) ∧
    ((∀ x ∈ n.leaves, x.IsExpr ∨ x.isForeign = true) → (∃ x ∈ n.leaves, x.isForeign = true) →
      ∃ place x, n.FirstForeign place x ∧
        (n.unwrap known).fault = some (.unhandled x.sort) ∧
        (n.unwrap known).known.toSet = known.toSet ∪ labels (n.leavesBefore place)) := by
  refine ⟨fun h => ⟨(h.unwrap known).1, h.unwrap_toSet known, h.isNew_iff known⟩, ?_⟩
  intro hleaves hforeign
  obtain ⟨place, x, hfirst⟩ := exists_firstForeign hleaves hforeign
  exact ⟨place, x, hfirst, hfirst.unwrap known⟩

/-- Both operands tell the same digest, and the name `a`. -/
def sharedDigest : Node :=
  .concat (.concat (.ident "a") (.hash (.ident "b"))) (.concat (.hash (.ident "b")) (.ident "a"))

/-- An assignment between leaves that can be learned, and a blank after it. -/
def interrupted : Node :=
  .concat (.concat (.ident "a") (.mac "k" (.ident "b")))
    (.concat (.concat (.ident "a") (.assign "x" (.ident "c"))) (.concat (.ident "d") .blank))

theorem unwrap_exact_interrupted :
    sharedDigest.IsExpr ∧
    (sharedDigest.unwrap (.ofList ["a"])).known.toList = ["Hash(b)", "a"] ∧
    (Terms.ofList ["a"]).toSet ⊂ (sharedDigest.unwrap (.ofList ["a"])).known.toSet ∧
    (¬(Terms.ofList ["a", "Hash(b)"]).toSet ⊂
      (sharedDigest.unwrap (.ofList ["a", "Hash(b)"])).known.toSet) ∧
    (∀ x ∈ interrupted.leaves, x.IsExpr ∨ x.isForeign = true) ∧
    (∃ x ∈ interrupted.leaves, x.isForeign = true) ∧
    (interrupted.unwrap (.ofList ["e"])).known.toList = ["Mac(k, b)", "a", "e"] ∧
    ∃ place x, interrupted.FirstForeign place x ∧ x.sort = "Assign" ∧
      (interrupted.unwrap (.ofList ["e"])).known.toSet =
        (Terms.ofList ["e"]).toSet ∪ labels (interrupted.leavesBefore place) := by
  have hexpr : sharedDigest.IsExpr := by decide
  have hspine : ∀ x ∈ interrupted.spine, x.IsExpr ∨ x.isForeign = true := by decide
  have hleaves : ∀ x ∈ interrupted.leaves, x.IsExpr ∨ x.isForeign = true :=
    fun x hx => hspine x (mem_spine.mpr hx)
  have hforeign : ∃ x ∈ interrupted.leaves, x.isForeign = true :=
    ⟨.blank, mem_spine.mp (by decide), rfl⟩
  have hgrown := ((unwrap_exact sharedDigest (.ofList ["a"])).1 hexpr).2.2
  have hsame := ((unwrap_exact sharedDigest (.ofList ["a", "Hash(b)"])).1 hexpr).2.2
  obtain ⟨place, x, hfirst, hfault, hknown⟩ :=
    (unwrap_exact interrupted (.ofList ["e"])).2 hleaves hforeign
  refine ⟨hexpr, by decide, hgrown.mp (by decide), fun h => ?_, hleaves, hforeign, by decide,
    place, x, hfirst, ?_, hknown⟩
  · exact absurd (hsame.mpr h) (by decide)
  · have hstop : (interrupted.unwrap (.ofList ["e"])).fault = some (.unhandled "Assign") := by decide
    rw [hstop, Option.some.injEq, Fault.unhandled.injEq] at hfault
    exact hfault.symm

end Node

end Wiretap
