import Mathlib.Data.List.Basic
import Wiretap.Protocol.Basic

/-! Places in trees. A place is the way down to a node: the number of a child, the number of a child
of that one, and so on. Places are compared as lists. So a node comes before all that is below it,
and what is below one child comes before what is below the next, which is the order in which the
nodes of a tree are listed. -/

namespace Wiretap

mutual

/-- What goes from the children of every node to the node itself holds of all trees. -/
theorem Node.of_children {P : Node → Prop} (h : ∀ n, (∀ child ∈ n.children, P child) → P n)
    (n : Node) : P n := by
  have hleaf (n : Node) (hn : n.children = []) : P n := h n (by simp [hn])
  have hident (x : String) : P (.ident x) := hleaf _ rfl
  refine h n ?_
  cases n with
  | ident | roles | key | nonce | blank => simp [Node.children]
  | concat l r => simp [Node.children, l.of_children h, r.of_children h]
  | enc _ m | mac _ m | hash m | sign _ m | assign _ m | send _ _ m =>
    simp [Node.children, hident, m.of_children h]
  | verify _ m s => simp [Node.children, hident, m.of_children h, s.of_children h]
  | protocol d script =>
    rw [Node.children, Declarations.nodes, List.forall_mem_append, List.forall_mem_cons,
      List.forall_mem_append, List.forall_mem_map, List.forall_mem_map]
    exact ⟨⟨hleaf _ rfl, fun _ _ => hleaf _ rfl, fun _ _ => hleaf _ rfl⟩, script.of_children h⟩

theorem Script.of_children {P : Node → Prop} (h : ∀ n, (∀ child ∈ n.children, P child) → P n)
    (script : Script) : ∀ n ∈ script.nodes, P n := by
  have hident (x : String) : P (.ident x) := h _ (by simp [Node.children])
  cases script with
  | done => simp [Script.nodes]
  | step s r b rest =>
    rw [Script.nodes, List.forall_mem_cons]
    exact ⟨h _ (by simp [Node.children, hident, b.of_children h]), rest.of_children h⟩

end

/-- Declarations have nothing below them. -/
theorem Declarations.flatMap_outline (d : Declarations) (depth : Nat) :
    d.nodes.flatMap (Node.outline depth) = d.nodes.map (depth, ·) := by
  have hkeys : (d.keys.map Node.key).flatMap (Node.outline depth) =
      d.keys.map fun k => (depth, .key k) := by
    rw [List.flatMap_map]
    exact List.flatMap_pure_eq_map ..
  have hnonces : (d.nonces.map Node.nonce).flatMap (Node.outline depth) =
      d.nonces.map fun k => (depth, .nonce k) := by
    rw [List.flatMap_map]
    exact List.flatMap_pure_eq_map ..
  rw [nodes, List.flatMap_cons, List.flatMap_append, hkeys, hnonces, List.map_cons, List.map_append,
    List.map_map, List.map_map]
  rfl

theorem Script.outline_eq (script : Script) (depth : Nat) :
    script.outline depth = script.nodes.flatMap (Node.outline depth) := by
  cases script with
  | done => rfl
  | step s r b rest =>
    rw [Script.nodes, List.flatMap_cons, ← rest.outline_eq]
    simp only [Script.outline, Node.outline, List.cons_append]

namespace Node

/-- A tree is listed by its root, and then by what is below each child in turn. -/
theorem outline_eq (n : Node) (depth : Nat) :
    n.outline depth = (depth, n) :: n.children.flatMap (outline (depth + 1)) := by
  cases n with
  | ident | roles | key | nonce | blank => rfl
  | concat | enc | mac | hash | sign | verify | assign | send => simp [outline, children]
  | protocol d script =>
    rw [outline, children, List.flatMap_append, d.flatMap_outline, script.outline_eq]

/-- The depth of the root has no say in which nodes an outline lists. -/
theorem outline_nodes (n : Node) (depth : Nat) : (n.outline depth).map (·.2) = n.preorder := by
  rw [preorder]
  induction n using of_children generalizing depth with
  | h n ih =>
    rw [n.outline_eq, n.outline_eq, List.map_cons, List.map_cons, List.map_flatMap,
      List.map_flatMap]
    exact congrArg (n :: ·) (List.flatMap_congr fun child hchild =>
      (ih child hchild _).trans (ih child hchild _).symm)

theorem preorder_eq (n : Node) : n.preorder = n :: n.children.flatMap preorder := by
  rw [preorder, n.outline_eq, List.map_cons, List.map_flatMap]
  exact congrArg (n :: ·) (List.flatMap_congr fun child _ => child.outline_nodes _)

theorem mem_preorder_self (n : Node) : n ∈ n.preorder := by
  rw [preorder_eq]
  exact List.mem_cons_self

theorem preorder_subset_of_mem_children {n child : Node} (h : child ∈ n.children) :
    child.preorder ⊆ n.preorder := by
  rw [n.preorder_eq]
  exact fun x hx => List.mem_cons_of_mem _ (List.mem_flatMap.mpr ⟨child, h, hx⟩)

/-- What goes from every node to those right below it goes down a whole tree. -/
theorem forall_mem_preorder {P : Node → Prop} (hdown : ∀ n, P n → ∀ child ∈ n.children, P child)
    {n : Node} (hn : P n) : ∀ x ∈ n.preorder, P x := by
  induction n using of_children with
  | h n ih =>
    rw [preorder_eq, List.forall_mem_cons, List.forall_mem_flatMap]
    exact ⟨hn, fun child hchild => ih child hchild (hdown n hn child hchild)⟩

/-- The node at a place of a tree. -/
def at? (n : Node) : List Nat → Option Node
  | [] => some n
  | i :: place => n.children[i]?.bind (·.at? place)

end Node

/-- What parts have at the places below them: the number of a part, then a place in this part. -/
def Below {ν α : Type} (parts : List ν) (R : ν → List Nat → α → Prop) : List Nat → α → Prop
  | [], _ => False
  | i :: place, a => ∃ part, parts[i]? = some part ∧ R part place a

/-- The entries are what the places have by `R`, all of it, in the order of the places. -/
structure Lists {α : Type} (R : List Nat → α → Prop) (entries : List (List Nat × α)) : Prop where
  ascending : entries.Pairwise (·.1 < ·.1)
  mem_iff : ∀ place a, (place, a) ∈ entries ↔ R place a

namespace Lists

variable {ν α β : Type} {R : List Nat → α → Prop} {entries : List (List Nat × α)}

theorem congr {R' : List Nat → α → Prop} (h : Lists R entries)
    (hR : ∀ place a, R place a ↔ R' place a) : Lists R' entries :=
  ⟨h.ascending, fun place a => (h.mem_iff place a).trans (hR place a)⟩

theorem filterMap (h : Lists R entries) (f : α → Option β) :
    Lists (fun place b => ∃ a, R place a ∧ f a = some b)
      (entries.filterMap fun e => (f e.2).map (e.1, ·)) where
  ascending := by
    refine List.Pairwise.filterMap _ ?_ h.ascending
    intro e e' hlt b hb b' hb'
    obtain ⟨_, -, rfl⟩ := Option.map_eq_some_iff.mp hb
    obtain ⟨_, -, rfl⟩ := Option.map_eq_some_iff.mp hb'
    exact hlt
  mem_iff place b := by
    rw [List.mem_filterMap]
    constructor
    · rintro ⟨⟨place', a⟩, hmem, hf⟩
      obtain ⟨b', hf, heq⟩ := Option.map_eq_some_iff.mp hf
      cases heq
      exact ⟨a, (h.mem_iff place' a).mp hmem, hf⟩
    · rintro ⟨a, hR, hf⟩
      exact ⟨(place, a), (h.mem_iff place a).mpr hR, by simp [hf]⟩

theorem filter (h : Lists R entries) (q : α → Bool) :
    Lists (fun place a => R place a ∧ q a = true) (entries.filter (q ·.2)) where
  ascending := h.ascending.filter _
  mem_iff place a := by rw [List.mem_filter, h.mem_iff]

/-- Of the entries with the same key, the first ones. -/
theorem firsts [DecidableEq β] {R : List Nat → α → Prop} {entries : List (List Nat × α)}
    (h : Lists R entries) (key : α → β) :
    Lists (fun place a => R place a ∧ ∀ earlier < place, ∀ b, R earlier b → key b ≠ key a)
      (entries.eraseDupsBy fun e e' => key e.2 == key e'.2) := by
  -- The recursion goes to those of the later entries that have another key than the first one.
  match entries with
  | [] =>
    refine ⟨.nil, fun place a => ?_⟩
    simp [← h.mem_iff, List.eraseDupsBy, List.eraseDupsBy.loop]
  | (first, b) :: rest =>
    obtain ⟨hfirst, hrest⟩ := List.pairwise_cons.mp h.ascending
    have hothers : Lists (fun place a => (place, a) ∈ rest ∧ key a ≠ key b)
        (rest.filter fun e => (key e.2 == key b) = false) :=
      ⟨hrest.filter _, fun place a => by simp [List.mem_filter]⟩
    have ih := hothers.firsts key
    rw [List.eraseDupsBy_cons]
    refine ⟨List.pairwise_cons.mpr ⟨fun e he => ?_, ih.ascending⟩, fun place a => ?_⟩
    · exact hfirst e ((ih.mem_iff e.1 e.2).mp he).1.1
    · rw [List.mem_cons, ih.mem_iff, ← h.mem_iff, List.mem_cons]
      constructor
      · rintro (heq | ⟨⟨hmem, hne⟩, hnone⟩)
        · cases heq
          refine ⟨.inl rfl, fun earlier hlt c hc _ => ?_⟩
          rcases List.mem_cons.mp ((h.mem_iff earlier c).mpr hc) with heq | hmem
          · cases heq
            exact List.lt_irrefl _ hlt
          · exact List.lt_asymm hlt (hfirst _ hmem)
        · refine ⟨.inr hmem, fun earlier hlt c hc hkey => ?_⟩
          rcases List.mem_cons.mp ((h.mem_iff earlier c).mpr hc) with heq | hmem
          · cases heq
            exact hne hkey.symm
          · exact hnone earlier hlt c ⟨hmem, hkey ▸ hne⟩ hkey
      · rintro ⟨heq | hmem, hnone⟩
        · exact .inl heq
        · refine .inr ⟨⟨hmem, fun hkey => ?_⟩, fun earlier hlt c hc => ?_⟩
          · have hb := (h.mem_iff first b).mp List.mem_cons_self
            exact hnone first (hfirst _ hmem) b hb hkey.symm
          · exact hnone earlier hlt c ((h.mem_iff earlier c).mp (List.mem_cons_of_mem _ hc.1))
termination_by entries.length
decreasing_by
  have := List.length_filter_le (fun e : List Nat × α => (key e.2 == key b) = false) rest
  rw [List.length_cons]
  omega

theorem below {parts : List ν} {R : ν → List Nat → α → Prop} {walk : ν → List (List Nat × α)}
    (h : ∀ part ∈ parts, Lists (R part) (walk part)) :
    Lists (Below parts R)
      (parts.zipIdx.flatMap fun t => (walk t.1).map fun e => (t.2 :: e.1, e.2)) where
  ascending := by
    rw [List.pairwise_flatMap]
    constructor
    · intro t ht
      have hwalk := (h t.1 (List.fst_mem_of_mem_zipIdx ht)).ascending
      exact hwalk.map _ fun e e' hlt => List.cons_lt_cons_iff.mpr (.inr ⟨rfl, hlt⟩)
    · have hnumbers : parts.zipIdx.Pairwise (·.2 < ·.2) := by
        rw [← List.pairwise_map, List.zipIdx_map_snd]
        exact List.pairwise_lt_range' ..
      refine hnumbers.imp fun {t t'} hlt e he e' he' => ?_
      obtain ⟨_, -, rfl⟩ := List.mem_map.mp he
      obtain ⟨_, -, rfl⟩ := List.mem_map.mp he'
      exact List.cons_lt_cons_iff.mpr (.inl hlt)
  mem_iff place a := by
    rw [List.mem_flatMap]
    constructor
    · rintro ⟨t, ht, hmem⟩
      obtain ⟨e, he, heq⟩ := List.mem_map.mp hmem
      cases heq
      exact ⟨t.1, List.mem_zipIdx_iff_getElem?.mp ht,
        ((h t.1 (List.fst_mem_of_mem_zipIdx ht)).mem_iff e.1 e.2).mp he⟩
    · intro ha
      cases place with
      | nil => exact ha.elim
      | cons i place =>
        obtain ⟨part, hpart, ha⟩ := ha
        have hmem := ((h part (List.mem_of_getElem? hpart)).mem_iff place a).mpr ha
        exact ⟨(part, i), List.mem_zipIdx_iff_getElem?.mpr hpart, List.mem_map.mpr ⟨_, hmem, rfl⟩⟩

end Lists

theorem map_eraseDupsBy {α β : Type} (f : α → β) (r : β → β → Bool) (xs : List α) :
    (xs.eraseDupsBy fun a b => r (f a) (f b)).map f = (xs.map f).eraseDupsBy r := by
  match xs with
  | [] => rfl
  | x :: xs =>
    rw [List.eraseDupsBy_cons, List.map_cons, map_eraseDupsBy, List.map_cons, List.eraseDupsBy_cons,
      List.filter_map]
    rfl
termination_by xs.length
decreasing_by
  have := List.length_filter_le (fun b => r (f b) (f x) = false) xs
  rw [List.length_cons]
  omega

/-- Items in the order of the places that have them by `R`. -/
def InOrder {α : Type} (R : List Nat → α → Prop) (items : List α) : Prop :=
  ∃ entries, Lists R entries ∧ entries.map (·.2) = items

namespace InOrder

variable {ν α β : Type} {R : List Nat → α → Prop} {items : List α}

theorem congr {R' : List Nat → α → Prop} (h : InOrder R items)
    (hR : ∀ place a, R place a ↔ R' place a) : InOrder R' items := by
  obtain ⟨entries, hentries, hitems⟩ := h
  exact ⟨entries, hentries.congr hR, hitems⟩

theorem filterMap (h : InOrder R items) (f : α → Option β) :
    InOrder (fun place b => ∃ a, R place a ∧ f a = some b) (items.filterMap f) := by
  obtain ⟨entries, hentries, rfl⟩ := h
  refine ⟨_, hentries.filterMap f, ?_⟩
  simp [List.map_filterMap, List.filterMap_map, Function.comp_def]

theorem map (h : InOrder R items) (f : α → β) :
    InOrder (fun place b => ∃ a, R place a ∧ f a = b) (items.map f) := by
  simpa [Function.comp_def] using h.filterMap (some ∘ f)

theorem filter (h : InOrder R items) (q : α → Bool) :
    InOrder (fun place a => R place a ∧ q a = true) (items.filter q) := by
  obtain ⟨entries, hentries, rfl⟩ := h
  exact ⟨_, hentries.filter q, List.filter_map.symm⟩

theorem firsts [DecidableEq β] (h : InOrder R items) (key : α → β) :
    InOrder (fun place a => R place a ∧ ∀ earlier < place, ∀ b, R earlier b → key b ≠ key a)
      (items.eraseDupsBy fun a b => key a == key b) := by
  obtain ⟨entries, hentries, rfl⟩ := h
  exact ⟨_, hentries.firsts key, map_eraseDupsBy (·.2) (fun a b => key a == key b) entries⟩

theorem mem_iff (h : InOrder R items) (a : α) : a ∈ items ↔ ∃ place, R place a := by
  obtain ⟨entries, hentries, rfl⟩ := h
  simp [← hentries.mem_iff]

/-- The items of the parts, one part after the other. -/
theorem below {parts : List ν} {R : ν → List Nat → α → Prop} {items : ν → List α}
    (h : ∀ part ∈ parts, InOrder (R part) (items part)) :
    InOrder (Below parts R) (parts.flatMap items) := by
  choose! walk hwalk hitems using h
  refine ⟨_, .below hwalk, ?_⟩
  calc (parts.zipIdx.flatMap fun t => (walk t.1).map fun e => (t.2 :: e.1, e.2)).map (·.2)
      = parts.zipIdx.flatMap fun t => (walk t.1).map (·.2) := by
        simp only [List.map_flatMap, List.map_map, Function.comp_def]
    _ = (parts.zipIdx.map (·.1)).flatMap fun part => (walk part).map (·.2) := by
        rw [List.flatMap_map]
    _ = parts.flatMap items := by
        rw [List.zipIdx_map_fst]
        exact List.flatMap_congr hitems

end InOrder

namespace Node

/-- A tree is listed in the order of the places in it, and the depth of a node is the length of its
place. -/
theorem outline_inOrder (n : Node) (depth : Nat) :
    InOrder (fun place e => n.at? place = some e.2 ∧ e.1 = depth + place.length)
      (n.outline depth) := by
  induction n using of_children generalizing depth with
  | h n ih =>
    obtain ⟨walk, hwalk, hnodes⟩ := InOrder.below fun child hchild => ih child hchild (depth + 1)
    have hroot : ∀ e, ([], e) ∉ walk := fun e he => ((hwalk.mem_iff [] e).mp he).elim
    refine ⟨([], (depth, n)) :: walk, ⟨List.pairwise_cons.mpr ⟨?_, hwalk.ascending⟩, ?_⟩, ?_⟩
    · -- The root comes first, since its place is the empty list.
      rintro ⟨_ | ⟨i, place⟩, e⟩ he
      · exact absurd he (hroot e)
      · exact List.nil_lt_cons i place
    · rintro (_ | ⟨i, place⟩) ⟨k, m⟩
      · simp [hroot (k, m), at?, eq_comm, and_comm]
      · simp only [List.mem_cons, Prod.mk.injEq, List.cons_ne_nil, false_and, false_or]
        have hdepth : depth + 1 + place.length = depth + (i :: place).length := by
          rw [List.length_cons]
          omega
        rw [hwalk.mem_iff, at?, Option.bind_eq_some_iff]
        simp only [Below, hdepth, ← and_assoc, exists_and_right]
    · rw [List.map_cons, hnodes, ← outline_eq]

/-- The nodes of a tree are listed in the order of their places. -/
theorem preorder_inOrder (n : Node) : InOrder (n.at? · = some ·) n.preorder :=
  ((n.outline_inOrder 0).map (·.2)).congr fun place m => by simp

end Node

end Wiretap
