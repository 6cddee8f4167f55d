import Mathlib.Data.List.Forall2
import Mathlib.Order.Bounds.Basic
import Wiretap.Knowledge.Saturation
import Wiretap.Proofs.Exposure

/-! Opening ciphertexts as a closure. A set of terms is closed under the ciphertexts that a
principal has seen if it holds the leaves of each plaintext whose key it holds. Every pass over
the ciphertexts, in whatever order, stays inside the closed sets around what was known before, and
a round that learns nothing leaves a closed set. So the rounds end in the least closed set. -/

namespace Wiretap

/-- Whether a key with this name is declared, and is shared or private. -/
def KeyTable.Unlocks (table : KeyTable) (name : String) : Prop :=
  table.kind? name = some .shared ∨ table.kind? name = some .privateHalf

theorem KeyTable.opens_iff {table : KeyTable} {name : String} :
    table.opens name = true ↔ table.Unlocks name := by
  unfold KeyTable.opens KeyTable.Unlocks
  cases table.kind? name with
  | none => simp
  | some kind => cases kind <;> simp [KeyKind.opens]

/-- The terms of a set. -/
def Terms.toSet (s : Terms) : Set String :=
  {t | t ∈ s}

/-- Ascending lists with the same members are equal. -/
theorem Terms.toSet_injective {s s' : Terms} (h : s.toSet = s'.toSet) : s = s' := by
  obtain ⟨xs, hxs⟩ := s
  obtain ⟨ys, hys⟩ := s'
  have hmem : ∀ t, t ∈ xs ↔ t ∈ ys := fun t => Set.ext_iff.mp h t
  have hperm : xs.Perm ys := by
    rw [List.perm_ext_iff_of_nodup]
    · exact hmem
    · exact hxs.imp fun h => String.ne_of_lt h
    · exact hys.imp fun h => String.ne_of_lt h
  have : xs = ys :=
    hperm.eq_of_pairwise (fun _ _ _ _ hab hba => (String.lt_asymm hab hba).elim) hxs hys
  subst this
  rfl

namespace Locks

/-- `S` is closed under opening the ciphertexts of `cs`: if it holds the key that opens one of
them, and that key is shared or private, it holds the leaves of the plaintext. -/
def Closed (l : Locks) (cs : List Ciphertext) (S : Set String) : Prop :=
  ∀ c ∈ cs, l.requiredKey c.key ∈ S → l.table.Unlocks (l.requiredKey c.key) →
    ∀ x, c.plaintext.Leaf x → x.text ∈ S

theorem Closed.mono {l : Locks} {cs ds : List Ciphertext} {S : Set String} (h : l.Closed ds S)
    (hsub : ∀ c ∈ cs, c ∈ ds) : l.Closed cs S :=
  fun c hc => h c (hsub c hc)

theorem canOpen_iff {l : Locks} {known : Terms} {key : String} :
    l.canOpen known key = true ↔ key ∈ known ∧ l.table.Unlocks key := by
  rw [canOpen, Bool.and_eq_true, decide_eq_true_iff, KeyTable.opens_iff]

end Locks

/-- All leaves of the plaintext are known. -/
def Ciphertext.AbsorbedBy (c : Ciphertext) (known : Terms) : Prop :=
  ∀ x, c.plaintext.Leaf x → x.text ∈ known

theorem Node.IsExpr.unwrap_known_eq {n : Node} (hn : n.IsExpr) {known : Terms}
    (h : (n.unwrap known).isNew = false) : (n.unwrap known).known = known := by
  obtain ⟨-, hmem, hnew⟩ := hn.unwrap known
  apply Terms.toSet_injective
  refine Set.Subset.antisymm (fun t ht => ?_) fun t ht => (hmem t).mpr (.inl ht)
  rcases (hmem t).mp ht with ht | ⟨x, hx, rfl⟩
  · exact ht
  · exact hnew.mp h x hx

/-- What a pass over `cs` that starts with `known` has to leave. -/
structure Pass.Completes (l : Locks) (known : Terms) (cs : List Ciphertext) (r : Pass) : Prop where
  fault : r.fault = none
  grows : known.toSet ⊆ r.known.toSet
  least : ∀ S, l.Closed cs S → known.toSet ⊆ S → r.known.toSet ⊆ S
  closed : ∀ c ∈ r.closed, c ∈ cs
  opened : ∀ c ∈ cs, c ∈ r.closed ∨ c.AbsorbedBy r.known
  quiet : r.telling = [] →
    r.known = known ∧ ∀ c ∈ r.closed, ¬l.canOpen known (l.requiredKey c.key) = true
  shrinks : r.closed.length + r.telling.length ≤ cs.length

namespace Locks

variable {l : Locks} {known : Terms} {c : Ciphertext} {cs : List Ciphertext}

theorem pass_cons_open (hc : c.plaintext.IsExpr)
    (hopen : l.canOpen known (l.requiredKey c.key) = true) :
    l.pass known (c :: cs) =
      let rest := l.pass (c.plaintext.unwrap known).known cs
      if (c.plaintext.unwrap known).isNew then { rest with telling := c :: rest.telling }
      else rest := by
  rw [pass, if_pos hopen]
  simp only [(hc.unwrap known).1]

theorem pass_cons_closed (hopen : ¬l.canOpen known (l.requiredKey c.key) = true) :
    l.pass known (c :: cs) =
      { l.pass known cs with closed := c :: (l.pass known cs).closed } := by
  rw [pass, if_neg hopen]

theorem completes_open (hc : c.plaintext.IsExpr)
    (hopen : l.canOpen known (l.requiredKey c.key) = true)
    (rest : (l.pass (c.plaintext.unwrap known).known cs).Completes l
      (c.plaintext.unwrap known).known cs) :
    (l.pass known (c :: cs)).Completes l known (c :: cs) := by
  obtain ⟨-, hmem, -⟩ := hc.unwrap known
  obtain ⟨hkey, hkind⟩ := canOpen_iff.mp hopen
  have grows : known.toSet ⊆ (c.plaintext.unwrap known).known.toSet :=
    fun t ht => (hmem t).mpr (.inl ht)
  have absorbed : c.AbsorbedBy (l.pass (c.plaintext.unwrap known).known cs).known :=
    fun x hx => rest.grows ((hmem x.text).mpr (.inr ⟨x, hx, rfl⟩))
  have least : ∀ S, l.Closed (c :: cs) S → known.toSet ⊆ S →
      (l.pass (c.plaintext.unwrap known).known cs).known.toSet ⊆ S := by
    intro S hS hknown
    refine rest.least S (hS.mono fun d hd => List.mem_cons_of_mem _ hd) fun t ht => ?_
    rcases (hmem t).mp ht with ht | ⟨x, hx, rfl⟩
    · exact hknown ht
    · exact hS c List.mem_cons_self (hknown hkey) hkind x hx
  have opened : ∀ d ∈ c :: cs, d ∈ (l.pass (c.plaintext.unwrap known).known cs).closed ∨
      d.AbsorbedBy (l.pass (c.plaintext.unwrap known).known cs).known := by
    intro d hd
    rcases List.mem_cons.mp hd with rfl | hd
    · exact .inr absorbed
    · exact rest.opened d hd
  rw [pass_cons_open hc hopen]
  dsimp only
  split
  · exact {
      fault := rest.fault
      grows := grows.trans rest.grows
      least
      closed := fun d hd => List.mem_cons_of_mem _ (rest.closed d hd)
      opened
      quiet := fun h => absurd h (by simp)
      shrinks := by have := rest.shrinks; simp only [List.length_cons]; omega }
  · rename_i hold
    -- Nothing was new, so the rest of the pass starts from the same terms.
    rw [hc.unwrap_known_eq (by simpa using hold)] at rest opened least ⊢
    exact {
      fault := rest.fault
      grows := rest.grows
      least
      closed := fun d hd => List.mem_cons_of_mem _ (rest.closed d hd)
      opened
      quiet := rest.quiet
      shrinks := Nat.le_succ_of_le rest.shrinks }

theorem completes_closed (hopen : ¬l.canOpen known (l.requiredKey c.key) = true)
    (rest : (l.pass known cs).Completes l known cs) :
    (l.pass known (c :: cs)).Completes l known (c :: cs) := by
  rw [pass_cons_closed hopen]
  exact {
    fault := rest.fault
    grows := rest.grows
    least := fun S hS hknown =>
      rest.least S (hS.mono fun d hd => List.mem_cons_of_mem _ hd) hknown
    closed := by
      intro d hd
      rcases List.mem_cons.mp hd with rfl | hd
      · exact List.mem_cons_self
      · exact List.mem_cons_of_mem _ (rest.closed d hd)
    opened := by
      intro d hd
      rcases List.mem_cons.mp hd with rfl | hd
      · exact .inl List.mem_cons_self
      · exact (rest.opened d hd).imp_left (List.mem_cons_of_mem _)
    quiet := by
      intro h
      obtain ⟨hknown, hrest⟩ := rest.quiet h
      refine ⟨hknown, fun d hd => ?_⟩
      rcases List.mem_cons.mp hd with rfl | hd
      · exact hopen
      · exact hrest d hd
    shrinks := by
      have := rest.shrinks
      simp only [List.length_cons]
      omega }

theorem pass_completes (known : Terms) (hcs : ∀ c ∈ cs, c.plaintext.IsExpr) :
    (l.pass known cs).Completes l known cs := by
  induction cs generalizing known with
  | nil =>
    exact {
      fault := rfl
      grows := Set.Subset.rfl
      least := fun _ _ h => h
      closed := fun _ h => h
      opened := fun _ h => absurd h List.not_mem_nil
      quiet := fun _ => ⟨rfl, fun _ h => absurd h List.not_mem_nil⟩
      shrinks := Nat.le_refl 0 }
  | cons c cs ih =>
    have hc := hcs c List.mem_cons_self
    have hrest : ∀ d ∈ cs, d.plaintext.IsExpr := fun d hd => hcs d (List.mem_cons_of_mem _ hd)
    by_cases hopen : l.canOpen known (l.requiredKey c.key) = true
    · exact completes_open hc hopen (ih _ hrest)
    · exact completes_closed hopen (ih _ hrest)

end Locks

/-! ### Rounds -/

/-- The pass of one principal in round number `n`. -/
def Locks.passOf (l : Locks) (schedule : Schedule) (n : Nat) (e : Effort) : Pass :=
  l.pass e.view.knows (schedule.visit n e.view.name e.closed)

/-- The effort of a principal after a pass. -/
def Effort.after (e : Effort) (r : Pass) : Effort :=
  ⟨{ e.view with knows := r.known }, r.closed⟩

/-- Only expressions are enciphered in what is still closed. -/
def Effort.Sealed (e : Effort) : Prop :=
  ∀ c ∈ e.closed, c.plaintext.IsExpr

theorem Locks.passOf_completes (l : Locks) (schedule : Schedule) (n : Nat) {e : Effort}
    (he : e.Sealed) : (l.passOf schedule n e).Completes l e.view.knows
      (schedule.visit n e.view.name e.closed) :=
  pass_completes _ fun c hc => he c ((schedule.perm n e.view.name e.closed).mem_iff.mp hc)

/-- The efforts after round number `n`. -/
def Locks.afterRound (l : Locks) (schedule : Schedule) (n : Nat) (es : List Effort) :
    List Effort :=
  es.map fun e => e.after (l.passOf schedule n e)

/-- In a round each principal makes its own pass, whatever the others do. -/
theorem Locks.round_eq (l : Locks) (schedule : Schedule) (n : Nat) {es : List Effort}
    (hes : ∀ e ∈ es, e.Sealed) :
    l.round schedule n es = {
      efforts := l.afterRound schedule n es
      told := es.flatMap fun e => (l.passOf schedule n e).telling.map ((e.view.name, ·))
      fault := none } := by
  induction es with
  | nil => rfl
  | cons e es ih =>
    have hfault := (l.passOf_completes schedule n (hes e List.mem_cons_self)).fault
    have hrest := ih fun d hd => hes d (List.mem_cons_of_mem _ hd)
    unfold passOf at hfault
    simp only [round, hfault, hrest, List.flatMap_cons]
    rfl

/-- How an effort stands to the view `v` that it started from. Opened ciphertexts are absorbed,
and nothing is known that is not in every closed set around `v`. -/
structure Effort.Follows (l : Locks) (v : View) (e : Effort) : Prop where
  plain : ∀ c ∈ v.pending, c.plaintext.IsExpr
  name : e.view.name = v.name
  pending : e.view.pending = v.pending
  grows : v.knows.toSet ⊆ e.view.knows.toSet
  least : ∀ S, l.Closed v.pending S → v.knows.toSet ⊆ S → e.view.knows.toSet ⊆ S
  closed : ∀ c ∈ e.closed, c ∈ v.pending
  opened : ∀ c ∈ v.pending, c ∈ e.closed ∨ c.AbsorbedBy e.view.knows

namespace Effort.Follows

variable {l : Locks} {v : View} {e : Effort}

theorem start (l : Locks) {v : View} (hv : ∀ c ∈ v.pending, c.plaintext.IsExpr) :
    Follows l v ⟨v, v.pending⟩ where
  plain := hv
  name := rfl
  pending := rfl
  grows := Set.Subset.rfl
  least _ _ h := h
  closed _ h := h
  opened _ h := .inl h

theorem isSealed (h : Follows l v e) : e.Sealed :=
  fun c hc => h.plain c (h.closed c hc)

/-- A pass keeps an effort in its relation to the view that it started from. -/
theorem step (h : Follows l v e) (schedule : Schedule) (n : Nat) :
    Follows l v (e.after (l.passOf schedule n e)) := by
  have pass := l.passOf_completes schedule n h.isSealed
  have hvisit : ∀ c, c ∈ schedule.visit n e.view.name e.closed ↔ c ∈ e.closed :=
    fun c => (schedule.perm n e.view.name e.closed).mem_iff
  exact {
    plain := h.plain
    name := h.name
    pending := h.pending
    grows := h.grows.trans pass.grows
    least := fun S hS hknown =>
      pass.least S (hS.mono fun c hc => h.closed c ((hvisit c).mp hc)) (h.least S hS hknown)
    closed := fun c hc => h.closed c ((hvisit c).mp (pass.closed c hc))
    opened := by
      intro c hc
      rcases h.opened c hc with hc | hc
      · exact pass.opened c ((hvisit c).mpr hc)
      · exact .inr fun x hx => pass.grows (hc x hx) }

/-- A pass that tells nothing leaves a closed set. -/
theorem closed_of_quiet (h : Follows l v e) {schedule : Schedule} {n : Nat}
    (hquiet : (l.passOf schedule n e).telling = []) :
    l.Closed v.pending (e.after (l.passOf schedule n e)).view.knows.toSet := by
  intro c hc hkey hkind
  have pass := l.passOf_completes schedule n h.isSealed
  obtain ⟨hsame, hclosed⟩ := pass.quiet hquiet
  rcases (h.step schedule n).opened c hc with hc | hc
  · refine absurd (Locks.canOpen_iff.mpr ⟨?_, hkind⟩) (hclosed c hc)
    rw [← hsame]
    exact hkey
  · exact hc

end Effort.Follows

theorem forall₂_mem_right {α β : Type} {R : α → β → Prop} {xs : List α} {ys : List β}
    (h : List.Forall₂ R xs ys) {y : β} (hy : y ∈ ys) : ∃ x ∈ xs, R x y := by
  induction h with
  | nil => exact absurd hy List.not_mem_nil
  | cons hxy _ ih =>
    rcases List.mem_cons.mp hy with rfl | hy
    · exact ⟨_, List.mem_cons_self, hxy⟩
    · obtain ⟨x, hx, hxy⟩ := ih hy
      exact ⟨x, List.mem_cons_of_mem _ hx, hxy⟩

/-- The ciphertexts that are still closed for their principals. -/
def closedOf (es : List Effort) : List Ciphertext :=
  es.flatMap (·.closed)

/-- Every principal that is told something has one ciphertext less to open. -/
theorem Locks.closedOf_round (l : Locks) (schedule : Schedule) (n : Nat) {es : List Effort}
    (hes : ∀ e ∈ es, e.Sealed) :
    (closedOf (l.round schedule n es).efforts).length + (l.round schedule n es).told.length ≤
      (closedOf es).length := by
  rw [l.round_eq schedule n hes]
  unfold closedOf afterRound
  induction es with
  | nil => exact Nat.le_refl 0
  | cons e es ih =>
    have hrest := ih fun d hd => hes d (List.mem_cons_of_mem _ hd)
    have hpass := (l.passOf_completes schedule n (hes e List.mem_cons_self)).shrinks
    rw [(schedule.perm n e.view.name e.closed).length_eq] at hpass
    simp only [List.map_cons, List.flatMap_cons, List.length_append, List.length_map,
      Effort.after] at hrest ⊢
    omega

/-! ### Runs -/

/-- The turns that opening ciphertexts from `k` goes through. -/
inductive Knowledge.Run (k : Knowledge) (l : Locks) (schedule : Schedule) : Turn → Prop
  | first : Run k l schedule (k.turn l schedule k.efforts)
  | next {t : Turn} :
      Run k l schedule t → t.goesOn = true → Run k l schedule (t.state.turn l schedule t.efforts)

/-- An entry of a snapshot that lies in every closed set around the view `v`. -/
def View.Bounds (l : Locks) (v : View) (entry : String × Terms) : Prop :=
  entry.1 = v.name ∧
    ∀ S, l.Closed v.pending S → v.knows.toSet ⊆ S → entry.2.toSet ⊆ S

/-- How a turn stands to the state `k` that its run started from. -/
structure Turn.Tracks (k : Knowledge) (l : Locks) (t : Turn) : Prop where
  fault : t.fault = none
  views : t.state.views = t.efforts.map (·.view)
  follows : List.Forall₂ (Effort.Follows l) k.views t.efforts
  history : ∀ snapshot ∈ t.state.history,
    snapshot ∈ k.history ∨ List.Forall₂ (View.Bounds l) k.views snapshot

namespace Knowledge

variable {k : Knowledge} {l : Locks} {schedule : Schedule}

/-- Only expressions are enciphered in what has been seen. -/
def Sealed (k : Knowledge) : Prop :=
  ∀ v ∈ k.views, ∀ c ∈ v.pending, c.plaintext.IsExpr

theorem follows_efforts (l : Locks) (hk : k.Sealed) :
    List.Forall₂ (Effort.Follows l) k.views k.efforts := by
  unfold efforts
  rw [List.forall₂_map_right_iff, List.forall₂_same]
  exact fun v hv => Effort.Follows.start l (hk v hv)

theorem sealed_of_follows {es : List Effort}
    (h : List.Forall₂ (Effort.Follows l) k.views es) : ∀ e ∈ es, e.Sealed := by
  intro e he
  obtain ⟨v, _, hv⟩ := forall₂_mem_right h he
  exact hv.isSealed

theorem turn_eq (k : Knowledge) (l : Locks) (schedule : Schedule) {es : List Effort}
    (hes : ∀ e ∈ es, e.Sealed) :
    k.turn l schedule es = {
      state := Knowledge.record { k with
        views := (l.afterRound schedule (k.rounds + 1) es).map (·.view)
        rounds := k.rounds + 1 }
      efforts := l.afterRound schedule (k.rounds + 1) es
      events := (l.round schedule (k.rounds + 1) es).told.map fun (name, c) =>
        .opened (k.rounds + 1) name c.text
      fault := none } := by
  unfold turn
  simp only [l.round_eq schedule (k.rounds + 1) hes]
  rfl

/-- One more turn keeps the relation to the state that the run started from. -/
theorem turn_tracks {j : Knowledge} {es : List Effort}
    (hes : List.Forall₂ (Effort.Follows l) k.views es)
    (hj : ∀ snapshot ∈ j.history,
      snapshot ∈ k.history ∨ List.Forall₂ (View.Bounds l) k.views snapshot) :
    (j.turn l schedule es).Tracks k l := by
  rw [turn_eq j l schedule (sealed_of_follows hes)]
  have next : List.Forall₂ (Effort.Follows l) k.views (l.afterRound schedule (j.rounds + 1) es) :=
    List.forall₂_map_right_iff.mpr (hes.imp fun v e he => he.step schedule (j.rounds + 1))
  refine ⟨rfl, rfl, next, fun snapshot hs => ?_⟩
  rcases List.mem_append.mp hs with hs | hs
  · exact hj snapshot hs
  · obtain rfl := List.mem_singleton.mp hs
    refine .inr ?_
    unfold snapshot
    rw [List.map_map, List.forall₂_map_right_iff]
    exact next.imp fun v e he => ⟨he.name, he.least⟩

theorem Run.tracks (hk : k.Sealed) {t : Turn} (run : Run k l schedule t) : t.Tracks k l := by
  induction run with
  | first => exact turn_tracks (follows_efforts l hk) fun _ hs => .inl hs
  | next _ _ ih => exact turn_tracks ih.follows ih.history

theorem quiet_of_not_goesOn {j : Knowledge} {es : List Effort} (hes : ∀ e ∈ es, e.Sealed)
    (h : (j.turn l schedule es).goesOn = false) :
    ∀ e ∈ es, (l.passOf schedule (j.rounds + 1) e).telling = [] := by
  have htold : (l.round schedule (j.rounds + 1) es).told = [] := by
    rw [turn_eq j l schedule hes] at h
    simpa [Turn.goesOn] using h
  rw [l.round_eq schedule _ hes] at htold
  intro e he
  simpa using List.flatMap_eq_nil_iff.mp htold e he

/-- A turn that goes on leaves fewer ciphertexts closed. -/
theorem closedOf_turn {j : Knowledge} {es : List Effort} (hes : ∀ e ∈ es, e.Sealed)
    (h : (j.turn l schedule es).goesOn = true) :
    (closedOf (j.turn l schedule es).efforts).length < (closedOf es).length := by
  have hround := l.closedOf_round schedule (j.rounds + 1) hes
  have htold : 0 < (l.round schedule (j.rounds + 1) es).told.length := by
    rw [turn_eq j l schedule hes] at h
    simpa [Turn.goesOn, List.length_pos_iff] using h
  unfold turn
  dsimp only
  omega

theorem finish_state (t : Turn) : t.finish.state = t.state := by
  unfold Turn.finish
  split <;> rfl

theorem finish_fault (t : Turn) : t.finish.fault = t.fault := by
  unfold Turn.finish
  split
  · rename_i h
    exact h.symm
  · rename_i h
    exact h.symm

/-- A run ends before its budget does: what `settle` leaves is a turn of the run that does not
go on. -/
theorem settle_run (hk : k.Sealed) (budget : Nat) {t : Turn} (run : Run k l schedule t)
    (hbudget : t.goesOn = true → (closedOf t.efforts).length < budget) :
    ∃ u, Run k l schedule u ∧ u.goesOn = false ∧ (settle l schedule budget t).state = u.state ∧
      (settle l schedule budget t).fault = u.fault := by
  induction budget generalizing t with
  | zero =>
    have hstop : t.goesOn = false := by
      by_contra h
      exact absurd (hbudget (by simpa using h)) (Nat.not_lt_zero _)
    exact ⟨t, run, hstop, finish_state t, finish_fault t⟩
  | succ budget ih =>
    unfold settle
    split
    · rename_i hgo
      refine ih (run.next hgo) fun h => ?_
      have hless := closedOf_turn (sealed_of_follows (run.tracks hk).follows) h
      have hbound := hbudget hgo
      omega
    · rename_i hgo
      exact ⟨t, run, by simpa using hgo, finish_state t, finish_fault t⟩

/-- Every turn of a run is made from efforts that follow the views at its start. -/
theorem Run.exists_turn (hk : k.Sealed) {t : Turn} (run : Run k l schedule t) :
    ∃ j es, t = turn j l schedule es ∧ List.Forall₂ (Effort.Follows l) k.views es := by
  cases run with
  | first => exact ⟨k, k.efforts, rfl, follows_efforts l hk⟩
  | @next t run _ => exact ⟨t.state, t.efforts, rfl, (run.tracks hk).follows⟩

end Knowledge

/-! ### The least closed set -/

/-- `w` is the view `v` with all opened that can be: the ciphertexts are the same, and what is
known is the least closed set around what was known. -/
structure View.Settles (l : Locks) (v w : View) : Prop where
  name : w.name = v.name
  pending : w.pending = v.pending
  least : IsLeast {S | v.knows.toSet ⊆ S ∧ l.Closed v.pending S} w.knows.toSet

theorem View.Settles.unique {l : Locks} {v w w' : View} (h : v.Settles l w)
    (h' : v.Settles l w') : w = w' := by
  obtain ⟨name, knows, pending⟩ := w
  obtain ⟨name', knows', pending'⟩ := w'
  obtain rfl : name = name' := h.name.trans h'.name.symm
  obtain rfl : pending = pending' := h.pending.trans h'.pending.symm
  obtain rfl : knows = knows' := Terms.toSet_injective (h.least.unique h'.least)
  rfl

theorem Effort.Follows.settles {l : Locks} {v : View} {e : Effort} (h : e.Follows l v)
    {schedule : Schedule} {n : Nat} (hquiet : (l.passOf schedule n e).telling = []) :
    v.Settles l (e.after (l.passOf schedule n e)).view := by
  have next := h.step schedule n
  refine ⟨next.name, next.pending, ⟨next.grows, h.closed_of_quiet hquiet⟩, ?_⟩
  rintro S ⟨hknown, hS⟩
  exact next.least S hS hknown

/-- A round that tells nobody anything settles all views. -/
theorem Locks.settles_afterRound {l : Locks} {schedule : Schedule} {n : Nat} {vs : List View}
    {es : List Effort} (hes : List.Forall₂ (Effort.Follows l) vs es)
    (hquiet : ∀ e ∈ es, (l.passOf schedule n e).telling = []) :
    List.Forall₂ (View.Settles l) vs ((l.afterRound schedule n es).map (·.view)) := by
  induction hes with
  | nil => exact .nil
  | cons h _ ih =>
    refine .cons (h.settles (hquiet _ List.mem_cons_self)) (ih fun e he => ?_)
    exact hquiet e (List.mem_cons_of_mem _ he)

namespace Knowledge

variable {k : Knowledge} {l : Locks} {schedule : Schedule}

/-- The budget suffices: opening ciphertexts ends with a turn that does not go on. -/
theorem saturate_run (l : Locks) (schedule : Schedule) (hk : k.Sealed) :
    ∃ u, Run k l schedule u ∧ u.goesOn = false ∧ (k.saturate l schedule).state = u.state ∧
      (k.saturate l schedule).fault = u.fault := by
  refine settle_run hk _ Run.first fun h => ?_
  have hless := closedOf_turn (sealed_of_follows (follows_efforts l hk)) h
  have hstart : closedOf k.efforts = k.views.flatMap (·.pending) := by
    simp [closedOf, efforts, List.flatMap_map]
  rwa [hstart] at hless

/-- Opening ciphertexts ends without a fault, in the least closed set of every principal, and on
the way nobody knows more. -/
theorem saturate_settles (l : Locks) (schedule : Schedule) (hk : k.Sealed) :
    (k.saturate l schedule).fault = none ∧
      List.Forall₂ (View.Settles l) k.views (k.saturate l schedule).state.views ∧
      ∀ snapshot ∈ (k.saturate l schedule).state.history,
        snapshot ∈ k.history ∨ List.Forall₂ (View.Bounds l) k.views snapshot := by
  obtain ⟨u, run, hstop, hstate, hfault⟩ := saturate_run l schedule hk
  have tracks := run.tracks hk
  obtain ⟨j, es, rfl, hes⟩ := run.exists_turn hk
  rw [hstate, hfault]
  refine ⟨tracks.fault, ?_, tracks.history⟩
  have hquiet := quiet_of_not_goesOn (sealed_of_follows hes) hstop
  rw [turn_eq j l schedule (sealed_of_follows hes)]
  exact Locks.settles_afterRound hes hquiet

end Knowledge

end Wiretap
