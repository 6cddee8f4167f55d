import Wiretap.Proofs.LeastKnowledge

/-! Opening ciphertexts now or later. A state of knowledge is added to, by messages, by single terms
and by single ciphertexts, and between the additions ciphertexts are opened as far as possible. What
a principal knows then lies between its additions and the least closed set around them, and the
last opening reaches that set, which does not depend on when ciphertexts were opened before. -/

namespace Wiretap

/-- The state that was reached, unless a fault stopped the work. -/
def Progress.reached? (r : Progress) : Option Knowledge :=
  if r.fault.isNone then some r.state else none

/-- What is done to a state of knowledge: additions to it, and opening ciphertexts. -/
inductive Operation where
  | observe (p : Protocol)
  | learn (name term : String)
  | intercept (name : String) (c : Ciphertext)
  | saturate (schedule : Schedule)

namespace Operation

/-- The state after an operation, unless it fails. -/
def run (l : Locks) (k : Knowledge) : Operation → Option Knowledge
  | observe p => (k.observeAll p).reached?
  | learn name term => k.modify? name fun v => { v with knows := v.knows.insert term }
  | intercept name c => k.modify? name (·.addPending [c])
  | saturate schedule => (k.saturate l schedule).reached?

/-- The state after operations one after the other. -/
def runAll (l : Locks) (k : Knowledge) (ops : List Operation) : Option Knowledge :=
  ops.foldlM (run l) k

def isAddition : Operation → Bool
  | saturate _ => false
  | _ => true

/-- Messages carry statements, ciphertexts hold expressions, and single additions go to one of the
principals `names`. -/
def Fits (names : List String) : Operation → Prop
  | observe p => ∀ m ∈ p.messages, m.body.IsStatement
  | learn name _ => name ∈ names
  | intercept name c => name ∈ names ∧ c.plaintext.IsExpr
  | saturate _ => True

/-- The terms that an operation adds to what a principal knows. -/
def Tells (name t : String) : Operation → Prop
  | observe p => ∃ m ∈ p.messages, m.Tells name t
  | learn who term => who = name ∧ term = t
  | intercept _ _ => False
  | saturate _ => False

/-- The ciphertexts that an operation adds to those that a principal has seen. -/
def Hands (name : String) (c : Ciphertext) : Operation → Prop
  | observe p => ∃ m ∈ p.messages, m.Hands name c
  | learn _ _ => False
  | intercept who d => who = name ∧ d = c
  | saturate _ => False

theorem Fits.isExpr {names : List String} {o : Operation} (h : o.Fits names) {name : String}
    {c : Ciphertext} (hc : o.Hands name c) : c.plaintext.IsExpr := by
  cases o with
  | observe p =>
    obtain ⟨m, hm, hhands⟩ := hc
    exact hhands.isExpr (h m hm)
  | learn => exact hc.elim
  | intercept who d =>
    obtain ⟨-, rfl⟩ := hc
    exact h.2
  | saturate => exact hc.elim

end Operation

/-! ### Views -/

/-- What a principal with the view `v` has without opening anything, after the operations. -/
def View.basis (ops : List Operation) (v : View) : Set String :=
  {t | t ∈ v.knows ∨ ∃ o ∈ ops, o.Tells v.name t}

/-- How the view `w` stands to the view `v` from before the operations: the ciphertexts are the
old and the added ones, and what is known lies between the basis and the closed sets around it. -/
structure View.Gathers (l : Locks) (ops : List Operation) (v w : View) : Prop where
  name : w.name = v.name
  nodup : w.pending.Nodup
  pending : ∀ c, c ∈ w.pending ↔ c ∈ v.pending ∨ ∃ o ∈ ops, o.Hands v.name c
  grows : v.basis ops ⊆ w.knows.toSet
  least : ∀ S, l.Closed w.pending S → v.basis ops ⊆ S → w.knows.toSet ⊆ S

/-- The same knowledge and the same ciphertexts, in whatever order these are kept. -/
structure View.Agrees (v w : View) : Prop where
  name : v.name = w.name
  knows : v.knows = w.knows
  pending : v.pending.Perm w.pending

namespace View

variable {l : Locks} {u v w : View} {ops ops' : List Operation}

theorem basis_nil (v : View) : v.basis [] = v.knows.toSet := by
  ext t
  simp [basis, Terms.toSet]

theorem Gathers.refl (l : Locks) (hv : v.pending.Nodup) : v.Gathers l [] v where
  name := rfl
  nodup := hv
  pending := by simp
  grows := (basis_nil v).subset
  least _ _ h := (basis_nil v).symm.subset.trans h

theorem Gathers.trans (h : u.Gathers l ops v) (h' : v.Gathers l ops' w) :
    u.Gathers l (ops ++ ops') w where
  name := h'.name.trans h.name
  nodup := h'.nodup
  pending c := by
    simp only [h'.pending, h.pending, h.name, List.mem_append, or_and_right, exists_or, or_assoc]
  grows := by
    rintro t (ht | ⟨o, ho, ht⟩)
    · exact h'.grows (.inl (h.grows (.inl ht)))
    · rcases List.mem_append.mp ho with ho | ho
      · exact h'.grows (.inl (h.grows (.inr ⟨o, ho, ht⟩)))
      · exact h'.grows (.inr ⟨o, ho, h.name.symm ▸ ht⟩)
  least S hS hbasis := by
    -- Ciphertexts are never dropped, so a set closed under the later ones is closed under these.
    have hpending : l.Closed v.pending S := hS.mono fun c hc => (h'.pending c).mpr (.inl hc)
    have hknows : v.knows.toSet ⊆ S := by
      refine h.least S hpending ?_
      rintro t (ht | ⟨o, ho, ht⟩)
      · exact hbasis (.inl ht)
      · exact hbasis (.inr ⟨o, List.mem_append_left _ ho, ht⟩)
    refine h'.least S hS ?_
    rintro t (ht | ⟨o, ho, ht⟩)
    · exact hknows ht
    · exact hbasis (.inr ⟨o, List.mem_append_right _ ho, h.name ▸ ht⟩)

/-- Additions without opening add just their terms. -/
theorem gathers_of_exact {o : Operation} (hname : w.name = v.name) (hnodup : w.pending.Nodup)
    (hpending : ∀ c, c ∈ w.pending ↔ c ∈ v.pending ∨ o.Hands v.name c)
    (hknows : ∀ t, t ∈ w.knows ↔ t ∈ v.knows ∨ o.Tells v.name t) : v.Gathers l [o] w where
  name := hname
  nodup := hnodup
  pending := by simpa using hpending
  grows := by
    rintro t ht
    exact (hknows t).mpr (by simpa [basis] using ht)
  least S _ hS := by
    intro t ht
    exact hS (by simpa [basis] using (hknows t).mp ht)

theorem gathers_observe (l : Locks) {p : Protocol} (hv : v.pending.Nodup)
    (h : v.Observes p.messages w) : v.Gathers l [.observe p] w :=
  gathers_of_exact h.name (h.nodup hv) h.pending h.knows

theorem gathers_learn (l : Locks) (name term : String) (hv : v.pending.Nodup) :
    v.Gathers l [.learn name term]
      (if v.name = name then { v with knows := v.knows.insert term } else v) := by
  split
  · rename_i hname
    refine gathers_of_exact rfl hv (fun c => by simp [Operation.Hands]) fun t => ?_
    rw [Terms.mem_insert, or_comm, eq_comm]
    simp [Operation.Tells, hname]
  · rename_i hname
    refine gathers_of_exact rfl hv (fun c => by simp [Operation.Hands]) fun t => ?_
    simp [Operation.Tells, Ne.symm hname]

theorem gathers_intercept (l : Locks) (name : String) (c : Ciphertext) (hv : v.pending.Nodup) :
    v.Gathers l [.intercept name c] (if v.name = name then v.addPending [c] else v) := by
  split
  · rename_i hname
    refine gathers_of_exact rfl (nodup_addPending hv [c]) (fun d => ?_) fun t => ?_
    · rw [mem_addPending, List.mem_singleton, eq_comm]
      simp [Operation.Hands, hname]
    · simp [Operation.Tells, addPending]
  · rename_i hname
    refine gathers_of_exact rfl hv (fun d => ?_) fun t => by simp [Operation.Tells]
    simp [Operation.Hands, Ne.symm hname]

theorem gathers_saturate {schedule : Schedule} (hv : v.pending.Nodup) (h : v.Settles l w) :
    v.Gathers l [.saturate schedule] w := by
  have hbasis : v.basis [.saturate schedule] = v.knows.toSet := by
    ext t
    simp [basis, Operation.Tells, Terms.toSet]
  refine ⟨h.name, h.pending ▸ hv, fun c => ?_, ?_, fun S hS hknows => ?_⟩
  · simp [h.pending, Operation.Hands]
  · exact hbasis.subset.trans h.least.1.1
  · rw [hbasis] at hknows
    exact h.least.2 ⟨hknows, h.pending ▸ hS⟩

/-- Views that gather the same and are closed agree. -/
theorem Gathers.agrees {w' : View} (h : v.Gathers l ops w) (h' : v.Gathers l ops' w')
    (hw : l.Closed w.pending w.knows.toSet) (hw' : l.Closed w'.pending w'.knows.toSet)
    (hhands : ∀ c, (∃ o ∈ ops, o.Hands v.name c) ↔ ∃ o ∈ ops', o.Hands v.name c)
    (hbasis : v.basis ops = v.basis ops') : w.Agrees w' where
  name := h.name.trans h'.name.symm
  knows := by
    have hpending (c : Ciphertext) : c ∈ w.pending ↔ c ∈ w'.pending := by
      rw [h.pending, h'.pending, hhands]
    apply Terms.toSet_injective
    apply Set.Subset.antisymm
    · exact h.least _ (hw'.mono fun c => (hpending c).mp) (hbasis ▸ h'.grows)
    · exact h'.least _ (hw.mono fun c => (hpending c).mpr) (hbasis ▸ h.grows)
  pending := by
    rw [List.perm_ext_iff_of_nodup h.nodup h'.nodup]
    intro c
    rw [h.pending, h'.pending, hhands]

end View

/-! ### States -/

/-- Every ciphertext that has been seen is kept once and holds an expression. -/
structure Knowledge.Tidy (k : Knowledge) : Prop where
  isSealed : k.Sealed
  nodup : ∀ v ∈ k.views, v.pending.Nodup

def Knowledge.names (k : Knowledge) : List String :=
  k.views.map (·.name)

theorem Knowledge.seed_tidy (p : Protocol) : (seed p).Tidy where
  isSealed v hv c hc := by
    obtain ⟨name, -, rfl⟩ := List.mem_map.mp hv
    exact absurd hc List.not_mem_nil
  nodup v hv := by
    obtain ⟨name, -, rfl⟩ := List.mem_map.mp hv
    exact List.nodup_nil

theorem forall₂_map_self {α : Type} {R : α → α → Prop} {f : α → α} {xs : List α}
    (h : ∀ x ∈ xs, R x (f x)) : List.Forall₂ R xs (xs.map f) :=
  List.forall₂_map_right_iff.mpr (List.forall₂_same.mpr h)

namespace Knowledge

variable {l : Locks} {k k' : Knowledge} {ops : List Operation}

theorem names_of_gathers (h : List.Forall₂ (View.Gathers l ops) k.views k'.views) :
    k'.names = k.names := by
  unfold names
  generalize k.views = vs at h
  generalize k'.views = ws at h
  induction h with
  | nil => rfl
  | cons hw _ ih => rw [List.map_cons, List.map_cons, hw.name, ih]

theorem tidy_of_gathers (hk : k.Tidy) (hops : ∀ o ∈ ops, o.Fits k.names)
    (h : List.Forall₂ (View.Gathers l ops) k.views k'.views) : k'.Tidy where
  isSealed w hw c hc := by
    obtain ⟨v, hv, gathers⟩ := forall₂_mem_right h hw
    rcases (gathers.pending c).mp hc with hc | ⟨o, ho, hc⟩
    · exact hk.isSealed v hv c hc
    · exact (hops o ho).isExpr hc
  nodup w hw := by
    obtain ⟨v, hv, gathers⟩ := forall₂_mem_right h hw
    exact gathers.nodup

theorem modify?_gathers {name : String} {f : View → View} {o : Operation} (hname : name ∈ k.names)
    (h : ∀ v ∈ k.views, v.Gathers l [o] (if v.name = name then f v else v)) :
    ∃ k', k.modify? name f = some k' ∧ List.Forall₂ (View.Gathers l [o]) k.views k'.views := by
  have hany : k.views.any (·.name = name) = true := by
    obtain ⟨v, hv, hvname⟩ := List.mem_map.mp hname
    exact List.any_eq_true.mpr ⟨v, hv, decide_eq_true hvname⟩
  refine ⟨_, by rw [modify?, if_pos hany], ?_⟩
  exact forall₂_map_self h

end Knowledge

namespace Operation

variable {l : Locks} {k : Knowledge} {ops : List Operation}

theorem run_saturate (l : Locks) (hk : k.Sealed) (schedule : Schedule) :
    (saturate schedule).run l k = some (k.saturate l schedule).state := by
  simp only [run, Progress.reached?, (Knowledge.saturate_settles l schedule hk).1]
  rfl

/-- An operation that fits is carried out, and adds to every view what it tells. -/
theorem run_gathers (l : Locks) (hk : k.Tidy) {o : Operation} (ho : o.Fits k.names) :
    ∃ k', o.run l k = some k' ∧ List.Forall₂ (View.Gathers l [o]) k.views k'.views := by
  cases o with
  | observe p =>
    obtain ⟨hfault, -, hviews⟩ := Knowledge.observeFrom_observes 1 k ho
    refine ⟨_, by simp only [run, Knowledge.observeAll, Progress.reached?, hfault]; rfl, ?_⟩
    exact ((List.forall₂_and_left _ _).mpr ⟨hk.nodup, hviews⟩).imp
      fun v w h => View.gathers_observe l h.1 h.2
  | learn name term =>
    exact Knowledge.modify?_gathers ho fun v hv => View.gathers_learn l name term (hk.nodup v hv)
  | intercept name c =>
    exact Knowledge.modify?_gathers ho.1 fun v hv => View.gathers_intercept l name c (hk.nodup v hv)
  | saturate schedule =>
    refine ⟨_, run_saturate l hk.isSealed schedule, ?_⟩
    have hviews := (Knowledge.saturate_settles l schedule hk.isSealed).2.1
    exact ((List.forall₂_and_left _ _).mpr ⟨hk.nodup, hviews⟩).imp
      fun v w h => View.gathers_saturate h.1 h.2

/-- A run of operations that fit goes through, and adds to every view what they tell. -/
theorem runAll_gathers (l : Locks) (hk : k.Tidy) (hops : ∀ o ∈ ops, o.Fits k.names) :
    ∃ k', runAll l k ops = some k' ∧ List.Forall₂ (View.Gathers l ops) k.views k'.views := by
  induction ops generalizing k with
  | nil => exact ⟨k, rfl, List.forall₂_same.mpr fun v hv => .refl l (hk.nodup v hv)⟩
  | cons o ops ih =>
    obtain ⟨ho, hops⟩ := List.forall_mem_cons.mp hops
    obtain ⟨k₁, hrun, hviews⟩ := run_gathers l hk ho
    have hk₁ : k₁.Tidy := Knowledge.tidy_of_gathers hk (by simpa using ho) hviews
    have hnames : k₁.names = k.names := Knowledge.names_of_gathers hviews
    obtain ⟨k₂, hrest, hviews'⟩ := ih hk₁ (hnames ▸ hops)
    refine ⟨k₂, ?_, forall₂_trans (fun _ _ _ h h' => h.trans h') hviews hviews'⟩
    unfold runAll at hrest ⊢
    rw [List.foldlM_cons, hrun]
    exact hrest

/-- A run that ends with opening leaves closed sets. -/
theorem runAll_saturate (l : Locks) (hk : k.Tidy) (hops : ∀ o ∈ ops, o.Fits k.names)
    (schedule : Schedule) :
    ∃ k', runAll l k (ops ++ [saturate schedule]) = some k' ∧ k'.Sealed ∧
      List.Forall₂ (fun v w => v.Gathers l (ops ++ [saturate schedule]) w ∧
        l.Closed w.pending w.knows.toSet) k.views k'.views := by
  obtain ⟨k₁, hrun, hviews⟩ := runAll_gathers l hk hops
  have hk₁ : k₁.Tidy := Knowledge.tidy_of_gathers hk hops hviews
  have hsettles := (Knowledge.saturate_settles l schedule hk₁.isSealed).2.1
  have hfinal := forall₂_trans (T := fun v w => v.Gathers l (ops ++ [saturate schedule]) w ∧
      l.Closed w.pending w.knows.toSet)
    (fun u v w h settles => ⟨h.trans (View.gathers_saturate h.nodup settles),
      settles.pending ▸ settles.least.1.2⟩) hviews hsettles
  refine ⟨(k₁.saturate l schedule).state, ?_, ?_, hfinal⟩
  · unfold runAll at hrun ⊢
    simp only [List.foldlM_append, hrun, Option.bind_eq_bind, Option.bind_some, List.foldlM_cons,
      run_saturate l hk₁.isSealed schedule]
    rfl
  · have hfits : ∀ o ∈ ops ++ [saturate schedule], o.Fits k.names := by
      simpa [or_imp, forall_and, Fits] using hops
    exact (Knowledge.tidy_of_gathers hk hfits (hfinal.imp fun _ _ h => h.1)).isSealed

end Operation

/-! ### Opening again -/

namespace Locks

variable {l : Locks} {known : Terms} {cs : List Ciphertext}

/-- A pass from a closed set tells nothing. -/
theorem pass_of_closed (hcs : ∀ c ∈ cs, c.plaintext.IsExpr) (h : l.Closed cs known.toSet) :
    (l.pass known cs).telling = [] := by
  induction cs with
  | nil => rfl
  | cons c cs ih =>
    obtain ⟨hc, hcs⟩ := List.forall_mem_cons.mp hcs
    have hrest := ih hcs (h.mono fun d hd => List.mem_cons_of_mem _ hd)
    by_cases hopen : l.canOpen known (l.requiredKey c.key) = true
    · obtain ⟨hkey, hkind⟩ := canOpen_iff.mp hopen
      have hold : (c.plaintext.unwrap known).isNew = false :=
        (hc.unwrap known).2.2.mpr (h c List.mem_cons_self hkey hkind)
      rw [pass_cons_open hc hopen]
      simp only [hold, hc.unwrap_known_eq hold, Bool.false_eq_true, if_false]
      exact hrest
    · rw [pass_cons_closed hopen]
      exact hrest

end Locks

namespace Knowledge

variable {l : Locks} {k : Knowledge}

theorem settle_of_not_goesOn {schedule : Schedule} {t : Turn} (h : t.goesOn = false)
    (budget : Nat) : settle l schedule budget t = t.finish := by
  cases budget with
  | zero => rfl
  | succ budget =>
    rw [settle, h]
    rfl

/-- Where all sets are closed, opening takes one round and changes no view. -/
theorem saturate_of_closed (hk : k.Sealed)
    (h : ∀ v ∈ k.views, l.Closed v.pending v.knows.toSet) (schedule : Schedule) :
    (k.saturate l schedule).state.views = k.views ∧
      (k.saturate l schedule).state.rounds = k.rounds + 1 := by
  have hsealed := sealed_of_follows (follows_efforts l hk)
  have hquiet : ∀ e ∈ k.efforts, (l.passOf schedule (k.rounds + 1) e).telling = [] := by
    intro e he
    obtain ⟨v, hv, rfl⟩ := List.mem_map.mp he
    have hperm := schedule.perm (k.rounds + 1) v.name v.pending
    exact Locks.pass_of_closed (fun c hc => hk v hv c (hperm.mem_iff.mp hc))
      ((h v hv).mono fun c hc => hperm.mem_iff.mp hc)
  have hstop : (k.turn l schedule k.efforts).goesOn = false := by
    have htold : (l.round schedule (k.rounds + 1) k.efforts).told = [] := by
      rw [l.round_eq schedule _ hsealed]
      exact List.flatMap_eq_nil_iff.mpr fun e he => by rw [hquiet e he]; rfl
    rw [turn_eq k l schedule hsealed]
    simp [Turn.goesOn, htold]
  have hviews : (l.afterRound schedule (k.rounds + 1) k.efforts).map (·.view) = k.views := by
    have hsame : ∀ e ∈ k.efforts, (e.after (l.passOf schedule (k.rounds + 1) e)).view = e.view := by
      intro e he
      have hpass := l.passOf_completes schedule (k.rounds + 1) (hsealed e he)
      rw [Effort.after, (hpass.quiet (hquiet e he)).1]
    calc
      (l.afterRound schedule (k.rounds + 1) k.efforts).map (·.view) = k.efforts.map (·.view) := by
        rw [Locks.afterRound, List.map_map]
        exact List.map_congr_left hsame
      _ = k.views := by simp [efforts, Function.comp_def]
  unfold saturate
  rw [settle_of_not_goesOn hstop, finish_state, turn_eq k l schedule hsealed]
  exact ⟨hviews, rfl⟩

end Knowledge

/-! ### Any order -/

namespace Operation

variable {l : Locks} {k : Knowledge} {ops ops' : List Operation}

/-- What opening does not do is done by the additions. -/
theorem exists_addition_iff {P : Operation → Prop} (hP : ∀ schedule, ¬P (.saturate schedule))
    (h : ∀ o : Operation, o.isAddition = true → (o ∈ ops ↔ o ∈ ops')) :
    (∃ o ∈ ops, P o) ↔ ∃ o ∈ ops', P o := by
  have haddition {o : Operation} (ho : P o) : o.isAddition = true := by
    cases o with
    | saturate schedule => exact absurd ho (hP schedule)
    | _ => rfl
  constructor
  · rintro ⟨o, hmem, ho⟩
    exact ⟨o, (h o (haddition ho)).mp hmem, ho⟩
  · rintro ⟨o, hmem, ho⟩
    exact ⟨o, (h o (haddition ho)).mpr hmem, ho⟩

/-- It makes no difference when ciphertexts are opened, and in which order: operations that end
with opening leave what all their additions, in any order, and a single opening leave. Opening once
more takes one round and changes no view. -/
theorem runAll_eq_batch (l : Locks) (hk : k.Tidy) (hops : ∀ o ∈ ops, o.Fits k.names)
    {additions : List Operation} (hadditions : additions.Perm (ops.filter (·.isAddition)))
    (last only again : Schedule) :
    ∃ gradual batch,
      runAll l k (ops ++ [saturate last]) = some gradual ∧
      runAll l k (additions ++ [saturate only]) = some batch ∧
      List.Forall₂ View.Agrees gradual.views batch.views ∧
      ∃ next, (saturate again).run l gradual = some next ∧ next.views = gradual.views ∧
        next.rounds = gradual.rounds + 1 := by
  have hmem (o : Operation) : o ∈ additions ↔ o ∈ ops ∧ o.isAddition = true :=
    hadditions.mem_iff.trans List.mem_filter
  have hsame (o : Operation) (ho : o.isAddition = true) :
      o ∈ ops ++ [saturate last] ↔ o ∈ additions ++ [saturate only] := by
    have hne (schedule : Schedule) : o ≠ saturate schedule := by
      rintro rfl
      cases ho
    simp [hmem, ho, hne]
  obtain ⟨gradual, hgradual, hsealed, hviews⟩ := runAll_saturate l hk hops last
  obtain ⟨batch, hbatch, -, hviews'⟩ :=
    runAll_saturate l hk (fun o ho => hops o ((hmem o).mp ho).1) only
  refine ⟨gradual, batch, hgradual, hbatch, ?_, _, run_saturate l hsealed again, ?_⟩
  · -- Both runs have the same additions, hence the same basis and the same ciphertexts.
    refine forall₂_trans (fun w v w' h h' => ?_) hviews.flip hviews'
    refine h.1.agrees h'.1 h.2 h'.2 (fun c => exists_addition_iff (fun _ => id) hsame) ?_
    ext t
    exact or_congr Iff.rfl (exists_addition_iff (fun _ => id) hsame)
  · refine Knowledge.saturate_of_closed hsealed (fun w hw => ?_) again
    obtain ⟨v, -, h⟩ := forall₂_mem_right hviews hw
    exact h.2

/-- The key for a ciphertext is learned after the ciphertext was seen and tried. -/
def lateArrivals : List Operation :=
  [.intercept "B" ⟨"K2", .hash (.ident "M")⟩, .saturate .byText, .observe Protocol.lateKey,
    .saturate .byText, .learn "Adversary" "K1"]

theorem runAll_eq_batch_lateArrivals :
    (Knowledge.seed Protocol.lateKey).Tidy ∧
    (∀ o ∈ lateArrivals, o.Fits (Knowledge.seed Protocol.lateKey).names) ∧
    ∃ gradual batch,
      runAll (Protocol.lateKey.locks {}) (.seed Protocol.lateKey)
        (lateArrivals ++ [.saturate .byText]) = some gradual ∧
      runAll (Protocol.lateKey.locks {}) (.seed Protocol.lateKey)
        ([.learn "Adversary" "K1", .observe Protocol.lateKey,
          .intercept "B" ⟨"K2", .hash (.ident "M")⟩] ++ [.saturate .byText]) = some batch ∧
      List.Forall₂ View.Agrees gradual.views batch.views ∧
      ∃ next, (saturate .byText).run (Protocol.lateKey.locks {}) gradual = some next ∧
        next.views = gradual.views ∧ next.rounds = gradual.rounds + 1 := by
  have hfits : ∀ o ∈ lateArrivals, o.Fits (Knowledge.seed Protocol.lateKey).names := by
    have hnames : (Knowledge.seed Protocol.lateKey).names = ["A", "B", "Adversary"] := by decide
    have hbodies : ∀ m ∈ Protocol.lateKey.messages, m.body.IsStatement := by decide
    simp only [lateArrivals, hnames, List.forall_mem_cons, Fits]
    exact ⟨⟨by decide, .hash (.ident "M")⟩, trivial, hbodies, trivial, by decide,
      fun o ho => absurd ho List.not_mem_nil⟩
  have htidy := Knowledge.seed_tidy Protocol.lateKey
  refine ⟨htidy, hfits, ?_⟩
  exact runAll_eq_batch (Protocol.lateKey.locks {}) htidy hfits
    (List.reverse_perm (lateArrivals.filter (·.isAddition))) .byText .byText .byText

end Operation

end Wiretap
