import Mathlib.Data.List.Range
import Wiretap.Proofs.Declarations
import Wiretap.Proofs.LeastKnowledge

/-! The rounds of opening ciphertexts. Principals make their passes without regard to each other,
so the state after some rounds is what each of them has made of its own view. A principal that is
told nothing in a round holds no key for any ciphertext that is still closed to it, and is told
nothing ever after. So the rounds in which it learns something are the first ones, and in each of
them it opens a ciphertext, whatever the order. -/

namespace Wiretap

/-! ### Passes -/

namespace Locks

variable {l : Locks} {known : Terms} {cs : List Ciphertext}

theorem pass_of_locked (h : ∀ c ∈ cs, ¬l.canOpen known (l.requiredKey c.key) = true) :
    l.pass known cs = ⟨known, cs, [], none⟩ := by
  induction cs with
  | nil => rfl
  | cons c cs ih =>
    obtain ⟨hc, hcs⟩ := List.forall_mem_cons.mp h
    rw [pass_cons_closed hc, ih hcs]

/-- Whoever is told something learns a term. -/
theorem exists_new_of_telling (hcs : ∀ c ∈ cs, c.plaintext.IsExpr)
    (h : (l.pass known cs).telling ≠ []) : ∃ t ∈ (l.pass known cs).known, t ∉ known := by
  induction cs generalizing known with
  | nil => exact absurd rfl h
  | cons c cs ih =>
    obtain ⟨hc, hrest⟩ := List.forall_mem_cons.mp hcs
    by_cases hopen : l.canOpen known (l.requiredKey c.key) = true
    · rw [pass_cons_open hc hopen] at h ⊢
      dsimp only at h ⊢
      obtain ⟨-, hmem, hnew⟩ := hc.unwrap known
      split at h
      · -- The first ciphertext that tells something has a leaf that was not known before.
        rename_i hisNew
        rw [if_pos hisNew]
        have hleaf : ¬∀ x, c.plaintext.Leaf x → x.text ∈ known := by
          rw [← hnew, hisNew]
          decide
        obtain ⟨x, hx⟩ := not_forall.mp hleaf
        obtain ⟨hx, hunknown⟩ := Classical.not_imp.mp hx
        have hlearned := (hmem x.text).mpr (.inr ⟨x, hx, rfl⟩)
        exact ⟨x.text, (pass_completes _ hrest).grows hlearned, hunknown⟩
      · -- An opened one that tells nothing leaves the terms as they are for the next.
        rename_i hold
        rw [if_neg hold]
        rw [hc.unwrap_known_eq (by simpa using hold)] at h ⊢
        exact ih hrest h
    · rw [pass_cons_closed hopen] at h ⊢
      exact ih hrest h

end Locks

/-! ### One principal -/

namespace Effort

variable {l : Locks} {schedule : Schedule} {start : Nat} {v : View} {e : Effort}

/-- The effort of a principal after rounds that are numbered from `start + 1` on. -/
def afterRounds (l : Locks) (schedule : Schedule) (start : Nat) (e : Effort) : Nat → Effort
  | 0 => e
  | n + 1 =>
    let before := e.afterRounds l schedule start n
    before.after (l.passOf schedule (start + n + 1) before)

/-- The ciphertexts that tell the principal something in the round after `n` rounds. -/
def telling (l : Locks) (schedule : Schedule) (start : Nat) (e : Effort) (n : Nat) :
    List Ciphertext :=
  (l.passOf schedule (start + n + 1) (e.afterRounds l schedule start n)).telling

theorem Follows.afterRounds (h : Follows l v e) (n : Nat) :
    Follows l v (e.afterRounds l schedule start n) := by
  induction n with
  | zero => exact h
  | succ n ih => exact ih.step schedule (start + n + 1)

theorem Follows.completes (h : Follows l v e) (schedule : Schedule) (start n : Nat) :
    (l.passOf schedule (start + n + 1) (e.afterRounds l schedule start n)).Completes l
      (e.afterRounds l schedule start n).view.knows
      (schedule.visit (start + n + 1) (e.afterRounds l schedule start n).view.name
        (e.afterRounds l schedule start n).closed) :=
  l.passOf_completes schedule (start + n + 1) (h.afterRounds n).isSealed

theorem Follows.afterRounds_grows (h : Follows l v e) (n : Nat) :
    (e.afterRounds l schedule start n).view.knows.toSet ⊆
      (e.afterRounds l schedule start (n + 1)).view.knows.toSet :=
  (h.completes schedule start n).grows

/-- A round changes what a principal knows exactly if it tells it something. -/
theorem Follows.telling_eq_nil_iff (h : Follows l v e) (n : Nat) :
    e.telling l schedule start n = [] ↔
      (e.afterRounds l schedule start (n + 1)).view.knows =
        (e.afterRounds l schedule start n).view.knows := by
  constructor
  · exact fun hquiet => ((h.completes schedule start n).quiet hquiet).1
  · intro hsame
    by_contra htelling
    have hsealed : ∀ c ∈ schedule.visit (start + n + 1)
        (e.afterRounds l schedule start n).view.name (e.afterRounds l schedule start n).closed,
        c.plaintext.IsExpr :=
      fun c hc => (h.afterRounds n).isSealed c ((schedule.perm _ _ _).mem_iff.mp hc)
    obtain ⟨t, ht, hunknown⟩ := Locks.exists_new_of_telling hsealed htelling
    exact hunknown (hsame ▸ ht)

/-- The principal holds no key for what is still closed to it. -/
def Stuck (l : Locks) (e : Effort) : Prop :=
  ∀ c ∈ e.closed, ¬l.canOpen e.view.knows (l.requiredKey c.key) = true

theorem Stuck.passOf (h : e.Stuck l) (n : Nat) :
    l.passOf schedule n e =
      ⟨e.view.knows, schedule.visit n e.view.name e.closed, [], none⟩ :=
  Locks.pass_of_locked fun c hc => h c ((schedule.perm n e.view.name e.closed).mem_iff.mp hc)

/-- Whoever is told nothing in a round is stuck after it. -/
theorem Follows.stuck_of_quiet (h : Follows l v e) {n : Nat}
    (hquiet : e.telling l schedule start n = []) :
    (e.afterRounds l schedule start (n + 1)).Stuck l := by
  obtain ⟨hsame, hlocked⟩ := (h.completes schedule start n).quiet hquiet
  intro c hc
  change ¬l.canOpen (l.passOf _ _ _).known _ = true
  rw [hsame]
  exact hlocked c hc

theorem Follows.quiet_succ (h : Follows l v e) {n : Nat}
    (hquiet : e.telling l schedule start n = []) : e.telling l schedule start (n + 1) = [] := by
  unfold telling
  rw [(h.stuck_of_quiet hquiet).passOf]

theorem Follows.quiet_of_le (h : Follows l v e) {m n : Nat} (hmn : m ≤ n)
    (hquiet : e.telling l schedule start m = []) : e.telling l schedule start n = [] := by
  induction hmn with
  | refl => exact hquiet
  | step _ ih => exact h.quiet_succ ih

/-- A principal that is told something in a round has opened a ciphertext in this and in each
earlier round. -/
theorem Follows.closed_length (h : Follows l v e) {n : Nat}
    (htelling : e.telling l schedule start n ≠ []) :
    (e.afterRounds l schedule start (n + 1)).closed.length + (n + 1) ≤ e.closed.length := by
  have hstep (m : Nat) (hm : e.telling l schedule start m ≠ []) :
      (e.afterRounds l schedule start (m + 1)).closed.length + 1 ≤
        (e.afterRounds l schedule start m).closed.length := by
    have hshrinks := (h.completes schedule start m).shrinks
    rw [(schedule.perm _ _ _).length_eq] at hshrinks
    have hpos := List.length_pos_iff.mpr hm
    unfold telling at hpos
    change (l.passOf _ _ _).closed.length + 1 ≤ _
    omega
  induction n with
  | zero => exact hstep 0 htelling
  | succ n ih =>
    -- The productive rounds are the first ones, so the round before was one too.
    have hearlier : e.telling l schedule start n ≠ [] := mt h.quiet_succ htelling
    have := ih hearlier
    have := hstep (n + 1) htelling
    omega

end Effort

/-! ### All principals -/

namespace Knowledge

variable {k : Knowledge} {l : Locks} {schedule : Schedule}

def effortsAfter (k : Knowledge) (l : Locks) (schedule : Schedule) (n : Nat) : List Effort :=
  k.efforts.map (·.afterRounds l schedule k.rounds n)

/-- What everybody knows after `n` rounds. -/
def stage (k : Knowledge) (l : Locks) (schedule : Schedule) (n : Nat) : Snapshot :=
  (k.effortsAfter l schedule n).map fun e => (e.view.name, e.view.knows)

theorem stage_zero (k : Knowledge) (l : Locks) (schedule : Schedule) :
    k.stage l schedule 0 = k.snapshot := by
  simp [stage, effortsAfter, efforts, Effort.afterRounds, snapshot, Function.comp_def]

theorem effortsAfter_succ (k : Knowledge) (l : Locks) (schedule : Schedule) (n : Nat) :
    k.effortsAfter l schedule (n + 1) =
      l.afterRound schedule (k.rounds + n + 1) (k.effortsAfter l schedule n) := by
  simp [effortsAfter, Locks.afterRound, Effort.afterRounds]

theorem effortsAfter_sealed (l : Locks) (schedule : Schedule) (hk : k.Sealed) (n : Nat) :
    ∀ e ∈ k.effortsAfter l schedule n, e.Sealed := by
  intro e he
  obtain ⟨f, hf, rfl⟩ := List.mem_map.mp he
  obtain ⟨v, -, hv⟩ := forall₂_mem_right (follows_efforts l hk) hf
  exact (hv.afterRounds n).isSealed

/-- Somebody is told something in the round after `n` rounds. -/
def Tells (k : Knowledge) (l : Locks) (schedule : Schedule) (n : Nat) : Prop :=
  ∃ e ∈ k.efforts, e.telling l schedule k.rounds n ≠ []

/-- The turn that ends the round after `n` rounds. -/
structure Reaches (k : Knowledge) (l : Locks) (schedule : Schedule) (n : Nat) (t : Turn) :
    Prop where
  efforts : t.efforts = k.effortsAfter l schedule (n + 1)
  views : t.state.views = t.efforts.map (·.view)
  rounds : t.state.rounds = k.rounds + (n + 1)
  history : t.state.history =
    k.history ++ (List.range (n + 1)).map fun i => k.stage l schedule (i + 1)
  goesOn : t.goesOn = true ↔ k.Tells l schedule n

theorem turn_reaches (hk : k.Sealed) {j : Knowledge} {n : Nat}
    (hrounds : j.rounds = k.rounds + n)
    (hhistory : j.history = k.history ++ (List.range n).map fun i => k.stage l schedule (i + 1)) :
    k.Reaches l schedule n (j.turn l schedule (k.effortsAfter l schedule n)) := by
  have hsealed := effortsAfter_sealed l schedule hk n
  rw [turn_eq j l schedule hsealed, l.round_eq schedule (j.rounds + 1) hsealed, hrounds]
  have hefforts := k.effortsAfter_succ l schedule n
  refine ⟨hefforts.symm, rfl, rfl, ?_, ?_⟩
  · rw [List.range_succ, List.map_append, ← List.append_assoc, ← hhistory]
    simp [record, snapshot, stage, hefforts]
  · simp [Turn.goesOn, effortsAfter, Tells, Effort.telling]

/-- Every turn of a run ends a round, and somebody was told something in each round before it. -/
theorem Run.reaches (hk : k.Sealed) {t : Turn} (run : Run k l schedule t) :
    ∃ n, k.Reaches l schedule n t ∧ ∀ i < n, k.Tells l schedule i := by
  induction run with
  | first =>
    have hefforts : k.efforts = k.effortsAfter l schedule 0 := by
      simp [effortsAfter, Effort.afterRounds]
    refine ⟨0, ?_, fun i hi => absurd hi (Nat.not_lt_zero i)⟩
    rw [hefforts]
    exact turn_reaches hk rfl (by simp)
  | @next t _ hgoesOn ih =>
    obtain ⟨n, reaches, htells⟩ := ih
    refine ⟨n + 1, ?_, fun i hi => ?_⟩
    · rw [reaches.efforts]
      exact turn_reaches hk reaches.rounds reaches.history
    · rcases Nat.lt_succ_iff_lt_or_eq.mp hi with hi | rfl
      · exact htells i hi
      · exact reaches.goesOn.mp hgoesOn

end Knowledge

/-! ### Snapshots -/

/-- Everybody knows in `after` what it knew in `before`. -/
def Snapshot.Within (before after : Snapshot) : Prop :=
  List.Forall₂ (fun a b => a.1 = b.1 ∧ a.2.toSet ⊆ b.2.toSet) before after

theorem Snapshot.Within.trans {s s' s'' : Snapshot} (h : Snapshot.Within s s')
    (h' : Snapshot.Within s' s'') : Snapshot.Within s s'' :=
  forall₂_trans (fun _ _ _ h h' => ⟨h.1.trans h'.1, h.2.trans h'.2⟩) h h'

/-- A principal knows a term in `after` that it did not know in `before`. -/
def Snapshot.Learns (before after : Snapshot) (name : String) : Prop :=
  ∃ known known', (name, known) ∈ before ∧ (name, known') ∈ after ∧ ∃ t ∈ known', t ∉ known

namespace Knowledge

variable {k : Knowledge} {l : Locks} {schedule : Schedule}

/-- The largest number of ciphertexts that a principal has seen. -/
def mostPending (k : Knowledge) : Nat :=
  (k.views.map (·.pending.length)).foldr max 0

theorem pending_length_le {v : View} (hv : v ∈ k.views) : v.pending.length ≤ k.mostPending := by
  unfold mostPending
  generalize k.views = vs at hv
  induction vs with
  | nil => exact absurd hv List.not_mem_nil
  | cons w vs ih =>
    rw [List.map_cons, List.foldr_cons]
    rcases List.mem_cons.mp hv with rfl | hv
    · exact Nat.le_max_left _ _
    · exact Nat.le_trans (ih hv) (Nat.le_max_right _ _)

theorem stage_within (l : Locks) (schedule : Schedule) (hk : k.Sealed) (n : Nat) :
    Snapshot.Within (k.stage l schedule n) (k.stage l schedule (n + 1)) := by
  unfold Snapshot.Within stage effortsAfter
  simp only [List.forall₂_map_left_iff, List.forall₂_map_right_iff]
  refine List.forall₂_same.mpr fun e he => ?_
  obtain ⟨v, -, hv⟩ := forall₂_mem_right (follows_efforts l hk) he
  exact ⟨(hv.afterRounds n).name.trans (hv.afterRounds (n + 1)).name.symm, hv.afterRounds_grows n⟩

theorem mem_stage (hk : k.Sealed) {n : Nat} {name : String} {known : Terms} :
    (name, known) ∈ k.stage l schedule n ↔ ∃ v ∈ k.views, v.name = name ∧
      (Effort.afterRounds l schedule k.rounds ⟨v, v.pending⟩ n).view.knows = known := by
  have hname (v : View) (hv : v ∈ k.views) :
      (Effort.afterRounds l schedule k.rounds ⟨v, v.pending⟩ n).view.name = v.name :=
    ((Effort.Follows.start l (hk v hv)).afterRounds n).name
  simp only [stage, effortsAfter, efforts, List.mem_map, exists_exists_and_eq_and, Prod.mk.injEq]
  refine exists_congr fun v => and_congr_right fun hv => ?_
  rw [hname v hv]

/-- In a round, those learn a term who are told something. -/
theorem learns_stage_iff (hk : k.Sealed) (hnames : (k.views.map (·.name)).Nodup) {n : Nat}
    {name : String} :
    Snapshot.Learns (k.stage l schedule n) (k.stage l schedule (n + 1)) name ↔
      ∃ v ∈ k.views, v.name = name ∧
        Effort.telling l schedule k.rounds ⟨v, v.pending⟩ n ≠ [] := by
  constructor
  · rintro ⟨known, known', hbefore, hafter, t, ht, hunknown⟩
    obtain ⟨v, hv, hvname, rfl⟩ := (mem_stage hk).mp hbefore
    obtain ⟨w, hw, hwname, rfl⟩ := (mem_stage hk).mp hafter
    obtain rfl := List.inj_on_of_nodup_map hnames hv hw (hvname.trans hwname.symm)
    have hfollows := Effort.Follows.start l (hk v hv)
    refine ⟨v, hv, hvname, fun hquiet => hunknown ?_⟩
    rwa [(hfollows.telling_eq_nil_iff n).mp hquiet] at ht
  · rintro ⟨v, hv, hvname, htelling⟩
    have hfollows := Effort.Follows.start l (hk v hv)
    refine ⟨_, _, (mem_stage hk).mpr ⟨v, hv, hvname, rfl⟩,
      (mem_stage hk).mpr ⟨v, hv, hvname, rfl⟩, ?_⟩
    by_contra hnone
    refine htelling ((hfollows.telling_eq_nil_iff n).mpr (Terms.toSet_injective ?_))
    refine Set.Subset.antisymm (fun t ht => ?_) (hfollows.afterRounds_grows n)
    by_contra hunknown
    exact hnone ⟨t, ht, hunknown⟩

theorem stage_succ_of_not_tells (hk : k.Sealed) {n : Nat} (h : ¬k.Tells l schedule n) :
    k.stage l schedule (n + 1) = k.stage l schedule n := by
  unfold stage effortsAfter
  rw [List.map_map, List.map_map]
  refine List.map_congr_left fun e he => ?_
  obtain ⟨v, -, hv⟩ := forall₂_mem_right (follows_efforts l hk) he
  have hquiet : e.telling l schedule k.rounds n = [] := by
    by_contra htelling
    exact h ⟨e, he, htelling⟩
  refine Prod.ext ((hv.afterRounds (n + 1)).name.trans (hv.afterRounds n).name.symm) ?_
  exact (hv.telling_eq_nil_iff n).mp hquiet

end Knowledge

/-! ### Runs of protocols -/

namespace Protocol

variable {p : Protocol} {naming : Naming} {schedule : Schedule}

theorem principals_nodup (p : Protocol) : p.principals.Nodup := by
  unfold principals
  dsimp only
  split
  · exact eraseDups_nodup p.roles
  · rename_i hnot
    exact (eraseDups_nodup p.roles).append (List.nodup_singleton _) (by simpa using hnot)

theorem observed_names (hp : ∀ m ∈ p.messages, m.body.IsStatement) :
    p.observed.state.views.map (·.name) = p.principals := by
  have prepared := (observed_prepares hp).2.2
  rw [← List.forall₂_eq_eq_eq, List.forall₂_map_left_iff]
  exact prepared.flip.imp fun _ _ h => h.name

theorem observeFrom_rounds (index : Nat) (k : Knowledge) (ms : List Message) :
    (k.observeFrom index ms).state.rounds = k.rounds := by
  induction ms generalizing index k with
  | nil => rfl
  | cons m ms ih =>
    unfold Knowledge.observeFrom
    split
    · rfl
    · exact ih _ _

theorem seed_within_observed (hp : ∀ m ∈ p.messages, m.body.IsStatement) :
    Snapshot.Within (Knowledge.seed p).snapshot p.observed.state.snapshot := by
  have hviews := (Knowledge.observeFrom_observes 1 (Knowledge.seed p).record hp).2.2
  unfold Snapshot.Within Knowledge.snapshot
  rw [List.forall₂_map_left_iff, List.forall₂_map_right_iff]
  exact hviews.imp fun v w h => ⟨h.name.symm, fun t ht => (h.knows t).mpr (.inl ht)⟩

theorem observed_rounds (p : Protocol) : p.observed.state.rounds = 0 :=
  observeFrom_rounds 1 _ p.messages

/-- The rounds of a run, told by what each principal makes of its own view: somebody is told
something in each of the first `n` rounds, and nobody in the next, which is the last. -/
structure Ends (p : Protocol) (naming : Naming) (schedule : Schedule) (n : Nat) : Prop where
  rounds : (p.derive naming schedule).state.rounds = n + 1
  history : (p.derive naming schedule).state.history = (Knowledge.seed p).snapshot ::
    (List.range (n + 1)).map fun i => p.observed.state.stage (p.locks naming) schedule (i + 1)
  views : (p.derive naming schedule).state.views =
    (p.observed.state.effortsAfter (p.locks naming) schedule (n + 1)).map (·.view)
  tells : ∀ i < n, p.observed.state.Tells (p.locks naming) schedule i
  quiet : ¬p.observed.state.Tells (p.locks naming) schedule n

theorem exists_ends (p : Protocol) (naming : Naming) (schedule : Schedule)
    (hp : ∀ m ∈ p.messages, m.body.IsStatement) : ∃ n, p.Ends naming schedule n := by
  have hk := observed_sealed hp
  obtain ⟨u, run, hstop, hstate, -⟩ := Knowledge.saturate_run (p.locks naming) schedule hk
  obtain ⟨n, reaches, htells⟩ := run.reaches hk
  have hfinal : (p.derive naming schedule).state = u.state :=
    (derive_eq p naming schedule hp).1.trans hstate
  refine ⟨n, ?_, ?_, ?_, htells, ?_⟩
  · rw [hfinal, reaches.rounds, observed_rounds]
    omega
  · rw [hfinal, reaches.history, (observed_prepares hp).2.1]
    rfl
  · rw [hfinal, reaches.views, reaches.efforts]
  · rw [← reaches.goesOn, hstop]
    decide

/-- What everybody knew at the borders of the rounds: after the messages and after each round. -/
def borders (p : Protocol) (naming : Naming) (schedule : Schedule) : List Snapshot :=
  p.observed.state.snapshot :: (p.derive naming schedule).state.history.tail

/-- The principal learns a term in round number `n`. -/
def LearnsIn (p : Protocol) (naming : Naming) (schedule : Schedule) (n : Nat) (name : String) :
    Prop :=
  ∃ before after, (p.borders naming schedule)[n - 1]? = some before ∧
    (p.borders naming schedule)[n]? = some after ∧ Snapshot.Learns before after name

namespace Ends

variable {n : Nat}

theorem borders_eq (h : p.Ends naming schedule n) :
    p.borders naming schedule =
      (List.range (n + 2)).map (p.observed.state.stage (p.locks naming) schedule) := by
  rw [List.range_succ_eq_map (n := n + 1), List.map_cons, Knowledge.stage_zero, List.map_map,
    borders, h.history]
  rfl

theorem getElem?_borders (h : p.Ends naming schedule n) {i : Nat} (hi : i ≤ n + 1) :
    (p.borders naming schedule)[i]? =
      some (p.observed.state.stage (p.locks naming) schedule i) := by
  rw [h.borders_eq, List.getElem?_map, List.getElem?_range (by omega)]
  rfl

theorem getElem?_history (h : p.Ends naming schedule n) {i : Nat} (hi : i ≤ n) :
    (p.derive naming schedule).state.history[i + 1]? =
      some (p.observed.state.stage (p.locks naming) schedule (i + 1)) := by
  rw [h.history, List.getElem?_cons_succ, List.getElem?_map, List.getElem?_range (by omega)]
  rfl

theorem learnsIn_iff (h : p.Ends naming schedule n) (hp : ∀ m ∈ p.messages, m.body.IsStatement)
    {i : Nat} (hi : i ≤ n) {name : String} :
    p.LearnsIn naming schedule (i + 1) name ↔ ∃ v ∈ p.observed.state.views, v.name = name ∧
      Effort.telling (p.locks naming) schedule p.observed.state.rounds ⟨v, v.pending⟩ i ≠ [] := by
  have hnames : (p.observed.state.views.map (·.name)).Nodup :=
    observed_names hp ▸ p.principals_nodup
  rw [← Knowledge.learns_stage_iff (observed_sealed hp) hnames]
  simp [LearnsIn, h.getElem?_borders (Nat.le_succ_of_le hi),
    h.getElem?_borders (Nat.succ_le_succ hi)]

theorem isChain_history (h : p.Ends naming schedule n)
    (hp : ∀ m ∈ p.messages, m.body.IsStatement) :
    (p.derive naming schedule).state.history.IsChain Snapshot.Within := by
  have hk := observed_sealed hp
  have hfirst : Snapshot.Within (Knowledge.seed p).snapshot
      (p.observed.state.stage (p.locks naming) schedule 1) := by
    have hstage := Knowledge.stage_within (p.locks naming) schedule hk 0
    rw [Knowledge.stage_zero] at hstage
    exact (seed_within_observed hp).trans hstage
  rw [h.history, List.isChain_cons]
  refine ⟨fun s hs => ?_, ?_⟩
  · rw [List.range_succ_eq_map, List.map_cons, List.head?_cons, Option.mem_some_iff] at hs
    subst hs
    exact hfirst
  · rw [List.isChain_map, List.isChain_range_succ]
    exact fun i _ => Knowledge.stage_within _ schedule hk (i + 1)

/-- There are no more rounds with something to learn than ciphertexts that some one principal has
seen. -/
theorem le_mostPending (h : p.Ends naming schedule n)
    (hp : ∀ m ∈ p.messages, m.body.IsStatement) :
    n ≤ (p.derive naming schedule).state.mostPending := by
  cases n with
  | zero => exact Nat.zero_le _
  | succ n =>
    obtain ⟨e, he, htelling⟩ := h.tells n (Nat.lt_succ_self n)
    obtain ⟨v, hv, rfl⟩ := List.mem_map.mp he
    have hfollows := Effort.Follows.start (p.locks naming) (observed_sealed hp v hv)
    -- Whoever is told something in the last productive round has opened a ciphertext in each.
    have hlength := hfollows.closed_length htelling
    have hpending : (Effort.afterRounds (p.locks naming) schedule p.observed.state.rounds
        ⟨v, v.pending⟩ (n + 2)).view.pending = v.pending := (hfollows.afterRounds (n + 2)).pending
    have hview : (Effort.afterRounds (p.locks naming) schedule p.observed.state.rounds
        ⟨v, v.pending⟩ (n + 2)).view ∈ (p.derive naming schedule).state.views := by
      rw [h.views]
      exact List.mem_map_of_mem (List.mem_map_of_mem he)
    have hmost := Knowledge.pending_length_le hview
    rw [hpending] at hmost
    dsimp only at hlength
    omega

end Ends

/-- Opening ciphertexts takes at most one round more than the largest number of ciphertexts that a
principal has seen. A snapshot is taken of the seed and after each round, and nobody forgets
anything from one to the next. Somebody learns a term in every round but the last, which changes
nothing, and whoever learns nothing in a round learns nothing in the later ones. -/
theorem derive_rounds (p : Protocol) (naming : Naming) (schedule : Schedule)
    (hp : ∀ m ∈ p.messages, m.body.IsStatement) :
    ∃ final, (p.derive naming schedule).state = final ∧ (p.derive naming schedule).fault = none ∧
      (∀ v ∈ final.views, v.pending.Nodup) ∧
      1 ≤ final.rounds ∧ final.rounds ≤ 1 + final.mostPending ∧
      final.history.length = final.rounds + 1 ∧
      final.history[0]? = some (Knowledge.seed p).snapshot ∧
      final.history[final.rounds]? = some final.snapshot ∧
      final.history.IsChain Snapshot.Within ∧
      (∀ n, 1 ≤ n → n < final.rounds →
        ∃ name ∈ p.principals, p.LearnsIn naming schedule n name) ∧
      (p.borders naming schedule)[final.rounds]? =
        (p.borders naming schedule)[final.rounds - 1]? ∧
      (2 ≤ final.rounds → final.history[final.rounds]? = final.history[final.rounds - 1]?) ∧
      ∀ name m n, 1 ≤ m → m < n → n ≤ final.rounds →
        ¬p.LearnsIn naming schedule m name → ¬p.LearnsIn naming schedule n name := by
  have hk := observed_sealed hp
  obtain ⟨r, ends⟩ := exists_ends p naming schedule hp
  have hlast := Knowledge.stage_succ_of_not_tells hk ends.quiet
  refine ⟨_, rfl, derive_fault p naming schedule hp, fun v hv => ?_, ?_⟩
  · obtain ⟨name, -, leaves⟩ := forall₂_mem_right (derive_leaves p naming schedule hp) hv
    exact leaves.nodup
  rw [ends.rounds]
  refine ⟨by omega, ?_, ?_, ?_, ?_, ends.isChain_history hp, ?_, ?_, ?_, ?_⟩
  · have := ends.le_mostPending hp
    omega
  · rw [ends.history]
    simp
  · rw [ends.history]
    rfl
  · rw [ends.getElem?_history (Nat.le_refl _)]
    simp [Knowledge.stage, Knowledge.snapshot, ends.views]
  · intro n hn hnr
    obtain ⟨i, rfl⟩ := Nat.exists_eq_add_of_le' hn
    obtain ⟨e, he, htelling⟩ := ends.tells i (by omega)
    obtain ⟨v, hv, rfl⟩ := List.mem_map.mp he
    refine ⟨v.name, ?_, (ends.learnsIn_iff hp (by omega)).mpr ⟨v, hv, rfl, htelling⟩⟩
    rw [← observed_names hp]
    exact List.mem_map_of_mem hv
  · rw [ends.getElem?_borders (Nat.le_refl _), ends.getElem?_borders (by omega), hlast]
    rfl
  · intro hr
    obtain ⟨i, rfl⟩ : ∃ i, r = i + 1 := Nat.exists_eq_add_of_le' (by omega)
    rw [ends.getElem?_history (Nat.le_refl _), Nat.add_sub_cancel,
      ends.getElem?_history (Nat.le_succ _), hlast]
  · intro name m n hm hmn hnr hquiet hlearns
    obtain ⟨i, rfl⟩ := Nat.exists_eq_add_of_le' hm
    obtain ⟨j, rfl⟩ := Nat.exists_eq_add_of_le' (Nat.le_trans hm (Nat.le_of_lt hmn))
    obtain ⟨v, hv, hname, htelling⟩ := (ends.learnsIn_iff hp (by omega)).mp hlearns
    have hfollows := Effort.Follows.start (p.locks naming) (hk v hv)
    refine hquiet ((ends.learnsIn_iff hp (by omega)).mpr ⟨v, hv, hname, ?_⟩)
    exact mt (hfollows.quiet_of_le (by omega)) htelling

/-- Ciphertexts in the reverse of the order in which they are kept. -/
def backwards : Schedule where
  visit _ _ cs := cs.reverse
  perm _ _ cs := List.reverse_perm cs

/-- The ciphertext that holds the key is opened after the one for which it is needed was tried. So
the receiver, who has seen two ciphertexts, opens one of them in each of two rounds. -/
theorem derive_rounds_lateKey :
    (∀ m ∈ lateKey.messages, m.body.IsStatement) ∧
      (lateKey.derive {} backwards).state.rounds = 3 ∧
      (lateKey.derive {} backwards).state.mostPending = 2 ∧
      (∃ name ∈ lateKey.principals, lateKey.LearnsIn {} backwards 1 name) ∧
      (∃ name ∈ lateKey.principals, lateKey.LearnsIn {} backwards 2 name) ∧
      (lateKey.derive {} backwards).state.history[3]? =
        (lateKey.derive {} backwards).state.history[2]? := by
  have hp : ∀ m ∈ lateKey.messages, m.body.IsStatement := by decide
  have hrounds : (lateKey.derive {} backwards).state.rounds = 3 := by decide +kernel
  obtain ⟨_, rfl, -, -, -, -, -, -, -, -, hlearns, -, hrepeats, -⟩ :=
    derive_rounds lateKey {} backwards hp
  rw [hrounds] at hlearns hrepeats
  exact ⟨hp, hrounds, by decide +kernel, hlearns 1 (by omega) (by omega),
    hlearns 2 (by omega) (by omega), hrepeats (by omega)⟩

end Protocol

end Wiretap
