import Mathlib.Data.List.Nodup
import Wiretap.Proofs.Saturation

/-! Knowledge after a run of a protocol as a least fixed point. A principal starts with what the
declarations grant it, takes what the messages that it sees tell it, and closes this under opening
the ciphertexts that they hand it. Neither the order in which ciphertexts are tried nor what other
principals do plays a part. -/

namespace Wiretap

/-- Those who see a message: its sender, its receiver and the adversary. -/
def Message.SeenBy (m : Message) (name : String) : Prop :=
  name = m.sender ∨ name = m.receiver ∨ name = adversary

/-- The terms that a principal has from a message at once: what is revealed to those who see it,
and the names in it to the sender. -/
def Message.Tells (m : Message) (name t : String) : Prop :=
  m.SeenBy name ∧ m.body.Reveals t ∨ m.sender = name ∧ m.body.Mentions t

/-- The ciphertexts that a principal has from a message. -/
def Message.Hands (m : Message) (name : String) (c : Ciphertext) : Prop :=
  m.SeenBy name ∧ m.body.value.Shows (.enc c.key c.plaintext)

theorem Message.Hands.isExpr {m : Message} {name : String} {c : Ciphertext} (h : m.Hands name c)
    (hbody : m.body.IsStatement) : c.plaintext.IsExpr := by
  cases h.2.isExpr (Node.isStatement_iff.mp hbody) with
  | enc _ hplaintext => exact hplaintext

/-- The keys and nonces that the declarations give to a principal. -/
inductive Protocol.Grants (p : Protocol) (name : String) : String → Prop
  | publicKey {d : KeyDecl} : d ∈ p.keys → d.kind = .publicHalf → Grants p name d.name
  | key {d : KeyDecl} : d ∈ p.keys → name ∈ d.owners → Grants p name d.name
  | nonce {d : NonceDecl} : d ∈ p.nonces → d.owner = name → Grants p name d.name

/-- All that a principal has before it opens anything. -/
def Protocol.basis (p : Protocol) (name : String) : Set String :=
  {t | p.Grants name t ∨ ∃ m ∈ p.messages, m.Tells name t}

theorem Message.mem_parties {m : Message} {name : String} :
    name ∈ m.parties ↔ m.SeenBy name := by
  simp [Message.parties, Message.SeenBy]

theorem Protocol.mem_seeds {p : Protocol} {name t : String} :
    t ∈ p.seeds name ↔ p.Grants name t := by
  constructor
  · intro h
    rcases List.mem_append.mp h with h | h
    · obtain ⟨d, hd, rfl⟩ := List.mem_map.mp h
      obtain ⟨hd, howner⟩ := List.mem_filter.mp hd
      rcases Bool.or_eq_true _ _ |>.mp howner with h | h
      · exact .publicKey hd (of_decide_eq_true h)
      · exact .key hd (List.contains_iff_mem.mp h)
    · obtain ⟨d, hd, rfl⟩ := List.mem_map.mp h
      obtain ⟨hd, howner⟩ := List.mem_filter.mp hd
      exact .nonce hd (of_decide_eq_true howner)
  · intro h
    cases h with
    | @publicKey d hd hkind =>
      exact List.mem_append_left _ (List.mem_map.mpr ⟨d, by simp [hd, hkind], rfl⟩)
    | @key d hd howner =>
      exact List.mem_append_left _ (List.mem_map.mpr ⟨d, by simp [hd, howner], rfl⟩)
    | @nonce d hd howner =>
      exact List.mem_append_right _ (List.mem_map.mpr ⟨d, by simp [hd, howner], rfl⟩)

/-! ### Observation -/

/-- How the view `w` stands to the view `v` that had not seen the messages `ms` yet. -/
structure View.Observes (ms : List Message) (v w : View) : Prop where
  name : w.name = v.name
  nodup : v.pending.Nodup → w.pending.Nodup
  pending : ∀ c, c ∈ w.pending ↔ c ∈ v.pending ∨ ∃ m ∈ ms, m.Hands v.name c
  knows : ∀ t, t ∈ w.knows ↔ t ∈ v.knows ∨ ∃ m ∈ ms, m.Tells v.name t

namespace View

variable {v : View} {m : Message} {e : Exposure}

theorem mem_addPending (v : View) (cs : List Ciphertext) (c : Ciphertext) :
    c ∈ (v.addPending cs).pending ↔ c ∈ v.pending ∨ c ∈ cs := by
  unfold addPending
  induction cs generalizing v with
  | nil => simp
  | cons d cs ih =>
    rw [List.foldl_cons, ih { v with pending := v.pending.insert d }]
    simp only [List.mem_insert_iff, List.mem_cons]
    tauto

theorem nodup_addPending {v : View} (h : v.pending.Nodup) (cs : List Ciphertext) :
    (v.addPending cs).pending.Nodup := by
  unfold addPending
  induction cs generalizing v with
  | nil => exact h
  | cons d cs ih => exact ih (v := { v with pending := v.pending.insert d }) (List.Nodup.insert h)

theorem Observes.refl (v : View) : v.Observes [] v where
  name := rfl
  nodup := id
  pending := by simp
  knows := by simp

theorem Observes.trans {ms ns : List Message} {u v w : View} (h : u.Observes ms v)
    (h' : v.Observes ns w) : u.Observes (ms ++ ns) w where
  name := h'.name.trans h.name
  nodup := h'.nodup ∘ h.nodup
  pending c := by
    simp only [h'.pending, h.pending, h.name, List.mem_append, or_and_right, exists_or, or_assoc]
  knows t := by
    simp only [h'.knows, h.knows, h.name, List.mem_append, or_and_right, exists_or, or_assoc]

/-- A message with the exposure `e` of its body. -/
theorem observes_observe (v : View) (hvisible : ∀ t, t ∈ e.visible ↔ m.body.Reveals t)
    (hciphertexts : ∀ c : Ciphertext,
      c ∈ e.ciphertexts ↔ m.body.value.Shows (.enc c.key c.plaintext))
    (hbuilt : ∀ x, x ∈ e.built ↔ m.body.Mentions x) :
    v.Observes [m] (v.observe m e) := by
  by_cases hseen : v.name ∈ m.parties
  · have hseen' := Message.mem_parties.mp hseen
    by_cases hsender : v.name = m.sender
    · have heq : v.observe m e = { v with
          knows := (v.knows.insertAll e.visible).insertAll e.built
          pending := (v.addPending e.ciphertexts).pending } := by
        simp only [observe, if_pos hseen, if_pos hsender]
        rfl
      rw [heq]
      refine ⟨rfl, fun h => nodup_addPending h _, fun c => ?_, fun t => ?_⟩
      · simp [mem_addPending, Message.Hands, hseen', hciphertexts]
      · simp [Message.Tells, hseen', hsender.symm, hvisible, hbuilt, or_assoc]
    · have heq : v.observe m e = { v with
          knows := v.knows.insertAll e.visible
          pending := (v.addPending e.ciphertexts).pending } := by
        simp only [observe, if_pos hseen, if_neg hsender]
        rfl
      rw [heq]
      refine ⟨rfl, fun h => nodup_addPending h _, fun c => ?_, fun t => ?_⟩
      · simp [mem_addPending, Message.Hands, hseen', hciphertexts]
      · simp [Message.Tells, hseen', Ne.symm hsender, hvisible]
  · have hseen' := mt Message.mem_parties.mpr hseen
    have hsender : m.sender ≠ v.name := fun h => hseen' (.inl h.symm)
    rw [observe, if_neg hseen]
    refine ⟨rfl, id, fun c => ?_, fun t => ?_⟩
    · simp [Message.Hands, hseen']
    · simp [Message.Tells, hseen', hsender]

end View

namespace Knowledge

/-- Statements are observed one after the other without a fault. -/
theorem observeFrom_observes (index : Nat) (k : Knowledge) {ms : List Message}
    (hms : ∀ m ∈ ms, m.body.IsStatement) :
    (k.observeFrom index ms).fault = none ∧
      (k.observeFrom index ms).state.history = k.history ∧
      List.Forall₂ (View.Observes ms) k.views (k.observeFrom index ms).state.views := by
  induction ms generalizing index k with
  | nil => exact ⟨rfl, rfl, List.forall₂_same.mpr fun v _ => .refl v⟩
  | cons m ms ih =>
    obtain ⟨e, he, hvisible, hciphertexts, hbuilt⟩ :=
      Message.exposure_spec (hms m List.mem_cons_self)
    obtain ⟨hfault, hhistory, hviews⟩ :=
      ih (index + 1) (k.observe m e) fun n hn => hms n (List.mem_cons_of_mem _ hn)
    simp only [observeFrom, he]
    refine ⟨hfault, hhistory, ?_⟩
    refine (List.forall₂_map_left_iff.mp hviews).imp fun v w hw => ?_
    exact (View.observes_observe v hvisible hciphertexts hbuilt).trans hw

end Knowledge

/-! ### The whole run -/

theorem forall₂_trans {α β γ : Type} {R : α → β → Prop} {S : β → γ → Prop} {T : α → γ → Prop}
    (hT : ∀ x y z, R x y → S y z → T x z) {xs : List α} {ys : List β} {zs : List γ}
    (h : List.Forall₂ R xs ys) (h' : List.Forall₂ S ys zs) : List.Forall₂ T xs zs := by
  induction h generalizing zs with
  | nil =>
    cases h'
    exact .nil
  | cons hxy _ ih =>
    cases h' with
    | cons hyz htail => exact .cons (hT _ _ _ hxy hyz) (ih htail)

namespace Protocol

variable {p : Protocol} {naming : Naming} {schedule : Schedule} {name : String}

/-- The view of a principal that has seen all messages and opened nothing. -/
structure Prepares (p : Protocol) (who : String) (v : View) : Prop where
  name : v.name = who
  nodup : v.pending.Nodup
  pending : ∀ c, c ∈ v.pending ↔ ∃ m ∈ p.messages, m.Hands who c
  knows : v.knows.toSet = p.basis who

/-- The view of a principal at the end: the ciphertexts that it was handed, and the least closed
set around all that it had before it opened any. -/
structure Leaves (p : Protocol) (naming : Naming) (who : String) (v : View) : Prop where
  name : v.name = who
  nodup : v.pending.Nodup
  pending : ∀ c, c ∈ v.pending ↔ ∃ m ∈ p.messages, m.Hands who c
  least : IsLeast {S | p.basis who ⊆ S ∧ (p.locks naming).Closed v.pending S} v.knows.toSet

theorem Leaves.unique {v w : View} (hv : p.Leaves naming name v) (hw : p.Leaves naming name w) :
    v.knows = w.knows ∧ v.pending.Perm w.pending := by
  have hpending : ∀ c, c ∈ v.pending ↔ c ∈ w.pending := fun c =>
    (hv.pending c).trans (hw.pending c).symm
  have hclosed : ∀ S, (p.locks naming).Closed v.pending S ↔ (p.locks naming).Closed w.pending S :=
    fun S => ⟨fun h => h.mono fun c => (hpending c).mpr, fun h => h.mono fun c => (hpending c).mp⟩
  have hleast := hv.least
  simp only [hclosed] at hleast
  exact ⟨Terms.toSet_injective (hleast.unique hw.least),
    (List.perm_ext_iff_of_nodup hv.nodup hw.nodup).mpr hpending⟩

theorem mem_principals : name ∈ p.principals ↔ name ∈ p.roles ∨ name = adversary := by
  unfold principals
  dsimp only
  split
  · rename_i h
    rw [List.mem_eraseDups] at h ⊢
    exact ⟨.inl, fun h' => h'.elim id fun h' => h' ▸ h⟩
  · simp

/-- The state before anything is opened. -/
def observed (p : Protocol) : Progress :=
  (Knowledge.seed p).record.observeAll p

theorem prepares_of_observes {v w : View} (h : v.Observes p.messages w) (hname : v.name = name)
    (hknows : v.knows = .ofList (p.seeds name)) (hpending : v.pending = []) :
    p.Prepares name w where
  name := h.name.trans hname
  nodup := h.nodup (hpending ▸ List.nodup_nil)
  pending c := by simp [h.pending, hpending, hname]
  knows := by
    ext t
    change t ∈ w.knows ↔ _
    rw [h.knows, hknows, Terms.mem_ofList, mem_seeds, hname]
    rfl

theorem observed_prepares (hp : ∀ m ∈ p.messages, m.body.IsStatement) :
    p.observed.fault = none ∧
      p.observed.state.history = [(Knowledge.seed p).snapshot] ∧
      List.Forall₂ p.Prepares p.principals p.observed.state.views := by
  obtain ⟨hfault, hhistory, hviews⟩ :=
    Knowledge.observeFrom_observes 1 (Knowledge.seed p).record hp
  refine ⟨hfault, hhistory, ?_⟩
  refine (List.forall₂_map_left_iff.mp hviews).imp fun name w hw => ?_
  exact prepares_of_observes hw rfl rfl rfl

theorem observed_sealed (hp : ∀ m ∈ p.messages, m.body.IsStatement) :
    p.observed.state.Sealed := by
  intro v hv c hc
  obtain ⟨name, -, prepared⟩ := forall₂_mem_right (observed_prepares hp).2.2 hv
  obtain ⟨m, hm, hhands⟩ := (prepared.pending c).mp hc
  exact hhands.isExpr (hp m hm)

theorem Prepares.leaves {v w : View} (h : p.Prepares name v)
    (settles : v.Settles (p.locks naming) w) : p.Leaves naming name w where
  name := settles.name.trans h.name
  nodup := settles.pending ▸ h.nodup
  pending := settles.pending ▸ h.pending
  least := by
    rw [settles.pending, ← h.knows]
    exact settles.least

/-- The run of a protocol opens what its messages hand over. -/
theorem derive_eq (p : Protocol) (naming : Naming) (schedule : Schedule)
    (hp : ∀ m ∈ p.messages, m.body.IsStatement) :
    (p.derive naming schedule).state =
        (p.observed.state.saturate (p.locks naming) schedule).state ∧
      (p.derive naming schedule).fault =
        (p.observed.state.saturate (p.locks naming) schedule).fault := by
  have hfault := (observed_prepares hp).1
  unfold observed at hfault ⊢
  simp only [derive, hfault, and_self]

theorem derive_fault (p : Protocol) (naming : Naming) (schedule : Schedule)
    (hp : ∀ m ∈ p.messages, m.body.IsStatement) : (p.derive naming schedule).fault = none := by
  rw [(derive_eq p naming schedule hp).2]
  exact (Knowledge.saturate_settles (p.locks naming) schedule (observed_sealed hp)).1

theorem derive_leaves (p : Protocol) (naming : Naming) (schedule : Schedule)
    (hp : ∀ m ∈ p.messages, m.body.IsStatement) :
    List.Forall₂ (p.Leaves naming) p.principals (p.derive naming schedule).state.views := by
  have prepared := (observed_prepares hp).2.2
  have settled := (Knowledge.saturate_settles (p.locks naming) schedule (observed_sealed hp)).2.1
  rw [(derive_eq p naming schedule hp).1]
  exact forall₂_trans (fun _ _ _ h settles => h.leaves settles) prepared settled

theorem view?_derive (p : Protocol) (naming : Naming) (schedule : Schedule)
    (hp : ∀ m ∈ p.messages, m.body.IsStatement) (hname : name ∈ p.roles ∨ name = adversary) :
    ∃ v, (p.derive naming schedule).state.view? name = some v ∧ p.Leaves naming name v := by
  have hmem := mem_principals.mpr hname
  have leaves := derive_leaves p naming schedule hp
  unfold Knowledge.view?
  generalize (p.derive naming schedule).state.views = views at leaves
  generalize p.principals = names at leaves hmem
  induction leaves with
  | nil => exact absurd hmem List.not_mem_nil
  | @cons first v names views h _ ih =>
    rw [List.find?_cons]
    by_cases heq : v.name = name
    · obtain rfl : first = name := h.name.symm.trans heq
      exact ⟨v, by simp [heq], h⟩
    · have hne : name ≠ first := fun h' => heq (h.name.trans h'.symm)
      simp only [heq, decide_false]
      exact ih ((List.mem_cons.mp hmem).resolve_left hne)

/-- At no time does a principal know a term that it does not know at the end. -/
theorem history_within (p : Protocol) (naming : Naming) (schedule : Schedule)
    (hp : ∀ m ∈ p.messages, m.body.IsStatement) {v : View} (hv : p.Leaves naming name v)
    {snapshot : Snapshot} (hs : snapshot ∈ (p.derive naming schedule).state.history)
    {terms : Terms} (hterms : (name, terms) ∈ snapshot) : terms.toSet ⊆ v.knows.toSet := by
  obtain ⟨-, hhistory, prepared⟩ := observed_prepares hp
  rw [(derive_eq p naming schedule hp).1] at hs
  rcases (Knowledge.saturate_settles (p.locks naming) schedule (observed_sealed hp)).2.2
    snapshot hs with hs | hs
  · -- The only snapshot from before the rounds is the seed, which is part of the basis.
    rw [hhistory, List.mem_singleton] at hs
    subst hs
    obtain ⟨seed, hseed, heq⟩ := List.mem_map.mp hterms
    obtain ⟨other, -, rfl⟩ := List.mem_map.mp hseed
    obtain ⟨rfl, rfl⟩ := Prod.mk.injEq .. ▸ heq
    intro t ht
    exact hv.least.1.1 (.inl (mem_seeds.mp (Terms.mem_ofList.mp ht)))
  · obtain ⟨w, hw, hbounds⟩ := forall₂_mem_right hs hterms
    obtain ⟨other, -, hother⟩ := forall₂_mem_right prepared hw
    obtain rfl : name = other := hbounds.1.trans hother.name
    refine hbounds.2 _ (hv.least.1.2.mono fun c hc => ?_) (hother.knows ▸ hv.least.1.1)
    exact (hv.pending c).mpr ((hother.pending c).mp hc)

theorem derive_views_schedule (p : Protocol) (naming : Naming) (schedule other : Schedule)
    (hp : ∀ m ∈ p.messages, m.body.IsStatement) :
    (p.derive naming other).state.views = (p.derive naming schedule).state.views := by
  rw [(derive_eq p naming other hp).1, (derive_eq p naming schedule hp).1]
  refine List.right_unique_forall₂' (fun _ _ _ h h' => h.unique h')
    (Knowledge.saturate_settles (p.locks naming) other (observed_sealed hp)).2.1
    (Knowledge.saturate_settles (p.locks naming) schedule (observed_sealed hp)).2.1

/-- Ciphertexts in the order in which they are kept. -/
def unsorted : Schedule where
  visit _ _ cs := cs
  perm _ _ cs := .refl cs

/-- After a run of a protocol whose messages carry statements, every principal has seen exactly
the ciphertexts that the messages hand it, and knows exactly the least set that holds its basis
and is closed under opening them. No other term is known to it on the way, and the order in which
ciphertexts are tried does not matter. -/
theorem derive_leastKnowledge (p : Protocol) (naming : Naming) (schedule : Schedule)
    (hp : ∀ m ∈ p.messages, m.body.IsStatement) :
    (p.derive naming schedule).fault = none ∧
      (∀ name, name ∈ p.roles ∨ name = adversary →
        ∃ v, (p.derive naming schedule).state.view? name = some v ∧
          v.pending.Nodup ∧
          (∀ k n, ⟨k, n⟩ ∈ v.pending ↔
            ∃ m ∈ p.messages, m.SeenBy name ∧ m.body.value.Shows (.enc k n)) ∧
          IsLeast {S | p.basis name ⊆ S ∧ (p.locks naming).Closed v.pending S} v.knows.toSet ∧
          ∀ snapshot ∈ (p.derive naming schedule).state.history, ∀ terms,
            (name, terms) ∈ snapshot → terms.toSet ⊆ v.knows.toSet) ∧
      ∀ other, (p.derive naming other).state.views = (p.derive naming schedule).state.views := by
  refine ⟨derive_fault p naming schedule hp, fun name hname => ?_,
    fun other => derive_views_schedule p naming schedule other hp⟩
  obtain ⟨v, hv, leaves⟩ := view?_derive p naming schedule hp hname
  exact ⟨v, hv, leaves.nodup, fun k n => leaves.pending ⟨k, n⟩, leaves.least,
    fun _ hs _ hterms => history_within p naming schedule hp leaves hs hterms⟩

/-- A ciphertext on the wire before the ciphertext that holds its key. -/
def lateKey : Protocol where
  roles := ["A", "B"]
  keys := [⟨.shared, "K1", ["A", "B"]⟩, ⟨.shared, "K2", ["A"]⟩]
  messages := [⟨"A", "B", .enc "K2" (.ident "M")⟩, ⟨"A", "B", .enc "K1" (.ident "K2")⟩]

/-- The receiver opens the second ciphertext, and then the first. -/
theorem derive_leastKnowledge_lateKey :
    (∀ m ∈ lateKey.messages, m.body.IsStatement) ∧
      ∃ v, (lateKey.derive {} .byText).state.view? "B" = some v ∧ "M" ∈ v.knows := by
  have hp : ∀ m ∈ lateKey.messages, m.body.IsStatement := by decide
  obtain ⟨-, hviews, -⟩ := derive_leastKnowledge lateKey {} .byText hp
  obtain ⟨v, hv, -, hpending, ⟨⟨hbasis, hclosed⟩, -⟩, -⟩ := hviews "B" (.inl (by decide))
  have first : ⟨"K2", .ident "M"⟩ ∈ v.pending :=
    (hpending _ _).mpr ⟨_, List.mem_cons_self, .inr (.inl rfl), .self _⟩
  have second : ⟨"K1", .ident "K2"⟩ ∈ v.pending :=
    (hpending _ _).mpr ⟨_, List.mem_cons_of_mem _ List.mem_cons_self, .inr (.inl rfl), .self _⟩
  have hK1 : "K1" ∈ v.knows.toSet :=
    hbasis (.inl (.key (d := ⟨.shared, "K1", ["A", "B"]⟩) List.mem_cons_self (by decide)))
  have hK2 : "K2" ∈ v.knows.toSet := hclosed _ second hK1 (.inl rfl) _ ⟨.self _, rfl⟩
  exact ⟨hp, v, hv, hclosed _ first hK2 (.inl rfl) _ ⟨.self _, rfl⟩⟩

end Protocol

end Wiretap
