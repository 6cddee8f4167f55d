import Wiretap.Proofs.LeastKnowledge

/-! Noninterference between principals. Two protocols that grant a principal the same terms, show
it the same statements and agree on the kinds of keys leave it with the same knowledge, whatever
they do among others. -/

namespace Wiretap

namespace Protocol

/-- What a principal sees of the messages: whether it is the sender, and the statement. -/
def sightings (p : Protocol) (who : String) : List (Bool × Node) :=
  (p.messages.filter fun m => who ∈ m.parties).map fun m => (m.sender = who, m.body)

/-- The protocols look the same to a principal. -/
structure AlikeTo (p q : Protocol) (who : String) : Prop where
  kinds : ∀ name, p.keyTable.kind? name = q.keyTable.kind? name
  seeds : ∀ t, t ∈ p.seeds who ↔ t ∈ q.seeds who
  sightings : ∀ s, s ∈ p.sightings who ↔ s ∈ q.sightings who

variable {p q : Protocol} {who : String}

theorem mem_sightings {sent : Bool} {n : Node} :
    (sent, n) ∈ p.sightings who ↔
      ∃ m ∈ p.messages, m.SeenBy who ∧ sent = decide (m.sender = who) ∧ n = m.body := by
  simp only [sightings, List.mem_map, List.mem_filter, decide_eq_true_eq, Message.mem_parties,
    Prod.mk.injEq]
  constructor
  · rintro ⟨m, ⟨hm, hseen⟩, rfl, rfl⟩
    exact ⟨m, hm, hseen, rfl, rfl⟩
  · rintro ⟨m, hm, hseen, rfl, rfl⟩
    exact ⟨m, ⟨hm, hseen⟩, rfl, rfl⟩

/-- A principal has ciphertexts from what it sees. -/
theorem hands_iff_sightings {c : Ciphertext} :
    (∃ m ∈ p.messages, m.Hands who c) ↔
      ∃ s ∈ p.sightings who, s.2.value.Shows (.enc c.key c.plaintext) := by
  constructor
  · rintro ⟨m, hm, hseen, hshows⟩
    exact ⟨(_, m.body), mem_sightings.mpr ⟨m, hm, hseen, rfl, rfl⟩, hshows⟩
  · rintro ⟨⟨sent, n⟩, hs, hshows⟩
    obtain ⟨m, hm, hseen, -, rfl⟩ := mem_sightings.mp hs
    exact ⟨m, hm, hseen, hshows⟩

/-- A principal is told terms by what it sees, and by what it wrote. -/
theorem tells_iff_sightings {t : String} :
    (∃ m ∈ p.messages, m.Tells who t) ↔
      ∃ s ∈ p.sightings who, s.2.Reveals t ∨ s.1 = true ∧ s.2.Mentions t := by
  constructor
  · rintro ⟨m, hm, htells⟩
    have hseen : m.SeenBy who := by
      rcases htells with ⟨hseen, -⟩ | ⟨hsender, -⟩
      · exact hseen
      · exact .inl hsender.symm
    refine ⟨(_, m.body), mem_sightings.mpr ⟨m, hm, hseen, rfl, rfl⟩, ?_⟩
    exact htells.imp And.right fun h => ⟨decide_eq_true h.1, h.2⟩
  · rintro ⟨⟨sent, n⟩, hs, h⟩
    obtain ⟨m, hm, hseen, rfl, rfl⟩ := mem_sightings.mp hs
    exact ⟨m, hm, h.imp (⟨hseen, ·⟩) fun h => ⟨of_decide_eq_true h.1, h.2⟩⟩

namespace AlikeTo

theorem basis_eq (h : p.AlikeTo q who) : p.basis who = q.basis who := by
  ext t
  simp only [basis, Set.mem_ofPred_eq, tells_iff_sightings, ← mem_seeds, h.seeds, h.sightings]

theorem hands_iff (h : p.AlikeTo q who) {c : Ciphertext} :
    (∃ m ∈ p.messages, m.Hands who c) ↔ ∃ m ∈ q.messages, m.Hands who c := by
  simp only [hands_iff_sightings, h.sightings]

theorem requiredKey_eq (h : p.AlikeTo q who) (naming : Naming) (key : String) :
    (p.locks naming).requiredKey key = (q.locks naming).requiredKey key := by
  unfold Locks.requiredKey locks
  rw [h.kinds]

theorem unlocks_iff (h : p.AlikeTo q who) (key : String) :
    p.keyTable.Unlocks key ↔ q.keyTable.Unlocks key := by
  simp only [KeyTable.Unlocks, h.kinds]

theorem closed_iff (h : p.AlikeTo q who) (naming : Naming) {cs : List Ciphertext} {S : Set String} :
    (p.locks naming).Closed cs S ↔ (q.locks naming).Closed cs S := by
  refine forall₂_congr fun c _ => ?_
  rw [h.requiredKey_eq]
  exact imp_congr_right fun _ => imp_congr_left (h.unlocks_iff _)

/-- Closed sets around the same basis have the same least one. -/
theorem leaves (h : p.AlikeTo q who) {naming : Naming} {v : View} (hv : p.Leaves naming who v) :
    q.Leaves naming who v where
  name := hv.name
  nodup := hv.nodup
  pending c := (hv.pending c).trans h.hands_iff
  least := by
    simp only [← h.basis_eq, ← h.closed_iff]
    exact hv.least

end AlikeTo

/-- A principal of two protocols that look the same to it ends with the same knowledge and the
same ciphertexts in both. -/
theorem derive_noninterference (naming : Naming) (schedule schedule' : Schedule)
    (hp : ∀ m ∈ p.messages, m.body.IsStatement) (hq : ∀ m ∈ q.messages, m.body.IsStatement)
    (hwho : who ∈ p.roles ∨ who = adversary) (hwho' : who ∈ q.roles ∨ who = adversary)
    (h : p.AlikeTo q who) :
    (p.derive naming schedule).fault = none ∧ (q.derive naming schedule').fault = none ∧
      ∃ v w, (p.derive naming schedule).state.view? who = some v ∧
        (q.derive naming schedule').state.view? who = some w ∧
        v.knows = w.knows ∧ v.pending.Perm w.pending := by
  refine ⟨derive_fault p naming schedule hp, derive_fault q naming schedule' hq, ?_⟩
  obtain ⟨v, hv, leaves⟩ := view?_derive p naming schedule hp hwho
  obtain ⟨w, hw, leaves'⟩ := view?_derive q naming schedule' hq hwho'
  exact ⟨v, w, hv, hw, (h.leaves leaves).unique leaves'⟩

/-- A ciphertext for `B` from a role that shares its key. -/
def quietLine : Protocol where
  roles := ["A", "B"]
  keys := [⟨.shared, "K", ["A", "B"]⟩]
  messages := [⟨"A", "B", .enc "K" (.ident "n")⟩]

/-- The same ciphertext for `B`, twice and from another role, among messages between others. -/
def busyLine : Protocol where
  roles := ["C", "B", "D"]
  keys := [⟨.privateHalf, "K", ["D"]⟩, ⟨.shared, "K", ["C", "B"]⟩]
  nonces := [⟨"z", "C"⟩]
  messages := [⟨"C", "D", .assign "s" (.concat (.ident "z") (.ident "K"))⟩,
    ⟨"C", "B", .enc "K" (.ident "n")⟩, ⟨"D", "C", .hash (.ident "z")⟩,
    ⟨"C", "B", .enc "K" (.ident "n")⟩]

theorem derive_noninterference_lines :
    quietLine.AlikeTo busyLine "B" ∧
      ∃ v w, (quietLine.derive {} .byText).state.view? "B" = some v ∧
        (busyLine.derive {} .byText).state.view? "B" = some w ∧
        v.knows = w.knows ∧ v.pending.Perm w.pending := by
  have hquiet : ∀ m ∈ quietLine.messages, m.body.IsStatement := by decide
  have hbusy : ∀ m ∈ busyLine.messages, m.body.IsStatement := by decide
  have halike : quietLine.AlikeTo busyLine "B" := by
    refine ⟨fun name => ?_, fun t => ?_, fun s => ?_⟩
    · by_cases hname : "K" = name
      · simp [quietLine, busyLine, keyTable, KeyTable.kind?, hname]
      · simp [quietLine, busyLine, keyTable, KeyTable.kind?, hname]
    · simp [quietLine, busyLine, seeds]
    · simp [quietLine, busyLine, sightings, Message.mem_parties, Message.SeenBy, adversary]
  exact ⟨halike, (derive_noninterference {} .byText .byText hquiet hbusy (.inl (by decide))
    (.inl (by decide)) halike).2.2⟩

end Protocol

end Wiretap
