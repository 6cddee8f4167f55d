import Wiretap.Proofs.Declarations
import Wiretap.Proofs.LeastKnowledge

/-! More protocol never means less knowledge. Messages, nonces, owners of keys and keys with new
names may be added to a protocol. A new key can change what opens a ciphertext that is there already,
but only one that nothing opened before. So whatever is closed in the larger protocol is closed in
the smaller one, and the least closed set grows. -/

namespace Wiretap

/-- `d'` declares the key of `d`, for the owners of `d` and possibly others. -/
structure KeyDecl.Widens (d d' : KeyDecl) : Prop where
  kind : d.kind = d'.kind
  name : d.name = d'.name
  owners : d.owners ⊆ d'.owners

namespace Protocol

/-- `q` has all that `p` has. The declarations of a key of `p` are the same in `q`, up to further
owners, and other keys may be declared anywhere. -/
structure Extends (p q : Protocol) : Prop where
  roles : p.roles ⊆ q.roles
  messages : p.messages ⊆ q.messages
  nonces : p.nonces ⊆ q.nonces
  keys : ∀ d ∈ p.keys,
    List.Forall₂ KeyDecl.Widens (p.declarationsOf d.name) (q.declarationsOf d.name)

namespace Extends

variable {p q : Protocol} {naming : Naming} {name key : String}

theorem exists_widens (h : p.Extends q) {d : KeyDecl} (hd : d ∈ p.keys) :
    ∃ d' ∈ q.keys, d.Widens d' := by
  have hmem : d ∈ p.declarationsOf d.name := mem_declarationsOf.mpr ⟨hd, rfl⟩
  obtain ⟨d', hd', hwidens⟩ := forall₂_mem_right (h.keys d hd).flip hmem
  exact ⟨d', (mem_declarationsOf.mp hd').1, hwidens⟩

/-- The keys of `p` have the same kinds in `q`. -/
theorem kind?_eq (h : p.Extends q) {kind : KeyKind} (hkind : p.keyTable.kind? key = some kind) :
    q.keyTable.kind? key = some kind := by
  have hdeclared : ¬∀ d ∈ p.keys, d.name ≠ key := by
    rw [← kind?_eq_none_iff, hkind]
    exact Option.some_ne_none kind
  push Not at hdeclared
  obtain ⟨d, hd, rfl⟩ := hdeclared
  rw [← hkind]
  exact (kind?_eq_of_declarationsOf (fun _ _ hwidens => hwidens.kind) (h.keys d hd)).symm

theorem unlocks (h : p.Extends q) (hkey : p.keyTable.Unlocks key) : q.keyTable.Unlocks key :=
  hkey.imp h.kind?_eq h.kind?_eq

theorem grants (h : p.Extends q) {t : String} (ht : p.Grants name t) : q.Grants name t := by
  cases ht with
  | publicKey hd hkind =>
    obtain ⟨d', hd', hwidens⟩ := h.exists_widens hd
    rw [hwidens.name]
    exact .publicKey hd' (hwidens.kind ▸ hkind)
  | key hd howner =>
    obtain ⟨d', hd', hwidens⟩ := h.exists_widens hd
    rw [hwidens.name]
    exact .key hd' (hwidens.owners howner)
  | nonce hd howner => exact .nonce (h.nonces hd) howner

theorem basis_subset (h : p.Extends q) (name : String) : p.basis name ⊆ q.basis name := by
  rintro t (hgrants | ⟨m, hm, htells⟩)
  · exact .inl (h.grants hgrants)
  · exact .inr ⟨m, h.messages hm, htells⟩

/-- A ciphertext that some key opens in `p` is opened by the same key in `q`. -/
theorem requiredKey_eq (h : p.Extends q) (naming : Naming)
    (hopens : p.keyTable.Unlocks ((p.locks naming).requiredKey key)) :
    (q.locks naming).requiredKey key = (p.locks naming).requiredKey key := by
  unfold Locks.requiredKey locks at hopens ⊢
  dsimp only at hopens ⊢
  by_cases hpublic : p.keyTable.kind? key = some .publicHalf
  · rw [if_pos hpublic, if_pos (h.kind?_eq hpublic)]
  · -- The key opens its own ciphertexts, so it is declared, and no new declaration makes it public.
    rw [if_neg hpublic] at hopens
    have hkept : q.keyTable.kind? key ≠ some .publicHalf := by
      rcases hopens with hkind | hkind
      · rw [h.kind?_eq hkind]
        decide
      · rw [h.kind?_eq hkind]
        decide
    rw [if_neg hpublic, if_neg hkept]

theorem closed (h : p.Extends q) {cs : List Ciphertext} {S : Set String}
    (hS : (q.locks naming).Closed cs S) : (p.locks naming).Closed cs S := by
  intro c hc hkey hunlocks x hx
  have hsame := h.requiredKey_eq naming hunlocks
  exact hS c hc (hsame ▸ hkey) (hsame ▸ h.unlocks hunlocks) x hx

theorem hands (h : p.Extends q) {c : Ciphertext} :
    (∃ m ∈ p.messages, m.Hands name c) → ∃ m ∈ q.messages, m.Hands name c :=
  fun ⟨m, hm, hhands⟩ => ⟨m, h.messages hm, hhands⟩

theorem pending_subset (h : p.Extends q) {v w : View} (hv : p.Leaves naming name v)
    (hw : q.Leaves naming name w) : v.pending ⊆ w.pending := by
  intro c hc
  exact (hw.pending c).mpr (h.hands ((hv.pending c).mp hc))

theorem knows_subset (h : p.Extends q) {v w : View} (hv : p.Leaves naming name v)
    (hw : q.Leaves naming name w) : v.knows.toSet ⊆ w.knows.toSet := by
  obtain ⟨⟨hbasis, hclosed⟩, -⟩ := hw.least
  have hpending : (q.locks naming).Closed v.pending w.knows.toSet :=
    hclosed.mono fun c hc => h.pending_subset hv hw hc
  exact hv.least.2 ⟨(h.basis_subset name).trans hbasis, h.closed hpending⟩

end Extends

variable {p q : Protocol}

/-- In a protocol that extends another one every principal of that one ends with all the terms and
all the ciphertexts that it has there. -/
theorem derive_growth (naming : Naming) (schedule schedule' : Schedule)
    (hq : ∀ m ∈ q.messages, m.body.IsStatement) (h : p.Extends q) :
    (p.derive naming schedule).fault = none ∧ (q.derive naming schedule').fault = none ∧
      ∀ name, name ∈ p.roles ∨ name = adversary →
        ∃ v w, (p.derive naming schedule).state.view? name = some v ∧
          (q.derive naming schedule').state.view? name = some w ∧
          (∀ t ∈ v.knows, t ∈ w.knows) ∧ ∀ c ∈ v.pending, c ∈ w.pending := by
  have hp : ∀ m ∈ p.messages, m.body.IsStatement := fun m hm => hq m (h.messages hm)
  refine ⟨derive_fault p naming schedule hp, derive_fault q naming schedule' hq, ?_⟩
  intro name hname
  obtain ⟨v, hv, leaves⟩ := view?_derive p naming schedule hp hname
  obtain ⟨w, hw, leaves'⟩ := view?_derive q naming schedule' hq (hname.imp_left (h.roles ·))
  exact ⟨v, w, hv, hw, h.knows_subset leaves leaves', h.pending_subset leaves leaves'⟩

/-- A ciphertext under a public key whose private key is declared, and one under a key that is not
declared. -/
def sparse : Protocol where
  roles := ["A", "B"]
  keys := [⟨.publicHalf, "pkB", ["B"]⟩, ⟨.privateHalf, "skB", ["B"]⟩]
  messages := [⟨"A", "B", .enc "pkB" (.ident "n")⟩, ⟨"B", "A", .enc "pkA" (.ident "m")⟩]

/-- More of everything. The declaration of `pkA` makes its ciphertexts wait for `skA`. -/
def ample : Protocol where
  roles := ["A", "B"]
  keys := [⟨.publicHalf, "pkA", ["A"]⟩, ⟨.publicHalf, "pkB", ["B"]⟩,
    ⟨.privateHalf, "skA", ["A"]⟩, ⟨.privateHalf, "skB", ["B", "A"]⟩]
  nonces := [⟨"z", "A"⟩]
  messages := [⟨"A", "B", .ident "z"⟩, ⟨"A", "B", .enc "pkB" (.ident "n")⟩,
    ⟨"B", "A", .hash (.ident "z")⟩, ⟨"B", "A", .enc "pkA" (.ident "m")⟩]

theorem derive_growth_ample :
    sparse.Extends ample ∧
      ∃ v w, (sparse.derive {} .byText).state.view? "B" = some v ∧
        (ample.derive {} .byText).state.view? "B" = some w ∧ "n" ∈ v.knows ∧ "n" ∈ w.knows := by
  have hstatements : ∀ m ∈ ample.messages, m.body.IsStatement := by decide
  have hextends : sparse.Extends ample := by
    refine ⟨by decide, by decide, by decide, fun d hd => ?_⟩
    have hd : d = ⟨.publicHalf, "pkB", ["B"]⟩ ∨ d = ⟨.privateHalf, "skB", ["B"]⟩ := by
      simpa [sparse] using hd
    rcases hd with rfl | rfl
    · exact .cons ⟨rfl, rfl, by decide⟩ .nil
    · exact .cons ⟨rfl, rfl, by decide⟩ .nil
  obtain ⟨-, -, hviews⟩ := derive_growth {} .byText .byText hstatements hextends
  have hB : "B" ∈ sparse.roles ∨ "B" = adversary := .inl (by decide)
  obtain ⟨v, w, hv, hw, hknows, -⟩ := hviews "B" hB
  obtain ⟨u, hu, leaves⟩ := view?_derive sparse {} .byText (by decide) hB
  obtain rfl := Option.some.inj (hv.symm.trans hu)
  have hkey : "skB" ∈ v.knows.toSet :=
    leaves.least.1.1 (.inl (.key (d := ⟨.privateHalf, "skB", ["B"]⟩) (by decide) (by decide)))
  have hpending : ⟨"pkB", .ident "n"⟩ ∈ v.pending :=
    (leaves.pending _).mpr ⟨_, .head _, .inr (.inl rfl), .self _⟩
  have hn : "n" ∈ v.knows := leaves.least.1.2 _ hpending hkey (.inr rfl) _ ⟨.self _, rfl⟩
  exact ⟨hextends, v, w, hv, hw, hn, hknows _ hn⟩

end Protocol

end Wiretap
