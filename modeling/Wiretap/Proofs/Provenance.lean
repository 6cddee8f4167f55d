import Wiretap.Proofs.Labels
import Wiretap.Proofs.Secrecy

/-! Where knowledge comes from. Whatever a principal knows beyond its own keys and nonces it has
from a message that it sees. A name that it learned there, in the open or from any chain of
ciphertexts, is a name that the sender of that message knows too, since the sender wrote the whole
message. What is no name is a compound expression of such a message. -/

namespace Wiretap

open Lexing

namespace Node

theorem WellShaped.of_mem_children {n : Node} (h : n.WellShaped) :
    ∀ child ∈ n.children, child.WellShaped := by
  cases h with
  | ident => simp [children]
  | concat hl hr => simp [children, hl, hr]
  | enc hk hm | mac hk hm | sign hk hm => simp [children, hm, WellShaped.ident hk]
  | hash hm => simp [children, hm]
  | verify hk hm hs => simp [children, hm, hs, WellShaped.ident hk]

theorem WellShapedBody.of_mem_children {n : Node} (h : n.WellShapedBody) :
    ∀ child ∈ n.children, child.WellShapedBody := by
  cases h with
  | expr h => exact fun child hchild => .expr (h.of_mem_children child hchild)
  | assign ht hv => simp [children, WellShapedBody.expr hv, WellShapedBody.expr (.ident ht)]

/-- The names that stand in the body of a message that a text spells are names of the language. -/
theorem WellShapedBody.isName {n : Node} {x : String} (h : n.WellShapedBody) (hx : n.Mentions x) :
    IsName x := by
  have hident := forall_mem_preorder (fun _ hn => hn.of_mem_children) h _ hx
  cases hident with
  | expr hident =>
    cases hident with
    | ident hx => exact hx

end Node

namespace Protocol

variable {p : Protocol} {naming : Naming} {who : String} {v : View}

/-- A word that is known and not granted stands in a message that was seen. -/
theorem Leaves.mentioned (hp : ∀ m ∈ p.messages, m.body.IsStatement) (hv : p.Leaves naming who v)
    {x : String} (hx : x ∈ v.knows) (hword : IsWord x) (hgrants : ¬p.Grants who x) :
    ∃ m ∈ p.messages, m.SeenBy who ∧ m.body.Mentions x := by
  obtain ⟨n, hmeets, htext⟩ := hv.meets hp hx
  cases hmeets with
  | granted h =>
    cases htext
    exact absurd h hgrants
  | seen hm hseen hmem hexpr =>
    obtain rfl := hexpr.eq_ident hword.isWord htext
    exact ⟨_, hm, hseen, hmem⟩

theorem Leaves.knows_of_mentions {m : Message} (hv : p.Leaves naming m.sender v)
    (hm : m ∈ p.messages) {x : String} (hx : m.body.Mentions x) : x ∈ v.knows :=
  hv.least.1.1 (.inr ⟨m, hm, .inr ⟨rfl, hx⟩⟩)

/-- What is known and is no word is a compound expression in a message that was seen. -/
theorem Leaves.compound (hp : p.WellShaped) (hbodies : ∀ m ∈ p.messages, m.body.IsStatement)
    (hv : p.Leaves naming who v) {t : String} (ht : t ∈ v.knows) (hword : ¬IsWord t) :
    ∃ m ∈ p.messages, m.SeenBy who ∧
      ∃ n ∈ m.body.preorder, n.IsExpr ∧ (∀ x, n ≠ .ident x) ∧ n.text = t := by
  obtain ⟨n, hmeets, rfl⟩ := hv.meets hbodies ht
  cases hmeets with
  | granted h =>
    cases h with
    | publicKey hd _ => exact absurd (hp.keys _ hd).name.toIsWord hword
    | key hd _ => exact absurd (hp.keys _ hd).name.toIsWord hword
    | nonce hd _ => exact absurd (hp.nonces _ hd).name.toIsWord hword
  | @seen m n hm hseen hmem hexpr =>
    refine ⟨m, hm, hseen, n, hmem, hexpr, ?_, rfl⟩
    rintro x rfl
    exact hword ((hp.messages m hm).body.isName hmem).toIsWord

/-- No knowledge out of thin air. In a parsed protocol whose messages are sent by principals, a
word that a principal knows at the end and did not start with stands in a message that it sees,
and the sender of that message knows it at the end as well. Any other term that a principal knows
is the label of a compound expression that stands in a message that it sees. -/
theorem derive_grounded {source : String} (hparse : parse source = .ok p)
    (hsenders : ∀ m ∈ p.messages, m.sender ∈ p.principals) (naming : Naming) (schedule : Schedule)
    (hwho : who ∈ p.principals) :
    (p.derive naming schedule).fault = none ∧
      ∃ v, (p.derive naming schedule).state.view? who = some v ∧
        (∀ x ∈ v.knows, IsWord x → x ∉ p.seeds who →
          ∃ m ∈ p.messages, m.SeenBy who ∧ m.body.Mentions x ∧
            ∃ w, (p.derive naming schedule).state.view? m.sender = some w ∧ x ∈ w.knows) ∧
        ∀ t ∈ v.knows, ¬IsWord t →
          ∃ m ∈ p.messages, m.SeenBy who ∧
            ∃ n ∈ m.body.preorder, n.IsExpr ∧ (∀ x, n ≠ .ident x) ∧ n.label = .ok t := by
  have hbodies := isStatement_of_parse hparse
  obtain ⟨v, hview, leaves⟩ := view?_derive p naming schedule hbodies (mem_principals.mp hwho)
  refine ⟨derive_fault p naming schedule hbodies, v, hview, fun x hx hword hseeds => ?_,
    fun t ht hword => ?_⟩
  · obtain ⟨m, hm, hseen, hmentions⟩ :=
      leaves.mentioned hbodies hx hword (mt mem_seeds.mpr hseeds)
    -- The sender has authored the whole message, the ciphertexts in it included.
    obtain ⟨w, hw, sent⟩ :=
      view?_derive p naming schedule hbodies (mem_principals.mp (hsenders m hm))
    exact ⟨m, hm, hseen, hmentions, w, hw, sent.knows_of_mentions hm hmentions⟩
  · obtain ⟨m, hm, hseen, n, hmem, hexpr, hcompound, rfl⟩ :=
      leaves.compound (wellShaped_of_parse hparse) hbodies ht hword
    exact ⟨m, hm, hseen, n, hmem, hexpr, hcompound, hexpr.label⟩

/-- A nonce that is handed on in a ciphertext. -/
def handedOn : Protocol where
  roles := ["A", "B", "C"]
  keys := [⟨.shared, "K", ["B", "C"]⟩]
  nonces := [⟨"N", "A"⟩]
  messages := [⟨"A", "B", .concat (.ident "N") (.hash (.ident "N"))⟩,
    ⟨"B", "C", .enc "K" (.concat (.ident "N") (.hash (.ident "N")))⟩]

/-- The last receiver knows the nonce from the second message, whose sender knows it too. -/
theorem derive_grounded_handedOn :
    parse ("roles: A, B, C shared key K: B, C nonce N: A " ++
      "A -> B: N || Hash(N) B -> C: Enc(K, N || Hash(N))") = .ok handedOn ∧
    (∀ m ∈ handedOn.messages, m.sender ∈ handedOn.principals) ∧
    "C" ∈ handedOn.principals ∧
    ∃ v, (handedOn.derive {} .byText).state.view? "C" = some v ∧
      ("N" ∈ v.knows ∧ "N" ∉ handedOn.seeds "C" ∧
        ∃ m ∈ handedOn.messages, m.SeenBy "C" ∧ m.body.Mentions "N" ∧
          ∃ w, (handedOn.derive {} .byText).state.view? m.sender = some w ∧ "N" ∈ w.knows) ∧
      "Hash(N)" ∈ v.knows ∧
        ∃ m ∈ handedOn.messages, m.SeenBy "C" ∧
          ∃ n ∈ m.body.preorder, n.IsExpr ∧ (∀ x, n ≠ .ident x) ∧ n.label = .ok "Hash(N)" := by
  have hparse : parse ("roles: A, B, C shared key K: B, C nonce N: A " ++
      "A -> B: N || Hash(N) B -> C: Enc(K, N || Hash(N))") = .ok handedOn := by decide +kernel
  have hsenders : ∀ m ∈ handedOn.messages, m.sender ∈ handedOn.principals := by decide
  have hwho : "C" ∈ handedOn.principals := by decide
  obtain ⟨-, v, hview, hwords, hothers⟩ := derive_grounded hparse hsenders {} .byText hwho
  obtain ⟨w, hw, leaves⟩ := view?_derive handedOn {} .byText (isStatement_of_parse hparse)
    (mem_principals.mp hwho)
  obtain rfl := Option.some.inj (hview.symm.trans hw)
  obtain ⟨⟨hbasis, hclosed⟩, -⟩ := leaves.least
  have hkey : "K" ∈ v.knows.toSet :=
    hbasis (.inl (.key (d := ⟨.shared, "K", ["B", "C"]⟩) List.mem_cons_self (by decide)))
  have hpending : ⟨"K", .concat (.ident "N") (.hash (.ident "N"))⟩ ∈ v.pending :=
    (leaves.pending _).mpr
      ⟨_, List.mem_cons_of_mem _ List.mem_cons_self, .inr (.inl rfl), .self _⟩
  have hopened := hclosed _ hpending hkey (.inl rfl)
  have hnonce : "N" ∈ v.knows := hopened _ ⟨.left (.self (.ident "N")), rfl⟩
  have hhash : "Hash(N)" ∈ v.knows := hopened _ ⟨.right (.self (.hash (.ident "N"))), rfl⟩
  have hword : IsWord "N" := ⟨⟨'N', rfl, by decide⟩, List.all_eq_true.mp (by decide)⟩
  have hnoWord : ¬IsWord "Hash(N)" := fun h => absurd h.isWord (by decide)
  exact ⟨hparse, hsenders, hwho, v, hview,
    ⟨hnonce, by decide, hwords "N" hnonce hword (by decide)⟩, hhash, hothers _ hhash hnoWord⟩

end Protocol

end Wiretap
