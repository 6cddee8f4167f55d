import Wiretap.Proofs.LeastKnowledge
import Wiretap.Proofs.Parsing.Soundness

/-! Secrecy of names against the adversary. Around every place where a name stands there are
layers: plaintexts, digests, the place of a key. The adversary looks through a single plaintext
whose key it has, and through nothing else. A name that the declarations withhold is secret if and
only if every place where it stands is out of its sight. -/

namespace Wiretap

/-! ### Words and texts -/

theorem Text.not_isWord_of_mem {s : String} {c : Char} (hc : c ∈ s.toList)
    (h : Text.isWordChar c = false) : Text.isWord s = false := by
  rw [Text.isWord, Bool.and_eq_false_iff]
  exact .inr (List.all_eq_false.mpr ⟨c, hc, by simp [h]⟩)

namespace Node

/-- The text of an expression has a parenthesis in it unless it is a name. -/
theorem IsExpr.paren_mem_text {n : Node} (hn : n.IsExpr) (hcompound : ∀ x, n ≠ .ident x) :
    '(' ∈ n.text.toList := by
  cases hn with
  | ident x => exact absurd rfl (hcompound x)
  | concat | enc | mac | hash | sign | verify => simp [text]

theorem IsExpr.eq_ident {n : Node} (hn : n.IsExpr) {x : String} (hx : Text.isWord x = true)
    (h : n.text = x) : n = .ident x := by
  subst h
  by_contra hne
  have hparen : '(' ∈ n.text.toList := by
    refine hn.paren_mem_text ?_
    rintro y rfl
    exact hne rfl
  rw [Text.not_isWord_of_mem hparen (by decide)] at hx
  cases hx

end Node

/-! ### Places -/

/-- What may stand around a name: it is the key of a constructor, or it is in the plaintext of a
ciphertext under the key `k`, or in the argument of a constructor that shows only a digest. -/
inductive Layer where
  | key
  | plaintext (k : String)
  | digest
deriving DecidableEq, Repr

/-- Whether a layer is the plaintext of a ciphertext. -/
def Layer.isPlaintext : Layer → Bool
  | plaintext _ => true
  | _ => false

/-- Places with one more layer around them. -/
def Layer.around (layer : Layer) (places : List (String × List Layer)) :
    List (String × List Layer) :=
  places.map fun (x, path) => (x, layer :: path)

/-- The names in an expression, each with the layers around it, outermost first. -/
def Node.places : Node → List (String × List Layer)
  | .ident x => [(x, [])]
  | .concat l r => l.places ++ r.places
  | .enc k m => (k, [.key]) :: (Layer.plaintext k).around m.places
  | .mac k m => (k, [.key]) :: Layer.digest.around m.places
  | .hash m => Layer.digest.around m.places
  | .sign k m => (k, [.key]) :: Layer.digest.around m.places
  | .verify k m s => (k, [.key]) :: Layer.digest.around (m.places ++ s.places)
  | _ => []

/-- The layers keep a name from whoever reads the plaintexts under the keys in `readable`: it is a
key, or in a digest, or two ciphertexts deep, or in a ciphertext that is not read. -/
def Sheltered (readable : String → Prop) (path : List Layer) : Prop :=
  .key ∈ path ∨ .digest ∈ path ∨ 2 ≤ path.countP Layer.isPlaintext ∨
    ∃ k, .plaintext k ∈ path ∧ ¬readable k

/-- A name is in sight in the open, or in a single plaintext that is read. -/
theorem not_sheltered {readable : String → Prop} {path : List Layer}
    (h : ¬Sheltered readable path) : path = [] ∨ ∃ k, path = [.plaintext k] ∧ readable k := by
  simp only [Sheltered, not_or, not_exists, not_and, not_not, Nat.not_le] at h
  obtain ⟨hkey, hdigest, hcount, hreadable⟩ := h
  have hall : ∀ layer ∈ path, layer.isPlaintext = true := by
    intro layer hlayer
    cases layer with
    | key => exact absurd hlayer hkey
    | plaintext => rfl
    | digest => exact absurd hlayer hdigest
  rw [List.countP_eq_length.mpr hall] at hcount
  match path with
  | [] => exact .inl rfl
  | [.plaintext k] => exact .inr ⟨k, rfl, hreadable k List.mem_cons_self⟩
  | [.key] => exact absurd List.mem_cons_self hkey
  | [.digest] => exact absurd List.mem_cons_self hdigest
  | _ :: _ :: _ =>
    simp only [List.length_cons] at hcount
    omega

theorem not_sheltered_nil (readable : String → Prop) : ¬Sheltered readable [] := by
  simp [Sheltered]

theorem not_sheltered_plaintext {readable : String → Prop} {k : String} (hk : readable k) :
    ¬Sheltered readable [.plaintext k] := by
  simp [Sheltered, Layer.isPlaintext, hk]

theorem Layer.mem_around {layer : Layer} {places : List (String × List Layer)} {x : String}
    {path : List Layer} :
    (x, path) ∈ layer.around places ↔ ∃ inner, path = layer :: inner ∧ (x, inner) ∈ places := by
  simp only [around, List.mem_map, Prod.exists, Prod.mk.injEq]
  constructor
  · rintro ⟨y, inner, hmem, rfl, rfl⟩
    exact ⟨inner, rfl, hmem⟩
  · rintro ⟨inner, rfl, hmem⟩
    exact ⟨x, inner, hmem, rfl, rfl⟩

namespace Node

/-- The names in the open are the names that are shown. -/
theorem IsExpr.mem_places_nil {n : Node} (hn : n.IsExpr) {x : String} :
    (x, []) ∈ n.places ↔ n.Shows (.ident x) := by
  induction hn with
  | ident y => simp [places, shows_of_not_concat (n := .ident y) rfl]
  | concat _ _ ihl ihr => simp [places, shows_concat, ihl, ihr]
  | enc k => simp [places, Layer.mem_around, shows_of_not_concat (n := .enc k _) rfl]
  | mac k => simp [places, Layer.mem_around, shows_of_not_concat (n := .mac k _) rfl]
  | hash => simp [places, Layer.mem_around, shows_of_not_concat (n := .hash _) rfl]
  | sign k => simp [places, Layer.mem_around, shows_of_not_concat (n := .sign k _) rfl]
  | verify k => simp [places, Layer.mem_around, shows_of_not_concat (n := .verify k _ _) rfl]

/-- The names in a single plaintext are in the open in a ciphertext that is shown. -/
theorem IsExpr.mem_places_plaintext {n : Node} (hn : n.IsExpr) {x k : String} :
    (x, [.plaintext k]) ∈ n.places ↔ ∃ m, n.Shows (.enc k m) ∧ m.Shows (.ident x) := by
  induction hn with
  | ident y => simp [places, shows_of_not_concat (n := .ident y) rfl]
  | concat _ _ ihl ihr => simp [places, shows_concat, ihl, ihr, or_and_right, exists_or]
  | enc j hm =>
    simp [places, Layer.mem_around, shows_of_not_concat (n := .enc j _) rfl, hm.mem_places_nil]
  | mac j => simp [places, Layer.mem_around, shows_of_not_concat (n := .mac j _) rfl]
  | hash => simp [places, Layer.mem_around, shows_of_not_concat (n := .hash _) rfl]
  | sign j => simp [places, Layer.mem_around, shows_of_not_concat (n := .sign j _) rfl]
  | verify j => simp [places, Layer.mem_around, shows_of_not_concat (n := .verify j _ _) rfl]

end Node

/-! ### The adversary -/

/-- A set of terms without one term is closed if that term is in no plaintext that is read. -/
theorem Locks.Closed.diff {l : Locks} {cs : List Ciphertext} {S : Set String} {x : String}
    (h : l.Closed cs S)
    (hx : ∀ c ∈ cs, l.requiredKey c.key ∈ S → l.table.Unlocks (l.requiredKey c.key) →
      ∀ y, c.plaintext.Leaf y → y.text ≠ x) : l.Closed cs (S \ {x}) :=
  fun c hc hkey hunlocks y hy =>
    ⟨h c hc hkey.1 hunlocks y hy, hx c hc hkey.1 hunlocks y hy⟩

/-- The principal reads the plaintexts under `k`: it knows the key that opens them, and that key is
shared or private. -/
def View.Reads (v : View) (l : Locks) (k : String) : Prop :=
  l.requiredKey k ∈ v.knows ∧ l.table.Unlocks (l.requiredKey k)

namespace Protocol

variable {p : Protocol} {naming : Naming} {x : String}

/-- No declaration gives `x` to the adversary, who sends nothing, and no value is called `x`. -/
structure Withholds (p : Protocol) (x : String) : Prop where
  publicKey : ∀ d ∈ p.keys, d.name = x → d.kind ≠ .publicHalf
  key : ∀ d ∈ p.keys, d.name = x → adversary ∉ d.owners
  nonce : ∀ d ∈ p.nonces, d.name = x → d.owner ≠ adversary
  sender : ∀ m ∈ p.messages, m.sender ≠ adversary
  target : ∀ m ∈ p.messages, ∀ value, m.body ≠ .assign x value

theorem Withholds.not_grants (h : p.Withholds x) : ¬p.Grants adversary x := by
  intro hgrants
  cases hgrants with
  | publicKey hd hkind => exact h.publicKey _ hd rfl hkind
  | key hd howner => exact h.key _ hd rfl howner
  | nonce hd howner => exact h.nonce _ hd rfl howner

theorem Withholds.not_tells (h : p.Withholds x) (hx : Text.isWord x = true) {m : Message}
    (hm : m ∈ p.messages) (hbody : m.body.IsStatement) (hopen : (x, []) ∉ m.body.value.places) :
    ¬m.Tells adversary x := by
  rintro (⟨-, hreveals⟩ | ⟨hsender, -⟩)
  · rcases hreveals with ⟨value, hassign⟩ | ⟨y, hshows, -, hy⟩
    · exact h.target m hm value hassign
    · obtain rfl := (hshows.isExpr (Node.isStatement_iff.mp hbody)).eq_ident hx hy
      exact hopen ((Node.isStatement_iff.mp hbody).mem_places_nil.mpr hshows)
  · exact h.sender m hm hsender

/-- If all places of `x` are out of sight, the other terms are closed, so that `x` is not in the
least closed set. -/
theorem Withholds.not_mem_knows (h : p.Withholds x) (hx : Text.isWord x = true)
    (hp : ∀ m ∈ p.messages, m.body.IsStatement) {v : View} (leaves : p.Leaves naming adversary v)
    (hsheltered : ∀ m ∈ p.messages, ∀ path, (x, path) ∈ m.body.value.places →
      Sheltered (v.Reads (p.locks naming)) path) : x ∉ v.knows := by
  obtain ⟨⟨hbasis, hclosed⟩, hleast⟩ := leaves.least
  have hbasis' : p.basis adversary ⊆ v.knows.toSet \ {x} := by
    intro t ht
    refine ⟨hbasis ht, ?_⟩
    rintro rfl
    rcases ht with hgrants | ⟨m, hm, htells⟩
    · exact h.not_grants hgrants
    · refine h.not_tells hx hm (hp m hm) (fun hopen => ?_) htells
      exact not_sheltered_nil _ (hsheltered m hm [] hopen)
  have hclosed' : (p.locks naming).Closed v.pending (v.knows.toSet \ {x}) := by
    refine hclosed.diff fun c hc hkey hunlocks y hy hyx => ?_
    obtain ⟨m, hm, hhands⟩ := (leaves.pending c).mp hc
    obtain rfl := (hy.1.isExpr (hhands.isExpr (hp m hm))).eq_ident hx hyx
    refine not_sheltered_plaintext ⟨hkey, hunlocks⟩ (hsheltered m hm [.plaintext c.key] ?_)
    exact (Node.isStatement_iff.mp (hp m hm)).mem_places_plaintext.mpr ⟨_, hhands.2, hy.1⟩
  exact fun hmem => (hleast ⟨hbasis', hclosed'⟩ hmem).2 rfl

/-- A place in sight gives the name away. -/
theorem Leaves.sheltered {v : View} (leaves : p.Leaves naming adversary v) (hx : x ∉ v.knows)
    {m : Message} (hm : m ∈ p.messages) (hbody : m.body.IsStatement) {path : List Layer}
    (h : (x, path) ∈ m.body.value.places) : Sheltered (v.Reads (p.locks naming)) path := by
  obtain ⟨⟨hbasis, hclosed⟩, -⟩ := leaves.least
  have hseen : m.SeenBy adversary := .inr (.inr rfl)
  by_contra hbare
  rcases not_sheltered hbare with rfl | ⟨k, rfl, hkey, hunlocks⟩
  · have hshows := (Node.isStatement_iff.mp hbody).mem_places_nil.mp h
    exact hx (hbasis (.inr ⟨m, hm, .inl ⟨hseen, .inr ⟨_, hshows, rfl, rfl⟩⟩⟩))
  · obtain ⟨n, hshows, hn⟩ := (Node.isStatement_iff.mp hbody).mem_places_plaintext.mp h
    have hpending := (leaves.pending ⟨k, n⟩).mpr ⟨m, hm, hseen, hshows⟩
    exact hx (hclosed _ hpending hkey hunlocks _ ⟨hn, rfl⟩)

/-- A name of a parsed protocol that the declarations withhold from the adversary is secret at the
end of a run exactly if every place where it stands in a message is a key, or in a digest, or two
ciphertexts deep, or in a ciphertext that the adversary cannot open with what it knows by then. -/
theorem adversary_ignorant_iff_sheltered {source : String} (hparse : parse source = .ok p)
    (naming : Naming) (schedule : Schedule) (hx : Text.isWord x = true) (h : p.Withholds x) :
    (p.derive naming schedule).fault = none ∧
      ∃ v, (p.derive naming schedule).state.view? adversary = some v ∧
        (x ∉ v.knows ↔ ∀ m ∈ p.messages, ∀ path, (x, path) ∈ m.body.value.places →
          Sheltered (v.Reads (p.locks naming)) path) := by
  have hp := isStatement_of_parse hparse
  refine ⟨derive_fault p naming schedule hp, ?_⟩
  obtain ⟨v, hv, leaves⟩ := view?_derive p naming schedule hp (.inr rfl)
  exact ⟨v, hv, fun hx m hm path => leaves.sheltered hx hm (hp m hm), h.not_mem_knows hx hp leaves⟩

/-- A nonce in a ciphertext, in a digest and under two keys. -/
def sealedNonceSource : String :=
  "roles: A, B\nshared key Kab: A, B\nnonce Na: A\n" ++
    "A -> B: c = Enc(Kab, Na) || Hash(Na)\nB -> A: Enc(Kab, Enc(Kab, Na))"

/-- The protocol that the source spells. -/
def sealedNonce : Protocol where
  roles := ["A", "B"]
  keys := [⟨.shared, "Kab", ["A", "B"]⟩]
  nonces := [⟨"Na", "A"⟩]
  messages := [
    ⟨"A", "B", .assign "c" (.concat (.enc "Kab" (.ident "Na")) (.hash (.ident "Na")))⟩,
    ⟨"B", "A", .enc "Kab" (.enc "Kab" (.ident "Na"))⟩]

/-- The key is secret since it stands only in the place of keys, and so is the nonce. -/
theorem adversary_ignorant_iff_sheltered_nonce :
    parse sealedNonceSource = .ok sealedNonce ∧ sealedNonce.Withholds "Na" ∧
      ∃ v, (sealedNonce.derive {} .byText).state.view? adversary = some v ∧
        "Kab" ∉ v.knows ∧ "Na" ∉ v.knows := by
  have hparse : parse sealedNonceSource = .ok sealedNonce := by decide +kernel
  have hkey : sealedNonce.Withholds "Kab" :=
    ⟨by decide, by decide, by decide, by decide, by simp [sealedNonce]⟩
  have hnonce : sealedNonce.Withholds "Na" :=
    ⟨by decide, by decide, by decide, by decide, by simp [sealedNonce]⟩
  obtain ⟨-, v, hv, hkeyIff⟩ :=
    adversary_ignorant_iff_sheltered hparse {} .byText (x := "Kab") (by decide) hkey
  obtain ⟨-, w, hw, hnonceIff⟩ :=
    adversary_ignorant_iff_sheltered hparse {} .byText (x := "Na") (by decide) hnonce
  obtain rfl := Option.some.inj (hv.symm.trans hw)
  have hkeyPlaces : ∀ m ∈ sealedNonce.messages, ∀ place ∈ m.body.value.places,
      place.1 = "Kab" → .key ∈ place.2 := by decide
  have hkeySecret : "Kab" ∉ v.knows :=
    hkeyIff.mpr fun m hm _ h => .inl (hkeyPlaces m hm _ h rfl)
  have hnoncePlaces : ∀ m ∈ sealedNonce.messages, ∀ place ∈ m.body.value.places,
      place.1 = "Na" → .digest ∈ place.2 ∨ 2 ≤ place.2.countP Layer.isPlaintext ∨
        .plaintext "Kab" ∈ place.2 := by decide
  refine ⟨hparse, hnonce, v, hv, hkeySecret, hnonceIff.mpr fun m hm path h => .inr ?_⟩
  rcases hnoncePlaces m hm _ h rfl with hdigest | hdeep | hsealed
  · exact .inl hdigest
  · exact .inr (.inl hdeep)
  · exact .inr (.inr ⟨"Kab", hsealed, fun hreads => hkeySecret hreads.1⟩)

end Protocol

end Wiretap
