import Wiretap.Proofs.Labels

/-! What sending and decrypting disclose. An expression that is sent shows its concatenations and
their operands, and keeps its ciphertexts closed; an expression that is decrypted is taken apart
into its leaves, and its ciphertexts are learned by their labels. The two differ in nothing else, so
the same names are disclosed in both ways, and its author holds them all. -/

namespace Wiretap.Node

variable {e x : Node} {t : String}

/-- The labels of the shown trees with a property. -/
def shownLabels (p : Node → Bool) (e : Node) : Set String :=
  {t | ∃ x, e.Shows x ∧ p x = true ∧ x.label = .ok t}

theorem Shows.isNamedTerm (h : e.Shows x) (he : e.IsTerm) : x.IsNamedTerm :=
  (IsNamedTerm.term he).of_mem_preorder (h.preorder_subset x.mem_preorder_self)

theorem mem_shownLabels {p : Node → Bool} (he : e.IsTerm) :
    t ∈ e.shownLabels p ↔ ∃ x, e.Shows x ∧ p x = true ∧ x.text = t := by
  constructor
  · rintro ⟨x, hx, hp, hlabel⟩
    rw [(hx.isNamedTerm he).label] at hlabel
    exact ⟨x, hx, hp, Except.ok.inj hlabel⟩
  · rintro ⟨x, hx, hp, rfl⟩
    exact ⟨x, hx, hp, (hx.isNamedTerm he).label⟩

theorem isConcat_of_isEnc (h : x.isEnc = true) : x.isConcat = false := by
  cases x with
  | enc => rfl
  | _ => cases h

/-- No leaf has the label of a concatenation, so a leaf that is no ciphertext stays when the labels
of the concatenations are taken away. -/
theorem leaf_text_iff {w : Wire} (he : e.IsTerm) (hw : e.SeenAs w) :
    (∃ x, e.Leaf x ∧ x.text = t) ↔
      (t ∈ w.visible ∧ t ∉ e.shownLabels isConcat) ∨ t ∈ e.shownLabels isEnc := by
  rw [hw.visible, mem_shownLabels he, mem_shownLabels he]
  constructor
  · rintro ⟨x, ⟨hx, hleaf⟩, rfl⟩
    by_cases henc : x.isEnc = true
    · exact .inr ⟨x, hx, henc, rfl⟩
    · refine .inl ⟨⟨x, hx, Bool.eq_false_iff.mpr henc, rfl⟩, ?_⟩
      rintro ⟨y, hy, hjoin, htext⟩
      have hyx : y = x := (hy.isNamedTerm he).eq_of_text (hx.isNamedTerm he) htext
      rw [hyx, hleaf] at hjoin
      cases hjoin
  · rintro (⟨⟨x, hx, -, rfl⟩, hjoin⟩ | ⟨x, hx, henc, rfl⟩)
    · refine ⟨x, ⟨hx, ?_⟩, rfl⟩
      rw [← Bool.not_eq_true]
      exact fun hc => hjoin ⟨x, hx, hc, rfl⟩
    · exact ⟨x, ⟨hx, isConcat_of_isEnc henc⟩, rfl⟩

/-- Only an identifier has a word for its label. -/
theorem Shows.eq_ident (h : e.Shows x) (he : e.IsTerm) (hword : Text.isWord x.text = true) :
    x = .ident x.text :=
  (h.isNamedTerm he).eq_of_text (.term (.ident hword)) rfl

theorem visible_word_iff {w : Wire} (he : e.IsTerm) (hw : e.SeenAs w)
    (hword : Text.isWord t = true) : t ∈ w.visible ↔ .ident t ∈ e.spine := by
  rw [hw.visible, mem_spine]
  constructor
  · rintro ⟨x, hx, -, rfl⟩
    have hident := hx.eq_ident he hword
    exact ⟨hident ▸ hx, rfl⟩
  · rintro ⟨hx, -⟩
    exact ⟨_, hx, rfl, rfl⟩

theorem leaf_word_iff (he : e.IsTerm) (hword : Text.isWord t = true) :
    (∃ x, e.Leaf x ∧ x.text = t) ↔ .ident t ∈ e.spine := by
  rw [mem_spine]
  constructor
  · rintro ⟨x, ⟨hx, -⟩, rfl⟩
    have hident := hx.eq_ident he hword
    exact ⟨hident ▸ hx, rfl⟩
  · exact fun hleaf => ⟨_, hleaf, rfl⟩

/-- Sending an expression and decrypting it disclose the same names, and its author holds them,
since that is all names in it. What is learned by decrypting it is what is seen when it is sent,
without the labels of concatenations and with the labels of the ciphertexts, which an observer keeps
for later. -/
theorem decrypting_discloses_sent (he : e.IsTerm) :
    ∃ w names, e.wire = .ok w ∧ e.author = .ok names ∧
      (∀ known, (e.unwrap known).fault = none ∧
        {t | t ∈ (e.unwrap known).known} = {t | t ∈ known} ∪
          (({t | t ∈ w.visible} \ e.shownLabels isConcat) ∪ e.shownLabels isEnc) ∧
        ∀ x, Text.isWord x = true →
          (x ∈ (e.unwrap known).known ↔ x ∈ known ∨ x ∈ w.visible)) ∧
      (∀ c : Ciphertext, c ∈ w.ciphertexts ↔ .enc c.key c.plaintext ∈ e.spine) ∧
      (∀ x, Text.isWord x = true → x ∈ w.visible → x ∈ names) ∧
      ∀ x, x ∈ names ↔ e.Mentions x := by
  obtain ⟨w, hwire, seen⟩ := he.isExpr.wire
  obtain ⟨names, hauthor, hnames⟩ := he.isExpr.author
  refine ⟨w, names, hwire, hauthor, fun known => ?_, fun c => ?_, fun x hword hx => ?_, hnames 0⟩
  · obtain ⟨hfault, hknown, -⟩ := he.isExpr.unwrap known
    refine ⟨hfault, Set.ext fun t => ?_, fun x hword => ?_⟩
    · exact (hknown t).trans (or_congr_right (leaf_text_iff he seen))
    · rw [hknown, leaf_word_iff he hword, visible_word_iff he seen hword]
  · rw [seen.ciphertexts, mem_spine]
    exact ⟨fun h => ⟨h, rfl⟩, fun h => h.1⟩
  · have hshows := (mem_spine.mp ((visible_word_iff he seen hword).mp hx)).1
    exact (hnames 0 x).mpr (hshows.preorder_subset (mem_preorder_self _))

/-- A name beside a ciphertext that holds it too, beside a digest. -/
def besideSealed : Node :=
  .concat (.concat (.ident "a") (.enc "k" (.concat (.ident "b") (.ident "a"))))
    (.hash (.ident "c"))

theorem decrypting_discloses_sent_besideSealed :
    besideSealed.IsTerm ∧ ∃ w names, besideSealed.wire = .ok w ∧
      besideSealed.author = .ok names ∧
      "(a || Enc(k, (b || a)))" ∈ w.visible ∧ "a" ∈ w.visible ∧
      ⟨"k", .concat (.ident "b") (.ident "a")⟩ ∈ w.ciphertexts ∧
      (∀ x, Text.isWord x = true →
        (x ∈ (besideSealed.unwrap ∅).known ↔ x ∈ (∅ : Terms) ∨ x ∈ w.visible)) ∧
      "(a || Enc(k, (b || a)))" ∉ (besideSealed.unwrap ∅).known ∧
      "Enc(k, (b || a))" ∈ (besideSealed.unwrap ∅).known ∧
      "b" ∉ (besideSealed.unwrap ∅).known ∧ "b" ∈ names := by
  have hterm : besideSealed.IsTerm :=
    .concat (.concat (.ident (by decide))
      (.enc (by decide) (.concat (.ident (by decide)) (.ident (by decide)))))
      (.hash (.ident (by decide)))
  obtain ⟨w, names, hwire, hauthor, hopened, hpending, hheld, hnames⟩ :=
    decrypting_discloses_sent hterm
  refine ⟨hterm, w, names, hwire, hauthor, ?_, ?_, ?_, (hopened ∅).2.2, ?_, ?_, ?_, ?_⟩
  · cases hwire
    decide
  · cases hwire
    decide
  · exact (hpending _).mpr (by decide)
  · decide
  · decide
  · decide
  · have hplace : .ident "b" ∈ besideSealed.preorder := by decide
    exact (hnames _).mpr hplace

end Wiretap.Node
