import Wiretap.Proofs.LeastKnowledge
import Wiretap.Proofs.Parsing.Shape
import Wiretap.Proofs.Places

/-! Labels identify terms. The label of a term can be read back from any text that it starts: the
word in front ends where a parenthesis opens or where a mark stands that no word holds, and the
arguments are read one by one. So two terms with the same label are the same term, and whatever
stands in a knowledge set stands there for one term only. -/

namespace Wiretap

open Lexing

theorem Lexing.IsWord.isWord {text : String} (h : IsWord text) : Text.isWord text = true := by
  obtain ⟨c, hc, -⟩ := h.letter
  rw [Text.isWord, Bool.and_eq_true, List.all_eq_true]
  refine ⟨?_, h.inner⟩
  cases hchars : text.toList with
  | nil =>
    rw [hchars] at hc
    cases hc
  | cons => rfl

namespace Node

/-- Expressions over words, however they are nested. -/
inductive IsTerm : Node → Prop
  | ident {x : String} : Text.isWord x = true → IsTerm (.ident x)
  | concat {l r : Node} : IsTerm l → IsTerm r → IsTerm (.concat l r)
  | enc {k : String} {m : Node} : Text.isWord k = true → IsTerm m → IsTerm (.enc k m)
  | mac {k : String} {m : Node} : Text.isWord k = true → IsTerm m → IsTerm (.mac k m)
  | hash {m : Node} : IsTerm m → IsTerm (.hash m)
  | sign {k : String} {m : Node} : Text.isWord k = true → IsTerm m → IsTerm (.sign k m)
  | verify {k : String} {m s : Node} :
      Text.isWord k = true → IsTerm m → IsTerm s → IsTerm (.verify k m s)

/-- Terms, and terms with a word for their name. -/
inductive IsNamedTerm : Node → Prop
  | term {n : Node} : n.IsTerm → IsNamedTerm n
  | assign {t : String} {v : Node} : Text.isWord t = true → v.IsTerm → IsNamedTerm (.assign t v)

theorem IsTerm.isExpr {n : Node} (h : n.IsTerm) : n.IsExpr := by
  induction h with
  | ident => exact .ident _
  | concat _ _ ihl ihr => exact .concat ihl ihr
  | enc _ _ ih => exact .enc _ ih
  | mac _ _ ih => exact .mac _ ih
  | hash _ ih => exact .hash ih
  | sign _ _ ih => exact .sign _ ih
  | verify _ _ _ ihm ihs => exact .verify _ ihm ihs

theorem IsNamedTerm.label {n : Node} (h : n.IsNamedTerm) : n.label = .ok n.text := by
  cases h with
  | term h => exact h.isExpr.label
  | assign _ h => simp [Node.label, Node.isLabelled, h.isExpr.isLabelled]

/-! ### Reading labels -/

/-- What may stand behind a term inside a label: nothing that goes on with a word, and no opening
parenthesis. -/
def Follows (rest : List Char) : Prop :=
  ∀ c ∈ rest.head?, Text.isWordChar c = false ∧ c ≠ '('

theorem Follows.wordEnds {rest : List Char} (h : Follows rest) : WordEnds rest :=
  fun c hc => (h c hc).1

theorem follows_nil : Follows [] :=
  fun _ hc => nomatch hc

theorem follows_cons {c : Char} (h : Text.isWordChar c = false ∧ c ≠ '(') (cs : List Char) :
    Follows (c :: cs) := by
  intro x hx
  cases hx
  exact h

theorem wordEnds_cons {c : Char} (h : Text.isWordChar c = false) (cs : List Char) :
    WordEnds (c :: cs) := by
  intro x hx
  cases hx
  exact h

theorem run_unique {u v r s : List Char} (hu : ∀ c ∈ u, Text.isWordChar c = true)
    (hv : ∀ c ∈ v, Text.isWordChar c = true) (hr : WordEnds r) (hs : WordEnds s)
    (h : u ++ r = v ++ s) : u = v ∧ r = s := by
  have huv : u = v := by
    rw [← takeWhile_run hu hr, h, takeWhile_run hv hs]
  subst huv
  exact ⟨rfl, List.append_cancel_left h⟩

theorem isWordChar_of_isWord {x : String} (hx : Text.isWord x = true) :
    ∀ c ∈ x.toList, Text.isWordChar c = true := by
  rw [Text.isWord, Bool.and_eq_true] at hx
  exact List.all_eq_true.mp hx.2

theorem word_unique {x y : String} {r s : List Char} (hx : Text.isWord x = true)
    (hy : Text.isWord y = true) (hr : WordEnds r) (hs : WordEnds s)
    (h : x.toList ++ r = y.toList ++ s) : x = y ∧ r = s := by
  obtain ⟨hxy, hrs⟩ := run_unique (isWordChar_of_isWord hx) (isWordChar_of_isWord hy) hr hs h
  exact ⟨String.toList_inj.mp hxy, hrs⟩

/-- A term that is no name starts with a run of word characters and a parenthesis. -/
theorem IsTerm.exists_paren {n : Node} (h : n.IsTerm) (hn : ∀ x, n ≠ .ident x) :
    ∃ run more, n.text.toList = run ++ '(' :: more ∧ ∀ c ∈ run, Text.isWordChar c = true := by
  cases h with
  | ident => exact absurd rfl (hn _)
  | concat => exact ⟨[], _, by simp [text]; rfl, List.all_eq_true.mp (by decide)⟩
  | enc => exact ⟨['E', 'n', 'c'], _, by simp [text]; rfl, List.all_eq_true.mp (by decide)⟩
  | mac => exact ⟨['M', 'a', 'c'], _, by simp [text]; rfl, List.all_eq_true.mp (by decide)⟩
  | hash => exact ⟨['H', 'a', 's', 'h'], _, by simp [text]; rfl, List.all_eq_true.mp (by decide)⟩
  | sign => exact ⟨['S', 'i', 'g', 'n'], _, by simp [text]; rfl, List.all_eq_true.mp (by decide)⟩
  | verify => exact ⟨['V', 'r', 'f', 'y'], _, by simp [text]; rfl, List.all_eq_true.mp (by decide)⟩

theorem IsTerm.eq_ident_of_text {n : Node} (h : n.IsTerm) {x : String} (hx : Text.isWord x = true)
    {r s : List Char} (hr : Follows r) (hs : Follows s)
    (htext : n.text.toList ++ r = x.toList ++ s) : n = .ident x ∧ r = s := by
  by_cases hn : ∃ y, n = .ident y
  · obtain ⟨y, rfl⟩ := hn
    cases h with
    | ident hy =>
      obtain ⟨rfl, hrs⟩ := word_unique hy hx hr.wordEnds hs.wordEnds htext
      exact ⟨rfl, hrs⟩
  · obtain ⟨run, more, hparen, hrun⟩ := h.exists_paren (by simpa using hn)
    rw [hparen, List.append_assoc, List.cons_append] at htext
    obtain ⟨-, rfl⟩ := run_unique hrun (isWordChar_of_isWord hx) (wordEnds_cons (by decide) _)
      hs.wordEnds htext
    exact absurd rfl (hs _ rfl).2

/-- The term can be read back from any text that its label starts. -/
def Readable (m : Node) : Prop :=
  ∀ {n : Node} {r s : List Char}, n.IsTerm → Follows r → Follows s →
    m.text.toList ++ r = n.text.toList ++ s → m = n ∧ r = s

theorem follows_close (rest : List Char) : Follows (')' :: rest) :=
  follows_cons (by decide) rest

theorem readable_arguments {k k' : String} {m n : Node} {r s : List Char}
    (hk : Text.isWord k = true) (hk' : Text.isWord k' = true) (hm : m.Readable) (hn : n.IsTerm)
    (hr : Follows r) (hs : Follows s)
    (h : k.toList ++ ',' :: ' ' :: (m.text.toList ++ r) =
      k'.toList ++ ',' :: ' ' :: (n.text.toList ++ s)) :
    k = k' ∧ m = n ∧ r = s := by
  obtain ⟨rfl, htail⟩ :=
    word_unique hk hk' (wordEnds_cons (by decide) _) (wordEnds_cons (by decide) _) h
  simp only [List.cons.injEq, true_and] at htail
  exact ⟨rfl, hm hn hr hs htail⟩

theorem readable_keyed (front : String) {k k' : String} {m n : Node} {r s : List Char}
    (hk : Text.isWord k = true) (hk' : Text.isWord k' = true) (hm : m.Readable) (hn : n.IsTerm)
    (h : (front ++ k ++ ", " ++ m.text ++ ")").toList ++ r =
      (front ++ k' ++ ", " ++ n.text ++ ")").toList ++ s) :
    k = k' ∧ m = n ∧ r = s := by
  simp only [String.toList_append, String.reduceToList, List.append_assoc, List.cons_append,
    List.nil_append, List.append_cancel_left_eq] at h
  obtain ⟨rfl, rfl, htail⟩ :=
    readable_arguments hk hk' hm hn (follows_close _) (follows_close _) h
  exact ⟨rfl, rfl, (List.cons.inj htail).2⟩

theorem IsTerm.readable {m : Node} (hm : m.IsTerm) : m.Readable := by
  -- Two terms that are no names differ in their first characters unless their constructors agree.
  induction hm with
  | ident hx =>
    intro n r s hn hr hs h
    obtain ⟨rfl, rfl⟩ := hn.eq_ident_of_text hx hs hr h.symm
    exact ⟨rfl, rfl⟩
  | concat hl hr ihl ihr =>
    intro n u v hn hu hv h
    cases hn with
    | ident hx => exact nomatch ((hl.concat hr).eq_ident_of_text hx hu hv h).1
    | concat hl' hr' =>
      have hspace (rest : List Char) : Follows (' ' :: rest) := follows_cons (by decide) rest
      simp only [text, String.toList_append, String.reduceToList, List.append_assoc,
        List.cons_append, List.nil_append, List.cons.injEq, true_and] at h
      obtain ⟨rfl, hright⟩ := ihl hl' (hspace _) (hspace _) h
      simp only [List.cons.injEq, true_and] at hright
      obtain ⟨rfl, htail⟩ := ihr hr' (follows_close _) (follows_close _) hright
      exact ⟨rfl, (List.cons.inj htail).2⟩
    | _ => simp [text] at h
  | enc hk hm ih =>
    intro n r s hn hr hs h
    cases hn with
    | ident hx => exact nomatch ((hm.enc hk).eq_ident_of_text hx hr hs h).1
    | enc hk' hn =>
      obtain ⟨rfl, rfl, rfl⟩ := readable_keyed "Enc(" hk hk' ih hn h
      exact ⟨rfl, rfl⟩
    | _ => simp [text] at h
  | mac hk hm ih =>
    intro n r s hn hr hs h
    cases hn with
    | ident hx => exact nomatch ((hm.mac hk).eq_ident_of_text hx hr hs h).1
    | mac hk' hn =>
      obtain ⟨rfl, rfl, rfl⟩ := readable_keyed "Mac(" hk hk' ih hn h
      exact ⟨rfl, rfl⟩
    | _ => simp [text] at h
  | hash hm ih =>
    intro n r s hn hr hs h
    cases hn with
    | ident hx => exact nomatch (hm.hash.eq_ident_of_text hx hr hs h).1
    | hash hn =>
      simp only [text, String.toList_append, String.reduceToList, List.append_assoc,
        List.cons_append, List.nil_append, List.cons.injEq, true_and] at h
      obtain ⟨rfl, htail⟩ := ih hn (follows_close _) (follows_close _) h
      exact ⟨rfl, (List.cons.inj htail).2⟩
    | _ => simp [text] at h
  | sign hk hm ih =>
    intro n r s hn hr hs h
    cases hn with
    | ident hx => exact nomatch ((hm.sign hk).eq_ident_of_text hx hr hs h).1
    | sign hk' hn =>
      obtain ⟨rfl, rfl, rfl⟩ := readable_keyed "Sign(" hk hk' ih hn h
      exact ⟨rfl, rfl⟩
    | _ => simp [text] at h
  | verify hk hm hs ihm ihs =>
    intro n u v hn hu hv h
    cases hn with
    | ident hx => exact nomatch ((hm.verify hk hs).eq_ident_of_text hx hu hv h).1
    | verify hk' hm' hs' =>
      have hcomma (rest : List Char) : Follows (',' :: rest) := follows_cons (by decide) rest
      simp only [text, String.toList_append, String.reduceToList, List.append_assoc,
        List.cons_append, List.nil_append, List.cons.injEq, true_and] at h
      obtain ⟨rfl, rfl, hsignature⟩ := readable_arguments hk hk' ihm hm' (hcomma _) (hcomma _) h
      simp only [List.cons.injEq, true_and] at hsignature
      obtain ⟨rfl, htail⟩ := ihs hs' (follows_close _) (follows_close _) hsignature
      exact ⟨rfl, (List.cons.inj htail).2⟩
    | _ => simp [text] at h

theorem IsTerm.text_ne_assign {n v : Node} {t : String} (hn : n.IsTerm)
    (ht : Text.isWord t = true) : n.text ≠ (assign t v).text := by
  intro h
  have hspace (rest : List Char) : WordEnds (' ' :: rest) := wordEnds_cons (by decide) rest
  have hchars : n.text.toList = t.toList ++ ' ' :: '=' :: ' ' :: v.text.toList := by
    rw [h]
    simp [text]
  by_cases hident : ∃ x, n = .ident x
  · obtain ⟨x, rfl⟩ := hident
    cases hn with
    | ident hx =>
      have hword : x.toList ++ [] = t.toList ++ ' ' :: '=' :: ' ' :: v.text.toList := by
        rw [List.append_nil]
        exact hchars
      exact nomatch (word_unique hx ht follows_nil.wordEnds (hspace _) hword).2
  · obtain ⟨run, more, hparen, hrun⟩ := hn.exists_paren (by simpa using hident)
    rw [hparen] at hchars
    have htail := (run_unique hrun (isWordChar_of_isWord ht) (wordEnds_cons (by decide) _)
      (hspace _) hchars).2
    simp at htail

/-- Labels identify terms, with or without a name. -/
theorem IsNamedTerm.eq_of_text {m n : Node} (hm : m.IsNamedTerm) (hn : n.IsNamedTerm)
    (h : m.text = n.text) : m = n := by
  have hterms {m n : Node} (hm : m.IsTerm) (hn : n.IsTerm) (h : m.text = n.text) : m = n :=
    (hm.readable hn follows_nil follows_nil (by rw [h])).1
  cases hm with
  | term hm =>
    cases hn with
    | term hn => exact hterms hm hn h
    | assign ht _ => exact absurd h (hm.text_ne_assign ht)
  | @assign t v ht hv =>
    cases hn with
    | term hn => exact absurd h.symm (hn.text_ne_assign ht)
    | @assign t' v' ht' hv' =>
      have hspace (rest : List Char) : WordEnds (' ' :: rest) := wordEnds_cons (by decide) rest
      have hchars : t.toList ++ ' ' :: '=' :: ' ' :: v.text.toList =
          t'.toList ++ ' ' :: '=' :: ' ' :: v'.text.toList := by
        simpa [text] using congrArg String.toList h
      obtain ⟨rfl, htail⟩ := word_unique ht ht' (hspace _) (hspace _) hchars
      simp only [List.cons.injEq, true_and, String.toList_inj] at htail
      rw [hterms hv hv' htail]

/-! ### Parts of statements -/

theorem IsTerm.of_mem_children {n : Node} (h : n.IsTerm) : ∀ child ∈ n.children, child.IsTerm := by
  cases h with
  | ident => simp [children]
  | concat hl hr => simp [children, hl, hr]
  | enc hk hm | mac hk hm | sign hk hm => simp [children, hm, IsTerm.ident hk]
  | hash hm => simp [children, hm]
  | verify hk hm hs => simp [children, hm, hs, IsTerm.ident hk]

theorem IsNamedTerm.of_mem_children {n : Node} (h : n.IsNamedTerm) :
    ∀ child ∈ n.children, child.IsNamedTerm := by
  cases h with
  | term h => exact fun child hchild => .term (h.of_mem_children child hchild)
  | assign ht hv => simp [children, IsNamedTerm.term hv, IsNamedTerm.term (.ident ht)]

theorem IsNamedTerm.of_mem_preorder {n x : Node} (h : n.IsNamedTerm) (hx : x ∈ n.preorder) :
    x.IsNamedTerm :=
  forall_mem_preorder (fun _ hn => hn.of_mem_children) h x hx

theorem Shows.preorder_subset {n x : Node} (h : n.Shows x) : x.preorder ⊆ n.preorder := by
  induction h with
  | self => exact List.Subset.refl _
  | left _ ih => exact List.Subset.trans ih (preorder_subset_of_mem_children (by simp [children]))
  | right _ ih => exact List.Subset.trans ih (preorder_subset_of_mem_children (by simp [children]))

theorem preorder_plaintext_subset (k : String) (m : Node) : m.preorder ⊆ (enc k m).preorder :=
  preorder_subset_of_mem_children (by simp [children])

theorem preorder_value_subset (n : Node) : n.value.preorder ⊆ n.preorder := by
  cases n with
  | assign t v => exact preorder_subset_of_mem_children (by simp [children, value])
  | _ => exact List.Subset.refl _

theorem WellShaped.isTerm {n : Node} (h : n.WellShaped) : n.IsTerm := by
  induction h with
  | ident hx => exact .ident hx.toIsWord.isWord
  | concat _ _ _ ihl ihr => exact .concat ihl ihr
  | enc hk _ ih => exact .enc hk.toIsWord.isWord ih
  | mac hk _ ih => exact .mac hk.toIsWord.isWord ih
  | hash _ ih => exact .hash ih
  | sign hk _ ih => exact .sign hk.toIsWord.isWord ih
  | verify hk _ _ ihm ihs => exact .verify hk.toIsWord.isWord ihm ihs

theorem WellShapedBody.isNamedTerm {n : Node} (h : n.WellShapedBody) : n.IsNamedTerm := by
  cases h with
  | expr h => exact .term h.isTerm
  | assign ht hv => exact .assign ht.toIsWord.isWord hv.isTerm

end Node

/-! ### Terms of protocols -/

theorem Message.Hands.preorder_subset {m : Message} {who : String} {c : Ciphertext}
    (h : m.Hands who c) : (Node.enc c.key c.plaintext).preorder ⊆ m.body.preorder :=
  List.Subset.trans h.2.preorder_subset (Node.preorder_value_subset m.body)

namespace Protocol

variable {p : Protocol} {naming : Naming} {who : String} {v : View}

/-- The terms of a protocol: the keys and nonces that it declares, and whatever stands in its
messages. -/
inductive HasTerm (p : Protocol) : Node → Prop
  | key {d : KeyDecl} : d ∈ p.keys → HasTerm p (.ident d.name)
  | nonce {d : NonceDecl} : d ∈ p.nonces → HasTerm p (.ident d.name)
  | part {m : Message} {x : Node} : m ∈ p.messages → x ∈ m.body.preorder → HasTerm p x

theorem HasTerm.isNamedTerm {x : Node} (h : p.HasTerm x) (hp : p.WellShaped) : x.IsNamedTerm := by
  cases h with
  | key hd => exact .term (.ident (hp.keys _ hd).name.isWord)
  | nonce hd => exact .term (.ident (hp.nonces _ hd).name.isWord)
  | part hm hx => exact (hp.messages _ hm).body.isNamedTerm.of_mem_preorder hx

theorem hasTerm_of_hands {c : Ciphertext} (h : ∃ m ∈ p.messages, m.Hands who c) :
    ∀ x ∈ (Node.enc c.key c.plaintext).preorder, p.HasTerm x := by
  obtain ⟨m, hm, hhands⟩ := h
  exact fun x hx => .part hm (hhands.preorder_subset hx)

/-- The terms that a principal comes across: the keys and nonces that it is granted, and the
expressions that stand in the messages that it sees. -/
inductive Meets (p : Protocol) (who : String) : Node → Prop
  | granted {x : String} : p.Grants who x → Meets p who (.ident x)
  | seen {m : Message} {x : Node} :
      m ∈ p.messages → m.SeenBy who → x ∈ m.body.preorder → x.IsExpr → Meets p who x

theorem Meets.hasTerm {x : Node} (h : p.Meets who x) : p.HasTerm x := by
  cases h with
  | granted hgrants =>
    cases hgrants with
    | publicKey hd _ => exact .key hd
    | key hd _ => exact .key hd
    | nonce hd _ => exact .nonce hd
  | seen hm _ hx _ => exact .part hm hx

theorem meets_of_basis (hp : ∀ m ∈ p.messages, m.body.IsStatement) {t : String}
    (h : t ∈ p.basis who) : ∃ x, p.Meets who x ∧ x.text = t := by
  rcases h with hgrants | ⟨m, hm, htells⟩
  · exact ⟨_, .granted hgrants, rfl⟩
  · rcases htells with ⟨hseen, ⟨v, hassign⟩ | ⟨x, hshows, -, rfl⟩⟩ | ⟨rfl, hmentions⟩
    · have hmem : .ident t ∈ m.body.preorder := by
        rw [hassign]
        simp [Node.preorder, Node.outline]
      exact ⟨.ident t, .seen hm hseen hmem (.ident t), rfl⟩
    · have hvalue := Node.isStatement_iff.mp (hp m hm)
      have hmem := hshows.preorder_subset x.mem_preorder_self
      exact ⟨x, .seen hm hseen (Node.preorder_value_subset _ hmem) (hshows.isExpr hvalue), rfl⟩
    · exact ⟨.ident t, .seen hm (.inl rfl) hmentions (.ident t), rfl⟩

/-- Every entry of a knowledge set is the label of a term that the principal came across: the set
of these labels holds the basis, and it is closed under opening. -/
theorem Leaves.meets (hp : ∀ m ∈ p.messages, m.body.IsStatement) (hv : p.Leaves naming who v)
    {t : String} (ht : t ∈ v.knows) : ∃ x, p.Meets who x ∧ x.text = t := by
  refine hv.least.2 ⟨fun s hs => meets_of_basis hp hs, ?_⟩ ht
  intro c hc _ _ x hleaf
  obtain ⟨m, hm, hhands⟩ := (hv.pending c).mp hc
  have hplaintext := hhands.isExpr (hp m hm)
  have hmem := Node.preorder_plaintext_subset c.key _
    (hleaf.1.preorder_subset x.mem_preorder_self)
  exact ⟨x, .seen hm hhands.1 (hhands.preorder_subset hmem) (hleaf.1.isExpr hplaintext), rfl⟩

theorem Leaves.hasTerm (hp : ∀ m ∈ p.messages, m.body.IsStatement) (hv : p.Leaves naming who v)
    {t : String} (ht : t ∈ v.knows) : ∃ x, p.HasTerm x ∧ x.text = t := by
  obtain ⟨x, hx, rfl⟩ := hv.meets hp ht
  exact ⟨x, hx.hasTerm, rfl⟩

/-- Labels identify terms, however they are nested. So the entries of the knowledge sets of parsed
protocols stand for one term each, and the ciphertexts that principals have seen differ in their
labels. -/
theorem label_identifies :
    (∀ m n : Node, m.IsNamedTerm → n.IsNamedTerm → m.label = n.label → m = n) ∧
    ∀ source p, parse source = .ok p → ∀ source' q, parse source' = .ok q →
      (∀ x y, p.HasTerm x → q.HasTerm y → x.label = y.label → x = y) ∧
      ∀ naming schedule, ∀ v ∈ (p.derive naming schedule).state.views,
        (∀ t ∈ v.knows, ∃ x, p.HasTerm x ∧ x.label = .ok t ∧
          ∀ y, q.HasTerm y → y.label = .ok t → y = x) ∧
        ∀ naming' schedule', ∀ w ∈ (q.derive naming' schedule').state.views,
          ∀ c ∈ v.pending, ∀ d ∈ w.pending, c.label = d.label → c = d := by
  have hlabels (m n : Node) (hm : m.IsNamedTerm) (hn : n.IsNamedTerm) (h : m.label = n.label) :
      m = n := by
    rw [hm.label, hn.label] at h
    exact hm.eq_of_text hn (Except.ok.inj h)
  refine ⟨hlabels, fun source p hparse source' q hparse' => ?_⟩
  have hp := wellShaped_of_parse hparse
  have hq := wellShaped_of_parse hparse'
  have hterms (x y : Node) (hx : p.HasTerm x) (hy : q.HasTerm y) (h : x.label = y.label) : x = y :=
    hlabels x y (hx.isNamedTerm hp) (hy.isNamedTerm hq) h
  have hbodies := isStatement_of_parse hparse
  have hbodies' := isStatement_of_parse hparse'
  refine ⟨hterms, fun naming schedule v hv => ?_⟩
  obtain ⟨who, -, leaves⟩ := forall₂_mem_right (derive_leaves p naming schedule hbodies) hv
  constructor
  · intro t ht
    obtain ⟨x, hx, rfl⟩ := leaves.hasTerm hbodies ht
    have hlabel := (hx.isNamedTerm hp).label
    exact ⟨x, hx, hlabel, fun y hy h => (hterms x y hx hy (hlabel.trans h.symm)).symm⟩
  · rintro naming' schedule' w hw ⟨k, n⟩ hc ⟨k', n'⟩ hd h
    obtain ⟨who', -, leaves'⟩ :=
      forall₂_mem_right (derive_leaves q naming' schedule' hbodies') hw
    have hx := hasTerm_of_hands ((leaves.pending _).mp hc) _ (Node.mem_preorder_self _)
    have hy := hasTerm_of_hands ((leaves'.pending _).mp hd) _ (Node.mem_preorder_self _)
    cases hterms _ _ hx hy h
    rfl

/-- Concatenations in a plaintext and around a ciphertext. -/
def sealedPair : Protocol where
  roles := ["A", "B"]
  keys := [⟨.shared, "k", ["A", "B"]⟩]
  messages := [⟨"A", "B", .enc "k" (.concat (.ident "x") (.ident "y"))⟩,
    ⟨"A", "B", .concat (.enc "k" (.ident "x")) (.ident "y")⟩]

theorem label_identifies_sealedPair :
    (Node.concat (.concat (.ident "x") (.ident "y")) (.ident "z")).label ≠
      (Node.concat (.ident "x") (.concat (.ident "y") (.ident "z"))).label ∧
    ∃ v ∈ (sealedPair.derive {} .byText).state.views,
      "(Enc(k, x) || y)" ∈ v.knows ∧
      ⟨"k", .concat (.ident "x") (.ident "y")⟩ ∈ v.pending ∧ ⟨"k", .ident "x"⟩ ∈ v.pending ∧
      (∀ t ∈ v.knows, ∃ x, sealedPair.HasTerm x ∧ x.label = .ok t ∧
        ∀ y, sealedPair.HasTerm y → y.label = .ok t → y = x) ∧
      ∀ c ∈ v.pending, ∀ d ∈ v.pending, c.label = d.label → c = d := by
  have hparse : parse ("roles: A, B shared key k: A, B " ++
      "A -> B: Enc(k, x || y) A -> B: Enc(k, x) || y") = .ok sealedPair := by decide +kernel
  constructor
  · intro h
    have hx : (Node.ident "x").IsTerm := .ident (by decide)
    have hy : (Node.ident "y").IsTerm := .ident (by decide)
    have hz : (Node.ident "z").IsTerm := .ident (by decide)
    cases label_identifies.1 _ _ (.term ((hx.concat hy).concat hz))
      (.term (hx.concat (hy.concat hz))) h
  · have hrole : "B" ∈ sealedPair.roles ∨ "B" = adversary := .inl (by decide)
    obtain ⟨v, hview, leaves⟩ :=
      view?_derive sealedPair {} .byText (isStatement_of_parse hparse) hrole
    have hv := List.mem_of_find?_eq_some hview
    have hpair := (label_identifies.2 _ _ hparse _ _ hparse).2 {} .byText v hv
    have first : ⟨"k", .concat (.ident "x") (.ident "y")⟩ ∈ v.pending :=
      (leaves.pending _).mpr ⟨_, List.mem_cons_self, .inr (.inl rfl), .self _⟩
    have second : ⟨"k", .ident "x"⟩ ∈ v.pending := (leaves.pending _).mpr
      ⟨_, List.mem_cons_of_mem _ List.mem_cons_self, .inr (.inl rfl), .left (.self _)⟩
    have hentry : "(Enc(k, x) || y)" ∈ v.knows := leaves.least.1.1
      (.inr ⟨_, List.mem_cons_of_mem _ List.mem_cons_self,
        .inl ⟨.inr (.inl rfl), .inr ⟨_, .self _, rfl, rfl⟩⟩⟩)
    exact ⟨v, hv, hentry, first, second, hpair.1, hpair.2 {} .byText v hv⟩

end Protocol

end Wiretap
