import Wiretap.Proofs.JsonValues
import Wiretap.Proofs.Lines
import Wiretap.Proofs.Parsing.RoundTrip
import Wiretap.Proofs.Success
import Wiretap.Protocol.Summary

/-! What the dumps of a protocol show. A dump of the tree has a line for every node, in the order of
the places in the tree, and the lines right below the root are the labels of the declarations and
messages. A declaration or message can be read back from its label: the word in front and the mark
after it tell the sort, and the rest is read word by word. So two protocols with the same dump are
the same protocol. -/

namespace Wiretap

open Lexing Text

/-! ### Labels of declarations and messages -/

namespace Node

/-- The text is a word with `tail` after it, which does not go on with the word. -/
structure Opens (label word : String) (tail : List Char) : Prop where
  chars : label.toList = word.toList ++ tail
  isWord : Text.isWord word = true
  ends : WordEnds tail

theorem Opens.unique {label word word' : String} {tail tail' : List Char}
    (h : Opens label word tail) (h' : Opens label word' tail') : word = word' ∧ tail = tail' :=
  word_unique h.isWord h'.isWord h.ends h'.ends (h.chars.symm.trans h'.chars)

theorem opens_roles (names : List String) :
    Opens (roles names).text "roles" (':' :: ' ' :: (", ".intercalate names).toList) :=
  ⟨by simp [text, rolesLabel], by decide, wordEnds_cons (by decide) _⟩

theorem opens_key (d : KeyDecl) : Opens (key d).text d.kind.word
    (' ' :: 'k' :: 'e' :: 'y' :: ' ' ::
      (d.name.toList ++ ':' :: ' ' :: (", ".intercalate d.owners).toList)) :=
  ⟨by simp [text, KeyDecl.label], by cases d.kind <;> decide, wordEnds_cons (by decide) _⟩

theorem opens_nonce (d : NonceDecl) : Opens (nonce d).text "nonce"
    (' ' :: (d.name.toList ++ ':' :: ' ' :: d.owner.toList)) :=
  ⟨by simp [text, NonceDecl.label], by decide, wordEnds_cons (by decide) _⟩

theorem opens_send {sender : String} (h : Text.isWord sender = true) (receiver : String)
    (body : Node) : Opens (send sender receiver body).text sender
      (' ' :: '-' :: '>' :: ' ' :: (receiver.toList ++ ':' :: ' ' :: body.text.toList)) :=
  ⟨by simp [text], h, wordEnds_cons (by decide) _⟩

/-- A word with a colon after it ends at the colon. -/
theorem titled_unique {x y : String} {u v : List Char} (hx : Text.isWord x = true)
    (hy : Text.isWord y = true)
    (h : x.toList ++ ':' :: ' ' :: u = y.toList ++ ':' :: ' ' :: v) : x = y ∧ u = v := by
  obtain ⟨hxy, htail⟩ :=
    word_unique hx hy (wordEnds_cons (by decide) _) (wordEnds_cons (by decide) _) h
  simp only [List.cons.injEq, true_and] at htail
  exact ⟨hxy, htail⟩

theorem exists_cons_of_isWord {x : String} (hx : Text.isWord x = true) :
    ∃ c cs, x.toList = c :: cs ∧ Text.isWordChar c = true := by
  cases hchars : x.toList with
  | nil => simp [Text.isWord, hchars] at hx
  | cons c cs => exact ⟨c, cs, rfl, isWordChar_of_isWord hx c (by simp [hchars])⟩

/-- The names of an enumeration after the first one, each with a comma in front. -/
def furtherNames (names : List String) : List Char :=
  names.flatMap fun x => ',' :: ' ' :: x.toList

theorem toList_intercalate_names (x : String) (xs : List String) :
    (", ".intercalate (x :: xs)).toList = x.toList ++ furtherNames xs := by
  induction xs generalizing x with
  | nil => simp [furtherNames]
  | cons y ys ih => simp [String.intercalate_cons_cons, ih, furtherNames]

theorem wordEnds_furtherNames (names : List String) : WordEnds (furtherNames names) := by
  cases names with
  | nil => exact follows_nil.wordEnds
  | cons x xs => exact wordEnds_cons (by decide) _

theorem furtherNames_unique {xs ys : List String} (hxs : ∀ x ∈ xs, Text.isWord x = true)
    (hys : ∀ y ∈ ys, Text.isWord y = true) (h : furtherNames xs = furtherNames ys) : xs = ys := by
  induction xs generalizing ys with
  | nil =>
    cases ys with
    | nil => rfl
    | cons y ys => cases h
  | cons x xs ih =>
    cases ys with
    | nil => cases h
    | cons y ys =>
      rw [List.forall_mem_cons] at hxs hys
      have htail : x.toList ++ furtherNames xs = y.toList ++ furtherNames ys := by
        simpa [furtherNames] using h
      obtain ⟨rfl, hrest⟩ := word_unique hxs.1 hys.1 (wordEnds_furtherNames xs)
        (wordEnds_furtherNames ys) htail
      rw [ih hxs.2 hys.2 hrest]

/-- An enumeration of words is read word by word. -/
theorem names_unique {xs ys : List String} (hxs : ∀ x ∈ xs, Text.isWord x = true)
    (hys : ∀ y ∈ ys, Text.isWord y = true)
    (h : (", ".intercalate xs).toList = (", ".intercalate ys).toList) : xs = ys := by
  have hempty {z : String} {zs : List String} (hz : ∀ x ∈ z :: zs, Text.isWord x = true) :
      (", ".intercalate (z :: zs)).toList ≠ [] := by
    obtain ⟨c, cs, hchars, -⟩ := exists_cons_of_isWord (hz z List.mem_cons_self)
    rw [toList_intercalate_names, hchars]
    exact List.cons_ne_nil c _
  cases xs with
  | nil =>
    cases ys with
    | nil => rfl
    | cons y ys => exact absurd h.symm (hempty hys)
  | cons x xs =>
    cases ys with
    | nil => exact absurd h (hempty hxs)
    | cons y ys =>
      refine furtherNames_unique hxs hys ?_
      show ',' :: ' ' :: (x.toList ++ furtherNames xs) = ',' :: ' ' :: (y.toList ++ furtherNames ys)
      rw [← toList_intercalate_names, ← toList_intercalate_names, h]

/-- What stands right below the root of a protocol. -/
inductive IsPart : Node → Prop
  | roles {names : List String} : (∀ x ∈ names, Text.isWord x = true) → IsPart (.roles names)
  | key {d : KeyDecl} : Text.isWord d.name = true → (∀ x ∈ d.owners, Text.isWord x = true) →
      IsPart (.key d)
  | nonce {d : NonceDecl} : Text.isWord d.name = true → Text.isWord d.owner = true →
      IsPart (.nonce d)
  | send {sender receiver : String} {body : Node} : Text.isWord sender = true →
      Text.isWord receiver = true → body.IsNamedTerm → IsPart (.send sender receiver body)

theorem keyWord_injective {k k' : KeyKind} : k.word = k'.word → k = k' := by
  cases k <;> cases k' <;> decide

theorem word_ne_nonce (k : KeyKind) : k.word ≠ "nonce" := by
  cases k <;> decide

theorem key_unique {d d' : KeyDecl} (hname : Text.isWord d.name = true)
    (hname' : Text.isWord d'.name = true) (howners : ∀ x ∈ d.owners, Text.isWord x = true)
    (howners' : ∀ x ∈ d'.owners, Text.isWord x = true) (h : (key d).text = (key d').text) :
    d = d' := by
  have hopens := opens_key d
  rw [h] at hopens
  obtain ⟨hkind, htail⟩ := hopens.unique (opens_key d')
  simp only [List.cons.injEq, true_and] at htail
  obtain ⟨hnames, htail⟩ := titled_unique hname hname' htail
  have howned := names_unique howners howners' htail
  have hkind := keyWord_injective hkind
  cases d
  cases d'
  simp_all

theorem nonce_unique {d d' : NonceDecl} (hname : Text.isWord d.name = true)
    (hname' : Text.isWord d'.name = true) (h : (nonce d).text = (nonce d').text) : d = d' := by
  have hopens := opens_nonce d
  rw [h] at hopens
  have htail := (hopens.unique (opens_nonce d')).2
  simp only [List.cons.injEq, true_and] at htail
  obtain ⟨hnames, howners⟩ := titled_unique hname hname' htail
  have howners := String.toList_inj.mp howners
  cases d
  cases d'
  simp_all

theorem send_unique {s s' r r' : String} {b b' : Node} (hs : Text.isWord s = true)
    (hs' : Text.isWord s' = true) (hr : Text.isWord r = true) (hr' : Text.isWord r' = true)
    (hb : b.IsNamedTerm) (hb' : b'.IsNamedTerm) (h : (send s r b).text = (send s' r' b').text) :
    send s r b = send s' r' b' := by
  have hopens := opens_send hs r b
  rw [h] at hopens
  obtain ⟨rfl, htail⟩ := hopens.unique (opens_send hs' r' b')
  simp only [List.cons.injEq, true_and] at htail
  obtain ⟨rfl, hbody⟩ := titled_unique hr hr' htail
  rw [hb.eq_of_text hb' (String.toList_inj.mp hbody)]

theorem nonce_text_ne_send {d : NonceDecl} {s r : String} {b : Node}
    (hname : Text.isWord d.name = true) (hs : Text.isWord s = true) :
    (nonce d).text ≠ (send s r b).text := by
  intro h
  have hopens := opens_nonce d
  rw [h] at hopens
  -- After the word a nonce goes on with its name, which no dash can start.
  have htail := (hopens.unique (opens_send hs r b)).2
  obtain ⟨c, cs, hchars, hc⟩ := exists_cons_of_isWord hname
  rw [hchars] at htail
  simp only [List.cons_append, List.cons.injEq, true_and] at htail
  rw [htail.1] at hc
  exact absurd hc (by decide)

theorem IsPart.eq_of_text {m n : Node} (hm : m.IsPart) (hn : n.IsPart) (h : m.text = n.text) :
    m = n := by
  cases hm with
  | @roles names hnames =>
    have hopens := opens_roles names
    rw [h] at hopens
    cases hn with
    | @roles names' hnames' =>
      have htail := (hopens.unique (opens_roles names')).2
      simp only [List.cons.injEq, true_and] at htail
      rw [names_unique hnames hnames' htail]
    | @key d => exact nomatch (hopens.unique (opens_key d)).2
    | @nonce d => exact nomatch (hopens.unique (opens_nonce d)).2
    | send hs => exact nomatch (hopens.unique (opens_send hs _ _)).2
  | @key d hname howners =>
    have hopens := opens_key d
    cases hn with
    | @roles names => exact nomatch ((h ▸ hopens).unique (opens_roles names)).2
    | key hname' howners' => rw [key_unique hname hname' howners howners' h]
    | @nonce d' => exact absurd ((h ▸ hopens).unique (opens_nonce d')).1 (word_ne_nonce _)
    | send hs => exact nomatch ((h ▸ hopens).unique (opens_send hs _ _)).2
  | @nonce d hname howner =>
    have hopens := opens_nonce d
    cases hn with
    | @roles names => exact nomatch ((h ▸ hopens).unique (opens_roles names)).2
    | @key d' => exact absurd ((h ▸ hopens).unique (opens_key d')).1.symm (word_ne_nonce _)
    | nonce hname' => rw [nonce_unique hname hname' h]
    | send hs => exact absurd h (nonce_text_ne_send hname hs)
  | @send s r b hs hr hb =>
    have hopens := opens_send hs r b
    cases hn with
    | @roles names => exact nomatch ((h ▸ hopens).unique (opens_roles names)).2
    | @key d => exact nomatch ((h ▸ hopens).unique (opens_key d)).2
    | nonce hname => exact absurd h.symm (nonce_text_ne_send hname hs)
    | send hs' hr' hb' => exact send_unique hs hs' hr hr' hb hb' h

/-! ### Nodes of protocols -/

/-- What stands anywhere in the tree of a protocol. -/
inductive IsDumped : Node → Prop
  | root (p : Protocol) : p.WellShaped → IsDumped p.toNode
  | part {n : Node} : n.IsPart → IsDumped n
  | term {n : Node} : n.IsNamedTerm → IsDumped n

end Node

theorem Protocol.WellShaped.isPart {p : Protocol} (h : p.WellShaped) :
    ∀ n ∈ p.toNode.children, n.IsPart := by
  rw [toNode, Node.children, Script.nodes_ofMessages, Declarations.nodes, List.forall_mem_append,
    List.forall_mem_cons, List.forall_mem_append, List.forall_mem_map, List.forall_mem_map,
    List.forall_mem_map]
  refine ⟨⟨.roles fun x hx => (h.roles x hx).isWord, fun d hd => ?_, fun d hd => ?_⟩,
    fun m hm => ?_⟩
  · have hd := h.keys d hd
    exact .key hd.name.isWord fun x hx => (hd.owners x hx).isWord
  · have hd := h.nonces d hd
    exact .nonce hd.name.isWord hd.owner.isWord
  · have hm := h.messages m hm
    exact .send hm.sender.isWord hm.receiver.isWord hm.body.isNamedTerm

namespace Node

theorem IsDumped.of_mem_children {n : Node} (h : n.IsDumped) :
    ∀ child ∈ n.children, child.IsDumped := by
  cases h with
  | root p hp => exact fun child hchild => .part (hp.isPart child hchild)
  | term h => exact fun child hchild => .term (h.of_mem_children child hchild)
  | part h =>
    cases h with
    | roles | key | nonce => simp [children]
    | send hs hr hb =>
      simp [children, IsDumped.term hb, IsDumped.term (.term (.ident hs)),
        IsDumped.term (.term (.ident hr))]

theorem IsDumped.label {n : Node} (h : n.IsDumped) : n.label = .ok n.text := by
  cases h with
  | root => rfl
  | term h => exact h.label
  | part h =>
    cases h with
    | roles | key | nonce => rfl
    | @send s r b hs hr hb =>
      have hlabelled : b.isLabelled = true := by
        by_contra hb'
        have hlabel := hb.label
        rw [Node.label, if_neg hb'] at hlabel
        cases hlabel
      simp [Node.label, isLabelled, hlabelled]

theorem IsPart.oneLine {n : Node} (h : n.IsPart) : OneLine n.text := by
  have hnames {names : List String} (h : ∀ x ∈ names, Text.isWord x = true) :
      OneLine (", ".intercalate names) :=
    oneLine_intercalate (by decide) fun x hx => oneLine_of_isWord (h x hx)
  cases h with
  | roles h => exact oneLine_append.mpr ⟨by decide, hnames h⟩
  | @key d hname howners =>
    have hkind : OneLine d.kind.word := by cases d.kind <;> decide
    simp only [text, KeyDecl.label, oneLine_append]
    exact ⟨⟨⟨⟨hkind, by decide⟩, oneLine_of_isWord hname⟩, by decide⟩, hnames howners⟩
  | nonce hname howner =>
    simp only [text, NonceDecl.label, oneLine_append]
    exact ⟨⟨⟨by decide, oneLine_of_isWord hname⟩, by decide⟩, oneLine_of_isWord howner⟩
  | send hs hr hb =>
    simp only [text, oneLine_append]
    exact ⟨⟨⟨⟨oneLine_of_isWord hs, by decide⟩, oneLine_of_isWord hr⟩, by decide⟩, hb.oneLine⟩

theorem IsDumped.oneLine {n : Node} (h : n.IsDumped) : OneLine n.text := by
  cases h with
  | root => exact (by decide : OneLine "Protocol")
  | part h => exact h.oneLine
  | term h => exact h.oneLine

/-- The text has no space in front. -/
def Flush (s : String) : Prop :=
  ∀ c ∈ s.toList.head?, (c == ' ') = false

theorem flush_of_word {label word : String} {tail : List Char} (hword : Text.isWord word = true)
    (h : label.toList = word.toList ++ tail) : Flush label := by
  obtain ⟨c, cs, hchars, hc⟩ := exists_cons_of_isWord hword
  intro x hx
  rw [h, hchars] at hx
  cases hx
  by_contra hspace
  simp only [Bool.not_eq_false, beq_iff_eq] at hspace
  rw [hspace] at hc
  exact absurd hc (by decide)

theorem IsNamedTerm.flush {n : Node} (h : n.IsNamedTerm) : Flush n.text := by
  cases h with
  | @assign t v ht =>
    have hchars : (Node.assign t v).text.toList = t.toList ++ (" = " ++ v.text).toList := by
      simp [text]
    exact flush_of_word ht hchars
  | term h =>
    cases h with
    | ident hx => exact flush_of_word hx (List.append_nil _).symm
    | concat | enc | mac | hash | sign | verify => simp [Flush, text]

theorem IsDumped.flush {n : Node} (h : n.IsDumped) : Flush n.text := by
  have hopens {label word : String} {tail : List Char} (h : Opens label word tail) : Flush label :=
    flush_of_word h.isWord h.chars
  cases h with
  | root p =>
    have hchars : p.toNode.text.toList = "Protocol".toList ++ [] :=
      (List.append_nil _).symm
    exact flush_of_word (by decide) hchars
  | term h => exact h.flush
  | part h =>
    cases h with
    | @roles names => exact hopens (opens_roles names)
    | @key d => exact hopens (opens_key d)
    | @nonce d => exact hopens (opens_nonce d)
    | send hs => exact hopens (opens_send hs _ _)

theorem isDumped_of_mem_outline {p : Protocol} (hp : p.WellShaped) {e : Nat × Node}
    (he : e ∈ p.toNode.outline 0) : e.2.IsDumped :=
  forall_mem_preorder (fun _ hn => hn.of_mem_children) (.root p hp) e.2 (List.mem_map_of_mem he)

/-! ### Lines of dumps -/

/-- The text with two spaces in front for each level. -/
def indented (depth : Nat) (s : String) : String :=
  String.ofList (List.replicate (2 * depth) ' ') ++ s

/-- The depth that the spaces in front of a line tell, and what follows them. -/
def unindented (line : String) : Nat × String :=
  ((line.toList.takeWhile (· == ' ')).length / 2,
    String.ofList (line.toList.dropWhile (· == ' ')))

theorem unindented_indented (depth : Nat) {s : String} (h : Flush s) :
    unindented (indented depth s) = (depth, s) := by
  have hspaces : ∀ c ∈ List.replicate (2 * depth) ' ', (c == ' ') = true := by
    simp only [List.mem_replicate, beq_iff_eq]
    exact fun c hc => hc.2
  have hchars : (indented depth s).toList = List.replicate (2 * depth) ' ' ++ s.toList := by
    rw [indented, String.toList_append, String.toList_ofList]
  rw [unindented, hchars, takeWhile_run hspaces h, dropWhile_run hspaces h, List.length_replicate,
    String.ofList_toList, Nat.mul_div_cancel_left depth Nat.two_pos]

/-- The node at a place of the tree has the line: its label behind two spaces for each step of the
way down. -/
def HasLine (n : Node) (place : List Nat) (line : String) : Prop :=
  ∃ m label, n.at? place = some m ∧ m.label = .ok label ∧ line = indented place.length label

theorem le_of_mem_outline {n : Node} {depth : Nat} {e : Nat × Node} (he : e ∈ n.outline depth) :
    depth ≤ e.1 := by
  obtain ⟨place, -, hdepth⟩ := (n.outline_inOrder depth).mem_iff e |>.mp he
  omega

/-- Right below the root stand the children, each in its turn. -/
theorem filter_outline (n : Node) (depth : Nat) :
    (n.outline depth).filter (·.1 = depth + 1) = n.children.map (depth + 1, ·) := by
  have hchild (m : Node) :
      (m.outline (depth + 1)).filter (·.1 = depth + 1) = [(depth + 1, m)] := by
    have hbelow : ∀ e ∈ m.children.flatMap (outline (depth + 1 + 1)), ¬ (e.1 = depth + 1) := by
      intro e he
      obtain ⟨child, -, he⟩ := List.mem_flatMap.mp he
      have := le_of_mem_outline he
      omega
    rw [m.outline_eq, List.filter_cons_of_pos (by simp), List.filter_eq_nil_iff.mpr]
    simpa using hbelow
  rw [n.outline_eq, List.filter_cons_of_neg (by simp), List.filter_flatMap]
  simp only [hchild]
  exact List.flatMap_pure_eq_map ..

end Node

open Node

namespace Protocol

variable {p q : Protocol}

/-- The lines of the dump of a protocol. -/
def dumpLines (p : Protocol) : List String :=
  (p.toNode.outline 0).map fun e => indented e.1 e.2.text

theorem WellShaped.pretty_eq (hp : p.WellShaped) :
    p.toNode.pretty 0 = .ok ("\n".intercalate p.dumpLines) := by
  have hline : ∀ e ∈ p.toNode.outline 0, (do
      return String.ofList (List.replicate (2 * ((0 : Int) + e.1).toNat) ' ') ++ (← e.2.label) :
      Except Fault String) = .ok (indented e.1 e.2.text) := by
    intro e he
    have hdepth : ((0 : Int) + e.1).toNat = e.1 := by omega
    rw [(isDumped_of_mem_outline hp he).label, hdepth]
    rfl
  unfold Node.pretty
  rw [mapM_eq_ok hline]
  rfl

theorem WellShaped.linesOf_pretty (hp : p.WellShaped) :
    linesOf ("\n".intercalate p.dumpLines) = p.dumpLines := by
  have hspaces (depth : Nat) : OneLine (String.ofList (List.replicate (2 * depth) ' ')) := by
    simp [OneLine]
  refine linesOf_intercalate ?_ ?_
  · simp [dumpLines, outline_eq]
  · refine List.forall_mem_map.mpr fun e he => oneLine_append.mpr ⟨hspaces e.1, ?_⟩
    exact (isDumped_of_mem_outline hp he).oneLine

theorem WellShaped.dumpLines_inOrder (hp : p.WellShaped) :
    InOrder p.toNode.HasLine p.dumpLines := by
  have horder := p.toNode.outline_inOrder 0
  refine (horder.map fun e => indented e.1 e.2.text).congr fun place line => ?_
  have hlabel {m : Node} (hm : p.toNode.at? place = some m) : m.label = .ok m.text :=
    (isDumped_of_mem_outline hp ((horder.mem_iff (0 + place.length, m)).mpr ⟨place, hm, rfl⟩)).label
  constructor
  · rintro ⟨⟨depth, m⟩, ⟨hm, rfl⟩, rfl⟩
    exact ⟨m, m.text, hm, hlabel hm, by rw [Nat.zero_add]⟩
  · rintro ⟨m, label, hm, hm', rfl⟩
    obtain rfl : m.text = label := Except.ok.inj ((hlabel hm).symm.trans hm')
    exact ⟨(place.length, m), ⟨hm, (Nat.zero_add _).symm⟩, rfl⟩

/-- The labels of the declarations and messages are those lines that have depth one. -/
theorem WellShaped.filter_unindented (hp : p.WellShaped) :
    (p.dumpLines.map unindented).filter (·.1 = 1) = p.toNode.children.map (1, ·.text) := by
  have hread : p.dumpLines.map unindented =
      (p.toNode.outline 0).map fun e => (e.1, e.2.text) := by
    rw [dumpLines, List.map_map]
    exact List.map_congr_left fun e he =>
      unindented_indented e.1 (isDumped_of_mem_outline hp he).flush
  rw [hread, List.filter_map]
  show ((p.toNode.outline 0).filter (·.1 = 0 + 1)).map _ = _
  rw [filter_outline, List.map_map]
  rfl

end Protocol

theorem eq_of_map_eq {α β : Type} {f : α → β} {xs ys : List α}
    (hf : ∀ x ∈ xs, ∀ y ∈ ys, f x = f y → x = y) (h : xs.map f = ys.map f) : xs = ys := by
  induction xs generalizing ys with
  | nil =>
    cases ys with
    | nil => rfl
    | cons y ys => cases h
  | cons x xs ih =>
    cases ys with
    | nil => cases h
    | cons y ys =>
      rw [List.map_cons, List.map_cons, List.cons.injEq] at h
      have hhead := hf x List.mem_cons_self y List.mem_cons_self h.1
      have htail := ih (fun x hx y hy =>
        hf x (List.mem_cons_of_mem _ hx) y (List.mem_cons_of_mem _ hy)) h.2
      rw [hhead, htail]

namespace Protocol

variable {p q : Protocol}

/-- The tree tells the source text of a protocol, and so the protocol. -/
theorem WellShaped.eq_of_children (hp : p.WellShaped) (hq : q.WellShaped)
    (h : p.toNode.children = q.toNode.children) : p = q := by
  have hparse {r : Protocol} (hr : r.WellShaped) : parse r.source = .ok r :=
    parse_eq_ok_iff.mpr (hr.reads [] [] wordEnds_empty)
  have hsource : p.source = q.source := by
    rw [source, source, h]
  have hpq := hparse hp
  rw [hsource, hparse hq] at hpq
  cases hpq
  rfl

theorem WellShaped.eq_of_dumpLines (hp : p.WellShaped) (hq : q.WellShaped)
    (h : p.dumpLines = q.dumpLines) : p = q := by
  have hlabels : p.toNode.children.map (·.text) = q.toNode.children.map (·.text) := by
    have hread : p.toNode.children.map (1, ·.text) = q.toNode.children.map (1, ·.text) := by
      rw [← hp.filter_unindented, ← hq.filter_unindented, h]
    simpa [Function.comp_def] using congrArg (List.map Prod.snd) hread
  refine hp.eq_of_children hq (eq_of_map_eq (fun m hm n hn htext => ?_) hlabels)
  exact (hp.isPart m hm).eq_of_text (hq.isPart n hn) htext

end Protocol

/-! ### JSON values -/

theorem KeyDecl.toJson_injective {d d' : KeyDecl} (h : d.toJson = d'.toJson) : d = d' := by
  simp only [toJson, Json.object.injEq, List.cons.injEq, Prod.mk.injEq, Json.string.injEq,
    true_and, and_true] at h
  have hkind := keyWord_injective h.1
  have howners := Json.strings_injective h.2.2
  cases d
  cases d'
  simp_all

theorem NonceDecl.toJson_injective {d d' : NonceDecl} (h : d.toJson = d'.toJson) : d = d' := by
  simp only [toJson, Json.object.injEq, List.cons.injEq, Prod.mk.injEq, Json.string.injEq,
    true_and, and_true] at h
  cases d
  cases d'
  simp_all

/-- The JSON value of a message whose body has a label. -/
def Message.record (m : Message) : Json :=
  .object [("sender", .string m.sender), ("receiver", .string m.receiver),
    ("body", .string m.body.text)]

theorem Message.record_unique {m m' : Message} (hm : m.WellShaped) (hm' : m'.WellShaped)
    (h : m.record = m'.record) : m = m' := by
  simp only [record, Json.object.injEq, List.cons.injEq, Prod.mk.injEq, Json.string.injEq,
    true_and, and_true] at h
  have hbody := hm.body.isNamedTerm.eq_of_text hm'.body.isNamedTerm h.2.2
  cases m
  cases m'
  simp_all

namespace Protocol

variable {p q : Protocol}

/-- The JSON value of a protocol whose messages have labels. -/
def record (p : Protocol) : Json :=
  .object [("roles", .strings p.roles), ("keys", .array (p.keys.map (·.toJson))),
    ("nonces", .array (p.nonces.map (·.toJson))), ("messages", .array (p.messages.map (·.record)))]

theorem WellShaped.toJson_eq (hp : p.WellShaped) : p.toJson = .ok p.record := by
  have hmessages : p.messages.mapM (·.toJson) = .ok (p.messages.map (·.record)) := by
    refine mapM_eq_ok fun m hm => ?_
    rw [Message.toJson, (hp.messages m hm).body.isNamedTerm.label]
    rfl
  rw [toJson, hmessages]
  rfl

theorem WellShaped.eq_of_record (hp : p.WellShaped) (hq : q.WellShaped)
    (h : p.record = q.record) : p = q := by
  simp only [record, Json.object.injEq, List.cons.injEq, Prod.mk.injEq, Json.array.injEq,
    true_and, and_true] at h
  obtain ⟨hroles, hkeys, hnonces, hmessages⟩ := h
  have hroles := Json.strings_injective hroles
  have hkeys := (List.map_inj_right fun _ _ => KeyDecl.toJson_injective).mp hkeys
  have hnonces := (List.map_inj_right fun _ _ => NonceDecl.toJson_injective).mp hnonces
  have hmessages := eq_of_map_eq (fun m hm m' hm' =>
    Message.record_unique (hp.messages m hm) (hq.messages m' hm')) hmessages
  obtain ⟨⟨_, _, _⟩, _⟩ := p
  obtain ⟨⟨_, _, _⟩, _⟩ := q
  simp_all

/-- Protocols that texts spell have dumps, and different protocols have different ones, both as
trees and as JSON values. The dump of a tree lists the nodes in the order of their places, each with
its label on a line of its own, two spaces in for each level. -/
theorem dumps_identify {source source' : String} (hp : parse source = .ok p)
    (hq : parse source' = .ok q) :
    (p.toNode.pretty 0 = q.toNode.pretty 0 ↔ p = q) ∧ (p.toJson = q.toJson ↔ p = q) ∧
      (∃ json, p.toJson = .ok json) ∧
      ∃ text, p.toNode.pretty 0 = .ok text ∧ InOrder p.toNode.HasLine (linesOf text) := by
  have hp := wellShaped_of_parse hp
  have hq := wellShaped_of_parse hq
  refine ⟨⟨fun h => ?_, fun h => h ▸ rfl⟩, ⟨fun h => ?_, fun h => h ▸ rfl⟩, ⟨_, hp.toJson_eq⟩,
    ⟨_, hp.pretty_eq, ?_⟩⟩
  · rw [hp.pretty_eq, hq.pretty_eq, Except.ok.injEq] at h
    refine hp.eq_of_dumpLines hq ?_
    rw [← hp.linesOf_pretty, ← hq.linesOf_pretty, h]
  · rw [hp.toJson_eq, hq.toJson_eq, Except.ok.injEq] at h
    exact hp.eq_of_record hq h
  · rw [hp.linesOf_pretty]
    exact hp.dumpLines_inOrder

/-- One message, with a name for its body or without. -/
def hashSent (named : Bool) : Protocol where
  roles := ["A", "B"]
  nonces := [⟨"x", "A"⟩]
  messages := [⟨"A", "B", if named then .assign "m" (.hash (.ident "x")) else .hash (.ident "x")⟩]

theorem dumps_identify_hashSent :
    parse "roles: A, B\nnonce x: A\nA -> B: m = Hash(x)" = .ok (hashSent true) ∧
    parse "ROLES:A,B NONCE x:A A->B:hash(x) // without a name" = .ok (hashSent false) ∧
    (hashSent true).toNode.pretty 0 = .ok ("Protocol\n  roles: A, B\n  nonce x: A\n" ++
      "  A -> B: m = Hash(x)\n    A\n    B\n    m = Hash(x)\n      m\n      Hash(x)\n        x") ∧
    (hashSent true).toNode.pretty 0 ≠ (hashSent false).toNode.pretty 0 ∧
    (hashSent true).toJson ≠ (hashSent false).toJson := by
  have hnamed : parse "roles: A, B\nnonce x: A\nA -> B: m = Hash(x)" = .ok (hashSent true) := by
    decide +kernel
  have hbare : parse "ROLES:A,B NONCE x:A A->B:hash(x) // without a name" =
      .ok (hashSent false) := by
    decide +kernel
  have hne : hashSent true ≠ hashSent false := by decide
  obtain ⟨htree, hjson, -⟩ := dumps_identify hnamed hbare
  exact ⟨hnamed, hbare, by decide +kernel, fun h => hne (htree.mp h), fun h => hne (hjson.mp h)⟩

end Protocol

end Wiretap
