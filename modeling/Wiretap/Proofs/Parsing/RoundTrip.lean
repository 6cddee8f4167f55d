import Wiretap.Proofs.Parsing.Shape

/-! Writing a protocol down and reading it again. The source text of a protocol is the label of each
part on a line of its own, with the parentheses of concatenations left out, and it spells every
protocol of the right shape. `Reads text P` says that the tokens of `text` satisfy `P` wherever
`text` stands; its rules put a text together from the back, piece by piece. -/

namespace Wiretap

open Grammar Lexing

/-! ### Source texts -/

namespace Node

/-- The text of a tree, with `join` for the way concatenated texts are written. -/
def textWith (join : String → String → String) : Node → String
  | ident name => name
  | concat l r => join (l.textWith join) (r.textWith join)
  | enc k m => "Enc(" ++ k ++ ", " ++ m.textWith join ++ ")"
  | mac k m => "Mac(" ++ k ++ ", " ++ m.textWith join ++ ")"
  | hash m => "Hash(" ++ m.textWith join ++ ")"
  | sign k m => "Sign(" ++ k ++ ", " ++ m.textWith join ++ ")"
  | verify k m s => "Vrfy(" ++ k ++ ", " ++ m.textWith join ++ ", " ++ s.textWith join ++ ")"
  | assign t v => t ++ " = " ++ v.textWith join
  | send s r b => s ++ " -> " ++ r ++ ": " ++ b.textWith join
  | n => n.text

/-- With parentheses around concatenations it is the text that labels show. -/
theorem textWith_parentheses (n : Node) :
    n.textWith (fun l r => "(" ++ l ++ " || " ++ r ++ ")") = n.text := by
  fun_induction textWith with
  | case1 => rfl
  | case2 l r ihl ihr => rw [ihl, ihr, text]
  | case3 k m ih => rw [ih, text]
  | case4 k m ih => rw [ih, text]
  | case5 m ih => rw [ih, text]
  | case6 k m ih => rw [ih, text]
  | case7 k m s ihm ihs => rw [ihm, ihs, text]
  | case8 t v ih => rw [ih, text]
  | case9 s r b ih => rw [ih, text]
  | case10 => rfl

/-- The text of a tree without parentheses around concatenations. -/
def flat : Node → String :=
  textWith fun l r => l ++ " || " ++ r

end Node

/-- The protocol as a source text. -/
def Protocol.source (p : Protocol) : String :=
  "\n".intercalate (p.toNode.children.map Node.flat)

/-! ### Texts and the tokens in them -/

namespace Lexing

theorem isWord_iff {text : String} :
    IsWord text ↔ (text.toList.head?.any Text.isLetter && text.toList.all Text.isWordChar) := by
  have hhead : (∃ c ∈ text.toList.head?, Text.isLetter c = true) ↔
      text.toList.head?.any Text.isLetter = true := by
    cases text.toList.head? <;> simp
  rw [Bool.and_eq_true, List.all_eq_true, ← hhead]
  exact ⟨fun h => ⟨h.letter, h.inner⟩, fun h => ⟨h.1, h.2⟩⟩

instance (text : String) : Decidable (IsWord text) :=
  decidable_of_iff _ isWord_iff.symm

/-- The text is a word that makes a token of the kind. -/
def WordOf (text : String) (kind : Kind) : Prop :=
  IsWord text ∧ Kind.ofWord text = kind

instance (text : String) (kind : Kind) : Decidable (WordOf text kind) :=
  inferInstanceAs (Decidable (_ ∧ _))

theorem IsName.wordOf {text : String} (h : IsName text) : WordOf text .identifier :=
  ⟨h.toIsWord, wordKind_iff.mp (.inr ⟨rfl, h.free⟩)⟩

theorem WordEnds.append {text rest : List Char} (h : WordEnds text) (hrest : WordEnds rest) :
    WordEnds (text ++ rest) := by
  cases text with
  | nil => exact hrest
  | cons c cs => exact h

theorem wordEnds_empty : WordEnds "".toList :=
  fun _ hc => nomatch hc

/-- The text starts with a character that ends the word before it. -/
def Separates (text : String) : Prop :=
  ∃ c ∈ text.toList.head?, Text.isWordChar c = false

instance (text : String) : Decidable (Separates text) :=
  decidable_of_iff (text.toList.head?.any (Text.isWordChar · == false) = true) <| by
    unfold Separates
    cases text.toList.head? <;> simp

theorem Separates.wordEnds {separator : String} (h : Separates separator) (text : String) :
    WordEnds (separator ++ text).toList := by
  obtain ⟨c, hc, hword⟩ := h
  obtain ⟨cs, hcs⟩ := List.head?_eq_some_iff.mp hc
  rw [String.toList_append, hcs]
  rintro x hx
  cases hx
  exact hword

theorem Separates.wordEnds_join {α : Type} {separator : String} (h : Separates separator)
    (line : α → String) (as : List α) :
    WordEnds (String.join (as.map (separator ++ line ·))).toList := by
  cases as with
  | nil => exact wordEnds_empty
  | cons a as =>
    rw [List.map_cons, String.join_cons, String.append_assoc]
    exact h.wordEnds _

theorem wordEnds_of_isBlank {blank : String} (h : Text.isBlank blank = true) :
    WordEnds blank.toList := by
  have hspace : ∀ c ∈ blank.toList, Text.isSpace c = true := by
    simpa [Text.isBlank] using h
  exact fun c hc => Text.isWordChar_of_isSpace (hspace c (List.mem_of_mem_head? hc))

/-- Wherever the text stands in front of something that ends a word, its tokens satisfy `P`. -/
def Reads (text : String) (P : List Token → Prop) : Prop :=
  ∀ before rest, WordEnds rest → ∃ ts, Scan before text.toList rest ts ∧ P ts

namespace Reads

variable {text text' : String} {P Q : List Token → Prop}

theorem mono (h : Reads text P) (hPQ : ∀ ts, P ts → Q ts) : Reads text Q := by
  intro before rest hrest
  obtain ⟨ts, hscan, hts⟩ := h before rest hrest
  exact ⟨ts, hscan, hPQ ts hts⟩

theorem nil (h : P []) : Reads "" P :=
  fun before rest _ => ⟨[], .nil before rest, h⟩

theorem mark {mark : String} (kind : Kind) (hmark : (mark, kind) ∈ marks)
    (h : Reads text fun ts => ∀ t : Token, t.kind = kind → P (t :: ts)) :
    Reads (mark ++ text) P := by
  intro before rest hrest
  obtain ⟨ts, hscan, hts⟩ := h (before ++ mark.toList) rest hrest
  rw [String.toList_append]
  exact ⟨_, .token (.mark hmark) hscan, hts _ rfl⟩

theorem word {word : String} (kind : Kind) (hword : WordOf word kind)
    (hend : WordEnds text.toList)
    (h : Reads text fun ts => ∀ t : Token, t.kind = kind → t.text = word → P (t :: ts)) :
    Reads (word ++ text) P := by
  intro before rest hrest
  obtain ⟨ts, hscan, hts⟩ := h (before ++ word.toList) rest hrest
  have hlexeme : Lexeme kind word (text.toList ++ rest) :=
    .word hword.1 (wordKind_iff.mpr hword.2) (hend.append hrest)
  rw [String.toList_append]
  exact ⟨_, .token hlexeme hscan, hts _ rfl rfl⟩

theorem append (h : Reads text P) (hend : WordEnds text'.toList)
    (h' : ∀ ts, P ts → Reads text' fun us => Q (ts ++ us)) : Reads (text ++ text') Q := by
  intro before rest hrest
  obtain ⟨ts, hscan, hts⟩ := h before (text'.toList ++ rest) (hend.append hrest)
  obtain ⟨us, hscan', hus⟩ := h' ts hts (before ++ text.toList) rest hrest
  rw [String.toList_append]
  exact ⟨ts ++ us, hscan.append hscan', hus⟩

theorem blank {blank : String} (hblank : Text.isBlank blank = true) (h : Reads text P) :
    Reads (blank ++ text) P := by
  -- A blank is no piece of its own: it is passed one character at a time.
  have hspaces : ∀ (cs before tail : List Char) {ts : List Token},
      (∀ c ∈ cs, Text.isSpace c = true) → Scan (before ++ cs) text.toList tail ts →
      Scan before (cs ++ text.toList) tail ts := by
    intro cs
    induction cs with
    | nil => exact fun before tail ts _ hscan => by rwa [List.append_nil] at hscan
    | cons c cs ih =>
      intro before tail ts hcs hscan
      obtain ⟨hc, hcs⟩ := List.forall_mem_cons.mp hcs
      change Scan before ([c] ++ (cs ++ text.toList)) tail ts
      exact .blank (.space hc) (ih _ tail hcs (by rwa [List.append_assoc]))
  intro before rest hrest
  obtain ⟨ts, hscan, hts⟩ := h (before ++ blank.toList) rest hrest
  rw [String.toList_append]
  exact ⟨ts, hspaces _ _ _ (by simpa [Text.isBlank] using hblank) hscan, hts⟩

/-- Texts with a separator in front of each make phrases one after the other. -/
theorem many {α : Type} {G : List Token → α → Prop} {separator : String} {line : α → String}
    {as : List α} (hseparator : Separates separator)
    (h : ∀ a ∈ as, Reads (separator ++ line a) (G · a)) :
    Reads (String.join (as.map (separator ++ line ·))) (Many G · as) := by
  induction as with
  | nil => exact .nil .nil
  | cons a as ih =>
    obtain ⟨ha, has⟩ := List.forall_mem_cons.mp h
    rw [List.map_cons, String.join_cons]
    exact ha.append (hseparator.wordEnds_join line as)
      fun ts hts => (ih has).mono fun us hus => .cons hts hus

end Reads

end Lexing

theorem intercalate_cons (separator first : String) (rest : List String) :
    separator.intercalate (first :: rest) = first ++ String.join (rest.map (separator ++ ·)) := by
  induction rest generalizing first with
  | nil => rw [String.intercalate_singleton, List.map_nil, String.join_nil, String.append_empty]
  | cons second rest ih =>
    rw [String.intercalate_cons_cons, ih, List.map_cons, String.join_cons, String.append_assoc,
      String.append_assoc]

/-! ### Names and expressions -/

namespace Lexing

theorem IsName.reads {x : String} (hx : IsName x) : Reads x fun ts => Name ts x := by
  have hname : Reads (x ++ "") fun ts => Name ts x := by
    refine .word .identifier hx.wordOf wordEnds_empty (.nil fun t hkind htext => ?_)
    rw [← htext]
    exact .intro hkind
  rwa [String.append_empty] at hname

end Lexing

namespace Node

/-- Concatenations are spelled as expressions only, all other expressions as operands too. -/
def phrase (n : Node) : Phrase :=
  if n.isConcat then .expr else .operand

theorem phrase_of_isConcat {n : Node} (h : n.isConcat = false) : n.phrase = .operand := by
  rw [phrase, h]
  rfl

theorem expr_of_phrase {n : Node} {ts : List Token} (h : Spells n.phrase ts n) :
    Spells .expr ts n := by
  unfold phrase at h
  split at h
  · exact h
  · exact .operand h

variable {P : List Token → Prop} {k : String} {m s : Node}

theorem reads_keyed (word : String) (kind : Kind) (hword : WordOf word kind) (hk : IsName k)
    (hm : Reads m.flat (Spells m.phrase · m))
    (h : ∀ (t opening key comma closing : Token) (ts : List Token), t.kind = kind →
      opening.kind = .leftParen → key.kind = .identifier → key.text = k → comma.kind = .comma →
      Spells .expr ts m → closing.kind = .rightParen →
      P (t :: opening :: key :: comma :: (ts ++ [closing]))) :
    Reads (word ++ "(" ++ k ++ ", " ++ m.flat ++ ")") P := by
  have htext : word ++ "(" ++ k ++ ", " ++ m.flat ++ ")" =
      word ++ ("(" ++ (k ++ ("," ++ (" " ++ (m.flat ++ (")" ++ "")))))) := by
    rw [show ", " = "," ++ " " from rfl]
    simp only [String.append_assoc, String.append_empty]
  rw [htext]
  refine .word kind hword (Separates.wordEnds (by decide) _) <| .mark .leftParen (by decide) <|
    .word .identifier hk.wordOf (Separates.wordEnds (by decide) _) <| .mark .comma (by decide) <|
    .blank (by decide) <| hm.append (Separates.wordEnds (by decide) _) fun ts hts =>
    .mark .rightParen (by decide) <| .nil ?_
  intro closing hclosing comma hcomma key hkey hname opening hopening t ht _
  exact h t opening key comma closing ts ht hopening hkey hname hcomma (expr_of_phrase hts)
    hclosing

theorem reads_hash (hm : Reads m.flat (Spells m.phrase · m)) :
    Reads (Node.hash m).flat (Spells .operand · (.hash m)) := by
  have htext : (Node.hash m).flat = "Hash" ++ ("(" ++ (m.flat ++ (")" ++ ""))) := by
    change "Hash(" ++ m.flat ++ ")" = _
    rw [show "Hash(" = "Hash" ++ "(" from rfl]
    simp only [String.append_assoc, String.append_empty]
  rw [htext]
  refine .word .hashWord (by decide) (Separates.wordEnds (by decide) _) <|
    .mark .leftParen (by decide) <| hm.append (Separates.wordEnds (by decide) _) fun ts hts =>
    .mark .rightParen (by decide) <| .nil ?_
  intro closing hclosing opening hopening t ht _
  exact .hash ht hopening (expr_of_phrase hts) hclosing

theorem reads_verify (hk : IsName k) (hm : Reads m.flat (Spells m.phrase · m))
    (hs : Reads s.flat (Spells s.phrase · s)) :
    Reads (verify k m s).flat (Spells .operand · (.verify k m s)) := by
  have htext : (verify k m s).flat = "Vrfy" ++ ("(" ++ (k ++ ("," ++ (" " ++ (m.flat ++
      ("," ++ (" " ++ (s.flat ++ (")" ++ ""))))))))) := by
    change "Vrfy(" ++ k ++ ", " ++ m.flat ++ ", " ++ s.flat ++ ")" = _
    rw [show "Vrfy(" = "Vrfy" ++ "(" from rfl, show ", " = "," ++ " " from rfl]
    simp only [String.append_assoc, String.append_empty]
  rw [htext]
  refine .word .vrfyWord (by decide) (Separates.wordEnds (by decide) _) <|
    .mark .leftParen (by decide) <|
    .word .identifier hk.wordOf (Separates.wordEnds (by decide) _) <|
    .mark .comma (by decide) <| .blank (by decide) <|
    hm.append (Separates.wordEnds (by decide) _) fun ts hts => .mark .comma (by decide) <|
    .blank (by decide) <| hs.append (Separates.wordEnds (by decide) _) fun us hus =>
    .mark .rightParen (by decide) <| .nil ?_
  intro closing hclosing comma' hcomma' comma hcomma key hkey hname opening hopening t ht _
  subst hname
  exact .verify ht hopening hkey hcomma (expr_of_phrase hts) hcomma' (expr_of_phrase hus) hclosing

theorem reads_concat {l r : Node} (hl : Reads l.flat (Spells l.phrase · l))
    (hr : Reads r.flat (Spells .operand · r)) :
    Reads (concat l r).flat (Spells .expr · (.concat l r)) := by
  have htext : (concat l r).flat = l.flat ++ (" " ++ ("||" ++ (" " ++ r.flat))) := by
    change l.flat ++ " || " ++ r.flat = _
    rw [show " || " = " " ++ ("||" ++ " ") from rfl]
    simp only [String.append_assoc]
  rw [htext]
  refine hl.append (Separates.wordEnds (by decide) _) fun ts hts =>
    .blank (by decide) <| .mark .join (by decide) <| .blank (by decide) <| hr.mono ?_
  intro us hus bar hbar
  exact .join (expr_of_phrase hts) hbar hus

/-- The source text of an expression spells it. -/
theorem WellShaped.reads {n : Node} (h : n.WellShaped) : Reads n.flat (Spells n.phrase · n) := by
  induction h with
  | ident hx =>
    refine hx.reads.mono fun ts hts => ?_
    cases hts with
    | intro ht => exact .ident ht
  | concat _ _ hright ihl ihr =>
    rw [phrase_of_isConcat hright] at ihr
    exact reads_concat ihl ihr
  | enc hk _ ih =>
    refine reads_keyed "Enc" .encWord (by decide) hk ih ?_
    rintro t opening key comma closing ts ht hopening hkey rfl hcomma hts hclosing
    exact .enc ht hopening hkey hcomma hts hclosing
  | mac hk _ ih =>
    refine reads_keyed "Mac" .macWord (by decide) hk ih ?_
    rintro t opening key comma closing ts ht hopening hkey rfl hcomma hts hclosing
    exact .mac ht hopening hkey hcomma hts hclosing
  | sign hk _ ih =>
    refine reads_keyed "Sign" .signWord (by decide) hk ih ?_
    rintro t opening key comma closing ts ht hopening hkey rfl hcomma hts hclosing
    exact .sign ht hopening hkey hcomma hts hclosing
  | hash _ ih => exact reads_hash ih
  | verify hk _ _ ihm ihs => exact reads_verify hk ihm ihs

theorem WellShapedBody.reads {n : Node} (h : n.WellShapedBody) : Reads n.flat (Stmt · n) := by
  cases h with
  | expr hn => exact hn.reads.mono fun ts hts => .expr (expr_of_phrase hts)
  | @assign t v ht hv =>
    have htext : (Node.assign t v).flat = t ++ (" " ++ ("=" ++ (" " ++ v.flat))) := by
      change t ++ " = " ++ v.flat = _
      rw [show " = " = " " ++ ("=" ++ " ") from rfl]
      simp only [String.append_assoc]
    rw [htext]
    refine .word .identifier ht.wordOf (Separates.wordEnds (by decide) _) <|
      .blank (by decide) <| .mark .equals (by decide) <| .blank (by decide) <| hv.reads.mono ?_
    rintro ts hts equals hequals target htarget rfl
    exact .assign htarget hequals (expr_of_phrase hts)

end Node

/-! ### Declarations and messages -/

theorem reads_names {names : List String} (hne : names ≠ []) (hnames : ∀ x ∈ names, IsName x) :
    Reads (", ".intercalate names) (Names · names) := by
  cases names with
  | nil => exact absurd rfl hne
  | cons x xs =>
    obtain ⟨hx, hxs⟩ := List.forall_mem_cons.mp hnames
    have hcomma : Separates ", " := by decide
    have hrest : Reads (String.join (xs.map (", " ++ ·))) (Many (After .comma Name) · xs) := by
      refine .many hcomma fun y hy => ?_
      rw [show ", " = "," ++ " " from rfl, String.append_assoc]
      exact .mark .comma (by decide) <| .blank (by decide) <|
        (hxs y hy).reads.mono fun ts hts t ht => .intro ht hts
    rw [intercalate_cons]
    exact hx.reads.append (hcomma.wordEnds_join id xs)
      fun ts hts => hrest.mono fun us hus => .intro hts hus

theorem reads_rolesLabel {names : List String} (hne : names ≠ [])
    (hnames : ∀ x ∈ names, IsName x) : Reads (rolesLabel names) (RolesDecl · names) := by
  have htext : rolesLabel names = "roles" ++ (":" ++ (" " ++ ", ".intercalate names)) := by
    unfold rolesLabel
    rw [show "roles: " = "roles" ++ (":" ++ " ") from rfl]
    simp only [String.append_assoc]
  rw [htext]
  exact .word .rolesWord (by decide) (Separates.wordEnds (by decide) _) <|
    .mark .colon (by decide) <| .blank (by decide) <| (reads_names hne hnames).mono
      fun ts hts colon hcolon t ht _ => .intro ht hcolon hts

theorem reads_owners {d : KeyDecl} (h : d.WellShaped) :
    Reads (", ".intercalate d.owners) (Owners (d.kind != .publicHalf) · d.owners) := by
  by_cases hkind : d.kind = .publicHalf
  · obtain ⟨owner, howner⟩ := List.length_eq_one_iff.mp (h.single hkind)
    have hname := h.owners owner (howner ▸ List.mem_singleton_self owner)
    rw [howner, String.intercalate_singleton, hkind]
    exact hname.reads.mono fun ts hts => .single hts
  · rw [bne_iff_ne.mpr hkind]
    exact (reads_names h.owned h.owners).mono fun ts hts => .several hts

/-- The kind of the word for a kind of key. -/
def KeyKind.wordKind : KeyKind → Kind
  | shared => .sharedWord
  | publicHalf => .publicWord
  | privateHalf => .privateWord

theorem decl_of_keyTail {d : KeyDecl} {t : Token} {ts : List Token}
    (ht : t.kind = d.kind.wordKind) (h : KeyTail d.kind (d.kind != .publicHalf) ts d) :
    Decl (t :: ts) (.inl d) := by
  obtain ⟨kind, name, owners⟩ := d
  cases kind with
  | shared => exact .sharedKey ht h
  | publicHalf => exact .publicKey ht h
  | privateHalf => exact .privateKey ht h

theorem reads_keyLabel {d : KeyDecl} (h : d.WellShaped) : Reads d.label (Decl · (.inl d)) := by
  have htext : d.label = d.kind.word ++ (" " ++ ("key" ++ (" " ++ (d.name ++ (":" ++ (" " ++
      ", ".intercalate d.owners)))))) := by
    unfold KeyDecl.label
    rw [show " key " = " " ++ ("key" ++ " ") from rfl, show ": " = ":" ++ " " from rfl]
    simp only [String.append_assoc]
  have hword : WordOf d.kind.word d.kind.wordKind := by
    cases d.kind <;> decide
  rw [htext]
  refine .word d.kind.wordKind hword (Separates.wordEnds (by decide) _) <| .blank (by decide) <|
    .word .keyWord (by decide) (Separates.wordEnds (by decide) _) <| .blank (by decide) <|
    .word .identifier h.name.wordOf (Separates.wordEnds (by decide) _) <|
    .mark .colon (by decide) <| .blank (by decide) <| (reads_owners h).mono ?_
  intro ts hts colon hcolon name hname hd key hkey _ t ht _
  refine decl_of_keyTail ht ?_
  obtain ⟨kind, _, owners⟩ := d
  cases hd
  exact .intro hkey hname hcolon hts

theorem reads_nonceLabel {d : NonceDecl} (h : d.WellShaped) :
    Reads d.label (Decl · (.inr d)) := by
  have htext : d.label = "nonce" ++ (" " ++ (d.name ++ (":" ++ (" " ++ d.owner)))) := by
    unfold NonceDecl.label
    rw [show "nonce " = "nonce" ++ " " from rfl, show ": " = ":" ++ " " from rfl]
    simp only [String.append_assoc]
  rw [htext]
  refine .word .nonceWord (by decide) (Separates.wordEnds (by decide) _) <|
    .blank (by decide) <| .word .identifier h.name.wordOf (Separates.wordEnds (by decide) _) <|
    .mark .colon (by decide) <| .blank (by decide) <| h.owner.reads.mono ?_
  intro ts hts colon hcolon name hname hd t ht _
  obtain ⟨_, _⟩ := d
  cases hd
  cases hts with
  | intro howner => exact .nonce ht hname hcolon howner

theorem reads_message {m : Message} (h : m.WellShaped) : Reads m.toNode.flat (Msg · m) := by
  have htext : m.toNode.flat = m.sender ++ (" " ++ ("->" ++ (" " ++ (m.receiver ++ (":" ++ (" " ++
      m.body.flat)))))) := by
    change m.sender ++ " -> " ++ m.receiver ++ ": " ++ m.body.flat = _
    rw [show " -> " = " " ++ ("->" ++ " ") from rfl, show ": " = ":" ++ " " from rfl]
    simp only [String.append_assoc]
  rw [htext]
  refine .word .identifier h.sender.wordOf (Separates.wordEnds (by decide) _) <|
    .blank (by decide) <| .mark .arrow (by decide) <| .blank (by decide) <|
    .word .identifier h.receiver.wordOf (Separates.wordEnds (by decide) _) <|
    .mark .colon (by decide) <| .blank (by decide) <| h.body.reads.mono ?_
  intro ts hts colon hcolon receiver hreceiver hr arrow harrow sender hsender hs
  obtain ⟨_, _, body⟩ := m
  cases hr
  cases hs
  exact .intro hsender harrow hreceiver hcolon hts

/-! ### Protocols -/

theorem Script.nodes_ofMessages (messages : List Message) :
    (ofMessages messages).nodes = messages.map Message.toNode := by
  induction messages with
  | nil => rfl
  | cons m messages ih => exact congrArg (m.toNode :: ·) ih

namespace Protocol

/-- The declarations of keys and nonces in the order of the source text. -/
def decls (p : Protocol) : List (KeyDecl ⊕ NonceDecl) :=
  p.keys.map .inl ++ p.nonces.map .inr

theorem source_eq (p : Protocol) :
    p.source = rolesLabel p.roles ++
      (String.join (p.decls.map ("\n" ++ Sum.elim KeyDecl.label NonceDecl.label ·)) ++
        String.join (p.messages.map ("\n" ++ ·.toNode.flat))) := by
  unfold source decls toNode
  simp only [Node.children, Declarations.nodes, Script.nodes_ofMessages, List.cons_append,
    List.map_cons, List.map_append, List.map_map, intercalate_cons, String.join_append,
    String.append_assoc]
  rfl

theorem WellShaped.reads {p : Protocol} (h : p.WellShaped) : Reads p.source (Sentence · p) := by
  have hnewline : Separates "\n" := by decide
  have hdecls : Reads (String.join (p.decls.map ("\n" ++ Sum.elim KeyDecl.label NonceDecl.label ·)))
      (Many Decl · p.decls) := by
    refine .many hnewline fun d hd => .blank (by decide) ?_
    rcases List.mem_append.mp hd with hd | hd
    · obtain ⟨d, hmem, rfl⟩ := List.mem_map.mp hd
      exact reads_keyLabel (h.keys d hmem)
    · obtain ⟨d, hmem, rfl⟩ := List.mem_map.mp hd
      exact reads_nonceLabel (h.nonces d hmem)
  have hmessages : Reads (String.join (p.messages.map ("\n" ++ ·.toNode.flat)))
      (Many Msg · p.messages) :=
    .many hnewline fun m hm => .blank (by decide) (reads_message (h.messages m hm))
  have hend := (hnewline.wordEnds_join (Sum.elim KeyDecl.label NonceDecl.label) p.decls).append
    (hnewline.wordEnds_join (·.toNode.flat) p.messages)
  rw [← String.toList_append] at hend
  rw [source_eq]
  refine (reads_rolesLabel h.inhabited h.roles).append hend fun ts hts => ?_
  refine hdecls.append (hnewline.wordEnds_join _ _) fun us hus => hmessages.mono fun vs hvs => ?_
  have hsentence := Sentence.intro hts hus hvs
  simpa [decls, List.filterMap_map, Function.comp_def] using hsentence

/-- The protocols that texts spell are those of the right shape, and each of these is spelled by
its own source text, with or without white space after it. -/
theorem parse_source (p : Protocol) :
    (∀ source, parse source = .ok p → p.WellShaped) ∧
      (p.WellShaped → ∀ margin, Text.isBlank margin = true →
        parse (p.source ++ margin) = .ok p) := by
  refine ⟨fun source h => wellShaped_of_parse h, fun h margin hmargin => ?_⟩
  have hblank : Reads margin (· = []) := by
    have hempty : Reads (margin ++ "") (· = []) := .blank hmargin (.nil rfl)
    rwa [String.append_empty] at hempty
  have hreads : Reads (p.source ++ margin) (Sentence · p) := by
    refine h.reads.append (wordEnds_of_isBlank hmargin) fun ts hts => hblank.mono ?_
    rintro us rfl
    rwa [List.append_nil]
  exact parse_eq_ok_iff.mpr (hreads [] [] wordEnds_empty)

/-- Every sort of declaration and expression, with a concatenation in a ciphertext and another one
around it. -/
def layered : Protocol where
  roles := ["A", "B"]
  keys := [⟨.shared, "k", ["A", "B"]⟩, ⟨.publicHalf, "pkB", ["B"]⟩,
    ⟨.privateHalf, "skB", ["B"]⟩]
  nonces := [⟨"n_1", "A"⟩]
  messages := [
    ⟨"A", "B", .assign "m" (.concat (.concat (.enc "k" (.concat (.ident "n_1") (.ident "x")))
      (.hash (.ident "y"))) (.ident "é"))⟩,
    ⟨"B", "A", .verify "pkB" (.ident "n_1") (.sign "skB" (.mac "k" (.ident "x")))⟩]

theorem parse_source_layered :
    layered.WellShaped ∧
    layered.source = "roles: A, B\nshared key k: A, B\npublic key pkB: B\n" ++
      "private key skB: B\nnonce n_1: A\nA -> B: m = Enc(k, n_1 || x) || Hash(y) || é\n" ++
      "B -> A: Vrfy(pkB, n_1, Sign(skB, Mac(k, x)))" ∧
    parse (layered.source ++ "\n") = .ok layered := by
  have hparse : parse ("ROLES:A,B NONCE n_1:A // the nonce stands first here\n" ++
      "shared key k:A,B public key pkB:B private key skB:B\r\n" ++
      "A->B:m=enc(k,n_1||x)||hash(y)||é B->A:verify(pkB,n_1,sign(skB,mac(k,x)))") =
      .ok layered := by decide +kernel
  have hshape := (parse_source layered).1 _ hparse
  exact ⟨hshape, by decide +kernel, (parse_source layered).2 hshape "\n" (by decide)⟩

end Protocol

end Wiretap
