import Wiretap.Proofs.Lexing.Lossless
import Wiretap.Proofs.Parsing.Acceptance

/-! The shape of the protocols that a text can spell. Names are words that are no keywords, the
right operand of a concatenation is not a concatenation itself, since concatenation associates to
the left and the language has no parentheses for it, and only the body of a message has a name. -/

namespace Wiretap

open Grammar Lexing

/-- A name is a word that is not a keyword in some case. -/
structure Lexing.IsName (text : String) : Prop extends IsWord text where
  free : ∀ kind, (Text.lowercase text, kind) ∉ Kind.keywords

namespace Node

/-- Expressions over names, with concatenations nested to the left only. -/
inductive WellShaped : Node → Prop
  | ident {x : String} : IsName x → WellShaped (.ident x)
  | concat {l r : Node} :
      WellShaped l → WellShaped r → r.isConcat = false → WellShaped (.concat l r)
  | enc {k : String} {m : Node} : IsName k → WellShaped m → WellShaped (.enc k m)
  | mac {k : String} {m : Node} : IsName k → WellShaped m → WellShaped (.mac k m)
  | hash {m : Node} : WellShaped m → WellShaped (.hash m)
  | sign {k : String} {m : Node} : IsName k → WellShaped m → WellShaped (.sign k m)
  | verify {k : String} {m s : Node} :
      IsName k → WellShaped m → WellShaped s → WellShaped (.verify k m s)

/-- The bodies of messages: expressions, with or without a name. -/
inductive WellShapedBody : Node → Prop
  | expr {n : Node} : n.WellShaped → WellShapedBody n
  | assign {t : String} {v : Node} : IsName t → v.WellShaped → WellShapedBody (.assign t v)

end Node

structure KeyDecl.WellShaped (d : KeyDecl) : Prop where
  name : IsName d.name
  owners : ∀ owner ∈ d.owners, IsName owner
  owned : d.owners ≠ []
  single : d.kind = .publicHalf → d.owners.length = 1

structure NonceDecl.WellShaped (d : NonceDecl) : Prop where
  name : IsName d.name
  owner : IsName d.owner

structure Message.WellShaped (m : Message) : Prop where
  sender : IsName m.sender
  receiver : IsName m.receiver
  body : m.body.WellShapedBody

structure Protocol.WellShaped (p : Protocol) : Prop where
  inhabited : p.roles ≠ []
  roles : ∀ role ∈ p.roles, IsName role
  keys : ∀ d ∈ p.keys, d.WellShaped
  nonces : ∀ d ∈ p.nonces, d.WellShaped
  messages : ∀ m ∈ p.messages, m.WellShaped

/-! ### Tokens of a text -/

/-- The identifiers among the tokens have names for texts. -/
def Lexing.Legible (ts : List Token) : Prop :=
  ∀ t ∈ ts, t.kind = .identifier → IsName t.text

namespace Lexing

variable {ts us : List Token}

theorem Legible.mono (h : Legible ts) (hsub : us ⊆ ts) : Legible us :=
  fun t ht => h t (hsub ht)

theorem Legible.head {t : Token} (h : Legible (t :: ts)) (ht : t.kind = .identifier) :
    IsName t.text :=
  h t List.mem_cons_self ht

theorem Legible.tail {t : Token} (h : Legible (t :: ts)) : Legible ts :=
  h.mono (List.subset_cons_self t ts)

theorem Legible.left (h : Legible (ts ++ us)) : Legible ts :=
  h.mono (List.subset_append_left ts us)

theorem Legible.right (h : Legible (ts ++ us)) : Legible us :=
  h.mono (List.subset_append_right ts us)

theorem Lexeme.isName {text : String} {rest : List Char} (h : Lexeme .identifier text rest) :
    IsName text := by
  cases h with
  | word hword hkind =>
    have hkeywords : ∀ entry ∈ Kind.keywords, entry.2 ≠ .identifier := by decide
    rcases hkind with hkind | ⟨-, hfree⟩
    · exact absurd rfl (hkeywords _ hkind)
    · exact ⟨hword, hfree⟩
  | mark hmark =>
    have hmarks : ∀ entry ∈ marks, entry.2 ≠ .identifier := by decide
    exact absurd rfl (hmarks _ hmark)

theorem Scan.legible {before piece rest : List Char} (h : Scan before piece rest ts) :
    Legible ts := by
  intro t ht hkind
  have hlexeme := h.lexeme t ht
  rw [hkind] at hlexeme
  exact hlexeme.isName

end Lexing

/-! ### What legible tokens spell -/

namespace Grammar

variable {ts : List Token}

theorem Many.forall_mem_of_subset {α : Type} {G : List Token → α → Prop} {P : α → Prop}
    {as : List α} (h : Many G ts as) (hG : ∀ us a, us ⊆ ts → G us a → P a) : ∀ a ∈ as, P a := by
  induction h with
  | nil => exact fun _ ha => absurd ha List.not_mem_nil
  | @cons us vs a as ha _ ih =>
    intro b hb
    rcases List.mem_cons.mp hb with rfl | hb
    · exact hG us _ (List.subset_append_left us vs) ha
    · exact ih (fun ws a hws => hG ws a (List.Subset.trans hws (List.subset_append_right us vs))) b hb

theorem Spells.isConcat_operand {n : Node} (h : Spells .operand ts n) : n.isConcat = false := by
  cases h <;> rfl

theorem Spells.wellShaped {phrase : Phrase} {n : Node} (h : Spells phrase ts n)
    (hts : Legible ts) : n.WellShaped := by
  induction h with
  | ident ht => exact .ident (hts.head ht)
  | enc _ _ hkey _ _ _ ih => exact .enc (hts.tail.tail.head hkey) (ih hts.tail.tail.tail.tail.left)
  | mac _ _ hkey _ _ _ ih => exact .mac (hts.tail.tail.head hkey) (ih hts.tail.tail.tail.tail.left)
  | sign _ _ hkey _ _ _ ih =>
    exact .sign (hts.tail.tail.head hkey) (ih hts.tail.tail.tail.tail.left)
  | verify _ _ hkey _ _ _ _ _ ihm ihs =>
    have hargs := hts.tail.tail.tail.tail
    exact .verify (hts.tail.tail.head hkey) (ihm hargs.left) (ihs hargs.right.tail.left)
  | hash _ _ _ _ ih => exact .hash (ih hts.tail.tail.left)
  | operand _ ih => exact ih hts
  | join _ _ hr ihl ihr => exact .concat (ihl hts.left) (ihr hts.right.tail) hr.isConcat_operand

theorem Stmt.wellShaped {n : Node} (h : Stmt ts n) (hts : Legible ts) : n.WellShapedBody := by
  cases h with
  | assign ht _ hvalue => exact .assign (hts.head ht) (hvalue.wellShaped hts.tail.tail)
  | expr hn => exact .expr (hn.wellShaped hts)

theorem Name.isName {x : String} (h : Name ts x) (hts : Legible ts) : IsName x := by
  cases h with
  | intro ht => exact hts.head ht

theorem Names.isName {names : List String} (h : Names ts names) (hts : Legible ts) :
    names ≠ [] ∧ ∀ x ∈ names, IsName x := by
  cases h with
  | intro hx hxs =>
    refine ⟨List.cons_ne_nil _ _, List.forall_mem_cons.mpr ⟨hx.isName hts.left, ?_⟩⟩
    refine hxs.forall_mem_of_subset fun us y hus hy => ?_
    have hus : Legible us := hts.right.mono hus
    cases hy with
    | intro _ hy => exact hy.isName hus.tail

theorem KeyTail.wellShaped {kind : KeyKind} {many : Bool} {d : KeyDecl}
    (h : KeyTail kind many ts d) (hkind : kind = .publicHalf → many = false) (hts : Legible ts) :
    d.WellShaped := by
  cases h with
  | intro _ ht _ howners =>
    have hname := hts.tail.head ht
    cases howners with
    | several hnames =>
      obtain ⟨howned, hnames⟩ := hnames.isName hts.tail.tail.tail
      exact ⟨hname, hnames, howned, fun h => nomatch hkind h⟩
    | single howner =>
      have howner := howner.isName hts.tail.tail.tail
      exact ⟨hname, List.forall_mem_singleton.mpr howner, List.cons_ne_nil _ _, fun _ => rfl⟩

theorem Decl.wellShaped {d : KeyDecl ⊕ NonceDecl} (h : Decl ts d) (hts : Legible ts) :
    d.elim KeyDecl.WellShaped NonceDecl.WellShaped := by
  cases h with
  | sharedKey _ hd => exact hd.wellShaped (fun h => nomatch h) hts.tail
  | privateKey _ hd => exact hd.wellShaped (fun h => nomatch h) hts.tail
  | publicKey _ hd => exact hd.wellShaped (fun _ => rfl) hts.tail
  | nonce _ ht _ howner => exact ⟨hts.tail.head ht, hts.tail.tail.tail.head howner⟩

theorem Msg.wellShaped {m : Message} (h : Msg ts m) (hts : Legible ts) : m.WellShaped := by
  cases h with
  | intro hs _ hr _ hbody =>
    exact ⟨hts.head hs, hts.tail.tail.head hr, hbody.wellShaped hts.tail.tail.tail.tail⟩

theorem Sentence.wellShaped {p : Protocol} (h : Sentence ts p) (hts : Legible ts) :
    p.WellShaped := by
  cases h with
  | @intro us vs ws roles decls messages hroles hdecls hmessages =>
    have hdecls : ∀ d ∈ decls, d.elim KeyDecl.WellShaped NonceDecl.WellShaped :=
      hdecls.forall_mem_of_subset fun xs d hxs hd => hd.wellShaped (hts.right.left.mono hxs)
    have hmessages : ∀ m ∈ messages, m.WellShaped :=
      hmessages.forall_mem_of_subset fun xs m hxs hm => hm.wellShaped (hts.right.right.mono hxs)
    have hroles : roles ≠ [] ∧ ∀ role ∈ roles, IsName role := by
      cases hroles with
      | intro _ _ hnames => exact hnames.isName hts.left.tail.tail
    refine ⟨hroles.1, hroles.2, fun d hd => ?_, fun d hd => ?_, hmessages⟩
    · obtain ⟨d', hd', hleft⟩ := List.mem_filterMap.mp hd
      obtain rfl := Sum.getLeft?_eq_some_iff.mp hleft
      exact hdecls _ hd'
    · obtain ⟨d', hd', hright⟩ := List.mem_filterMap.mp hd
      obtain rfl := Sum.getRight?_eq_some_iff.mp hright
      exact hdecls _ hd'

end Grammar

namespace Protocol

/-- The texts that spell a protocol are those whose tokens do. -/
theorem parse_eq_ok_iff {source : String} {p : Protocol} :
    parse source = .ok p ↔ ∃ ts, Scan [] source.toList [] ts ∧ Sentence ts p := by
  have hsplits (tokens : Tokens) (hscan : Scan [] source.toList [] tokens.front) :
      tokens.Splits tokens.front tokens.last [] := ⟨rfl, hscan.kind_ne_ending, tokens.last_kind⟩
  constructor
  · intro h
    unfold parse at h
    split at h
    · cases h
    · rename_i tokens htokens
      obtain ⟨hscan, -⟩ := tokenize_eq_ok_iff.mp htokens
      split at h
      · cases h
      · rename_i q hq
        cases h
        exact ⟨_, hscan, ((hsplits tokens hscan).ofTokens_eq_ok_iff p).mp hq⟩
  · rintro ⟨ts, hscan, hp⟩
    unfold parse
    rw [tokenize_of_scan hscan]
    dsimp only
    rw [((hsplits ⟨ts, _, rfl⟩ hscan).ofTokens_eq_ok_iff p).mpr hp]

theorem wellShaped_of_parse {source : String} {p : Protocol} (h : parse source = .ok p) :
    p.WellShaped := by
  obtain ⟨ts, hscan, hp⟩ := parse_eq_ok_iff.mp h
  exact hp.wellShaped hscan.legible

end Protocol

end Wiretap
