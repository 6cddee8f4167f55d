import Wiretap.Proofs.Exposure
import Wiretap.Source.Token

/-! The grammar of protocols as relations between tokens and what they spell. The first argument of
`Enc` is a single identifier, and concatenation associates to the left:

    expr     := operand | expr "||" operand

The other relations follow the productions of the language one by one. -/

namespace Wiretap.Grammar

/-- Phrases one after the other. -/
inductive Many {α : Type} (G : List Token → α → Prop) : List Token → List α → Prop
  | nil : Many G [] []
  | cons {ts us : List Token} {a : α} {as : List α} :
      G ts a → Many G us as → Many G (ts ++ us) (a :: as)

/-- A phrase with a token of kind `mark` in front of it. -/
inductive After {α : Type} (mark : Kind) (G : List Token → α → Prop) : List Token → α → Prop
  | intro {t : Token} {ts : List Token} {a : α} : t.kind = mark → G ts a → After mark G (t :: ts) a

/-- An identifier. -/
inductive Name : List Token → String → Prop
  | intro {t : Token} : t.kind = .identifier → Name [t] t.text

/-! ### Declarations -/

/-- Identifiers with commas between them. -/
inductive Names : List Token → List String → Prop
  | intro {ts us : List Token} {name : String} {names : List String} :
      Name ts name → Many (After .comma Name) us names → Names (ts ++ us) (name :: names)

/-- The declaration of the roles. -/
inductive RolesDecl : List Token → List String → Prop
  | intro {word colon : Token} {ts : List Token} {names : List String} :
      word.kind = .rolesWord → colon.kind = .colon → Names ts names →
      RolesDecl (word :: colon :: ts) names

/-- The owners of a key: any number of them, but at least one, or exactly one. -/
inductive Owners : Bool → List Token → List String → Prop
  | several {ts : List Token} {names : List String} : Names ts names → Owners true ts names
  | single {ts : List Token} {name : String} : Name ts name → Owners false ts [name]

/-- The declaration of a key of some kind, from the word `key` on. -/
inductive KeyTail (kind : KeyKind) (many : Bool) : List Token → KeyDecl → Prop
  | intro {word t colon : Token} {ts : List Token} {owners : List String} :
      word.kind = .keyWord → t.kind = .identifier → colon.kind = .colon →
      Owners many ts owners → KeyTail kind many (word :: t :: colon :: ts) ⟨kind, t.text, owners⟩

/-- The declaration of a key or a nonce. -/
inductive Decl : List Token → KeyDecl ⊕ NonceDecl → Prop
  | sharedKey {word : Token} {ts : List Token} {d : KeyDecl} :
      word.kind = .sharedWord → KeyTail .shared true ts d → Decl (word :: ts) (.inl d)
  | privateKey {word : Token} {ts : List Token} {d : KeyDecl} :
      word.kind = .privateWord → KeyTail .privateHalf true ts d → Decl (word :: ts) (.inl d)
  | publicKey {word : Token} {ts : List Token} {d : KeyDecl} :
      word.kind = .publicWord → KeyTail .publicHalf false ts d → Decl (word :: ts) (.inl d)
  | nonce {word t colon owner : Token} :
      word.kind = .nonceWord → t.kind = .identifier → colon.kind = .colon →
      owner.kind = .identifier → Decl [word, t, colon, owner] (.inr ⟨t.text, owner.text⟩)

/-! ### Messages -/

/-- The sorts of phrases inside a statement. -/
inductive Phrase where
  | operand
  | expr

/-- The phrases inside a statement. -/
inductive Spells : Phrase → List Token → Node → Prop
  | ident {t : Token} : t.kind = .identifier → Spells .operand [t] (.ident t.text)
  | enc {word opening key comma closing : Token} {ts : List Token} {m : Node} :
      word.kind = .encWord → opening.kind = .leftParen → key.kind = .identifier →
      comma.kind = .comma → Spells .expr ts m → closing.kind = .rightParen →
      Spells .operand (word :: opening :: key :: comma :: (ts ++ [closing])) (.enc key.text m)
  | mac {word opening key comma closing : Token} {ts : List Token} {m : Node} :
      word.kind = .macWord → opening.kind = .leftParen → key.kind = .identifier →
      comma.kind = .comma → Spells .expr ts m → closing.kind = .rightParen →
      Spells .operand (word :: opening :: key :: comma :: (ts ++ [closing])) (.mac key.text m)
  | sign {word opening key comma closing : Token} {ts : List Token} {m : Node} :
      word.kind = .signWord → opening.kind = .leftParen → key.kind = .identifier →
      comma.kind = .comma → Spells .expr ts m → closing.kind = .rightParen →
      Spells .operand (word :: opening :: key :: comma :: (ts ++ [closing])) (.sign key.text m)
  | verify {word opening key comma comma' closing : Token} {ts us : List Token} {m s : Node} :
      word.kind = .vrfyWord → opening.kind = .leftParen → key.kind = .identifier →
      comma.kind = .comma → Spells .expr ts m → comma'.kind = .comma → Spells .expr us s →
      closing.kind = .rightParen →
      Spells .operand (word :: opening :: key :: comma :: (ts ++ comma' :: (us ++ [closing])))
        (.verify key.text m s)
  | hash {word opening closing : Token} {ts : List Token} {m : Node} :
      word.kind = .hashWord → opening.kind = .leftParen → Spells .expr ts m →
      closing.kind = .rightParen →
      Spells .operand (word :: opening :: (ts ++ [closing])) (.hash m)
  | operand {ts : List Token} {n : Node} : Spells .operand ts n → Spells .expr ts n
  | join {ts us : List Token} {bar : Token} {l r : Node} :
      Spells .expr ts l → bar.kind = .join → Spells .operand us r →
      Spells .expr (ts ++ bar :: us) (.concat l r)

/-- A statement. -/
inductive Stmt : List Token → Node → Prop
  | assign {t equals : Token} {ts : List Token} {n : Node} :
      t.kind = .identifier → equals.kind = .equals → Spells .expr ts n →
      Stmt (t :: equals :: ts) (.assign t.text n)
  | expr {ts : List Token} {n : Node} : Spells .expr ts n → Stmt ts n

/-- A message. -/
inductive Msg : List Token → Message → Prop
  | intro {s arrow r colon : Token} {ts : List Token} {n : Node} :
      s.kind = .identifier → arrow.kind = .arrow → r.kind = .identifier →
      colon.kind = .colon → Stmt ts n →
      Msg (s :: arrow :: r :: colon :: ts) ⟨s.text, r.text, n⟩

/-- A protocol: the roles, then declarations, then messages. -/
inductive Sentence : List Token → Protocol → Prop
  | intro {ts us vs : List Token} {roles : List String}
      {decls : List (KeyDecl ⊕ NonceDecl)} {messages : List Message} :
      RolesDecl ts roles → Many Decl us decls → Many Msg vs messages →
      Sentence (ts ++ (us ++ vs)) {
        roles
        keys := decls.filterMap (·.getLeft?)
        nonces := decls.filterMap (·.getRight?)
        messages }

/-! ### Shape of what is spelled -/

theorem Spells.isExpr {phrase : Phrase} {ts : List Token} {n : Node}
    (h : Spells phrase ts n) : n.IsExpr := by
  induction h with
  | ident => exact .ident _
  | enc _ _ _ _ _ _ ih => exact .enc _ ih
  | mac _ _ _ _ _ _ ih => exact .mac _ ih
  | sign _ _ _ _ _ _ ih => exact .sign _ ih
  | verify _ _ _ _ _ _ _ _ ihm ihs => exact .verify _ ihm ihs
  | hash _ _ _ _ ih => exact .hash ih
  | operand _ ih => exact ih
  | join _ _ _ ihl ihr => exact .concat ihl ihr

theorem Stmt.isStatement {ts : List Token} {n : Node} (h : Stmt ts n) : n.IsStatement := by
  cases h with
  | assign _ _ h => exact .assign _ h.isExpr
  | expr h => exact .expr h.isExpr

theorem Many.forall_mem {α : Type} {G : List Token → α → Prop} {P : α → Prop}
    (hG : ∀ ts a, G ts a → P a) {ts : List Token} {as : List α} (h : Many G ts as) :
    ∀ a ∈ as, P a := by
  induction h with
  | nil => exact fun _ h => absurd h List.not_mem_nil
  | cons h _ ih =>
    intro b hb
    rcases List.mem_cons.mp hb with rfl | hb
    · exact hG _ _ h
    · exact ih b hb

/-- Every message of a protocol that is spelled by tokens carries a statement. -/
theorem Sentence.isStatement {ts : List Token} {p : Protocol} (h : Sentence ts p) :
    ∀ m ∈ p.messages, m.body.IsStatement := by
  cases h with
  | intro _ _ hmessages =>
    refine hmessages.forall_mem fun us m hm => ?_
    cases hm with
    | intro _ _ _ _ hstmt => exact hstmt.isStatement

/-- An expression that spells a name is a single identifier. -/
theorem Spells.ident_inv {phrase : Phrase} {ts : List Token} {x : String}
    (h : Spells phrase ts (.ident x)) :
    ∃ t : Token, t.kind = .identifier ∧ t.text = x ∧ ts = [t] := by
  generalize hn : Node.ident x = n at h
  induction h with
  | ident ht =>
    cases hn
    exact ⟨_, ht, rfl, rfl⟩
  | operand _ ih => exact ih hn
  | enc => cases hn
  | mac => cases hn
  | sign => cases hn
  | verify => cases hn
  | hash => cases hn
  | join => cases hn

theorem Spells.ne_nil {phrase : Phrase} {ts : List Token} {n : Node} (h : Spells phrase ts n) :
    ts ≠ [] := by
  induction h with
  | operand _ ih => exact ih
  | join => simp
  | _ => exact List.cons_ne_nil _ _

theorem Spells.eq_ident {phrase : Phrase} {t : Token} {n : Node} (h : Spells phrase [t] n) :
    n = .ident t.text := by
  generalize hts : [t] = ts at h
  induction h with
  | ident =>
    cases hts
    rfl
  | operand _ ih => exact ih hts
  | join hl =>
    have hlength := congrArg List.length hts
    have hne := List.length_pos_iff.mpr hl.ne_nil
    simp only [List.length_append, List.length_cons, List.length_nil] at hlength
    omega
  | enc => cases hts
  | mac => cases hts
  | sign => cases hts
  | verify => cases hts
  | hash => cases hts

/-- An identifier at the start of an expression is all of it or has a bar after it. -/
theorem Spells.second_join {phrase : Phrase} {x y : Token} {ts : List Token} {n : Node}
    (h : Spells phrase (x :: y :: ts) n) (hx : x.kind = .identifier) : y.kind = .join := by
  generalize hus : x :: y :: ts = us at h
  induction h generalizing ts with
  | ident => cases hus
  | operand _ ih => exact ih hus
  | @join vs ws bar _ _ hl hbar _ ihl _ =>
    match vs with
    | [] => exact (hl.ne_nil rfl).elim
    | [_] =>
      cases hus
      exact hbar
    | _ :: _ :: rest =>
      obtain ⟨rfl, rfl, rfl⟩ : _ ∧ _ ∧ ts = rest ++ bar :: ws := by simpa using hus
      exact ihl rfl
  | enc hword => cases hus; simp [hword] at hx
  | mac hword => cases hus; simp [hword] at hx
  | sign hword => cases hus; simp [hword] at hx
  | verify hword => cases hus; simp [hword] at hx
  | hash hword => cases hus; simp [hword] at hx

theorem Decl.exists_cons {ts : List Token} {d : KeyDecl ⊕ NonceDecl} (h : Decl ts d) :
    ∃ t us, ts = t :: us ∧ t.kind ≠ .comma := by
  cases h with
  | sharedKey hword => exact ⟨_, _, rfl, by simp [hword]⟩
  | privateKey hword => exact ⟨_, _, rfl, by simp [hword]⟩
  | publicKey hword => exact ⟨_, _, rfl, by simp [hword]⟩
  | nonce hword => exact ⟨_, _, rfl, by simp [hword]⟩

theorem Msg.exists_cons {ts : List Token} {m : Message} (h : Msg ts m) :
    ∃ t us, ts = t :: us ∧ t.kind = .identifier := by
  cases h with
  | intro hsender => exact ⟨_, _, rfl, hsender⟩

/-! ### Concatenations -/

/-- Operands after an expression, each with a bar in front of it, are joined from the left. -/
theorem Spells.foldl {ts us : List Token} {l : Node} {rs : List Node} (h : Spells .expr ts l)
    (hrest : Many (After .join (Spells .operand)) us rs) :
    Spells .expr (ts ++ us) (rs.foldl .concat l) := by
  induction hrest generalizing ts l with
  | nil =>
    rw [List.append_nil]
    exact h
  | @cons vs us r rs hr _ ih =>
    cases hr with
    | intro hbar hr =>
      rw [← List.append_assoc]
      exact ih (h.join hbar hr)

theorem Many.snoc {α : Type} {G : List Token → α → Prop} {ts us : List Token} {as : List α} {a : α}
    (h : Many G ts as) (ha : G us a) : Many G (ts ++ us) (as ++ [a]) := by
  induction h with
  | nil =>
    have := Many.cons ha .nil
    rwa [List.append_nil] at this
  | cons hb _ ih =>
    rw [List.append_assoc]
    exact .cons hb ih

/-- An expression is an operand and further operands, each with a bar in front of it. -/
theorem Spells.exists_foldl {ts : List Token} {n : Node} (h : Spells .expr ts n) :
    ∃ us vs first rest, ts = us ++ vs ∧ Spells .operand us first ∧
      Many (After .join (Spells .operand)) vs rest ∧ n = rest.foldl .concat first := by
  generalize hphrase : Phrase.expr = phrase at h
  induction h with
  | operand h => exact ⟨_, [], _, [], (List.append_nil _).symm, h, .nil, rfl⟩
  | join _ hbar hr ihl _ =>
    obtain ⟨us, vs, first, rest, rfl, hfirst, hrest, rfl⟩ := ihl rfl
    refine ⟨us, _, first, rest ++ [_], List.append_assoc .., hfirst,
      hrest.snoc (.intro hbar hr), ?_⟩
    rw [List.foldl_append]
    rfl
  | ident => cases hphrase
  | enc => cases hphrase
  | mac => cases hphrase
  | sign => cases hphrase
  | verify => cases hphrase
  | hash => cases hphrase

end Wiretap.Grammar
