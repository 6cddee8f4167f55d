import Wiretap.Proofs.Parsing.Soundness

/-! Completeness of the parser against the grammar. A rule is complete if it returns whatever the
tokens in front of it spell, as long as the token after them cannot be mistaken for a part of
them. -/

namespace Wiretap

open Grammar

namespace Rule

variable {α β : Type} {s t u : Stream}

/-- The rule reads any phrase of at most `n` tokens that is followed by a token of a kind in `F`,
and returns what the phrase spells. -/
def Complete (n : Nat) (r : Rule α) (G : List Token → α → Prop) (F : Kind → Prop) : Prop :=
  ∀ ⦃s ts a t⦄, ts.length ≤ n → G ts a → s.Passes ts t → F t.peek.kind → r s = .ok a t

/-- The same for a rule that may find nothing. -/
def Finds (n : Nat) (item : Rule (Option α)) (G : List Token → α → Prop) (F : Kind → Prop) : Prop :=
  ∀ ⦃s ts a t⦄, ts.length ≤ n → G ts a → s.Passes ts t → F t.peek.kind → item s = .ok (some a) t

/-- The rule finds nothing in front of a token of a kind in `E`. -/
def Skips (item : Rule (Option α)) (E : Kind → Prop) : Prop :=
  ∀ ⦃s : Stream⦄, E s.peek.kind → item s = .ok none s

theorem bind_ok {r : Rule α} {f : α → Rule β} {a : α} {b : β} (h : r s = .ok a t)
    (h' : f a t = .ok b u) : (r >>= f) s = .ok b u :=
  bind_eq_ok.mpr ⟨a, t, h, h'⟩

theorem consume_ok {k : Kind} {expected : Expectation} {x : Token} (hx : x.kind = k)
    (hpass : s.Passes [x] t) : consume k expected s = .ok x t := by
  have hk : k ≠ .ending := by
    rw [← hx]
    exact s.ahead_kind x (by simp [hpass.ahead])
  exact (consume_eq_ok hk).mpr ⟨hx, hpass⟩

/-- What follows a phrase in front of others is again a phrase, or what follows them all. -/
theorem follow_of_many {G : List Token → α → Prop} {F : Kind → Prop} {ts : List Token}
    {as : List α} (hfirst : ∀ us a, G us a → ∃ x vs, us = x :: vs ∧ F x.kind) (h : Many G ts as)
    (hpass : s.Passes ts t) (ht : F t.peek.kind) : F s.peek.kind := by
  cases h with
  | nil =>
    rw [(Stream.Passes.refl s).unique hpass]
    exact ht
  | cons ha _ =>
    obtain ⟨x, vs, rfl, hx⟩ := hfirst _ _ ha
    rw [Stream.Passes.peek hpass]
    exact hx

theorem manyUpTo_complete {n : Nat} {item : Rule (Option α)} {G : List Token → α → Prop}
    {E F : Kind → Prop} (hfinds : item.Finds n G F) (hskips : item.Skips E)
    (hfirst : ∀ us a, G us a → ∃ x vs, us = x :: vs ∧ F x.kind) {ts : List Token} {as : List α}
    (hts : ts.length ≤ n) (h : Many G ts as) (hpass : s.Passes ts t) (hF : F t.peek.kind)
    (hE : E t.peek.kind) (limit : Nat) (found : List α) (hlimit : ts.length < limit) :
    manyUpTo item limit found s = .ok (found.reverse ++ as) t := by
  induction h generalizing s limit found with
  | nil =>
    obtain rfl := (Stream.Passes.refl s).unique hpass
    cases limit with
    | zero => exact absurd hlimit (Nat.not_lt_zero _)
    | succ limit => simp [manyUpTo, hskips hE]
  | @cons us vs a as ha hmany ih =>
    obtain ⟨u, pus, pvs⟩ := hpass.split
    have hu : F u.peek.kind := follow_of_many hfirst hmany pvs hF
    obtain ⟨x, ws, rfl, -⟩ := hfirst us a ha
    simp only [List.length_append, List.length_cons] at hts hlimit
    cases limit with
    | zero => exact absurd hlimit (Nat.not_lt_zero _)
    | succ limit =>
      have hitem := hfinds (by simp only [List.length_cons]; omega) ha pus hu
      simp only [manyUpTo, hitem]
      rw [ih (by omega) pvs limit (a :: found) (by omega)]
      simp

theorem many_complete {n : Nat} {item : Rule (Option α)} {G : List Token → α → Prop}
    {E F : Kind → Prop} (hfinds : item.Finds n G F) (hskips : item.Skips E)
    (hfirst : ∀ us a, G us a → ∃ x vs, us = x :: vs ∧ F x.kind) :
    (many item).Complete n (Many G) fun k => F k ∧ E k := by
  intro s ts as t hts h hpass hnext
  have hlimit : ts.length < s.ahead.length + 1 := by
    rw [hpass.ahead, List.length_append]
    omega
  exact manyUpTo_complete hfinds hskips hfirst hts h hpass hnext.1 hnext.2 _ [] hlimit

theorem after_finds {n : Nat} {mark : Kind} {item : Rule α} {G : List Token → α → Prop}
    {F : Kind → Prop} (hitem : item.Complete n G F) :
    (after mark item).Finds n (After mark G) F := by
  intro s ts a t hts h hpass ht
  cases h with
  | @intro x us _ hx ha =>
    rw [List.length_cons] at hts
    unfold after
    rw [accept_bind_eq, if_pos (hpass.peek ▸ hx)]
    apply bind_ok (hitem (by omega) ha hpass.advance ht)
    rfl

theorem after_skips {mark : Kind} {item : Rule α} : (after mark item).Skips (· ≠ mark) := by
  intro s hs
  unfold after
  rw [accept_bind_eq, if_neg hs]
  rfl

theorem many_after_complete {n : Nat} {mark : Kind} {item : Rule α} {G : List Token → α → Prop}
    (hitem : item.Complete n G fun _ => True) :
    (many (after mark item)).Complete n (Many (After mark G)) (· ≠ mark) := by
  intro s ts as t hts h hpass ht
  refine many_complete (after_finds hitem) after_skips (fun us a ha => ?_) hts h hpass ⟨trivial, ht⟩
  cases ha
  exact ⟨_, _, rfl, trivial⟩

theorem name_ok {expected : Expectation} {ts : List Token} {x : String} (hname : Name ts x)
    (hpass : s.Passes ts t) : name expected s = .ok x t :=
  name_eq_ok.mpr ⟨ts, hpass, hname⟩

theorem name_complete (n : Nat) (expected : Expectation) :
    (name expected).Complete n Name fun _ => True :=
  fun _ _ _ _ _ hname hpass _ => name_ok hname hpass

theorem names_complete (n : Nat) (first next : Expectation) :
    (names first next).Complete n Names (· ≠ .comma) := by
  intro s ts ns t hts h hpass ht
  cases h with
  | intro hname hrest =>
    obtain ⟨u, pname, prest⟩ := hpass.split
    rw [List.length_append] at hts
    apply bind_ok (name_ok hname pname)
    apply bind_ok (many_after_complete (name_complete n next) (by omega) hrest prest ht)
    rfl

theorem rolesDecl_complete (n : Nat) : rolesDecl.Complete n RolesDecl (· ≠ .comma) := by
  intro s ts names t hts h hpass ht
  cases h with
  | intro hword hcolon hnames =>
    obtain ⟨s₁, pword, hpass⟩ := hpass.uncons
    obtain ⟨s₂, pcolon, hpass⟩ := hpass.uncons
    simp only [List.length_cons] at hts
    apply bind_ok (consume_ok hword pword)
    apply bind_ok (consume_ok hcolon pcolon)
    exact names_complete n _ _ (by omega) hnames hpass ht

theorem keyDecl_complete (n : Nat) (form : KeyForm) :
    (keyDecl form).Complete n (KeyTail form.kind form.many) (· ≠ .comma) := by
  intro s ts d t hts h hpass ht
  cases h with
  | intro hword hident hcolon howners =>
    obtain ⟨s₁, pword, hpass⟩ := hpass.uncons
    obtain ⟨s₂, pkey, hpass⟩ := hpass.uncons
    obtain ⟨s₃, pcolon, hpass⟩ := hpass.uncons
    simp only [List.length_cons] at hts
    apply bind_ok (consume_ok hword pword)
    apply bind_ok (name_ok (.intro hident) pkey)
    apply bind_ok (consume_ok hcolon pcolon)
    generalize hmany : form.many = many at howners
    cases howners with
    | several hnames =>
      simp only [if_true]
      apply bind_ok (names_complete n _ _ (by omega) hnames hpass ht)
      rfl
    | single hname =>
      simp only [Bool.false_eq_true, if_false]
      apply bind_ok (name_ok hname hpass)
      rw [check_bind_eq, if_neg (by simpa using ht)]
      rfl

theorem nonceDecl_ok {x colon owner : Token} (hx : x.kind = .identifier)
    (hcolon : colon.kind = .colon) (howner : owner.kind = .identifier)
    (hpass : s.Passes [x, colon, owner] t) : nonceDecl s = .ok ⟨x.text, owner.text⟩ t := by
  obtain ⟨s₁, px, hpass⟩ := hpass.uncons
  obtain ⟨s₂, pcolon, powner⟩ := hpass.uncons
  apply bind_ok (name_ok (.intro hx) px)
  apply bind_ok (consume_ok hcolon pcolon)
  apply bind_ok (name_ok (.intro howner) powner)
  rfl

theorem decl?_finds (n : Nat) : decl?.Finds n Decl (· ≠ .comma) := by
  intro s ts d t hts h hpass ht
  unfold decl?
  simp only [accept_bind_eq, if_true, Bool.false_eq_true, if_false]
  cases h with
  | sharedKey hword htail =>
    simp only [hpass.peek, hword, if_true]
    rw [List.length_cons] at hts
    apply bind_ok (keyDecl_complete n .shared (by omega) htail hpass.advance ht)
    rfl
  | privateKey hword htail =>
    simp only [hpass.peek, hword, reduceCtorEq, if_true, if_false]
    rw [List.length_cons] at hts
    apply bind_ok (keyDecl_complete n .privateHalf (by omega) htail hpass.advance ht)
    rfl
  | publicKey hword htail =>
    simp only [hpass.peek, hword, reduceCtorEq, if_true, if_false]
    rw [List.length_cons] at hts
    apply bind_ok (keyDecl_complete n .publicHalf (by omega) htail hpass.advance ht)
    rfl
  | nonce hword hident hcolon hident' =>
    simp only [hpass.peek, hword, reduceCtorEq, if_true, if_false]
    apply bind_ok (nonceDecl_ok hident hcolon hident' hpass.advance)
    rfl

theorem decl?_skips : decl?.Skips fun k => startsDecl k = false := by
  intro s hs
  simp only [startsDecl, Bool.or_eq_false_iff, beq_eq_false_iff_ne] at hs
  obtain ⟨⟨⟨hshared, hpublic⟩, hprivate⟩, hnonce⟩ := hs
  unfold decl?
  simp only [accept_bind_eq, hshared, hpublic, hprivate, hnonce, Bool.false_eq_true, if_false]
  rfl

theorem decls_complete (n : Nat) :
    (many decl?).Complete n (Many Decl) fun k => k ≠ .comma ∧ startsDecl k = false := by
  exact many_complete (decl?_finds n) decl?_skips fun _ _ h => h.exists_cons

theorem enc_ok {n : Nat} {expr : Rule Node} (hexpr : expr.Complete n (Spells .expr) (· ≠ .join))
    {opening key comma closing : Token} {ts : List Token} {m : Node} (hn : 1 ≤ n)
    (hts : ts.length ≤ n) (hopening : opening.kind = .leftParen) (hkey : key.kind = .identifier)
    (hcomma : comma.kind = .comma) (hm : Spells .expr ts m) (hclosing : closing.kind = .rightParen)
    (hpass : s.Passes (opening :: key :: comma :: (ts ++ [closing])) t) :
    enc expr s = .ok (.enc key.text m) t := by
  obtain ⟨s₁, popening, hpass⟩ := hpass.uncons
  obtain ⟨s₂, pkey, hpass⟩ := hpass.uncons
  obtain ⟨s₃, pcomma, hpass'⟩ := hpass.uncons
  obtain ⟨s₄, pm, pclosing⟩ := hpass'.split
  apply bind_ok (consume_ok hopening popening)
  apply bind_ok rfl
  apply bind_ok (hexpr (show [key].length ≤ n from hn) (.operand (.ident hkey)) pkey
    (by rw [hpass.peek]; simp [hcomma]))
  apply bind_ok (consume_ok hcomma pcomma)
  apply bind_ok (hexpr hts hm pm (by rw [pclosing.peek]; simp [hclosing]))
  apply bind_ok (consume_ok hclosing pclosing)
  rfl

theorem keyed_ok {n : Nat} {expr : Rule Node} (hexpr : expr.Complete n (Spells .expr) (· ≠ .join))
    {construct : Construct} {keyExpected commaExpected : Expectation}
    {make : String → Node → Node} {opening key comma closing : Token} {ts : List Token} {m : Node}
    (hts : ts.length ≤ n) (hopening : opening.kind = .leftParen) (hkey : key.kind = .identifier)
    (hcomma : comma.kind = .comma) (hm : Spells .expr ts m) (hclosing : closing.kind = .rightParen)
    (hpass : s.Passes (opening :: key :: comma :: (ts ++ [closing])) t) :
    keyed construct keyExpected commaExpected make expr s = .ok (make key.text m) t := by
  obtain ⟨s₁, popening, hpass⟩ := hpass.uncons
  obtain ⟨s₂, pkey, hpass⟩ := hpass.uncons
  obtain ⟨s₃, pcomma, hpass⟩ := hpass.uncons
  obtain ⟨s₄, pm, pclosing⟩ := hpass.split
  apply bind_ok (consume_ok hopening popening)
  apply bind_ok (name_ok (.intro hkey) pkey)
  apply bind_ok (consume_ok hcomma pcomma)
  apply bind_ok (hexpr hts hm pm (by rw [pclosing.peek]; simp [hclosing]))
  apply bind_ok (consume_ok hclosing pclosing)
  rfl

theorem verify_ok {n : Nat} {expr : Rule Node}
    (hexpr : expr.Complete n (Spells .expr) (· ≠ .join))
    {opening key comma comma' closing : Token} {ts us : List Token} {m signature : Node}
    (hts : ts.length ≤ n) (hus : us.length ≤ n) (hopening : opening.kind = .leftParen)
    (hkey : key.kind = .identifier) (hcomma : comma.kind = .comma) (hm : Spells .expr ts m)
    (hcomma' : comma'.kind = .comma) (hsignature : Spells .expr us signature)
    (hclosing : closing.kind = .rightParen)
    (hpass : s.Passes (opening :: key :: comma :: (ts ++ comma' :: (us ++ [closing]))) t) :
    verify expr s = .ok (.verify key.text m signature) t := by
  obtain ⟨s₁, popening, hpass⟩ := hpass.uncons
  obtain ⟨s₂, pkey, hpass⟩ := hpass.uncons
  obtain ⟨s₃, pcomma, hpass⟩ := hpass.uncons
  obtain ⟨s₄, pm, hpass⟩ := hpass.split
  obtain ⟨s₅, pcomma', hpass'⟩ := hpass.uncons
  obtain ⟨s₆, psignature, pclosing⟩ := hpass'.split
  apply bind_ok (consume_ok hopening popening)
  apply bind_ok (name_ok (.intro hkey) pkey)
  apply bind_ok (consume_ok hcomma pcomma)
  apply bind_ok (hexpr hts hm pm (by rw [hpass.peek]; simp [hcomma']))
  apply bind_ok (consume_ok hcomma' pcomma')
  apply bind_ok (hexpr hus hsignature psignature (by rw [pclosing.peek]; simp [hclosing]))
  apply bind_ok (consume_ok hclosing pclosing)
  rfl

theorem hash_ok {n : Nat} {expr : Rule Node} (hexpr : expr.Complete n (Spells .expr) (· ≠ .join))
    {opening closing : Token} {ts : List Token} {m : Node} (hts : ts.length ≤ n)
    (hopening : opening.kind = .leftParen) (hm : Spells .expr ts m)
    (hclosing : closing.kind = .rightParen)
    (hpass : s.Passes (opening :: (ts ++ [closing])) t) : hash expr s = .ok (.hash m) t := by
  obtain ⟨s₁, popening, hpass⟩ := hpass.uncons
  obtain ⟨s₂, pm, pclosing⟩ := hpass.split
  apply bind_ok (consume_ok hopening popening)
  apply bind_ok (hexpr hts hm pm (by rw [pclosing.peek]; simp [hclosing]))
  apply bind_ok (consume_ok hclosing pclosing)
  rfl

/-- An operand needs no look at what follows it. The expressions inside it are shorter. -/
theorem operand_complete {n : Nat} {expr : Rule Node}
    (hexpr : expr.Complete n (Spells .expr) (· ≠ .join)) :
    (operand expr).Complete (n + 1) (Spells .operand) fun _ => True := by
  intro s ts m t hts h hpass _
  unfold operand
  simp only [accept_bind_eq, check_bind_eq, if_true, Bool.false_eq_true, if_false, mac_eq_keyed,
    sign_eq_keyed]
  cases h with
  | ident hident =>
    simp only [hpass.peek, hident, reduceCtorEq, if_false]
    apply bind_ok (name_ok (.intro hident) hpass)
    rfl
  | enc hword hopening hkey hcomma hm hclosing =>
    simp only [hpass.peek, hword, if_true]
    simp only [List.length_cons, List.length_append] at hts
    exact enc_ok hexpr (by omega) (by omega) hopening hkey hcomma hm hclosing hpass.advance
  | mac hword hopening hkey hcomma hm hclosing =>
    simp only [hpass.peek, hword, reduceCtorEq, if_true, if_false]
    simp only [List.length_cons, List.length_append] at hts
    exact keyed_ok hexpr (by omega) hopening hkey hcomma hm hclosing hpass.advance
  | sign hword hopening hkey hcomma hm hclosing =>
    simp only [hpass.peek, hword, reduceCtorEq, if_true, if_false]
    simp only [List.length_cons, List.length_append] at hts
    exact keyed_ok hexpr (by omega) hopening hkey hcomma hm hclosing hpass.advance
  | verify hword hopening hkey hcomma hm hcomma' hs hclosing =>
    simp only [hpass.peek, hword, reduceCtorEq, if_true, if_false]
    simp only [List.length_cons, List.length_append] at hts
    exact verify_ok hexpr (by omega) (by omega) hopening hkey hcomma hm hcomma' hs hclosing
      hpass.advance
  | hash hword hopening hm hclosing =>
    simp only [hpass.peek, hword, reduceCtorEq, if_true, if_false]
    simp only [List.length_cons, List.length_append] at hts
    exact hash_ok hexpr (by omega) hopening hm hclosing hpass.advance

theorem joined_complete {n : Nat} {item : Rule Node}
    (hitem : item.Complete n (Spells .operand) fun _ => True) :
    (joined item).Complete n (Spells .expr) (· ≠ .join) := by
  intro s ts m t hts h hpass ht
  obtain ⟨us, vs, first, rest, rfl, hfirst, hrest, rfl⟩ := h.exists_foldl
  obtain ⟨u, pfirst, prest⟩ := hpass.split
  rw [List.length_append] at hts
  apply bind_ok (hitem (by omega) hfirst pfirst trivial)
  apply bind_ok (many_after_complete hitem (by omega) hrest prest ht)
  rfl

theorem exprWithin_complete (depth : Nat) :
    (exprWithin depth).Complete depth (Spells .expr) (· ≠ .join) := by
  induction depth with
  | zero =>
    intro s ts m t hts h
    exact absurd (List.eq_nil_of_length_eq_zero (Nat.le_zero.mp hts)) h.ne_nil
  | succ depth ih => exact joined_complete (operand_complete ih)

theorem expr_complete (n : Nat) : expr.Complete n (Spells .expr) (· ≠ .join) := by
  intro s ts m t _ h hpass ht
  have hts : ts.length ≤ s.ahead.length + 1 := by
    rw [hpass.ahead, List.length_append]
    omega
  exact exprWithin_complete _ hts h hpass ht

theorem second?_of_passes {x : Token} (hpass : s.Passes [x] t) : s.second? = some t.peek := by
  have hahead : s.ahead = x :: t.ahead := hpass.ahead
  unfold Stream.second? Stream.peek
  rw [hahead]
  cases t.ahead with
  | nil => simp [hpass.stop]
  | cons y rest => rfl

theorem stmt_complete (n : Nat) : stmt.Complete n Stmt fun k => k ≠ .join ∧ k ≠ .equals := by
  intro s ts m t hts h hpass ht
  apply bind_ok rfl
  apply bind_ok rfl
  cases h with
  | assign hident hequals hvalue =>
    obtain ⟨s₁, ptarget, hpass⟩ := hpass.uncons
    obtain ⟨s₂, pequals, hpass'⟩ := hpass.uncons
    simp only [List.length_cons] at hts
    rw [if_pos (by simp [ptarget.peek, hident, second?_of_passes ptarget, hpass.peek, hequals])]
    apply bind_ok (name_ok (.intro hident) ptarget)
    apply bind_ok (consume_ok hequals pequals)
    apply bind_ok (expr_complete n (by omega) hvalue hpass' ht.1)
    rfl
  | expr h =>
    rw [if_neg]
    · exact expr_complete n hts h hpass ht.1
    -- An expression does not start like an assignment: a bar or what follows the statement
    -- stands after a name at its start.
    · match ts with
      | [] => exact (h.ne_nil rfl).elim
      | [x] => simp [second?_of_passes hpass, ht.2]
      | x :: y :: rest =>
        obtain ⟨s₁, px, hpass⟩ := hpass.uncons
        intro hboth
        simp only [px.peek, second?_of_passes px, hpass.peek, Option.any_some, Bool.and_eq_true,
          beq_iff_eq] at hboth
        have hjoin := h.second_join hboth.1
        simp [hjoin] at hboth

theorem message_complete (n : Nat) :
    message.Complete n Msg fun k => k ≠ .join ∧ k ≠ .equals := by
  intro s ts m t hts h hpass ht
  cases h with
  | intro hsender harrow hreceiver hcolon hbody =>
    obtain ⟨s₁, psender, hpass⟩ := hpass.uncons
    obtain ⟨s₂, parrow, hpass⟩ := hpass.uncons
    obtain ⟨s₃, preceiver, hpass⟩ := hpass.uncons
    obtain ⟨s₄, pcolon, hpass⟩ := hpass.uncons
    simp only [List.length_cons] at hts
    apply bind_ok (name_ok (.intro hsender) psender)
    apply bind_ok (consume_ok harrow parrow)
    apply bind_ok (name_ok (.intro hreceiver) preceiver)
    apply bind_ok (consume_ok hcolon pcolon)
    apply bind_ok (stmt_complete n (by omega) hbody hpass ht)
    rfl

theorem message?_finds (n : Nat) :
    message?.Finds n Msg fun k => k ≠ .join ∧ k ≠ .equals := by
  intro s ts m t hts h hpass ht
  obtain ⟨x, us, rfl, hx⟩ := h.exists_cons
  unfold message?
  rw [check_bind_eq, if_pos (by simp [hpass.peek, hx])]
  apply bind_ok (message_complete n hts h hpass ht)
  rfl

theorem message?_skips : message?.Skips (· ≠ .identifier) := by
  intro s hs
  unfold message?
  rw [check_bind_eq, if_neg (by simpa using hs)]
  rfl

theorem messages_complete (n : Nat) :
    (many message?).Complete n (Many Msg) fun k =>
      (k ≠ .join ∧ k ≠ .equals) ∧ k ≠ .identifier := by
  refine many_complete (message?_finds n) message?_skips fun us m h => ?_
  obtain ⟨x, vs, hus, hx⟩ := h.exists_cons
  exact ⟨x, vs, hus, by simp [hx]⟩

/-- The parser accepts every sentence, and returns what it spells. -/
theorem protocol_complete {p : Protocol} (h : Sentence s.ahead p) : ∃ t, protocol s = .ok p t := by
  obtain ⟨t, hpass, hnil⟩ := s.exists_passes_all
  have hstop : t.peek.kind = .ending := Stream.peek_kind_of_nil hnil
  generalize s.ahead = w at h hpass
  cases h with
  | @intro ts us vs roles decls messages hroles hdecls hmessages =>
    obtain ⟨s₁, proles, hpass⟩ := hpass.split
    obtain ⟨s₂, pdecls, pmessages⟩ := hpass.split
    -- A declaration ends in front of a message or the end mark, the roles also in front of a
    -- declaration.
    have hnext : s₂.peek.kind ≠ .comma ∧ startsDecl s₂.peek.kind = false := by
      refine follow_of_many (F := fun k => k ≠ .comma ∧ startsDecl k = false) (fun ts m h => ?_)
        hmessages pmessages (by simp [hstop, startsDecl])
      obtain ⟨x, us, hts, hx⟩ := h.exists_cons
      exact ⟨x, us, hts, by simp [hx, startsDecl]⟩
    have hcomma : s₁.peek.kind ≠ .comma :=
      follow_of_many (F := (· ≠ .comma)) (fun _ _ h => h.exists_cons) hdecls pdecls hnext.1
    refine ⟨t.advance, ?_⟩
    apply bind_ok (rolesDecl_complete _ (Nat.le_refl _) hroles proles hcomma)
    apply bind_ok (decls_complete _ (Nat.le_refl _) hdecls pdecls hnext)
    apply bind_ok (messages_complete _ (Nat.le_refl _) hmessages pmessages (by simp [hstop]))
    apply bind_ok rfl
    rw [if_neg (by simp [hstop, startsDecl])]
    apply bind_ok (if_pos (by simp [hstop]))
    rfl

end Rule

end Wiretap
