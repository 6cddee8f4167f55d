import Mathlib.Data.List.Forall2
import Wiretap.Proofs.Parsing.Soundness

/-! What the parser reads of a token. It looks at the kind and, if the token is an identifier, at
the text, and it never looks past the first end mark. So two runs over tokens that agree in this
much go in step: they return the same protocol, or they make the same complaint at the same
place. -/

namespace Wiretap

/-- A relation between tokens that share what the parser reads of them. -/
structure Likeness where
  rel : Token → Token → Prop
  kind : ∀ {x y}, rel x y → x.kind = y.kind
  name : ∀ {x y}, rel x y → x.kind = .identifier → x.text = y.text

def Likeness.equal : Likeness where
  rel := Eq
  kind h := congrArg Token.kind h
  name h _ := congrArg Token.text h

/-- The streams have read the same number of tokens, and those up to the end mark are related. -/
structure Stream.Alike (R : Likeness) (s t : Stream) : Prop where
  consumed : s.consumed = t.consumed
  ahead : List.Forall₂ R.rel s.ahead t.ahead
  stop : R.rel s.stop t.stop

/-- The same complaint, about related tokens at the same place. -/
structure ParseError.Alike (R : Likeness) (e e' : ParseError) : Prop where
  expected : e.expected = e'.expected
  found : R.rel e.found e'.found
  index : e.index = e'.index

theorem ParseError.Alike.eq {e e' : ParseError} (h : e.Alike .equal e') : e = e' := by
  obtain ⟨expected, found, index⟩ := e
  obtain ⟨rfl, rfl, rfl⟩ := h
  rfl

variable {R : Likeness}

namespace Stream.Alike

variable {s t : Stream}

theorem peek (h : s.Alike R t) : R.rel s.peek t.peek := by
  have hahead := h.ahead
  unfold Stream.peek
  cases hs : s.ahead with
  | nil =>
    rw [hs, List.forall₂_nil_left_iff] at hahead
    rw [hahead]
    exact h.stop
  | cons x rest =>
    rw [hs, List.forall₂_cons_left_iff] at hahead
    obtain ⟨y, rest', hx, -, ht⟩ := hahead
    rw [ht]
    exact hx

theorem peek_kind (h : s.Alike R t) : s.peek.kind = t.peek.kind :=
  R.kind h.peek

theorem advance (h : s.Alike R t) : s.advance.Alike R t.advance := by
  obtain ⟨consumed, ahead, stop, beyond, hkind, hstop⟩ := s
  obtain ⟨consumed', ahead', stop', beyond', hkind', hstop'⟩ := t
  obtain ⟨rfl, hahead, hlast⟩ := h
  cases hahead with
  | nil => exact ⟨rfl, .nil, hlast⟩
  | cons _ hrest => exact ⟨rfl, hrest, hlast⟩

/-- The token after the next one is related too, unless the next one is the end mark. -/
theorem second? (h : s.Alike R t) (hne : s.ahead ≠ []) :
    ∃ x y, s.second? = some x ∧ t.second? = some y ∧ R.rel x y := by
  obtain ⟨consumed, ahead, stop, beyond, hkind, hstop⟩ := s
  obtain ⟨consumed', ahead', stop', beyond', hkind', hstop'⟩ := t
  obtain ⟨-, hahead, hlast⟩ := h
  cases hahead with
  | nil => exact absurd rfl hne
  | cons _ hrest =>
    cases hrest with
    | nil => exact ⟨stop, stop', rfl, rfl, hlast⟩
    | cons hsecond _ => exact ⟨_, _, rfl, rfl, hsecond⟩

end Stream.Alike

namespace Rule

variable {α β γ δ : Type}

/-- Related answers or the same complaint, at streams that are alike. -/
inductive Agree (R : Likeness) (V : α → β → Prop) :
    EStateM.Result ParseError Stream α → EStateM.Result ParseError Stream β → Prop
  | ok {a : α} {b : β} {s t : Stream} : V a b → s.Alike R t → Agree R V (.ok a s) (.ok b t)
  | error {e e' : ParseError} {s t : Stream} :
      e.Alike R e' → s.Alike R t → Agree R V (.error e s) (.error e' t)

/-- At streams that are alike the rules agree. -/
def InStep (R : Likeness) (V : α → β → Prop) (r : Rule α) (r' : Rule β) : Prop :=
  ∀ ⦃s t⦄, s.Alike R t → Agree R V (r s) (r' t)

/-- The answer of the rule is the same at all streams that are alike. -/
def Steady (R : Likeness) (r : Rule α) : Prop :=
  InStep R Eq r r

theorem InStep.bind {V : α → β → Prop} {W : γ → δ → Prop} {r : Rule α} {r' : Rule β}
    {f : α → Rule γ} {f' : β → Rule δ} (hr : InStep R V r r')
    (hf : ∀ a b, V a b → InStep R W (f a) (f' b)) : InStep R W (r >>= f) (r' >>= f') := by
  intro s t h
  change Agree R W (EStateM.bind r f s) (EStateM.bind r' f' t)
  unfold EStateM.bind
  have houtcome := hr h
  generalize r s = x at houtcome
  generalize r' t = y at houtcome
  cases houtcome with
  | ok hab h => exact hf _ _ hab h
  | error he h => exact .error he h

theorem Steady.bind {r : Rule α} {f : α → Rule β} (hr : r.Steady R) (hf : ∀ a, (f a).Steady R) :
    (r >>= f).Steady R :=
  InStep.bind hr fun a _ hab => hab ▸ hf a

theorem steady_pure (a : α) : (pure a : Rule α).Steady R :=
  fun _ _ h => .ok rfl h

theorem steady_ite {c : Prop} [Decidable c] {r r' : Rule α} (hr : r.Steady R)
    (hr' : r'.Steady R) : (if c then r else r').Steady R := by
  split
  · exact hr
  · exact hr'

/-! ### Single tokens -/

theorem alike_complaint {s t : Stream} (h : s.Alike R t) (expected : Expectation) :
    ParseError.Alike R ⟨expected, s.peek, s.consumed⟩ ⟨expected, t.peek, t.consumed⟩ :=
  ⟨rfl, h.peek, h.consumed⟩

theorem steady_refuse (expected : Expectation) : (refuse expected : Rule α).Steady R :=
  fun _ _ h => .error (alike_complaint h expected) h

theorem inStep_complaint (expected : Expectation) :
    InStep R (ParseError.Alike R) (complaint expected) (complaint expected) :=
  fun _ _ h => .ok (alike_complaint h expected) h

theorem inStep_throw {V : α → β → Prop} {e e' : ParseError} (he : e.Alike R e') :
    InStep R V (throw e) (throw e') :=
  fun _ _ h => .error he h

theorem inStep_peek : InStep R R.rel peek peek :=
  fun _ _ h => .ok h.peek h

theorem steady_check (k : Kind) : (check k).Steady R := by
  intro s t h
  unfold check
  rw [h.peek_kind]
  exact .ok rfl h

theorem steady_accept (k : Kind) : (accept k).Steady R := by
  intro s t h
  unfold accept
  rw [h.peek_kind]
  split
  · exact .ok rfl h.advance
  · exact .ok rfl h

theorem inStep_consume (k : Kind) (expected : Expectation) :
    InStep R (fun x y => R.rel x y ∧ x.kind = k) (consume k expected) (consume k expected) := by
  intro s t h
  unfold consume
  rw [← h.peek_kind]
  split
  · rename_i hkind
    exact .ok ⟨h.peek, beq_iff_eq.mp hkind⟩ h.advance
  · exact .error (alike_complaint h expected) h

theorem steady_name (expected : Expectation) : (name expected).Steady R :=
  (inStep_consume _ _).bind fun x y ⟨hxy, hkind⟩ => by
    rw [R.name hxy hkind]
    exact steady_pure _

/-! ### Repetition -/

theorem steady_manyUpTo {item : Rule (Option α)} (hitem : item.Steady R) (limit : Nat)
    (found : List α) : (manyUpTo item limit found).Steady R := by
  induction limit generalizing found with
  | zero => exact fun _ _ h => .ok rfl h
  | succ limit ih =>
    intro s t h
    unfold manyUpTo
    have houtcome := hitem h
    generalize item s = x at houtcome
    generalize item t = y at houtcome
    cases houtcome with
    | @ok o o' _ _ ho h =>
      subst ho
      cases o with
      | none => exact .ok rfl h
      | some a => exact ih (a :: found) h
    | error he h => exact .error he h

theorem steady_many {item : Rule (Option α)} (hitem : item.Steady R) : (many item).Steady R := by
  intro s t h
  unfold many
  rw [h.ahead.length_eq]
  exact steady_manyUpTo hitem _ [] h

theorem steady_after (mark : Kind) {item : Rule α} (hitem : item.Steady R) :
    (after mark item).Steady R :=
  (steady_accept mark).bind fun _ =>
    steady_ite (hitem.bind fun _ => steady_pure _) (steady_pure _)

theorem steady_names (first next : Expectation) : (names first next).Steady R :=
  (steady_name first).bind fun _ =>
    (steady_many (steady_after .comma (steady_name next))).bind fun _ => steady_pure _

/-! ### The rules of the grammar -/

theorem steady_rolesDecl : rolesDecl.Steady R :=
  (inStep_consume _ _).bind fun _ _ _ => (inStep_consume _ _).bind fun _ _ _ => steady_names _ _

theorem steady_keyDecl (form : KeyForm) : (keyDecl form).Steady R := by
  refine (inStep_consume _ _).bind fun _ _ _ => (steady_name _).bind fun _ =>
    (inStep_consume _ _).bind fun _ _ _ => steady_ite ?_ ?_
  · exact (steady_names _ _).bind fun _ => steady_pure _
  · exact (steady_name _).bind fun _ => (steady_check _).bind fun _ =>
      steady_ite (steady_refuse _) (steady_pure _)

theorem steady_nonceDecl : nonceDecl.Steady R :=
  (steady_name _).bind fun _ => (inStep_consume _ _).bind fun _ _ _ =>
    (steady_name _).bind fun _ => steady_pure _

theorem steady_decl? : decl?.Steady R := by
  have hkey (form : KeyForm) :
      (do return some (.inl (← keyDecl form)) : Rule (Option (KeyDecl ⊕ NonceDecl))).Steady R :=
    (steady_keyDecl form).bind fun _ => steady_pure _
  refine (steady_accept _).bind fun _ => steady_ite (hkey _) ?_
  refine (steady_accept _).bind fun _ => steady_ite (hkey _) ?_
  refine (steady_accept _).bind fun _ => steady_ite (hkey _) ?_
  exact (steady_accept _).bind fun _ =>
    steady_ite (steady_nonceDecl.bind fun _ => steady_pure _) (steady_pure _)

-- The complaint about the key is made of the next token before the key is read, so here the two
-- runs carry different values, and complain of them only if the key is no identifier.
theorem steady_enc {expr : Rule Node} (hexpr : expr.Steady R) : (enc expr).Steady R := by
  refine (inStep_consume _ _).bind fun _ _ _ => (inStep_complaint _).bind fun badKey badKey' hbad =>
    InStep.bind hexpr ?_
  rintro key _ rfl
  split
  · exact (inStep_consume _ _).bind fun _ _ _ => hexpr.bind fun _ =>
      (inStep_consume _ _).bind fun _ _ _ => steady_pure _
  · exact inStep_throw hbad

theorem steady_keyed (construct : Construct) (keyExpected commaExpected : Expectation)
    (make : String → Node → Node) {expr : Rule Node} (hexpr : expr.Steady R) :
    (keyed construct keyExpected commaExpected make expr).Steady R :=
  (inStep_consume _ _).bind fun _ _ _ => (steady_name _).bind fun _ =>
    (inStep_consume _ _).bind fun _ _ _ => hexpr.bind fun _ =>
      (inStep_consume _ _).bind fun _ _ _ => steady_pure _

theorem steady_verify {expr : Rule Node} (hexpr : expr.Steady R) : (verify expr).Steady R :=
  (inStep_consume _ _).bind fun _ _ _ => (steady_name _).bind fun _ =>
    (inStep_consume _ _).bind fun _ _ _ => hexpr.bind fun _ =>
      (inStep_consume _ _).bind fun _ _ _ => hexpr.bind fun _ =>
        (inStep_consume _ _).bind fun _ _ _ => steady_pure _

theorem steady_hash {expr : Rule Node} (hexpr : expr.Steady R) : (hash expr).Steady R :=
  (inStep_consume _ _).bind fun _ _ _ => hexpr.bind fun _ =>
    (inStep_consume _ _).bind fun _ _ _ => steady_pure _

theorem steady_operand {expr : Rule Node} (hexpr : expr.Steady R) : (operand expr).Steady R := by
  refine (steady_accept _).bind fun _ => steady_ite (steady_enc hexpr) ?_
  refine (steady_accept _).bind fun _ => steady_ite (steady_keyed _ _ _ _ hexpr) ?_
  refine (steady_accept _).bind fun _ => steady_ite (steady_keyed _ _ _ _ hexpr) ?_
  refine (steady_accept _).bind fun _ => steady_ite (steady_verify hexpr) ?_
  refine (steady_accept _).bind fun _ => steady_ite (steady_hash hexpr) ?_
  refine (steady_check _).bind fun _ => steady_ite ?_ (steady_refuse _)
  exact (steady_name _).bind fun _ => steady_pure _

theorem steady_joined {item : Rule Node} (hitem : item.Steady R) : (joined item).Steady R :=
  hitem.bind fun _ => (steady_many (steady_after .join hitem)).bind fun _ => steady_pure _

theorem steady_exprWithin (depth : Nat) : (exprWithin depth).Steady R := by
  induction depth with
  | zero => exact steady_refuse _
  | succ depth ih => exact steady_joined (steady_operand ih)

theorem steady_expr : expr.Steady R := by
  intro s t h
  unfold expr
  rw [h.ahead.length_eq]
  exact steady_exprWithin _ h

/-- Whether a statement at the start of the stream has a name. -/
def startsNamed (s : Stream) : Bool :=
  s.peek.kind == .identifier && s.second?.any (·.kind == .equals)

/-- A statement that is known to have a name or to have none. -/
def stmtIf (named : Bool) : Rule Node := do
  if named then
    let target ← name .target
    let _ ← consume .equals .equals
    return .assign target (← expr)
  else expr

theorem stmt_eq (s : Stream) : stmt s = stmtIf (startsNamed s) s :=
  rfl

theorem steady_stmtIf (named : Bool) : (stmtIf named).Steady R := by
  refine steady_ite ?_ steady_expr
  exact (steady_name _).bind fun _ => (inStep_consume _ _).bind fun _ _ _ =>
    steady_expr.bind fun _ => steady_pure _

/-- The token after the next one matters only if the next one is an identifier, and then it is no
later than the end mark. -/
theorem startsNamed_alike {s t : Stream} (h : s.Alike R t) : startsNamed s = startsNamed t := by
  unfold startsNamed
  rw [← h.peek_kind]
  by_cases hne : s.ahead = []
  · rw [Stream.peek_kind_of_nil hne]
    rfl
  · obtain ⟨x, y, hx, hy, hxy⟩ := h.second? hne
    rw [hx, hy, Option.any_some, Option.any_some, R.kind hxy]

theorem steady_stmt : stmt.Steady R := by
  intro s t h
  rw [stmt_eq, stmt_eq, startsNamed_alike h]
  exact steady_stmtIf _ h

theorem steady_message : message.Steady R :=
  (steady_name _).bind fun _ => (inStep_consume _ _).bind fun _ _ _ =>
    (steady_name _).bind fun _ => (inStep_consume _ _).bind fun _ _ _ =>
      steady_stmt.bind fun _ => steady_pure _

theorem steady_message? : message?.Steady R :=
  (steady_check _).bind fun _ =>
    steady_ite (steady_message.bind fun _ => steady_pure _) (steady_pure _)

theorem steady_protocol : protocol.Steady R := by
  refine steady_rolesDecl.bind fun _ => (steady_many steady_decl?).bind fun _ =>
    (steady_many steady_message?).bind fun _ => inStep_peek.bind fun next next' hnext => ?_
  rw [R.kind hnext]
  refine steady_ite (steady_refuse _) ?_
  exact (inStep_consume _ _).bind fun _ _ _ => steady_pure _

end Rule

theorem Protocol.ofTokens_alike {tokens tokens' : Tokens}
    (h : (Stream.ofTokens tokens).Alike R (Stream.ofTokens tokens')) :
    (∃ p, ofTokens tokens = .ok p ∧ ofTokens tokens' = .ok p) ∨
      ∃ e e', e.Alike R e' ∧ ofTokens tokens = .error e ∧ ofTokens tokens' = .error e' := by
  unfold ofTokens
  have houtcome := Rule.steady_protocol h
  generalize Rule.protocol (.ofTokens tokens) = x at houtcome
  generalize Rule.protocol (.ofTokens tokens') = y at houtcome
  cases houtcome with
  | ok hp => exact .inl ⟨_, rfl, congrArg _ hp.symm⟩
  | error he => exact .inr ⟨_, _, he, rfl, rfl⟩

end Wiretap
