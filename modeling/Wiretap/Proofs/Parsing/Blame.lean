import Wiretap.Proofs.Parsing.Acceptance
import Wiretap.Proofs.Parsing.Outcome

/-! Where the complaints of the parser point to. Every rule reads one of its phrases or complains of
the first token that no sentence has at this place. The exception is the key of an encryption, which
is read to its end before it is refused. -/

namespace Wiretap

open Computability Grammar Productions

namespace Rule

variable {α β : Type} {n : Nat} {start s t : Stream} {F G : Language Token} {N : Kind → Prop}

/-! ### Declarations -/

theorem locates_names (first next : Expectation) :
    (names first next).Locates n Productions.names (· = .comma) := by
  refine (locates_name first).seq (occurs_kstar _) fun head => ?_
  exact (locates_many_after (by decide) (occurs_token _) (locates_name next)).map (head :: ·)

theorem locates_rolesDecl : rolesDecl.Locates n Productions.rolesDecl (· = .comma) := by
  rw [Productions.rolesDecl, mul_assoc]
  refine (locates_consume (by decide) _).seq (by simp) fun _ => ?_
  refine (locates_consume (by decide) _).seq (by simp) fun _ => ?_
  exact locates_names _ _

theorem locates_keyDecl (form : KeyForm) :
    (keyDecl form).Locates n (keyTail form.many) (· = .comma) := by
  refine (locates_consume (by decide) _).seq (by simp) fun _ => ?_
  refine (locates_name _).seq (by simp) fun _ => ?_
  refine (locates_consume (by decide) _).seq (by simp) fun _ => ?_
  cases form.many with
  | true => exact (locates_names _ _).map _
  | false =>
    intro start s F hs hF havoids h
    refine (locates_name _ hs hF havoids h).bind fun ts owner t _ hts hpass ht => ?_
    rw [check_bind_eq]
    split
    · rename_i hcomma
      exact ht.blamed (fun w hw => havoids _ w hw (by simpa using hcomma)) _
    · exact ⟨ts, hts, hpass, ht⟩

theorem locates_nonceDecl : nonceDecl.Locates n (declTail .nonceWord) N := by
  refine (locates_name _).seq (by simp) fun _ => ?_
  refine (locates_consume (by decide) _).seq (by simp) fun _ => ?_
  exact (locates_name _).map _

theorem starts_decl : Starts decl (startsDecl · = true) := by
  simp only [decl, add_mul, mul_assoc]
  refine .add (.add (.add ?_ ?_) ?_) ?_
  all_goals exact (starts_token_mul _ _).mono (by rintro _ rfl; rfl)

theorem decl?_offers : decl?.Offers n decl (startsDecl · = true) (· = .comma) where
  starts := starts_decl
  skips s hs := decl?_skips (by simpa using hs)
  finds start s F hs hF hN hpeek h := by
    have hkey {k : Kind} (form : KeyForm) (hword : s.peek.kind = k)
        (htail : declTail k = keyTail form.many) (hk : k ≠ .ending) :
        Outcome start s decl F
          ((do return some (.inl (← keyDecl form)) : Rule (Option (KeyDecl ⊕ NonceDecl)))
            s.advance) := by
      refine ((locates_keyDecl form).map _).afterWord hk (by simp [keyTail]) (Nat.lt_succ_of_lt hs)
        hF hN hword (fun F w => ?_) h
      rw [cons_mem_decl_mul, hword, htail]
    unfold decl?
    simp only [accept_bind_eq, if_true, Bool.false_eq_true, if_false]
    split
    · exact ⟨fun t => return_some_ne_none _, hkey _ ‹_› rfl (by decide)⟩
    split
    · exact ⟨fun t => return_some_ne_none _, hkey _ ‹_› rfl (by decide)⟩
    split
    · exact ⟨fun t => return_some_ne_none _, hkey _ ‹_› rfl (by decide)⟩
    split
    · rename_i hword
      refine ⟨fun t => return_some_ne_none _, ?_⟩
      refine (locates_nonceDecl.map _).afterWord (by decide) (by simp [declTail])
        (Nat.lt_succ_of_lt hs) hF hN hword (fun F w => ?_) h
      rw [cons_mem_decl_mul, hword]
    · simp_all [startsDecl]

/-! ### Expressions -/

/-- The rule stops only in front of a token that does not join its expression to another one. -/
def Stops (r : Rule Node) : Prop :=
  ∀ ⦃s n t⦄, r s = .ok n t → t.peek.kind ≠ .join

theorem manyUpTo_after_stops {mark : Kind} (hmark : mark ≠ .ending) {item : Rule α}
    {G : List Token → α → Prop} (hitem : item.Sound G) (limit : Nat) (found : List α)
    (hlimit : s.ahead.length < limit) {as : List α}
    (h : manyUpTo (after mark item) limit found s = .ok as t) : t.peek.kind ≠ mark := by
  induction limit generalizing s found with
  | zero => exact absurd hlimit (Nat.not_lt_zero _)
  | succ limit ih =>
    unfold manyUpTo at h
    by_cases hpeek : s.peek.kind = mark
    · split at h
      · rename_i u hnone
        unfold after at hnone
        rw [accept_bind_eq, if_pos hpeek] at hnone
        exact absurd hnone (return_some_ne_none id)
      · rename_i a u hsome
        obtain ⟨ts, hpass, hts⟩ := after_sound hmark hitem hsome
        cases hts with
        | intro _ _ =>
          have hlength := hpass.length_lt
          exact ih (a :: found) (by omega) h
      · cases h
    · rw [after_skips hpeek] at h
      cases h
      exact hpeek

theorem joined_stops {item : Rule Node} (hitem : item.Sound (Spells .operand)) :
    (joined item).Stops := by
  intro s m t h
  obtain ⟨first, u, -, h⟩ := bind_eq_ok.mp h
  obtain ⟨rest, v, hrest, h⟩ := bind_eq_ok.mp h
  obtain ⟨-, rfl⟩ := pure_eq_ok.mp h
  exact manyUpTo_after_stops (by decide) hitem _ [] (Nat.lt_succ_self _) hrest

theorem exprWithin_stops (depth : Nat) : (exprWithin depth).Stops := by
  cases depth with
  | zero =>
    intro s m t h
    cases h
  | succ depth => exact joined_stops (operand_sound (exprWithin_sound depth))

theorem locates_keyed (construct : Construct) (keyExpected commaExpected : Expectation)
    (make : String → Node → Node) {expr : Rule Node}
    (hexpr : expr.Locates n Productions.expr (· = .join)) :
    (keyed construct keyExpected commaExpected make expr).Locates n (operandTail .macWord) N := by
  refine (locates_consume (by decide) _).seq (by simp) fun _ => ?_
  refine (locates_name _).seq (by simp) fun _ => ?_
  refine (locates_consume (by decide) _).seq (by simp) fun _ => ?_
  refine hexpr.upTo (by simp) (starts_token _) (by decide) fun _ => ?_
  exact (locates_consume (by decide) _).map _

theorem locates_verify {expr : Rule Node} (hexpr : expr.Locates n Productions.expr (· = .join)) :
    (verify expr).Locates n (operandTail .vrfyWord) N := by
  refine (locates_consume (by decide) _).seq (by simp) fun _ => ?_
  refine (locates_name _).seq (by simp) fun _ => ?_
  refine (locates_consume (by decide) _).seq (by simp) fun _ => ?_
  refine hexpr.upTo (by simp) (starts_token_mul _ _) (by decide) fun _ => ?_
  refine (locates_consume (by decide) _).seq (by simp) fun _ => ?_
  refine hexpr.upTo (by simp) (starts_token _) (by decide) fun _ => ?_
  exact (locates_consume (by decide) _).map _

theorem locates_hash {expr : Rule Node} (hexpr : expr.Locates n Productions.expr (· = .join)) :
    (hash expr).Locates n (operandTail .hashWord) N := by
  refine (locates_consume (by decide) _).seq (by simp) fun _ => ?_
  refine hexpr.upTo (by simp) (starts_token _) (by decide) fun _ => ?_
  exact (locates_consume (by decide) _).map _

theorem locates_encMessage {expr : Rule Node}
    (hexpr : expr.Locates n Productions.expr (· = .join)) (key : String) :
    (do
      let _ ← consume .comma .encComma
      let message ← expr
      let _ ← consume .rightParen (.closing .enc)
      return Node.enc key message : Rule Node).Locates n
        (token .comma * (Productions.expr * token .rightParen)) N := by
  refine (locates_consume (by decide) _).seq (by simp) fun _ => ?_
  refine hexpr.upTo (by simp) (starts_token _) (by decide) fun _ => ?_
  exact (locates_consume (by decide) _).map _

/-- An expression that was read for the key of an encryption and is something else than an
identifier. -/
theorem blamed_key {expr : Rule Node} (hsound : expr.Sound (Spells .expr)) (hstops : expr.Stops)
    {before ks : List Token} {word opening : Token} {key : Node} {u : Stream}
    (hbefore : start.Passes (before ++ [word, opening]) t) (hword : word.kind = .encWord)
    (hopening : opening.kind = .leftParen) (hresult : expr t = .ok key u)
    (hkey : ∀ name, key ≠ .ident name) (hks : ks ∈ Productions.expr) (hpass : t.Passes ks u)
    (h : Expects start u F) : Blamed start ⟨.encKey, t.peek, t.consumed⟩ := by
  obtain @⟨read, hread, hviable, -⟩ := h
  obtain rfl := hread.tokens_eq (hbefore.trans hpass)
  rw [List.append_assoc] at hviable
  refine .key hbefore hword hopening hpass hks ?_ (hstops hresult) hviable
  -- A single token would have been read as an identifier.
  rintro ⟨x, -, rfl⟩
  obtain ⟨us, hus, hspells⟩ := hsound hresult
  obtain rfl := hpass.tokens_eq hus
  exact hkey _ hspells.eq_ident

/-- The key of an encryption is read as an expression, and is blamed as a whole if it turns out to
be something else than an identifier. -/
theorem enc_outcome {expr : Rule Node} (hexpr : expr.Locates n Productions.expr (· = .join))
    (hsound : expr.Sound (Spells .expr)) (hstops : expr.Stops) (hs : s.ahead.length < n + 1)
    (hF : Occurs F) (hword : s.peek.kind = .encWord)
    (h : Expects start s (Productions.operand * F)) :
    Outcome start s Productions.operand F (enc expr s.advance) := by
  have hinner : s.peek.kind ≠ .ending := by simp [hword]
  have hpass := Stream.passes_advance hinner
  have hlength : s.advance.ahead.length < n := Nat.lt_of_lt_of_le hpass.length_lt (by omega)
  have hH (F : Language Token) (w : List Token) :
      s.peek :: w ∈ Productions.operand * F ↔ w ∈ operandTail .encWord * F := by
    rw [cons_mem_operand_mul, hword]
  have hnext : Expects start s.advance (operandTail .encWord * F) :=
    h.advance hinner (by simp [operandTail, hF]) (hH F)
  refine Outcome.afterWord ?_ hinner hH
  rw [operandTail, mul_assoc] at hnext
  refine (locates_consume (by decide) (.opening .enc) hlength (by simp [hF]) (avoids_false _)
    hnext).bind fun ts opening s₁ _ hts hpass₁ h₁ => ?_
  refine Outcome.after ?_ hts hpass₁
  -- The complaint is made up here, in front of the key, and thrown only after it.
  refine Outcome.bind ⟨[], Language.nil_mem_one, .refl s₁, h₁⟩ fun _ badKey _ hbad _ _ _ => ?_
  cases hbad
  have hlength₁ := Nat.lt_of_le_of_lt hpass₁.length_le hlength
  have hcomma : Avoids (token .comma * (Productions.expr * token .rightParen) * F) (· = .join) :=
    ((starts_token_mul _ _).mul F).avoids (by rintro _ rfl; decide)
  rw [mul_assoc] at h₁
  refine (hexpr hlength₁ (by simp [hF]) hcomma h₁).bind fun ks key s₂ hresult hks hpass₂ h₂ => ?_
  split
  · have hlength₂ := Nat.lt_of_le_of_lt hpass₂.length_le hlength₁
    exact (locates_encMessage hexpr _ hlength₂ hF (avoids_false F) h₂).after hks hpass₂
  · rename_i hother
    obtain @⟨before, hbefore, -, -⟩ := h
    obtain ⟨opening, hopening, rfl⟩ := hts
    exact blamed_key hsound hstops (hbefore.trans (hpass.trans hpass₁)) hword hopening hresult
      hother hks hpass₂ h₂

theorem locates_operand {expr : Rule Node} (hexpr : expr.Locates n Productions.expr (· = .join))
    (hsound : expr.Sound (Spells .expr)) (hstops : expr.Stops) :
    (operand expr).Locates (n + 1) Productions.operand N := by
  intro start s F hs hF hN h
  have hword (k : Kind) (hk : s.peek.kind = k) (F : Language Token) (w : List Token) :
      s.peek :: w ∈ Productions.operand * F ↔ w ∈ operandTail k * F := by
    rw [cons_mem_operand_mul, hk]
  unfold operand
  simp only [accept_bind_eq, check_bind_eq, if_true, Bool.false_eq_true, if_false, mac_eq_keyed,
    sign_eq_keyed]
  split
  · rename_i henc
    exact enc_outcome hexpr hsound hstops hs hF henc h
  split
  · rename_i hmac
    exact (locates_keyed _ _ _ _ hexpr).afterWord (by decide) (by simp [operandTail]) hs hF hN hmac
      (hword _ hmac) h
  split
  · rename_i hsign
    exact (locates_keyed _ _ _ _ hexpr).afterWord (by decide) (by simp [operandTail]) hs hF hN hsign
      (hword .signWord hsign) h
  split
  · rename_i hverify
    exact (locates_verify hexpr).afterWord (by decide) (by simp [operandTail]) hs hF hN hverify
      (hword _ hverify) h
  split
  · rename_i hhash
    exact (locates_hash hexpr).afterWord (by decide) (by simp [operandTail]) hs hF hN hhash
      (hword _ hhash) h
  split
  · rename_i hident
    rw [beq_iff_eq] at hident
    have hname : Expects start s (token .identifier * F) := h.congr fun w => by
      rw [hword _ hident, operandTail, one_mul, cons_mem_token_mul]
      exact (and_iff_right hident).symm
    refine (((locates_name _).map _) hs hF hN hname).mono ?_
    exact le_sup_right
  · refine h.blamed (fun w hw => ?_) _
    rw [cons_mem_operand_mul] at hw
    cases hk : s.peek.kind <;> simp_all [operandTail]

theorem locates_joined {item : Rule Node}
    (hitem : item.Locates n Productions.operand fun _ => False) :
    (joined item).Locates n Productions.expr (· = .join) := by
  rw [expr_eq]
  refine hitem.seq (occurs_kstar _) fun first => ?_
  exact (locates_many_after (by decide) occurs_operand hitem).map _

theorem locates_exprWithin (depth : Nat) :
    (exprWithin depth).Locates depth Productions.expr (· = .join) := by
  induction depth with
  | zero =>
    intro start s F hs
    exact absurd hs (Nat.not_lt_zero _)
  | succ depth ih =>
    -- Brackets take tokens, so what is nested in an operand fits into one level less.
    exact locates_joined (locates_operand ih (exprWithin_sound depth) (exprWithin_stops depth))

theorem locates_expr : expr.Locates n Productions.expr (· = .join) :=
  fun _ s _ _ => locates_exprWithin _ (Nat.lt_succ_self s.ahead.length)

/-! ### Messages and protocols -/

theorem expr_le_stmt : Productions.expr ≤ Productions.stmt :=
  le_sup_right

theorem named_outcome (hF : Occurs F) (hjoin : Avoids F (· = .join))
    (hident : s.peek.kind = .identifier)
    (h : Expects start s.advance (token .equals * Productions.expr * F)) :
    Outcome start s Productions.stmt F (stmtIf true s) := by
  have hpass := Stream.passes_advance (s := s) (by simp [hident])
  have hvalue : (do
      let _ ← consume .equals .equals
      return Node.assign s.peek.text (← expr) : Rule Node).Locates (s.advance.ahead.length + 1)
        (token .equals * Productions.expr) (· = .join) :=
    (locates_consume (by decide) _).seq occurs_expr fun _ => locates_expr.map _
  unfold stmtIf
  rw [if_pos rfl, bind_eq_of_ok (name_ok (.intro hident) hpass)]
  refine ((hvalue (Nat.lt_succ_self _) hF hjoin h).after (G := token .identifier)
    ⟨_, hident, rfl⟩ hpass).mono ?_
  rw [← mul_assoc]
  exact le_sup_left

/-- An expression that starts with an identifier goes on with a bar or is over. -/
theorem unnamed_outcome (hF : Occurs F) (hjoin : Avoids F (· = .join))
    (hident : s.peek.kind = .identifier)
    (h : Expects start s.advance ((token .join * Productions.operand)∗ * F)) :
    Outcome start s Productions.expr F (expr s) := by
  have hpass := Stream.passes_advance (s := s) (by simp [hident])
  have hitem : (operand (exprWithin s.ahead.length)).Locates (s.ahead.length + 1)
      Productions.operand fun _ => False :=
    locates_operand (locates_exprWithin _) (exprWithin_sound _) (exprWithin_stops _)
  have hfirst : operand (exprWithin s.ahead.length) s = .ok (.ident s.peek.text) s.advance :=
    operand_complete (exprWithin_complete _) (by simp) (.ident hident) hpass trivial
  unfold expr exprWithin joined
  rw [bind_eq_of_ok hfirst, expr_eq]
  have hrest := (locates_many_after (by decide) occurs_operand hitem).map
    (·.foldl Node.concat (Node.ident s.peek.text)) (Nat.lt_succ_of_le hpass.length_le) hF hjoin h
  exact hrest.after (.inr ⟨_, hident, rfl⟩) hpass

/-- An identifier at the start of a statement is its name or the first operand of an expression. The
token after it tells which. -/
theorem stmt_outcome_of_identifier (hF : Occurs F) (hjoin : Avoids F (· = .join))
    (hequals : Avoids F (· = .equals)) (hident : s.peek.kind = .identifier)
    (h : Expects start s (Productions.stmt * F)) :
    Outcome start s Productions.stmt F (stmt s) := by
  have hinner : s.peek.kind ≠ .ending := by simp [hident]
  have hnext : Expects start s.advance (token .equals * (Productions.expr * F) +
      (token .join * Productions.operand)∗ * F) :=
    h.advance hinner ((occurs_mul.mpr ⟨occurs_kstar _, hF⟩).add_right _) fun w =>
      cons_mem_stmt_mul hident
  have hnamed : startsNamed s = (s.advance.peek.kind == .equals) := by
    simp [startsNamed, hident, second?_of_passes (Stream.passes_advance hinner)]
  rw [stmt_eq, hnamed]
  by_cases hsecond : s.advance.peek.kind = .equals
  · rw [beq_iff_eq.mpr hsecond]
    refine named_outcome hF hjoin hident (hnext.congr fun w => ?_)
    rw [mul_assoc]
    refine or_iff_left fun hw => ?_
    exact Avoids.kstar_mul (starts_token_mul _ _) (by rintro _ rfl; decide) hequals _ w hw hsecond
  · rw [beq_eq_false_iff_ne.mpr hsecond]
    refine (unnamed_outcome hF hjoin hident (hnext.congr fun w => ?_)).mono expr_le_stmt
    exact or_iff_right fun hw => hsecond (cons_mem_token_mul.mp hw).1

theorem locates_stmt : stmt.Locates n Productions.stmt fun k => k = .join ∨ k = .equals := by
  intro start s F hs hF havoids h
  have hjoin : Avoids F (· = .join) := fun x w hw hx => havoids x w hw (.inl hx)
  have hequals : Avoids F (· = .equals) := fun x w hw hx => havoids x w hw (.inr hx)
  by_cases hident : s.peek.kind = .identifier
  · exact stmt_outcome_of_identifier hF hjoin hequals hident h
  · have hexpr : Expects start s (Productions.expr * F) := h.congr fun w => by
      rw [Productions.stmt, add_mul, mul_assoc, mul_assoc, Language.mem_add, cons_mem_token_mul]
      exact or_iff_right fun hw => hident hw.1
    have hunnamed : startsNamed s = false := by simp [startsNamed, hident]
    rw [stmt_eq, hunnamed]
    exact (locates_expr hs hF hjoin hexpr).mono expr_le_stmt

theorem locates_message :
    message.Locates n Productions.message fun k => k = .join ∨ k = .equals := by
  simp only [Productions.message, mul_assoc]
  refine (locates_name _).seq (by simp) fun _ => ?_
  refine (locates_consume (by decide) _).seq (by simp) fun _ => ?_
  refine (locates_name _).seq (by simp) fun _ => ?_
  refine (locates_consume (by decide) _).seq (by simp) fun _ => ?_
  exact locates_stmt.map _

theorem message?_offers : message?.Offers n Productions.message (· = .identifier)
    fun k => k = .join ∨ k = .equals where
  starts := starts_message
  skips := message?_skips
  finds start s F hs hF hN hpeek h := by
    unfold message?
    rw [check_bind_eq, if_pos (by simp [hpeek])]
    exact ⟨fun t => return_some_ne_none id, (locates_message.map some) hs hF hN h⟩

theorem protocol_blamed {e : ParseError} (h : protocol s = .error e t) : Blamed s e := by
  -- What may follow the roles, the declarations and the messages.
  have hending : Avoids (token .ending) fun k => k = .identifier ∨ k = .join ∨ k = .equals :=
    (starts_token _).avoids (by rintro _ rfl; decide)
  have hmessages : Avoids (Productions.message∗ * token .ending)
      fun k => startsDecl k = true ∨ k = .comma :=
    .kstar_mul starts_message (by rintro _ rfl; decide)
      ((starts_token _).avoids (by rintro _ rfl; decide))
  have hdecls : Avoids (decl∗ * (Productions.message∗ * token .ending)) (· = .comma) :=
    .kstar_mul starts_decl (by rintro _ hk rfl; cases hk) fun x w hw hx =>
      hmessages x w hw (.inr hx)
  have hstart : Expects s s (Productions.rolesDecl *
      (decl∗ * (Productions.message∗ * token .ending))) := by
    refine ⟨.refl s, occurs_sentence, fun w => ?_⟩
    simp only [sentence, mul_assoc, List.nil_append]
  rcases (locates_rolesDecl (Nat.lt_succ_self _) (by simp) hdecls hstart).of_bind_eq_error h with
    h | ⟨roles, s₁, h₁, h⟩
  · exact h
  rcases (decl?_offers.many (by rintro _ hk rfl; cases hk) (Nat.lt_succ_self _) (by simp) hmessages
    h₁).of_bind_eq_error h with h | ⟨decls, s₂, h₂, h⟩
  · exact h
  rcases (message?_offers.many (by rintro _ rfl; decide) (Nat.lt_succ_self _) (by simp) hending
    h₂).of_bind_eq_error h with h | ⟨messages, s₃, h₃, h⟩
  · exact h
  have hother (expected : Expectation) (hkind : s₃.peek.kind ≠ .ending) :
      Blamed s ⟨expected, s₃.peek, s₃.consumed⟩ :=
    h₃.blamed (fun w hw => hkind (cons_mem_token.mp hw).1) expected
  rcases bind_eq_error.mp h with h | ⟨next, s₄, hnext, h⟩
  · cases h
  cases hnext
  split at h
  · rename_i hlate
    cases h
    refine hother _ fun hkind => ?_
    simp [hkind, startsDecl] at hlate
  · rcases bind_eq_error.mp h with h | ⟨x, s₅, -, h⟩
    · unfold consume at h
      split at h
      · cases h
      · rename_i hkind
        cases h
        exact hother _ (by simpa using hkind)
    · cases h

end Rule

/-- Where the stream is, in the list of its tokens. -/
theorem Stream.Passes.exists_rest {s t : Stream} {ts : List Token} (h : s.Passes ts t) :
    ∃ rest, s.ahead ++ s.stop :: s.beyond = ts ++ t.peek :: rest := by
  rw [h.ahead, List.append_assoc, ← h.stop]
  unfold Stream.peek
  cases t.ahead with
  | nil => exact ⟨_, rfl⟩
  | cons x rest => exact ⟨_, rfl⟩

theorem Blamed.exists_passes {start : Stream} {e : ParseError} (h : Blamed start e) :
    ∃ ts t, start.Passes ts t ∧ e.found = t.peek ∧ e.index = t.consumed := by
  cases h with
  | token hpass => exact ⟨_, _, hpass, rfl, rfl⟩
  | key hpass => exact ⟨_, _, hpass, rfl, rfl⟩

namespace Protocol

theorem blamed_of_error {tokens : Tokens} {e : ParseError} (h : ofTokens tokens = .error e) :
    Blamed (.ofTokens tokens) e := by
  unfold ofTokens at h
  split at h
  · cases h
  · rename_i hresult
    cases h
    exact Rule.protocol_blamed hresult

theorem found_of_error {tokens : Tokens} {e : ParseError} (h : ofTokens tokens = .error e) :
    tokens.toList[e.index]? = some e.found := by
  obtain ⟨ts, t, hpass, hfound, hindex⟩ := (blamed_of_error h).exists_passes
  obtain ⟨rest, hrest⟩ := hpass.exists_rest
  rw [tokens.splits_stream.toList, hrest, hfound, hindex, hpass.consumed,
    Stream.consumed_ofTokens, Nat.zero_add, List.getElem?_append_right le_rfl, Nat.sub_self,
    List.getElem?_cons_zero]

/-- A complaint points to the right token. What stands in front of this token is the start of a
sentence, and with the token it is not. Only a complaint about the key of an encryption is
different: it points to the first token of a complete expression that is no identifier, and the
tokens up to the end of this expression are the start of a sentence. -/
theorem ofTokens_error_located {tokens : Tokens} {e : ParseError}
    (h : ofTokens tokens = .error e) :
    tokens.toList[e.index]? = some e.found ∧
    (Viable (tokens.toList.take e.index) ∧ ¬Viable (tokens.toList.take (e.index + 1)) ∨
      e.expected = .encKey ∧ ∃ before word opening key rest,
        tokens.toList = before ++ word :: opening :: (key ++ rest) ∧
        e.index = before.length + 2 ∧ word.kind = .encWord ∧ opening.kind = .leftParen ∧
        key ∈ expr ∧ key ∉ token .identifier ∧ (∀ next ∈ rest.head?, next.kind ≠ .join) ∧
        Viable (before ++ word :: opening :: key)) := by
  have hlist := tokens.splits_stream.toList
  have hzero := Stream.consumed_ofTokens tokens
  refine ⟨found_of_error h, ?_⟩
  cases blamed_of_error h with
  | @token ts t expected hpass hviable hnot =>
    obtain ⟨rest, hrest⟩ := hpass.exists_rest
    have hindex : t.consumed = ts.length := by rw [hpass.consumed, hzero, Nat.zero_add]
    have htake : (ts ++ t.peek :: rest).take (ts.length + 1) = ts ++ [t.peek] := by
      simp [List.take_append, List.take_of_length_le]
    rw [hlist, hrest]
    refine .inl ⟨?_, ?_⟩
    · simpa [hindex] using hviable
    · rwa [hindex, htake]
  | @key ts ks word opening t u hpass hword hopening hkey hks hsingle hstops hviable =>
    obtain ⟨rest, hrest⟩ := (hpass.trans hkey).exists_rest
    have hindex : t.consumed = ts.length + 2 := by
      rw [hpass.consumed, hzero, Nat.zero_add, List.length_append]
      rfl
    refine .inr ⟨rfl, ts, word, opening, ks, u.peek :: rest, ?_, hindex, hword, hopening, hks,
      hsingle, ?_, hviable⟩
    · rw [hlist, hrest]
      simp
    · rintro _ ⟨⟩
      exact hstops

/-- A message up to an encryption whose key starts with a constructor. -/
def openedWords : List Token :=
  [(.rolesWord, "roles"), (.colon, ":"), (.identifier, "A"), (.identifier, "A"), (.arrow, "->"),
   (.identifier, "A"), (.colon, ":"), (.encWord, "Enc"), (.leftParen, "("),
   (.hashWord, "Hash")].map fun (kind, text) => ⟨kind, text, ⟨1, 1⟩⟩

def cutTokens : Tokens :=
  ⟨openedWords, ⟨.ending, "", ⟨1, 1⟩⟩, .refl Kind.ending⟩

def hashedKeyTokens : Tokens :=
  ⟨openedWords ++ [(.leftParen, "("), (.identifier, "k"), (.rightParen, ")"), (.comma, ","),
    (.identifier, "n"), (.rightParen, ")")].map fun (kind, text) => ⟨kind, text, ⟨1, 1⟩⟩,
    ⟨.ending, "", ⟨1, 1⟩⟩, .refl Kind.ending⟩

theorem ofTokens_error_located_hashedKey :
    ofTokens cutTokens = .error ⟨.opening .hash, ⟨.ending, "", ⟨1, 1⟩⟩, 10⟩ ∧
    Viable openedWords ∧ ¬Viable (openedWords ++ [⟨.ending, "", ⟨1, 1⟩⟩]) ∧
    ofTokens hashedKeyTokens = .error ⟨.encKey, ⟨.hashWord, "Hash", ⟨1, 1⟩⟩, 9⟩ ∧
    ∃ before word opening key rest,
      hashedKeyTokens.toList = before ++ word :: opening :: (key ++ rest) ∧ before.length = 7 ∧
      key ∈ expr ∧ key ∉ token .identifier ∧ (∀ next ∈ rest.head?, next.kind ≠ .join) ∧
      Viable (before ++ word :: opening :: key) := by
  have hcut : ofTokens cutTokens = .error ⟨.opening .hash, ⟨.ending, "", ⟨1, 1⟩⟩, 10⟩ := rfl
  have hkey : ofTokens hashedKeyTokens = .error ⟨.encKey, ⟨.hashWord, "Hash", ⟨1, 1⟩⟩, 9⟩ := rfl
  obtain ⟨-, ⟨hviable, hnot⟩ | ⟨hexpected, -⟩⟩ := ofTokens_error_located hcut
  · refine ⟨hcut, hviable, hnot, hkey, ?_⟩
    obtain ⟨-, ⟨-, hnot⟩ | ⟨-, before, word, opening, key, rest, htokens, hindex, -, -, hrest⟩⟩ :=
      ofTokens_error_located hkey
    · exact absurd hviable hnot
    · exact ⟨before, word, opening, key, rest, htokens, by simpa using hindex.symm, hrest⟩
  · cases hexpected

end Protocol

end Wiretap
