import Wiretap.Proofs.Parsing.Walk

/-! Calls of the parser in any order. The rules and helpers of the parser are called one after the
other on one list of tokens, each from where the last one has left the cursor, also where that one
has failed. Every call ends without a look outside the list, and the cursor only moves on and not
past the first end mark. -/

namespace Wiretap

/-- A rule or helper of the parser with its arguments. -/
inductive Call where
  | protocol
  | rolesDecl
  | keyDecl (form : KeyForm)
  | nonceDecl
  | message
  | stmt
  | expr
  | operand
  | enc
  | mac
  | sign
  | verify
  | hash
  | name (expected : Expectation)
  | peek
  | advance
  | check (k : Kind)
  | checkSecond (k : Kind)
  | accept (k : Kind)
  | consume (k : Kind) (expected : Expectation)

namespace Call

/-- What a call returns. -/
abbrev Answer : Call → Type
  | protocol => Protocol
  | rolesDecl => List String
  | keyDecl _ => KeyDecl
  | nonceDecl => NonceDecl
  | message => Message
  | stmt | expr | operand | enc | mac | sign | verify | hash => Node
  | name _ => String
  | peek | advance | consume _ _ => Token
  | check _ | checkSecond _ | accept _ => Bool

/-- A call on a stream. -/
def rule : (c : Call) → Rule c.Answer
  | protocol => Rule.protocol
  | rolesDecl => Rule.rolesDecl
  | keyDecl form => Rule.keyDecl form
  | nonceDecl => Rule.nonceDecl
  | message => Rule.message
  | stmt => Rule.stmt
  | expr => Rule.expr
  | operand => Rule.operand Rule.expr
  | enc => Rule.enc Rule.expr
  | mac => Rule.mac Rule.expr
  | sign => Rule.sign Rule.expr
  | verify => Rule.verify Rule.expr
  | hash => Rule.hash Rule.expr
  | name expected => Rule.name expected
  | peek => Rule.peek
  | advance => Rule.advance
  | check k => Rule.check k
  | checkSecond k => Rule.checkSecond k
  | accept k => Rule.accept k
  | consume k expected => Rule.consume k expected

/-- A call on a list of tokens with a cursor. -/
def walk (fuel : Nat) : (c : Call) → Walk c.Answer
  | protocol => Walk.protocol fuel
  | rolesDecl => Walk.rolesDecl fuel
  | keyDecl form => Walk.keyDecl fuel form
  | nonceDecl => Walk.nonceDecl
  | message => Walk.message fuel
  | stmt => Walk.stmt fuel
  | expr => Walk.expr fuel
  | operand => Walk.operand (Walk.expr fuel)
  | enc => Walk.enc (Walk.expr fuel)
  | mac => Walk.keyed .mac .macKey .macComma .mac (Walk.expr fuel)
  | sign => Walk.keyed .sign .signKey .signComma .sign (Walk.expr fuel)
  | verify => Walk.verify (Walk.expr fuel)
  | hash => Walk.hash (Walk.expr fuel)
  | name expected => Walk.name expected
  | peek => Walk.peek
  | advance => Walk.advance
  | check k => Walk.check k
  | checkSecond k => Walk.checkSecond k
  | accept k => Walk.accept k
  | consume k expected => Walk.consume k expected

theorem follows (c : Call) {n fuel : Nat} (hfuel : n ≤ fuel) :
    Walk.Follows n (c.walk fuel) c.rule := by
  have hexpr := Walk.follows_expr hfuel
  cases c with
  | protocol => exact Walk.follows_protocol hfuel
  | rolesDecl => exact Walk.follows_rolesDecl hfuel
  | keyDecl form => exact Walk.follows_keyDecl hfuel form
  | nonceDecl => exact Walk.follows_nonceDecl
  | message => exact Walk.follows_message hfuel
  | stmt => exact Walk.follows_stmt hfuel
  | expr => exact hexpr
  | operand => exact (Walk.follows_operand hexpr).mono (Nat.le_succ n)
  | enc => exact Walk.follows_enc hexpr
  | mac => exact Walk.follows_keyed hexpr _ _ _ _
  | sign => exact Walk.follows_keyed hexpr _ _ _ _
  | verify => exact Walk.follows_verify hexpr
  | hash => exact Walk.follows_hash hexpr
  | name expected => exact Walk.follows_name expected
  | peek => exact Walk.follows_peek
  | advance => exact Walk.follows_advance
  | check k => exact Walk.follows_check k
  | checkSecond k => exact Walk.follows_checkSecond k
  | accept k => exact Walk.follows_accept k
  | consume k expected => exact Walk.follows_consume k expected

/-- From every place, a call with enough fuel follows its rule. -/
theorem followsAt {tokens : List Token} {s : Stream} {fuel : Nat} (hs : s.IsOf tokens)
    (hfuel : tokens.length ≤ fuel) (c : Call) : Walk.FollowsAt tokens s (c.walk fuel) c.rule :=
  c.follows hfuel hs hs.length_lt

/-- Whether a call only looks at tokens. -/
def isLook : Call → Bool
  | peek | check _ | checkSecond _ => true
  | _ => false

end Call

/-- A call with its outcome and the cursor before and after it. -/
structure CallRecord where
  call : Call
  before : Nat
  outcome : Except Mishap call.Answer
  after : Nat

namespace Call

variable {tokens : List Token} {s : Stream} {calls : List Call}

/-- The records of calls on a list of tokens with a cursor, if all of them are finished. -/
def trace (fuel : Nat) (tokens : List Token) : Nat → List Call → Option (List CallRecord)
  | _, [] => some []
  | current, c :: rest => do
    let (outcome, next) ← (c.walk fuel).run tokens current
    let later ← trace fuel tokens next rest
    return ⟨c, current, outcome, next⟩ :: later

/-- The record of a call on a stream. -/
def record (c : Call) (s : Stream) : CallRecord :=
  ⟨c, s.consumed, (Rule.counted (c.rule s)).1, (Rule.place (c.rule s)).consumed⟩

/-- The records of calls on a stream. -/
def session : Stream → List Call → List CallRecord
  | _, [] => []
  | s, c :: rest => c.record s :: session (Rule.place (c.rule s)) rest

theorem trace_eq_session (hs : s.IsOf tokens) {fuel : Nat} (hfuel : tokens.length ≤ fuel)
    (calls : List Call) : trace fuel tokens s.consumed calls = some (session s calls) := by
  induction calls generalizing s with
  | nil => rfl
  | cons c rest ih =>
    have h := followsAt hs hfuel c
    have hrun : (c.walk fuel).run tokens s.consumed = some ((Rule.counted (c.rule s)).1,
        (Rule.place (c.rule s)).consumed) := by
      rw [h.run]
      cases c.rule s with
      | ok a t => rfl
      | error e t => rfl
    rw [trace, hrun, Option.bind_eq_bind, Option.bind_some]
    dsimp only
    rw [ih (h.place hs)]
    rfl

theorem map_call_session (s : Stream) (calls : List Call) :
    (session s calls).map (·.call) = calls := by
  induction calls generalizing s with
  | nil => rfl
  | cons c rest ih => rw [session, List.map_cons, ih, record]

/-- A call ends at or after the place where it is made. -/
theorem exists_passes (hs : s.IsOf tokens) (c : Call) :
    ∃ ts, s.Passes ts (Rule.place (c.rule s)) :=
  (followsAt hs (Nat.le_refl _) c).passes

theorem exists_record (hs : s.IsOf tokens) {x : CallRecord} (hx : x ∈ session s calls) :
    ∃ c t ts, x = record c t ∧ s.Passes ts (Rule.place (c.rule t)) := by
  induction calls generalizing s with
  | nil => cases hx
  | cons c rest ih =>
    obtain ⟨ts, hpass⟩ := exists_passes hs c
    rcases List.mem_cons.mp hx with rfl | hx
    · exact ⟨c, s, ts, rfl, hpass⟩
    · obtain ⟨c', t, us, hrecord, hpass'⟩ := ih (hs.passes hpass) hx
      exact ⟨c', t, ts ++ us, hrecord, hpass.trans hpass'⟩

theorem isChain_session (hs : s.IsOf tokens) (calls : List Call) :
    (s.consumed :: (session s calls).map (·.after)).IsChain (· ≤ ·) := by
  induction calls generalizing s with
  | nil => exact .singleton _
  | cons c rest ih =>
    obtain ⟨ts, hpass⟩ := exists_passes hs c
    have hle : s.consumed ≤ (Rule.place (c.rule s)).consumed := by
      rw [hpass.consumed]
      omega
    exact .cons_cons hle (ih (hs.passes hpass))

end Call

theorem Tokens.toList_of_ofList? {tokens : List Token} {ts : Tokens}
    (h : Tokens.ofList? tokens = some ts) : ts.toList = tokens := by
  unfold ofList? at h
  split at h
  · cases h
  · rename_i last front hreverse
    split at h
    · cases h
      exact (List.reverse_eq_cons_iff.mp hreverse).symm
    · cases h

theorem Tokens.Splits.findIdx {tokens : Tokens} {w rest : List Token} {stop : Token}
    (h : tokens.Splits w stop rest) : tokens.toList.findIdx (·.kind == .ending) = w.length := by
  have hnone : w.findIdx (·.kind == .ending) = w.length := by
    rw [List.findIdx_eq_length]
    simpa using h.inner
  rw [h.toList, List.findIdx_append, hnone, if_neg (Nat.lt_irrefl _), List.findIdx_cons,
    h.stop_kind]
  simp

theorem Stream.ofTokens_isOf {tokens : List Token} {ts : Tokens}
    (h : Tokens.ofList? tokens = some ts) : (Stream.ofTokens ts).IsOf tokens := by
  unfold IsOf
  rw [consumed_ofTokens, List.drop_zero, ← Tokens.toList_of_ofList? h, ts.splits_stream.toList]

namespace Call

theorem outcome_record_ne (c : Call) (s : Stream) : (c.record s).outcome ≠ .error .overrun := by
  unfold record
  dsimp only
  cases c.rule s with
  | ok a t => exact nofun
  | error e t => exact nofun

theorem after_record_of_isLook {c : Call} (h : c.isLook = true) (s : Stream) :
    (c.record s).after = (c.record s).before := by
  cases c with
  | peek | check | checkSecond => rfl
  | _ => cases h

theorem record_of_ok {c : Call} {a : c.Answer} {t : Stream} (h : c.rule s = .ok a t) :
    c.record s = ⟨c, s.consumed, .ok a, t.consumed⟩ := by
  unfold record
  rw [h]
  rfl

theorem after_of_refused {k : Kind} {i j : Nat} {c : Call}
    (h : ⟨.accept k, i, .ok false, j⟩ = c.record s) : j = i := by
  obtain rfl : accept k = c := congrArg CallRecord.call h
  by_cases hkind : s.peek.kind = k
  · have hrule : (accept k).rule s = .ok true s.advance := Rule.accept_of_kind hkind
    rw [record_of_ok hrule] at h
    cases h
  · have hrule : (accept k).rule s = .ok false s := Rule.accept_of_kind_ne hkind
    rw [record_of_ok hrule] at h
    cases h
    rfl

theorem after_of_failed {k : Kind} {expected : Expectation} {i j : Nat} {e : Mishap} {c : Call}
    (h : ⟨.consume k expected, i, .error e, j⟩ = c.record s) : j = i := by
  obtain rfl : consume k expected = c := congrArg CallRecord.call h
  by_cases hkind : s.peek.kind = k
  · have hrule : (consume k expected).rule s = .ok s.peek s.advance := if_pos (by simp [hkind])
    rw [record_of_ok hrule] at h
    cases h
  · have hrule : (consume k expected).rule s = .error ⟨expected, s.peek, s.consumed⟩ s :=
      if_neg (by simp [hkind])
    unfold record at h
    rw [hrule] at h
    cases h
    rfl

/-- For every list of tokens that the parser takes and all calls of its rules and helpers, in any
order and whether or not earlier ones failed: each call ends, with the answer or the complaint of
the rules on streams and without a look outside the list; the cursor never goes back, nor past the
first end mark; and looks, refused acceptances and failed demands leave it where it was. -/
theorem calls_stay_within {tokens : List Token} {ts : Tokens}
    (hts : Tokens.ofList? tokens = some ts) (calls : List Call) :
    ∃ log, (∀ fuel ≥ tokens.length, trace fuel tokens 0 calls = some log) ∧
      log = session (.ofTokens ts) calls ∧ log.map (·.call) = calls ∧
      (∀ x ∈ log, x.outcome ≠ .error .overrun) ∧
      (0 :: log.map (·.after)).Pairwise (· ≤ ·) ∧
      (∀ x ∈ log, x.after ≤ tokens.findIdx (·.kind == .ending)) ∧
      (∀ x ∈ log, x.call.isLook = true → x.after = x.before) ∧
      (∀ k i j, ⟨.accept k, i, .ok false, j⟩ ∈ log → j = i) ∧
      ∀ k expected i e j, ⟨.consume k expected, i, .error e, j⟩ ∈ log → j = i := by
  have hs := Stream.ofTokens_isOf hts
  have hstart := Stream.consumed_ofTokens ts
  have hchain := isChain_session hs calls
  rw [hstart] at hchain
  refine ⟨_, fun fuel hfuel => hstart ▸ trace_eq_session hs hfuel calls, rfl,
    map_call_session _ calls, fun x hx => ?_, List.isChain_iff_pairwise.mp hchain, fun x hx => ?_,
    fun x hx hlook => ?_, fun k i j hx => ?_, fun k expected i e j hx => ?_⟩
  · obtain ⟨c, t, us, rfl, -⟩ := exists_record hs hx
    exact outcome_record_ne c t
  · obtain ⟨c, t, us, rfl, hpass⟩ := exists_record hs hx
    have hend := ts.splits_stream.findIdx
    rw [Tokens.toList_of_ofList? hts] at hend
    have hconsumed := hpass.consumed
    have hahead := congrArg List.length hpass.ahead
    rw [List.length_append] at hahead
    change (Rule.place (c.rule t)).consumed ≤ _
    omega
  · obtain ⟨c, t, us, rfl, -⟩ := exists_record hs hx
    exact after_record_of_isLook hlook t
  · obtain ⟨c, t, us, hrecord, -⟩ := exists_record hs hx
    exact after_of_refused hrecord
  · obtain ⟨c, t, us, hrecord, -⟩ := exists_record hs hx
    exact after_of_failed hrecord

/-- Roles and a stray bracket, and more behind the first end mark. -/
def strayWords : List Token :=
  [(.rolesWord, "roles"), (.colon, ":"), (.identifier, "A"), (.leftParen, "("), (.ending, ""),
    (.identifier, "B"), (.ending, "")].map fun (kind, text) => ⟨kind, text, .start⟩

/-- Calls that fail, succeed and look, also at the end mark. -/
def strayCalls : List Call :=
  [expr, check .rolesWord, rolesDecl, accept .comma, consume .comma .encComma, advance, advance,
    checkSecond .identifier, protocol]

theorem calls_stay_within_stray :
    ∃ log, (∀ fuel ≥ 7, trace fuel strayWords 0 strayCalls = some log) ∧
      log.map (fun x => (x.outcome.isOk, x.before, x.after)) =
        [(false, 0, 0), (true, 0, 0), (true, 0, 3), (true, 3, 3), (false, 3, 3), (true, 3, 4),
          (true, 4, 4), (true, 4, 4), (false, 4, 4)] ∧
      (∀ x ∈ log, x.outcome ≠ .error .overrun) ∧
      ∀ x ∈ log, x.after ≤ strayWords.findIdx (·.kind == .ending) := by
  have htokens : Tokens.ofList? strayWords =
      some ⟨strayWords.dropLast, ⟨.ending, "", .start⟩, rfl⟩ := by decide
  obtain ⟨log, htrace, hlog, -, houtcome, -, hbound, -⟩ := calls_stay_within htokens strayCalls
  refine ⟨log, htrace, ?_, houtcome, hbound⟩
  rw [hlog]
  decide +kernel

end Call

end Wiretap
