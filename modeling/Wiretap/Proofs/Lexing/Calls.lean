import Mathlib.Data.List.Chain
import Wiretap.Proofs.Lexing.Faults

/-! Calls of the lexer in any order. Single moves, skips to the end of a line, words and whole runs
of tokens are asked for one after the other on one text, each from where the last one has left the
cursor, also where that one has failed. Whatever is called, the cursor passes over a run of the text
in front of it, so its line and column stay those of its offset, and it does not go back. -/

namespace Wiretap.Cursor

variable {c next : Cursor} {text : List Char}

/-! ### Moves over a text -/

/-- `next` is further on in the same text, with the characters in between counted. -/
def Reaches (c next : Cursor) : Prop :=
  ∃ run rest, c.rest = run ++ rest ∧ next = c.beyond run rest

theorem Reaches.refl (c : Cursor) : c.Reaches c :=
  ⟨[], c.rest, rfl, rfl⟩

theorem Reaches.trans {last : Cursor} (h : c.Reaches next) (h' : next.Reaches last) :
    c.Reaches last := by
  obtain ⟨run, rest, hc, rfl⟩ := h
  obtain ⟨run', rest', hrest, rfl⟩ := h'
  have hrest : rest = run' ++ rest' := hrest
  subst hrest
  exact ⟨run ++ run', rest', by rw [hc, List.append_assoc], beyond_beyond ..⟩

theorem Reaches.offset_le (h : c.Reaches next) : c.offset ≤ next.offset := by
  obtain ⟨run, rest, -, rfl⟩ := h
  show c.past.length ≤ (run.reverse ++ c.past).length
  rw [List.length_append]
  omega

theorem reaches_move {x : Char} {xs : List Char} (hc : c.rest = x :: xs) :
    c.Reaches (c.move x xs) :=
  ⟨[x], xs, hc, rfl⟩

theorem reaches_readWhile (p : Char → Bool) (c : Cursor) : c.Reaches (c.readWhile p).2 :=
  ⟨c.rest.takeWhile p, c.rest.dropWhile p, List.takeWhile_append_dropWhile.symm, rfl⟩

/-- The cursor stands in `text`, and its line and column are those of its offset there. -/
structure StandsIn (c : Cursor) (text : List Char) : Prop where
  split : c.past.reverse ++ c.rest = text
  position : c.position = .past c.past.reverse

theorem standsIn_ofString (source : String) : (ofString source).StandsIn source.toList :=
  ⟨rfl, rfl⟩

namespace StandsIn

theorem reaches (h : c.StandsIn text) (hnext : c.Reaches next) : next.StandsIn text := by
  obtain ⟨run, rest, hc, rfl⟩ := hnext
  refine ⟨?_, ?_⟩
  · rw [past_beyond, List.append_assoc]
    show c.past.reverse ++ (run ++ rest) = text
    rw [← hc, h.split]
  · rw [position_beyond h.position, past_beyond]

theorem take_offset (h : c.StandsIn text) : text.take c.offset = c.past.reverse := by
  rw [← h.split, offset, ← List.length_reverse, List.take_left]

theorem position_eq (h : c.StandsIn text) : c.position = .past (text.take c.offset) := by
  rw [h.take_offset, h.position]

theorem offset_add (h : c.StandsIn text) : c.offset + c.rest.length = text.length := by
  rw [← h.split, List.length_append, List.length_reverse]
  rfl

theorem offset_le (h : c.StandsIn text) : c.offset ≤ text.length := by
  have := h.offset_add
  omega

theorem offset_eq_length_iff (h : c.StandsIn text) : c.offset = text.length ↔ c.rest = [] := by
  have hlength := h.offset_add
  rw [← List.length_eq_zero_iff]
  omega

end StandsIn

/-! ### Steps and runs of tokens -/

/-- What a step does to the cursor. A failed one has blamed the character at the cursor, and has
passed over that character at most. -/
inductive Moves (c : Cursor) : Step → Prop
  | finished : c.rest = [] → Moves c .finished
  | skipped {next : Cursor} : c.Reaches next → Moves c (.skipped next)
  | found {token : Token} {next : Cursor} : c.Reaches next → Moves c (.found token next)
  | failed {error : LexError} {next : Cursor} : c.rest ≠ [] → error.position = c.position →
      c.Reaches next → next.offset ≤ c.offset + 1 → Moves c (.failed error next)

theorem moves_pairStep {x : Char} {xs : List Char} (hc : c.rest = x :: xs) (kind : Kind)
    (cause : LexCause) (second : Char) : c.Moves (c.pairStep kind cause x second xs) := by
  have hfailed : c.Moves (.failed ⟨cause, c.position⟩ (c.move x xs)) :=
    .failed (by simp [hc]) rfl (reaches_move hc) (Nat.le_refl _)
  cases xs with
  | nil => exact hfailed
  | cons y ys =>
    by_cases hy : y = second
    · rw [pairStep, if_pos hy]
      exact .found ((reaches_move hc).trans (reaches_move rfl))
    · rw [pairStep, if_neg hy]
      exact hfailed

theorem moves_step (c : Cursor) : c.Moves c.step := by
  cases hc : c.rest with
  | nil =>
    simp only [step, hc]
    exact .finished hc
  | cons x xs =>
    simp only [step, hc]
    by_cases hspace : Text.isSpace x = true
    · rw [if_pos hspace]
      exact .skipped (reaches_move hc)
    rw [if_neg hspace]
    by_cases hcomment : (x = '#' || (x = '/' && xs.head? = some '/')) = true
    · rw [if_pos hcomment]
      exact .skipped (reaches_readWhile _ c)
    rw [if_neg hcomment]
    by_cases hletter : Text.isLetter x = true
    · rw [if_pos hletter]
      exact .found (reaches_readWhile _ c)
    rw [if_neg hletter]
    cases Kind.ofMark? x with
    | some kind => exact .found (reaches_move hc)
    | none =>
      dsimp only
      by_cases hbar : x = '|'
      · rw [if_pos hbar]
        exact moves_pairStep hc _ _ _
      rw [if_neg hbar]
      by_cases hdash : x = '-'
      · rw [if_pos hdash]
        exact moves_pairStep hc _ _ _
      rw [if_neg hdash]
      exact .failed (by simp [hc]) rfl (.refl c) (Nat.le_succ _)

/-- Where a run of tokens leaves the cursor, and for a run that fails the place to blame. -/
inductive Stops (c : Cursor) : Except LexError Tokens × Cursor → Prop
  | ending {tokens : Tokens} {next : Cursor} : c.Reaches next → Stops c (.ok tokens, next)
  | blaming {error : LexError} {place next : Cursor} : c.Reaches place → place.rest ≠ [] →
      error.position = place.position → place.Reaches next → next.offset ≤ place.offset + 1 →
      Stops c (.error error, next)

theorem Stops.after {result : Except LexError Tokens × Cursor} (h : c.Reaches next)
    (hstops : next.Stops result) : c.Stops result := by
  cases hstops with
  | ending hnext => exact .ending (h.trans hnext)
  | blaming hplace hrest hposition hnext hoffset =>
    exact .blaming (h.trans hplace) hrest hposition hnext hoffset

theorem Stops.reaches {result : Except LexError Tokens × Cursor} (h : c.Stops result) :
    c.Reaches result.2 := by
  cases h with
  | ending hnext => exact hnext
  | blaming hplace _ _ hnext _ => exact hplace.trans hnext

theorem stops_tokensAfter (found : List Token) (c : Cursor) : c.Stops (c.tokensAfter found) := by
  -- The recursion of the lexer, with one move of the cursor for each of its steps.
  fun_induction tokensAfter found c with
  | case1 found c h => exact .ending (.refl c)
  | case2 found c next h ih =>
    have hmoves := c.moves_step
    rw [h] at hmoves
    cases hmoves with
    | skipped hnext => exact ih.after hnext
  | case3 found c token next h ih =>
    have hmoves := c.moves_step
    rw [h] at hmoves
    cases hmoves with
    | found hnext => exact ih.after hnext
  | case4 found c error next h =>
    have hmoves := c.moves_step
    rw [h] at hmoves
    cases hmoves with
    | failed hrest hposition hnext hoffset =>
      exact .blaming (.refl c) hrest hposition hnext hoffset

/-! ### Calls -/

/-- What a lexer can be asked for. -/
inductive Call where
  | advance
  | skipLine
  | readWord
  | tokens
deriving DecidableEq

/-- How a call fails: a move outside the text, or a text that has no tokens. -/
inductive Failure where
  | overrun
  | lexical (error : LexError)
deriving DecidableEq

namespace Call

/-- What a call returns. -/
abbrev Answer : Call → Type
  | advance => Char
  | skipLine => Unit
  | readWord => String
  | tokens => Tokens

/-- A call on a cursor, with the cursor that it leaves. -/
def run : (call : Call) → Cursor → Except Failure call.Answer × Cursor
  | advance, c =>
    match c.advance? with
    | some (x, next) => (.ok x, next)
    | none => (.error .overrun, c)
  | skipLine, c => (.ok (), c.skipLine)
  | readWord, c => (.ok c.readWord.1, c.readWord.2)
  | tokens, c => (c.tokens.1.mapError .lexical, c.tokens.2)

/-- A call by looks and single moves, each of which may overrun the text. -/
def runByOne : (call : Call) → Cursor → Except Failure call.Answer × Cursor
  | advance, c => run advance c
  | skipLine, c =>
    match c.forwardWhile (· != '\n') with
    | .ok (_, next) => (.ok (), next)
    | .error _ => (.error .overrun, c)
  | readWord, c =>
    match c.forwardWhile Text.isWordChar with
    | .ok (word, next) => (.ok (String.ofList word), next)
    | .error _ => (.error .overrun, c)
  | tokens, c =>
    match c.tokensByOne [] with
    | .ok (result, next) => (result.mapError .lexical, next)
    | .error _ => (.error .overrun, c)

theorem runByOne_eq (call : Call) (c : Cursor) : call.runByOne c = call.run c := by
  cases call with
  | advance => rfl
  | skipLine =>
    simp only [runByOne, forwardWhile_eq]
    rfl
  | readWord =>
    simp only [runByOne, forwardWhile_eq]
    rfl
  | tokens =>
    simp only [runByOne, tokensByOne_eq]
    rfl

theorem reaches_run (call : Call) (c : Cursor) : c.Reaches (call.run c).2 := by
  cases call with
  | advance =>
    cases hc : c.rest with
    | nil =>
      simp only [run, advance?, hc]
      exact .refl c
    | cons x xs =>
      simp only [run, advance?, hc]
      exact reaches_move hc
  | skipLine => exact reaches_readWhile _ c
  | readWord => exact reaches_readWhile _ c
  | tokens => exact (stops_tokensAfter [] c).reaches

theorem run_eq_overrun_iff (call : Call) (c : Cursor) :
    (call.run c).1 = .error .overrun ↔ call = .advance ∧ c.rest = [] := by
  cases call with
  | advance =>
    cases hc : c.rest with
    | nil => simp [run, advance?, hc]
    | cons x xs => simp [run, advance?, hc]
  | skipLine => simp [run]
  | readWord => simp [run]
  | tokens =>
    simp only [run]
    cases c.tokens.1 with
    | ok ts => simp [Except.mapError]
    | error e => simp [Except.mapError]

end Call

/-- A call with its outcome and the cursor before and after it. -/
structure Visit where
  call : Call
  before : Cursor
  outcome : Except Failure call.Answer
  after : Cursor

namespace Call

/-- The record of a call, which `perform` carries out. -/
def visit (perform : (call : Call) → Cursor → Except Failure call.Answer × Cursor) (call : Call)
    (c : Cursor) : Visit :=
  ⟨call, c, (perform call c).1, (perform call c).2⟩

/-- The records of calls from a cursor on. -/
def session (perform : (call : Call) → Cursor → Except Failure call.Answer × Cursor) :
    Cursor → List Call → List Visit
  | _, [] => []
  | c, call :: rest => visit perform call c :: session perform (perform call c).2 rest

theorem session_runByOne (c : Cursor) (calls : List Call) :
    session runByOne c calls = session run c calls := by
  have hrun : runByOne = run := funext fun call => funext (runByOne_eq call)
  rw [hrun]

theorem map_call_session (c : Cursor) (calls : List Call) :
    (session run c calls).map (·.call) = calls := by
  induction calls generalizing c with
  | nil => rfl
  | cons call rest ih => rw [session, List.map_cons, ih, visit]

/-- Every record is that of a call from a cursor in the text. -/
theorem exists_visit {text : List Char} {c : Cursor} {calls : List Call} (hc : c.StandsIn text)
    {x : Visit} (hx : x ∈ session run c calls) :
    ∃ call place, x = visit run call place ∧ place.StandsIn text := by
  induction calls generalizing c with
  | nil => cases hx
  | cons call rest ih =>
    rcases List.mem_cons.mp hx with rfl | hx
    · exact ⟨call, c, rfl, hc⟩
    · exact ih (hc.reaches (call.reaches_run c)) hx

theorem isChain_session (c : Cursor) (calls : List Call) :
    (c.offset :: (session run c calls).map (·.after.offset)).IsChain (· ≤ ·) := by
  induction calls generalizing c with
  | nil => exact .singleton _
  | cons call rest ih => exact .cons_cons (call.reaches_run c).offset_le (ih _)

theorem after_of_overrun {call : Call} {c : Cursor}
    (h : (visit run call c).outcome = .error .overrun) : (visit run call c).after = c := by
  obtain ⟨rfl, hc⟩ := (run_eq_overrun_iff call c).mp h
  simp only [visit, run, advance?, hc]

/-- A run of tokens that fails leaves the cursor at the character to blame, or right behind it. -/
theorem exists_blamed {text : List Char} {c : Cursor} (hc : c.StandsIn text) {e : LexError}
    (h : (run tokens c).1 = .error (.lexical e)) :
    ∃ j < text.length, (∀ k ≤ text.length, e.position = .past (text.take k) ↔ k = j) ∧
      c.offset ≤ j ∧ j ≤ (run tokens c).2.offset ∧ (run tokens c).2.offset ≤ j + 1 := by
  have hstops : c.Stops c.tokens := stops_tokensAfter [] c
  simp only [run] at h ⊢
  generalize c.tokens = result at h hstops
  cases hstops with
  | ending => cases h
  | @blaming error place next hplace hrest hposition hnext hoffset =>
    obtain rfl : error = e := by
      cases h
      rfl
    have hstands := hc.reaches hplace
    have hlt : place.offset < text.length :=
      Nat.lt_of_le_of_ne hstands.offset_le fun heq => hrest (hstands.offset_eq_length_iff.mp heq)
    refine ⟨place.offset, hlt, fun k hk => ?_, hplace.offset_le, hnext.offset_le, hoffset⟩
    rw [hposition, hstands.position_eq]
    constructor
    · intro heq
      exact (Position.past_take_inj hlt.le hk heq).symm
    · rintro rfl
      rfl

/-- For every text and all calls, in any order and whether or not earlier ones failed: the cursor is
never past the end of the text, its line and column are those of its offset, and it never goes back.
Only a single move at the end overruns the text, and it leaves the cursor as it was. And where the
text has no tokens, the cursor stops at the one place that the error can mean, or one further. -/
theorem calls_keep_place (source : String) (calls : List Call) :
    ∃ log, session runByOne (.ofString source) calls = log ∧
      session run (.ofString source) calls = log ∧ log.map (·.call) = calls ∧
      (∀ x ∈ log, x.after.offset ≤ source.toList.length ∧
        x.after.position = .past (source.toList.take x.after.offset)) ∧
      (0 :: log.map (·.after.offset)).Pairwise (· ≤ ·) ∧
      (∀ x ∈ log, x.outcome = .error .overrun ↔
        x.call = .advance ∧ x.before.offset = source.toList.length) ∧
      (∀ x ∈ log, x.outcome = .error .overrun → x.after = x.before) ∧
      ∀ before e after, ⟨.tokens, before, .error (.lexical e), after⟩ ∈ log →
        ∃ j < source.toList.length,
          (∀ k ≤ source.toList.length, e.position = .past (source.toList.take k) ↔ k = j) ∧
          before.offset ≤ j ∧ j ≤ after.offset ∧ after.offset ≤ j + 1 := by
  have hstart := standsIn_ofString source
  have hvisit {x : Visit} (hx : x ∈ session run (.ofString source) calls) := exists_visit hstart hx
  refine ⟨_, session_runByOne _ calls, rfl, map_call_session _ calls, fun x hx => ?_,
    List.isChain_iff_pairwise.mp (isChain_session (.ofString source) calls), fun x hx => ?_,
    fun x hx houtcome => ?_, fun before e after hx => ?_⟩
  · obtain ⟨call, place, rfl, hplace⟩ := hvisit hx
    have hafter := hplace.reaches (call.reaches_run place)
    exact ⟨hafter.offset_le, hafter.position_eq⟩
  · obtain ⟨call, place, rfl, hplace⟩ := hvisit hx
    show (call.run place).1 = .error .overrun ↔ call = .advance ∧ place.offset = _
    rw [run_eq_overrun_iff, hplace.offset_eq_length_iff]
  · obtain ⟨call, place, rfl, -⟩ := hvisit hx
    exact after_of_overrun houtcome
  · obtain ⟨call, place, heq, hplace⟩ := hvisit hx
    obtain rfl : tokens = call := congrArg Visit.call heq
    simp only [visit, Visit.mk.injEq, heq_eq_eq, true_and] at heq
    obtain ⟨rfl, houtcome, rfl⟩ := heq
    exact exists_blamed hplace houtcome.symm

/-- A lone bar behind a line feed, and a lone dash at the end. -/
def loneMarks : String :=
  "a b\n |é -"

/-- Calls that go on behind both failures and behind a move at the end. -/
def loneCalls : List Call :=
  [readWord, tokens, advance, tokens, advance, skipLine, tokens]

theorem calls_keep_place_loneMarks :
    ∃ log, session runByOne (.ofString loneMarks) loneCalls = log ∧
      log.map (fun x => (x.outcome.isOk, x.after.offset, x.after.position)) =
        [(true, 1, ⟨1, 2⟩), (false, 6, ⟨2, 3⟩), (true, 7, ⟨2, 4⟩), (false, 9, ⟨2, 6⟩),
          (false, 9, ⟨2, 6⟩), (true, 9, ⟨2, 6⟩), (true, 9, ⟨2, 6⟩)] ∧
      (∀ x ∈ log, x.after.position = .past (loneMarks.toList.take x.after.offset)) ∧
      (∀ x ∈ log, x.call = .advance → x.before.offset = 9 →
        x.outcome = .error .overrun ∧ x.after = x.before) ∧
      ∀ before e after, ⟨.tokens, before, .error (.lexical e), after⟩ ∈ log →
        ∃ j < 9, e.position = .past (loneMarks.toList.take j) ∧
          j ≤ after.offset ∧ after.offset ≤ j + 1 := by
  obtain ⟨log, hbyOne, hlog, -, hplace, -, hoverrun, hstay, hblame⟩ :=
    calls_keep_place loneMarks loneCalls
  refine ⟨log, hbyOne, ?_, fun x hx => (hplace x hx).2, fun x hx hcall hbefore => ?_,
    fun before e after hx => ?_⟩
  · rw [← hlog]
    decide +kernel
  · have houtcome := (hoverrun x hx).mpr ⟨hcall, hbefore⟩
    exact ⟨houtcome, hstay x hx houtcome⟩
  · obtain ⟨j, hj, hposition, -, hlow, hhigh⟩ := hblame before e after hx
    exact ⟨j, hj, (hposition j hj.le).mpr rfl, hlow, hhigh⟩

end Call

end Wiretap.Cursor
