import Wiretap.Source.Diagnostic
import Wiretap.Text.Space
import Wiretap.Text.Word

/-! Splitting a source text into tokens. A cursor stands in the text; each step passes over white
space, a comment or a token, and leaves less of the text to read. -/

namespace Wiretap

/-- A place in a text: the characters before it, nearest first, those after it, and its line and
column. -/
structure Cursor where
  past : List Char
  rest : List Char
  position : Position
deriving DecidableEq, Repr

/-- What a text cannot hold. -/
inductive LexCause where
  | loneBar
  | loneDash
  | unexpected (c : Char)
deriving DecidableEq, Repr

/-- The words for a cause. -/
def LexCause.detail : LexCause → String
  | loneBar => "Expected '|' to complete '||'"
  | loneDash => "Expected '>' after '-'"
  | unexpected c => "Unexpected character '" ++ String.singleton c ++ "'"

/-- A cause with the place of the character to blame. -/
structure LexError where
  cause : LexCause
  position : Position
deriving DecidableEq, Repr

/-- The fault of the source text that an error stands for. -/
def LexError.diagnostic (e : LexError) : Diagnostic :=
  .lexical e.cause.detail e.position

/-- A look or a move outside the text. -/
inductive Cursor.Overrun where
  | overrun
deriving DecidableEq, Repr

/-- The words for a move outside the text. -/
def Cursor.Overrun.message (_ : Cursor.Overrun) : String :=
  "string index out of range"

namespace Cursor

/-- The cursor at the start of a text. -/
def ofString (s : String) : Cursor :=
  ⟨[], s.toList, .start⟩

/-- The number of characters before the cursor. -/
def offset (c : Cursor) : Nat :=
  c.past.length

/-- Whether nothing is left to read. -/
def atEnd (c : Cursor) : Bool :=
  c.rest.isEmpty

/-- The cursor past `x`, with `xs` left to read. -/
def move (c : Cursor) (x : Char) (xs : List Char) : Cursor :=
  ⟨x :: c.past, xs, c.position.after x⟩

/-- The next character, and the cursor past it. -/
def advance? (c : Cursor) : Option (Char × Cursor) :=
  match c.rest with
  | [] => none
  | x :: xs => some (x, c.move x xs)

/-- The longest run of characters with a property, and the cursor past it. -/
def readWhile (p : Char → Bool) (c : Cursor) : List Char × Cursor :=
  let run := c.rest.takeWhile p
  (run, ⟨run.reverse ++ c.past, c.rest.dropWhile p, c.position.afterAll run⟩)

/-- The cursor at the end of its line. -/
def skipLine (c : Cursor) : Cursor :=
  (c.readWhile (· != '\n')).2

/-- The longest run of word characters, and the cursor past it. -/
def readWord (c : Cursor) : String × Cursor :=
  let (run, next) := c.readWhile Text.isWordChar
  (String.ofList run, next)

/-- The character `ahead` places from the cursor, if the text goes so far. A place before the
start of the text is counted back from its end. -/
def peek (c : Cursor) (ahead : Int) : Except Overrun (Option Char) :=
  let text := c.past.reverse ++ c.rest
  let place := c.offset + ahead
  if 0 ≤ place then .ok text[place.toNat]?
  else if 0 ≤ text.length + place then .ok text[(text.length + place).toNat]?
  else .error .overrun

/-- What a cursor finds at its place. -/
inductive Step where
  | finished
  | skipped (next : Cursor)
  | found (token : Token) (next : Cursor)
  | failed (error : LexError) (next : Cursor)

/-- A token of the two characters `x` and `second`, of which `x` is next; a cursor that has
passed `x` alone otherwise. -/
def pairStep (c : Cursor) (kind : Kind) (cause : LexCause) (x second : Char) (xs : List Char) :
    Step :=
  match xs with
  | [] => .failed ⟨cause, c.position⟩ (c.move x xs)
  | y :: ys =>
    if y = second then
      .found ⟨kind, String.ofList [x, y], c.position⟩ ((c.move x xs).move y ys)
    else .failed ⟨cause, c.position⟩ (c.move x xs)

/-- Passes over one white-space character, one comment up to the end of its line, or one
token. -/
def step (c : Cursor) : Step :=
  match c.rest with
  | [] => .finished
  | x :: xs =>
    if Text.isSpace x then .skipped (c.move x xs)
    else if x = '#' || (x = '/' && xs.head? = some '/') then .skipped c.skipLine
    else if Text.isLetter x then
      .found ⟨.ofWord c.readWord.1, c.readWord.1, c.position⟩ c.readWord.2
    else match Kind.ofMark? x with
    | some kind => .found ⟨kind, String.singleton x, c.position⟩ (c.move x xs)
    | none =>
      if x = '|' then c.pairStep .join .loneBar x '|' xs
      else if x = '-' then c.pairStep .arrow .loneDash x '>' xs
      else .failed ⟨.unexpected x, c.position⟩ c

theorem rest_readWhile_lt {p : Char → Bool} {c : Cursor} {x : Char} {xs : List Char}
    (hc : c.rest = x :: xs) (hx : p x = true) :
    (c.readWhile p).2.rest.length < c.rest.length := by
  have h : (xs.dropWhile p).length ≤ xs.length := (List.dropWhile_sublist p).length_le
  simp [readWhile, hc, hx]
  omega

/-- A comment starts with a character that does not end its line. -/
theorem commentStart_ne_newline {x : Char} {xs : List Char}
    (h : (x = '#' || (x = '/' && xs.head? = some '/')) = true) : (x != '\n') = true := by
  rcases Bool.or_eq_true .. |>.mp h with h | h
  · simp at h
    simp [h]
  · simp at h
    simp [h.1]

/-- Where a step goes on from, unless it ends the reading. -/
def Step.next? : Step → Option Cursor
  | finished => none
  | skipped next => some next
  | found _ next => some next
  | failed _ _ => none

theorem pairStep_shorter {c next : Cursor} {kind : Kind} {cause : LexCause} {x second : Char}
    {xs : List Char} (h : (c.pairStep kind cause x second xs).next? = some next) :
    next.rest.length < (x :: xs).length := by
  unfold pairStep at h
  split at h
  · simp [Step.next?] at h
  · split at h
    · obtain rfl := Option.some.inj h
      simp only [move, List.length_cons]
      omega
    · simp [Step.next?] at h

/-- A step that goes on leaves less to read. -/
theorem step_shorter {c next : Cursor} (h : c.step.next? = some next) :
    next.rest.length < c.rest.length := by
  cases hc : c.rest with
  | nil => simp [step, hc, Step.next?] at h
  | cons x xs =>
    simp only [step, hc] at h
    split at h
    · obtain rfl := Option.some.inj h
      simp [move]
    · split at h
      · rename_i hx
        obtain rfl := Option.some.inj h
        have := rest_readWhile_lt (p := (· != '\n')) hc (commentStart_ne_newline hx)
        simpa [skipLine, hc] using this
      · split at h
        · rename_i hx
          obtain rfl := Option.some.inj h
          have := rest_readWhile_lt hc (Text.isWordChar_of_isLetter hx)
          simpa [readWord, hc] using this
        · split at h
          · obtain rfl := Option.some.inj h
            simp [move]
          · split at h
            · exact pairStep_shorter h
            · split at h
              · exact pairStep_shorter h
              · simp [Step.next?] at h

/-- Reads tokens up to the end of the text or the first error, after `found`, which holds the
tokens before the cursor, last first. The cursor ends where reading stopped. -/
def tokensAfter (found : List Token) (c : Cursor) : Except LexError Tokens × Cursor :=
  match _ : c.step with
  | .finished => (.ok ⟨found.reverse, ⟨.ending, "", c.position⟩, rfl⟩, c)
  | .skipped next => tokensAfter found next
  | .found token next => tokensAfter (token :: found) next
  | .failed error next => (.error error, next)
termination_by c.rest.length
decreasing_by
  all_goals
    rename_i h
    exact step_shorter (by rw [h]; rfl)

/-- Reads the tokens of the rest of the text. -/
def tokens (c : Cursor) : Except LexError Tokens × Cursor :=
  c.tokensAfter []

end Cursor

/-- The tokens of a source text. -/
def tokenize (source : String) : Except LexError Tokens :=
  (Cursor.ofString source).tokens.1

end Wiretap
