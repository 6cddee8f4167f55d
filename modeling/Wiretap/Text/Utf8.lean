/-! Reading UTF-8. What is not well-formed falls into maximal parts: each starts a character and
goes on as far as some well-formed text would. -/

namespace Wiretap.Text

/-- A piece of a text in bytes: a character, or the bytes of an ill-formed part. -/
inductive Piece where
  | char (c : Char)
  | broken (bytes : List UInt8)

/-- A place in a text: how many bytes the current character still needs, its value so far, the
bounds of its next byte, and its bytes, last first. -/
structure Utf8State where
  need : Nat
  value : Nat
  low : Nat
  high : Nat
  bytes : List UInt8

namespace Utf8State

/-- Between two characters. -/
def start : Utf8State := ⟨0, 0, 0x80, 0xBF, []⟩

/-- The state after the first byte of a character, or none if no character starts so. -/
def ofLead? (byte : UInt8) : Option Utf8State :=
  let b := byte.toNat
  if b < 0x80 then some ⟨0, b, 0x80, 0xBF, [byte]⟩
  else if 0xC2 ≤ b && b ≤ 0xDF then some ⟨1, b - 0xC0, 0x80, 0xBF, [byte]⟩
  else if b = 0xE0 then some ⟨2, 0, 0xA0, 0xBF, [byte]⟩
  else if b = 0xED then some ⟨2, 0xD, 0x80, 0x9F, [byte]⟩
  else if 0xE1 ≤ b && b ≤ 0xEF then some ⟨2, b - 0xE0, 0x80, 0xBF, [byte]⟩
  else if b = 0xF0 then some ⟨3, 0, 0x90, 0xBF, [byte]⟩
  else if 0xF1 ≤ b && b ≤ 0xF3 then some ⟨3, b - 0xF0, 0x80, 0xBF, [byte]⟩
  else if b = 0xF4 then some ⟨3, 4, 0x80, 0x8F, [byte]⟩
  else none

/-- The state after one more byte of a character, or none if the character cannot go on so. -/
def next? (s : Utf8State) (byte : UInt8) : Option Utf8State :=
  let b := byte.toNat
  if s.low ≤ b && b ≤ s.high then
    some ⟨s.need - 1, s.value * 64 + (b - 0x80), 0x80, 0xBF, byte :: s.bytes⟩
  else none

/-- Writes the character of a state that needs no more bytes. -/
def emit (s : Utf8State) (done : List Piece) : Utf8State × List Piece :=
  if s.need = 0 then (start, .char (Char.ofNat s.value) :: done) else (s, done)

/-- Takes the first byte of a character. -/
def lead (byte : UInt8) (done : List Piece) : Utf8State × List Piece :=
  match ofLead? byte with
  | some s => s.emit done
  | none => (start, .broken [byte] :: done)

/-- Ends the text: a character that needs more bytes is ill-formed. -/
def finish (s : Utf8State) (done : List Piece) : List Piece :=
  if s.need = 0 then done else .broken s.bytes.reverse :: done

/-- Takes a byte. A byte that does not continue a character ends an ill-formed part and starts
anew. -/
def take (s : Utf8State) (byte : UInt8) (done : List Piece) : Utf8State × List Piece :=
  if s.need = 0 then lead byte done
  else
    match s.next? byte with
    | some s => s.emit done
    | none => lead byte (s.finish done)

end Utf8State

/-- Reads bytes after `done`, which holds the pieces that were read, last first. -/
def decodeAfter (s : Utf8State) (done : List Piece) : List UInt8 → List Piece
  | [] => (s.finish done).reverse
  | b :: rest =>
    let (s, done) := s.take b done
    decodeAfter s done rest

/-- The pieces of a text in bytes. -/
def decode (bytes : List UInt8) : List Piece :=
  decodeAfter .start [] bytes

/-- The text that bytes spell, with `replace` for each ill-formed part. -/
def decodeWith (replace : List UInt8 → List Char) (bytes : List UInt8) : String :=
  String.ofList <| (decode bytes).flatMap fun
    | .char c => [c]
    | .broken part => replace part

/-- The text that bytes spell, with a replacement character for each ill-formed part. -/
def decodeLossy (bytes : List UInt8) : String :=
  decodeWith (fun _ => ['�']) bytes

/-- The characters of pieces that are all well-formed, after `done`, last first. -/
def charsAfter (done : List Char) : List Piece → Option (List Char)
  | [] => some done.reverse
  | .char c :: rest => charsAfter (c :: done) rest
  | .broken _ :: _ => none

/-- The text that well-formed bytes spell. -/
def decode? (bytes : List UInt8) : Option String :=
  (charsAfter [] (decode bytes)).map String.ofList

/-- The bytes that spell a text. -/
def encode (s : String) : List UInt8 :=
  s.toUTF8.toList

/-- A text with every line end written as a line feed, after `done`, last first. -/
def lineFeedsAfter (done : List Char) : List Char → List Char
  | [] => done.reverse
  | '\r' :: '\n' :: rest => lineFeedsAfter ('\n' :: done) rest
  | '\r' :: rest => lineFeedsAfter ('\n' :: done) rest
  | c :: rest => lineFeedsAfter (c :: done) rest

/-- A text with every line end, `\r\n` or `\r`, written as a line feed. -/
def lineFeeds (s : String) : String :=
  String.ofList (lineFeedsAfter [] s.toList)

end Wiretap.Text
