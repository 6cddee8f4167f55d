import Wiretap.Json.Reader
import Wiretap.Text.Utf8

/-! JSON in bytes. A value starts with a character below 128, so the zeros among the first bytes
show in what units the text is written. A byte-order mark in front shows it, too. -/

namespace Wiretap.Json

/-- How a text is written in bytes. -/
inductive Encoding where
  | utf8
  | utf16 (order : Text.ByteOrder)
  | utf32 (order : Text.ByteOrder)
deriving DecidableEq, Repr

namespace Encoding

/-- The encoding that the first bytes show, and the bytes after a byte-order mark. -/
def detect (bytes : List UInt8) : Encoding × List UInt8 :=
  match bytes with
  | 0x00 :: 0x00 :: 0xFE :: 0xFF :: rest => (utf32 .highFirst, rest)
  | 0xFF :: 0xFE :: 0x00 :: 0x00 :: rest => (utf32 .lowFirst, rest)
  | 0xFE :: 0xFF :: rest => (utf16 .highFirst, rest)
  | 0xFF :: 0xFE :: rest => (utf16 .lowFirst, rest)
  | 0xEF :: 0xBB :: 0xBF :: rest => (utf8, rest)
  | 0x00 :: 0x00 :: _ :: _ :: _ => (utf32 .highFirst, bytes)
  | 0x00 :: _ :: _ :: _ :: _ => (utf16 .highFirst, bytes)
  | _ :: 0x00 :: 0x00 :: 0x00 :: _ => (utf32 .lowFirst, bytes)
  | _ :: 0x00 :: _ :: _ :: _ => (utf16 .lowFirst, bytes)
  | [0x00, _] => (utf16 .highFirst, bytes)
  | [_, 0x00] => (utf16 .lowFirst, bytes)
  | _ => (utf8, bytes)

/-- The text that bytes spell. -/
def decode? : Encoding → List UInt8 → Option String
  | utf8 => Text.decode?
  | utf16 order => Text.decode16? order
  | utf32 order => Text.decode32? order

end Encoding

/-- The value that bytes spell. -/
def decode (bytes : List UInt8) : Except ReadError Json :=
  let (encoding, bytes) := Encoding.detect bytes
  match encoding.decode? bytes with
  | none => .error .malformed
  | some s => parse s

end Wiretap.Json
