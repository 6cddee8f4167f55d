import Wiretap.Text.Charset
import Wiretap.Text.Hexadecimal

/-! Percent signs in addresses, forms and headers: a byte is written as a percent sign with two
hexadecimal digits. -/

namespace Wiretap.Percent

/-- A byte as a percent sign with two digits. -/
def escape (b : UInt8) : List Char :=
  ['%', Text.hexDigit (b.toNat / 16), Text.hexDigit (b.toNat % 16)]

/-- A text in which every character but the plain ones is written in escaped bytes. -/
def encode (isPlain : Char → Bool) (s : String) : List Char :=
  s.toList.flatMap fun c =>
    if isPlain c then [c] else (Text.encode (String.singleton c)).flatMap escape

/-- The bytes of a text with percent signs resolved, after `done`, last first. A percent sign
without two digits stands for itself. -/
def bytesAfter (done : List UInt8) : List Char → List UInt8
  | [] => done.reverse
  | '%' :: a :: b :: rest =>
    match Text.hexValue? a, Text.hexValue? b with
    | some x, some y => bytesAfter (UInt8.ofNat (16 * x + y) :: done) rest
    | _, _ => bytesAfter (UInt8.ofNat '%'.toNat :: done) (a :: b :: rest)
  | c :: rest => bytesAfter ((Text.encode (String.singleton c)).reverse ++ done) rest

/-- The bytes of a text with percent signs resolved. -/
def bytes (cs : List Char) : List UInt8 :=
  bytesAfter [] cs

/-- A text with percent signs resolved, where the bytes are those of an encoding. Characters
beyond the first 128 stand for themselves. -/
def decodeAs (charset : Text.Charset) (cs : List Char) : List Char :=
  (cs.splitBy fun a b => (a.toNat < 0x80) = (b.toNat < 0x80)).flatMap fun run =>
    if run.all (·.toNat < 0x80) then (charset.decode (bytes run)).toList else run

end Wiretap.Percent
