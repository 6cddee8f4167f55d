import Wiretap.Text.Utf8

/-! The encodings that a header may name. -/

namespace Wiretap.Text

/-- An encoding of text in bytes. -/
inductive Charset where
  | ascii
  | latin1
  | utf8
deriving DecidableEq, Repr

namespace Charset

/-- The encoding with a given name, in lower case. -/
def ofName? (name : String) : Option Charset :=
  if name = "ascii" || name = "us-ascii" then some ascii
  else if name = "iso-8859-1" then some latin1
  else if name = "utf-8" then some utf8
  else none

/-- The text that bytes spell, with a replacement character for what spells nothing. -/
def decode (charset : Charset) (bytes : List UInt8) : String :=
  match charset with
  | ascii => String.ofList (bytes.map fun b => if b < 0x80 then Char.ofNat b.toNat else '�')
  | latin1 => String.ofList (bytes.map fun b => Char.ofNat b.toNat)
  | utf8 => decodeLossy bytes

end Charset

end Wiretap.Text
