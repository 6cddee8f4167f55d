import Wiretap.Web.Percent

/-! Form fields in the body of a request. A space is written as a plus sign, and other bytes as a
percent sign with two hexadecimal digits. -/

namespace Wiretap.Form

/-! ### Reading -/

/-- A text with percent signs resolved. Bytes that do not spell a character keep their percent
form. -/
def unescape (cs : List Char) : String :=
  Text.decodeWith (·.flatMap Percent.escape) (Percent.bytes cs)

/-- A name or value of a field. -/
def decodePart (cs : List Char) : String :=
  unescape (cs.map fun c => if c = '+' then ' ' else c)

/-- A field: its name up to the first equals sign, and its value. -/
def decodeField (field : List Char) : String × String :=
  (decodePart (field.takeWhile (· != '=')), decodePart ((field.dropWhile (· != '=')).drop 1))

/-- The fields of a form, with ampersands between them. -/
def decode (s : String) : List (String × String) :=
  (((s.toList.splitBy fun a b => a ≠ '&' && b ≠ '&').filter (· ≠ ['&']))).map decodeField

/-- The first value of a field. -/
def value? (fields : List (String × String)) (name : String) : Option String :=
  (fields.find? (·.1 = name)).map (·.2)

/-! ### Writing -/

/-- Whether `c` stands for itself in a name or value. -/
def isPlain (c : Char) : Bool :=
  c.isAlphanum || "_.-~!$'()*,/:;?@".toList.contains c

/-- A name or value in a form. -/
def encodePart (s : String) : List Char :=
  (Percent.encode (fun c => isPlain c || c = ' ') s).map fun c => if c = ' ' then '+' else c

/-- Fields as a form. -/
def encode (fields : List (String × String)) : String :=
  "&".intercalate (fields.map fun f =>
    String.ofList (encodePart f.1 ++ '=' :: encodePart f.2))

end Wiretap.Form
