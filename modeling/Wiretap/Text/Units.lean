/-! Text in units of sixteen bits, where a pair of units makes a character that one cannot, and
text in units of thirty-two bits. -/

namespace Wiretap.Text

/-- Whether a unit is the first of a pair. -/
def isHighUnit (n : Nat) : Bool :=
  0xD800 ≤ n && n < 0xDC00

/-- Whether a unit is the second of a pair. -/
def isLowUnit (n : Nat) : Bool :=
  0xDC00 ≤ n && n < 0xE000

/-- The character of a single unit; half of a pair has none and is replaced. -/
def ofUnit (n : Nat) : Char :=
  if isHighUnit n || isLowUnit n then '�' else Char.ofNat n

/-- The character of a pair of units. -/
def ofUnits (high low : Nat) : Char :=
  Char.ofNat (0x10000 + (high - 0xD800) * 0x400 + (low - 0xDC00))

/-- A text in the course of reading: its characters, last first, after which the first unit of
a pair may stand. -/
structure Draft where
  done : List Char := []
  high : Option Nat := none

namespace Draft

/-- The characters, last first. A first unit without its second is replaced. -/
def flush (p : Draft) : List Char :=
  match p.high with
  | none => p.done
  | some high => ofUnit high :: p.done

/-- The text with one more character. -/
def push (p : Draft) (c : Char) : Draft :=
  ⟨c :: p.flush, none⟩

/-- The text with one more unit. -/
def pushUnit (p : Draft) (n : Nat) : Draft :=
  match p.high with
  | some high =>
    if isLowUnit n then ⟨ofUnits high n :: p.done, none⟩
    else if isHighUnit n then ⟨p.flush, some n⟩
    else p.push (ofUnit n)
  | none => if isHighUnit n then ⟨p.done, some n⟩ else p.push (ofUnit n)

/-- The finished text. -/
def text (p : Draft) : String :=
  String.ofList p.flush.reverse

end Draft

/-! ### Bytes -/

/-- Which byte of a unit comes first. -/
inductive ByteOrder where
  | highFirst
  | lowFirst
deriving DecidableEq, Repr

/-- The number that the bytes of a unit spell. -/
def ByteOrder.number (o : ByteOrder) (bytes : List UInt8) : Nat :=
  let bytes := match o with
    | .highFirst => bytes
    | .lowFirst => bytes.reverse
  bytes.foldl (fun n b => 256 * n + b.toNat) 0

/-- Reads units of two bytes after a text. -/
def decode16After? (o : ByteOrder) (p : Draft) : List UInt8 → Option String
  | [] => some p.text
  | [_] => none
  | a :: b :: rest => decode16After? o (p.pushUnit (o.number [a, b])) rest

/-- The text that units of two bytes spell, or none if a byte is left over. -/
def decode16? (o : ByteOrder) (bytes : List UInt8) : Option String :=
  decode16After? o {} bytes

/-- Reads units of four bytes after `done`, last first. -/
def decode32After? (o : ByteOrder) (done : List Char) : List UInt8 → Option String
  | [] => some (String.ofList done.reverse)
  | a :: b :: c :: d :: rest =>
    let n := o.number [a, b, c, d]
    if n < 0x110000 then decode32After? o (ofUnit n :: done) rest else none
  | _ => none

/-- The text that units of four bytes spell, or none if bytes are left over or a unit is no
character. -/
def decode32? (o : ByteOrder) (bytes : List UInt8) : Option String :=
  decode32After? o [] bytes

end Wiretap.Text
