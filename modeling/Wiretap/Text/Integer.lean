import Wiretap.Text.Numeral
import Wiretap.Text.Space

/-! Whole numbers written in decimal digits of any script. -/

namespace Wiretap.Text

/-- Whether `c` may stand around a number: white space, but no information separator. -/
def isPadding (c : Char) : Bool :=
  isSpace c && !(0x1C ≤ c.toNat && c.toNat ≤ 0x1F)

/-- Reads digits, with single underscores between them, after `done`, which holds the values of
those before, last first. -/
def digitsAfter (done : List Nat) : List Char → Option (List Nat)
  | [] => none
  | c :: rest =>
    match digitValue? c with
    | none => none
    | some d =>
      match rest with
      | [] => some (d :: done).reverse
      | '_' :: rest => digitsAfter (d :: done) rest
      | rest => digitsAfter (d :: done) rest

/-- The number with given digits. -/
def ofDigits (digits : List Nat) : Nat :=
  digits.foldl (fun n d => 10 * n + d) 0

/-- The largest number of digits that is read. -/
def maxDigits : Nat := 4300

/-- The whole number that a text spells, with padding around it and a sign in front. -/
def integer? (s : String) : Option Int :=
  let cs := ((s.toList.dropWhile isPadding).reverse.dropWhile isPadding).reverse
  let (negative, cs) := match cs with
    | '-' :: rest => (true, rest)
    | '+' :: rest => (false, rest)
    | rest => (false, rest)
  match digitsAfter [] cs with
  | none => none
  | some digits =>
    if maxDigits < digits.length then none
    else some (if negative then -(ofDigits digits : Int) else ofDigits digits)

end Wiretap.Text
