import Wiretap.Json.Basic
import Wiretap.Text.Hexadecimal
import Wiretap.Text.Integer
import Wiretap.Text.Units

/-! Reading JSON. Beside the standard, `NaN`, `Infinity` and `-Infinity` are numbers. Whole numbers
have a limited number of digits. -/

namespace Wiretap.Json

/-- Whether `c` may stand between the parts of a value. -/
def isGap (c : Char) : Bool :=
  c == ' ' || c == '\t' || c == '\n' || c == '\r'

/-- The text after leading gaps. -/
def skipGaps (cs : List Char) : List Char :=
  cs.dropWhile isGap

/-! ### Strings -/

/-- The code unit written with four hexadecimal digits. -/
def codeUnit? (a b c d : Char) : Option Nat := do
  let high := (← Text.hexValue? a) * 16 + (← Text.hexValue? b)
  let low := (← Text.hexValue? c) * 16 + (← Text.hexValue? d)
  return high * 256 + low

/-- The character after a backslash that stands for a character. -/
def escaped? : Char → Option Char
  | '"' => some '"'
  | '\\' => some '\\'
  | '/' => some '/'
  | 'b' => some '\x08'
  | 'f' => some '\x0c'
  | 'n' => some '\n'
  | 'r' => some '\r'
  | 't' => some '\t'
  | _ => none

/-- Reads a string up to its closing mark, after what was read of it. -/
def stringAfter (p : Text.Draft) : List Char → Option (String × List Char)
  | [] => none
  | '"' :: rest => some (p.text, rest)
  | '\\' :: 'u' :: a :: b :: c :: d :: rest =>
    match codeUnit? a b c d with
    | none => none
    | some n => stringAfter (p.pushUnit n) rest
  | '\\' :: e :: rest =>
    match escaped? e with
    | none => none
    | some c => stringAfter (p.push c) rest
  | c :: rest => if c.toNat < 0x20 || c = '\\' then none else stringAfter (p.push c) rest

/-! ### Numbers and names of values -/

/-- Whether `c` is a digit. -/
def isFigure (c : Char) : Bool :=
  '0' ≤ c && c ≤ '9'

/-- The digits before the point, which start with a zero only if that is all. -/
def wholePart (cs : List Char) : Option (List Char × List Char) :=
  match cs with
  | '0' :: rest => some (['0'], rest)
  | c :: rest =>
    if isFigure c then some (c :: rest.takeWhile isFigure, rest.dropWhile isFigure) else none
  | [] => none

/-- The point with at least one digit after it, if they follow. -/
def fraction (cs : List Char) : List Char × List Char :=
  match cs with
  | '.' :: c :: rest =>
    if isFigure c then ('.' :: c :: rest.takeWhile isFigure, rest.dropWhile isFigure) else ([], cs)
  | _ => ([], cs)

/-- The exponent with at least one digit, if it follows. -/
def exponent (cs : List Char) : List Char × List Char :=
  match cs with
  | e :: rest =>
    if e = 'e' || e = 'E' then
      let (sign, rest) := match rest with
        | '+' :: r => (['+'], r)
        | '-' :: r => (['-'], r)
        | r => ([], r)
      match rest with
      | c :: r =>
        if isFigure c then
          (e :: (sign ++ c :: r.takeWhile isFigure), r.dropWhile isFigure)
        else ([], cs)
      | [] => ([], cs)
    else ([], cs)
  | [] => ([], cs)

/-- Why a text is not a JSON value that can be used. -/
inductive ReadError where
  | malformed
  | tooManyDigits (count : Nat)
deriving DecidableEq, Repr

/-- The words for an error. -/
def ReadError.message : ReadError → String
  | malformed => "invalid JSON"
  | tooManyDigits count =>
    "Exceeds the limit (" ++ toString Text.maxDigits ++
      " digits) for integer string conversion: value has " ++ toString count ++
      " digits; use sys.set_int_max_str_digits() to increase the limit"

/-- Reads a number. A whole number may not have too many digits. -/
def readNumber (cs : List Char) : Except ReadError (Json × List Char) :=
  let (sign, cs) := match cs with
    | '-' :: rest => (['-'], rest)
    | _ => ([], cs)
  match wholePart cs with
  | none => .error .malformed
  | some (whole, cs) =>
    let (frac, cs) := fraction cs
    let (exp, cs) := exponent cs
    if frac.isEmpty && exp.isEmpty && Text.maxDigits < whole.length then
      .error (.tooManyDigits whole.length)
    else .ok (.number (String.ofList (sign ++ whole ++ frac ++ exp)), cs)

/-- The values that have names. -/
def named : List (String × Json) :=
  [("null", .null), ("true", .bool true), ("false", .bool false), ("NaN", .number "NaN"),
   ("Infinity", .number "Infinity"), ("-Infinity", .number "-Infinity")]

/-- Reads a value that has a name. -/
def named? (cs : List Char) : Option (Json × List Char) :=
  (named.find? fun entry => entry.1.toList.isPrefixOf cs).map fun entry =>
    (entry.2, cs.drop entry.1.toList.length)

/-! ### Values -/

mutual

/-- Reads a value in at most `fuel` steps. -/
def value (fuel : Nat) (cs : List Char) : Except ReadError (Json × List Char) :=
  match fuel with
  | 0 => .error .malformed
  | fuel + 1 =>
    match cs with
    | '"' :: rest =>
      match stringAfter {} rest with
      | none => .error .malformed
      | some (s, rest) => .ok (.string s, rest)
    | '[' :: rest =>
      match skipGaps rest with
      | ']' :: rest => .ok (.array [], rest)
      | rest => items fuel [] rest
    | '\x7b' :: rest =>
      match skipGaps rest with
      | '\x7d' :: rest => .ok (.object [], rest)
      | rest => members fuel [] rest
    | _ =>
      match named? cs with
      | some found => .ok found
      | none => readNumber cs

/-- Reads the items of an array up to its end, after `done`, last first. -/
def items (fuel : Nat) (done : List Json) (cs : List Char) : Except ReadError (Json × List Char) :=
  match fuel with
  | 0 => .error .malformed
  | fuel + 1 =>
    match value fuel cs with
    | .error e => .error e
    | .ok (v, rest) =>
      match skipGaps rest with
      | ',' :: rest => items fuel (v :: done) (skipGaps rest)
      | ']' :: rest => .ok (.array (v :: done).reverse, rest)
      | _ => .error .malformed

/-- Reads the members of an object up to its end, after `done`, last first. -/
def members (fuel : Nat) (done : List (String × Json)) (cs : List Char) :
    Except ReadError (Json × List Char) :=
  match fuel with
  | 0 => .error .malformed
  | fuel + 1 =>
    match cs with
    | '"' :: rest =>
      match stringAfter {} rest with
      | none => .error .malformed
      | some (name, rest) =>
        match skipGaps rest with
        | ':' :: rest =>
          match value fuel (skipGaps rest) with
          | .error e => .error e
          | .ok (v, rest) =>
            match skipGaps rest with
            | ',' :: rest => members fuel ((name, v) :: done) (skipGaps rest)
            | '\x7d' :: rest => .ok (.object ((name, v) :: done).reverse, rest)
            | _ => .error .malformed
        | _ => .error .malformed
    | _ => .error .malformed

end

/-- The value that a text spells. Each step but one in two takes a character. -/
def parse (s : String) : Except ReadError Json :=
  let cs := s.toList
  match value (2 * cs.length + 2) (skipGaps cs) with
  | .error e => .error e
  | .ok (v, rest) => if (skipGaps rest).isEmpty then .ok v else .error .malformed

end Wiretap.Json
