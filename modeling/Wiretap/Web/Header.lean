import Wiretap.Text.Lowercase
import Wiretap.Web.Percent

/-! The value of a header: a main value, after which parameters stand, each behind a semicolon. -/

namespace Wiretap

/-- The value of a header with its parameters. -/
structure Header where
  value : String
  parameters : List (String × String) := []

namespace Header

/-- The parameter with a given name, the last one if there are two. -/
def parameter? (h : Header) (name : String) : Option String :=
  (h.parameters.reverse.find? (·.1 = name)).map (·.2)

/-! ### Pieces -/

/-- Whether `c` is a space or a tab. -/
def isBlank (c : Char) : Bool :=
  c = ' ' || c = '\t'

/-- A text without blanks around it. -/
def trim (cs : List Char) : List Char :=
  ((cs.dropWhile isBlank).reverse.dropWhile isBlank).reverse

/-- Whether `c` may stand in a name, and in a value without quotation marks. -/
def isTokenChar (c : Char) : Bool :=
  c.isAlphanum || "_!#$%&'*+-.^`|~".toList.contains c

/-- A quoted value up to its closing mark, after `done`, last first, and the text behind it. A
mark that follows a backslash does not count, unless that one is itself behind a backslash. -/
def quotedAfter (done : List Char) : List Char → Option (List Char × List Char)
  | [] => none
  | '\\' :: c :: rest => quotedAfter (c :: '\\' :: done) rest
  | '"' :: rest => some (('"' :: done).reverse, rest)
  | c :: rest => quotedAfter (c :: done) rest

/-- A value as it is written, if there is one, and the text behind it. Without its closing mark a
quoted value takes up the whole text and does not count. -/
def rawValue (cs : List Char) : Option (List Char) × List Char :=
  match cs with
  | '"' :: rest =>
    match quotedAfter ['"'] rest with
    | some (value, rest) => (some value, rest)
    | none => (none, [])
  | _ =>
    match cs.takeWhile isTokenChar with
    | [] => (none, cs)
    | token => (some token, cs.drop token.length)

/-- A parameter at the start of a text, with its value as it is written, and the text behind what
was read of it. -/
def rawParameter (cs : List Char) : Option (List Char × List Char) × List Char :=
  let key := cs.takeWhile isTokenChar
  match key, cs.drop key.length with
  | _ :: _, '=' :: rest =>
    let (value, rest) := rawValue rest
    (value.map (key, ·), rest)
  | _, _ => (none, cs)

/-- The parameters in a text, of which there are less than `limit`. What is no parameter is
passed over up to the next semicolon. -/
def rawParameters : Nat → List Char → List (List Char × List Char)
  | 0, _ => []
  | limit + 1, cs =>
    let (found, rest) := rawParameter cs
    found.toList ++
      match rest.dropWhile (· != ';') with
      | [] => []
      | _ :: rest => rawParameters limit (rest.dropWhile isBlank)

/-! ### Values -/

/-- Parameters in the course of reading, last first, with the encodings that were named last and
used last. -/
structure Draft where
  done : List (String × String) := []
  named : String := ""
  used : String := ""

/-- An encoding, a language, which is not used, and a value, with apostrophes between them. -/
def charsetAndValue? (cs : List Char) : Option (List Char × List Char) :=
  let charset := cs.takeWhile fun c => isTokenChar c && c != '\''
  match cs.drop charset.length with
  | '\'' :: rest =>
    match rest.dropWhile fun c => isTokenChar c && c != '\'' with
    | '\'' :: rest =>
      match rest.takeWhile isTokenChar with
      | [] => none
      | value => some (charset, value)
    | _ => none
  | _ => none

/-- A text in which a backslash stands for the character behind it, after `done`, last first. -/
def unescapeAfter (done : List Char) : List Char → List Char
  | [] => done.reverse
  | '\\' :: c :: rest => unescapeAfter (c :: done) rest
  | c :: rest => unescapeAfter (c :: done) rest

/-- A value without the quotation marks around it, and with those inside resolved. -/
def unquote (cs : List Char) : String :=
  if cs.head? = some '"' && cs.getLast? = some '"' then
    (String.ofList (unescapeAfter [] cs.tail.dropLast)).replace "%22" "\""
  else String.ofList cs

/-- The name in front of a star and a number, if a name ends so. -/
def continued? (key : List Char) : Option (List Char) :=
  let digits := key.reverse.takeWhile Char.isDigit
  match digits, key.reverse.drop digits.length with
  | _ :: _, '*' :: name => some name.reverse
  | _, _ => none

namespace Draft

/-- The value of a parameter whose name ends with a star. It may name an encoding, and without
one the encoding before goes on. -/
def extended (d : Draft) (raw : List Char) : Draft × List Char :=
  let (named, raw) := match charsetAndValue? raw with
    | some (charset, value) => (Text.lowercase (String.ofList charset), value)
    | none => (d.named, raw)
  let named := if named = "" then d.used else named
  match Text.Charset.ofName? named with
  | some charset => ({ d with named, used := named }, Percent.decodeAs charset raw)
  | none => ({ d with named }, raw)

/-- Adds a parameter. The pieces of a value whose names are numbered are put together. -/
def push (d : Draft) (key raw : List Char) : Draft :=
  let (d, key, raw) :=
    if key.getLast? = some '*' then
      let (d, raw) := d.extended raw
      (d, key.dropLast, raw)
    else (d, key, raw)
  let value := unquote raw
  match continued? key with
  | some name =>
    let name := String.ofList name
    let before := ((d.done.find? (·.1 = name)).map (·.2)).getD ""
    { d with done := (name, before ++ value) :: d.done }
  | none => { d with done := (String.ofList key, value) :: d.done }

end Draft

/-- Reads the value of a header. Without a main value there are no parameters. Names of parameters
are in lower case. -/
def parse (s : String) : Header :=
  let cs := s.toList
  let value := trim (cs.takeWhile (· != ';'))
  let rest := trim ((cs.dropWhile (· != ';')).drop 1)
  if value.isEmpty then { value := "" }
  else
    let raws := rawParameters (rest.length + 1) rest
    let draft := raws.foldl (fun (d : Draft) raw => d.push (raw.1.map Char.toLower) raw.2) {}
    { value := String.ofList value, parameters := draft.done.reverse }

end Header

end Wiretap
