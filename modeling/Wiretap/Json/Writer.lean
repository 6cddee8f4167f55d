import Wiretap.Json.Basic
import Wiretap.Text.Quoted

/-! Writing JSON in ASCII, on one line or indented by two spaces for each level. -/

namespace Wiretap.Json

/-- How `c` is written in a string. A character beyond the first 65536 takes a pair of code
units. -/
def escape (c : Char) : List Char :=
  let unit (n : Nat) : List Char := '\\' :: 'u' :: Text.hexDigits 4 n
  if c = '"' then ['\\', '"']
  else if c = '\\' then ['\\', '\\']
  else if c = '\n' then ['\\', 'n']
  else if c = '\r' then ['\\', 'r']
  else if c = '\t' then ['\\', 't']
  else if c = '\x0c' then ['\\', 'f']
  else if c = '\x08' then ['\\', 'b']
  else if 0x20 ≤ c.toNat && c.toNat < 0x7F then [c]
  else if c.toNat < 0x10000 then unit c.toNat
  else unit (0xD800 + (c.toNat - 0x10000) / 0x400) ++ unit (0xDC00 + (c.toNat - 0x10000) % 0x400)

/-- A text as a JSON string. -/
def quote (s : String) : String :=
  String.ofList ('"' :: (s.toList.flatMap escape ++ ['"']))

/-- A new line at a level. -/
def lineBreak (level : Nat) : String :=
  String.ofList ('\n' :: List.replicate (2 * level) ' ')

mutual

/-- A value at a level, one item or member a line. -/
def indented (level : Nat) : Json → String
  | .null => "null"
  | .bool true => "true"
  | .bool false => "false"
  | .number text => text
  | .string s => quote s
  | .array [] => "[]"
  | .array (v :: vs) =>
    "[" ++ lineBreak (level + 1) ++ v.indented (level + 1) ++ indentedItems (level + 1) vs ++
      lineBreak level ++ "]"
  | .object [] => "\x7b\x7d"
  | .object ((name, v) :: rest) =>
    "\x7b" ++ lineBreak (level + 1) ++ quote name ++ ": " ++ v.indented (level + 1) ++
      indentedMembers (level + 1) rest ++ lineBreak level ++ "\x7d"

/-- The items after the first, each after a comma. -/
def indentedItems (level : Nat) : List Json → String
  | [] => ""
  | v :: vs => "," ++ lineBreak level ++ v.indented level ++ indentedItems level vs

/-- The members after the first, each after a comma. -/
def indentedMembers (level : Nat) : List (String × Json) → String
  | [] => ""
  | (name, v) :: rest =>
    "," ++ lineBreak level ++ quote name ++ ": " ++ v.indented level ++
      indentedMembers level rest

end

mutual

/-- A value on one line. -/
def compact : Json → String
  | .null => "null"
  | .bool true => "true"
  | .bool false => "false"
  | .number text => text
  | .string s => quote s
  | .array [] => "[]"
  | .array (v :: vs) => "[" ++ v.compact ++ compactItems vs ++ "]"
  | .object [] => "\x7b\x7d"
  | .object ((name, v) :: rest) =>
    "\x7b" ++ quote name ++ ": " ++ v.compact ++ compactMembers rest ++ "\x7d"

/-- The items after the first, each after a comma. -/
def compactItems : List Json → String
  | [] => ""
  | v :: vs => ", " ++ v.compact ++ compactItems vs

/-- The members after the first, each after a comma. -/
def compactMembers : List (String × Json) → String
  | [] => ""
  | (name, v) :: rest => ", " ++ quote name ++ ": " ++ v.compact ++ compactMembers rest

end

end Wiretap.Json
