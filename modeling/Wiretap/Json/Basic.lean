/-! JSON values. A number is kept as it is written, and an object may hold a name twice. -/

namespace Wiretap

/-- A JSON value. -/
inductive Json where
  | null
  | bool (value : Bool)
  | number (text : String)
  | string (value : String)
  | array (items : List Json)
  | object (members : List (String × Json))

namespace Json

/-- A whole number. -/
def int (n : Int) : Json :=
  .number (toString n)

/-- An array of texts. -/
def strings (items : List String) : Json :=
  .array (items.map .string)

/-- The member of an object with a given name. Of two members with one name the later one
counts. -/
def lookup (name : String) (members : List (String × Json)) : Option Json :=
  (members.reverse.find? (·.1 = name)).map (·.2)

/-- The texts of an array of texts. -/
def texts? : List Json → Option (List String)
  | [] => some []
  | .string s :: rest => (texts? rest).map (s :: ·)
  | _ :: _ => none

end Json

end Wiretap
