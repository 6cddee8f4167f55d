import Wiretap.Json.Basic
import Wiretap.Knowledge.Terms
import Wiretap.Naming

/-! Naming conventions as JSON: an object whose member `naming` holds any of the three options. -/

namespace Wiretap

/-- Why a JSON value is no naming convention. -/
inductive NamingError where
  | notAnObject
  | namingNotAnObject
  | unknownOptions (names : List String)
  | badStem (option : String)
  | badLeakStems
deriving DecidableEq, Repr

/-- The words for an error. -/
def NamingError.message : NamingError → String
  | notAnObject => "policy config must be a JSON object"
  | namingNotAnObject => "'naming' must be a JSON object"
  | unknownOptions names => "unknown naming option(s): " ++ ", ".intercalate names
  | badStem option => "'" ++ option ++ "' must be a non-empty string"
  | badLeakStems => "'leak_prefixes' must be a list of non-empty strings"

namespace Naming

/-- The names of the options. -/
def options : List String :=
  ["public_prefix", "private_prefix", "leak_prefixes"]

/-- The option `name`, a text that is not empty, or `default` if it is not given. -/
def stem (name default : String) (members : List (String × Json)) : Except NamingError String :=
  match Json.lookup name members with
  | none => .ok default
  | some (.string s) => if s.isEmpty then .error (.badStem name) else .ok s
  | some _ => .error (.badStem name)

/-- The option `leak_prefixes`, an array of texts that are not empty, or `default` if it is not
given. -/
def stems (default : List String) (members : List (String × Json)) :
    Except NamingError (List String) :=
  match Json.lookup "leak_prefixes" members with
  | none => .ok default
  | some (.array items) =>
    match Json.texts? items with
    | none => .error .badLeakStems
    | some texts => if texts.any (·.isEmpty) then .error .badLeakStems else .ok texts
  | some _ => .error .badLeakStems

/-- The convention that the options of an object describe. -/
def ofOptions (members : List (String × Json)) : Except NamingError Naming := do
  let unknown := (members.map (·.1)).filter (!options.contains ·)
  if !unknown.isEmpty then throw (.unknownOptions (Terms.ofList unknown).toList)
  let base : Naming := {}
  return {
    publicStem := ← stem "public_prefix" base.publicStem members
    privateStem := ← stem "private_prefix" base.privateStem members
    leakStems := ← stems base.leakStems members }

/-- The convention that a JSON value describes. -/
def ofJson : Json → Except NamingError Naming
  | .object members =>
    match Json.lookup "naming" members with
    | none => ofOptions []
    | some (.object options) => ofOptions options
    | some _ => .error .namingNotAnObject
  | _ => .error .notAnObject

/-- The convention as a JSON value. -/
def toJson (naming : Naming) : Json :=
  .object [("naming", .object [
    ("public_prefix", .string naming.publicStem),
    ("private_prefix", .string naming.privateStem),
    ("leak_prefixes", .strings naming.leakStems)])]

end Naming

end Wiretap
