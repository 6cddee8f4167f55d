import Wiretap.Knowledge.State
import Wiretap.Text.Lowercase
import Wiretap.Text.Word

/-! Sorting what is known into secrets, plaintext and observed objects. -/

namespace Wiretap

/-- Whether a text shows a constructor or a concatenation. -/
def isStructured (term : String) : Bool :=
  term.toList.contains '(' || hasBars term.toList
where
  /-- Whether two bars stand side by side. -/
  hasBars : List Char → Bool
    | '|' :: '|' :: _ => true
    | _ :: rest => hasBars rest
    | [] => false

/-- Whether the value of an assignment is built by a constructor. -/
def Node.isConstructed : Node → Bool
  | .enc .. | .mac .. | .hash .. | .sign .. | .verify .. | .concat .. => true
  | _ => false

/-- The name that a message gives to a constructed value. -/
def Message.constructed? (m : Message) : Option String :=
  match m.body with
  | .assign target value => if value.isConstructed then some target else none
  | _ => none

/-- The names that messages give to constructed values. -/
def Protocol.constructed (p : Protocol) : List String :=
  p.messages.filterMap (·.constructed?)

/-- The three kinds of known terms. -/
inductive Bucket where
  | secret
  | plaintext
  | observed
deriving DecidableEq, Repr

/-- The kind of a term: keys that open ciphertexts are secrets, plain words that are no keys and
name no constructed value are plaintext, and all else is observed. Names of constructed values
are compared in lower case; `lowered` holds them so. -/
def bucket (table : KeyTable) (lowered : List String) (term : String) : Bucket :=
  if table.opens term then .secret
  else if isStructured term || lowered.contains (Text.lowercase term) then .observed
  else if Text.isWord term && (table.kind? term).isNone then .plaintext
  else .observed

/-- Terms by kind, each list in ascending order. -/
structure Classification where
  secrets : List String
  plaintext : List String
  observed : List String
deriving DecidableEq, Repr

/-- Sorts a set of terms by kind. -/
def classify (terms : Terms) (table : KeyTable) (constructed : List String) : Classification :=
  let lowered := constructed.map Text.lowercase
  let only (b : Bucket) := terms.toList.filter (bucket table lowered · = b)
  ⟨only .secret, only .plaintext, only .observed⟩

end Wiretap
