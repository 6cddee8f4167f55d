import Wiretap.Text.Quoted

/-! Naming conventions. The names of keys tell which private key belongs to a public key, and the
start of a name tells whether it is a catastrophe to leak it. -/

namespace Wiretap

/-- A naming convention: how public and private keys start, and how the names start that must not
leak. -/
structure Naming where
  publicStem : String := "pk"
  privateStem : String := "sk"
  leakStems : List String := ["K_", "M", "sk"]
deriving DecidableEq, Repr

namespace Naming

/-- The private key for a public key whose name has the public stem and goes on after it. -/
def privateKeyFor (naming : Naming) (publicName : String) : Option String :=
  let stem := naming.publicStem.toList
  if stem.isPrefixOf publicName.toList && stem.length < publicName.toList.length then
    some (naming.privateStem ++ String.ofList (publicName.toList.drop stem.length))
  else none

/-- Whether the name of a term starts in a way that must not leak. -/
def isCatastrophic (naming : Naming) (term : String) : Bool :=
  naming.leakStems.any fun stem => stem.toList.isPrefixOf term.toList

/-- The convention in log lines. -/
def describe (naming : Naming) : String :=
  "NamingPolicy(public_prefix=" ++ Text.quoted naming.publicStem ++ ", private_prefix=" ++
    Text.quoted naming.privateStem ++ ", leak_prefixes=" ++ Text.quotedTuple naming.leakStems ++
    ")"

end Naming

end Wiretap
