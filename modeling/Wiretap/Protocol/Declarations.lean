/-! Declarations of a protocol: its roles, keys and nonces. -/

namespace Wiretap

/-- A key is shared between its owners, or one half of a key pair. -/
inductive KeyKind where
  | shared
  | publicHalf
  | privateHalf
deriving DecidableEq, Repr

namespace KeyKind

/-- The word for a kind of key in a source text. -/
def word : KeyKind → String
  | shared => "shared"
  | publicHalf => "public"
  | privateHalf => "private"

/-- The kind of key with a given word. -/
def ofWord? : String → Option KeyKind
  | "shared" => some shared
  | "public" => some publicHalf
  | "private" => some privateHalf
  | _ => none

/-- Whether a key of this kind opens ciphertexts. -/
def opens : KeyKind → Bool
  | shared => true
  | publicHalf => false
  | privateHalf => true

end KeyKind

/-- A key with its kind and the roles that hold it. -/
structure KeyDecl where
  kind : KeyKind
  name : String
  owners : List String
deriving DecidableEq, Repr

/-- The declaration as written in a source text. -/
def KeyDecl.label (d : KeyDecl) : String :=
  d.kind.word ++ " key " ++ d.name ++ ": " ++ ", ".intercalate d.owners

/-- A nonce with the role that generates it. -/
structure NonceDecl where
  name : String
  owner : String
deriving DecidableEq, Repr

/-- The declaration as written in a source text. -/
def NonceDecl.label (d : NonceDecl) : String :=
  "nonce " ++ d.name ++ ": " ++ d.owner

/-- What a protocol declares before its first message. -/
structure Declarations where
  roles : List String
  keys : List KeyDecl := []
  nonces : List NonceDecl := []
deriving DecidableEq, Repr

/-- The declaration of roles as written in a source text. -/
def rolesLabel (names : List String) : String :=
  "roles: " ++ ", ".intercalate names

end Wiretap
