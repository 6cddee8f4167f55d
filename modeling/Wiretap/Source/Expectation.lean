import Wiretap.Protocol.Declarations
import Wiretap.Source.Diagnostic

/-! What the grammar expects at a token, and the words in which it complains of another one. -/

namespace Wiretap

/-- The ways to declare a key: the word that starts the declaration, the names in its example,
and whether it may have several owners. -/
structure KeyForm where
  kind : KeyKind
  word : String
  exampleKey : String
  exampleOwners : String
  many : Bool
deriving DecidableEq, Repr

namespace KeyForm

/-- A declaration of a shared key. -/
def shared : KeyForm := ⟨.shared, "shared", "Kab", "Alice, Bob", true⟩

/-- A declaration of a private key. -/
def privateHalf : KeyForm := ⟨.privateHalf, "private", "skA", "Alice", true⟩

/-- A declaration of a public key. -/
def publicHalf : KeyForm := ⟨.publicHalf, "public", "pkA", "Alice", false⟩

/-- The example in a complaint. -/
def sample (f : KeyForm) : String :=
  f.word ++ " key " ++ f.exampleKey ++ ": " ++ f.exampleOwners

end KeyForm

/-- The constructors of expressions. -/
inductive Construct where
  | enc
  | mac
  | sign
  | vrfy
  | hash
deriving DecidableEq, Repr

/-- The name of a constructor. -/
def Construct.name : Construct → String
  | enc => "Enc"
  | mac => "Mac"
  | sign => "Sign"
  | vrfy => "Vrfy"
  | hash => "Hash"

/-- What the grammar expected where it found something else. -/
inductive Expectation where
  | rolesWord
  | rolesColon
  | firstRole
  | nextRole
  | keyWord (form : KeyForm)
  | keyName (form : KeyForm)
  | keyColon (form : KeyForm)
  | firstOwner
  | nextOwner
  | singleOwner (form : KeyForm)
  | nonceName
  | nonceColon
  | sender
  | arrow
  | receiver
  | receiverColon
  | target
  | equals
  | operand
  | identifier
  | opening (construct : Construct)
  | encKey
  | encComma
  | macKey
  | macComma
  | signKey
  | signComma
  | vrfyKey
  | vrfyKeyComma
  | vrfyMessageComma
  | closing (construct : Construct)
  | noDeclaration
  | ending
  | other (words : String)
deriving DecidableEq, Repr

/-- The words of a complaint. -/
def Expectation.detail : Expectation → String
  | rolesWord => "Expected 'roles' declaration (example: roles: Alice, Bob)."
  | rolesColon => "Expected ':' after 'roles' (example: roles: Alice, Bob)."
  | firstRole => "Expected role name after 'roles:'."
  | nextRole => "Expected role name after ','."
  | keyWord f => "Expected 'key' after '" ++ f.word ++ "' (example: " ++ f.sample ++ ")."
  | keyName f => "Expected key name after '" ++ f.word ++ " key'."
  | keyColon f => "Expected ':' after " ++ f.word ++ " key name."
  | firstOwner => "Expected owner role after ':'."
  | nextOwner => "Expected owner role after ','."
  | singleOwner f =>
    "A " ++ f.word ++ " key has exactly one owner (example: " ++ f.sample ++ ")."
  | nonceName => "Expected nonce name after 'nonce' (example: nonce N_A: Alice)."
  | nonceColon => "Expected ':' after nonce name."
  | sender => "Expected sender identifier at start of message."
  | arrow => "Expected '->' after sender (example: Alice -> Bob: ...)."
  | receiver => "Expected receiver identifier after '->'."
  | receiverColon => "Expected ':' after receiver (example: Alice -> Bob: stmt)."
  | target => "Expected variable name before '='."
  | equals => "Expected '=' after variable."
  | operand =>
    "Expected expression (identifier, Enc(...), Mac(...), Sign(...), Vrfy(...), Hash(...))."
  | identifier => "Expected identifier in expression."
  | opening c => "Expected '(' after '" ++ c.name ++ "'."
  | encKey => "Encryption key must be an identifier (example: Enc(Kab, m))."
  | encComma => "Expected ',' between key and message inside Enc(key, msg)."
  | macKey => "Expected MAC key identifier (example: Mac(Kab, m))."
  | macComma => "Expected ',' between key and message inside Mac(key, msg)."
  | signKey => "Expected signing key identifier (example: Sign(skA, m))."
  | signComma => "Expected ',' between signing key and message inside Sign(key, msg)."
  | vrfyKey => "Expected public key identifier (example: Vrfy(pkA, m, sig))."
  | vrfyKeyComma => "Expected ',' after public key in Vrfy(key, msg, sig)."
  | vrfyMessageComma => "Expected ',' after message in Vrfy(key, msg, sig)."
  | closing c => "Expected ')' after " ++ c.name ++ "(...)."
  | noDeclaration => "Declarations must appear before the first message."
  | ending => "Expected end of input."
  | other words => words

/-- A complaint, the token to blame and the number of tokens before it. -/
structure ParseError where
  expected : Expectation
  found : Token
  index : Nat
deriving DecidableEq, Repr

/-- The fault of the source text that an error stands for. -/
def ParseError.diagnostic (e : ParseError) : Diagnostic :=
  .grammatical e.expected.detail (some e.found)

end Wiretap
