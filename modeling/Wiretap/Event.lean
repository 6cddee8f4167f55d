import Wiretap.Naming

/-! Events of an analysis, as they are written to logs. -/

namespace Wiretap

/-- How much an event matters. -/
inductive Level where
  | debug
  | info
deriving DecidableEq, Repr

/-- The name of a level in log lines. -/
def Level.name : Level → String
  | debug => "DEBUG"
  | info => "INFO"

/-- What happens in the course of an analysis. -/
inductive Event where
  /-- A key is declared for a name that is no role. -/
  | strayKeyOwner (key owner : String)
  /-- A nonce is declared for a name that is no role. -/
  | strayNonceOwner (nonce owner : String)
  /-- A message goes from or to a name that is no role. -/
  | strayParty (message : Nat) (name : String)
  /-- A principal learned something from a ciphertext. -/
  | opened (round : Nat) (principal ciphertext : String)
  /-- A round added nothing. -/
  | settled (rounds : Nat)
  /-- A report is ready. -/
  | analysed (principals rounds : Nat) (leaked : List String)
  /-- A naming convention was read from a file. -/
  | namingLoaded (path : String) (naming : Naming)
  /-- A protocol file has no faults. -/
  | parsed (path : String) (roles messages : Nat)
  /-- A protocol file has a fault. -/
  | rejected (path problem : String)
deriving DecidableEq, Repr

namespace Event

/-- How much an event matters. -/
def level : Event → Level
  | strayKeyOwner .. | strayNonceOwner .. | strayParty .. | opened .. | settled .. => .debug
  | rejected .. => .debug
  | analysed .. | namingLoaded .. | parsed .. => .info

/-- The part of the program that an event comes from. -/
def origin : Event → String
  | strayKeyOwner .. | strayNonceOwner .. | strayParty .. | opened .. | settled ..
  | analysed .. => "protoknow.knowledge"
  | namingLoaded .. => "protoknow.config"
  | parsed .. | rejected .. => "protoknow.cli"

/-- The words for an event. -/
def text : Event → String
  | strayKeyOwner key owner => "Key " ++ key ++ ": owner " ++ owner ++ " is not a declared role"
  | strayNonceOwner nonce owner =>
    "Nonce " ++ nonce ++ ": owner " ++ owner ++ " is not a declared role"
  | strayParty message name =>
    "Message " ++ toString message ++ ": " ++ name ++ " is not a declared role, skipped"
  | opened round principal ciphertext =>
    "Round " ++ toString round ++ ": " ++ principal ++ " opened " ++ ciphertext
  | settled rounds => "Fixed point reached after " ++ toString rounds ++ " round(s)"
  | analysed principals rounds leaked =>
    "Knowledge analysis: " ++ toString principals ++ " principal(s), " ++ toString rounds ++
      " round(s), leaked=" ++ (if leaked.isEmpty then "-" else Text.quotedList leaked)
  | namingLoaded path naming => "Loaded naming policy from " ++ path ++ ": " ++ naming.describe
  | parsed path roles messages =>
    "Parsed " ++ path ++ ": " ++ toString roles ++ " role(s), " ++ toString messages ++
      " message(s)"
  | rejected path problem => "Rejected " ++ path ++ ": " ++ problem

/-- The line for an event in a log, without the time. -/
def line (e : Event) : String :=
  e.level.name ++ " - " ++ e.origin ++ " - " ++ e.text

end Event

end Wiretap
