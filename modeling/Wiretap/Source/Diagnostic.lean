import Wiretap.Source.Token

/-! Diagnostics: what is wrong with a source text, and where. -/

namespace Wiretap

/-- A fault of a source text. A grammatical one is blamed on a token, if there is one. -/
inductive Diagnostic where
  | general (detail : String) (position : Position)
  | lexical (detail : String) (position : Position)
  | grammatical (detail : String) (found : Option Token)
deriving DecidableEq, Repr

namespace Diagnostic

/-- What is wrong, without the place. -/
def detail : Diagnostic → String
  | general d _ => d
  | lexical d _ => d
  | grammatical d _ => d

/-- The place of a fault; line and column zero where no token is to blame. -/
def position : Diagnostic → Position
  | general _ p => p
  | lexical _ p => p
  | grammatical _ (some t) => t.position
  | grammatical _ none => ⟨0, 0⟩

/-- The line and column in words. -/
def place (p : Position) : String :=
  "line " ++ toString p.line ++ ", column " ++ toString p.column

/-- The full message. -/
def message : Diagnostic → String
  | general d p => place p ++ ": " ++ d
  | lexical d p => "Lexer error at " ++ place p ++ ": " ++ d
  | grammatical d none => d
  | grammatical d (some t) =>
    "Syntax error at " ++ place t.position ++ ": " ++ d ++ " (found '" ++ t.text ++ "')"

end Diagnostic

end Wiretap
