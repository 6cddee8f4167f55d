import Wiretap.Source.Position
import Wiretap.Text.Lowercase
import Wiretap.Text.Quoted

/-! Tokens of the protocol language. A keyword is recognised whatever the case of its letters. -/

namespace Wiretap

/-- The kinds of token. `ending` stands at the end of a text. -/
inductive Kind where
  | rolesWord
  | sharedWord
  | publicWord
  | privateWord
  | keyWord
  | nonceWord
  | encWord
  | decWord
  | macWord
  | signWord
  | vrfyWord
  | hashWord
  | assertWord
  | secretWord
  | arrow
  | colon
  | comma
  | equals
  | leftParen
  | rightParen
  | join
  | identifier
  | ending
deriving DecidableEq, Repr

namespace Kind

/-- Every kind with its name in listings of tokens. -/
def names : List (Kind × String) :=
  [(rolesWord, "ROLES"), (sharedWord, "SHARED"), (publicWord, "PUBLIC"), (privateWord, "PRIVATE"),
   (keyWord, "KEY"), (nonceWord, "NONCE"), (encWord, "ENC"), (decWord, "DEC"), (macWord, "MAC"),
   (signWord, "SIGN"), (vrfyWord, "VRFY"), (hashWord, "HASH"), (assertWord, "ASSERT"),
   (secretWord, "SECRET"), (arrow, "ARROW"), (colon, "COLON"), (comma, "COMMA"),
   (equals, "EQUAL"), (leftParen, "LPAREN"), (rightParen, "RPAREN"), (join, "CONCAT"),
   (identifier, "IDENTIFIER"), (ending, "EOF")]

/-- The name of a kind in listings of tokens. -/
def name (k : Kind) : String :=
  (names.lookup k).getD ""

/-- The kind with a given name. -/
def ofName? (s : String) : Option Kind :=
  (names.find? (·.2 == s)).map (·.1)

/-- The keywords in lower case. -/
def keywords : List (String × Kind) :=
  [("roles", rolesWord), ("shared", sharedWord), ("public", publicWord),
   ("private", privateWord), ("key", keyWord), ("nonce", nonceWord), ("enc", encWord),
   ("dec", decWord), ("mac", macWord), ("sign", signWord), ("vrfy", vrfyWord),
   ("verify", vrfyWord), ("hash", hashWord), ("assert", assertWord), ("secret", secretWord)]

/-- The kind of a word: that of the keyword it spells in some case, or `identifier`. -/
def ofWord (w : String) : Kind :=
  (keywords.lookup (Text.lowercase w)).getD identifier

/-- The kind of a token of a single punctuation mark. -/
def ofMark? : Char → Option Kind
  | '(' => some leftParen
  | ')' => some rightParen
  | ',' => some comma
  | ':' => some colon
  | '=' => some equals
  | _ => none

end Kind

/-- A token: its kind, its text and the place of its first character. -/
structure Token where
  kind : Kind
  text : String
  position : Position
deriving DecidableEq, Repr

/-- How a listing shows a token. -/
def Token.describe (t : Token) : String :=
  t.kind.name ++ "(" ++ Text.quoted t.text ++ ") @ " ++ toString t.position.line ++ ":" ++
    toString t.position.column

/-- Tokens closed by an end mark. -/
structure Tokens where
  front : List Token
  last : Token
  last_kind : last.kind = .ending
deriving DecidableEq, Repr

namespace Tokens

/-- The tokens with their end mark. -/
def toList (ts : Tokens) : List Token :=
  ts.front ++ [ts.last]

/-- Tokens from a list whose last member is an end mark. -/
def ofList? (ts : List Token) : Option Tokens :=
  match ts.reverse with
  | [] => none
  | last :: front => if h : last.kind = .ending then some ⟨front.reverse, last, h⟩ else none

end Tokens

end Wiretap
