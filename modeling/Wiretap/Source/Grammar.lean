import Wiretap.Protocol.Basic
import Wiretap.Source.Expectation
import Wiretap.Source.Lexer
import Wiretap.Source.Stream

/-! The grammar of protocols, read by recursive descent:

    protocol := roles decl* message*
    roles    := "roles" ":" IDENT ("," IDENT)*
    decl     := ("shared" | "private") "key" IDENT ":" IDENT ("," IDENT)*
              | "public" "key" IDENT ":" IDENT
              | "nonce" IDENT ":" IDENT
    message  := IDENT "->" IDENT ":" stmt
    stmt     := IDENT "=" expr | expr
    expr     := operand ("||" operand)*
    operand  := "Enc" "(" expr "," expr ")"
              | "Mac" "(" IDENT "," expr ")"
              | "Sign" "(" IDENT "," expr ")"
              | "Vrfy" "(" IDENT "," expr "," expr ")"
              | "Hash" "(" expr ")"
              | IDENT

The first argument of `Enc` has to be a single identifier. A rule that fails leaves the stream in
front of the first token that it could not use. -/

namespace Wiretap

/-- A rule of the grammar: it reads a stream and fails with a complaint. A failure keeps the
place that the rule had reached. -/
abbrev Rule := EStateM ParseError Stream

namespace Rule

/-- Complains of the next token. -/
def refuse {α : Type} (expected : Expectation) : Rule α := fun s =>
  .error ⟨expected, s.peek, s.consumed⟩ s

/-- The next token. -/
def peek : Rule Token := fun s => .ok s.peek s

/-- The complaint about the next token that a rule may come to make later. -/
def complaint (expected : Expectation) : Rule ParseError := fun s =>
  .ok ⟨expected, s.peek, s.consumed⟩ s

/-- Takes the next token, unless it is an end mark. -/
def advance : Rule Token := fun s => .ok s.peek s.advance

/-- Whether the next token has kind `k`. -/
def check (k : Kind) : Rule Bool := fun s => .ok (s.peek.kind == k) s

/-- Whether the token after the next one has kind `k`. -/
def checkSecond (k : Kind) : Rule Bool := fun s => .ok (s.second?.any (·.kind == k)) s

/-- Takes the next token if it has kind `k`, and tells whether it did. -/
def accept (k : Kind) : Rule Bool := fun s =>
  if s.peek.kind == k then .ok true s.advance else .ok false s

/-- Takes the next token, which has to have kind `k`. -/
def consume (k : Kind) (expected : Expectation) : Rule Token := fun s =>
  if s.peek.kind == k then .ok s.peek s.advance else .error ⟨expected, s.peek, s.consumed⟩ s

/-- Takes an identifier. -/
def name (expected : Expectation) : Rule String := do
  return (← consume .identifier expected).text

/-- Collects at most `limit` items after `found`, which holds the earlier ones, last first. -/
def manyUpTo {α : Type} (item : Rule (Option α)) : Nat → List α → Rule (List α)
  | 0, found, s => .ok found.reverse s
  | limit + 1, found, s =>
    match item s with
    | .ok none t => .ok found.reverse t
    | .ok (some a) t => manyUpTo item limit (a :: found) t
    | .error e t => .error e t

/-- Collects items until `item` finds none. An item takes at least one token, so there are no
more of them than tokens. -/
def many {α : Type} (item : Rule (Option α)) : Rule (List α) := fun s =>
  manyUpTo item (s.ahead.length + 1) [] s

/-- Identifiers with commas between them. -/
def names (first next : Expectation) : Rule (List String) := do
  let head ← name first
  let rest ← many do
    if ← accept .comma then return some (← name next) else return none
  return head :: rest

/-! ### Declarations -/

/-- The declaration of the roles. -/
def rolesDecl : Rule (List String) := do
  let _ ← consume .rolesWord .rolesWord
  let _ ← consume .colon .rolesColon
  names .firstRole .nextRole

/-- The declaration of a key, from the word `key` on. -/
def keyDecl (form : KeyForm) : Rule KeyDecl := do
  let _ ← consume .keyWord (.keyWord form)
  let key ← name (.keyName form)
  let _ ← consume .colon (.keyColon form)
  if form.many then
    return ⟨form.kind, key, ← names .firstOwner .nextOwner⟩
  else
    let owner ← name .firstOwner
    if ← check .comma then refuse (.singleOwner form)
    else return ⟨form.kind, key, [owner]⟩

/-- The declaration of a nonce, after the word `nonce`. -/
def nonceDecl : Rule NonceDecl := do
  let nonce ← name .nonceName
  let _ ← consume .colon .nonceColon
  return ⟨nonce, ← name .firstOwner⟩

/-- The declaration that starts at the next token, if one does. -/
def decl? : Rule (Option (KeyDecl ⊕ NonceDecl)) := do
  if ← accept .sharedWord then return some (.inl (← keyDecl .shared))
  else if ← accept .privateWord then return some (.inl (← keyDecl .privateHalf))
  else if ← accept .publicWord then return some (.inl (← keyDecl .publicHalf))
  else if ← accept .nonceWord then return some (.inr (← nonceDecl))
  else return none

/-! ### Expressions -/

/-- The arguments of `Enc`. -/
def enc (expr : Rule Node) : Rule Node := do
  let _ ← consume .leftParen (.opening .enc)
  let badKey ← complaint .encKey
  match ← expr with
  | .ident key =>
    let _ ← consume .comma .encComma
    let message ← expr
    let _ ← consume .rightParen (.closing .enc)
    return .enc key message
  | _ => throw badKey

/-- The arguments of `Mac`. -/
def mac (expr : Rule Node) : Rule Node := do
  let _ ← consume .leftParen (.opening .mac)
  let key ← name .macKey
  let _ ← consume .comma .macComma
  let message ← expr
  let _ ← consume .rightParen (.closing .mac)
  return .mac key message

/-- The arguments of `Sign`. -/
def sign (expr : Rule Node) : Rule Node := do
  let _ ← consume .leftParen (.opening .sign)
  let key ← name .signKey
  let _ ← consume .comma .signComma
  let message ← expr
  let _ ← consume .rightParen (.closing .sign)
  return .sign key message

/-- The arguments of `Vrfy`. -/
def verify (expr : Rule Node) : Rule Node := do
  let _ ← consume .leftParen (.opening .vrfy)
  let key ← name .vrfyKey
  let _ ← consume .comma .vrfyKeyComma
  let message ← expr
  let _ ← consume .comma .vrfyMessageComma
  let signature ← expr
  let _ ← consume .rightParen (.closing .vrfy)
  return .verify key message signature

/-- The argument of `Hash`. -/
def hash (expr : Rule Node) : Rule Node := do
  let _ ← consume .leftParen (.opening .hash)
  let message ← expr
  let _ ← consume .rightParen (.closing .hash)
  return .hash message

/-- An operand of a concatenation, with `expr` for the expressions inside it. -/
def operand (expr : Rule Node) : Rule Node := do
  if ← accept .encWord then enc expr
  else if ← accept .macWord then mac expr
  else if ← accept .signWord then sign expr
  else if ← accept .vrfyWord then verify expr
  else if ← accept .hashWord then hash expr
  else if ← check .identifier then return .ident (← name .identifier)
  else refuse .operand

/-- Operands with bars between them, joined from the left. -/
def joined (item : Rule Node) : Rule Node := do
  let first ← item
  let rest ← many do
    if ← accept .join then return some (← item) else return none
  return rest.foldl .concat first

/-- An expression in which constructors are nested less than `depth` deep. -/
def exprWithin : Nat → Rule Node
  | 0 => refuse .operand
  | depth + 1 => joined (operand (exprWithin depth))

/-- An expression. Constructors are not nested deeper than there are tokens. -/
def expr : Rule Node := fun s => exprWithin (s.ahead.length + 1) s

/-- A statement: an expression, with or without a name for it. -/
def stmt : Rule Node := do
  if (← check .identifier) && (← checkSecond .equals) then
    let target ← name .target
    let _ ← consume .equals .equals
    return .assign target (← expr)
  else expr

/-! ### Messages and protocols -/

/-- A message. -/
def message : Rule Message := do
  let sender ← name .sender
  let _ ← consume .arrow .arrow
  let receiver ← name .receiver
  let _ ← consume .colon .receiverColon
  return ⟨sender, receiver, ← stmt⟩

/-- The message that starts at the next token, if one does. -/
def message? : Rule (Option Message) := do
  if ← check .identifier then return some (← message) else return none

/-- Whether a declaration starts with a token of kind `k`. -/
def startsDecl (k : Kind) : Bool :=
  k == .sharedWord || k == .publicWord || k == .privateWord || k == .nonceWord

/-- A whole protocol. -/
def protocol : Rule Protocol := do
  let roles ← rolesDecl
  let decls ← many decl?
  let messages ← many message?
  let next ← peek
  if startsDecl next.kind && !messages.isEmpty then refuse .noDeclaration
  else
    let _ ← consume .ending .ending
    return {
      roles
      keys := decls.filterMap (·.getLeft?)
      nonces := decls.filterMap (·.getRight?)
      messages }

end Rule

namespace Protocol

/-- The protocol that a list of tokens spells. -/
def ofTokens (tokens : Tokens) : Except ParseError Protocol :=
  match Rule.protocol (.ofTokens tokens) with
  | .ok p _ => .ok p
  | .error e _ => .error e

/-- The protocol that a source text spells. -/
def parse (source : String) : Except Diagnostic Protocol :=
  match tokenize source with
  | .error e => .error e.diagnostic
  | .ok tokens =>
    match ofTokens tokens with
    | .error e => .error e.diagnostic
    | .ok p => .ok p

end Protocol

end Wiretap
