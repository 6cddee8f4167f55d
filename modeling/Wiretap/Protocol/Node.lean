import Wiretap.Protocol.Declarations

/-! Syntax trees. A parsed message holds only a statement: an expression, or an expression with a
name for it. The analyses take any tree, and refuse the nodes that they give no meaning to. -/

namespace Wiretap

mutual

/-- A syntax tree. `blank` is a node without a label of its own. -/
inductive Node where
  | ident (name : String)
  | concat (left right : Node)
  | enc (key : String) (message : Node)
  | mac (key : String) (message : Node)
  | hash (message : Node)
  | sign (key : String) (message : Node)
  | verify (key : String) (message signature : Node)
  | assign (target : String) (value : Node)
  | roles (names : List String)
  | key (decl : KeyDecl)
  | nonce (decl : NonceDecl)
  | send (sender receiver : String) (body : Node)
  | protocol (declarations : Declarations) (script : Script)
  | blank
deriving DecidableEq

/-- The messages of a protocol inside a tree. -/
inductive Script where
  | done
  | step (sender receiver : String) (body : Node) (rest : Script)
deriving DecidableEq

end

/-- Why a tree cannot be analysed. -/
inductive Fault where
  | unhandled (sort : String)
  | unlabelled
  | protocolInSet
deriving DecidableEq, Repr

/-- The words for a fault. -/
def Fault.message : Fault → String
  | unhandled sort => "unhandled AST node: " ++ sort
  | unlabelled => ""
  | protocolInSet => "unhashable type: 'Protocol'"

namespace Node

/-- The sort of a node, in messages. -/
def sort : Node → String
  | ident _ => "Identifier"
  | concat _ _ => "Concat"
  | enc _ _ => "Encrypt"
  | mac _ _ => "Mac"
  | hash _ => "Hash"
  | sign _ _ => "Sign"
  | verify _ _ _ => "Verify"
  | assign _ _ => "Assign"
  | roles _ => "RoleDecl"
  | key _ => "KeyDecl"
  | nonce _ => "NonceDecl"
  | send _ _ _ => "MessageSend"
  | protocol _ _ => "Protocol"
  | blank => "Node"

/-- The text of a tree. It names the term that an expression stands for. -/
def text : Node → String
  | ident name => name
  | concat l r => "(" ++ l.text ++ " || " ++ r.text ++ ")"
  | enc k m => "Enc(" ++ k ++ ", " ++ m.text ++ ")"
  | mac k m => "Mac(" ++ k ++ ", " ++ m.text ++ ")"
  | hash m => "Hash(" ++ m.text ++ ")"
  | sign k m => "Sign(" ++ k ++ ", " ++ m.text ++ ")"
  | verify k m s => "Vrfy(" ++ k ++ ", " ++ m.text ++ ", " ++ s.text ++ ")"
  | assign t v => t ++ " = " ++ v.text
  | roles names => rolesLabel names
  | key d => d.label
  | nonce d => d.label
  | send s r b => s ++ " -> " ++ r ++ ": " ++ b.text
  | protocol _ _ => "Protocol"
  | blank => ""

/-- Whether no blank stands where the text of the tree would show it. -/
def isLabelled : Node → Bool
  | ident _ => true
  | concat l r => l.isLabelled && r.isLabelled
  | enc _ m => m.isLabelled
  | mac _ m => m.isLabelled
  | hash m => m.isLabelled
  | sign _ m => m.isLabelled
  | verify _ m s => m.isLabelled && s.isLabelled
  | assign _ v => v.isLabelled
  | roles _ => true
  | key _ => true
  | nonce _ => true
  | send _ _ b => b.isLabelled
  | protocol _ _ => true
  | blank => false

/-- The label of a tree, its text if that is complete. -/
def label (n : Node) : Except Fault String :=
  if n.isLabelled then .ok n.text else .error .unlabelled

/-- Whether no protocol stands anywhere in the tree. Only such trees are members of sets. -/
def isProtocolFree : Node → Bool
  | ident _ => true
  | concat l r => l.isProtocolFree && r.isProtocolFree
  | enc _ m => m.isProtocolFree
  | mac _ m => m.isProtocolFree
  | hash m => m.isProtocolFree
  | sign _ m => m.isProtocolFree
  | verify _ m s => m.isProtocolFree && s.isProtocolFree
  | assign _ v => v.isProtocolFree
  | roles _ => true
  | key _ => true
  | nonce _ => true
  | send _ _ b => b.isProtocolFree
  | protocol _ _ => false
  | blank => true

end Node

/-- The messages of a script as nodes. -/
def Script.nodes : Script → List Node
  | done => []
  | step s r b rest => .send s r b :: rest.nodes

/-- The nodes of the declarations. -/
def Declarations.nodes (d : Declarations) : List Node :=
  .roles d.roles :: (d.keys.map .key ++ d.nonces.map .nonce)

/-- The nodes right below a node, the names that it applies to included. -/
def Node.children : Node → List Node
  | ident _ => []
  | concat l r => [l, r]
  | enc k m => [ident k, m]
  | mac k m => [ident k, m]
  | hash m => [m]
  | sign k m => [ident k, m]
  | verify k m s => [ident k, m, s]
  | assign t v => [ident t, v]
  | roles _ => []
  | key _ => []
  | nonce _ => []
  | send s r b => [ident s, ident r, b]
  | protocol d script => d.nodes ++ script.nodes
  | blank => []

mutual

/-- The nodes of a tree with their depths, each before those below it, for a tree whose root has
depth `depth`. -/
def Node.outline (depth : Nat) : Node → List (Nat × Node)
  | .concat l r => (depth, .concat l r) :: (l.outline (depth + 1) ++ r.outline (depth + 1))
  | .enc k m => (depth, .enc k m) :: (depth + 1, .ident k) :: m.outline (depth + 1)
  | .mac k m => (depth, .mac k m) :: (depth + 1, .ident k) :: m.outline (depth + 1)
  | .hash m => (depth, .hash m) :: m.outline (depth + 1)
  | .sign k m => (depth, .sign k m) :: (depth + 1, .ident k) :: m.outline (depth + 1)
  | .verify k m s =>
    (depth, .verify k m s) :: (depth + 1, .ident k) ::
      (m.outline (depth + 1) ++ s.outline (depth + 1))
  | .assign t v => (depth, .assign t v) :: (depth + 1, .ident t) :: v.outline (depth + 1)
  | .send s r b =>
    (depth, .send s r b) :: (depth + 1, .ident s) :: (depth + 1, .ident r) ::
      b.outline (depth + 1)
  | .protocol d script =>
    (depth, .protocol d script) ::
      (d.nodes.map ((depth + 1, ·)) ++ script.outline (depth + 1))
  | .ident name => [(depth, .ident name)]
  | .roles names => [(depth, .roles names)]
  | .key d => [(depth, .key d)]
  | .nonce d => [(depth, .nonce d)]
  | .blank => [(depth, .blank)]

/-- The nodes of the messages of a script with their depths, for messages at depth `depth`. -/
def Script.outline (depth : Nat) : Script → List (Nat × Node)
  | .done => []
  | .step s r b rest =>
    (depth, .send s r b) :: (depth + 1, .ident s) :: (depth + 1, .ident r) ::
      (b.outline (depth + 1) ++ rest.outline depth)

end

/-- The nodes of a tree, each before those below it. -/
def Node.preorder (n : Node) : List Node :=
  (n.outline 0).map (·.2)

/-- One line for each node of a tree, two spaces in for each level below `indent`. -/
def Node.pretty (indent : Int) (n : Node) : Except Fault String := do
  let lines ← (n.outline 0).mapM fun (depth, m) => do
    return String.ofList (List.replicate (2 * (indent + depth).toNat) ' ') ++ (← m.label)
  return "\n".intercalate lines

end Wiretap
