import Wiretap.Protocol.Basic

/-! Consistency of signatures. A signature is created by giving a name to it, and verified where
its name is an argument of a verification. Nothing checks that the keys match. -/

namespace Wiretap

/-- The name that a node gives to a signature. -/
def Node.created? : Node → Option String
  | .assign target (.sign _ _) => some target
  | _ => none

/-- The name of the signature that a node verifies. -/
def Node.verified? : Node → Option String
  | .verify _ _ (.ident name) => some name
  | _ => none

/-- Message number `index` with its parties. -/
def Message.context (m : Message) (index : Nat) : String :=
  "message " ++ toString index ++ ": " ++ m.sender ++ " -> " ++ m.receiver

namespace Protocol

/-- Every creation of a signature with the message that it stands in. -/
def creations (p : Protocol) : List (String × String) :=
  (p.messages.zipIdx 1).flatMap fun (m, index) =>
    (m.body.preorder.filterMap (·.created?)).map ((·, m.context index))

/-- The first creation of each signature. -/
def created (p : Protocol) : List (String × String) :=
  p.creations.eraseDupsBy fun a b => a.1 == b.1

/-- The verified names, one for each verification. -/
def verified (p : Protocol) : List String :=
  p.messages.flatMap fun m => m.body.preorder.filterMap (·.verified?)

/-- The warning for a verification of a name that is nowhere given to a signature. -/
def danglingWarning (name : String) : String :=
  "Verification uses signature '" ++ name ++ "', but no earlier assignment like '" ++ name ++
    " = Sign(...)' was found."

/-- The warning for a signature that is nowhere verified. -/
def missingWarning (name context : String) : String :=
  "Missing verification: signature '" ++ name ++ "' was created (" ++ context ++
    ") but is never verified with Vrfy(...)."

/-- The warnings about the signatures of a protocol. -/
def warnings (p : Protocol) : List String :=
  let names := p.created.map (·.1)
  let verified := p.verified
  (verified.filter (!names.contains ·)).map danglingWarning ++
    (p.created.filter (!verified.contains ·.1)).map fun c => missingWarning c.1 c.2

/-- The warnings, or the remark that there are none. -/
def warningLines (p : Protocol) : List String :=
  if p.warnings.isEmpty then ["No warnings."] else p.warnings

end Protocol

end Wiretap
