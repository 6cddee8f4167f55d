import Wiretap.Command.Arguments

/-! The command line: a command with its options, after the options for logging. -/

namespace Wiretap

/-- How an analysis is asked for and shown. -/
structure AnalyzeOptions where
  protocolFile : String
  policy : Setting String := .missing
  json : Bool := false
  ast : Bool := false
  noWarnings : Bool := false
deriving DecidableEq, Repr

/-- A command. -/
inductive Command where
  | analyze (options : AnalyzeOptions)
  | check (protocolFile : String)
  | reference
deriving DecidableEq, Repr

/-- A command with the options for logging. -/
structure Invocation where
  verbose : Bool
  logFile : Setting String
  command : Command
deriving DecidableEq, Repr

/-- The file that holds the protocol of a command. -/
def Command.protocolFile? : Command → Option String
  | analyze o => some o.protocolFile
  | check path => some path
  | reference => none

/-- The file that a command is told to read a naming convention from. -/
def Command.policy : Command → Setting String
  | analyze o => o.policy
  | _ => .missing

namespace Invocation

/-- Takes any value. -/
def anyValue : Arity := .value fun _ => true

/-- What may stand in front of a command. -/
def mainUsage : Usage where
  switches := [.help, { name := "verbose", spellings := ["-v", "--verbose"] },
    { name := "log-file", spellings := ["--log-file"], arity := anyValue }]
  operands := .command ["analyze", "check", "syntax"]

/-- What may follow `analyze`. -/
def analyzeUsage : Usage where
  switches := [.help, { name := "policy", spellings := ["--policy"], arity := anyValue },
    { name := "json", spellings := ["--json"] }, { name := "ast", spellings := ["--ast"] },
    { name := "no-warnings", spellings := ["--no-warnings"] }]
  operands := .one

/-- What may follow `check`. -/
def checkUsage : Usage where
  switches := [.help]
  operands := .one

/-- What may follow `syntax`. -/
def referenceUsage : Usage where
  switches := [.help]
  operands := .none

/-- The command with a given name and arguments, and whether some of them have no meaning. -/
def readCommand (name : String) (args : List String) : Except Refusal (Command × Bool) := do
  if name = "analyze" then
    let r ← analyzeUsage.read args
    return (.analyze {
      protocolFile := r.operand.getD ""
      policy := r.setting "policy"
      json := r.has "json"
      ast := r.has "ast"
      noWarnings := r.has "no-warnings" }, r.surplus)
  else if name = "check" then
    let r ← checkUsage.read args
    return (.check (r.operand.getD ""), r.surplus)
  else
    let r ← referenceUsage.read args
    return (.reference, r.surplus)

/-- The invocation that arguments spell. -/
def ofArguments (args : List String) : Except Refusal Invocation := do
  let r ← mainUsage.read args
  let (command, surplus) ← readCommand (r.operand.getD "") r.rest
  if r.surplus || surplus then throw .misuse
  return { verbose := r.has "verbose", logFile := r.setting "log-file", command }

end Invocation

end Wiretap
