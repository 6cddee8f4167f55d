import Wiretap.Command.Policy
import Wiretap.Text.Integer

/-! Starting the web service from a command line. -/

namespace Wiretap

/-- Where the service listens, whether it shows its errors, and the convention that it starts
with. A host or port is none if its value was struck. -/
structure Startup where
  host : Option String
  port : Option Int
  debug : Bool
  naming : Naming
deriving DecidableEq, Repr

/-- Why the service does not start. -/
inductive StartupError where
  | refused (refusal : Refusal)
  | load (error : LoadError)
deriving DecidableEq, Repr

namespace Startup

/-- What the command line may hold. -/
def usage : Usage where
  switches := [.help, { name := "debug", spellings := ["--debug"] },
    { name := "host", spellings := ["--host"], arity := .value fun _ => true },
    { name := "port", spellings := ["--port"], arity := .value (Text.integer? · |>.isSome) },
    { name := "policy", spellings := ["--policy"], arity := .value fun _ => true }]
  operands := .none

/-- The start that a command line asks for. -/
def ofArguments (disk : Disk) (environment : Option String) (args : List String) :
    Except StartupError Startup :=
  match usage.read args with
  | .error refusal => .error (.refused refusal)
  | .ok r =>
    if r.surplus then .error (.refused .misuse)
    else
      match loadChosenNaming disk environment (r.setting "policy") with
      | .error e => .error (.load e)
      | .ok loaded => .ok {
          host := (r.setting "host").valueOr (some "127.0.0.1")
          port := ((r.setting "port").bind Text.integer?).valueOr (some 5000)
          debug := r.has "debug"
          naming := loaded.naming }

end Startup

end Wiretap
