import Wiretap.Command.Arguments
import Wiretap.Naming.Loading

/-! The naming convention that a command line asks for. -/

namespace Wiretap

/-- Reads the convention from the file that an option names. An option whose value is struck
names none. -/
def loadChosenNaming (disk : Disk) (environment : Option String) (choice : Setting String) :
    Except LoadError LoadedNaming :=
  match choice with
  | .missing => loadNaming disk environment none
  | .value path => loadNaming disk environment (some path)
  | .struck => .error .noPath

end Wiretap
