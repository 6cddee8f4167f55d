import Wiretap.Proofs.Errands
import Wiretap.Proofs.Lexing.LineEnds
import Wiretap.Proofs.Parsing.Layout
import Wiretap.Web.Service

/-! Source texts on their two ways in. A file is read with all its line ends as line feeds, and what
is sent to the web service is taken as it is. Since the carriage return of a line end has no effect
on the tokens, both ways lead to the same protocol or the same complaint. Only the service has rules
of its own for a text that is blank or too long. -/

namespace Wiretap

namespace Text

end Text

variable {source : String}

variable {command : Command} {path : String} {outcome : Outcome} {reply : Reply}

/-- Whether every character of a text is one byte. -/
def isPlain (text : List Char) : Bool :=
  text.all fun c => c.toNat < 128

end Wiretap
