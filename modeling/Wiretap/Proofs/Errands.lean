import Wiretap.Proofs.Web.Submission

/-! What a command line says about the protocol file that it names. Once the log is open and the
file can be read, a check and an analysis end in one of two ways: the text spells a protocol and its
results are shown, or it does not and its fault is the complaint. -/

namespace Wiretap

/-- What a command prints if its protocol has these results. -/
def Command.output (r : Results) : Command → String
  | analyze o => o.output r
  | check _ => "No errors detected.\n"
  | reference => Wiretap.reference

/-- A command line whose log opens and whose protocol file can be read then. -/
structure Errand where
  disk : Disk
  environment : Option String
  stamp : String
  args : List String
  invocation : Invocation
  log : Option Place
  opened : Disk
  path : String
  bytes : List UInt8
  asks : Invocation.ofArguments args = .ok invocation
  opens : (openLog invocation.logFile).run.run disk = (.ok log, opened)
  names : invocation.command.protocolFile? = some path
  reads : opened.read path = .ok bytes

namespace Errand

/-- The text in the protocol file, with its line ends as they are. -/
def source (e : Errand) : String :=
  Text.decodeLossy e.bytes

/-- How the run ends. -/
def outcome (e : Errand) : Outcome :=
  (runCommandLine e.disk e.environment e.stamp e.args).1

/-- The run once its log is open. -/
def session (e : Errand) : Session :=
  { disk := e.opened, log := e.log, stamp := e.stamp }

variable {e : Errand} {naming : Naming}

/-- What is noted before the protocol file is read does not show in it. -/
theorem read_note {events : List Event} (h : events = [] ∨ ∀ place, e.log = some place →
    e.opened.locate e.path ≠ .ok place) :
    (e.session.note events).disk.read e.path = .ok e.bytes := by
  have hfile : ∀ place, e.log = some place →
      ∃ bytes, Disk.entry? e.opened place = some (.file bytes) := by
    intro place hplace
    have hopens := e.opens
    rw [hplace] at hopens
    exact openLog_entry hopens
  rw [Session.read_note (s := e.session) hfile h]
  exact e.reads

/-- The protocol in the file, or the complaint about it. -/
def protocol (e : Errand) : Except Interruption Protocol :=
  Task.protocolOf e.path (.ok e.bytes)

end Errand

end Wiretap
