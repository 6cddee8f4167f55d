import Wiretap.Command.Invocation
import Wiretap.Command.Policy
import Wiretap.Json.Writer
import Wiretap.Protocol.Summary
import Wiretap.Report.Rendering
import Wiretap.Report.Summary
import Wiretap.Signatures
import Wiretap.Source.Grammar
import Wiretap.Source.Reference

/-! Running a command. -/

namespace Wiretap

/-- A run in progress: the files, the log file if there is one, the time for its lines, and what
has happened. -/
structure Session where
  disk : Disk
  log : Option Place
  stamp : String
  events : List Event := []

/-- The line of an event in a log file. -/
def Event.stampedLine (stamp : String) (e : Event) : String :=
  stamp ++ " - " ++ e.line ++ "\n"

/-- The session after events, which go to the log file. -/
def Session.note (s : Session) (events : List Event) : Session :=
  let disk := match s.log with
    | none => s.disk
    | some place => s.disk.append place (String.join (events.map (·.stampedLine s.stamp)))
  { s with disk, events := s.events ++ events }

/-- What ends a run before its end: a message for the user, or an error that nobody handles. -/
inductive Interruption where
  | message (text : String)
  | file (error : FileError) (path : String)
  | load (error : LoadError)
  | fault (fault : Fault)
deriving DecidableEq, Repr

/-- The words for what ends a run. -/
def Interruption.text : Interruption → String
  | message text => text
  | file e path => e.message path
  | load e => e.message
  | fault f => f.message

/-- A part of a run: it takes a session further and writes text, or is interrupted. -/
abbrev Task := ExceptT Interruption (StateM Session)

namespace Task

/-- Notes events. -/
def note (events : List Event) : Task Unit :=
  modify (·.note events)

/-- The text of a protocol file: ill-formed parts are replaced, and lines end with line feeds. -/
def readSource (path : String) : Task String := do
  match (← get).disk.read path with
  | .ok bytes => return Text.lineFeeds (Text.decodeLossy bytes)
  | .error .nulByte => throw (.file .nulByte path)
  | .error e => throw (.message ("Cannot read " ++ path ++ ": " ++ e.reason))

/-- The protocol in a file. -/
def loadProtocol (path : String) : Task Protocol := do
  match Protocol.parse (← readSource path) with
  | .ok p => return p
  | .error d =>
    note [.rejected path d.message]
    throw (.message (path ++ ": " ++ d.message))

/-- The naming convention in a file. -/
def loadPolicy (environment : Option String) (choice : Setting String) : Task Naming := do
  match loadChosenNaming (← get).disk environment choice with
  | .ok loaded =>
    note loaded.events
    return loaded.naming
  | .error e =>
    throw (if e.isInFile then .message ("Bad policy file: " ++ e.message) else .load e)

/-- The value of an analysis that may fail on a tree. -/
def ofFault {α : Type} : Except Fault α → Task α
  | .ok a => return a
  | .error f => throw (.fault f)

/-- Analyses a protocol file. -/
def analyze (environment : Option String) (o : AnalyzeOptions) : Task String := do
  let naming ← loadPolicy environment o.policy
  let p ← loadProtocol o.protocolFile
  let analysis ← ofFault (p.analyze naming)
  note analysis.events
  let warnings := if o.noWarnings then [] else p.warningLines
  if o.json then
    let payload := Json.object [("protocol", ← ofFault p.toJson),
      ("knowledge", analysis.report.toJson), ("warnings", .strings warnings)]
    return payload.indented 0 ++ "\n"
  else
    let tree ← if o.ast then ofFault (p.toNode.pretty 0) else pure ""
    let tree := if o.ast then "=== AST ===\n" ++ tree ++ "\n\n" else ""
    let remarks := if o.noWarnings then ""
      else "\nVerification Warnings:\n" ++ String.join (warnings.map ("  - " ++ · ++ "\n"))
    return tree ++ analysis.report.format ++ remarks

/-- Checks a protocol file. -/
def check (path : String) : Task String := do
  let p ← loadProtocol path
  note [.parsed path p.roles.length p.messages.length]
  return "No errors detected.\n"

/-- Runs a command. -/
def ofCommand (environment : Option String) : Command → Task String
  | .analyze o => analyze environment o
  | .check path => check path
  | .reference => return reference

end Task

/-- How a run ends. -/
inductive Outcome where
  /-- The arguments are wrong. -/
  | misuse
  /-- Help was asked for. -/
  | help
  /-- An error that nobody handles. -/
  | failed (cause : Interruption)
  /-- The run came to its end, with a message for the user if it did not succeed. -/
  | finished (message : Option String) (stdout : String) (console : List Event)

/-- The exit status of a run. -/
def Outcome.exitStatus : Outcome → UInt32
  | misuse => 2
  | help => 0
  | failed _ => 1
  | finished message _ _ => if message.isNone then 0 else 1

/-- What a run that does not succeed tells the user. Misuse is answered by the usage alone. -/
def Outcome.complaint? : Outcome → Option String
  | misuse | help => none
  | failed cause => some cause.text
  | finished message _ _ => message

/-- Opens the log file of a run. An empty name is no name. -/
def openLog : Setting String → Disk.Change (Option Place)
  | .value path => do
    let names := Path.parts path
    if path.isEmpty then return none
    if path.toList.contains '\x00' then throw (.nulByte, path)
    let root := Path.root path
    Disk.Change.openFolders root names.dropLast
    let path := Path.ofNames (if root.isEmpty then "/" else root)
      (Path.resolve ((← get).origin path) names)
    let place ← Disk.Change.locate path
    if Disk.entry? (← get) place = some .folder then throw (.isAFolder, path)
    modify (·.append place "")
    return some place
  | _ => return none

/-- Runs a command line, with the files as the run leaves them. Log lines carry `stamp`. -/
def runCommandLine (disk : Disk) (environment : Option String) (stamp : String)
    (args : List String) : Outcome × Disk :=
  match Invocation.ofArguments args with
  | .error .misuse => (.misuse, disk)
  | .error .help => (.help, disk)
  | .ok i =>
    match (openLog i.logFile).run.run disk with
    | (.error (e, path), disk) => (.failed (.file e path), disk)
    | (.ok log, disk) =>
      let (result, session) := (Task.ofCommand environment i.command).run.run { disk, log, stamp }
      let console := if i.verbose then session.events else []
      match result with
      | .ok stdout => (.finished none stdout console, session.disk)
      | .error (.message text) => (.finished (some text) "" console, session.disk)
      | .error cause => (.failed cause, session.disk)

end Wiretap
