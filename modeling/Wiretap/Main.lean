import Std.Time
import Wiretap.Command.Run

/-! The command line. It fetches the files that the arguments name, runs the command, shows what
comes of it and saves the files that are new or changed. -/

namespace Wiretap

/-- What really stands at a path. What exists and cannot be read as a file is a folder. -/
def lookAt (path : String) : IO (Option Entry) := do
  try
    return some (.file (← IO.FS.readBinFile path).toList)
  catch
    | .noFileOrDirectory .. => return none
    | .permissionDenied .. => return none
    | _ => return some .folder

/-- Puts what stands along a path of names, which starts at `base`, on a disk. -/
def fetch (disk : Disk) (base : Place) : List String → IO Disk
  | [] => return disk
  | name :: rest => do
    if name = ".." then fetch disk base.dropLast rest
    else
      let place := base ++ [name]
      match ← lookAt (Path.ofNames "/" place) with
      | none => return disk
      | some .folder => fetch (disk.set place .folder) place rest
      | some (.file bytes) => return disk.set place (.file bytes)

/-- A user with the home folder, from a line of the list of users: seven fields with colons between
them, of which the first is the name and the sixth the folder. -/
def userHome? (line : String) : Option (String × Place) :=
  match line.splitOn ":" with
  | [name, _, _, _, _, home, _] => some (name, Path.parts home)
  | _ => none

/-- The users of this machine with their home folders. -/
def userHomes : IO (List (String × Place)) := do
  try
    return (← IO.FS.lines "/etc/passwd").toList.filterMap userHome?
  catch _ => return []

/-- The paths that a command line names. -/
def namedPaths (disk : Disk) (environment : Option String) (args : List String) : List String :=
  match Invocation.ofArguments args with
  | .error _ => []
  | .ok i =>
    let policy := (i.command.policy.valueOr environment).bind fun path =>
      (expandHome disk path).toOption
    i.command.protocolFile?.toList ++ policy.toList ++ (i.logFile.valueOr none).toList

/-- Saves an entry. -/
def save (place : Place) : Entry → IO Unit
  | .folder => IO.FS.createDirAll (Path.ofNames "/" place)
  | .file bytes => IO.FS.writeBinFile (Path.ofNames "/" place) ⟨bytes.toArray⟩

/-- How the command is called. -/
def usageText : String :=
  "usage: protoknow [-h] [-v] [--log-file LOG_FILE] \x7banalyze,check,syntax\x7d ..."

/-- Shows how a run ended, and gives its exit status. -/
def present (stamp : String) (outcome : Outcome) : IO UInt32 := do
  match outcome with
  | .misuse => IO.eprintln usageText
  | .help => IO.println usageText
  | .failed _ => pure ()
  | .finished _ stdout console =>
    console.forM fun e => IO.eprint (e.stampedLine stamp)
    IO.print stdout
  outcome.complaint?.forM IO.eprintln
  return outcome.exitStatus

end Wiretap

open Wiretap in
/-- Runs the command line. -/
def main (args : List String) : IO UInt32 := do
  let environment ← IO.getEnv "PROTOKNOW_POLICY"
  let home := Path.parts ((← IO.getEnv "HOME").getD "")
  let working := Path.parts (← IO.currentDir).toString
  let stamp := (← Std.Time.PlainDateTime.now).format "uuuu-MM-dd HH:mm:ss,SSS"
  let bare : Disk := (Disk.ofHome home).makeFolders [] working
  let start := { bare with working, homes := ← userHomes }
  let disk ← (namedPaths start environment args).foldlM
    (fun disk path => fetch disk (disk.origin path) (Path.parts path)) start
  let (outcome, after) := runCommandLine disk environment stamp args
  (after.newTo disk).forM fun (place, entry) => save place entry
  present stamp outcome
