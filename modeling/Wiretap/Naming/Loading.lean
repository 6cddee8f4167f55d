import Wiretap.Event
import Wiretap.Files.Disk
import Wiretap.Json.Reader
import Wiretap.Naming.Decoding

/-! Reading a naming convention from a file. -/

namespace Wiretap

/-- Why no convention can be read. -/
inductive LoadError where
  | file (error : FileError) (path : String)
  | unreadable (error : Json.ReadError)
  | invalidNaming (error : NamingError)
  | unknownHome
  | noPath
deriving DecidableEq, Repr

/-- The words for an error. -/
def LoadError.message : LoadError → String
  | file e path => e.message path
  | unreadable e => e.message
  | invalidNaming e => e.message
  | unknownHome => "Could not determine home directory."
  | noPath => "expected str, bytes or os.PathLike object, not list"

/-- Whether an error lies in the file. The others lie in what was asked for. -/
def LoadError.isInFile : LoadError → Bool
  | unknownHome | noPath => false
  | _ => true

/-- The home folder of a user. Without a name it is one's own. -/
def homeOf (disk : Disk) (user : String) : Except LoadError Place :=
  if user.isEmpty then .ok disk.home
  else if user.toList.contains '\x00' then .error (.file .nulByte user)
  else
    match disk.homes.find? (·.1 = user) with
    | some (_, home) => .ok home
    | none => .error .unknownHome

/-- A path with the home folder at its start written out, which is given as `~`, or as `~` and the
name of a user. -/
def expandHome (disk : Disk) (path : String) : Except LoadError String :=
  match Path.isAbsolute path, Path.parts path with
  | false, first :: rest =>
    match first.toList with
    | '~' :: user => do
      let home ← homeOf disk (String.ofList user)
      return Path.ofNames "/" (home ++ rest)
    | _ => .ok (Path.tidy path)
  | _, _ => .ok (Path.tidy path)

/-- A convention with the path of the file that it was read from, if it was. -/
structure LoadedNaming where
  naming : Naming
  path : Option String := none

/-- Reads a convention from the file `path`, or from the file that the environment names, or
takes the built-in one. -/
def loadNaming (disk : Disk) (environment path : Option String) :
    Except LoadError LoadedNaming :=
  match path.or (environment.filter (!·.isEmpty)) with
  | none => .ok { naming := {} }
  | some given => do
    let path ← expandHome disk given
    match disk.read path with
    | .error e => throw (.file e path)
    | .ok bytes =>
      match Text.decode? bytes with
      | none => throw (.unreadable .malformed)
      | some text =>
        match Json.parse text with
        | .error e => throw (.unreadable e)
        | .ok json =>
          match Naming.ofJson json with
          | .error e => throw (.invalidNaming e)
          | .ok naming => return { naming, path }

/-- The event of reading a convention. -/
def LoadedNaming.events (l : LoadedNaming) : List Event :=
  match l.path with
  | none => []
  | some path => [.namingLoaded path l.naming]

end Wiretap
