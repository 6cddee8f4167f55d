import Wiretap.Text.Quoted
import Wiretap.Text.Utf8

/-! Files and folders, and the paths that lead to them. -/

namespace Wiretap

/-- Why a file cannot be used. -/
inductive FileError where
  | notFound
  | alreadyThere
  | notAFolder
  | isAFolder
  | nameTooLong
  | nulByte
deriving DecidableEq, Repr

namespace FileError

/-- The number of an error. -/
def number : FileError → Nat
  | notFound => 2
  | alreadyThere => 17
  | notAFolder => 20
  | isAFolder => 21
  | nameTooLong => 36
  | nulByte => 0

/-- The words for an error. -/
def reason : FileError → String
  | notFound => "No such file or directory"
  | alreadyThere => "File exists"
  | notAFolder => "Not a directory"
  | isAFolder => "Is a directory"
  | nameTooLong => "File name too long"
  | nulByte => "embedded null byte"

/-- The words for an error with a path. -/
def message (e : FileError) (path : String) : String :=
  match e with
  | nulByte => e.reason
  | _ => "[Errno " ++ toString e.number ++ "] " ++ e.reason ++ ": " ++ Text.quoted path

end FileError

/-- What stands at a place. -/
inductive Entry where
  | file (bytes : List UInt8)
  | folder
deriving DecidableEq

/-- A place: the names of the folders that lead to it from the root, and its own. -/
abbrev Place := List String

/-- Files and folders, with the home folder, those of other users by their names, and the folder
that relative paths start from. -/
structure Disk where
  home : Place
  working : Place
  entries : List (Place × Entry) := []
  homes : List (String × Place) := []

namespace Path

/-- The pieces of a text between separators. -/
def pieces : List Char → List (List Char)
  | [] => [[]]
  | c :: cs =>
    match pieces cs with
    | [] => [[c]]
    | name :: names => if c = '/' then [] :: name :: names else (c :: name) :: names

/-- The names in a path, with an empty one wherever nothing stands between separators. -/
def segments (path : String) : List String :=
  (pieces path.toList).map String.ofList

/-- The names in a path that lead somewhere else. -/
def parts (path : String) : List String :=
  (segments path).filter fun name => name ≠ "" && name ≠ "."

/-- Whether a path starts at the root. -/
def isAbsolute (path : String) : Bool :=
  path.toList.head? = some '/'

/-- The separators that a path keeps in front: two if it starts with exactly two, one if it starts
with another number of them, and none if it is relative. -/
def root (path : String) : String :=
  match path.toList.takeWhile (· = '/') with
  | [] => ""
  | [_, _] => "//"
  | _ => "/"

/-- The path that goes along names from a root. Without a root it starts at the working folder,
which is a point. -/
def ofNames (root : String) (names : List String) : String :=
  if root.isEmpty && names.isEmpty then "." else root ++ "/".intercalate names

/-- A path without needless separators. -/
def tidy (path : String) : String :=
  ofNames (root path) (parts path)

/-- The names in a path up to its last separator. -/
def leading (path : String) : List String :=
  parts ("/".intercalate (segments path).dropLast)

/-- The place that names lead to from `base`, where two points go back to the folder before. -/
def resolve (base : Place) (names : List String) : Place :=
  names.foldl (fun place name => if name = ".." then place.dropLast else place ++ [name]) base

/-- The largest number of bytes of a name. -/
def maxNameSize : Nat := 255

/-- The largest number of bytes of a path. -/
def maxSize : Nat := 4095

end Path

namespace Disk

/-- What stands at a place. -/
def entry? (d : Disk) (place : Place) : Option Entry :=
  if place.isEmpty then some .folder else (d.entries.find? (·.1 = place)).map (·.2)

/-- Where a path starts. -/
def origin (d : Disk) (path : String) : Place :=
  if Path.isAbsolute path then [] else d.working

/-- Goes from a place along the names of a path. Above the root there is only the root. -/
def walk (d : Disk) (place : Place) : List String → Except FileError Place
  | [] => .ok place
  | name :: rest =>
    match d.entry? place with
    | none => .error .notFound
    | some (.file _) => .error .notAFolder
    | some .folder =>
      if name = "" || name = "." then d.walk place rest
      else if name = ".." then d.walk place.dropLast rest
      else if Path.maxNameSize < name.utf8ByteSize then .error .nameTooLong
      else d.walk (place ++ [name]) rest

/-- The place that a path leads to. -/
def locate (d : Disk) (path : String) : Except FileError Place :=
  if path.toList.contains '\x00' then .error .nulByte
  else if path.isEmpty then .error .notFound
  else if Path.maxSize < path.utf8ByteSize then .error .nameTooLong
  else d.walk (d.origin path) (Path.segments path)

/-- The bytes of a file. -/
def read (d : Disk) (path : String) : Except FileError (List UInt8) := do
  match d.entry? (← d.locate path) with
  | none => .error .notFound
  | some .folder => .error .isAFolder
  | some (.file bytes) => .ok bytes

/-- The disk with an entry at a place, whatever was there. -/
def set (d : Disk) (place : Place) (e : Entry) : Disk :=
  { d with entries := d.entries.filter (·.1 ≠ place) ++ [(place, e)] }

/-- The disk with the folder at a place, and those that lead to it from `base`, made if
nothing is there. -/
def makeFolders (d : Disk) (base : Place) : List String → Disk
  | [] => d
  | name :: rest =>
    let place := base ++ [name]
    let d := if (d.entry? place).isSome then d else d.set place .folder
    d.makeFolders place rest

/-- A disk with nothing on it but a home folder, which is the working folder, too. -/
def ofHome (home : Place) : Disk :=
  Disk.makeFolders { home, working := home } [] home

/-- The entries that another disk does not have, or has otherwise. -/
def newTo (d before : Disk) : List (Place × Entry) :=
  d.entries.filter fun e => before.entry? e.1 ≠ some e.2

/-! ### Changes -/

/-- Whether something stands at a path. -/
def holds (d : Disk) (path : String) : Bool :=
  match d.locate path with
  | .ok place => (d.entry? place).isSome
  | .error _ => false

/-- Whether a folder stands at a path. -/
def isFolder (d : Disk) (path : String) : Bool :=
  match d.locate path with
  | .ok place => d.entry? place = some .folder
  | .error _ => false

/-- A change of a disk. One that fails tells why, with a path, and keeps what it did before. -/
abbrev Change := ExceptT (FileError × String) (StateM Disk)

namespace Change

/-- The place that a path leads to. -/
def locate (path : String) : Change Place := do
  match (← get).locate path with
  | .ok place => return place
  | .error e => throw (e, path)

/-- Makes a folder. Those that lead to it have to be there. -/
def makeFolder (path : String) : Change Unit := do
  let place ← locate path
  if (Disk.entry? (← get) place).isSome then throw (.alreadyThere, path)
  modify (·.set place .folder)

/-- Makes a folder, unless it is there. -/
def ensureFolder (path : String) : Change Unit :=
  tryCatch (makeFolder path) fun e => do
    if (← get).isFolder path then return else throw e

/-- Makes the folder at the end of names, which are given last first. The folder before it is
made only if that fails because it is missing. -/
def openFoldersBack (root : String) : List String → Change Unit
  | [] => ensureFolder (Path.ofNames root [])
  | name :: before =>
    let path := Path.ofNames root (name :: before).reverse
    tryCatch (ensureFolder path) fun e =>
      match e with
      | (.notFound, _) => do
        openFoldersBack root before
        ensureFolder path
      | e => throw e

/-- Makes the folder at the end of names, and those before it that are missing. -/
def openFolders (root : String) (names : List String) : Change Unit :=
  openFoldersBack root names.reverse

/-- Makes the folders along names, which are given last first, each after the one before it. -/
def growFoldersBack (root : String) : List String → Change Unit
  | [] => return
  | name :: before => do
    if !(← get).holds (Path.ofNames root before.reverse) then growFoldersBack root before
    ensureFolder (Path.ofNames root (name :: before).reverse)

/-- Makes the folders along names where nothing stands yet, from the first to the last. -/
def growFolders (root : String) (names : List String) : Change Unit :=
  growFoldersBack root names.reverse

/-- Puts an entry at a path, and the folders that lead to it. A file takes the place of another
one; a folder has to be new. -/
def put (path : String) (e : Entry) : Change Unit := do
  growFolders (Path.root path) (Path.leading path)
  match e with
  | .folder => makeFolder path
  | .file bytes =>
    let place ← locate path
    if Disk.entry? (← get) place = some .folder then throw (.isAFolder, path)
    modify (·.set place (.file bytes))

/-- Removes a file. -/
def remove (path : String) : Change Unit := do
  let place ← locate path
  match Disk.entry? (← get) place with
  | none => throw (.notFound, path)
  | some .folder => throw (.isAFolder, path)
  | some (.file _) => modify fun d => { d with entries := d.entries.filter (·.1 ≠ place) }

end Change

/-- Adds text at the end of a file, which is made if nothing is there. -/
def append (d : Disk) (place : Place) (text : String) : Disk :=
  match d.entry? place with
  | some (.file bytes) => d.set place (.file (bytes ++ Text.encode text))
  | _ => d.set place (.file (Text.encode text))

end Disk

end Wiretap
