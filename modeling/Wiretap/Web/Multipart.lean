import Wiretap.Text.Lowercase
import Wiretap.Web.Header

/-! Forms in parts. Each part stands between two boundary lines and has headers of its own, which
name the field. The body is read in blocks, and what is not yet understood is held back. -/

namespace Wiretap.Multipart

/-- Why a form in parts cannot be read. -/
inductive ReadError where
  | malformed
  | tooLarge
deriving DecidableEq, Repr

/-- The largest number of bytes of a field, and of what is held back. -/
def maxFieldSize : Nat := 500000

/-- The largest number of parts. -/
def maxParts : Nat := 1000

/-- The number of bytes of a block. -/
def blockSize : Nat := 65536

/-! ### Lines -/

/-- The bytes of ASCII characters. -/
def ascii (s : String) : List UInt8 :=
  s.toList.map fun c => UInt8.ofNat c.toNat

/-- The text behind a line break. -/
def lineBreak? : List UInt8 → Option (List UInt8)
  | 0x0D :: 0x0A :: rest => some rest
  | 0x0D :: rest => some rest
  | 0x0A :: rest => some rest
  | _ => none

/-- Whether a byte is white space within a line. -/
def isBlank (b : UInt8) : Bool :=
  b = 0x20 || b = 0x09 || b = 0x0B || b = 0x0C

/-- Where a boundary ends: whether it is the last one, and the text behind it. -/
structure Boundary where
  last : Bool
  rest : List UInt8

/-- Reads a boundary. The last one has two more dashes; the others end with their line. -/
def boundary? (mark cs : List UInt8) : Option Boundary :=
  if mark.isPrefixOf cs then
    match cs.drop mark.length with
    | 0x2D :: 0x2D :: rest =>
      let rest := rest.dropWhile isBlank
      some ⟨true, (lineBreak? rest).getD rest⟩
    | rest => (lineBreak? (rest.dropWhile isBlank)).map (⟨false, ·⟩)
  else none

/-- Reads a boundary that starts with a line break. -/
def boundaryLine? (mark cs : List UInt8) : Option Boundary :=
  (lineBreak? cs).bind (boundary? mark)

/-- The first place where `find` succeeds, after `before`, last first: what stands before it, and
what was found. -/
def search {α : Type} (find : List UInt8 → Option α) (before : List UInt8) :
    List UInt8 → Option (List UInt8 × α)
  | [] => none
  | b :: rest =>
    match find (b :: rest) with
    | some a => some (before.reverse, a)
    | none => search find (b :: before) rest

/-- Whether a mark stands somewhere in a text. -/
def contains (mark cs : List UInt8) : Bool :=
  (search (fun cs => if mark.isPrefixOf cs then some () else none) [] cs).isSome

/-- The number of bytes up to the last one that is `b`, or all. -/
def lastIndex (b : UInt8) (cs : List UInt8) : Nat :=
  match cs.reverse.dropWhile (· != b) with
  | [] => cs.length
  | _ :: before => before.length

/-- The number of bytes that cannot belong to a line break at the end. -/
def lastLine (cs : List UInt8) : Nat :=
  min (lastIndex 0x0A cs) (lastIndex 0x0D cs)

/-! ### Headers -/

/-- The text from the second line break of a blank line on. -/
def blankLine? : List UInt8 → Option (List UInt8)
  | 0x0D :: 0x0A :: 0x0D :: 0x0A :: rest => some (0x0D :: 0x0A :: rest)
  | 0x0D :: 0x0D :: rest => some (0x0D :: rest)
  | 0x0A :: 0x0A :: rest => some (0x0A :: rest)
  | _ => none

/-- The lines of a text, after `done` and the start of a line, both last first. A line that
starts with a blank goes on with the one before. -/
def linesAfter (done : List (List UInt8)) (line : List UInt8) : List UInt8 → List (List UInt8)
  | [] => (line.reverse :: done).reverse
  | 0x0D :: 0x0A :: b :: rest =>
    if b = 0x20 || b = 0x09 then linesAfter done (0x20 :: line) rest
    else linesAfter (line.reverse :: done) [] (b :: rest)
  | b :: c :: rest =>
    if b != 0x0D && b != 0x0A then linesAfter done (b :: line) (c :: rest)
    else if c = 0x20 || c = 0x09 then linesAfter done (0x20 :: line) rest
    else linesAfter (line.reverse :: done) [] (c :: rest)
  | [b] => linesAfter done (if b = 0x0D || b = 0x0A then line else b :: line) []

/-- A header line: its name in lower case, and its value. -/
def header? (line : List UInt8) : Option (String × String) :=
  let line := ((line.dropWhile isBlank).reverse.dropWhile isBlank).reverse
  (Text.decode? line).map fun s =>
    let cs := s.toList
    (Text.lowercase (String.ofList (Header.trim (cs.takeWhile (· != ':')))),
      String.ofList (Header.trim ((cs.dropWhile (· != ':')).drop 1)))

/-- The headers of a part. -/
def headers? (cs : List UInt8) : Option (List (String × String)) :=
  ((linesAfter [] [] cs).filter fun line => !line.all isBlank).mapM header?

/-- The value of a header. -/
def headerValue? (headers : List (String × String)) (name : String) : Option String :=
  (headers.find? (·.1 = name)).map (·.2)

/-- The encoding of a part. -/
def charsetOf (headers : List (String × String)) : Text.Charset :=
  let named := do
    let header := Header.parse (← headerValue? headers "content-type")
    Text.Charset.ofName? (Text.lowercase (← header.parameter? "charset"))
  named.getD .utf8

/-! ### Parts -/

/-- A part in the course of reading: its field, whether it is a file, its encoding, how many bytes
it has so far, and these in pieces, last first. -/
structure Part where
  field : Option String
  isFile : Bool
  charset : Text.Charset
  size : Nat := 0
  pieces : List (List UInt8) := []

/-- The part that headers start. They have to say what it is for. -/
def Part.ofHeaders? (headers : List (String × String)) : Option Part :=
  (headerValue? headers "content-disposition").map fun disposition =>
    let header := Header.parse disposition
    { field := header.parameter? "name"
      isFile := (header.parameter? "filename").isSome
      charset := charsetOf headers }

/-- The part with more bytes. Files may have any size. -/
def Part.push (p : Part) (piece : List UInt8) : Except ReadError Part :=
  let size := p.size + piece.length
  if !p.isFile && maxFieldSize < size then .error .tooLarge
  else .ok { p with size, pieces := piece :: p.pieces }

/-- The field of a finished part. Files and parts without a name have none. -/
def Part.field? (p : Part) : Option (String × String) :=
  if p.isFile then none
  else p.field.map fun name => (name, p.charset.decode p.pieces.reverse.flatten)

/-- What comes next in the body. -/
inductive Stage where
  | preamble
  | headers
  | content (part : Part) (started : Bool)
  | epilogue

/-- How far a body is read: what comes next, the bytes that are held back, the number of parts,
and the fields, last first. -/
structure Progress where
  mark : List UInt8
  stage : Stage := .preamble
  held : List UInt8 := []
  parts : Nat := 0
  fields : List (String × String) := []

namespace Progress

/-- Goes on behind a boundary. -/
def pass (p : Progress) (b : Boundary) : Progress :=
  { p with stage := if b.last then .epilogue else .headers, held := b.rest }

/-- Reads on in the bytes of a part, where a line break at the start does not count unless they
have `started`. Bytes that may belong to a boundary are held back, and so is a carriage return that
the next block may complete. -/
def readContent (p : Progress) (part : Part) (started : Bool) :
    Except ReadError (Option Progress) := do
  let content := if started then p.held else (lineBreak? p.held).getD p.held
  match search (boundaryLine? p.mark) [] p.held with
  | some (before, b) =>
    let part ← part.push (before.drop (p.held.length - content.length))
    return some { p.pass b with fields := part.field?.toList ++ p.fields }
  | none =>
    let cut := lastLine content
    let cut := if !contains p.mark p.held && p.mark.length + 1 < content.length - cut
      then content.length else cut
    let cut := if (content.take cut).getLast? = some 0x0D then cut - 1 else cut
    if started && cut = 0 then return none
    let part ← part.push (content.take cut)
    return some { p with stage := .content part true, held := content.drop cut }

/-- Reads the next thing, or none if there are not enough bytes. -/
def step (p : Progress) : Except ReadError (Option Progress) :=
  match p.stage with
  | .preamble =>
    let find := fun cs => (boundaryLine? p.mark cs).or (boundary? p.mark cs)
    return (search find [] p.held).map fun found => p.pass found.2
  | .headers =>
    match search blankLine? [] p.held with
    | none => return none
    | some (before, rest) =>
      match (headers? before).bind Part.ofHeaders? with
      | none => .error .malformed
      | some part =>
        if maxParts < p.parts + 1 then .error .tooLarge
        else
          let parts := p.parts + 1
          return some { p with stage := .content part false, held := rest, parts }
  | .content part started => p.readContent part started
  | .epilogue => return none

/-- Reads on as long as there are enough bytes, in at most `limit` steps. -/
def advance : Nat → Progress → Except ReadError Progress
  | 0, p => .ok p
  | limit + 1, p => do
    match ← p.step with
    | none => return p
    | some next => next.advance limit

/-- Takes a block. -/
def take (p : Progress) (block : List UInt8) : Except ReadError Progress :=
  if maxFieldSize < p.held.length + block.length then .error .tooLarge
  else
    let p := { p with held := p.held ++ block }
    p.advance (2 * p.held.length + 2)

/-- The fields of a body that is read to its end. -/
def finish (p : Progress) : Except ReadError (List (String × String)) :=
  match p.stage with
  | .epilogue => .ok p.fields.reverse
  | _ => .error .malformed

end Progress

/-- The blocks of a body. -/
def blocks : Nat → List UInt8 → List (List UInt8)
  | 0, _ => []
  | limit + 1, cs =>
    if cs.isEmpty then [] else cs.take blockSize :: blocks limit (cs.drop blockSize)

/-- The fields of a form in parts. -/
def decode (boundary : String) (body : List UInt8) : Except ReadError (List (String × String)) := do
  if boundary.isEmpty || !boundary.toList.all (·.toNat < 0x80) then throw .malformed
  let start : Progress := { mark := ascii ("--" ++ boundary) }
  ((← (blocks (body.length / blockSize + 1) body).foldlM Progress.take start)).finish

end Wiretap.Multipart
