import Wiretap.Text.Numeral

/-! Reading command-line arguments. Options stand among the operands, their values may be joined
to them by an equals sign, long options may be shortened as long as they stay unambiguous, and
everything after `--` is an operand. -/

namespace Wiretap

/-- Whether an option takes a value, and which values it takes. -/
inductive Arity where
  | flag
  | value (accepts : String → Bool)

/-- An option: its name and its spellings. -/
structure Switch where
  name : String
  spellings : List String
  arity : Arity := .flag

/-- Asks for help. -/
def Switch.help : Switch := { name := "help", spellings := ["-h", "--help"] }

/-- The operands that are allowed: none, a single one, or the name of a command, after which all
arguments belong to the command. -/
inductive Operands where
  | none
  | one
  | command (names : List String)

/-- What a command line may hold. -/
structure Usage where
  switches : List Switch
  operands : Operands

/-- Why arguments are not used: help was asked for, or they are wrong. -/
inductive Refusal where
  | help
  | misuse
deriving DecidableEq, Repr

/-- What is said about an option that takes a value: nothing, its value, or that it is there with
its value struck. -/
inductive Setting (α : Type) where
  | missing
  | struck
  | value (a : α)
deriving DecidableEq, Repr

namespace Setting

/-- The value, or the default if nothing is said, or none if the value is struck. -/
def valueOr {α : Type} (s : Setting α) (default : Option α) : Option α :=
  match s with
  | missing => default
  | struck => none
  | value a => some a

/-- What is said about the result of reading the value. -/
def bind {α β : Type} (s : Setting α) (f : α → Option β) : Setting β :=
  match s with
  | missing => missing
  | struck => struck
  | value a => match f a with
    | some b => value b
    | none => missing

end Setting

/-- What arguments say: the options with their values, the operand, and the arguments that are
left to the command. `surplus` tells that some argument has no meaning. -/
structure Reading where
  settings : List (String × Option String) := []
  operand : Option String := none
  rest : List String := []
  surplus : Bool := false

namespace Reading

/-- Whether an option is given. -/
def has (r : Reading) (name : String) : Bool :=
  r.settings.any (·.1 = name)

/-- What is said about an option, the last time if it is given twice. -/
def setting (r : Reading) (name : String) : Setting String :=
  match r.settings.reverse.find? (·.1 = name) with
  | none => .missing
  | some (_, none) => .struck
  | some (_, some value) => .value value

end Reading

/-- How an argument reads: an option may have text joined to it. -/
inductive Mark where
  | word
  | divider
  | option (switch : Switch) (spelling : List Char) (attached : Option (List Char))
  | unknown

namespace Usage

/-- Every spelling of every option. -/
def spellings (u : Usage) : List (List Char × Switch) :=
  u.switches.flatMap fun s => s.spellings.map fun spelling => (spelling.toList, s)

/-- The option with a given spelling. -/
def switch? (u : Usage) (spelling : List Char) : Option Switch :=
  (u.spellings.find? (·.1 = spelling)).map (·.2)

/-- Whether an argument is a negative number. -/
def isNegativeNumber (cs : List Char) : Bool :=
  let isDigit (c : Char) : Bool := (Text.digitValue? c).isSome
  let cs := if cs.getLast? = some '\n' then cs.dropLast else cs
  match cs with
  | '-' :: rest =>
    (!rest.isEmpty && rest.all isDigit) ||
      match rest.dropWhile isDigit with
      | '.' :: fraction => !fraction.isEmpty && fraction.all isDigit
      | _ => false
  | _ => false

/-- The options that a shortened or joined spelling may stand for. -/
def candidates (u : Usage) (cs : List Char) : List Mark :=
  match cs with
  | '-' :: '-' :: _ =>
    let start := cs.takeWhile (· != '=')
    let attached := match cs.dropWhile (· != '=') with
      | [] => none
      | _ :: text => some text
    (u.spellings.filter fun s => start.isPrefixOf s.1).map fun s => .option s.2 s.1 attached
  | '-' :: c :: text =>
    u.spellings.filterMap fun s =>
      if s.1 = ['-', c] then some (.option s.2 s.1 (some text))
      else if cs.isPrefixOf s.1 then some (.option s.2 s.1 none)
      else none
  | _ => []

/-- How an argument reads on its own. -/
def mark (u : Usage) (cs : List Char) : Except Refusal Mark :=
  if cs.head? ≠ some '-' then .ok .word
  else match u.switch? cs with
  | some s => .ok (.option s cs none)
  | none =>
    if cs.length = 1 then .ok .word
    else
      let start := cs.takeWhile (· != '=')
      match u.switch? start, cs.dropWhile (· != '=') with
      | some s, _ :: text => .ok (.option s start (some text))
      | _, _ =>
        match u.candidates cs with
        | [m] => .ok m
        | _ :: _ :: _ => .error .misuse
        | [] => .ok (if isNegativeNumber cs || cs.contains ' ' then .word else .unknown)

/-- How the arguments read, each on its own. -/
def marks (u : Usage) : List String → Except Refusal (List (String × Mark))
  | [] => .ok []
  | "--" :: rest => .ok (("--", .divider) :: rest.map ((·, .word)))
  | arg :: rest => do
    let m ← u.mark arg.toList
    return (arg, m) :: (← u.marks rest)

/-- Options written together after one dash: those that are given, and the one that still waits
for its value. -/
structure Cluster where
  given : List (Switch × Option String) := []
  waiting : Option Switch := none

/-- The value that is joined to an option. A divider is struck there. -/
def joinedValue (text : List Char) : Option String :=
  if text = ['-', '-'] then none else some (String.ofList text)

/-- Reads the option `switch`, and those written together with it, of which there are less than
`limit`. -/
def cluster (u : Usage) : Nat → Cluster → Switch → List Char → Option (List Char) →
    Except Refusal Cluster
  | 0, _, _, _, _ => .error .misuse
  | limit + 1, done, switch, spelling, attached =>
    match switch.arity, attached with
    | .flag, none => .ok { done with given := done.given ++ [(switch, none)] }
    | .value _, none => .ok { done with waiting := some switch }
    | .value _, some text =>
      .ok { done with given := done.given ++ [(switch, joinedValue text)] }
    | .flag, some [] => .error .misuse
    | .flag, some (c :: text) =>
      if spelling.tail.head? = some '-' then .error .misuse
      else
        match u.switch? ['-', c] with
        | none => .error .misuse
        | some next =>
          u.cluster limit { done with given := done.given ++ [(switch, none)] } next ['-', c]
            (if text.isEmpty then none else some text)

/-- The reading with an option given. -/
def give (r : Reading) (switch : Switch) (value : Option String) : Except Refusal Reading :=
  if switch.name = Switch.help.name then .error .help
  else
    let next := { r with settings := r.settings ++ [(switch.name, value)] }
    match switch.arity, value with
    | .value accepts, some v => if accepts v then .ok next else .error .misuse
    | _, _ => .ok next

/-- Puts the arguments together from left to right. -/
def combine (u : Usage) (r : Reading) : List (String × Mark) → Except Refusal Reading
  | [] => .ok r
  | (_, .unknown) :: rest => u.combine { r with surplus := true } rest
  | (arg, .option switch spelling attached) :: rest => do
    let c ← u.cluster (arg.length + 1) {} switch spelling attached
    match c.waiting, rest with
    | none, rest =>
      let r ← c.given.foldlM (fun r g => give r g.1 g.2) r
      u.combine r rest
    | some s, (value, .word) :: rest =>
      let r ← c.given.foldlM (fun r g => give r g.1 g.2) r
      u.combine (← give r s (some value)) rest
    | some _, _ => .error .misuse
  | (arg, .word) :: rest =>
    match u.operands with
    | .none => u.combine { r with surplus := true } rest
    | .command names =>
      if names.contains arg then .ok { r with operand := some arg, rest := rest.map (·.1) }
      else .error .misuse
    | .one =>
      if r.operand.isSome then u.combine { r with surplus := true } rest
      else
        match rest with
        | (_, .divider) :: rest => u.combine { r with operand := some arg } rest
        | rest => u.combine { r with operand := some arg } rest
  | (_, .divider) :: rest =>
    match u.operands, r.operand, rest with
    | .one, none, (arg, .word) :: rest => u.combine { r with operand := some arg } rest
    | .command _, _, _ => .error .misuse
    | _, _, rest => u.combine { r with surplus := true } rest

/-- Reads arguments. An operand that is asked for has to be there. The arguments of a command
are left to it. -/
def read (u : Usage) (args : List String) : Except Refusal Reading := do
  let r ← u.combine {} (← u.marks args)
  match u.operands, r.operand with
  | .none, _ => return r
  | _, some _ => return r
  | _, none => throw .misuse

end Usage

end Wiretap
