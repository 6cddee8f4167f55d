import Wiretap.Text.Hexadecimal
import Wiretap.Text.Lowercase
import Wiretap.Text.Punycode
import Wiretap.Text.Quoted

/-! Hosts in addresses: a name or a number, after which a port may stand. -/

namespace Wiretap

/-- Why a text is not a host. -/
inductive HostError where
  | badBrackets
  | badFutureNumber
  | shortNumberInBrackets
  | notANumber (text : String)
  | confusable (text : String)
  | emptyOrLongLabel
  | longLabel
  | badPort (text : String)
  | largePort
deriving DecidableEq, Repr

/-- The words for an error. -/
def HostError.message : HostError → String
  | badBrackets => "Invalid IPv6 URL"
  | badFutureNumber => "IPvFuture address is invalid"
  | shortNumberInBrackets => "An IPv4 address cannot be in brackets"
  | notANumber text => Text.quoted text ++ " does not appear to be an IPv4 or IPv6 address"
  | confusable text =>
    "netloc '" ++ text ++ "' contains invalid characters under NFKC normalization"
  | emptyOrLongLabel =>
    "encoding with 'idna' codec failed (UnicodeError: label empty or too long)"
  | longLabel => "encoding with 'idna' codec failed (UnicodeError: label too long)"
  | badPort text => "Port could not be cast to integer value as " ++ Text.quoted text
  | largePort => "Port out of range 0-65535"

namespace Host

/-- A text up to the first `c`, and the text behind it. -/
def splitAt (c : Char) (cs : List Char) : List Char × List Char :=
  (cs.takeWhile (· != c), (cs.dropWhile (· != c)).drop 1)

/-- The pieces of a text between characters that fulfil `p`. -/
def pieces (p : Char → Bool) (cs : List Char) : List (List Char) :=
  cs.foldr (fun c rest => if p c then [] :: rest else (c :: rest.headD []) :: rest.tail) [[]]

/-- Whether a text is in ASCII. -/
def isAscii (cs : List Char) : Bool :=
  cs.all (·.toNat < 0x80)

/-! ### Parts -/

/-- The user up to the last at sign, and the text behind it. -/
def splitUser (cs : List Char) : List Char × List Char :=
  let rest := (cs.reverse.takeWhile (· != '@')).reverse
  (cs.take (cs.length - rest.length), rest)

/-- The name of a host, which may stand in brackets, and its port. -/
def splitPort (cs : List Char) : List Char × List Char :=
  if cs.contains '[' then
    let (name, rest) := splitAt ']' (splitAt '[' cs).2
    (name, (splitAt ':' rest).2)
  else splitAt ':' cs

/-! ### Numbers -/

/-- The value of decimal digits. -/
def decimal (cs : List Char) : Nat :=
  cs.foldl (fun n c => 10 * n + (c.toNat - '0'.toNat)) 0

/-- Whether a text is a number below 256 without needless zeros. -/
def isOctet (cs : List Char) : Bool :=
  !cs.isEmpty && cs.length ≤ 3 && cs.all Char.isDigit && (cs.head? ≠ some '0' || cs.length = 1) &&
    decimal cs ≤ 255

/-- Whether a text is four octets with points between them. -/
def isShortNumber (cs : List Char) : Bool :=
  let octets := pieces (· = '.') cs
  octets.length = 4 && octets.all isOctet

/-- Whether a text is one to four hexadecimal digits. -/
def isGroup (cs : List Char) : Bool :=
  !cs.isEmpty && cs.length ≤ 4 && cs.all fun c => (Text.hexValue? c).isSome

/-- The groups in front of or behind a gap. Nothing may stand there. -/
def besideGap (groups : List (List Char)) : List (List Char) :=
  if groups = [[]] then [] else groups

/-- Whether groups, with colons between them, make a number of eight groups. A single gap, with
nothing between two colons, stands for one or more of them. -/
def isGroups (groups : List (List Char)) : Bool :=
  let front := groups.headD [] :: groups.tail.takeWhile (!·.isEmpty)
  if groups.length ≤ front.length || groups.length = front.length + 1 then
    groups.length = 8 && groups.all isGroup
  else
    let front' := besideGap front
    let back := besideGap (groups.drop (front.length + 1))
    front'.all isGroup && back.all isGroup && front'.length + back.length ≤ 7

/-- Whether a text is a number of eight groups, of which the last two may be four octets. The
name of a zone may follow a percent sign. -/
def isLongNumber (cs : List Char) : Bool :=
  let (number, zone) := splitAt '%' cs
  let groups := pieces (· = ':') number
  let last := groups.getLastD []
  let mixed := last.contains '.'
  let groups' := if mixed then groups.dropLast ++ [['0'], ['0']] else groups
  (!cs.contains '%' || (!zone.isEmpty && !zone.contains '%')) && 3 ≤ groups.length &&
    (!mixed || isShortNumber last) && isGroups groups'

/-- Whether a text is a number of a later version: its version in hexadecimal digits, a point, and
anything else. -/
def isFutureNumber (cs : List Char) : Bool :=
  match cs with
  | 'v' :: rest =>
    let version := rest.takeWhile fun c => (Text.hexValue? c).isSome
    match version, rest.drop version.length with
    | _ :: _, '.' :: _ :: _ => true
    | _, _ => false
  | _ => false

/-! ### Checks -/

/-- Whether nothing stands in front of the brackets around a name, and nothing but a port behind
them. -/
def isBracketed (cs : List Char) : Bool :=
  match cs with
  | '[' :: rest =>
    let behind := (splitAt ']' rest).2
    behind.isEmpty || behind.head? = some ':'
  | _ => !cs.contains '['

/-- Checks the name of a host with brackets in it, which come in pairs. The name is a number then,
even if the brackets stand in the user. -/
def checkBrackets (cs : List Char) : Except HostError Unit := do
  if cs.contains '[' != cs.contains ']' then throw .badBrackets
  if cs.contains '[' then
    let info := (splitUser cs).2
    if !isBracketed info then throw .badBrackets
    let number := (splitPort info).1
    if number.head? = some 'v' then
      if !isFutureNumber number then throw .badFutureNumber
    else if isShortNumber number then throw .shortNumberInBrackets
    else if !isLongNumber number then throw (.notANumber (String.ofList number))

/-- The characters beyond ASCII that look like one that ends a host or divides it. -/
def lookalikes : List Char :=
  "⁇⁈⁉℀℁℅℆⩴︓︖﹕﹖﹟﹫＃／：？＠".toList

/-- Checks that no character of a host looks like one that ends it or divides it. -/
def checkLookalikes (cs : List Char) : Except HostError Unit :=
  if cs.any lookalikes.contains then throw (.confusable (String.ofList cs)) else return

/-! ### Names -/

/-- Whether `c` stands between two labels of a name. -/
def isPoint (c : Char) : Bool :=
  c = '.' || c = '。' || c = '．' || c = '｡'

/-- A label in ASCII. -/
def asciiLabel (cs : List Char) : Except HostError (List Char) :=
  let cs := if isAscii cs then cs else "xn--".toList ++ Text.Punycode.encode cs
  if cs.isEmpty || 64 ≤ cs.length then throw .emptyOrLongLabel else return cs

/-- A name in ASCII. Only its last label may be empty. -/
def asciiName (cs : List Char) : Except HostError (List Char) := do
  if isAscii cs then
    let labels := pieces (· = '.') cs
    if labels.dropLast.any fun l => l.isEmpty || 64 ≤ l.length then throw .emptyOrLongLabel
    if 64 ≤ (labels.getLastD []).length then throw .longLabel
    return cs
  else
    let labels := pieces isPoint cs
    let ended := (labels.getLastD []).isEmpty
    let labels ← (if ended then labels.dropLast else labels).mapM asciiLabel
    return List.intercalate ['.'] labels ++ if ended then ['.'] else []

/-! ### Ports -/

/-- The number of a port, or none if there is none. -/
def port? (cs : List Char) : Except HostError (Option Nat) := do
  if cs.isEmpty then return none
  if !cs.all Char.isDigit then throw (.badPort (String.ofList cs))
  if 65535 < decimal cs then throw .largePort
  return some (decimal cs)

/-! ### Tidy hosts -/

/-- A name in lower case. The zone of a number stays as it is. -/
def lowerName (cs : List Char) : List Char :=
  let (name, zone) := (cs.takeWhile (· != '%'), cs.dropWhile (· != '%'))
  (Text.lowercase (String.ofList name)).toList ++ zone

/-- A host with its name in ASCII and in lower case, and its port as a number. Port zero does not
count. -/
def tidy (cs : List Char) : Except HostError (List Char) := do
  let (user, info) := splitUser cs
  let (name, port) := splitPort info
  let name ← if name.isEmpty then pure [] else asciiName (lowerName name)
  let name := if name.contains ':' then '[' :: name ++ [']'] else name
  match ← port? port with
  | some 0 | none => return user ++ name
  | some n => return user ++ name ++ ':' :: (toString n).toList

/-- Whether a text is empty or a port behind a colon. -/
def isPortOrEmpty (cs : List Char) : Bool :=
  match cs with
  | [] => true
  | c :: port => c = ':' && !port.isEmpty && port.all Char.isDigit

/-- Whether a host has only characters that a name, or a number in brackets, and a port may
have. -/
def isPlain (cs : List Char) : Bool :=
  match cs with
  | '[' :: rest =>
    let (number, port) := splitAt ']' rest
    let isHex := fun c => (Text.hexValue? c).isSome
    match number.dropWhile isHex with
    | ':' :: c :: more =>
      rest.contains ']' && isPortOrEmpty port &&
        (c :: more).all fun c => isHex c || c = '.' || c = ':'
    | _ => false
  | _ =>
    let name := cs.takeWhile fun c => c.isAlphanum || c = '.' || c = '-'
    !name.isEmpty && isPortOrEmpty (cs.drop name.length)

end Host

end Wiretap
