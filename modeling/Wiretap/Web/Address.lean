import Wiretap.Web.Host
import Wiretap.Web.Percent

/-! Addresses of requests. -/

namespace Wiretap

/-- The parts of an address, each as it is written. What is not there is empty. -/
structure Address where
  scheme : List Char := []
  host : List Char := []
  path : List Char := []
  query : List Char := []
deriving DecidableEq, Repr

namespace Address

/-! ### Parts -/

/-- Whether `c` may stand in a scheme. -/
def isSchemeChar (c : Char) : Bool :=
  c.isAlphanum || c = '+' || c = '-' || c = '.'

/-- The scheme in front of a colon, in lower case, and the text behind it. -/
def splitScheme (cs : List Char) : List Char × List Char :=
  let scheme := cs.takeWhile isSchemeChar
  match scheme, cs.drop scheme.length with
  | c :: _, ':' :: rest => if c.isAlpha then (scheme.map Char.toLower, rest) else ([], cs)
  | _, _ => ([], cs)

/-- The host behind two slashes, and the text behind it. -/
def splitHost (cs : List Char) : List Char × List Char :=
  match cs with
  | '/' :: '/' :: rest =>
    let host := rest.takeWhile fun c => c != '/' && c != '?' && c != '#'
    (host, rest.drop host.length)
  | _ => ([], cs)

/-- The parts of an address. White space and control characters in front do not count, nor do
tabs and line breaks anywhere, nor what follows a number sign. -/
def split (cs : List Char) : Except HostError Address := do
  let cs := cs.dropWhile (·.toNat ≤ 0x20)
  let cs := cs.filter fun c => c != '\t' && c != '\r' && c != '\n'
  let (scheme, cs) := splitScheme cs
  let (host, cs) := splitHost cs
  Host.checkBrackets host
  Host.checkLookalikes host
  let cs := cs.takeWhile (· != '#')
  return { scheme, host, path := cs.takeWhile (· != '?'),
           query := (cs.dropWhile (· != '?')).drop 1 }

/-- The schemes whose addresses have slashes in front of the host, even if it is empty. -/
def hostSchemes : List String :=
  ["ftp", "http", "gopher", "nntp", "telnet", "imap", "wais", "file", "mms", "https", "shttp",
   "snews", "prospero", "rtsp", "rtsps", "rtspu", "rsync", "svn", "svn+ssh", "sftp", "nfs", "git",
   "git+ssh", "ws", "wss"]

/-- An address written out. -/
def text (a : Address) : List Char :=
  let path := if a.path.isEmpty || a.path.head? = some '/' then a.path else '/' :: a.path
  let rest := if !a.host.isEmpty || hostSchemes.contains (String.ofList a.scheme)
    then "//".toList ++ a.host ++ path else a.path
  (if a.scheme.isEmpty then rest else a.scheme ++ ':' :: rest) ++
    if a.query.isEmpty then [] else '?' :: a.query

/-! ### Requests -/

/-- A path that may itself look like an address. What looks like a host in it is made tidy. -/
def tidyPath (cs : List Char) : Except HostError (List Char) := do
  let a ← split cs
  return { a with host := ← Host.tidy a.host }.text

/-- The host to ask, made tidy. The brackets around a number must still be right then. -/
def tidyHost (cs : List Char) : Except HostError (List Char) := do
  let host ← Host.tidy cs
  Host.checkBrackets (Host.splitUser host).2
  return host

/-- The address that a client asks for. Its path and query are split once more: what looks like
a scheme or host there is dropped. -/
def ofTarget (target : String) : Except HostError Address := do
  let outer ← split target.toList
  let inner ← split (outer.path ++ if outer.query.isEmpty then [] else '?' :: outer.query)
  return { scheme := if outer.scheme.isEmpty then "http".toList else outer.scheme
           path := ← tidyPath inner.path
           host := ← if outer.host.isEmpty then pure "localhost".toList else tidyHost outer.host
           query := inner.query }

/-- Whether an address asks for a lasting connection instead of an answer. -/
def isSocket (a : Address) : Bool :=
  a.scheme = "ws".toList || a.scheme = "wss".toList

/-- The path with percent signs resolved. Several slashes in front count as one, and an empty path
stays empty. -/
def resolvedPath (a : Address) : List Char :=
  match Percent.decodeAs .utf8 a.path with
  | [] => []
  | cs => '/' :: cs.dropWhile (· == '/')

/-- Whether `c` stands for itself in a path. -/
def isPlain (c : Char) : Bool :=
  c.isAlphanum || "_.-~!$&'()*+,/:;=@".toList.contains c

/-- The port that a scheme implies. -/
def impliedPort (scheme : List Char) : List Char :=
  if scheme = "http".toList || scheme = "ws".toList then ":80".toList
  else if scheme = "https".toList || scheme = "wss".toList then ":443".toList
  else []

/-- The host as it is shown: without an implied port, and empty unless all its characters are
plain. -/
def shownHost (a : Address) : List Char :=
  let port := impliedPort a.scheme
  let host := if port.isSuffixOf a.host then a.host.take (a.host.length - port.length) else a.host
  if Host.isPlain host then host else []

/-- The address with another path, written out in full. -/
def withPath (a : Address) (path : List Char) : String :=
  String.ofList
    { a with host := a.shownHost, path := Percent.encode isPlain (String.ofList path) }.text

end Address

end Wiretap
