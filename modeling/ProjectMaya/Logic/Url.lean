import Mathlib.Data.List.Basic

/-! # URLs, as `urllib.parse` splits them

`urlsplit` cuts a URL at its delimiters, after control characters and blanks at its start and
tabs and line ends anywhere are gone.  What it leaves to other modules (addresses in
brackets, Unicode normal forms, `str.lower`) is a parameter (`Rules`). -/

namespace Logic.Url

/-- `text.partition(c)`: what is before the first `c`, and what is after it, if there is one. -/
def partition (c : Char) (text : List Char) : List Char × Option (List Char) :=
  match text.dropWhile (· ≠ c) with
  | [] => (text, none)
  | _ :: rest => (text.takeWhile (· ≠ c), some rest)

/-- `text.rpartition(c)`: what is before the last `c`, if there is one, and what is after it. -/
def rpartition (c : Char) (text : List Char) : Option (List Char) × List Char :=
  match partition c text.reverse with
  | (_, none) => (none, text)
  | (rest, some before) => (some before.reverse, rest.reverse)

structure Rules where
  /-- The netloc passes the check of what stands in brackets. -/
  bracketed : List Char → Bool
  /-- `unicodedata.normalize("NFKC", text)` -/
  nfkc : List Char → List Char
  /-- `text.lower()` -/
  lower : List Char → List Char

structure Parts where
  scheme : List Char
  netloc : List Char
  path : List Char
  query : List Char
  fragment : List Char
  deriving DecidableEq, Repr

/-- The URL without what is dropped before it is looked at. -/
def cleaned (url : List Char) : List Char :=
  (url.dropWhile fun c => c.toNat ≤ 32).filter fun c => !(['\t', '\r', '\n'].contains c)

def schemeChar (c : Char) : Bool := c.isAlphanum || ['+', '-', '.'].contains c

/-- The scheme, if the URL starts with one, and the rest. -/
def splitScheme (url : List Char) : List Char × List Char :=
  match partition ':' url with
  | (c :: name, some rest) =>
    if c.isAlpha && (c :: name).all schemeChar then ((c :: name).map Char.toLower, rest) else ([], url)
  | _ => ([], url)

def inNetloc (c : Char) : Bool := !(['/', '?', '#'].contains c)

/-- `_splitnetloc` after `//` -/
def splitNetloc : List Char → List Char × List Char
  | '/' :: '/' :: rest => (rest.takeWhile inNetloc, rest.dropWhile inNetloc)
  | rest => ([], rest)

variable (rules : Rules)

/-- `_checknetloc`: normal forms bring in no delimiter. -/
def checkNetloc (netloc : List Char) : Bool :=
  let plain := netloc.filter fun c => !(['@', ':', '#', '?'].contains c)
  netloc.all (·.toNat < 128) || rules.nfkc plain = plain ||
    (rules.nfkc plain).all fun c => !(['/', '?', '#', '@', ':'].contains c)

/-- `urlsplit(url)`; `none` when it raises `ValueError`. -/
def urlsplit (url : List Char) : Option Parts :=
  let (scheme, rest) := splitScheme (cleaned url)
  let (netloc, rest) := splitNetloc rest
  let (rest, fragment) := partition '#' rest
  let (path, query) := partition '?' rest
  if netloc.contains '[' ≠ netloc.contains ']' then none
  else if netloc.contains '[' && !rules.bracketed netloc then none
  else if !checkNetloc rules netloc then none
  else some { scheme, netloc, path, query := query.getD [], fragment := fragment.getD [] }

namespace Parts

variable (u : Parts)

/-- `_userinfo` -/
def userinfo : Option (List Char × Option (List Char)) :=
  (rpartition '@' u.netloc).1.map (partition ':')

def username : Option (List Char) := u.userinfo.map Prod.fst

def password : Option (List Char) := u.userinfo.bind Prod.snd

/-- `_hostinfo`: the host, and the text of the port. -/
def hostinfo : List Char × List Char :=
  let hostinfo := (rpartition '@' u.netloc).2
  match partition '[' hostinfo with
  | (_, some bracketed) =>
    let (host, port) := partition ']' bracketed
    (host, ((partition ':' (port.getD [])).2).getD [])
  | (_, none) =>
    let (host, port) := partition ':' hostinfo
    (host, port.getD [])

/-- The host in lower case, but for its zone. -/
def hostname : Option (List Char) :=
  match partition '%' u.hostinfo.1 with
  | ([], none) => none
  | (host, none) => some (rules.lower host)
  | (host, some zone) => some (rules.lower host ++ '%' :: zone)

/-- The port, if there is one; `none` when reading it raises `ValueError`. -/
def port : Option (Option Nat) :=
  let digits := u.hostinfo.2
  let value := digits.foldl (fun n c => 10 * n + (c.toNat - 48)) 0
  if digits = [] then some none
  else if digits.all Char.isDigit && value ≤ 65535 then some (some value)
  else none

end Parts

example : (urlsplit ⟨fun _ => true, id, id⟩ "HTTPS://me:pw@Host:80/v1?q#f".toList).bind Parts.username =
    some "me".toList := by
  decide +kernel

end Logic.Url
