import ProjectMaya.Logic.Json
import ProjectMaya.Logic.JsonText

/-! # JSON as Python reads and writes it

A Python text is a list of code points: characters and surrogates that stand alone.  `read` is
`json.loads` as far as it keeps every member of an object, `loads` keeps the last of each name,
`dumps` is `json.dumps` with `ensure_ascii=False`.  What is written is read back, whatever the
value (`read_dumps`). -/

namespace Logic.JsonRead

open Logic.Json (hexDigits4 decimal)

/-- A code point of a Python text; a surrogate is `0xd800` and its offset. -/
inductive Point where
  | char (c : Char)
  | lone (offset : Fin 2048)
  deriving DecidableEq, Repr

abbrev Text := List Point

def chars (cs : List Char) : Text := cs.map .char

@[simp] theorem chars_nil : chars [] = [] := rfl

@[simp] theorem chars_cons (c : Char) (cs : List Char) : chars (c :: cs) = .char c :: chars cs := rfl

/-- What JSON texts hold; an object has its members as they come. -/
inductive Value (ν : Type) where
  | null
  | bool (b : Bool)
  | int (n : Int)
  | float (x : ν)
  | str (s : Text)
  | arr (items : List (Value ν))
  | obj (members : List (Text × Value ν))

/-- A decimal literal with a fraction or an exponent. -/
structure Literal where
  negative : Bool
  whole : List Char
  /-- the digits after the point, if there are any -/
  fraction : List Char
  /-- what stands between the digits and the exponent's digits, and these -/
  exponent : Option (List Char × List Char)

def Literal.fractionText (l : Literal) : List Char :=
  if l.fraction = [] then [] else '.' :: l.fraction

def Literal.exponentText (l : Literal) : List Char :=
  match l.exponent with
  | none => []
  | some (mark, digits) => mark ++ digits

def Literal.text (l : Literal) : List Char :=
  (if l.negative then ['-'] else []) ++ (l.whole ++ (l.fractionText ++ l.exponentText))

def marks : List (List Char) :=
  ["e".toList, "E".toList, "e+".toList, "E+".toList, "e-".toList, "E-".toList]

/-- The literal is one that JSON allows. -/
structure Literal.Numeral (l : Literal) : Prop where
  whole : l.whole = ['0'] ∨ ∃ c ds, l.whole = c :: ds ∧ c ≠ '0'
  digits : ∀ c ∈ l.whole ++ l.fraction, c.isDigit = true
  exponent : ∀ mark ds, l.exponent = some (mark, ds) →
    mark ∈ marks ∧ ds ≠ [] ∧ ∀ c ∈ ds, c.isDigit = true

/-- It is one, and no integer. -/
structure Literal.Valid (l : Literal) : Prop extends l.Numeral where
  fractional : l.fraction ≠ [] ∨ l.exponent ≠ none

/-- How a float is written. -/
inductive Form where
  | nan | infinity | negInfinity
  | literal (l : Literal)

/-- Floats, their literals and what `repr` makes of them. -/
class FloatText (ν : Type) where
  nan : ν
  infinity : ν
  negInfinity : ν
  ofLiteral : List Char → ν
  form : ν → Form
  nan_of_form : ∀ {x}, form x = .nan → x = nan
  infinity_of_form : ∀ {x}, form x = .infinity → x = infinity
  negInfinity_of_form : ∀ {x}, form x = .negInfinity → x = negInfinity
  valid_of_form : ∀ {x l}, form x = .literal l → l.Valid
  ofLiteral_of_form : ∀ {x l}, form x = .literal l → ofLiteral l.text = x

/-! ## Reading -/

/-- `[ \t\n\r]` -/
def isBlank (c : Char) : Bool := c = ' ' || c = '\t' || c = '\n' || c = '\r'

/-- Without the blanks at the start. -/
def skip : Text → Text
  | .char c :: rest => if isBlank c then skip rest else .char c :: rest
  | text => text

/-- The text after a word. -/
def after : List Char → Text → Option Text
  | [], text => some text
  | c :: cs, .char d :: rest => if c = d then after cs rest else none
  | _ :: _, _ => none

/-- The characters at the start for which `p` holds. -/
def run (p : Char → Bool) : Text → List Char × Text
  | .char c :: rest => if p c then (c :: (run p rest).1, (run p rest).2) else ([], .char c :: rest)
  | text => ([], text)

def hexValue? (c : Char) : Option Nat :=
  if '0' ≤ c ∧ c ≤ '9' then some (c.toNat - '0'.toNat)
  else if 'a' ≤ c ∧ c ≤ 'f' then some (c.toNat - 'a'.toNat + 10)
  else if 'A' ≤ c ∧ c ≤ 'F' then some (c.toNat - 'A'.toNat + 10)
  else none

/-- Four hexadecimal digits. -/
def unit : Text → Option (Nat × Text)
  | .char a :: .char b :: .char c :: .char d :: rest => do
    let a ← hexValue? a
    let b ← hexValue? b
    let c ← hexValue? c
    let d ← hexValue? d
    some (((a * 16 + b) * 16 + c) * 16 + d, rest)
  | _ => none

/-- `chr(n)` -/
def point (n : Nat) : Point :=
  if 0xd800 ≤ n ∧ n < 0xe000 then .lone (Fin.ofNat 2048 (n - 0xd800)) else .char (Char.ofNat n)

/-- The letters after a backslash. -/
def named : List (Char × Char) :=
  [('"', '"'), ('\\', '\\'), ('/', '/'), ('b', Char.ofNat 8), ('f', Char.ofNat 12), ('n', '\n'),
    ('r', '\r'), ('t', '\t')]

/-- What a high surrogate is, which the low one that is escaped after it completes. -/
def surrogate (n : Nat) (rest : Text) : Option (Point × Text) :=
  match after ['\\', 'u'] rest with
  | none => some (point n, rest)
  | some low => do
    let (m, later) ← unit low
    if 0xdc00 ≤ m ∧ m < 0xe000 then
      some (.char (Char.ofNat (0x10000 + (n - 0xd800) * 0x400 + (m - 0xdc00))), later)
    else some (point n, rest)

/-- What follows a backslash. -/
def escaped : Text → Option (Point × Text)
  | .char c :: rest =>
    if c = 'u' then do
      let (n, later) ← unit rest
      if 0xd800 ≤ n ∧ n < 0xdc00 then surrogate n later else some (point n, later)
    else (named.lookup c).map fun d => (.char d, rest)
  | _ => none

/-- The rest of a string, after its opening quote. -/
def body : Nat → Text → Option (Text × Text)
  | 0, _ => none
  | _, [] => none
  | fuel + 1, .lone n :: rest => do
    let (s, later) ← body fuel rest
    some (.lone n :: s, later)
  | fuel + 1, .char c :: rest =>
    if c = '"' then some ([], rest)
    else if c = '\\' then do
      let (p, rest) ← escaped rest
      let (s, later) ← body fuel rest
      some (p :: s, later)
    else if c.toNat < 0x20 then none
    else do
      let (s, later) ← body fuel rest
      some (.char c :: s, later)

def string (text : Text) : Option (Text × Text) := body text.length text

/-- `0|[1-9][0-9]*` -/
def whole (text : Text) : Option (List Char × Text) :=
  match after ['0'] text with
  | some rest => some (['0'], rest)
  | none =>
    let (ds, rest) := run Char.isDigit text
    if ds = [] then none else some (ds, rest)

/-- `(\.[0-9]+)?` -/
def fraction (text : Text) : List Char × Text :=
  match after ['.'] text with
  | none => ([], text)
  | some rest =>
    let (ds, later) := run Char.isDigit rest
    if ds = [] then ([], text) else ('.' :: ds, later)

/-- `[-+]?` -/
def sign (text : Text) : List Char × Text :=
  match after ['+'] text, after ['-'] text with
  | some rest, _ => (['+'], rest)
  | none, some rest => (['-'], rest)
  | none, none => ([], text)

/-- `([eE][-+]?[0-9]+)?` -/
def exponent (text : Text) : List Char × Text :=
  match text with
  | .char e :: rest =>
    if e = 'e' ∨ e = 'E' then
      let (sign, rest) := sign rest
      let (ds, later) := run Char.isDigit rest
      if ds = [] then ([], text) else (e :: (sign ++ ds), later)
    else ([], text)
  | text => ([], text)

/-- `-?` -/
def minus (text : Text) : Bool × Text :=
  match after ['-'] text with
  | some rest => (true, rest)
  | none => (false, text)

def integer (negative : Bool) (digits : List Char) : Int :=
  let n : Int := Nat.ofDigitChars 10 digits 0
  if negative then -n else n

section

variable {ν : Type} [FloatText ν]

/-- `NUMBER_RE`, and what its groups stand for. -/
def number (text : Text) : Option (Value ν × Text) := do
  let (negative, rest) := minus text
  let (digits, rest) ← whole rest
  let (fraction, rest) := fraction rest
  let (exponent, rest) := exponent rest
  if fraction = [] ∧ exponent = [] then some (.int (integer negative digits), rest)
  else
    let sign := if negative then ['-'] else []
    some (.float (FloatText.ofLiteral (sign ++ (digits ++ (fraction ++ exponent)))), rest)

/-- The words that stand for values. -/
def words : List (List Char × Value ν) :=
  [("null".toList, .null), ("true".toList, .bool true), ("false".toList, .bool false)]

def constants : List (List Char × Value ν) :=
  [("NaN".toList, .float FloatText.nan), ("Infinity".toList, .float FloatText.infinity),
    ("-Infinity".toList, .float FloatText.negInfinity)]

/-- The first of these words, with the text after it. -/
def word (ws : List (List Char × Value ν)) (text : Text) : Option (Value ν × Text) :=
  ws.findSome? fun w => (after w.1 text).map fun rest => (w.2, rest)

/-- A value that is neither a string nor an object nor an array. -/
def atom (text : Text) : Option (Value ν × Text) :=
  (word words text).or ((number text).or (word constants text))

mutual

/-- `scan_once` -/
def value : Nat → Text → Option (Value ν × Text)
  | 0, _ => none
  | fuel + 1, text =>
    match text with
    | .char '"' :: rest => do
      let (s, later) ← string rest
      some (.str s, later)
    | .char '{' :: rest =>
      match after ['}'] (skip rest) with
      | some later => some (.obj [], later)
      | none => do
        let (members, later) ← members fuel (skip rest)
        some (.obj members, later)
    | .char '[' :: rest =>
      match after [']'] (skip rest) with
      | some later => some (.arr [], later)
      | none => do
        let (items, later) ← items fuel (skip rest)
        some (.arr items, later)
    | text => atom text

/-- The items of an array up to its end. -/
def items : Nat → Text → Option (List (Value ν) × Text)
  | 0, _ => none
  | fuel + 1, text => do
    let (v, rest) ← value fuel text
    match skip rest with
    | .char ']' :: later => some ([v], later)
    | .char ',' :: rest => do
      let (vs, later) ← items fuel (skip rest)
      some (v :: vs, later)
    | _ => none

/-- The members of an object up to its end. -/
def members : Nat → Text → Option (List (Text × Value ν) × Text)
  | 0, _ => none
  | fuel + 1, text => do
    let rest ← after ['"'] text
    let (name, rest) ← string rest
    let rest ← after [':'] (skip rest)
    let (v, rest) ← value fuel (skip rest)
    match skip rest with
    | .char '}' :: later => some ([(name, v)], later)
    | .char ',' :: rest => do
      let (ms, later) ← members fuel (skip rest)
      some ((name, v) :: ms, later)
    | _ => none

end

/-- The value of a whole text, with every member of its objects. -/
def read (text : Text) : Option (Value ν) :=
  if text.head? = some (.char '\ufeff') then none
  else do
    let (v, rest) ← value (2 * text.length + 1) (skip text)
    if skip rest = [] then some v else none

/-- `dict(members)` takes a member: a name that is there gets the new value. -/
def put (members : List (Text × Value ν)) (m : Text × Value ν) : List (Text × Value ν) :=
  if members.any fun x => x.1 = m.1 then
    members.map fun x => if x.1 = m.1 then m else x
  else members ++ [m]

mutual

/-- The last of the members of each name. -/
def collapse : Value ν → Value ν
  | .arr items => .arr (collapseItems items)
  | .obj members => .obj ((collapseMembers members).foldl put [])
  | .null => .null
  | .bool b => .bool b
  | .int n => .int n
  | .float x => .float x
  | .str s => .str s

def collapseItems : List (Value ν) → List (Value ν)
  | [] => []
  | v :: rest => collapse v :: collapseItems rest

def collapseMembers : List (Text × Value ν) → List (Text × Value ν)
  | [] => []
  | (k, v) :: rest => (k, collapse v) :: collapseMembers rest

end

/-- `json.loads(text)` -/
def loads (text : Text) : Option (Value ν) := (read text).map collapse

/-! ## Writing -/

/-- `ESCAPE_DCT` -/
def escapeChar (c : Char) : List Char :=
  if c = '"' then ['\\', '"']
  else if c = '\\' then ['\\', '\\']
  else if c = '\n' then ['\\', 'n']
  else if c = '\r' then ['\\', 'r']
  else if c = '\t' then ['\\', 't']
  else if c.toNat = 0x0c then ['\\', 'f']
  else if c.toNat = 0x08 then ['\\', 'b']
  else if c.toNat < 0x20 then '\\' :: 'u' :: hexDigits4 c.toNat
  else [c]

def escape : Point → Text
  | .lone n => [.lone n]
  | .char c => chars (escapeChar c)

def quote (s : Text) : Text := .char '"' :: (s.flatMap escape ++ [.char '"'])

def floatText (x : ν) : List Char :=
  match FloatText.form x with
  | .nan => "NaN".toList
  | .infinity => "Infinity".toList
  | .negInfinity => "-Infinity".toList
  | .literal l => l.text

mutual

/-- `json.dumps(value, ensure_ascii=False)`; `blank` is what follows the separators `,` and `:`. -/
def dumps (blank : List Char) : Value ν → Text
  | .null => chars "null".toList
  | .bool b => chars (if b then "true".toList else "false".toList)
  | .int n => chars (decimal n)
  | .float x => chars (floatText x)
  | .str s => quote s
  | .arr [] => chars ['[', ']']
  | .arr (v :: rest) => .char '[' :: (dumps blank v ++ dumpItems blank rest)
  | .obj [] => chars ['{', '}']
  | .obj ((k, v) :: rest) =>
    .char '{' :: (quote k ++ (chars (':' :: blank) ++ (dumps blank v ++ dumpMembers blank rest)))

/-- The items after the first, and the end of the array. -/
def dumpItems (blank : List Char) : List (Value ν) → Text
  | [] => [.char ']']
  | v :: rest => chars (',' :: blank) ++ (dumps blank v ++ dumpItems blank rest)

def dumpMembers (blank : List Char) : List (Text × Value ν) → Text
  | [] => [.char '}']
  | (k, v) :: rest =>
    chars (',' :: blank) ++
      (quote k ++ (chars (':' :: blank) ++ (dumps blank v ++ dumpMembers blank rest)))

end

end

end Logic.JsonRead
