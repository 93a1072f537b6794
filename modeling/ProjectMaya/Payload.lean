import ProjectMaya.Machine
import ProjectMaya.Logic.Regex
import ProjectMaya.Logic.Check
import ProjectMaya.Logic.PosixPath

/-! # Payloads

What crosses the boundary between Hermes and its collaborators: requests, tool arguments
and results.  `checkedPayload` is the check that all of them have to pass. -/

namespace ProjectMaya.Plugin

open Logic

inductive Key where
  | str (s : String)
  /-- a key of any other type -/
  | other
  deriving DecidableEq, Repr

/-- A Python object as the code sees it; `ν` is the type of floats. -/
inductive Payload (ν : Type) where
  | none
  | bool (b : Bool)
  | int (n : Int)
  | float (x : ν)
  | str (s : String)
  | list (tuple : Bool) (items : List (Payload ν))
  /-- A `dict`, or a `Mapping` of another type. -/
  | mapping (dict : Bool) (items : List (Key × Payload ν))
  /-- a `Path` -/
  | path (p : PurePath)
  /-- an object of any other type -/
  | object

/-- The items of a `dict`. -/
abbrev Dict (ν : Type) := List (Key × Payload ν)

namespace Dict

variable {ν : Type}

/-- `d.get(name, default)` -/
def getD (d : Dict ν) (name : String) (default : Payload ν) : Payload ν :=
  ((d.find? fun item => item.1 = .str name).map Prod.snd).getD default

/-- `d.get(name)` -/
def get (d : Dict ν) (name : String) : Payload ν := d.getD name .none

/-- `d[name] = value` -/
def set (d : Dict ν) (name : String) (value : Payload ν) : Dict ν :=
  if d.any fun item => item.1 = .str name then
    d.map fun item => if item.1 = .str name then (item.1, value) else item
  else d ++ [(.str name, value)]

@[simp] theorem get_set (d : Dict ν) (name : String) (value : Payload ν) :
    (d.set name value).get name = value := by
  unfold get getD set
  split
  · rename_i h
    induction d with
    | nil => simp at h
    | cons item d ih =>
      by_cases hi : item.1 = .str name
      · simp [hi]
      · have h' : (d.any fun item => decide (item.1 = .str name)) = true := by
          simpa [hi] using h
        simpa [hi] using ih h'
  · rename_i h
    have h' : ∀ item ∈ d, ¬ item.1 = .str name := by
      intro item hd hi
      exact h (List.any_eq_true.mpr ⟨item, hd, by simpa using hi⟩)
    have hnone : d.find? (fun item => decide (item.1 = .str name)) = .none := by
      rw [List.find?_eq_none]
      intro item hd
      simpa using h' item hd
    rw [List.find?_append, hnone]
    simp

end Dict

/-- `urlsplit(url)` -/
structure SplitResult where
  scheme : String
  netloc : String
  hostname : Option String
  username : Option String
  password : Option String
  query : String
  fragment : String
  /-- `none` when reading the port raises `ValueError`. -/
  port : Option (Option Nat)
  deriving DecidableEq, Repr

/-- What the code uses of Python: floats, characters, `json.loads` and `urlsplit` (`none` when
they raise `ValueError`), and the limits of the interpreter. -/
class Python (ν : Type) where
  isFinite : ν → Bool
  repr : ν → String
  lower : String → String
  isWord : Char → Bool
  isDecimal : Char → Bool
  isSpace : Char → Bool
  loads : String → Except Raised (Option (Payload ν))
  urlsplit : String → Option SplitResult
  /-- How deep a recursion may go. -/
  recursionLimit : Nat
  /-- `sys.get_int_max_str_digits()`; 0 is no limit. -/
  maxStrDigits : Nat

section

variable (ν : Type) [Python ν]

/-- What `re.IGNORECASE` takes an ASCII letter and its relatives for. -/
def fold (c : Char) : Char :=
  if c = 'İ' ∨ c = 'ı' then 'i' else if c = 'ſ' then 's' else if c = '\u212a' then 'k' else c.toLower

def sameLetter (a b : Char) : Bool := fold a = fold b

/-- `[A-Za-z0-9…]` with `re.IGNORECASE` -/
def letters (others : List Char) (c : Char) : Bool :=
  (fold c).isAlphanum || others.contains c

/-- `_SECRET` -/
def secret : Regex :=
  let text := Regex.literal sameLetter
  let atLeast (n : Nat) (others : List Char) := Regex.run (letters others) (fun k => n ≤ k)
  let word : Regex := .boundary (Python.isWord ν)
  .alt (.seq (text "sk-") (.seq (.optional (text "proj-")) (atLeast 16 ['_', '-'])))
    (.alt (.seq word (.seq (.run (Python.isDecimal ν) fun k => 6 ≤ k && k ≤ 12)
        (.seq (text ":") (atLeast 20 ['_', '-']))))
      (.alt (.seq (text "-----BEGIN ")
          (.seq (.optional (.alt (text "RSA ") (.alt (text "EC ") (text "OPENSSH "))))
            (text "PRIVATE KEY-----")))
        (.seq word (.seq (text "Bearer") (.seq (.run (Python.isSpace ν) fun k => 1 ≤ k)
          (atLeast 16 ['.', '_', '~', '+', '/', '-']))))))

end

/-- `_SECRET_FIELDS` -/
def secretFields : List String :=
  ["api_key", "access_token", "refresh_token", "password", "authorization"]

/-- `MAX_PAYLOAD_BYTES` -/
def maxPayloadBytes : Nat := 1048576

section

variable {ν : Type} [Python ν]

def checkKey (ν : Type) [Python ν] : Key → Except Raised Unit
  | .str s => ensure (¬ secretFields.contains (Python.lower ν s)) (.boundary "governance.sensitive_payload")
  | .other => .error (.boundary "governance.sensitive_payload")

/-- `value.lstrip().startswith(("{", "["))` -/
def looksEncoded (ν : Type) [Python ν] (s : String) : Bool :=
  match s.toList.dropWhile (Python.isSpace ν) with
  | c :: _ => c = '{' || c = '['
  | [] => false

/-- `check`, with the depth that the recursion limit leaves it. -/
def check : Nat → Payload ν → Except Raised Unit
  | 0, _ => .error .failure
  | depth + 1, value =>
    match value with
    | .mapping _ items => items.forM fun (key, item) => do
      checkKey ν key
      check depth item
    | .list _ items => items.forM (check depth)
    | .str s => do
      ensure (¬ (secret ν).search s) (.boundary "governance.sensitive_payload")
      if looksEncoded ν s then
        match ← Python.loads s with
        | some decoded => check depth decoded
        | none => .ok ()
      else .ok ()
    | .none | .bool _ | .int _ | .float _ => .ok ()
    | .path _ | .object => .error (.boundary "governance.payload_unsupported")

def dumpKey : Key → Except Raised String
  | .str s => .ok s
  | .other => .error .failure

/-- `json.dumps(value, allow_nan=False, sort_keys=True)` -/
def dumps : Nat → Payload ν → Except Raised (List Char)
  | 0, _ => .error .failure
  | depth + 1, value =>
    match value with
    | .none => .ok "null".toList
    | .bool b => .ok (if b then "true" else "false").toList
    | .int n => do
      let digits := (Nat.toDigits 10 n.natAbs).length
      ensure (Python.maxStrDigits ν = 0 ∨ digits ≤ Python.maxStrDigits ν) .failure
      return Json.decimal n
    | .float x => do
      ensure (Python.isFinite x) .failure
      return (Python.repr x).toList
    | .str s => .ok (Json.quote s)
    | .list _ items => do
      let items ← items.mapM (dumps depth)
      return '[' :: (", ".toList.intercalate items ++ [']'])
    | .mapping true items => do
      let items ← items.mapM fun (key, item) => do return (← dumpKey key, ← dumps depth item)
      let items := (items.insertionSort Json.keyLe).map fun (k, v) => Json.quote k ++ ": ".toList ++ v
      return '{' :: (", ".toList.intercalate items ++ ['}'])
    | .mapping false _ | .path _ | .object => .error .failure

/-- The `except` clauses of `_checked_payload`. -/
def payloadError : Raised → Raised
  | .boundary code => .boundary code
  | .interrupt => .interrupt
  | _ => .boundary "governance.payload_invalid"

/-- `_checked_payload` -/
def checkedPayload (payload : Payload ν) : Except Raised String :=
  Except.mapError payloadError do
    check (Python.recursionLimit ν) payload
    let encoded ← dumps (Python.recursionLimit ν) payload
    ensure ((utf8 encoded).length ≤ maxPayloadBytes) (.boundary "governance.payload_too_large")
    return String.ofList encoded

end

end ProjectMaya.Plugin
