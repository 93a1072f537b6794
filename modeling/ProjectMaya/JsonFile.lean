import ProjectMaya.Release
import ProjectMaya.Logic.Raises

/-! # JSON files

What is at a path, and what `json.loads(path.read_text(encoding="utf-8"))` makes of it. -/

namespace ProjectMaya

open Logic Release

/-- What is at a path. -/
inductive Entry where
  | missing
  /-- A directory, or anything else that is no file. -/
  | directory
  /-- A file that cannot be read. -/
  | unreadable
  | file (content : Bytes)
  deriving DecidableEq, Repr

namespace Entry

/-- `path.exists()` -/
def present : Entry → Bool
  | .missing => false
  | _ => true

/-- `path.is_file()` -/
def isFile : Entry → Bool
  | .unreadable | .file _ => true
  | _ => false

/-- `path.is_dir()` -/
def isDir : Entry → Bool
  | .directory => true
  | _ => false

/-- `path.read_bytes()`, unless it raises `OSError`. -/
def content? : Entry → Option Bytes
  | .file content => some content
  | _ => none

end Entry

inductive ReadError where
  | osError
  | unicodeDecodeError
  | jsonDecodeError
  /-- `ValueError`: an integer has too many digits. -/
  | tooManyDigits
  | recursionError
  deriving DecidableEq, Repr

/-- It is a `ValueError`. -/
def ReadError.isValueError : ReadError → Bool
  | .unicodeDecodeError | .jsonDecodeError | .tooManyDigits => true
  | _ => false

/-- It is an `OSError` or a `json.JSONDecodeError`. -/
def ReadError.isUnreadable : ReadError → Bool
  | .osError | .jsonDecodeError => true
  | _ => false

/-- `json.loads` -/
abbrev Loads (O : Type) := List Char → Except ReadError (Value O)

variable {O : Type}

def readJson (loads : Loads O) : Entry → Except ReadError (Value O)
  | .file content => do
    let text ← fetch (decodeUtf8 content) .unicodeDecodeError
    loads text
  | _ => .error .osError

/-- If it is a file that can be read, it is UTF-8, and its text is JSON within the limits of
`json.loads`, or no JSON at all. -/
def Legible (loads : Loads O) : Entry → Prop
  | .file content =>
    ∃ text, decodeUtf8 content = some text ∧ ∀ e, loads text = .error e → e.isUnreadable = true
  | _ => True

theorem legible_iff {loads : Loads O} {entry : Entry} :
    Legible loads entry ↔ RaisesOnly (fun e => e.isUnreadable = true) (readJson loads entry) := by
  cases entry with
  | file content =>
    unfold Legible readJson
    rw [raisesOnly_bind, raisesOnly_fetch]
    constructor
    · rintro ⟨text, htext, hall⟩
      rw [htext]
      refine ⟨fun h => ?_, fun text' ht => ?_⟩
      · cases h
      · cases ht
        exact hall
    · rintro ⟨hdecoded, hall⟩
      cases htext : decodeUtf8 content with
      | none =>
        have hraised := hdecoded htext
        cases hraised
      | some text =>
        rw [htext] at hall
        exact ⟨text, htext, hall text rfl⟩
  | _ => exact ⟨fun _ => raisesOnly_error.2 rfl, fun _ => trivial⟩

end ProjectMaya
