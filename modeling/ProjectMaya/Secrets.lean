import Mathlib.Data.List.Infix
import ProjectMaya.Logic.Base64
import ProjectMaya.Logic.Check
import ProjectMaya.Logic.JsonText

/-! # The DPAPI secret store

A reference is stored in the file that its parts name, the last of them with `.secret` after it.
The in-memory backend keeps the same references in a map.  For the references in use the store
answers as the map does, whatever is asked in whatever order, exactly when no two of them clash:
the path of neither is, as the file system compares names, the path of the other or of a directory
on the way to it (`independent_iff`). -/

namespace ProjectMaya.Secrets

open Logic

abbrev Name := List Char

abbrev Text := List Char

structure SecretRef where
  name : Name
  deriving DecidableEq, Repr

/-- `str(ref)` -/
def SecretRef.text (ref : SecretRef) : String := "secret://" ++ String.ofList ref.name

inductive Error where
  | secretReferenceError (message : String)
  | secretStoreError (message : String)
  | fileExistsError
  | permissionError
  | unicodeDecodeError
  deriving DecidableEq, Repr

/-! ## References -/

def allowed : List Char :=
  "abcdefghijklmnopqrstuvwxyzABCDEFGHIJKLMNOPQRSTUVWXYZ0123456789-_.".toList

/-- `_safe_secret_part` -/
def safeSecretPart (value : Name) : Except Error Name := do
  ensure (value ≠ [] ∧ value ∉ [['.'], ['.', '.']])
    (.secretReferenceError "secret reference contains an invalid path part")
  ensure (value.all fun char => char ∈ allowed)
    (.secretReferenceError "secret reference contains unsupported characters")
  pure value

/-- `_validate_secret_ref` -/
def validateSecretRef (ref : SecretRef) : Except Error Unit := do
  let _parts ← (ref.name.splitOn '/').mapM safeSecretPart
  pure ()

/-- The references that the path check admits. -/
def Admitted (ref : SecretRef) : Prop :=
  ∀ part ∈ ref.name.splitOn '/', part ≠ [] ∧ part ∉ [['.'], ['.', '.']] ∧
    ∀ char ∈ part, char ∈ allowed

instance : DecidablePred Admitted := fun ref =>
  decidable_of_iff
    ((ref.name.splitOn '/').all (fun part =>
      part ≠ [] ∧ part ∉ [['.'], ['.', '.']] ∧ part.all fun char => char ∈ allowed) = true)
    (by simp [Admitted])

theorem safeSecretPart_eq_ok {value part : Name} : safeSecretPart value = .ok part ↔
    (value ≠ [] ∧ value ∉ [['.'], ['.', '.']] ∧ ∀ char ∈ value, char ∈ allowed) ∧
      value = part := by
  unfold safeSecretPart
  simp only [bind_eq_ok, ensure_eq_ok, pure_eq_ok, exists_const, and_assoc, List.all_eq_true,
    decide_eq_true_eq]

theorem safeParts_of_admitted {ref : SecretRef} (h : Admitted ref) :
    (ref.name.splitOn '/').mapM safeSecretPart = .ok (ref.name.splitOn '/') := by
  have hparts : ∀ part ∈ ref.name.splitOn '/', safeSecretPart part = .ok (id part) :=
    fun part hpart => safeSecretPart_eq_ok.2 ⟨h part hpart, rfl⟩
  rw [mapM_ok hparts, List.map_id]

theorem validateSecretRef_of_admitted {ref : SecretRef} (h : Admitted ref) :
    validateSecretRef ref = .ok () := by
  unfold validateSecretRef
  rw [safeParts_of_admitted h]
  rfl

/-! ## Files -/

/-- A path, the last component first. -/
abbrev Path := List Name

inductive Entry where
  | dir
  | file (content : List Char)
  deriving DecidableEq, Repr

/-- What is at a path, as the file system compares names. -/
abbrev Files := Path → Option Entry

/-- `path.mkdir(parents=True, exist_ok=True)` -/
def mkdir : Path → Files → Except Error Files
  | [], files => .ok files
  | name :: parent, files =>
    match files (name :: parent) with
    | some .dir => .ok files
    | some (.file _) => .error .fileExistsError
    | none => do
      let files ← mkdir parent files
      pure (Function.update files (name :: parent) (some .dir))

/-- `path.write_bytes(content)` -/
def writeBytes (path : Path) (content : List Char) (files : Files) : Except Error Files :=
  match files path with
  | some .dir => .error .permissionError
  | _ => .ok (Function.update files path (some (.file content)))

theorem mkdir_other {path : Path} {files files' : Files} (h : mkdir path files = .ok files')
    {p : Path} (hp : ¬ p <:+ path) : files' p = files p := by
  induction path generalizing files' with
  | nil =>
    cases h
    rfl
  | cons name parent ih =>
    unfold mkdir at h
    split at h
    · cases h
      rfl
    · cases h
    · simp only [bind_eq_ok, pure_eq_ok] at h
      obtain ⟨files'', hparent, rfl⟩ := h
      have hne : p ≠ name :: parent := fun heq => hp (heq ▸ List.suffix_refl _)
      rw [Function.update_of_ne hne]
      exact ih hparent fun hs => hp (hs.trans (List.suffix_cons _ _))

/-- Directories are made where nothing is; nothing else changes. -/
theorem mkdir_at {path : Path} {files files' : Files} (h : mkdir path files = .ok files')
    (p : Path) : files' p = files p ∨ files p = none ∧ files' p = some .dir := by
  induction path generalizing files' with
  | nil =>
    cases h
    exact .inl rfl
  | cons name parent ih =>
    unfold mkdir at h
    split at h
    · cases h
      exact .inl rfl
    · cases h
    · rename_i hnone
      simp only [bind_eq_ok, pure_eq_ok] at h
      obtain ⟨files'', hparent, rfl⟩ := h
      by_cases hp : p = name :: parent
      · subst hp
        exact .inr ⟨hnone, Function.update_self _ _ _⟩
      · rw [Function.update_of_ne hp]
        exact ih hparent

/-- Where no file is in the way the directories are made. -/
theorem mkdir_ok {path : Path} {files : Files}
    (h : ∀ p, p <:+ path → ∀ c, files p ≠ some (.file c)) : ∃ files', mkdir path files = .ok files' := by
  induction path with
  | nil => exact ⟨files, rfl⟩
  | cons name parent ih =>
    unfold mkdir
    cases hf : files (name :: parent) with
    | none =>
      obtain ⟨files', hfiles⟩ := ih fun p hp => h p (hp.trans (List.suffix_cons _ _))
      simp only [hfiles, ok_bind]
      exact ⟨_, rfl⟩
    | some e =>
      cases e with
      | dir => exact ⟨files, rfl⟩
      | file c => exact absurd hf (h _ (List.suffix_refl _) c)

/-- A file in the way, with nothing below it, stops it. -/
theorem mkdir_file {path file : Path} {files : Files} {c : List Char} (hne : file ≠ [])
    (hfile : files file = some (.file c)) (hon : file <:+ path)
    (hbelow : ∀ p, file <:+ p → p ≠ file → files p = none) :
    mkdir path files = .error .fileExistsError := by
  induction path with
  | nil => exact absurd (List.suffix_nil.1 hon) hne
  | cons name parent ih =>
    unfold mkdir
    rcases List.suffix_cons_iff.1 hon with heq | hparent
    · rw [← heq, hfile]
    · have hlong : name :: parent ≠ file := by
        intro heq
        have hlen := hparent.length_le
        rw [← heq, List.length_cons] at hlen
        omega
      rw [hbelow _ hon hlong]
      simp only [ih hparent]
      rfl

/-! ## The store -/

/-- Where the store is, how the file system compares names, and DPAPI. -/
structure Host where
  root : Path
  fold : Name → Name
  protect : List UInt8 → List UInt8
  unprotect : List UInt8 → Option (List UInt8)
  unprotect_protect : ∀ data, unprotect (protect data) = some data

/-- `base_path.parent / f"{base_path.name}.secret"` -/
def secretFile : Path → Path
  | [] => []
  | name :: parent => (name ++ ".secret".toList) :: parent

/-- `_path_for`; with parts that lead nowhere else, resolving the path changes nothing. -/
def Host.pathFor (host : Host) (ref : SecretRef) : Except Error Path := do
  let parts ← (ref.name.splitOn '/').mapM safeSecretPart
  ensure (parts ≠ []) (.secretReferenceError "secret reference name is required")
  let path := secretFile (parts.reverse ++ host.root)
  ensure (host.root ∈ path.tails) (.secretReferenceError "secret reference escapes secret store")
  pure (path.map host.fold)

def Host.read (host : Host) (ref : SecretRef) (files : Files) : Except Error Text := do
  let path ← host.pathFor ref
  match files path with
  | none => .error (.secretStoreError ("secret not found: " ++ ref.text))
  | some .dir => .error .permissionError
  | some (.file content) => do
    let ciphertext ← fetch (Base64.decode content)
      (.secretStoreError ("secret blob is not valid base64: " ++ ref.text))
    let plaintext ← fetch (host.unprotect ciphertext)
      (.secretStoreError "Windows DPAPI failed to unprotect secret")
    fetch (decodeUtf8 plaintext) .unicodeDecodeError

/-- What `write` puts into the file. -/
def Host.seal (host : Host) (value : Text) : List Char := Base64.encode (host.protect (utf8 value))

def Host.write (host : Host) (ref : SecretRef) (value : Text) (files : Files) :
    Except Error Files := do
  let path ← host.pathFor ref
  let files ← mkdir path.tail files
  writeBytes path (host.seal value) files

def Host.delete (host : Host) (ref : SecretRef) (files : Files) : Except Error Files := do
  let path ← host.pathFor ref
  match files path with
  | none => .ok files
  | some .dir => .error .permissionError
  | some (.file _) => .ok (Function.update files path none)

def Host.contains (host : Host) (ref : SecretRef) (files : Files) : Except Error Bool := do
  let path ← host.pathFor ref
  match files path with
  | some (.file _) => .ok true
  | _ => .ok false

/-! ## Runs of the store and of the map -/

inductive Op where
  | read (ref : SecretRef)
  | write (ref : SecretRef) (value : Text)
  | delete (ref : SecretRef)
  | contains (ref : SecretRef)

def Op.ref : Op → SecretRef
  | .read ref => ref
  | .write ref _ => ref
  | .delete ref => ref
  | .contains ref => ref

inductive Answer where
  | value (value : Text)
  | found (found : Bool)
  | done
  | error (e : Error)
  deriving DecidableEq, Repr

/-- What a call that changes `s` leaves, and what it answers. -/
def changed {σ : Type} (s : σ) : Except Error σ → σ × Answer
  | .ok s' => (s', .done)
  | .error e => (s, .error e)

/-- A call that changes nothing. -/
def asked {σ α : Type} (s : σ) (answer : α → Answer) : Except Error α → σ × Answer
  | .ok a => (s, answer a)
  | .error e => (s, .error e)

@[simp] theorem changed_ok {σ : Type} (s s' : σ) : changed s (.ok s') = (s', .done) := rfl

@[simp] theorem asked_ok {σ α : Type} (s : σ) (answer : α → Answer) (a : α) :
    asked s answer (.ok a) = (s, answer a) := rfl

/-- A call of the DPAPI store; what fails, fails before it changes anything. -/
def Host.call (host : Host) (files : Files) : Op → Files × Answer
  | .read ref => asked files .value (host.read ref files)
  | .write ref value => changed files (host.write ref value files)
  | .delete ref => changed files (host.delete ref files)
  | .contains ref => asked files .found (host.contains ref files)

/-- The values of `InMemoryEnterpriseSecretBackend`. -/
abbrev Values := SecretRef → Option Text

/-- A call of the in-memory backend. -/
def remembered (values : Values) : Op → Values × Answer
  | .read ref => asked values .value do
    validateSecretRef ref
    fetch (values ref) (.secretStoreError ("secret not found: " ++ ref.text))
  | .write ref value => changed values do
    validateSecretRef ref
    pure (Function.update values ref (some value))
  | .delete ref => changed values do
    validateSecretRef ref
    pure (Function.update values ref none)
  | .contains ref => asked values .found do
    validateSecretRef ref
    pure (values ref).isSome

/-- What a run of calls answers. -/
def answers {σ : Type} (call : σ → Op → σ × Answer) (s : σ) : List Op → List Answer
  | [] => []
  | op :: ops => (call s op).2 :: answers call (call s op).1 ops

/-! ## Paths of references -/

/-- The path of an admitted reference, as the file system compares names. -/
def Host.key (host : Host) (ref : SecretRef) : Path :=
  (secretFile ((ref.name.splitOn '/').reverse ++ host.root)).map host.fold

/-- The path of the one is that of the other or of a directory on the way to it. -/
def Host.Clash (host : Host) (a b : SecretRef) : Prop :=
  host.key a <:+ host.key b ∨ host.key b <:+ host.key a

theorem secretFile_append {path root : Path} (h : path ≠ []) :
    secretFile (path ++ root) = secretFile path ++ root := by
  cases path with
  | nil => exact absurd rfl h
  | cons name parent => rfl

theorem pathFor_of_admitted {host : Host} {ref : SecretRef} (h : Admitted ref) :
    host.pathFor ref = .ok (host.key ref) := by
  have hne := List.splitOn_ne_nil '/' ref.name
  have hrev : (ref.name.splitOn '/').reverse ≠ [] := fun h => hne (List.reverse_eq_nil_iff.1 h)
  have hroot : host.root ∈ (secretFile ((ref.name.splitOn '/').reverse ++ host.root)).tails := by
    rw [secretFile_append hrev]
    exact (List.mem_tails _ _).2 (List.suffix_append _ _)
  unfold Host.pathFor
  rw [safeParts_of_admitted h]
  simp only [ok_bind, ensure_pos hne, ensure_pos hroot]
  rfl

theorem opened_seal (host : Host) (value : Text) :
    (do
      let ciphertext ← fetch (Base64.decode (host.seal value)) e
      let plaintext ← fetch (host.unprotect ciphertext) e'
      fetch (decodeUtf8 plaintext) e'' : Except Error Text) = .ok value := by
  unfold Host.seal
  simp only [Base64.decode_encode, fetch_some, ok_bind, host.unprotect_protect, decodeUtf8_utf8]

/-! ## References that do not clash -/

/-- A new store: nothing is below its root, and no file is where the root or a directory on the way
to it is. -/
structure Fresh (host : Host) (files : Files) : Prop where
  below : ∀ p, p ≠ [] → files (p ++ host.root.map host.fold) = none
  above : ∀ p, p <:+ host.root.map host.fold → ∀ c, files p ≠ some (.file c)

theorem key_eq (host : Host) (ref : SecretRef) :
    ∃ p, p ≠ [] ∧ host.key ref = p ++ host.root.map host.fold := by
  have hne : (ref.name.splitOn '/').reverse ≠ [] :=
    fun h => List.splitOn_ne_nil _ _ (List.reverse_eq_nil_iff.1 h)
  unfold Host.key
  rw [secretFile_append hne, List.map_append]
  refine ⟨_, ?_, rfl⟩
  cases hrev : (ref.name.splitOn '/').reverse with
  | nil => exact absurd hrev hne
  | cons name parent => simp [secretFile]

theorem key_ne_nil (host : Host) (ref : SecretRef) : host.key ref ≠ [] := by
  obtain ⟨p, hp, hkey⟩ := key_eq host ref
  rw [hkey]
  simp [hp]

/-- For these references the files hold what the map holds, and every one can be written. -/
structure Holds (host : Host) (refs : Set SecretRef) (files : Files) (values : Values) : Prop where
  held : ∀ ref ∈ refs,
    files (host.key ref) = (values ref).map fun value => .file (host.seal value)
  free : ∀ ref ∈ refs, ∀ p, p <:+ host.key ref → p ≠ host.key ref → ∀ c, files p ≠ some (.file c)

/-- A new store holds nothing, for whatever references. -/
theorem Fresh.holds {host : Host} {files : Files} (h : Fresh host files) (refs : Set SecretRef) :
    Holds host refs files fun _ => none where
  held ref _ := by
    obtain ⟨p, hp, hkey⟩ := key_eq host ref
    rw [hkey]
    exact h.below p hp
  free ref _ q hq _ c := by
    obtain ⟨p, hp, hkey⟩ := key_eq host ref
    have hroot : host.root.map host.fold <:+ host.key ref := hkey ▸ List.suffix_append _ _
    rcases List.suffix_or_suffix_of_suffix hq hroot with hq | ⟨r, rfl⟩
    · exact h.above q hq c
    · cases r with
      | nil => exact h.above _ (List.suffix_refl _) c
      | cons name r =>
        rw [h.below _ (List.cons_ne_nil _ _)]
        nofun

section Holds

variable {host : Host} {refs : Set SecretRef} {files : Files} {values : Values}

theorem Holds.not_dir (h : Holds host refs files values) {ref : SecretRef} (href : ref ∈ refs) :
    files (host.key ref) ≠ some .dir := by
  rw [h.held ref href]
  cases values ref <;> simp

/-- What a write leaves: directories on the way, and the file. -/
theorem Holds.write (h : Holds host refs files values) {a : SecretRef} (ha : a ∈ refs)
    (hadmitted : Admitted a) (value : Text) :
    ∃ files', mkdir (host.key a).tail files = .ok files' ∧ host.write a value files =
      .ok (Function.update files' (host.key a) (some (.file (host.seal value)))) := by
  have htail : ∀ p, p <:+ (host.key a).tail → p <:+ host.key a ∧ p ≠ host.key a := by
    intro p hp
    refine ⟨hp.trans (List.tail_suffix _), ?_⟩
    rintro rfl
    have hlen := hp.length_le
    have hpos := List.length_pos_of_ne_nil (key_ne_nil host a)
    rw [List.length_tail] at hlen
    omega
  obtain ⟨files', hmk⟩ := mkdir_ok fun p hp => h.free a ha p (htail p hp).1 (htail p hp).2
  refine ⟨files', hmk, ?_⟩
  unfold Host.write
  simp only [pathFor_of_admitted hadmitted, ok_bind, hmk]
  have hsame : files' (host.key a) = files (host.key a) :=
    mkdir_other hmk fun hp => (htail _ hp).2 rfl
  unfold writeBytes
  rw [hsame]
  split
  · rename_i hdir
    exact absurd hdir (h.not_dir ha)
  · rfl

/-- The file of one reference changes, and directories are made on the way to it. -/
theorem Holds.update (h : Holds host refs files values)
    (hclash : ∀ a ∈ refs, ∀ b ∈ refs, a ≠ b → ¬ host.Clash a b) {ref : SecretRef}
    (href : ref ∈ refs) {files' : Files} {value : Option Text}
    (hkey : files' (host.key ref) = value.map fun value => .file (host.seal value))
    (hsame : ∀ p, ¬ p <:+ host.key ref → files' p = files p)
    (hway : ∀ p, p ≠ host.key ref → files' p = files p ∨ files' p = some .dir) :
    Holds host refs files' (Function.update values ref value) where
  held other hother := by
    by_cases heq : other = ref
    · subst heq
      rw [Function.update_self]
      exact hkey
    · rw [Function.update_of_ne heq]
      rw [hsame _ fun hp => hclash other hother ref href heq (.inl hp)]
      exact h.held other hother
  free other hother p hp hne c := by
    by_cases hpkey : p = host.key ref
    · subst hpkey
      by_cases heq : other = ref
      · subst heq
        exact absurd rfl hne
      · exact absurd (.inr hp) (hclash other hother ref href heq)
    · rcases hway p hpkey with hp' | hdir
      · rw [hp']
        exact h.free other hother p hp hne c
      · rw [hdir]
        simp

/-- A call on a reference that clashes with none of the others: the store answers as the map, and
holds what the map holds. -/
theorem Holds.call (h : Holds host refs files values) (hrefs : ∀ ref ∈ refs, Admitted ref)
    (hclash : ∀ a ∈ refs, ∀ b ∈ refs, a ≠ b → ¬ host.Clash a b) {op : Op} (hop : op.ref ∈ refs) :
    (host.call files op).2 = (remembered values op).2 ∧
      Holds host refs (host.call files op).1 (remembered values op).1 := by
  have hvalid := validateSecretRef_of_admitted (hrefs _ hop)
  have hpath : host.pathFor op.ref = .ok (host.key op.ref) := pathFor_of_admitted (hrefs _ hop)
  cases op with
  | read ref =>
    replace hop : ref ∈ refs := hop
    replace hvalid : validateSecretRef ref = .ok () := hvalid
    replace hpath : host.pathFor ref = .ok (host.key ref) := hpath
    have hread : host.read ref files =
        fetch (values ref) (.secretStoreError ("secret not found: " ++ ref.text)) := by
      unfold Host.read
      simp only [hpath, ok_bind, h.held ref hop]
      cases values ref with
      | none => rfl
      | some value => exact opened_seal host value
    unfold Host.call remembered
    simp only [hread, hvalid, ok_bind]
    cases values ref with
    | none => exact ⟨rfl, h⟩
    | some value => exact ⟨rfl, h⟩
  | contains ref =>
    replace hop : ref ∈ refs := hop
    replace hvalid : validateSecretRef ref = .ok () := hvalid
    replace hpath : host.pathFor ref = .ok (host.key ref) := hpath
    have hcontains : host.contains ref files = .ok (values ref).isSome := by
      unfold Host.contains
      simp only [hpath, ok_bind, h.held ref hop]
      cases values ref with
      | none => rfl
      | some value => rfl
    unfold Host.call remembered
    simp only [hcontains, hvalid, ok_bind]
    exact ⟨rfl, h⟩
  | write ref value =>
    replace hop : ref ∈ refs := hop
    replace hvalid : validateSecretRef ref = .ok () := hvalid
    obtain ⟨files', hmk, hwrite⟩ := h.write hop (hrefs _ hop) value
    unfold Host.call remembered
    simp only [hwrite, hvalid, ok_bind, changed_ok, pure, Except.pure]
    refine ⟨trivial, h.update hclash hop (Function.update_self _ _ _) ?_ ?_⟩
    · intro p hp
      have hne : p ≠ host.key ref := fun heq => hp (heq ▸ List.suffix_refl _)
      rw [Function.update_of_ne hne]
      exact mkdir_other hmk fun htail => hp (htail.trans (List.tail_suffix _))
    · intro p hne
      rw [Function.update_of_ne hne]
      rcases mkdir_at hmk p with hsame | ⟨-, hdir⟩
      · exact .inl hsame
      · exact .inr hdir
  | delete ref =>
    replace hop : ref ∈ refs := hop
    replace hvalid : validateSecretRef ref = .ok () := hvalid
    replace hpath : host.pathFor ref = .ok (host.key ref) := hpath
    have hdelete : host.delete ref files = .ok (Function.update files (host.key ref) none) := by
      unfold Host.delete
      simp only [hpath, ok_bind, h.held ref hop]
      cases hv : values ref with
      | none =>
        have hnone : files (host.key ref) = none := by
          rw [h.held ref hop, hv]
          rfl
        rw [← hnone, Function.update_eq_self]
        rfl
      | some value => rfl
    unfold Host.call remembered
    simp only [hdelete, hvalid, ok_bind, changed_ok, pure, Except.pure]
    refine ⟨trivial, h.update hclash hop (Function.update_self _ _ _) ?_ ?_⟩
    · intro p hp
      have hne : p ≠ host.key ref := fun heq => hp (heq ▸ List.suffix_refl _)
      exact Function.update_of_ne hne _ _
    · intro p hne
      exact .inl (Function.update_of_ne hne _ _)

/-- A whole run on references that do not clash. -/
theorem Holds.answers_eq (hrefs : ∀ ref ∈ refs, Admitted ref)
    (hclash : ∀ a ∈ refs, ∀ b ∈ refs, a ≠ b → ¬ host.Clash a b) {ops : List Op}
    (hops : ∀ op ∈ ops, op.ref ∈ refs) :
    ∀ {files : Files} {values : Values}, Holds host refs files values →
      answers host.call files ops = answers remembered values ops := by
  induction ops with
  | nil => exact fun _ => rfl
  | cons op ops ih =>
    intro files values h
    obtain ⟨hop, hrest⟩ := List.forall_mem_cons.1 hops
    obtain ⟨hanswer, hnext⟩ := h.call hrefs hclash hop
    unfold answers
    rw [hanswer, ih hrest hnext]

end Holds

/-! ## References that clash -/

/-- One that is written stands in the way of one that clashes with it, or is taken for it. -/
theorem answers_ne_of_clash {host : Host} {files : Files} (hfresh : Fresh host files)
    {a b : SecretRef} (ha : Admitted a) (hb : Admitted b) (hne : a ≠ b)
    (hclash : host.key a <:+ host.key b) :
    ∃ ops, (∀ op ∈ ops, Op.ref op = a ∨ op.ref = b) ∧
      answers host.call files ops ≠ answers remembered (fun _ => none) ops := by
  obtain ⟨files', hmk, hwrite⟩ := (hfresh.holds {a}).write rfl ha []
  have hva := validateSecretRef_of_admitted ha
  have hvb := validateSecretRef_of_admitted hb
  have hpb : host.pathFor b = .ok (host.key b) := pathFor_of_admitted hb
  by_cases hkey : host.key a = host.key b
  · -- the file of the one is the file of the other
    refine ⟨[.write a [], .contains b], by simp [Op.ref], ?_⟩
    have hcontains : host.contains b
        (Function.update files' (host.key a) (some (.file (host.seal [])))) = .ok true := by
      unfold Host.contains
      simp only [hpb, ok_bind, ← hkey, Function.update_self]
    simp only [answers, Host.call, remembered, hwrite, hva, hvb, ok_bind, changed_ok, pure, Except.pure,
      hcontains, asked_ok, Function.update_of_ne (Ne.symm hne)]
    simp
  · -- the file of the one is where the other needs a directory
    refine ⟨[.write a [], .write b []], by simp [Op.ref], ?_⟩
    obtain ⟨p, hp, hka⟩ := key_eq host a
    have htail : host.key a <:+ (host.key b).tail := by
      cases hkb : host.key b with
      | nil => exact absurd hkb (key_ne_nil host b)
      | cons name parent =>
        rw [hkb] at hclash hkey
        rcases List.suffix_cons_iff.1 hclash with heq | hs
        · exact absurd heq hkey
        · exact hs
    have hbelow : ∀ q, host.key a <:+ q → q ≠ host.key a →
        Function.update files' (host.key a) (some (.file (host.seal []))) q = none := by
      rintro q ⟨r, rfl⟩ hq
      rw [Function.update_of_ne hq]
      have hlong : ¬ r ++ host.key a <:+ (host.key a).tail := by
        intro hs
        have hlen := hs.length_le
        have hpos := List.length_pos_of_ne_nil (key_ne_nil host a)
        rw [List.length_append, List.length_tail] at hlen
        omega
      rw [mkdir_other hmk hlong, hka, ← List.append_assoc]
      exact hfresh.below _ (by simp [hp])
    have hwriteb : host.write b []
        (Function.update files' (host.key a) (some (.file (host.seal [])))) =
          .error .fileExistsError := by
      unfold Host.write
      simp only [hpb, ok_bind,
        mkdir_file (key_ne_nil host a) (Function.update_self _ _ _) htail hbelow]
      rfl
    simp only [answers, Host.call, remembered, hwrite, hva, hvb, ok_bind, changed_ok, pure, Except.pure,
      hwriteb]
    simp [changed]

/-- On whatever references are in use, every sequence of calls is answered as by the map exactly
when no two of the references clash. -/
theorem independent_iff (host : Host) (files : Files) (hfresh : Fresh host files)
    (refs : Set SecretRef) (hrefs : ∀ ref ∈ refs, Admitted ref) :
    (∀ ops : List Op, (∀ op ∈ ops, op.ref ∈ refs) →
        answers host.call files ops = answers remembered (fun _ => none) ops) ↔
      ∀ a ∈ refs, ∀ b ∈ refs, a ≠ b → ¬ host.Clash a b := by
  constructor
  · intro h a ha b hb hne hclash
    rcases hclash with hab | hba
    · obtain ⟨ops, hops, hdiff⟩ := answers_ne_of_clash hfresh (hrefs a ha) (hrefs b hb) hne hab
      refine hdiff (h ops fun op hop => ?_)
      rcases hops op hop with heq | heq
      · exact heq ▸ ha
      · exact heq ▸ hb
    · obtain ⟨ops, hops, hdiff⟩ :=
        answers_ne_of_clash hfresh (hrefs b hb) (hrefs a ha) (Ne.symm hne) hba
      refine hdiff (h ops fun op hop => ?_)
      rcases hops op hop with heq | heq
      · exact heq ▸ hb
      · exact heq ▸ ha
  · intro hclash ops hops
    exact Holds.answers_eq hrefs hclash hops (hfresh.holds refs)

/-! ## Runs -/

namespace Sample

/-- A store on a disk that compares names by `fold`; DPAPI is left out of it. -/
def host (fold : Name → Name) : Host where
  root := ["secrets".toList, "maya".toList]
  fold := fold
  protect := id
  unprotect := some
  unprotect_protect := fun _ => rfl

/-- As Windows compares them. -/
def lower (name : Name) : Name := name.map Char.toLower

def ref (name : String) : SecretRef where
  name := name.toList

def noFiles : Files := fun _ => none

theorem fresh (fold : Name → Name) : Fresh (host fold) noFiles where
  below _ _ := rfl
  above _ _ _ := nofun

end Sample

open Sample in
/-- What was never written is found under a name in other letters, and a reference cannot be
written below another one. -/
theorem token_found :
    answers (host lower).call noFiles [.write (ref "token") [], .contains (ref "Token")] =
        [.done, .found true] ∧
      answers remembered (fun _ => none) [.write (ref "token") [], .contains (ref "Token")] =
        [.done, .found false] ∧
      answers (host id).call noFiles [.write (ref "a") [], .write (ref "a.secret/b") []] =
        [.done, .error .fileExistsError] ∧
      answers remembered (fun _ => none) [.write (ref "a") [], .write (ref "a.secret/b") []] =
        [.done, .done] := by
  decide +kernel

open Sample in
theorem slack_independent :
    (∀ ops : List Op, (∀ op ∈ ops, op.ref ∈ ({ref "slack/key", ref "slack/token"} : Set SecretRef)) →
        answers (host lower).call noFiles ops = answers remembered (fun _ => none) ops) ↔
      ∀ a ∈ ({ref "slack/key", ref "slack/token"} : Set SecretRef),
        ∀ b ∈ ({ref "slack/key", ref "slack/token"} : Set SecretRef),
          a ≠ b → ¬ (host lower).Clash a b := by
  refine independent_iff (host lower) noFiles (fresh lower) _ ?_
  rintro a (rfl | rfl)
  · decide +kernel
  · decide +kernel

end ProjectMaya.Secrets
