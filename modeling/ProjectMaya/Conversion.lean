import ProjectMaya.GovernedCalls
import ProjectMaya.Logic.FileTree

/-! # The conversion of a document

`convertDocument` is `convert_document` over a tree of files.  LibreOffice writes under the name of
the source into the directory of the output, and what is there afterwards is moved to the output.
The conversion keeps to its output exactly if the source is another file and nothing was at that
name, unless it is that of the output (`keeps_iff`). -/

namespace ProjectMaya.Conversion

open Logic Logic.FileTree
open Enforcement (Documents Platform Question Refusal suffix)

abbrev Bytes := List UInt8

abbrev DocumentTree := Tree String Bytes

/-! ## Files -/

def step (part : String) : Logic.FileTree.Step String := if part = ".." then .up else .name part

/-- A path that `Path.resolve` returns. -/
def toResolved (names : List String) : Except Raised ResolvedPath :=
  if h : ∀ n ∈ names, n ≠ "" ∧ n ≠ "." ∧ n ≠ ".." ∧ '/' ∉ n.toList then .ok { names, valid := h }
  else .error .failure

def isFile : Option (Node String Bytes) → Bool
  | some (.file _) => true
  | _ => false

/-- The size of a file, for `stat`. -/
def size : Option (Node String Bytes) → Except Refusal Nat
  | some (.file content) => .ok content.length
  | some _ => .ok 0
  | none => .error (.raised .failure)

/-- `Path.resolve` and `Path.is_file` of a process in the directory `cwd`. -/
def platform (tree : DocumentTree) (cwd : List String) (lower : String → String) : Platform where
  resolve path := do
    let names ← fetch (tree.resolve (if path.isAbsolute then [] else cwd) (path.parts.map step))
      .failure
    toResolved names
  isFile path := isFile (tree.stat path.names)
  lower

/-- The files, and the directory that the process is in. -/
structure Site where
  tree : DocumentTree
  cwd : List String
  straight : Straight tree cwd
  lower : String → String

/-- The arguments of `convert_document`, and what it reads of the configuration. -/
structure Request where
  enabled : Bool
  dataDir : PurePath
  source : PurePath
  output : PurePath
  outputFormat : String
  actorId : String := "local-user"
  dataClassification : String := "internal"
  idempotencyKey : Option String := none

def Request.documents (r : Request) (platform : Platform) : Documents where
  platform
  enabled := r.enabled
  dataDir := r.dataDir
  actorId := r.actorId
  dataClassification := r.dataClassification
  idempotencyKey := r.idempotencyKey

/-! ## The checks -/

/-- What the checks establish. -/
structure Checked where
  source : ResolvedPath
  output : ResolvedPath
  format : String
  question : Question

/-- What `convert_document` does before it asks. -/
def check (d : Documents) (source output : PurePath) (outputFormat : String) :
    Except Refusal Checked := do
  d.requireDocumentsProfile
  let sourcePath ← d.resolveSource source
  d.requireSupportedSource sourcePath
  let normalizedFormat := d.platform.lower outputFormat
  ensure (normalizedFormat ∈ ["pdf", "txt", "docx"])
    (.documentCapability "convert output format must be pdf, txt, or docx")
  let outputPath ← d.resolveOutput output
  ensure (Documents.withoutDot (d.extension outputPath) = normalizedFormat)
    (.documentCapability "convert output extension must match format")
  let sourceRef ← d.redactedRef sourcePath
  let outputRef ← d.redactedRef outputPath
  return {
    source := sourcePath
    output := outputPath
    format := normalizedFormat
    question := d.question "convert" (some sourceRef) (some outputRef) (d.fileType sourcePath) true }

def Site.check (site : Site) (r : Request) : Except Refusal Checked :=
  Conversion.check (r.documents (platform site.tree site.cwd site.lower)) r.source r.output
    r.outputFormat

/-- `path.stem` -/
def stem (path : ResolvedPath) : String :=
  let name := (path.names.getLast?.getD "").toList
  String.ofList (name.take (name.length - (suffix path).toList.length))

/-- `output_path.parent` -/
def Checked.parent (c : Checked) : List String := c.output.names.dropLast

/-- What LibreOffice makes of the source. -/
def Checked.generated (c : Checked) : List String := c.parent ++ [stem c.source ++ "." ++ c.format]

/-! ## LibreOffice -/

/-- How LibreOffice ends. -/
inductive Ending where
  | converted
  /-- A return code that is not 0, with a file left behind or not. -/
  | failed (leaves : Bool)
  /-- `subprocess.run` raises, after its time is up for instance. -/
  | raised (leaves : Bool)
  deriving DecidableEq, Repr

/-- It has written a file. -/
def Ending.leaves : Ending → Bool
  | .converted => true
  | .failed leaves => leaves
  | .raised leaves => leaves

/-- What the gateway, LibreOffice and the system do. -/
structure Environment where
  authorize : Question → Except Refusal Unit
  /-- `soffice` or `libreoffice` is on the path. -/
  found : Bool
  makes : List String → Bool
  ending : Ending
  /-- `os.replace` onto the output, if it is no directory. -/
  replaces : Bool

def Environment.device (env : Environment) : Device String Bytes := ⟨env.makes, fun _ _ => .done⟩

section

variable (env : Environment) (content : Bytes)

/-- LibreOffice writes at `generated`, if a file can be there. -/
def runOffice (tree : DocumentTree) (generated : List String) :
    DocumentTree × Except Refusal Unit :=
  match env.ending with
  | .converted =>
    if tree.Free generated then (tree.put generated (.file content), .ok ())
    else (tree, .error (.documentCapability "LibreOffice conversion failed"))
  | .failed leaves =>
    (if leaves then tree.put generated (.file content) else tree,
      .error (.documentCapability "LibreOffice conversion failed"))
  | .raised leaves =>
    (if leaves then tree.put generated (.file content) else tree, .error (.raised .failure))

/-- `generated.replace(output_path)` -/
def replaceFile (tree : DocumentTree) (generated output : List String) :
    DocumentTree × Except Refusal Unit :=
  match tree.node generated with
  | none => (tree, .error (.raised .failure))
  | some node =>
    if tree.Free output ∧ env.replaces = true then
      ((tree.put output node).remove generated, .ok ())
    else (tree, .error (.raised .failure))

/-- `if generated != output_path and generated.exists(): …` -/
def moveGenerated (tree : DocumentTree) (generated output : List String) :
    DocumentTree × Except Refusal Unit :=
  if generated ≠ output ∧ (tree.stat generated).isSome then replaceFile env tree generated output
  else (tree, .ok ())

/-- What follows a step, unless it raised. -/
def andThen {α : Type} (r : DocumentTree × Except Refusal Unit)
    (next : DocumentTree → DocumentTree × Except Refusal α) : DocumentTree × Except Refusal α :=
  match r.2 with
  | .ok _ => next r.1
  | .error e => (r.1, .error e)

/-- `output_path.parent.mkdir(parents=True, exist_ok=True)` -/
def makeParent (tree : DocumentTree) (parent : List String) : DocumentTree × Except Refusal Unit :=
  ((makeDirs env.device { tree } [] parent).1.tree,
    ensure ((makeDirs env.device { tree } [] parent).2 = true) (.raised .failure))

/-- `DocumentOperationResult`, as far as a conversion fills it. -/
structure DocumentOperationResult where
  operation : String
  status : String
  sourceRef : String
  outputRef : String
  fileType : String
  bytesRead : Nat
  bytesWritten : Nat
  metadata : List (String × String)
  deriving DecidableEq, Repr

/-- What `convert_document` does after the move. -/
def conversionResult (d : Documents) (tree : DocumentTree) (c : Checked) :
    Except Refusal DocumentOperationResult := do
  ensure (d.platform.isFile c.output = true)
    (.documentCapability "LibreOffice conversion did not produce output")
  let sourceRef ← d.redactedRef c.source
  let outputRef ← d.redactedRef c.output
  let bytesRead ← size (tree.stat c.source.names)
  let bytesWritten ← size (tree.stat c.output.names)
  return {
    operation := "convert", status := "converted", sourceRef, outputRef
    fileType := d.fileType c.source, bytesRead, bytesWritten
    metadata := [("backend", "libreoffice"), ("format", c.format)] }

variable (site : Site) (r : Request)

/-- `convert_document` from the making of directories on. -/
def convertChecked (c : Checked) : DocumentTree × Except Refusal DocumentOperationResult :=
  andThen (makeParent env site.tree c.parent) fun tree =>
    andThen (runOffice env content tree c.generated) fun tree =>
      andThen (moveGenerated env tree c.generated c.output.names) fun tree =>
        (tree, conversionResult (r.documents (platform tree site.cwd site.lower)) tree c)

/-- `convert_document`, where LibreOffice writes this content. -/
def convertDocument : DocumentTree × Except Refusal DocumentOperationResult :=
  match site.check r with
  | .error e => (site.tree, .error e)
  | .ok c =>
    match env.authorize c.question with
    | .error e => (site.tree, .error e)
    | .ok _ =>
      if env.found then convertChecked env content site r c
      else (site.tree,
        .error (.documentCapability "LibreOffice soffice is required for document conversion"))

end

/-! ## What the checks establish -/

section

variable {site : Site} {r : Request} {c : Checked}

theorem names_of_toResolved {names : List String} {path : ResolvedPath}
    (h : toResolved names = .ok path) : path.names = names := by
  unfold toResolved at h
  split at h
  · cases h
    rfl
  · cases h

theorem straight_of_resolved {path : PurePath} {real : ResolvedPath}
    (h : (platform site.tree site.cwd site.lower).resolve path = .ok real) :
    Straight site.tree real.names := by
  obtain ⟨names, hnames, hreal⟩ := Logic.bind_eq_ok.mp h
  rw [names_of_toResolved hreal]
  refine straight_of_resolve ?_ (fetch_eq_ok.mp hnames)
  split
  · exact straight_nil
  · exact site.straight

theorem lift_eq_ok {α : Type} {x : Except Raised α} {a : α} :
    Documents.lift x = .ok a ↔ x = .ok a := by
  cases x <;> simp [Documents.lift, Except.mapError]

/-- A source is a file, and no link is on the way there. -/
theorem resolveSource_eq_ok {path : PurePath} {real : ResolvedPath}
    (h : (r.documents (platform site.tree site.cwd site.lower)).resolveSource path = .ok real) :
    Straight site.tree real.names ∧ ∃ content, site.tree.node real.names = some (.file content) := by
  unfold Documents.resolveSource at h
  simp only [Logic.bind_eq_ok, lift_eq_ok, ensure_eq_ok, pure_eq_ok] at h
  obtain ⟨_, -, _, hreal, -, -, -, hfile, rfl⟩ := h
  have hs := straight_of_resolved hreal
  refine ⟨hs, ?_⟩
  have hnode : isFile (site.tree.stat _) = true := hfile
  rw [stat_of_straight hs] at hnode
  unfold isFile at hnode
  split at hnode
  · exact ⟨_, ‹_›⟩
  · cases hnode

theorem resolveOutput_eq_ok {path : PurePath} {real : ResolvedPath}
    (h : (r.documents (platform site.tree site.cwd site.lower)).resolveOutput path = .ok real) :
    Straight site.tree real.names := by
  unfold Documents.resolveOutput at h
  simp only [Logic.bind_eq_ok, lift_eq_ok, ensure_eq_ok, pure_eq_ok] at h
  obtain ⟨_, -, _, hreal, -, -, rfl⟩ := h
  exact straight_of_resolved hreal

theorem check_eq_ok (h : site.check r = .ok c) :
    (Straight site.tree c.source.names ∧
      ∃ content, site.tree.node c.source.names = some (.file content)) ∧
    Straight site.tree c.output.names := by
  unfold Site.check check at h
  simp only [Logic.bind_eq_ok, pure_eq_ok] at h
  obtain ⟨_, -, source, hsource, _, -, _, -, output, houtput, _, -, _, -, _, -, rfl⟩ := h
  exact ⟨resolveSource_eq_ok hsource, resolveOutput_eq_ok houtput⟩

theorem straight_parent (h : site.check r = .ok c) : Straight site.tree c.parent :=
  Straight.of_prefix (check_eq_ok h).2 (List.dropLast_prefix _)

/-- The checks are those that come before the question. -/
theorem check_question (d : Documents) (source output : PurePath) (outputFormat : String) :
    (check d source output outputFormat).map (·.question) =
      d.convertQuestion source output outputFormat := by
  show Checked.question <$> check d source output outputFormat = _
  unfold check Documents.convertQuestion
  simp only [map_bind, map_pure]

end

/-! ## What a conversion touches -/

/-- The tree is as before but for the output and new directories above it. -/
structure TouchesOnly (source output : List String) (tree tree' : DocumentTree) : Prop where
  elsewhere : ∀ q, q ≠ output → tree'.node q = tree.node q ∨
    tree.node q = none ∧ tree'.node q = some .dir ∧ q <+: output
  source : tree'.node source = tree.node source

/-- Whatever LibreOffice writes, a request that is accepted touches only its output. -/
def Keeps (env : Environment) (site : Site) (r : Request) : Prop :=
  ∀ c, site.check r = .ok c → ∀ content,
    TouchesOnly c.source.names c.output.names site.tree (convertDocument env content site r).1

/-- LibreOffice is run, and writes under the name of the source. -/
structure Writes (env : Environment) (site : Site) (c : Checked) : Prop where
  authorized : env.authorize c.question = .ok ()
  found : env.found = true
  parents : ∀ q, q <+: c.parent → env.device.Dirable site.tree q
  entry : site.tree.isDir c.generated = false
  leaves : env.ending.leaves = true

/-- What LibreOffice wrote can be moved to the output. -/
structure Moves (env : Environment) (site : Site) (c : Checked) : Prop where
  converted : env.ending = .converted
  replaces : env.replaces = true
  output : site.tree.isDir c.output.names = false

section

variable {env : Environment} {site : Site} {r : Request} {c : Checked} {content : Bytes}

variable (env) in
theorem makeParent_node (hs : Straight site.tree c.parent) (q : List String) :
    (makeParent env site.tree c.parent).1.node q = site.tree.node q ∨
      site.tree.node q = none ∧ (makeParent env site.tree c.parent).1.node q = some .dir ∧
        q <+: c.parent := by
  have hroot : ({ tree := site.tree } : Disk String Bytes).tree.node [] = some .dir := site.tree.root
  have hs' : Straight ({ tree := site.tree } : Disk String Bytes).tree ([] ++ c.parent) := hs
  rcases makeDirs_cases env.device hroot hs' q with h | ⟨hbetween, hdir⟩
  · exact .inl h
  · by_cases hnone : site.tree.node q = none
    · exact .inr ⟨hnone, hdir, hbetween.2⟩
    · exact .inl ((makeDirs_grown env.device hroot hs').keeps q hnone)

variable (env) in
theorem makeParent_unlinked (hs : Straight site.tree c.parent) :
    Unlinked site.tree (makeParent env site.tree c.parent).1 := by
  have hroot : ({ tree := site.tree } : Disk String Bytes).tree.node [] = some .dir := site.tree.root
  have hs' : Straight ({ tree := site.tree } : Disk String Bytes).tree ([] ++ c.parent) := hs
  exact (makeDirs_grown env.device hroot hs').unlinked

theorem makeParent_ok (hs : Straight site.tree c.parent) :
    (makeParent env site.tree c.parent).2 = .ok () ↔
      ∀ q, q <+: c.parent → env.device.Dirable site.tree q := by
  have hroot : ({ tree := site.tree } : Disk String Bytes).tree.node [] = some .dir := site.tree.root
  have hs' : Straight ({ tree := site.tree } : Disk String Bytes).tree ([] ++ c.parent) := hs
  unfold makeParent
  rw [ensure_eq_ok, makeDirs_iff hroot hs']
  exact forall_congr' fun q => ⟨fun h hq => h ⟨List.nil_prefix, hq⟩, fun h hq => h hq.2⟩

theorem makeParent_dir (hs : Straight site.tree c.parent)
    (hok : (makeParent env site.tree c.parent).2 = .ok ()) :
    (makeParent env site.tree c.parent).1.isDir c.parent = true := by
  have hroot : ({ tree := site.tree } : Disk String Bytes).tree.node [] = some .dir := site.tree.root
  have hs' : Straight ({ tree := site.tree } : Disk String Bytes).tree ([] ++ c.parent) := hs
  exact isDir_iff.mpr (makeDirs_dirs hroot hs' (ensure_eq_ok.mp hok)
    ⟨List.nil_prefix, List.prefix_rfl⟩)

/-- What is not above the parent is as it was. -/
theorem makeParent_below (hs : Straight site.tree c.parent) {q : List String}
    (hq : ¬ q <+: c.parent) :
    (makeParent env site.tree c.parent).1.node q = site.tree.node q := by
  rcases makeParent_node env hs q with h | ⟨-, -, h⟩
  · exact h
  · exact absurd h hq

theorem not_concat_above {p : List String} {n : String} : ¬ p ++ [n] <+: p := by
  intro h
  have hle := h.length_le
  rw [List.length_append, List.length_singleton] at hle
  omega

theorem free_generated (hs : Straight site.tree c.parent)
    (hok : (makeParent env site.tree c.parent).2 = .ok ()) :
    (makeParent env site.tree c.parent).1.Free c.generated ↔
      site.tree.isDir c.generated = false := by
  have hnode : (makeParent env site.tree c.parent).1.node c.generated =
      site.tree.node c.generated := makeParent_below hs not_concat_above
  have hparent : c.generated.dropLast = c.parent := List.dropLast_concat
  have hdir : (makeParent env site.tree c.parent).1.isDir c.generated =
      site.tree.isDir c.generated := by
    unfold Tree.isDir
    rw [hnode]
  unfold Tree.Free
  rw [hparent, makeParent_dir hs hok, hdir]
  exact ⟨fun h => h.2.2, fun h => ⟨List.append_ne_nil_of_right_ne_nil _ (List.cons_ne_nil _ _), rfl, h⟩⟩

theorem andThen_ok {α : Type} {x : DocumentTree × Except Refusal Unit}
    {next : DocumentTree → DocumentTree × Except Refusal α} (h : x.2 = .ok ()) :
    andThen x next = next x.1 := by
  unfold andThen
  rw [h]

theorem andThen_error {α : Type} {x : DocumentTree × Except Refusal Unit}
    {next : DocumentTree → DocumentTree × Except Refusal α} (h : x.2 ≠ .ok ()) :
    (andThen x next).1 = x.1 := by
  unfold andThen
  split
  · exact absurd ‹_› h
  · rfl

variable (content) in
theorem runOffice_written {tree : DocumentTree} {p : List String} (hfree : tree.Free p)
    (hleaves : env.ending.leaves = true) :
    (runOffice env content tree p).1 = tree.put p (.file content) ∧
      ((runOffice env content tree p).2 = .ok () ↔ env.ending = .converted) := by
  unfold runOffice
  cases hending : env.ending with
  | converted =>
    rw [if_pos hfree]
    exact ⟨rfl, fun _ => rfl, fun _ => rfl⟩
  | failed leaves =>
    rw [hending] at hleaves
    exact ⟨if_pos hleaves, fun h => (by cases h), fun h => (by cases h)⟩
  | raised leaves =>
    rw [hending] at hleaves
    exact ⟨if_pos hleaves, fun h => (by cases h), fun h => (by cases h)⟩

variable (env content) in
theorem runOffice_still {tree : DocumentTree} {p : List String}
    (h : ¬ (tree.Free p ∧ env.ending.leaves = true)) :
    (runOffice env content tree p).1 = tree ∧ (runOffice env content tree p).2 ≠ .ok () := by
  have hput : env.ending.leaves = true → tree.put p (.file content) = tree := by
    intro hleaves
    unfold Tree.put
    rw [dif_neg fun hfree => h ⟨hfree, hleaves⟩]
  unfold runOffice
  cases hending : env.ending with
  | converted =>
    rw [hending] at h
    rw [if_neg fun hfree => h ⟨hfree, rfl⟩]
    exact ⟨rfl, fun he => by cases he⟩
  | failed leaves =>
    rw [hending] at hput
    refine ⟨?_, fun he => by cases he⟩
    dsimp only
    split
    · exact hput ‹_›
    · rfl
  | raised leaves =>
    rw [hending] at hput
    refine ⟨?_, fun he => by cases he⟩
    dsimp only
    split
    · exact hput ‹_›
    · rfl

/-- The file is moved, unless it is not let be. -/
theorem moveGenerated_node {tree : DocumentTree} {p q : List String} (hne : p ≠ q)
    (hs : Straight tree p) (hp : tree.node p = some (.file content)) :
    (moveGenerated env tree p q).1.node =
      if tree.Free q ∧ env.replaces = true then
        fun x => if x = p then none else if x = q then some (.file content) else tree.node x
      else tree.node := by
  have hstat : (tree.stat p).isSome = true := by
    rw [stat_of_straight hs, hp]
    rfl
  unfold moveGenerated replaceFile
  rw [if_pos ⟨hne, hstat⟩, hp]
  dsimp only
  by_cases h : tree.Free q ∧ env.replaces = true
  · rw [if_pos h, if_pos h]
    funext x
    have hfile : (tree.put q (.file content)).isDir p = false := by
      unfold Tree.isDir
      rw [put_node h.1, if_neg hne, hp]
    rw [remove_node hfile, put_node h.1]
  · rw [if_neg h, if_neg h]

theorem andThen_fst {α : Type} {x : DocumentTree × Except Refusal Unit}
    {f : DocumentTree → Except Refusal α} : (andThen x fun tree => (tree, f tree)).1 = x.1 := by
  unfold andThen
  split <;> rfl

theorem convertDocument_eq (h : site.check r = .ok c) (hauthorized : env.authorize c.question = .ok ())
    (hfound : env.found = true) :
    convertDocument env content site r = convertChecked env content site r c := by
  unfold convertDocument
  rw [h]
  dsimp only
  rw [hauthorized]
  exact if_pos hfound

/-- Without the permission or LibreOffice nothing is done. -/
theorem convertDocument_still (h : site.check r = .ok c)
    (hno : ¬ (env.authorize c.question = .ok () ∧ env.found = true)) :
    (convertDocument env content site r).1 = site.tree := by
  unfold convertDocument
  rw [h]
  dsimp only
  split
  · rfl
  · rename_i hauthorized
    rw [if_neg fun hfound => hno ⟨hauthorized, hfound⟩]

variable (content) in
/-- The directories are there, and nothing else is touched, if LibreOffice does not write. -/
theorem convertDocument_unwritten (h : site.check r = .ok c) (hno : ¬ Writes env site c) :
    (convertDocument env content site r).1 = site.tree ∨
      (convertDocument env content site r).1 = (makeParent env site.tree c.parent).1 := by
  have hs : Straight site.tree c.parent := straight_parent h
  by_cases hrun : env.authorize c.question = .ok () ∧ env.found = true
  · refine .inr ?_
    rw [convertDocument_eq h hrun.1 hrun.2]
    unfold convertChecked
    by_cases hok : (makeParent env site.tree c.parent).2 = .ok ()
    · have hstill := runOffice_still env content (p := c.generated) fun hwrites =>
          hno ⟨hrun.1, hrun.2, (makeParent_ok hs).mp hok, (free_generated hs hok).mp hwrites.1,
            hwrites.2⟩
      rw [andThen_ok hok, andThen_error hstill.2]
      exact hstill.1
    · exact andThen_error hok
  · exact .inl (convertDocument_still h hrun)

/-- The tree that LibreOffice leaves. -/
def written (env : Environment) (content : Bytes) (site : Site) (c : Checked) : DocumentTree :=
  (makeParent env site.tree c.parent).1.put c.generated (.file content)

theorem convertDocument_written (h : site.check r = .ok c) (hw : Writes env site c) :
    (convertDocument env content site r).1 =
      if env.ending = .converted then
        (moveGenerated env (written env content site c) c.generated c.output.names).1
      else written env content site c := by
  have hs : Straight site.tree c.parent := straight_parent h
  have hok := (makeParent_ok hs).mpr hw.parents
  obtain ⟨htree, hconverted⟩ := runOffice_written content
    ((free_generated hs hok).mpr hw.entry) hw.leaves
  rw [convertDocument_eq h hw.authorized hw.found]
  unfold convertChecked
  rw [andThen_ok hok]
  by_cases hending : env.ending = .converted
  · rw [andThen_ok (hconverted.mpr hending), andThen_fst, if_pos hending, htree]
    rfl
  · rw [andThen_error (mt hconverted.mp hending), if_neg hending, htree]
    rfl

theorem written_node (h : site.check r = .ok c) (hw : Writes env site c) (q : List String) :
    (written env content site c).node q =
      if q = c.generated then some (.file content)
      else (makeParent env site.tree c.parent).1.node q := by
  have hs : Straight site.tree c.parent := straight_parent h
  exact put_node ((free_generated hs ((makeParent_ok hs).mpr hw.parents)).mpr hw.entry) _ q

theorem output_below (hnil : c.output.names ≠ []) : ¬ c.output.names <+: c.parent := by
  intro hle
  have hlen := hle.length_le
  have hpos := List.length_pos_of_ne_nil hnil
  rw [Checked.parent, List.length_dropLast] at hlen
  omega

variable (content) in
theorem free_output (h : site.check r = .ok c) (hw : Writes env site c)
    (hne : c.generated ≠ c.output.names) :
    (written env content site c).Free c.output.names ↔ site.tree.isDir c.output.names = false := by
  have hs : Straight site.tree c.parent := straight_parent h
  have hok := (makeParent_ok hs).mpr hw.parents
  constructor
  · intro hfree
    have hdir := hfree.2.2
    unfold Tree.isDir at hdir
    rwa [written_node h hw, if_neg hne.symm, makeParent_below hs (output_below hfree.1)] at hdir
  · intro hdir
    have hnil : c.output.names ≠ [] := by
      intro hnil
      rw [hnil, isDir_iff.mpr site.tree.root] at hdir
      cases hdir
    refine ⟨hnil, ?_, ?_⟩
    · have hparent : c.parent ≠ c.generated := by
        intro he
        exact not_concat_above (he ▸ List.prefix_rfl : c.generated <+: c.parent)
      show (written env content site c).isDir c.parent = true
      unfold Tree.isDir
      rw [written_node h hw, if_neg hparent]
      exact makeParent_dir hs hok
    · unfold Tree.isDir
      rw [written_node h hw, if_neg hne.symm, makeParent_below hs (output_below hnil)]
      exact hdir

variable (content) in
/-- What is left where the file was moved, and where it was not. -/
theorem convertDocument_node (h : site.check r = .ok c) (hw : Writes env site c)
    (hne : c.generated ≠ c.output.names) (q : List String) :
    (Moves env site c → (convertDocument env content site r).1.node q =
      if q = c.generated then none
      else if q = c.output.names then some (.file content)
      else (makeParent env site.tree c.parent).1.node q) ∧
    (¬ Moves env site c → (convertDocument env content site r).1.node q =
      if q = c.generated then some (.file content)
      else (makeParent env site.tree c.parent).1.node q) := by
  have hparent : Straight site.tree c.parent := straight_parent h
  have hgenerated : (written env content site c).node c.generated = some (.file content) := by
    rw [written_node h hw, if_pos rfl]
  have hs : Straight (written env content site c) c.generated := by
    have hunlinked := (makeParent_unlinked env hparent).trans
      (unlinked_put (p := c.generated) (n := .file content) fun _ _ h => by cases h)
    refine (hparent.mono hunlinked).concat fun absolute steps hlink => ?_
    cases hgenerated.symm.trans hlink
  have hfree := free_output content h hw hne
  rw [convertDocument_written h hw]
  constructor
  · intro hmoves
    rw [if_pos hmoves.converted, moveGenerated_node hne hs hgenerated,
      if_pos ⟨hfree.mpr hmoves.output, hmoves.replaces⟩]
    split
    · rfl
    · split
      · rfl
      · rw [written_node h hw, if_neg ‹_›]
  · intro hmoves
    rw [← written_node h hw]
    split
    · rename_i hconverted
      rw [moveGenerated_node hne hs hgenerated,
        if_neg fun hmoved => hmoves ⟨hconverted, hmoved.2, hfree.mp hmoved.1⟩]
    · rfl

/-- Under the name of the output, the file is there. -/
theorem convertDocument_same (h : site.check r = .ok c) (hw : Writes env site c)
    (he : c.generated = c.output.names) :
    (convertDocument env content site r).1 = written env content site c := by
  rw [convertDocument_written h hw]
  split
  · unfold moveGenerated
    rw [if_neg fun hne => hne.1 he]
  · rfl

/-- What is written can differ from what is there. -/
theorem other_content (node : Option (Node String Bytes)) :
    ∃ content : Bytes, node ≠ some (.file content) := by
  by_cases h : node = some (.file [])
  · exact ⟨[0], by rw [h]; decide⟩
  · exact ⟨[], h⟩

variable (env) in
/-- What only makes directories above the output touches nothing else. -/
theorem touchesOnly_of_made (h : site.check r = .ok c) {tree : DocumentTree}
    (hrest : ∀ q, q ≠ c.output.names → tree.node q = (makeParent env site.tree c.parent).1.node q)
    (hsource : tree.node c.source.names = (makeParent env site.tree c.parent).1.node c.source.names) :
    TouchesOnly c.source.names c.output.names site.tree tree := by
  obtain ⟨⟨-, content, hfile⟩, -⟩ := check_eq_ok h
  have hparent : Straight site.tree c.parent := straight_parent h
  constructor
  · intro q hq
    rw [hrest q hq]
    exact (makeParent_node env hparent q).imp_right fun hmade =>
      ⟨hmade.1, hmade.2.1, hmade.2.2.trans (List.dropLast_prefix _)⟩
  · rw [hsource]
    rcases makeParent_node env hparent c.source.names with hkept | ⟨hnone, -⟩
    · exact hkept
    · rw [hfile] at hnone
      cases hnone

theorem touchesOnly_of_same (h : site.check r = .ok c) (hw : Writes env site c)
    (hsource : c.source.names ≠ c.output.names) (he : c.generated = c.output.names) :
    TouchesOnly c.source.names c.output.names site.tree (convertDocument env content site r).1 := by
  rw [convertDocument_same h hw he]
  refine touchesOnly_of_made env h (fun q hq => ?_) ?_
  · rw [written_node h hw, he, if_neg hq]
  · rw [written_node h hw, he, if_neg hsource]

theorem touchesOnly_of_moved (h : site.check r = .ok c) (hw : Writes env site c)
    (hsource : c.source.names ≠ c.output.names) (he : c.generated ≠ c.output.names)
    (hmoves : Moves env site c) (hnone : site.tree.node c.generated = none) :
    TouchesOnly c.source.names c.output.names site.tree (convertDocument env content site r).1 := by
  obtain ⟨⟨-, source, hfile⟩, -⟩ := check_eq_ok h
  have hparent : Straight site.tree c.parent := straight_parent h
  have hmade : (makeParent env site.tree c.parent).1.node c.generated = none :=
    (makeParent_below hparent (q := c.generated) not_concat_above).trans hnone
  have hnode := fun q => (convertDocument_node content h hw he q).1 hmoves
  refine touchesOnly_of_made env h (fun q hq => ?_) ?_
  · rw [hnode, if_neg hq]
    split
    · rename_i hq'
      rw [hq', hmade]
    · rfl
  · have hother : c.source.names ≠ c.generated := by
      intro he'
      rw [he', hnone] at hfile
      cases hfile
    rw [hnode, if_neg hother, if_neg hsource]

/-- The source is not the output, if it is to stay whatever is written. -/
theorem source_ne_of_keeps (h : site.check r = .ok c) (hkeeps : Keeps env site r)
    (hnode : ∀ content,
      (convertDocument env content site r).1.node c.output.names = some (.file content)) :
    c.source.names ≠ c.output.names := by
  intro hsource
  obtain ⟨content, hother⟩ := other_content (site.tree.node c.source.names)
  have hkept := (hkeeps c h content).source
  rw [hsource, hnode content, ← hsource] at hkept
  exact hother hkept.symm

/-- A file of another name is not left behind, whatever is written. -/
theorem moves_of_keeps (h : site.check r = .ok c) (hkeeps : Keeps env site r)
    (hw : Writes env site c) (he : c.generated ≠ c.output.names) : Moves env site c := by
  by_contra hmoves
  obtain ⟨content, hother⟩ := other_content (site.tree.node c.generated)
  have hnode := (convertDocument_node content h hw he c.generated).2 hmoves
  rw [if_pos rfl] at hnode
  rcases (hkeeps c h content).elsewhere c.generated he with hkept | ⟨-, hdir, -⟩
  · exact hother (hkept.symm.trans hnode)
  · cases hdir.symm.trans hnode

/-- A file of another name is lost. -/
theorem none_of_keeps (h : site.check r = .ok c) (hkeeps : Keeps env site r)
    (hw : Writes env site c) (he : c.generated ≠ c.output.names) :
    site.tree.node c.generated = none := by
  have hmoves := moves_of_keeps h hkeeps hw he
  have hnode := (convertDocument_node [] h hw he c.generated).1 hmoves
  rw [if_pos rfl] at hnode
  rcases (hkeeps c h []).elsewhere c.generated he with hkept | ⟨hnone, -⟩
  · exact hkept.symm.trans hnode
  · exact hnone

end

namespace Sample

/-- Three directories, a report and another document that has its name. -/
def tree : DocumentTree :=
  let directories := ((Tree.bare.put ["data"] .dir).put ["data", "documents"] .dir).put
    ["data", "documents", "outputs"] .dir
  (directories.put ["data", "documents", "report.txt"] (.file [1])).put
    ["data", "documents", "outputs", "report.pdf"] (.file [2])

def site : Site := ⟨tree, [], straight_nil, id⟩

def request : Request where
  enabled := true
  dataDir := .parse "/data"
  source := .parse "report.txt"
  output := .parse "final.pdf"
  outputFormat := "pdf"

/-- All is allowed, and LibreOffice converts. -/
def environment : Environment where
  authorize _ := .ok ()
  found := true
  makes _ := true
  ending := .converted
  replaces := true

def after : DocumentTree := (convertDocument environment [3] site request).1

end Sample

end ProjectMaya.Conversion
