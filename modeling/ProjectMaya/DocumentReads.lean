import ProjectMaya.Conversion

/-! # What a document operation reads and writes

`extract_pdf_text` and `convert_document`, with what they do to the documents once the gateway has
let them pass.  It is asked once, about the output if there is one and about the source else, and
that permission stands for both (`events_permitted`). -/

namespace ProjectMaya.DocumentReads

open Logic
open Enforcement (Documents Platform Question Refusal record)

/-! ## The environment -/

/-- A gateway that decides by the capability, the operation and the target of a request. -/
structure Gateway where
  policy : String → String → String → Bool
  answer : ActionRequest → Except Raised AuthorizationResult
  decides : ∀ action result, answer action = .ok result →
    result.allowed = policy action.capability action.operation action.target

/-- It would allow the operation on this target. -/
def Gateway.Allows (g : Gateway) (operation target : String) : Prop :=
  g.policy ("documents." ++ operation) operation target = true

/-- What has happened in a call, oldest first. -/
inductive Event where
  /-- `audit_sink.write` returned. -/
  | audited (record : AuditRecord)
  /-- The content of a file was read. -/
  | read (path : ResolvedPath)
  /-- A file was written, or moved there. -/
  | wrote (names : List String)
  deriving DecidableEq, Repr

def Event.isRead : Event → Bool
  | .read _ => true
  | _ => false

/-- How the environment answers at one action. -/
structure Choice where
  audit : Except Raised Unit := .ok ()
  pages : List String := []
  found : Bool := true
  /-- What a step raises, after so many of the files that it uses. -/
  fault : Option Refusal := none
  reached : Nat := 0

instance : Inhabited Choice := ⟨{}⟩

abbrev Act (β : Type) := Action Choice Unit (List Event) Refusal β

abbrev Code (α : Type) := Prog Choice Unit (List Event) Refusal α

namespace Act

/-- `gateway.authorize(action)` -/
def ask (g : Gateway) (action : ActionRequest) : Act AuthorizationResult where
  next _ s t := ((g.answer action).mapError .raised, s, t)

/-- `audit_sink.write(record)` -/
def audit (record : AuditRecord) : Act Unit where
  next c s t :=
    match c.audit with
    | .ok () => (.ok (), s, t ++ [.audited record])
    | .error e => (.error (.raised e), s, t)

/-- A step that uses these files, in this order. -/
def use {β : Type} (events : List Event) (result : Choice → β) : Act β where
  next c s t :=
    match c.fault with
    | none => (.ok (result c), s, t ++ events)
    | some e => (.error e, s, t ++ events.take c.reached)

end Act

/-! ## The operations -/

section

variable (g : Gateway) (d : Documents)

/-- `if result.audit_required: audit_sink.write(…)` -/
def audit (q : Question) (result : AuthorizationResult) : Code Unit :=
  if result.auditRequired then .perform (Act.audit (record q.1 q.2 result)) else pure ()

/-- The second half of `_authorize_document_action`. -/
def authorize (q : Question) : Code Unit := do
  let result ← .perform (Act.ask g q.2)
  audit q result
  Prog.raiseIf (!result.allowed) (.actionDenied result.reasonCode)

/-- A step that uses no file but may raise. -/
def quietly : Code Unit := .perform (Act.use [] fun _ => ())

/-- What an accepted call works on, and what it asks. -/
structure Checked where
  source : ResolvedPath
  output : Option ResolvedPath
  question : Question

/-- What `extract_pdf_text` does before it asks. -/
def checkExtract (source : PurePath) (output : Option PurePath) : Except Refusal Checked := do
  d.requireDocumentsProfile
  let sourcePath ← d.resolveSource source
  let outputPath ← Documents.optional output d.resolveOutput
  ensure (d.extension sourcePath = ".pdf")
    (.documentCapability "extract-text supports PDF sources only")
  ensure (∀ path ∈ outputPath, d.extension path = ".txt")
    (.documentCapability "extract-text output must end with .txt")
  let sourceRef ← d.redactedRef sourcePath
  let outputRef ← Documents.optional outputPath d.redactedRef
  return {
    source := sourcePath
    output := outputPath
    question := d.question "extract-text" (some sourceRef) outputRef "pdf" outputPath.isSome }

/-- `output_path.parent.mkdir(…)` and `output_path.write_text(…)` -/
def writeText : Option ResolvedPath → Code Unit
  | none => pure ()
  | some output => do
    quietly
    .perform (Act.use [.wrote output.names] fun _ => ())

/-- `extract_pdf_text`, which returns the text. -/
def extractPdfText (source : PurePath) (output : Option PurePath) : Code String := do
  let c ← .done (checkExtract d source output)
  authorize g c.question
  quietly
  let pages ← .perform (Act.use [.read c.source] fun choice => choice.pages)
  writeText c.output
  quietly
  return "\n".intercalate pages

/-- `if generated != output_path and generated.exists(): generated.replace(output_path)` -/
def moveGenerated (generated output : List String) : Code Unit := do
  let found ← .perform (Act.use [] fun choice => choice.found)
  if generated ≠ output ∧ found = true then .perform (Act.use [.wrote output] fun _ => ())
  else pure ()

/-- `convert_document` -/
def convertDocument (source output : PurePath) (outputFormat : String) : Code Unit := do
  let c ← .done (Conversion.check d source output outputFormat)
  authorize g c.question
  quietly
  quietly
  .perform (Act.use [.read c.source, .wrote c.generated] fun _ => ())
  moveGenerated c.generated c.output.names
  quietly

/-- A call of one of the two, but for its source. -/
inductive Call where
  | extractText (output : Option PurePath)
  | convert (output : PurePath) (outputFormat : String)

def Call.operation : Call → String
  | .extractText _ => "extract-text"
  | .convert _ _ => "convert"

def Call.check (source : PurePath) : Call → Except Refusal Checked
  | .extractText output => checkExtract d source output
  | .convert output outputFormat =>
    (Conversion.check d source output outputFormat).map fun c =>
      { source := c.source, output := some c.output, question := c.question }

/-- A call that the environment stops has done what it has done. -/
def stopped (s : Unit) (t : List Event) : Unit × List Event := (s, t)

/-- What happens in a call, wherever the environment stops it. -/
def Call.events (source : PurePath) (moves : List (Move Choice)) : Call → List Event
  | .extractText output => ((extractPdfText g d source output).run stopped moves () []).loc
  | .convert output outputFormat =>
    ((convertDocument g d source output outputFormat).run stopped moves () []).loc

end

/-! ## One permission for both -/

/-- What has to be permitted for an event: a target is the output, if there is one. -/
def Permitted (g : Gateway) (d : Documents) (operation : String) (c : Checked) : Event → Prop
  | .audited _ => True
  | .read path => path = c.source ∧
    ∃ ref, d.redactedRef (c.output.getD c.source) = .ok ref ∧ g.Allows operation ref
  | .wrote _ => ∃ output ref, c.output = some output ∧ d.redactedRef output = .ok ref ∧
    g.Allows operation ref

/-- Whatever happens has the property. -/
def contract (P : Event → Prop) : Contract Unit (List Event) where
  rely _ _ _ := True
  guar _ t _ t' := ∃ more, t' = t ++ more ∧ ∀ e ∈ more, P e

section

variable {P : Event → Prop} {g : Gateway} {d : Documents} {s : Unit} {t : List Event}

theorem wp_use {β : Type} {events : List Event} {result : Choice → β} (h : ∀ e ∈ events, P e) :
    wp (contract P) (.perform (Act.use events result)) (Returns fun _ _ _ => True) s t := by
  refine wp_perform fun s' _ c => ⟨?_, fun _ _ => trivial⟩
  cases hfault : c.fault with
  | none =>
    simp only [Act.use, hfault]
    exact ⟨events, rfl, h⟩
  | some e =>
    simp only [Act.use, hfault]
    exact ⟨_, rfl, fun e he => h e (List.mem_of_mem_take he)⟩

theorem wp_quietly : wp (contract P) quietly (Returns fun _ _ _ => True) s t :=
  wp_use fun e he => by cases he

/-- Only an allow goes on. -/
theorem wp_authorize (haudit : ∀ record, P (.audited record)) (q : Question) :
    wp (contract P) (authorize g q)
      (Returns fun _ _ _ => g.policy q.2.capability q.2.operation q.2.target = true) s t := by
  refine returns_bind (P := fun result _ _ => g.answer q.2 = .ok result) (wp_perform ?_) ?_
  · intro s' _ c
    refine ⟨⟨[], (List.append_nil _).symm, fun e he => by cases he⟩, fun result hresult => ?_⟩
    exact mapError_eq_ok.mp hresult
  · intro result s' t' hresult
    refine returns_bind (P := fun _ _ _ => True) ?_ ?_
    · unfold audit
      split
      · refine wp_perform fun s'' _ c => ⟨?_, fun _ _ => trivial⟩
        cases hc : c.audit with
        | ok _ =>
          simp only [Act.audit, hc]
          exact ⟨_, rfl, fun e he => by rw [List.mem_singleton.mp he]; exact haudit _⟩
        | error e =>
          simp only [Act.audit, hc]
          exact ⟨[], (List.append_nil _).symm, fun e he => by cases he⟩
      · exact .ok trivial
    · intro _ s'' t'' _
      refine returns_raiseIf fun hallowed => ?_
      rw [← g.decides q.2 result hresult]
      simpa using hallowed

/-- What an extraction asks is about the output, if there is one. -/
theorem checkExtract_eq_ok {source : PurePath} {output : Option PurePath} {c : Checked}
    (h : checkExtract d source output = .ok c) :
    d.redactedRef (c.output.getD c.source) = .ok c.question.2.target ∧
      c.question.2.capability = "documents.extract-text" ∧
      c.question.2.operation = "extract-text" := by
  unfold checkExtract at h
  simp only [Logic.bind_eq_ok, pure_eq_ok] at h
  obtain ⟨_, -, sourcePath, -, outputPath, -, _, -, _, -, sourceRef, hsource, outputRef, houtput,
    rfl⟩ := h
  refine ⟨?_, rfl, rfl⟩
  cases outputPath with
  | none =>
    cases houtput
    exact hsource
  | some path =>
    obtain ⟨ref, href, rfl⟩ := Logic.map_eq_ok.mp houtput
    exact href

theorem checkConvert_eq_ok {source output : PurePath} {outputFormat : String}
    {c : Conversion.Checked} (h : Conversion.check d source output outputFormat = .ok c) :
    d.redactedRef c.output = .ok c.question.2.target ∧
      c.question.2.capability = "documents.convert" ∧ c.question.2.operation = "convert" := by
  unfold Conversion.check at h
  simp only [Logic.bind_eq_ok, pure_eq_ok] at h
  obtain ⟨_, -, _, -, _, -, _, -, _, -, _, -, _, -, _, houtput, rfl⟩ := h
  exact ⟨houtput, rfl, rfl⟩

theorem wp_extractPdfText (source : PurePath) (output : Option PurePath) :
    wp (contract fun e => ∃ c, checkExtract d source output = .ok c ∧
      Permitted g d "extract-text" c e) (extractPdfText g d source output)
      (Returns fun _ _ _ => True) s t := by
  unfold extractPdfText
  cases hc : checkExtract d source output with
  | error e => exact .error
  | ok c =>
    obtain ⟨href, hcapability, hoperation⟩ := checkExtract_eq_ok hc
    rw [Prog.done_ok_bind]
    refine returns_bind (wp_authorize (fun _ => ⟨c, rfl, trivial⟩) c.question) fun _ s t hallowed => ?_
    rw [hcapability, hoperation] at hallowed
    refine returns_bind wp_quietly fun _ s t _ => ?_
    refine returns_bind (wp_use fun e he => ?_) fun pages s t _ => ?_
    · rw [List.mem_singleton.mp he]
      exact ⟨c, rfl, rfl, _, href, hallowed⟩
    refine returns_bind (P := fun _ _ _ => True) ?_ fun _ s t _ => ?_
    · unfold writeText
      cases houtput : c.output with
      | none => exact .ok trivial
      | some path =>
        rw [houtput] at href
        refine returns_bind wp_quietly fun _ s t _ => wp_use fun e he => ?_
        rw [List.mem_singleton.mp he]
        exact ⟨c, rfl, path, _, houtput, href, hallowed⟩
    exact returns_bind wp_quietly fun _ s t _ => .ok trivial

theorem wp_convertDocument (source output : PurePath) (outputFormat : String) :
    wp (contract fun e => ∃ c, Call.check d source (.convert output outputFormat) = .ok c ∧
      Permitted g d "convert" c e) (convertDocument g d source output outputFormat)
      (Returns fun _ _ _ => True) s t := by
  unfold convertDocument
  cases hc : Conversion.check d source output outputFormat with
  | error e => exact .error
  | ok c =>
    obtain ⟨href, hcapability, hoperation⟩ := checkConvert_eq_ok hc
    have hcheck : Call.check d source (.convert output outputFormat) =
        .ok { source := c.source, output := some c.output, question := c.question } := by
      show (Conversion.check d source output outputFormat).map _ = _
      rw [hc]
      rfl
    rw [Prog.done_ok_bind]
    refine returns_bind (wp_authorize (fun _ => ⟨_, hcheck, trivial⟩) c.question) fun _ s t hallowed => ?_
    rw [hcapability, hoperation] at hallowed
    refine returns_bind wp_quietly fun _ s t _ => ?_
    refine returns_bind wp_quietly fun _ s t _ => ?_
    refine returns_bind (wp_use fun e he => ?_) fun _ s t _ => ?_
    · rcases List.mem_cons.mp he with rfl | he
      · exact ⟨_, hcheck, rfl, _, href, hallowed⟩
      · rw [List.mem_singleton.mp he]
        exact ⟨_, hcheck, c.output, _, rfl, href, hallowed⟩
    refine returns_bind (P := fun _ _ _ => True) ?_ fun _ s t _ => wp_quietly
    refine returns_bind (wp_use fun e he => by cases he) fun found s t _ => ?_
    split
    · refine wp_use fun e he => ?_
      rw [List.mem_singleton.mp he]
      exact ⟨_, hcheck, c.output, _, rfl, href, hallowed⟩
    · exact .ok trivial

/-- What keeps the contract does only what has the property. -/
theorem events_of_wp {α : Type} {p : Code α}
    (h : wp (contract P) p (Returns fun _ _ _ => True) () []) (moves : List (Move Choice)) :
    ∀ e ∈ (p.run stopped moves () []).loc, P e := by
  refine (wp_run stopped (I := fun _ t => ∀ e ∈ t, P e) (fun _ _ => trivial) ?_ (fun _ _ ht => ht) h
    (fun e he => by cases he) moves).1
  rintro _ t _ _ ⟨more, rfl, hmore⟩ ht e he
  rcases List.mem_append.mp he with he | he
  · exact ht e he
  · exact hmore e he

end

/-- The source is read with the permission for the output, or for the source itself if there is no
output; a file is written with the permission for the output. -/
theorem events_permitted (g : Gateway) (d : Documents) (source : PurePath) (call : Call)
    (moves : List (Move Choice)) : ∀ e ∈ call.events g d source moves,
      ∃ c, call.check d source = .ok c ∧ Permitted g d call.operation c e := by
  cases call with
  | extractText output => exact events_of_wp (wp_extractPdfText source output) moves
  | convert output outputFormat =>
    exact events_of_wp (wp_convertDocument source output outputFormat) moves

/-- The source is read only with the permission for the source. -/
def ReadsPermitted (g : Gateway) (d : Documents) (source : PurePath) (call : Call)
    (moves : List (Move Choice)) : Prop :=
  ∀ path, .read path ∈ call.events g d source moves →
    ∃ c ref, call.check d source = .ok c ∧ d.redactedRef c.source = .ok ref ∧
      g.Allows call.operation ref

namespace Sample

def outputRef : String := "maya-data/documents/outputs/copy.txt"

/-- Nothing but the copy is allowed. -/
def answer (action : ActionRequest) : AuthorizationResult where
  decision := if action.target = outputRef then .allow else .deny
  reasonCode := "governance.policy"
  auditRequired := false

theorem decides (action : ActionRequest) (result : AuthorizationResult)
    (h : (.ok (answer action) : Except Raised AuthorizationResult) = .ok result) :
    result.allowed = (fun _ _ target => decide (target = outputRef) : String → String → String → Bool)
      action.capability action.operation action.target := by
  cases h
  unfold AuthorizationResult.allowed answer
  by_cases ht : action.target = outputRef <;> simp [ht]

def gateway : Gateway where
  policy _ _ target := target = outputRef
  answer action := .ok (answer action)
  decides := decides

def tree : Conversion.DocumentTree :=
  ((FileTree.Tree.bare.put ["data"] .dir).put ["data", "documents"] .dir).put
    ["data", "documents", "secret.pdf"] (.file [1])

def documents : Documents where
  platform := Conversion.platform tree [] id
  enabled := true
  dataDir := .parse "/data"

def source : PurePath := .parse "secret.pdf"

def call : Call := .extractText (some (.parse "copy.txt"))

theorem reads : (call.events gateway documents source []).any Event.isRead = true := by
  decide +kernel

end Sample

open Sample in
theorem sample_permitted : ∃ e ∈ call.events gateway documents source [], e.isRead = true ∧
    ∃ c, call.check documents source = .ok c ∧ Permitted gateway documents call.operation c e := by
  obtain ⟨e, he, hread⟩ := List.any_eq_true.mp reads
  exact ⟨e, he, hread, events_permitted gateway documents source call [] e he⟩

open Sample in
/-- Whoever may write the copy reads a source that nobody may read. -/
theorem sample_not_readsPermitted : ¬ ReadsPermitted gateway documents source call [] := by
  intro h
  obtain ⟨e, he, hkind⟩ := List.any_eq_true.mp reads
  cases e with
  | audited record => cases hkind
  | wrote names => cases hkind
  | read path =>
    obtain ⟨c, ref, hcheck, href, hallowed⟩ := h path he
    have hrefused : ((call.check documents source).toOption.bind fun c =>
        (documents.redactedRef c.source).toOption) = some "maya-data/documents/secret.pdf" := by
      decide +kernel
    rw [hcheck] at hrefused
    have hsecret : (documents.redactedRef c.source).toOption =
        some "maya-data/documents/secret.pdf" := hrefused
    rw [href] at hsecret
    cases hsecret
    have hpolicy : gateway.policy "documents.extract-text" "extract-text"
        "maya-data/documents/secret.pdf" = true := hallowed
    revert hpolicy
    decide

end ProjectMaya.DocumentReads
