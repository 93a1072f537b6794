import ProjectMaya.Governance
import ProjectMaya.Logic.History
import Mathlib.Order.Lattice
import Mathlib.Data.List.Basic

/-! # The create authority

One `CandidateCreateSessionAuthority`, its host, and everybody who calls it.  The
authority's `RLock` keeps other threads out while a call is open, but the calls it makes
itself (the gateway, the audit sink, the bodies of its guards) run on the thread that
holds it and may call the authority again.  So an open call is a `Frame` on a stack, and a
run is a list of `Event`s: calls from any thread, what callbacks return, how bodies end,
the clock, and changes of the host's limits.

`authorize` looks at `_consumed` before its callbacks and not after them, so a callback of
`commit_guard` that enters `commit_guard` itself is not seen by the outer call
(`two_commit_bodies`).  Runs in which that does not happen keep the single-use law
(`singleUse`). -/

namespace ProjectMaya

open Logic

/-- A Python object: its identity (`is`) and its value. -/
structure Ref (α : Type) where
  address : Nat
  value : α
  deriving DecidableEq, Repr

/-- The attributes of `CandidateCreateSessionBinding` the authority reads. -/
structure Host (T : Type) extends Binding where
  timeout : T
  deriving DecidableEq, Repr

/-- Who makes a call, and with which arguments. -/
structure Call where
  thread : Nat
  task : Option Nat
  identity : RequestIdentity
  descriptor : Ref CreateSessionDescriptor
  deriving DecidableEq, Repr

structure Authority (T : Type) where
  descriptor : Ref CreateSessionDescriptor
  deadline : T
  thread : Nat
  task : Option Nat
  active : Bool := true
  consumed : Bool := false
  attempted : Bool := false
  deriving DecidableEq, Repr

/-- An open call of the thread that holds the authority's lock. -/
inductive Frame where
  /-- The loop of `authorize`, called by `commit_guard` if `guard`: the gateway is being
  asked for the first action, or (`verdict`) its answer is being audited. -/
  | authorizing (guard : Bool) (call : Call) (action : ActionRequest)
      (rest : List ActionRequest) (verdict : Option Bool)
  /-- The body of `commit_guard`. -/
  | committing (call : Call)
  /-- The body of `publication_guard`. -/
  | publishing (call : Call)
  deriving DecidableEq, Repr

/-- The history: what has happened to the authority, oldest first. -/
inductive Happened (T : Type) where
  | raised (code : String)
  | attempted
  | authorized
  | revoked
  /-- The body of `commit_guard` was entered by `call`, at that time, under that host. -/
  | commitEntered (call : Call) (time : T) (host : Host T)
  | commitReturned
  | commitFailed
  /-- The body of `publication_guard` was entered, from inside a `commit_guard` body or not. -/
  | publicationEntered (inCommit : Bool)
  deriving DecidableEq, Repr

structure World (T : Type) where
  authority : Authority T
  host : Host T
  clock : T
  /-- `task.cancelling()` of the authority's task. -/
  cancelling : Bool := false
  frames : List Frame := []
  history : List (Happened T) := []

inductive Event (T : Type) where
  | tick (time : T)
  | hostChanges (host : Host T)
  | cancelling (value : Bool)
  | revoke (thread : Nat)
  | beginAttempt (call : Call)
  | authorize (call : Call)
  | commitGuard (call : Call)
  | publicationGuard (call : Call)
  | gatewayReturns (reply : GatewayReply)
  | auditReturns (ok : Bool)
  | bodyReturns
  | bodyRaises
  deriving Repr

def Frame.thread : Frame → Nat
  | .authorizing _ call _ _ _ => call.thread
  | .committing call => call.thread
  | .publishing call => call.thread

/-- A `commit_guard` that has not entered its body yet. -/
def Frame.opening : Frame → Bool
  | .authorizing guard _ _ _ _ => guard
  | _ => false

def Frame.inCommit : Frame → Bool
  | .committing _ => true
  | _ => false

section Model

variable {T : Type} [LinearOrder T]

namespace World

/-- The three actions of `authorize`. -/
def actions (call : Call) : List ActionRequest :=
  let d := call.descriptor.value
  [("session.read", "route_state", d.routeSlot), ("session.transition", "create", d.routeSlot),
   ("session.write", "create", d.targetSession)].map fun (capability, operation, target) =>
    { actorId := call.identity.actorId, capability, operation, target,
      dataClassification := call.identity.dataClassification,
      idempotencyKey := some d.correlationId,
      metadata := [("contract", transitionContract), ("descriptor_digest", d.digest)] }

/-- `_check` does not raise. -/
def check (w : World T) (call : Call) : Bool :=
  let a := w.authority
  a.active && decide (w.clock < a.deadline) && call.thread = a.thread && call.task = a.task &&
    !(a.task.isSome && w.cancelling) && call.descriptor = a.descriptor &&
    call.descriptor.value.wellFormed && w.host.limitsKept call.identity call.descriptor.value

/-- The lock is free, or the thread holds it already. -/
def mayEnter (w : World T) (thread : Nat) : Bool :=
  match w.frames with
  | [] => true
  | f :: _ => f.thread = thread

def record (w : World T) (h : Happened T) : World T := { w with history := w.history ++ [h] }

def raise (w : World T) (code : String) : World T := w.record (.raised code)

/-- `authorize` up to its first callback. -/
def openAuthorize (w : World T) (guard : Bool) (call : Call) : World T :=
  if !w.check call then w.raise "governance.transition_context_invalid"
  else if w.authority.consumed then w.raise "governance.transition_consumed"
  else match actions call with
    | [] => w
    | action :: rest =>
      { w with frames := .authorizing guard call action rest none :: w.frames }

/-- The gateway has answered: `_check`, then the audit record is written. -/
def answered (w : World T) (guard : Bool) (call : Call) (action : ActionRequest)
    (rest : List ActionRequest) (below : List Frame) (reply : GatewayReply) : World T :=
  match reply.allowed with
  | none => { w with frames := below }.raise "governance.authorization_unavailable"
  | some allowed =>
    if !w.check call then { w with frames := below }.raise "governance.transition_context_invalid"
    else { w with frames := .authorizing guard call action rest (some allowed) :: below }

/-- The audit record is written (or not): the next action, or the last `_check`, after which
`commit_guard` sets `_consumed` and enters its body. -/
def audited (w : World T) (guard : Bool) (call : Call) (rest : List ActionRequest)
    (allowed : Bool) (below : List Frame) (ok : Bool) : World T :=
  let w' := { w with frames := below }
  if !ok then w'.raise "governance.audit_unavailable"
  else if !allowed then w'.raise "governance.transition_denied"
  else match rest with
    | action :: rest => { w with frames := .authorizing guard call action rest none :: below }
    | [] =>
      if !w.check call then w'.raise "governance.transition_context_invalid"
      else if guard then
        { w with authority := { w.authority with consumed := true }
                 frames := .committing call :: below }.record
          (.commitEntered call w.clock w.host)
      else w'.record .authorized

/-- One event.  An event that cannot happen (another thread holds the lock, no callback or
body is open) changes nothing. -/
def step (w : World T) : Event T → World T
  | .tick time => { w with clock := max w.clock time }
  | .hostChanges host => { w with host }
  | .cancelling value => { w with cancelling := value }
  | .revoke thread =>
    if w.mayEnter thread then
      { w with authority := { w.authority with active := false } }.record .revoked
    else w
  | .beginAttempt call =>
    if !w.mayEnter call.thread then w
    else if !w.check call then w.raise "governance.transition_context_invalid"
    else if w.authority.attempted then w.raise "governance.transition_consumed"
    else { w with authority := { w.authority with attempted := true } }.record .attempted
  | .authorize call => if w.mayEnter call.thread then w.openAuthorize false call else w
  | .commitGuard call => if w.mayEnter call.thread then w.openAuthorize true call else w
  | .publicationGuard call =>
    if !w.mayEnter call.thread then w
    else if !w.check call then w.raise "governance.transition_context_invalid"
    else if !w.authority.consumed then w.raise "governance.transition_context_invalid"
    else { w with frames := .publishing call :: w.frames }.record
      (.publicationEntered (w.frames.any Frame.inCommit))
  | .gatewayReturns reply =>
    match w.frames with
    | .authorizing guard call action rest none :: below =>
      w.answered guard call action rest below reply
    | _ => w
  | .auditReturns ok =>
    match w.frames with
    | .authorizing guard call _ rest (some allowed) :: below =>
      w.audited guard call rest allowed below ok
    | _ => w
  | .bodyReturns =>
    match w.frames with
    | .committing _ :: below => { w with frames := below }.record .commitReturned
    | .publishing _ :: below => { w with frames := below }
    | _ => w
  | .bodyRaises =>
    match w.frames with
    | .committing _ :: below =>
      { w with authority := { w.authority with active := false }
               frames := below }.record .commitFailed
    | .publishing _ :: below => { w with frames := below }
    | _ => w

def run (w : World T) (events : List (Event T)) : World T := events.foldl step w

end World

/-- `authenticated_create` up to its `yield`: a fresh descriptor from the host's limits, and
an authority for the calling thread and task. -/
def authenticatedCreate [Add T] (host : Host T) (clock : T) (call : Call)
    (targetSession requestId correlationId : String) : Except String (World T) :=
  if call.identity ≠ host.owner then .error "governance.session_owner_mismatch"
  else .ok
    { authority :=
        { descriptor :=
            ⟨call.descriptor.address,
              { contract := transitionContract, instanceId := host.instanceId,
                database := host.database, principal := host.owner.actorId,
                classification := host.owner.dataClassification,
                bindingVersion := host.bindingVersion, routeSlot := host.routeSlot,
                expectedRouteVersion := 0, targetSession, requestId, correlationId }⟩
          deadline := clock + host.timeout
          thread := call.thread
          task := call.task }
      host, clock }

end Model

/-! ## The single-use law -/

section SingleUse

variable {T : Type} [LinearOrder T]

namespace World

/-- What the law says about an authority `a` when `e` happens after `before`. -/
def Lawful (a : Authority T) (before : List (Happened T)) : Happened T → Prop
  | .attempted => .attempted ∉ before
  | .commitEntered call time host =>
    (∀ c t h, .commitEntered c t h ∉ before) ∧ .revoked ∉ before ∧ time < a.deadline ∧
      call.thread = a.thread ∧ call.task = a.task ∧ call.descriptor = a.descriptor ∧
      host.limitsKept call.identity a.descriptor.value = true
  | .publicationEntered inCommit =>
    (∃ c t h, .commitEntered c t h ∈ before) ∧ .commitFailed ∉ before ∧
      (inCommit = false → .commitReturned ∈ before)
  | _ => True

/-- An authority nobody has called yet. -/
structure Fresh (w : World T) : Prop where
  active : w.authority.active = true
  consumed : w.authority.consumed = false
  attempted : w.authority.attempted = false
  frames : w.frames = []
  history : w.history = []

omit [LinearOrder T] in
theorem authenticatedCreate_fresh [Add T] {host : Host T} {clock : T} {call : Call}
    {targetSession requestId correlationId : String} {w : World T}
    (h : authenticatedCreate host clock call targetSession requestId correlationId = .ok w) :
    w.Fresh := by
  unfold authenticatedCreate at h
  split at h
  · cases h
  · cases h
    exact ⟨rfl, rfl, rfl, rfl, rfl⟩

/-- The event takes the innermost call, a `commit_guard`, into its body: its last action was
allowed, the audit record is written and `_check` passes. -/
def admits (w : World T) : Event T → Bool
  | .auditReturns true =>
    match w.frames with
    | .authorizing true call _ [] (some true) :: _ => w.check call
    | _ => false
  | _ => false

/-- No `commit_guard` enters its body from inside the callbacks of another one. -/
def Exclusive (w : World T) (e : Event T) : Prop :=
  w.admits e = true → w.frames.tail.any Frame.opening = false

def ExclusiveRun (w : World T) : List (Event T) → Prop
  | [] => True
  | e :: es => w.Exclusive e ∧ (w.step e).ExclusiveRun es

/-- The flags of the authority and the open calls sum up the history. -/
structure Inv (a : Authority T) (w : World T) : Prop where
  deadline : w.authority.deadline = a.deadline
  thread : w.authority.thread = a.thread
  task : w.authority.task = a.task
  descriptor : w.authority.descriptor = a.descriptor
  lawful : Justified (Lawful a) w.history
  attempted : .attempted ∈ w.history → w.authority.attempted = true
  active : w.authority.active = true → .revoked ∉ w.history ∧ .commitFailed ∉ w.history
  consumed : w.authority.consumed = true ↔ ∃ c t h, .commitEntered c t h ∈ w.history
  opening : w.frames.any Frame.opening = true → w.authority.consumed = false
  settled : w.authority.consumed = true → w.authority.active = true →
    w.frames.any Frame.inCommit = true ∨ .commitReturned ∈ w.history

theorem inv_init {w : World T} (h : w.Fresh) : Inv w.authority w := by
  have hh := h.history
  constructor
  case lawful => rw [hh]; exact Justified.nil
  case opening => intro _; exact h.consumed
  all_goals simp [hh, h.consumed]

/-- Entries that say nothing about attempts, bodies or revocation. -/
def quiet : Happened T → Bool
  | .raised _ => true
  | .authorized => true
  | _ => false

/-- A step that leaves the authority alone, opens no `commit_guard` on a consumed authority
and closes no `commit_guard` body keeps the invariant. -/
theorem Inv.of_quiet {a : Authority T} {w w' : World T} (h : Inv a w)
    (ha : w'.authority = w.authority)
    (hh : w'.history = w.history ∨ ∃ e, quiet e = true ∧ w'.history = w.history ++ [e])
    (ho : w'.frames.any Frame.opening = true →
      w.frames.any Frame.opening = true ∨ w.authority.consumed = false)
    (hc : w.frames.any Frame.inCommit = true → w'.frames.any Frame.inCommit = true) :
    Inv a w' := by
  have hmem : ∀ e, quiet e = false → (e ∈ w'.history ↔ e ∈ w.history) := by
    intro e he
    rcases hh with hh | ⟨x, hx, hh⟩
    · rw [hh]
    · rw [hh, List.mem_append, List.mem_singleton]
      constructor
      · rintro (hm | rfl)
        · exact hm
        · rw [hx] at he; cases he
      · exact Or.inl
  constructor
  · rw [ha]; exact h.deadline
  · rw [ha]; exact h.thread
  · rw [ha]; exact h.task
  · rw [ha]; exact h.descriptor
  · rcases hh with hh | ⟨x, hx, hh⟩
    · rw [hh]; exact h.lawful
    · rw [hh]
      refine h.lawful.snoc ?_
      cases x <;> trivial
  · rw [ha, hmem _ rfl]; exact h.attempted
  · rw [ha, hmem _ rfl, hmem _ rfl]; exact h.active
  · rw [ha, h.consumed]
    constructor
    · rintro ⟨c, t, x, hm⟩; exact ⟨c, t, x, (hmem _ rfl).mpr hm⟩
    · rintro ⟨c, t, x, hm⟩; exact ⟨c, t, x, (hmem _ rfl).mp hm⟩
  · intro hop
    rw [ha]
    rcases ho hop with h1 | h1
    · exact h.opening h1
    · exact h1
  · intro h1 h2
    rw [ha] at h1 h2
    rw [hmem _ rfl]
    rcases h.settled h1 h2 with h3 | h3
    · exact .inl (hc h3)
    · exact .inr h3

theorem Inv.raise {a : Authority T} {w : World T} (h : Inv a w) (code : String) :
    Inv a (w.raise code) :=
  h.of_quiet rfl (.inr ⟨_, rfl, rfl⟩) .inl id

/-- Leaving a call of `authorize` by an exception. -/
theorem Inv.raise_below {a : Authority T} {w : World T} (h : Inv a w) {guard : Bool} {call : Call}
    {action : ActionRequest} {rest : List ActionRequest} {verdict : Option Bool}
    {below : List Frame} (hf : w.frames = .authorizing guard call action rest verdict :: below)
    (e : Happened T) (he : quiet e = true) : Inv a ({ w with frames := below }.record e) := by
  refine h.of_quiet rfl (.inr ⟨e, he, rfl⟩) ?_ ?_
  · intro ho
    left
    rw [hf, List.any_cons, Bool.or_eq_true]
    exact .inr ho
  · intro hc
    rw [hf, List.any_cons, Bool.or_eq_true] at hc
    rcases hc with hc | hc
    · cases hc
    · exact hc

theorem Inv.openAuthorize {a : Authority T} {w : World T} (h : Inv a w) (guard : Bool)
    (call : Call) : Inv a (w.openAuthorize guard call) := by
  unfold World.openAuthorize
  split
  · exact h.raise _
  · split
    · exact h.raise _
    · rename_i hcons
      split
      · exact h
      · refine h.of_quiet rfl (.inl rfl) ?_ ?_
        · intro _; right; simpa using hcons
        · intro hc; rw [List.any_cons, hc, Bool.or_true]

theorem Inv.answered {a : Authority T} {w : World T} (h : Inv a w) {guard : Bool} {call : Call}
    {action : ActionRequest} {rest : List ActionRequest} {below : List Frame}
    (hf : w.frames = .authorizing guard call action rest none :: below) (reply : GatewayReply) :
    Inv a (w.answered guard call action rest below reply) := by
  unfold World.answered
  split
  · exact h.raise_below hf _ rfl
  · split
    · exact h.raise_below hf _ rfl
    · refine h.of_quiet rfl (.inl rfl) ?_ ?_
      · intro ho; left; rw [hf]; exact ho
      · intro hc; rw [hf] at hc; exact hc

/-- What `_check` guarantees about the call it lets pass. -/
theorem check_spec {w : World T} {call : Call} (h : w.check call = true) :
    w.authority.active = true ∧ w.clock < w.authority.deadline ∧
      call.thread = w.authority.thread ∧ call.task = w.authority.task ∧
      call.descriptor = w.authority.descriptor ∧
      w.host.limitsKept call.identity call.descriptor.value = true := by
  simp only [World.check, Bool.and_eq_true, decide_eq_true_eq] at h
  obtain ⟨⟨⟨⟨⟨⟨⟨h1, h2⟩, h3⟩, h4⟩, _⟩, h5⟩, _⟩, h6⟩ := h
  exact ⟨h1, h2, h3, h4, h5, h6⟩

/-- Entering the body of `commit_guard` when no other one is being opened. -/
theorem Inv.enterCommit {a : Authority T} {w : World T} (h : Inv a w) {call : Call}
    {action : ActionRequest} {verdict : Option Bool} {below : List Frame}
    (hf : w.frames = .authorizing true call action [] verdict :: below)
    (hcheck : w.check call = true) (hex : below.any Frame.opening = false) :
    Inv a ({ w with authority := { w.authority with consumed := true }
                    frames := .committing call :: below }.record
      (.commitEntered call w.clock w.host)) := by
  obtain ⟨hact, htime, hthread, htask, hdesc, hlim⟩ := check_spec hcheck
  have hnot : w.authority.consumed = false := h.opening (by rw [hf]; rfl)
  have hnone : ∀ c t x, .commitEntered c t x ∉ w.history := by
    intro c t x hm
    rw [h.consumed.mpr ⟨c, t, x, hm⟩] at hnot
    cases hnot
  constructor
  · exact h.deadline
  · exact h.thread
  · exact h.task
  · exact h.descriptor
  · refine h.lawful.snoc ⟨hnone, (h.active hact).1, ?_, ?_, ?_, ?_, ?_⟩
    · exact h.deadline ▸ htime
    · exact hthread.trans h.thread
    · exact htask.trans h.task
    · exact hdesc.trans h.descriptor
    · rw [← h.descriptor, ← hdesc]; exact hlim
  · intro hm; exact h.attempted (by simpa [World.record] using hm)
  · intro _
    have := h.active hact
    simpa [World.record] using this
  · exact ⟨fun _ => ⟨call, w.clock, w.host, by simp [World.record]⟩, fun _ => rfl⟩
  · intro ho
    rw [World.record, List.any_cons] at ho
    simp only [Frame.opening, Bool.false_or] at ho
    rw [hex] at ho
    cases ho
  · intro _ _; left; rfl

theorem Inv.audited {a : Authority T} {w : World T} (h : Inv a w) {guard : Bool} {call : Call}
    {action : ActionRequest} {rest : List ActionRequest} {allowed ok : Bool} {below : List Frame}
    (hf : w.frames = .authorizing guard call action rest (some allowed) :: below)
    (hex : w.Exclusive (.auditReturns ok)) :
    Inv a (w.audited guard call rest allowed below ok) := by
  unfold World.audited
  dsimp only
  split
  · exact h.raise_below hf _ rfl
  · rename_i hok
    split
    · exact h.raise_below hf _ rfl
    · rename_i hallowed
      split
      · refine h.of_quiet rfl (.inl rfl) ?_ ?_
        · intro ho; left; rw [hf]; exact ho
        · intro hc; rw [hf] at hc; exact hc
      · split
        · exact h.raise_below hf _ rfl
        · rename_i hcheck
          split
          · rename_i hguard
            simp only [Bool.not_eq_true', Bool.not_eq_false] at hok hallowed hcheck
            subst hok hallowed hguard
            refine h.enterCommit hf hcheck ?_
            have := hex (by simp only [admits, hf, hcheck])
            rwa [hf] at this
          · exact h.raise_below hf _ rfl

theorem inv_step {a : Authority T} {w : World T} (h : Inv a w) (e : Event T)
    (hex : w.Exclusive e) : Inv a (w.step e) := by
  cases e with
  | tick time => exact h.of_quiet rfl (.inl rfl) .inl id
  | hostChanges host => exact h.of_quiet rfl (.inl rfl) .inl id
  | cancelling value => exact h.of_quiet rfl (.inl rfl) .inl id
  | revoke thread =>
    simp only [step]
    split
    · constructor
      · exact h.deadline
      · exact h.thread
      · exact h.task
      · exact h.descriptor
      · exact h.lawful.snoc trivial
      · intro hm; exact h.attempted (by simpa [record] using hm)
      · intro hc; cases hc
      · simpa [record] using h.consumed
      · exact h.opening
      · intro _ hc; cases hc
    · exact h
  | beginAttempt call =>
    simp only [step]
    split
    · exact h
    · split
      · exact h.raise _
      · split
        · exact h.raise _
        · rename_i hatt
          constructor
          · exact h.deadline
          · exact h.thread
          · exact h.task
          · exact h.descriptor
          · exact h.lawful.snoc fun hm => hatt (h.attempted hm)
          · intro _; rfl
          · simpa [record] using h.active
          · simpa [record] using h.consumed
          · exact h.opening
          · simpa [record] using h.settled
  | authorize call =>
    simp only [step]
    split
    · exact h.openAuthorize false call
    · exact h
  | commitGuard call =>
    simp only [step]
    split
    · exact h.openAuthorize true call
    · exact h
  | publicationGuard call =>
    simp only [step]
    split
    · exact h
    · split
      · exact h.raise _
      · split
        · exact h.raise _
        · rename_i hcheck hcons
          simp only [Bool.not_eq_true', Bool.not_eq_false] at hcheck hcons
          have hact := (check_spec hcheck).1
          constructor
          · exact h.deadline
          · exact h.thread
          · exact h.task
          · exact h.descriptor
          · refine h.lawful.snoc ⟨h.consumed.mp hcons, (h.active hact).2, ?_⟩
            intro hin
            rcases h.settled hcons hact with h1 | h1
            · rw [hin] at h1; cases h1
            · exact h1
          · intro hm; exact h.attempted (by simpa [record] using hm)
          · simpa [record] using h.active
          · simpa [record] using h.consumed
          · exact h.opening
          · simpa [record, Frame.inCommit] using h.settled
  | gatewayReturns reply =>
    simp only [step]
    split
    · rename_i hf; exact h.answered hf reply
    · exact h
  | auditReturns ok =>
    simp only [step]
    split
    · rename_i hf; exact h.audited hf hex
    · exact h
  | bodyReturns =>
    simp only [step]
    split
    · rename_i call below hf
      constructor
      · exact h.deadline
      · exact h.thread
      · exact h.task
      · exact h.descriptor
      · exact h.lawful.snoc trivial
      · intro hm; exact h.attempted (by simpa [record] using hm)
      · simpa [record] using h.active
      · simpa [record] using h.consumed
      · intro ho
        exact h.opening (by rw [hf, List.any_cons, Bool.or_eq_true]; exact .inr ho)
      · intro _ _; right; simp [record]
    · rename_i call below hf
      refine h.of_quiet rfl (.inl rfl) ?_ ?_
      · intro ho; left; rw [hf, List.any_cons, Bool.or_eq_true]; exact .inr ho
      · intro hc; rw [hf] at hc; exact hc
    · exact h
  | bodyRaises =>
    simp only [step]
    split
    · rename_i call below hf
      constructor
      · exact h.deadline
      · exact h.thread
      · exact h.task
      · exact h.descriptor
      · exact h.lawful.snoc trivial
      · intro hm; exact h.attempted (by simpa [record] using hm)
      · intro hc; cases hc
      · simpa [record] using h.consumed
      · intro ho
        exact h.opening (by rw [hf, List.any_cons, Bool.or_eq_true]; exact .inr ho)
      · intro _ hc; cases hc
    · rename_i call below hf
      refine h.of_quiet rfl (.inl rfl) ?_ ?_
      · intro ho; left; rw [hf, List.any_cons, Bool.or_eq_true]; exact .inr ho
      · intro hc; rw [hf] at hc; exact hc
    · exact h

theorem inv_run {a : Authority T} {w : World T} (h : Inv a w) (events : List (Event T))
    (hex : w.ExclusiveRun events) : Inv a (w.run events) := by
  induction events generalizing w with
  | nil => exact h
  | cons e events ih => exact ih (inv_step h e hex.1) hex.2

/-- **Single use.**  In every run in which no `commit_guard` enters its body from inside the
callbacks of another: `begin_attempt` succeeds at most once; the body of `commit_guard` is
entered at most once, before any revocation has returned and before the deadline, by the
authority's thread and task, with its descriptor and under the limits it states; the body of
`publication_guard` is entered only after a `commit_guard` body that has not failed. -/
theorem singleUse (w : World T) (hw : w.Fresh) (events : List (Event T))
    (hex : w.ExclusiveRun events) : Justified (Lawful w.authority) (w.run events).history :=
  (inv_run (inv_init hw) events hex).lawful

end World

end SingleUse

/-! ## A gateway that calls back -/

namespace Sample

def host : Host Nat where
  owner := { actorId := "owner" }
  instanceId := "instance"
  database := "/state.db"
  routeSlot := "main"
  bindingVersion := 1
  timeout := 120

def descriptor : Ref CreateSessionDescriptor where
  address := 1
  value :=
    { contract := transitionContract, instanceId := "instance", database := "/state.db",
      principal := "owner", classification := "confidential", bindingVersion := 1,
      routeSlot := "main", expectedRouteVersion := 0, targetSession := "session",
      requestId := "request", correlationId := "correlation" }

def call : Call where
  thread := 1
  task := none
  identity := { actorId := "owner" }
  descriptor := descriptor

def world : World Nat where
  authority := { descriptor := descriptor, deadline := 120, thread := 1, task := none }
  host := host
  clock := 0

/-- The gateway and the audit sink allow the three actions of one `authorize`. -/
def allowed : List (Event Nat) :=
  (List.replicate 3 [.gatewayReturns (.result true [] []), .auditReturns true]).flatten

/-- The gateway, asked by `commit_guard`, enters `commit_guard` itself, and then answers. -/
def reentrant : List (Event Nat) :=
  .commitGuard call :: .commitGuard call :: (allowed ++ .bodyReturns :: allowed)

theorem world_created :
    authenticatedCreate host 0 call "session" "request" "correlation" = .ok world := rfl

theorem world_fresh : world.Fresh := World.authenticatedCreate_fresh world_created

theorem reentrant_history : (world.run reentrant).history =
    [.commitEntered call 0 host, .commitReturned, .commitEntered call 0 host] := by
  decide +kernel

theorem two_commit_bodies : ¬ ∀ (w : World Nat), w.Fresh → ∀ events : List (Event Nat),
    Justified (World.Lawful w.authority) (w.run events).history := by
  intro h
  have hlaw := h world world_fresh reentrant
  rw [reentrant_history] at hlaw
  have hsecond := hlaw [.commitEntered call 0 host, .commitReturned] (.commitEntered call 0 host)
    [] rfl
  exact hsecond.1 call 0 host (by simp)

/-- One create: an attempt, one committed body, and the publication after it. -/
def direct : List (Event Nat) :=
  .beginAttempt call :: .commitGuard call :: (allowed ++
    [.bodyReturns, .publicationGuard call, .bodyReturns, .revoke 2, .commitGuard call])

theorem direct_singleUse : world.ExclusiveRun direct ∧
    Justified (World.Lawful world.authority) (world.run direct).history := by
  have hex : world.ExclusiveRun direct := by
    simp only [direct, allowed, World.ExclusiveRun, World.Exclusive, List.replicate,
      List.flatten_cons, List.flatten_nil, List.cons_append, List.nil_append]
    decide +kernel
  exact ⟨hex, World.singleUse world world_fresh direct hex⟩

end Sample

end ProjectMaya
