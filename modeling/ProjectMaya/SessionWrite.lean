import ProjectMaya.Callbacks
import ProjectMaya.ExecutionBoundary
import ProjectMaya.LeaseChain
import ProjectMaya.Logic.Tolerance

/-! # Session writes and revocation

`session_write` looks at its lease twice, and then asks the gateway and writes the audit
record; it does not look again before it returns.  Workers are hosts that run
`sessionWrite`; every other thread is a host that makes a call on the leases.

A lease that is revoked while its worker waits for the gateway does not stop the write
(`Sample.written_after_revocation`).  Where nothing ends a lease of the worker's chain, and
no deadline of it passes, after the second look, a write returns only under an active
lease (`no_write_after_revocation`). -/

namespace ProjectMaya.Plugin

open Logic

section

variable {T ν : Type} [LinearOrder T] (clock : Clock T)

mutual

def Payload.hashable : Payload ν → Bool
  | .list tuple items => tuple && hashableAll items
  | .mapping _ _ => false
  | _ => true

def hashableAll : List (Payload ν) → Bool
  | [] => true
  | item :: items => item.hashable && hashableAll items

end

/-- A call of `session_write`. -/
structure WriteCall (ν : Type) where
  who : Caller
  result : Payload ν
  context : Dict ν

/-- The second look at the session. -/
def boundSession (who : Caller) : Code T ν SessionWriteContext :=
  match who.session with
  | none => refuse "governance.session_context_missing"
  | some bound => do
    let active ← .perform (Act.isActive clock bound.lease)
    refuseIf (¬ (active ∧ bound.ownedBy who)) "governance.session_context_missing"
    return bound

/-- `Path(value)` -/
def pathOf : Payload ν → Except Raised PurePath
  | .str s => .ok (.parse s)
  | .path p => .ok p
  | _ => .error .failure

/-- `value not in operations`, before its `not in`: an operation, or another value, if it can be
looked up at all. -/
def operationOf (value : Payload ν) : Except Raised (Option String) :=
  match value with
  | .str s => .ok (some s)
  | value => if value.hashable then .ok none else .error .failure

/-- The comparison of the callback's context with the session; the operation. -/
def writeOperation (bound : SessionWriteContext) (context : Dict ν) : Code T ν String := do
  refuseIf (!(context.get "contract").isText sessionWriteContract ∨
    !(context.get "session_id").isText bound.sessionId ∨
    !(context.get "purpose").isText "hermes_conversation") "governance.session_context_mismatch"
  let path ← ofExcept (pathOf (context.getD "database" (.str "")))
  let database ← .perform (Act.resolve path)
  refuseIf (database ≠ bound.database) "governance.session_context_mismatch"
  match ← ofExcept (operationOf (context.get "operation")) with
  | some operation => do
    refuseIf (operation ∉ bound.operations) "governance.session_context_mismatch"
    return operation
  | none => refuse "governance.session_context_mismatch"

def writeAction (identity : RequestIdentity) (bound : SessionWriteContext) (operation : String) :
    ActionRequest where
  actorId := identity.actorId
  capability := "session.write"
  target := "session:" ++ bound.sessionId
  operation
  dataClassification := identity.dataClassification

def writeRecord (identity : RequestIdentity) (bound : SessionWriteContext) (operation : String) :
    AuditRecord where
  eventType := "validation.hermes_session_write"
  decision := "allow"
  reasonCode := "governance.session_write_authorized"
  actorId := identity.actorId
  capability := "session.write"
  target := hash (bound.sessionId ++ ":" ++ bound.requestId)
  operation
  dataClassification := identity.dataClassification

/-- The `except` clauses of `session_write`. -/
def writeError (who : Caller) : Raised → Code T ν Raised
  | .boundary _ => do
    auditBlock who "session.write"
    return .boundary "governance.action_denied"
  | .interrupt => pure .interrupt
  | _ => do
    auditBlock who "session.write"
    return .boundary "governance.authorization_unavailable"

/-- `session_write` after its look at the session. -/
def authorisedWrite [Python ν] (call : WriteCall ν) (identity : RequestIdentity)
    (bound : SessionWriteContext) : Code T ν (Payload ν) := do
  let operation ← writeOperation bound call.context
  let _ ← ofExcept (checkedPayload call.result)
  authorize (writeAction identity bound operation)
  .perform (Act.write (writeRecord identity bound operation))
  return call.result

/-- `session_write` -/
def sessionWrite [Python ν] (call : WriteCall ν) : Code T ν (Payload ν) :=
  Prog.mapError (do
    let identity ← actor clock call.who
    let bound ← boundSession clock call.who
    authorisedWrite call identity bound) (writeError call.who)

/-! ## Workers, and everybody else -/

inductive Task (T ν : Type) where
  | sessionWrite (call : WriteCall ν)
  | lease (call : LeaseCall T)

section

variable [Add T]

/-- A call on the leases by some thread. -/
def Act.lease (call : LeaseCall T) : Act T ν (Payload ν) where
  next _ s t := (.ok .none, s.step clock call, t)

/-- A process: its leases, and threads that write under them or call them. -/
def process (ν : Type) [Python ν] :
    System (Choice ν) (Leases T) (Trace ν) Raised (Task T ν) (Payload ν) where
  prog
    | .sessionWrite call => sessionWrite clock call
    | .lease call => .perform (Act.lease clock call)
  enter _ := []
  die := stopped

end

/-! ## What the threads do to the leases -/

/-- An action that leaves the leases alone, whatever happens. -/
def Steady {β : Type} (a : Act T ν β) : Prop :=
  ∀ c s t, (a.next c s t).2.1 = s ∧ ∃ new, (a.next c s t).2.2 = t ++ new

theorem steady_resolve (path : PurePath) : Steady (Act.resolve path : Act T ν ResolvedPath) := by
  intro c s t
  cases hc : c.resolve with
  | ok result =>
    simp only [Act.resolve, hc]
    exact ⟨trivial, _, rfl⟩
  | error e =>
    simp only [Act.resolve, hc]
    exact ⟨trivial, [], by simp⟩

theorem steady_authorize (action : ActionRequest) :
    Steady (Act.authorize action : Act T ν AuthorizationResult) := by
  intro c s t
  cases hc : c.gateway with
  | ok result =>
    simp only [Act.authorize, hc]
    exact ⟨trivial, _, rfl⟩
  | error e =>
    simp only [Act.authorize, hc]
    exact ⟨trivial, [], by simp⟩

theorem steady_write (record : AuditRecord) : Steady (Act.write record : Act T ν Unit) := by
  intro c s t
  cases hc : c.audit with
  | ok _ =>
    simp only [Act.write, hc]
    exact ⟨trivial, _, rfl⟩
  | error e =>
    simp only [Act.write, hc]
    exact ⟨trivial, [], by simp⟩

section

variable {P : ∀ {β : Type}, Act T ν β → Prop}

theorem each_writeError {who : Caller} (hwrite : P (Act.write (blockRecord who "session.write")))
    (e : Raised) : (writeError who e : Code T ν Raised).Each P := by
  cases e with
  | interrupt => exact trivial
  | boundary _ | mandatory _ | lockException | importError | failure => exact each_denied hwrite

theorem each_boundSession (hlook : ∀ lease, P (Act.isActive clock lease)) (who : Caller) :
    (boundSession clock who : Code T ν SessionWriteContext).Each P := by
  unfold boundSession
  cases who.session with
  | none => exact trivial
  | some bound => exact .bind (.perform (hlook bound.lease)) fun _ => .bind .raiseIf fun _ => trivial

theorem each_writeOperation (hresolve : ∀ path, P (Act.resolve path)) (bound : SessionWriteContext)
    (context : Dict ν) : (writeOperation bound context : Code T ν String).Each P := by
  refine .bind .raiseIf fun _ => ?_
  refine .bind each_ofExcept fun path => ?_
  refine .bind (.perform (hresolve path)) fun database => ?_
  refine .bind .raiseIf fun _ => ?_
  refine .bind each_ofExcept fun operation => ?_
  cases operation with
  | none => exact trivial
  | some operation => exact .bind .raiseIf fun _ => trivial

end

/-- A look that found the lease active. -/
def Event.found : Event ν → Bool
  | .looked _ active => active
  | _ => false

/-- The second look has found the session active. -/
def Checked (t : Trace ν) : Prop := 2 ≤ (t.filter Event.found).length

theorem Checked.append {t : Trace ν} (h : Checked t) (new : Trace ν) : Checked (t ++ new) := by
  unfold Checked at *
  rw [List.filter_append, List.length_append]
  omega

/-- A write that returns: it looked twice, and its chain is open. -/
def Written (call : WriteCall ν) (v : Payload ν) (s : Leases T) (t : Trace ν) : Prop :=
  v = call.result ∧ ∃ bound, call.who.session = some bound ∧ Checked t ∧ s.Open bound.lease

variable [Add T]

/-- What a thread relies on and guarantees.  A worker relies on its chain staying open once it
has looked twice. -/
def threadContract : Task T ν → Contract (Leases T) (Trace ν)
  | .sessionWrite call =>
    { rely := fun t s s' => ∀ bound, call.who.session = some bound → Checked t →
        s.Open bound.lease → s'.Open bound.lease
      guar := fun s _ s' _ => s' = s ∨ ∃ i, s' = (s.isActive clock i).2 }
  | .lease call =>
    { rely := fun _ _ _ => True
      guar := fun s _ s' _ => s' = s.step clock call }

section

variable {call : WriteCall ν} {s : Leases T} {t : Trace ν}

theorem wp_look {lease : Nat} {Q : Bool → Leases T → Trace ν → Prop}
    (h : ∀ s : Leases T, Q (s.isActive clock lease).1 (s.isActive clock lease).2
      (t ++ [.looked lease (s.isActive clock lease).1])) :
    wp (threadContract clock (.sessionWrite call)) (.perform (Act.isActive clock lease))
      (Returns Q) s t := by
  refine wp_perform ?_
  intro s' _ c
  exact ⟨.inr ⟨lease, rfl⟩, .ok (h s')⟩

/-- After the second look, steady actions keep the chain open. -/
theorem wp_steady {α : Type} {p : Code T ν α} (hp : p.Each Steady) {bound : SessionWriteContext}
    (hb : call.who.session = some bound) (h : Checked t ∧ s.Open bound.lease) :
    wp (threadContract clock (.sessionWrite call)) p
      (Returns fun _ s t => Checked t ∧ s.Open bound.lease) s t := by
  refine wp_mono (wp_of_each (J := fun s t => Checked t ∧ s.Open bound.lease) ?_ ?_ hp h)
    fun r s t hj a _ => hj
  · intro s s' t hrely hj
    exact ⟨hj.1, hrely bound hb hj.1 hj.2⟩
  · intro β a ha c s t hj
    obtain ⟨hs, new, ht⟩ := ha c s t
    rw [hs, ht]
    exact ⟨.inl rfl, hj.1.append new, hj.2⟩

theorem wp_writeError (e : Raised) (s : Leases T) (t : Trace ν) :
    wp (threadContract clock (.sessionWrite call)) (writeError call.who e) (fun _ _ _ => True) s t := by
  refine wp_of_each (J := fun _ _ => True) (fun _ _ _ _ _ => trivial) ?_
    (each_writeError (steady_write _) e) trivial
  intro β a ha c s t _
  exact ⟨.inl (ha c s t).1, trivial⟩

theorem wp_firstLook :
    wp (threadContract clock (.sessionWrite call)) (actor clock call.who)
      (Returns fun _ _ t => call.who.session ≠ none → 1 ≤ (t.filter Event.found).length) s t := by
  unfold actor
  cases hid : call.who.identity with
  | none => exact .error
  | some identity =>
    cases hb : call.who.session with
    | none => exact .ok fun h => absurd rfl h
    | some bound =>
      refine returns_bind (wp_look clock (Q := fun active _ t' =>
        t' = t ++ [.looked bound.lease active]) fun _ => rfl) ?_
      rintro active s' _ rfl
      refine returns_bind (returns_raiseIf (Q := fun _ _ t' => t' = t ++ [.looked bound.lease true])
        ?_) ?_
      · intro h
        rw [(not_not.mp h).1]
      · rintro _ s'' _ rfl
        refine .ok fun _ => ?_
        rw [List.filter_append, List.length_append]
        exact Nat.le_add_left 1 _

theorem wp_secondLook (ht : call.who.session ≠ none → 1 ≤ (t.filter Event.found).length) :
    wp (threadContract clock (.sessionWrite call)) (boundSession clock call.who)
      (Returns fun bound s t => call.who.session = some bound ∧ Checked t ∧ s.Open bound.lease)
      s t := by
  unfold boundSession
  cases hb : call.who.session with
  | none => exact .error
  | some bound =>
    refine returns_bind (wp_look clock (Q := fun active s' t' => t' = t ++ [.looked bound.lease active] ∧
      (active = true → s'.Open bound.lease)) fun s => ⟨rfl, Leases.open_of_isActive clock⟩) ?_
    rintro active s' _ ⟨rfl, hopen⟩
    refine returns_bind (returns_raiseIf (Q := fun _ s'' t' => t' = t ++ [.looked bound.lease true] ∧
      s''.Open bound.lease) ?_) ?_
    · intro h
      obtain ⟨rfl, _⟩ := not_not.mp h
      exact ⟨rfl, hopen rfl⟩
    · rintro _ s'' _ ⟨rfl, hopen⟩
      have hfirst := ht (by rw [hb]; simp)
      refine .ok ⟨rfl, ?_, hopen⟩
      unfold Checked
      rw [List.filter_append, List.length_append]
      exact Nat.add_le_add hfirst (Nat.le_refl 1)

theorem wp_sessionWrite [Python ν] :
    wp (threadContract clock (.sessionWrite call)) (sessionWrite clock call)
      (Returns (Written call)) s t := by
  refine returns_mapError ?_ (wp_writeError clock)
  refine returns_bind (wp_firstLook clock) ?_
  intro identity s t ht
  refine returns_bind (wp_secondLook clock ht) ?_
  rintro bound s t ⟨hb, hj⟩
  refine returns_bind (wp_steady clock (each_writeOperation steady_resolve bound call.context) hb hj) ?_
  intro operation s t hj
  refine returns_bind (wp_steady clock (p := ofExcept _) trivial hb hj) ?_
  intro text s t hj
  refine returns_bind (wp_steady clock (each_authorize (steady_authorize _) fun _ => steady_write _) hb hj) ?_
  intro _ s t hj
  refine returns_bind (wp_steady clock (.perform (steady_write _)) hb hj) ?_
  intro _ s t hj
  exact .ok ⟨rfl, bound, hb, hj⟩

end

/-! ## No write after revocation -/

variable [Python ν]

abbrev State (T ν : Type) [LinearOrder T] :=
  Logic.Config (Choice ν) (Leases T) (Trace ν) Raised (Task T ν) (Payload ν)

/-- The call on the leases that the turn performs. -/
def performs (c : State T ν) :
    Turn (Choice ν) (Task T ν) → Option (LeaseCall T)
  | .act p _ =>
    match (c.host p).running with
    | some (.lease call, .step _ _) => some call
    | _ => none
  | _ => none

/-- The write that the host is about to return from, and its value. -/
def returning (h : Logic.Host (Choice ν) (Leases T) (Trace ν) Raised (Task T ν) (Payload ν)) :
    Option (WriteCall ν × Payload ν) :=
  match h.running with
  | some (.sessionWrite call, .done (.ok v)) => some (call, v)
  | _ => none

/-- For every worker that has looked twice: the turn ends no lease of its chain, and no deadline
of the chain is past the readings taken up to the next one. -/
def Undisturbed (c : State T ν)
    (t : Turn (Choice ν) (Task T ν)) : Prop :=
  ∀ q call k bound, (c.host q).running = some (.sessionWrite call, k) →
    call.who.session = some bound → Checked (c.host q).loc →
    ∀ j, c.shared.nodes.Below bound.lease j →
      c.shared.InTime clock j (((process clock ν).turn c t).shared.reads + 1) ∧
        ∀ a, performs c t = some a → ¬ c.shared.Ends a j

def duties : Duties (process clock ν) where
  own _ _ := True
  contract := threadContract clock
  post
    | .sessionWrite call => Returns (Written call)
    | .lease _ => fun _ _ _ => True
  own_enter _ _ _ := trivial
  enter
    | _, .sessionWrite _, _, _, _ => wp_sessionWrite clock
    | _, .lease _, _, _, _ => fun _ _ _ => ⟨rfl, trivial⟩
  rely_refl
    | .sessionWrite _, _, _ => fun _ _ _ h => h
    | .lease _, _, _ => trivial
  rely_trans
    | .sessionWrite _, _, _, _, _ => fun h h' bound hb ht hopen => h' bound hb ht (h bound hb ht hopen)
    | .lease _, _, _, _, _ => fun _ _ => trivial
  post_stable
    | .sessionWrite _, _, _, _, _ => fun h hrely v hv => by
      obtain ⟨hvalue, bound, hb, ht, hopen⟩ := h v hv
      exact ⟨hvalue, bound, hb, ht, hrely bound hb ht hopen⟩
    | .lease _, _, _, _, _ => fun _ _ => trivial
  own_guar _ _ _ _ _ _ _ _ := trivial
  own_die _ _ _ _ := trivial

section

variable {c : State T ν} {t : Turn (Choice ν) (Task T ν)}

/-- What a turn does to the leases. -/
theorem shared_turn (h : (duties clock).Kept c) :
    ((process clock ν).turn c t).shared = c.shared ∨
      (∃ i, ((process clock ν).turn c t).shared = (c.shared.isActive clock i).2) ∨
      ∃ a, performs c t = some a ∧ ((process clock ν).turn c t).shared = c.shared.step clock a := by
  cases t with
  | start p a =>
    cases hrun : (c.host p).running <;> exact .inl (by simp only [System.turn, hrun, Logic.Config.shared_set])
  | crash p => exact .inl rfl
  | act p f =>
    cases hrun : (c.host p).running with
    | none => exact .inl (by simp only [System.turn, hrun])
    | some x =>
      obtain ⟨a, prog⟩ := x
      cases prog with
      | done r => exact .inl (by simp only [System.turn, hrun, Logic.Config.shared_set])
      | step act k =>
        have hg := (h.busy p a _ hrun c.shared ((duties clock).rely_refl a _ _) f).1
        simp only [System.turn, hrun, Logic.Config.shared_set, performs]
        cases a with
        | sessionWrite call =>
          rcases hg with hg | hg
          · exact .inl hg
          · exact .inr (.inl hg)
        | lease call => exact .inr (.inr ⟨call, rfl, hg⟩)

theorem timed_turn (h : (duties clock).Kept c) (ht : c.shared.Timed) :
    ((process clock ν).turn c t).shared.Timed := by
  rcases shared_turn clock h (t := t) with e | ⟨i, e⟩ | ⟨a, _, e⟩
  · rw [e]; exact ht
  · rw [e]; exact ht.isActive clock i
  · rw [e]; exact ht.step clock a

/-- An undisturbed turn leaves the chain of every worker that has looked twice open. -/
theorem tolerated (h : (duties clock).Kept c) (hu : Undisturbed clock c t) :
    (duties clock).Tolerated c t := by
  intro q a k _ hrun
  cases a with
  | lease call => exact trivial
  | sessionWrite call =>
    intro bound hb hchecked hopen
    have hsame := hu q call k bound hrun hb hchecked
    refine hopen.congr ?_
    intro j hj
    obtain ⟨hin, hends⟩ := hsame j hj
    have hin := hin.le clock (Nat.le_succ _)
    rcases shared_turn clock h (t := t) with e | ⟨i, e⟩ | ⟨a, ha, e⟩
    · rw [e]
    · rw [e] at hin ⊢
      exact Leases.lease?_isActive clock (.inr hin)
    · rw [e] at hin ⊢
      exact Leases.lease?_step clock (hopen.below hj).1 (hends a ha) hin

end

/-- Nobody has done anything yet. -/
def quiescent (T ν : Type) [LinearOrder T] : State T ν := .initial {} fun _ => []

/-- **No write after revocation.**  In every interleaving of workers and of calls on the leases
in which, from a worker's second look until its return, nothing ends a lease of its chain
and no deadline of the chain passes: a `session_write` that returns gives the result it was
asked for, and the worker's lease is active at that moment. -/
theorem no_write_after_revocation {turns : List (Turn (Choice ν) (Task T ν))}
    {t : Turn (Choice ν) (Task T ν)}
    (hrun : (process clock ν).Along (Undisturbed clock) (quiescent T ν) (turns ++ [t])) :
    let c := (process clock ν).run (quiescent T ν) turns
    ∀ call v, returning (c.host t.host) = some (call, v) →
      v = call.result ∧ ∃ bound, call.who.session = some bound ∧
        (c.shared.isActive clock bound.lease).1 = true := by
  intro c call v hret
  obtain ⟨hbefore, hlast⟩ := hrun.snoc
  obtain ⟨hkept, htimed⟩ := (duties clock).run_keeps (I := fun c => c.shared.Timed)
    (fun c t hk ht hu => ⟨tolerated clock hk hu, timed_turn clock hk ht⟩)
    ((duties clock).kept_initial fun _ => trivial) Leases.timed_init hbefore
  have hdone : (c.host t.host).running = some (.sessionWrite call, .done (.ok v)) := by
    revert hret
    unfold returning
    split
    · rename_i h
      rintro ⟨⟩
      exact h
    · nofun
  have hsame : ((process clock ν).turn c t).shared = c.shared := by
    cases t with
    | start p a => simp only [System.turn, show (c.host p).running = _ from hdone]
    | act p f =>
      simp only [System.turn, show (c.host p).running = _ from hdone, Logic.Config.shared_set]
    | crash p => rfl
  obtain ⟨hvalue, bound, hb, hchecked, hopen⟩ := hkept.busy _ _ _ hdone v rfl
  refine ⟨hvalue, bound, hb, ?_⟩
  refine Leases.isActive_of_open clock htimed hopen ?_
  intro j hj
  have hin := (hlast _ call _ bound hdone hb hchecked j hj).1
  rwa [hsame] at hin

end

/-! ## Examples -/

namespace Sample

/-- Floats as fractions; no text is JSON, no URL is well formed. -/
instance : Python Rat where
  isFinite _ := true
  repr _ := "0.0"
  lower := String.toLower
  isWord c := c.isAlphanum || c = '_'
  isDecimal := Char.isDigit
  isSpace := Char.isWhitespace
  loads _ := .ok none
  urlsplit _ := none
  recursionLimit := 1000
  maxStrDigits := 4300

def clock : Clock Nat := ⟨id, monotone_id⟩

def alice : RequestIdentity := { actorId := "alice" }

def database : ResolvedPath := { names := ["state.db"], valid := ResolvedPath.stateDb_valid }

/-- The session of the thread 1, under the first lease. -/
def worker : Caller where
  thread := 1
  task := none
  identity := some alice
  session := some
    { identity := alice, requestId := "r", sessionId := "s", database
      operations := ["append"], threadId := 1, task := none, lease := 0 }

def append : WriteCall Rat where
  who := worker
  result := .str "hello"
  context := [(.str "contract", .str sessionWriteContract), (.str "session_id", .str "s"),
    (.str "purpose", .str "hermes_conversation"), (.str "database", .str "/state.db"),
    (.str "operation", .str "append")]

def willing : Choice Rat where
  gateway := .ok { decision := .allow, reasonCode := "governance.policy_rule" }
  resolve := .ok database

/-- A lease is bound, and a worker under it looks twice. -/
def checked : List (Turn (Choice Rat) (Task Nat Rat)) :=
  [.start 1 (.lease (.bind none)), .act 1 willing, .act 1 willing,
    .start 0 (.sessionWrite append), .act 0 willing, .act 0 willing]

/-- The request is revoked. -/
def revoked : List (Turn (Choice Rat) (Task Nat Rat)) :=
  [.start 1 (.lease (.revokeRequest 0 "cancelled")), .act 1 willing]

/-- The database is compared, the gateway asked, and both records are written. -/
def authorised : List (Turn (Choice Rat) (Task Nat Rat)) := List.replicate 4 (.act 0 willing)

/-- A write returns although its lease was revoked before the gateway was asked. -/
theorem written_after_revocation :
    ¬ ∀ (turns : List (Turn (Choice Rat) (Task Nat Rat))) (p : Nat) (call : WriteCall Rat)
      (v : Payload Rat), returning (((process clock Rat).run (quiescent Nat Rat) turns).host p) =
        some (call, v) → ∃ bound, call.who.session = some bound ∧
      (((process clock Rat).run (quiescent Nat Rat) turns).shared.isActive clock bound.lease).1 =
        true := by
  intro h
  have hreturns : (returning (((process clock Rat).run (quiescent Nat Rat)
      (checked ++ revoked ++ authorised)).host 0)).map (fun x => x.1.who.session.map
        SessionWriteContext.lease) = some (some 0) := by decide +kernel
  have hinactive : (((process clock Rat).run (quiescent Nat Rat)
      (checked ++ revoked ++ authorised)).shared.isActive clock 0).1 = false := by decide +kernel
  obtain ⟨⟨call, v⟩, hret, hlease⟩ := Option.map_eq_some_iff.mp hreturns
  obtain ⟨bound, hb, hactive⟩ := h _ 0 call v hret
  have hzero : bound.lease = 0 := by simpa [hb] using hlease
  rw [hzero, hinactive] at hactive
  cases hactive

/-- No lease has a deadline, and the turn performs no call but a binding. -/
def quietTurn (c : State Nat Rat) (t : Turn (Choice Rat) (Task Nat Rat)) : Bool :=
  (c.shared.nodes.nodes.all fun l => l.deadline.isNone) &&
    match performs c t with
    | none | some (.bind _) => true
    | _ => false

theorem undisturbed_of_quietTurn {c : State Nat Rat} {t : Turn (Choice Rat) (Task Nat Rat)}
    (h : quietTurn c t = true) : Undisturbed clock c t := by
  simp only [quietTurn, Bool.and_eq_true, List.all_eq_true] at h
  obtain ⟨hdeadline, hperforms⟩ := h
  intro q call k bound _ _ _ j _
  constructor
  · intro l d hl hd
    have hnone := hdeadline l (List.mem_of_getElem? hl)
    rw [hd] at hnone
    cases hnone
  · intro a ha
    rw [ha] at hperforms
    cases a with
    | bind _ => exact id
    | _ => cases hperforms

/-- The same write without the revocation. -/
theorem written_under_lease :
    (returning (((process clock Rat).run (quiescent Nat Rat)
        (checked ++ authorised)).host 0)).isSome = true ∧
      ∀ call v, returning (((process clock Rat).run (quiescent Nat Rat)
        (checked ++ authorised)).host 0) = some (call, v) → v = call.result ∧
      ∃ bound, call.who.session = some bound ∧
        (((process clock Rat).run (quiescent Nat Rat) (checked ++ authorised)).shared.isActive clock
          bound.lease).1 = true := by
  have hrun : (process clock Rat).Along (Undisturbed clock) (quiescent Nat Rat)
      (checked ++ authorised ++ [.act 0 willing]) := by
    have hquiet : (process clock Rat).Along (fun c t => quietTurn c t = true) (quiescent Nat Rat)
        (checked ++ authorised ++ [.act 0 willing]) := by decide +kernel
    exact hquiet.mono fun c t => undisturbed_of_quietTurn
  exact ⟨by decide +kernel, no_write_after_revocation clock hrun⟩

end Sample

end ProjectMaya.Plugin
