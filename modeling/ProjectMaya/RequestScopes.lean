import ProjectMaya.BoundRequests

/-! # The scopes of one request

What a run of `authenticated_request` comes to where every collaborator answers as one choice says:
it ends with the first of its checks that raises, or as its body does within the scopes of the
request (`authenticatedRequest_entered`). -/

namespace ProjectMaya.LocalApi

open Logic

section

variable {T ν α : Type} {files : ResolvedPath → ResolvedPath} {c : Choice ν} {s : Shared T} {t : Thread}
  {identity : RequestIdentity} {body : Code T ν α}

/-! ## Single steps -/

theorem perform_identity (hidentity : t.vars.identity = some identity) :
    (Prog.perform Act.identity : Code T ν _).under c s t = (.ok (some identity), s, t) := by
  rw [← hidentity]
  rfl

theorem perform_resolve (database : ResolvedPath) :
    (Prog.perform (Act.resolve files database) : Code T ν _).under c s t =
      (c.resolve.map fun _ => files database, s, t) := by
  show (Act.resolve files database).next c s t = _
  cases h : c.resolve <;> simp [Act.resolve, h, Except.map]

/-- `except Exception: raise GovernanceBoundaryError(code)` -/
def boundaryFor {α : Type} (code : String) (x : Except Exn α) : Except Exn α :=
  x.mapError fun e => if e.isException then .boundary code else e

theorem anyAs_under {p : Code T ν α} (code : String) {r : Except Exn α} {s' : Shared T}
    {t' : Thread} (h : p.under c s t = (r, s', t')) :
    (anyAs code p).under c s t = (boundaryFor code r, s', t') := by
  show (p.andThen _).under c s t = _
  rw [Prog.under_andThen, h]
  cases r <;> rfl

theorem contract_under : (do
      let ready ← .perform (Act.ask Choice.contract)
      .raiseIf (!ready) .failure : Code T ν Unit).under c s t =
    (do
      let ready ← c.contract
      ensure (ready = true) .failure, s, t) := by
  cases hready : c.contract with
  | error e =>
    have hask : (Prog.perform (Act.ask Choice.contract) : Code T ν _).under c s t = (.error e, s, t) := by
      rw [← hready]
      rfl
    rw [Prog.under_bind_error hask, error_bind]
  | ok ready =>
    have hask : (Prog.perform (Act.ask Choice.contract) : Code T ν _).under c s t = (.ok ready, s, t) := by
      rw [← hready]
      rfl
    rw [Prog.under_bind_ok hask, ok_bind]
    cases ready <;> rfl

/-- The lock is released in the end. -/
theorem released_under (p : Code T ν α) :
    ((p.ensuring (.perform Act.release)).under c s t).1 = (p.under c s t).1 ∧
      ((p.ensuring (.perform Act.release)).under c s t).2.2 = (p.under c s t).2.2 := by
  have hrun := Prog.under_ensuring (p := p) (h := .perform Act.release) (c := c) (s := s) (l := t)
    rfl rfl
  rw [hrun]
  exact ⟨rfl, rfl⟩

/-! ## Handlers -/

/-- `except ActionDeniedError` -/
def Exn.isDenied : Exn → Bool
  | .boundary _ | .actionDenied => true
  | _ => false

/-- The handlers of `_run` let nothing pass but what is no `Exception`. -/
theorem runErrors_under :
    ((runErrors p).under c s t).2 = (p.under c s t).2 ∧
      ((∃ response, ((runErrors p).under c s t).1 = .ok response) ↔
        ∀ e, (p.under c s t).1 = .error e → e.isException = true) := by
  rw [runErrors, Prog.under_andThen]
  cases (p.under c s t).1 with
  | ok response => exact ⟨rfl, by simp [pure, Prog.under]⟩
  | error e =>
    cases e with
    | boundary _ | actionDenied | agentError | failure =>
      exact ⟨rfl, by simp [pure, Prog.under, Exn.isException]⟩
    | cancelled | interrupt => exact ⟨rfl, by simp [Prog.raise, Prog.under, Exn.isException]⟩

theorem deniedAs_under (denied : Response ν) :
    ((deniedAs denied p).under c s t).2 = (p.under c s t).2 ∧
      ((∃ response, ((deniedAs denied p).under c s t).1 = .ok response) ↔
        ∀ e, (p.under c s t).1 = .error e → e.isDenied = true) := by
  rw [deniedAs, Prog.under_andThen]
  cases (p.under c s t).1 with
  | ok response => exact ⟨rfl, by simp [Prog.under]⟩
  | error e =>
    cases e with
    | boundary _ | actionDenied => exact ⟨rfl, by simp [pure, Prog.under, Exn.isDenied]⟩
    | agentError | failure | cancelled | interrupt => exact ⟨rfl, by simp [Prog.under, Exn.isDenied]⟩

/-- A result that is made of another one. -/
theorem map_under {p : Code T ν α} (f : α → Response ν) :
    ((do
      let v ← p
      return f v : Code T ν (Response ν)).under c s t).2 = (p.under c s t).2 ∧
    ∀ e, ((do
      let v ← p
      return f v : Code T ν (Response ν)).under c s t).1 = .error e ↔
        (p.under c s t).1 = .error e := by
  show ((p.andThen _).under c s t).2 = _ ∧ ∀ e, ((p.andThen _).under c s t).1 = _ ↔ _
  rw [Prog.under_andThen]
  cases (p.under c s t).1 with
  | ok v => exact ⟨rfl, by simp [pure, Prog.under]⟩
  | error e => exact ⟨rfl, by simp [Prog.under]⟩

/-! ## Runs that begin with checks -/

/-- What `agent.run` was entered with. -/
def agentRuns (events : List Event) : List (Vars × AgentCall) :=
  events.filterMap fun
    | .entered vars call => some (vars, call)
    | _ => none

/-- A run that begins with these checks ends with one of them, or as its body does in the scopes of
the request. -/
inductive Entered {α : Type} (checks : Except Exn Unit) (b : Binding T files)
    (identity : RequestIdentity) (body : Code T ν α) (t : Thread)
    (run : Except Exn α × Shared T × Thread) : Prop where
  | refused {e : Exn} (before : List Event) (stops : checks = .error e) (result : run.1 = .error e)
      (events : run.2.2.events = t.events ++ before) (calm : agentRuns before = [])
  | inside {s' : Shared T} {t' : Thread} {context : SessionWriteContext} (before : List Event)
      (passes : checks = .ok ()) (owner : identity = b.owner)
      (vars : t'.vars = { identity := some identity, session := some context })
      (fits : Fits b context) (events : t'.events = t.events ++ before)
      (bound : .bound context ∈ before) (calm : agentRuns before = [])
      (result : run.1 = (body.under c s' t').1)
      (after : run.2.2.events = (body.under c s' t').2.2.events)

/-- What goes before a run, and what comes after it, is of no account. -/
theorem Entered.within {checks checks' : Except Exn Unit} {m : Thread}
    {run run' : Except Exn α × Shared T × Thread}
    (h : Entered (c := c) checks b identity body m run) (before : List Event) (hchecks : checks' = checks)
    (hm : m.events = t.events ++ before) (hcalm : agentRuns before = []) (hresult : run'.1 = run.1)
    (hafter : run'.2.2.events = run.2.2.events) :
    Entered (c := c) checks' b identity body t run' := by
  have hruns : ∀ new, agentRuns (before ++ new) = agentRuns new := by
    intro new
    rw [agentRuns, List.filterMap_append]
    rw [agentRuns] at hcalm
    rw [hcalm]
    rfl
  cases h with
  | @refused e new stops result events calm =>
    refine .refused (before ++ new) (hchecks.trans stops) (hresult.trans result) ?_ ?_
    · rw [hafter, events, hm, List.append_assoc]
    · rw [hruns, calm]
  | @inside s' t' context new passes owner vars fits events bound calm result after =>
    refine .inside (before ++ new) (hchecks.trans passes) owner vars fits ?_
      (List.mem_append_right _ bound) ?_ (hresult.trans result) (hafter.trans after)
    · rw [events, hm, List.append_assoc]
    · rw [hruns, calm]

theorem requestIdentity_eq {actorId classification : String} {i : RequestIdentity}
    (h : requestIdentity actorId classification = .ok i) : i = ⟨actorId, classification⟩ := by
  rw [requestIdentity] at h
  simp only [bind_eq_ok, pure_eq_ok] at h
  obtain ⟨-, -, -, -, rfl⟩ := h
  rfl

variable (body) in
theorem bindRequestIdentity_under
    (h : requestIdentity identity.actorId identity.dataClassification = .ok identity) :
    ∃ t', t'.vars.identity = some identity ∧ t'.events = t.events ∧
      ((bindRequestIdentity identity.actorId identity.dataClassification body).under c s t).1 =
        (body.under c s t').1 ∧
      ((bindRequestIdentity identity.actorId identity.dataClassification body).under c s t).2.2.events =
        (body.under c s t').2.2.events := by
  refine ⟨{ t with vars := { t.vars with identity := some identity } }, rfl, rfl, ?_⟩
  rw [bindRequestIdentity, h]
  simp only [checked, Except.mapError, Prog.done_ok_bind]
  rw [Prog.under_bind_ok (p := .perform (Act.setIdentity identity)) rfl]
  have hbody := Prog.under_ensuring (p := body)
    (h := .perform (Act.resetIdentity t.vars.identity)) (c := c) (s := s)
    (l := { t with vars := { t.vars with identity := some identity } }) rfl rfl
  rw [hbody]
  exact ⟨rfl, rfl⟩

end

/-! ## `authenticated_request` -/

section

variable {T ν α : Type} [LinearOrder T] [Add T] [OfNat T 0] [OfNat T 3600]
  {files : ResolvedPath → ResolvedPath} (c : Choice ν)

/-- The checks of `bind_session_write`, and the path of the database. -/
def sessionEntry (b : Binding T files) (requestId : String) : Except Exn Unit := do
  (sessionChecks requestId b.sessionId b.operations b.timeout).mapError Exn.ofRaised
  c.resolve

/-- What the scopes of a request check once its record is written. -/
def scopeEntry (b : Binding T files) (identity : RequestIdentity)
    (requestId : String) : Except Exn Unit := do
  let _ ← (requestIdentity identity.actorId identity.dataClassification).mapError Exn.ofRaised
  sessionEntry c b requestId

/-- What a request checks once it has the lock. -/
def lockedEntry (b : Binding T files) (identity : RequestIdentity) : Except Exn Unit := do
  let requestId ← c.requestId
  boundaryFor "governance.audit_unavailable" c.audit
  scopeEntry c b identity requestId

/-- What `authenticated_request` checks before its body. -/
def entry (b : Binding T files) (identity : RequestIdentity) (locked : Option Nat) :
    Except Exn Unit := do
  ensure (identity = b.owner) (.boundary "governance.session_owner_mismatch")
  boundaryFor "governance.session_contract_unavailable" do
    let ready ← c.contract
    ensure (ready = true) .failure
  ensure (locked = none) (.boundary "governance.session_request_busy")
  lockedEntry c b identity

variable {c} (clock : Clock T) {b : Binding T files} {body : Code T ν α} {s : Shared T} {t : Thread}
  {identity : RequestIdentity}

omit [Add T] [OfNat T 0] [OfNat T 3600] in
theorem sessionScope_under (body : Code T ν α) (context : SessionWriteContext) :
    ((sessionScope clock context body).under c s t).1 =
        (body.under c s { t with
          vars := { t.vars with session := some context }
          events := t.events ++ [.bound context] }).1 ∧
      ((sessionScope clock context body).under c s t).2.2.events =
        (body.under c s { t with
          vars := { t.vars with session := some context }
          events := t.events ++ [.bound context] }).2.2.events := by
  have hrun : (sessionScope clock context body).under c s t =
      (body.andThen fun result => do
        .perform (Act.leaveLease clock context.lease result)
        .perform (Act.resetSession t.vars.session)
        .done result).under c s { t with
          vars := { t.vars with session := some context }
          events := t.events ++ [.bound context] } := rfl
  rw [hrun, Prog.under_andThen]
  exact ⟨rfl, rfl⟩

variable (body) in
/-- The scope is not entered. -/
theorem bindSessionWrite_error {requestId : String} {e : Exn}
    (hidentity : t.vars.identity = some identity) (h : sessionEntry c b requestId = .error e) :
    ((bindSessionWrite clock requestId b body).under c s t).1 = .error e ∧
      ((bindSessionWrite clock requestId b body).under c s t).2.2.events = t.events := by
  rw [bindSessionWrite, Prog.under_bind_ok (perform_identity hidentity)]
  cases hchecks : sessionChecks requestId b.sessionId b.operations b.timeout with
  | error e' =>
    rw [sessionEntry, hchecks] at h
    cases h
    exact ⟨rfl, rfl⟩
  | ok u =>
    rw [sessionEntry, hchecks] at h
    have hresolve : c.resolve = .error e := h
    simp only [fetch_some, checked, Except.mapError, Prog.done_ok_bind]
    rw [Prog.under_bind_ok (p := .perform (Act.bindLease clock b.timeout)) rfl,
      Prog.under_bind_error (e := e) (by rw [perform_resolve, hresolve]; rfl)]
    exact ⟨rfl, rfl⟩

variable (body) in
/-- The body runs in the context of the binding. -/
theorem bindSessionWrite_ok {requestId : String} (hidentity : t.vars.identity = some identity)
    (howner : identity = b.owner) (h : sessionEntry c b requestId = .ok ()) :
    ∃ s' t' context, t'.vars = { identity := some identity, session := some context } ∧
      Fits b context ∧ t'.events = t.events ++ [.bound context] ∧
      ((bindSessionWrite clock requestId b body).under c s t).1 = (body.under c s' t').1 ∧
      ((bindSessionWrite clock requestId b body).under c s t).2.2.events =
        (body.under c s' t').2.2.events := by
  rw [bindSessionWrite, Prog.under_bind_ok (perform_identity hidentity)]
  cases hchecks : sessionChecks requestId b.sessionId b.operations b.timeout with
  | error e =>
    rw [sessionEntry, hchecks] at h
    cases h
  | ok u =>
    rw [sessionEntry, hchecks] at h
    have hresolve : c.resolve = .ok () := h
    simp only [fetch_some, checked, Except.mapError, Prog.done_ok_bind]
    rw [Prog.under_bind_ok (p := .perform (Act.bindLease clock b.timeout)) rfl,
      Prog.under_bind_ok (a := files b.database) (by rw [perform_resolve, hresolve]; rfl),
      Prog.under_bind_ok (p := .perform Act.position) rfl]
    obtain ⟨hresult, hevents⟩ := sessionScope_under (c := c) (t := t) clock body _
    refine ⟨_, _, _, ?_, ?_, rfl, hresult, hevents⟩
    · rw [← hidentity]
    · exact ⟨howner, rfl, b.resolved, rfl⟩

theorem scopes_entered {requestId : String} (howner : identity = b.owner) :
    Entered (c := c) (scopeEntry c b identity requestId) b identity body t
      ((bindRequestIdentity identity.actorId identity.dataClassification
        (bindSessionWrite clock requestId b body)).under c s t) := by
  cases hidentity : requestIdentity identity.actorId identity.dataClassification with
  | error e =>
    refine .refused (e := .ofRaised e) [] ?_ ?_ ?_ rfl
    · rw [scopeEntry, hidentity]
      rfl
    · rw [bindRequestIdentity, hidentity]
      rfl
    · rw [bindRequestIdentity, hidentity, List.append_nil]
      rfl
  | ok i =>
    obtain rfl : i = identity := requestIdentity_eq hidentity
    have hentry : scopeEntry c b i requestId = sessionEntry c b requestId := by
      rw [scopeEntry, hidentity]
      rfl
    obtain ⟨t₁, hvars, hevents, hresult, hafter⟩ := bindRequestIdentity_under
      (bindSessionWrite clock requestId b body) (c := c) (s := s) (t := t) hidentity
    cases hchecks : sessionEntry c b requestId with
    | error e =>
      obtain ⟨hrun, hsame⟩ := bindSessionWrite_error clock body (s := s) hvars hchecks
      refine .refused [] (hentry.trans hchecks) (hresult.trans hrun) ?_ rfl
      rw [hafter, hsame, hevents, List.append_nil]
    | ok u =>
      obtain ⟨s', t', context, hv, hfits, he, hrun, hsame⟩ :=
        bindSessionWrite_ok clock body (s := s) hvars howner hchecks
      refine .inside [.bound context] (hentry.trans hchecks) howner hv hfits ?_
        List.mem_cons_self rfl (hresult.trans hrun) (hafter.trans hsame)
      rw [he, hevents]

variable (body) in
theorem lockedRequest_entered (howner : identity = b.owner) :
    Entered (c := c) (lockedEntry c b identity) b identity body t
      ((lockedRequest clock b identity body).under c s t) := by
  rw [lockedRequest, lockedEntry]
  cases hid : c.requestId with
  | error e =>
    have hask : (Prog.perform (Act.ask Choice.requestId) : Code T ν _).under c s t = (.error e, s, t) := by
      rw [← hid]
      rfl
    rw [Prog.under_bind_error hask]
    exact .refused [] rfl rfl (List.append_nil _).symm rfl
  | ok requestId =>
    have hask : (Prog.perform (Act.ask Choice.requestId) : Code T ν _).under c s t =
        (.ok requestId, s, t) := by
      rw [← hid]
      rfl
    rw [Prog.under_bind_ok hask, ok_bind]
    cases haudit : c.audit with
    | error e =>
      have hwrite : (Prog.perform (Act.write (Reader.requestRecord identity b.sessionId requestId)) :
          Code T ν _).under c s t = (.error e, s, t) := by
        show (Act.write _).next c s t = _
        simp only [Act.write, haudit]
      rw [Prog.under_bind_error (anyAs_under _ hwrite)]
      exact .refused [] rfl rfl (List.append_nil _).symm rfl
    | ok u =>
      have hwrite : (Prog.perform (Act.write (Reader.requestRecord identity b.sessionId requestId)) :
          Code T ν _).under c s t = (.ok (), s, { t with events := t.events ++
            [.wrote (Reader.requestRecord identity b.sessionId requestId)] }) := by
        show (Act.write _).next c s t = _
        simp only [Act.write, haudit]
      rw [Prog.under_bind_ok (anyAs_under _ hwrite)]
      exact (scopes_entered clock howner).within [_] rfl rfl rfl rfl rfl

variable (body identity) in
theorem authenticatedRequest_entered :
    Entered (c := c) (entry c b identity s.locked) b identity body t
      ((authenticatedRequest clock b identity body).under c s t) := by
  rw [authenticatedRequest, entry]
  by_cases howner : identity = b.owner
  · rw [ensure_pos howner, ok_bind, refuseIf, Prog.raiseIf, if_neg (not_not.mpr howner),
      Prog.done_ok_bind]
    have hcontract := anyAs_under "governance.session_contract_unavailable"
      (contract_under (c := c) (s := s) (t := t))
    cases hchecks : boundaryFor "governance.session_contract_unavailable" (do
        let ready ← c.contract
        ensure (ready = true) .failure) with
    | error e =>
      rw [hchecks] at hcontract
      rw [Prog.under_bind_error hcontract, error_bind]
      exact .refused [] rfl rfl (List.append_nil _).symm rfl
    | ok u =>
      rw [hchecks] at hcontract
      rw [Prog.under_bind_ok hcontract, ok_bind]
      cases hlocked : s.locked with
      | some p =>
        have hacquire : (Prog.perform Act.acquire : Code T ν _).under c s t =
            (.error (.boundary "governance.session_request_busy"), s, t) := by
          show Act.acquire.next c s t = _
          simp only [Act.acquire, hlocked]
        rw [Prog.under_bind_error hacquire]
        exact .refused [] rfl rfl (List.append_nil _).symm rfl
      | none =>
        have hacquire : (Prog.perform Act.acquire : Code T ν _).under c s t =
            (.ok (), { s with locked := some t.id }, t) := by
          show Act.acquire.next c s t = _
          simp only [Act.acquire, hlocked]
        rw [Prog.under_bind_ok hacquire]
        have hrun := lockedRequest_entered clock body (c := c)
          (s := { s with locked := some t.id }) (t := t) howner
        obtain ⟨hresult, hafter⟩ := released_under (lockedRequest clock b identity body) (c := c)
          (s := { s with locked := some t.id }) (t := t)
        exact hrun.within [] rfl (List.append_nil _).symm rfl hresult (congrArg Thread.events hafter)
  · rw [ensure_neg howner, error_bind, refuseIf, Prog.raiseIf, if_pos howner, Prog.raise,
      Prog.done_error_bind]
    exact .refused [] rfl rfl (List.append_nil _).symm rfl

end

end ProjectMaya.LocalApi
