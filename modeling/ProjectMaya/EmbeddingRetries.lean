import Mathlib.Algebra.Order.Ring.Rat
import Mathlib.Tactic.Linarith
import ProjectMaya.Logic.Attempts
import ProjectMaya.Logic.Raises

/-! # The retries of the embedding backend

`_post_with_retries` sends a request to the inference API up to `max_retries` times. An error status
that is not transient is raised inside the `try` whose handler retries, and is retried as a network
error is: `disciplined_iff` says when a run keeps to the discipline. -/

namespace ProjectMaya.HFBackend

open Logic

/-- The exceptions that the handlers tell apart. -/
inductive Exn where
  | runtime (message : String)
  /-- `requests.exceptions.HTTPError` -/
  | http (statusCode : Nat)
  /-- any other `requests.exceptions.RequestException` -/
  | request
  | value
  | overflow
  /-- any other `Exception` -/
  | failure
  /-- a `BaseException` that is no `Exception` -/
  | interrupt
  deriving DecidableEq, Repr

/-- The module `requests`, or what is in its place. -/
structure Requests where
  /-- It has the attribute `exceptions`. -/
  exceptions : Bool := true

structure Response (β : Type) where
  statusCode : Nat
  retryAfter : Option String := none
  content : β

/-- What the code asks of Python. -/
structure Host where
  /-- `int` of a text -/
  int : String → Option Int
  /-- `random.random()` at an attempt -/
  random : Nat → Rat
  random_nonneg : ∀ n, 0 ≤ random n

section

variable {β : Type}

/-- `except Exception` -/
def Exn.isException : Exn → Bool
  | .interrupt => false
  | _ => true

/-- `req_exceptions and isinstance(e, req_exceptions.RequestException)` -/
def Requests.isNetwork (m : Requests) : Exn → Bool
  | .http _ | .request => m.exceptions
  | _ => false

/-- `time.sleep` of an integer -/
def sleep (delay : Int) : Except Exn Unit :=
  if delay < 0 then .error .value
  else if 9223372036 < delay then .error .overflow
  else .ok ()

/-- `_backoff_sleep` -/
def backoffSleep (host : Host) (attempt : Nat) (backoffFactor : Rat) : Except Exn Unit := do
  -- `2 ** attempt` is made a float
  ensure (attempt < 1024) .overflow
  let sleep := min 60 (backoffFactor * 2 ^ attempt)
  ensure (0 ≤ sleep * (1 / 2 + host.random attempt * (1 / 2))) .value

/-- `raise_for_status` -/
def Response.raiseForStatus (r : Response β) : Except Exn Unit :=
  if 400 ≤ r.statusCode ∧ r.statusCode < 600 then .error (.http r.statusCode) else .ok ()

def transientStatuses : List Nat := [429, 500, 502, 503, 504]

/-- The pause after a transient status. -/
def honorRetryAfter (host : Host) (attempt : Nat) (backoffFactor : Rat) :
    Option String → Except Exn Unit
  | none | some "" => backoffSleep host attempt backoffFactor
  | some ra =>
    match host.int ra with
    | none => backoffSleep host attempt backoffFactor
    | some delay => (sleep delay).tryCatch fun _ => backoffSleep host attempt backoffFactor

/-! ## `_post_with_retries` -/

variable (host : Host) (m : Requests) (backoffFactor : Rat) (maxRetries : Nat)
  (post : Nat → Except Exn (Response β))

/-- The body of the `try`; `.again` is its `continue`. -/
def send (attempt : Nat) : Except Exn (Try Exn (Response β)) := do
  let r ← post attempt
  if r.statusCode = 200 then return .stop (.ok r)
  if r.statusCode ∈ transientStatuses then
    honorRetryAfter host attempt backoffFactor r.retryAfter
    return .again (.runtime s!"status={r.statusCode}")
  r.raiseForStatus
  return .stop (.ok r)

/-- The `except` clause: it raises, or goes on to the next attempt. -/
def onException (attempt : Nat) (e : Exn) : Except Exn Unit :=
  if e.isException ∧ m.isNetwork e ∧ attempt + 1 ≠ maxRetries then
    backoffSleep host attempt backoffFactor
  else .error e

def turn (attempt : Nat) : Try Exn (Response β) :=
  match send host backoffFactor post attempt with
  | .ok t => t
  | .error e =>
    match onException host m backoffFactor maxRetries attempt e with
    | .ok () => .again e
    | .error e' => .stop (.error e')

/-- `_post_with_retries`; `post` answers the requests in their order. -/
def postWithRetries (reqMod : Option Requests) : Attempts Exn (Response β) :=
  match reqMod with
  | none => ⟨some (.error (.runtime "requests package required for HF Inference API calls")), 0⟩
  | some m => Try.attempts (turn host m backoffFactor maxRetries post) maxRetries 0 none

/-! ## The discipline -/

/-- An error status. -/
def Response.Failed (r : Response β) : Prop := 400 ≤ r.statusCode ∧ r.statusCode < 600

def Response.Transient (r : Response β) : Prop := r.statusCode ∈ transientStatuses

/-- An error status that is not transient. -/
def Response.Refused (r : Response β) : Prop := r.Failed ∧ ¬ r.Transient

/-- A transient status or a network error. -/
def Repeats : Except Exn (Response β) → Prop
  | .ok r => r.Transient
  | .error e => m.isNetwork e = true

/-- What the retries have to keep to, for these answers. -/
structure Disciplined (run : Attempts Exn (Response β)) : Prop where
  bounded : run.made ≤ maxRetries
  repeats : ∀ k, k + 1 < run.made → Repeats m (post k)
  stops : ∀ k < run.made, ∀ r, post k = .ok r → r.Refused →
    run.made = k + 1 ∧ ∃ e, run.result = some (.error e)
  returns : ∀ k < maxRetries, (∀ j < k, Repeats m (post j)) → ∀ r, post k = .ok r → ¬ r.Failed →
    run = ⟨some (.ok r), k + 1⟩
  usedUp : (∀ k < run.made, ∀ r, post k = .ok r → r.Failed) → ∃ e, run.result = some (.error e)

/-- `_backoff_sleep` returns. -/
def CanBackOff (attempt : Nat) : Prop := 0 ≤ backoffFactor ∧ attempt < 1024

/-- `time.sleep` takes what `Retry-After` says. -/
def Response.SaysWhen (host : Host) (r : Response β) : Prop :=
  ∃ ra delay, r.retryAfter = some ra ∧ ra ≠ "" ∧ host.int ra = some delay ∧
    0 ≤ delay ∧ delay ≤ 9223372036

/-- The pause after an answer that is repeated comes to its end. -/
def CanWait (attempt : Nat) : Except Exn (Response β) → Prop
  | .ok r => r.SaysWhen host ∨ CanBackOff backoffFactor attempt
  | .error _ => CanBackOff backoffFactor attempt

/-- No attempt before the last is answered with an error status that is not transient, and every
pause before a response without error status can be made. -/
structure Suited : Prop where
  refused : ∀ k, k + 1 < maxRetries →
    (∀ j < k, Repeats m (post j) ∧ CanWait host backoffFactor j (post j)) →
    ∀ r, post k = .ok r → r.Refused → m.exceptions = false ∨ ¬ CanBackOff backoffFactor k
  waits : ∀ k < maxRetries, (∀ j < k, Repeats m (post j)) → ∀ r, post k = .ok r → ¬ r.Failed →
    ∀ j < k, CanWait host backoffFactor j (post j)

/-! ## One turn -/

omit m maxRetries post in
theorem backoffSleep_ok {attempt : Nat} :
    backoffSleep host attempt backoffFactor = .ok () ↔ CanBackOff backoffFactor attempt := by
  have hpos : 0 < 1 / 2 + host.random attempt * (1 / 2) := by
    have := host.random_nonneg attempt
    linarith
  have hpow : (0 : Rat) < 2 ^ attempt := pow_pos (by decide) attempt
  rw [backoffSleep]
  simp only [bind_eq_ok, ensure_eq_ok, exists_const, CanBackOff]
  rw [and_comm, mul_nonneg_iff_of_pos_right hpos, le_min_iff,
    mul_nonneg_iff_of_pos_right hpow]
  simp

theorem sleep_ok {delay : Int} : sleep delay = .ok () ↔ 0 ≤ delay ∧ delay ≤ 9223372036 := by
  unfold sleep
  split
  · simp
    omega
  · split
    · simp
      omega
    · simp
      omega

theorem honorRetryAfter_ok {r : Response β} {attempt : Nat} :
    honorRetryAfter host attempt backoffFactor r.retryAfter = .ok () ↔
      r.SaysWhen host ∨ CanBackOff backoffFactor attempt := by
  rw [Response.SaysWhen]
  cases r.retryAfter with
  | none =>
    rw [honorRetryAfter, backoffSleep_ok]
    simp
  | some ra =>
    by_cases hra : ra = ""
    · subst hra
      rw [honorRetryAfter, backoffSleep_ok]
      simp
    · rw [honorRetryAfter.eq_3 _ _ _ _ hra]
      cases hint : host.int ra with
      | none => simp [hint, backoffSleep_ok]
      | some delay =>
        cases hsleep : sleep delay with
        | ok u =>
          have := sleep_ok.mp hsleep
          simp [hra, hint, hsleep, this, Except.tryCatch]
        | error e =>
          have : ¬ (0 ≤ delay ∧ delay ≤ 9223372036) := by
            rw [← sleep_ok, hsleep]
            simp
          simp only [hsleep, Except.tryCatch, backoffSleep_ok]
          simp [hint, this]

/-- No pause raises a network error. -/
theorem raisesOnly_backoffSleep (attempt : Nat) :
    RaisesOnly (fun e => m.isNetwork e = false) (backoffSleep host attempt backoffFactor) := by
  rw [backoffSleep]
  simp [Requests.isNetwork]

theorem raisesOnly_honorRetryAfter {attempt : Nat} {ra : Option String} :
    RaisesOnly (fun e => m.isNetwork e = false) (honorRetryAfter host attempt backoffFactor ra) := by
  have hback := raisesOnly_backoffSleep host m backoffFactor attempt
  unfold honorRetryAfter
  split
  · exact hback
  · exact hback
  · split
    · exact hback
    · rename_i delay _
      cases hsleep : sleep delay with
      | ok u => simp [Except.tryCatch]
      | error e => exact hback

/-- The try with this answer asks for another one. -/
def Continues (attempt : Nat) : Except Exn (Response β) → Prop
  | .ok r => (r.Transient ∧ CanWait host backoffFactor attempt (.ok r)) ∨
    -- the slip: `onException` cannot tell this error from a network error
    (r.Refused ∧ m.exceptions = true ∧ attempt + 1 ≠ maxRetries ∧ CanBackOff backoffFactor attempt)
  | .error e => m.isNetwork e = true ∧ attempt + 1 ≠ maxRetries ∧ CanBackOff backoffFactor attempt

theorem Response.Transient.failed {r : Response β} (h : r.Transient) : r.Failed := by
  have hlist : ∀ status ∈ transientStatuses, 400 ≤ status ∧ status < 600 := by decide
  exact hlist r.statusCode h

section

variable {post} {attempt : Nat} {r : Response β}

theorem send_error {e : Exn} (answer : post attempt = .error e) :
    send host backoffFactor post attempt = .error e := by
  rw [send, answer, error_bind]

theorem send_transient (answer : post attempt = .ok r) (status : r.Transient) :
    send host backoffFactor post attempt =
      (honorRetryAfter host attempt backoffFactor r.retryAfter >>= fun _ =>
        .ok (.again (.runtime s!"status={r.statusCode}"))) := by
  have h200 : r.statusCode ≠ 200 := by
    rintro h
    have := status.failed.1
    omega
  have hlist : r.statusCode ∈ transientStatuses := status
  rw [send, answer, ok_bind, if_neg h200, if_pos hlist]
  rfl

theorem send_refused (answer : post attempt = .ok r) (status : r.Refused) :
    send host backoffFactor post attempt = .error (.http r.statusCode) := by
  have h200 : r.statusCode ≠ 200 := by
    rintro h
    have := status.1.1
    omega
  have hlist : r.statusCode ∉ transientStatuses := status.2
  have hfailed : 400 ≤ r.statusCode ∧ r.statusCode < 600 := status.1
  rw [send, answer, ok_bind, if_neg h200, if_neg hlist, Response.raiseForStatus, if_pos hfailed]
  rfl

theorem send_ok (answer : post attempt = .ok r) (status : ¬ r.Failed) :
    send host backoffFactor post attempt = .ok (.stop (.ok r)) := by
  have hlist : r.statusCode ∉ transientStatuses := fun h =>
    status (Response.Transient.failed (r := r) h)
  have hfailed : ¬ (400 ≤ r.statusCode ∧ r.statusCode < 600) := status
  rw [send, answer, ok_bind]
  by_cases h200 : r.statusCode = 200
  · rw [if_pos h200]
    rfl
  · rw [if_neg h200, if_neg hlist, Response.raiseForStatus, if_neg hfailed]
    rfl

theorem onException_ok {e : Exn} :
    onException host m backoffFactor maxRetries attempt e = .ok () ↔
      m.isNetwork e = true ∧ attempt + 1 ≠ maxRetries ∧ CanBackOff backoffFactor attempt := by
  have hexception : m.isNetwork e = true → e.isException = true := by
    cases e <;> simp [Requests.isNetwork, Exn.isException]
  rw [onException]
  split
  · rename_i h
    rw [backoffSleep_ok]
    simp [h.2.1, h.2.2]
  · rename_i h
    simp only [reduceCtorEq, false_iff]
    rintro ⟨hnetwork, hleft, -⟩
    exact h ⟨hexception hnetwork, hnetwork, hleft⟩

/-- The try raises after `e` has left its body, or asks for another one. -/
theorem turn_raised {e : Exn} (h : send host backoffFactor post attempt = .error e) :
    ((turn host m backoffFactor maxRetries post attempt).isAgain ↔
      m.isNetwork e = true ∧ attempt + 1 ≠ maxRetries ∧ CanBackOff backoffFactor attempt) ∧
    ∀ r, turn host m backoffFactor maxRetries post attempt ≠ .stop (.ok r) := by
  rw [← onException_ok host, turn, h]
  cases hhandler : onException host m backoffFactor maxRetries attempt e with
  | ok u => simp [hhandler, Try.isAgain]
  | error e' => simp [hhandler, Try.isAgain]

theorem turn_transient (answer : post attempt = .ok r) (status : r.Transient) :
    ((turn host m backoffFactor maxRetries post attempt).isAgain ↔
      r.SaysWhen host ∨ CanBackOff backoffFactor attempt) ∧
    ∀ r', turn host m backoffFactor maxRetries post attempt ≠ .stop (.ok r') := by
  have hsend := send_transient host backoffFactor answer status
  rw [← honorRetryAfter_ok host]
  cases hpause : honorRetryAfter host attempt backoffFactor r.retryAfter with
  | ok u =>
    rw [hpause, ok_bind] at hsend
    rw [turn, hsend]
    simp [Try.isAgain]
  | error e =>
    rw [hpause, error_bind] at hsend
    have hnetwork := raisesOnly_honorRetryAfter host m backoffFactor e hpause
    have hturn := turn_raised host m backoffFactor maxRetries hsend
    refine ⟨?_, hturn.2⟩
    rw [hturn.1, hnetwork]
    simp

theorem turn_ok (answer : post attempt = .ok r) (status : ¬ r.Failed) :
    turn host m backoffFactor maxRetries post attempt = .stop (.ok r) := by
  rw [turn, send_ok host backoffFactor answer status]

/-- The try returns a response without error status, and no other one. -/
theorem turn_eq_ok : turn host m backoffFactor maxRetries post attempt = .stop (.ok r) ↔
    post attempt = .ok r ∧ ¬ r.Failed := by
  refine ⟨fun h => ?_, fun h => turn_ok host m backoffFactor maxRetries h.1 h.2⟩
  cases hanswer : post attempt with
  | error e =>
    have hsend := send_error host backoffFactor hanswer
    exact absurd h ((turn_raised host m backoffFactor maxRetries hsend).2 r)
  | ok r' =>
    by_cases hfailed : r'.Failed
    · by_cases htransient : r'.Transient
      · exact absurd h ((turn_transient host m backoffFactor maxRetries hanswer htransient).2 r)
      · have hsend := send_refused host backoffFactor hanswer ⟨hfailed, htransient⟩
        exact absurd h ((turn_raised host m backoffFactor maxRetries hsend).2 r)
    · rw [turn_ok host m backoffFactor maxRetries hanswer hfailed] at h
      cases h
      exact ⟨rfl, hfailed⟩

theorem turn_isAgain : (turn host m backoffFactor maxRetries post attempt).isAgain ↔
    Continues host m backoffFactor maxRetries attempt (post attempt) := by
  cases hanswer : post attempt with
  | error e => exact (turn_raised host m backoffFactor maxRetries (send_error host _ hanswer)).1
  | ok r =>
    rw [Continues]
    by_cases hfailed : r.Failed
    · by_cases htransient : r.Transient
      · have hrefused : ¬ r.Refused := fun h => h.2 htransient
        rw [(turn_transient host m backoffFactor maxRetries hanswer htransient).1, CanWait]
        simp [htransient, hrefused]
      · have hsend := send_refused host backoffFactor hanswer ⟨hfailed, htransient⟩
        rw [(turn_raised host m backoffFactor maxRetries hsend).1, Requests.isNetwork]
        simp [htransient, Response.Refused, hfailed]
    · have htransient : ¬ r.Transient := fun h => hfailed h.failed
      rw [turn_ok host m backoffFactor maxRetries hanswer hfailed]
      simp [Try.isAgain, htransient, Response.Refused, hfailed]

theorem continues_of_repeats (hrepeats : Repeats m (post attempt))
    (hwaits : CanWait host backoffFactor attempt (post attempt)) (left : attempt + 1 ≠ maxRetries) :
    Continues host m backoffFactor maxRetries attempt (post attempt) := by
  cases hanswer : post attempt with
  | error e =>
    rw [hanswer] at hrepeats hwaits
    exact ⟨hrepeats, left, hwaits⟩
  | ok r =>
    rw [hanswer] at hrepeats hwaits
    exact .inl ⟨hrepeats, hwaits⟩

/-- A repeated answer is one that is repeated as it should, or one that is refused. -/
theorem Continues.cases (h : Continues host m backoffFactor maxRetries attempt (post attempt)) :
    (Repeats m (post attempt) ∧ CanWait host backoffFactor attempt (post attempt)) ∨
    (∃ r, post attempt = .ok r ∧ r.Refused ∧ m.exceptions = true ∧
      CanBackOff backoffFactor attempt) := by
  cases hanswer : post attempt with
  | error e =>
    rw [hanswer] at h
    exact .inl ⟨h.1, h.2.2⟩
  | ok r =>
    rw [hanswer] at h
    rcases h with h | ⟨hrefused, hexceptions, -, hwaits⟩
    · exact .inl h
    · exact .inr ⟨r, rfl, hrefused, hexceptions, hwaits⟩

end

/-! ## Whole runs -/

section

variable {host m backoffFactor maxRetries post} {run : Attempts Exn (Response β)}

/-- The attempts of `_post_with_retries` with this environment. -/
abbrev Ended (host : Host) (m : Requests) (backoffFactor : Rat) (maxRetries : Nat)
    (post : Nat → Except Exn (Response β)) : Attempts Exn (Response β) → Prop :=
  Try.Ends (turn host m backoffFactor maxRetries post) maxRetries

/-- In a run that is suited, an answer after which another request was sent is one to repeat. -/
theorem Ended.repeats (ended : Ended host m backoffFactor maxRetries post run)
    (suited : Suited host m backoffFactor maxRetries post) {k : Nat} (hk : k + 1 < run.made) :
    Repeats m (post k) ∧ CanWait host backoffFactor k (post k) := by
  induction k using Nat.strongRecOn with
  | ind k ih =>
    have hagain := (turn_isAgain ..).mp (ended.isAgain_of_lt_made hk)
    rcases hagain.cases with hrepeats | ⟨r, hanswer, hrefused, hexceptions, hwaits⟩
    · exact hrepeats
    · have hlt : k + 1 < maxRetries := Nat.lt_of_lt_of_le hk ended.made_le
      have hbefore := fun j (hj : j < k) => ih j hj (by omega)
      rcases suited.refused k hlt hbefore r hanswer hrefused with hnone | hraises
      · rw [hexceptions] at hnone
        cases hnone
      · exact absurd hwaits hraises

/-- The last answer is returned, and has no error status, or the run raises. -/
theorem Ended.last (ended : Ended host m backoffFactor maxRetries post run) :
    (∃ k r, run = ⟨some (.ok r), k + 1⟩ ∧ post k = .ok r ∧ ¬ r.Failed) ∨
    ∃ e, run.result = some (.error e) := by
  cases ended with
  | @stopped k result lt before stop =>
    cases result with
    | ok r =>
      have hturn := (turn_eq_ok host m backoffFactor maxRetries).mp stop
      exact .inl ⟨k, r, rfl, hturn.1, hturn.2⟩
    | error e => exact .inr ⟨e, rfl⟩
  | @usedUp k e last before again => exact .inr ⟨e, rfl⟩

theorem Ended.disciplined (ended : Ended host m backoffFactor maxRetries post run)
    (suited : Suited host m backoffFactor maxRetries post) :
    Disciplined m maxRetries post run where
  bounded := ended.made_le
  repeats k hk := (ended.repeats suited hk).1
  stops k hk r hanswer hrefused := by
    have hmade : run.made = k + 1 := by
      rcases Nat.lt_or_ge (k + 1) run.made with hlt | hge
      · have hrepeats := (ended.repeats suited hlt).1
        rw [hanswer] at hrepeats
        exact absurd hrepeats hrefused.2
      · omega
    refine ⟨hmade, ?_⟩
    rcases ended.last with ⟨i, r', rfl, hanswer', hstatus⟩ | hraised
    · have hik : i = k := Nat.succ_inj.mp hmade
      rw [hik, hanswer] at hanswer'
      cases hanswer'
      exact absurd hrefused.1 hstatus
    · exact hraised
  returns k hk before r hanswer hstatus := by
    refine Try.Ends.stopped_at ended hk (fun j hj => (turn_isAgain ..).mpr ?_)
      (turn_ok host m backoffFactor maxRetries hanswer hstatus)
    exact continues_of_repeats host m backoffFactor maxRetries (before j hj)
      (suited.waits k hk before r hanswer hstatus j hj) (by omega)
  usedUp hall := by
    rcases ended.last with ⟨k, r, rfl, hanswer, hstatus⟩ | hraised
    · exact absurd (hall k (Nat.lt_succ_self k) r hanswer) hstatus
    · exact hraised

theorem Ended.suited (ended : Ended host m backoffFactor maxRetries post run)
    (disciplined : Disciplined m maxRetries post run) :
    Suited host m backoffFactor maxRetries post where
  refused k hk before r hanswer hrefused := by
    by_contra hnot
    rw [not_or, Bool.not_eq_false, not_not] at hnot
    have hcontinues : Continues host m backoffFactor maxRetries k (post k) := by
      rw [hanswer]
      exact .inr ⟨hrefused, hnot.1, by omega, hnot.2⟩
    have hmade : k + 1 < run.made := by
      refine Try.Ends.lt_made ended hk fun j hj => (turn_isAgain ..).mpr ?_
      rcases Nat.lt_succ_iff_lt_or_eq.mp hj with hlt | rfl
      · exact continues_of_repeats host m backoffFactor maxRetries (before j hlt).1
          (before j hlt).2 (by omega)
      · exact hcontinues
    have hrepeats := disciplined.repeats k hmade
    rw [hanswer] at hrepeats
    exact hrefused.2 hrepeats
  waits k hk before r hanswer hstatus j hj := by
    have hrun := disciplined.returns k hk before r hanswer hstatus
    have hagain := ended.isAgain_of_lt_made (k := j) (by rw [hrun]; exact Nat.succ_lt_succ hj)
    rcases ((turn_isAgain ..).mp hagain).cases with hrepeats | ⟨r', hanswer', hrefused, -⟩
    · exact hrepeats.2
    · have hrepeats := before j hj
      rw [hanswer'] at hrepeats
      exact absurd hrepeats hrefused.2

end

/-- The retries keep to the discipline exactly where no attempt before the last is refused, and
every pause before a response without error status can be made. -/
theorem disciplined_iff (positive : 1 ≤ maxRetries) :
    Disciplined m maxRetries post
        (postWithRetries host backoffFactor maxRetries post (some m)) ↔
      Suited host m backoffFactor maxRetries post := by
  have ended : Ended host m backoffFactor maxRetries post
      (postWithRetries host backoffFactor maxRetries post (some m)) :=
    Try.attempts_ends (turn host m backoffFactor maxRetries post) positive
  exact ⟨ended.suited, ended.disciplined⟩

end

namespace Sample

theorem half_nonneg : (0 : Rat) ≤ 1 / 2 := by norm_num

def host : Host where
  int := String.toInt?
  random _ := 1 / 2
  random_nonneg _ := half_nonneg

def answer (statusCode : Nat) : Except Exn (Response String) :=
  .ok { statusCode, content := "" }

/-- It is unavailable at first. -/
def recovers : Nat → Except Exn (Response String)
  | 0 => answer 503
  | _ => answer 200

/-- There is no such model at first. -/
def appears : Nat → Except Exn (Response String)
  | 0 => answer 404
  | _ => answer 200

theorem recovers_suited : Suited host {} (1 / 2) 5 recovers where
  refused k _ _ r hanswer hrefused := by
    cases k with
    | zero =>
      cases hanswer
      exact absurd (by simp [Response.Transient, transientStatuses]) hrefused.2
    | succ k =>
      cases hanswer
      exact absurd hrefused.1 (by simp [Response.Failed])
  waits k hk _ r _ _ j hj := by
    have hcan : CanBackOff (1 / 2) j := ⟨half_nonneg, by omega⟩
    cases j with
    | zero => exact .inr hcan
    | succ j => exact .inr hcan

theorem recovers_disciplined :
    Disciplined {} 5 recovers (postWithRetries host (1 / 2) 5 recovers (some {})) :=
  (disciplined_iff host {} (1 / 2) 5 recovers (by decide)).mpr recovers_suited

theorem appears_repeated :
    ¬ Disciplined {} 2 appears (postWithRetries host (1 / 2) 2 appears (some {})) := by
  intro h
  have hmade : (postWithRetries host (1 / 2) 2 appears (some {})).made = 2 := by decide +kernel
  have hstops := h.stops 0 (by rw [hmade]; decide) _ rfl
    ⟨by simp [Response.Failed], by simp [Response.Transient, transientStatuses]⟩
  rw [hmade] at hstops
  cases hstops.1

end Sample

end ProjectMaya.HFBackend
