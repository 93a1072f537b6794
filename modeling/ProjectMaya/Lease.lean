import Mathlib.Order.Lattice
import ProjectMaya.Logic.Forest
import Mathlib.Order.Basic
import Mathlib.Order.Defs.LinearOrder
import Mathlib.Order.Monotone.Defs
import Mathlib.Order.Nat

/-! # Request leases

`_SessionWriteLease` nodes hang under each other by `parent`.  A node is active
while it and every node above it is; a deadline is noticed only when somebody
reads the clock, and noticing it revokes the node.

Main statements, for every forest built by `bind_session_write` and handoffs
and every order of calls (`run`):

* a node once seen inactive stays inactive, with everything below it
  (`shut_of_isActive_false`, `run_shut`);
* a termination reason is assigned once, and "completed" only before the
  deadline (`run_recorded`);
* `revokeRequest` ends every node of the tree (`revoke_closes`).

`leaseTree` puts them together.
-/

namespace ProjectMaya

open Logic

/-- The reasons `revoke` accepts. -/
inductive Termination where
  | completed | cancelled | timeout | failed
  deriving DecidableEq, Repr

def Termination.parse : String → Option Termination
  | "completed" => some .completed
  | "cancelled" => some .cancelled
  | "timeout" => some .timeout
  | "failed" => some .failed
  | _ => none

structure Lease (T : Type) where
  active : Bool := true
  parent : Option Nat := none
  deadline : Option T := none
  termination : Option Termination := none
  deriving DecidableEq, Repr

/-- `lease.active = False`. -/
def Lease.deactivate {T : Type} (l : Lease T) : Lease T := { l with active := false }

/-- The two writes of `revoke`: `active`, and `termination` if it is still `None`. -/
def Lease.terminate {T : Type} (reason : Termination) (l : Lease T) : Lease T :=
  { l with active := false, termination := l.termination.or (some reason) }

/-- `monotonic()`: the values that successive readings return. -/
structure Clock (T : Type) [LinearOrder T] where
  reading : Nat → T
  monotone : Monotone reading

/-- One assignment of a termination reason: the node, the reason, the last clock
reading before it. -/
structure Assignment (T : Type) where
  node : Nat
  reason : Termination
  time : T
  deriving DecidableEq, Repr

/-- All leases of a process.  `assigned` is the history of the writes to
`termination`; no call reads it. -/
structure Leases (T : Type) where
  nodes : Forest (Lease T) Lease.parent := .empty
  reads : Nat := 0
  assigned : List (Assignment T) := []

section Model

variable {T : Type} [LinearOrder T] (clock : Clock T)

namespace Leases

def lease? (s : Leases T) (i : Nat) : Option (Lease T) := s.nodes.get? i

/-- The latest reading of the clock. -/
def now (s : Leases T) : T := clock.reading s.reads

/-- Another reading. -/
def monotonic (s : Leases T) : Leases T := { s with reads := s.reads + 1 }

def deactivate (i : Nat) (s : Leases T) : Leases T :=
  { s with nodes := s.nodes.update i Lease.deactivate (fun _ => rfl) }

def terminate (i : Nat) (reason : Termination) (s : Leases T) : Leases T :=
  match s.lease? i with
  | none => s
  | some lease =>
    { s with
      nodes := s.nodes.update i (Lease.terminate reason) (fun _ => rfl)
      assigned := match lease.termination with
        | none => s.assigned ++ [⟨i, reason, s.now clock⟩]
        | some _ => s.assigned }

/-- `_SessionWriteLease.revoke` after its check of the reason's text. -/
def revoke (i : Nat) (reason : Termination) (s : Leases T) : Leases T :=
  match reason, (s.lease? i).bind Lease.deadline with
  | .completed, some deadline =>
    let s := s.monotonic
    if deadline ≤ s.now clock then s.terminate clock i .timeout
    else s.terminate clock i .completed
  | _, _ => s.terminate clock i reason

/-- `_SessionWriteLease.revoke`. -/
def revokeText (i : Nat) (reason : String) (s : Leases T) : Except String (Leases T) :=
  match Termination.parse reason with
  | none => .error "governance.request_termination_invalid"
  | some reason => .ok (s.revoke clock i reason)

/-- `_SessionWriteLease.revoke_request`: the root of the tree, then the node itself. -/
def revokeRequest (i : Nat) (reason : String) (s : Leases T) : Except String (Leases T) :=
  match s.revokeText clock (s.nodes.root i) reason with
  | .error e => .error e
  | .ok s => s.revokeText clock i reason

/-- The part of `is_active` before its `return`: a passed deadline revokes the node. -/
def expire (i : Nat) (s : Leases T) : Leases T :=
  match (s.lease? i).bind Lease.deadline with
  | none => s
  | some deadline =>
    let s := s.monotonic
    if deadline ≤ s.now clock then s.revoke clock i .timeout else s

/-- `_SessionWriteLease.is_active`.  It asks the parent only when the node itself is
active, and each node it asks may be revoked on the way. -/
def isActive (i : Nat) (s : Leases T) : Bool × Leases T :=
  match _h : s.lease? i with
  | none => (false, s)
  | some lease =>
    let s' := s.expire clock i
    match s'.lease? i with
    | none => (false, s')
    | some l =>
      if l.active then
        match _hp : lease.parent with
        | none => (true, s')
        | some p => s'.isActive p
      else (false, s')
termination_by i
decreasing_by exact s.nodes.up_lt i p lease _h _hp

/-- `lease = _SessionWriteLease(deadline=…)` of `bind_session_write`. -/
def bindSessionWrite [Add T] (timeout : Option T) (s : Leases T) : Leases T :=
  match timeout with
  | none => { s with nodes := s.nodes.push {} (by simp) }
  | some timeout =>
    let s := s.monotonic
    { s with nodes := s.nodes.push { deadline := some (s.now clock + timeout) } (by simp) }

/-- `_SessionWriteLease(parent=…)`.  A parent is a lease that exists. -/
def derive (parent : Nat) (s : Leases T) : Leases T :=
  if h : parent < s.nodes.size then
    { s with nodes := s.nodes.push { parent := some parent } (by simpa using h) }
  else s

/-- `_bind_session_handoff`: refused unless the source and the parent are active. -/
def bindSessionHandoff (source parent : Nat) (s : Leases T) : Except String Unit × Leases T :=
  match s.isActive clock source with
  | (false, s) => (.error "governance.session_handoff_expired", s)
  | (true, s) =>
    match s.isActive clock parent with
    | (false, s) => (.error "governance.session_handoff_expired", s)
    | (true, s) => (.ok (), s.derive parent)

end Leases

/-- How the body of a `bind_session_write` scope ends. -/
inductive Exit where
  | normal | cancelled | raised
  deriving DecidableEq, Repr

/-- The `except` and `finally` clauses of `bind_session_write`. -/
def Leases.exitScope (i : Nat) : Exit → Leases T → Leases T
  | .normal, s => s.revoke clock i .completed
  | .cancelled, s => (s.revoke clock i .cancelled).revoke clock i .completed
  | .raised, s => (s.revoke clock i .failed).revoke clock i .completed

/-- What a host and its workers can do with leases. -/
inductive LeaseCall (T : Type) where
  | bind (timeout : Option T)
  | derive (parent : Nat)
  | handoff (source parent : Nat)
  | revoke (node : Nat) (reason : String)
  | revokeRequest (node : Nat) (reason : String)
  | exitScope (node : Nat) (exit : Exit)
  | exitHandoff (node : Nat)
  | isActive (node : Nat)
  | tick
  deriving DecidableEq, Repr

namespace Leases

variable [Add T]

/-- A call that raises leaves the leases as they were. -/
def step (s : Leases T) : LeaseCall T → Leases T
  | .bind timeout => s.bindSessionWrite clock timeout
  | .derive parent => s.derive parent
  | .handoff source parent => (s.bindSessionHandoff clock source parent).2
  | .revoke i reason => ((s.revokeText clock i reason).toOption).getD s
  | .revokeRequest i reason => ((s.revokeRequest clock i reason).toOption).getD s
  | .exitScope i exit => s.exitScope clock i exit
  | .exitHandoff i => s.deactivate i
  | .isActive i => (s.isActive clock i).2
  | .tick => s.monotonic

def run (s : Leases T) (calls : List (LeaseCall T)) : Leases T :=
  calls.foldl (step clock) s

end Leases

end Model

/-! ## What one call can do to the forest -/

namespace Leases

section Latches

variable {T : Type}

/-- The latch of a lease: `active` has been set to `False`. -/
def Closed (l : Lease T) : Prop := l.active = false

/-- What may happen to a lease: closed leases stay closed, a reason stays as it was
first assigned, a deadline does not move. -/
structure Evolves (a b : Lease T) : Prop where
  closed : Closed a → Closed b
  termination : ∀ r, a.termination = some r → b.termination = some r
  deadline : b.deadline = a.deadline

theorem Evolves.refl (a : Lease T) : Evolves a a := ⟨id, fun _ => id, rfl⟩

theorem Evolves.trans (a b c : Lease T) (h : Evolves a b) (h' : Evolves b c) : Evolves a c :=
  ⟨fun x => h'.closed (h.closed x), fun r x => h'.termination r (h.termination r x),
    h'.deadline.trans h.deadline⟩

theorem evolves_deactivate (a : Lease T) : Evolves a a.deactivate :=
  ⟨fun _ => rfl, fun _ => id, rfl⟩

theorem evolves_terminate (r : Termination) (a : Lease T) : Evolves a (a.terminate r) :=
  ⟨fun _ => rfl, fun _ h => by simp [Lease.terminate, h], rfl⟩

theorem closed_of_evolves (a b : Lease T) (h : Evolves a b) : Closed a → Closed b := h.closed

/-- `s'` has every lease of `s`, under the same parent. -/
def Grows (s s' : Leases T) : Prop := Forest.Grows Evolves s.nodes s'.nodes

/-- Some lease on the way up from `i` is closed. -/
def Shut (s : Leases T) (i : Nat) : Prop := s.nodes.Shut Closed i

theorem Grows.refl (s : Leases T) : Grows s s :=
  Forest.Grows.refl Evolves.refl _

theorem Grows.trans {s t u : Leases T} (h : Grows s t) (h' : Grows t u) : Grows s u :=
  Forest.Grows.trans Evolves.trans h h'

theorem monotonic_grows (s : Leases T) : Grows s s.monotonic := Grows.refl s

theorem deactivate_grows (i : Nat) (s : Leases T) : Grows s (s.deactivate i) := by
  exact Forest.grows_update Evolves.refl s.nodes i Lease.deactivate (fun _ => rfl) evolves_deactivate

theorem lease?_deactivate (i j : Nat) (s : Leases T) :
    (s.deactivate i).lease? j =
      if i = j then (s.lease? j).map Lease.deactivate else s.lease? j :=
  s.nodes.get?_update i Lease.deactivate (fun _ => rfl) j

theorem derive_grows (p : Nat) (s : Leases T) : Grows s (s.derive p) := by
  unfold derive
  split
  · rename_i h
    exact Forest.grows_push Evolves.refl _ _ (by simpa using h)
  · exact Grows.refl s

end Latches

section Growth

variable {T : Type} [LinearOrder T] (clock : Clock T)

theorem terminate_grows (i : Nat) (r : Termination) (s : Leases T) :
    Grows s (s.terminate clock i r) := by
  unfold terminate
  split
  · exact Grows.refl s
  · exact Forest.grows_update Evolves.refl s.nodes i (Lease.terminate r) (fun _ => rfl)
      (evolves_terminate r)

theorem revoke_grows (i : Nat) (r : Termination) (s : Leases T) :
    Grows s (s.revoke clock i r) := by
  unfold revoke
  split
  · dsimp only
    split <;> exact (monotonic_grows s).trans (terminate_grows clock i _ _)
  · exact terminate_grows clock i _ s

theorem expire_grows (i : Nat) (s : Leases T) : Grows s (s.expire clock i) := by
  unfold expire
  split
  · exact Grows.refl s
  · dsimp only
    split
    · exact (monotonic_grows s).trans (revoke_grows clock i _ _)
    · exact monotonic_grows s

/-- What a query did, read off its definition: it expired the node, and went on to the
parent only if the node was still active. -/
theorem isActive_cases (i : Nat) (s : Leases T) {lease : Lease T} (h : s.lease? i = some lease) :
    ∃ l, (s.expire clock i).lease? i = some l ∧ l.parent = lease.parent ∧
      ((l.active = false ∧ s.isActive clock i = (false, s.expire clock i)) ∨
       (l.active = true ∧ lease.parent = none ∧ s.isActive clock i = (true, s.expire clock i)) ∨
       (l.active = true ∧ ∃ p, lease.parent = some p ∧ p < i ∧
          s.isActive clock i = (s.expire clock i).isActive clock p)) := by
  obtain ⟨l, hl, hup, _⟩ := expire_grows clock i s i lease h
  refine ⟨l, hl, hup, ?_⟩
  have hl' : (s.expire clock i).lease? i = some l := hl
  rw [isActive]
  split
  · rename_i hn; rw [h] at hn; cases hn
  · rename_i lease' h'
    rw [h] at h'
    cases h'
    simp only [hl']
    cases ha : l.active with
    | false => left; simp
    | true =>
      right
      simp only [if_true]
      split
      · rename_i hp; exact .inl ⟨trivial, hp, rfl⟩
      · rename_i p hp; exact .inr ⟨trivial, p, hp, s.nodes.up_lt i p lease h hp, rfl⟩

theorem isActive_grows (i : Nat) (s : Leases T) : Grows s (s.isActive clock i).2 := by
  induction i using Nat.strongRecOn generalizing s with
  | ind i ih =>
    cases h : s.lease? i with
    | none =>
      rw [isActive]
      split
      · exact Grows.refl s
      · rename_i h'; rw [h] at h'; cases h'
    | some lease =>
      have hx := expire_grows clock i s
      obtain ⟨l, _, _, ⟨_, e⟩ | ⟨_, _, e⟩ | ⟨_, p, _, hp, e⟩⟩ := isActive_cases clock i s h
      · rw [e]; exact hx
      · rw [e]; exact hx
      · rw [e]; exact hx.trans (ih p hp _)

theorem revokeText_grows {i : Nat} {reason : String} {s t : Leases T}
    (h : s.revokeText clock i reason = .ok t) : Grows s t := by
  unfold revokeText at h
  split at h
  · cases h
  · cases h; exact revoke_grows clock i _ s

theorem revokeRequest_cases {i : Nat} {reason : String} {s t : Leases T}
    (h : s.revokeRequest clock i reason = .ok t) :
    ∃ r, Termination.parse reason = some r ∧
      t = (s.revoke clock (s.nodes.root i) r).revoke clock i r := by
  unfold revokeRequest revokeText at h
  cases hr : Termination.parse reason with
  | none => simp [hr] at h
  | some r => simp only [hr, Except.ok.injEq] at h; exact ⟨r, rfl, h.symm⟩

theorem revokeRequest_grows {i : Nat} {reason : String} {s t : Leases T}
    (h : s.revokeRequest clock i reason = .ok t) : Grows s t := by
  obtain ⟨r, _, rfl⟩ := revokeRequest_cases clock h
  exact (revoke_grows clock _ r s).trans (revoke_grows clock i r _)

/-! ## Inactive for ever -/

theorem isActive_false_of_shut {i : Nat} {s : Leases T} (h : s.Shut i) :
    (s.isActive clock i).1 = false := by
  induction i using Nat.strongRecOn generalizing s with
  | ind i ih =>
    cases hi : s.lease? i with
    | none =>
      rw [isActive]
      split
      · rfl
      · rename_i h'; rw [hi] at h'; cases h'
    | some lease =>
      obtain ⟨l, hl, hup, hcases⟩ := isActive_cases clock i s hi
      have hshut : (s.expire clock i).Shut i := h.grows closed_of_evolves (expire_grows clock i s)
      obtain ⟨k, a, hk, ha, hc⟩ := hshut
      rcases hcases with ⟨_, e⟩ | ⟨hact, hp, e⟩ | ⟨hact, p, hp, hlt, e⟩
      · rw [e]
      · -- an active root: the closed lease on the way up would be the root itself
        cases hk with
        | refl =>
          have : a = l := by rw [lease?, ha] at hl; cases hl; rfl
          subst this
          rw [hc] at hact; cases hact
        | up ha' hp' _ =>
          rw [lease?, ha'] at hl; cases hl
          rw [hup, hp] at hp'; cases hp'
      · rw [e]
        refine ih p hlt ?_
        cases hk with
        | refl =>
          have : a = l := by rw [lease?, ha] at hl; cases hl; rfl
          subst this
          rw [hc] at hact; cases hact
        | up ha' hp' hk' =>
          rw [lease?, ha'] at hl; cases hl
          rw [hup, hp] at hp'; cases hp'
          exact ⟨k, a, hk', ha, hc⟩

theorem shut_of_isActive_false {i : Nat} {s : Leases T} (hi : i < s.nodes.size)
    (h : (s.isActive clock i).1 = false) : (s.isActive clock i).2.Shut i := by
  induction i using Nat.strongRecOn generalizing s with
  | ind i ih =>
    obtain ⟨lease, hl0⟩ := s.nodes.exists_get? hi
    have hx := expire_grows clock i s
    obtain ⟨l, hl, hup, ⟨hact, e⟩ | ⟨_, _, e⟩ | ⟨_, p, hp, hlt, e⟩⟩ :=
      isActive_cases clock i s hl0
    · rw [e]; exact ⟨i, l, .refl i, hl, hact⟩
    · rw [e] at h; cases h
    · rw [e] at h ⊢
      have hshut := ih p hlt (Forest.Grows.size_le hx (Nat.lt_trans hlt hi)) h
      obtain ⟨b, hb, hbup, _⟩ := isActive_grows clock p _ i l hl
      refine hshut.below (.up hb ?_ (.refl p))
      rw [hbup, hup, hp]

variable [Add T]

theorem step_grows (s : Leases T) (c : LeaseCall T) : Grows s (s.step clock c) := by
  cases c with
  | bind timeout =>
    cases timeout with
    | none => exact Forest.grows_push Evolves.refl _ _ (by simp)
    | some t => exact Forest.grows_push Evolves.refl s.nodes _ (by simp)
  | derive p => exact derive_grows p s
  | handoff i p =>
    have h1 := isActive_grows clock i s
    simp only [step, bindSessionHandoff]
    split
    · rename_i e; rw [e] at h1; exact h1
    · rename_i s1 e
      rw [e] at h1
      have h2 := isActive_grows clock p s1
      split
      · rename_i e'; rw [e'] at h2; exact h1.trans h2
      · rename_i e'; rw [e'] at h2; exact h1.trans (h2.trans (derive_grows p _))
  | revoke i reason =>
    simp only [step]
    cases h : s.revokeText clock i reason with
    | error e => exact Grows.refl s
    | ok t => exact revokeText_grows clock h
  | revokeRequest i reason =>
    simp only [step]
    cases h : s.revokeRequest clock i reason with
    | error e => exact Grows.refl s
    | ok t => exact revokeRequest_grows clock h
  | exitScope i exit =>
    cases exit with
    | normal => exact revoke_grows clock i _ s
    | cancelled => exact (revoke_grows clock i _ s).trans (revoke_grows clock i _ _)
    | raised => exact (revoke_grows clock i _ s).trans (revoke_grows clock i _ _)
  | exitHandoff i => exact deactivate_grows i s
  | isActive i => exact isActive_grows clock i s
  | tick => exact monotonic_grows s

theorem run_grows (calls : List (LeaseCall T)) (s : Leases T) : Grows s (s.run clock calls) := by
  induction calls generalizing s with
  | nil => exact Grows.refl s
  | cons c calls ih => exact (step_grows clock s c).trans (ih _)

end Growth

/-! ## One termination reason, and no late completion -/

section History

variable {T : Type} [LinearOrder T]

/-- The history agrees with the leases: the reasons they carry are the ones assigned, no
lease was assigned two, and "completed" was assigned before the deadline. -/
structure Recorded (s : Leases T) : Prop where
  unassigned : ∀ i l, s.lease? i = some l → l.termination = none →
    ∀ e ∈ s.assigned, e.node ≠ i
  known : ∀ e ∈ s.assigned, ∃ l, s.lease? e.node = some l ∧ l.termination = some e.reason
  logged : ∀ i l r, s.lease? i = some l → l.termination = some r →
    ∃ e ∈ s.assigned, e.node = i ∧ e.reason = r
  once : (s.assigned.map Assignment.node).Nodup
  inTime : ∀ e ∈ s.assigned, e.reason = .completed →
    ∀ l d, s.lease? e.node = some l → l.deadline = some d → e.time < d

theorem recorded_init : Recorded ({} : Leases T) where
  unassigned := by intro i l h; simp [lease?, Forest.get?, Forest.empty] at h
  known := by simp
  logged := by intro i l r h; simp [lease?, Forest.get?, Forest.empty] at h
  once := by simp
  inTime := by simp

/-- A rewrite of leases that keeps reasons and deadlines keeps the history right. -/
theorem Recorded.of_same {s t : Leases T} (h : Recorded s) (ha : t.assigned = s.assigned)
    (hback : ∀ i l, t.lease? i = some l → (∃ k, s.lease? i = some k ∧
      k.termination = l.termination ∧ k.deadline = l.deadline) ∨
      (l.termination = none ∧ s.nodes.size ≤ i))
    (hfwd : ∀ i k, s.lease? i = some k → ∃ l, t.lease? i = some l ∧
      k.termination = l.termination) : Recorded t where
  unassigned := by
    intro i l hl hn e he
    rw [ha] at he
    rcases hback i l hl with ⟨k, hk, hkt, _⟩ | ⟨_, hi⟩
    · exact h.unassigned i k hk (hkt.trans hn) e he
    · obtain ⟨k, hk, _⟩ := h.known e he
      have := s.nodes.lt_size_of_get? hk
      omega
  known := by
    intro e he
    rw [ha] at he
    obtain ⟨k, hk, hkt⟩ := h.known e he
    obtain ⟨l, hl, hlt⟩ := hfwd e.node k hk
    exact ⟨l, hl, hlt.symm.trans hkt⟩
  logged := by
    intro i l r hl hr
    rw [ha]
    rcases hback i l hl with ⟨k, hk, hkt, _⟩ | ⟨hn, _⟩
    · exact h.logged i k r hk (hkt.trans hr)
    · rw [hn] at hr; cases hr
  once := by rw [ha]; exact h.once
  inTime := by
    intro e he hc l d hl hd
    rw [ha] at he
    rcases hback e.node l hl with ⟨k, hk, _, hkd⟩ | ⟨_, hi⟩
    · exact h.inTime e he hc k d hk (hkd.trans hd)
    · obtain ⟨k, hk, _⟩ := h.known e he
      have := s.nodes.lt_size_of_get? hk
      omega

theorem deactivate_recorded {s : Leases T} (h : Recorded s) (i : Nat) :
    Recorded (s.deactivate i) := by
  refine h.of_same rfl ?_ ?_
  · intro j l hl
    left
    rw [lease?_deactivate] at hl
    split at hl
    · obtain ⟨k, hk, rfl⟩ := Option.map_eq_some_iff.mp hl
      exact ⟨k, hk, rfl, rfl⟩
    · exact ⟨l, hl, rfl, rfl⟩
  · intro j k hk
    rw [lease?_deactivate, hk]
    split
    · exact ⟨k.deactivate, rfl, rfl⟩
    · exact ⟨k, rfl, rfl⟩

theorem push_recorded {s : Leases T} (h : Recorded s) (l : Lease T) (hn : l.termination = none)
    (hp : ∀ p, l.parent = some p → p < s.nodes.size) :
    Recorded { s with nodes := s.nodes.push l hp } := by
  have hget : ∀ j, ({ s with nodes := s.nodes.push l hp } : Leases T).lease? j =
      if j = s.nodes.size then some l else s.lease? j := s.nodes.get?_push l hp
  refine h.of_same rfl ?_ ?_
  · intro j k hk
    rw [hget] at hk
    split at hk
    · rename_i hj; cases hk; exact .inr ⟨hn, hj.ge⟩
    · exact .inl ⟨k, hk, rfl, rfl⟩
  · intro j k hk
    have := s.nodes.lt_size_of_get? hk
    rw [hget, if_neg (by omega)]
    exact ⟨k, hk, rfl⟩

theorem derive_recorded {s : Leases T} (h : Recorded s) (p : Nat) : Recorded (s.derive p) := by
  unfold derive
  split
  · exact push_recorded h _ rfl _
  · exact h

variable (clock : Clock T)

theorem lease?_terminate (i j : Nat) (r : Termination) (s : Leases T) :
    (s.terminate clock i r).lease? j =
      if i = j then (s.lease? j).map (Lease.terminate r) else s.lease? j := by
  unfold terminate
  split
  · rename_i hn
    split
    · rename_i hij; subst hij; rw [hn]; rfl
    · rfl
  · exact s.nodes.get?_update i (Lease.terminate r) (fun _ => rfl) j

/-- Whichever reason `revoke` ends up with, the lease is closed. -/
theorem revoke_closes {s : Leases T} {i : Nat} (hi : i < s.nodes.size) (r : Termination) :
    (s.revoke clock i r).Shut i := by
  obtain ⟨lease, hl⟩ := s.nodes.exists_get? hi
  have hclosed : ∀ (t : Leases T) (r' : Termination), t.nodes = s.nodes →
      (t.terminate clock i r').Shut i := by
    intro t r' ht
    have hl' : t.lease? i = some lease := by rw [lease?, ht]; exact hl
    refine ⟨i, lease.terminate r', .refl i, ?_, rfl⟩
    have := lease?_terminate clock i i r' t
    rw [if_pos rfl, hl'] at this
    exact this
  unfold revoke
  split
  · dsimp only
    split
    · exact hclosed _ _ rfl
    · exact hclosed _ _ rfl
  · exact hclosed _ _ rfl

theorem terminate_recorded {s : Leases T} (h : Recorded s) (i : Nat) (r : Termination)
    (hr : r = .completed → ∀ l d, s.lease? i = some l → l.deadline = some d → s.now clock < d) :
    Recorded (s.terminate clock i r) := by
  cases hi : s.lease? i with
  | none => simpa only [terminate, hi] using h
  | some lease =>
    cases ht : lease.termination with
    | some r' =>
      -- the reason is already there: only `active` changes
      have ha : (s.terminate clock i r).assigned = s.assigned := by simp [terminate, hi, ht]
      have hsame : ∀ k, s.lease? i = some k → (Lease.terminate r k).termination = k.termination := by
        intro k hk
        rw [hi] at hk; cases hk
        simp [Lease.terminate, ht]
      refine h.of_same ha ?_ ?_
      · intro j l hl
        left
        rw [lease?_terminate] at hl
        split at hl
        · rename_i hij; subst hij
          obtain ⟨k, hk, rfl⟩ := Option.map_eq_some_iff.mp hl
          exact ⟨k, hk, (hsame k hk).symm, rfl⟩
        · exact ⟨l, hl, rfl, rfl⟩
      · intro j k hk
        rw [lease?_terminate, hk]
        split
        · rename_i hij; subst hij; exact ⟨_, rfl, (hsame k hk).symm⟩
        · exact ⟨k, rfl, rfl⟩
    | none =>
      have ha : (s.terminate clock i r).assigned = s.assigned ++ [⟨i, r, s.now clock⟩] := by
        simp [terminate, hi, ht]
      have hfresh := h.unassigned i lease hi ht
      have hnew : (s.terminate clock i r).lease? i = some (lease.terminate r) := by
        rw [lease?_terminate, if_pos rfl, hi]; rfl
      have hold : ∀ j, j ≠ i → (s.terminate clock i r).lease? j = s.lease? j := by
        intro j hj; rw [lease?_terminate, if_neg hj.symm]
      constructor
      · intro j l hl hn e he
        rw [ha, List.mem_append, List.mem_singleton] at he
        by_cases hj : j = i
        · subst hj
          rw [hnew] at hl; cases hl
          simp [Lease.terminate, ht] at hn
        · rw [hold j hj] at hl
          rcases he with he | rfl
          · exact h.unassigned j l hl hn e he
          · exact Ne.symm hj
      · intro e he
        rw [ha, List.mem_append, List.mem_singleton] at he
        rcases he with he | rfl
        · rw [hold e.node (hfresh e he)]
          exact h.known e he
        · exact ⟨_, hnew, by simp [Lease.terminate, ht]⟩
      · intro j l r' hl hr'
        rw [ha]
        by_cases hj : j = i
        · subst hj
          rw [hnew] at hl; cases hl
          refine ⟨⟨j, r, s.now clock⟩, by simp, rfl, ?_⟩
          simpa [Lease.terminate, ht] using hr'
        · rw [hold j hj] at hl
          obtain ⟨e, he, hej, her⟩ := h.logged j l r' hl hr'
          exact ⟨e, List.mem_append_left _ he, hej, her⟩
      · rw [ha, List.map_append, List.nodup_append]
        refine ⟨h.once, by simp, ?_⟩
        intro a hmem b hb
        obtain ⟨e, he, rfl⟩ := List.mem_map.mp hmem
        simp only [List.map_cons, List.map_nil, List.mem_singleton] at hb
        rw [hb]
        exact hfresh e he
      · intro e he hc l d hl hd
        rw [ha, List.mem_append, List.mem_singleton] at he
        rcases he with he | rfl
        · rw [hold e.node (hfresh e he)] at hl
          exact h.inTime e he hc l d hl hd
        · rw [hnew] at hl; cases hl
          exact hr hc lease d hi hd

theorem monotonic_recorded {s : Leases T} (h : Recorded s) : Recorded s.monotonic :=
  h.of_same rfl (fun _ l hl => .inl ⟨l, hl, rfl, rfl⟩) (fun _ k hk => ⟨k, hk, rfl⟩)

theorem revoke_recorded {s : Leases T} (h : Recorded s) (i : Nat) (r : Termination) :
    Recorded (s.revoke clock i r) := by
  unfold revoke
  split
  · rename_i deadline hd
    dsimp only
    split
    · exact terminate_recorded clock (monotonic_recorded h) i .timeout (by intro hc; cases hc)
    · -- the reading just taken is before the deadline
      rename_i hlt
      refine terminate_recorded clock (monotonic_recorded h) i .completed ?_
      intro _ l d hl hld
      have hl' : s.lease? i = some l := hl
      rw [hl'] at hd
      rw [Option.bind_some, hld] at hd
      cases hd
      exact not_le.mp hlt
  · rename_i hne
    refine terminate_recorded clock h i _ ?_
    intro hc l d hl hld
    refine absurd ?_ (hne d hc)
    rw [hl, Option.bind_some, hld]

theorem expire_recorded {s : Leases T} (h : Recorded s) (i : Nat) :
    Recorded (s.expire clock i) := by
  unfold expire
  split
  · exact h
  · dsimp only
    split
    · exact revoke_recorded clock (monotonic_recorded h) i .timeout
    · exact monotonic_recorded h

theorem isActive_recorded {s : Leases T} (h : Recorded s) (i : Nat) :
    Recorded (s.isActive clock i).2 := by
  induction i using Nat.strongRecOn generalizing s with
  | ind i ih =>
    cases hi : s.lease? i with
    | none =>
      rw [isActive]
      split
      · exact h
      · rename_i h'; rw [hi] at h'; cases h'
    | some lease =>
      have hx := expire_recorded clock h i
      obtain ⟨l, _, _, ⟨_, e⟩ | ⟨_, _, e⟩ | ⟨_, p, _, hp, e⟩⟩ := isActive_cases clock i s hi
      · rw [e]; exact hx
      · rw [e]; exact hx
      · rw [e]; exact ih p hp hx

variable [Add T]

theorem step_recorded {s : Leases T} (h : Recorded s) (c : LeaseCall T) :
    Recorded (s.step clock c) := by
  cases c with
  | bind timeout =>
    cases timeout with
    | none => exact push_recorded h _ rfl _
    | some t => exact push_recorded (monotonic_recorded h) _ rfl _
  | derive p => exact derive_recorded h p
  | handoff i p =>
    have h1 := isActive_recorded clock h i
    simp only [step, bindSessionHandoff]
    split
    · rename_i e; rw [e] at h1; exact h1
    · rename_i s1 e
      rw [e] at h1
      have h2 := isActive_recorded clock h1 p
      split
      · rename_i e'; rw [e'] at h2; exact h2
      · rename_i e'; rw [e'] at h2; exact derive_recorded h2 p
  | revoke i reason =>
    simp only [step, revokeText]
    cases Termination.parse reason with
    | none => exact h
    | some r => exact revoke_recorded clock h i r
  | revokeRequest i reason =>
    simp only [step]
    cases e : s.revokeRequest clock i reason with
    | error _ => exact h
    | ok t =>
      obtain ⟨r, _, rfl⟩ := revokeRequest_cases clock e
      exact revoke_recorded clock (revoke_recorded clock h _ r) i r
  | exitScope i exit =>
    cases exit with
    | normal => exact revoke_recorded clock h i _
    | cancelled => exact revoke_recorded clock (revoke_recorded clock h i _) i _
    | raised => exact revoke_recorded clock (revoke_recorded clock h i _) i _
  | exitHandoff i => exact deactivate_recorded h i
  | isActive i => exact isActive_recorded clock h i
  | tick => exact monotonic_recorded h

theorem run_recorded {s : Leases T} (h : Recorded s) (calls : List (LeaseCall T)) :
    Recorded (s.run clock calls) := by
  induction calls generalizing s with
  | nil => exact h
  | cons c calls ih => exact ih (step_recorded clock h c)

/-! ## The law of the tree -/

theorem run_shut {s : Leases T} {i j : Nat} (h : s.Shut i) (calls : List (LeaseCall T))
    (hji : (s.run clock calls).nodes.Below j i) :
    ((s.run clock calls).isActive clock j).1 = false :=
  isActive_false_of_shut clock ((h.grows closed_of_evolves (run_grows clock calls s)).below hji)

/-- **Lease tree.**  After any calls, in any order:
a lease seen inactive is inactive from then on, with all its descendants;
a termination reason is assigned at most once and never changes;
"completed" is assigned only while the clock is before the lease's deadline;
`revoke_request` leaves every lease of its tree inactive, for ever. -/
theorem leaseTree (before : List (LeaseCall T)) :
    let s := ({} : Leases T).run clock before
    (∀ i, i < s.nodes.size → (s.isActive clock i).1 = false → ∀ after j,
      let t := (s.isActive clock i).2.run clock after
      t.nodes.Below j i → (t.isActive clock j).1 = false) ∧
    ((s.assigned.map Assignment.node).Nodup ∧
      ∀ i l r, s.lease? i = some l → l.termination = some r →
        (∃ e ∈ s.assigned, e.node = i ∧ e.reason = r) ∧
        ∀ after, ∃ l', (s.run clock after).lease? i = some l' ∧ l'.termination = some r) ∧
    (∀ e ∈ s.assigned, e.reason = .completed → ∀ l d, s.lease? e.node = some l →
      l.deadline = some d → e.time < d) ∧
    (∀ i reason t, i < s.nodes.size → s.revokeRequest clock i reason = .ok t → ∀ after j,
      let u := t.run clock after
      u.nodes.root j = u.nodes.root i → (u.isActive clock j).1 = false) := by
  intro s
  have hrec : Recorded s := run_recorded clock recorded_init before
  refine ⟨?_, ⟨hrec.once, ?_⟩, hrec.inTime, ?_⟩
  · intro i hi hfalse after j t hji
    exact run_shut clock (shut_of_isActive_false clock hi hfalse) after hji
  · intro i l r hl hr
    refine ⟨hrec.logged i l r hl hr, ?_⟩
    intro after
    obtain ⟨l', hl', _, hev⟩ := run_grows clock after s i l hl
    exact ⟨l', hl', hev.termination r hr⟩
  · intro i reason t hi hrev after j u hroot
    obtain ⟨r, _, rfl⟩ := revokeRequest_cases clock hrev
    -- the root is closed by the first of the two revocations, and everything is below it
    have hr := s.nodes.root_lt_size hi
    have hshut := (revoke_closes clock hr r).grows closed_of_evolves (revoke_grows clock i r _)
    have hgrow : Grows s u := (revokeRequest_grows clock hrev).trans (run_grows clock after _)
    have hkeep : u.nodes.root i = s.nodes.root i := Forest.Grows.root_eq hgrow hi
    refine run_shut clock hshut after ?_
    have hb := u.nodes.below_root j
    rw [hroot, hkeep] at hb
    exact hb

end History

end Leases

end ProjectMaya
