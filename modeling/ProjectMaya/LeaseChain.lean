import ProjectMaya.Lease

/-! # The chain of a lease

The leases on the way up from a lease are its chain.  `is_active` answers yes exactly when
all of them are open and none of their deadlines is past the reading it takes
(`not_shut_of_isActive`, `isActive_of_open`); a call leaves a lease as it is unless it ends
that very lease or takes a reading past its deadline (`lease?_step`). -/

namespace ProjectMaya.Leases

open Logic

section

variable {T : Type} [LinearOrder T] (clock : Clock T)

/-! ## What calls leave alone -/

@[simp] theorem reads_terminate (i : Nat) (r : Termination) (s : Leases T) :
    (s.terminate clock i r).reads = s.reads := by
  unfold terminate
  split <;> rfl

theorem reads_revoke (i : Nat) (r : Termination) (s : Leases T) :
    s.reads ≤ (s.revoke clock i r).reads := by
  unfold revoke
  split
  · dsimp only
    split <;> simp [monotonic]
  · simp

theorem reads_expire (i : Nat) (s : Leases T) : s.reads ≤ (s.expire clock i).reads := by
  unfold expire
  split
  · exact Nat.le_refl _
  · dsimp only
    split
    · exact Nat.le_trans (Nat.le_succ _) (reads_revoke clock i .timeout s.monotonic)
    · exact Nat.le_succ _

theorem isActive_of_missing {i : Nat} {s : Leases T} (h : s.lease? i = none) :
    s.isActive clock i = (false, s) := by
  rw [isActive]
  split
  · rfl
  · rename_i h'
    rw [h] at h'
    cases h'

theorem reads_isActive (i : Nat) (s : Leases T) : s.reads ≤ (s.isActive clock i).2.reads := by
  induction i using Nat.strongRecOn generalizing s with
  | ind i ih =>
    cases h : s.lease? i with
    | none => rw [isActive_of_missing clock h]
    | some lease =>
      have hx := reads_expire clock i s
      obtain ⟨l, _, _, ⟨_, e⟩ | ⟨_, _, e⟩ | ⟨_, p, _, hp, e⟩⟩ := isActive_cases clock i s h
      · rw [e]; exact hx
      · rw [e]; exact hx
      · rw [e]; exact Nat.le_trans hx (ih p hp _)

theorem lease?_revoke_ne {i k : Nat} (r : Termination) (s : Leases T) (h : k ≠ i) :
    (s.revoke clock i r).lease? k = s.lease? k := by
  have hne : ∀ (t : Leases T) r', (t.terminate clock i r').lease? k = t.lease? k := by
    intro t r'
    rw [lease?_terminate, if_neg h.symm]
  unfold revoke
  split
  · dsimp only
    split <;> exact hne _ _
  · exact hne s _

/-- The lease's deadline, if it has one, is after the reading number `n`. -/
def InTime (s : Leases T) (k n : Nat) : Prop :=
  ∀ l d, s.lease? k = some l → l.deadline = some d → clock.reading n < d

theorem InTime.le {s : Leases T} {k m n : Nat} (h : s.InTime clock k n) (hmn : m ≤ n) :
    s.InTime clock k m := fun l d hl hd => lt_of_le_of_lt (clock.monotone hmn) (h l d hl hd)

theorem InTime.congr {s t : Leases T} {k n : Nat} (h : s.InTime clock k n)
    (hk : t.lease? k = s.lease? k) : t.InTime clock k n := by
  intro l d hl
  exact h l d (hk ▸ hl)

theorem lease?_expire {i k : Nat} {s : Leases T}
    (h : k ≠ i ∨ s.InTime clock k (s.expire clock i).reads) :
    (s.expire clock i).lease? k = s.lease? k := by
  cases hd : (s.lease? i).bind Lease.deadline with
  | none => simp only [expire, hd]
  | some deadline =>
    by_cases hpast : deadline ≤ clock.reading (s.reads + 1)
    · have he : s.expire clock i = s.monotonic.revoke clock i .timeout := by
        simp only [expire, hd]
        exact if_pos hpast
      rcases h with h | h
      · rw [he]
        exact lease?_revoke_ne clock _ _ h
      · by_cases hk : k = i
        · -- the reading that `expire` took is past the deadline
          subst hk
          obtain ⟨l, hl, hld⟩ := Option.bind_eq_some_iff.mp hd
          have hle : s.reads + 1 ≤ (s.expire clock k).reads := by
            rw [he]
            exact reads_revoke clock k .timeout s.monotonic
          exact absurd (h.le clock hle l deadline hl hld) (not_lt.mpr hpast)
        · rw [he]
          exact lease?_revoke_ne clock _ _ hk
    · have he : s.expire clock i = s.monotonic := by
        simp only [expire, hd]
        exact if_neg hpast
      rw [he]
      rfl

theorem lease?_isActive {i k : Nat} {s : Leases T}
    (h : i < k ∨ s.InTime clock k (s.isActive clock i).2.reads) :
    (s.isActive clock i).2.lease? k = s.lease? k := by
  induction i using Nat.strongRecOn generalizing s with
  | ind i ih =>
    cases hi : s.lease? i with
    | none => rw [isActive_of_missing clock hi]
    | some lease =>
      have hexpire : ∀ {n : Nat}, (s.expire clock i).reads ≤ n → (i < k ∨ s.InTime clock k n) →
          (s.expire clock i).lease? k = s.lease? k := by
        intro n hn h
        refine lease?_expire clock ?_
        rcases h with h | h
        · exact .inl (by omega)
        · exact .inr (h.le clock hn)
      obtain ⟨l, _, _, ⟨_, e⟩ | ⟨_, _, e⟩ | ⟨_, p, _, hp, e⟩⟩ := isActive_cases clock i s hi
      · rw [e] at h ⊢
        exact hexpire (Nat.le_refl _) h
      · rw [e] at h ⊢
        exact hexpire (Nat.le_refl _) h
      · rw [e] at h ⊢
        have hx := hexpire (reads_isActive clock p _) h
        rw [ih p hp ?_, hx]
        rcases h with h | h
        · exact .inl (by omega)
        · exact .inr (h.congr clock hx)

/-! ## Open chains -/

/-- No lease of the chain has been closed. -/
def Open (s : Leases T) (i : Nat) : Prop := i < s.nodes.size ∧ ¬ s.Shut i

omit [LinearOrder T] in
/-- A chain whose leases are as they were is as open as it was. -/
theorem Open.congr {s t : Leases T} {i : Nat} (h : s.Open i)
    (hk : ∀ k, s.nodes.Below i k → t.lease? k = s.lease? k) : t.Open i := by
  have hback : ∀ {i k}, (∀ k, s.nodes.Below i k → t.lease? k = s.lease? k) →
      t.nodes.Below i k → s.nodes.Below i k := by
    intro i k hk hb
    induction hb with
    | refl i => exact .refl i
    | up ha hp _ ih =>
      have ha' := (hk _ (.refl _)).symm.trans ha
      exact .up ha' hp (ih fun k hb => hk k (.up ha' hp hb))
  constructor
  · obtain ⟨l, hl⟩ := s.nodes.exists_get? h.1
    exact t.nodes.lt_size_of_get? ((hk i (.refl i)).trans hl)
  · rintro ⟨k, a, hb, ha, hc⟩
    have hb' := hback hk hb
    exact h.2 ⟨k, a, hb', (hk k hb').symm.trans ha, hc⟩

omit [LinearOrder T] in
theorem Open.below {s : Leases T} {i j : Nat} (h : s.Open i) (hb : s.nodes.Below i j) :
    s.Open j :=
  ⟨Nat.lt_of_le_of_lt hb.le h.1, fun hs => h.2 (hs.below hb)⟩

/-- What `is_active` found active is open. -/
theorem open_of_isActive {i : Nat} {s : Leases T} (h : (s.isActive clock i).1 = true) :
    (s.isActive clock i).2.Open i := by
  induction i using Nat.strongRecOn generalizing s with
  | ind i ih =>
    cases hi : s.lease? i with
    | none => rw [isActive_of_missing clock hi] at h; cases h
    | some lease =>
      obtain ⟨l, hl, hup, ⟨_, e⟩ | ⟨hact, hp, e⟩ | ⟨hact, p, hp, hlt, e⟩⟩ := isActive_cases clock i s hi
      · rw [e] at h; cases h
      · rw [e]
        refine ⟨Forest.lt_size_of_get? _ hl, ?_⟩
        rintro ⟨k, a, hb, ha, hc⟩
        cases hb with
        | refl =>
          rw [lease?, ha] at hl
          cases hl
          rw [hc] at hact
          cases hact
        | up ha' hp' _ =>
          rw [lease?, ha'] at hl
          cases hl
          rw [hup, hp] at hp'
          cases hp'
      · rw [e] at h ⊢
        obtain ⟨hsize, hopen⟩ := ih p hlt h
        have hsame := lease?_isActive clock (s := s.expire clock i) (i := p) (k := i) (.inl hlt)
        have hl' := hsame.trans hl
        refine ⟨Forest.lt_size_of_get? _ hl', ?_⟩
        rintro ⟨k, a, hb, ha, hc⟩
        cases hb with
        | refl =>
          rw [lease?, ha] at hl'
          cases hl'
          rw [hc] at hact
          cases hact
        | up ha' hp' hb' =>
          rw [lease?, ha'] at hl'
          cases hl'
          rw [hup, hp] at hp'
          cases hp'
          exact hopen ⟨k, a, hb', ha, hc⟩

/-! ## Deadlines are at the roots -/

/-- Only a lease without parent has a deadline. -/
def Timed (s : Leases T) : Prop :=
  ∀ i l, s.lease? i = some l → l.deadline ≠ none → l.parent = none

/-- A chain that is open and in time is found active. -/
theorem isActive_of_open {i : Nat} {s : Leases T} (ht : s.Timed) (h : s.Open i)
    (hin : ∀ k, s.nodes.Below i k → s.InTime clock k (s.reads + 1)) :
    (s.isActive clock i).1 = true := by
  induction i using Nat.strongRecOn generalizing s with
  | ind i ih =>
    obtain ⟨lease, hi⟩ := s.nodes.exists_get? h.1
    have hreads : (s.expire clock i).reads ≤ s.reads + 1 ∧ (s.expire clock i = s ∨ lease.parent = none) := by
      cases hd : lease.deadline with
      | none =>
        have he : s.expire clock i = s := by
          simp only [expire, show s.lease? i = some lease from hi, Option.bind_some, hd]
        exact ⟨by rw [he]; omega, .inl he⟩
      | some deadline =>
        have hlt := hin i (.refl i) lease deadline hi hd
        have he : s.expire clock i = s.monotonic := by
          simp only [expire, show s.lease? i = some lease from hi, Option.bind_some, hd]
          exact if_neg (not_le.mpr hlt)
        exact ⟨by rw [he]; exact Nat.le_refl _, .inr (ht i lease hi (by rw [hd]; simp))⟩
    have hsame : (s.expire clock i).lease? i = s.lease? i :=
      lease?_expire clock (.inr ((hin i (.refl i)).le clock hreads.1))
    obtain ⟨l, hl, hup, hcases⟩ := isActive_cases clock i s hi
    have hll : l = lease := by
      rw [hsame, show s.lease? i = some lease from hi] at hl
      cases hl
      rfl
    subst hll
    rcases hcases with ⟨hact, _⟩ | ⟨_, _, e⟩ | ⟨_, p, hp, hlt, e⟩
    · exact absurd ⟨i, l, .refl i, hi, hact⟩ h.2
    · rw [e]
    · rw [e]
      rcases hreads.2 with he | hnone
      · rw [he]
        have hb : s.nodes.Below i p := .up hi hp (.refl p)
        exact ih p hlt ht (h.below hb) fun k hk => hin k (hb.trans hk)
      · rw [hp] at hnone
        cases hnone

omit [LinearOrder T] in
/-- Changes that leave parents and deadlines alone. -/
theorem Timed.of_shape {s t : Leases T} (h : s.Timed)
    (hshape : ∀ k l, t.lease? k = some l →
      ∃ a, s.lease? k = some a ∧ l.parent = a.parent ∧ l.deadline = a.deadline) : t.Timed := by
  intro k l hl hd
  obtain ⟨a, ha, hp, hdl⟩ := hshape k l hl
  rw [hp]
  exact h k a ha (hdl ▸ hd)

omit [LinearOrder T] in
theorem Timed.push {s : Leases T} (h : s.Timed) (l : Lease T) (hl : l.deadline ≠ none → l.parent = none)
    (hp : ∀ p, l.parent = some p → p < s.nodes.size) :
    ({ s with nodes := s.nodes.push l hp } : Leases T).Timed := by
  intro k a ha
  have hget : ({ s with nodes := s.nodes.push l hp } : Leases T).lease? k =
      if k = s.nodes.size then some l else s.lease? k := s.nodes.get?_push l hp k
  rw [hget] at ha
  split at ha
  · cases ha
    exact hl
  · exact h k a ha

theorem Timed.terminate {s : Leases T} (h : s.Timed) (i : Nat) (r : Termination) :
    (s.terminate clock i r).Timed := by
  refine h.of_shape ?_
  intro k l hl
  rw [lease?_terminate] at hl
  split at hl
  · obtain ⟨a, ha, rfl⟩ := Option.map_eq_some_iff.mp hl
    exact ⟨a, ha, rfl, rfl⟩
  · exact ⟨l, hl, rfl, rfl⟩

omit [LinearOrder T] in
theorem Timed.monotonic {s : Leases T} (h : s.Timed) : s.monotonic.Timed := h

theorem Timed.revoke {s : Leases T} (h : s.Timed) (i : Nat) (r : Termination) :
    (s.revoke clock i r).Timed := by
  unfold Leases.revoke
  split
  · dsimp only
    split <;> exact h.monotonic.terminate clock i _
  · exact h.terminate clock i _

theorem Timed.expire {s : Leases T} (h : s.Timed) (i : Nat) : (s.expire clock i).Timed := by
  unfold Leases.expire
  split
  · exact h
  · dsimp only
    split
    · exact h.monotonic.revoke clock i _
    · exact h.monotonic

theorem Timed.isActive {s : Leases T} (h : s.Timed) (i : Nat) : (s.isActive clock i).2.Timed := by
  induction i using Nat.strongRecOn generalizing s with
  | ind i ih =>
    cases hi : s.lease? i with
    | none => rw [isActive_of_missing clock hi]; exact h
    | some lease =>
      have hx := h.expire clock i
      obtain ⟨l, _, _, ⟨_, e⟩ | ⟨_, _, e⟩ | ⟨_, p, _, hp, e⟩⟩ := isActive_cases clock i s hi
      · rw [e]; exact hx
      · rw [e]; exact hx
      · rw [e]; exact ih p hp hx

omit [LinearOrder T] in
theorem Timed.derive {s : Leases T} (h : s.Timed) (p : Nat) : (s.derive p).Timed := by
  unfold Leases.derive
  split
  · exact h.push _ (fun hd => absurd rfl hd) _
  · exact h

omit [LinearOrder T] in
theorem Timed.deactivate {s : Leases T} (h : s.Timed) (i : Nat) : (s.deactivate i).Timed := by
  refine h.of_shape ?_
  intro k l hl
  rw [lease?_deactivate] at hl
  split at hl
  · obtain ⟨a, ha, rfl⟩ := Option.map_eq_some_iff.mp hl
    exact ⟨a, ha, rfl, rfl⟩
  · exact ⟨l, hl, rfl, rfl⟩

theorem handoff_cases (source parent : Nat) (s : Leases T) :
    let a := (s.isActive clock source).2
    let b := (a.isActive clock parent).2
    (s.bindSessionHandoff clock source parent).2 = a ∨
      (s.bindSessionHandoff clock source parent).2 = b ∨
      (s.bindSessionHandoff clock source parent).2 = b.derive parent := by
  simp only [bindSessionHandoff]
  split
  · rename_i e; exact .inl (by rw [e])
  · rename_i s1 e
    rw [e]
    split
    · rename_i e'; exact .inr (.inl (by rw [e']))
    · rename_i e'; exact .inr (.inr (by rw [e']))

omit [LinearOrder T] in
theorem timed_init : ({} : Leases T).Timed := by
  intro i l hl
  simp [lease?, Forest.get?, Forest.empty] at hl

variable [Add T]

theorem Timed.step {s : Leases T} (h : s.Timed) (c : LeaseCall T) : (s.step clock c).Timed := by
  cases c with
  | bind timeout =>
    cases timeout with
    | none => exact h.push _ (fun _ => rfl) _
    | some t => exact h.monotonic.push _ (fun _ => rfl) _
  | derive p => exact h.derive p
  | handoff i p =>
    have ha := h.isActive clock i
    have hb := ha.isActive clock p
    rcases handoff_cases clock i p s with e | e | e
    · show (s.bindSessionHandoff clock i p).2.Timed
      rw [e]; exact ha
    · show (s.bindSessionHandoff clock i p).2.Timed
      rw [e]; exact hb
    · show (s.bindSessionHandoff clock i p).2.Timed
      rw [e]; exact hb.derive p
  | revoke i reason =>
    simp only [Leases.step, revokeText]
    cases Termination.parse reason with
    | none => exact h
    | some r => exact h.revoke clock i r
  | revokeRequest i reason =>
    simp only [Leases.step]
    cases e : s.revokeRequest clock i reason with
    | error _ => exact h
    | ok t =>
      obtain ⟨r, _, rfl⟩ := revokeRequest_cases clock e
      exact (h.revoke clock _ r).revoke clock i r
  | exitScope i exit =>
    cases exit with
    | normal => exact h.revoke clock i _
    | cancelled => exact (h.revoke clock i _).revoke clock i _
    | raised => exact (h.revoke clock i _).revoke clock i _
  | exitHandoff i => exact h.deactivate i
  | isActive i => exact h.isActive clock i
  | tick => exact h.monotonic

@[simp] theorem size_bindSessionWrite (timeout : Option T) (s : Leases T) :
    (s.bindSessionWrite clock timeout).nodes.size = s.nodes.size + 1 := by
  cases timeout <;> simp [bindSessionWrite, monotonic]

/-! ## What a call ends -/

omit [Add T] in
/-- After `bind_session_write` its lease is shut, however its body ended. -/
theorem exitScope_closes {s : Leases T} {i : Nat} (hi : i < s.nodes.size) (exit : Exit) :
    (s.exitScope clock i exit).Shut i := by
  cases exit with
  | normal => exact revoke_closes clock hi _
  | cancelled | raised =>
    exact revoke_closes clock (Forest.Grows.size_le (revoke_grows clock i _ s) hi) _

omit [LinearOrder T] [Add T] in
theorem deactivate_closes {s : Leases T} {i : Nat} (hi : i < s.nodes.size) : (s.deactivate i).Shut i := by
  obtain ⟨lease, hl⟩ := s.nodes.exists_get? hi
  refine ⟨i, lease.deactivate, .refl i, ?_, rfl⟩
  have hl' : s.lease? i = some lease := hl
  have hi' := lease?_deactivate i i s
  rw [if_pos rfl, hl'] at hi'
  exact hi'

omit [LinearOrder T] [Add T] in
/-- The call writes `active = False` to this lease, whatever the clock says. -/
def Ends (s : Leases T) : LeaseCall T → Nat → Prop
  | .revoke i _, k => k = i
  | .revokeRequest i _, k => k = i ∨ k = s.nodes.root i
  | .exitScope i _, k => k = i
  | .exitHandoff i, k => k = i
  | _, _ => False

omit [LinearOrder T] [Add T] in
theorem lease?_push {s : Leases T} {k : Nat} (hk : k < s.nodes.size) (l : Lease T)
    (hp : ∀ p, l.parent = some p → p < s.nodes.size) :
    ({ s with nodes := s.nodes.push l hp } : Leases T).lease? k = s.lease? k := by
  have hget := s.nodes.get?_push l hp k
  rw [if_neg (by omega)] at hget
  exact hget

omit [LinearOrder T] [Add T] in
theorem lease?_derive {s : Leases T} {k : Nat} (hk : k < s.nodes.size) (p : Nat) :
    (s.derive p).lease? k = s.lease? k := by
  unfold derive
  split
  · exact lease?_push hk _ _
  · rfl

omit [LinearOrder T] [Add T] in
@[simp] theorem reads_derive (p : Nat) (s : Leases T) : (s.derive p).reads = s.reads := by
  unfold derive
  split <;> rfl

/-- **What a call leaves alone**: a lease that it does not end and whose deadline is after
every reading it takes. -/
theorem lease?_step {s : Leases T} {c : LeaseCall T} {k : Nat} (hk : k < s.nodes.size)
    (hends : ¬ s.Ends c k) (hin : s.InTime clock k (s.step clock c).reads) :
    (s.step clock c).lease? k = s.lease? k := by
  cases c with
  | bind timeout =>
    cases timeout with
    | none => exact lease?_push hk _ _
    | some t => exact lease?_push (s := s.monotonic) hk _ _
  | derive p => exact lease?_derive hk p
  | handoff i p =>
    have hra := reads_isActive clock p (s.isActive clock i).2
    have ha : ∀ {n}, (s.isActive clock i).2.reads ≤ n → s.InTime clock k n →
        (s.isActive clock i).2.lease? k = s.lease? k :=
      fun hn hin => lease?_isActive clock (.inr (hin.le clock hn))
    have hb : ∀ {n}, ((s.isActive clock i).2.isActive clock p).2.reads ≤ n → s.InTime clock k n →
        ((s.isActive clock i).2.isActive clock p).2.lease? k = s.lease? k := by
      intro n hn hin
      have ha := ha (Nat.le_trans hra hn) hin
      rw [lease?_isActive clock (.inr ((hin.le clock hn).congr clock ha)), ha]
    show (s.bindSessionHandoff clock i p).2.lease? k = s.lease? k
    have hin : s.InTime clock k (s.bindSessionHandoff clock i p).2.reads := hin
    rcases handoff_cases clock i p s with e | e | e
    · rw [e] at hin ⊢
      exact ha (Nat.le_refl _) hin
    · rw [e] at hin ⊢
      exact hb (Nat.le_refl _) hin
    · rw [e] at hin ⊢
      rw [reads_derive] at hin
      have hb := hb (Nat.le_refl _) hin
      have hsize : k < ((s.isActive clock i).2.isActive clock p).2.nodes.size := by
        obtain ⟨l, hl⟩ := s.nodes.exists_get? hk
        exact Forest.lt_size_of_get? _ (hb.trans hl)
      rw [lease?_derive hsize, hb]
  | revoke i reason =>
    simp only [step, revokeText]
    cases Termination.parse reason with
    | none => rfl
    | some r => exact lease?_revoke_ne clock r s hends
  | revokeRequest i reason =>
    simp only [step]
    cases e : s.revokeRequest clock i reason with
    | error _ => rfl
    | ok t =>
      obtain ⟨r, _, rfl⟩ := revokeRequest_cases clock e
      show ((s.revoke clock (s.nodes.root i) r).revoke clock i r).lease? k = s.lease? k
      rw [lease?_revoke_ne clock r _ fun h => hends (.inl h),
        lease?_revoke_ne clock r _ fun h => hends (.inr h)]
  | exitScope i exit =>
    cases exit with
    | normal => exact lease?_revoke_ne clock _ s hends
    | cancelled =>
      show ((s.revoke clock i .cancelled).revoke clock i .completed).lease? k = s.lease? k
      rw [lease?_revoke_ne clock _ _ hends, lease?_revoke_ne clock _ _ hends]
    | raised =>
      show ((s.revoke clock i .failed).revoke clock i .completed).lease? k = s.lease? k
      rw [lease?_revoke_ne clock _ _ hends, lease?_revoke_ne clock _ _ hends]
  | exitHandoff i =>
    show (s.deactivate i).lease? k = s.lease? k
    rw [lease?_deactivate, if_neg (fun h => hends h.symm)]
  | isActive i => exact lease?_isActive clock (.inr hin)
  | tick => rfl

end

end ProjectMaya.Leases
