import ProjectMaya.Handoff
import ProjectMaya.Logic.Covenant
import ProjectMaya.Logic.Rows

/-! # What the calls of the factory owe each other

`Inv` is kept by every action.  Claims are made twice only under a lease that is shut
(`CallerInv`, `TaskInv`), so of several scheduled functions of a request at most one is found
active when its coroutine starts; a handoff consumes a selection once, and is received once
(`HandoffInv`).  A thread owns the records it made or took, and nobody else changes them
(`Later`). -/

namespace ProjectMaya.Handoff

open Logic

section

variable {T : Type}

/-! ## The invariant -/

/-- What holds of a scheduled function by itself. -/
structure Scheduled.Orderly (x : Scheduled) : Prop where
  idle : x.runner = none → x.selection = none ∧ x.handed = 0
  passed : x.selection ≠ none → x.passed = true
  once : x.handed ≤ 1
  given : x.handed ≠ 0 → x.selection ≠ none

/-- Its selection has made a handoff. -/
def Scheduled.Spent (x : Scheduled) : Prop := ∃ y, x.selection = some y ∧ y.consumed = true

/-- What holds of a handoff by itself: its function was started at most once, where it may, and
when its chain was open at the check. -/
structure SessionExecutorHandoff.Sound (x : SessionExecutorHandoff T) : Prop where
  once : x.starts.length ≤ 1
  received : x.receiver = none → x.starts = []
  started : ∀ a ∈ x.starts, a.thread ≠ x.source.threadId ∧ a.task = none ∧ a.leases.Open x.lease

structure CallerInv (callers : List Entry) (items : List Claim) (leases : Leases T) : Prop where
  entry : ∀ (k : Nat) (x : Entry), callers[k]? = some x → x.bodies ≤ 1 ∧ x.claim.lease < leases.nodes.size
  ledger : Ledger (callers.map Entry.claim) items leases
  top : ∀ item ∈ items, Top leases item.lease

structure TaskInv (tasks : List Scheduled) (items : List Claim) (leases : Leases T) : Prop where
  task : ∀ (i : Nat) (x : Scheduled), tasks[i]? = some x → x.Orderly ∧ x.claim.lease < leases.nodes.size
  ledger : Ledger (tasks.map Scheduled.claim) items leases
  repeated : ∀ (i j : Nat) (x y : Scheduled), tasks[i]? = some x → tasks[j]? = some y → i ≠ j → x.claim = y.claim →
    leases.Shut x.claim.lease
  passed : ∀ (i j : Nat) (x y : Scheduled), tasks[i]? = some x → tasks[j]? = some y → i ≠ j → x.claim = y.claim →
    x.passed = true → y.passed = false

structure HandoffInv (handoffs : List (SessionExecutorHandoff T)) (left : List Nat) (tasks : List Scheduled)
    (leases : Leases T) : Prop where
  handoff : ∀ (h : Nat) (x : SessionExecutorHandoff T), handoffs[h]? = some x → x.Sound ∧ x.lease < leases.nodes.size
  spent : ∀ (h : Nat) (x : SessionExecutorHandoff T) (i : Nat), handoffs[h]? = some x → x.task = some i →
    ∃ y, tasks[i]? = some y ∧ y.Spent
  single : ∀ (h k : Nat) (x y : SessionExecutorHandoff T) (i : Nat), handoffs[h]? = some x → handoffs[k]? = some y → x.task = some i →
    y.task = some i → h = k
  left : ∀ h ∈ left, ∃ x : SessionExecutorHandoff T, handoffs[h]? = some x ∧ leases.Shut x.lease

structure Inv (s : Shared T) : Prop where
  callers : CallerInv s.callers s.callerClaimed s.leases
  tasks : TaskInv s.tasks s.claimed s.leases
  handoffs : HandoffInv s.handoffs s.left s.tasks s.leases

theorem callerInv_init : CallerInv [] [] ({} : Leases T) where
  entry _ _ h := by cases h
  ledger _ h := by cases h
  top _ h := by cases h

theorem taskInv_init : TaskInv [] [] ({} : Leases T) where
  task _ _ h := by cases h
  ledger _ h := by cases h
  repeated _ _ _ _ h := by cases h
  passed _ _ _ _ h := by cases h

theorem handoffInv_init : HandoffInv [] [] [] ({} : Leases T) where
  handoff _ _ h := by cases h
  spent _ _ _ h := by cases h
  single _ _ _ _ _ h := by cases h
  left _ h := by cases h

theorem inv_init : Inv ({} : Shared T) := ⟨callerInv_init, taskInv_init, handoffInv_init⟩

/-! ### Leases grow -/

section

variable {leases leases' : Leases T} (hg : leases.Grows leases')

include hg

theorem Ledger.grows {made items : List Claim} (h : Ledger made items leases) :
    Ledger made items leases' := by
  intro item hmade
  rcases h item hmade with hin | hshut
  · exact .inl hin
  · exact .inr (hshut.grows Leases.closed_of_evolves hg)

theorem CallerInv.grows {callers : List Entry} {items : List Claim} (h : CallerInv callers items leases) :
    CallerInv callers items leases' where
  entry k x hx := ⟨(h.entry k x hx).1, Forest.Grows.size_le hg (h.entry k x hx).2⟩
  ledger := Ledger.grows hg h.ledger
  top item hitem := (h.top item hitem).grows hg

theorem TaskInv.grows {tasks : List Scheduled} {items : List Claim} (h : TaskInv tasks items leases) :
    TaskInv tasks items leases' where
  task i x hx := ⟨(h.task i x hx).1, Forest.Grows.size_le hg (h.task i x hx).2⟩
  ledger := Ledger.grows hg h.ledger
  repeated i j x y hx hy hij hc := (h.repeated i j x y hx hy hij hc).grows Leases.closed_of_evolves hg
  passed := h.passed

theorem HandoffInv.grows {handoffs : List (SessionExecutorHandoff T)} {left : List Nat} {tasks : List Scheduled}
    (h : HandoffInv handoffs left tasks leases) : HandoffInv handoffs left tasks leases' where
  handoff k x hx := ⟨(h.handoff k x hx).1, Forest.Grows.size_le hg (h.handoff k x hx).2⟩
  spent := h.spent
  single := h.single
  left k hk := by
    obtain ⟨x, hx, hshut⟩ := h.left k hk
    exact ⟨x, hx, hshut.grows Leases.closed_of_evolves hg⟩

end

theorem Inv.grows {s : Shared T} {leases : Leases T} (h : Inv s) (hg : s.leases.Grows leases) :
    Inv { s with leases } :=
  ⟨h.callers.grows hg, h.tasks.grows hg, h.handoffs.grows hg⟩

/-! ### Records change -/

section

variable {leases : Leases T} {items : List Claim} {tasks : List Scheduled}
  {handoffs : List (SessionExecutorHandoff T)} {left : List Nat}

theorem Entry.claim_entered (x : Entry) : x.entered.claim = x.claim := rfl

theorem CallerInv.enterBody {callers : List Entry} (h : CallerInv callers items leases) {k : Nat}
    {x : Entry} (hx : callers[k]? = some x) (hb : x.bodies = 0) :
    CallerInv (callers.modify k .entered) items leases where
  entry j y hy := by
    obtain ⟨z, hz, rfl⟩ := getElem?_modify_eq.mp hy
    split
    · rename_i hjk
      subst hjk
      rw [hx] at hz
      cases hz
      exact ⟨by show x.bodies + 1 ≤ 1; omega, (h.entry k x hx).2⟩
    · exact h.entry j z hz
  ledger := by
    rw [map_modify_eq Entry.claim_entered]
    exact h.ledger
  top := h.top

/-- A change of a scheduled function.  It may be marked as passed only while its lease is not
shut. -/
theorem TaskInv.modify (h : TaskInv tasks items leases) {i : Nat} {f : Scheduled → Scheduled}
    (hclaim : ∀ x, (f x).claim = x.claim) (horderly : ∀ x, tasks[i]? = some x → x.Orderly → (f x).Orderly)
    (hpassed : ∀ x, tasks[i]? = some x → (f x).passed = true →
      x.passed = true ∨ ¬ leases.Shut x.claim.lease) :
    TaskInv (tasks.modify i f) items leases := by
  have hclaim' : ∀ (j : Nat) (x : Scheduled), (if i = j then f x else x).claim = x.claim := by
    intro j x
    split
    · exact hclaim x
    · rfl
  constructor
  · intro j y hy
    obtain ⟨x, hx, rfl⟩ := getElem?_modify_eq.mp hy
    rw [hclaim']
    refine ⟨?_, (h.task j x hx).2⟩
    split
    · rename_i hij
      subst hij
      exact horderly x hx (h.task i x hx).1
    · exact (h.task j x hx).1
  · rw [map_modify_eq hclaim]
    exact h.ledger
  · intro j k y z hy hz hjk hc
    obtain ⟨x, hx, rfl⟩ := getElem?_modify_eq.mp hy
    obtain ⟨w, hw, rfl⟩ := getElem?_modify_eq.mp hz
    rw [hclaim', hclaim'] at hc
    rw [hclaim']
    exact h.repeated j k x w hx hw hjk hc
  · intro j k y z hy hz hjk hc hyp
    obtain ⟨x, hx, rfl⟩ := getElem?_modify_eq.mp hy
    obtain ⟨w, hw, rfl⟩ := getElem?_modify_eq.mp hz
    rw [hclaim', hclaim'] at hc
    -- two functions of one request are scheduled, so the lease is shut and nobody passes now
    have hshut := h.repeated j k x w hx hw hjk hc
    have hold : ∀ (l : Nat) (v : Scheduled), tasks[l]? = some v → v.claim = x.claim →
        (if i = l then f v else v).passed = true → v.passed = true := by
      intro l v hv hcv hp
      split at hp
      · rename_i hil
        subst hil
        rcases hpassed v hv hp with hp | hopen
        · exact hp
        · rw [hcv] at hopen
          exact absurd hshut hopen
      · exact hp
    have hno := h.passed j k x w hx hw hjk hc (hold j x hx rfl hyp)
    by_contra hz
    have hyes := hold k w hw hc.symm (by simpa using hz)
    rw [hno] at hyes
    cases hyes

theorem HandoffInv.retask (h : HandoffInv handoffs left tasks leases) {i : Nat}
    {f : Scheduled → Scheduled} (hf : ∀ x, tasks[i]? = some x → x.Spent → (f x).Spent) :
    HandoffInv handoffs left (tasks.modify i f) leases where
  handoff := h.handoff
  spent k x j hx hj := by
    obtain ⟨y, hy, hspent⟩ := h.spent k x j hx hj
    refine ⟨_, getElem?_modify_eq.mpr ⟨y, hy, rfl⟩, ?_⟩
    split
    · rename_i hij
      subst hij
      exact hf y hy hspent
    · exact hspent
  single := h.single
  left := h.left

theorem HandoffInv.schedule (h : HandoffInv handoffs left tasks leases) (x : Scheduled) :
    HandoffInv handoffs left (tasks ++ [x]) leases where
  handoff := h.handoff
  spent k y i hy hi := by
    obtain ⟨z, hz, hspent⟩ := h.spent k y i hy hi
    exact ⟨z, getElem?_snoc_eq.mpr (.inl hz), hspent⟩
  single := h.single
  left := h.left

/-- A change of a handoff that keeps its lease, and the selection it consumed. -/
theorem HandoffInv.modify (h : HandoffInv handoffs left tasks leases) {k : Nat}
    {f : SessionExecutorHandoff T → SessionExecutorHandoff T} (hlease : ∀ x, (f x).lease = x.lease) (htask : ∀ x, (f x).task = x.task)
    (hsound : ∀ x, handoffs[k]? = some x → x.Sound → (f x).Sound) :
    HandoffInv (handoffs.modify k f) left tasks leases := by
  have hsame : ∀ (j : Nat) (x : SessionExecutorHandoff T), (if k = j then f x else x).lease = x.lease ∧
      (if k = j then f x else x).task = x.task := by
    intro j x
    split
    · exact ⟨hlease x, htask x⟩
    · exact ⟨rfl, rfl⟩
  constructor
  · intro j y hy
    obtain ⟨x, hx, rfl⟩ := getElem?_modify_eq.mp hy
    rw [(hsame j x).1]
    refine ⟨?_, (h.handoff j x hx).2⟩
    split
    · rename_i hkj
      subst hkj
      exact hsound x hx (h.handoff k x hx).1
    · exact (h.handoff j x hx).1
  · intro j y i hy hi
    obtain ⟨x, hx, rfl⟩ := getElem?_modify_eq.mp hy
    exact h.spent j x i hx ((hsame j x).2.symm.trans hi)
  · intro j l y z i hy hz hyi hzi
    obtain ⟨x, hx, rfl⟩ := getElem?_modify_eq.mp hy
    obtain ⟨w, hw, rfl⟩ := getElem?_modify_eq.mp hz
    exact h.single j l x w i hx hw ((hsame j x).2.symm.trans hyi) ((hsame l w).2.symm.trans hzi)
  · intro j hj
    obtain ⟨x, hx, hshut⟩ := h.left j hj
    refine ⟨_, getElem?_modify_eq.mpr ⟨x, hx, rfl⟩, ?_⟩
    rwa [(hsame j x).1]

/-- A new handoff.  If it consumes a selection, nobody has consumed that before. -/
theorem HandoffInv.snoc (h : HandoffInv handoffs left tasks leases) {x : SessionExecutorHandoff T} (hx : x.Sound)
    (hlt : x.lease < leases.nodes.size) (hspent : ∀ i, x.task = some i → ∃ y, tasks[i]? = some y ∧ y.Spent)
    (hnew : ∀ (k : Nat) (y : SessionExecutorHandoff T) (i : Nat), handoffs[k]? = some y → x.task = some i →
      y.task ≠ some i) :
    HandoffInv (handoffs ++ [x]) left tasks leases := by
  constructor
  · intro k y hy
    rcases getElem?_snoc_eq.mp hy with hy | ⟨_, e⟩
    · exact h.handoff k y hy
    · rw [e]
      exact ⟨hx, hlt⟩
  · intro k y i hy hi
    rcases getElem?_snoc_eq.mp hy with hy | ⟨_, e⟩
    · exact h.spent k y i hy hi
    · exact hspent i (e ▸ hi)
  · intro j k y z i hy hz hyi hzi
    rcases getElem?_snoc_eq.mp hy with hy | ⟨hj, ey⟩ <;>
      rcases getElem?_snoc_eq.mp hz with hz | ⟨hk, ez⟩
    · exact h.single j k y z i hy hz hyi hzi
    · exact absurd hyi (hnew j y i hy (ez ▸ hzi))
    · exact absurd hzi (hnew k z i hz (ey ▸ hyi))
    · exact hj.trans hk.symm
  · intro k hk
    obtain ⟨y, hy, hshut⟩ := h.left k hk
    exact ⟨y, getElem?_snoc_eq.mpr (.inl hy), hshut⟩

end

/-! ## What a thread can count on -/

/-- Only its maker changes a caller's entry. -/
def Entry.Later (me : Nat) (x y : Entry) : Prop := x.owner = me → y = x

/-- Only the thread that runs the coroutine of a scheduled function changes it; a handoff may
consume the selection. -/
def Scheduled.Later (me : Nat) (x y : Scheduled) : Prop :=
  x.runner = some me → y.source = x.source ∧ y.runner = x.runner ∧ y.passed = x.passed ∧
    y.handed = x.handed ∧ y.selection.isSome = x.selection.isSome

/-- A handoff keeps what it was made with, and only its receiver starts the function. -/
def SessionExecutorHandoff.Later (me : Nat) (x y : SessionExecutorHandoff T) : Prop :=
  y.source = x.source ∧ y.function = x.function ∧ y.lease = x.lease ∧
    (x.receiver = some me → y.receiver = x.receiver ∧ y.starts = x.starts)

structure Later (me : Nat) (s s' : Shared T) : Prop where
  leases : s.leases.Grows s'.leases
  callers : Rows (Entry.Later me) s.callers s'.callers
  tasks : Rows (Scheduled.Later me) s.tasks s'.tasks
  handoffs : Rows (SessionExecutorHandoff.Later me) s.handoffs s'.handoffs
  left : ∀ h ∈ s.left, h ∈ s'.left

variable {me : Nat}

theorem Entry.later_refl (x : Entry) : x.Later me x := fun _ => rfl

theorem Scheduled.later_refl (x : Scheduled) : x.Later me x := fun _ => ⟨rfl, rfl, rfl, rfl, rfl⟩

theorem SessionExecutorHandoff.later_refl (x : SessionExecutorHandoff T) : x.Later me x :=
  ⟨rfl, rfl, rfl, fun _ => ⟨rfl, rfl⟩⟩

theorem Entry.later_trans (x y z : Entry) (h : x.Later me y) (h' : y.Later me z) : x.Later me z := by
  intro hme
  have hy := h hme
  subst hy
  exact h' hme

theorem Scheduled.later_trans (x y z : Scheduled) (h : x.Later me y) (h' : y.Later me z) :
    x.Later me z := by
  intro hme
  obtain ⟨hs, hr, hp, hh, hsel⟩ := h hme
  obtain ⟨hs', hr', hp', hh', hsel'⟩ := h' (hr.trans hme)
  exact ⟨hs'.trans hs, hr'.trans hr, hp'.trans hp, hh'.trans hh, hsel'.trans hsel⟩

theorem SessionExecutorHandoff.later_trans (x y z : SessionExecutorHandoff T) (h : x.Later me y)
    (h' : y.Later me z) : x.Later me z := by
  obtain ⟨hs, hf, hl, hr⟩ := h
  obtain ⟨hs', hf', hl', hr'⟩ := h'
  refine ⟨hs'.trans hs, hf'.trans hf, hl'.trans hl, fun hme => ?_⟩
  obtain ⟨hrec, hstarts⟩ := hr hme
  obtain ⟨hrec', hstarts'⟩ := hr' (hrec.trans hme)
  exact ⟨hrec'.trans hrec, hstarts'.trans hstarts⟩

theorem Later.trans {s s' s'' : Shared T} (h : Later me s s') (h' : Later me s' s'') :
    Later me s s'' where
  leases := h.leases.trans h'.leases
  callers := h.callers.trans Entry.later_trans h'.callers
  tasks := h.tasks.trans Scheduled.later_trans h'.tasks
  handoffs := h.handoffs.trans SessionExecutorHandoff.later_trans h'.handoffs
  left k hk := h'.left k (h.left k hk)

theorem Later.refl (s : Shared T) : Later me s s where
  leases := .refl _
  callers := .refl Entry.later_refl _
  tasks := .refl Scheduled.later_refl _
  handoffs := .refl SessionExecutorHandoff.later_refl _
  left _ hk := hk

end

end ProjectMaya.Handoff
