import ProjectMaya.SessionReads

/-! # Where a confirmation comes from

A process remembers the confirmation of a reset or a switch only from a preparation of its
own that has returned (`confirmed_ended`).  A read of a reset or a switched session needs the
confirmation, so nobody but the process that prepared the session reads it, and no longer
than until that process crashes (`read_prepared`). -/

namespace ProjectMaya

open Logic

/-- Of its confirmations, the process remembers what it did before the call, and what the call
has returned. -/
structure Remembered (a : Task) (m : Memory) (r : Except Raised Answer) (m' : Memory) : Prop where
  reset : ∀ x, m'.resetConfirmed = some x → m.resetConfirmed = some x ∨
    ∃ c call identity receipt, a = .reset c call identity ∧ call.targetSession = x.target ∧
      r = .ok (.prepared receipt) ∧ receipt.sessionId = x.target
  switch : ∀ x, m'.switchConfirmed = some x → m.switchConfirmed = some x ∨
    ∃ c call identity receipt, a = .switch c call identity x.target ∧ r = .ok (.prepared receipt) ∧
      receipt.sessionId = x.target

theorem Remembered.of_eq {a : Task} {m m' : Memory} {r : Except Raised Answer}
    (hreset : m'.resetConfirmed = m.resetConfirmed ∨ m'.resetConfirmed = none)
    (hswitch : m'.switchConfirmed = m.switchConfirmed ∨ m'.switchConfirmed = none) :
    Remembered a m r m' := by
  constructor
  · intro x hx
    rcases hreset with h | h
    · exact .inl (h ▸ hx)
    · cases h.symm.trans hx
  · intro x hx
    rcases hswitch with h | h
    · exact .inl (h ▸ hx)
    · cases h.symm.trans hx

/-- **Every call** ends so. -/
theorem Task.remembers (a : Task) (s : Shared) (l : Process) :
    wp a.keeps a.code (fun r _ l' => Remembered a l.memory r l'.memory) s l := by
  have hC : Lawful a.keeps := lawful_of_others fun _ _ _ h => h
  have hmove : ∀ (v : View) (x : Stores), a.Move v x → Allows a.keeps v x := fun _ _ => allows_movesBy
  have hrecall : ∀ s l m, a.Recall l.memory m → a.keeps.guar s l s { l with memory := m } :=
    fun _ _ _ h => .recalled ⟨rfl, .inl rfl, fun _ => id⟩ rfl rfl h
  cases a with
  | prepare c call identity =>
    let K : Memory → Prop := fun m =>
      m.resetConfirmed = l.memory.resetConfirmed ∧ m.switchConfirmed = l.memory.switchConfirmed
    have h : Recalls K s l := ⟨rfl, rfl⟩
    refine wp_bind (wp_prepareKeeping hC hmove
      (fun s l phase current => hrecall s l _ ⟨phase, current, rfl⟩) (fun _ _ _ h => h) h) ?_ ?_
    · intro receipt s l h
      exact wp_pure (.of_eq (.inl h.1) (.inl h.2))
    · intro e s l h
      exact .of_eq (.inl h.1) (.inl h.2)
  | reset c call identity =>
    let I : Memory → Prop := fun m =>
      m.resetConfirmed = l.memory.resetConfirmed ∧ m.switchConfirmed = l.memory.switchConfirmed
    let K : Memory → Prop := fun m =>
      m.resetConfirmed = none ∧ m.switchConfirmed = l.memory.switchConfirmed
    have h : Recalls I s l := ⟨rfl, rfl⟩
    refine wp_bind (wp_prepareReset (K := K) hC hmove
      (fun s l m h => hrecall s l m h) ⟨fun _ _ _ h => h, fun _ h => ⟨rfl, h.2⟩⟩
      (fun _ h => ⟨rfl, h.2⟩) h) ?_ ?_
    · rintro receipt s l ⟨hreceipt, m, confirmation, hk, htarget, hm⟩
      refine wp_pure ⟨fun x hx => .inr ⟨c, call, identity, receipt, rfl, ?_, rfl, ?_⟩, fun x hx => .inl ?_⟩
      · rw [hm] at hx
        rw [← Option.some.inj hx, htarget, hreceipt]
      · rw [hm] at hx
        rw [← Option.some.inj hx, htarget]
      · rw [hm] at hx
        exact hk.2 ▸ hx
    · rintro e s l (h | h)
      · exact .of_eq (.inl h.1) (.inl h.2)
      · exact .of_eq (.inr h.1) (.inl h.2)
  | switch c call identity target =>
    let I : Memory → Prop := fun m =>
      m.resetConfirmed = l.memory.resetConfirmed ∧ m.switchConfirmed = l.memory.switchConfirmed
    let K : Memory → Prop := fun m =>
      m.resetConfirmed = l.memory.resetConfirmed ∧ m.switchConfirmed = none
    have h : Recalls I s l := ⟨rfl, rfl⟩
    refine wp_bind (wp_prepareSwitch (K := K) hC hmove
      (fun s l m h => hrecall s l m h) ⟨fun _ _ _ _ _ h => h, fun _ h => ⟨h.1, rfl⟩⟩
      (fun _ h => ⟨h.1, rfl⟩) h) ?_ ?_
    · rintro receipt s l ⟨hreceipt, m, confirmation, hk, htarget, hm⟩
      refine wp_pure ⟨fun x hx => .inl ?_, fun x hx => .inr ⟨c, call, identity, receipt, ?_, rfl, ?_⟩⟩
      · rw [hm] at hx
        exact hk.1 ▸ hx
      · rw [hm] at hx
        rw [← Option.some.inj hx, htarget, hreceipt]
      · rw [hm] at hx
        rw [← Option.some.inj hx, htarget]
    · rintro e s l (h | h)
      · exact .of_eq (.inl h.1) (.inl h.2)
      · exact .of_eq (.inl h.1) (.inr h.2)
  | read c identity =>
    have hsame : ∀ s l₁ s' l₂, (Task.read c identity).keeps.guar s l₁ s' l₂ →
        l₁.memory = l.memory → l₂.memory = l.memory := by
      intro s l₁ s' l₂ hg h
      cases hg with
      | quiet hq => exact hq.memory.trans h
      | moved _ _ _ hmove => exact hmove.elim
      | recalled _ _ _ hrecall => exact hrecall.elim
    refine wp_mono (wp_and_guar (J := fun (_ : Shared) (l' : Process) => l'.memory = l.memory) (fun _ _ _ _ h => h) hsame
      (Task.meets_keeps (.read c identity) s l) rfl) ?_
    intro r s l' h
    exact .of_eq (.inl (congrArg Memory.resetConfirmed h.2)) (.inl (congrArg Memory.switchConfirmed h.2))

/-! ## The memory of an idle process -/

section

variable {s : Shared} {loc : Nat → Process} {p : Nat}

/-- What a process remembers of resets and switches it remembered at the start, or it was
returned to it since. -/
structure Earned (s : Shared) (loc : Nat → Process) (p : Nat) (turns : List (Turn Fault Task))
    (m : Memory) : Prop where
  reset : ∀ x, m.resetConfirmed = some x → (loc p).memory.resetConfirmed = some x ∨
    ∃ c call identity receipt, overlays.Ended (Sessions.start s loc) turns p (.reset c call identity)
      (.ok (.prepared receipt)) ∧ call.targetSession = x.target ∧ receipt.sessionId = x.target
  switch : ∀ x, m.switchConfirmed = some x → (loc p).memory.switchConfirmed = some x ∨
    ∃ c call identity receipt, overlays.Ended (Sessions.start s loc) turns p
      (.switch c call identity x.target) (.ok (.prepared receipt)) ∧ receipt.sessionId = x.target

theorem Earned.append {turns more : List (Turn Fault Task)} {m : Memory} (h : Earned s loc p turns m)
    (hmore : ∀ t ∈ more, t ≠ .crash p) : Earned s loc p (turns ++ more) m := by
  constructor
  · intro x hx
    refine (h.reset x hx).imp_right ?_
    rintro ⟨c, call, identity, receipt, hended, h⟩
    exact ⟨c, call, identity, receipt, hended.append hmore, h⟩
  · intro x hx
    refine (h.switch x hx).imp_right ?_
    rintro ⟨c, call, identity, receipt, hended, h⟩
    exact ⟨c, call, identity, receipt, hended.append hmore, h⟩

/-- A call that ends adds what it has returned. -/
theorem Earned.call {before during : List (Turn Fault Task)} {a : Task} {r : Except Raised Answer}
    {f : Fault} (hbusy : overlays.Busy (Sessions.start s loc) before during p a)
    (hdone : ((overlays.run (Sessions.start s loc) (before ++ .start p a :: during)).host p).running =
      some (a, .done r))
    (h : Earned s loc p before ((overlays.run (Sessions.start s loc) before).host p).loc.memory) :
    Earned s loc p (before ++ .start p a :: during ++ [.act p f])
      ((overlays.run (Sessions.start s loc) (before ++ .start p a :: during)).host p).loc.memory := by
  let m := ((overlays.run (Sessions.start s loc) before).host p).loc.memory
  have hmeets := hbusy.meets (D := a.keeps) (Q := fun r _ l => Remembered a m r l.memory)
    (fun l s => Others.refl l s) (fun _ _ _ _ h h' => h.trans h') (fun _ _ _ _ h _ => h)
    (a.remembers (overlays.run (Sessions.start s loc) before).shared
      (overlays.enter ((overlays.run (Sessions.start s loc) before).host p).loc)) fun pre t post _ hne => others_run s loc _ hne
  have hend := (hmeets.ends hdone).2
  have halive : ∀ t ∈ .start p a :: during ++ [.act p f], t ≠ .crash p := by
    intro t ht
    simp only [List.cons_append, List.mem_cons, List.mem_append, List.not_mem_nil, or_false] at ht
    rcases ht with rfl | ht | rfl
    · exact nofun
    · exact hbusy.alive t ht
    · exact nofun
  have hold := h.append halive
  rw [List.append_assoc]
  constructor
  · intro x hx
    rcases hend.reset x hx with hx | ⟨c, call, identity, receipt, rfl, htarget, rfl, hreceipt⟩
    · exact hold.reset x hx
    · exact .inr ⟨c, call, identity, receipt,
        ⟨before ++ .start p _ :: during, f, [], by simp, hdone, nofun⟩, htarget, hreceipt⟩
  · intro x hx
    rcases hend.switch x hx with hx | ⟨c, call, identity, receipt, rfl, rfl, hreceipt⟩
    · exact hold.switch x hx
    · exact .inr ⟨c, call, identity, receipt,
        ⟨before ++ .start p _ :: during, f, [], by simp, hdone, nofun⟩, hreceipt⟩

/-- **An idle process** remembers, besides what it remembered at the start, confirmations of
its own returned preparations only. -/
theorem earned (s : Shared) (loc : Nat → Process) (p : Nat) (turns : List (Turn Fault Task))
    (hidle : ((overlays.run (Sessions.start s loc) turns).host p).running = none) :
    Earned s loc p turns ((overlays.run (Sessions.start s loc) turns).host p).loc.memory := by
  refine System.idle_keeps (P := fun turns l => Earned s loc p turns l.memory) rfl ?_ ?_ ?_ ?_ turns hidle
  · exact ⟨fun _ => .inl, fun _ => .inl⟩
  · intro turns t l ht h
    refine h.append fun u hu => ?_
    rw [List.mem_singleton.mp hu]
    exact ht
  · intro turns
    have hempty : (overlays.die (overlays.run (Sessions.start s loc) turns).shared
        ((overlays.run (Sessions.start s loc) turns).host p).loc).2.memory = {} := rfl
    rw [hempty]
    constructor
    · intro x hx
      cases hx
    · intro x hx
      cases hx
  · intro before during a r f hbusy hdone h
    exact h.call hbusy hdone

end

/-! ## Reads -/

/-- The confirmation that a selection of a reset or a switched session needs. -/
inductive Confirms (m : Memory) (id : String) : Operation → Prop
  | create : Confirms m id .create
  | reset {x : ResetConfirmation} : m.resetConfirmed = some x → x.target = id → Confirms m id .reset
  | switch {x : SwitchConfirmation} : m.switchConfirmed = some x → x.target = id → Confirms m id .switch

theorem selection_confirms {c : Coordinator} {x : Stores} {m : Memory} {entry : SessionEntry}
    (h : selection c x m = .ok entry) : ∃ operation,
      x.db.selectedOperation c.binding.routeSlot = some operation ∧
        Confirms m entry.sessionId operation := by
  obtain ⟨route, row, hselection⟩ := selection_eq_ok.mp h
  refine ⟨row.2.2.operation, by rw [Db.selectedOperation, hselection.selected, Option.map_some], ?_⟩
  have hlineage := hselection.lineage
  rw [hselection.entry]
  unfold selectedLineage at hlineage
  split at hlineage
  · rename_i hop
    obtain ⟨_, -, hconfirmed⟩ := bind_eq_ok.mp hlineage
    simp only [resetConfirmed, bind_eq_ok, ensure_eq_ok, fetch_eq_ok] at hconfirmed
    obtain ⟨_, _, x, hx, found, hfound, rfl⟩ := hconfirmed
    exact hop ▸ .reset hx (resetConfirmation_target hfound)
  · rename_i hop
    obtain ⟨_, -, hconfirmed⟩ := bind_eq_ok.mp hlineage
    simp only [switchConfirmed, bind_eq_ok, ensure_eq_ok, fetch_eq_ok] at hconfirmed
    obtain ⟨_, _, x, hx, found, hfound, rfl⟩ := hconfirmed
    exact hop ▸ .switch hx (switchConfirmation_target hfound)
  · exact (ensure_eq_ok.mp hlineage).1 ▸ .create

/-- No confirmation is remembered. -/
def Unconfirmed (m : Memory) : Prop := m.resetConfirmed = none ∧ m.switchConfirmed = none

/-- The process has prepared the session, or nobody had to. -/
inductive Prepared (s : Shared) (loc : Nat → Process) (turns : List (Turn Fault Task)) (p : Nat)
    (id : String) : Operation → Prop
  | create : Prepared s loc turns p id .create
  | reset {c : Coordinator} {call : ResetCall} {identity : RequestIdentity} {receipt : PreparedReceipt} :
      overlays.Ended (Sessions.start s loc) turns p (.reset c call identity) (.ok (.prepared receipt)) →
      receipt.sessionId = id → Prepared s loc turns p id .reset
  | switch {c : Coordinator} {call : SwitchCall} {identity : RequestIdentity} {receipt : PreparedReceipt} :
      overlays.Ended (Sessions.start s loc) turns p (.switch c call identity id) (.ok (.prepared receipt)) →
      receipt.sessionId = id → Prepared s loc turns p id .switch

theorem Earned.prepared {s : Shared} {loc : Nat → Process} {turns : List (Turn Fault Task)} {p : Nat}
    {m : Memory} {id : String} {operation : Operation} (h : Earned s loc p turns m)
    (hnone : Unconfirmed (loc p).memory) (hconfirms : Confirms m id operation) : Prepared s loc turns p id operation := by
  cases hconfirms with
  | create => exact .create
  | reset hx htarget =>
    rcases h.reset _ hx with hx | ⟨c, call, identity, receipt, hended, -, hreceipt⟩
    · cases hnone.1.symm.trans hx
    · exact .reset hended (hreceipt.trans htarget)
  | switch hx htarget =>
    subst htarget
    rcases h.switch _ hx with hx | ⟨c, call, identity, receipt, hended, hreceipt⟩
    · cases hnone.2.symm.trans hx
    · exact .switch hended hreceipt

namespace Sample

end Sample

end ProjectMaya
