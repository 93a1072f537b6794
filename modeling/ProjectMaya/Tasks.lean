import ProjectMaya.Competing
import ProjectMaya.Logic.HostRuns
import ProjectMaya.PrepareSpec
import ProjectMaya.SwitchSpec

/-! # Every call of the overlays, in any order

Any number of processes prepare, reset, switch and read sessions through coordinators of
their own, on the same stores.  Their actions interleave in any order, each may fault, and
each process may crash at any time.

`Task.keeps` is one contract for all calls, with what a call does to the stores
(`Task.Move`) and to the memory of its process (`Task.Recall`); `tended` says what one turn
of a run can do. -/

namespace ProjectMaya

open Logic

/-- One call of a process. -/
inductive Task where
  | prepare (c : Coordinator) (call : CreateCall) (identity : RequestIdentity)
  | reset (c : Coordinator) (call : ResetCall) (identity : RequestIdentity)
  | switch (c : Coordinator) (call : SwitchCall) (identity : RequestIdentity) (target : String)
  | read (c : Coordinator) (identity : RequestIdentity)
  deriving DecidableEq, Repr

/-- What a call returns. -/
inductive Answer where
  | created (receipt : Receipt)
  | prepared (receipt : PreparedReceipt)
  | entry (entry : SessionEntry)
  deriving DecidableEq, Repr

namespace Task

def code : Task → Code Answer
  | .prepare c call identity => do return .created (← c.prepare call identity)
  | .reset c call identity => do return .prepared (← c.prepareReset call identity)
  | .switch c call identity target => do return .prepared (← c.prepareSwitch call identity target)
  | .read c identity => do return .entry (← c.readOwned identity)

/-- The correlation id of the transition that the call makes. -/
def id? : Task → Option String
  | .prepare _ call _ => some call.descriptor.correlationId
  | .reset _ call _ => some call.correlationId
  | .switch _ call _ _ => some call.correlationId
  | .read _ _ => none

/-- The changes of the stores that the call can make. -/
def Move (a : Task) (v : View) (x : Stores) : Prop :=
  match a with
  | .prepare c call _ => PrepareMove c call v x
  | .reset c call _ => ResetMove c call v x
  | .switch c call _ _ => SwitchMove c call v x
  | .read _ _ => False

/-- The fields of its process that the call can change. -/
def Recall (a : Task) (m m' : Memory) : Prop :=
  match a with
  | .prepare _ _ _ => ∃ phase current, m' = { m with callerPhase := phase, callerCurrent := current }
  | .reset _ call _ => ResetRecall call.targetSession m m'
  | .switch _ _ _ target => SwitchRecall target m m'
  | .read _ _ => False

end Task

abbrev Sessions := Config Fault Shared Process Raised Task Answer

/-- The system of the overlays. -/
def overlays : System Fault Shared Process Raised Task Answer where
  prog := Task.code
  enter l := { l with notes := [] }
  die := die

/-- All processes are idle; process `p` has the id `p`. -/
def Sessions.start (s : Shared) (loc : Nat → Process) : Sessions :=
  Config.initial s fun p => { loc p with pid := p }

section

variable {C : Contract Shared Process} {c : Coordinator} {identity : RequestIdentity} {s : Shared}
  {l : Process} {R : Shared → Process → Prop}

/-- Under any contract, an entry that a read returns was selected at a moment at which `R`
held. -/
theorem wp_readOwned (hC : Lawful C) (hR : Outside C R) (h : R s l) :
    wp C (c.readOwned identity) (Ends (fun entry _ _ =>
      ∃ s₀ l₀, R s₀ l₀ ∧ selection c s₀.stores l₀.memory = .ok entry) fun _ _ => True) s l := by
  have hfree : ∀ v : View, Covers (Holding fun _ => True) v := fun v =>
    covers_holding (F := fun _ => True) (fun _ _ _ h => h) trivial
  refine wp_renamed ?_
  refine wp_bind (P := Ends (fun _ s l => R s l ∧ identity = c.binding.owner) fun _ _ => True)
    ?_ ?_ fun _ _ _ h => h
  · refine wp_bind (wp_refuseIfOutside (R := R) h) ?_ fun _ _ _ _ => trivial
    rintro _ s l ⟨h, hid⟩
    refine wp_mono (wp_askOutside hC hR h) fun r s l h => ?_
    cases r with
    | ok u => exact ⟨h, not_not.mp hid⟩
    | error e => trivial
  · rintro _ s l ⟨h, hid⟩
    refine wp_exclusive (G := fun v => ∃ s₀ l₀, R s₀ l₀ ∧ v.stores = s₀.stores ∧ v.memory = l₀.memory)
      (F := fun _ => True) (K := fun entry _ =>
        ∃ s₀ l₀, R s₀ l₀ ∧ selection c s₀.stores l₀.memory = .ok entry)
      hC hR h (fun _ _ _ => trivial) (fun s l h => ⟨s, l, h, rfl, rfl⟩) (fun _ _ _ h => h)
      (fun _ _ => trivial) ?_ (fun _ _ _ _ h _ => h) (fun _ _ _ _ _ _ _ => trivial)
      (fun _ _ _ _ _ _ _ => trivial)
    rintro v s l ⟨s₀, l₀, h₀, hstores, hmemory⟩ hv
    refine wp_mono (wp_validatedOwned hC hv (hfree v) hid) ?_
    intro r s l hr
    cases r with
    | ok entry => exact ⟨v, ⟨s₀, l₀, h₀, hstores ▸ hmemory ▸ hr.2⟩, hr.1⟩
    | error e => exact hr

end

namespace Task

/-- **Every call.**  Under a contract that lets it make its moves and change its fields, it
does nothing else. -/
theorem meets {C : Contract Shared Process} (a : Task) (hC : Lawful C)
    (hmove : ∀ v x, a.Move v x → Allows C v x)
    (hrecall : ∀ s l m, a.Recall l.memory m → C.guar s l s { l with memory := m }) (s : Shared)
    (l : Process) : wp C a.code (fun _ _ _ => True) s l := by
  have hany : Recalls (fun _ => True) s l := trivial
  have hends : ∀ {α : Type} {p : Code α} {f : α → Answer} {P : α → Shared → Process → Prop}
      {E : Shared → Process → Prop}, wp C p (Ends P E) s l →
      wp C (do return f (← p) : Code Answer) (fun _ _ _ => True) s l := fun h =>
    wp_bind h (fun _ _ _ _ => wp_pure trivial) fun _ _ _ _ => trivial
  cases a with
  | prepare c call identity =>
    exact hends (wp_prepareKeeping hC hmove (fun s l phase current => hrecall s l _ ⟨phase, current, rfl⟩)
      (fun _ _ _ _ => trivial) hany)
  | reset c call identity =>
    exact hends (wp_prepareReset (K := fun _ => True) hC hmove
      (fun s l m h => hrecall s l m h)
      ⟨fun _ _ _ _ => trivial, fun _ _ => trivial⟩ (fun _ _ => trivial) hany)
  | switch c call identity target =>
    exact hends (wp_prepareSwitch (K := fun _ => True) hC hmove
      (fun s l m h => hrecall s l m h)
      ⟨fun _ _ _ _ _ _ => trivial, fun _ _ => trivial⟩ (fun _ _ => trivial) hany)
  | read c identity =>
    exact hends (wp_readOwned hC (R := fun _ _ => True)
      ⟨fun _ _ _ _ _ => trivial, fun _ _ _ _ => trivial⟩ trivial)

/-- What the call promises the others. -/
def keeps (a : Task) : Contract Shared Process := movesBy Others a.Move a.Recall

theorem meets_keeps (a : Task) (s : Shared) (l : Process) : wp a.keeps a.code (fun _ _ _ => True) s l :=
  a.meets (lawful_of_others fun _ _ _ h => h) (fun _ _ h => allows_movesBy h)
    (fun _ _ _ h => .recalled ⟨rfl, .inl rfl, fun _ => id⟩ rfl rfl h) s l

end Task

/-- The calls tolerate each other. -/
def together : Cooperate overlays where
  own p l := l.pid = p
  apart _ _ := True
  contract := Task.keeps
  post _ _ _ _ := True
  own_enter _ _ h := h
  enter _ a s l _ := a.meets_keeps s { l with notes := [] }
  rely_refl _ l s := .refl l s
  rely_trans _ _ _ _ _ h h' := h.trans h'
  post_stable _ _ _ _ _ _ _ := trivial
  own_guar _ _ _ _ _ _ h hg := (Keeps.step hg).pid.trans h
  own_die _ _ _ h := h
  rely_guar _ _ _ _ _ _ _ _ _ hne hl hm _ hg := Keeps.others hg (hl ▸ hm ▸ hne)
  rely_die _ _ _ _ _ _ hne hl hm := others_of_die (hl ▸ hm ▸ hne)

/-- Every configuration that a run from idle processes reaches is good for what may follow. -/
theorem together_good (s : Shared) (loc : Nat → Process) (turns rest : List (Turn Fault Task)) :
    together.Good (overlays.run (Sessions.start s loc) turns) rest :=
  together.good_run (together.good_initial (fun _ => rfl)
    (List.pairwise_of_forall fun _ _ => ⟨trivial, trivial⟩))

/-! ## One turn -/

/-- What a turn of process `p` does to the stores: nothing, or one move of its call. -/
inductive Tended (c c' : Sessions) (p : Nat) : Prop
  | quiet : c'.shared.stores = c.shared.stores → Tended c c' p
  | moved {a : Task} {v : View} : (∃ k, (c.host p).running = some (a, k)) →
      At v c.shared (c.host p).loc → a.Move v c'.shared.stores → Tended c c' p

theorem tended {c : Sessions} {t : Turn Fault Task} {rest : List (Turn Fault Task)}
    (h : together.Good c (t :: rest)) : Tended c (overlays.turn c t) t.host := by
  have heffect := (together.good_turn h).2
  generalize hc' : overlays.turn c t = c' at heffect
  cases heffect with
  | started _ hs _ => exact .quiet (congrArg Shared.stores hs)
  | refused => exact .quiet rfl
  | idle => exact .quiet rfl
  | acted hrun hg =>
    cases hg with
    | quiet hq => exact .quiet hq.stores
    | moved _ _ hv hmove => exact .moved ⟨_, hrun⟩ hv hmove
    | recalled _ hs _ _ => exact .quiet hs
  | ended _ _ hs _ => exact .quiet (congrArg Shared.stores hs)
  | crashed hdie => exact .quiet (congrArg (fun x => Shared.stores x.1) hdie)

end ProjectMaya
