import ProjectMaya.LinesShown
import ProjectMaya.Selections

/-! # Reads among other calls

A read takes many actions, and others act in between.  What it returns is nevertheless the
selection of the stores at one moment between its start and its end (`selected_of_read`): it
holds the projection lock while it looks, and under the lock the stores stand still. -/

namespace ProjectMaya

open Logic

/-! ## What the others do during a call -/

/-- A turn of another process respects the lock of a process. -/
theorem others_turn {c : Sessions} {t : Turn Fault Task} {rest : List (Turn Fault Task)} {p : Nat}
    (h : together.Good c (t :: rest)) (hne : t.host ≠ p) :
    Others (c.host p).loc c.shared (overlays.turn c t).shared := by
  have hpid : ∀ q, (c.host q).loc.pid = q := h.own
  have hother : (c.host p).loc.pid ≠ (c.host t.host).loc.pid := by
    rw [hpid, hpid]
    exact hne.symm
  have heffect := (together.good_turn h).2
  generalize overlays.turn c t = c' at heffect
  cases heffect with
  | started _ hs _ => rw [hs]; exact .refl _ _
  | refused => exact .refl _ _
  | idle => exact .refl _ _
  | acted _ hg => exact Keeps.others hg hother
  | ended _ _ hs _ => rw [hs]; exact .refl _ _
  | @crashed q _ hdie =>
    have hshared : c'.shared = (die c.shared (c.host q).loc).1 := congrArg Prod.fst hdie
    rw [hshared]
    exact others_of_die hother

/-- The same, along a run. -/
theorem others_run (s : Shared) (loc : Nat → Process) (turns : List (Turn Fault Task))
    {t : Turn Fault Task} {p : Nat} (hne : t.host ≠ p) :
    Others ((overlays.run (Sessions.start s loc) turns).host p).loc
      (overlays.run (Sessions.start s loc) turns).shared
      (overlays.turn (overlays.run (Sessions.start s loc) turns) t).shared :=
  others_turn (together_good s loc turns [t]) hne

/-- The stores that are there at some moment of a call. -/
def SeenIn (s : Shared) (loc : Nat → Process) (before during : List (Turn Fault Task)) (p : Nat)
    (a : Task) (x : Stores) : Prop :=
  ∃ pre post, during = pre ++ post ∧
    (overlays.run (Sessions.start s loc) (before ++ .start p a :: pre)).shared.stores = x

/-- Others respect the lock, and keep what `V` says of the stores. -/
def OthersKeep (V : Stores → Prop) (l : Process) (s s' : Shared) : Prop :=
  Others l s s' ∧ (V s.stores → V s'.stores)

namespace OthersKeep

variable {V : Stores → Prop} {l : Process} {s s' s'' : Shared}

theorem refl (l : Process) (s : Shared) : OthersKeep V l s s := ⟨.refl l s, id⟩

theorem trans (h : OthersKeep V l s s') (h' : OthersKeep V l s' s'') : OthersKeep V l s s'' :=
  ⟨h.1.trans h'.1, h'.2 ∘ h.2⟩

end OthersKeep

/-- What the others do during a call, as its contract sees it. -/
theorem keep_seen {s : Shared} {loc : Nat → Process} {before during : List (Turn Fault Task)}
    {p : Nat} {a : Task} (pre : List (Turn Fault Task)) (t : Turn Fault Task)
    (post : List (Turn Fault Task)) (hduring : during = pre ++ t :: post) (hne : t.host ≠ p) :
    OthersKeep (SeenIn s loc before during p a)
      ((overlays.run (Sessions.start s loc) (before ++ .start p a :: pre)).host p).loc
      (overlays.run (Sessions.start s loc) (before ++ .start p a :: pre)).shared
      (overlays.turn (overlays.run (Sessions.start s loc) (before ++ .start p a :: pre)) t).shared := by
  refine ⟨others_run s loc _ hne, fun _ => ⟨pre ++ [t], post, by simp [hduring], ?_⟩⟩
  have hsplit : before ++ .start p a :: (pre ++ [t]) = (before ++ .start p a :: pre) ++ [t] := by simp
  rw [hsplit, System.run_snoc]

/-! ## Reads -/

/-- **A read that returns**, among whatever else happens, returns the selection of the stores
and of its process at one moment between its start and its end. -/
theorem selected_of_read {s : Shared} {loc : Nat → Process} {turns : List (Turn Fault Task)} {p : Nat}
    {c : Coordinator} {identity : RequestIdentity} {answer : Answer}
    (h : ((overlays.run (Sessions.start s loc) turns).host p).running =
      some (.read c identity, .done (.ok answer))) :
    ∃ entry before during after, answer = .entry entry ∧
      turns = before ++ .start p (.read c identity) :: (during ++ after) ∧
      overlays.Busy (Sessions.start s loc) before (during ++ after) p (.read c identity) ∧
      selection c
        (overlays.run (Sessions.start s loc) (before ++ .start p (.read c identity) :: during)).shared.stores
        ((overlays.run (Sessions.start s loc) before).host p).loc.memory = .ok entry := by
  obtain ⟨before, during, rfl, hbusy⟩ := System.began rfl h
  let seen := SeenIn s loc before during p (.read c identity)
  let start := overlays.run (Sessions.start s loc) before
  let C := movesBy (OthersKeep seen) (fun _ _ => False) Never
  let R : Shared → Process → Prop := fun s l => seen s.stores ∧ l.memory = (start.host p).loc.memory
  have hC : Lawful C := lawful_of_others fun _ _ _ h => h.1
  have hR : Outside C R := ⟨fun _ _ _ hr h => ⟨hr.2 h.1, h.2⟩, fun _ _ _ h => h⟩
  have hstart : R start.shared ((overlays.enter (start.host p).loc)) := by
    refine ⟨⟨[], during, rfl, ?_⟩, rfl⟩
    rw [System.run_snoc, (overlays.host_start hbusy.idle).2]
  let Q : Except Raised Answer → Shared → Process → Prop := fun r _ _ => ∀ answer, r = .ok answer →
    ∃ entry s₀ l₀, answer = .entry entry ∧ R s₀ l₀ ∧ selection c s₀.stores l₀.memory = .ok entry
  have henter : wp C (Task.code (.read c identity)) Q start.shared (overlays.enter (start.host p).loc) := by
    refine wp_bind (wp_readOwned hC hR hstart) (fun entry s l hselected => ?_) fun _ _ _ _ _ heq => by
      cases heq
    refine wp_pure fun answer heq => ?_
    obtain ⟨s₀, l₀, h₀, hselected⟩ := hselected
    cases heq
    exact ⟨entry, s₀, l₀, rfl, h₀, hselected⟩
  have hmeets := hbusy.meets (D := C) (Q := Q) OthersKeep.refl (fun _ _ _ _ => OthersKeep.trans)
    (fun _ _ _ _ h _ => h) henter keep_seen
  obtain ⟨entry, s₀, l₀, rfl, ⟨⟨pre, post, rfl, hstores⟩, hmemory⟩, hselected⟩ :=
    (hmeets.ends h).2 answer rfl
  refine ⟨entry, before, pre, post, rfl, rfl, hbusy, ?_⟩
  rw [hstores, ← hmemory]
  exact hselected

/-- At some moment of the call, the tables show a ledger in which the slot has the line. -/
def Saw (s : Shared) (loc : Nat → Process) (turns : List (Turn Fault Task)) (p : Nat) (a : Task)
    (slot : String) (k : Line) : Prop :=
  ∃ before during after L, turns = before ++ .start p a :: (during ++ after) ∧
    overlays.Busy (Sessions.start s loc) before (during ++ after) p a ∧
    Shows (overlays.run (Sessions.start s loc) (before ++ .start p a :: during)).shared.stores.db L ∧
    L.line slot = some k

namespace Sample

/-- The first process reads its session. -/
def reader : Task := .read coordinator coordinator.binding.owner

def entry : SessionEntry := ⟨"main", "session", 7, 7⟩

/-- The turns of one read that nothing disturbs. -/
def oneRead (p n : Nat) : List (Turn Fault Task) := .start p reader :: List.replicate n (.act p default)

/-- Some number of actions brings the read to its end, and leaves the stores alone. -/
theorem reader_ends {c : Sessions} {p : Nat} (hshared : c.shared = created)
    (hhost : c.host p = ⟨{ pid := p }, none⟩) : ∃ n, (overlays.run c (oneRead p n)).shared = created ∧
      ((overlays.run c (oneRead p n)).host p).running = some (reader, .done (.ok (.entry entry))) := by
  obtain ⟨hstart, hsame⟩ := overlays.host_start (c := c) (p := p) (a := reader) (by rw [hhost])
  obtain ⟨n, hend, hdone⟩ := overlays.exists_run_calm (by rw [hstart])
  have hcalm : (overlays.prog reader).calm created (overlays.enter { pid := p }) =
      (.ok (.entry entry), created, Act.note (overlays.enter { pid := p }) .release true false) :=
    Prog.calm_bind_ok (calm_readOwned rfl rfl rfl created_selects)
  rw [hstart, hsame, hshared, hhost] at hend hdone
  dsimp only at hend hdone
  rw [hcalm] at hend hdone
  refine ⟨n, ?_, ?_⟩ <;> rw [oneRead, System.run_cons]
  · exact hend
  · rw [hdone]

theorem read_returns : ∃ n, ((overlays.run (Sessions.start created processes) (oneRead 1 n)).host 1).running =
    some (reader, .done (.ok (.entry entry))) := by
  obtain ⟨n, -, h⟩ := reader_ends (c := Sessions.start created processes) (p := 1) rfl rfl
  exact ⟨n, h⟩

theorem created_shown : Shows created.stores.db
    (.single "main" (.created "session") 1 [⟨"correlation", .create, "session", 1, 1⟩]) :=
  shows_single (r := creation.call.descriptor.routeRow) rfl rfl rfl rfl rfl rfl

end Sample

end ProjectMaya
