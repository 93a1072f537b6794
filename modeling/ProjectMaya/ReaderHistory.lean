import ProjectMaya.Evidence
import ProjectMaya.ReaderScope

/-! # The history is read in its scope

A call of `load_transcript` leaves a trail of what it was told.  `Granted` is the trail of a
call that returns messages; `published_reader_scope` says that there is no other way to get
any, in any run of the threads. -/

namespace ProjectMaya.Reader

open Logic

section

variable {T M : Type}

/-! ## Trails -/

theorem Entitled.snoc {who : Caller} {events : List (Event M)} (h : Entitled who events)
    {e : Event M} (he : ∀ sessionId messages, e ≠ .read sessionId messages) :
    Entitled who (events ++ [e]) := by
  intro sessionId messages hmem
  rcases List.mem_append.mp hmem with hmem | hmem
  · obtain ⟨bound, selected, ended, rest, hb, hevents, hover⟩ := h sessionId messages hmem
    exact ⟨bound, selected, ended, rest ++ [e], hb, by rw [hevents]; rfl, hover⟩
  · exact absurd (List.mem_singleton.mp hmem).symm (he sessionId messages)

/-- The chain of the lease ends at a root whose scope has been entered. -/
structure Rooted (lease root : Nat) (s : Shared T) : Prop where
  begun : s.Begun root
  lt : lease < s.leases.nodes.size
  root : s.leases.nodes.root lease = root

theorem Rooted.later {lease root me : Nat} {s s' : Shared T} (h : Rooted lease root s)
    (hl : Later me s s') : Rooted lease root s' where
  begun := hl.begun root h.begun
  lt := Forest.Grows.size_le hl.grows h.lt
  root := (Forest.Grows.root_eq hl.grows h.lt).trans h.root

/-- What a call knows, and what it has been told. -/
structure Trail (lease root : Nat) (events : List (Event M)) (s : Shared T) (t : Thread M) : Prop where
  rooted : Rooted lease root s
  events : t.events = events

/-- A look that found the lease active: the scope of the root was not over, and nothing but
its selection was active. -/
def Seen (lease root : Nat) (e : Event M) : Prop :=
  ∃ selected ended, e = .looked lease true selected ended ∧ root ∉ ended ∧
    ∀ other, selected = some other → other.lease = root

theorem Begun.lt {s : Shared T} {r : Nat} (hi : Inv s) (h : s.Begun r) : r < s.leases.nodes.size := by
  rcases h with h | h
  · exact (hi.entered r h).1
  · exact (hi.ended r h).1

/-- The walk of a lease that does not exist does not end at a root that does. -/
theorem rooted_of_root {s : Shared T} {lease root : Nat} (hi : Inv s) (hb : s.Begun root)
    (hroot : s.leases.nodes.root lease = root) : Rooted lease root s := by
  refine ⟨hb, ?_, hroot⟩
  by_contra hlt
  have hmissing : s.leases.nodes.get? lease = none := by
    cases h : s.leases.nodes.get? lease with
    | none => rfl
    | some l => exact absurd (s.leases.nodes.lt_size_of_get? h) hlt
  rw [Forest.root_of_missing _ hmissing] at hroot
  have := Begun.lt hi hb
  omega

/-- An open chain belongs to a scope that is not over, and whose selection is the only one. -/
theorem open_scope {s : Shared T} {lease root : Nat} (hi : Inv s) (hr : Rooted lease root s)
    (hopen : s.leases.Open lease) :
    root ∉ s.ended ∧ ∀ other, s.active = some other → other.lease = root := by
  have hover : root ∉ s.ended := by
    intro hover
    have hroot := hopen.below (hr.root ▸ s.leases.nodes.below_root lease)
    exact hroot.2 (hi.ended root hover).2
  refine ⟨hover, ?_⟩
  intro other hother
  have hentered := hi.active other hother
  rcases hr.begun with h | h
  · rw [h] at hentered
    cases hentered
    rfl
  · exact absurd h hover

/-! ## The parts of a call -/

section

variable {who : Caller} {asked : String} {lease root : Nat} {events : List (Event M)}
  {s : Shared T} {t : Thread M}

theorem wp_quiet {α : Type} {p : Code T M α} (hp : p.Each Quietly) (h : Trail lease root events s t) :
    wp (contract (.load who asked)) p (fun _ => Trail lease root events) s t := by
  induction p generalizing s t with
  | done r => exact h
  | step act k ih =>
    rintro s' ⟨hi, hl⟩ c
    have hcalm := hp.1.1 c s' t
    have hevents := hp.1.2 c s' t
    refine ⟨hp.1.1.step hi fun hlaw => ?_, ih _ (hp.2 _) ⟨?_, hevents.trans h.events⟩⟩
    · rw [hevents]
      exact hlaw
    · exact (h.rooted.later hl).later (hcalm.1.later t.id)

theorem wp_returns_quiet {α : Type} {p : Code T M α} (hp : p.Each Quietly)
    (h : Trail lease root events s t) :
    wp (contract (.load who asked)) p (Returns fun _ => Trail lease root events) s t :=
  wp_mono (wp_quiet hp h) fun _ _ _ h _ _ => h

/-- An action that only records an event. -/
theorem wp_record {β : Type} {act : Act T M β} {Q : β → Event M → Prop}
    (hact : ∀ c s t, (act.next c s t).2.1 = s ∧ (act.next c s t).2.2.id = t.id ∧
      ((∃ e, (act.next c s t).1 = .error e ∧ (act.next c s t).2.2.events = t.events) ∨
        ∃ b e, (act.next c s t).1 = .ok b ∧ (act.next c s t).2.2.events = t.events ++ [e] ∧ Q b e))
    (hlaw : ∀ b e, Q b e → Entitled who events → Entitled who (events ++ [e]))
    (h : Trail lease root events s t) :
    wp (contract (.load who asked)) (.perform act)
      (Returns fun b s t => ∃ e, Q b e ∧ Trail lease root (events ++ [e]) s t) s t := by
  refine wp_act (J := Rooted lease root) h.rooted (fun s s' hl h => h.later hl) ?_
  intro c s hi hr
  obtain ⟨hs, hid, ⟨e, herr, hsame⟩ | ⟨b, e, hok, hnew, hq⟩⟩ := hact c s t
  · rw [hs, herr]
    refine ⟨⟨hid, hi, fun q _ => .refl q s, fun hlaw => ?_, fun _ => rfl⟩, .error⟩
    rw [hsame]
    exact hlaw
  · rw [hs, hok]
    have hevents := hnew.trans (congrArg (· ++ [e]) h.events)
    refine ⟨⟨hid, hi, fun q _ => .refl q s, fun h' => ?_, fun _ => rfl⟩, .ok ⟨e, hq, hr, hevents⟩⟩
    rw [hevents]
    rw [h.events] at h'
    exact hlaw b e hq h'

theorem wp_authorize (identity : RequestIdentity) (operation target : String)
    (h : Trail lease root events s t) :
    wp (contract (.load who asked)) (authorize identity operation target)
      (Returns fun _ => Trail lease root (events ++ [.asked (readAction identity operation target) true]))
      s t := by
  have hask : wp (contract (.load who asked))
      (.perform (Act.authorize (readAction identity operation target)))
      (Returns fun b s t => ∃ e, e = .asked (readAction identity operation target) b ∧
        Trail lease root (events ++ [e]) s t) s t := by
    refine wp_record ?_ ?_ h
    · intro c s t
      unfold Act.authorize
      dsimp only
      split
      · exact ⟨rfl, rfl, .inr ⟨_, _, rfl, rfl, rfl⟩⟩
      · exact ⟨rfl, rfl, .inl ⟨_, rfl, rfl⟩⟩
      · exact ⟨rfl, rfl, .inl ⟨_, rfl, rfl⟩⟩
      · exact ⟨rfl, rfl, .inl ⟨_, rfl, rfl⟩⟩
      · exact ⟨rfl, rfl, .inl ⟨_, rfl, rfl⟩⟩
    · rintro b e rfl h
      exact h.snoc nofun
  refine returns_bind (returns_mapError hask fun _ _ _ => trivial) ?_
  rintro allowed s t ⟨e, rfl, h⟩
  refine returns_bind (returns_mapError (wp_returns_quiet (each_lift _) h) fun _ _ _ => trivial) ?_
  intro _ s t h
  refine returns_raiseIf ?_
  intro hallowed
  have hallowed : allowed = true := by simpa using hallowed
  rwa [hallowed] at h

theorem wp_validatedSession (c : Coordinator) (identity : RequestIdentity) (sessionId : String)
    (h : Trail lease root events s t) :
    wp (contract (.load who asked)) (validatedSession c identity sessionId)
      (Returns fun _ s t => ∃ entry : SessionEntry, entry.sessionId = sessionId ∧
        Trail lease root (events ++ [.asked (readAction identity "route_state" c.binding.routeSlot) true]
          ++ [.validated entry]) s t) s t := by
  refine returns_bind (P := fun entry s t => Trail lease root
    (events ++ [.asked (readAction identity "route_state" c.binding.routeSlot) true]
      ++ [.validated entry]) s t) ?_ ?_
  · refine returns_bind (wp_returns_quiet (each_lift _) h) ?_
    intro _ s t h
    refine returns_bind (wp_authorize identity _ _ h) ?_
    intro _ s t h
    refine returns_bind (wp_returns_quiet (each_lift _) h) ?_
    intro entry s t h
    refine returns_bind (wp_record (Q := fun _ e => e = .validated entry) ?_ ?_ h) ?_
    · intro c s t
      exact ⟨rfl, rfl, .inr ⟨_, _, rfl, rfl, rfl⟩⟩
    · rintro b e rfl h
      exact h.snoc nofun
    · rintro _ s t ⟨e, rfl, h⟩
      exact .ok h
  · intro entry s t h
    refine returns_raiseIf ?_
    intro hentry
    exact ⟨entry, not_not.mp hentry, h⟩

variable [LinearOrder T] (clock : Clock T)

theorem wp_activeLease (h : Trail lease root events s t) :
    wp (contract (.load who asked)) (activeLease clock lease)
      (Returns fun _ s t => ∃ e, Seen lease root e ∧ Trail lease root (events ++ [e]) s t) s t := by
  have hlook : wp (contract (.load who asked)) (.perform (Act.look clock lease))
      (Returns fun active s t => ∃ e, (active = true → Seen lease root e) ∧
        Trail lease root (events ++ [e]) s t) s t := by
    refine wp_act (J := Rooted lease root) h.rooted (fun s s' hl h => h.later hl) ?_
    intro c s hi hr
    have hcalm : Calm s { s with leases := (s.leases.isActive clock lease).2 } :=
      .leases (Leases.isActive_grows clock lease s.leases)
    have hi' := hi.calm hcalm
    refine ⟨⟨rfl, hi', fun q _ => hcalm.later q, fun hlaw => Entitled.snoc hlaw nofun, fun _ => rfl⟩, ?_⟩
    refine .ok ⟨_, ?_, hr.later (hcalm.later t.id), congrArg (· ++ [_]) h.events⟩
    intro hactive
    have hscope := open_scope hi' (hr.later (hcalm.later t.id)) (Leases.open_of_isActive clock hactive)
    exact ⟨s.active, s.ended, by rw [hactive], hscope⟩
  refine returns_bind hlook ?_
  rintro active s t ⟨e, hseen, h⟩
  refine returns_raiseIf ?_
  intro hactive
  exact ⟨e, hseen (by simpa using hactive), h⟩

end

/-! ## A whole call -/

/-- The trail of a call that returned messages.  The walk from its lease ended at the selection,
the scope was not over when the call began nor at any look, and the reader validated the
session that was asked for before the history was read and again after it; the last look at the
lease came after that. -/
def Granted (c : Coordinator) (who : Caller) (asked : String) (messages : List M)
    (events : List (Event M)) : Prop :=
  ∃ bound selected ended first second last before after,
    who.session = some bound ∧ fits who bound selected asked = true ∧ selected.lease ∉ ended ∧
    Seen bound.lease selected.lease first ∧ Seen bound.lease selected.lease second ∧
    Seen bound.lease selected.lease last ∧
    (before : SessionEntry).sessionId = asked ∧ (after : SessionEntry).sessionId = asked ∧
    events = [.began (some selected) ended, .walked bound.lease selected.lease, first,
      .asked (readAction bound.identity "route_state" c.binding.routeSlot) true, .validated before,
      .asked (readAction bound.identity "history" asked) true, second, .read asked messages,
      .asked (readAction bound.identity "route_state" c.binding.routeSlot) true, .validated after, last]

section

variable {who : Caller} {asked : String} {bound selected : SessionWriteContext} {ended : List Nat}
  {s : Shared T} {t : Thread M}

/-- The history is read by a call that is entitled to it. -/
theorem wp_messages {rest : List (Event M)} (hb : who.session = some bound) (hover : selected.lease ∉ ended)
    (h : Trail bound.lease selected.lease
      (.began (some selected) ended :: .walked bound.lease selected.lease :: rest) s t) :
    wp (contract (.load who asked)) (.perform (Act.messages asked)) (Returns fun messages =>
      Trail bound.lease selected.lease (.began (some selected) ended ::
        .walked bound.lease selected.lease :: (rest ++ [.read asked messages]))) s t := by
  refine wp_mono (wp_record (Q := fun messages e => e = .read asked messages) ?_ ?_ h) ?_
  · intro c s t
    unfold Act.messages
    dsimp only
    split
    · exact ⟨rfl, rfl, .inr ⟨_, _, rfl, rfl, rfl⟩⟩
    · exact ⟨rfl, rfl, .inl ⟨_, rfl, rfl⟩⟩
  · rintro messages _ rfl _ _ _ _
    exact ⟨bound, selected, ended, rest ++ [.read asked messages], hb, rfl, hover⟩
  · rintro r s t h messages hr
    obtain ⟨_, rfl, h⟩ := h messages hr
    exact h

variable [LinearOrder T] (clock : Clock T) (c : Coordinator)

theorem wp_boundTranscript (hb : who.session = some bound) (hover : selected.lease ∉ ended)
    (hbegun : s.Begun selected.lease) (hevents : t.events = [.began (some selected) ended]) :
    wp (contract (.load who asked)) (boundTranscript clock c who bound selected asked)
      (Returns fun messages _ t => Granted c who asked messages t.events) s t := by
  have hwalk : wp (contract (.load who asked)) (.perform (Act.walk bound.lease))
      (Returns fun root s t => root = selected.lease → Trail bound.lease selected.lease
        [.began (some selected) ended, .walked bound.lease selected.lease] s t) s t := by
    refine wp_act (J := fun s => s.Begun selected.lease) hbegun (fun s s' hl => hl.begun _) ?_
    intro c s hi hbegun
    refine ⟨⟨rfl, hi, fun q _ => .refl q s, fun hlaw => Entitled.snoc hlaw nofun, fun _ => rfl⟩, .ok ?_⟩
    intro hroot
    refine ⟨rooted_of_root hi hbegun hroot, ?_⟩
    show t.events ++ [Event.walked bound.lease (s.leases.nodes.root bound.lease)] = _
    rw [hevents, hroot]
    rfl
  refine returns_bind hwalk ?_
  intro root s t h
  refine returns_bind (returns_raiseIf (Q := fun _ => Trail bound.lease selected.lease
    [.began (some selected) ended, .walked bound.lease selected.lease]) fun hroot => h (not_not.mp hroot)) ?_
  intro _ s t h
  refine returns_bind (wp_activeLease clock h) ?_
  rintro _ s t ⟨first, hfirst, h⟩
  refine returns_bind (returns_raiseIf (Q := fun _ s t => fits who bound selected asked = true ∧
    Trail bound.lease selected.lease _ s t) fun hfits => ⟨by simpa using hfits, h⟩) ?_
  rintro _ s t ⟨hfits, h⟩
  refine returns_bind (wp_returns_quiet (each_lift _) h) ?_
  intro _ s t h
  refine returns_bind (wp_validatedSession c bound.identity asked h) ?_
  rintro _ s t ⟨before, hbefore, h⟩
  refine returns_bind (wp_authorize bound.identity _ _ h) ?_
  intro _ s t h
  refine returns_bind (wp_activeLease clock h) ?_
  rintro _ s t ⟨second, hsecond, h⟩
  refine returns_bind (wp_messages hb hover h) ?_
  intro messages s t h
  refine returns_bind (wp_validatedSession c bound.identity asked h) ?_
  rintro _ s t ⟨after, hafter, h⟩
  refine returns_bind (wp_activeLease clock h) ?_
  rintro _ s t ⟨last, hlast, h⟩
  exact .ok ⟨bound, selected, ended, first, second, last, before, after, hb, hfits, hover, hfirst,
    hsecond, hlast, hbefore, hafter, h.events⟩

theorem wp_loadTranscript (hevents : t.events = []) :
    wp (contract (.load who asked)) (loadTranscript clock c who asked)
      (Returns fun messages _ t => Granted c who asked messages t.events) s t := by
  have hbegan : wp (contract (.load who asked)) (.perform Act.began)
      (Returns fun selected s t => ∃ ended : List Nat, t.events = [.began selected ended] ∧
        ∀ context, selected = some context → s.Begun context.lease ∧ context.lease ∉ ended) s t := by
    refine wp_act (J := fun _ => True) trivial (fun _ _ _ => id) ?_
    intro c s hi _
    refine ⟨⟨rfl, hi, fun q _ => .refl q s, fun hlaw => Entitled.snoc hlaw nofun, fun _ => rfl⟩,
      .ok ⟨s.ended, ?_, ?_⟩⟩
    · show t.events ++ [_] = _
      rw [hevents]
      rfl
    · intro context hcontext
      have hentered := hi.active context hcontext
      exact ⟨.inl hentered, (hi.entered _ hentered).2⟩
  refine returns_bind hbegan ?_
  rintro selected s t ⟨ended, hevents, hselected⟩
  split
  · rename_i bound context hb
    obtain ⟨hbegun, hover⟩ := hselected context rfl
    exact wp_boundTranscript clock c hb hover hbegun hevents
  · exact .error

end

/-! ## Any run -/

section

variable [LinearOrder T] [Add T] (clock : Clock T) (c : Coordinator) (timeout : T)

omit [LinearOrder T] [Add T] in
theorem wp_calmTask {a : Task T} {act : Act T M Unit} (hact : Calmly act)
    (hlaw : ∀ events : List (Event M), Law a events) {s : Shared T} {t : Thread M} :
    wp (contract a) (do .perform act; return ([] : List M)) (fun _ _ _ => True) s t :=
  always_bind (wp_calm (.perform hact) hlaw stable_true trivial) (fun _ _ _ _ => trivial) fun _ _ h => h

/-- What the threads owe each other. -/
def covenant : Covenant (threads clock c timeout (M := M)) where
  inv := Inv
  own p t := t.id = p
  law a t := Law a t.events
  contract := contract
  post
    | .load who asked => Returns fun messages _ t => Granted c who asked messages t.events
    | _ => fun _ _ _ => True
  own_enter _ _ h := h
  law_enter
    | .load _ _, _ => nofun
    | .request _ _, _ | .read _, _ | .lease _, _ | .transition _, _ => trivial
  enter
    | _, .request who identity, _, _, _, _ =>
      always_bind (wp_authenticatedRequest clock timeout c who identity) (fun _ _ _ _ => trivial)
        fun _ _ h => h
    | _, .load _ _, _, _, _, _ => wp_loadTranscript clock c rfl
    | _, .read identity, _, _, _, _ =>
      always_bind (wp_read c identity) (fun _ _ _ _ => trivial) fun _ _ h => h
    | _, .lease call, _, _, _, _ =>
      wp_calmTask (a := .lease call) (fun _ s _ => ⟨.leases (Leases.step_grows clock s.leases call), rfl⟩) fun _ => trivial
    | _, .transition machine, _, _, _, _ =>
      wp_calmTask (a := .transition machine) (fun _ s _ => ⟨.machine s machine, rfl⟩) fun _ => trivial
  rely_refl _ _ s hi := ⟨hi, .refl _ s⟩
  rely_trans _ _ _ _ _ h h' := ⟨h'.1, h.2.trans h'.2⟩
  post_stable
    | .load _ _, _, _, _, _ => fun h _ => h
    | .request _ _, _, _, _, _ | .read _, _, _, _, _ | .lease _, _, _, _, _
    | .transition _, _, _, _, _ => fun _ _ => trivial
  keep _ _ _ _ _ _ _ hown hlaw hg := ⟨hg.inv, hg.id.trans hown, hg.law hlaw⟩
  keep_die _ _ _ hi hown := ⟨hi, hown⟩
  rely_guar p q _ _ l _ m _ _ hne _ hp hq hg :=
    ⟨hg.inv, hg.later l.id (by rw [show l.id = p from hp, show m.id = q from hq]; exact hne)⟩
  rely_die _ _ _ _ s _ _ hi _ _ := ⟨hi, .refl _ s⟩

/-- The process before any thread runs: no lease, no scope, an empty cache. -/
def start (machine : ProjectMaya.Shared) (processes : Nat → Process) :
    Config (Choice M) (Shared T) (Thread M) Raised (Task T) (List M) :=
  .initial { machine } fun p => { id := p, process := processes p }

omit [LinearOrder T] [Add T] in
theorem inv_start (machine : ProjectMaya.Shared) : Inv ({ machine } : Shared T) where
  idle _ := ⟨rfl, .inl rfl⟩
  active := nofun
  entered := nofun
  exits := nofun
  ended := nofun

/-- **Published reader scope.**  In every run of the threads:
a call of `load_transcript` that returns messages has the trail of `Granted`;
a call that has read the history at all began while the root of its context was the active
selection, and that scope was not over;
a thread that gives the selection lock back leaves no selection, its root shut for every context
below it, and an empty cache, unless the run calls `read`. -/
theorem published_reader_scope (machine : ProjectMaya.Shared) (processes : Nat → Process)
    (turns : List (Turn (Choice M) (Task T))) :
    let s := (threads clock c timeout).run (start machine processes) turns
    (∀ p who asked messages, (s.host p).running = some (.load who asked, .done (.ok messages)) →
      Granted c who asked messages (s.host p).loc.events) ∧
    (∀ p who asked k, (s.host p).running = some (.load who asked, k) →
      Entitled who (s.host p).loc.events) ∧
    ∀ e ∈ s.shared.exits, e.selected = none ∧
      (∀ r, e.root = some r → ∀ i, s.shared.leases.nodes.Below i r →
        (s.shared.leases.isActive clock i).1 = false) ∧
      ((∀ identity, .read identity ∉ starts turns) → e.cache.entries = []) := by
  intro s
  have hown : ∀ p, (covenant clock c timeout).own p ({ id := p, process := processes p } : Thread M) :=
    fun _ => rfl
  have hstart := (covenant clock c timeout).good_initial (inv_start machine) hown
  have hgood := (covenant clock c timeout).good_run hstart turns
  refine ⟨?_, ?_, ?_⟩
  · intro p who asked messages hrun
    exact (hgood.busy p _ _ hrun).2 messages rfl
  · intro p who asked k hrun
    exact (hgood.busy p _ _ hrun).1
  · intro e he
    obtain ⟨hselected, hcache⟩ := hgood.inv.exits e he
    refine ⟨hselected, ?_, ?_⟩
    · intro r hr i hi
      have hover : r ∈ s.shared.ended := List.mem_filterMap.mpr ⟨e, he, hr⟩
      exact Leases.isActive_false_of_shut clock ((hgood.inv.ended r hover).2.below hi)
    · intro hread
      have hfills : s.shared.fills = 0 := by
        refine (covenant clock c timeout).run_shared (J := fun s => s.fills = 0)
          (Q := fun a => a.fills = false) ?_ (fun _ _ h => h) hstart rfl nofun ?_
        · intro p a s t s' t' ha _ hg h
          exact (hg.fills ha).trans h
        · intro a ha
          cases a with
          | read identity => exact absurd ha (hread identity)
          | _ => rfl
      exact hcache.resolve_right (not_not.mpr hfills)

end

end

/-! ## An example -/

namespace Sample

def clock : Clock Nat := ⟨id, monotone_id⟩

/-- The tables after a session has been created and published. -/
def machine : ProjectMaya.Shared :=
  (creates.run (Creations.start ProjectMaya.Sample.provisioned ProjectMaya.Sample.processes)
    ProjectMaya.Sample.turns).shared

def database : ResolvedPath := { names := ["state.db"], valid := ResolvedPath.stateDb_valid }

def answers : Choice String where
  requestId := "request"
  path := .ok database
  messages := .ok ["hello"]

def owner : RequestIdentity := { actorId := "owner" }

/-- The thread that opens the scope. -/
def outside : Caller := { thread := 1, task := none, identity := none, session := none }

/-- The same thread in the body of the scope. -/
def inside : Caller where
  thread := 1
  task := none
  identity := some owner
  session := some
    { identity := owner, requestId := "request", sessionId := "session", database
      operations := ["append"], threadId := 1, task := none, lease := 1 }

/-- A scope is opened, the history is loaded in it, and the scope is left. -/
def turns : List (Turn (Choice String) (Task Nat)) :=
  .start 0 (.request outside owner) :: List.replicate 27 (.act 0 answers) ++
    .start 1 (.load inside "session") :: List.replicate 25 (.act 1 answers) ++
    List.replicate 7 (.act 0 answers)

/-- What a call of `load_transcript` has returned. -/
def returned (h : Logic.Host (Choice String) (Shared Nat) (Thread String) Raised (Task Nat) (List String)) :
    Option (Caller × String × List String) :=
  match h.running with
  | some (.load who asked, .done (.ok messages)) => some (who, asked, messages)
  | _ => none

theorem running_of_returned
    {h : Logic.Host (Choice String) (Shared Nat) (Thread String) Raised (Task Nat) (List String)}
    {who : Caller} {asked : String} {messages : List String}
    (hr : returned h = some (who, asked, messages)) :
    h.running = some (.load who asked, .done (.ok messages)) := by
  unfold returned at hr
  split at hr
  · rename_i hrun
    cases hr
    exact hrun
  · cases hr

/-- The load has been granted its history, and the scope has left the cache empty. -/
theorem loaded_in_scope :
    let s := (threads clock ProjectMaya.Sample.coordinator 100).run
      (start machine ProjectMaya.Sample.processes) turns
    Granted ProjectMaya.Sample.coordinator inside "session" ["hello"] (s.host 1).loc.events ∧
      s.shared.exits.length = 1 ∧ ∀ e ∈ s.shared.exits, e.cache.entries = [] := by
  have hloaded : returned (((threads clock ProjectMaya.Sample.coordinator 100).run
      (start machine ProjectMaya.Sample.processes) turns).host 1) =
        some (inside, "session", ["hello"]) := by decide +kernel
  have hexit : ((threads clock ProjectMaya.Sample.coordinator 100).run
      (start machine ProjectMaya.Sample.processes) turns).shared.exits.length = 1 := by decide +kernel
  have hrun := running_of_returned hloaded
  obtain ⟨hgranted, _, hexits⟩ := published_reader_scope clock ProjectMaya.Sample.coordinator 100
    machine ProjectMaya.Sample.processes turns
  refine ⟨hgranted 1 inside "session" ["hello"] hrun, hexit, ?_⟩
  intro e he
  refine (hexits e he).2.2 ?_
  intro identity hmem
  have hstarts : starts turns = [.request outside owner, .load inside "session"] := rfl
  rw [hstarts] at hmem
  simp at hmem

end Sample

end ProjectMaya.Reader
