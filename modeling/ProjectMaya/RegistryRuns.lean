import ProjectMaya.Logic.Covenant
import ProjectMaya.Logic.Rows
import ProjectMaya.Registry

/-! # The registry loses no entry

The lock is held from before the registry is read until after it has been replaced, so what the
holder has read is still in the file when it replaces it (`Inside`), and the file is what the
takings of the lock whose entry was applied make of it, in their order (`Inv`, `entries_kept`). -/

namespace ProjectMaya.Registry

open Logic

/-- What one taking of the lock makes of the registry. -/
def Taking.write (entries : Option Entries) (t : Taking) : Option Entries :=
  if t.applied then some ((entries.getD []).set t.entry.chunkId t.entry) else entries

/-- The registry after the takings, where it was `start` before. -/
def written (start : Option Entries) (takings : List Taking) : Option Entries :=
  takings.foldl Taking.write start

theorem written_snoc (start : Option Entries) (takings : List Taking) (t : Taking) :
    written start (takings ++ [t]) = t.write (written start takings) := List.foldl_append

/-- An entry is in the registry unless a later taking applied one with its id. -/
theorem get?_foldl_write {takings : List Taking} (entries : Entries) {cid : String}
    (h : ∀ t ∈ takings, t.applied = true → t.entry.chunkId ≠ cid) :
    ∃ after, takings.foldl Taking.write (some entries) = some after ∧
      after.get? cid = entries.get? cid := by
  induction takings generalizing entries with
  | nil => exact ⟨entries, rfl, rfl⟩
  | cons t takings ih =>
    have hrest := fun u hu => h u (List.mem_cons_of_mem t hu)
    rw [List.foldl_cons]
    unfold Taking.write
    by_cases ha : t.applied = true
    · rw [if_pos ha]
      obtain ⟨after, hafter, hget⟩ := ih (entries.set t.entry.chunkId t.entry) hrest
      refine ⟨after, hafter, hget.trans ?_⟩
      exact Assoc.get?_set_ne entries t.entry (h t List.mem_cons_self ha).symm
    · rw [if_neg ha]
      exact ih entries hrest

theorem get?_written (start : Option Entries) {takings : List Taking} {n : Nat} {t : Taking}
    (ht : takings[n]? = some t) (ha : t.applied = true)
    (hlater : ∀ m u, n < m → takings[m]? = some u → u.applied = true →
      u.entry.chunkId ≠ t.entry.chunkId) :
    ∃ entries, written start takings = some entries ∧
      entries.get? t.entry.chunkId = some t.entry := by
  obtain ⟨hn, hget⟩ := List.getElem?_eq_some_iff.mp ht
  have hsplit : takings = takings.take n ++ t :: takings.drop (n + 1) := by
    rw [← hget, List.getElem_cons_drop, List.take_append_drop]
  have hrest : ∀ u ∈ takings.drop (n + 1), u.applied = true →
      u.entry.chunkId ≠ t.entry.chunkId := by
    intro u hu
    obtain ⟨i, hi⟩ := List.mem_iff_getElem?.mp hu
    rw [List.getElem?_drop] at hi
    exact hlater (n + 1 + i) u (by omega) hi
  unfold written
  rw [hsplit, List.foldl_append, List.foldl_cons]
  unfold Taking.write
  rw [if_pos ha]
  obtain ⟨after, hafter, hkeep⟩ := get?_foldl_write
    (((written start (takings.take n)).getD []).set t.entry.chunkId t.entry) hrest
  exact ⟨after, hafter, hkeep.trans (Assoc.get?_set_self _ _ _)⟩

/-! ## What a step may do -/

/-- The registry file is there and complete, or nothing has ever been in it. -/
def Inv (start : Option Entries) (s : Directory) : Prop :=
  s.file = (written start s.takings).map Content.registry

def Kept (t t' : Taking) : Prop :=
  t'.process = t.process ∧ t'.entry = t.entry ∧ (t.applied = true → t'.applied = true)

theorem Kept.refl (t : Taking) : Kept t t := ⟨rfl, rfl, id⟩

theorem Kept.trans (t u v : Taking) (h : Kept t u) (h' : Kept u v) : Kept t v :=
  ⟨h'.1.trans h.1, h'.2.1.trans h.2.1, fun ha => h'.2.2 (h.2.2 ha)⟩

/-- What a turn of a process may do. -/
structure Step (start : Option Entries) (s : Directory) (l : Process) (s' : Directory)
    (l' : Process) : Prop where
  id : l'.id = l.id
  inv : Inv start s'
  /-- Only the holder of the lock changes anything, or who takes it. -/
  free : s' = s ∨ s.holder = none ∨ s.holder = some l.id
  kept : Rows Kept s.takings s'.takings
  /-- The lock is taken when it is free; the call's place is the next one. -/
  order : s'.takings.length = s.takings.length ∨
    s.holder = none ∧ s'.holder = some l.id ∧ l'.ticket = some s.takings.length

def contract (start : Option Entries) : Contract Directory Process where
  rely l s s' := Inv start s' ∧ (s.holder = some l.id → s' = s) ∧ Rows Kept s.takings s'.takings
  guar := Step start

section

variable {start : Option Entries} {s s' : Directory} {l : Process} {α β : Type}

theorem Step.refl (hi : Inv start s) : Step start s l s l :=
  ⟨rfl, hi, .inl rfl, Rows.refl Kept.refl _, .inl rfl⟩

/-- The holder changes nothing of what is written and taken. -/
theorem Step.holder (hi : Inv start s) (hs : s.holder = some l.id) (hfile : s'.file = s.file)
    (htakings : s'.takings = s.takings) : Step start s l s' l := by
  refine ⟨rfl, ?_, .inr (.inr hs), ?_, .inl (congrArg List.length htakings)⟩
  · unfold Inv
    rw [hfile, htakings]
    exact hi
  · rw [htakings]
    exact Rows.refl Kept.refl _

/-- The rule for a step that can raise before its effect and after it. -/
theorem wp_effect {f : Directory → Process → β × Directory × Process}
    {Q : Except Exn β → Directory → Process → Prop}
    (h : ∀ s', Inv start s' → (s.holder = some l.id → s' = s) → Rows Kept s.takings s'.takings →
      Step start s' l (f s' l).2.1 (f s' l).2.2 ∧ Q (.ok (f s' l).1) (f s' l).2.1 (f s' l).2.2 ∧
        ∀ e, Q (.error e) s' l ∧ Q (.error e) (f s' l).2.1 (f s' l).2.2) :
    wp (contract start) (.perform (Act.effect f)) Q s l := by
  refine wp_perform ?_
  rintro s' ⟨hi, hsame, hkept⟩ c
  obtain ⟨hstep, hok, herr⟩ := h s' hi hsame hkept
  cases c with
  | go => exact ⟨hstep, hok⟩
  | shared => exact ⟨hstep, hok⟩
  | fail e => exact ⟨Step.refl hi, (herr e).1⟩
  | late e => exact ⟨hstep, (herr e).2⟩

/-- The same, for the holder of the lock. -/
theorem wp_held {f : Directory → Process → β × Directory × Process}
    {Q : Except Exn β → Directory → Process → Prop} (hs : s.holder = some l.id)
    (h : Inv start s → Step start s l (f s l).2.1 (f s l).2.2 ∧
      Q (.ok (f s l).1) (f s l).2.1 (f s l).2.2 ∧
        ∀ e, Q (.error e) s l ∧ Q (.error e) (f s l).2.1 (f s l).2.2) :
    wp (contract start) (.perform (Act.effect f)) Q s l := by
  refine wp_effect fun s' hi hsame _ => ?_
  obtain rfl := hsame hs
  exact h hi

theorem wp_suppress {p : Code Unit} {J : Directory → Process → Prop}
    (h : wp (contract start) p (fun _ => J) s l) :
    wp (contract start) (suppress p) (fun _ => J) s l := by
  refine wp_andThen (wp_mono h ?_)
  intro r s l hj
  match r with
  | .ok () => exact hj
  | .error .interrupt => exact hj
  | .error .exception => exact hj
  | .error .waiting => exact hj
  | .error (.value _) => exact hj

/-! ## Under the lock -/

/-- The process has the lock, `J` holds, and its taking is the last one and not applied. -/
structure Pending (entry : Entry) (J : Directory → Prop) (s : Directory) (l : Process) : Prop where
  holder : s.holder = some l.id
  last : ∃ before, s.takings = before ++ [⟨l.id, entry, false⟩] ∧ l.ticket = some before.length
  rest : J s

/-- The entry of the call's taking has been applied. -/
def Applied (entry : Entry) (s : Directory) (l : Process) : Prop :=
  ∃ n t, l.ticket = some n ∧ s.takings[n]? = some t ∧ t.applied = true ∧ t.process = l.id ∧
    t.entry = entry

theorem Applied.kept {entry : Entry} (h : Applied entry s l) (hk : Rows Kept s.takings s'.takings) :
    Applied entry s' l := by
  obtain ⟨n, t, hn, ht, ha, hp, he⟩ := h
  obtain ⟨u, hu, hkp, hke, hka⟩ := hk n t ht
  exact ⟨n, u, hn, hu, hka ha, hkp.trans hp, hke.trans he⟩

/-- After a part of the critical section: the lock is still held where it raised. -/
def Under (Q : α → Directory → Process → Prop) : Except Exn α → Directory → Process → Prop
  | .ok a, s, l => Q a s l
  | .error _, s, l => s.holder = some l.id

theorem under_bind {p : Code α} {f : α → Code β} {P : α → Directory → Process → Prop}
    {Q : β → Directory → Process → Prop} (hp : wp (contract start) p (Under P) s l)
    (hf : ∀ a s l, P a s l → wp (contract start) (f a) (Under Q) s l) :
    wp (contract start) (p >>= f) (Under Q) s l :=
  wp_bind hp hf fun _ _ _ h => h

/-- What the critical section is for: the entry is applied, and the lock still held. -/
def Finished (entry : Entry) (s : Directory) (l : Process) : Prop :=
  s.holder = some l.id ∧ Applied entry s l

/-- What the holder has read is what is written. -/
def Read (start : Option Entries) (data : Entries) (s : Directory) : Prop :=
  data = (written start s.takings).getD []

/-- The entries of a file. -/
def Content.entries : Option Content → Entries
  | some (.registry entries) => entries
  | _ => []

theorem wp_load {entry : Entry} (h : Pending entry (fun _ => True) s l) :
    wp (contract start) (.perform Act.load)
      (Under fun data => Pending entry (Read start data)) s l := by
  refine wp_held h.holder fun hi => ⟨Step.refl hi, ⟨h.holder, h.last, ?_⟩, fun _ => ⟨h.holder, h.holder⟩⟩
  show Content.entries s.file = _
  rw [hi]
  cases written start s.takings <;> rfl

theorem moved_replaces {entry : Entry} {data : Entries} {tmp : Nat}
    (h : Pending entry (fun s => Read start data s ∧
      s.temps.get? tmp = some (.registry (data.set entry.chunkId entry))) s l) :
    Step start s l (Act.moved tmp s l) l ∧ Finished entry (Act.moved tmp s l) l := by
  obtain ⟨hs, ⟨before, hlast, hticket⟩, hdata, htmp⟩ := h
  have htakings : (Act.moved tmp s l).takings = before ++ [⟨l.id, entry, true⟩] := by
    show Act.apply l.ticket s.takings = _
    rw [hlast, hticket]
    show (before ++ [_]).modify before.length _ = _
    rw [modify_snoc]
  have hinv : Inv start (Act.moved tmp s l) := by
    have hbefore : written start s.takings = written start before := by
      rw [hlast, written_snoc]
      rfl
    unfold Inv
    rw [htakings, written_snoc, ← hbefore]
    show s.temps.get? tmp = _
    rw [htmp, show data = _ from hdata]
    rfl
  refine ⟨⟨rfl, hinv, .inr (.inr hs), ?_, .inl ?_⟩, hs, ?_⟩
  · show Rows Kept s.takings (Act.apply l.ticket s.takings)
    rw [hticket]
    exact Rows.modify Kept.refl fun t _ => ⟨rfl, rfl, fun _ => rfl⟩
  · rw [htakings, hlast]
    simp
  · refine ⟨before.length, ⟨l.id, entry, true⟩, hticket, ?_, rfl, rfl, rfl⟩
    rw [htakings]
    exact getElem?_snoc_eq.mpr (.inr ⟨rfl, rfl⟩)

/-- The registry is replaced by what the temporary file holds. -/
theorem wp_replace {entry : Entry} {data : Entries} {tmp : Nat}
    (h : Pending entry (fun s => Read start data s ∧
      s.temps.get? tmp = some (.registry (data.set entry.chunkId entry))) s l) :
    wp (contract start) (.perform (Act.replace tmp)) (Under fun _ => Finished entry) s l := by
  refine wp_perform ?_
  rintro s' ⟨hi, hsame, -⟩ c
  obtain rfl := hsame h.holder
  obtain ⟨hstep, hfinished⟩ := moved_replaces h
  have htmp := h.rest.2
  cases c with
  | fail e => exact ⟨Step.refl hi, h.holder⟩
  | go =>
    simp only [Act.replace, htmp]
    exact ⟨hstep, hfinished⟩
  | late e =>
    simp only [Act.replace, htmp]
    exact ⟨hstep, hfinished.1⟩
  | shared =>
    simp only [Act.replace, htmp]
    exact ⟨hstep, hfinished⟩

/-- A step on the temporary files changes neither the registry nor the lock. -/
structure Aside (f : Directory → Process → β × Directory × Process) : Prop where
  process : ∀ s l, (f s l).2.2 = l
  file : ∀ s l, (f s l).2.1.file = s.file
  holder : ∀ s l, (f s l).2.1.holder = s.holder
  takings : ∀ s l, (f s l).2.1.takings = s.takings

theorem Aside.step {f : Directory → Process → β × Directory × Process} (hf : Aside f)
    (hi : Inv start s) (hs : s.holder = some l.id) : Step start s l (f s l).2.1 (f s l).2.2 := by
  rw [hf.process]
  exact Step.holder hi hs (hf.file s l) (hf.takings s l)

theorem wp_aside {entry : Entry} {J : Directory → Prop} {K : β → Directory → Prop}
    {f : Directory → Process → β × Directory × Process} (hf : Aside f) (h : Pending entry J s l)
    (hK : J s → K (f s l).1 (f s l).2.1) :
    wp (contract start) (.perform (Act.effect f)) (Under fun a => Pending entry (K a)) s l := by
  refine wp_held h.holder fun hi => ⟨hf.step hi h.holder, ?_, fun _ => ⟨h.holder, ?_⟩⟩
  · rw [hf.process]
    refine ⟨(hf.holder s l).trans h.holder, ?_, hK h.rest⟩
    rw [hf.takings]
    exact h.last
  · rw [hf.process]
    exact (hf.holder s l).trans h.holder

theorem aside_temps {value : Directory → β} {temps : Directory → Assoc Nat Content}
    {fresh : Directory → Nat} :
    Aside fun s l => (value s, { s with temps := temps s, fresh := fresh s }, l) :=
  ⟨fun _ _ => rfl, fun _ _ => rfl, fun _ _ => rfl, fun _ _ => rfl⟩

/-- The temporary file is removed, where it is still there. -/
theorem wp_remove {tmp : Nat} {r : Except Exn Unit} {entry : Entry}
    (h : Under (fun _ => Finished entry) r s l) :
    wp (contract start) (suppress (.perform (Act.remove tmp)))
      (fun _ => Under (fun _ => Finished entry) r) s l := by
  refine wp_suppress (wp_effect fun s' hi hsame hkept => ?_)
  have hs : s.holder = some l.id := by
    cases r with
    | ok u => exact h.1
    | error e => exact h
  obtain rfl := hsame hs
  have hstep : Step start s' l { s' with temps := s'.temps.filter fun t => t.1 ≠ tmp } l :=
    Step.holder hi hs rfl rfl
  have hafter : Under (fun _ => Finished entry) r
      { s' with temps := s'.temps.filter fun t => t.1 ≠ tmp } l := by
    cases r with
    | ok u => exact h
    | error e => exact h
  exact ⟨hstep, hafter, fun _ => ⟨h, hafter⟩⟩

theorem wp_save {entry : Entry} {data : Entries} (h : Pending entry (Read start data) s l) :
    wp (contract start) (save (data.set entry.chunkId entry)) (Under fun _ => Finished entry) s l := by
  refine under_bind (wp_aside (K := fun _ => Read start data) aside_temps h id) fun tmp s l h => ?_
  have hbody : wp (contract start)
      (do
        .perform Act.prepare
        .perform (Act.dumpPart tmp)
        .perform (Act.dump tmp (data.set entry.chunkId entry))
        .perform (Act.replace tmp)) (Under fun _ => Finished entry) s l := by
    refine under_bind (wp_aside (K := fun _ => Read start data) aside_temps h id) fun _ s l h => ?_
    refine under_bind (wp_aside (K := fun _ => Read start data) aside_temps h id) fun _ s l h => ?_
    refine under_bind (wp_aside (K := fun _ s => Read start data s ∧
      s.temps.get? tmp = some (.registry (data.set entry.chunkId entry))) aside_temps h ?_)
      fun _ s l h => wp_replace h
    exact fun hread => ⟨hread, Assoc.get?_set_self _ _ _⟩
  refine wp_ensuring hbody fun r s l h => wp_mono (wp_remove h) ?_
  intro r' s l h
  cases r' with
  | ok u => exact h
  | error e =>
    cases r with
    | ok u => exact h.1
    | error e' => exact h

/-! ## A call -/

/-- A look at the lock: the lock is taken, or nothing has happened. -/
theorem wp_lock {entry : Entry} :
    wp (contract start) (.perform (Act.lock entry))
      (Returns fun taken s l => taken = true → Pending entry (fun _ => True) s l) s l := by
  refine wp_perform ?_
  rintro s' ⟨hi, -, -⟩ c
  have hstep : s'.holder = none →
      Step start s' l (Act.takeLock entry s' l).1 (Act.takeLock entry s' l).2 := by
    intro hfree
    refine ⟨rfl, ?_, .inr (.inl hfree), Rows.snoc Kept.refl _ _, .inr ⟨hfree, rfl, rfl⟩⟩
    unfold Inv
    show s'.file = (written start (s'.takings ++ [_])).map _
    rw [written_snoc]
    exact hi
  have hpending : Pending entry (fun _ => True) (Act.takeLock entry s' l).1
      (Act.takeLock entry s' l).2 := ⟨rfl, ⟨s'.takings, rfl, rfl⟩, trivial⟩
  cases hs : s'.holder with
  | some q =>
    cases c with
    | fail e => exact ⟨Step.refl hi, .error⟩
    | shared => exact ⟨Step.refl hi, .ok nofun⟩
    | go =>
      simp only [Act.lock, hs]
      exact ⟨Step.refl hi, .ok nofun⟩
    | late e =>
      simp only [Act.lock, hs]
      exact ⟨Step.refl hi, .ok nofun⟩
  | none =>
    cases c with
    | fail e => exact ⟨Step.refl hi, .error⟩
    | shared => exact ⟨Step.refl hi, .ok nofun⟩
    | go =>
      simp only [Act.lock, hs]
      exact ⟨hstep hs, .ok fun _ => hpending⟩
    | late e =>
      simp only [Act.lock, hs]
      exact ⟨hstep hs, .error⟩

theorem wp_flock {entry : Entry} {looks : Nat} :
    wp (contract start) (flock entry looks) (Returns fun _ => Pending entry fun _ => True) s l := by
  induction looks generalizing s l with
  | zero => exact .error
  | succ looks ih =>
    refine returns_bind wp_lock fun taken s l h => ?_
    cases taken with
    | true => exact .ok (h rfl)
    | false => exact ih

theorem wp_update {entry : Entry} (h : Pending entry (fun _ => True) s l) :
    wp (contract start) (update entry) (Under fun _ => Finished entry) s l :=
  under_bind (wp_load h) fun _ _ _ h => wp_save h

theorem step_release (hi : Inv start s) : Step start s l (Act.release s l) l := by
  unfold Act.release
  by_cases hs : s.holder = some l.id
  · rw [if_pos hs]
    exact Step.holder hi hs rfl rfl
  · rw [if_neg hs]
    exact Step.refl hi

theorem takings_release : (Act.release s l).takings = s.takings := by
  unfold Act.release
  split <;> rfl

/-- The call returned only if its entry is applied. -/
abbrev Recorded (entry : Entry) : Except Exn Unit → Directory → Process → Prop :=
  Returns fun _ => Applied entry

theorem Recorded.kept {entry : Entry} {r : Except Exn Unit} (h : Recorded entry r s l)
    (hk : Rows Kept s.takings s'.takings) : Recorded entry r s' l :=
  fun a ha => (h a ha).kept hk

theorem Recorded.release {entry : Entry} {r : Except Exn Unit} (h : Recorded entry r s l) :
    Recorded entry r (Act.release s l) l := by
  refine h.kept ?_
  rw [takings_release]
  exact Rows.refl Kept.refl _

theorem wp_unlock {entry : Entry} {r : Except Exn Unit} (h : Recorded entry r s l) :
    wp (contract start) (suppress (.perform Act.unlock)) (fun _ => Recorded entry r) s l := by
  refine wp_suppress (wp_effect fun s' hi _ hk => ?_)
  have hs' := h.kept hk
  exact ⟨step_release hi, hs'.release, fun _ => ⟨hs', hs'.release⟩⟩

theorem wp_close {entry : Entry} {r : Except Exn Unit} (h : Recorded entry r s l) :
    wp (contract start) (.perform Act.close) (fun _ => Recorded entry r) s l := by
  refine wp_perform ?_
  rintro s' ⟨hi, -, hk⟩ c
  have hafter := (h.kept hk).release
  cases c <;> exact ⟨step_release hi, hafter⟩

/-- `try: p; finally: h`, where `h` keeps what is recorded. -/
theorem wp_finally {entry : Entry} {p h : Code Unit} {P : Except Exn Unit → Directory → Process → Prop}
    (hp : wp (contract start) p P s l)
    (hh : ∀ r s l, P r s l → wp (contract start) h (fun _ => Recorded entry r) s l) :
    wp (contract start) (p.ensuring h) (Recorded entry) s l := by
  refine wp_ensuring hp fun r s l hr => wp_mono (hh r s l hr) ?_
  intro r' s l h
  cases r' with
  | ok u => exact h
  | error e => exact .error

theorem wp_prepare {entry : Entry} {f : Unit → Code Unit}
    (hf : ∀ s l, wp (contract start) (f ()) (Recorded entry) s l) :
    wp (contract start) (.perform Act.prepare >>= f) (Recorded entry) s l := by
  have h : wp (contract start) (.perform Act.prepare) (Returns fun _ _ _ => True) s l :=
    wp_effect fun s' hi _ _ => ⟨Step.refl hi, .ok trivial, fun _ => ⟨.error, .error⟩⟩
  exact returns_bind h fun _ s l _ => hf s l

/-- What a call that returns has done. -/
def Returned (metadata : Metadata) (r : Except Exn Unit) (s : Directory) (l : Process) : Prop :=
  r = .ok () → ∃ entry, entryOf metadata = .ok entry ∧ Applied entry s l

theorem wp_addEntry (metadata : Metadata) (looks : Nat) :
    wp (contract start) (addEntry metadata looks) (Returned metadata) s l := by
  unfold addEntry
  cases hentry : entryOf metadata with
  | error e => exact nofun
  | ok entry =>
    have hlocked : ∀ s l, wp (contract start)
        (do
          flock entry looks
          Prog.ensuring (update entry) (suppress (.perform Act.unlock)))
        (Recorded entry) s l := by
      intro s l
      refine returns_bind wp_flock fun _ s l h => ?_
      refine wp_finally (wp_update h) fun r s l h => wp_unlock ?_
      cases r with
      | ok u => exact .ok h.2
      | error e => exact .error
    have hcall : wp (contract start) (do
        .perform Act.prepare
        .perform Act.prepare
        Prog.ensuring
          (do
            flock entry looks
            Prog.ensuring (update entry) (suppress (.perform Act.unlock)))
          (.perform Act.close)) (Recorded entry) s l :=
      wp_prepare fun s l => wp_prepare fun s l => wp_finally (hlocked s l) fun _ _ _ h => wp_close h
    exact wp_mono hcall fun r s l h hr => ⟨entry, hentry, h () hr⟩

end

/-! ## Runs -/

section

variable (start : Option Entries)

theorem inv_release {s : Directory} {l : Process} (hi : Inv start s) : Inv start (Act.release s l) :=
  (step_release hi).inv

def covenant : Covenant processes where
  inv := Inv start
  own p l := l.id = p
  law _ _ := True
  contract _ := contract start
  post call := Returned call.metadata
  own_enter _ _ h := h
  law_enter _ _ := trivial
  enter _ _ _ _ _ _ := wp_addEntry _ _
  rely_refl _ _ _ hi := ⟨hi, fun _ => rfl, Rows.refl Kept.refl _⟩
  rely_trans _ l s s' s'' h h' := by
    refine ⟨h'.1, fun hs => ?_, h.2.2.trans Kept.trans h'.2.2⟩
    obtain rfl := h.2.1 hs
    exact h'.2.1 hs
  post_stable _ _ _ _ _ h hr := fun hok => by
    obtain ⟨entry, hentry, ha⟩ := h hok
    exact ⟨entry, hentry, ha.kept hr.2.2⟩
  keep _ _ _ _ _ _ _ hown _ hg := ⟨hg.inv, hg.id.trans hown, trivial⟩
  keep_die _ _ _ hi hown := ⟨inv_release start hi, hown⟩
  rely_guar p q _ _ l s m s' m' hne _ hp hq hg := by
    refine ⟨hg.inv, fun hs => ?_, hg.kept⟩
    rcases hg.free with h | h | h
    · exact h
    · rw [hs] at h
      cases h
    · rw [hs] at h
      exact absurd ((hp.symm.trans (Option.some.inj h)).trans hq) hne
  rely_die p q _ l s m hne hi hp hq := by
    have hstep := step_release (l := m) hi
    refine ⟨hstep.inv, fun hs => if_neg ?_, hstep.kept⟩
    rw [hs]
    exact fun h => hne ((hp.symm.trans (Option.some.inj h)).trans hq)

/-- A taking stays in its place, and what was applied stays so. -/
theorem kept_run {c : Config Choice Directory Process Exn Call Unit}
    (hc : (covenant start).Good c) (turns : List (Turn Choice Call)) {n : Nat} {t : Taking}
    (ht : c.shared.takings[n]? = some t) :
    ∃ u, (processes.run c turns).shared.takings[n]? = some u ∧ Kept t u := by
  refine (covenant start).run_shared (J := fun s => ∃ u, s.takings[n]? = some u ∧ Kept t u)
    (Q := fun _ => True) ?_ ?_ hc ⟨t, ht, Kept.refl t⟩ (fun _ _ _ _ => trivial) fun _ _ => trivial
  · rintro p a s l s' l' - - hg ⟨u, hu, hk⟩
    obtain ⟨v, hv, hk'⟩ := hg.kept n u hu
    exact ⟨v, hv, Kept.trans t u v hk hk'⟩
  · rintro s l ⟨u, hu, hk⟩
    refine ⟨u, ?_, hk⟩
    show (Act.release s l).takings[n]? = some u
    rw [takings_release]
    exact hu

/-- However processes call `add_entry`, and wherever their calls raise or they crash: the registry
file is absent or complete, and is what the takings of the lock whose entries were applied make of
it, in the order of the lock; the taking of a call that has returned is applied, from then on; so an
entry that was applied is in the file unless a later taking has applied one with its id. The lock
is taken only when it is free, and the place of the call is then the next one. -/
theorem entries_kept (early late : List (Turn Choice Call)) :
    let now := processes.run
      (.initial { file := start.map .registry } fun p => { id := p }) early
    let c := processes.run now late
    c.shared.file = (written start c.shared.takings).map .registry ∧
      (∀ p call, (now.host p).running = some (call, .done (.ok ())) →
        ∃ (n : Nat) (t : Taking), (now.host p).loc.ticket = some n ∧ c.shared.takings[n]? = some t ∧
          t.applied = true ∧ t.process = p ∧ entryOf call.metadata = .ok t.entry) ∧
      (∀ (n : Nat) (t : Taking), c.shared.takings[n]? = some t → t.applied = true →
        (∀ (m : Nat) (u : Taking), n < m → c.shared.takings[m]? = some u → u.applied = true →
          u.entry.chunkId ≠ t.entry.chunkId) →
        ∃ entries, c.shared.file = some (.registry entries) ∧
          entries.get? t.entry.chunkId = some t.entry) ∧
      ∀ turn, let next := processes.turn c turn
        next.shared.takings.length ≠ c.shared.takings.length →
          c.shared.holder = none ∧ next.shared.holder = some turn.host ∧
            (next.host turn.host).loc.ticket = some c.shared.takings.length := by
  intro now c
  have hinit : Inv start { file := start.map .registry } := rfl
  have hown : ∀ p, ({ id := p } : Process).id = p := fun _ => rfl
  have hnow := (covenant start).good_run ((covenant start).good_initial hinit hown) early
  have hc := (covenant start).good_run hnow late
  have hid : ∀ p, (c.host p).loc.id = p := hc.own
  refine ⟨hc.inv, ?_, ?_, ?_⟩
  · intro p call hrun
    have hdone : Returned call.metadata (.ok ()) now.shared (now.host p).loc := (hnow.busy p _ _ hrun).2
    obtain ⟨entry, hentry, n, t, hn, ht, ha, hp, rfl⟩ := hdone rfl
    obtain ⟨u, hu, hkp, hke, hka⟩ := kept_run start hnow late ht
    refine ⟨n, u, hn, hu, hka ha, hkp.trans (hp.trans (hnow.own p)), ?_⟩
    rw [hke]
    exact hentry
  · intro n t ht ha hlater
    obtain ⟨entries, hwritten, hget⟩ := get?_written start ht ha hlater
    refine ⟨entries, ?_, hget⟩
    have hfile : c.shared.file = (written start c.shared.takings).map .registry := hc.inv
    rw [hfile, hwritten]
    rfl
  · intro turn next hne
    cases (covenant start).change hc turn with
    | none heq => exact absurd (congrArg (fun s => s.takings.length) heq) hne
    | acted _ _ hg =>
      rcases hg.order with h | ⟨hfree, hholder, hticket⟩
      · exact absurd h hne
      · exact ⟨hfree, hholder.trans (congrArg some (hid turn.host)), hticket⟩
    | crashed heq =>
      refine absurd ?_ hne
      rw [heq]
      show (Act.release c.shared (c.host turn.host).loc).takings.length = _
      rw [takings_release]

end

namespace Sample

def call (cid : String) : Call where
  metadata := { chunkId := some cid, embeddingPath := some (cid ++ ".json") }
  looks := 2

/-- The second process has to wait for the first; a third crashes before it has replaced the file. -/
def turns : List (Turn Choice Call) :=
  [.start 0 (call "a"), .start 1 (call "b"), .start 2 (call "c")] ++
    List.replicate 5 (.act 0 .go) ++ List.replicate 3 (.act 1 .go) ++ List.replicate 7 (.act 0 .go) ++
    List.replicate 8 (.act 2 .go) ++ [.crash 2] ++ List.replicate 10 (.act 1 .go)

example :
    let s := (processes.run (.initial {} fun p => { id := p }) turns).shared
    s.takings.map (fun t => (t.process, t.applied)) = [(0, true), (2, false), (1, true)] ∧
      s.holder = none ∧ s.temps.length = 1 ∧
      (s.file.map fun content => match content with
        | .registry entries => entries.map fun e => e.1
        | .torn => []) = some ["a", "b"] := by decide +kernel

end Sample

end ProjectMaya.Registry
