import ProjectMaya.Machine

/-! # Reasoning under the projection lock

While a process holds the projection lock, nobody else changes the stores.  A `View` is
what it knows then; each action has one rule that says how the view changes
(`wp_select`, `wp_begin`, `wp_execute`, `wp_commit`, …), and `wp_transaction`, `wp_publish`
and `wp_exclusive` put them together.

The contract stays a parameter: `Lawful` is what every contract of a host has to provide,
and `Allows` what a change of the stores has to be shown to be. -/

namespace ProjectMaya

open Logic

/-- What a process that holds the projection lock knows. -/
structure View where
  stores : Stores
  tx : Option Db
  temp : Option Bytes
  memory : Memory
  notes : List Note
  /-- Records that are in the audit trail. -/
  written : List AuditRecord

structure Knows (v : View) (s : Shared) (l : Process) : Prop where
  stores : s.stores = v.stores
  tx : l.tx = v.tx
  temp : l.temp = v.temp
  memory : l.memory = v.memory
  notes : l.notes = v.notes
  written : ∀ r ∈ v.written, r ∈ s.audit

structure At (v : View) (s : Shared) (l : Process) : Prop extends Knows v s l where
  lock : s.lock = some l.pid

/-- What every action does to the locks and the audit trail. -/
structure Step (s : Shared) (l : Process) (s' : Shared) (l' : Process) : Prop where
  pid : l'.pid = l.pid
  lock : s'.lock = s.lock ∨ (s.lock = none ∧ s'.lock = some l.pid) ∨
    (s.lock = some l.pid ∧ s'.lock = none)
  audit : ∀ r ∈ s.audit, r ∈ s'.audit

/-- A step that changes neither the stores nor the memory of the process, and is not a
commit that took effect. -/
structure Quiet (s : Shared) (l : Process) (s' : Shared) (l' : Process) : Prop
    extends Step s l s' l' where
  stores : s'.stores = s.stores
  memory : l'.memory = l.memory
  notes : ∀ n ∈ l'.notes, n ∈ l.notes ∨ n.effect = false ∨ n.purpose = .release

/-- A contract of a host: others respect the projection lock and never take back an audit
record, and the host may always take a quiet step. -/
structure Lawful (C : Contract Shared Process) : Prop where
  held : ∀ l s s', C.rely l s s' → s.lock = some l.pid →
    s'.lock = s.lock ∧ s'.stores = s.stores
  audit : ∀ l s s', C.rely l s s' → ∀ r ∈ s.audit, r ∈ s'.audit
  quiet : ∀ s l s' l', Quiet s l s' l' → C.guar s l s' l'

/-- The contract lets the stores go from the view to `x`. -/
def Allows (C : Contract Shared Process) (v : View) (x : Stores) : Prop :=
  ∀ s l s' l', At v s l → Step s l s' l' → s'.stores = x → l'.memory = l.memory →
    C.guar s l s' l'

/-- A postcondition by cases: `P` of the value, or `E` after an exception. -/
def Ends {α : Type} (P : α → Shared → Process → Prop) (E : Shared → Process → Prop) :
    Except Raised α → Shared → Process → Prop
  | .ok a => P a
  | .error _ => E

/-- `E` holds whatever transaction and temporary file the view is left with. -/
def Covers (E : Shared → Process → Prop) (v : View) : Prop :=
  ∀ tx temp s l, At { v with tx, temp } s l → E s l

/-- `E` is a condition on a view, whatever its transaction and temporary file. -/
def Loose (E : Shared → Process → Prop) : Prop := ∀ s l, E s l → ∃ v, At v s l ∧ Covers E v

/-- The lock is held, with a view that satisfies `F`. -/
def Holding (F : View → Prop) (s : Shared) (l : Process) : Prop := ∃ v, F v ∧ At v s l

/-- `F` does not look at the transaction and the temporary file. -/
def Loosely (F : View → Prop) : Prop := ∀ v tx temp, F v → F { v with tx, temp }

theorem covers_holding {F : View → Prop} (hF : Loosely F) {v : View} (h : F v) :
    Covers (Holding F) v := fun tx temp _ _ hv => ⟨{ v with tx, temp }, hF v tx temp h, hv⟩

theorem loose_holding {F : View → Prop} (hF : Loosely F) : Loose (Holding F) := by
  rintro s l ⟨v, h, hv⟩
  exact ⟨v, hv, covers_holding hF h⟩

/-- The stores are among `I`, and the memory is `m`. -/
def Among (I : Stores → Prop) (m : Memory) (v : View) : Prop := I v.stores ∧ v.memory = m

theorem loosely_among {I : Stores → Prop} {m : Memory} : Loosely (Among I m) := fun _ _ _ h => h

variable {C : Contract Shared Process} {α β : Type} {v : View} {s : Shared} {l : Process}
  {E : Shared → Process → Prop}

theorem At.covered (h : At v s l) (hE : Covers E v) : E s l := hE v.tx v.temp s l h

theorem At.rely (hC : Lawful C) (h : At v s l) {s' : Shared} (hr : C.rely l s s') : At v s' l := by
  obtain ⟨hlock, hstores⟩ := hC.held l s s' hr h.lock
  exact ⟨⟨hstores.trans h.stores, h.tx, h.temp, h.memory, h.notes,
    fun r hr' => hC.audit l s s' hr r (h.written r hr')⟩, hlock.trans h.lock⟩

theorem At.visible (h : At v s l) : visible s l = v.tx.getD v.stores.db := by
  rw [ProjectMaya.visible, h.tx, h.stores]

theorem Quiet.refl (s : Shared) (l : Process) : Quiet s l s l :=
  ⟨⟨rfl, .inl rfl, fun _ => id⟩, rfl, rfl, fun _ => .inl⟩

/-- Only the transaction, the temporary file and the writer lock change. -/
theorem Quiet.connection (s : Shared) (l : Process) (writer : Option Nat) (tx : Option Db)
    (temp : Option Bytes) : Quiet s l { s with writer } { l with tx, temp } :=
  ⟨⟨rfl, .inl rfl, fun _ => id⟩, rfl, rfl, fun _ => .inl⟩

/-! ## Sequencing -/

theorem wp_seq {p : Code α} {f : α → Code β} {P : α → Shared → Process → Prop}
    {Q : β → Shared → Process → Prop} (hp : wp C p (Ends P E) s l)
    (hf : ∀ a s l, P a s l → wp C (f a) (Ends Q E) s l) : wp C (p >>= f) (Ends Q E) s l :=
  wp_bind hp hf fun _ _ _ he => he

theorem wp_return {a : α} {P : α → Shared → Process → Prop} (h : P a s l) :
    wp C (pure a : Code α) (Ends P E) s l := h

theorem wp_renamed {p : Code α} {f : Raised → Raised} {P : α → Shared → Process → Prop}
    (hp : wp C p (Ends P E) s l) : wp C (renamed p f) (Ends P E) s l :=
  wp_mapError hp (fun _ _ _ h => h) fun _ _ _ h => h

theorem wp_swallow {p : Code Unit} (hp : wp C p (fun _ => E) s l) :
    wp C (swallow p) (Ends (fun _ => E) fun _ _ => False) s l :=
  wp_andThen (wp_mono hp fun _ _ _ h => h)

theorem wp_attempt {p : Code α} {P : α → Shared → Process → Prop} (hp : wp C p (Ends P E) s l) :
    wp C (attempt p) (Ends (fun x s l => match x with
      | some a => P a s l
      | none => E s l) E) s l := by
  refine wp_andThen (wp_mono hp ?_)
  intro r s l h
  cases r with
  | ok a => exact h
  | error e => cases e <;> exact h

theorem wp_refuseIf {c : Prop} [Decidable c] {code : String} (hv : At v s l) (hE : Covers E v) :
    wp C (refuseIf c code) (Ends (fun _ s l => At v s l ∧ ¬ c) E) s l :=
  wp_raiseIf (fun _ => hv.covered hE) fun hc => ⟨hv, hc⟩

/-! ## Actions that leave the stores alone -/

/-- An action without effect on states: the result is computed from what is seen. -/
theorem wp_look {a : Act β} (hC : Lawful C) (hv : At v s l) (hE : Covers E v)
    {P : β → Prop} (ha : ∀ f s l, (a.next f s l).2 = (s, l))
    (hP : ∀ f s l b, At v s l → (a.next f s l).1 = .ok b → P b) :
    wp C (.perform a) (Ends (fun b s l => At v s l ∧ P b) E) s l := by
  refine wp_perform fun s' hr f => ?_
  have hv' := hv.rely hC hr
  have e := ha f s' l
  have e1 : (a.next f s' l).2.1 = s' := congrArg Prod.fst e
  have e2 : (a.next f s' l).2.2 = l := congrArg Prod.snd e
  rw [e1, e2]
  refine ⟨hC.quiet _ _ _ _ (Quiet.refl s' l), ?_⟩
  cases hres : (a.next f s' l).1 with
  | ok b => exact ⟨hv', hP f s' l b hv' hres⟩
  | error e => exact hv'.covered hE

theorem wp_ask (hC : Lawful C) (hv : At v s l) (hE : Covers E v) :
    wp C ask (Ends (fun _ s l => At v s l) E) s l := by
  refine wp_mono (wp_look hC hv hE (P := fun _ => True) ?_ fun _ _ _ _ _ _ => trivial) ?_
  · intro f s l
    cases f <;> rfl
  · intro r s l h
    cases r with
    | ok a => exact h.1
    | error e => exact h

theorem wp_decide (hC : Lawful C) (hv : At v s l) (hE : Covers E v) :
    wp C (.perform Act.decide) (Ends (fun _ s l => At v s l) E) s l := by
  refine wp_mono (wp_look hC hv hE (P := fun _ => True) ?_ fun _ _ _ _ _ _ => trivial) ?_
  · intro f s l
    cases f <;> rfl
  · intro r s l h
    cases r with
    | ok a => exact h.1
    | error e => exact h

theorem wp_select (hC : Lawful C) (hv : At v s l) (hE : Covers E v) (f : Db → β) :
    wp C (select f) (Ends (fun b s l => At v s l ∧ b = f (v.tx.getD v.stores.db)) E) s l := by
  refine wp_look hC hv hE ?_ ?_
  · intro c s l
    cases c <;> rfl
  · intro c s l b hv' hb
    cases c with
    | none => rw [← hv'.visible]; exact (Except.ok.inj hb).symm
    | fail e => cases hb
    | failLate e => cases hb
    | abort e => cases hb

theorem wp_readIndex (hC : Lawful C) (hv : At v s l) (hE : Covers E v) :
    wp C readIndex (Ends (fun b s l => At v s l ∧ b = v.stores.index) E) s l := by
  refine wp_look hC hv hE ?_ ?_
  · intro c s l
    cases c <;> rfl
  · intro c s l b hv' hb
    cases c with
    | none => rw [← hv'.stores]; exact (Except.ok.inj hb).symm
    | fail e => cases hb
    | failLate e => cases hb
    | abort e => cases hb

theorem wp_query (hC : Lawful C) (hv : At v s l) (hE : Covers E v)
    (f : Shared → Process → Except Raised β) {P : β → Prop}
    (hP : ∀ s l b, At v s l → f s l = .ok b → P b) :
    wp C (.perform (Act.query f)) (Ends (fun b s l => At v s l ∧ P b) E) s l := by
  refine wp_look hC hv hE ?_ ?_
  · intro c s l
    cases c <;> rfl
  · intro c s l b hv' hb
    cases c with
    | none => exact hP s l b hv' hb
    | fail e => cases hb
    | failLate e => cases hb
    | abort e => cases hb

theorem orBoundary_ok {x : Except String α} {a : α} (h : orBoundary x = .ok a) : x = .ok a := by
  cases x with
  | ok b => cases h; rfl
  | error e => cases h

theorem wp_stateInTransaction (hC : Lawful C) (hv : At v s l) (hE : Covers E v)
    (c : Coordinator) :
    wp C c.stateInTransaction (Ends (fun b s l => At v s l ∧
      stateInTransaction c (v.tx.getD v.stores.db) = .ok b) E) s l := by
  refine wp_query hC hv hE _ ?_
  intro s l b hv' hb
  rw [← hv'.visible]
  exact orBoundary_ok hb

theorem wp_state (hC : Lawful C) (hv : At v s l) (hE : Covers E v) (c : Coordinator) :
    wp C c.state (Ends (fun b s l => At v s l ∧
      v.tx = none ∧ stateInTransaction c v.stores.db = .ok b) E) s l := by
  refine wp_query hC hv hE _ ?_
  intro s l b hv' hb
  split at hb
  · cases hb
  · rename_i hnot
    have htx : v.tx = none := by
      rw [← hv'.tx]
      cases h : l.tx with
      | none => rfl
      | some w => simp [h] at hnot
    refine ⟨htx, ?_⟩
    have := orBoundary_ok hb
    rwa [hv'.visible, htx] at this

theorem wp_checked (hC : Lawful C) (hv : At v s l) (hE : Covers E v)
    (f : Db → Bytes → Except String α) :
    wp C (Coordinator.checked f) (Ends (fun a s l => At v s l ∧
      f (v.tx.getD v.stores.db) v.stores.index = .ok a) E) s l := by
  refine wp_query hC hv hE _ ?_
  intro s l a hv' ha
  split at ha
  · cases ha
  · have h := orBoundary_ok ha
    rwa [hv'.visible, hv'.stores] at h

/-- An assignment that leaves the view alone. -/
theorem wp_assign (hC : Lawful C) (hv : At v s l) {f : Process → Process}
    (hf : ∀ l, (f l).pid = l.pid ∧ (f l).tx = l.tx ∧ (f l).temp = l.temp ∧
      (f l).memory = l.memory ∧ (f l).notes = l.notes) :
    wp C (.perform (Act.assign f)) (Ends (fun _ s l => At v s l) E) s l := by
  refine wp_perform fun s' hr c => ?_
  have hv' := hv.rely hC hr
  obtain ⟨h1, h2, h3, h4, h5⟩ := hf l
  have hlock : s'.lock = some (f l).pid := by rw [h1]; exact hv'.lock
  refine ⟨hC.quiet _ _ _ _ ⟨⟨h1, .inl rfl, fun _ => id⟩, rfl, h4, ?_⟩, ?_⟩
  · intro n hn
    exact .inl (h5 ▸ hn)
  · exact ⟨⟨hv'.stores, h2.trans hv'.tx, h3.trans hv'.temp, h4.trans hv'.memory,
      h5.trans hv'.notes, hv'.written⟩, hlock⟩

theorem wp_peek (hC : Lawful C) (hv : At v s l) (f : Process → β) :
    wp C (.perform (Act.peek f)) (Ends (fun b s l => At v s l ∧ b = f l) E) s l := by
  refine wp_perform fun s' hr c => ?_
  exact ⟨hC.quiet _ _ _ _ (Quiet.refl s' l), hv.rely hC hr, rfl⟩

/-- The view after a record has been written. -/
def View.audited (v : View) (r : AuditRecord) : View := { v with written := r :: v.written }

theorem wp_writeAudit (hC : Lawful C) (hv : At v s l) (hE : Covers E v) (r : AuditRecord) :
    wp C (.perform (Act.writeAudit r))
      (Ends (fun _ s l => At (v.audited r) s l) E) s l := by
  refine wp_perform fun s' hr c => ?_
  have hv' := hv.rely hC hr
  have hmore : ∀ x ∈ s'.audit, x ∈ s'.audit ++ [r] := fun x hx => List.mem_append_left _ hx
  have hlate : At v { s' with audit := s'.audit ++ [r] } l :=
    ⟨⟨hv'.stores, hv'.tx, hv'.temp, hv'.memory, hv'.notes,
      fun x hx => hmore x (hv'.written x hx)⟩, hv'.lock⟩
  have hgrow : Quiet s' l { s' with audit := s'.audit ++ [r] } l :=
    ⟨⟨rfl, .inl rfl, hmore⟩, rfl, rfl, fun _ => .inl⟩
  cases c with
  | none =>
    refine ⟨hC.quiet _ _ _ _ hgrow, ⟨hlate.stores, hlate.tx, hlate.temp, hlate.memory,
      hlate.notes, ?_⟩, hlate.lock⟩
    intro x hx
    rcases List.mem_cons.mp hx with rfl | hx
    · show x ∈ s'.audit ++ [x]
      simp
    · exact hlate.written x hx
  | fail e => exact ⟨hC.quiet _ _ _ _ (Quiet.refl s' l), hv'.covered hE⟩
  | failLate e => exact ⟨hC.quiet _ _ _ _ hgrow, hlate.covered hE⟩
  | abort e => exact ⟨hC.quiet _ _ _ _ (Quiet.refl s' l), hv'.covered hE⟩

/-! ## The transaction -/

/-- The view inside a transaction whose working copy is `w`. -/
def View.within (v : View) (w : Db) : View := { v with tx := some w }

theorem At.connection (h : At v s l) (writer : Option Nat) (tx : Option Db)
    (temp : Option Bytes) :
    At { v with tx, temp } { s with writer } { l with tx, temp } :=
  ⟨⟨h.stores, rfl, rfl, h.memory, h.notes, h.written⟩, h.lock⟩

theorem wp_begin (hC : Lawful C) (hv : At v s l) (hE : Covers E v) :
    wp C (.perform Act.beginImmediate) (Ends (fun _ s l => At (v.within v.stores.db) s l) E)
      s l := by
  refine wp_perform fun s' hr c => ?_
  have hv' := hv.rely hC hr
  have hsame := hC.quiet _ _ _ _ (Quiet.refl s' l)
  have hopened := hC.quiet _ _ _ _
    (Quiet.connection s' l (some l.pid) (some s'.stores.db) l.temp)
  have hopen : At (v.within v.stores.db) { s' with writer := some l.pid }
      { l with tx := some s'.stores.db } := by
    have h := hv'.connection (some l.pid) (some s'.stores.db) l.temp
    rw [hv'.temp, hv'.stores] at h
    rw [hv'.stores]
    exact ⟨⟨h.stores, h.tx, hv'.temp, h.memory, h.notes, h.written⟩, h.lock⟩
  cases c with
  | fail e => exact ⟨hsame, hv'.covered hE⟩
  | abort e => exact ⟨hsame, hv'.covered hE⟩
  | none =>
    cases htx : l.tx with
    | some w => simp only [Act.beginImmediate, htx]; exact ⟨hsame, hv'.covered hE⟩
    | none =>
      cases hw : s'.writer with
      | some p => simp only [Act.beginImmediate, htx, hw]; exact ⟨hsame, hv'.covered hE⟩
      | none =>
        simp only [Act.beginImmediate, htx, hw]
        exact ⟨hopened, hopen⟩
  | failLate e =>
    cases htx : l.tx with
    | some w => simp only [Act.beginImmediate, htx]; exact ⟨hsame, hv'.covered hE⟩
    | none =>
      cases hw : s'.writer with
      | some p => simp only [Act.beginImmediate, htx, hw]; exact ⟨hsame, hv'.covered hE⟩
      | none =>
        simp only [Act.beginImmediate, htx, hw]
        exact ⟨hopened, hE _ _ _ _ hopen⟩

theorem wp_execute (hC : Lawful C) {w : Db} (hv : At (v.within w) s l) (hE : Covers E v)
    (stmt : Db → Option (Db × β)) :
    wp C (.perform (Act.execute stmt)) (Ends (fun b s l => ∃ w', stmt w = some (w', b) ∧
      At (v.within w') s l) E) s l := by
  refine wp_perform fun s' hr c => ?_
  have hv' := hv.rely hC hr
  have hsame := hC.quiet _ _ _ _ (Quiet.refl s' l)
  have hbind : l.tx.bind stmt = stmt w := by rw [hv'.tx]; rfl
  cases hs : stmt w with
  | none =>
    rw [hs] at hbind
    simp only [Act.execute, hbind]
    exact ⟨hsame, hv'.covered hE⟩
  | some x =>
    obtain ⟨w', b⟩ := x
    rw [hs] at hbind
    have hset : At (v.within w') s' { l with tx := some w' } :=
      ⟨⟨hv'.stores, rfl, hv'.temp, hv'.memory, hv'.notes, hv'.written⟩, hv'.lock⟩
    have hstep := hC.quiet _ _ _ _ (Quiet.connection s' l s'.writer (some w') l.temp)
    cases c with
    | none => simp only [Act.execute, hbind]; exact ⟨hstep, w', rfl, hset⟩
    | fail e => simp only [Act.execute, hbind]; exact ⟨hsame, hv'.covered hE⟩
    | abort e => simp only [Act.execute, hbind]; exact ⟨hsame, hv'.covered hE⟩
    | failLate e => simp only [Act.execute, hbind]; exact ⟨hstep, hE _ _ _ _ hset⟩

/-- The view after a commit of `w` that took effect. -/
def View.committed (v : View) (w : Db) (purpose : Purpose) (raised : Bool) : View :=
  { v with
    stores := { v.stores with db := w }
    tx := none
    notes := v.notes ++ [⟨purpose, true, raised⟩] }

theorem wp_commit (hC : Lawful C) {w : Db} {purpose : Purpose} (hv : At (v.within w) s l)
    (hallow : Allows C (v.within w) { v.stores with db := w })
    (hno : Covers E { v with notes := v.notes ++ [⟨purpose, false, true⟩] })
    (hyes : Covers E (v.committed w purpose true)) :
    wp C (.perform (Act.commit purpose))
      (Ends (fun _ s l => At (v.committed w purpose false) s l) E) s l := by
  refine wp_perform fun s' hr c => ?_
  have hv' := hv.rely hC hr
  have htx : l.tx = some w := hv'.tx
  have hdone : ∀ raised, At (v.committed w purpose raised)
      { (Act.closed s' l).1 with stores := { s'.stores with db := w } }
      (Act.note (Act.closed s' l).2 purpose true raised) := by
    intro raised
    refine ⟨⟨?_, rfl, hv'.temp, hv'.memory, ?_, hv'.written⟩, hv'.lock⟩
    · show ({ s'.stores with db := w } : Stores) = _
      rw [hv'.stores]; rfl
    · show l.notes ++ _ = _
      rw [hv'.notes]; rfl
  have hg : ∀ raised, C.guar s' l
      { (Act.closed s' l).1 with stores := { s'.stores with db := w } }
      (Act.note (Act.closed s' l).2 purpose true raised) := by
    intro raised
    refine hallow _ _ _ _ hv' ⟨rfl, .inl rfl, fun _ => id⟩ ?_ rfl
    show ({ s'.stores with db := w } : Stores) = _
    rw [hv'.stores]
    rfl
  have hnotes : ∀ n ∈ l.notes ++ [⟨purpose, false, true⟩],
      n ∈ l.notes ∨ n.effect = false ∨ n.purpose = .release := by
    intro n hn
    rcases List.mem_append.mp hn with hn | hn
    · exact .inl hn
    · rw [List.mem_singleton.mp hn]; exact .inr (.inl rfl)
  cases c with
  | none =>
    simp only [Act.commit, htx]
    exact ⟨hg false, hdone false⟩
  | fail e =>
    simp only [Act.commit, htx]
    refine ⟨hC.quiet _ _ _ _ ⟨⟨rfl, .inl rfl, fun _ => id⟩, rfl, rfl, hnotes⟩,
      hno (some w) v.temp _ _ ⟨⟨hv'.stores, hv'.tx, hv'.temp, hv'.memory, ?_, hv'.written⟩,
        hv'.lock⟩⟩
    show l.notes ++ _ = _
    rw [hv'.notes]
    rfl
  | failLate e =>
    simp only [Act.commit, htx]
    exact ⟨hg true, (hdone true).covered hyes⟩
  | abort e =>
    simp only [Act.commit, htx]
    refine ⟨hC.quiet _ _ _ _ ⟨⟨rfl, .inl rfl, fun _ => id⟩, rfl, rfl, hnotes⟩,
      hno none v.temp _ _ ⟨⟨hv'.stores, rfl, hv'.temp, hv'.memory, ?_, hv'.written⟩,
        hv'.lock⟩⟩
    show l.notes ++ _ = _
    rw [hv'.notes]
    rfl

theorem wp_rollback (hC : Lawful C) (hE : Loose E) (h : E s l) :
    wp C (.perform Act.rollback) (fun _ => E) s l := by
  obtain ⟨v, hv, hc⟩ := hE s l h
  refine wp_perform fun s' hr c => ?_
  have hv' := hv.rely hC hr
  have hsame := hC.quiet _ _ _ _ (Quiet.refl s' l)
  have hclosed := hC.quiet _ _ _ _ (Quiet.connection s' l (Act.closed s' l).1.writer none l.temp)
  have hdone : E (Act.closed s' l).1 (Act.closed s' l).2 :=
    hc none l.temp _ _ (hv'.connection (Act.closed s' l).1.writer none l.temp)
  cases c with
  | none => exact ⟨hclosed, hdone⟩
  | fail e => exact ⟨hsame, hv'.covered hc⟩
  | failLate e => exact ⟨hclosed, hdone⟩
  | abort e => exact ⟨hsame, hv'.covered hc⟩

/-- A transaction: its body starts on a working copy of the database. -/
theorem wp_transaction {body : Code α} {P : α → Shared → Process → Prop} (hC : Lawful C)
    (hv : At v s l) (hE : Covers E v) (hloose : Loose E)
    (hbody : ∀ s l, At (v.within v.stores.db) s l → wp C body (Ends P E) s l) :
    wp C (transaction body) (Ends P E) s l := by
  refine wp_seq (wp_begin hC hv hE) ?_
  intro _ s l hopen
  refine wp_onError (hbody s l hopen) (fun a s l h => h) ?_
  intro e s l he
  refine wp_mono (wp_rollback hC hloose he) ?_
  intro r s l h
  cases r <;> exact h

/-! ## The publication -/

theorem wp_writeTemp (hC : Lawful C) (hv : At v s l) (hE : Covers E v) (raw : Bytes) :
    wp C (.perform (Act.writeTemp raw)) (Ends (fun _ s l => At { v with temp := some raw } s l) E)
      s l := by
  refine wp_perform fun s' hr c => ?_
  have hv' := hv.rely hC hr
  have hsame := hC.quiet _ _ _ _ (Quiet.refl s' l)
  have hwritten := hC.quiet _ _ _ _ (Quiet.connection s' l s'.writer l.tx (some raw))
  have hdone : At { v with temp := some raw } s' { l with temp := some raw } :=
    ⟨⟨hv'.stores, hv'.tx, rfl, hv'.memory, hv'.notes, hv'.written⟩, hv'.lock⟩
  cases c with
  | none => exact ⟨hwritten, hdone⟩
  | fail e => exact ⟨hsame, hv'.covered hE⟩
  | failLate e => exact ⟨hwritten, hE _ _ _ _ hdone⟩
  | abort e => exact ⟨hsame, hv'.covered hE⟩

/-- The view after the index file has been replaced. -/
def View.replaced (v : View) (raw : Bytes) : View :=
  { v with stores := { v.stores with index := raw } }

theorem wp_replaceIndex (hC : Lawful C) {raw : Bytes} (hv : At v s l) (htemp : v.temp = some raw)
    (hallow : Allows C v { v.stores with index := raw }) (hE : Covers E v)
    (hE' : Covers E (v.replaced raw)) :
    wp C (.perform Act.replaceIndex)
      (Ends (fun _ s l => At { v.replaced raw with temp := none } s l) E) s l := by
  refine wp_perform fun s' hr c => ?_
  have hv' := hv.rely hC hr
  have hsame := hC.quiet _ _ _ _ (Quiet.refl s' l)
  have ht : l.temp = some raw := hv'.temp.trans htemp
  have hindex : ({ s'.stores with index := raw } : Stores) = { v.stores with index := raw } := by
    rw [hv'.stores]
  have hat : ∀ temp, At { v.replaced raw with temp }
      { s' with stores := { s'.stores with index := raw } } { l with temp } := fun temp =>
    ⟨⟨hindex, hv'.tx, rfl, hv'.memory, hv'.notes, hv'.written⟩, hv'.lock⟩
  have hg : ∀ temp, C.guar s' l { s' with stores := { s'.stores with index := raw } }
      { l with temp } := fun temp =>
    hallow _ _ _ _ hv' ⟨rfl, .inl rfl, fun _ => id⟩ hindex rfl
  simp only [Act.replaceIndex, ht]
  cases c with
  | none => exact ⟨hg none, hat none⟩
  | fail e => exact ⟨hsame, hv'.covered hE⟩
  | failLate e => exact ⟨hg l.temp, hE' v.tx l.temp _ _ (hat l.temp)⟩
  | abort e => exact ⟨hsame, hv'.covered hE⟩

theorem wp_unlinkTemp (hC : Lawful C) (hE : Loose E) (h : E s l) :
    wp C (.perform Act.unlinkTemp) (fun _ => E) s l := by
  obtain ⟨v, hv, hc⟩ := hE s l h
  refine wp_perform fun s' hr c => ?_
  have hv' := hv.rely hC hr
  have hsame := hC.quiet _ _ _ _ (Quiet.refl s' l)
  have hgone := hC.quiet _ _ _ _ (Quiet.connection s' l s'.writer l.tx none)
  have hdone : E s' { l with temp := none } :=
    hc l.tx none _ _ (hv'.connection s'.writer l.tx none)
  cases c with
  | none => exact ⟨hgone, hdone⟩
  | fail e => exact ⟨hsame, hv'.covered hc⟩
  | failLate e => exact ⟨hgone, hdone⟩
  | abort e => exact ⟨hsame, hv'.covered hc⟩

/-- What `_publish` does in the end. -/
theorem wp_cleanTemp (hC : Lawful C) (hE : Loose E) (h : E s l) :
    wp C (do
      let named ← .perform (Act.peek fun l => l.temp.isSome)
      if named then .perform Act.unlinkTemp else pure () : Code Unit) (fun _ => E) s l := by
  obtain ⟨v, hv, hc⟩ := hE s l h
  refine wp_bind (wp_peek (E := E) hC hv fun l => l.temp.isSome) ?_ fun _ _ _ he => he
  rintro named s l ⟨hv', rfl⟩
  cases l.temp with
  | none => exact hv'.covered hc
  | some raw => exact wp_unlinkTemp hC hE (hv'.covered hc)

theorem wp_publish {pf : Profile} {raw : Bytes} (hC : Lawful C) (hv : At v s l)
    (hallow : Allows C { v with temp := some raw } { v.stores with index := raw })
    (hE : Covers E v) (hE' : Covers E (v.replaced raw)) (hloose : Loose E) :
    wp C (publish pf raw)
      (Ends (fun _ s l => At { v.replaced raw with temp := none } s l) E) s l := by
  refine wp_seq (wp_ask hC hv hE) ?_
  intro _ s l hv
  have hbody : wp C (do
      .perform (Act.writeTemp raw)
      ask
      let temp ← .perform (Act.peek Process.temp)
      refuseIf (pf.verifyTemp ∧ temp ≠ some raw) "governance.transition_projection_invalid"
      .perform Act.replaceIndex
      let index ← readIndex
      refuseIf (index ≠ raw) "governance.transition_projection_invalid" : Code Unit)
      (Ends (fun _ s l => At { v.replaced raw with temp := none } s l) E) s l := by
    refine wp_seq (wp_writeTemp hC hv hE raw) ?_
    intro _ s l hv
    have hEt : Covers E { v with temp := some raw } := hE
    refine wp_seq (wp_ask hC hv hEt) ?_
    intro _ s l hv
    refine wp_seq (wp_peek hC hv Process.temp) ?_
    rintro _ s l ⟨hv, -⟩
    refine wp_seq (wp_refuseIf hv hEt) ?_
    rintro _ s l ⟨hv, -⟩
    refine wp_seq (wp_replaceIndex hC hv rfl hallow hEt hE') ?_
    intro _ s l hv
    refine wp_seq (wp_readIndex hC hv hE') ?_
    rintro index s l ⟨hv, -⟩
    exact wp_mono (wp_refuseIf hv hE') fun r s l h => by
      cases r with
      | ok a => exact h.1
      | error e => exact h
  refine wp_ensuring hbody ?_
  intro r s l hr
  cases r with
  | error e =>
    refine wp_mono (wp_cleanTemp hC hloose hr) ?_
    intro r s l h
    cases r <;> exact h
  | ok a =>
    refine wp_bind (wp_peek (E := fun _ _ => False) hC hr fun l => l.temp.isSome) ?_
      fun _ _ _ he => he.elim
    rintro named s l ⟨hv', rfl⟩
    have : l.temp = none := hv'.temp
    rw [this]
    exact hv'

/-! ## The projection lock -/

/-- What a process knows right after it has taken the lock. -/
def View.seen (s : Shared) (l : Process) : View where
  stores := s.stores
  tx := l.tx
  temp := l.temp
  memory := l.memory
  notes := l.notes
  written := []

def View.released (v : View) (effect raised : Bool) : View :=
  { v with notes := v.notes ++ [⟨.release, effect, raised⟩] }

theorem wp_release {P : Shared → Process → Prop} (hC : Lawful C) (hv : At v s l)
    (hP : ∀ s l, Knows (v.released true false) s l → P s l)
    (hE : ∀ effect s l, Knows (v.released effect true) s l → E s l) :
    wp C (.perform Act.release) (Ends (fun _ => P) E) s l := by
  refine wp_perform fun s' hr c => ?_
  have hv' := hv.rely hC hr
  have hfree : (if s'.lock = some l.pid then none else s'.lock) = none := if_pos hv'.lock
  have hknow : ∀ effect raised s'', s''.stores = s'.stores → s''.audit = s'.audit →
      Knows (v.released effect raised) s'' (Act.note l .release effect raised) := by
    intro effect raised s'' hstores haudit
    refine ⟨hstores.trans hv'.stores, hv'.tx, hv'.temp, hv'.memory, ?_, ?_⟩
    · show l.notes ++ _ = _
      rw [hv'.notes]; rfl
    · rw [haudit]; exact hv'.written
  have hnotes : ∀ effect raised, ∀ n ∈ l.notes ++ [⟨.release, effect, raised⟩],
      n ∈ l.notes ∨ n.effect = false ∨ n.purpose = .release := by
    intro effect raised n hn
    rcases List.mem_append.mp hn with hn | hn
    · exact .inl hn
    · rw [List.mem_singleton.mp hn]; exact .inr (.inr rfl)
  have hfreed : ∀ effect raised, C.guar s' l
      { s' with lock := if s'.lock = some l.pid then none else s'.lock }
      (Act.note l .release effect raised) := fun effect raised =>
    hC.quiet _ _ _ _ ⟨⟨rfl, .inr (.inr ⟨hv'.lock, hfree⟩), fun _ => id⟩, rfl, rfl,
      hnotes effect raised⟩
  have hkept : ∀ effect raised, C.guar s' l s' (Act.note l .release effect raised) :=
    fun effect raised =>
      hC.quiet _ _ _ _ ⟨⟨rfl, .inl rfl, fun _ => id⟩, rfl, rfl, hnotes effect raised⟩
  cases c with
  | none => exact ⟨hfreed _ _, hP _ _ (hknow true false _ rfl rfl)⟩
  | fail e => exact ⟨hkept _ _, hE false _ _ (hknow false true _ rfl rfl)⟩
  | failLate e => exact ⟨hfreed _ _, hE true _ _ (hknow true true _ rfl rfl)⟩
  | abort e => exact ⟨hkept _ _, hE false _ _ (hknow false true _ rfl rfl)⟩

/-- What holds outside of the lock: others may act, and the lock does not matter. -/
structure Outside (C : Contract Shared Process) (R : Shared → Process → Prop) : Prop where
  stays : ∀ l s s', C.rely l s s' → R s l → R s' l
  lock : ∀ s l p, R s l → R { s with lock := p } l

theorem wp_askOutside {R : Shared → Process → Prop} (hC : Lawful C) (hR : Outside C R)
    (h : R s l) : wp C ask (Ends (fun _ => R) R) s l := by
  refine wp_perform fun s' hr c => ?_
  have h' := hR.stays _ _ _ hr h
  cases c <;> exact ⟨hC.quiet _ _ _ _ (Quiet.refl s' l), h'⟩

theorem wp_refuseIfOutside {R : Shared → Process → Prop} {c : Prop} [Decidable c] {code : String}
    (h : R s l) : wp C (refuseIf c code) (Ends (fun _ s l => R s l ∧ ¬ c) R) s l :=
  wp_raiseIf (fun _ => h) fun hc => ⟨h, hc⟩

/-- An assignment outside of the lock. -/
theorem wp_assignOutside {R R' : Shared → Process → Prop} {f : Process → Process}
    (hC : Lawful C) (hR : Outside C R) (h : R s l)
    (hf : ∀ l, (f l).pid = l.pid ∧ (f l).memory = l.memory ∧ (f l).notes = l.notes)
    (hR' : ∀ s l, R s l → R' s (f l)) :
    wp C (.perform (Act.assign f)) (Ends (fun _ => R') E) s l := by
  refine wp_perform fun s' hr c => ?_
  obtain ⟨h1, h2, h3⟩ := hf l
  refine ⟨hC.quiet _ _ _ _ ⟨⟨h1, .inl rfl, fun _ => id⟩, rfl, h2, ?_⟩,
    hR' _ _ (hR.stays _ _ _ hr h)⟩
  intro n hn
  exact .inl (h3 ▸ hn)

/-- The process remembers something outside of the lock. -/
theorem wp_remember {R P : Shared → Process → Prop} {f : Memory → Memory} (hR : Outside C R)
    (h : R s l) (hg : ∀ s l, R s l → C.guar s l s { l with memory := f l.memory })
    (hP : ∀ s l, R s l → P s { l with memory := f l.memory }) :
    wp C (.perform (Act.remember f)) (Ends (fun _ => P) E) s l := by
  refine wp_perform fun s' hr c => ?_
  have h' := hR.stays _ _ _ hr h
  exact ⟨hg _ _ h', hP _ _ h'⟩

/-- `finally:` an assignment to the fields of the preparations. -/
theorem wp_ensuringRemember {p : Code α} {f : Memory → Memory} {P : α → Shared → Process → Prop}
    {Q : α → Shared → Process → Prop} {D : Shared → Process → Prop} (hp : wp C p (Ends P D) s l)
    (hstays : ∀ r, Outside C (Ends P D r))
    (hg : ∀ s l, C.guar s l s { l with memory := f l.memory })
    (hQ : ∀ r s l, Ends P D r s l → Ends Q E r s { l with memory := f l.memory }) :
    wp C (p.ensuring (.perform (Act.remember f))) (Ends Q E) s l := by
  refine wp_ensuring hp ?_
  intro r s l h
  refine wp_mono (wp_remember (P := Ends Q E r) (E := fun _ _ => False) (hstays r) h
    (fun s l _ => hg s l) (hQ r)) ?_
  intro r' s l h
  cases r' with
  | ok a => exact h
  | error e => exact h.elim

theorem wp_writeAuditOutside {R : Shared → Process → Prop} {r : AuditRecord} (hC : Lawful C)
    (hR : Outside C R) (h : R s l) (haudit : ∀ s l audit, R s l → R { s with audit } l) :
    wp C (.perform (Act.writeAudit r)) (Ends (fun _ => R) R) s l := by
  refine wp_perform fun s' hr c => ?_
  have h' := hR.stays _ _ _ hr h
  have hsame := hC.quiet _ _ _ _ (Quiet.refl s' l)
  have hgrow := hC.quiet s' l { s' with audit := s'.audit ++ [r] } l
    ⟨⟨rfl, .inl rfl, fun x hx => List.mem_append_left _ hx⟩, rfl, rfl, fun _ => .inl⟩
  cases c with
  | none => exact ⟨hgrow, haudit _ _ _ h'⟩
  | fail e => exact ⟨hsame, h'⟩
  | failLate e => exact ⟨hgrow, haudit _ _ _ h'⟩
  | abort e => exact ⟨hsame, h'⟩

theorem wp_peekOutside {R : Shared → Process → Prop} (hC : Lawful C) (hR : Outside C R)
    (h : R s l) (f : Process → β) :
    wp C (.perform (Act.peek f)) (Ends (fun _ => R) (fun _ _ => False)) s l := by
  refine wp_perform fun s' hr c => ?_
  exact ⟨hC.quiet _ _ _ _ (Quiet.refl s' l), hR.stays _ _ _ hr h⟩

theorem wp_acquire {R : Shared → Process → Prop} (hC : Lawful C) (hR : Outside C R) (h : R s l) :
    wp C (.perform Act.acquire)
      (Ends (fun _ s l => R s l ∧ At (View.seen s l) s l) R) s l := by
  refine wp_perform fun s' hr c => ?_
  have h' := hR.stays _ _ _ hr h
  have hsame := hC.quiet _ _ _ _ (Quiet.refl s' l)
  have htaken : s'.lock = none → C.guar s' l { s' with lock := some l.pid } l := fun hl =>
    hC.quiet _ _ _ _ ⟨⟨rfl, .inr (.inl ⟨hl, rfl⟩), fun _ => id⟩, rfl, rfl, fun _ => .inl⟩
  cases c with
  | fail e => exact ⟨hsame, h'⟩
  | abort e => exact ⟨hsame, h'⟩
  | none =>
    cases hl : s'.lock with
    | some p => simp only [Act.acquire, hl]; exact ⟨hsame, h'⟩
    | none =>
      simp only [Act.acquire, hl]
      exact ⟨htaken hl, hR.lock _ _ _ h', ⟨rfl, rfl, rfl, rfl, rfl, nofun⟩, rfl⟩
  | failLate e =>
    cases hl : s'.lock with
    | some p => simp only [Act.acquire, hl]; exact ⟨hsame, h'⟩
    | none =>
      simp only [Act.acquire, hl]
      exact ⟨htaken hl, hR.lock _ _ _ h'⟩

/-- **The projection lock.**  The body starts with the stores as they are when the lock is
taken; what it knows at its end is still true when the lock is released. -/
theorem wp_exclusive {body : Code α} {R : Shared → Process → Prop} {G : View → Prop}
    {K : α → View → Prop} {F : View → Prop} {P : α → Shared → Process → Prop} (hC : Lawful C)
    (hR : Outside C R) (h : R s l) (hRE : ∀ s l, R s l → E s l)
    (hRG : ∀ s l, R s l → G (View.seen s l)) (hF : Loosely F) (hGF : ∀ v, G v → F v)
    (hbody : ∀ v s l, G v → At v s l →
      wp C body (Ends (fun a => Holding (K a)) (Holding F)) s l)
    (hP : ∀ a v s l, K a v → Knows (v.released true false) s l → P a s l)
    (hKE : ∀ a v effect s l, K a v → Knows (v.released effect true) s l → E s l)
    (hFE : ∀ v effect raised s l, F v → Knows (v.released effect raised) s l → E s l) :
    wp C (exclusive body) (Ends P E) s l := by
  have hinside : wp C (do
      ask
      ask
      .perform Act.acquire
      Prog.ensuring (do ask; body) (.perform Act.release) : Code α) (Ends P E) s l := by
    refine wp_bind (wp_askOutside hC hR h) ?_ fun _ s l he => hRE s l he
    intro _ s l h
    refine wp_bind (wp_askOutside hC hR h) ?_ fun _ s l he => hRE s l he
    intro _ s l h
    refine wp_bind (wp_acquire hC hR h) ?_ fun _ s l he => hRE s l he
    rintro _ s l ⟨h, hv⟩
    have hstart : wp C (do ask; body : Code α) (Ends (fun a => Holding (K a)) (Holding F)) s l := by
      refine wp_seq (wp_ask hC hv (covers_holding hF (hGF _ (hRG s l h)))) ?_
      intro _ s' l' hv
      exact hbody _ s' l' (hRG s l h) hv
    refine wp_ensuring hstart ?_
    intro r s l hr
    cases r with
    | ok a =>
      obtain ⟨v, hk, hv⟩ := hr
      refine wp_mono (wp_release hC hv (hP a v · · hk) (hKE a v · · · hk)) ?_
      intro r s l h
      cases r <;> exact h
    | error e =>
      obtain ⟨v, hf, hv⟩ := hr
      refine wp_mono (wp_release (E := E) hC hv (hFE v true false · · hf)
        (hFE v · true · · hf)) ?_
      intro r s l h
      cases r <;> exact h
  exact wp_renamed hinside

/-! ## Contracts -/

/-- Nobody else acts. -/
def Alone (_ : Process) (s s' : Shared) : Prop := s' = s

/-- Others respect the projection lock and only add to the audit trail. -/
structure Others (l : Process) (s s' : Shared) : Prop where
  held : s.lock = some l.pid → s'.lock = s.lock ∧ s'.stores = s.stores
  audit : ∀ r ∈ s.audit, r ∈ s'.audit

/-- What the steps of a program do that changes the stores by `Move` only, under the lock,
and the fields of the preparations by `Recall` only. -/
inductive Keeps (Move : View → Stores → Prop) (Recall : Memory → Memory → Prop) (s : Shared)
    (l : Process) (s' : Shared) (l' : Process) : Prop
  | quiet : Quiet s l s' l' → Keeps Move Recall s l s' l'
  | moved {v : View} : Step s l s' l' → l'.memory = l.memory → At v s l → Move v s'.stores →
      Keeps Move Recall s l s' l'
  | recalled : Step s l s' l' → s'.stores = s.stores → l'.notes = l.notes →
      Recall l.memory l'.memory → Keeps Move Recall s l s' l'

/-- The fields of the preparations do not change. -/
def Never (_ _ : Memory) : Prop := False

def movesBy (rely : Process → Shared → Shared → Prop) (Move : View → Stores → Prop)
    (Recall : Memory → Memory → Prop) : Contract Shared Process where
  rely := rely
  guar := Keeps Move Recall

variable {Move : View → Stores → Prop} {Recall : Memory → Memory → Prop}
  {rely : Process → Shared → Shared → Prop}

theorem lawful_alone : Lawful (movesBy Alone Move Recall) where
  held := by rintro l s s' rfl _; exact ⟨rfl, rfl⟩
  audit := by rintro l s s' rfl r hr; exact hr
  quiet _ _ _ _ h := .quiet h

theorem lawful_of_others (h : ∀ l s s', rely l s s' → Others l s s') :
    Lawful (movesBy rely Move Recall) where
  held l s s' hr := (h l s s' hr).held
  audit l s s' hr := (h l s s' hr).audit
  quiet _ _ _ _ hq := .quiet hq

theorem allows_movesBy {x : Stores} (h : Move v x) : Allows (movesBy rely Move Recall) v x := by
  intro s l s' l' hv hstep hx hm
  exact .moved hstep hm hv (hx ▸ h)

theorem Others.refl (l : Process) (s : Shared) : Others l s s := ⟨fun _ => ⟨rfl, rfl⟩, fun _ => id⟩

theorem Others.trans {l : Process} {s s' s'' : Shared} (h : Others l s s')
    (h' : Others l s' s'') : Others l s s'' where
  held hl := by
    obtain ⟨h1, h2⟩ := h.held hl
    obtain ⟨h3, h4⟩ := h'.held (h1.trans hl)
    exact ⟨h3.trans h1, h4.trans h2⟩
  audit r hr := h'.audit r (h.audit r hr)

theorem Keeps.step {s s' : Shared} {l l' : Process} (h : Keeps Move Recall s l s' l') :
    Step s l s' l' := by
  cases h with
  | quiet h => exact h.toStep
  | moved h => exact h
  | recalled h => exact h

/-- A step changes the stores by a move only. -/
theorem Keeps.stores {s s' : Shared} {l l' : Process} (h : Keeps Move Recall s l s' l') :
    s'.stores = s.stores ∨ ∃ v, At v s l ∧ Move v s'.stores := by
  cases h with
  | quiet h => exact .inl h.stores
  | moved _ _ hv hm => exact .inr ⟨_, hv, hm⟩
  | recalled _ h => exact .inl h

/-- What one process does under its contract is tolerable to another. -/
theorem Keeps.others {s s' : Shared} {m m' l : Process} (h : Keeps Move Recall s m s' m')
    (hne : l.pid ≠ m.pid) : Others l s s' := by
  refine ⟨fun hl => ?_, h.step.audit⟩
  have hnot : s.lock ≠ some m.pid := fun hm => hne (Option.some.inj (hl.symm.trans hm))
  constructor
  · rcases h.step.lock with h | ⟨h, _⟩ | ⟨h, _⟩
    · exact h
    · rw [h] at hl; cases hl
    · exact absurd h hnot
  · rcases h.stores with h | ⟨v, hv, _⟩
    · exact h
    · exact absurd hv.lock hnot

theorem others_of_die {s : Shared} {m l : Process} (hne : l.pid ≠ m.pid) :
    Others l s (die s m).1 := by
  refine ⟨fun hl => ⟨?_, rfl⟩, fun _ => id⟩
  have hnot : s.lock ≠ some m.pid := fun hm => hne (Option.some.inj (hl.symm.trans hm))
  exact if_neg hnot

theorem outside_alone {R : Shared → Process → Prop}
    (hlock : ∀ s l p, R s l → R { s with lock := p } l) :
    Outside (movesBy Alone Move Recall) R where
  stays := by rintro l s s' rfl h; exact h
  lock := hlock

end ProjectMaya
