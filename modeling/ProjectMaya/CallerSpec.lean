import ProjectMaya.CreateSpec
import ProjectMaya.Readers
import ProjectMaya.Spares

/-! # What a preparation leaves

`prepare` on its own, with any fault at any of its actions.  The acknowledgement and the
cleanup are two transactions, and the cleanup looks for a receipt that is still pending: a
receipt whose acknowledging commit took effect stays acknowledged, also when the call then
raises (`wp_prepare`). -/

namespace ProjectMaya

open Logic

/-! ## What the notes say of the acknowledgement -/

/-- A commit of an acknowledgement that took effect. -/
def Note.acknowledges (n : Note) : Bool := n.purpose = .acknowledge && n.effect

/-- The notes from the first acknowledgement that took effect. -/
def sinceAcknowledged (notes : List Note) : List Note := notes.dropWhile (!·.acknowledges)

/-- The acknowledgement took effect, and its commit, or the release of the lock right after
it, raised. -/
def Spoiled (notes : List Note) : Prop := ((sinceAcknowledged notes).take 2).any Note.raised

instance (notes : List Note) : Decidable (Spoiled notes) :=
  inferInstanceAs (Decidable (((sinceAcknowledged notes).take 2).any Note.raised = true))

/-- No acknowledgement took effect. -/
def Unacknowledging (notes : List Note) : Prop := ∀ n ∈ notes, n.acknowledges = false

theorem Unacknowledging.append {notes : List Note} (h : Unacknowledging notes) {n : Note}
    (hn : n.acknowledges = false) : Unacknowledging (notes ++ [n]) := by
  intro x hx
  rcases List.mem_append.mp hx with hx | hx
  · exact h x hx
  · rw [List.mem_singleton.mp hx]
    exact hn

theorem Unacknowledging.since {notes : List Note} (h : Unacknowledging notes) (rest : List Note) :
    sinceAcknowledged (notes ++ rest) = sinceAcknowledged rest := by
  unfold sinceAcknowledged
  exact List.dropWhile_append_of_pos fun n hn => by rw [h n hn]; rfl

theorem Unacknowledging.not_spoiled {notes : List Note} (h : Unacknowledging notes) : ¬ Spoiled notes := by
  have hsince : sinceAcknowledged notes = [] := by
    simpa [sinceAcknowledged] using h.since []
  rw [Spoiled, hsince]
  simp

theorem Spoiled.append {notes : List Note} (h : Spoiled notes) (n : Note) : Spoiled (notes ++ [n]) := by
  have hsome : (sinceAcknowledged notes).isEmpty = false := by
    unfold Spoiled at h
    cases hs : sinceAcknowledged notes with
    | nil => simp [hs] at h
    | cons a rest => rfl
  have hsince : sinceAcknowledged (notes ++ [n]) = sinceAcknowledged notes ++ [n] := by
    unfold sinceAcknowledged at hsome ⊢
    rw [List.dropWhile_append, if_neg (by rw [hsome]; exact Bool.false_ne_true)]
  unfold Spoiled at h ⊢
  rw [hsince, List.take_append, List.any_append, h, Bool.true_or]

/-- The acknowledgement and the release after it, neither of which raised. -/
def Confirming (notes : List Note) : Prop := ∃ before, Unacknowledging before ∧
  notes = before ++ [⟨.acknowledge, true, false⟩, ⟨.release, true, false⟩]

theorem Confirming.not_spoiled {notes : List Note} (h : Confirming notes) : ¬ Spoiled notes := by
  obtain ⟨before, hbefore, rfl⟩ := h
  rw [Spoiled, hbefore.since _]
  decide

/-! ## Receipts -/

section

variable (c : Coordinator) (call : CreateCall)

/-- The stores `o` with the receipt of a create in the state `st`, and its projection
published. -/
def Receipted (o : Stores) (st : TransitionState) (x : Stores) : Prop :=
  ∃ generation routes, Ready c .overlay call o generation routes ∧
    Created c call generation (c.newBytes call generation routes) st o.db x.db ∧
    x.index = c.newBytes call generation routes

end

variable {c : Coordinator} {call : CreateCall} {o x : Stores}

theorem stateInTransaction_updateState (c : Coordinator) (db : Db) (p : Transition → Bool)
    (st : TransitionState) :
    stateInTransaction c (db.updateState p st).1 = stateInTransaction c db := by
  have hrefs : (db.updateState p st).1.foreignKeyCheck = db.foreignKeyCheck := by
    unfold Db.foreignKeyCheck
    congr 1
    show ((db.transitions.rows.map fun t => if p t then { t with state := st } else t).all _) = _
    rw [List.all_map]
    refine List.all_congr rfl fun t => ?_
    show db.refers (if p t then { t with state := st } else t).targetSession = _
    split <;> rfl
  unfold stateInTransaction
  rw [hrefs]
  rfl

/-- The row that the statements of the preparation look for. -/
def CreateCall.pending (call : CreateCall) (t : Transition) : Bool :=
  t.correlationId = call.descriptor.correlationId && t.descriptorDigest = call.descriptor.digest &&
    t.state = .publishedPendingCaller

/-- A statement that has moved one receipt has found it pending. -/
theorem Receipted.moveReceipt {st target : TransitionState} {w : Db} {changed : Nat}
    (h : Receipted c call o st x) (hu : x.db.updateState call.pending target = (w, changed))
    (hchanged : changed = 1) :
    st = .publishedPendingCaller ∧ Receipted c call o target { x with db := w } := by
  obtain ⟨generation, routes, hready, hcreated, hindex⟩ := h
  cases hu
  have hold : ∀ t ∈ o.db.transitions.rows, call.pending t = false := by
    intro t ht
    have hne : t.correlationId ≠ call.descriptor.correlationId :=
      Table.ne_newest hcreated.transitions ht
    simp [CreateCall.pending, hne]
  have hst : st = .publishedPendingCaller := by
    by_contra hne
    have hnone : x.db.transitions.count call.pending = 0 := by
      rw [Table.count, hcreated.transitions, List.countP_append,
        List.countP_eq_zero.mpr fun t ht => by simp [hold t ht]]
      simp [CreateCall.pending, hne]
    exact absurd (hnone.symm.trans hchanged) (by decide)
  subst hst
  obtain ⟨hrows, -⟩ := Table.rows_update_newest call.pending (fun t => { t with state := target })
    (fun _ => rfl) hcreated.transitions
    (by simp [CreateCall.pending, CreateSessionDescriptor.transitionRow]) hold
  exact ⟨rfl, generation, routes, hready, ⟨hcreated.sessions, hcreated.owners, hcreated.routes, hrows,
    hcreated.projection⟩, hindex⟩

/-! ## What a call that raised leaves -/

/-- What the notes of a call that raised say of the state of its receipt. -/
inductive Abandons : TransitionState → List Note → Prop
  | pending {notes : List Note} : Unacknowledging notes → Abandons .publishedPendingCaller notes
  | quarantined {notes : List Note} : Unacknowledging notes → Abandons .callerQuarantined notes
  | acknowledged {notes : List Note} : Spoiled notes → Abandons .callerAcknowledged notes

theorem Abandons.append {st : TransitionState} {notes : List Note} (h : Abandons st notes) {n : Note}
    (hn : n.acknowledges = false) : Abandons st (notes ++ [n]) := by
  cases h with
  | pending h => exact .pending (h.append hn)
  | quarantined h => exact .quarantined (h.append hn)
  | acknowledged h => exact .acknowledged (h.append n)

/-- The receipt of a call that raised, with the memory `m`. -/
structure Abandoned (c : Coordinator) (call : CreateCall) (o : Stores) (m : Memory) (v : View) :
    Prop where
  receipt : ∃ st, Receipted c call o st v.stores ∧ Abandons st v.notes
  memory : v.memory = m

/-- The receipt is acknowledged, and the tables and the index are consistent. -/
structure Acknowledged (c : Coordinator) (call : CreateCall) (o : Stores) (m : Memory) (x : Stores)
    (m' : Memory) : Prop where
  receipt : Receipted c call o .callerAcknowledged x
  consistent : ∃ generation routes, stateInTransaction c x.db = .ok (generation, routes, x.index)
  memory : m' = m

theorem loosely_abandoned {m : Memory} : Loosely (Abandoned c call o m) :=
  fun _ _ _ h => ⟨h.receipt, h.memory⟩

/-- A host on its own, whose actions are not restricted. -/
def freely : Contract Shared Process := movesBy Alone (fun _ _ => True) fun _ _ => True

theorem lawful_freely : Lawful freely := lawful_alone

theorem allows_freely (v : View) (x : Stores) : Allows freely v x := allows_movesBy trivial

section

variable {v : View} {s : Shared} {l : Process} {E : Shared → Process → Prop} {m : Memory}

theorem free_step (s : Shared) (l : Process) (m : Memory) : freely.guar s l s { l with memory := m } :=
  .recalled ⟨rfl, .inl rfl, fun _ => id⟩ rfl rfl trivial

theorem wp_bound {expected : TransitionState} (hv : At v s l) (hE : Covers E v) :
    wp freely (c.bound call expected) (Ends (fun _ s l => At v s l ∧
      callerBound c call.descriptor expected (v.tx.getD v.stores.db) v.stores.index = .ok ()) E)
      s l := by
  refine wp_seq (wp_ask lawful_freely hv hE) ?_
  intro _ s l hv
  refine wp_seq (wp_refuseIf hv hE) ?_
  rintro _ s l ⟨hv, -⟩
  exact wp_checked lawful_freely hv hE _

/-- The tables that `_bound` accepts are consistent, and so is the index. -/
theorem callerBound_consistent {d : CreateSessionDescriptor} {expected : TransitionState} {db : Db}
    {index : Bytes} (h : callerBound c d expected db index = .ok ()) :
    ∃ generation routes, stateInTransaction c db = .ok (generation, routes, index) := by
  unfold callerBound at h
  obtain ⟨⟨generation, routes, raw⟩, hstate, h⟩ := bind_eq_ok.mp h
  simp only at h
  split at h
  · rename_i hall
    simp only [Bool.and_eq_true, decide_eq_true_eq] at hall
    obtain ⟨⟨-, rfl⟩, -⟩ := hall
    exact ⟨generation, routes, hstate⟩
  · cases h

theorem covers_abandoned (h : Abandoned c call o m v) : Covers (Holding (Abandoned c call o m)) v :=
  covers_holding loosely_abandoned h

/-- What the process knows when `_acknowledge` has committed. -/
structure Committed (c : Coordinator) (call : CreateCall) (o : Stores) (m : Memory) (v : View) :
    Prop where
  receipt : Acknowledged c call o m v.stores v.memory
  notes : ∃ before, Unacknowledging before ∧ v.notes = before ++ [⟨.acknowledge, true, false⟩]

/-- The transaction of `_acknowledge`. -/
theorem wp_commitAcknowledge (hreceipt : Receipted c call o .publishedPendingCaller v.stores)
    (hnotes : Unacknowledging v.notes) (hm : v.memory = m) (hv : At (v.within v.stores.db) s l) :
    wp freely (c.commitAcknowledge call)
      (Ends (fun _ => Holding (Committed c call o m)) (Holding (Abandoned c call o m))) s l := by
  have hleft : Covers (Holding (Abandoned c call o m)) v :=
    covers_abandoned ⟨⟨_, hreceipt, .pending hnotes⟩, hm⟩
  refine wp_seq (wp_bound hv hleft) ?_
  rintro _ s l ⟨hv, hbound⟩
  refine wp_seq (wp_authority lawful_freely hv hleft) ?_
  rintro _ s l ⟨hv, -⟩
  refine wp_seq (wp_execute lawful_freely hv hleft _) ?_
  rintro changed s l ⟨w, hw, hv⟩
  refine wp_seq (wp_refuseIf hv hleft) ?_
  rintro _ s l ⟨hv, hchanged⟩
  obtain ⟨-, hacked⟩ := hreceipt.moveReceipt (Option.some.inj hw) (not_not.mp hchanged)
  obtain ⟨generation, routes, hstate⟩ := callerBound_consistent hbound
  refine wp_mono (wp_commit (E := Holding (Abandoned c call o m)) lawful_freely hv
    (allows_freely _ _) ?_ ?_) ?_
  · exact covers_abandoned ⟨⟨_, hreceipt, .pending (hnotes.append rfl)⟩, hm⟩
  · refine covers_abandoned ⟨⟨_, hacked, .acknowledged ?_⟩, hm⟩
    show Spoiled (v.notes ++ [_])
    rw [Spoiled, hnotes.since _]
    decide
  · intro r s l h
    cases r with
    | error e => exact h
    | ok a =>
      refine ⟨v.committed w .acknowledge false,
        ⟨⟨hacked, ⟨generation, routes, ?_⟩, hm⟩, v.notes, hnotes, rfl⟩, h⟩
      show stateInTransaction c w = _
      rw [show w = (v.stores.db.updateState call.pending .callerAcknowledged).1 from
        congrArg Prod.fst (Option.some.inj hw).symm, stateInTransaction_updateState]
      exact hstate

/-- `_acknowledge` under the projection lock. -/
theorem wp_acknowledgeBody (hreceipt : Receipted c call o .publishedPendingCaller v.stores)
    (hnotes : Unacknowledging v.notes) (hm : v.memory = m) (hv : At v s l) :
    wp freely (c.acknowledgeBody call)
      (Ends (fun _ => Holding (Committed c call o m)) (Holding (Abandoned c call o m))) s l := by
  have hleft : ∀ written, Covers (Holding (Abandoned c call o m)) { v with written } := fun written =>
    covers_abandoned ⟨⟨_, hreceipt, .pending hnotes⟩, hm⟩
  have hC := lawful_freely
  refine wp_seq (wp_authority hC hv (hleft _)) ?_
  rintro _ s l ⟨hv, -⟩
  refine wp_seq (wp_bound hv (hleft _)) ?_
  rintro _ s l ⟨hv, -⟩
  refine wp_seq (wp_renamed (wp_decide hC hv (hleft _))) ?_
  intro allowed s l hv
  refine wp_seq (wp_authority hC hv (hleft _)) ?_
  rintro _ s l ⟨hv, -⟩
  refine wp_seq (wp_renamed (wp_writeAudit hC hv (hleft _) _)) ?_
  intro _ s l hv
  refine wp_seq (wp_refuseIf hv (hleft _)) ?_
  rintro _ s l ⟨hv, -⟩
  exact wp_transaction hC hv (hleft _) (loose_holding loosely_abandoned) fun s l hv =>
    wp_commitAcknowledge (v := v.audited _) hreceipt hnotes hm hv

/-- The receipt outside of the lock. -/
def Loses (c : Coordinator) (call : CreateCall) (o : Stores) (m : Memory) (s : Shared) (l : Process) :
    Prop :=
  ∃ v, Abandoned c call o m v ∧ s.stores = v.stores ∧ l.memory = v.memory ∧ l.notes = v.notes

theorem Abandoned.released (h : Abandoned c call o m v) {effect raised : Bool}
    (hk : Knows (v.released effect raised) s l) : Loses c call o m s l := by
  obtain ⟨st, hreceipt, hst⟩ := h.receipt
  exact ⟨v.released effect raised, ⟨⟨st, hreceipt, hst.append rfl⟩, h.memory⟩, hk.stores, hk.memory,
    hk.notes⟩

theorem Loses.remembered (h : Loses c call o m s l) (m' : Memory) :
    Loses c call o m' s { l with memory := m' } := by
  obtain ⟨v, hv, hstores, -, hnotes⟩ := h
  exact ⟨{ v with memory := m' }, ⟨hv.receipt, rfl⟩, hstores, rfl, hnotes⟩

/-- What `_acknowledge` starts from: the receipt of a create that has returned. -/
structure Awaits (c : Coordinator) (call : CreateCall) (o : Stores) (m : Memory) (s : Shared)
    (l : Process) : Prop where
  receipt : Receipted c call o .publishedPendingCaller s.stores
  notes : Unacknowledging l.notes
  memory : l.memory = m

/-- What it ends with when it returns. -/
structure Confirmed (c : Coordinator) (call : CreateCall) (o : Stores) (m : Memory) (s : Shared)
    (l : Process) : Prop where
  receipt : Acknowledged c call o m s.stores l.memory
  notes : Confirming l.notes

theorem Awaits.loses (h : Awaits c call o m s l) : Loses c call o m s l :=
  ⟨View.seen s l, ⟨⟨_, h.receipt, .pending h.notes⟩, h.memory⟩, rfl, rfl, rfl⟩

theorem outside_awaits : Outside freely (Awaits c call o m) :=
  outside_alone fun _ _ _ h => ⟨h.receipt, h.notes, h.memory⟩

theorem outside_loses : Outside freely (Loses c call o m) :=
  outside_alone fun _ _ _ h => h

/-- **`_acknowledge`.**  Whatever it raises, what it leaves of the receipt agrees with the
notes. -/
theorem wp_acknowledge (h : Awaits c call o m s l) :
    wp freely (c.acknowledge call) (Ends (fun _ => Confirmed c call o m) (Loses c call o m)) s l := by
  refine wp_bind (wp_peekOutside lawful_freely outside_awaits h _) ?_ fun _ _ _ h => h.elim
  intro current s l h
  refine wp_bind (wp_refuseIfOutside h) ?_ fun _ _ _ h => h.loses
  rintro _ s l ⟨h, -⟩
  refine wp_exclusive lawful_freely outside_awaits h (fun _ _ h => h.loses)
    (G := fun v => Receipted c call o .publishedPendingCaller v.stores ∧ Unacknowledging v.notes ∧
      v.memory = m)
    (K := fun _ => Committed c call o m) (F := Abandoned c call o m)
    (fun s l h => ⟨h.receipt, h.notes, h.memory⟩) loosely_abandoned
    (fun v h => ⟨⟨_, h.1, .pending h.2.1⟩, h.2.2⟩) ?_ ?_ ?_ ?_
  · rintro v s l ⟨hreceipt, hnotes, hm⟩ hv
    exact wp_acknowledgeBody hreceipt hnotes hm hv
  · rintro _ v s l ⟨hreceipt, before, hbefore, hnotes⟩ hk
    refine ⟨⟨hk.stores ▸ hreceipt.receipt, hk.stores ▸ hreceipt.consistent,
      hk.memory.trans hreceipt.memory⟩, before, hbefore, ?_⟩
    rw [hk.notes, View.released, hnotes]
    simp
  · rintro _ v effect s l ⟨hreceipt, before, hbefore, hnotes⟩ hk
    refine ⟨v.released effect true, ⟨⟨_, hreceipt.receipt, .acknowledged ?_⟩, hreceipt.memory⟩,
      hk.stores, hk.memory, hk.notes⟩
    show Spoiled (v.notes ++ [_])
    rw [hnotes, List.append_assoc, Spoiled, hbefore.since _]
    cases effect <;> decide
  · intro v effect raised s l h hk
    exact h.released hk

/-! ## The cleanup -/

/-- The transaction of `_quarantine`. -/
theorem wp_commitQuarantine (h : Abandoned c call o m v) (hv : At (v.within v.stores.db) s l) :
    wp freely (c.commitQuarantine call)
      (Ends (fun _ => Holding (Abandoned c call o m)) (Holding (Abandoned c call o m))) s l := by
  have hleft := covers_abandoned h
  obtain ⟨st, hreceipt, hst⟩ := h.receipt
  refine wp_seq (wp_bound hv hleft) ?_
  rintro _ s l ⟨hv, -⟩
  refine wp_seq (wp_execute lawful_freely hv hleft _) ?_
  rintro changed s l ⟨w, hw, hv⟩
  refine wp_seq (wp_refuseIf hv hleft) ?_
  rintro _ s l ⟨hv, hchanged⟩
  obtain ⟨rfl, hmoved⟩ := hreceipt.moveReceipt (Option.some.inj hw) (not_not.mp hchanged)
  have hplain : Unacknowledging v.notes := by cases hst; assumption
  have hdone : ∀ raised, Abandoned c call o m (v.committed w .quarantine raised) := fun raised =>
    ⟨⟨_, hmoved, .quarantined (hplain.append rfl)⟩, h.memory⟩
  refine wp_mono (wp_commit (E := Holding (Abandoned c call o m)) lawful_freely hv
    (allows_freely _ _) ?_ (covers_abandoned (hdone true))) ?_
  · exact covers_abandoned ⟨⟨_, hreceipt, hst.append rfl⟩, h.memory⟩
  · intro r s l h
    cases r with
    | error e => exact h
    | ok a => exact ⟨v.committed w .quarantine false, hdone false, h⟩

/-- **`_quarantine`.**  It moves a pending receipt only. -/
theorem wp_quarantine (h : Loses c call o m s l) :
    wp freely (c.quarantine call) (fun _ => Loses c call o m) s l := by
  have hC := lawful_freely
  suffices hends : wp freely (c.quarantine call)
      (Ends (fun _ => Loses c call o m) (Loses c call o m)) s l from
    wp_mono hends fun r s l h => by cases r <;> exact h
  refine wp_bind (wp_peekOutside hC outside_loses h _) ?_ fun _ _ _ h => h.elim
  intro current s l h
  refine wp_bind (wp_refuseIfOutside h) ?_ fun _ _ _ h => h
  rintro _ s l ⟨h, -⟩
  refine wp_bind (P := fun _ => Loses c call o m) ?_ ?_ fun _ _ _ h => h
  · refine wp_mono (wp_attempt (wp_renamed (wp_writeAuditOutside hC outside_loses h fun _ _ _ h => h))) ?_
    intro r s l h
    cases r with
    | error e => exact h
    | ok found => cases found <;> exact h
  intro _ s l h
  refine wp_exclusive hC outside_loses h (fun _ _ h => h) (G := Abandoned c call o m)
    (K := fun _ => Abandoned c call o m) (F := Abandoned c call o m) ?_ loosely_abandoned
    (fun _ h => h) ?_ (fun _ _ _ _ h hk => h.released hk) (fun _ _ _ _ _ h hk => h.released hk)
    fun _ _ _ _ _ h hk => h.released hk
  · rintro s l ⟨v, hv, h1, h2, h3⟩
    exact ⟨by simpa [View.seen, h1, h3] using hv.receipt, h2.trans hv.memory⟩
  · intro v s l h hv
    refine wp_seq (wp_bound hv (covers_abandoned h)) ?_
    rintro _ s l ⟨hv, -⟩
    exact wp_transaction hC hv (covers_abandoned h) (loose_holding loosely_abandoned)
      fun s l hv => wp_commitQuarantine h hv

/-! ## The preparation -/

/-- The stores and the notes of a preparation that started from `o` and raised. -/
def PrepareLeaves (c : Coordinator) (call : CreateCall) (o : Stores) (s : Shared) (l : Process) :
    Prop :=
  (CreateLeaves c .overlay call o s.stores ∧ Unacknowledging l.notes) ∨
    ∃ m, Loses c call o m s l

/-- **The preparation while it holds its receipt.** -/
theorem wp_preparing {receipt : Receipt} (h : Awaits c call o m s l) :
    wp freely (c.preparing call receipt) (Ends (fun _ s l => ∃ m, Confirmed c call o m s l)
      (fun s l => ∃ m, Loses c call o m s l)) s l := by
  have hC := lawful_freely
  refine wp_onError (P := Ends (fun _ s l => ∃ m, Confirmed c call o m s l)
    (fun s l => ∃ m, Loses c call o m s l)) ?_ (fun _ _ _ h => h) ?_
  · refine wp_bind (wp_askOutside hC outside_awaits h) ?_ fun _ _ _ h => ⟨m, h.loses⟩
    intro _ s l h
    refine wp_bind (wp_remember (E := fun _ _ => False) (P := fun s l => ∃ m, Awaits c call o m s l)
      outside_awaits h (fun _ _ _ => free_step _ _ _) fun s l h => ⟨_, h.receipt, h.notes, rfl⟩)
      ?_ fun _ _ _ h => h.elim
    rintro _ s l ⟨m, h⟩
    refine wp_bind (wp_acknowledge h) ?_ fun _ _ _ h => ⟨m, h⟩
    intro _ s l h
    exact wp_return ⟨m, h⟩
  · rintro e s l ⟨m, h⟩
    refine wp_bind (wp_remember (E := fun _ _ => False) (P := fun s l => ∃ m, Loses c call o m s l)
      outside_loses h (fun _ _ _ => free_step _ _ _) ?_) ?_ fun _ _ _ h => h.elim
    · exact fun s l h => ⟨_, h.remembered _⟩
    · rintro _ s l ⟨m, h⟩
      refine wp_mono (wp_swallow (wp_quarantine h)) ?_
      intro r s l h
      cases r with
      | ok a => exact ⟨m, h⟩
      | error e => exact h.elim

/-- The commits of a create acknowledge nothing. -/
theorem wp_createUnacknowledging {Q : Except Raised Receipt → Shared → Process → Prop}
    (h : wp freely (c.create .overlay call) Q s l) (hl : Unacknowledging l.notes) :
    wp freely (c.create .overlay call) (fun r s l => Q r s l ∧ Unacknowledging l.notes) s l := by
  have hcommits : Sparing id [.stage, .verify, .settle, .release] (c.create .overlay call) :=
    spares_create c .overlay call fun _ h => h
  have hstays : ∀ s s' l, freely.rely l s s' → Unacknowledging l.notes → Unacknowledging l.notes :=
    fun _ _ _ _ h => h
  refine wp_and_each (J := fun _ l => Unacknowledging l.notes) hstays ?_
    hcommits h hl
  intro β a ha f s l hl n hn
  rcases (ha f s l).2 n hn with hn | hn
  · exact hl n hn
  · unfold Note.acknowledges
    simp only [List.mem_cons, List.not_mem_nil, or_false] at hn
    rcases hn with h | h | h | h <;> rw [h] <;> rfl

/-- `create` as the preparation calls it. -/
theorem wp_createOverlay (h : s.stores = o ∧ Unacknowledging l.notes) :
    wp freely (c.create .overlay call)
      (Ends (fun _ s l => Awaits c call o l.memory s l) (PrepareLeaves c call o)) s l := by
  have hcreate : wp freely (c.create .overlay call)
      (Ends (fun _ s _ => Receipted c call o .publishedPendingCaller s.stores)
        (fun s _ => CreateLeaves c .overlay call o s.stores)) s l := by
    refine wp_create (R := fun s _ => s.stores = o) lawful_freely (outside_alone fun _ _ _ h => h)
      (outside_alone fun _ _ _ h => h) ?_ (fun _ _ _ _ h => h) (fun _ _ _ _ _ _ _ => allows_freely _ _)
      ?_ ?_ h.1
    · intro s l h
      exact h ▸ .same
    · rintro s₀ l₀ v s l rfl hdone - hk
      exact hk.stores ▸ hdone.done
    · rintro s₀ l₀ v _ _ s l rfl hleaves - hk
      exact hk.stores ▸ hleaves
  refine wp_mono (wp_createUnacknowledging hcreate h.2) ?_
  rintro r s l ⟨hr, hl⟩
  cases r with
  | ok receipt => exact ⟨hr, hl, rfl⟩
  | error e => exact .inl ⟨hr, hl⟩

/-- **`prepare`.** -/
theorem wp_prepare {identity : RequestIdentity} (h : s.stores = o ∧ Unacknowledging l.notes) :
    wp freely (c.prepare call identity) (Ends (fun _ s l => ∃ m, Confirmed c call o m s l)
      (PrepareLeaves c call o)) s l := by
  have hC := lawful_freely
  let R : Shared → Process → Prop := fun s l => s.stores = o ∧ Unacknowledging l.notes
  have hR : Outside freely R := outside_alone fun _ _ _ h => h
  have hleaves : ∀ (e : Raised) s l, R s l → PrepareLeaves c call o s l :=
    fun _ s l h => .inl ⟨h.1 ▸ .same, h.2⟩
  refine wp_bind (wp_refuseIfOutside (R := R) h) ?_ hleaves
  rintro _ s l ⟨h, -⟩
  refine wp_bind (wp_askOutside hC hR h) ?_ hleaves
  intro _ s l h
  refine wp_bind (wp_askOutside hC hR h) ?_ hleaves
  intro _ s l h
  have hbody : wp freely (do
      ask
      let receipt ← renamed (c.create .overlay call) (asMandatory "session_create_failed")
      refuseIf (receipt.state ≠ .publishedPendingCaller ∨ receipt.dispatchAllowed)
        "governance.caller_receipt_invalid"
      .perform (Act.remember fun m =>
        { m with callerCurrent := some call.descriptor, callerPhase := .preparing })
      c.preparing call receipt) (Ends (fun _ s l => ∃ m, Confirmed c call o m s l)
      (PrepareLeaves c call o)) s l := by
    refine wp_bind (wp_askOutside hC hR h) ?_ hleaves
    intro _ s l h
    refine wp_bind (wp_renamed (wp_createOverlay h)) ?_ fun _ _ _ h => h
    intro receipt s l h
    refine wp_bind (wp_refuseIfOutside h) ?_ fun _ _ _ h => .inr ⟨_, h.loses⟩
    rintro _ s l ⟨h, -⟩
    refine wp_bind (wp_remember (E := fun _ _ => False) (P := fun s l => Awaits c call o l.memory s l)
      (outside_alone fun _ _ _ h => ⟨h.receipt, h.notes, rfl⟩) h (fun _ _ _ => free_step _ _ _)
      fun s l h => ⟨h.receipt, h.notes, rfl⟩) ?_ fun _ _ _ h => h.elim
    intro _ s l h
    refine wp_mono (wp_preparing h) ?_
    intro r s l h
    cases r with
    | ok receipt => exact h
    | error e => exact .inr h
  refine wp_ensuringRemember hbody (fun r => outside_alone fun s l p h => ?_)
    (fun _ _ => free_step _ _ _) ?_
  · cases r with
    | ok receipt =>
      obtain ⟨m, h⟩ := h
      exact ⟨m, h.receipt, h.notes⟩
    | error e => exact h
  · intro r s l h
    cases r with
    | ok receipt =>
      obtain ⟨m, h⟩ := h
      exact ⟨_, ⟨h.receipt.receipt, h.receipt.consistent, rfl⟩, h.notes⟩
    | error e =>
      rcases h with h | ⟨m, h⟩
      · exact .inl h
      · exact .inr ⟨_, h.remembered _⟩

end

end ProjectMaya
