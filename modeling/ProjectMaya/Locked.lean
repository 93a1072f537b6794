import ProjectMaya.OwnedReader

/-! # Code that looks, and code that settles its own transition

The preparations are made of pieces that only look at the tables (`wp_permit`, `wp_bound…`)
and of pieces that publish the projection of the tables or move the state of the newest
transition (`OwnMove`).  Of the memory of the process only a property is kept (`Locked`,
`Recalls`), so that the same rules serve every call. -/

namespace ProjectMaya

open Logic

/-- The lock is held, by a process whose memory has the property. -/
def Locked (K : Memory → Prop) : Shared → Process → Prop := Holding fun v => K v.memory

/-- The memory of the process has the property. -/
def Recalls (K : Memory → Prop) (_ : Shared) (l : Process) : Prop := K l.memory

/-- And its connection has no open transaction. -/
def Idle (K : Memory → Prop) (_ : Shared) (l : Process) : Prop := K l.memory ∧ l.tx = none

/-- The transition is the newest one, and all others are acknowledged. -/
def Newest (db : Db) (id : String) : Prop :=
  ∃ t p, db.transitions.find? id = some t ∧ db.projection = some p ∧ t.generation = p.generation ∧
    db.othersAcknowledged id = true

/-- The index file holds the projection of the tables. -/
def Mirrored (c : Coordinator) (x : Stores) : Prop :=
  ∃ generation routes, stateInTransaction c x.db = .ok (generation, routes, x.index)

/-- What the preparation of the transition `id` does to the stores besides staging its rows:
it publishes the projection of the tables, and moves the state of the transition. -/
inductive OwnMove (c : Coordinator) (id : String) (v : View) : Stores → Prop
  | published {generation : Int} {routes : Routes} {raw : Bytes} :
      stateInTransaction c v.stores.db = .ok (generation, routes, raw) → Newest v.stores.db id →
      OwnMove c id v { v.stores with index := raw }
  | settled {p : Transition → Bool} {st : TransitionState} {changed : Nat} {w : Db} :
      Newest v.stores.db id → Mirrored c v.stores → (∀ t, p t = true → t.correlationId = id) →
      v.stores.db.updateState p st = (w, changed) → OwnMove c id v { v.stores with db := w }

variable {C : Contract Shared Process} {c : Coordinator} {v : View} {s : Shared} {l : Process}
  {E : Shared → Process → Prop} {K : Memory → Prop} {α β : Type}

theorem outside_idle : Outside C (Idle K) := ⟨fun _ _ _ _ h => h, fun _ _ _ h => h⟩

theorem outside_recalls : Outside C (Recalls K) := ⟨fun _ _ _ _ h => h, fun _ _ _ h => h⟩

theorem loosely_recalls : Loosely fun v => K v.memory := fun _ _ _ h => h

theorem covers_locked (h : K v.memory) : Covers (Locked K) v := covers_holding loosely_recalls h

theorem loose_locked : Loose (Locked K) := loose_holding loosely_recalls

/-- A view without what it knows of the audit trail. -/
theorem At.forget {r : AuditRecord} (h : At (v.audited r) s l) : At v s l :=
  ⟨⟨h.stores, h.tx, h.temp, h.memory, h.notes, fun x hx => h.written x (List.mem_cons_of_mem r hx)⟩,
    h.lock⟩

theorem Covers.audited {r : AuditRecord} (h : Covers E v) : Covers E (v.audited r) :=
  fun tx temp s l hv => h tx temp s l (At.forget (r := r) hv)

/-! ## Looking -/

theorem wp_permit {record : Bool → AuditRecord} {denied : String} (hC : Lawful C) (hv : At v s l)
    (hE : Covers E v) : wp C (permit record denied) (Ends (fun _ s l => At v s l) E) s l := by
  refine wp_seq (wp_renamed (wp_decide hC hv hE)) ?_
  intro allowed s l hv
  refine wp_seq (wp_renamed (wp_writeAudit hC hv hE (record allowed))) ?_
  intro _ s l hv
  refine wp_mono (wp_refuseIf hv hE.audited) ?_
  intro r s l h
  cases r with
  | ok a => exact h.1.forget
  | error e => exact h

theorem wp_permitAll {permits : List (Code Unit)} {check : Code Unit} (hv : At v s l)
    (hcheck : ∀ s l, At v s l → wp C check (Ends (fun _ s l => At v s l) E) s l)
    (hpermits : ∀ p ∈ permits, ∀ s l, At v s l → wp C p (Ends (fun _ s l => At v s l) E) s l) :
    wp C (permitAll permits check) (Ends (fun _ s l => At v s l) E) s l := by
  induction permits generalizing s l with
  | nil => exact wp_return hv
  | cons p permits ih =>
    refine wp_seq (hpermits p List.mem_cons_self s l hv) ?_
    intro _ s l hv
    refine wp_seq (hcheck s l hv) ?_
    intro _ s l hv
    exact ih hv fun q hq => hpermits q (List.mem_cons_of_mem p hq)

/-- An audit of a preparation. -/
theorem wp_audit {r : AuditRecord} {f : Raised → Raised} (hC : Lawful C) (hv : At v s l)
    (hE : Covers E v) :
    wp C (renamed (.perform (Act.writeAudit r)) f) (Ends (fun _ s l => At v s l) E) s l := by
  refine wp_mono (wp_renamed (wp_writeAudit hC hv hE r)) ?_
  intro r s l h
  cases r with
  | ok a => exact At.forget h
  | error e => exact h

/-! ## Under the lock -/

/-- The process remembers something while it holds the lock. -/
theorem wp_rememberLocked {f : Memory → Memory} (hC : Lawful C) (h : Locked K s l)
    (hg : ∀ s l, C.guar s l s { l with memory := f l.memory }) (hf : ∀ m, K m → K (f m)) :
    wp C (.perform (Act.remember f)) (Ends (fun _ => Locked K) E) s l := by
  obtain ⟨v, hm, hv⟩ := h
  refine wp_perform fun s' hr fault => ⟨hg _ _, { v with memory := f v.memory }, hf _ hm, ?_⟩
  have hv := hv.rely hC hr
  exact ⟨⟨hv.stores, hv.tx, hv.temp, congrArg f hv.memory, hv.notes, hv.written⟩, hv.lock⟩

theorem wp_transactionLocked {body : Code α} {P : α → Shared → Process → Prop} (hC : Lawful C)
    (h : Locked K s l)
    (hbody : ∀ (v : View) s l, K v.memory → At (v.within v.stores.db) s l → wp C body (Ends P (Locked K)) s l) :
    wp C (transaction body) (Ends P (Locked K)) s l := by
  obtain ⟨v, hm, hv⟩ := h
  exact wp_transaction hC hv (covers_locked hm) loose_locked fun s l hv => hbody v s l hm hv

theorem wp_commitLocked {w : Db} {purpose : Purpose} (hC : Lawful C) (hm : K v.memory)
    (hv : At (v.within w) s l) (hallow : Allows C (v.within w) { v.stores with db := w }) :
    wp C (.perform (Act.commit purpose))
      (Ends (fun _ => Holding fun v => K v.memory ∧ v.tx = none) (Locked K)) s l := by
  refine wp_mono (wp_commit (E := Locked K) hC hv hallow (covers_locked hm) (covers_locked hm)) ?_
  intro r s l h
  cases r with
  | ok a => exact ⟨v.committed w purpose false, ⟨hm, rfl⟩, h⟩
  | error e => exact h

theorem wp_publishLocked {pf : Profile} {id : String} {generation : Int} {routes : Routes}
    {raw : Bytes} (hC : Lawful C) (hown : ∀ v x, OwnMove c id v x → Allows C v x) (hm : K v.memory)
    (hv : At v s l) (hraw : stateInTransaction c v.stores.db = .ok (generation, routes, raw))
    (hnewest : Newest v.stores.db id) :
    wp C (publish pf raw) (Ends (fun _ => Locked K) (Locked K)) s l := by
  refine wp_mono (wp_publish hC hv (hown _ _ (.published hraw hnewest)) (covers_locked hm) (covers_locked hm)
    loose_locked) ?_
  intro r s l h
  cases r with
  | ok a => exact ⟨{ v.replaced raw with temp := none }, hm, h⟩
  | error e => exact h

/-- The lock around a body.  `I` is known of the memory and the transaction before, `J` when
the body has returned, and `K` in any case. -/
theorem wp_exclusiveKeeping {body : Code α} {I : Memory → Option Db → Prop}
    {J : α → Memory → Option Db → Prop} (hC : Lawful C) (hI : ∀ m tx, I m tx → K m)
    (hJ : ∀ a m tx, J a m tx → K m) (h : I l.memory l.tx)
    (hbody : ∀ (v : View) s l, I v.memory v.tx → At v s l →
      wp C body (Ends (fun a => Holding fun v => J a v.memory v.tx) (Locked K)) s l) :
    wp C (exclusive body) (Ends (fun a _ l => J a l.memory l.tx) (Recalls K)) s l := by
  have hR : Outside C fun _ l => I l.memory l.tx := ⟨fun _ _ _ _ h => h, fun _ _ _ h => h⟩
  refine wp_exclusive hC hR h (fun _ l h => hI _ _ h) (G := fun v => I v.memory v.tx)
    (K := fun a v => J a v.memory v.tx) (F := fun v => K v.memory) (fun _ _ h => h)
    loosely_recalls (fun v h => hI _ _ h) hbody ?_ ?_ ?_
  · intro a v s l hk hknows
    have hm : l.memory = v.memory := hknows.memory
    have htx : l.tx = v.tx := hknows.tx
    rw [hm, htx]
    exact hk
  · intro a v effect s l hk hknows
    exact (congrArg K hknows.memory).mpr (hJ a _ _ hk)
  · intro v effect raised s l hk hknows
    exact (congrArg K hknows.memory).mpr hk

theorem wp_exclusiveLocked {body : Code α} {Q : α → Memory → Prop} (hC : Lawful C)
    (hQ : ∀ a m, Q a m → K m) (h : Recalls K s l)
    (hbody : ∀ s l, Locked K s l → wp C body (Ends (fun a => Locked (Q a)) (Locked K)) s l) :
    wp C (exclusive body) (Ends (fun a => Recalls (Q a)) (Recalls K)) s l :=
  wp_exclusiveKeeping (I := fun m _ => K m) (J := fun a m _ => Q a m) hC (fun _ _ h => h)
    (fun a m _ h => hQ a m h) h fun v s l hm hv => hbody s l ⟨v, hm, hv⟩

/-! ## The state of a transition -/

theorem newest_of_receipt {db : Db} {generation : Int} {routes : Routes} {raw : Bytes} {id : String}
    {t : Transition} (hstate : stateInTransaction c db = .ok (generation, routes, raw))
    (ht : db.transitions.find? id = some t) (hgeneration : t.generation = generation)
    (hothers : db.othersAcknowledged id = true) : Newest db id := by
  obtain ⟨p, hp, rfl, -, -⟩ := stateInTransaction_eq_ok.mp hstate
  exact ⟨t, p, ht, hp.projection, hgeneration, hothers⟩

/-- `_change` and `_quarantine`: the statement that moves the state of the newest transition,
and its commit. -/
theorem wp_settleOwn {id digest code : String} {source target : TransitionState} {purpose : Purpose}
    (hC : Lawful C) (hown : ∀ v x, OwnMove c id v x → Allows C v x) (hm : K v.memory)
    (hv : At (v.within v.stores.db) s l) (hnewest : Newest v.stores.db id)
    (hmirrored : Mirrored c v.stores) {check : Code Unit}
    (hcheck : ∀ (v : View) s l, K v.memory → At v s l →
      wp C check (Ends (fun _ s l => At v s l) (Locked K)) s l) :
    wp C (do
      let changed ← changeState id digest source target
      refuseIf (changed ≠ 1) code
      check
      .perform (Act.commit purpose) : Code Unit) (Ends (fun _ => Locked K) (Locked K)) s l := by
  refine wp_seq (wp_execute hC hv (covers_locked hm) _) ?_
  rintro changed s l ⟨w, hw, hv⟩
  refine wp_seq (wp_refuseIf hv (covers_locked (v := v.within w) hm)) ?_
  rintro _ s l ⟨hv, -⟩
  refine wp_seq (hcheck (v.within w) s l hm hv) ?_
  intro _ s l hv
  refine wp_mono (wp_commitLocked hC hm hv (hown _ _ ?_)) ?_
  · refine OwnMove.settled (v := v.within w) hnewest hmirrored ?_ (Option.some.inj hw)
    intro t ht
    simp only [Bool.and_eq_true, decide_eq_true_eq] at ht
    exact ht.1.1
  · intro r s l h
    cases r with
    | ok a =>
      obtain ⟨v, hm, hv⟩ := h
      exact ⟨v, hm.1, hv⟩
    | error e => exact h

end ProjectMaya
