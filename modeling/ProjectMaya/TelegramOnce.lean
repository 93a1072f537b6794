import ProjectMaya.Logic.Covenant
import ProjectMaya.Logic.History
import ProjectMaya.TelegramIntake

/-! # Each update is consumed once

The lock is held from before the mark is read until after `consume` has ended, and a call from
inside of a call finds it taken.  So what the holder knows of the shared state nobody else changes
(`Inside`), the mark grows with every update that is consumed, and a call that does not reach
`consume` has assigned nothing (`consumed_once`). -/

namespace ProjectMaya.Telegram

open Logic
open LocalApi (Exn)

def consumedId : Event → Option Int
  | .consumed entry => some entry.updateId
  | .wrote _ => none

/-- The updates that have reached `consume`, oldest first. -/
def consumedIds (events : List Event) : List Int := events.filterMap consumedId

/-- Whoever calls `consume` has passed all checks, has the identity bound that its user and chat are
mapped to, and its record was written before. -/
structure Entitles (intake : Intake) (before : List Event) (entry : Entry) : Prop where
  transport : Intake.Qualified intake.application intake.bot intake.botId entry.transport (some entry.context)
  update : ∃ last message userId chatId owner,
    updateChecks last entry.update = .ok (entry.updateId, message) ∧
      messageChecks message = .ok (userId, chatId, entry.request.text) ∧
      intake.owner userId chatId = some owner ∧ entry.identity = some owner ∧
      entry.request.identity = owner ∧
      .wrote (intakeRecord intake.botId owner userId chatId entry.updateId) ∈ before

def Entitled (intake : Intake) : List Event → Prop :=
  Justified fun before e => ∀ entry, e = .consumed entry → Entitles intake before entry

structure Inv (intake : Intake) (s : Shared) : Prop where
  ordered : (consumedIds s.events).Pairwise (· < ·)
  marked : ∀ id ∈ consumedIds s.events, id ≤ s.lastUpdate
  entitled : Entitled intake s.events
  alone : s.consuming = [] ∨ ∃ p, s.holder = some p ∧ s.consuming = [p]

/-- What a turn of a task may do. -/
structure Step (intake : Intake) (s : Shared) (t : Task) (s' : Shared) (t' : Task) : Prop where
  id : t'.id = t.id
  inv : Inv intake s'
  /-- Only the holder of the lock changes anything, or who takes it. -/
  free : s' = s ∨ s.holder = none ∨ s.holder = some t.id
  mark : s'.lastUpdate ≠ s.lastUpdate → t'.assigned = t.assigned ++ [s'.lastUpdate]

def contract (intake : Intake) : Contract Shared Task where
  rely t s s' := Inv intake s' ∧ (s.holder = some t.id → s' = s)
  guar := Step intake

section

variable {intake : Intake} {α β : Type} {s : Shared} {t : Task}

/-- The task holds the lock, and `J` holds. -/
structure Inside (J : Shared → Task → Prop) (s : Shared) (t : Task) : Prop where
  holder : s.holder = some t.id
  locked : t.locked = true
  rest : J s t

theorem Inside.mono {J K : Shared → Task → Prop} (h : Inside J s t) (hJK : J s t → K s t) : Inside K s t :=
  ⟨h.holder, h.locked, hJK h.rest⟩

/-- The rule for one action of the holder. -/
theorem wp_inside {act : Act β} {J : Shared → Task → Prop} {Q : Except Exn β → Shared → Task → Prop}
    (h : Inside J s t)
    (hact : ∀ c, Inv intake s → Inv intake (act.next c s t).2.1 ∧ (act.next c s t).2.2.id = t.id ∧
      ((act.next c s t).2.1.lastUpdate ≠ s.lastUpdate →
        (act.next c s t).2.2.assigned = t.assigned ++ [(act.next c s t).2.1.lastUpdate]) ∧
      Q (act.next c s t).1 (act.next c s t).2.1 (act.next c s t).2.2) :
    wp (contract intake) (.perform act) Q s t := by
  refine wp_perform ?_
  rintro s' ⟨hi, hsame⟩ c
  obtain rfl := hsame h.holder
  obtain ⟨hinv, hid, hmark, hq⟩ := hact c hi
  exact ⟨⟨hid, hinv, .inr (.inr h.holder), hmark⟩, hq⟩

/-- An action that changes nothing. -/
def Calm (act : Act β) : Prop := ∀ c s t, (act.next c s t).2 = (s, t)

theorem wp_calm {act : Act β} (hact : Calm act) {K : Task → Prop}
    {Q : Except Exn β → Shared → Task → Prop} (ht : K t)
    (hQ : ∀ c s, K t → Q (act.next c s t).1 s t) : wp (contract intake) (.perform act) Q s t := by
  refine wp_perform ?_
  rintro s' ⟨hi, -⟩ c
  rw [hact c s' t]
  exact ⟨⟨rfl, hi, .inl rfl, fun h => absurd rfl h⟩, hQ c s' ht⟩

theorem calm_ask (answer : Choice → Except Exn β) : Calm (Act.ask answer) := fun _ _ _ => rfl

/-- The holder asks, and knows as much as before. -/
theorem wp_ask {answer : Choice → Except Exn β} {J : Shared → Task → Prop} (h : Inside J s t) :
    wp (contract intake) (.perform (Act.ask answer)) (fun _ => Inside J) s t :=
  wp_inside h fun _ hi => ⟨hi, rfl, fun hne => absurd rfl hne, h⟩

/-- The calls that a callback will make. -/
theorem wp_asked {J : Shared → Task → Prop} (h : Inside J s t) :
    wp (contract intake) (.perform (Act.ask fun c => .ok c.reenter)) (Succeeds fun _ => Inside J) s t :=
  wp_inside h fun _ hi => ⟨hi, rfl, fun hne => absurd rfl hne, _, rfl, h⟩

theorem wp_done_bind {x : Except Exn β} {f : β → Code α} {Q : Except Exn α → Shared → Task → Prop}
    (hok : ∀ v, x = .ok v → wp (contract intake) (f v) Q s t) (herr : ∀ e, Q (.error e) s t) :
    wp (contract intake) (.done x >>= f) Q s t := by
  cases x with
  | ok v => exact hok v rfl
  | error e => exact herr e

/-! ## Calls from inside of a call -/

/-- While the lock is held, a call gives up. -/
theorem wp_handle_inside {inner : Update → Option Context → Code Unit} {update : Update}
    {context : Option Context} {J : Shared → Task → Prop} (h : Inside J s t) :
    wp (contract intake) (handle inner intake update context) (fun _ => Inside J) s t := by
  refine wp_done_bind (fun context _ => ?_) fun _ => h
  refine always_bind (wp_ask h) ?_ fun _ _ h => h
  intro transport s t h
  refine always_bind (wp_raiseIf (fun _ => h) fun _ => h) ?_ fun _ _ h => h
  intro _ s t h
  have hacquire : ∀ c, Act.acquire.next c s t =
      (.error (.boundary "governance.telegram_intake_busy"), s, t) := by
    intro c
    simp only [Act.acquire, h.holder]
  refine wp_bind (P := fun r s t => (∀ u, r ≠ .ok u) ∧ Inside J s t) ?_ ?_ fun _ _ _ h => h.2
  · refine wp_inside h fun c hi => ?_
    rw [hacquire]
    exact ⟨hi, rfl, fun hne => absurd rfl hne, nofun, h⟩
  · exact fun u _ _ h => absurd rfl (h.1 u)

/-- What a call from a callback does, while the lock is held. -/
def Refused (intake : Intake) (inner : Update → Option Context → Code Unit) : Prop :=
  ∀ update context (J : Shared → Task → Prop) s t, Inside J s t →
    wp (contract intake) (inner update context) (fun _ => Inside J) s t

theorem refused_call (depth : Nat) : Refused intake (call intake depth) := by
  intro update context J s t h
  cases depth <;> exact wp_handle_inside h

theorem wp_reenter {inner : Update → Option Context → Code Unit} (hinner : Refused intake inner)
    {calls : List (Update × Option Context)} {J : Shared → Task → Prop} (h : Inside J s t) :
    wp (contract intake) (reenter inner calls) (Succeeds fun _ => Inside J) s t := by
  induction calls generalizing s t with
  | nil => exact ⟨(), rfl, h⟩
  | cons item calls ih =>
    refine wp_andThen (wp_mono (hinner _ _ J s t h) ?_)
    exact fun _ s t h => ih h

/-! ## The steps of a call -/

/-- Nothing has been assigned, and nobody awaits `consume`. -/
structure Idle (s : Shared) (t : Task) : Prop where
  consuming : s.consuming = []
  assigned : t.assigned = []

/-- Nobody awaits `consume`, and where this call has not called it, it has assigned nothing. -/
structure Closed (s : Shared) (t : Task) : Prop where
  consuming : s.consuming = []
  assigned : t.consumed = false → t.assigned = []

theorem Idle.closed (h : Idle s t) : Closed s t := ⟨h.consuming, fun _ => h.assigned⟩

theorem consumedIds_wrote (events : List Event) (record : AuditRecord) :
    consumedIds (events ++ [.wrote record]) = consumedIds events := by
  simp [consumedIds, consumedId]

theorem consumedIds_consumed (events : List Event) (entry : Entry) :
    consumedIds (events ++ [.consumed entry]) = consumedIds events ++ [entry.updateId] := by
  simp [consumedIds, consumedId]

theorem Inv.wrote (hi : Inv intake s) (record : AuditRecord) :
    Inv intake { s with events := s.events ++ [.wrote record] } := by
  constructor
  · rw [consumedIds_wrote]
    exact hi.ordered
  · rw [consumedIds_wrote]
    exact hi.marked
  · refine Justified.snoc hi.entitled ?_
    intro entry he
    cases he
  · exact hi.alone

/-- The audit record is written, or nothing has happened. -/
theorem wp_auditWrite {inner : Update → Option Context → Code Unit} (hinner : Refused intake inner)
    {record : AuditRecord} {last : Int} (h : Inside (fun s t => Idle s t ∧ s.lastUpdate = last) s t) :
    wp (contract intake) (auditWrite inner record) (fun r => Inside fun s t =>
      (Idle s t ∧ s.lastUpdate = last) ∧ (r = .ok () → .wrote record ∈ s.events)) s t := by
  refine succeeds_bind (wp_asked h) fun calls s t h => ?_
  refine succeeds_bind (wp_reenter hinner h) fun _ s t h => ?_
  refine wp_inside h fun c hi => ?_
  cases ha : c.audit with
  | ok u =>
    have hnext : (Act.write record).next c s t =
        (.ok (), { s with events := s.events ++ [.wrote record] }, t) := by simp only [Act.write, ha]
    rw [hnext]
    refine ⟨hi.wrote record, rfl, fun hne => absurd rfl hne,
      ⟨h.holder, h.locked, ⟨⟨h.rest.1.consuming, h.rest.1.assigned⟩, h.rest.2⟩, fun _ => ?_⟩⟩
    exact List.mem_append_right _ (List.mem_singleton_self _)
  | error e =>
    have hnext : (Act.write record).next c s t = (.error e, s, t) := by simp only [Act.write, ha]
    rw [hnext]
    exact ⟨hi, rfl, fun hne => absurd rfl hne, h.mono fun hj => ⟨hj, nofun⟩⟩

/-- The update has been marked, its record was written, and `consume` is not called yet. -/
structure Marked (updateId : Int) (record : AuditRecord) (s : Shared) (t : Task) : Prop where
  consuming : s.consuming = []
  earlier : ∀ id ∈ consumedIds s.events, id < updateId
  mark : s.lastUpdate = updateId
  wrote : .wrote record ∈ s.events

theorem wp_assignMark {updateId last : Int} {record : AuditRecord} (hlast : last < updateId)
    (h : Inside (fun s t => (Idle s t ∧ s.lastUpdate = last) ∧ .wrote record ∈ s.events) s t) :
    wp (contract intake) (.perform (Act.assignMark updateId))
      (Succeeds fun _ => Inside (Marked updateId record)) s t := by
  refine wp_inside h fun c hi => ?_
  obtain ⟨⟨hidle, hmark⟩, hwrote⟩ := h.rest
  have hearlier : ∀ id ∈ consumedIds s.events, id < updateId := by
    intro id hid
    have hle := hi.marked id hid
    omega
  refine ⟨⟨hi.ordered, fun id hid => ?_, hi.entitled, hi.alone⟩, rfl, fun _ => rfl, (), rfl,
    ⟨h.holder, h.locked, hidle.consuming, hearlier, rfl, hwrote⟩⟩
  exact Int.le_of_lt (hearlier id hid)

/-- The identity is bound as well. -/
structure Bound (updateId : Int) (record : AuditRecord) (owner : RequestIdentity) (s : Shared) (t : Task) :
    Prop extends Marked updateId record s t where
  identity : t.identity = some owner

/-- `consume` is called, with all that entitles it. -/
theorem wp_enterConsume {entry : Option RequestIdentity → Entry} {owner : RequestIdentity}
    {updateId : Int} {record : AuditRecord} (hid : (entry (some owner)).updateId = updateId)
    (hentry : ∀ before, .wrote record ∈ before → Entitles intake before (entry (some owner)))
    (h : Inside (Bound updateId record owner) s t) :
    wp (contract intake) (.perform (Act.enterConsume entry))
      (Succeeds fun _ => Inside fun s t => s.consuming = [t.id] ∧ t.consumed = true) s t := by
  refine wp_inside h fun c hi => ?_
  have hb := h.rest
  have hnext : (Act.enterConsume entry).next c s t =
      (.ok (), { s with
        consuming := [t.id], events := s.events ++ [.consumed (entry (some owner))] },
        { t with consumed := true }) := by
    simp only [Act.enterConsume, hb.identity, hb.consuming]
  rw [hnext]
  refine ⟨⟨?_, ?_, ?_, .inr ⟨t.id, h.holder, rfl⟩⟩, rfl, fun hne => absurd rfl hne, (), rfl,
    h.holder, h.locked, rfl, rfl⟩
  · rw [consumedIds_consumed, hid, List.pairwise_append]
    refine ⟨hi.ordered, List.pairwise_singleton _ _, ?_⟩
    intro a ha b hb'
    rw [List.mem_singleton.1 hb']
    exact hb.earlier a ha
  · rw [consumedIds_consumed, hid]
    intro a ha
    show a ≤ s.lastUpdate
    rw [hb.mark]
    rcases List.mem_append.1 ha with ha | ha
    · exact Int.le_of_lt (hb.earlier a ha)
    · rw [List.mem_singleton.1 ha]
  · refine hi.entitled.snoc ?_
    rintro _ ⟨⟩
    exact hentry _ hb.wrote

theorem wp_consume {inner : Update → Option Context → Code Unit} (hinner : Refused intake inner)
    {entry : Option RequestIdentity → Entry} {owner : RequestIdentity} {updateId : Int}
    {record : AuditRecord} (hid : (entry (some owner)).updateId = updateId)
    (hentry : ∀ before, .wrote record ∈ before → Entitles intake before (entry (some owner)))
    (h : Inside (Bound updateId record owner) s t) :
    wp (contract intake) (consume inner entry) (fun _ => Inside Closed) s t := by
  refine succeeds_bind (wp_enterConsume hid hentry h) fun _ s t h => ?_
  refine succeeds_bind (wp_asked h) fun calls s t h => ?_
  refine succeeds_bind (wp_reenter hinner h) fun _ s t h => ?_
  refine wp_inside h fun c hi => ?_
  have hnext : Act.leaveConsume.next c s t = (c.consume, { s with consuming := [] }, t) := by
    simp only [Act.leaveConsume, h.rest.1, List.erase_cons_head]
  rw [hnext]
  refine ⟨⟨hi.ordered, hi.marked, hi.entitled, .inl rfl⟩, rfl, fun hne => absurd rfl hne,
    h.holder, h.locked, rfl, fun hno => ?_⟩
  rw [h.rest.2] at hno
  cases hno

/-- What is mapped was checked, so its identity can be bound. -/
theorem owner_valid {userId chatId : Int} {owner : RequestIdentity}
    (h : intake.owner userId chatId = some owner) :
    requestIdentity owner.actorId owner.dataClassification = .ok owner := by
  unfold Intake.owner at h
  obtain ⟨item, hitem, rfl⟩ := Option.map_eq_some_iff.1 h
  exact intake.valid item (List.mem_of_find?_eq_some hitem)

/-- `bind_request_identity` of an owner. -/
theorem wp_bindRequestIdentity {owner : RequestIdentity} {updateId : Int} {record : AuditRecord}
    {body : Code Unit} (hvalid : requestIdentity owner.actorId owner.dataClassification = .ok owner)
    (hbody : ∀ s t, Inside (Bound updateId record owner) s t →
      wp (contract intake) body (fun _ => Inside Closed) s t)
    (h : Inside (Marked updateId record) s t) :
    wp (contract intake) (bindRequestIdentity owner body) (fun _ => Inside Closed) s t := by
  unfold bindRequestIdentity Intake.checked
  rw [hvalid]
  show wp (contract intake) (.perform (Act.setIdentity owner) >>= fun token =>
    Prog.ensuring body (.perform (Act.resetIdentity token))) _ s t
  refine succeeds_bind (P := fun _ => Inside (Bound updateId record owner)) ?_ fun token s t h => ?_
  · refine wp_inside h fun c hi => ⟨hi, rfl, fun hne => absurd rfl hne, _, rfl, ?_⟩
    exact ⟨h.holder, h.locked, ⟨h.rest.consuming, h.rest.earlier, h.rest.mark, h.rest.wrote⟩, rfl⟩
  · refine always_ensuring (hbody s t h) fun s t h => ?_
    refine wp_inside h fun c hi => ⟨hi, rfl, fun hne => absurd rfl hne, h.holder, h.locked, ?_⟩
    exact ⟨h.rest.consuming, h.rest.assigned⟩

/-- What follows the checks. -/
theorem wp_admitUpdate {inner : Update → Option Context → Code Unit} (hinner : Refused intake inner)
    {transport : Transport} {context : Context} {update : Update} {last updateId userId chatId : Int}
    {message : Message} {text : String} {owner : RequestIdentity}
    (htransport : Intake.Qualified intake.application intake.bot intake.botId transport (some context))
    (hupdate : updateChecks last update = .ok (updateId, message))
    (hmessage : messageChecks message = .ok (userId, chatId, text))
    (howner : intake.owner userId chatId = some owner) (hlast : last < updateId)
    (h : Inside (fun s t => (Idle s t ∧ t.consumed = false) ∧ s.lastUpdate = last) s t) :
    wp (contract intake)
      (admitUpdate inner intake transport context update updateId owner userId chatId text)
      (fun _ => Inside Closed) s t := by
  have hidle : ∀ s t, Inside (fun s t => Idle s t ∧ s.lastUpdate = last) s t → Inside Closed s t :=
    fun _ _ h => h.mono fun hj => hj.1.closed
  have h : Inside (fun s t => Idle s t ∧ s.lastUpdate = last) s t := h.mono fun hj => ⟨hj.1.1, hj.2⟩
  refine wp_bind (wp_ask h) (fun requestId s t h => ?_) fun _ => hidle
  have hwrite : wp (contract intake) (Prog.mapError (auditWrite inner
        (intakeRecord intake.botId owner userId chatId updateId)) fun e => pure (auditError e))
      (fun r => Inside fun s t => (Idle s t ∧ s.lastUpdate = last) ∧
        (r = .ok () → .wrote (intakeRecord intake.botId owner userId chatId updateId) ∈ s.events)) s t :=
    wp_mapError (wp_auditWrite hinner h) (fun _ _ _ h => h) fun e s t h => h.mono fun hj => ⟨hj.1, nofun⟩
  refine wp_bind hwrite (fun _ s t h => ?_) fun e s t h => hidle s t (h.mono fun hj => hj.1)
  have h : Inside (fun s t => (Idle s t ∧ s.lastUpdate = last) ∧
      .wrote (intakeRecord intake.botId owner userId chatId updateId) ∈ s.events) s t :=
    h.mono fun hj => ⟨hj.1, hj.2 rfl⟩
  refine succeeds_bind (wp_assignMark hlast h) fun _ s t h => ?_
  refine wp_bindRequestIdentity (owner_valid howner) (fun s t h => ?_) h
  refine always_mapError (wp_consume hinner rfl (fun before hwrote => ?_) h) fun e s t h => h
  exact ⟨htransport, last, message, userId, chatId, owner, hupdate, hmessage, howner, rfl, rfl, hwrote⟩

theorem last_lt {last updateId : Int} {update : Update} {message : Message}
    (h : updateChecks last update = .ok (updateId, message)) : last < updateId := by
  unfold updateChecks at h
  simp only [bind_eq_ok, ensure_eq_ok, fetch_eq_ok, pure_eq_ok, Prod.mk.injEq] at h
  obtain ⟨id, -, -, hid, -, -, -, -, rfl, -⟩ := h
  exact hid.2

/-- The call under the lock. -/
theorem wp_lockedCall {inner : Update → Option Context → Code Unit} (hinner : Refused intake inner)
    {transport : Transport} {context : Context} {update : Update}
    (htransport : Intake.Qualified intake.application intake.bot intake.botId transport (some context))
    (h : Inside (fun s t => Idle s t ∧ t.consumed = false) s t) :
    wp (contract intake) (lockedCall inner intake transport context update) (fun _ => Inside Closed) s t := by
  have hmark : wp (contract intake) (.perform Act.readMark)
      (Succeeds fun last => Inside fun s t => (Idle s t ∧ t.consumed = false) ∧ s.lastUpdate = last) s t :=
    wp_inside h fun c hi => ⟨hi, rfl, fun hne => absurd rfl hne, _, rfl, h.mono fun hj => ⟨hj, rfl⟩⟩
  refine succeeds_bind hmark fun last s t h => ?_
  have hclosed : Inside Closed s t := h.mono fun hj => hj.1.1.closed
  refine wp_done_bind (fun found hupdate => ?_) fun _ => hclosed
  obtain ⟨updateId, message⟩ := found
  refine wp_done_bind (fun found hmessage => ?_) fun _ => hclosed
  obtain ⟨userId, chatId, text⟩ := found
  refine wp_done_bind (fun owner howner => ?_) fun _ => hclosed
  exact wp_admitUpdate hinner htransport hupdate hmessage (fetch_eq_ok.1 howner) (last_lt hupdate) h

/-- What a call leaves behind. -/
structure Returned (t : Task) : Prop where
  locked : t.locked = false
  assigned : t.consumed = false → t.assigned = []

/-- What a call starts with. -/
structure Fresh (t : Task) : Prop where
  locked : t.locked = false
  assigned : t.assigned = []
  consumed : t.consumed = false

theorem Fresh.returned (h : Fresh t) : Returned t := ⟨h.locked, fun _ => h.assigned⟩

/-- How taking the lock can end. -/
def Acquired : Except Exn Unit → Shared → Task → Prop
  | .ok _, s, t => Inside (fun s t => Idle s t ∧ t.consumed = false) s t
  | .error _, _, t => Returned t

theorem wp_handle {inner : Update → Option Context → Code Unit} (hinner : Refused intake inner)
    {update : Update} {context : Option Context} (h : Fresh t) :
    wp (contract intake) (handle inner intake update context) (fun _ _ t => Returned t) s t := by
  refine wp_done_bind (fun context _ => ?_) fun _ => h.returned
  refine wp_bind (P := fun _ _ t => Fresh t) (wp_calm (calm_ask _) h fun _ _ h => h) (fun transport s t h => ?_)
    fun _ _ _ h => h.returned
  have htransport : wp (contract intake) (refuseIf
        (¬ Intake.Qualified intake.application intake.bot intake.botId transport (some context))
        "governance.telegram_transport_unqualified")
      (fun r _ t => Fresh t ∧ (r = .ok () →
        Intake.Qualified intake.application intake.bot intake.botId transport (some context))) s t :=
    wp_raiseIf (fun _ => ⟨h, nofun⟩) fun hq => ⟨h, fun _ => not_not.1 hq⟩
  refine wp_bind htransport (fun _ s t h => ?_) fun _ _ _ h => h.1.returned
  obtain ⟨h, hqualified⟩ := h
  have hacquire : wp (contract intake) (.perform Act.acquire) Acquired s t := by
    refine wp_perform ?_
    rintro s' ⟨hi, -⟩ c
    cases hs : s'.holder with
    | some q =>
      have hnext : Act.acquire.next c s' t =
          (.error (.boundary "governance.telegram_intake_busy"), s', t) := by simp only [Act.acquire, hs]
      rw [hnext]
      exact ⟨⟨rfl, hi, .inl rfl, fun hne => absurd rfl hne⟩, h.returned⟩
    | none =>
      have hnext : Act.acquire.next c s' t =
          (.ok (), { s' with holder := some t.id }, { t with locked := true }) := by
        simp only [Act.acquire, hs]
      have hconsuming : s'.consuming = [] := by
        rcases hi.alone with hnone | ⟨p, hp, -⟩
        · exact hnone
        · rw [hs] at hp
          cases hp
      rw [hnext]
      refine ⟨⟨rfl, ⟨hi.ordered, hi.marked, hi.entitled, .inl hconsuming⟩, .inr (.inl hs),
        fun hne => absurd rfl hne⟩, rfl, rfl, ⟨hconsuming, h.assigned⟩, h.consumed⟩
  refine wp_bind hacquire (fun _ s t h => ?_) fun _ _ _ h => h
  refine always_ensuring (wp_lockedCall hinner (hqualified rfl) h) fun s t h => ?_
  refine wp_inside h fun c hi => ⟨⟨hi.ordered, hi.marked, hi.entitled, .inl h.rest.consuming⟩, rfl,
    fun hne => absurd rfl hne, rfl, h.rest.assigned⟩

theorem wp_call {depth : Nat} {update : Update} {context : Option Context} (h : Fresh t) :
    wp (contract intake) (call intake depth update context) (fun _ _ t => Returned t) s t := by
  cases depth with
  | zero =>
    have hnone : Refused intake fun _ _ => pure () := fun _ _ _ _ _ h => h
    exact wp_handle hnone h
  | succ depth => exact wp_handle (refused_call depth) h

end

/-! ## Runs -/

section

variable (intake : Intake)

theorem inv_die {intake : Intake} {s : Shared} {t : Task} (hi : Inv intake s) :
    Inv intake ((tasks intake).die s t).1 := by
  refine ⟨hi.ordered, hi.marked, hi.entitled, ?_⟩
  show s.consuming.erase t.id = [] ∨ ∃ p, (if s.holder = some t.id then none else s.holder) = some p ∧
    s.consuming.erase t.id = [p]
  rcases hi.alone with hnone | ⟨p, hp, hconsuming⟩
  · rw [hnone]
    exact .inl rfl
  · rw [hp, hconsuming]
    by_cases h : p = t.id
    · subst h
      exact .inl (List.erase_cons_head _ _)
    · refine .inr ⟨p, if_neg fun he => h (Option.some.inj he), ?_⟩
      rw [List.erase_of_not_mem]
      exact fun hmem => h (List.mem_singleton.1 hmem).symm

def covenant : Covenant (tasks intake) where
  inv := Inv intake
  own p t := t.id = p
  law _ _ := True
  contract _ := contract intake
  post _ _ _ t := Returned t
  own_enter _ _ h := h
  law_enter _ _ := trivial
  enter _ _ _ _ _ _ := wp_call ⟨rfl, rfl, rfl⟩
  rely_refl _ _ _ hi := ⟨hi, fun _ => rfl⟩
  rely_trans _ t s s' s'' h h' := by
    refine ⟨h'.1, fun hs => ?_⟩
    obtain rfl := h.2 hs
    exact h'.2 hs
  post_stable _ _ _ _ _ h _ := h
  keep _ _ _ _ _ _ _ hown _ hg := ⟨hg.inv, hg.id.trans hown, trivial⟩
  keep_die _ _ _ hi hown := ⟨inv_die hi, hown⟩
  rely_guar p q _ _ l s m s' m' hne _ hp hq hg := by
    refine ⟨hg.inv, fun hs => ?_⟩
    rcases hg.free with h | h | h
    · exact h
    · rw [hs] at h
      cases h
    · rw [hs] at h
      exact absurd ((hp.symm.trans (Option.some.inj h)).trans hq) hne
  rely_die p q _ l s m hne hi hp hq := by
    refine ⟨inv_die hi, fun hs => ?_⟩
    have hother : l.id ≠ m.id := by
      rw [show l.id = p from hp, show m.id = q from hq]
      exact hne
    have hholder : (if s.holder = some m.id then none else s.holder) = s.holder := by
      rw [hs]
      exact if_neg fun he => hother (Option.some.inj he)
    have hconsuming : s.consuming.erase m.id = s.consuming := by
      refine List.erase_of_not_mem fun hmem => ?_
      rcases hi.alone with hnone | ⟨r, hr, hconsuming⟩
      · rw [hnone] at hmem
        cases hmem
      · rw [hs] at hr
        rw [hconsuming, List.mem_singleton] at hmem
        exact hother ((Option.some.inj hr).trans hmem.symm)
    show ({ s with
      holder := if s.holder = some m.id then none else s.holder
      consuming := s.consuming.erase m.id } : Shared) = s
    rw [hholder, hconsuming]

/-- However threads and tasks call the intake: the updates that reach `consume` are ever later ones;
at most one `consume` is awaited; whoever calls it is entitled to; a call that has ended without
having called it has not assigned the mark and does not hold the lock; nothing else changes the
mark; and a lock that is held changes by its holder only. -/
theorem consumed_once (identities : ℕ → Option RequestIdentity) (turns : List (Turn Choice Request)) :
    let sys := tasks intake
    let c := sys.run (.initial {} fun p => { id := p, identity := identities p }) turns
    (consumedIds c.shared.events).Pairwise (· < ·) ∧ c.shared.consuming.length ≤ 1 ∧
      Entitled intake c.shared.events ∧
      (∀ p r k, (c.host p).running = some (r, .done k) → (c.host p).loc.consumed = false →
        (c.host p).loc.assigned = [] ∧ (c.host p).loc.locked = false) ∧
      ∀ t, ((sys.turn c t).shared.lastUpdate ≠ c.shared.lastUpdate →
          ((sys.turn c t).host t.host).loc.assigned =
            (c.host t.host).loc.assigned ++ [(sys.turn c t).shared.lastUpdate]) ∧
        ((sys.turn c t).shared.holder ≠ c.shared.holder →
          c.shared.holder = none ∨ c.shared.holder = some t.host) := by
  intro sys c
  have hinv : Inv intake ({} : Shared) := ⟨List.Pairwise.nil, nofun, .nil, .inl rfl⟩
  let start : ℕ → Task := fun p => { id := p, identity := identities p }
  have hown : ∀ p, (start p).id = p := fun _ => rfl
  have hgood := (covenant intake).good_run ((covenant intake).good_initial hinv hown) turns
  have hid : ∀ p, (c.host p).loc.id = p := hgood.own
  refine ⟨hgood.inv.ordered, ?_, hgood.inv.entitled, ?_, fun t => ?_⟩
  · rcases hgood.inv.alone with hnone | ⟨p, -, hone⟩
    · rw [hnone]
      exact Nat.zero_le 1
    · rw [hone]
      exact Nat.le_refl 1
  · intro p r k hrun hno
    have hreturned : Returned (c.host p).loc := (hgood.busy p r _ hrun).2
    exact ⟨hreturned.assigned hno, hreturned.locked⟩
  · cases (covenant intake).change hgood t with
    | none heq =>
      exact ⟨fun hne => absurd (congrArg Shared.lastUpdate heq) hne,
        fun hne => absurd (congrArg Shared.holder heq) hne⟩
    | acted _ _ hg =>
      refine ⟨hg.mark, fun hne => ?_⟩
      rcases hg.free with h | h | h
      · exact absurd (congrArg Shared.holder h) hne
      · exact .inl h
      · exact .inr (h.trans (congrArg some (hid t.host)))
    | crashed heq =>
      refine ⟨fun hne => absurd (congrArg Shared.lastUpdate heq) hne, fun hne => .inr ?_⟩
      by_contra hother
      refine hne ((congrArg Shared.holder heq).trans (if_neg ?_))
      rw [hid]
      exact hother

end

namespace Sample

def intake : Intake where
  application := some 1
  bot := some 2
  botId := 123
  owners := [((456, 789), { actorId := "alice" })]
  valid := by
    intro item hmem
    rw [List.mem_singleton.1 hmem]
    rfl

def update (updateId : Int) : Update where
  updateId := some updateId
  message := some
    { fromUser := some { id := some 456, isBot := some false }
      chat := some { id := some 789, type := some "private" }
      text := some "safe input" }

def answers : Choice where
  transport :=
    { app := some 1, bot := some 2, applicationBot := some 2, botId := some 123
      baseUrl := some "https://api.telegram.org/botsynthetic" }
  reenter := [(update 9, some { application := some 1, bot := some 2 })]

/-- A task is handed the updates 2, 1 and 3, and calls the intake itself each time. -/
def turns : List (Turn Choice Request) :=
  [2, 1, 3].flatMap fun id =>
    .start 0 { depth := 1, update := update id, context := some { application := some 1, bot := some 2 } } ::
      List.replicate 20 (.act 0 answers)

example : consumedIds ((tasks intake).run (.initial {} fun p => { id := p }) turns).shared.events = [2, 3] := by
  decide +kernel

end Sample

end ProjectMaya.Telegram
