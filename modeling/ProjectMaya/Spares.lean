import ProjectMaya.Switch

/-! # What the calls leave alone

An action spares a part of the memory and all commits but those of some purposes
(`Spares`).  The lemmas say it of the actions, of the ways in which they are put together,
and of the calls of the coordinators and the preparations. -/

namespace ProjectMaya

open Logic

/-- What `see` shows of the memory stays, and commits are noted for the purposes `ps` only. -/
def Spares {γ : Type} (see : Memory → γ) (ps : List Purpose) {β : Type} (a : Act β) : Prop :=
  ∀ f s l, see (a.next f s l).2.2.memory = see l.memory ∧
    ∀ n ∈ (a.next f s l).2.2.notes, n ∈ l.notes ∨ n.purpose ∈ ps

/-- The code is made of such actions. -/
def Sparing {γ α : Type} (see : Memory → γ) (ps : List Purpose) (p : Code α) : Prop :=
  p.Each fun a => Spares see ps a

section

variable {γ α β : Type} {see : Memory → γ} {ps : List Purpose}

/-! ## Actions -/

/-- Only the connection of the process changes. -/
theorem spares_of_connection {a : Act β} (h : ∀ f s l, ∃ tx temp committed commitAttempted,
    (a.next f s l).2.2 = { l with tx, temp, committed, commitAttempted }) : Spares see ps a := by
  intro f s l
  obtain ⟨tx, temp, committed, commitAttempted, hl⟩ := h f s l
  rw [hl]
  exact ⟨rfl, fun n hn => .inl hn⟩

theorem spares_same {a : Act β} (h : ∀ f s l, (a.next f s l).2.2 = l) : Spares see ps a :=
  spares_of_connection fun f s l => ⟨l.tx, l.temp, l.committed, l.commitAttempted, h f s l⟩

theorem spares_ask : Spares see ps Act.ask := by
  refine spares_same fun f s l => ?_
  cases f <;> rfl

theorem spares_read (f : Shared → Process → β) : Spares see ps (Act.read f) := by
  refine spares_same fun c s l => ?_
  cases c <;> rfl

theorem spares_query (f : Shared → Process → Except Raised β) : Spares see ps (Act.query f) := by
  refine spares_same fun c s l => ?_
  cases c <;> rfl

theorem spares_peek (f : Process → β) : Spares see ps (Act.peek f) :=
  spares_same fun _ _ _ => rfl

theorem spares_decide : Spares see ps Act.decide := by
  refine spares_same fun f s l => ?_
  cases f <;> rfl

theorem spares_writeAudit (r : AuditRecord) : Spares see ps (Act.writeAudit r) := by
  refine spares_same fun f s l => ?_
  cases f <;> rfl

theorem spares_acquire : Spares see ps Act.acquire := by
  refine spares_same fun f s l => ?_
  cases f <;> simp only [Act.acquire] <;> cases s.lock <;> rfl

theorem spares_flags (committed commitAttempted : Bool) :
    Spares see ps (Act.assign fun l => { l with committed, commitAttempted }) :=
  spares_of_connection fun _ _ l => ⟨l.tx, l.temp, committed, commitAttempted, rfl⟩

theorem spares_begin : Spares see ps Act.beginImmediate := by
  refine spares_of_connection fun f s l => ?_
  cases f <;> simp only [Act.beginImmediate] <;> cases l.tx <;> cases s.writer <;>
    exact ⟨_, _, _, _, rfl⟩

theorem spares_execute (stmt : Db → Option (Db × β)) : Spares see ps (Act.execute stmt) := by
  refine spares_of_connection fun f s l => ?_
  simp only [Act.execute]
  cases l.tx.bind stmt with
  | none => exact ⟨_, _, _, _, rfl⟩
  | some x => cases f <;> exact ⟨_, _, _, _, rfl⟩

theorem spares_rollback : Spares see ps Act.rollback := by
  refine spares_of_connection fun f s l => ?_
  cases f <;> exact ⟨_, _, _, _, rfl⟩

theorem spares_writeTemp (raw : Bytes) : Spares see ps (Act.writeTemp raw) := by
  refine spares_of_connection fun f s l => ?_
  cases f <;> exact ⟨_, _, _, _, rfl⟩

theorem spares_unlinkTemp : Spares see ps Act.unlinkTemp := by
  refine spares_of_connection fun f s l => ?_
  cases f <;> exact ⟨_, _, _, _, rfl⟩

theorem spares_replaceIndex : Spares see ps Act.replaceIndex := by
  refine spares_of_connection fun f s l => ?_
  simp only [Act.replaceIndex]
  cases l.temp with
  | none => exact ⟨_, _, _, _, rfl⟩
  | some raw => cases f <;> exact ⟨_, _, _, _, rfl⟩

/-- A note for one of the purposes. -/
theorem spares_of_note {a : Act β} {purpose : Purpose} (hp : purpose ∈ ps)
    (h : ∀ f s l, ∃ tx effect raised,
      (a.next f s l).2.2 = Act.note { l with tx } purpose effect raised) : Spares see ps a := by
  intro f s l
  obtain ⟨tx, effect, raised, hl⟩ := h f s l
  rw [hl]
  refine ⟨rfl, fun n hn => ?_⟩
  obtain hn | hn := List.mem_append.1 hn
  · exact .inl hn
  · rw [List.mem_singleton.1 hn]
    exact .inr hp

theorem spares_release (hp : .release ∈ ps) : Spares see ps Act.release := by
  refine spares_of_note hp fun f s l => ?_
  cases f <;> exact ⟨l.tx, _, _, rfl⟩

theorem spares_commit {purpose : Purpose} (hp : purpose ∈ ps) :
    Spares see ps (Act.commit purpose) := by
  refine spares_of_note hp fun f s l => ?_
  cases htx : l.tx with
  | none =>
    simp only [Act.commit, htx]
    cases f <;> exact ⟨l.tx, _, _, rfl⟩
  | some db =>
    simp only [Act.commit, htx]
    cases f with
    | fail e => exact ⟨l.tx, _, _, rfl⟩
    | none => exact ⟨none, _, _, rfl⟩
    | failLate e => exact ⟨none, _, _, rfl⟩
    | abort e => exact ⟨none, _, _, rfl⟩

theorem spares_remember {f : Memory → Memory} (h : ∀ m, see (f m) = see m) :
    Spares see ps (Act.remember f) := fun _ _ l => ⟨h l.memory, fun _ hn => .inl hn⟩

/-! ## Ways of putting them together -/

theorem spares_refuseIf {c : Prop} [Decidable c] {code : String} :
    Sparing see ps (refuseIf c code : Code Unit) := Prog.Each.raiseIf

theorem Sparing.renamed {p : Code α} (h : Sparing see ps p) (f : Raised → Raised) :
    Sparing see ps (ProjectMaya.renamed p f) := Prog.Each.mapError h fun _ => trivial

theorem Sparing.swallow {p : Code Unit} (h : Sparing see ps p) :
    Sparing see ps (ProjectMaya.swallow p) := Prog.Each.andThen h fun _ => trivial

theorem Sparing.attempt {p : Code α} (h : Sparing see ps p) :
    Sparing see ps (ProjectMaya.attempt p) := by
  refine Prog.Each.andThen h fun r => ?_
  cases r with
  | ok a => exact trivial
  | error e => cases e <;> exact trivial

theorem Sparing.exclusive {body : Code α} (hp : .release ∈ ps) (h : Sparing see ps body) :
    Sparing see ps (ProjectMaya.exclusive body) := by
  refine Sparing.renamed ?_ _
  refine .bind (.perform spares_ask) fun _ => .bind (.perform spares_ask) fun _ =>
    .bind (.perform spares_acquire) fun _ => ?_
  exact .ensuring (.bind (.perform spares_ask) fun _ => h) (.perform (spares_release hp))

theorem Sparing.transaction {body : Code α} (h : Sparing see ps body) :
    Sparing see ps (ProjectMaya.transaction body) :=
  .bind (.perform spares_begin) fun _ => .onError h (.perform spares_rollback)

theorem spares_publish (pf : Profile) (raw : Bytes) : Sparing see ps (publish pf raw) := by
  refine .bind (.perform spares_ask) fun _ => .ensuring ?_ ?_
  · refine .bind (.perform (spares_writeTemp raw)) fun _ => .bind (.perform spares_ask) fun _ =>
      .bind (.perform (spares_peek _)) fun _ => .bind spares_refuseIf fun _ =>
      .bind (.perform spares_replaceIndex) fun _ => .bind (.perform (spares_read _)) fun _ => ?_
    exact spares_refuseIf
  · refine .bind (.perform (spares_peek _)) fun named => ?_
    cases named with
    | true => exact .perform spares_unlinkTemp
    | false => exact trivial

/-! ## Create -/

section

variable (c : Coordinator) (pf : Profile) (call : CreateCall)

theorem spares_authority : Sparing see ps (c.authority call) :=
  .bind spares_refuseIf fun _ => .perform spares_ask

theorem spares_recheck (generation : Int) (raw : Bytes) : Sparing see ps (c.recheck generation raw) :=
  .bind (.perform (spares_query _)) fun _ => .bind (.perform (spares_read _)) fun _ => spares_refuseIf

theorem spares_stage (hp : .stage ∈ ps) (generation : Int) (oldRaw : Bytes) :
    Sparing see ps (c.stage call generation oldRaw) := by
  refine .bind (.perform (spares_query _)) fun now => .bind spares_refuseIf fun _ =>
    .bind (.perform (spares_read _)) fun _ => .bind spares_refuseIf fun _ => ?_
  refine .bind (.perform (spares_execute _)) fun _ => .bind (.perform (spares_execute _)) fun _ =>
    .bind (.perform (spares_execute _)) fun _ => .bind (.perform (spares_execute _)) fun _ =>
    .bind (.perform (spares_execute _)) fun _ => .bind spares_refuseIf fun _ =>
    .bind (spares_authority c call) fun _ => ?_
  refine .bind (.perform ?_) fun _ => .bind (.perform (spares_commit hp)) fun _ =>
    .bind (.perform ?_) fun _ => trivial
  · exact spares_of_connection fun _ _ l => ⟨l.tx, l.temp, l.committed, true, rfl⟩
  · exact spares_of_connection fun _ _ l => ⟨l.tx, l.temp, true, l.commitAttempted, rfl⟩

theorem spares_create (hp : ∀ p ∈ [Purpose.stage, .verify, .settle, .release], p ∈ ps) :
    Sparing see ps (c.create pf call) := by
  simp only [List.forall_mem_cons] at hp
  obtain ⟨hstage, hverify, hsettle, hrelease, -⟩ := hp
  have hbody : Sparing see ps (c.createBody pf call) := by
    refine .bind (spares_authority c call) fun _ => .bind (.perform (spares_query _)) fun now =>
      .bind (.perform (spares_read _)) fun _ => .bind spares_refuseIf fun _ =>
      .bind (.perform (spares_read _)) fun _ => .bind spares_refuseIf fun _ =>
      .bind (Sparing.transaction (spares_stage c call hstage _ _)) fun raw =>
      .bind (spares_authority c call) fun _ => .bind (spares_publish pf raw) fun _ => ?_
    refine .bind (Sparing.transaction ?_) fun _ =>
      .bind (Sparing.renamed (.perform (spares_writeAudit _)) _) fun _ =>
      .bind (spares_authority c call) fun _ => .bind (Sparing.transaction ?_) fun _ => trivial
    · exact .bind (spares_recheck c _ raw) fun _ => .bind (spares_authority c call) fun _ =>
        .bind (.perform (spares_execute _)) fun _ => .perform (spares_commit hverify)
    · exact .bind (spares_recheck c _ raw) fun _ => .bind (.perform (spares_execute _)) fun _ =>
        .bind spares_refuseIf fun _ => .perform (spares_commit hsettle)
  refine .bind (.perform spares_ask) fun _ => .bind (.perform (spares_flags false false)) fun _ => ?_
  refine .mapError (.bind (spares_authority c call) fun _ => hbody.exclusive hrelease) fun e => ?_
  refine .bind (.perform (spares_peek _)) fun _ => ?_
  cases e <;> exact trivial

end

end

end ProjectMaya
