import ProjectMaya.Logic.Choices
import ProjectMaya.Logic.Wp
import ProjectMaya.VectorRuns

/-! # Calls that raise

SQLite undoes what a statement has done before it raises (`statement`). A call of the store that
raises leaves then everything as it was: its transaction is rolled back, wherever it has come to
(`all_or_nothing`). -/

namespace ProjectMaya.Vector

open Logic

section

variable {ν : Type}

/-- A statement is done, or it raises and has done nothing. -/
def statement : Option Failure → Fault
  | none => .none
  | some e => .fail e

/-- A call on a connection that is open and idle. -/
def attempt [Python ν] (call : Call ν) (s : Shared ν) (pid : Nat)
    (moves : List (Move (Option Failure))) : Prog.Outcome (Shared ν) (Connection ν) Failure Unit :=
  call.prog.run die (moves.map (Move.map statement)) s { pid }

/-! ## Inside of a transaction -/

/-- The call has changed nothing outside of its transaction. -/
def Inside (s₀ : Shared ν) (pid : Nat) (s : Shared ν) (l : Connection ν) : Prop :=
  l.pid = pid ∧ match l.tx with
    | none => s = s₀
    | some _ => s₀.writer = none ∧ s = { s₀ with writer := some pid }

/-- The call has changed nothing, and is in no transaction. -/
def Outside (s₀ : Shared ν) (pid : Nat) (s : Shared ν) (l : Connection ν) : Prop :=
  l.pid = pid ∧ l.tx = none ∧ s = s₀

theorem Outside.inside {s₀ s : Shared ν} {pid : Nat} {l : Connection ν} (h : Outside s₀ pid s l) :
    Inside s₀ pid s l := by
  obtain ⟨hpid, htx, hs⟩ := h
  refine ⟨hpid, ?_⟩
  rw [htx]
  exact hs

/-- An action that stays inside, whatever becomes of it. -/
def Stays {β : Type} (a : Act ν β) : Prop :=
  ∀ s₀ pid c s l, Inside s₀ pid s l → Inside s₀ pid (a.next c s l).2.1 (a.next c s l).2.2

theorem stays_select {β : Type} (f : Db ν → β) : Stays (Act.select f) := by
  intro s₀ pid c s l h
  cases c with
  | none => exact h
  | fail e => exact h
  | late e => exact h

theorem inside_change {f : Db ν → Except Failure (Db ν)} {s₀ s s' : Shared ν} {pid : Nat}
    {l l' : Connection ν} (h : Inside s₀ pid s l) (hc : Act.change f s l = .ok (s', l')) :
    Inside s₀ pid s' l' := by
  obtain ⟨hpid, hs⟩ := h
  unfold Act.change at hc
  cases htx : l.tx with
  | none =>
    rw [htx] at hs hc
    obtain rfl : s = s₀ := hs
    simp only [bind_eq_ok, ensure_eq_ok, pure_eq_ok] at hc
    obtain ⟨_, hfree, db, -, hc⟩ := hc
    cases hc
    exact ⟨hpid, hfree, by rw [hpid]⟩
  | some db =>
    rw [htx] at hs hc
    simp only [bind_eq_ok, pure_eq_ok] at hc
    obtain ⟨db', -, hc⟩ := hc
    cases hc
    exact ⟨hpid, hs⟩

theorem stays_execute (f : Db ν → Except Failure (Db ν)) : Stays (Act.execute f) := by
  intro s₀ pid c s l h
  cases hc : Act.change f s l with
  | error e => cases c <;> simp only [Act.execute, hc] <;> exact h
  | ok x =>
    have hx : Inside s₀ pid x.1 x.2 := inside_change h hc
    cases c with
    | none => simp only [Act.execute, hc]; exact hx
    | fail e => simp only [Act.execute]; exact h
    | late e => simp only [Act.execute, hc]; exact hx

/-! ## The programs -/

theorem each_execute (f : Db ν → Except Failure (Db ν)) :
    (Prog.perform (Act.execute f) : Code ν Unit).Each Stays := Prog.Each.perform (stays_execute f)

theorem each_writeRows (rows : List (Record ν)) : (writeRows rows).Each Stays := by
  induction rows with
  | nil => exact trivial
  | cons r rows ih =>
    refine (each_execute _).bind fun _ => ?_
    refine (each_execute _).bind fun _ => ?_
    exact (each_execute _).bind fun _ => ih

theorem each_updateRows (now : Text) (e : Embeddings ν) (rows : List (Record ν)) :
    (updateRows now e rows).Each Stays := by
  induction rows with
  | nil => exact trivial
  | cons r rows ih => exact (each_execute _).bind fun _ => ih

theorem each_validateEmbeddingDimensions (prepared : List (Record ν)) :
    (validateEmbeddingDimensions prepared).Each Stays := by
  unfold validateEmbeddingDimensions
  split
  · exact trivial
  · refine (Prog.Each.perform (stays_select _)).bind fun stored => ?_
    cases stored with
    | some d => exact Prog.Each.raiseIf
    | none =>
      refine (Prog.Each.perform (stays_select _)).bind fun existing => ?_
      split
      · exact each_execute _
      · exact (each_execute _).bind fun _ => Prog.Each.raiseIf
      · exact trivial
  · exact trivial

theorem each_replaceRows (now : Text) (e : Embeddings ν) : (replaceRows now e).Each Stays := by
  refine (Prog.Each.perform (stays_select _)).bind fun rows => ?_
  refine Prog.Each.raiseIf.bind fun _ => ?_
  refine (each_updateRows now e rows).bind fun _ => ?_
  refine (each_execute _).bind fun _ => ?_
  cases e.dimension with
  | none => exact trivial
  | some n => exact each_execute _

/-! ## The rollback -/

/-- The other connections are idle. -/
def alone (ν : Type) : Contract (Shared ν) (Connection ν) := ⟨fun _ s s' => s' = s, fun _ _ _ _ => True⟩

/-- What a call that raises leaves. -/
def Undone (s₀ : Shared ν) (pid : Nat) {α : Type} (r : Except Failure α) (s : Shared ν)
    (l : Connection ν) : Prop := ∀ e, r = .error e → Outside s₀ pid s l

variable {s₀ s : Shared ν} {pid : Nat} {l : Connection ν}

theorem wp_inside {α : Type} {p : Code ν α} (hp : p.Each Stays) (h : Inside s₀ pid s l) :
    wp (alone ν) (p.choosing statement) (fun _ s l => Inside s₀ pid s l) s l := by
  have heach : (p.choosing statement).Each
      fun a => ∀ c s l, Inside s₀ pid s l → Inside s₀ pid (a.next c s l).2.1 (a.next c s l).2.2 :=
    hp.choosing fun a ha c s l h => ha s₀ pid (statement c) s l h
  refine wp_of_each (J := Inside s₀ pid) ?_ (fun a ha c s l h => ⟨trivial, ha c s l h⟩) heach h
  rintro s s' l rfl h
  exact h

theorem wp_rollback_undone (h : Inside s₀ pid s l) :
    wp (alone ν) ((Prog.perform Act.rollback : Code ν Unit).choosing statement)
      (fun _ s l => Outside s₀ pid s l) s l := by
  rintro t rfl c
  obtain ⟨hpid, hs⟩ := h
  refine ⟨trivial, hpid, rfl, ?_⟩
  show (if l.tx.isSome then { t with writer := none } else t) = s₀
  cases htx : l.tx with
  | none =>
    rw [htx] at hs
    exact hs
  | some db =>
    rw [htx] at hs
    obtain ⟨hfree, rfl⟩ := hs
    show ({ s₀ with writer := none } : Shared ν) = s₀
    rw [← hfree]

theorem wp_transaction_undone {p : Code ν Unit} (hp : p.Each Stays) (h : Outside s₀ pid s l) :
    wp (alone ν) ((transaction p).choosing statement) (Undone s₀ pid) s l := by
  -- what has raised is inside of the transaction: a commit that raises has not been made
  have hcommit : ∀ s l, Inside s₀ pid s l →
      wp (alone ν) ((Prog.perform Act.commit : Code ν Unit).choosing statement)
        (fun r s l => ∀ e, r = .error e → Inside s₀ pid s l) s l := by
    rintro s l h _ rfl c
    refine ⟨trivial, ?_⟩
    cases c with
    | none => exact nofun
    | some e => exact fun _ _ => h
  have hbody : wp (alone ν) ((p >>= fun _ => .perform Act.commit : Code ν Unit).choosing statement)
      (fun r s l => ∀ e, r = .error e → Inside s₀ pid s l) s l := by
    rw [Prog.choosing_bind]
    exact wp_bind (wp_inside hp h.inside) (fun _ s l h => hcommit s l h) fun _ _ _ h _ _ => h
  unfold transaction
  rw [Prog.choosing_onError]
  refine wp_onError hbody (fun _ _ _ _ => nofun) fun e s l h => ?_
  refine wp_mono (wp_rollback_undone (h e rfl)) fun r s l h => ?_
  cases r <;> exact fun _ _ => h

theorem wp_ask_undone {p : Code ν Unit}
    (hp : wp (alone ν) (p.choosing statement) (Undone s₀ pid) s l) (h : Outside s₀ pid s l) :
    wp (alone ν) ((.perform Act.ask >>= fun _ => p).choosing statement) (Undone s₀ pid) s l := by
  rw [Prog.choosing_bind]
  have hask : wp (alone ν) ((Prog.perform Act.ask : Code ν Unit).choosing statement)
      (fun _ s' l' => s' = s ∧ l' = l) s l := by
    rintro t rfl c
    cases c <;> exact ⟨trivial, rfl, rfl⟩
  refine wp_bind hask ?_ ?_
  · rintro _ s l ⟨rfl, rfl⟩
    exact hp
  · rintro e s l ⟨rfl, rfl⟩ _ _
    exact h

theorem wp_authorize_undone (ids : List Text) (h : Outside s₀ pid s l) :
    wp (alone ν) ((authorizeEmbeddingRebuild ids : Code ν Unit).choosing statement)
      (fun _ s l => Outside s₀ pid s l) s l := by
  induction ids generalizing s l with
  | nil => exact h
  | cons id ids ih =>
    unfold authorizeEmbeddingRebuild
    rw [Prog.choosing_bind]
    have hask : wp (alone ν) ((Prog.perform Act.ask : Code ν Unit).choosing statement)
        (fun _ s l => Outside s₀ pid s l) s l := by
      rintro t rfl c
      cases c <;> exact ⟨trivial, h⟩
    exact wp_bind hask (fun _ s l h => ih h) fun _ _ _ h => h

end

/-! ## The calls -/

section

variable {ν : Type} [Python ν] {s₀ s : Shared ν} {pid : Nat} {l : Connection ν}

theorem wp_replaceEmbeddings_undone (now : Text) (embeddings : Doc ν) (h : Outside s₀ pid s l) :
    wp (alone ν) ((replaceEmbeddings now embeddings).choosing statement) (Undone s₀ pid) s l := by
  unfold replaceEmbeddings
  split
  · exact fun _ _ => h
  · rename_i e _
    exact wp_ask_undone (wp_transaction_undone (each_replaceRows now e) h) h

theorem wp_prog_undone (call : Call ν) (h : Outside s₀ pid s l) :
    wp (alone ν) (call.prog.choosing statement) (Undone s₀ pid) s l := by
  cases call with
  | upsert docs =>
    show wp (alone ν) ((upsertManyCode docs).choosing statement) _ s l
    unfold upsertManyCode
    split
    · exact fun _ _ => h
    · exact nofun
    · rename_i prepared _ _
      refine wp_ask_undone (wp_transaction_undone ?_ h) h
      exact (each_validateEmbeddingDimensions prepared).bind fun _ => each_writeRows prepared
  | replace now embeddings => exact wp_replaceEmbeddings_undone now embeddings h
  | rebuild now model =>
    cases model with
    | none => exact fun _ _ => h
    | some m =>
      show wp (alone ν) ((rebuildEmbeddings now (some m)).choosing statement) _ s l
      unfold rebuildEmbeddings
      rw [Prog.choosing_bind]
      have hselect : ∀ f : Db ν → List (Doc ν), wp (alone ν)
          ((Prog.perform (Act.select f) : Code ν (List (Doc ν))).choosing statement)
          (fun _ s l => Outside s₀ pid s l) s l := by
        rintro f t rfl c
        cases c <;> exact ⟨trivial, h⟩
      refine wp_bind (hselect _) (fun documents s l h => ?_) fun _ _ _ h _ _ => h
      cases rebuilt m documents with
      | error e => exact fun _ _ => h
      | ok x =>
        show wp (alone ν) ((authorizeEmbeddingRebuild x.1 >>= fun _ =>
          replaceEmbeddings now x.2).choosing statement) _ s l
        rw [Prog.choosing_bind]
        exact wp_bind (wp_authorize_undone x.1 h)
          (fun _ s l h => wp_replaceEmbeddings_undone now x.2 h) fun _ _ _ h _ _ => h

/-- **A call that raises has not happened.** The records, the rows of the full-text table and the
metadata are as before, and every later call goes as it would have gone. -/
theorem all_or_nothing (call : Call ν) (s : Shared ν) (pid : Nat) (moves : List (Move (Option Failure)))
    (e : Failure) (h : (attempt call s pid moves).result = some (.error e)) :
    (attempt call s pid moves).shared = s ∧ (attempt call s pid moves).loc.tx = none ∧
      ∀ later moves', attempt later (attempt call s pid moves).shared
        (attempt call s pid moves).loc.pid moves' = attempt later s pid moves' := by
  have hrun : (call.prog.choosing statement).run die moves s { pid } = attempt call s pid moves :=
    Prog.run_choosing (rfl : statement default = default) die call.prog moves s { pid }
  have hwp := wp_prog_undone (l := { pid }) call ⟨rfl, rfl, (rfl : s = s)⟩
  obtain ⟨-, hpost⟩ := wp_run die (I := fun _ _ => True) (fun _ _ => rfl) (fun _ _ _ _ _ h => h)
    (fun _ _ h => h) hwp trivial moves
  rw [hrun] at hpost
  obtain ⟨hpid, htx, hs⟩ := hpost _ h e rfl
  refine ⟨hs, htx, fun later moves' => ?_⟩
  rw [hs, hpid]

end

/-! ## Examples -/

namespace Sample

/-- The category of the second document cannot be bound. -/
def secondFails : Call Rat :=
  .upsert [(noon, doc "a" [(text "embedding", vector 2)] docA_nodup),
    (noon, doc "b" [(text "category", .list false [.null])])]

/-- The row of the first document and the dimension are undone. -/
theorem secondFails_undone : (attempt secondFails { db := Db.empty } 0 []).shared = { db := Db.empty } :=
  (all_or_nothing secondFails { db := Db.empty } 0 [] .other rfl).1

end Sample

end ProjectMaya.Vector
