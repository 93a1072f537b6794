import ProjectMaya.VectorAtomic

/-! # Calls that return

A call that returns has made of the state it began with what its whole operation makes of it, and
its transaction has ended (`returned`). -/

namespace ProjectMaya.Vector

open Logic

section

variable {ν : Type} {s₀ s : Shared ν} {pid : Nat} {l : Connection ν} {w : Db ν}

/-- The call works on `w`: on the committed state, or on what its transaction has made of it. -/
def Holds (s₀ : Shared ν) (pid : Nat) (w : Db ν) (s : Shared ν) (l : Connection ν) : Prop :=
  Inside s₀ pid s l ∧ visible s l = w

/-- The transaction of the call has made `w` of the committed state, and has ended. -/
def Made (s₀ : Shared ν) (pid : Nat) (w : Db ν) (s : Shared ν) (l : Connection ν) : Prop :=
  l.pid = pid ∧ l.tx = none ∧ s = { s₀ with db := w }

theorem Outside.holds (h : Outside s₀ pid s l) : Holds s₀ pid s₀.db s l := by
  refine ⟨h.inside, ?_⟩
  obtain ⟨-, htx, rfl⟩ := h
  simp [visible, htx]

theorem Outside.made (h : Outside s₀ pid s l) : Made s₀ pid s₀.db s l := h

/-! ## Rules for the statements -/

theorem returns_ask (h : Outside s₀ pid s l) :
    wp (alone ν) (.perform Act.ask) (Returns fun _ s l => Outside s₀ pid s l) s l := by
  rintro t rfl c
  refine ⟨trivial, ?_⟩
  cases c with
  | none => exact .ok h
  | fail e => exact .error
  | late e => exact .error

theorem returns_select {β : Type} (f : Db ν → β) (h : Holds s₀ pid w s l) :
    wp (alone ν) (.perform (Act.select f))
      (Returns fun b s l => b = f w ∧ Holds s₀ pid w s l) s l := by
  rintro t rfl c
  obtain ⟨hin, hw⟩ := h
  refine ⟨trivial, ?_⟩
  cases c with
  | none => exact .ok ⟨congrArg f hw, hin, hw⟩
  | fail e => exact .error
  | late e => exact .error

theorem returns_authorize (ids : List Text) (h : Outside s₀ pid s l) :
    wp (alone ν) (authorizeEmbeddingRebuild ids) (Returns fun _ s l => Outside s₀ pid s l) s l := by
  induction ids generalizing s l with
  | nil => exact .ok h
  | cons id rest ih => exact returns_bind (returns_ask h) fun _ s l h => ih h

theorem returns_documents (f : Db ν → List (Doc ν)) (h : Outside s₀ pid s l) :
    wp (alone ν) (.perform (Act.select f))
      (Returns fun b s l => b = f s₀.db ∧ Outside s₀ pid s l) s l := by
  rintro t rfl c
  obtain ⟨hpid, htx, rfl⟩ := h
  refine ⟨trivial, ?_⟩
  cases c with
  | none => exact .ok ⟨by simp [visible, htx], hpid, htx, rfl⟩
  | fail e => exact .error
  | late e => exact .error

theorem change_holds {f : Db ν → Except Failure (Db ν)} {s' : Shared ν} {l' : Connection ν}
    (h : Holds s₀ pid w s l) (hc : Act.change f s l = .ok (s', l')) :
    ∃ w', f w = .ok w' ∧ Holds s₀ pid w' s' l' := by
  obtain ⟨hin, rfl⟩ := h
  have hin' := inside_change hin hc
  unfold Act.change at hc
  cases htx : l.tx with
  | none =>
    simp only [htx, bind_eq_ok, ensure_eq_ok, pure_eq_ok] at hc
    obtain ⟨_, -, w', hf, heq⟩ := hc
    cases heq
    exact ⟨w', by simpa [visible, htx] using hf, hin', rfl⟩
  | some db =>
    simp only [htx, bind_eq_ok, pure_eq_ok] at hc
    obtain ⟨w', hf, heq⟩ := hc
    cases heq
    exact ⟨w', by simpa [visible, htx] using hf, hin', rfl⟩

theorem returns_execute (f : Db ν → Except Failure (Db ν)) (h : Holds s₀ pid w s l) :
    wp (alone ν) (.perform (Act.execute f))
      (Returns fun _ s l => ∃ w', f w = .ok w' ∧ Holds s₀ pid w' s l) s l := by
  rintro t rfl c
  refine ⟨trivial, ?_⟩
  cases hc : Act.change f t l with
  | error e => cases c <;> simp only [Act.execute, hc] <;> exact .error
  | ok x =>
    have hx := change_holds h hc
    cases c with
    | none => simp only [Act.execute, hc]; exact .ok hx
    | fail e => simp only [Act.execute]; exact .error
    | late e => simp only [Act.execute, hc]; exact .error

/-- A statement that cannot raise by itself. -/
theorem returns_set (f : Db ν → Db ν) (h : Holds s₀ pid w s l) :
    wp (alone ν) (.perform (Act.execute fun db => .ok (f db)))
      (Returns fun _ s l => Holds s₀ pid (f w) s l) s l := by
  refine wp_mono (returns_execute _ h) ?_
  rintro r s l hr u hu
  obtain ⟨w', hw', hs⟩ := hr u hu
  cases hw'
  exact hs

theorem returns_commit (h : Holds s₀ pid w s l) :
    wp (alone ν) (.perform Act.commit) (Returns fun _ s l => Made s₀ pid w s l) s l := by
  rintro t rfl c
  refine ⟨trivial, ?_⟩
  obtain ⟨⟨hpid, hs⟩, hw⟩ := h
  cases c with
  | none =>
    refine .ok ⟨hpid, rfl, ?_⟩
    show l.landed t = { s₀ with db := w }
    unfold Connection.landed
    cases htx : l.tx with
    | none =>
      rw [htx] at hs
      simp only [visible, htx, Option.getD_none] at hw
      obtain rfl : t = s₀ := hs
      rw [← hw]
    | some db =>
      rw [htx] at hs
      simp only [visible, htx, Option.getD_some] at hw
      obtain ⟨hfree, rfl⟩ := hs
      show ({ db, writer := none } : Shared ν) = { s₀ with db := w }
      rw [hw, ← hfree]
  | fail e => exact .error
  | late e => exact .error

theorem returns_transaction {p : Code ν Unit} {P : Db ν → Prop}
    (hp : wp (alone ν) p (Returns fun _ s l => ∃ w, P w ∧ Holds s₀ pid w s l) s l) :
    wp (alone ν) (transaction p) (Returns fun _ s l => ∃ w, P w ∧ Made s₀ pid w s l) s l := by
  have hbody : wp (alone ν) (p >>= fun _ => .perform Act.commit)
      (Returns fun _ s l => ∃ w, P w ∧ Made s₀ pid w s l) s l := by
    refine returns_bind hp ?_
    rintro _ s l ⟨w, hw, h⟩
    refine wp_mono (returns_commit h) ?_
    exact fun r s l hr u hu => ⟨w, hw, hr u hu⟩
  refine wp_onError hbody (fun _ _ _ h => h) ?_
  rintro e s l - t rfl c
  exact ⟨trivial, nofun⟩

/-! ## The loops and the bodies of the transactions -/

theorem returns_writeRows (rows : List (Record ν)) (h : Holds s₀ pid w s l) :
    wp (alone ν) (writeRows rows) (Returns fun _ s l =>
      ∃ w', rows.foldlM (fun db r => upsertRow r db) w = .ok w' ∧ Holds s₀ pid w' s l) s l := by
  induction rows generalizing w s l with
  | nil => exact .ok ⟨w, rfl, h⟩
  | cons r rest ih =>
    unfold writeRows
    refine returns_bind (returns_execute _ h) ?_
    rintro _ s l ⟨w₁, h₁, h⟩
    refine returns_bind (returns_set _ h) fun _ s l h => ?_
    refine returns_bind (returns_set _ h) fun _ s l h => ?_
    refine wp_mono (ih h) ?_
    rintro r' s l hr u hu
    obtain ⟨w', hrest, hs⟩ := hr u hu
    refine ⟨w', ?_, hs⟩
    simp only [List.foldlM_cons, upsertRow, bind_eq_ok, pure_eq_ok]
    exact ⟨_, ⟨w₁, h₁, rfl⟩, hrest⟩

theorem returns_updateRows (now : Text) (e : Embeddings ν) (rows : List (Record ν))
    (h : Holds s₀ pid w s l) :
    wp (alone ν) (updateRows now e rows)
      (Returns fun _ s l => Holds s₀ pid (updateAll now e rows w) s l) s l := by
  induction rows generalizing w s l with
  | nil => exact .ok h
  | cons r rest ih =>
    unfold updateRows
    exact returns_bind (returns_set _ h) fun _ s l h => ih h

theorem returns_validateEmbeddingDimensions (prepared : List (Record ν)) (h : Holds s₀ pid w s l) :
    wp (alone ν) (validateEmbeddingDimensions prepared) (Returns fun _ s l =>
      ∃ w', validateDimensions prepared w = .ok w' ∧ Holds s₀ pid w' s l) s l := by
  unfold validateEmbeddingDimensions
  split
  · rename_i hnil
    exact .ok ⟨w, by simp only [validateDimensions, hnil], h⟩
  · rename_i n hone
    -- the check, once it is known what is stored
    have hcheck : ∀ m new, storedDimension w n = .ok (m, new) → n = m →
        validateDimensions prepared w = .ok (if new then setDimension m w else w) := by
      intro m new hm hnm
      simp only [validateDimensions, hone, bind_eq_ok, pure_eq_ok, ensure_eq_ok]
      exact ⟨_, hm, (), hnm, rfl⟩
    refine returns_bind (returns_select _ h) ?_
    rintro stored s l ⟨hdim, h⟩
    cases stored with
    | some m =>
      refine returns_raiseIf fun hn => ⟨w, ?_, h⟩
      refine (hcheck m false ?_ (by simpa using hn)).trans rfl
      simp only [storedDimension, ← hdim]
    | none =>
      refine returns_bind (returns_select _ h) ?_
      rintro existing s l ⟨hdims, h⟩
      split
      · refine wp_mono (returns_set _ h) fun r s l hr u hu => ⟨_, ?_, hr u hu⟩
        refine (hcheck n true ?_ rfl).trans rfl
        simp only [storedDimension, ← hdim, ← hdims]
      · rename_i m
        refine returns_bind (returns_set _ h) fun _ s l h => ?_
        refine returns_raiseIf fun hn => ⟨_, ?_, h⟩
        refine (hcheck m true ?_ (by simpa using hn)).trans rfl
        simp only [storedDimension, ← hdim, ← hdims]
      · exact .error
  · exact .error

theorem returns_replaceRows (now : Text) (e : Embeddings ν) (h : Holds s₀ pid w s l) :
    wp (alone ν) (replaceRows now e) (Returns fun _ s l =>
      ∃ w', replaceAll now e w = .ok w' ∧ Holds s₀ pid w' s l) s l := by
  unfold replaceRows
  refine returns_bind (returns_select _ h) ?_
  rintro rows s l ⟨rfl, h⟩
  refine returns_bind (returns_raiseIf (Q := fun _ s l => e.covers (orderedRecords w) = true ∧
    Holds s₀ pid w s l) fun hcov => ⟨by simpa using hcov, h⟩) ?_
  rintro _ s l ⟨hcov, h⟩
  have hall : replaceAll now e w =
      .ok (resetDimension e (updateAll now e (orderedRecords w) w)) := by
    simp only [replaceAll, bind_eq_ok, pure_eq_ok, ensure_eq_ok]
    exact ⟨(), hcov, trivial⟩
  refine returns_bind (returns_updateRows now e _ h) fun _ s l h => ?_
  refine returns_bind (returns_set _ h) fun _ s l h => ?_
  refine wp_mono (Q := Returns fun _ s l => Holds s₀ pid
    (resetDimension e (updateAll now e (orderedRecords w) w)) s l) ?_
    fun r s l hr u hu => ⟨_, hall, hr u hu⟩
  unfold resetDimension
  cases e.dimension with
  | none => exact .ok h
  | some n => exact returns_set _ h

end

/-! ## The calls -/

section

variable {ν : Type} [Python ν] {s₀ s : Shared ν} {pid : Nat} {l : Connection ν}

theorem returns_upsertManyCode (docs : List (Text × Doc ν)) (h : Outside s₀ pid s l) :
    wp (alone ν) (upsertManyCode docs) (Returns fun _ s l =>
      ∃ w, (Call.upsert docs).Applied s₀.db w ∧ Made s₀ pid w s l) s l := by
  unfold upsertManyCode
  split
  · exact .error
  · rename_i hprep
    exact .ok ⟨s₀.db, ⟨[], hprep, rfl⟩, h.made⟩
  · rename_i prepared _ hprep
    refine returns_bind (returns_ask h) fun _ s l h => ?_
    refine returns_transaction (returns_bind
      (returns_validateEmbeddingDimensions prepared h.holds) ?_)
    rintro _ s l ⟨w₁, hval, h⟩
    refine wp_mono (returns_writeRows prepared h) ?_
    rintro r s l hr u hu
    obtain ⟨w, hrows, hs⟩ := hr u hu
    refine ⟨w, ⟨prepared, hprep, ?_⟩, hs⟩
    simp only [upsertMany, bind_eq_ok]
    exact ⟨w₁, hval, hrows⟩

theorem returns_replaceEmbeddings (now : Text) (embeddings : Doc ν) (h : Outside s₀ pid s l) :
    wp (alone ν) (replaceEmbeddings now embeddings) (Returns fun _ s l =>
      ∃ w, (Call.replace now embeddings).Applied s₀.db w ∧ Made s₀ pid w s l) s l := by
  unfold replaceEmbeddings
  split
  · exact .error
  · rename_i e he
    refine returns_bind (returns_ask h) fun _ s l h => ?_
    refine returns_transaction (wp_mono (returns_replaceRows now e h.holds) ?_)
    rintro r s l hr u hu
    obtain ⟨w, hall, hs⟩ := hr u hu
    exact ⟨w, ⟨e, he, hall⟩, hs⟩

theorem returns_prog (call : Call ν) (h : Outside s₀ pid s l) :
    wp (alone ν) call.prog (Returns fun _ s l =>
      ∃ w, call.Applied s₀.db w ∧ Made s₀ pid w s l) s l := by
  cases call with
  | upsert docs => exact returns_upsertManyCode docs h
  | replace now embeddings => exact returns_replaceEmbeddings now embeddings h
  | rebuild now model =>
    cases model with
    | none => exact .error
    | some m =>
      refine returns_bind (returns_documents _ h) ?_
      rintro documents s l ⟨rfl, h⟩
      cases hr : rebuilt m ((orderedRecords s₀.db).map Record.document) with
      | error e => exact .error
      | ok x =>
        obtain ⟨ids, embeddings⟩ := x
        refine returns_bind (returns_authorize ids h) fun _ s l h => ?_
        refine wp_mono (returns_replaceEmbeddings now embeddings h) ?_
        rintro r s l hr' u hu
        obtain ⟨w, ⟨e, he, hall⟩, hs⟩ := hr' u hu
        exact ⟨w, ⟨m, ids, embeddings, e, rfl, hr, he, hall⟩, hs⟩

/-- A call on an idle connection that returns has done the whole operation. -/
theorem returned (call : Call ν) (s : Shared ν) (pid : Nat) (moves : List (Move (Option Failure)))
    (h : (attempt call s pid moves).result = some (.ok ())) :
    ∃ w, call.Applied s.db w ∧ (attempt call s pid moves).shared = { s with db := w } := by
  obtain ⟨-, hpost⟩ := wp_run die (I := fun _ _ => True) (fun _ _ => rfl) (fun _ _ _ _ _ h => h)
    (fun _ _ h => h) (returns_prog (l := { pid }) call ⟨rfl, rfl, (rfl : s = s)⟩) trivial
    (moves.map (Move.map statement))
  obtain ⟨w, happ, -, -, hs⟩ := hpost _ h () rfl
  exact ⟨w, happ, hs⟩

end

end ProjectMaya.Vector
