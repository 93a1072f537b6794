import ProjectMaya.VectorSessions

/-! # What a connection's commit does

A call whose transaction starts on the state it has selected from commits what the whole
operation makes of that state (`Call.Applied`).  While it runs, the connection sees some
state that is related to the committed one (`View`); each statement moves that relation
on. -/

namespace ProjectMaya.Vector

open Logic

section

variable {ν : Type}

/-- The committed state is `d`, and the connection sees `w`: in its transaction, or because it
has selected from it and changed nothing. -/
def Sees (d w : Db ν) (s : Shared ν) (l : Connection ν) : Prop :=
  s.db = d ∧ ((l.tx = some w ∧ s.writer = some l.pid) ∨ (l.tx = none ∧ l.read = true ∧ w = d))

/-- The call has not selected or changed anything, or what it sees is related to the committed
state. -/
def View (K : Db ν → Db ν → Prop) (s : Shared ν) (l : Connection ν) : Prop :=
  (l.tx = none ∧ l.read = false ∧ ∀ d, K d d) ∨ ∃ d w, Sees d w s l ∧ K d w

/-- An open transaction holds the writer lock. -/
def Tidy (s : Shared ν) (l : Connection ν) : Prop := l.tx.isSome = true → s.writer = some l.pid

/-- The contract of a call whose commit has the effect `G`. -/
def contractOf (G : Db ν → Db ν → Prop) : Contract (Shared ν) (Connection ν) where
  rely l s s' :=
    (l.between = true ∨ s.writer = some l.pid → s'.db = s.db) ∧
      (s'.writer = some l.pid ↔ s.writer = some l.pid)
  guar s l s' l' :=
    l'.pid = l.pid ∧ (s'.db = s.db ∨ (s.writer = some l.pid ∧ G s.db s'.db)) ∧
      ∀ q, q ≠ l.pid → (s'.writer = some q ↔ s.writer = some q)

variable {G : Db ν → Db ν → Prop} {K : Db ν → Db ν → Prop} {d w : Db ν} {s s' : Shared ν}
  {l : Connection ν}

theorem Sees.stable (h : Sees d w s l) (hr : (contractOf G).rely l s s') : Sees d w s' l := by
  obtain ⟨hd, ⟨htx, hw⟩ | ⟨htx, hread, rfl⟩⟩ := h
  · exact ⟨(hr.1 (.inr hw)).trans hd, .inl ⟨htx, hr.2.2 hw⟩⟩
  · have hb : l.between = true := by simp [Connection.between, htx, hread]
    exact ⟨(hr.1 (.inl hb)).trans hd, .inr ⟨htx, hread, rfl⟩⟩

theorem View.stable (h : View K s l) (hr : (contractOf G).rely l s s') : View K s' l := by
  rcases h with h | ⟨d, w, hs, hk⟩
  · exact .inl h
  · exact .inr ⟨d, w, hs.stable hr, hk⟩

theorem Tidy.stable (h : Tidy s l) (hr : (contractOf G).rely l s s') : Tidy s' l :=
  fun htx => hr.2.2 (h htx)

theorem Sees.tidy (h : Sees d w s l) : Tidy s l := by
  intro htx
  obtain ⟨-, ⟨-, hw⟩ | ⟨hn, -, -⟩⟩ := h
  · exact hw
  · rw [hn] at htx
    cases htx

theorem View.tidy (h : View K s l) : Tidy s l := by
  rcases h with ⟨hn, -, -⟩ | ⟨d, w, hs, -⟩
  · intro htx
    rw [hn] at htx
    cases htx
  · exact hs.tidy

theorem View.mono {K' : Db ν → Db ν → Prop} (h : View K s l) (hk : ∀ d w, K d w → K' d w) :
    View K' s l := by
  rcases h with ⟨hn, hr, hd⟩ | ⟨d, w, hs, hd⟩
  · exact .inl ⟨hn, hr, fun d => hk d d (hd d)⟩
  · exact .inr ⟨d, w, hs, hk d w hd⟩

/-- An action that leaves the shared state alone. -/
theorem guar_same {l' : Connection ν} (hp : l'.pid = l.pid) : (contractOf G).guar s l s l' :=
  ⟨hp, .inl rfl, fun _ _ => Iff.rfl⟩

/-! ## Rules for the statements -/

/-- A result with a view, or an exception that leaves things tidy. -/
def Viewing {β : Type} (V : β → Shared ν → Connection ν → Prop) (r : Except Failure β)
    (s : Shared ν) (l : Connection ν) : Prop :=
  match r with
  | .ok b => V b s l
  | .error _ => Tidy s l

theorem wp_ask (h : View K s l) :
    wp (contractOf G) (.perform Act.ask) (Viewing fun _ => View K) s l := by
  refine wp_perform fun s' hs' f => ?_
  have h' := h.stable hs'
  cases f with
  | none => exact ⟨guar_same rfl, h'⟩
  | fail e => exact ⟨guar_same rfl, h'.tidy⟩
  | late e => exact ⟨guar_same rfl, h'.tidy⟩

theorem wp_select {β : Type} (f : Db ν → β) (h : View K s l) :
    wp (contractOf G) (.perform (Act.select f))
      (Viewing fun b => View fun d w => K d w ∧ b = f w) s l := by
  refine wp_perform fun s' hs' c => ?_
  have h' := h.stable hs'
  have hsel : View (fun d w => K d w ∧ f (visible s' l) = f w) s'
      { l with read := l.read || l.tx.isNone } := by
    rcases h' with ⟨hn, hr, hd⟩ | ⟨d, w, ⟨hd, ⟨htx, hw⟩ | ⟨htx, hread, rfl⟩⟩, hk⟩
    · exact .inr ⟨s'.db, s'.db, ⟨rfl, .inr ⟨hn, by simp [hn], rfl⟩⟩, hd _, by simp [visible, hn]⟩
    · exact .inr ⟨d, w, ⟨hd, .inl ⟨htx, hw⟩⟩, hk, by simp [visible, htx]⟩
    · exact .inr ⟨w, w, ⟨hd, .inr ⟨htx, by simp [hread], rfl⟩⟩, hk, by simp [visible, htx, hd]⟩
  cases c with
  | none => exact ⟨guar_same rfl, hsel⟩
  | fail e => exact ⟨guar_same rfl, h'.tidy⟩
  | late e => exact ⟨guar_same rfl, hsel.tidy⟩

/-- What a data-changing statement does when it succeeds. -/
theorem change_eq_ok {f : Db ν → Except Failure (Db ν)} {l' : Connection ν} (h : View K s l)
    (hc : Act.change f s l = .ok (s', l')) :
    (contractOf G).guar s l s' l' ∧ View (fun d w' => ∃ w, K d w ∧ f w = .ok w') s' l' := by
  unfold Act.change at hc
  cases htx : l.tx with
  | some db =>
    simp only [htx, bind_eq_ok, pure_eq_ok] at hc
    obtain ⟨db', hf, heq⟩ := hc
    cases heq
    refine ⟨guar_same rfl, .inr ?_⟩
    rcases h with ⟨hn, -, -⟩ | ⟨d, w, ⟨hd, ⟨hw, hwr⟩ | ⟨hn, -, -⟩⟩, hk⟩
    · rw [htx] at hn; cases hn
    · rw [htx] at hw
      cases hw
      exact ⟨d, db', ⟨hd, .inl ⟨rfl, hwr⟩⟩, db, hk, hf⟩
    · rw [htx] at hn; cases hn
  | none =>
    simp only [htx, bind_eq_ok, pure_eq_ok, ensure_eq_ok] at hc
    obtain ⟨_, hfree, db', hf, heq⟩ := hc
    cases heq
    refine ⟨⟨rfl, .inl rfl, fun q hq => ?_⟩, .inr ⟨s.db, db', ⟨rfl, .inl ⟨rfl, rfl⟩⟩, s.db, ?_, hf⟩⟩
    · rw [hfree]
      simp [Ne.symm hq]
    · rcases h with ⟨-, -, hd⟩ | ⟨d, w, ⟨hd, ⟨hw, -⟩ | ⟨-, -, rfl⟩⟩, hk⟩
      · exact hd _
      · rw [htx] at hw; cases hw
      · rw [hd]
        exact hk

theorem wp_execute (f : Db ν → Except Failure (Db ν)) (h : View K s l) :
    wp (contractOf G) (.perform (Act.execute f))
      (Viewing fun _ => View fun d w' => ∃ w, K d w ∧ f w = .ok w') s l := by
  refine wp_perform fun s' hs' c => ?_
  have h' := h.stable hs'
  cases hc : Act.change f s' l with
  | error e =>
    have hnext : (Act.execute f).next c s' l =
        (.error (match c with | .fail e' => e' | _ => e), s', l) := by
      cases c <;> simp [Act.execute, hc]
    rw [hnext]
    exact ⟨guar_same rfl, h'.tidy⟩
  | ok x =>
    obtain ⟨s'', l''⟩ := x
    obtain ⟨hg, hv⟩ := change_eq_ok (G := G) h' hc
    cases c with
    | none =>
      simp only [Act.execute, hc]
      exact ⟨hg, hv⟩
    | fail e =>
      simp only [Act.execute]
      exact ⟨guar_same rfl, h'.tidy⟩
    | late e =>
      simp only [Act.execute, hc]
      exact ⟨hg, hv.tidy⟩

/-- Any end of a call. -/
def Ended (_ : Except Failure Unit) (_ : Shared ν) (_ : Connection ν) : Prop := True

/-- The file after a commit of the connection. -/
def Connection.landed (l : Connection ν) (s : Shared ν) : Shared ν :=
  match l.tx with
  | some db => { s with db, writer := none }
  | none => s

theorem wp_commit (h : View K s l) (hk : ∀ d w, K d w → G d w) :
    wp (contractOf G) (.perform Act.commit) (Viewing fun _ _ _ => True) s l := by
  refine wp_perform fun s' hs' c => ?_
  have h' := h.stable hs'
  have hg : (contractOf G).guar s' l (l.landed s') (Act.ended l) := by
    unfold Connection.landed
    cases htx : l.tx with
    | none => exact guar_same rfl
    | some db =>
      have hw := h'.tidy (by rw [htx]; rfl)
      rcases h' with ⟨hn, -, -⟩ | ⟨d, w, ⟨hd, ⟨hwx, -⟩ | ⟨hn, -, -⟩⟩, hkd⟩
      · rw [htx] at hn; cases hn
      · rw [htx] at hwx
        cases hwx
        refine ⟨rfl, .inr ⟨hw, ?_⟩, fun q hq => ?_⟩
        · rw [hd]
          exact hk d db hkd
        · rw [hw]
          simp [Ne.symm hq]
      · rw [htx] at hn; cases hn
  cases c with
  | none => exact ⟨hg, trivial⟩
  | fail e => exact ⟨guar_same rfl, h'.tidy⟩
  | late e => exact ⟨hg, fun h => by cases h⟩

theorem wp_rollback (h : Tidy s l) :
    wp (contractOf G) (.perform Act.rollback) Ended s l := by
  refine wp_perform fun s' hs' c => ⟨?_, trivial⟩
  have h' := h.stable hs'
  show (contractOf G).guar s' l (if l.tx.isSome then { s' with writer := none } else s') _
  by_cases htx : l.tx.isSome = true
  · rw [if_pos htx]
    refine ⟨rfl, .inl rfl, fun q hq => ?_⟩
    rw [h' htx]
    simp [Ne.symm hq]
  · rw [if_neg htx]
    exact guar_same rfl

/-- A transaction whose body relates what it sees as the commit has to. -/
theorem wp_transaction {p : Code ν Unit}
    (hp : wp (contractOf G) p (Viewing fun _ => View G) s l) :
    wp (contractOf G) (transaction p) Ended s l := by
  refine wp_onError (wp_bind hp (fun _ s l h => wp_commit h fun _ _ h => h) fun _ _ _ h => h)
    (fun _ _ _ _ => trivial) fun e s l h => wp_mono (wp_rollback h) fun r s l _ => ?_
  cases r <;> exact trivial

/-! ## The loops -/

theorem wp_seq {α : Type} {p : Code ν Unit} {q : Code ν α} {V : Shared ν → Connection ν → Prop}
    {Q : α → Shared ν → Connection ν → Prop}
    (hp : wp (contractOf G) p (Viewing fun _ => V) s l)
    (hq : ∀ s l, V s l → wp (contractOf G) q (Viewing Q) s l) :
    wp (contractOf G) (p >>= fun _ => q) (Viewing Q) s l :=
  wp_bind hp (fun _ s l h => hq s l h) fun _ _ _ h => h

theorem wp_view_mono {p : Code ν Unit} {K' : Db ν → Db ν → Prop}
    (hp : wp (contractOf G) p (Viewing fun _ => View K) s l) (hk : ∀ d w, K d w → K' d w) :
    wp (contractOf G) p (Viewing fun _ => View K') s l := by
  refine wp_mono hp fun r s l hr => ?_
  cases r with
  | error e => exact hr
  | ok u =>
    have hv : View K s l := hr
    exact hv.mono hk

theorem wp_pure_view {K' : Db ν → Db ν → Prop} (h : View K s l) (hk : ∀ d w, K d w → K' d w) :
    wp (contractOf G) (pure () : Code ν Unit) (Viewing fun _ => View K') s l := h.mono hk

theorem wp_writeRows (rows : List (Record ν)) (h : View K s l) :
    wp (contractOf G) (writeRows rows) (Viewing fun _ => View fun d w' => ∃ w, K d w ∧
      rows.foldlM (fun db r => upsertRow r db) w = .ok w') s l := by
  induction rows generalizing K s l with
  | nil => exact wp_pure_view h fun d w hk => ⟨w, hk, rfl⟩
  | cons r rest ih =>
    unfold writeRows
    refine wp_seq (wp_execute _ h) fun s l h => ?_
    refine wp_seq (wp_execute _ h) fun s l h => ?_
    refine wp_seq (wp_execute _ h) fun s l h => ?_
    refine wp_view_mono (ih h) ?_
    rintro d w' ⟨w₃, ⟨w₂, ⟨w₁, ⟨w, hk, h₁⟩, h₂⟩, h₃⟩, hrest⟩
    cases h₂
    cases h₃
    refine ⟨w, hk, ?_⟩
    simp only [List.foldlM_cons, upsertRow, bind_eq_ok, pure_eq_ok]
    exact ⟨_, ⟨w₁, h₁, rfl⟩, hrest⟩

theorem wp_updateRows (now : Text) (e : Embeddings ν) (rows : List (Record ν)) (h : View K s l) :
    wp (contractOf G) (updateRows now e rows) (Viewing fun _ => View fun d w' => ∃ w, K d w ∧
      updateAll now e rows w = w') s l := by
  induction rows generalizing K s l with
  | nil => exact wp_pure_view h fun d w hk => ⟨w, hk, rfl⟩
  | cons r rest ih =>
    unfold updateRows
    refine wp_seq (wp_execute _ h) fun s l h => ?_
    refine wp_view_mono (ih h) ?_
    rintro d w' ⟨w₁, ⟨w, hk, h₁⟩, hrest⟩
    cases h₁
    exact ⟨w, hk, hrest⟩

/-! ## The bodies of the transactions -/

theorem wp_raise {α : Type} {e : Failure} {Q : α → Shared ν → Connection ν → Prop} (h : Tidy s l) :
    wp (contractOf G) (Prog.raise e : Code ν α) (Viewing Q) s l := h

theorem wp_raiseIf_view {c : Prop} [Decidable c] {e : Failure} {V : Shared ν → Connection ν → Prop}
    (ht : c → Tidy s l) (hf : ¬ c → V s l) :
    wp (contractOf G) (Prog.raiseIf c e : Code ν Unit) (Viewing fun _ => V) s l :=
  wp_raiseIf ht hf

theorem wp_read {α β : Type} {p : Code ν β} {q : β → Code ν α}
    {V : β → Shared ν → Connection ν → Prop} {Q : α → Shared ν → Connection ν → Prop}
    (hp : wp (contractOf G) p (Viewing V) s l)
    (hq : ∀ b s l, V b s l → wp (contractOf G) (q b) (Viewing Q) s l) :
    wp (contractOf G) (p >>= q) (Viewing Q) s l :=
  wp_bind hp (fun b s l h => hq b s l h) fun _ _ _ h => h

/-- The check of the dimensions, from a connection that sees the committed state. -/
theorem wp_validateEmbeddingDimensions (prepared : List (Record ν))
    (h : View (fun d w => w = d) s l) :
    wp (contractOf G) (validateEmbeddingDimensions prepared)
      (Viewing fun _ => View fun d w => validateDimensions prepared d = .ok w) s l := by
  unfold validateEmbeddingDimensions
  split
  · rename_i hnil
    refine wp_pure_view h ?_
    rintro d w rfl
    simp only [validateDimensions, hnil]
  · rename_i n hone
    refine wp_read (wp_select _ h) fun stored s l h => ?_
    cases stored with
    | some m =>
      refine wp_raiseIf_view (fun _ => h.tidy) fun hn => h.mono ?_
      rintro d w ⟨rfl, hdim⟩
      have hnm : n = m := by simpa using hn
      simp only [validateDimensions, hone, storedDimension, ← hdim, bind_eq_ok, pure_eq_ok,
        ensure_eq_ok]
      exact ⟨_, rfl, (), hnm, rfl⟩
    | none =>
      refine wp_read (wp_select _ h) fun existing s l h => ?_
      split
      · refine wp_view_mono (wp_execute _ h) ?_
        rintro d w' ⟨w, ⟨⟨rfl, hdim⟩, hdims⟩, hset⟩
        cases hset
        simp only [validateDimensions, hone, storedDimension, ← hdim, ← hdims, bind_eq_ok,
          pure_eq_ok, ensure_eq_ok]
        exact ⟨_, rfl, (), rfl, rfl⟩
      · rename_i m
        refine wp_seq (wp_execute _ h) fun s l h => ?_
        refine wp_raiseIf_view (fun _ => h.tidy) fun hn => h.mono ?_
        rintro d w' ⟨w, ⟨⟨rfl, hdim⟩, hdims⟩, hset⟩
        cases hset
        have hnm : n = m := by simpa using hn
        simp only [validateDimensions, hone, storedDimension, ← hdim, ← hdims, bind_eq_ok,
          pure_eq_ok, ensure_eq_ok]
        exact ⟨_, rfl, (), hnm, rfl⟩
      · exact wp_raise h.tidy
  · exact wp_raise h.tidy

/-- `replace_embeddings` inside its transaction; `B` is what is known of the committed state. -/
theorem wp_replaceRows (now : Text) (e : Embeddings ν) {B : Db ν → Prop}
    (h : View (fun d w => w = d ∧ B d) s l) :
    wp (contractOf G) (replaceRows now e)
      (Viewing fun _ => View fun d w => B d ∧ replaceAll now e d = .ok w) s l := by
  unfold replaceRows
  refine wp_read (wp_select _ h) fun rows s l h => ?_
  by_cases hcov : e.covers rows = false
  · refine wp_seq (wp_raiseIf_view (V := fun _ _ => False) (fun _ => h.tidy) fun hn => hn hcov)
      fun s l hf => hf.elim
  · refine wp_seq (V := View _) (wp_raiseIf_view (fun hc => absurd hc hcov) fun _ => h) fun s l h => ?_
    refine wp_seq (wp_updateRows now e rows h) fun s l h => ?_
    refine wp_seq (wp_execute _ h) fun s l h => ?_
    have hdone : ∀ d w₃, (∃ w₂, (∃ w₁, ((w₁ = d ∧ B d) ∧ rows = orderedRecords w₁) ∧
        updateAll now e rows w₁ = w₂) ∧ (Except.ok (clearDimension w₂) : Except Failure (Db ν)) = .ok w₃) →
        B d ∧ ensure (e.covers (orderedRecords d))
          (Failure.valueError "embedding rebuild must cover every memory record") = .ok () ∧
          w₃ = clearDimension (updateAll now e (orderedRecords d) d) := by
      rintro d w₃ ⟨w₂, ⟨w₁, ⟨⟨rfl, hB⟩, rfl⟩, rfl⟩, hclear⟩
      cases hclear
      exact ⟨hB, ensure_eq_ok.2 (by simpa using hcov), rfl⟩
    cases hdim : e.dimension with
    | none =>
      refine wp_pure_view h fun d w hk => ?_
      obtain ⟨hB, hens, rfl⟩ := hdone d w hk
      refine ⟨hB, ?_⟩
      simp only [replaceAll, hens, resetDimension, hdim]
      rfl
    | some n =>
      refine wp_view_mono (wp_execute _ h) ?_
      rintro d w' ⟨w, hk, hset⟩
      cases hset
      obtain ⟨hB, hens, rfl⟩ := hdone d w hk
      refine ⟨hB, ?_⟩
      simp only [replaceAll, hens, resetDimension, hdim]
      rfl

/-! ## The calls -/

/-- Nothing has been selected or changed. -/
theorem view_fresh (hn : l.tx = none) (hr : l.read = false) : View (fun d w => w = d) s l :=
  .inl ⟨hn, hr, fun _ => rfl⟩

/-- A transaction after a request to something else. -/
theorem wp_ask_transaction {p : Code ν Unit} (h : View K s l)
    (hp : ∀ s l, View K s l → wp (contractOf G) p (Viewing fun _ => View G) s l) :
    wp (contractOf G) (do .perform Act.ask; transaction p) Ended s l :=
  wp_bind (wp_ask h) (fun _ s l h => wp_transaction (hp s l h)) fun _ _ _ _ => trivial

theorem wp_authorizeEmbeddingRebuild (ids : List Text) (h : View K s l) :
    wp (contractOf G) (authorizeEmbeddingRebuild ids : Code ν Unit) (Viewing fun _ => View K) s l := by
  induction ids generalizing s l with
  | nil => exact wp_pure_view h fun _ _ hk => hk
  | cons _ rest ih => exact wp_seq (wp_ask h) fun s l h => ih h

end

section

variable {ν : Type} [Python ν]

/-- What a call makes of a state when nothing comes in between. -/
def Call.Applied : Call ν → Db ν → Db ν → Prop
  | .upsert docs, d, d' => ∃ prepared,
      docs.mapM (fun x => prepareDocument x.1 x.2) = .ok prepared ∧ upsertMany prepared d = .ok d'
  | .replace now embeddings, d, d' => ∃ e,
      checkEmbeddings embeddings = .ok e ∧ replaceAll now e d = .ok d'
  | .rebuild now model, d, d' => ∃ m ids embeddings e, model = some m ∧
      rebuilt m ((orderedRecords d).map Record.document) = .ok (ids, embeddings) ∧
      checkEmbeddings embeddings = .ok e ∧ replaceAll now e d = .ok d'

variable {s : Shared ν} {l : Connection ν}

theorem wp_upsertManyCode (docs : List (Text × Doc ν)) (hn : l.tx = none) (hr : l.read = false) :
    wp (contractOf (Call.upsert docs).Applied) (upsertManyCode docs) Ended s l := by
  unfold upsertManyCode
  split
  · exact trivial
  · exact trivial
  · rename_i prepared _ hprep
    refine wp_ask_transaction (view_fresh hn hr) fun s l h => ?_
    refine wp_seq (wp_validateEmbeddingDimensions prepared h) fun s l h => ?_
    refine wp_view_mono (wp_writeRows prepared h) ?_
    rintro d w' ⟨w, hval, hrows⟩
    refine ⟨prepared, hprep, ?_⟩
    simp only [upsertMany, bind_eq_ok]
    exact ⟨w, hval, hrows⟩

theorem wp_remember (now : Text) (document : Doc ν) (hn : l.tx = none) (hr : l.read = false) :
    wp (contractOf (Call.upsert [(now, document)]).Applied) (remember now document) Ended s l := by
  have hask : wp (contractOf (Call.upsert [(now, document)]).Applied) (.perform Act.ask)
      (fun _ _ l' => l' = l) s l := by
    refine wp_perform fun s' _ c => ?_
    cases c <;> exact ⟨guar_same rfl, rfl⟩
  refine wp_bind hask (fun _ s l₁ h₁ => ?_) fun _ _ _ _ => trivial
  refine wp_bind (P := fun _ _ l' => l' = l) (wp_raiseIf (fun _ => h₁) fun _ => h₁) (fun _ s l₂ h₂ => ?_) fun _ _ _ _ => trivial
  rw [h₂]
  exact wp_upsertManyCode _ hn hr

/-- `replace_embeddings`, with something known of the committed state. -/
theorem wp_replaceEmbeddings (now : Text) (embeddings : Doc ν) {G : Db ν → Db ν → Prop}
    {B : Db ν → Prop} (h : View (fun d w => w = d ∧ B d) s l)
    (hG : ∀ e d d', B d → checkEmbeddings embeddings = .ok e → replaceAll now e d = .ok d' → G d d') :
    wp (contractOf G) (replaceEmbeddings now embeddings) Ended s l := by
  unfold replaceEmbeddings
  split
  · exact trivial
  · rename_i e he
    refine wp_ask_transaction h fun s l h => ?_
    exact wp_view_mono (wp_replaceRows now e h) fun d w hk => hG e d w hk.1 he hk.2

theorem wp_rebuildEmbeddings (now : Text) (model : Option (Model ν)) (hn : l.tx = none)
    (hr : l.read = false) :
    wp (contractOf (Call.rebuild now model).Applied) (rebuildEmbeddings now model) Ended s l := by
  cases model with
  | none => exact trivial
  | some m =>
    refine wp_bind (wp_select _ (view_fresh hn hr)) (fun documents s l h => ?_) fun _ _ _ _ => trivial
    cases hreb : rebuilt m documents with
    | error e => exact trivial
    | ok x =>
      obtain ⟨ids, embeddings⟩ := x
      have h : View (fun d w => w = d ∧ documents = (orderedRecords w).map Record.document) s l := h
      have hview : View (fun d w => w = d ∧ documents = (orderedRecords d).map Record.document) s l := by
        refine h.mono ?_
        rintro d w ⟨rfl, hdocs⟩
        exact ⟨rfl, hdocs⟩
      refine wp_bind (wp_authorizeEmbeddingRebuild ids hview) (fun _ s l h => ?_)
        fun _ _ _ _ => trivial
      have h : View (fun d w => w = d ∧ documents = (orderedRecords d).map Record.document) s l := h
      refine wp_replaceEmbeddings now embeddings h ?_
      · intro e d d' hdocs he hrep
        exact ⟨m, ids, embeddings, e, rfl, hdocs ▸ hreb, he, hrep⟩

/-- Every call meets its contract. -/
theorem wp_prog (a : Call ν) (hn : l.tx = none) (hr : l.read = false) :
    wp (contractOf a.Applied) a.prog Ended s l := by
  cases a with
  | upsert docs => exact wp_upsertManyCode docs hn hr
  | replace now embeddings =>
    exact wp_replaceEmbeddings now embeddings (B := fun _ => True)
      ((view_fresh hn hr).mono fun _ _ h => ⟨h, trivial⟩) fun e d d' _ he hrep => ⟨e, he, hrep⟩
  | rebuild now model => exact wp_rebuildEmbeddings now model hn hr

/-! ## Runs -/

/-- The contracts of the calls. -/
def duties (ν : Type) [Python ν] : Duties (sessions ν) where
  own p l := l.pid = p
  contract a := contractOf a.Applied
  post _ := Ended
  own_enter _ _ h := h
  enter p a s l _ := wp_prog a rfl rfl
  rely_refl _ _ _ := ⟨fun _ => rfl, Iff.rfl⟩
  rely_trans := by
    intro a l s s' s'' h h'
    refine ⟨fun hl => ?_, h'.2.trans h.2⟩
    have hs := h.1 hl
    exact (h'.1 (hl.imp id h.2.2)).trans hs
  post_stable _ _ _ _ _ _ _ := trivial
  own_guar p a s l s' l' h hg := hg.1.trans h
  own_die _ _ _ h := h

/-- If a turn changes the committed state, no other connection has at that moment selected
something and not yet changed anything. -/
def Undisturbed (c : Config Fault (Shared ν) (Connection ν) Failure (Call ν) Unit)
    (t : Turn Fault (Call ν)) : Prop :=
  ((sessions ν).turn c t).shared.db ≠ c.shared.db →
    ∀ q, q ≠ t.host → (c.host q).running.isSome = true → (c.host q).loc.between = false

/-- What an undisturbed turn does to the committed state: nothing, or a whole operation. -/
theorem turn_applied {c : Config Fault (Shared ν) (Connection ν) Failure (Call ν) Unit}
    {t : Turn Fault (Call ν)} (hk : (duties ν).Kept c) :
    ((sessions ν).turn c t).shared.db = c.shared.db ∨
      ∃ a k, (c.host t.host).running = some (a, k) ∧
        a.Applied c.shared.db ((sessions ν).turn c t).shared.db := by
  cases (duties ν).change hk t with
  | none h => exact .inl (by rw [h])
  | acted hrun hg =>
    rcases hg.2.1 with h | ⟨-, h⟩
    · exact .inl h
    · exact .inr ⟨_, _, hrun, h⟩
  | crashed h => exact .inl (by rw [h]; rfl)

theorem tolerated {c : Config Fault (Shared ν) (Connection ν) Failure (Call ν) Unit}
    {t : Turn Fault (Call ν)} (hk : (duties ν).Kept c) (hu : Undisturbed c t) :
    (duties ν).Tolerated c t := by
  intro q b prog hq hrun
  have hp : (c.host t.host).loc.pid = t.host := hk.own t.host
  have hqp : (c.host q).loc.pid = q := hk.own q
  have hne : (c.host q).loc.pid ≠ (c.host t.host).loc.pid := by rw [hp, hqp]; exact hq
  cases (duties ν).change hk t with
  | none h => rw [h]; exact ⟨fun _ => rfl, Iff.rfl⟩
  | acted _ hg =>
    refine ⟨fun hl => ?_, hg.2.2 _ hne⟩
    by_contra hdb
    rcases hl with hb | hw
    · have hfree := hu hdb q hq (by rw [hrun]; rfl)
      rw [hfree] at hb
      cases hb
    · rcases hg.2.1 with hsame | ⟨hw', -⟩
      · exact hdb hsame
      · exact hne (Option.some.inj (hw.symm.trans hw'))
  | crashed h =>
    rw [h]
    refine ⟨fun _ => rfl, ?_⟩
    show (if c.shared.writer = some (c.host t.host).loc.pid then none else c.shared.writer) = _ ↔ _
    split
    · rename_i hw
      rw [hw]
      exact ⟨nofun, fun h => absurd (Option.some.inj h).symm hne⟩
    · exact Iff.rfl

theorem kept_initial : (duties ν).Kept (initial ν) := (duties ν).kept_initial fun _ => rfl

/-- **Undisturbed runs.**  What every whole operation of the calls that are started keeps holds
of the committed state after the run. -/
theorem undisturbed_keeps {I : Db ν → Prop} {turns : List (Turn Fault (Call ν))}
    (hI : I Db.empty)
    (hstep : ∀ a ∈ starts turns, ∀ d d', Call.Applied a d d' → I d → I d')
    (hrun : (sessions ν).Along Undisturbed (initial ν) turns) :
    I ((sessions ν).run (initial ν) turns).shared.db := by
  refine (duties ν).run_keeps_starts (P := Undisturbed) (I := fun c => I c.shared.db)
    (Q := fun a => ∀ d d', Call.Applied a d d' → I d → I d') ?_ kept_initial hI nofun hstep hrun
  intro c t hk hi hq hu
  refine ⟨tolerated hk hu, ?_⟩
  rcases turn_applied (t := t) hk with h | ⟨a, k, hrun, h⟩
  · rw [h]
    exact hi
  · exact hq t.host a k hrun _ _ h hi

end

end ProjectMaya.Vector
