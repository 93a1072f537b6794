import ProjectMaya.LeaseChain

/-! # Claims of live requests

The executor factory keeps a list of `(request_id, lease)` pairs and drops, before each new
claim, those whose lease is no longer active.  A claim that is dropped belongs to a lease that
is shut (`shut_of_pruned`); the claim of a root that stays open and in time while the list is
gone through is kept (`prune_keeps`). -/

namespace ProjectMaya.Handoff

open Logic

/-- An entry of `_claimed` or `_caller_claimed`. -/
structure Claim where
  requestId : String
  lease : Nat
  deriving DecidableEq, Repr

variable {T : Type} [LinearOrder T] (clock : Clock T)

/-- `[item for item in claimed if item[1].is_active]` -/
def prune : List Claim → Leases T → List Claim × Leases T
  | [], s => ([], s)
  | item :: items, s =>
    let (active, s) := s.isActive clock item.lease
    let (kept, s) := prune items s
    (if active then item :: kept else kept, s)

/-- The body of `with self._lock`: whether the request gets a claim, and the list afterwards. -/
def claim (items : List Claim) (item : Claim) (s : Leases T) : Bool × List Claim × Leases T :=
  let (kept, s) := prune clock items s
  if kept.any fun other => other.requestId = item.requestId then (false, kept, s)
  else (true, kept ++ [item], s)

/-- A lease without parent. -/
def Top (s : Leases T) (i : Nat) : Prop := ∃ l, s.lease? i = some l ∧ l.parent = none

variable {s : Leases T}

omit [LinearOrder T] in
theorem Top.grows {t : Leases T} {i : Nat} (h : Top s i) (hg : s.Grows t) : Top t i := by
  obtain ⟨l, hl, hp⟩ := h
  obtain ⟨l', hl', hp', _⟩ := hg i l hl
  exact ⟨l', hl', hp'.trans hp⟩

omit [LinearOrder T] in
theorem Top.lt {i : Nat} (h : Top s i) : i < s.nodes.size := by
  obtain ⟨l, hl, _⟩ := h
  exact s.nodes.lt_size_of_get? hl

theorem prune_grows (items : List Claim) (s : Leases T) : s.Grows (prune clock items s).2 := by
  induction items generalizing s with
  | nil => exact .refl s
  | cons item items ih => exact (Leases.isActive_grows clock item.lease s).trans (ih _)

theorem mem_of_mem_prune {items : List Claim} {item : Claim} (h : item ∈ (prune clock items s).1) :
    item ∈ items := by
  induction items generalizing s with
  | nil => cases h
  | cons other items ih =>
    simp only [prune] at h
    split at h
    · rcases List.mem_cons.mp h with rfl | h
      · exact List.mem_cons_self
      · exact List.mem_cons_of_mem _ (ih h)
    · exact List.mem_cons_of_mem _ (ih h)

/-- What is dropped was found inactive. -/
theorem shut_of_pruned {items : List Claim} {item : Claim} (h : item ∈ items)
    (hlt : item.lease < s.nodes.size) :
    item ∈ (prune clock items s).1 ∨ (prune clock items s).2.Shut item.lease := by
  induction items generalizing s with
  | nil => cases h
  | cons other items ih =>
    have hgrows := Leases.isActive_grows clock other.lease s
    simp only [prune]
    rcases List.mem_cons.mp h with rfl | h
    · cases hactive : (s.isActive clock item.lease).1 with
      | true => exact .inl List.mem_cons_self
      | false =>
        have hshut := Leases.shut_of_isActive_false clock hlt hactive
        exact .inr (hshut.grows Leases.closed_of_evolves (prune_grows clock items _))
    · rcases ih h (Forest.Grows.size_le hgrows hlt) with hin | hshut
      · refine .inl ?_
        split
        · exact List.mem_cons_of_mem _ hin
        · exact hin
      · exact .inr hshut

/-! ## Roots in time -/

/-- The query of a root takes at most one reading. -/
theorem reads_isActive_top {i : Nat} (h : Top s i) : (s.isActive clock i).2.reads ≤ s.reads + 1 := by
  obtain ⟨lease, hi, hp⟩ := h
  have hexpire : (s.expire clock i).reads ≤ s.reads + 1 := by
    unfold Leases.expire
    split
    · exact Nat.le_succ _
    · dsimp only
      split
      · show (s.monotonic.terminate clock i .timeout).reads ≤ _
        rw [Leases.reads_terminate]
        exact Nat.le_refl _
      · exact Nat.le_refl _
  obtain ⟨l, _, hup, ⟨_, e⟩ | ⟨_, _, e⟩ | ⟨_, p, hp', _⟩⟩ := Leases.isActive_cases clock i s hi
  · rw [e]; exact hexpire
  · rw [e]; exact hexpire
  · rw [hp] at hp'; cases hp'

/-- A root that is open and in time is found active. -/
theorem isActive_top {i : Nat} (h : Top s i) (hopen : ¬ s.Shut i) (hin : s.InTime clock i (s.reads + 1)) :
    (s.isActive clock i).1 = true := by
  obtain ⟨lease, hi, hp⟩ := h
  obtain ⟨l, hl, hup, ⟨hact, e⟩ | ⟨_, _, e⟩ | ⟨_, p, hp', _⟩⟩ := Leases.isActive_cases clock i s hi
  · -- the query itself takes at most one reading, so it cannot have expired the lease
    have hreads := reads_isActive_top clock ⟨lease, hi, hp⟩
    rw [e] at hreads
    have hsame := Leases.lease?_expire clock (.inr (hin.le clock hreads))
    rw [hsame, hi] at hl
    cases hl
    exact absurd ⟨i, lease, .refl i, hi, hact⟩ hopen
  · rw [e]
  · rw [hp] at hp'; cases hp'

omit [LinearOrder T] in
theorem not_shut_congr {t : Leases T} {i : Nat} (h : Top s i) (ht : t.lease? i = s.lease? i)
    (hopen : ¬ s.Shut i) : ¬ t.Shut i := by
  rintro ⟨k, a, hb, ha, hc⟩
  obtain ⟨l, hl, hp⟩ := h
  cases hb with
  | refl => exact hopen ⟨i, a, .refl i, ht.symm.trans ha, hc⟩
  | up ha' hp' _ =>
    have he : t.lease? i = some l := ht.trans hl
    rw [Leases.lease?, ha'] at he
    cases he
    rw [hp] at hp'
    cases hp'

/-- The claim of a root that is open, and in time for one reading for each entry, is kept. -/
theorem prune_keeps {items : List Claim} {item : Claim} (h : item ∈ items) (htop : Top s item.lease)
    (htops : ∀ other ∈ items, Top s other.lease) (hopen : ¬ s.Shut item.lease)
    (hin : s.InTime clock item.lease (s.reads + items.length)) : item ∈ (prune clock items s).1 := by
  induction items generalizing s with
  | nil => cases h
  | cons other items ih =>
    have hreads := reads_isActive_top clock (htops other List.mem_cons_self)
    simp only [prune]
    rcases List.mem_cons.mp h with rfl | h
    · rw [isActive_top clock htop hopen (hin.le clock (by simp only [List.length_cons]; omega))]
      exact List.mem_cons_self
    · have hgrows := Leases.isActive_grows clock other.lease s
      have hlate : s.InTime clock item.lease ((s.isActive clock other.lease).2.reads + items.length) :=
        hin.le clock (by simp only [List.length_cons]; omega)
      have hsame : (s.isActive clock other.lease).2.lease? item.lease = s.lease? item.lease :=
        Leases.lease?_isActive clock (.inr (hlate.le clock (Nat.le_add_right _ _)))
      have hkept := ih h (htop.grows hgrows)
        (fun other hmem => (htops other (List.mem_cons_of_mem _ hmem)).grows hgrows)
        (not_shut_congr htop hsame hopen) (hlate.congr clock hsame)
      split
      · exact List.mem_cons_of_mem _ hkept
      · exact hkept

/-- What a claim does to the list: it is pruned, and then it may get a new entry, of which it
has none. -/
theorem claim_cases (items : List Claim) (item : Claim) (s : Leases T) :
    (claim clock items item s).2.2 = (prune clock items s).2 ∧
      ((claim clock items item s).1 = false ∧ (claim clock items item s).2.1 = (prune clock items s).1 ∨
        (claim clock items item s).1 = true ∧ item ∉ (prune clock items s).1 ∧
          (claim clock items item s).2.1 = (prune clock items s).1 ++ [item]) := by
  simp only [claim]
  split
  · exact ⟨rfl, .inl ⟨rfl, rfl⟩⟩
  · rename_i hnone
    refine ⟨rfl, .inr ⟨rfl, ?_, rfl⟩⟩
    intro hmem
    exact hnone (List.any_eq_true.mpr ⟨item, hmem, decide_eq_true rfl⟩)

theorem claim_grows (items : List Claim) (item : Claim) (s : Leases T) :
    s.Grows (claim clock items item s).2.2 := by
  rw [(claim_cases clock items item s).1]
  exact prune_grows clock items s

/-- A ledger of claims that were made: each is still listed, or its lease is shut. -/
def Ledger (made items : List Claim) (s : Leases T) : Prop :=
  ∀ item ∈ made, item ∈ items ∨ s.Shut item.lease

/-- After a claim the ledger is right again.  A claim that is made twice is one of a lease that
is shut. -/
theorem Ledger.claim {made items : List Claim} {item : Claim} (h : Ledger made items s)
    (hlt : ∀ other ∈ made, other.lease < s.nodes.size) :
    Ledger made (claim clock items item s).2.1 (claim clock items item s).2.2 ∧
      ((claim clock items item s).1 = true →
        Ledger (made ++ [item]) (claim clock items item s).2.1 (claim clock items item s).2.2 ∧
        (item ∈ made → (claim clock items item s).2.2.Shut item.lease)) := by
  have hpruned : Ledger made (prune clock items s).1 (prune clock items s).2 := by
    intro other hother
    rcases h other hother with hin | hshut
    · exact shut_of_pruned clock hin (hlt other hother)
    · exact .inr (hshut.grows Leases.closed_of_evolves (prune_grows clock items s))
  obtain ⟨hleases, ⟨hno, hlist⟩ | ⟨hyes, hnew, hlist⟩⟩ := claim_cases clock items item s
  · rw [hleases, hlist, hno]
    exact ⟨hpruned, nofun⟩
  · have hsnoc : Ledger (made ++ [item]) ((prune clock items s).1 ++ [item]) (prune clock items s).2 := by
      intro other hother
      rcases List.mem_append.mp hother with hother | hother
      · rcases hpruned other hother with hin | hshut
        · exact .inl (List.mem_append_left _ hin)
        · exact .inr hshut
      · exact .inl (List.mem_append_right _ hother)
    rw [hleases, hlist]
    refine ⟨fun other hother => hsnoc other (List.mem_append_left _ hother), fun _ => ⟨hsnoc, ?_⟩⟩
    intro hmade
    exact (hpruned item hmade).resolve_left hnew

/-- A claim of a root that has one already, is open, and stays in time is refused. -/
theorem claim_refused {made items : List Claim} {item : Claim} (h : Ledger made items s)
    (hmade : item ∈ made) (htop : Top s item.lease) (htops : ∀ other ∈ items, Top s other.lease)
    (hopen : ¬ s.Shut item.lease) (hin : s.InTime clock item.lease (s.reads + items.length)) :
    (claim clock items item s).1 = false := by
  have hlisted := (h item hmade).resolve_right hopen
  have hkept := prune_keeps clock hlisted htop htops hopen hin
  obtain ⟨_, ⟨hno, _⟩ | ⟨_, hnew, _⟩⟩ := claim_cases clock items item s
  · exact hno
  · exact absurd hkept hnew

end ProjectMaya.Handoff
