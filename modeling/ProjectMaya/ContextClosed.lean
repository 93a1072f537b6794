import Mathlib.Data.List.Induction
import Mathlib.Data.List.TakeWhile
import ProjectMaya.Logic.Sorted
import ProjectMaya.ContextBuilder

/-! # What `build_context` returns

The blocks in a closed form: the hits that have content, stably sorted, the first one of every id,
and of these as many as fit the budget one after the other. Hits that sort after all blocks leave
the blocks as they are (`blocks_of_added`). -/

namespace ProjectMaya.ContextBuilder

open ProjectMaya.Vector (Text text)

section

variable {ν : Type}

/-- The hits before which no other one has their id; no id counts as an id. -/
def firsts (l : List (Hit ν)) : List (Hit ν) :=
  (l.zipIdx.filter fun x => (l.take x.2).all fun s => s.cid ≠ x.1.cid).map Prod.fst

/-- The block without what the validator has said. -/
def Block.bare (b : Block ν) : Block ν := { b with govAnnotations := none }

/-- `n` hits fit, and no more than `n` do. -/
structure Longest (tokenBudget : Int) (total : Nat) (l : List (Hit ν)) (n : Nat) : Prop where
  le_length : n ≤ l.length
  fits : n = 0 ∨ (total + tokens (l.take n) : Int) ≤ tokenBudget
  longest : ∀ m ≤ l.length, (total + tokens (l.take m) : Int) ≤ tokenBudget → m ≤ n

/-! ## The budget -/

theorem tokens_cons (r : Hit ν) (l : List (Hit ν)) : tokens (r :: l) = r.tokens + tokens l := by
  simp [tokens]

/-- What the loop returns, by the number of hits that it takes. -/
theorem fill_longest (tokenBudget : Int) (total : Nat) (l : List (Hit ν)) :
    ∃ n, Longest tokenBudget total l n ∧ fill tokenBudget total l =
      ((l.take n).map Hit.block, total + tokens (l.take n), decide (n < l.length)) := by
  induction l generalizing total with
  | nil =>
    refine ⟨0, ⟨le_refl 0, .inl rfl, fun m hm _ => hm⟩, ?_⟩
    rfl
  | cons r rest ih =>
    unfold fill
    by_cases hfull : tokenBudget < total + r.tokens
    · refine ⟨0, ⟨Nat.zero_le _, .inl rfl, ?_⟩, ?_⟩
      · intro m _ hfits
        cases m with
        | zero => exact le_refl 0
        | succ m =>
          rw [List.take_succ_cons, tokens_cons] at hfits
          omega
      · rw [if_pos hfull]
        simp [tokens]
    · obtain ⟨n, ⟨hlen, hfits, hlongest⟩, hfill⟩ := ih (total + r.tokens)
      have hsum : ∀ m, (total : Int) + tokens ((r :: rest).take (m + 1)) =
          (total + r.tokens : Nat) + tokens (rest.take m) := by
        intro m
        rw [List.take_succ_cons, tokens_cons]
        omega
      refine ⟨n + 1, ⟨?_, .inr ?_, ?_⟩, ?_⟩
      · rw [List.length_cons]
        omega
      · rw [hsum]
        rcases hfits with rfl | hfits
        · simp [tokens]
          omega
        · exact hfits
      · intro m hm hle
        cases m with
        | zero => exact Nat.zero_le _
        | succ m =>
          rw [hsum] at hle
          rw [List.length_cons] at hm
          have := hlongest m (by omega) hle
          omega
      · rw [if_neg hfull, hfill]
        simp [tokens_cons]
        omega

/-- What fits of a list fits of every list that goes on otherwise. -/
theorem Longest.take_prefix_take {tokenBudget : Int} {total : Nat} {l r r' : List (Hit ν)} {n n' : Nat}
    (h : Longest tokenBudget total (l ++ r) n) (hn : n ≤ l.length)
    (h' : Longest tokenBudget total (l ++ r') n') :
    (l ++ r).take n <+: (l ++ r').take n' := by
  have hsame : (l ++ r).take n = (l ++ r').take n := by
    rw [List.take_append_of_le_length hn, List.take_append_of_le_length hn]
  have hle : n ≤ n' := by
    rcases h.fits with rfl | hfits
    · exact Nat.zero_le _
    · rw [hsame] at hfits
      refine h'.longest n ?_ hfits
      rw [List.length_append]
      omega
  rw [hsame]
  exact List.take_prefix_take_left hle

/-! ## The ids -/

theorem dedupe_cons (seen : List (Option Text)) (r : Hit ν) (l : List (Hit ν)) :
    dedupe seen (r :: l) =
      if r.cid ∈ seen then dedupe seen l else r :: dedupe (r.cid :: seen) l := rfl

/-- Only which ids have been seen matters. -/
theorem dedupe_congr {seen seen' : List (Option Text)} (h : ∀ c, c ∈ seen ↔ c ∈ seen')
    (l : List (Hit ν)) : dedupe seen l = dedupe seen' l := by
  induction l generalizing seen seen' with
  | nil => rfl
  | cons r rest ih =>
    rw [dedupe_cons, dedupe_cons]
    by_cases hs : r.cid ∈ seen
    · rw [if_pos hs, if_pos ((h _).1 hs), ih h]
    · rw [if_neg hs, if_neg fun hs' => hs ((h _).2 hs')]
      refine congrArg _ (ih fun c => ?_)
      rw [List.mem_cons, List.mem_cons, h c]

theorem dedupe_append (seen : List (Option Text)) (l r : List (Hit ν)) :
    dedupe seen (l ++ r) = dedupe seen l ++ dedupe (l.map Hit.cid ++ seen) r := by
  induction l generalizing seen with
  | nil => rfl
  | cons x l ih =>
    rw [List.cons_append, dedupe_cons, dedupe_cons]
    by_cases hs : x.cid ∈ seen
    · rw [if_pos hs, if_pos hs, ih]
      refine congrArg _ (dedupe_congr (fun c => ?_) r)
      rw [List.map_cons, List.cons_append, List.mem_cons]
      refine ⟨.inr, ?_⟩
      rintro (rfl | hc)
      · exact List.mem_append_right _ hs
      · exact hc
    · rw [if_neg hs, if_neg hs, ih, List.cons_append]
      refine congrArg _ (congrArg _ (dedupe_congr (fun c => ?_) r))
      simp only [List.mem_append, List.map_cons, List.cons_append, List.mem_cons]
      tauto

theorem cid_not_mem_of_mem_dedupe {seen : List (Option Text)} {l : List (Hit ν)} {r : Hit ν}
    (h : r ∈ dedupe seen l) : r.cid ∉ seen := by
  induction l generalizing seen with
  | nil => cases h
  | cons x l ih =>
    rw [dedupe_cons] at h
    by_cases hs : x.cid ∈ seen
    · rw [if_pos hs] at h
      exact ih h
    · rw [if_neg hs] at h
      rcases List.mem_cons.1 h with rfl | h
      · exact hs
      · exact fun hmem => ih h (List.mem_cons_of_mem _ hmem)

/-- The deduplication keeps the first hit of every id. -/
theorem dedupe_eq_firsts (l : List (Hit ν)) : dedupe [] l = firsts l := by
  induction l using List.reverseRecOn with
  | nil => rfl
  | append_singleton l r ih =>
    have hold : ∀ x ∈ l.zipIdx, ((l ++ [r]).take x.2).all (fun s => s.cid ≠ x.1.cid) =
        (l.take x.2).all fun s => s.cid ≠ x.1.cid := by
      intro x hx
      have hlt := List.snd_lt_of_mem_zipIdx hx
      rw [List.take_append_of_le_length (by omega)]
    have hnew : ((l ++ [r]).take (0 + l.length)) = l := by simp
    have hseen : l.all (fun s => s.cid ≠ r.cid) = true ↔ r.cid ∉ l.map Hit.cid := by
      simp [List.all_eq_true]
    rw [dedupe_append, ih, List.append_nil, dedupe_cons]
    unfold firsts
    rw [List.zipIdx_append, List.filter_append, List.map_append, List.filter_congr hold,
      List.zipIdx_singleton, List.filter_singleton, hnew]
    refine congrArg _ ?_
    by_cases hr : r.cid ∈ l.map Hit.cid
    · have hall := Bool.eq_false_iff.2 fun h => hseen.1 h hr
      rw [if_pos hr, hall]
      rfl
    · rw [if_neg hr, hseen.2 hr]
      rfl

end

/-! ## The order -/

section

variable {ν : Type} [LinearOrder ν] [OfScientific ν]

instance : Std.Total (rankLe (ν := ν)) where
  total a b := by
    unfold rankLe
    rcases lt_trichotomy (a.score.getD 0.0) (b.score.getD 0.0) with hs | hs | hs
    · exact .inr (.inl hs)
    · rcases lt_trichotomy (a.trustScore.getD 0.0) (b.trustScore.getD 0.0) with ht | ht | ht
      · exact .inr (.inr ⟨hs.symm, .inl ht⟩)
      · rcases le_total (b.similarity.getD 0.0) (a.similarity.getD 0.0) with hsim | hsim
        · exact .inl (.inr ⟨hs, .inr ⟨ht, hsim⟩⟩)
        · exact .inr (.inr ⟨hs.symm, .inr ⟨ht.symm, hsim⟩⟩)
      · exact .inl (.inr ⟨hs, .inl ht⟩)
    · exact .inl (.inl hs)

instance : IsTrans (Hit ν) rankLe where
  trans a b c := by
    rintro (hab | ⟨hab, hab'⟩) (hbc | ⟨hbc, hbc'⟩)
    · exact .inl (hbc.trans hab)
    · exact .inl (hbc ▸ hab)
    · exact .inl (hab ▸ hbc)
    · refine .inr ⟨hab.trans hbc, ?_⟩
      rcases hab' with ht | ⟨ht, hsim⟩ <;> rcases hbc' with ht' | ⟨ht', hsim'⟩
      · exact .inl (ht'.trans ht)
      · exact .inl (ht' ▸ ht)
      · exact .inl (ht ▸ ht')
      · exact .inr ⟨ht.trans ht', hsim'.trans hsim⟩

/-- The closed form of a context: `n` of the first hits of `sorted` are shown. -/
structure Closed (retrievals : List (Hit ν)) (tokenBudget : Int) (context : OperationalContext ν)
    (sorted : List (Hit ν)) (n : Nat) : Prop where
  sorts : Logic.StablySorted rankLe (retrievals.filter fun r => r.content.getD [] ≠ []) sorted
  blocks : context.blocks.map Block.bare = ((firsts sorted).take n).map Hit.block
  longest : Longest tokenBudget 0 (firsts sorted) n
  total : context.totalTokens = (context.blocks.map fun b => estimateTokens b.content).sum
  bounded : (context.totalTokens : Int) ≤ tokenBudget ∨ context.totalTokens = 0
  truncated : context.truncated = true ↔ n < (firsts sorted).length

/-! ## More hits -/

/-- Hits, each of them with whether it has been added. -/
abbrev Mixed (ν : Type) := List (Hit ν × Bool)

/-- The hits that have not been added. -/
def Mixed.given (mixed : Mixed ν) : List (Hit ν) := (mixed.filter fun x => !x.2).map Prod.fst

def mixedLe (x y : Hit ν × Bool) : Prop := rankLe x.1 y.1

instance : DecidableRel (mixedLe (ν := ν)) := fun x y => inferInstanceAs (Decidable (rankLe x.1 y.1))

instance : Std.Total (mixedLe (ν := ν)) where
  total x y := total_of rankLe x.1 y.1

instance : IsTrans (Hit ν × Bool) mixedLe where
  trans _ _ _ := trans_of rankLe

/-- How all of them are ranked. -/
def Mixed.rank (mixed : Mixed ν) : Mixed ν :=
  (mixed.filter fun x => x.1.content.getD [] ≠ []).insertionSort mixedLe

/-- Every hit that was added comes after those that the blocks show. -/
def AfterBlocks (tokenBudget : Int) (mixed : Mixed ν) : Prop :=
  ∀ before x after, mixed.rank = before ++ (x, true) :: after →
    ∀ b ∈ (buildContext mixed.given tokenBudget none).blocks, ∃ r, (r, false) ∈ before ∧ r.block = b

theorem rank_fst (mixed : Mixed ν) : rank (mixed.map Prod.fst) = mixed.rank.map Prod.fst := by
  unfold rank candidates Mixed.rank
  rw [List.filter_map, List.map_insertionSort mixedLe rankLe Prod.fst _ fun a _ b _ => Iff.rfl]
  rfl

theorem rank_given (mixed : Mixed ν) : rank mixed.given = mixed.rank.given := by
  unfold rank candidates Mixed.rank Mixed.given
  rw [Logic.filter_insertionSort,
    List.map_insertionSort mixedLe rankLe Prod.fst _ fun a _ b _ => Iff.rfl,
    List.filter_map, List.filter_filter, List.filter_filter]
  refine congrArg _ (congrArg _ (List.filter_congr fun x _ => Bool.and_comm _ _))

/-! ## The context -/

theorem totalTokens_buildContext (retrievals : List (Hit ν)) (tokenBudget : Int)
    (governance : Option (GovernanceReportV2 ν)) :
    (buildContext retrievals tokenBudget governance).totalTokens =
      (fill tokenBudget 0 (dedupe [] (rank retrievals))).2.1 := by
  cases governance <;> rfl

theorem truncated_buildContext (retrievals : List (Hit ν)) (tokenBudget : Int)
    (governance : Option (GovernanceReportV2 ν)) :
    (buildContext retrievals tokenBudget governance).truncated =
      (fill tokenBudget 0 (dedupe [] (rank retrievals))).2.2 := by
  cases governance <;> rfl

omit [LinearOrder ν] [OfScientific ν] in
theorem map_bare_attach (annotations : List ( BlockAnnotation ν)) (blocks : List (Block ν)) :
    (attach annotations blocks).map Block.bare = blocks.map Block.bare := by
  unfold attach
  split
  · rfl
  · rw [List.map_map]
    rfl

/-- The blocks are what the loop has filled in, with annotations. -/
theorem bare_buildContext (retrievals : List (Hit ν)) (tokenBudget : Int)
    (governance : Option (GovernanceReportV2 ν)) :
    (buildContext retrievals tokenBudget governance).blocks.map Block.bare =
      (fill tokenBudget 0 (dedupe [] (rank retrievals))).1.map Block.bare := by
  cases governance with
  | none => rfl
  | some report => exact map_bare_attach report.annotations _

theorem blocks_prefix_of_fill {retrievals retrievals' : List (Hit ν)} {tokenBudget : Int}
    (governance : Option (GovernanceReportV2 ν))
    (h : (fill tokenBudget 0 (dedupe [] (rank retrievals))).1 <+:
      (fill tokenBudget 0 (dedupe [] (rank retrievals'))).1) :
    (buildContext retrievals tokenBudget governance).blocks <+:
      (buildContext retrievals' tokenBudget governance).blocks := by
  cases governance with
  | none => exact h
  | some report =>
    show attach _ _ <+: attach _ _
    unfold attach
    split
    · exact h
    · exact h.map _

/-- Every context is as the closed form says. -/
theorem closed_buildContext (retrievals : List (Hit ν)) (tokenBudget : Int)
    (governance : Option (GovernanceReportV2 ν)) :
    ∃ sorted n, Closed retrievals tokenBudget (buildContext retrievals tokenBudget governance)
      sorted n := by
  obtain ⟨n, hlongest, hfill⟩ := fill_longest tokenBudget 0 (dedupe [] (rank retrievals))
  have hblocks : (buildContext retrievals tokenBudget governance).blocks.map Block.bare =
      ((dedupe [] (rank retrievals)).take n).map Hit.block := by
    rw [bare_buildContext, hfill, List.map_map]
    rfl
  have htotal : (buildContext retrievals tokenBudget governance).totalTokens =
      tokens ((dedupe [] (rank retrievals)).take n) := by
    rw [totalTokens_buildContext, hfill]
    exact Nat.zero_add _
  refine ⟨rank retrievals, n, ?_⟩
  constructor
  case sorts => exact Logic.stablySorted_insertionSort rankLe _
  case blocks =>
    rw [← dedupe_eq_firsts]
    exact hblocks
  case longest =>
    rw [← dedupe_eq_firsts]
    exact hlongest
  case total =>
    have hsum := congrArg (fun blocks => (blocks.map fun b => estimateTokens b.content).sum) hblocks
    rw [List.map_map, List.map_map] at hsum
    rw [htotal]
    exact hsum.symm
  case bounded =>
    rw [htotal]
    rcases hlongest.fits with rfl | hfits
    · exact .inr rfl
    · left
      omega
  case truncated =>
    rw [truncated_buildContext, hfill, ← dedupe_eq_firsts]
    exact decide_eq_true_iff

omit [LinearOrder ν] [OfScientific ν] in
theorem given_of_forall {front : Mixed ν} (h : ∀ y ∈ front, y.2 = false) :
    front.given = front.map Prod.fst := by
  unfold Mixed.given
  rw [List.filter_eq_self.2 fun y hy => by rw [h y hy]; rfl]

/-- The ranking up to the first hit that was added has all hits that the blocks show. -/
theorem le_length_of_afterBlocks {tokenBudget : Int} {mixed front after : Mixed ν} {x : Hit ν}
    {hits : List (Hit ν)} {n : Nat} (h : AfterBlocks tokenBudget mixed)
    (hrank : mixed.rank = front ++ (x, true) :: after)
    (hhits : dedupe [] (rank mixed.given) =
      dedupe [] (front.map Prod.fst) ++ dedupe ((front.map Prod.fst).map Hit.cid) hits)
    (hn : n ≤ (dedupe [] (rank mixed.given)).length)
    (hfill : (buildContext mixed.given tokenBudget none).blocks =
      ((dedupe [] (rank mixed.given)).take n).map Hit.block) :
    n ≤ (dedupe [] (front.map Prod.fst)).length := by
  by_contra hlt
  rw [hhits] at hn hfill
  cases hmore : dedupe ((front.map Prod.fst).map Hit.cid) hits with
  | nil =>
    rw [hmore, List.append_nil] at hn
    exact hlt hn
  | cons r rest =>
    have hr : r ∈ (dedupe [] (front.map Prod.fst) ++ r :: rest).take n := by
      rw [List.take_append, List.mem_append]
      obtain ⟨k, hk⟩ : ∃ k, n - (dedupe [] (front.map Prod.fst)).length = k + 1 :=
        ⟨n - (dedupe [] (front.map Prod.fst)).length - 1, by omega⟩
      rw [hk, List.take_succ_cons]
      exact .inr List.mem_cons_self
    have hblock : r.block ∈ (buildContext mixed.given tokenBudget none).blocks := by
      rw [hfill, hmore]
      exact List.mem_map_of_mem hr
    obtain ⟨r', hr', heq⟩ := h front x after hrank _ hblock
    have hcid : r'.cid = r.cid := congrArg Block.chunkId heq
    refine cid_not_mem_of_mem_dedupe (r := r) (hmore ▸ List.mem_cons_self) ?_
    rw [← hcid]
    exact List.mem_map_of_mem (List.mem_map_of_mem (f := Prod.fst) hr')

/-- The blocks stay at the front when hits come to it that are ranked after them. -/
theorem blocks_of_added (tokenBudget : Int) (governance : Option (GovernanceReportV2 ν))
    {mixed : Mixed ν} (h : AfterBlocks tokenBudget mixed) :
    (buildContext mixed.given tokenBudget governance).blocks <+:
      (buildContext (mixed.map Prod.fst) tokenBudget governance).blocks := by
  refine blocks_prefix_of_fill governance ?_
  obtain ⟨n, hlongest, hfill⟩ := fill_longest tokenBudget 0 (dedupe [] (rank mixed.given))
  obtain ⟨n', hlongest', hfill'⟩ :=
    fill_longest tokenBudget 0 (dedupe [] (rank (mixed.map Prod.fst)))
  have hsplit := List.takeWhile_append_dropWhile (p := fun y : Hit ν × Bool => !y.2) (l := mixed.rank)
  have hfront : ∀ y ∈ mixed.rank.takeWhile fun y => !y.2, y.2 = false := by
    intro y hy
    simpa using List.mem_takeWhile_imp hy
  cases hback : mixed.rank.dropWhile fun y => !y.2 with
  | nil =>
    -- nothing that was added has content
    rw [hback, List.append_nil] at hsplit
    rw [rank_given, rank_fst, ← hsplit, given_of_forall hfront]
  | cons y after =>
    obtain ⟨x, added⟩ := y
    have hadded : added = true := by
      have hhead := List.head?_dropWhile_not (fun y : Hit ν × Bool => !y.2) mixed.rank
      rw [hback] at hhead
      simpa using hhead
    subst hadded
    rw [hback] at hsplit
    generalize mixed.rank.takeWhile (fun y => !y.2) = front at hsplit hfront
    have hgiven : dedupe [] (rank mixed.given) = dedupe [] (front.map Prod.fst) ++
        dedupe ((front.map Prod.fst).map Hit.cid) (Mixed.given ((x, true) :: after)) := by
      have hrank : mixed.rank.given = Mixed.given front ++ Mixed.given ((x, true) :: after) := by
        rw [← hsplit]
        unfold Mixed.given
        rw [List.filter_append, List.map_append]
      rw [rank_given, hrank, given_of_forall hfront, dedupe_append, List.append_nil]
    have hall : dedupe [] (rank (mixed.map Prod.fst)) = dedupe [] (front.map Prod.fst) ++
        dedupe ((front.map Prod.fst).map Hit.cid) (((x, true) :: after).map Prod.fst) := by
      rw [rank_fst, ← hsplit, List.map_append, dedupe_append, List.append_nil]
    have hle := le_length_of_afterBlocks h hsplit.symm hgiven hlongest.le_length
      (congrArg Prod.fst hfill)
    rw [hfill, hfill']
    rw [hgiven] at hlongest ⊢
    rw [hall] at hlongest' ⊢
    exact (hlongest.take_prefix_take hle hlongest').map _

/-- **Building a context**: every context is what the closed form says, and hits that are ranked
after all blocks neither remove nor reorder nor change one of them. -/
theorem context_closed (tokenBudget : Int) (governance : Option (GovernanceReportV2 ν)) :
    (∀ retrievals, ∃ sorted n,
      Closed retrievals tokenBudget (buildContext retrievals tokenBudget governance) sorted n) ∧
    ∀ mixed : Mixed ν, AfterBlocks tokenBudget mixed →
      (buildContext mixed.given tokenBudget governance).blocks <+:
        (buildContext (mixed.map Prod.fst) tokenBudget governance).blocks :=
  ⟨fun retrievals => closed_buildContext retrievals tokenBudget governance,
    fun _ h => blocks_of_added tokenBudget governance h⟩

end

end ProjectMaya.ContextBuilder
