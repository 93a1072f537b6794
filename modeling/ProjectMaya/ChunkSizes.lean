import ProjectMaya.Ingest

/-! # How long the chunks are

The docstring of `chunk_text` promises spans of at most `max_chars` characters. A sentence is never
cut, and a text that ends in a separator has an empty paragraph at its end: `bounded_iff` says
when neither comes into a span. A chunk that is too long is embedded whole and stored cut. -/

namespace ProjectMaya.Ingest

open Logic
open ProjectMaya.Vector (Text)

/-! ## Spans of the right size -/

/-- The span takes something, and at most `maxChars` places. -/
def Sized (maxChars : Nat) (s : Span) : Prop := s.1 < s.2 ∧ s.2 - s.1 ≤ maxChars

instance (maxChars : Nat) (s : Span) : Decidable (Sized maxChars s) :=
  inferInstanceAs (Decidable (_ ∧ _))

/-- The spans so far are of the right size, and the pending chunk is not too long. -/
def Chunking.Fit (maxChars : Nat) (st : Chunking) : Prop :=
  (∀ s ∈ st.spans, Sized maxChars s) ∧ ∀ q ∈ st.cur, q.2 ≤ maxChars

/-- The pending chunk holds something. -/
def Chunking.Filled (st : Chunking) : Prop := ∀ q ∈ st.cur, 0 < q.2

theorem Chunking.fit_none (maxChars : Nat) (spans : List Span) :
    (Chunking.mk spans none).Fit maxChars ↔ ∀ s ∈ spans, Sized maxChars s := by
  simp [Chunking.Fit]

theorem Chunking.fit_some (maxChars : Nat) (spans : List Span) (q : Nat × Nat) :
    (Chunking.mk spans (some q)).Fit maxChars ↔
      (∀ s ∈ spans, Sized maxChars s) ∧ q.2 ≤ maxChars := by
  simp [Chunking.Fit]

theorem Chunking.filled_some (spans : List Span) (q : Nat × Nat) :
    (Chunking.mk spans (some q)).Filled ↔ 0 < q.2 := by
  simp [Chunking.Filled]

theorem forall_mem_snoc {P : Span → Prop} {spans : List Span} {s : Span} :
    (∀ t ∈ spans ++ [s], P t) ↔ (∀ t ∈ spans, P t) ∧ P s := by
  rw [List.forall_mem_append, List.forall_mem_singleton]

/-- A pending chunk that is emitted has the size it had. -/
theorem sized_emit {maxChars start n stop : Nat} (hstop : start + n = stop) (hn : 0 < n) :
    Sized maxChars (start, stop) ↔ n ≤ maxChars := by
  show start < stop ∧ stop - start ≤ maxChars ↔ n ≤ maxChars
  omega

/-! ## Sentences -/

theorem filled_addSentence (maxChars : Nat) {st : Chunking} {s : Span} (hs : s.1 < s.2)
    (h : st.Filled) : (addSentence maxChars st s).Filled := by
  obtain ⟨spans, cur⟩ := st
  cases cur with
  | none =>
    show (Chunking.mk spans (some (s.1, s.2 - s.1))).Filled
    rw [Chunking.filled_some]
    show 0 < s.2 - s.1
    omega
  | some q =>
    obtain ⟨start, n⟩ := q
    rw [Chunking.filled_some] at h
    unfold addSentence
    by_cases hfit : n + (s.2 - s.1) ≤ maxChars
    · simp only [if_pos hfit, Chunking.filled_some]
      omega
    · simp only [if_neg hfit, Chunking.filled_some]
      omega

/-- A sentence is taken whole: the spans stay of the right size exactly when it is not too long. -/
theorem fit_addSentence (maxChars : Nat) {st : Chunking} {s : Span} (h : st.Filled) :
    (addSentence maxChars st s).Fit maxChars ↔ st.Fit maxChars ∧ s.2 - s.1 ≤ maxChars := by
  obtain ⟨spans, cur⟩ := st
  cases cur with
  | none =>
    show (Chunking.mk spans (some (s.1, s.2 - s.1))).Fit maxChars ↔ _
    rw [Chunking.fit_some, Chunking.fit_none]
  | some q =>
    obtain ⟨start, n⟩ := q
    rw [Chunking.filled_some] at h
    unfold addSentence
    by_cases hfit : n + (s.2 - s.1) ≤ maxChars
    · simp only [if_pos hfit, Chunking.fit_some]
      constructor
      · rintro ⟨hspans, -⟩
        exact ⟨⟨hspans, by omega⟩, by omega⟩
      · rintro ⟨⟨hspans, -⟩, -⟩
        exact ⟨hspans, hfit⟩
    · simp only [if_neg hfit, Chunking.fit_some, forall_mem_snoc]
      rw [sized_emit rfl h]

theorem fit_addSentences (maxChars : Nat) {ss : List Span} (st : Chunking)
    (hs : ∀ s ∈ ss, s.1 < s.2) (h : st.Filled) :
    (ss.foldl (addSentence maxChars) st).Filled ∧
      ((ss.foldl (addSentence maxChars) st).Fit maxChars ↔
        st.Fit maxChars ∧ ∀ s ∈ ss, s.2 - s.1 ≤ maxChars) := by
  induction ss generalizing st with
  | nil => exact ⟨h, by simp⟩
  | cons s ss ih =>
    have hpos := hs s List.mem_cons_self
    obtain ⟨hfilled, hfit⟩ := ih (addSentence maxChars st s)
      (fun t ht => hs t (List.mem_cons_of_mem s ht)) (filled_addSentence maxChars hpos h)
    refine ⟨hfilled, ?_⟩
    rw [List.foldl_cons, hfit, fit_addSentence maxChars h, List.forall_mem_cons, and_assoc]

theorem sized_combineSentences (maxChars : Nat) {pend a e lost : Nat} {spans ss : List Span}
    (hc : Covers a ss e) (he : e ≤ pend) (hl : Leaves spans a lost)
    (hs : ∀ s ∈ ss, s.1 < s.2) :
    (∀ s ∈ combineSentences maxChars pend spans ss, Sized maxChars s) ↔
      (∀ s ∈ spans, Sized maxChars s) ∧ ∀ s ∈ ss, s.2 - s.1 ≤ maxChars := by
  have hr := addSentences_reaches maxChars { spans := spans, cur := none } hc hl
  obtain ⟨hfilled, hfit⟩ := fit_addSentences maxChars { spans := spans, cur := none } hs
    (fun q hq => by cases hq)
  rw [Chunking.fit_none] at hfit
  rw [← hfit]
  unfold combineSentences
  generalize ss.foldl (addSentence maxChars) { spans := spans, cur := none } = st at hr hfilled ⊢
  obtain ⟨spans', cur⟩ := st
  cases cur with
  | none => rw [Chunking.fit_none]
  | some q =>
    obtain ⟨start, n⟩ := q
    obtain ⟨-, hn⟩ := hr
    rw [Chunking.filled_some] at hfilled
    have hmin : start + n = min pend (start + n) := by omega
    show (∀ s ∈ spans' ++ [(start, min pend (start + n))], Sized maxChars s) ↔ _
    rw [forall_mem_snoc, sized_emit hmin hfilled, Chunking.fit_some]

/-! ## Windows -/

theorem sized_windows {maxChars : Nat} (hpos : 0 < maxChars) (pend fuel offs : Nat) :
    ∀ s ∈ windows maxChars pend fuel offs, Sized maxChars s := by
  induction fuel generalizing offs with
  | zero =>
    intro s hs
    cases hs
  | succ fuel ih =>
    intro s hs
    unfold windows at hs
    by_cases h : offs < pend
    · rw [if_pos h] at hs
      cases hs with
      | head =>
        show offs < min pend (offs + maxChars) ∧ min pend (offs + maxChars) - offs ≤ maxChars
        omega
      | tail _ hs => exact ih _ s hs
    · rw [if_neg h] at hs
      cases hs

/-- A paragraph that is too long, cut at its sentences or into windows. -/
theorem sized_splitParagraph {text : Text} {maxChars : Nat} (hpos : 0 < maxChars)
    {spans : List Span} {p : Span} {lost : Nat} (hp : p.1 ≤ p.2) (hlen : p.2 ≤ text.length)
    (hl : Leaves spans p.1 lost) :
    (∀ s ∈ splitParagraph text maxChars spans p, Sized maxChars s) ↔
      (∀ s ∈ spans, Sized maxChars s) ∧ ∀ s ∈ sentenceSpans text p, s.2 - s.1 ≤ maxChars := by
  obtain ⟨e, hc, he⟩ := sentenceSpans_cover text hp hlen
  unfold splitParagraph
  by_cases hss : sentenceSpans text p = []
  · rw [if_pos hss, hss, List.forall_mem_append]
    have hw := sized_windows hpos p.2 (p.2 - p.1) p.1
    constructor
    · rintro ⟨hspans, -⟩
      exact ⟨hspans, fun s hs => by cases hs⟩
    · rintro ⟨hspans, -⟩
      exact ⟨hspans, hw⟩
  · rw [if_neg hss]
    exact sized_combineSentences maxChars hc he hl
      fun s hs => finditer_pos sentence_proper (slice text p) p.1 0 hs

/-! ## Paragraphs -/

theorem takeParagraph_eq (maxChars : Nat) {st : Chunking} {lost : Nat} {p : Span}
    (h : st.Reaches p.1 lost) : takeParagraph maxChars st p = addSentence maxChars st p := by
  obtain ⟨spans, cur⟩ := st
  cases cur with
  | none => rfl
  | some q =>
    obtain ⟨start, n⟩ := q
    obtain ⟨-, hn⟩ := h
    unfold takeParagraph addSentence
    rw [← hn]

/-- What is too long is not taken to the pending chunk, which is emitted. -/
theorem sized_addSentence_of_long {maxChars : Nat} {st : Chunking} {s : Span} (h : st.Filled)
    (hlong : maxChars < s.2 - s.1) :
    (∀ t ∈ (addSentence maxChars st s).spans, Sized maxChars t) ↔ st.Fit maxChars := by
  obtain ⟨spans, cur⟩ := st
  cases cur with
  | none =>
    rw [Chunking.fit_none]
    exact Iff.rfl
  | some q =>
    obtain ⟨start, n⟩ := q
    rw [Chunking.filled_some] at h
    have hfit : ¬ n + (s.2 - s.1) ≤ maxChars := by omega
    unfold addSentence
    simp only [if_neg hfit, forall_mem_snoc, Chunking.fit_some]
    rw [sized_emit rfl h]

/-- Every sentence of the paragraph fits, where it is cut at its sentences. -/
def Cuttable (text : Text) (maxChars : Nat) (p : Span) : Prop :=
  maxChars < p.2 - p.1 → ∀ s ∈ sentenceSpans text p, s.2 - s.1 ≤ maxChars

theorem fit_addParagraph {text : Text} {maxChars : Nat} (hpos : 0 < maxChars) {st : Chunking}
    {lost : Nat} {p : Span} (hp : p.1 < p.2) (hlen : p.2 ≤ text.length)
    (hr : st.Reaches p.1 lost) (h : st.Filled) :
    (addParagraph text maxChars st p).Filled ∧
      ((addParagraph text maxChars st p).Fit maxChars ↔
        st.Fit maxChars ∧ Cuttable text maxChars p) := by
  by_cases hlong : maxChars < p.2 - p.1
  · obtain ⟨heq, hl⟩ := addParagraph_of_long text (Nat.le_of_lt hp) hlong hr
    rw [heq]
    refine ⟨fun q hq => (by cases hq), ?_⟩
    rw [Chunking.fit_none, sized_splitParagraph hpos (Nat.le_of_lt hp) hlen hl,
      takeParagraph_eq maxChars hr, sized_addSentence_of_long h hlong]
    exact and_congr_right fun _ => ⟨fun hs _ => hs, fun hs => hs hlong⟩
  · have hcut : Cuttable text maxChars p := fun h => absurd h hlong
    unfold addParagraph
    rw [if_neg hlong, takeParagraph_eq maxChars hr, fit_addSentence maxChars h]
    refine ⟨filled_addSentence maxChars hp h, and_congr_right fun _ => ?_⟩
    exact iff_of_true (by omega) hcut

theorem fit_addParagraphs {text : Text} {maxChars : Nat} (hpos : 0 < maxChars) {ps : List Span}
    (st : Chunking) {a b lost : Nat} (hc : Covers a ps b) (hb : b ≤ text.length)
    (hps : ∀ p ∈ ps, p.1 < p.2) (hr : st.Reaches a lost) (h : st.Filled) :
    (ps.foldl (addParagraph text maxChars) st).Filled ∧
      ((ps.foldl (addParagraph text maxChars) st).Fit maxChars ↔
        st.Fit maxChars ∧ ∀ p ∈ ps, Cuttable text maxChars p) := by
  induction ps generalizing st a lost with
  | nil => exact ⟨h, by simp⟩
  | cons p ps ih =>
    obtain ⟨hs, hle, hrest⟩ := hc
    rw [← hs] at hr
    have hp := hps p List.mem_cons_self
    have hlen := hrest.le.trans hb
    obtain ⟨hfilled, hfit⟩ := fit_addParagraph hpos hp hlen hr h
    obtain ⟨hfilled', hfit'⟩ := ih (addParagraph text maxChars st p) hrest
      (fun q hq => hps q (List.mem_cons_of_mem p hq)) (addParagraph_reaches hpos hle hlen hr)
      hfilled
    refine ⟨hfilled', ?_⟩
    rw [List.foldl_cons, hfit', hfit, List.forall_mem_cons, and_assoc]

/-- Only the last paragraph can be empty. -/
theorem paragraphs_snoc (ms : List Span) (prev length : Nat)
    (horder : ms.Pairwise fun s t => s.2 ≤ t.1) (hin : ∀ m ∈ ms, prev ≤ m.1 ∧ m.1 < m.2) :
    ∃ before q, paragraphs prev ms length = before ++ [q] ∧ ∀ p ∈ before, p.1 < p.2 := by
  induction ms generalizing prev with
  | nil => exact ⟨[], (prev, length), rfl, fun p hp => by cases hp⟩
  | cons m ms ih =>
    obtain ⟨hfirst, horder⟩ := List.pairwise_cons.mp horder
    obtain ⟨before, q, heq, hbefore⟩ := ih m.2 horder
      fun n hn => ⟨hfirst n hn, (hin n (List.mem_cons_of_mem m hn)).2⟩
    have hm := hin m List.mem_cons_self
    refine ⟨(prev, m.2) :: before, q, ?_, ?_⟩
    · show (prev, m.2) :: paragraphs m.2 ms length = _
      rw [heq, List.cons_append]
    · intro p hp
      cases hp with
      | head =>
        show prev < m.2
        omega
      | tail _ hp => exact hbefore p hp

theorem paragraphBoundaries_snoc {text : Text} (ht : text ≠ []) :
    ∃ before q, paragraphBoundaries text = before ++ [q] ∧ ∀ p ∈ before, p.1 < p.2 := by
  unfold paragraphBoundaries
  rw [if_neg ht]
  obtain ⟨horder, hin⟩ := finditer_within separator_proper text 0 0 (Nat.zero_le _)
  exact paragraphs_snoc _ 0 _ horder
    fun m hm => ⟨Nat.zero_le _, finditer_pos separator_proper text 0 0 hm⟩

theorem cur_addParagraph (text : Text) (maxChars : Nat) (st : Chunking) (p : Span) :
    (addParagraph text maxChars st p).cur = none ↔ maxChars < p.2 - p.1 := by
  unfold addParagraph
  by_cases hlong : maxChars < p.2 - p.1
  · rw [if_pos hlong]
    exact iff_of_true rfl hlong
  · rw [if_neg hlong]
    refine iff_of_false ?_ hlong
    obtain ⟨spans, cur⟩ := st
    cases cur with
    | none => exact Option.some_ne_none _
    | some q =>
      unfold takeParagraph
      by_cases hfit : q.2 + (p.2 - p.1) ≤ maxChars
      · simp only [if_pos hfit]
        exact Option.some_ne_none _
      · simp only [if_neg hfit]
        exact Option.some_ne_none _

/-! ## After the loop -/

theorem finish_snoc (before : List Span) (q : Span) (st : Chunking) :
    finish (before ++ [q]) st =
      match st.cur with
      | some (start, _) => st.spans ++ [(start, q.2)]
      | none => st.spans := by
  obtain ⟨spans, cur⟩ := st
  unfold finish
  rw [List.getLast?_concat]
  cases cur with
  | none => rfl
  | some _ => rfl

theorem sized_finish {maxChars : Nat} (before : List Span) (q : Span) {st : Chunking} {lost : Nat}
    (hr : st.Reaches q.2 lost) (h : st.Filled) :
    (∀ s ∈ finish (before ++ [q]) st, Sized maxChars s) ↔ st.Fit maxChars := by
  obtain ⟨spans, cur⟩ := st
  rw [finish_snoc]
  cases cur with
  | none => rw [Chunking.fit_none]
  | some pending =>
    obtain ⟨start, n⟩ := pending
    obtain ⟨-, hn⟩ := hr
    rw [Chunking.filled_some] at h
    show (∀ s ∈ spans ++ [(start, q.2)], Sized maxChars s) ↔ _
    rw [forall_mem_snoc, sized_emit hn h, Chunking.fit_some]

/-- An empty paragraph at the end makes an empty span where no chunk is pending. -/
theorem sized_finish_of_empty (text : Text) {maxChars : Nat} (before : List Span) {q : Span}
    {st : Chunking} {lost : Nat} (hq : q.1 = q.2) (hr : st.Reaches q.1 lost) (h : st.Filled) :
    (∀ s ∈ finish (before ++ [q]) (addParagraph text maxChars st q), Sized maxChars s) ↔
      st.Fit maxChars ∧ st.cur ≠ none := by
  have hlen : q.2 - q.1 = 0 := by omega
  have hempty : ¬ Sized maxChars (q.1, q.2) := fun hs => Nat.ne_of_lt hs.1 hq
  unfold addParagraph
  rw [hlen, if_neg (Nat.not_lt_zero _), finish_snoc]
  obtain ⟨spans, cur⟩ := st
  cases cur with
  | none =>
    show (∀ s ∈ spans ++ [(q.1, q.2)], Sized maxChars s) ↔ _
    rw [forall_mem_snoc]
    exact iff_of_false (fun hs => hempty hs.2) (fun hs => hs.2 rfl)
  | some pending =>
    obtain ⟨start, n⟩ := pending
    obtain ⟨-, hn⟩ := hr
    rw [Chunking.filled_some] at h
    unfold takeParagraph
    rw [Chunking.fit_some]
    by_cases hfit : n ≤ maxChars
    · simp only [hlen, Nat.add_zero, if_pos hfit, forall_mem_snoc]
      rw [sized_emit (hn.trans hq) h]
      simp
    · simp only [hlen, Nat.add_zero, if_neg hfit, forall_mem_snoc]
      exact iff_of_false (fun hs => hempty hs.2) (fun hs => hfit hs.1.2)

/-! ## What `chunk_text` returns -/

/-- The last paragraph is not empty where the one before it is too long. -/
def Closed (text : Text) (maxChars : Nat) : Prop :=
  ∀ q ∈ (paragraphBoundaries text).getLast?, ∀ p ∈ (paragraphBoundaries text).dropLast.getLast?,
    maxChars < p.2 - p.1 → q.1 < q.2

theorem closed_iff {text : Text} (maxChars : Nat) {before : List Span} {p q : Span}
    (h : paragraphBoundaries text = before ++ [p] ++ [q]) :
    Closed text maxChars ↔ (maxChars < p.2 - p.1 → q.1 < q.2) := by
  unfold Closed
  rw [h, List.getLast?_concat, List.dropLast_concat, List.getLast?_concat]
  simp

theorem Covers.split_last {l : List Span} {q : Span} {a b : Nat} (h : Covers a (l ++ [q]) b) :
    Covers a l q.1 ∧ q.2 = b := by
  induction l generalizing a with
  | nil => exact ⟨h.1.symm, h.2.2⟩
  | cons s l ih =>
    obtain ⟨hs, hle, hrest⟩ := h
    obtain ⟨hl, hq⟩ := ih hrest
    exact ⟨⟨hs, hle, hl⟩, hq⟩
/-- The loop and the flush after it, over all paragraphs. -/
theorem sized_chunks (text : Text) {maxChars : Nat} (hpos : 0 < maxChars) :
    (∀ s ∈ finish (paragraphBoundaries text)
        ((paragraphBoundaries text).foldl (addParagraph text maxChars)
          { spans := [], cur := none }), Sized maxChars s) ↔
      (∀ p ∈ paragraphBoundaries text, Cuttable text maxChars p) ∧ Closed text maxChars := by
  by_cases ht : text = []
  · subst ht
    have hempty : paragraphBoundaries [] = [] := rfl
    unfold Closed
    simp [hempty, finish]
  · obtain ⟨before, q, hps, hbefore⟩ := paragraphBoundaries_snoc ht
    have hcover := paragraphBoundaries_cover text
    rw [hps] at hcover
    obtain ⟨hc, hq⟩ := Covers.split_last hcover
    have hqle : q.1 ≤ q.2 := (hcover.mem (List.mem_append_right before List.mem_cons_self)).1
    have hfilled0 : (Chunking.mk [] none).Filled := fun q hq => by cases hq
    have hend : q.2 ≤ text.length := Nat.le_of_eq hq
    have hb : q.1 ≤ text.length := hqle.trans hend
    have hstart : (Chunking.mk [] none).Reaches 0 0 := Leaves.start
    have hreach := addParagraphs_reaches text hpos (Chunking.mk [] none) hc hb hstart
    obtain ⟨hfilled, hfit⟩ := fit_addParagraphs hpos (Chunking.mk [] none) hc hb hbefore
      hstart hfilled0
    have hfit0 : (Chunking.mk [] none).Fit maxChars := by simp [Chunking.Fit]
    rw [hps, List.foldl_append, List.foldl_cons, List.foldl_nil, List.forall_mem_append,
      List.forall_mem_singleton]
    by_cases hlt : q.1 < q.2
    · -- the last paragraph is like the others
      have hclosed : Closed text maxChars := by
        unfold Closed
        rw [hps, List.getLast?_concat]
        intro q' hq' p _ _
        cases hq'
        exact hlt
      obtain ⟨hfilled', hfit'⟩ := fit_addParagraph hpos hlt hend hreach hfilled
      have hreach' := addParagraph_reaches hpos hqle hend hreach
      rw [sized_finish before q hreach' hfilled', hfit', hfit]
      simp [hfit0, hclosed]
    · -- the text ends in a separator
      have heq : q.1 = q.2 := by omega
      have hcut : Cuttable text maxChars q := fun hlong => by omega
      rw [sized_finish_of_empty text before heq hreach hfilled, hfit]
      have hclosed : ((before.foldl (addParagraph text maxChars)
          { spans := [], cur := none }).cur ≠ none) ↔ Closed text maxChars := by
        rcases List.eq_nil_or_concat before with hnil | ⟨before', p, hsnoc⟩
        · rw [hnil] at hc
          have hzero : 0 = q.1 := hc
          have hlen := List.length_pos_of_ne_nil ht
          omega
        · rw [List.concat_eq_append] at hsnoc
          rw [hsnoc] at hps ⊢
          rw [List.foldl_append, List.foldl_cons, List.foldl_nil, closed_iff maxChars hps, ne_eq,
            cur_addParagraph]
          exact ⟨fun h hlong => absurd hlong h, fun h hlong => hlt (h hlong)⟩
      rw [hclosed]
      simp [hfit0, hcut]

/-- `chunk_text` returns spans that are not empty and not longer than `max_chars`, and
`process_file` stores of every chunk the whole text it embedded. -/
def Bounded (text : Text) (maxChars : Int) : Prop :=
  ∃ spans, chunkText text maxChars = .ok spans ∧ (∀ s ∈ spans, Sized maxChars.toNat s) ∧
    ∀ (ν : Type) (job : Job ν) (r : Reading) (pairs : List (Chunk × Option (List ν))),
      job.reading = some r → r.text = text → job.maxChars = maxChars →
      embedded job = .ok pairs →
      ∀ p ∈ pairs, (embObj job p.1 p.2).chunkText = p.1.text

/-- The text of a chunk is the slice of one of the spans. -/
theorem text_of_embedded {ν : Type} {job : Job ν} {r : Reading} {spans : List Span}
    {pairs : List (Chunk × Option (List ν))} (hr : job.reading = some r)
    (hspans : chunkText r.text job.maxChars = .ok spans) (h : embedded job = .ok pairs)
    {p : Chunk × Option (List ν)} (hp : p ∈ pairs) : ∃ s ∈ spans, p.1.text = slice r.text s := by
  unfold embedded chunkFile at h
  simp only [hr, hspans, Except.mapError] at h
  obtain ⟨chunks, hchunks, h⟩ := Logic.bind_eq_ok.mp h
  obtain ⟨vectors, -, h⟩ := Logic.bind_eq_ok.mp h
  cases hchunks
  cases h
  have hmem := List.of_mem_zip hp
  obtain ⟨i, hi, hc⟩ := List.mem_mapIdx.mp hmem.1
  exact ⟨spans[i], List.getElem_mem hi, by rw [← hc]⟩

/-- The chunks keep the bound exactly when no sentence of a paragraph that is too long is too long
itself, and the text does not end in a separator after such a paragraph. -/
theorem bounded_iff (text : Text) (maxChars : Int) (hpos : 0 < maxChars) :
    Bounded text maxChars ↔
      (∀ p ∈ paragraphBoundaries text, Cuttable text maxChars.toNat p) ∧
        Closed text maxChars.toNat := by
  have hpos' : 0 < maxChars.toNat := by omega
  have hsized := sized_chunks text hpos'
  have hok : chunkText text maxChars = .ok (finish (paragraphBoundaries text)
      ((paragraphBoundaries text).foldl (addParagraph text maxChars.toNat)
        { spans := [], cur := none })) := by
    unfold chunkText
    rw [if_neg (by omega)]
  rw [← hsized]
  constructor
  · rintro ⟨spans, hspans, hall, -⟩
    rw [hok] at hspans
    cases hspans
    exact hall
  · intro hall
    refine ⟨_, hok, hall, ?_⟩
    rintro ν job r pairs hr rfl rfl hpairs p hp
    obtain ⟨s, hs, htext⟩ := text_of_embedded hr hok hpairs hp
    have hlen := (hall s hs).2
    show p.1.text.take job.maxChars.toNat = p.1.text
    rw [htext]
    refine List.take_of_length_le ?_
    rw [length_slice]
    omega

namespace Sample

/-- `chunk_text("AAAA.", 3)` is `[(0, 5)]`: the sentence is stored as `AAA`. -/
theorem sentence_unbounded : ¬ Bounded "AAAA.".toList 3 := by
  rintro ⟨spans, hok, hall, -⟩
  have hspans : chunkText "AAAA.".toList 3 = .ok [(0, 5)] := by decide +kernel
  rw [hspans] at hok
  cases hok
  exact absurd (hall (0, 5) List.mem_cons_self) (by decide)

/-- `chunk_text("A. bb!", 3)` is `[(0, 3), (3, 6)]`. -/
theorem finished_bounded : Bounded finished 3 :=
  (bounded_iff finished 3 (by decide)).mpr (by unfold Cuttable Closed; decide +kernel)

end Sample

end ProjectMaya.Ingest
