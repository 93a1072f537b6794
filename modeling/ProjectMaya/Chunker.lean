import ProjectMaya.Logic.Json
import ProjectMaya.Logic.Sha256
import ProjectMaya.Logic.Spans
import ProjectMaya.Documents

/-! # Chunks of a text

`chunk_text` collects paragraphs into spans of at most `max_chars` characters; a paragraph that is
longer is cut at its sentences, or into windows where it has none. Read the loop invariant
`Chunking.Reaches` first: what the spans and the pending chunk do not hold is what the paragraphs
so far lost after their last sentence (`unmatched`), so `lossless_iff` says when nothing is lost. -/

namespace ProjectMaya.Ingest

open Logic
open ProjectMaya.Vector (Text isSpace)

/-! ## The patterns -/

/-- `\n{2,}` -/
def separator (xs : Text) : Option Nat :=
  let n := (xs.takeWhile fun c => c = '\n').length
  if 2 ≤ n then some n else none

def isSentenceEnd (c : Char) : Bool := c = '.' || c = '!' || c = '?'

/-- `[.!?]+(?:\s+|$)`: a shorter run of marks is followed by a mark, so there is nothing to try
again with; before a newline at the end `\s+` is tried first. -/
def sentenceEnd (xs : Text) : Option Nat :=
  let marks := (xs.takeWhile isSentenceEnd).length
  let rest := xs.dropWhile isSentenceEnd
  let spaces := (rest.takeWhile isSpace).length
  if 0 < marks ∧ (0 < spaces ∨ rest = []) then some (marks + spaces) else none

/-- `.+?(?:[.!?]+(?:\s+|$))`, where `.` is any character. -/
def sentence : Text → Option Nat
  | [] => none
  | _ :: xs =>
    match sentenceEnd xs with
    | some n => some (1 + n)
    | none => (sentence xs).map (1 + ·)

/-! ## `chunk_text` -/

def paragraphs : Nat → List Span → Nat → List Span
  | prev, [], length => [(prev, length)]
  | prev, m :: separators, length => (prev, m.2) :: paragraphs m.2 separators length

/-- `_paragraph_boundaries`. -/
def paragraphBoundaries (text : Text) : List Span :=
  if text = [] then [] else paragraphs 0 (finditer separator 0 0 text) text.length

/-- `sentence_spans` of the paragraph `p`. -/
def sentenceSpans (text : Text) (p : Span) : List Span := finditer sentence p.1 0 (slice text p)

/-- The sliding windows from `offs` on; every window takes at least one place. -/
def windows (maxChars pend : Nat) : Nat → Nat → List Span
  | 0, _ => []
  | fuel + 1, offs =>
    if offs < pend then
      (offs, min pend (offs + maxChars)) ::
        windows maxChars pend fuel (min pend (offs + maxChars))
    else []

/-- The spans so far, and where the pending chunk starts and how long it is. -/
structure Chunking where
  spans : List Span
  cur : Option (Nat × Nat)
  deriving DecidableEq, Repr

def addSentence (maxChars : Nat) (st : Chunking) (s : Span) : Chunking :=
  let len := s.2 - s.1
  match st.cur with
  | none => { st with cur := some (s.1, len) }
  | some (start, n) =>
    if n + len ≤ maxChars then { st with cur := some (start, n + len) }
    else { spans := st.spans ++ [(start, start + n)], cur := some (s.1, len) }

def combineSentences (maxChars pend : Nat) (spans sentences : List Span) : List Span :=
  let st := sentences.foldl (addSentence maxChars) { spans := spans, cur := none }
  match st.cur with
  | none => st.spans
  | some (start, n) => st.spans ++ [(start, min pend (start + n))]

/-- The branch of a paragraph longer than `max_chars`. -/
def splitParagraph (text : Text) (maxChars : Nat) (spans : List Span) (p : Span) : List Span :=
  if sentenceSpans text p = [] then spans ++ windows maxChars p.2 (p.2 - p.1) p.1
  else combineSentences maxChars p.2 spans (sentenceSpans text p)

/-- The pending chunk takes the paragraph `p`, or is flushed before it. -/
def takeParagraph (maxChars : Nat) (st : Chunking) (p : Span) : Chunking :=
  let plen := p.2 - p.1
  match st.cur with
  | none => { st with cur := some (p.1, plen) }
  | some (start, n) =>
    if n + plen ≤ maxChars then { st with cur := some (start, n + plen) }
    else { spans := st.spans ++ [(start, p.1)], cur := some (p.1, plen) }

def flushBefore (st : Chunking) (pstart : Nat) : List Span :=
  match st.cur with
  | none => st.spans
  | some (start, _) => if start < pstart then st.spans ++ [(start, pstart)] else st.spans

def addParagraph (text : Text) (maxChars : Nat) (st : Chunking) (p : Span) : Chunking :=
  let st := takeParagraph maxChars st p
  if maxChars < p.2 - p.1 then
    { spans := splitParagraph text maxChars (flushBefore st p.1) p, cur := none }
  else st

/-- After the loop: the pending chunk ends where the last paragraph does. -/
def finish (ps : List Span) (st : Chunking) : List Span :=
  match st.cur, ps.getLast? with
  | some (start, _), some last => st.spans ++ [(start, last.2)]
  | _, _ => st.spans

/-- `chunk_text`; the error is the text of its `ValueError`. -/
def chunkText (text : Text) (maxChars : Int) : Except String (List Span) :=
  if maxChars ≤ 0 then .error "max_chars must be positive"
  else
    let ps := paragraphBoundaries text
    .ok (finish ps (ps.foldl (addParagraph text maxChars.toNat) { spans := [], cur := none }))

/-! ## `chunk_file` -/

structure ChunkMetadata where
  sourcePath : String
  sourceHash : String
  extractorVersion : String
  timestamp : String
  deriving DecidableEq, Repr

structure Chunk where
  id : String
  text : Text
  start : Nat
  stop : Nat
  metadata : ChunkMetadata
  deriving DecidableEq, Repr

/-- What a run of `chunk_file` gets from outside: what is in the file, the absolute path, the
time and the identifiers that `uuid4` makes, in their order. -/
structure Reading where
  text : Text
  abspath : String
  now : String
  uuid : Nat → String

def sha256Text (text : Text) : String := Sha256.hexdigest (utf8 text)

inductive ChunkError where
  | fileNotFound (path : String)
  | value (message : String)
  deriving DecidableEq, Repr

/-- `chunk_file`; no reading where there is no file. -/
def chunkFile (path : String) (reading : Option Reading) (maxChars : Int)
    (extractorVersion : String) : Except ChunkError (List Chunk) :=
  match reading with
  | none => .error (.fileNotFound path)
  | some r =>
    match chunkText r.text maxChars with
    | .error message => .error (.value message)
    | .ok spans =>
      .ok (spans.mapIdx fun i s =>
        { id := r.uuid i, text := slice r.text s, start := s.1, stop := s.2,
          metadata := { sourcePath := r.abspath, sourceHash := sha256Text r.text,
                        extractorVersion := extractorVersion, timestamp := r.now } })

/-! ## The patterns match something, within the text -/

theorem separator_proper : Proper separator := by
  intro xs n h
  unfold separator at h
  have hle := (List.takeWhile_prefix (l := xs) fun c => c = '\n').length_le
  by_cases h2 : 2 ≤ (xs.takeWhile fun c => c = '\n').length
  · rw [if_pos h2] at h
    cases h
    omega
  · rw [if_neg h2] at h
    cases h

theorem sentenceEnd_le {xs : Text} {n : Nat} (h : sentenceEnd xs = some n) : n ≤ xs.length := by
  unfold sentenceEnd at h
  have hspaces := (List.takeWhile_prefix (l := xs.dropWhile isSentenceEnd) isSpace).length_le
  have hsplit : (xs.takeWhile isSentenceEnd).length + (xs.dropWhile isSentenceEnd).length =
      xs.length := by
    rw [← List.length_append, List.takeWhile_append_dropWhile]
  simp only [Option.ite_none_right_eq_some, Option.some.injEq] at h
  omega

theorem sentence_proper : Proper sentence := by
  intro xs
  induction xs with
  | nil =>
    intro n h
    cases h
  | cons x xs ih =>
    intro n h
    unfold sentence at h
    rw [List.length_cons]
    cases hend : sentenceEnd xs with
    | some k =>
      have hk := sentenceEnd_le hend
      rw [hend] at h
      cases h
      omega
    | none =>
      rw [hend] at h
      obtain ⟨k, hk, rfl⟩ := Option.map_eq_some_iff.mp h
      have := ih k hk
      omega

/-- A sentence that ends in the rest of a text ends in the text. -/
theorem sentence_dense (x : Char) (xs : Text) (h : sentence (x :: xs) = none) :
    sentence xs = none := by
  unfold sentence at h
  cases hend : sentenceEnd xs with
  | some k =>
    rw [hend] at h
    cases h
  | none =>
    rw [hend] at h
    exact Option.map_eq_none_iff.mp h

/-! ## Paragraphs -/

theorem paragraphs_cover (ms : List Span) (prev length : Nat)
    (horder : ms.Pairwise fun s t => s.2 ≤ t.1)
    (hin : ∀ m ∈ ms, prev ≤ m.1 ∧ m.1 ≤ m.2 ∧ m.2 ≤ length) (hle : prev ≤ length) :
    Covers prev (paragraphs prev ms length) length := by
  induction ms generalizing prev with
  | nil => exact ⟨rfl, hle, rfl⟩
  | cons m ms ih =>
    obtain ⟨hfirst, horder⟩ := List.pairwise_cons.mp horder
    have hm := hin m List.mem_cons_self
    refine ⟨rfl, by show prev ≤ m.2; omega, ih m.2 horder (fun n hn => ?_) hm.2.2⟩
    have hn' := hin n (List.mem_cons_of_mem m hn)
    exact ⟨hfirst n hn, hn'.2⟩

theorem paragraphBoundaries_cover (text : Text) :
    Covers 0 (paragraphBoundaries text) text.length := by
  unfold paragraphBoundaries
  by_cases ht : text = []
  · rw [if_pos ht, ht]
    rfl
  · rw [if_neg ht]
    obtain ⟨horder, hin⟩ := finditer_within separator_proper text 0 0 (Nat.zero_le _)
    refine paragraphs_cover _ 0 _ horder (fun m hm => ?_) (Nat.zero_le _)
    have := hin m hm
    omega

/-! ## What a long paragraph loses -/

/-- The places after the last sentence of a paragraph that is cut at its sentences. -/
def unmatched (text : Text) (maxChars : Nat) (p : Span) : Nat :=
  if maxChars < p.2 - p.1 then
    match (sentenceSpans text p).getLast? with
    | some last => p.2 - last.2
    | none => 0
  else 0

theorem sentenceSpans_cover (text : Text) {p : Span} (hp : p.1 ≤ p.2)
    (hlen : p.2 ≤ text.length) : ∃ e, Covers p.1 (sentenceSpans text p) e ∧ e ≤ p.2 := by
  obtain ⟨e, hc, he⟩ :=
    finditer_covers sentence_proper sentence_dense (slice text p) p.1 0 (Nat.zero_le _)
  rw [length_slice] at he
  exact ⟨e, hc, by omega⟩

theorem windows_cover {maxChars : Nat} (hpos : 0 < maxChars) {pend fuel offs : Nat}
    (hle : offs ≤ pend) (hfuel : pend ≤ offs + fuel) :
    Covers offs (windows maxChars pend fuel offs) pend := by
  induction fuel generalizing offs with
  | zero =>
    show offs = pend
    omega
  | succ fuel ih =>
    unfold windows
    by_cases h : offs < pend
    · rw [if_pos h]
      refine ⟨rfl, ?_, ih (by omega) (by omega)⟩
      show offs ≤ min pend (offs + maxChars)
      omega
    · rw [if_neg h]
      show offs = pend
      omega

/-! ## The loop -/

/-- Everything before `b` is in the spans or in the pending chunk, `lost` places apart. -/
def Chunking.Reaches (st : Chunking) (b lost : Nat) : Prop :=
  match st.cur with
  | none => Leaves st.spans b lost
  | some (start, n) => Leaves st.spans start lost ∧ start + n = b

theorem addSentence_reaches {maxChars : Nat} {st : Chunking} {lost : Nat} {s : Span}
    (hs : s.1 ≤ s.2) (h : st.Reaches s.1 lost) : (addSentence maxChars st s).Reaches s.2 lost := by
  obtain ⟨spans, cur⟩ := st
  cases cur with
  | none => exact ⟨h, by omega⟩
  | some pending =>
    obtain ⟨start, n⟩ := pending
    obtain ⟨hl, hn⟩ := h
    unfold addSentence
    by_cases hfit : n + (s.2 - s.1) ≤ maxChars
    · simp only [if_pos hfit]
      refine ⟨hl, ?_⟩
      show start + (n + (s.2 - s.1)) = s.2
      omega
    · simp only [if_neg hfit]
      refine ⟨?_, by omega⟩
      rw [hn]
      exact hl.emit (by omega)

theorem addSentences_reaches (maxChars : Nat) {ss : List Span} (st : Chunking) {a e lost : Nat}
    (hc : Covers a ss e) (h : st.Reaches a lost) :
    (ss.foldl (addSentence maxChars) st).Reaches e lost := by
  induction ss generalizing st a with
  | nil =>
    have hae : a = e := hc
    rw [← hae]
    exact h
  | cons s ss ih =>
    obtain ⟨hs, hle, hrest⟩ := hc
    rw [← hs] at h
    exact ih _ hrest (addSentence_reaches hle h)

/-- The sentences from `a` to `e` reach `e`; the rest of the paragraph is skipped. -/
theorem combineSentences_leaves {maxChars pend : Nat} {spans ss : List Span} {a e lost : Nat}
    (hc : Covers a ss e) (he : e ≤ pend) (h : Leaves spans a lost) :
    Leaves (combineSentences maxChars pend spans ss) pend (lost + (pend - e)) := by
  have hr := addSentences_reaches maxChars { spans := spans, cur := none } hc h
  unfold combineSentences
  generalize ss.foldl (addSentence maxChars) { spans := spans, cur := none } = st at hr
  obtain ⟨spans', cur⟩ := st
  cases cur with
  | none => exact Leaves.skip hr he
  | some pending =>
    obtain ⟨start, n⟩ := pending
    obtain ⟨hl, hn⟩ := hr
    have hmin : min pend (start + n) = e := by omega
    show Leaves (spans' ++ [(start, min pend (start + n))]) pend (lost + (pend - e))
    rw [hmin]
    exact (hl.emit (by omega)).skip he

theorem splitParagraph_leaves {text : Text} {maxChars : Nat} (hpos : 0 < maxChars)
    {spans : List Span} {p : Span} {lost : Nat} (hp : p.1 ≤ p.2) (hlen : p.2 ≤ text.length)
    (hlong : maxChars < p.2 - p.1) (h : Leaves spans p.1 lost) :
    Leaves (splitParagraph text maxChars spans p) p.2 (lost + unmatched text maxChars p) := by
  obtain ⟨e, hc, he⟩ := sentenceSpans_cover text hp hlen
  unfold splitParagraph unmatched
  rw [if_pos hlong]
  by_cases hss : sentenceSpans text p = []
  · rw [if_pos hss, hss]
    exact h.append (windows_cover hpos hp (by omega))
  · rw [if_neg hss]
    have hlast := List.getLast?_eq_getLast_of_ne_nil hss
    rw [hlast]
    show Leaves _ p.2 (lost + (p.2 - ((sentenceSpans text p).getLast hss).2))
    rw [hc.getLast hlast]
    exact combineSentences_leaves hc he h

/-- Afterwards the pending chunk ends with the paragraph, and begins with it if that is long. -/
theorem takeParagraph_reaches (maxChars : Nat) {st : Chunking} {lost : Nat} {p : Span}
    (hp : p.1 ≤ p.2) (h : st.Reaches p.1 lost) :
    ∃ start n, (takeParagraph maxChars st p).cur = some (start, n) ∧
      Leaves (takeParagraph maxChars st p).spans start lost ∧ start + n = p.2 ∧
      (maxChars < p.2 - p.1 → start = p.1) := by
  obtain ⟨spans, cur⟩ := st
  cases cur with
  | none => exact ⟨p.1, p.2 - p.1, rfl, h, by omega, fun _ => rfl⟩
  | some pending =>
    obtain ⟨start, n⟩ := pending
    obtain ⟨hl, hn⟩ := h
    unfold takeParagraph
    by_cases hfit : n + (p.2 - p.1) ≤ maxChars
    · simp only [if_pos hfit]
      exact ⟨start, n + (p.2 - p.1), rfl, hl, by omega, by omega⟩
    · simp only [if_neg hfit]
      exact ⟨p.1, p.2 - p.1, rfl, hl.emit (by omega), by omega, fun _ => rfl⟩

/-- A paragraph that is too long is cut behind what is flushed before it. -/
theorem addParagraph_of_long (text : Text) {maxChars : Nat} {st : Chunking} {lost : Nat}
    {p : Span} (hp : p.1 ≤ p.2) (hlong : maxChars < p.2 - p.1) (h : st.Reaches p.1 lost) :
    addParagraph text maxChars st p =
        { spans := splitParagraph text maxChars (takeParagraph maxChars st p).spans p,
          cur := none } ∧
      Leaves (takeParagraph maxChars st p).spans p.1 lost := by
  obtain ⟨start, n, hcur, hl, -, hstart⟩ := takeParagraph_reaches maxChars hp h
  have hs := hstart hlong
  have hflush : flushBefore (takeParagraph maxChars st p) p.1 =
      (takeParagraph maxChars st p).spans := by
    unfold flushBefore
    rw [hcur]
    show (if start < p.1 then _ else _) = _
    rw [if_neg (by omega)]
  unfold addParagraph
  rw [if_pos hlong, hflush, ← hs]
  exact ⟨rfl, hl⟩

theorem addParagraph_reaches {text : Text} {maxChars : Nat} (hpos : 0 < maxChars)
    {st : Chunking} {lost : Nat} {p : Span} (hp : p.1 ≤ p.2) (hlen : p.2 ≤ text.length)
    (h : st.Reaches p.1 lost) :
    (addParagraph text maxChars st p).Reaches p.2 (lost + unmatched text maxChars p) := by
  by_cases hlong : maxChars < p.2 - p.1
  · obtain ⟨heq, hl⟩ := addParagraph_of_long text hp hlong h
    rw [heq]
    exact splitParagraph_leaves hpos hp hlen hlong hl
  · obtain ⟨start, n, hcur, hl, hn, -⟩ := takeParagraph_reaches maxChars hp h
    have h0 : unmatched text maxChars p = 0 := if_neg hlong
    unfold addParagraph
    rw [if_neg hlong]
    unfold Chunking.Reaches
    rw [h0, hcur]
    exact ⟨hl, hn⟩

theorem addParagraphs_reaches (text : Text) {maxChars : Nat} (hpos : 0 < maxChars)
    {ps : List Span} (st : Chunking) {a b lost : Nat} (hc : Covers a ps b)
    (hb : b ≤ text.length) (h : st.Reaches a lost) :
    (ps.foldl (addParagraph text maxChars) st).Reaches b
      (lost + (ps.map (unmatched text maxChars)).sum) := by
  induction ps generalizing st a lost with
  | nil =>
    have hab : a = b := hc
    rw [← hab]
    exact h
  | cons p ps ih =>
    obtain ⟨hs, hle, hrest⟩ := hc
    rw [← hs] at h
    have hstep := addParagraph_reaches hpos hle (hrest.le.trans hb) h
    have := ih _ hrest hstep
    rw [List.map_cons, List.sum_cons, ← Nat.add_assoc]
    exact this

/-! ## What `chunk_text` returns -/

theorem chunkText_leaves (text : Text) {maxChars : Int} (hpos : 0 < maxChars) :
    ∃ spans, chunkText text maxChars = .ok spans ∧
      Leaves spans text.length
        ((paragraphBoundaries text).map (unmatched text maxChars.toNat)).sum := by
  have hcover := paragraphBoundaries_cover text
  have hpos' : 0 < maxChars.toNat := by omega
  have hrun := addParagraphs_reaches text hpos' { spans := [], cur := none } hcover
    (Nat.le_refl _) Leaves.start
  rw [Nat.zero_add] at hrun
  unfold chunkText
  rw [if_neg (by omega)]
  refine ⟨_, rfl, ?_⟩
  cases hps : (paragraphBoundaries text).getLast? with
  | none =>
    rw [List.getLast?_eq_none_iff] at hps
    rw [hps] at hrun ⊢
    exact hrun
  | some last =>
    have hend := hcover.getLast hps
    generalize (paragraphBoundaries text).foldl (addParagraph text maxChars.toNat) _ = st at hrun ⊢
    obtain ⟨spans, cur⟩ := st
    unfold finish
    rw [hps]
    cases cur with
    | none => exact hrun
    | some pending =>
      obtain ⟨start, n⟩ := pending
      obtain ⟨hl, hn⟩ := hrun
      show Leaves (spans ++ [(start, last.2)]) _ _
      rw [hend]
      exact hl.emit (by omega)

theorem unmatched_eq_zero_iff {text : Text} {maxChars : Nat} {p : Span} (hp : p.1 ≤ p.2)
    (hlen : p.2 ≤ text.length) :
    unmatched text maxChars p = 0 ↔
      (maxChars < p.2 - p.1 → ∀ last ∈ (sentenceSpans text p).getLast?, last.2 = p.2) := by
  obtain ⟨e, hc, he⟩ := sentenceSpans_cover text hp hlen
  unfold unmatched
  by_cases hlong : maxChars < p.2 - p.1
  · rw [if_pos hlong]
    cases hlast : (sentenceSpans text p).getLast? with
    | none => simp
    | some last =>
      have hend := hc.getLast hlast
      simp only [Option.mem_def, Option.some.injEq, forall_eq', hlong, forall_const]
      omega
  · rw [if_neg hlong]
    exact ⟨fun _ h => absurd h hlong, fun _ => rfl⟩

/-- `chunk_text` returns spans in order, without a gap, from the first place of the text to its
end, and the chunks that `chunk_file` makes of them are the text again. -/
def Lossless (text : Text) (maxChars : Int) : Prop :=
  ∃ spans, chunkText text maxChars = .ok spans ∧ Covers 0 spans text.length ∧
    (text = [] → spans = []) ∧
    ∀ (path : String) (r : Reading) (version : String), r.text = text →
      ∃ chunks, chunkFile path (some r) maxChars version = .ok chunks ∧
        (chunks.map Chunk.text).flatten = text

/-- The text is chunked without a loss exactly when in every paragraph that is too long and has a
sentence the last sentence ends with the paragraph. -/
theorem lossless_iff (text : Text) (maxChars : Int) (hpos : 0 < maxChars) :
    Lossless text maxChars ↔
      ∀ p ∈ paragraphBoundaries text, maxChars < ((p.2 - p.1 : Nat) : Int) →
        ∀ last ∈ (sentenceSpans text p).getLast?, last.2 = p.2 := by
  obtain ⟨spans, hspans, hleaves⟩ := chunkText_leaves text hpos
  have hlost : ((paragraphBoundaries text).map (unmatched text maxChars.toNat)).sum = 0 ↔
      ∀ p ∈ paragraphBoundaries text, maxChars < ((p.2 - p.1 : Nat) : Int) →
        ∀ last ∈ (sentenceSpans text p).getLast?, last.2 = p.2 := by
    rw [List.sum_eq_zero_iff_forall_eq_nat]
    simp only [List.mem_map, forall_exists_index, and_imp, forall_apply_eq_imp_iff₂]
    refine forall₂_congr fun p hmem => ?_
    obtain ⟨hp, hlen⟩ := (paragraphBoundaries_cover text).mem hmem
    rw [unmatched_eq_zero_iff hp hlen]
    have hlong : maxChars.toNat < p.2 - p.1 ↔ maxChars < ((p.2 - p.1 : Nat) : Int) := by omega
    rw [hlong]
  rw [← hlost, ← hleaves.covers_iff]
  constructor
  · rintro ⟨spans', hok, hcover, -⟩
    rw [hspans] at hok
    cases hok
    exact hcover
  · intro hcover
    refine ⟨spans, hspans, hcover, ?_, ?_⟩
    · rintro rfl
      have hnil : chunkText [] maxChars = .ok [] := by
        unfold chunkText
        rw [if_neg (by omega)]
        rfl
      rw [hnil] at hspans
      cases hspans
      rfl
    · intro path r version hr
      subst hr
      unfold chunkFile
      simp only [hspans]
      refine ⟨_, rfl, ?_⟩
      refine (congrArg List.flatten ?_).trans (hcover.text r.text)
      exact List.ext_getElem (by simp) (by intros; simp)

namespace Sample

/-- A long paragraph that goes on after its sentence. -/
def unfinished : Text := "A. bb".toList

/-- The same with a second sentence end. -/
def finished : Text := "A. bb!".toList

/-- `chunk_text("A. bb", 3)` is `[(0, 3)]`. -/
theorem unfinished_lossy : ¬ Lossless unfinished 3 := by
  rintro ⟨spans, hok, hcover, -⟩
  have hspans : chunkText unfinished 3 = .ok [(0, 3)] := by decide +kernel
  rw [hspans] at hok
  cases hok
  have hend : (3 : Nat) = 5 := hcover.2.2
  cases hend

theorem finished_lossless : Lossless finished 3 :=
  (lossless_iff finished 3 (by decide)).mpr (by decide +kernel)

end Sample

end ProjectMaya.Ingest
