import ProjectMaya.BusinessMemory
import ProjectMaya.Logic.Batches
import Mathlib.Data.List.TakeWhile

/-! # The chunks of a business document

`_chunks` packs paragraphs into chunks, a blank line between two of them, and cuts a paragraph that
is too long. The loop invariant `Chunking.Packs` says which paragraphs the chunks so far hold; joined
with blank lines the chunks are the paragraphs again (`chunks_restore`). -/

namespace ProjectMaya.Vector.Business

open Logic

/-! ## Blank lines -/

/-- `"\n\n".join(parts)` -/
def joinBlank : List Text → Text
  | [] => []
  | [part] => part
  | part :: next :: parts => part ++ '\n' :: '\n' :: joinBlank (next :: parts)

theorem joinBlank_cons (part : Text) {parts : List Text} (h : parts ≠ []) :
    joinBlank (part :: parts) = part ++ '\n' :: '\n' :: joinBlank parts := by
  cases parts with
  | nil => exact absurd rfl h
  | cons next parts => rfl

theorem joinBlank_append {l r : List Text} (hl : l ≠ []) (hr : r ≠ []) :
    joinBlank (l ++ r) = joinBlank l ++ '\n' :: '\n' :: joinBlank r := by
  induction l with
  | nil => exact absurd rfl hl
  | cons part l ih =>
    cases l with
    | nil => exact joinBlank_cons part hr
    | cons next l =>
      have hne : next :: l ≠ [] := List.cons_ne_nil _ _
      rw [List.cons_append, joinBlank_cons part (by simp), ih hne, joinBlank_cons part hne,
        List.append_assoc, List.cons_append, List.cons_append]

/-- Runs of parts, each of them joined, joined. -/
theorem joinBlank_flatten {runs : List (List Text)} (h : ∀ run ∈ runs, run ≠ []) :
    joinBlank (runs.map joinBlank) = joinBlank runs.flatten := by
  induction runs with
  | nil => rfl
  | cons run runs ih =>
    have hrun := h run List.mem_cons_self
    have hrest := fun r hr => h r (List.mem_cons_of_mem run hr)
    cases runs with
    | nil => simp [joinBlank]
    | cons next runs =>
      have hflat : (next :: runs).flatten ≠ [] := by
        have hnext := hrest next List.mem_cons_self
        simp [hnext]
      rw [List.map_cons, joinBlank_cons _ (by simp), ih hrest, ← joinBlank_append hrun hflat,
        ← List.flatten_cons]

theorem joinBlank_ne_nil {parts : List Text} (hne : parts ≠ []) (h : ∀ p ∈ parts, p ≠ []) :
    joinBlank parts ≠ [] := by
  cases parts with
  | nil => exact absurd rfl hne
  | cons part parts =>
    have hpart := h part List.mem_cons_self
    cases parts with
    | nil => exact hpart
    | cons next parts => simp [joinBlank]

/-- No blank line in it, not even with a newline after it. -/
def Solid (p : Text) : Prop := ¬ ['\n', '\n'] <:+: p ++ ['\n']

theorem splitBlank_ne_nil (t : Text) : splitBlank t ≠ [] := by
  unfold splitBlank
  split
  · exact List.cons_ne_nil _ _
  · exact List.cons_ne_nil _ _
  · split
    · exact List.cons_ne_nil _ _
    · exact List.cons_ne_nil _ _

/-- A character that begins no blank line goes to the first part. -/
theorem splitBlank_cons {c : Char} {rest : Text} (h : ¬ ['\n', '\n'] <+: c :: rest) :
    ∃ part parts, splitBlank rest = part :: parts ∧
      splitBlank (c :: rest) = (c :: part) :: parts := by
  obtain ⟨part, parts, hrest⟩ := List.exists_cons_of_ne_nil (splitBlank_ne_nil rest)
  refine ⟨part, parts, hrest, ?_⟩
  rw [splitBlank.eq_3]
  · rw [hrest]
  · rintro rest' rfl rfl
    exact h ⟨rest', rfl⟩

theorem blank_begins {c : Char} {p : Text} :
    ['\n', '\n'] <+: c :: p ↔ c = '\n' ∧ p.head? = some '\n' := by
  cases p with
  | nil => simp
  | cons d p =>
    rw [List.cons_prefix_cons, List.cons_prefix_cons]
    simp [eq_comm]

theorem Solid.tail {c : Char} {p : Text} (h : Solid (c :: p)) : Solid p :=
  fun hp => h (List.infix_cons hp)

/-- The first character of a solid text begins no blank line, whatever follows its end. -/
theorem Solid.head {c : Char} {p : Text} (h : Solid (c :: p)) (rest : Text) :
    ¬ ['\n', '\n'] <+: c :: (p ++ '\n' :: rest) := by
  intro hp
  refine h (List.IsPrefix.isInfix ?_)
  rw [blank_begins] at hp
  rw [List.cons_append, blank_begins]
  cases p with
  | nil => exact ⟨hp.1, rfl⟩
  | cons d p => exact hp

theorem splitBlank_append {p : Text} (h : Solid p) (rest : Text) :
    splitBlank (p ++ '\n' :: '\n' :: rest) = p :: splitBlank rest := by
  induction p with
  | nil => rfl
  | cons c p ih =>
    obtain ⟨part, parts, hparts, heq⟩ := splitBlank_cons (h.head ('\n' :: rest))
    rw [ih h.tail] at hparts
    cases hparts
    exact heq

theorem splitBlank_solid {p : Text} (h : Solid p) : splitBlank p = [p] := by
  induction p with
  | nil => rfl
  | cons c p ih =>
    have hhead : ¬ ['\n', '\n'] <+: c :: p :=
      fun hp => h ((hp.trans (List.prefix_append _ _)).isInfix)
    obtain ⟨part, parts, hparts, heq⟩ := splitBlank_cons hhead
    rw [ih h.tail] at hparts
    cases hparts
    exact heq

/-- Solid texts that are joined are found again. -/
theorem splitBlank_joinBlank {parts : List Text} (hne : parts ≠ []) (h : ∀ p ∈ parts, Solid p) :
    splitBlank (joinBlank parts) = parts := by
  induction parts with
  | nil => exact absurd rfl hne
  | cons part parts ih =>
    have hpart := h part List.mem_cons_self
    cases parts with
    | nil => exact splitBlank_solid hpart
    | cons next parts =>
      rw [joinBlank_cons part (List.cons_ne_nil _ _), splitBlank_append hpart,
        ih (List.cons_ne_nil _ _) fun p hp => h p (List.mem_cons_of_mem part hp)]

/-! ## The paragraphs -/

/-- No part has a blank line in it, and the first one is a beginning of the text. -/
theorem splitBlank_parts (t : Text) :
    (∀ part ∈ splitBlank t, ¬ ['\n', '\n'] <:+: part) ∧
      ∀ part parts, splitBlank t = part :: parts → part <+: t := by
  induction t using splitBlank.induct with
  | case1 => simp [splitBlank]
  | case2 rest ih =>
    constructor
    · intro part hpart
      cases hpart with
      | head => simp
      | tail _ hpart => exact ih.1 part hpart
    · intro part parts heq
      cases heq
      exact List.nil_prefix
  | case3 c rest _ hnil => exact absurd hnil (splitBlank_ne_nil rest)
  | case4 c rest hblank first parts hrest ih =>
    have hhead : ¬ ['\n', '\n'] <+: c :: rest := by
      rintro ⟨rest', heq⟩
      cases heq
      exact hblank rest' rfl rfl
    obtain ⟨_, _, hrest', heq⟩ := splitBlank_cons hhead
    rw [hrest] at hrest'
    cases hrest'
    have hfirst := ih.2 first parts hrest
    rw [heq]
    constructor
    · intro part hpart
      cases hpart with
      | head =>
        rw [List.infix_cons_iff]
        rintro (hp | hp)
        · exact hhead (hp.trans ((List.cons_prefix_cons).mpr ⟨rfl, hfirst⟩))
        · exact ih.1 first (hrest ▸ List.mem_cons_self) hp
      | tail _ hpart => exact ih.1 part (hrest ▸ List.mem_cons_of_mem first hpart)
    · intro part parts' heq'
      cases heq'
      exact (List.cons_prefix_cons).mpr ⟨rfl, hfirst⟩

/-- Every character that is no newline is in a part. -/
theorem mem_splitBlank {c : Char} (hc : c ≠ '\n') {t : Text} (h : c ∈ t) :
    ∃ part ∈ splitBlank t, c ∈ part := by
  induction t using splitBlank.induct with
  | case1 => cases h
  | case2 rest ih =>
    simp only [List.mem_cons, hc, false_or] at h
    obtain ⟨part, hpart, hmem⟩ := ih h
    exact ⟨part, List.mem_cons_of_mem [] hpart, hmem⟩
  | case3 d rest _ hnil => exact absurd hnil (splitBlank_ne_nil rest)
  | case4 d rest hblank first parts hrest ih =>
    rw [splitBlank.eq_3 d rest hblank, hrest]
    cases h with
    | head => exact ⟨_, List.mem_cons_self, List.mem_cons_self⟩
    | tail _ h =>
      obtain ⟨part, hpart, hmem⟩ := ih h
      rw [hrest] at hpart
      cases hpart with
      | head => exact ⟨_, List.mem_cons_self, List.mem_cons_of_mem d hmem⟩
      | tail _ hpart => exact ⟨part, List.mem_cons_of_mem _ hpart, hmem⟩

theorem mem_unixLines {c : Char} (hc : c ≠ '\r') {t : Text} (h : c ∈ t) : c ∈ unixLines t := by
  induction t using unixLines.induct with
  | case1 => cases h
  | case2 rest ih =>
    unfold unixLines
    simp only [List.mem_cons, hc, false_or] at h ⊢
    exact h.imp id ih
  | case3 d rest hcrlf ih =>
    rw [unixLines.eq_3 d rest hcrlf]
    simp only [List.mem_cons] at h ⊢
    exact h.imp id ih

theorem strip_part (p : Text) : strip p <:+: p := by
  unfold strip
  have hrev := (List.dropWhile_suffix isSpace (l := (p.dropWhile isSpace).reverse)).reverse
  rw [List.reverse_reverse] at hrev
  exact hrev.isInfix.trans (List.dropWhile_suffix isSpace).isInfix

/-- A text that has been stripped does not end in a space. -/
theorem strip_ne_append (p q : Text) (c : Char) (hc : isSpace c = true) : strip p ≠ q ++ [c] := by
  intro h
  have hrev := congrArg List.reverse h
  unfold strip at hrev
  rw [List.reverse_reverse, List.reverse_append, List.reverse_singleton] at hrev
  have hhead := List.head?_dropWhile_not isSpace (p.dropWhile isSpace).reverse
  rw [hrev] at hhead
  simp [hc] at hhead

theorem strip_ne_nil {p : Text} {c : Char} (h : c ∈ p) (hc : isSpace c = false) :
    strip p ≠ [] := by
  intro hnil
  unfold strip at hnil
  rw [List.reverse_eq_nil_iff, List.dropWhile_eq_nil_iff] at hnil
  have hdrop : p.dropWhile isSpace = [] := by
    by_contra hne
    obtain ⟨d, rest, hd⟩ := List.exists_cons_of_ne_nil hne
    have hhead := List.head?_dropWhile_not isSpace p
    rw [hd] at hhead
    have hspace := hnil d (by rw [hd]; simp)
    simp [hspace] at hhead
  rw [List.dropWhile_eq_nil_iff] at hdrop
  rw [hdrop c h] at hc
  cases hc

theorem solid_strip {p : Text} (h : ¬ ['\n', '\n'] <:+: p) : Solid (strip p) := by
  intro hp
  rw [List.infix_concat_iff] at hp
  rcases hp with ⟨q, hq⟩ | hp
  · have hend : (q ++ ['\n']) ++ ['\n'] = strip p ++ ['\n'] := by
      rw [← hq, List.append_assoc]
      rfl
    exact strip_ne_append p q '\n' (by decide) (List.append_cancel_right hend).symm
  · exact h (hp.trans (strip_part p))

theorem mem_paragraphs {t p : Text} :
    p ∈ paragraphs t ↔ (∃ part ∈ splitBlank (unixLines t), strip part = p) ∧ p ≠ [] := by
  simp [paragraphs]

theorem paragraphs_ne_nil {t : Text} (h : ∃ c ∈ t, isSpace c = false) : paragraphs t ≠ [] := by
  obtain ⟨c, hmem, hc⟩ := h
  have hn : c ≠ '\n' := by
    rintro rfl
    exact absurd hc (by decide)
  have hr : c ≠ '\r' := by
    rintro rfl
    exact absurd hc (by decide)
  obtain ⟨part, hpart, hin⟩ := mem_splitBlank hn (mem_unixLines hr hmem)
  have hp : strip part ∈ paragraphs t :=
    mem_paragraphs.mpr ⟨⟨part, hpart, rfl⟩, strip_ne_nil hin hc⟩
  exact List.ne_nil_of_mem hp

theorem solid_of_mem_paragraphs {t p : Text} (h : p ∈ paragraphs t) : Solid p := by
  obtain ⟨⟨part, hpart, rfl⟩, -⟩ := mem_paragraphs.mp h
  exact solid_strip ((splitBlank_parts _).1 part hpart)

/-! ## The loop -/

theorem slices_eq (maxChars : Nat) (p : Text) : slices maxChars p = cut maxChars p := rfl

/-- The paragraphs `u.1` and their chunks `u.2`: joined in one, or the pieces of one paragraph that
is too long. -/
def Packed (maxChars : Nat) (u : List Text × List Text) : Prop :=
  (u.1 ≠ [] ∧ u.2 = [joinBlank u.1]) ∨
    ∃ p, maxChars < p.length ∧ u.1 = [p] ∧ u.2 = slices maxChars p

/-- The chunks that are finished hold the paragraphs `ps` without `pending`, and the one that is not
holds those. -/
structure Chunking.Packs (maxChars : Nat) (st : Chunking) (ps : List Text)
    (units : List (List Text × List Text)) (pending : List Text) : Prop where
  paragraphs : ps = (units.map Prod.fst).flatten ++ pending
  chunks : st.result = (units.map Prod.snd).flatten
  packed : ∀ u ∈ units, Packed maxChars u
  current : st.current = joinBlank pending
  nonempty : ∀ p ∈ ps, p ≠ []
  sizes : ∀ c ∈ st.result, c ≠ [] ∧ c.length ≤ maxChars
  short : st.current.length ≤ maxChars

variable {maxChars : Nat} {st : Chunking} {ps : List Text} {units : List (List Text × List Text)}
  {pending : List Text}

theorem Chunking.Packs.current_eq_nil (h : st.Packs maxChars ps units pending) :
    st.current = [] ↔ pending = [] := by
  rw [h.current]
  constructor
  · intro hnil
    by_contra hne
    refine joinBlank_ne_nil hne (fun p hp => h.nonempty p ?_) hnil
    rw [h.paragraphs]
    exact List.mem_append_right _ hp
  · rintro rfl
    rfl

/-- After `if current: result.append(current)` nothing is pending. -/
theorem Chunking.Packs.flush (h : st.Packs maxChars ps units pending) :
    ∃ units' : List (List Text × List Text), ps = (units'.map Prod.fst).flatten ∧
      st.flush = (units'.map Prod.snd).flatten ∧ (∀ u ∈ units', Packed maxChars u) ∧
      ∀ c ∈ st.flush, c ≠ [] ∧ c.length ≤ maxChars := by
  have hcurrent := h.current_eq_nil
  unfold Chunking.flush
  by_cases hnil : st.current = []
  · have hpending := hcurrent.mp hnil
    rw [if_pos hnil]
    refine ⟨units, ?_, h.chunks, h.packed, h.sizes⟩
    rw [h.paragraphs, hpending, List.append_nil]
  · rw [if_neg hnil]
    refine ⟨units ++ [(pending, [st.current])], ?_, ?_, ?_, ?_⟩
    · simp [h.paragraphs]
    · simp [h.chunks]
    · rw [List.forall_mem_append, List.forall_mem_singleton]
      exact ⟨h.packed, .inl ⟨fun hp => hnil (hcurrent.mpr hp), by rw [h.current]⟩⟩
    · rw [List.forall_mem_append, List.forall_mem_singleton]
      exact ⟨h.sizes, hnil, h.short⟩

theorem Chunking.Packs.add (hpos : 0 < maxChars) (h : st.Packs maxChars ps units pending)
    {p : Text} (hp : p ≠ []) :
    ∃ units' pending', (st.add maxChars p).Packs maxChars (ps ++ [p]) units' pending' := by
  have hnonempty : ∀ q ∈ ps ++ [p], q ≠ [] := by
    rw [List.forall_mem_append, List.forall_mem_singleton]
    exact ⟨h.nonempty, hp⟩
  unfold Chunking.add
  by_cases hlong : maxChars < p.length
  · -- the pending chunk is flushed, and the paragraph is cut
    obtain ⟨units', hps, hchunks, hpacked, hsizes⟩ := h.flush
    rw [if_pos hlong]
    refine ⟨units' ++ [([p], slices maxChars p)], [], ?_, ?_, ?_, rfl, hnonempty, ?_, ?_⟩
    · simp [hps]
    · simp [hchunks]
    · rw [List.forall_mem_append, List.forall_mem_singleton]
      exact ⟨hpacked, .inr ⟨p, hlong, rfl, rfl⟩⟩
    · rw [List.forall_mem_append]
      refine ⟨hsizes, fun c hc => ?_⟩
      obtain ⟨hc0, hcmax⟩ := length_of_mem_cut hpos (slices_eq maxChars p ▸ hc)
      exact ⟨List.ne_nil_of_length_pos hc0, hcmax⟩
    · exact Nat.zero_le _
  · rw [if_neg hlong]
    by_cases hnil : st.current = []
    · have hpending := h.current_eq_nil.mp hnil
      rw [if_pos hnil]
      refine ⟨units, [p], ?_, h.chunks, h.packed, rfl, hnonempty, h.sizes, Nat.le_of_not_lt hlong⟩
      rw [h.paragraphs, hpending, List.append_nil]
    · rw [if_neg hnil]
      have hpending : pending ≠ [] := fun hp => hnil (h.current_eq_nil.mpr hp)
      by_cases hfit : st.current.length + 2 + p.length ≤ maxChars
      · rw [if_pos hfit]
        refine ⟨units, pending ++ [p], ?_, h.chunks, h.packed, ?_, hnonempty, h.sizes, ?_⟩
        · rw [h.paragraphs, List.append_assoc]
        · rw [joinBlank_append hpending (List.cons_ne_nil _ _), ← h.current]
          rfl
        · simp only [List.length_append, List.length_cons]
          omega
      · rw [if_neg hfit]
        refine ⟨units ++ [(pending, [st.current])], [p], ?_, ?_, ?_, rfl, hnonempty, ?_,
          Nat.le_of_not_lt hlong⟩
        · simp [h.paragraphs]
        · simp [h.chunks]
        · rw [List.forall_mem_append, List.forall_mem_singleton]
          exact ⟨h.packed, .inl ⟨hpending, by rw [h.current]⟩⟩
        · rw [List.forall_mem_append, List.forall_mem_singleton]
          exact ⟨h.sizes, hnil, h.short⟩

theorem Chunking.Packs.foldl (hpos : 0 < maxChars) {qs : List Text} (hqs : ∀ q ∈ qs, q ≠ [])
    (h : st.Packs maxChars ps units pending) :
    ∃ units' pending',
      (qs.foldl (Chunking.add maxChars) st).Packs maxChars (ps ++ qs) units' pending' := by
  induction qs generalizing st ps units pending with
  | nil =>
    rw [List.append_nil]
    exact ⟨units, pending, h⟩
  | cons q qs ih =>
    obtain ⟨units', pending', hadd⟩ := h.add hpos (hqs q List.mem_cons_self)
    obtain ⟨units'', pending'', hrest⟩ := ih (fun r hr => hqs r (List.mem_cons_of_mem q hr)) hadd
    rw [List.append_assoc] at hrest
    exact ⟨units'', pending'', hrest⟩

/-! ## What `_chunks` returns -/

/-- The pieces of a paragraph that is too long put together, and blank lines between all others, the
chunks are the paragraphs of the text. -/
def Restores (maxChars : Nat) (t : Text) (chunks : List Text) : Prop :=
  ∃ groups : List (List Text), groups.flatten = chunks ∧
    (∀ g ∈ groups, (∃ chunk, g = [chunk]) ∨
      ∃ p ∈ paragraphs t, maxChars < p.length ∧ g = slices maxChars p) ∧
    splitBlank (joinBlank (groups.map List.flatten)) = paragraphs t

theorem flatten_packed (hpos : 0 < maxChars) {u : List Text × List Text}
    (h : Packed maxChars u) : u.2.flatten = joinBlank u.1 := by
  rcases h with ⟨-, h2⟩ | ⟨p, -, h1, h2⟩
  · rw [h2]
    simp
  · rw [h1, h2, slices_eq, flatten_cut hpos]
    rfl

theorem restores_of_packed (hpos : 0 < maxChars) {t : Text} (ht : paragraphs t ≠ [])
    (hps : paragraphs t = (units.map Prod.fst).flatten) (h : ∀ u ∈ units, Packed maxChars u) :
    Restores maxChars t (units.map Prod.snd).flatten := by
  refine ⟨units.map Prod.snd, rfl, ?_, ?_⟩
  · intro g hg
    obtain ⟨u, hu, rfl⟩ := List.mem_map.mp hg
    rcases h u hu with ⟨-, h2⟩ | ⟨p, hlong, h1, h2⟩
    · exact .inl ⟨_, h2⟩
    · refine .inr ⟨p, ?_, hlong, h2⟩
      rw [hps]
      refine List.mem_flatten_of_mem (List.mem_map_of_mem hu) ?_
      rw [h1]
      exact List.mem_cons_self
  · have hjoin : (units.map Prod.snd).map List.flatten = (units.map Prod.fst).map joinBlank := by
      rw [List.map_map, List.map_map]
      exact List.map_congr_left fun u hu => flatten_packed hpos (h u hu)
    have hruns : ∀ run ∈ units.map Prod.fst, run ≠ [] := by
      intro run hrun
      obtain ⟨u, hu, rfl⟩ := List.mem_map.mp hrun
      rcases h u hu with ⟨h1, -⟩ | ⟨p, -, h1, -⟩
      · exact h1
      · rw [h1]
        exact List.cons_ne_nil _ _
    rw [hjoin, joinBlank_flatten hruns, ← hps]
    exact splitBlank_joinBlank ht fun p hp => solid_of_mem_paragraphs hp

/-- **Business chunking.**  A text that is not blank has chunks; none is empty or too long, and
together they are its paragraphs. -/
theorem chunks_restore (t : Text) (maxChars : Int) (ht : ∃ c ∈ t, isSpace c = false)
    (hmax : 100 ≤ maxChars) :
    ∃ cs, chunks t maxChars = .ok cs ∧ cs ≠ [] ∧
      (∀ c ∈ cs, c ≠ [] ∧ (c.length : Int) ≤ maxChars) ∧ Restores maxChars.toNat t cs := by
  have hpos : 0 < maxChars.toNat := by omega
  have hne := paragraphs_ne_nil ht
  have hparts : ∀ p ∈ paragraphs t, p ≠ [] := fun p hp => (mem_paragraphs.mp hp).2
  have hstart : ({} : Chunking).Packs maxChars.toNat [] [] [] :=
    ⟨rfl, rfl, fun u hu => (by cases hu), rfl, fun p hp => (by cases hp), fun c hc => (by cases hc),
      Nat.zero_le _⟩
  obtain ⟨units, pending, hloop⟩ := hstart.foldl hpos hparts
  obtain ⟨units', hps, hflush, hpacked, hsizes⟩ := hloop.flush
  rw [List.nil_append] at hps
  have hok : chunks t maxChars = .ok ((paragraphs t).foldl (Chunking.add maxChars.toNat) {}).flush := by
    unfold chunks
    rw [ensure_pos hmax]
    rfl
  refine ⟨_, hok, ?_, fun c hc => ?_, ?_⟩
  · -- chunks that are put together to something are there
    intro hnil
    rw [hflush] at hnil
    refine hne ?_
    rw [hps]
    refine List.flatten_eq_nil_iff.mpr fun run hrun => ?_
    obtain ⟨u, hu, rfl⟩ := List.mem_map.mp hrun
    have hu2 := List.flatten_eq_nil_iff.mp hnil u.2 (List.mem_map_of_mem hu)
    have hjoin := flatten_packed hpos (hpacked u hu)
    rw [hu2] at hjoin
    by_contra hu1
    refine joinBlank_ne_nil hu1 (fun p hp => hparts p ?_) hjoin.symm
    rw [hps]
    exact List.mem_flatten_of_mem (List.mem_map_of_mem hu) hp
  · obtain ⟨hc0, hcmax⟩ := hsizes c hc
    exact ⟨hc0, by omega⟩
  · rw [hflush]
    exact restores_of_packed hpos hne hps hpacked

namespace Sample

/-- Two paragraphs of 60 characters do not go into one chunk of 100. -/
theorem chunks_two : ∃ cs, chunks (List.replicate 60 'a' ++ text "\n\n" ++ List.replicate 60 'b') 100 =
    .ok cs ∧ cs ≠ [] ∧ (∀ c ∈ cs, c ≠ [] ∧ (c.length : Int) ≤ 100) ∧
      Restores 100 (List.replicate 60 'a' ++ text "\n\n" ++ List.replicate 60 'b') cs :=
  chunks_restore _ 100 ⟨'a', by simp, by decide⟩ (by decide)

end Sample

end ProjectMaya.Vector.Business
