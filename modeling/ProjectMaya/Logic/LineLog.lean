import Mathlib.Data.List.Perm.Subperm
import Mathlib.Logic.Function.Basic

/-! # A file of lines that several writers append to

A record reaches the file in appends of at most `buffer` symbols, which other writers' appends come
between; a writer may stop with a part of an append done.  Nobody looks at how the file ends.  If no
record is begun where the last line is not ended (`Orderly`), then every record whose writing has
ended has a line of its own (`kept_of_run`). -/

namespace Logic.LineLog

/-! ## Lines -/

section

variable {α : Type} [DecidableEq α] {sep : α} {file t tail : List α} {before : List (List α)}

/-- The file has these lines, and this begins its last one. -/
structure Split (sep : α) (file : List α) (before : List (List α)) (tail : List α) : Prop where
  fresh : sep ∉ tail
  suffix : tail <:+ file
  lines : ∀ t, sep ∉ t → (file ++ t).splitOn sep = before ++ [tail ++ t]

theorem exists_split (sep : α) (file : List α) : ∃ before tail, Split sep file before tail := by
  by_cases hmem : sep ∈ file
  · obtain ⟨after, front, hfile, hafter⟩ := List.eq_append_cons_of_mem (List.mem_reverse.2 hmem)
    have hfile' : file = front.reverse ++ sep :: after.reverse := by
      rw [← List.reverse_reverse file, hfile]
      simp
    have hfresh : sep ∉ after.reverse := fun h => hafter (List.mem_reverse.1 h)
    refine ⟨front.reverse.splitOn sep, after.reverse, hfresh, ?_, fun t ht => ?_⟩
    · rw [hfile']
      exact (List.suffix_cons sep _).trans (List.suffix_append _ _)
    · have htail : sep ∉ after.reverse ++ t := List.not_mem_append hfresh ht
      rw [hfile', List.append_assoc, List.cons_append, List.splitOn_append_cons_self,
        List.splitOn_eq_singleton htail]
  · refine ⟨[], file, hmem, List.suffix_rfl, fun t ht => ?_⟩
    exact List.splitOn_eq_singleton (List.not_mem_append hmem ht)

theorem Split.append (h : Split sep file before tail) (ht : sep ∉ t) :
    Split sep (file ++ t) before (tail ++ t) where
  fresh := List.not_mem_append h.fresh ht
  suffix := by
    obtain ⟨front, hfront⟩ := h.suffix
    exact ⟨front, by rw [← List.append_assoc, hfront]⟩
  lines u hu := by
    rw [List.append_assoc, h.lines _ (List.not_mem_append ht hu), List.append_assoc]

theorem Split.close (h : Split sep file before tail) (ht : sep ∉ t) :
    Split sep (file ++ (t ++ [sep])) (before ++ [tail ++ t]) [] where
  fresh := List.not_mem_nil
  suffix := List.nil_suffix
  lines u hu := by
    rw [List.append_assoc, List.append_assoc, List.singleton_append, ← List.append_assoc,
      List.splitOn_append_cons_self, h.lines t ht, List.splitOn_eq_singleton hu, List.nil_append]

/-- The last line is ended. -/
def Ended (sep : α) (file : List α) : Prop := file = [] ∨ file.getLast? = some sep

theorem Split.tail_eq_nil (h : Split sep file before tail) (hended : Ended sep file) : tail = [] := by
  obtain ⟨front, rfl⟩ := h.suffix
  rcases hended with hnil | hlast
  · exact (List.append_eq_nil_iff.1 hnil).2
  · rcases List.eq_nil_or_concat tail with rfl | ⟨more, c, rfl⟩
    · rfl
    · rw [List.concat_eq_append, ← List.append_assoc, List.getLast?_concat] at hlast
      refine absurd ?_ h.fresh
      rw [← Option.some.inj hlast]
      simp

end

/-! ## Writers -/

/-- A record that is being written, and what is not in the file of it. -/
structure Writing (α R : Type) where
  record : R
  left : List α

structure State (α R P : Type) where
  file : List α
  writers : P → Option (Writing α R)
  /-- the records whose writing has ended -/
  returned : List R

inductive Event (R P : Type) where
  | write (p : P) (r : R)
  | append (p : P) (n : Nat)
  /-- The writer stops, with at most so much of an append done. -/
  | crash (p : P) (n : Nat)
  | done (p : P)

/-- A file that nobody writes to. -/
def start {α : Type} (R P : Type) (file : List α) : State α R P := ⟨file, fun _ => none, []⟩

section

variable {α R P : Type} [DecidableEq P] (line : R → List α) (buffer : Nat)

def step (s : State α R P) : Event R P → Option (State α R P)
  | .write p r =>
    match s.writers p with
    | none => some { s with writers := Function.update s.writers p (some ⟨r, line r⟩) }
    | some _ => none
  | .append p n =>
    match s.writers p with
    | none => none
    | some w =>
      if 0 < n ∧ n ≤ buffer ∧ w.left.isEmpty = false then
        some { s with
          file := s.file ++ w.left.take n
          writers := Function.update s.writers p (some { w with left := w.left.drop n }) }
      else none
  | .crash p n =>
    match s.writers p with
    | none => none
    | some w =>
      if n ≤ buffer then
        some { s with
          file := s.file ++ w.left.take n
          writers := Function.update s.writers p none }
      else none
  | .done p =>
    match s.writers p with
    | none => none
    | some w =>
      if w.left.isEmpty then
        some { s with
          writers := Function.update s.writers p none
          returned := w.record :: s.returned }
      else none

def run (s : State α R P) : List (Event R P) → Option (State α R P)
  | [] => some s
  | e :: rest => (step line buffer s e).bind fun s' => run s' rest

/-- The event puts the first symbols of a record into the file. -/
def Begins (s : State α R P) : Event R P → Prop
  | .append p n | .crash p n => 0 < n ∧ ∃ w, s.writers p = some w ∧ w.left = line w.record
  | .write _ _ | .done _ => False

/-- No record is begun where the last line is not ended. -/
def Orderly (sep : α) (s : State α R P) : List (Event R P) → Prop
  | [] => True
  | e :: rest => (Begins line s e → Ended sep s.file) ∧
    ∀ s', step line buffer s e = some s' → Orderly sep s' rest

end

section

variable {α R P : Type} [DecidableEq α] [DecidableEq P] {line : R → List α} {buffer : Nat} {sep : α}

instance (s : State α R P) : DecidablePred (Begins line s)
  | .append p n | .crash p n =>
    inferInstanceAs (Decidable (0 < n ∧ ∃ w ∈ s.writers p, w.left = line w.record))
  | .write _ _ | .done _ => isFalse id

instance (file : List α) : Decidable (Ended sep file) :=
  inferInstanceAs (Decidable (_ ∨ _))

instance decidableOrderly : ∀ (s : State α R P) (events : List (Event R P)),
    Decidable (Orderly line buffer sep s events)
  | _, [] => isTrue trivial
  | s, e :: rest =>
    have := fun s' => decidableOrderly s' rest
    inferInstanceAs (Decidable ((Begins line s e → Ended sep s.file) ∧
      ∀ s' ∈ step line buffer s e, Orderly line buffer sep s' rest))

end

/-- What an event can do. -/
theorem step_cases {α R P : Type} [DecidableEq P] {line : R → List α} {buffer : Nat}
    {s s' : State α R P} {e : Event R P} (h : step line buffer s e = some s') :
    (∃ p r, e = .write p r ∧ s.writers p = none ∧
      s' = { s with writers := Function.update s.writers p (some ⟨r, line r⟩) }) ∨
    (∃ p n w, e = .append p n ∧ s.writers p = some w ∧ 0 < n ∧ w.left ≠ [] ∧
      s' = { s with
        file := s.file ++ w.left.take n
        writers := Function.update s.writers p (some { w with left := w.left.drop n }) }) ∨
    (∃ p n w, e = .crash p n ∧ s.writers p = some w ∧
      s' = { s with
        file := s.file ++ w.left.take n
        writers := Function.update s.writers p none }) ∨
    ∃ p w, e = .done p ∧ s.writers p = some w ∧ w.left = [] ∧
      s' = { s with
        writers := Function.update s.writers p none
        returned := w.record :: s.returned } := by
  cases e with
  | write p r =>
    simp only [step] at h
    split at h
    · cases h
      exact .inl ⟨p, r, rfl, ‹_›, rfl⟩
    · cases h
  | append p n =>
    simp only [step] at h
    split at h
    · cases h
    · split at h
      · rename_i w hw hcan
        cases h
        exact .inr (.inl ⟨p, n, w, rfl, hw, hcan.1, List.isEmpty_eq_false_iff.1 hcan.2.2, rfl⟩)
      · cases h
  | crash p n =>
    simp only [step] at h
    split at h
    · cases h
    · split at h
      · rename_i w hw hcan
        cases h
        exact .inr (.inr (.inl ⟨p, n, w, rfl, hw, rfl⟩))
      · cases h
  | done p =>
    simp only [step] at h
    split at h
    · cases h
    · split at h
      · rename_i w hw hcan
        cases h
        exact .inr (.inr (.inr ⟨p, w, rfl, hw, List.isEmpty_iff.1 hcan, rfl⟩))
      · cases h

/-! ## What holds of a writer -/

section

variable {α R P : Type} [DecidableEq α] {sep : α} {text : R → List α}

/-- The record and the end of its line. -/
def ended (text : R → List α) (sep : α) (r : R) : List α := text r ++ [sep]

omit [DecidableEq α] in
theorem ended_ne_nil (r : R) : ended text sep r ≠ [] := by
  unfold ended
  simp

/-- A part of the record is in the file. -/
def Midway (line : R → List α) (w : Writing α R) : Prop := w.left ≠ line w.record ∧ w.left ≠ []

/-- What the writers have in the file: ended lines, of which those in `owned` belong to writers that
have not returned, and what one writer has written of its line at most. -/
structure Inv (sep : α) (text : R → List α) (s : State α R P) (before : List (List α))
    (tail : List α) (owned : List (P × R)) : Prop where
  split : Split sep s.file before tail
  midway : ∀ p w, s.writers p = some w → Midway (ended text sep) w →
    tail ≠ [] ∧ tail ++ w.left = ended text sep w.record
  alone : ∀ p w p' w', s.writers p = some w → s.writers p' = some w' →
    Midway (ended text sep) w → Midway (ended text sep) w' → p = p'
  nodup : owned.Nodup
  owners : ∀ p r, (p, r) ∈ owned ↔ s.writers p = some ⟨r, []⟩
  kept : ((s.returned ++ owned.map Prod.snd).map text).Subperm before

theorem inv_start (sep : α) (text : R → List α) (file : List α) :
    ∃ before tail, Inv sep text (start R P file) before tail [] := by
  obtain ⟨before, tail, hsplit⟩ := exists_split sep file
  refine ⟨before, tail, hsplit, ?_, ?_, List.nodup_nil, ?_, List.nil_subperm⟩
  · intro p w h
    cases h
  · intro p w p' w' h
    cases h
  · intro p r
    constructor
    · intro h
      cases h
    · intro h
      cases h

/-- The next symbols of a line follow what is there of it: they end it, or they do not. -/
theorem Split.take {file tail left l : List α} {before : List (List α)}
    (h : Split sep file before tail) (hl : sep ∉ l) (hline : tail ++ left = l ++ [sep])
    (hleft : left ≠ []) (n : Nat) :
    (left.drop n = [] ∧ Split sep (file ++ left.take n) (before ++ [l]) []) ∨
      (left.drop n ≠ [] ∧ Split sep (file ++ left.take n) before (tail ++ left.take n)) := by
  by_cases hdrop : left.drop n = []
  · have htake : left.take n = left := by
      have happ := List.take_append_drop n left
      rwa [hdrop, List.append_nil] at happ
    rcases List.eq_nil_or_concat left with hnil | ⟨most, c, hmost⟩
    · exact absurd hnil hleft
    · rw [List.concat_eq_append] at hmost
      rw [hmost, ← List.append_assoc] at hline
      obtain ⟨rfl, hc⟩ := List.append_inj' hline rfl
      obtain rfl := List.head_eq_of_cons_eq hc
      have hfresh : c ∉ most := fun hmem => hl (List.mem_append_right _ hmem)
      refine .inl ⟨hdrop, ?_⟩
      rw [htake, hmost]
      exact h.close hfresh
  · rcases List.eq_nil_or_concat (left.drop n) with hnil | ⟨most, c, hmost⟩
    · exact absurd hnil hdrop
    · rw [List.concat_eq_append] at hmost
      rw [← List.take_append_drop n left, hmost, ← List.append_assoc, ← List.append_assoc] at hline
      obtain ⟨rfl, -⟩ := List.append_inj' hline rfl
      refine .inr ⟨hdrop, h.append fun hmem => hl ?_⟩
      exact List.mem_append_left _ (List.mem_append_right _ hmem)

section

variable {s : State α R P} {before : List (List α)} {tail : List α} {owned : List (P × R)}
  {p : P} {w : Writing α R}

/-- Who appends goes on with the last line, and nobody else is in it. -/
theorem Inv.turn (hinv : Inv sep text s before tail owned) (hw : s.writers p = some w)
    (hleft : w.left ≠ []) (hended : w.left = ended text sep w.record → Ended sep s.file) :
    tail ++ w.left = ended text sep w.record ∧
      ∀ p' w', s.writers p' = some w' → Midway (ended text sep) w' → p' = p := by
  by_cases hnew : w.left = ended text sep w.record
  · have htail := hinv.split.tail_eq_nil (hended hnew)
    refine ⟨by rw [htail, List.nil_append, hnew], fun p' w' hw' hmid => ?_⟩
    exact absurd htail (hinv.midway p' w' hw' hmid).1
  · have hmid : Midway (ended text sep) w := ⟨hnew, hleft⟩
    exact ⟨(hinv.midway p w hw hmid).2,
      fun p' w' hw' hmid' => hinv.alone p' w' p w hw' hw hmid' hmid⟩

/-- Who has not written all owns no line. -/
theorem Inv.not_owner (hinv : Inv sep text s before tail owned)
    (h : ∀ r, s.writers p ≠ some ⟨r, []⟩) (r : R) : (p, r) ∉ owned :=
  fun hmem => h r ((hinv.owners p r).1 hmem)

variable [DecidableEq P]

/-- One writer changes, and the others have written what they had. -/
theorem Inv.update (hinv : Inv sep text s before tail owned) {file' : List α} {returned' : List R}
    {before' : List (List α)} {tail' : List α} {owned' : List (P × R)} {v : Option (Writing α R)}
    (hsplit : Split sep file' before' tail')
    (hother : ∀ p' w', p' ≠ p → s.writers p' = some w' → Midway (ended text sep) w' →
      tail' ≠ [] ∧ tail' ++ w'.left = ended text sep w'.record)
    (hself : ∀ w, v = some w → Midway (ended text sep) w →
      (tail' ≠ [] ∧ tail' ++ w.left = ended text sep w.record) ∧
        ∀ p' w', s.writers p' = some w' → Midway (ended text sep) w' → p' = p)
    (hnodup : owned'.Nodup)
    (howned : ∀ p' r, (p', r) ∈ owned' ↔
      p' ≠ p ∧ (p', r) ∈ owned ∨ p' = p ∧ v = some ⟨r, []⟩)
    (hkept : ((returned' ++ owned'.map Prod.snd).map text).Subperm before') :
    Inv sep text ⟨file', Function.update s.writers p v, returned'⟩ before' tail' owned' := by
  have hhere : Function.update s.writers p v p = v := Function.update_self ..
  have hthere : ∀ {p'}, p' ≠ p → Function.update s.writers p v p' = s.writers p' :=
    fun hp => Function.update_of_ne hp ..
  refine ⟨hsplit, ?_, ?_, hnodup, ?_, hkept⟩
  · intro p' w' hw' hmid
    by_cases hp : p' = p
    · subst hp
      exact (hself w' (hhere.symm.trans hw') hmid).1
    · exact hother p' w' hp ((hthere hp).symm.trans hw') hmid
  · intro p₁ w₁ p₂ w₂ hw₁ hw₂ hmid₁ hmid₂
    by_cases hp₁ : p₁ = p
    · subst hp₁
      by_cases hp₂ : p₂ = p₁
      · exact hp₂.symm
      · exact ((hself w₁ (hhere.symm.trans hw₁) hmid₁).2 p₂ w₂ ((hthere hp₂).symm.trans hw₂)
          hmid₂).symm
    · have hold₁ := (hthere hp₁).symm.trans hw₁
      by_cases hp₂ : p₂ = p
      · subst hp₂
        exact (hself w₂ (hhere.symm.trans hw₂) hmid₂).2 p₁ w₁ hold₁ hmid₁
      · exact hinv.alone p₁ w₁ p₂ w₂ hold₁ ((hthere hp₂).symm.trans hw₂) hmid₁ hmid₂
  · intro p' r
    show (p', r) ∈ owned' ↔ Function.update s.writers p v p' = some ⟨r, []⟩
    rw [howned p' r]
    by_cases hp : p' = p
    · subst hp
      rw [hhere]
      simp
    · rw [hthere hp, hinv.owners p' r]
      simp [hp]

omit [DecidableEq α] [DecidableEq P] in
/-- The owners stay as they are, if the writer that changes is none and becomes none. -/
theorem owners_stay (hnot : ∀ r, (p, r) ∉ owned) {v : Option (Writing α R)}
    (hv : ∀ r, v ≠ some ⟨r, []⟩) (p' : P) (r : R) :
    (p', r) ∈ owned ↔ p' ≠ p ∧ (p', r) ∈ owned ∨ p' = p ∧ v = some ⟨r, []⟩ := by
  constructor
  · intro hmem
    refine .inl ⟨?_, hmem⟩
    rintro rfl
    exact hnot r hmem
  · rintro (⟨-, hmem⟩ | ⟨-, heq⟩)
    · exact hmem
    · exact absurd heq (hv r)

theorem Inv.write (hinv : Inv sep text s before tail owned) (hp : s.writers p = none) (r : R) :
    Inv sep text { s with writers := Function.update s.writers p (some ⟨r, ended text sep r⟩) }
      before tail owned := by
  have hnot := hinv.not_owner (p := p) (by rw [hp]; simp)
  refine hinv.update hinv.split (fun p' w' _ => hinv.midway p' w') ?_ hinv.nodup
    (owners_stay hnot fun r' heq => ?_) hinv.kept
  · rintro w ⟨⟩ hmid
    exact absurd rfl hmid.1
  · exact ended_ne_nil r (Writing.mk.inj (Option.some.inj heq)).2

omit [DecidableEq α] [DecidableEq P] in
theorem perm_owned (returned : List R) (owned : List (P × R)) (p : P) (r : R) :
    ((returned ++ ((p, r) :: owned).map Prod.snd).map text).Perm
      (text r :: (returned ++ owned.map Prod.snd).map text) := by
  rw [List.map_cons]
  exact List.perm_middle.map text

theorem Inv.append (hinv : Inv sep text s before tail owned) (hw : s.writers p = some w)
    (hsep : sep ∉ text w.record) (hleft : w.left ≠ []) {n : Nat} (hn : 0 < n)
    (hended : w.left = ended text sep w.record → Ended sep s.file) :
    ∃ before' tail' owned', Inv sep text { s with
      file := s.file ++ w.left.take n
      writers := Function.update s.writers p (some { w with left := w.left.drop n }) }
        before' tail' owned' := by
  obtain ⟨hline, hturn⟩ := hinv.turn hw hleft hended
  have hnot := hinv.not_owner (p := p) fun r heq => by
    rw [hw] at heq
    exact hleft (congrArg Writing.left (Option.some.inj heq))
  have hother : ∀ p' w', p' ≠ p → s.writers p' = some w' → ¬ Midway (ended text sep) w' :=
    fun p' w' hp hw' hmid => hp (hturn p' w' hw' hmid)
  rcases hinv.split.take hsep hline hleft n with ⟨hdrop, hsplit⟩ | ⟨hdrop, hsplit⟩
  · refine ⟨_, _, (p, w.record) :: owned, hinv.update hsplit ?_ ?_ ?_ ?_ ?_⟩
    · exact fun p' w' hp hw' hmid => absurd hmid (hother p' w' hp hw')
    · rintro w' ⟨⟩ hmid
      exact absurd hdrop hmid.2
    · exact List.nodup_cons.2 ⟨hnot _, hinv.nodup⟩
    · intro p' r
      rw [List.mem_cons, Prod.mk.injEq, owners_stay hnot (v := (none : Option (Writing α R))) (by simp) p' r, hdrop]
      simp [eq_comm, or_comm]
    · refine (perm_owned s.returned owned p w.record).subperm_right.2 ?_
      have hlast := hinv.kept.append (List.Subperm.refl [text w.record])
      exact (List.perm_append_singleton _ _).subperm_right.1 hlast
  · have htake : w.left.take n ≠ [] := by
      rw [Ne, List.take_eq_nil_iff, not_or]
      exact ⟨Nat.ne_of_gt hn, hleft⟩
    refine ⟨_, _, owned, hinv.update hsplit ?_ ?_ hinv.nodup
      (owners_stay hnot fun r heq => hdrop (congrArg Writing.left (Option.some.inj heq))) hinv.kept⟩
    · exact fun p' w' hp hw' hmid => absurd hmid (hother p' w' hp hw')
    · rintro w' ⟨⟩ hmid
      refine ⟨⟨?_, ?_⟩, hturn⟩
      · exact fun hnil => htake (List.append_eq_nil_iff.1 hnil).2
      · rw [List.append_assoc, List.take_append_drop]
        exact hline

theorem Inv.crash (hinv : Inv sep text s before tail owned) (hw : s.writers p = some w)
    (hsep : sep ∉ text w.record) (n : Nat)
    (hended : 0 < n → w.left = ended text sep w.record → Ended sep s.file) :
    ∃ before' tail' owned', Inv sep text { s with
      file := s.file ++ w.left.take n
      writers := Function.update s.writers p none } before' tail' owned' := by
  by_cases htake : w.left.take n = []
  · -- nothing is appended, and the writer may have owned a line
    refine ⟨before, tail, owned.filter fun x => x.1 ≠ p, ?_⟩
    rw [htake, List.append_nil]
    refine hinv.update hinv.split (fun p' w' _ => hinv.midway p' w') ?_ (hinv.nodup.filter _) ?_ ?_
    · rintro w' ⟨⟩
    · intro p' r
      simp [and_comm]
    · refine List.Subperm.trans (List.Sublist.subperm ?_) hinv.kept
      exact ((List.Sublist.refl _).append (List.filter_sublist.map _)).map _
  · have hn : 0 < n := by
      by_contra hzero
      rw [Nat.eq_zero_of_not_pos hzero] at htake
      exact htake List.take_zero
    have hleft : w.left ≠ [] := by
      intro hnil
      rw [hnil] at htake
      exact htake List.take_nil
    obtain ⟨hline, hturn⟩ := hinv.turn hw hleft (hended hn)
    have hnot := hinv.not_owner (p := p) fun r heq => by
      rw [hw] at heq
      exact hleft (congrArg Writing.left (Option.some.inj heq))
    have hother : ∀ p' w', p' ≠ p → s.writers p' = some w' → ¬ Midway (ended text sep) w' :=
      fun p' w' hp hw' hmid => hp (hturn p' w' hw' hmid)
    have howned := owners_stay hnot (v := (none : Option (Writing α R))) (by simp)
    rcases hinv.split.take hsep hline hleft n with ⟨-, hsplit⟩ | ⟨-, hsplit⟩
    · refine ⟨_, _, owned, hinv.update hsplit ?_ ?_ hinv.nodup howned ?_⟩
      · exact fun p' w' hp hw' hmid => absurd hmid (hother p' w' hp hw')
      · rintro w' ⟨⟩
      · exact hinv.kept.trans (List.sublist_append_left _ _).subperm
    · refine ⟨_, _, owned, hinv.update hsplit ?_ ?_ hinv.nodup howned hinv.kept⟩
      · exact fun p' w' hp hw' hmid => absurd hmid (hother p' w' hp hw')
      · rintro w' ⟨⟩

theorem Inv.done (hinv : Inv sep text s before tail owned) (hw : s.writers p = some w)
    (hleft : w.left = []) :
    ∃ owned', Inv sep text { s with
      writers := Function.update s.writers p none
      returned := w.record :: s.returned } before tail owned' := by
  have hmem : (p, w.record) ∈ owned := by
    rw [hinv.owners, hw, ← hleft]
  obtain ⟨a, b, rfl⟩ := List.append_of_mem hmem
  have hperm : (a ++ (p, w.record) :: b).Perm ((p, w.record) :: (a ++ b)) := List.perm_middle
  obtain ⟨hnot, hnodup⟩ := List.nodup_cons.1 (hperm.nodup_iff.1 hinv.nodup)
  refine ⟨a ++ b, hinv.update hinv.split (fun p' w' _ => hinv.midway p' w') ?_ hnodup ?_ ?_⟩
  · rintro w' ⟨⟩
  · intro p' r
    rw [hperm.mem_iff, List.mem_cons]
    constructor
    · intro hrest
      refine .inl ⟨?_, .inr hrest⟩
      rintro rfl
      have hsame := (hinv.owners p' r).1 (hperm.mem_iff.2 (List.mem_cons_of_mem _ hrest))
      rw [hw] at hsame
      rw [congrArg Writing.record (Option.some.inj hsame)] at hnot
      exact hnot hrest
    · rintro (⟨hne, heq | hrest⟩ | ⟨-, heq⟩)
      · exact absurd (congrArg Prod.fst heq) hne
      · exact hrest
      · cases heq
  · refine (List.Perm.subperm_right ?_).1 hinv.kept
    have h := (hperm.map Prod.snd).append_left s.returned
    exact (h.map text).trans (perm_owned s.returned (a ++ b) p w.record)

theorem Inv.step {buffer : Nat} {s' : State α R P} {e : Event R P}
    (hinv : Inv sep text s before tail owned) (hsep : ∀ r, sep ∉ text r)
    (horderly : Begins (ended text sep) s e → Ended sep s.file)
    (h : step (ended text sep) buffer s e = some s') :
    ∃ before' tail' owned', Inv sep text s' before' tail' owned' := by
  rcases step_cases h with ⟨p, r, -, hw, rfl⟩ | ⟨p, n, w, rfl, hw, hn, hleft, rfl⟩ |
    ⟨p, n, w, rfl, hw, rfl⟩ | ⟨p, w, -, hw, hleft, rfl⟩
  · exact ⟨_, _, _, hinv.write hw r⟩
  · exact hinv.append hw (hsep _) hleft hn fun hnew => horderly ⟨hn, w, hw, hnew⟩
  · exact hinv.crash hw (hsep _) n fun hn hnew => horderly ⟨hn, w, hw, hnew⟩
  · exact ⟨_, _, hinv.done hw hleft⟩

theorem Inv.run {buffer : Nat} {s' : State α R P} {events : List (Event R P)}
    (hinv : Inv sep text s before tail owned) (hsep : ∀ r, sep ∉ text r)
    (horderly : Orderly (ended text sep) buffer sep s events)
    (h : run (ended text sep) buffer s events = some s') :
    ∃ before' tail' owned', Inv sep text s' before' tail' owned' := by
  induction events generalizing s before tail owned with
  | nil =>
    cases h
    exact ⟨before, tail, owned, hinv⟩
  | cons e events ih =>
    obtain ⟨s₁, hstep, hrun⟩ := Option.bind_eq_some_iff.1 h
    obtain ⟨_, _, _, hinv₁⟩ := hinv.step hsep horderly.1 hstep
    exact ih hinv₁ (horderly.2 s₁ hstep) hrun

/-- In an orderly run, each record whose writing has ended has a line of its own. -/
theorem kept_of_run {buffer : Nat} {file : List α} {events : List (Event R P)}
    (hsep : ∀ r, sep ∉ text r)
    (horderly : Orderly (ended text sep) buffer sep (start R P file) events)
    (h : run (ended text sep) buffer (start R P file) events = some s) :
    (s.returned.map text).Subperm (s.file.splitOn sep) := by
  obtain ⟨_, _, hstart⟩ := inv_start (P := P) sep text file
  obtain ⟨before, tail, owned, hinv⟩ := hstart.run hsep horderly h
  have hlines := hinv.split.lines [] List.not_mem_nil
  rw [List.append_nil] at hlines
  rw [hlines]
  have hreturned : (s.returned.map text).Sublist ((s.returned ++ owned.map Prod.snd).map text) :=
    (List.sublist_append_left _ _).map text
  exact hreturned.subperm.trans (hinv.kept.trans (List.sublist_append_left _ _).subperm)

end

end

/-! ## Which records return -/

section

variable {α R P : Type} [DecidableEq P] {line : R → List α} {buffer : Nat} {s s' : State α R P}
  {Q : R → Prop}

/-- All that is written or was has the property. -/
def Only (Q : R → Prop) (s : State α R P) : Prop :=
  (∀ p w, s.writers p = some w → Q w.record) ∧ ∀ r ∈ s.returned, Q r

theorem Only.update (h : Only Q s) {p : P} {v : Option (Writing α R)} (hv : ∀ w, v = some w → Q w.record)
    (file' : List α) : Only Q { s with file := file', writers := Function.update s.writers p v } := by
  refine ⟨fun p' w hw => ?_, h.2⟩
  by_cases hp : p' = p
  · subst hp
    exact hv w ((Function.update_self p' v s.writers).symm.trans hw)
  · exact h.1 p' w ((Function.update_of_ne hp v s.writers).symm.trans hw)

theorem Only.step {e : Event R P} (h : Only Q s) (he : ∀ p r, e = .write p r → Q r)
    (hstep : step line buffer s e = some s') : Only Q s' := by
  rcases step_cases hstep with ⟨p, r, rfl, -, rfl⟩ | ⟨p, n, w, -, hw, -, -, rfl⟩ |
    ⟨p, n, w, -, hw, rfl⟩ | ⟨p, w, -, hw, -, rfl⟩
  · refine h.update ?_ s.file
    rintro w ⟨⟩
    exact he p r rfl
  · refine h.update ?_ _
    rintro w' ⟨⟩
    exact h.1 p w hw
  · refine h.update ?_ _
    rintro w' ⟨⟩
  · refine ⟨(h.update (p := p) (v := none) ?_ s.file).1, List.forall_mem_cons.2 ⟨h.1 p w hw, h.2⟩⟩
    rintro w' ⟨⟩

theorem Only.run {events : List (Event R P)} (h : Only Q s)
    (hwrite : ∀ p r, .write p r ∈ events → Q r) (hrun : run line buffer s events = some s') :
    Only Q s' := by
  induction events generalizing s with
  | nil =>
    cases hrun
    exact h
  | cons e events ih =>
    obtain ⟨s₁, hstep, hrun⟩ := Option.bind_eq_some_iff.1 hrun
    have h₁ := h.step (fun p r he => hwrite p r (he ▸ List.mem_cons_self)) hstep
    exact ih h₁ (fun p r hmem => hwrite p r (List.mem_cons_of_mem _ hmem)) hrun

/-- What returns was written. -/
theorem returned_of_run {file : List α} {events : List (Event R P)}
    (hwrite : ∀ p r, .write p r ∈ events → Q r)
    (hrun : run line buffer (start R P file) events = some s) : ∀ r ∈ s.returned, Q r := by
  have hstart : Only Q (start R P file) := by
    refine ⟨fun p w h => ?_, fun r h => ?_⟩
    · cases h
    · cases h
  exact (hstart.run hwrite hrun).2

end

end Logic.LineLog
