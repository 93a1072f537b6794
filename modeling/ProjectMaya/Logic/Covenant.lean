import ProjectMaya.Logic.Tolerance

/-! # Hosts that keep an invariant together

Here the contracts of `Hosts` may use an invariant of the shared state: a program is started
where the invariant holds, tolerates what the others do from such states, and each of its
actions restores it.  `law` is what holds of a host's local state while it runs a program.

Along every run the invariant holds, every running program keeps its law, and one that ends
satisfies its postcondition (`Covenant.good_run`). -/

namespace Logic

variable {F S L E A R : Type}

structure Covenant (sys : System F S L E A R) where
  inv : S → Prop
  own : Nat → L → Prop
  law : A → L → Prop
  contract : A → Contract S L
  post : A → Except E R → S → L → Prop
  own_enter : ∀ p l, own p l → own p (sys.enter l)
  law_enter : ∀ a l, law a (sys.enter l)
  enter : ∀ p a s l, inv s → own p l → wp (contract a) (sys.prog a) (post a) s (sys.enter l)
  rely_refl : ∀ a l s, inv s → (contract a).rely l s s
  rely_trans : ∀ a l s s' s'', (contract a).rely l s s' → (contract a).rely l s' s'' →
    (contract a).rely l s s''
  post_stable : ∀ a r s s' l, post a r s l → (contract a).rely l s s' → post a r s' l
  keep : ∀ p a s l s' l', inv s → own p l → law a l → (contract a).guar s l s' l' →
    inv s' ∧ own p l' ∧ law a l'
  keep_die : ∀ p s l, inv s → own p l → inv (sys.die s l).1 ∧ own p (sys.die s l).2
  rely_guar : ∀ p q a b l s m s' m', p ≠ q → inv s → own p l → own q m →
    (contract b).guar s m s' m' → (contract a).rely l s s'
  rely_die : ∀ p q a l s m, p ≠ q → inv s → own p l → own q m →
    (contract a).rely l s (sys.die s m).1

namespace Covenant

variable {sys : System F S L E A R} (C : Covenant sys)

structure Good (c : Config F S L E A R) : Prop where
  inv : C.inv c.shared
  own : ∀ p, C.own p (c.host p).loc
  busy : ∀ p a prog, (c.host p).running = some (a, prog) →
    C.law a (c.host p).loc ∧ wp (C.contract a) prog (C.post a) c.shared (c.host p).loc

theorem good_initial {s : S} {loc : Nat → L} (hs : C.inv s) (hown : ∀ p, C.own p (loc p)) :
    C.Good (Config.initial s loc) := ⟨hs, hown, nofun⟩

/-- The host whose turn it is leaves a state in the invariant, on which the others rely. -/
structure Fair (c : Config F S L E A R) (p : Nat) (s : S) (h : Host F S L E A R) : Prop where
  inv : C.inv s
  own : C.own p h.loc
  busy : ∀ a prog, h.running = some (a, prog) →
    C.law a h.loc ∧ wp (C.contract a) prog (C.post a) s h.loc
  rely : ∀ q b, q ≠ p → (C.contract b).rely (c.host q).loc c.shared s

theorem Good.set {c : Config F S L E A R} (hc : C.Good c) {p : Nat} {s : S}
    {h : Host F S L E A R} (hf : C.Fair c p s h) : C.Good (c.set p s h) := by
  refine ⟨hf.inv, ?_, ?_⟩
  · intro q
    by_cases hq : q = p
    · subst hq
      rw [Config.host_set_self]
      exact hf.own
    · rw [Config.host_set_ne c _ _ hq]
      exact hc.own q
  · intro q a prog hrun
    by_cases hq : q = p
    · subst hq
      rw [Config.host_set_self] at hrun ⊢
      exact hf.busy a prog hrun
    · rw [Config.host_set_ne c _ _ hq] at hrun ⊢
      obtain ⟨hlaw, hwp⟩ := hc.busy q a prog hrun
      exact ⟨hlaw, wp_stable (C.rely_trans a) (C.post_stable a) hwp (hf.rely q a hq)⟩

/-- **One turn** keeps everything. -/
theorem good_turn {c : Config F S L E A R} (h : C.Good c) (t : Turn F A) :
    C.Good (sys.turn c t) := by
  have hsame : ∀ p q b, q ≠ p → (C.contract b).rely (c.host q).loc c.shared c.shared :=
    fun _ _ b _ => C.rely_refl b _ _ h.inv
  cases t with
  | start p a =>
    cases hrun : (c.host p).running with
    | some x => simp only [System.turn, hrun]; exact h
    | none =>
      simp only [System.turn, hrun]
      refine Good.set C h ⟨h.inv, C.own_enter p _ (h.own p), ?_, hsame p⟩
      rintro _ _ ⟨⟩
      exact ⟨C.law_enter a _, C.enter p a _ _ h.inv (h.own p)⟩
  | act p f =>
    cases hrun : (c.host p).running with
    | none => simp only [System.turn, hrun]; exact h
    | some x =>
      obtain ⟨a, prog⟩ := x
      obtain ⟨hlaw, hwp⟩ := h.busy p a prog hrun
      cases prog with
      | done r =>
        simp only [System.turn, hrun]
        exact Good.set C h ⟨h.inv, h.own p, fun _ _ hrun => (by cases hrun), hsame p⟩
      | step act k =>
        obtain ⟨hg, hk⟩ := hwp c.shared (C.rely_refl a _ _ h.inv) f
        obtain ⟨hinv, hown, hlaw⟩ := C.keep p a _ _ _ _ h.inv (h.own p) hlaw hg
        simp only [System.turn, hrun]
        refine Good.set C h ⟨hinv, hown, ?_, ?_⟩
        · rintro _ _ ⟨⟩
          exact ⟨hlaw, hk⟩
        · intro q b hq
          exact C.rely_guar q p b a _ _ _ _ _ hq h.inv (h.own q) (h.own p) hg
  | crash p =>
    obtain ⟨hinv, hown⟩ := C.keep_die p _ _ h.inv (h.own p)
    refine Good.set C h ⟨hinv, hown, fun _ _ hrun => (by cases hrun), ?_⟩
    intro q b hq
    exact C.rely_die q p b _ _ _ hq h.inv (h.own q) (h.own p)

/-- **Any run** keeps everything. -/
theorem good_run {c : Config F S L E A R} (h : C.Good c) (turns : List (Turn F A)) :
    C.Good (sys.run c turns) := by
  induction turns generalizing c with
  | nil => exact h
  | cons t turns ih => exact ih (C.good_turn h t)

/-- What holds of a host at rest, and of its local state while it is busy. -/
structure Resting where
  rest : S → L → Prop
  busy : L → Prop
  start : ∀ s l, rest s l → busy (sys.enter l)
  act : ∀ a s l s' l', (C.contract a).guar s l s' l' → busy l → busy l'
  finish : ∀ a r s l, C.post a r s l → busy l → rest s l
  die : ∀ s l, rest (sys.die s l).1 (sys.die s l).2
  stable : ∀ a s s' l, rest s l → (C.contract a).rely l s s' → rest s' l
  alone : ∀ p q s l m, p ≠ q → C.own p l → C.own q m → rest s l → rest (sys.die s m).1 l

namespace Resting

variable {C} (H : Resting C)

def Holds (c : Config F S L E A R) : Prop :=
  ∀ p, match (c.host p).running with
    | none => H.rest c.shared (c.host p).loc
    | some _ => H.busy (c.host p).loc

theorem holds_set {c : Config F S L E A R} {p : Nat} {s : S} {h : Host F S L E A R}
    (hself : match h.running with | none => H.rest s h.loc | some _ => H.busy h.loc)
    (hothers : ∀ q, q ≠ p → H.rest c.shared (c.host q).loc → H.rest s (c.host q).loc)
    (hc : H.Holds c) : H.Holds (c.set p s h) := by
  intro q
  by_cases hq : q = p
  · subst hq
    rw [Config.host_set_self, Config.shared_set]
    exact hself
  · have hold := hc q
    rw [Config.host_set_ne c _ _ hq, Config.shared_set]
    cases hrun : (c.host q).running with
    | none =>
      rw [hrun] at hold
      exact hothers q hq hold
    | some x =>
      rw [hrun] at hold
      exact hold

/-- **One turn** keeps it. -/
theorem holds_turn {c : Config F S L E A R} (hg : C.Good c) (hc : H.Holds c) (t : Turn F A) :
    H.Holds (sys.turn c t) := by
  have hself := hc t.host
  cases t with
  | start p a =>
    cases hrun : (c.host p).running with
    | some x =>
      simp only [System.turn, hrun]
      exact hc
    | none =>
      simp only [System.turn, hrun, Turn.host] at hself ⊢
      exact H.holds_set (H.start _ _ hself) (fun _ _ h => h) hc
  | act p f =>
    cases hrun : (c.host p).running with
    | none =>
      simp only [System.turn, hrun]
      exact hc
    | some x =>
      obtain ⟨a, prog⟩ := x
      obtain ⟨-, hwp⟩ := hg.busy p a prog hrun
      simp only [hrun, Turn.host] at hself
      cases prog with
      | done r =>
        simp only [System.turn, hrun]
        exact H.holds_set (H.finish a r _ _ hwp hself) (fun _ _ h => h) hc
      | step act k =>
        obtain ⟨hguar, -⟩ := hwp c.shared (C.rely_refl a _ _ hg.inv) f
        simp only [System.turn, hrun]
        refine H.holds_set (H.act a _ _ _ _ hguar hself) ?_ hc
        intro q hq h
        exact H.stable a _ _ _ h (C.rely_guar q p a a _ _ _ _ _ hq hg.inv (hg.own q) (hg.own p) hguar)
  | crash p =>
    refine H.holds_set (H.die _ _) ?_ hc
    intro q hq h
    exact H.alone q p _ _ _ hq (hg.own q) (hg.own p) h

/-- **Any run** keeps it. -/
theorem holds_run {c : Config F S L E A R} (hg : C.Good c) (hc : H.Holds c) (turns : List (Turn F A)) :
    H.Holds (sys.run c turns) := by
  induction turns generalizing c with
  | nil => exact hc
  | cons t turns ih => exact ih (C.good_turn hg t) (H.holds_turn hg hc t)

end Resting

/-- What a turn does to the shared state. -/
inductive Change (c : Config F S L E A R) (t : Turn F A) : Prop
  | none : (sys.turn c t).shared = c.shared → Change c t
  | acted {a : A} {k : Prog F S L E R} {f : F} : t = .act t.host f →
      (c.host t.host).running = some (a, k) →
      (C.contract a).guar c.shared (c.host t.host).loc (sys.turn c t).shared
        ((sys.turn c t).host t.host).loc → Change c t
  | crashed : (sys.turn c t).shared = (sys.die c.shared (c.host t.host).loc).1 → Change c t

theorem change {c : Config F S L E A R} (h : C.Good c) (t : Turn F A) : C.Change c t := by
  cases t with
  | start p a =>
    refine .none ?_
    cases hrun : (c.host p).running <;> simp only [System.turn, hrun, Config.shared_set]
  | act p f =>
    cases hrun : (c.host p).running with
    | none => exact .none (by simp only [System.turn, hrun])
    | some x =>
      obtain ⟨a, prog⟩ := x
      cases prog with
      | done r => exact .none (by simp only [System.turn, hrun, Config.shared_set])
      | step act k =>
        refine .acted (f := f) rfl hrun ?_
        simp only [System.turn, Turn.host, hrun, Config.shared_set, Config.host_set_self]
        exact ((h.busy p a _ hrun).2 c.shared (C.rely_refl a _ _ h.inv) f).1
  | crash p => exact .crashed rfl

/-- What each turn keeps under a condition, a run keeps along which the condition holds. -/
theorem run_along {J : S → Prop} {P : Config F S L E A R → Turn F A → Prop}
    (hstep : ∀ c t, C.Good c → P c t → J c.shared → J (sys.turn c t).shared)
    {c : Config F S L E A R} {turns : List (Turn F A)} (h : C.Good c) (hj : J c.shared)
    (hrun : sys.Along P c turns) : J (sys.run c turns).shared := by
  induction turns generalizing c with
  | nil => exact hj
  | cons t turns ih => exact ih (C.good_turn h t) (hstep c t h hrun.1 hj) hrun.2

/-- What the programs of a kind keep of the shared state, a run that starts only these keeps. -/
theorem run_shared {J : S → Prop} {Q : A → Prop}
    (hguar : ∀ p a s l s' l', Q a → C.own p l → (C.contract a).guar s l s' l' → J s → J s')
    (hdie : ∀ s l, J s → J (sys.die s l).1) {c : Config F S L E A R} {turns : List (Turn F A)}
    (h : C.Good c) (hj : J c.shared) (hq : ∀ p a k, (c.host p).running = some (a, k) → Q a)
    (hs : ∀ a ∈ starts turns, Q a) : J (sys.run c turns).shared := by
  induction turns generalizing c with
  | nil => exact hj
  | cons t turns ih =>
    refine ih (C.good_turn h t) ?_ ?_ fun a ha => hs a (mem_starts_cons ha)
    · cases C.change h t with
      | none e =>
        rw [e]
        exact hj
      | acted _ hrun hg => exact hguar _ _ _ _ _ _ (hq _ _ _ hrun) (h.own _) hg hj
      | crashed e =>
        rw [e]
        exact hdie _ _ hj
    · intro p a k hrun
      rcases sys.running_turn hrun with ⟨k', hrun⟩ | rfl
      · exact hq p a k' hrun
      · exact hs a List.mem_cons_self

end Covenant

end Logic
