import ProjectMaya.Logic.Hosts

/-! # Hosts that tolerate a run

`Cooperate` asks that every program tolerates whatever another may do.  Where that is not so,
`Duties` has the contracts only, and a turn is judged by what it does: it is `Tolerated`
when it leaves what the other running hosts rely on.  Along a run of such turns every
program meets its contract (`Duties.run_keeps`). -/

namespace Logic

variable {F S L E A R : Type}

/-- Every turn of a run satisfies a condition on the state before it. -/
def System.Along (sys : System F S L E A R) (P : Config F S L E A R → Turn F A → Prop) :
    Config F S L E A R → List (Turn F A) → Prop
  | _, [] => True
  | c, t :: turns => P c t ∧ sys.Along P (sys.turn c t) turns

theorem System.Along.mono {sys : System F S L E A R} {P Q : Config F S L E A R → Turn F A → Prop}
    (hPQ : ∀ c t, P c t → Q c t) {c : Config F S L E A R} {turns : List (Turn F A)}
    (h : sys.Along P c turns) : sys.Along Q c turns := by
  induction turns generalizing c with
  | nil => exact trivial
  | cons t turns ih => exact ⟨hPQ c t h.1, ih h.2⟩

theorem System.Along.and {sys : System F S L E A R} {P Q : Config F S L E A R → Turn F A → Prop}
    {c : Config F S L E A R} {turns : List (Turn F A)} (hP : sys.Along P c turns)
    (hQ : sys.Along Q c turns) : sys.Along (fun c t => P c t ∧ Q c t) c turns := by
  induction turns generalizing c with
  | nil => exact trivial
  | cons t turns ih => exact ⟨⟨hP.1, hQ.1⟩, ih hP.2 hQ.2⟩

/-- A condition that holds after every part of a run holds along it. -/
theorem System.along_of_split {sys : System F S L E A R} {P : Config F S L E A R → Turn F A → Prop}
    {c : Config F S L E A R} {turns : List (Turn F A)}
    (h : ∀ us t vs, turns = us ++ t :: vs → P (sys.run c us) t) : sys.Along P c turns := by
  induction turns generalizing c with
  | nil => exact trivial
  | cons t turns ih =>
    refine ⟨h [] t turns rfl, ih fun us u vs heq => ?_⟩
    exact h (t :: us) u vs (congrArg (t :: ·) heq)

/-- The last turn of a run, and the run before it. -/
theorem System.Along.snoc {sys : System F S L E A R} {P : Config F S L E A R → Turn F A → Prop}
    {c : Config F S L E A R} {turns : List (Turn F A)} {t : Turn F A}
    (h : sys.Along P c (turns ++ [t])) : sys.Along P c turns ∧ P (sys.run c turns) t := by
  induction turns generalizing c with
  | nil => exact ⟨trivial, h.1⟩
  | cons u turns ih =>
    obtain ⟨hrun, hlast⟩ := ih h.2
    exact ⟨⟨h.1, hrun⟩, hlast⟩

/-- A condition that can be tested can be tested along a run. -/
def System.decidableAlong (sys : System F S L E A R) (P : Config F S L E A R → Turn F A → Prop)
    [hP : ∀ c t, Decidable (P c t)] :
    ∀ (turns : List (Turn F A)) (c : Config F S L E A R), Decidable (sys.Along P c turns)
  | [], _ => .isTrue trivial
  | t :: turns, c =>
    have := sys.decidableAlong P turns (sys.turn c t)
    inferInstanceAs (Decidable (P c t ∧ sys.Along P (sys.turn c t) turns))

instance (sys : System F S L E A R) (P : Config F S L E A R → Turn F A → Prop)
    [∀ c t, Decidable (P c t)] (c : Config F S L E A R) (turns : List (Turn F A)) :
    Decidable (sys.Along P c turns) := sys.decidableAlong P turns c

/-- A program that runs after a turn ran before it or was started by it. -/
theorem System.running_turn (sys : System F S L E A R) {c : Config F S L E A R} {t : Turn F A}
    {q : Nat} {a : A} {k : Prog F S L E R} (h : ((sys.turn c t).host q).running = some (a, k)) :
    (∃ k', (c.host q).running = some (a, k')) ∨ t = .start q a := by
  by_cases hq : q = t.host
  · subst hq
    cases t with
    | start p b =>
      cases hrun : (c.host p).running with
      | some x =>
        simp only [System.turn, Turn.host, hrun] at h
        exact .inl ⟨k, hrun.trans h⟩
      | none =>
        simp only [System.turn, Turn.host, hrun, Config.host_set_self] at h
        cases h
        exact .inr rfl
    | act p f =>
      cases hrun : (c.host p).running with
      | none =>
        simp only [System.turn, Turn.host, hrun] at h
        cases h
      | some x =>
        obtain ⟨b, prog⟩ := x
        cases prog with
        | done r =>
          simp only [System.turn, Turn.host, hrun, Config.host_set_self] at h
          cases h
        | step act k' =>
          simp only [System.turn, Turn.host, hrun, Config.host_set_self] at h
          cases h
          exact .inl ⟨_, hrun⟩
    | crash p =>
      simp only [System.turn, Turn.host, Config.host_set_self] at h
      cases h
  · rw [sys.host_turn_ne c hq] at h
    exact .inl ⟨k, h⟩

structure Duties (sys : System F S L E A R) where
  own : Nat → L → Prop
  contract : A → Contract S L
  post : A → Except E R → S → L → Prop
  own_enter : ∀ p l, own p l → own p (sys.enter l)
  enter : ∀ p a s l, own p l → wp (contract a) (sys.prog a) (post a) s (sys.enter l)
  rely_refl : ∀ a l s, (contract a).rely l s s
  rely_trans : ∀ a l s s' s'', (contract a).rely l s s' → (contract a).rely l s' s'' →
    (contract a).rely l s s''
  post_stable : ∀ a r s s' l, post a r s l → (contract a).rely l s s' → post a r s' l
  own_guar : ∀ p a s l s' l', own p l → (contract a).guar s l s' l' → own p l'
  own_die : ∀ p s l, own p l → own p (sys.die s l).2

namespace Duties

variable {sys : System F S L E A R} (D : Duties sys)

/-- Every host owns its local state, and one that runs a program meets its contract. -/
structure Kept (c : Config F S L E A R) : Prop where
  own : ∀ p, D.own p (c.host p).loc
  busy : ∀ p a prog, (c.host p).running = some (a, prog) →
    wp (D.contract a) prog (D.post a) c.shared (c.host p).loc

/-- The turn leaves what the other running hosts rely on. -/
def Tolerated (c : Config F S L E A R) (t : Turn F A) : Prop :=
  ∀ q a prog, q ≠ t.host → (c.host q).running = some (a, prog) →
    (D.contract a).rely (c.host q).loc c.shared (sys.turn c t).shared

/-- What a turn does to the shared state. -/
inductive Change (c : Config F S L E A R) (t : Turn F A) : Prop
  | none : (sys.turn c t).shared = c.shared → Change c t
  | acted {a : A} {k : Prog F S L E R} : (c.host t.host).running = some (a, k) →
      (D.contract a).guar c.shared (c.host t.host).loc (sys.turn c t).shared
        ((sys.turn c t).host t.host).loc → Change c t
  | crashed : (sys.turn c t).shared = (sys.die c.shared (c.host t.host).loc).1 → Change c t

theorem kept_initial {s : S} {loc : Nat → L} (h : ∀ p, D.own p (loc p)) :
    D.Kept (Config.initial s loc) := ⟨h, nofun⟩

theorem change {c : Config F S L E A R} (h : D.Kept c) (t : Turn F A) : D.Change c t := by
  cases t with
  | start p a =>
    refine .none ?_
    cases hrun : (c.host p).running <;> simp only [System.turn, hrun, Config.shared_set]
  | act p f =>
    cases hrun : (c.host p).running with
    | none =>
      exact .none (by simp only [System.turn, hrun])
    | some x =>
      obtain ⟨a, prog⟩ := x
      cases prog with
      | done r => exact .none (by simp only [System.turn, hrun, Config.shared_set])
      | step act k =>
        refine .acted hrun ?_
        simp only [System.turn, Turn.host, hrun, Config.shared_set, Config.host_set_self]
        exact (h.busy p a _ hrun c.shared (D.rely_refl a _ _) f).1
  | crash p => exact .crashed rfl

/-- The host whose turn it was keeps what it has to keep. -/
theorem own_busy_host {c : Config F S L E A R} (h : D.Kept c) (t : Turn F A) :
    D.own t.host ((sys.turn c t).host t.host).loc ∧
      ∀ a prog, ((sys.turn c t).host t.host).running = some (a, prog) →
        wp (D.contract a) prog (D.post a) (sys.turn c t).shared ((sys.turn c t).host t.host).loc := by
  cases t with
  | start p a =>
    cases hrun : (c.host p).running with
    | some x =>
      simp only [System.turn, Turn.host, hrun]
      exact ⟨h.own p, fun b prog hb => h.busy p b prog (hrun.trans hb)⟩
    | none =>
      simp only [System.turn, Turn.host, hrun, Config.shared_set, Config.host_set_self]
      refine ⟨D.own_enter p _ (h.own p), fun b prog hb => ?_⟩
      cases hb
      exact D.enter p a _ _ (h.own p)
  | act p f =>
    cases hrun : (c.host p).running with
    | none =>
      simp only [System.turn, Turn.host, hrun]
      exact ⟨h.own p, fun b prog hb => by cases hb⟩
    | some x =>
      obtain ⟨a, prog⟩ := x
      cases prog with
      | done r =>
        simp only [System.turn, Turn.host, hrun, Config.host_set_self]
        exact ⟨h.own p, fun b prog hb => by cases hb⟩
      | step act k =>
        obtain ⟨hg, hk⟩ := h.busy p a _ hrun c.shared (D.rely_refl a _ _) f
        simp only [System.turn, Turn.host, hrun, Config.shared_set, Config.host_set_self]
        refine ⟨D.own_guar p a _ _ _ _ (h.own p) hg, fun b prog hb => ?_⟩
        cases hb
        exact hk
  | crash p =>
    simp only [System.turn, Turn.host, Config.host_set_self]
    exact ⟨D.own_die p _ _ (h.own p), fun b prog hb => by cases hb⟩

theorem kept_turn {c : Config F S L E A R} (h : D.Kept c) {t : Turn F A}
    (ht : D.Tolerated c t) : D.Kept (sys.turn c t) := by
  obtain ⟨hown, hbusy⟩ := D.own_busy_host h t
  constructor
  · intro q
    by_cases hq : q = t.host
    · rw [hq]
      exact hown
    · rw [sys.host_turn_ne c hq]
      exact h.own q
  · intro q a prog hrun
    by_cases hq : q = t.host
    · rw [hq] at hrun ⊢
      exact hbusy a prog hrun
    · rw [sys.host_turn_ne c hq] at hrun ⊢
      exact wp_stable (D.rely_trans a) (D.post_stable a) (h.busy q a prog hrun)
        (ht q a prog hq hrun)

/-- **A run of turns under a condition.**  If the condition makes a turn tolerated and keeps
an invariant, the invariant holds after the run. -/
theorem run_keeps {P : Config F S L E A R → Turn F A → Prop} {I : Config F S L E A R → Prop}
    (hstep : ∀ c t, D.Kept c → I c → P c t → D.Tolerated c t ∧ I (sys.turn c t))
    {c : Config F S L E A R} {turns : List (Turn F A)} (hk : D.Kept c) (hc : I c)
    (hrun : sys.Along P c turns) : D.Kept (sys.run c turns) ∧ I (sys.run c turns) := by
  induction turns generalizing c with
  | nil => exact ⟨hk, hc⟩
  | cons t turns ih =>
    obtain ⟨ht, hi⟩ := hstep c t hk hc hrun.1
    exact ih (D.kept_turn hk ht) hi hrun.2

/-- The same, for runs that start only certain programs. -/
theorem run_keeps_starts {P : Config F S L E A R → Turn F A → Prop} {Q : A → Prop}
    {I : Config F S L E A R → Prop}
    (hstep : ∀ c t, D.Kept c → I c → (∀ p a k, (c.host p).running = some (a, k) → Q a) → P c t →
      D.Tolerated c t ∧ I (sys.turn c t))
    {c : Config F S L E A R} {turns : List (Turn F A)} (hk : D.Kept c) (hc : I c)
    (hq : ∀ p a k, (c.host p).running = some (a, k) → Q a) (hs : ∀ a ∈ starts turns, Q a)
    (hrun : sys.Along P c turns) : I (sys.run c turns) := by
  induction turns generalizing c with
  | nil => exact hc
  | cons t turns ih =>
    obtain ⟨ht, hi⟩ := hstep c t hk hc hq hrun.1
    refine ih (D.kept_turn hk ht) hi ?_ ?_ hrun.2
    · intro p a k h
      rcases sys.running_turn h with ⟨k', h⟩ | rfl
      · exact hq p a k' h
      · exact hs a List.mem_cons_self
    · exact fun a ha => hs a (mem_starts_cons ha)

end Duties

end Logic
