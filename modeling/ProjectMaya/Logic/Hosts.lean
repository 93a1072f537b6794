import ProjectMaya.Logic.Wp

/-! # Hosts that share a state

Any number of hosts, each with its own local state, run programs one after another on
one shared state.  A turn lets one host start a program, perform its next action, or crash;
a run is any list of turns, so every interleaving of the hosts' actions is a run.

If every program satisfies its contract, and the contract of each tolerates what the
others do (`Cooperate`), then along every run each action keeps its guarantee and each
program that ends satisfies its postcondition (`Cooperate.good_turn`), and what all these
keep holds after the run (`Cooperate.run_keeps`). -/

namespace Logic

/-- What hosts can run, the local state at the entry of a program, and what a crash leaves
of the two states. -/
structure System (F S L E A R : Type) where
  prog : A → Prog F S L E R
  enter : L → L
  die : S → L → S × L

structure Host (F S L E A R : Type) : Type 1 where
  loc : L
  running : Option (A × Prog F S L E R)

structure Config (F S L E A R : Type) : Type 1 where
  shared : S
  host : Nat → Host F S L E A R

inductive Turn (F A : Type) where
  | start (p : Nat) (a : A)
  | act (p : Nat) (f : F)
  | crash (p : Nat)
  deriving Repr

section

variable {F S L E A R : Type}

namespace Config

def set (c : Config F S L E A R) (p : Nat) (s : S) (h : Host F S L E A R) : Config F S L E A R where
  shared := s
  host q := if q = p then h else c.host q

@[simp] theorem shared_set (c : Config F S L E A R) (p : Nat) (s : S) (h : Host F S L E A R) :
    (c.set p s h).shared = s := rfl

@[simp] theorem host_set_self (c : Config F S L E A R) (p : Nat) (s : S)
    (h : Host F S L E A R) : (c.set p s h).host p = h := if_pos rfl

theorem host_set_ne (c : Config F S L E A R) {p q : Nat} (s : S) (h : Host F S L E A R)
    (hq : q ≠ p) : (c.set p s h).host q = c.host q := if_neg hq

/-- All hosts are idle. -/
def initial (s : S) (loc : Nat → L) : Config F S L E A R where
  shared := s
  host p := ⟨loc p, none⟩

end Config

/-- The host whose turn it is. -/
@[simp] def Turn.host : Turn F A → Nat
  | .start p _ => p
  | .act p _ => p
  | .crash p => p

namespace System

variable (sys : System F S L E A R)

/-- One turn.  A host that is busy starts nothing; a program that is done leaves at its
host's next action. -/
def turn (c : Config F S L E A R) : Turn F A → Config F S L E A R
  | .start p a =>
    match (c.host p).running with
    | none => c.set p c.shared ⟨sys.enter (c.host p).loc, some (a, sys.prog a)⟩
    | some _ => c
  | .act p f =>
    match (c.host p).running with
    | none => c
    | some (_, .done _) => c.set p c.shared ⟨(c.host p).loc, none⟩
    | some (a, .step act k) =>
      let (r, s, l) := act.next f c.shared (c.host p).loc
      c.set p s ⟨l, some (a, k r)⟩
  | .crash p =>
    let (s, l) := sys.die c.shared (c.host p).loc
    c.set p s ⟨l, none⟩

def run (c : Config F S L E A R) (turns : List (Turn F A)) : Config F S L E A R :=
  turns.foldl sys.turn c

theorem run_append (c : Config F S L E A R) (ts us : List (Turn F A)) :
    sys.run c (ts ++ us) = sys.run (sys.run c ts) us := List.foldl_append

@[simp] theorem run_cons (c : Config F S L E A R) (t : Turn F A) (ts : List (Turn F A)) :
    sys.run c (t :: ts) = sys.run (sys.turn c t) ts := rfl

/-- A turn leaves the other hosts alone. -/
theorem host_turn_ne (c : Config F S L E A R) {t : Turn F A} {p : Nat} (hp : p ≠ t.host) :
    (sys.turn c t).host p = c.host p := by
  cases t with
  | start q a =>
    cases hrun : (c.host q).running with
    | none => simp only [turn, hrun]; exact Config.host_set_ne c _ _ hp
    | some x => simp only [turn, hrun]
  | act q f =>
    cases hrun : (c.host q).running with
    | none => simp only [turn, hrun]
    | some x =>
      obtain ⟨a, prog⟩ := x
      cases prog with
      | done r => simp only [turn, hrun]; exact Config.host_set_ne c _ _ hp
      | step act k => simp only [turn, hrun]; exact Config.host_set_ne c _ _ hp
  | crash q => exact Config.host_set_ne c _ _ hp

/-- A run leaves alone a host that has no turn. -/
theorem host_run_ne (c : Config F S L E A R) {turns : List (Turn F A)} {p : Nat}
    (h : ∀ t ∈ turns, p ≠ t.host) : (sys.run c turns).host p = c.host p := by
  induction turns generalizing c with
  | nil => rfl
  | cons t turns ih =>
    rw [run_cons, ih (sys.turn c t) fun u hu => h u (List.mem_cons_of_mem t hu)]
    exact sys.host_turn_ne c (h t List.mem_cons_self)

end System

/-- The programs that a list of turns starts. -/
def starts : List (Turn F A) → List A
  | [] => []
  | .start _ a :: turns => a :: starts turns
  | _ :: turns => starts turns

theorem mem_starts_cons {t : Turn F A} {turns : List (Turn F A)} {a : A} (h : a ∈ starts turns) :
    a ∈ starts (t :: turns) := by
  cases t with
  | start p b => exact List.mem_cons_of_mem b h
  | act p f => exact h
  | crash p => exact h

theorem starts_append (ts us : List (Turn F A)) : starts (ts ++ us) = starts ts ++ starts us := by
  induction ts with
  | nil => rfl
  | cons t ts ih => cases t <;> simp [starts, ih]

/-- Contracts under which hosts can run side by side.  `own p l` ties a local state to its
host.  Only programs that are `apart` have to tolerate each other. -/
structure Cooperate (sys : System F S L E A R) where
  own : Nat → L → Prop
  apart : A → A → Prop
  contract : A → Contract S L
  post : A → Except E R → S → L → Prop
  own_enter : ∀ p l, own p l → own p (sys.enter l)
  enter : ∀ p a s l, own p l → wp (contract a) (sys.prog a) (post a) s (sys.enter l)
  rely_refl : ∀ a l s, (contract a).rely l s s
  rely_trans : ∀ a l s s' s'', (contract a).rely l s s' → (contract a).rely l s' s'' →
    (contract a).rely l s s''
  post_stable : ∀ a r s s' l, post a r s l → (contract a).rely l s s' → post a r s' l
  own_guar : ∀ p a s l s' l', own p l → (contract a).guar s l s' l' → own p l'
  own_die : ∀ p s l, own p l → own p (sys.die s l).2
  rely_guar : ∀ p q a b l s m s' m', p ≠ q → own p l → own q m → apart a b →
    (contract b).guar s m s' m' → (contract a).rely l s s'
  rely_die : ∀ p q a l s m, p ≠ q → own p l → own q m → (contract a).rely l s (sys.die s m).1

namespace Cooperate

variable {sys : System F S L E A R} (C : Cooperate sys)

/-- Every host owns its local state, and one that runs a program meets its contract from
here on; the programs that run, and those still to start, are apart. -/
structure Good (c : Config F S L E A R) (turns : List (Turn F A)) : Prop where
  own : ∀ p, C.own p (c.host p).loc
  busy : ∀ p a prog, (c.host p).running = some (a, prog) →
    wp (C.contract a) prog (C.post a) c.shared (c.host p).loc
  apart : ∀ p q a b prog prog', p ≠ q → (c.host p).running = some (a, prog) →
    (c.host q).running = some (b, prog') → C.apart a b
  ahead : ∀ p a prog, (c.host p).running = some (a, prog) →
    ∀ b ∈ starts turns, C.apart a b ∧ C.apart b a
  fresh : (starts turns).Pairwise fun a b => C.apart a b ∧ C.apart b a

/-- What one turn did. -/
inductive Effect (c : Config F S L E A R) : Turn F A → Config F S L E A R → Prop
  | started {p : Nat} {a : A} {c' : Config F S L E A R} : (c.host p).running = none →
      c'.shared = c.shared → (c'.host p).loc = sys.enter (c.host p).loc →
      Effect c (.start p a) c'
  | refused {p : Nat} {a : A} : Effect c (.start p a) c
  | idle {p : Nat} {f : F} : Effect c (.act p f) c
  | acted {p : Nat} {f : F} {c' : Config F S L E A R} {a : A} {k : Prog F S L E R} :
      (c.host p).running = some (a, k) →
      (C.contract a).guar c.shared (c.host p).loc c'.shared (c'.host p).loc →
      Effect c (.act p f) c'
  | ended {p : Nat} {f : F} {c' : Config F S L E A R} {a : A} {r : Except E R} :
      (c.host p).running = some (a, .done r) → C.post a r c.shared (c.host p).loc →
      c'.shared = c.shared → (c'.host p).loc = (c.host p).loc → Effect c (.act p f) c'
  | crashed {p : Nat} {c' : Config F S L E A R} :
      (c'.shared, (c'.host p).loc) = sys.die c.shared (c.host p).loc → Effect c (.crash p) c'

/-- The hosts other than `p` after `p` has changed the shared state within their relies. -/
theorem Good.set {c : Config F S L E A R} {t : Turn F A} {turns : List (Turn F A)}
    (h : C.Good c (t :: turns)) {p : Nat} {s : S} {hp : Host F S L E A R}
    (hown : C.own p hp.loc)
    (hbusy : ∀ a prog, hp.running = some (a, prog) →
      wp (C.contract a) prog (C.post a) s hp.loc ∧
        (∀ q b prog', q ≠ p → (c.host q).running = some (b, prog') →
          C.apart a b ∧ C.apart b a) ∧
        (∀ b ∈ starts turns, C.apart a b ∧ C.apart b a))
    (hrely : ∀ q b prog, q ≠ p → (c.host q).running = some (b, prog) →
      (C.contract b).rely (c.host q).loc c.shared s) :
    C.Good (c.set p s hp) turns := by
  have hsub : ∀ b ∈ starts turns, b ∈ starts (t :: turns) := by
    intro b hb
    cases t <;> simp [starts, hb]
  constructor
  · intro q
    by_cases hq : q = p
    · subst hq; rwa [Config.host_set_self]
    · rw [Config.host_set_ne c _ _ hq]; exact h.own q
  · intro q b prog hb
    by_cases hq : q = p
    · subst hq
      rw [Config.host_set_self] at hb ⊢
      exact (hbusy b prog hb).1
    · rw [Config.host_set_ne c _ _ hq] at hb ⊢
      exact wp_stable (C.rely_trans b) (C.post_stable b) (h.busy q b prog hb)
        (hrely q b prog hq hb)
  · intro q q' a b prog prog' hne ha hb
    by_cases hq : q = p
    · subst hq
      rw [Config.host_set_self] at ha
      rw [Config.host_set_ne c _ _ hne.symm] at hb
      exact ((hbusy a prog ha).2.1 q' b prog' hne.symm hb).1
    · rw [Config.host_set_ne c _ _ hq] at ha
      by_cases hq' : q' = p
      · subst hq'
        rw [Config.host_set_self] at hb
        exact ((hbusy b prog' hb).2.1 q a prog hq ha).2
      · rw [Config.host_set_ne c _ _ hq'] at hb
        exact h.apart q q' a b prog prog' hne ha hb
  · intro q a prog ha b hb
    by_cases hq : q = p
    · subst hq
      rw [Config.host_set_self] at ha
      exact (hbusy a prog ha).2.2 b hb
    · rw [Config.host_set_ne c _ _ hq] at ha
      exact h.ahead q a prog ha b (hsub b hb)
  · have := h.fresh
    cases t with
    | start q a => exact (List.pairwise_cons.mp this).2
    | act q f => exact this
    | crash q => exact this

/-- **One turn.**  It keeps everything, and does what some contract allows. -/
theorem good_turn {c : Config F S L E A R} {t : Turn F A} {turns : List (Turn F A)}
    (h : C.Good c (t :: turns)) : C.Good (sys.turn c t) turns ∧ C.Effect c t (sys.turn c t) := by
  have hdrop : starts (t :: turns) = starts turns → C.Good c turns := by
    intro hs
    exact ⟨h.own, h.busy, h.apart, fun p a prog ha b hb => h.ahead p a prog ha b (hs ▸ hb),
      hs ▸ h.fresh⟩
  cases t with
  | start p a =>
    cases hrun : (c.host p).running with
    | some x =>
      have e : sys.turn c (.start p a) = c := by simp only [System.turn, hrun]
      rw [e]
      refine ⟨⟨h.own, h.busy, h.apart, ?_, (List.pairwise_cons.mp h.fresh).2⟩, .refused⟩
      intro q b prog hb b' hb'
      exact h.ahead q b prog hb b' (List.mem_cons_of_mem _ hb')
    | none =>
      have e : sys.turn c (.start p a) = c.set p c.shared
          ⟨sys.enter (c.host p).loc, some (a, sys.prog a)⟩ := by
        simp only [System.turn, hrun]
      rw [e]
      refine ⟨Good.set C h (C.own_enter p _ (h.own p)) ?_ fun q b _ _ _ => C.rely_refl b _ _,
        .started hrun rfl (by rw [Config.host_set_self])⟩
      intro b prog hb
      simp only [Option.some.injEq, Prod.mk.injEq] at hb
      obtain ⟨rfl, rfl⟩ := hb
      refine ⟨C.enter p a _ _ (h.own p), ?_, (List.pairwise_cons.mp h.fresh).1⟩
      intro q b prog' hq hb
      exact (h.ahead q b prog' hb a (by simp [starts])).symm
  | act p f =>
    cases hrun : (c.host p).running with
    | none =>
      have e : sys.turn c (.act p f) = c := by simp only [System.turn, hrun]
      rw [e]
      exact ⟨hdrop rfl, .idle⟩
    | some x =>
      obtain ⟨a, prog⟩ := x
      have hb := h.busy p a prog hrun
      cases prog with
      | done r =>
        have e : sys.turn c (.act p f) = c.set p c.shared ⟨(c.host p).loc, none⟩ := by
          simp only [System.turn, hrun]
        rw [e]
        exact ⟨Good.set C h (h.own p) (by simp) fun q b _ _ _ => C.rely_refl b _ _,
          .ended hrun hb rfl (by rw [Config.host_set_self])⟩
      | step act k =>
        have e : sys.turn c (.act p f) =
            c.set p (act.next f c.shared (c.host p).loc).2.1
              ⟨(act.next f c.shared (c.host p).loc).2.2,
                some (a, k (act.next f c.shared (c.host p).loc).1)⟩ := by
          simp only [System.turn, hrun]
        obtain ⟨hg, hk⟩ := hb c.shared (C.rely_refl a _ _) f
        rw [e]
        refine ⟨Good.set C h (C.own_guar p a _ _ _ _ (h.own p) hg) ?_ ?_, .acted hrun ?_⟩
        · intro b prog hb
          simp only [Option.some.injEq, Prod.mk.injEq] at hb
          obtain ⟨rfl, rfl⟩ := hb
          refine ⟨hk, ?_, h.ahead p a _ hrun⟩
          intro q b prog' hq hb
          exact ⟨h.apart p q a b _ _ hq.symm hrun hb, h.apart q p b a _ _ hq hb hrun⟩
        · intro q b prog hq hb
          exact C.rely_guar q p b a _ _ _ _ _ hq (h.own q) (h.own p)
            (h.apart q p b a _ _ hq hb hrun) hg
        · rw [Config.shared_set, Config.host_set_self]
          exact hg
  | crash p =>
    have e : sys.turn c (.crash p) = c.set p (sys.die c.shared (c.host p).loc).1
        ⟨(sys.die c.shared (c.host p).loc).2, none⟩ := rfl
    rw [e]
    refine ⟨Good.set C h (C.own_die p _ _ (h.own p)) (by simp) ?_, .crashed ?_⟩
    · intro q b prog hq _
      exact C.rely_die q p b _ _ _ hq (h.own q) (h.own p)
    · rw [Config.shared_set, Config.host_set_self]

theorem good_initial {s : S} {loc : Nat → L} {turns : List (Turn F A)}
    (hown : ∀ p, C.own p (loc p))
    (hfresh : (starts turns).Pairwise fun a b => C.apart a b ∧ C.apart b a) :
    C.Good (Config.initial s loc) turns where
  own := hown
  busy := nofun
  apart := nofun
  ahead := nofun
  fresh := hfresh

theorem good_run {c : Config F S L E A R} {turns rest : List (Turn F A)}
    (h : C.Good c (turns ++ rest)) : C.Good (sys.run c turns) rest := by
  induction turns generalizing c with
  | nil => exact h
  | cons t turns ih => exact ih (C.good_turn h).1

/-- What is good for a run is good for its beginning. -/
theorem good_cut {c : Config F S L E A R} {turns rest : List (Turn F A)} (h : C.Good c (turns ++ rest)) :
    C.Good c turns := by
  have hmem : ∀ a ∈ starts turns, a ∈ starts (turns ++ rest) := fun a ha => by
    rw [starts_append]
    exact List.mem_append_left _ ha
  have hfresh := h.fresh
  rw [starts_append] at hfresh
  exact ⟨h.own, h.busy, h.apart, fun p a prog hrun b hb => h.ahead p a prog hrun b (hmem b hb),
    (List.pairwise_append.mp hfresh).1⟩

/-- **Any run.**  What every allowed turn keeps, holds after every run. -/
theorem run_keeps {I : Config F S L E A R → Prop} {c : Config F S L E A R}
    {turns : List (Turn F A)} (hgood : C.Good c turns) (hc : I c)
    (hI : ∀ c t c' rest, C.Good c (t :: rest) → C.Effect c t c' → c' = sys.turn c t → I c → I c') :
    I (sys.run c turns) := by
  induction turns generalizing c with
  | nil => exact hc
  | cons t turns ih =>
    obtain ⟨hg, he⟩ := C.good_turn hgood
    exact ih hg (hI c t _ turns hgood he rfl hc)

end Cooperate

end

end Logic
