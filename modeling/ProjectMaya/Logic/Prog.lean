/-! # Programs made of atomic actions that can fail

A program (`Prog`) is a tree of atomic actions on a state `S` shared between processes
and a local state `L`.  At every action the environment makes a choice `F`, which decides
what the action does and whether it raises; the rest of the program sees the result,
so exceptions can be caught (`Prog.onError`, `Prog.mapError`, `Prog.ensuring`).

`Prog.run` runs a program alone, with the environment's choices, and a crash between any
two actions, given as a list of moves. -/

namespace Logic

/-- One atomic action: for each choice of the environment, a result and the new states. -/
structure Action (F S L E β : Type) where
  next : F → S → L → Except E β × S × L

inductive Prog (F S L E α : Type) : Type 1 where
  | done (r : Except E α)
  | step {β : Type} (a : Action F S L E β) (k : Except E β → Prog F S L E α)

/-- What the environment does before the next action of a running program. -/
inductive Move (F : Type) where
  | go (choice : F)
  | crash
  deriving DecidableEq, Repr

namespace Prog

variable {F S L E α β : Type}

def andThen (p : Prog F S L E α) (f : Except E α → Prog F S L E β) : Prog F S L E β :=
  match p with
  | .done r => f r
  | .step a k => .step a fun r => (k r).andThen f

instance : Monad (Prog F S L E) where
  pure a := .done (.ok a)
  bind p f := p.andThen fun
    | .ok a => f a
    | .error e => .done (.error e)

@[simp] theorem pure_bind (a : α) (f : α → Prog F S L E β) :
    ((pure a : Prog F S L E α) >>= f) = f a := rfl

@[simp] theorem done_ok_bind (a : α) (f : α → Prog F S L E β) :
    ((.done (.ok a) : Prog F S L E α) >>= f) = f a := rfl

@[simp] theorem done_error_bind (e : E) (f : α → Prog F S L E β) :
    ((.done (.error e) : Prog F S L E α) >>= f) = .done (.error e) := rfl

@[simp] theorem bind_assoc {γ : Type} (p : Prog F S L E α) (f : α → Prog F S L E β)
    (g : β → Prog F S L E γ) : (p >>= f) >>= g = p >>= fun a => f a >>= g := by
  induction p with
  | done r => cases r <;> rfl
  | step a k ih => exact congrArg (Prog.step a) (funext ih)

def perform (a : Action F S L E α) : Prog F S L E α := .step a .done

/-- `raise e`. -/
def raise (e : E) : Prog F S L E α := .done (.error e)

/-- `if c: raise e`. -/
def raiseIf (c : Prop) [Decidable c] (e : E) : Prog F S L E Unit :=
  if c then .raise e else .done (.ok ())

/-- `try: p; except BaseException: h; raise`.  An exception of `h` replaces the first. -/
def onError (p : Prog F S L E α) (h : Prog F S L E Unit) : Prog F S L E α :=
  p.andThen fun
    | .ok a => .done (.ok a)
    | .error e => h.andThen fun
      | .ok _ => .done (.error e)
      | .error e' => .done (.error e')

/-- `try: p; finally: h`. -/
def ensuring (p : Prog F S L E α) (h : Prog F S L E Unit) : Prog F S L E α :=
  p.andThen fun r => h.andThen fun
    | .ok _ => .done r
    | .error e => .done (.error e)

/-- `try: p; except …: raise f(e)`. -/
def mapError (p : Prog F S L E α) (f : E → Prog F S L E E) : Prog F S L E α :=
  p.andThen fun
    | .ok a => .done (.ok a)
    | .error e => (f e).andThen fun
      | .ok e' => .done (.error e')
      | .error e' => .done (.error e')

/-- Every action of the program has the property `P`. -/
def Each (P : ∀ {β : Type}, Action F S L E β → Prop) : Prog F S L E α → Prop
  | .done _ => True
  | .step a k => P a ∧ ∀ r, (k r).Each P

/-- How a run ended: with the program's result, or (`none`) with a crash. -/
structure Outcome (S L E α : Type) where
  result : Option (Except E α)
  shared : S
  loc : L

/-- Runs a program alone.  A crash replaces the states by `die`; when the moves are used
up, the remaining actions get the default choice. -/
def run [Inhabited F] (die : S → L → S × L) : Prog F S L E α → List (Move F) → S → L →
    Outcome S L E α
  | .done r, _, s, l => ⟨some r, s, l⟩
  | .step a k, [], s, l =>
    let (r, s, l) := a.next default s l
    (k r).run die [] s l
  | .step a k, .go f :: moves, s, l =>
    let (r, s, l) := a.next f s l
    (k r).run die moves s l
  | .step _ _, .crash :: _, s, l => ⟨none, (die s l).1, (die s l).2⟩

/-- A run that nothing disturbs: every choice is the default one. -/
def calm [Inhabited F] : Prog F S L E α → S → L → Except E α × S × L
  | .done r, s, l => (r, s, l)
  | .step a k, s, l =>
    let (r, s, l) := a.next default s l
    (k r).calm s l

/-- A run in which the environment always makes the same choice. -/
def under (c : F) : Prog F S L E α → S → L → Except E α × S × L
  | .done r, s, l => (r, s, l)
  | .step a k, s, l =>
    let (r, s, l) := a.next c s l
    (k r).under c s l

theorem under_andThen (c : F) (p : Prog F S L E α) (f : Except E α → Prog F S L E β) (s : S) (l : L) :
    (p.andThen f).under c s l =
      (f (p.under c s l).1).under c (p.under c s l).2.1 (p.under c s l).2.2 := by
  induction p generalizing s l with
  | done r => rfl
  | step a k ih => exact ih _ _ _

theorem under_bind_ok {c : F} {p : Prog F S L E α} {f : α → Prog F S L E β} {a : α} {s t : S}
    {l m : L} (h : p.under c s l = (.ok a, t, m)) :
    (p >>= f).under c s l = (f a).under c t m := by
  show (p.andThen _).under c s l = _
  rw [under_andThen, h]

theorem under_bind_error {c : F} {p : Prog F S L E α} {f : α → Prog F S L E β} {e : E} {s t : S}
    {l m : L} (h : p.under c s l = (.error e, t, m)) : (p >>= f).under c s l = (.error e, t, m) := by
  show (p.andThen _).under c s l = _
  rw [under_andThen, h]
  rfl

/-- A `finally` that raises nothing. -/
theorem under_ensuring {c : F} {p : Prog F S L E α} {h : Prog F S L E Unit} {s t u : S} {l m n : L}
    {r : Except E α} (hp : p.under c s l = (r, t, m)) (hh : h.under c t m = (.ok (), u, n)) :
    (p.ensuring h).under c s l = (r, u, n) := by
  show (p.andThen _).under c s l = _
  rw [under_andThen, hp]
  show (h.andThen _).under c t m = _
  rw [under_andThen, hh]
  rfl

/-- Such a run is one with a finite list of moves. -/
theorem exists_run_eq_under [Inhabited F] (die : S → L → S × L) (c : F) (p : Prog F S L E α) (s : S)
    (l : L) : ∃ moves, p.run die moves s l =
      ⟨some (p.under c s l).1, (p.under c s l).2.1, (p.under c s l).2.2⟩ := by
  induction p generalizing s l with
  | done r => exact ⟨[], rfl⟩
  | step a k ih =>
    obtain ⟨moves, hmoves⟩ := ih (a.next c s l).1 (a.next c s l).2.1 (a.next c s l).2.2
    exact ⟨.go c :: moves, hmoves⟩

/-! ### What holds after a run in which the environment always makes the same choice -/

/-- The end of such a run satisfies `Q`. -/
def Ends (c : F) (p : Prog F S L E α) (Q : Except E α → S → L → Prop) (s : S) (l : L) : Prop :=
  Q (p.under c s l).1 (p.under c s l).2.1 (p.under c s l).2.2

section

variable {c : F} {s : S} {l : L}

theorem ends_mono {p : Prog F S L E α} {Q R : Except E α → S → L → Prop} (h : p.Ends c Q s l)
    (hQR : ∀ r s l, Q r s l → R r s l) : p.Ends c R s l := hQR _ _ _ h

theorem ends_perform {a : Action F S L E α} {Q : Except E α → S → L → Prop}
    (h : Q (a.next c s l).1 (a.next c s l).2.1 (a.next c s l).2.2) : (perform a).Ends c Q s l := h

theorem ends_raiseIf {d : Prop} [Decidable d] {e : E} {Q : Except E Unit → S → L → Prop}
    (ht : d → Q (.error e) s l) (hf : ¬ d → Q (.ok ()) s l) :
    (raiseIf d e : Prog F S L E Unit).Ends c Q s l := by
  unfold raiseIf
  split
  · rename_i hd
    exact ht hd
  · rename_i hd
    exact hf hd

theorem ends_andThen {p : Prog F S L E α} {f : Except E α → Prog F S L E β}
    {Q : Except E β → S → L → Prop} (h : p.Ends c (fun r s l => (f r).Ends c Q s l) s l) :
    (p.andThen f).Ends c Q s l := by
  unfold Ends
  rw [under_andThen]
  exact h

theorem ends_bind {p : Prog F S L E α} {f : α → Prog F S L E β} {P : Except E α → S → L → Prop}
    {Q : Except E β → S → L → Prop} (hp : p.Ends c P s l)
    (hok : ∀ a s l, P (.ok a) s l → (f a).Ends c Q s l)
    (herr : ∀ e s l, P (.error e) s l → Q (.error e) s l) : (p >>= f).Ends c Q s l := by
  refine ends_andThen (ends_mono hp ?_)
  intro r s l hr
  cases r with
  | ok a => exact hok a s l hr
  | error e => exact herr e s l hr

/-- The same, for a first part whose rule has an arbitrary postcondition. -/
theorem ends_seq {p : Prog F S L E α} {f : α → Prog F S L E β} {Q : Except E β → S → L → Prop}
    (h : p.Ends c (fun r s l => match r with
      | .ok a => (f a).Ends c Q s l
      | .error e => Q (.error e) s l) s l) : (p >>= f).Ends c Q s l :=
  ends_bind h (fun _ _ _ h => h) fun _ _ _ h => h

theorem ends_perform_bind {a : Action F S L E α} {f : α → Prog F S L E β}
    {Q : Except E β → S → L → Prop}
    (hok : ∀ v, (a.next c s l).1 = .ok v → (f v).Ends c Q (a.next c s l).2.1 (a.next c s l).2.2)
    (herr : ∀ e, (a.next c s l).1 = .error e → Q (.error e) (a.next c s l).2.1 (a.next c s l).2.2) :
    (perform a >>= f).Ends c Q s l := by
  refine ends_seq (ends_perform ?_)
  cases hr : (a.next c s l).1 with
  | ok v => exact hok v hr
  | error e => exact herr e hr

theorem ends_raiseIf_bind {d : Prop} [Decidable d] {e : E} {f : Unit → Prog F S L E β}
    {Q : Except E β → S → L → Prop} (ht : d → Q (.error e) s l) (hf : ¬ d → (f ()).Ends c Q s l) :
    (raiseIf d e >>= f).Ends c Q s l := ends_seq (ends_raiseIf ht hf)

theorem ends_mapError {p : Prog F S L E α} {f : E → Prog F S L E E} {P Q : Except E α → S → L → Prop}
    (hp : p.Ends c P s l) (hok : ∀ a s l, P (.ok a) s l → Q (.ok a) s l)
    (herr : ∀ e s l, P (.error e) s l → (f e).Ends c (fun r s l => match r with
      | .ok e' => Q (.error e') s l
      | .error e' => Q (.error e') s l) s l) : (p.mapError f).Ends c Q s l := by
  refine ends_andThen (ends_mono hp ?_)
  intro r s l hr
  cases r with
  | ok a => exact hok a s l hr
  | error e =>
    refine ends_andThen (ends_mono (herr e s l hr) ?_)
    intro r s l hr
    cases r <;> exact hr

theorem ends_ensuring {p : Prog F S L E α} {h : Prog F S L E Unit} {P Q : Except E α → S → L → Prop}
    (hp : p.Ends c P s l)
    (hfin : ∀ r s l, P r s l → h.Ends c (fun r' s l => match r' with
      | .ok _ => Q r s l
      | .error e => Q (.error e) s l) s l) : (p.ensuring h).Ends c Q s l := by
  refine ends_andThen (ends_mono hp ?_)
  intro r s l hr
  refine ends_andThen (ends_mono (hfin r s l hr) ?_)
  intro r' s l hr'
  cases r' <;> exact hr'

end

section

variable {P : ∀ {β : Type}, Action F S L E β → Prop}

theorem Each.andThen {p : Prog F S L E α} {f : Except E α → Prog F S L E β} (hp : p.Each P)
    (hf : ∀ r, (f r).Each P) : (p.andThen f).Each P := by
  induction p with
  | done r => exact hf r
  | step a k ih => exact ⟨hp.1, fun r => ih r (hp.2 r)⟩

theorem Each.bind {p : Prog F S L E α} {f : α → Prog F S L E β} (hp : p.Each P)
    (hf : ∀ a, (f a).Each P) : (p >>= f).Each P := by
  refine hp.andThen ?_
  intro r
  cases r with
  | ok a => exact hf a
  | error e => exact trivial

theorem Each.mapError {p : Prog F S L E α} {f : E → Prog F S L E E} (hp : p.Each P)
    (hf : ∀ e, (f e).Each P) : (p.mapError f).Each P := by
  refine hp.andThen ?_
  intro r
  cases r with
  | ok a => exact trivial
  | error e =>
    refine (hf e).andThen ?_
    intro r
    cases r <;> exact trivial

theorem Each.onError {p : Prog F S L E α} {h : Prog F S L E Unit} (hp : p.Each P) (hh : h.Each P) :
    (p.onError h).Each P := by
  refine hp.andThen ?_
  intro r
  cases r with
  | ok a => exact trivial
  | error e =>
    refine hh.andThen ?_
    intro r
    cases r <;> exact trivial

theorem Each.ensuring {p : Prog F S L E α} {h : Prog F S L E Unit} (hp : p.Each P) (hh : h.Each P) :
    (p.ensuring h).Each P := by
  refine hp.andThen ?_
  intro r
  refine hh.andThen ?_
  intro r'
  cases r' <;> exact trivial

theorem Each.mono {Q : ∀ {β : Type}, Action F S L E β → Prop}
    (hPQ : ∀ {β : Type} (a : Action F S L E β), P a → Q a) {p : Prog F S L E α} (h : p.Each P) :
    p.Each Q := by
  induction p with
  | done r => exact trivial
  | step a k ih => exact ⟨hPQ a h.1, fun r => ih r (h.2 r)⟩

theorem Each.perform {a : Action F S L E α} (h : P a) : (perform a).Each P :=
  ⟨h, fun _ => trivial⟩

/-- What every action keeps, the run keeps. -/
theorem Each.ends {J : S → L → Prop}
    (hkeep : ∀ {β : Type} (a : Action F S L E β), P a → ∀ f s l, J s l →
      J (a.next f s l).2.1 (a.next f s l).2.2)
    {p : Prog F S L E α} (hp : p.Each P) (c : F) {s : S} {l : L} (h : J s l) :
    p.Ends c (fun _ s l => J s l) s l := by
  induction p generalizing s l with
  | done r => exact h
  | step a k ih => exact ih _ (hp.2 _) (hkeep a hp.1 c s l h)

theorem Each.raiseIf {c : Prop} [Decidable c] {e : E} :
    (raiseIf c e : Prog F S L E Unit).Each P := by
  unfold Prog.raiseIf
  split <;> exact trivial

end

section

variable [Inhabited F]

theorem run_nil (die : S → L → S × L) (p : Prog F S L E α) (s : S) (l : L) :
    p.run die [] s l = ⟨some (p.calm s l).1, (p.calm s l).2.1, (p.calm s l).2.2⟩ := by
  induction p generalizing s l with
  | done r => rfl
  | step a k ih => exact ih _ _ _

/-- Moves that only ask for the default choice disturb nothing. -/
theorem run_of_default (die : S → L → S × L) (p : Prog F S L E α) {moves : List (Move F)}
    (h : ∀ m ∈ moves, m = .go default) (s : S) (l : L) : p.run die moves s l = p.run die [] s l := by
  induction p generalizing s l moves with
  | done r => cases moves <;> rfl
  | step a k ih =>
    cases moves with
    | nil => rfl
    | cons m moves =>
      have hm : m = .go default := h m List.mem_cons_self
      rw [hm]
      exact ih _ (fun n hn => h n (List.mem_cons_of_mem m hn)) _ _

theorem calm_andThen (p : Prog F S L E α) (f : Except E α → Prog F S L E β) (s : S) (l : L) :
    (p.andThen f).calm s l = (f (p.calm s l).1).calm (p.calm s l).2.1 (p.calm s l).2.2 := by
  induction p generalizing s l with
  | done r => rfl
  | step a k ih => exact ih _ _ _

/-- A first part that ends in a value hands over to the rest. -/
theorem calm_bind_ok {p : Prog F S L E α} {f : α → Prog F S L E β} {a : α} {s s' : S} {l l' : L}
    (h : p.calm s l = (.ok a, s', l')) : (p >>= f).calm s l = (f a).calm s' l' := by
  show (p.andThen _).calm s l = _
  rw [calm_andThen, h]

/-- A first part that raises ends the whole. -/
theorem calm_bind_error {p : Prog F S L E α} {f : α → Prog F S L E β} {e : E} {s s' : S} {l l' : L}
    (h : p.calm s l = (.error e, s', l')) : (p >>= f).calm s l = (.error e, s', l') := by
  show (p.andThen _).calm s l = _
  rw [calm_andThen, h]
  rfl

theorem calm_onError_ok {p : Prog F S L E α} {h : Prog F S L E Unit} {a : α} {s s' : S} {l l' : L}
    (hp : p.calm s l = (.ok a, s', l')) : (p.onError h).calm s l = (.ok a, s', l') := by
  show (p.andThen _).calm s l = _
  rw [calm_andThen, hp]
  rfl

/-- What is raised, or by the handler in its place. -/
theorem calm_onError_error {p : Prog F S L E α} {h : Prog F S L E Unit} {e : E} {s s' : S}
    {l l' : L} (hp : p.calm s l = (.error e, s', l')) :
    ∃ e', ((p.onError h).calm s l).1 = .error e' := by
  have hcalm : (p.onError h).calm s l = (h.andThen fun
      | .ok _ => .done (.error e)
      | .error e' => .done (.error e')).calm s' l' := by
    show (p.andThen _).calm s l = _
    rw [calm_andThen, hp]
  rw [hcalm, calm_andThen]
  cases (h.calm s' l').1 with
  | ok _ => exact ⟨e, rfl⟩
  | error e' => exact ⟨e', rfl⟩

theorem calm_ensuring {p : Prog F S L E α} {h : Prog F S L E Unit} {r : Except E α} {s s' s'' : S}
    {l l' l'' : L} (hp : p.calm s l = (r, s', l')) (hh : h.calm s' l' = (.ok (), s'', l'')) :
    (p.ensuring h).calm s l = (r, s'', l'') := by
  show (p.andThen _).calm s l = _
  rw [calm_andThen, hp]
  show (h.andThen _).calm s' l' = _
  rw [calm_andThen, hh]
  rfl

end

end Prog

end Logic
