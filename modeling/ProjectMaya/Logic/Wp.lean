import ProjectMaya.Logic.Prog

/-! # Weakest preconditions under interference

A contract says what other processes may do to the shared state between two actions of a
program (`rely`) and what each action of the program itself does (`guar`).  `wp C p Q`
holds of a state when every action of `p`, with any choice of the environment and any
interference within `C.rely`, keeps `C.guar`, and every result of `p` satisfies `Q`.

The rules follow the ways programs are put together (`wp_bind`, `wp_onError`,
`wp_ensuring`, `wp_mapError`).  `wp_run` carries a `wp` over to a run of the program
alone, with a crash at any point; `wp_stable` carries it over an interference. -/

namespace Logic

structure Contract (S L : Type) where
  rely : L → S → S → Prop
  guar : S → L → S → L → Prop

/-- Nobody else does anything. -/
def Contract.alone {S L : Type} : Contract S L := ⟨fun _ s s' => s' = s, fun _ _ _ _ => True⟩

section

variable {F S L E α β : Type}

def wp (C : Contract S L) : Prog F S L E α → (Except E α → S → L → Prop) → S → L → Prop
  | .done r, Q, s, l => Q r s l
  | .step a k, Q, s, l => ∀ s', C.rely l s s' → ∀ f,
      C.guar s' l (a.next f s' l).2.1 (a.next f s' l).2.2 ∧
        wp C (k (a.next f s' l).1) Q (a.next f s' l).2.1 (a.next f s' l).2.2

variable {C : Contract S L}

theorem wp_mono {p : Prog F S L E α} {Q R : Except E α → S → L → Prop} {s : S} {l : L}
    (h : wp C p Q s l) (hQR : ∀ r s l, Q r s l → R r s l) : wp C p R s l := by
  induction p generalizing s l with
  | done r => exact hQR r s l h
  | step a k ih =>
    intro s' hs' f
    obtain ⟨hg, hk⟩ := h s' hs' f
    exact ⟨hg, ih _ hk⟩

theorem wp_andThen {p : Prog F S L E α} {f : Except E α → Prog F S L E β}
    {Q : Except E β → S → L → Prop} {s : S} {l : L}
    (h : wp C p (fun r s l => wp C (f r) Q s l) s l) : wp C (p.andThen f) Q s l := by
  induction p generalizing s l with
  | done r => exact h
  | step a k ih =>
    intro s' hs' c
    obtain ⟨hg, hk⟩ := h s' hs' c
    exact ⟨hg, ih _ hk⟩

theorem wp_bind {p : Prog F S L E α} {f : α → Prog F S L E β}
    {P : Except E α → S → L → Prop} {Q : Except E β → S → L → Prop} {s : S} {l : L}
    (hp : wp C p P s l) (hok : ∀ a s l, P (.ok a) s l → wp C (f a) Q s l)
    (herr : ∀ e s l, P (.error e) s l → Q (.error e) s l) : wp C (p >>= f) Q s l := by
  refine wp_andThen (wp_mono hp ?_)
  intro r s l hr
  cases r with
  | ok a => exact hok a s l hr
  | error e => exact herr e s l hr

theorem wp_onError {p : Prog F S L E α} {h : Prog F S L E Unit}
    {P Q : Except E α → S → L → Prop} {s : S} {l : L} (hp : wp C p P s l)
    (hok : ∀ a s l, P (.ok a) s l → Q (.ok a) s l)
    (herr : ∀ e s l, P (.error e) s l →
      wp C h (fun r s l => match r with
        | .ok _ => Q (.error e) s l
        | .error e' => Q (.error e') s l) s l) :
    wp C (p.onError h) Q s l := by
  refine wp_andThen (wp_mono hp ?_)
  intro r s l hr
  cases r with
  | ok a => exact hok a s l hr
  | error e =>
    refine wp_andThen (wp_mono (herr e s l hr) ?_)
    intro r s l hr
    cases r <;> exact hr

theorem wp_ensuring {p : Prog F S L E α} {h : Prog F S L E Unit}
    {P Q : Except E α → S → L → Prop} {s : S} {l : L} (hp : wp C p P s l)
    (hfin : ∀ r s l, P r s l →
      wp C h (fun r' s l => match r' with
        | .ok _ => Q r s l
        | .error e => Q (.error e) s l) s l) :
    wp C (p.ensuring h) Q s l := by
  refine wp_andThen (wp_mono hp ?_)
  intro r s l hr
  refine wp_andThen (wp_mono (hfin r s l hr) ?_)
  intro r' s l hr'
  cases r' <;> exact hr'

theorem wp_mapError {p : Prog F S L E α} {f : E → Prog F S L E E}
    {P Q : Except E α → S → L → Prop} {s : S} {l : L} (hp : wp C p P s l)
    (hok : ∀ a s l, P (.ok a) s l → Q (.ok a) s l)
    (herr : ∀ e s l, P (.error e) s l →
      wp C (f e) (fun r s l => match r with
        | .ok e' => Q (.error e') s l
        | .error e' => Q (.error e') s l) s l) :
    wp C (p.mapError f) Q s l := by
  refine wp_andThen (wp_mono hp ?_)
  intro r s l hr
  cases r with
  | ok a => exact hok a s l hr
  | error e =>
    refine wp_andThen (wp_mono (herr e s l hr) ?_)
    intro r s l hr
    cases r <;> exact hr

theorem wp_pure {a : α} {Q : Except E α → S → L → Prop} {s : S} {l : L} (h : Q (.ok a) s l) :
    wp C (pure a : Prog F S L E α) Q s l := h

theorem wp_raiseIf {c : Prop} [Decidable c] {e : E} {Q : Except E Unit → S → L → Prop}
    {s : S} {l : L} (ht : c → Q (.error e) s l) (hf : ¬ c → Q (.ok ()) s l) :
    wp C (Prog.raiseIf c e : Prog F S L E Unit) Q s l := by
  unfold Prog.raiseIf
  split
  · rename_i hc; exact ht hc
  · rename_i hc; exact hf hc

/-- A rule for one action: from every state the others may bring about, with every choice. -/
theorem wp_perform {a : Action F S L E α} {Q : Except E α → S → L → Prop} {s : S} {l : L}
    (h : ∀ s', C.rely l s s' → ∀ f,
      C.guar s' l (a.next f s' l).2.1 (a.next f s' l).2.2 ∧
        Q (a.next f s' l).1 (a.next f s' l).2.1 (a.next f s' l).2.2) :
    wp C (.perform a) Q s l := h

/-! ### Programs of which only the returned values matter -/

/-- A postcondition for the values that a program returns. -/
def Returns (Q : α → S → L → Prop) (r : Except E α) (s : S) (l : L) : Prop :=
  ∀ a, r = .ok a → Q a s l

theorem Returns.ok {Q : α → S → L → Prop} {a : α} {s : S} {l : L} (h : Q a s l) :
    Returns (E := E) Q (.ok a) s l := by
  rintro _ ⟨⟩
  exact h

theorem Returns.error {Q : α → S → L → Prop} {e : E} {s : S} {l : L} :
    Returns Q (.error e) s l := nofun

theorem returns_bind {p : Prog F S L E α} {f : α → Prog F S L E β} {P : α → S → L → Prop}
    {Q : β → S → L → Prop} {s : S} {l : L} (hp : wp C p (Returns P) s l)
    (hf : ∀ a s l, P a s l → wp C (f a) (Returns Q) s l) : wp C (p >>= f) (Returns Q) s l :=
  wp_bind hp (fun a s l h => hf a s l (h a rfl)) fun _ _ _ _ => .error

theorem returns_mapError {p : Prog F S L E α} {f : E → Prog F S L E E} {Q : α → S → L → Prop}
    {s : S} {l : L} (hp : wp C p (Returns Q) s l)
    (hf : ∀ e s l, wp C (f e) (fun _ _ _ => True) s l) :
    wp C (p.mapError f) (Returns Q) s l := by
  refine wp_mapError hp (fun _ _ _ h => h) ?_
  intro e s l _
  refine wp_mono (hf e s l) ?_
  intro r s l _
  cases r <;> exact .error

theorem returns_raiseIf {c : Prop} [Decidable c] {e : E} {Q : Unit → S → L → Prop} {s : S} {l : L}
    (h : ¬ c → Q () s l) : wp C (Prog.raiseIf c e : Prog F S L E Unit) (Returns Q) s l :=
  wp_raiseIf (fun _ => .error) fun hc => .ok (h hc)

/-! ### Programs that do not raise -/

def Succeeds (Q : α → S → L → Prop) (r : Except E α) (s : S) (l : L) : Prop :=
  ∃ a, r = .ok a ∧ Q a s l

theorem succeeds_bind {p : Prog F S L E α} {f : α → Prog F S L E β} {P : α → S → L → Prop}
    {Q : Except E β → S → L → Prop} {s : S} {l : L} (hp : wp C p (Succeeds P) s l)
    (hf : ∀ a s l, P a s l → wp C (f a) Q s l) : wp C (p >>= f) Q s l := by
  refine wp_bind hp ?_ ?_
  · rintro a s l ⟨b, hb, h⟩
    cases hb
    exact hf a s l h
  · rintro e s l ⟨b, hb, _⟩
    cases hb

/-! ### Programs of which the result does not matter -/

theorem always_bind {p : Prog F S L E α} {f : α → Prog F S L E β} {J K : S → L → Prop} {s : S}
    {l : L} (hp : wp C p (fun _ => J) s l) (hf : ∀ a s l, J s l → wp C (f a) (fun _ => K) s l)
    (hJK : ∀ s l, J s l → K s l) : wp C (p >>= f) (fun _ => K) s l :=
  wp_bind hp hf fun _ => hJK

theorem always_mapError {p : Prog F S L E α} {f : E → Prog F S L E E} {K : S → L → Prop} {s : S}
    {l : L} (hp : wp C p (fun _ => K) s l) (hf : ∀ e s l, K s l → wp C (f e) (fun _ => K) s l) :
    wp C (p.mapError f) (fun _ => K) s l := by
  refine wp_mapError hp (fun _ _ _ h => h) ?_
  intro e s l hk
  refine wp_mono (hf e s l hk) ?_
  intro r s l hk
  cases r <;> exact hk

theorem always_ensuring {p : Prog F S L E α} {h : Prog F S L E Unit} {J K : S → L → Prop} {s : S}
    {l : L} (hp : wp C p (fun _ => J) s l) (hh : ∀ s l, J s l → wp C h (fun _ => K) s l) :
    wp C (p.ensuring h) (fun _ => K) s l := by
  refine wp_ensuring hp ?_
  intro r s l hj
  refine wp_mono (hh s l hj) ?_
  intro r' s l hk
  cases r' <;> exact hk

/-- What the others and every action of a program keep, the program keeps. -/
theorem wp_of_each {P : ∀ {β : Type}, Action F S L E β → Prop} {J : S → L → Prop}
    (hrely : ∀ s s' l, C.rely l s s' → J s l → J s' l)
    (hkeep : ∀ {β : Type} (a : Action F S L E β), P a → ∀ f s l, J s l →
      C.guar s l (a.next f s l).2.1 (a.next f s l).2.2 ∧
        J (a.next f s l).2.1 (a.next f s l).2.2)
    {p : Prog F S L E α} (hp : p.Each P) {s : S} {l : L} (h : J s l) :
    wp C p (fun _ s l => J s l) s l := by
  induction p generalizing s l with
  | done r => exact h
  | step a k ih =>
    intro s' hs' f
    obtain ⟨hg, hj⟩ := hkeep a hp.1 f s' l (hrely s s' l hs' h)
    exact ⟨hg, ih _ (hp.2 _) hj⟩

/-- What every action of a program keeps holds besides what is known of its end. -/
theorem wp_and_each {P : ∀ {β : Type}, Action F S L E β → Prop} {J : S → L → Prop}
    (hrely : ∀ s s' l, C.rely l s s' → J s l → J s' l)
    (hkeep : ∀ {β : Type} (a : Action F S L E β), P a → ∀ f s l, J s l →
      J (a.next f s l).2.1 (a.next f s l).2.2)
    {p : Prog F S L E α} {Q : Except E α → S → L → Prop} {s : S} {l : L} (hp : p.Each P)
    (h : wp C p Q s l) (hJ : J s l) : wp C p (fun r s l => Q r s l ∧ J s l) s l := by
  induction p generalizing s l with
  | done r => exact ⟨h, hJ⟩
  | step a k ih =>
    intro s' hs' f
    obtain ⟨hg, hk⟩ := h s' hs' f
    exact ⟨hg, ih _ (hp.2 _) hk (hkeep a hp.1 f s' l (hrely s s' l hs' hJ))⟩

/-- What the contract keeps holds besides what is known of the end. -/
theorem wp_and_guar {J : S → L → Prop} (hrely : ∀ s s' l, C.rely l s s' → J s l → J s' l)
    (hguar : ∀ s l s' l', C.guar s l s' l' → J s l → J s' l') {p : Prog F S L E α}
    {Q : Except E α → S → L → Prop} {s : S} {l : L} (h : wp C p Q s l) (hJ : J s l) :
    wp C p (fun r s l => Q r s l ∧ J s l) s l := by
  induction p generalizing s l with
  | done r => exact ⟨h, hJ⟩
  | step a k ih =>
    intro s' hs' f
    obtain ⟨hg, hk⟩ := h s' hs' f
    exact ⟨hg, ih _ hk (hguar _ _ _ _ hg (hrely s s' l hs' hJ))⟩

/-- Interference before the first action is one more interference. -/
theorem wp_stable (htrans : ∀ l s s' s'', C.rely l s s' → C.rely l s' s'' → C.rely l s s'')
    {p : Prog F S L E α} {Q : Except E α → S → L → Prop}
    (hQ : ∀ r s s' l, Q r s l → C.rely l s s' → Q r s' l) {s s' : S} {l : L}
    (h : wp C p Q s l) (hs : C.rely l s s') : wp C p Q s' l := by
  cases p with
  | done r => exact hQ r s s' l h hs
  | step a k =>
    intro s'' hs'' f
    exact h s'' (htrans l s s' s'' hs hs'') f

/-- **A program alone.**  What every allowed action keeps, and a crash too, holds after a
run with any moves; and a run that ends with a result satisfies the postcondition. -/
theorem wp_run [Inhabited F] (die : S → L → S × L) {I : S → L → Prop}
    (hrefl : ∀ l s, C.rely l s s)
    (hkeep : ∀ s l s' l', C.guar s l s' l' → I s l → I s' l')
    (hdie : ∀ s l, I s l → I (die s l).1 (die s l).2)
    {p : Prog F S L E α} {Q : Except E α → S → L → Prop} {s : S} {l : L} (h : wp C p Q s l)
    (hI : I s l) (moves : List (Move F)) :
    I (p.run die moves s l).shared (p.run die moves s l).loc ∧
      ∀ r, (p.run die moves s l).result = some r →
        Q r (p.run die moves s l).shared (p.run die moves s l).loc := by
  induction p generalizing s l moves with
  | done r =>
    refine ⟨hI, ?_⟩
    intro r' hr
    cases hr
    exact h
  | step a k ih =>
    cases moves with
    | nil =>
      obtain ⟨hg, hk⟩ := h s (hrefl l s) default
      exact ih _ hk (hkeep _ _ _ _ hg hI) []
    | cons m moves =>
      cases m with
      | go f =>
        obtain ⟨hg, hk⟩ := h s (hrefl l s) f
        exact ih _ hk (hkeep _ _ _ _ hg hI) moves
      | crash => exact ⟨hdie s l hI, nofun⟩

end

end Logic
