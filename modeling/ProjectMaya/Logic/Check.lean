/-! # Checks that end in a value or an error

A check is a computation in `Except` made of `ensure` (a condition or an error) and `fetch`
(a value that is there or an error).  The simp lemmas say what must hold when it ends in a
value, so that `simp only [bind_eq_ok, …]` reads a whole check back. -/

namespace Logic

/-- Membership in a list of texts is decided by one instance. -/
instance lawfulChars : LawfulBEq (List Char) := inferInstance

variable {ε α β : Type}

/-- `if not c: raise e`. -/
def ensure (c : Prop) [Decidable c] (e : ε) : Except ε Unit := if c then .ok () else .error e

/-- `if x is None: raise e`. -/
def fetch (x : Option α) (e : ε) : Except ε α :=
  match x with
  | some a => .ok a
  | none => .error e

@[simp] theorem bind_eq_ok {x : Except ε α} {f : α → Except ε β} {b : β} :
    x >>= f = .ok b ↔ ∃ a, x = .ok a ∧ f a = .ok b := by
  cases x with
  | error e => simp [bind, Except.bind]
  | ok a => simp [bind, Except.bind]

@[simp] theorem pure_eq_ok {a b : α} : (pure a : Except ε α) = .ok b ↔ a = b := by
  simp [pure, Except.pure]

@[simp] theorem ensure_eq_ok {c : Prop} [Decidable c] {e : ε} {u : Unit} :
    ensure c e = .ok u ↔ c := by
  unfold ensure
  split <;> simp_all

theorem ensure_pos {c : Prop} [Decidable c] {e : ε} (h : c) : ensure c e = .ok () := if_pos h

theorem ensure_neg {c : Prop} [Decidable c] {e : ε} (h : ¬ c) : ensure c e = .error e := if_neg h

theorem fetch_some {a : α} {e : ε} : fetch (some a) e = .ok a := rfl

theorem fetch_none {e : ε} : fetch (none : Option α) e = .error e := rfl

@[simp] theorem fetch_eq_ok {x : Option α} {e : ε} {a : α} : fetch x e = .ok a ↔ x = some a := by
  cases x <;> simp [fetch]

@[simp] theorem ok_bind {a : α} {f : α → Except ε β} : ((.ok a : Except ε α) >>= f) = f a := rfl

@[simp] theorem error_bind {e : ε} {f : α → Except ε β} :
    ((.error e : Except ε α) >>= f) = .error e := rfl

theorem map_eq_ok {x : Except ε α} {f : α → β} {b : β} :
    f <$> x = .ok b ↔ ∃ a, x = .ok a ∧ f a = b := by
  cases x with
  | error e =>
    refine ⟨fun h => (by cases h), fun h => ?_⟩
    obtain ⟨_, h, -⟩ := h
    cases h
  | ok a =>
    refine ⟨fun h => ⟨a, rfl, Except.ok.inj h⟩, fun h => ?_⟩
    obtain ⟨_, h, rfl⟩ := h
    cases h
    rfl

theorem mapError_eq_ok {ε' : Type} {f : ε → ε'} {x : Except ε α} {a : α} :
    x.mapError f = .ok a ↔ x = .ok a := by
  cases x with
  | error e => exact ⟨fun h => (by cases h), fun h => (by cases h)⟩
  | ok b =>
    show (Except.ok b : Except ε' α) = .ok a ↔ _
    rw [Except.ok.injEq, Except.ok.injEq]

/-- Checking every item of a list gives an item for each. -/
theorem mapM_eq_ok {f : α → Except ε β} {g : α → β} :
    ∀ {l : List α} {bs : List β}, (∀ a ∈ l, ∀ b, f a = .ok b → b = g a) → l.mapM f = .ok bs →
      bs = l.map g ∧ ∀ a ∈ l, f a = .ok (g a)
  | [], bs, _, h => by simp_all
  | a :: l, bs, hg, h => by
    simp only [List.mapM_cons, bind_eq_ok, pure_eq_ok] at h
    obtain ⟨b, hb, bs', hbs, rfl⟩ := h
    have hba : b = g a := hg a List.mem_cons_self b hb
    obtain ⟨rfl, ih⟩ := mapM_eq_ok (fun x hx => hg x (List.mem_cons_of_mem a hx)) hbs
    subst hba
    exact ⟨rfl, List.forall_mem_cons.2 ⟨hb, ih⟩⟩

theorem mapM_ok {f : α → Except ε β} {g : α → β} :
    ∀ {l : List α}, (∀ a ∈ l, f a = .ok (g a)) → l.mapM f = .ok (l.map g)
  | [], _ => rfl
  | a :: l, h => by
    obtain ⟨ha, hl⟩ := List.forall_mem_cons.1 h
    simp only [List.mapM_cons, bind_eq_ok, pure_eq_ok]
    exact ⟨g a, ha, l.map g, mapM_ok hl, rfl⟩

theorem mem_mapM {f : α → Except ε β} :
    ∀ {l : List α} {bs : List β} {b : β}, l.mapM f = .ok bs → b ∈ bs → ∃ a ∈ l, f a = .ok b
  | [], bs, b, h, hb => by simp_all
  | a :: l, bs, b, h, hb => by
    simp only [List.mapM_cons, bind_eq_ok, pure_eq_ok] at h
    obtain ⟨b', hb', bs', hbs, rfl⟩ := h
    rcases List.mem_cons.1 hb with rfl | hb
    · exact ⟨a, List.mem_cons_self, hb'⟩
    · obtain ⟨x, hx, hfx⟩ := mem_mapM hbs hb
      exact ⟨x, List.mem_cons_of_mem a hx, hfx⟩

theorem mapM_mem {f : α → Except ε β} :
    ∀ {l : List α} {bs : List β}, l.mapM f = .ok bs → ∀ a ∈ l, ∃ b, f a = .ok b
  | [], _, _ => nofun
  | a :: l, bs, h => by
    simp only [List.mapM_cons, bind_eq_ok, pure_eq_ok] at h
    obtain ⟨b, hb, bs', hbs, rfl⟩ := h
    exact List.forall_mem_cons.2 ⟨⟨b, hb⟩, mapM_mem hbs⟩

theorem length_mapM {f : α → Except ε β} :
    ∀ {l : List α} {bs : List β}, l.mapM f = .ok bs → bs.length = l.length
  | [], bs, h => by
    cases h
    rfl
  | a :: l, bs, h => by
    simp only [List.mapM_cons, bind_eq_ok, pure_eq_ok] at h
    obtain ⟨b, -, bs', hbs, rfl⟩ := h
    rw [List.length_cons, List.length_cons, length_mapM hbs]

/-- A check of every item passes when each of them does. -/
theorem forM_eq_ok {f : α → Except ε PUnit} {l : List α} {u : PUnit} :
    l.forM f = .ok u ↔ ∀ a ∈ l, f a = .ok () := by
  induction l with
  | nil =>
    exact ⟨fun _ => nofun, fun _ => rfl⟩
  | cons a l ih =>
    show (f a >>= fun _ => l.forM f) = .ok u ↔ _
    rw [bind_eq_ok, List.forall_mem_cons, ← ih]
    constructor
    · rintro ⟨u, ha, hl⟩
      exact ⟨ha, hl⟩
    · rintro ⟨ha, hl⟩
      exact ⟨_, ha, hl⟩

theorem mapM_eq_some (f : α → Option β) (p : α → Prop) (g : α → β)
    (h : ∀ a b, f a = some b ↔ p a ∧ b = g a) (l : List α) (bs : List β) :
    l.mapM f = some bs ↔ (∀ a ∈ l, p a) ∧ bs = l.map g := by
  induction l generalizing bs with
  | nil =>
    rw [List.mapM_nil]
    constructor
    · intro hb
      cases hb
      exact ⟨nofun, rfl⟩
    · rintro ⟨-, rfl⟩
      rfl
  | cons a l ih =>
    rw [List.mapM_cons, List.forall_mem_cons]
    constructor
    · intro hmap
      obtain ⟨b, hb, hrest⟩ := Option.bind_eq_some_iff.mp hmap
      obtain ⟨bs', hbs, hrest⟩ := Option.bind_eq_some_iff.mp hrest
      cases hrest
      obtain ⟨hok, rfl⟩ := (h a b).mp hb
      obtain ⟨hall, rfl⟩ := (ih bs').mp hbs
      exact ⟨⟨hok, hall⟩, rfl⟩
    · rintro ⟨⟨hok, hall⟩, rfl⟩
      have ha := (h a _).mpr ⟨hok, rfl⟩
      have hl := (ih _).mpr ⟨hall, rfl⟩
      rw [ha, hl]
      rfl

theorem filterAuxM_ok {f : α → Except ε Bool} {p : α → Bool} :
    ∀ {l acc : List α}, (∀ a ∈ l, f a = .ok (p a)) →
      l.filterAuxM f acc = .ok ((l.filter p).reverse ++ acc)
  | [], acc, _ => rfl
  | a :: l, acc, h => by
    obtain ⟨ha, hl⟩ := List.forall_mem_cons.1 h
    simp only [List.filterAuxM, bind_eq_ok]
    refine ⟨p a, ha, ?_⟩
    rw [filterAuxM_ok hl]
    cases hp : p a <;> simp [hp]

theorem filterM_ok {f : α → Except ε Bool} {p : α → Bool} {l : List α}
    (h : ∀ a ∈ l, f a = .ok (p a)) : l.filterM f = .ok (l.filter p) := by
  simp only [List.filterM, bind_eq_ok, pure_eq_ok]
  exact ⟨_, filterAuxM_ok h, by simp⟩

theorem filterAuxM_eq_ok {f : α → Except ε Bool} {p : α → Bool} :
    ∀ {l acc bs : List α}, (∀ a ∈ l, ∀ b, f a = .ok b → b = p a) → l.filterAuxM f acc = .ok bs →
      ∀ a ∈ l, f a = .ok (p a)
  | [], _, _, _, _ => nofun
  | a :: l, acc, bs, hp, h => by
    simp only [List.filterAuxM, bind_eq_ok] at h
    obtain ⟨b, hb, hrest⟩ := h
    obtain rfl := hp a List.mem_cons_self b hb
    exact List.forall_mem_cons.2
      ⟨hb, filterAuxM_eq_ok (fun x hx => hp x (List.mem_cons_of_mem a hx)) hrest⟩

theorem filterM_eq_ok {f : α → Except ε Bool} {p : α → Bool} {l bs : List α}
    (hp : ∀ a ∈ l, ∀ b, f a = .ok b → b = p a) (h : l.filterM f = .ok bs) :
    bs = l.filter p ∧ ∀ a ∈ l, f a = .ok (p a) := by
  have hall : ∀ a ∈ l, f a = .ok (p a) := by
    simp only [List.filterM, bind_eq_ok] at h
    obtain ⟨_, haux, -⟩ := h
    exact filterAuxM_eq_ok hp haux
  rw [filterM_ok hall] at h
  exact ⟨(Except.ok.inj h).symm, hall⟩

end Logic
