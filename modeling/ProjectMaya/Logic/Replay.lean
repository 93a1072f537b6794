import ProjectMaya.Logic.Tolerance

/-! # Runs of an abstract machine, and hosts that follow one

`Replays step x es y` is a run from `x` to `y` with the events `es`.  If every turn of any
number of hosts leaves the abstract state alone or takes one step of it (`Follows`), then
every run of the hosts, in any order of their turns, is followed by a run of the machine,
whose events belong to calls that were started (`Cooperate.run_replays`). -/

namespace Logic

inductive Replays {σ ε : Type} (step : σ → ε → σ → Prop) : σ → List ε → σ → Prop
  | nil (x : σ) : Replays step x [] x
  | cons {x y z : σ} {e : ε} {es : List ε} : step x e y → Replays step y es z →
      Replays step x (e :: es) z

namespace Replays

variable {σ ε : Type} {step : σ → ε → σ → Prop} {x y : σ} {es : List ε}

/-- What each step keeps, a run keeps. -/
theorem keeps {I : σ → Prop} (hI : ∀ x e y, step x e y → I x → I y) (h : Replays step x es y) (hx : I x) :
    I y := by
  induction h with
  | nil => exact hx
  | cons hstep _ ih => exact ih (hI _ _ _ hstep hx)

/-- What each step adds to a list, a run adds to it. -/
theorem collects {β : Type} {f : σ → List β} {g : ε → β}
    (hf : ∀ x e y, step x e y → f y = f x ++ [g e]) (h : Replays step x es y) : f y = f x ++ es.map g := by
  induction h with
  | nil => simp
  | cons hstep _ ih => rw [ih, hf _ _ _ hstep, List.map_cons, List.append_assoc]; rfl

end Replays

section

variable {F S L E A R : Type} {sys : System F S L E A R}

/-- One turn leaves the abstract state alone, or takes a step whose event is one of the
host's call. -/
structure Follows {σ ε : Type} (C : Cooperate sys) (step : σ → ε → σ → Prop)
    (Sim : Config F S L E A R → σ → Prop) (calls : A → ε → Prop) : Prop where
  turn : ∀ c t rest x, C.Good c (t :: rest) → Sim c x → Sim (sys.turn c t) x ∨
    ∃ e y a k, step x e y ∧ Sim (sys.turn c t) y ∧ (c.host t.host).running = some (a, k) ∧ calls a e

/-- **Any run** is followed by a run of the abstract machine. -/
theorem Cooperate.run_replays {σ ε : Type} {C : Cooperate sys} {step : σ → ε → σ → Prop}
    {Sim : Config F S L E A R → σ → Prop} {calls : A → ε → Prop} (hfollows : Follows C step Sim calls)
    {c : Config F S L E A R} {turns : List (Turn F A)} {x : σ} (hgood : C.Good c turns) (hsim : Sim c x) :
    ∃ es y, Replays step x es y ∧ Sim (sys.run c turns) y ∧ ∀ e ∈ es, ∃ a, calls a e ∧
      (a ∈ starts turns ∨ ∃ p k, (c.host p).running = some (a, k)) := by
  induction turns generalizing c x with
  | nil => exact ⟨[], x, .nil x, hsim, nofun⟩
  | cons t turns ih =>
    have hnext := (C.good_turn hgood).1
    have hcalls : ∀ {e : ε}, (∃ a, calls a e ∧ (a ∈ starts turns ∨
        ∃ p k, ((sys.turn c t).host p).running = some (a, k))) →
        ∃ a, calls a e ∧ (a ∈ starts (t :: turns) ∨ ∃ p k, (c.host p).running = some (a, k)) := by
      rintro e ⟨a, ha, hstarted | ⟨p, k, hrun⟩⟩
      · exact ⟨a, ha, .inl (mem_starts_cons hstarted)⟩
      · rcases sys.running_turn hrun with ⟨k', hrun⟩ | rfl
        · exact ⟨a, ha, .inr ⟨p, k', hrun⟩⟩
        · exact ⟨a, ha, .inl List.mem_cons_self⟩
    rcases hfollows.turn c t turns x hgood hsim with hsame | ⟨e, y, a, k, hstep, hy, hrun, hae⟩
    · obtain ⟨es, z, hrun, hz, hes⟩ := ih hnext hsame
      exact ⟨es, z, hrun, hz, fun e he => hcalls (hes e he)⟩
    · obtain ⟨es, z, hreplay, hz, hes⟩ := ih hnext hy
      refine ⟨e :: es, z, .cons hstep hreplay, hz, fun e' he' => ?_⟩
      rcases List.mem_cons.mp he' with rfl | he'
      · exact ⟨a, hae, .inr ⟨t.host, k, hrun⟩⟩
      · exact hcalls (hes e' he')

end

end Logic
