import Mathlib.Data.List.Induction
import ProjectMaya.Logic.Tolerance

/-! # One host among the others

What a contract says of one call in a run of many hosts.  The contract may be chosen for
the run at hand: what the other hosts did during the call only has to be something that it
tolerates (`Meets.run`).

A host that runs a call has once started it and was busy with it ever since
(`System.began`), so that the local state of an idle host is what its calls have left, one
after the other, since it last crashed (`System.idle_keeps`). -/

namespace Logic

variable {F S L E A R : Type} {sys : System F S L E A R}

/-- The host runs `a`, and meets the contract from here on. -/
def Meets (D : Contract S L) (Q : Except E R → S → L → Prop) (p : Nat) (a : A)
    (c : Config F S L E A R) : Prop :=
  ∃ prog, (c.host p).running = some (a, prog) ∧ wp D prog Q c.shared (c.host p).loc

namespace System

variable (sys)

/-- A turn that starts a call at an idle host. -/
theorem host_start {c : Config F S L E A R} {p : Nat} {a : A} (h : (c.host p).running = none) :
    (sys.turn c (.start p a)).host p = ⟨sys.enter (c.host p).loc, some (a, sys.prog a)⟩ ∧
      (sys.turn c (.start p a)).shared = c.shared := by
  simp only [turn, h]
  exact ⟨Config.host_set_self _ _ _ _, rfl⟩

/-- A host that nothing disturbs brings its program to the end. -/
theorem exists_run_calm [Inhabited F] {p : Nat} {a : A} {prog : Prog F S L E R} {c : Config F S L E A R}
    (h : (c.host p).running = some (a, prog)) :
    ∃ n, (sys.run c (List.replicate n (.act p default))).shared = (prog.calm c.shared (c.host p).loc).2.1 ∧
      (sys.run c (List.replicate n (.act p default))).host p =
        ⟨(prog.calm c.shared (c.host p).loc).2.2,
          some (a, .done (prog.calm c.shared (c.host p).loc).1)⟩ := by
  induction prog generalizing c with
  | done r =>
    refine ⟨0, rfl, ?_⟩
    show c.host p = ⟨(c.host p).loc, some (a, .done r)⟩
    rw [← h]
  | step act k ih =>
    have hturn : sys.turn c (.act p default) = c.set p (act.next default c.shared (c.host p).loc).2.1
        ⟨(act.next default c.shared (c.host p).loc).2.2,
          some (a, k (act.next default c.shared (c.host p).loc).1)⟩ := by
      simp only [turn, h]
    obtain ⟨n, hshared, hhost⟩ := ih (act.next default c.shared (c.host p).loc).1
      (c := sys.turn c (.act p default)) (by rw [hturn, Config.host_set_self])
    refine ⟨n + 1, ?_, ?_⟩ <;> rw [List.replicate_succ, run_cons]
    · rw [hshared, hturn, Config.host_set_self, Config.shared_set]
      rfl
    · rw [hhost, hturn, Config.host_set_self, Config.shared_set]
      rfl

theorem host_refused {c : Config F S L E A R} {p : Nat} {a : A} (h : (c.host p).running.isSome) :
    sys.turn c (.start p a) = c := by
  obtain ⟨x, hx⟩ := Option.isSome_iff_exists.mp h
  simp only [turn, hx]

end System

namespace Meets

variable {D : Contract S L} {Q : Except E R → S → L → Prop} {p : Nat} {a : A}
  {c : Config F S L E A R} {t : Turn F A} {turns : List (Turn F A)}

theorem start (hidle : (c.host p).running = none)
    (h : wp D (sys.prog a) Q c.shared (sys.enter (c.host p).loc)) :
    Meets D Q p a (sys.turn c (.start p a)) := by
  obtain ⟨hhost, hshared⟩ := sys.host_start (a := a) hidle
  exact ⟨sys.prog a, by rw [hhost], by rw [hhost, hshared]; exact h⟩

/-- One turn after which the call still runs. -/
theorem turn (hrefl : ∀ l s, D.rely l s s)
    (htrans : ∀ l s s' s'', D.rely l s s' → D.rely l s' s'' → D.rely l s s'')
    (hstable : ∀ r s s' l, Q r s l → D.rely l s s' → Q r s' l) (h : Meets D Q p a c)
    (hrely : t.host ≠ p → D.rely (c.host p).loc c.shared (sys.turn c t).shared)
    (hbusy : ((sys.turn c t).host p).running.isSome) : Meets D Q p a (sys.turn c t) := by
  obtain ⟨prog, hrun, hwp⟩ := h
  by_cases hp : t.host = p
  · cases t with
    | start q b =>
      have hq : q = p := hp
      subst hq
      rw [sys.host_refused (by rw [hrun]; rfl)]
      exact ⟨prog, hrun, hwp⟩
    | crash q =>
      have hq : q = p := hp
      subst hq
      have hnone : ((sys.turn c (.crash q)).host q).running = none := by
        show ((c.set q _ _).host q).running = none
        rw [Config.host_set_self]
      rw [hnone] at hbusy
      cases hbusy
    | act q f =>
      have hq : q = p := hp
      subst hq
      cases prog with
      | done r =>
        have hnone : ((sys.turn c (.act q f)).host q).running = none := by
          simp only [System.turn, hrun]
          rw [Config.host_set_self]
        rw [hnone] at hbusy
        cases hbusy
      | step act k =>
        obtain ⟨-, hk⟩ := hwp c.shared (hrefl _ _) f
        simp only [System.turn, hrun]
        refine ⟨k (act.next f c.shared (c.host q).loc).1, by rw [Config.host_set_self], ?_⟩
        rw [Config.host_set_self, Config.shared_set]
        exact hk
  · have hhost := sys.host_turn_ne c (Ne.symm hp)
    refine ⟨prog, by rw [hhost, hrun], ?_⟩
    rw [hhost]
    exact wp_stable (htrans) hstable hwp (hrely hp)

/-- **A call in a run.**  While it runs, and as long as its contract tolerates what the other
hosts do, it meets the contract. -/
theorem run (hrefl : ∀ l s, D.rely l s s)
    (htrans : ∀ l s s' s'', D.rely l s s' → D.rely l s' s'' → D.rely l s s'')
    (hstable : ∀ r s s' l, Q r s l → D.rely l s s' → Q r s' l) (h : Meets D Q p a c)
    (hrely : ∀ pre t post, turns = pre ++ t :: post → t.host ≠ p →
      D.rely ((sys.run c pre).host p).loc (sys.run c pre).shared (sys.run c (pre ++ [t])).shared)
    (hbusy : ∀ pre post, turns = pre ++ post → ((sys.run c pre).host p).running.isSome) :
    Meets D Q p a (sys.run c turns) := by
  induction turns generalizing c with
  | nil => exact h
  | cons t turns ih =>
    refine ih (h.turn hrefl htrans hstable (hrely [] t turns rfl) (hbusy [t] turns rfl)) ?_ ?_
    · intro pre u post heq hu
      exact hrely (t :: pre) u post (by rw [heq]; rfl) hu
    · intro pre post heq
      exact hbusy (t :: pre) post (by rw [heq]; rfl)

/-- What an ended call has reached. -/
theorem ends (h : Meets D Q p a c) {b : A} {r : Except E R}
    (hdone : (c.host p).running = some (b, .done r)) : b = a ∧ Q r c.shared (c.host p).loc := by
  obtain ⟨prog, hrun, hwp⟩ := h
  cases hdone.symm.trans hrun
  exact ⟨rfl, hwp⟩

end Meets

/-! ## The history of a host -/

namespace System

variable (sys : System F S L E A R)

/-- Host `p` has started `a` after `before`, and is busy with it throughout `during`. -/
structure Busy (c : Config F S L E A R) (before during : List (Turn F A)) (p : Nat) (a : A) : Prop where
  idle : ((sys.run c before).host p).running = none
  busy : ∀ pre post, during = pre ++ post →
    ((sys.run c (before ++ .start p a :: pre)).host p).running.isSome

/-- Host `p` has seen `a` end with `r`, and has not crashed since. -/
def Ended (c : Config F S L E A R) (turns : List (Turn F A)) (p : Nat) (a : A) (r : Except E R) : Prop :=
  ∃ before f after, turns = before ++ .act p f :: after ∧
    ((sys.run c before).host p).running = some (a, .done r) ∧ ∀ t ∈ after, t ≠ .crash p

variable {sys} {c : Config F S L E A R} {before during turns : List (Turn F A)} {p : Nat} {a : A}
  {r : Except E R}

theorem run_snoc (c : Config F S L E A R) (turns : List (Turn F A)) (t : Turn F A) :
    sys.run c (turns ++ [t]) = sys.turn (sys.run c turns) t := sys.run_append c turns [t]

/-- A host that runs a call has started it. -/
theorem began {prog : Prog F S L E R} (hidle : (c.host p).running = none)
    (h : ((sys.run c turns).host p).running = some (a, prog)) :
    ∃ before during, turns = before ++ .start p a :: during ∧ sys.Busy c before during p a := by
  induction turns using List.reverseRecOn generalizing prog with
  | nil => cases hidle.symm.trans h
  | append_singleton turns t ih =>
    have hextend : ∀ {k}, ((sys.run c turns).host p).running = some (a, k) →
        ∃ before during, turns ++ [t] = before ++ .start p a :: during ∧ sys.Busy c before during p a := by
      intro k hk
      obtain ⟨before, during, rfl, hbusy⟩ := ih hk
      refine ⟨before, during ++ [t], by simp, hbusy.idle, fun pre post heq => ?_⟩
      rcases List.append_eq_append_iff.mp heq with ⟨mid, rfl, hmid⟩ | ⟨mid, rfl, -⟩
      · cases mid with
        | nil =>
          rw [List.append_nil]
          exact hbusy.busy _ [] (List.append_nil _).symm
        | cons u mid =>
          obtain ⟨rfl, hnil⟩ := List.cons.inj hmid
          rw [(List.append_eq_nil_iff.mp hnil.symm).1]
          rw [List.append_assoc] at h
          exact Option.isSome_iff_exists.mpr ⟨_, h⟩
      · exact hbusy.busy pre mid rfl
    rw [run_snoc] at h
    rcases sys.running_turn h with ⟨k, hk⟩ | rfl
    · exact hextend hk
    · cases hrun : ((sys.run c turns).host p).running with
      | none =>
        refine ⟨turns, [], rfl, hrun, fun pre post heq => ?_⟩
        obtain ⟨rfl, rfl⟩ := List.append_eq_nil_iff.mp heq.symm
        rw [run_snoc, (sys.host_start hrun).1]
        rfl
      | some x =>
        rw [sys.host_refused (by rw [hrun]; rfl)] at h
        exact hextend h

namespace Busy

/-- The host of a call that runs does not crash. -/
theorem alive (h : sys.Busy c before during p a) : ∀ t ∈ during, t ≠ .crash p := by
  rintro _ ht rfl
  obtain ⟨pre, post, rfl⟩ := List.append_of_mem ht
  have hbusy := h.busy (pre ++ [.crash p]) post (by simp)
  have hsplit : before ++ .start p a :: (pre ++ [.crash p]) = (before ++ .start p a :: pre) ++ [.crash p] := by
    simp
  rw [hsplit, run_snoc] at hbusy
  have hnone : ((sys.turn (sys.run c (before ++ .start p a :: pre)) (.crash p)).host p).running = none := by
    show ((Config.set _ p _ _).host p).running = none
    rw [Config.host_set_self]
  rw [hnone] at hbusy
  cases hbusy

/-- A call of a host that is idle after `past` has started later. -/
theorem later {past : List (Turn F A)} (h : sys.Busy c before during p a)
    (hidle : ((sys.run c past).host p).running = none)
    (hsplit : past ++ turns = before ++ .start p a :: during) :
    ∃ mid, before = past ++ mid ∧ turns = mid ++ .start p a :: during := by
  rcases List.append_eq_append_iff.mp hsplit with ⟨mid, rfl, hturns⟩ | ⟨mid, rfl, hmid⟩
  · exact ⟨mid, rfl, hturns⟩
  · cases mid with
    | nil => exact ⟨[], by simp, hmid.symm⟩
    | cons t mid =>
      obtain ⟨rfl, hduring⟩ := List.cons.inj hmid
      have hbusy := h.busy mid turns hduring
      rw [hidle] at hbusy
      cases hbusy

/-- **A call from its start.**  It meets a contract that tolerates what the others have done. -/
theorem meets {D : Contract S L} {Q : Except E R → S → L → Prop} (h : sys.Busy c before during p a)
    (hrefl : ∀ l s, D.rely l s s)
    (htrans : ∀ l s s' s'', D.rely l s s' → D.rely l s' s'' → D.rely l s s'')
    (hstable : ∀ r s s' l, Q r s l → D.rely l s s' → Q r s' l)
    (henter : wp D (sys.prog a) Q (sys.run c before).shared (sys.enter ((sys.run c before).host p).loc))
    (hrely : ∀ pre t post, during = pre ++ t :: post → t.host ≠ p →
      D.rely ((sys.run c (before ++ .start p a :: pre)).host p).loc
        (sys.run c (before ++ .start p a :: pre)).shared
        (sys.turn (sys.run c (before ++ .start p a :: pre)) t).shared) :
    Meets D Q p a (sys.run c (before ++ .start p a :: during)) := by
  have hrun : ∀ us, sys.run c (before ++ .start p a :: us) =
      sys.run (sys.turn (sys.run c before) (.start p a)) us := by
    intro us
    rw [sys.run_append, System.run_cons]
  rw [hrun]
  refine (Meets.start h.idle henter).run hrefl htrans hstable ?_ ?_
  · intro pre t post heq hne
    have hstep := hrely pre t post heq hne
    rw [hrun] at hstep
    rwa [run_snoc]
  · intro pre post heq
    rw [← hrun]
    exact h.busy pre post heq

/-- It is the call that runs. -/
theorem runs (h : sys.Busy c before during p a) :
    ∃ prog, ((sys.run c (before ++ .start p a :: during)).host p).running = some (a, prog) := by
  have htrue : ∀ (prog : Prog F S L E R) (s : S) (l : L),
      wp ⟨fun _ _ _ => True, fun _ _ _ _ => True⟩ prog (fun _ _ _ => True) s l := by
    intro prog
    induction prog with
    | done r => exact fun _ _ => trivial
    | step act k ih => exact fun _ _ _ _ _ => ⟨trivial, ih _ _ _⟩
  obtain ⟨prog, hrun, -⟩ := h.meets (fun _ _ => trivial) (fun _ _ _ _ _ _ => trivial)
    (fun _ _ _ _ _ _ => trivial) (htrue _ _ _) fun _ _ _ _ _ => trivial
  exact ⟨prog, hrun⟩

/-- What a call leaves alone of its local state stays as it was before the call. -/
theorem same {β : Type} {C : Cooperate sys} {f : L → β} (h : sys.Busy c before during p a)
    (hgood : C.Good c (before ++ .start p a :: during)) (henter : ∀ l, f (sys.enter l) = f l)
    (hguar : ∀ s l s' l', (C.contract a).guar s l s' l' → f l' = f l) :
    f ((sys.run c (before ++ .start p a :: during)).host p).loc = f ((sys.run c before).host p).loc := by
  induction during using List.reverseRecOn with
  | nil => rw [run_snoc, (sys.host_start h.idle).1, henter]
  | append_singleton during t ih =>
    have hsplit : before ++ .start p a :: (during ++ [t]) = (before ++ .start p a :: during) ++ [t] := by simp
    have hshort : sys.Busy c before during p a := ⟨h.idle, fun pre post heq =>
      h.busy pre (post ++ [t]) (by rw [heq, List.append_assoc])⟩
    rw [hsplit] at hgood ⊢
    have ih := ih hshort (C.good_cut hgood)
    rw [run_snoc]
    by_cases hp : t.host = p
    · obtain ⟨prog, hrun⟩ := hshort.runs
      cases t with
      | start q b =>
        have hq : q = p := hp
        subst hq
        rwa [sys.host_refused (by rw [hrun]; rfl)]
      | crash q =>
        have hq : q = p := hp
        subst hq
        exact absurd rfl (h.alive (.crash q) (by simp))
      | act q f' =>
        have hq : q = p := hp
        subst hq
        have heffect := (C.good_turn (C.good_run hgood)).2
        generalize sys.turn _ (.act q f') = c' at heffect ⊢
        cases heffect with
        | idle => exact ih
        | acted hrun' hg =>
          cases hrun.symm.trans hrun'
          exact (hguar _ _ _ _ hg).trans ih
        | ended _ _ _ hloc => rw [hloc, ih]
    · rwa [sys.host_turn_ne _ (Ne.symm hp)]

end Busy

theorem Ended.snoc {t : Turn F A} (h : sys.Ended c turns p a r) (ht : t ≠ .crash p) :
    sys.Ended c (turns ++ [t]) p a r := by
  obtain ⟨before, f, after, rfl, hdone, halive⟩ := h
  refine ⟨before, f, after ++ [t], by simp, hdone, fun u hu => ?_⟩
  rcases List.mem_append.mp hu with hu | hu
  · exact halive u hu
  · rw [List.mem_singleton.mp hu]
    exact ht

theorem Ended.append {more : List (Turn F A)} (h : sys.Ended c turns p a r)
    (hmore : ∀ t ∈ more, t ≠ .crash p) : sys.Ended c (turns ++ more) p a r := by
  induction more generalizing turns with
  | nil => rwa [List.append_nil]
  | cons t more ih =>
    rw [List.append_cons]
    exact ih (h.snoc (hmore t List.mem_cons_self)) fun u hu => hmore u (List.mem_cons_of_mem t hu)

/-- **The local state of an idle host.**  What a call that ends keeps, what a crash leaves, and
what time does not take back holds whenever the host is idle. -/
theorem idle_keeps {P : List (Turn F A) → L → Prop} (hidle : (c.host p).running = none)
    (hstart : P [] (c.host p).loc)
    (hmore : ∀ turns t l, t ≠ .crash p → P turns l → P (turns ++ [t]) l)
    (hcrash : ∀ turns, P (turns ++ [.crash p])
      (sys.die (sys.run c turns).shared ((sys.run c turns).host p).loc).2)
    (hcall : ∀ before during a r f, sys.Busy c before during p a →
      ((sys.run c (before ++ .start p a :: during)).host p).running = some (a, .done r) →
      P before ((sys.run c before).host p).loc →
      P (before ++ .start p a :: during ++ [.act p f])
        ((sys.run c (before ++ .start p a :: during)).host p).loc)
    (turns : List (Turn F A)) (h : ((sys.run c turns).host p).running = none) :
    P turns ((sys.run c turns).host p).loc := by
  induction hn : turns.length using Nat.strongRecOn generalizing turns with
  | _ n ih =>
    rcases List.eq_nil_or_concat turns with rfl | ⟨turns, t, rfl⟩
    · exact hstart
    rw [List.concat_eq_append] at h hn ⊢
    rw [List.length_append, List.length_singleton] at hn
    rw [run_snoc] at h ⊢
    have hkeep : t ≠ .crash p → ((sys.run c turns).host p).running = none →
        P (turns ++ [t]) ((sys.run c turns).host p).loc := fun ht hrun =>
      hmore turns t _ ht (ih _ (by omega) turns hrun rfl)
    by_cases hp : t.host = p
    · cases t with
      | crash q =>
        have hq : q = p := hp
        subst hq
        show P _ ((Config.set _ q _ _).host q).loc
        rw [Config.host_set_self]
        exact hcrash turns
      | start q a =>
        have hq : q = p := hp
        subst hq
        cases hrun : ((sys.run c turns).host q).running with
        | some x =>
          rw [sys.host_refused (by rw [hrun]; rfl)] at h
          cases hrun.symm.trans h
        | none =>
          rw [(sys.host_start hrun).1] at h
          cases h
      | act q f =>
        have hq : q = p := hp
        subst hq
        cases hrun : ((sys.run c turns).host q).running with
        | none =>
          simp only [System.turn, hrun]
          exact hkeep (by simp) hrun
        | some x =>
          obtain ⟨a, prog⟩ := x
          cases prog with
          | step act k =>
            simp only [System.turn, hrun, Config.host_set_self] at h
            cases h
          | done r =>
            simp only [System.turn, hrun, Config.host_set_self]
            obtain ⟨before, during, rfl, hbusy⟩ := began hidle hrun
            refine hcall before during a r f hbusy hrun (ih _ ?_ before hbusy.idle rfl)
            simp only [List.length_append, List.length_cons] at hn
            omega
    · rw [sys.host_turn_ne _ (Ne.symm hp)] at h ⊢
      refine hkeep (fun ht => hp ?_) h
      rw [ht]
      rfl

end System

end Logic
