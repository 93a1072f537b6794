import ProjectMaya.HermesAdapter

/-! # A start that fails

`Agent.start` answers a failure with the runtime's `stop`.  The adapter keeps the native runtime
that it has built in a local variable until that has started, so a `stop` before then does not
reach it.  Every native runtime that a failed start has built was stopped exactly when no call of
the installation raised an `Exception`, or the native runtime has no `stop`
(`rolled_back_iff`). -/

namespace ProjectMaya.Facade

open Logic

section

variable {O : Type}

/-! ## What the environment answers -/

/-- A call of a native runtime through the adapter. -/
def Native.respond (n : Native O) (done : List (NativeCall O)) (c : NativeCall O) : Except Exn Unit :=
  if n.has c.attr then (n.answer done c).map fun _ => () else .error c.missing

/-- A list of calls, up to the first failure. -/
def Native.responds (n : Native O) : List (NativeCall O) → List (NativeCall O) → Except Exn Unit
  | _, [] => .ok ()
  | done, c :: calls => do
    n.respond done c
    n.responds (done ++ [c]) calls

theorem Native.responds_append (n : Native O) (done xs ys : List (NativeCall O)) :
    n.responds done (xs ++ ys) = (n.responds done xs >>= fun _ => n.responds (done ++ xs) ys) := by
  induction xs generalizing done with
  | nil =>
    rw [List.append_nil]
    rfl
  | cons c xs ih =>
    show (n.respond done c >>= fun _ => n.responds (done ++ [c]) (xs ++ ys)) =
      ((n.respond done c >>= fun _ => n.responds (done ++ [c]) xs) >>= fun _ =>
        n.responds (done ++ c :: xs) ys)
    rw [ih, List.append_assoc, List.singleton_append]
    cases n.respond done c <;> rfl

/-- What a new native runtime is asked. -/
def installation (memory : List O) (plugins : Plugins O) (agentName : String) : List (NativeCall O) :=
  memory.map .attachMemory ++ (plugins.map fun item => .loadPlugin item.1 item.2) ++ [.start agentName]

/-- The guard, if there is one, passes at its `k`th call. -/
def Passes (w : Environment O) (config : Hermes O) (k : Nat) : Prop :=
  config.startupGuard = true → w.guard k = .ok ()

/-- There is a factory that can be called. -/
def Available (w : Environment O) (config : Hermes O) : Option Factory → Prop
  | some factory => factory.callable = true
  | none =>
    match Hermes.partition config.factoryPath with
    | none => False
    | some (moduleName, attrName) => moduleName ≠ "" ∧ attrName ≠ "" ∧
      match w.importModule moduleName attrName with
      | .ok factory => factory.callable = true
      | .error _ => False

/-- What the factory makes, from its `k`th call on. -/
def made (w : Environment O) (k : Nat) (kwargs : Kwargs O) : Except Exn (Native O) :=
  match w.factory k kwargs with
  | .error (.typeError _) => w.factory (k + 1) (withoutAgentName kwargs)
  | r => r

/-- A start of the adapter builds the native runtime `n`. -/
structure Builds (w : Environment O) (config : Hermes O) (agentName : String) (a : Adapter O)
    (n : Native O) : Prop where
  new : a.runtime = none
  guarded : Passes w config a.guardCalls
  available : Available w config a.factory
  again : Passes w config (a.guardCalls + 1)
  made : ∃ raw, made w a.factoryCalls (withAgentName config.factoryKwargs agentName) = .ok raw ∧
    raw.normalize = n

theorem Builds.unique {w : Environment O} {config : Hermes O} {agentName : String} {a : Adapter O}
    {m n : Native O} (hm : Builds w config agentName a m) (hn : Builds w config agentName a n) : m = n := by
  obtain ⟨raw, hraw, rfl⟩ := hm.made
  obtain ⟨raw', hraw', rfl⟩ := hn.made
  rw [hraw] at hraw'
  cases hraw'
  rfl

/-! ## The adapter -/

section

variable {w : Environment O} {config : Hermes O} {s : Shared O (Adapter O)} {p : Nat} {β : Type}

/-- The guard has been called, if there is one. -/
def guarded (config : Hermes O) (a : Adapter O) : Adapter O :=
  if config.startupGuard then { a with guardCalls := a.guardCalls + 1 } else a

theorem guard_ends {Q : Except Exn Unit → Shared O (Adapter O) → Nat → Prop}
    (hok : Passes w config s.runtime.guardCalls → Q (.ok ()) { s with runtime := guarded config s.runtime } p)
    (herr : ∀ e, ¬ Passes w config s.runtime.guardCalls →
      Q (.error e) { s with runtime := guarded config s.runtime } p) :
    config.guard.Ends w Q s p := by
  unfold Hermes.guard Passes guarded at *
  cases hg : config.startupGuard with
  | false =>
    simp only [hg] at hok ⊢
    exact hok nofun
  | true =>
    simp only [hg, if_true] at hok herr ⊢
    show Q (w.guard s.runtime.guardCalls) _ p
    cases hk : w.guard s.runtime.guardCalls with
    | ok u => exact hok fun _ => hk
    | error e => exact herr e fun h => by simp [hk] at h

/-- The factory is known from here on. -/
def known (f : Factory) (a : Adapter O) : Adapter O := { a with factory := some f }

theorem resolveFactory_ends {Q : Except Exn Factory → Shared O (Adapter O) → Nat → Prop}
    (hok : ∀ f, (f.callable = true ↔ Available w config s.runtime.factory) →
      Q (.ok f) { s with runtime := known f s.runtime } p)
    (herr : ∀ e, ¬ Available w config s.runtime.factory → Q (.error e) s p) :
    config.resolveFactory.Ends w Q s p := by
  unfold Hermes.resolveFactory
  refine Prog.ends_perform_bind ?_ nofun
  rintro _ ⟨⟩
  show Prog.Ends w (match s.runtime.factory with
    | some factory => pure factory
    | none => config.importFactory) Q s p
  cases hf : s.runtime.factory with
  | some f =>
    have h := hok f (by rw [hf]; rfl)
    have hs : known f s.runtime = s.runtime := by
      unfold known
      rw [← hf]
    rw [hs] at h
    exact h
  | none =>
    rw [hf] at hok herr
    show config.importFactory.Ends w Q s p
    unfold Hermes.importFactory
    unfold Available at hok herr
    cases hpath : Hermes.partition config.factoryPath with
    | none =>
      rw [hpath] at herr
      exact herr _ fun h => h
    | some path =>
      obtain ⟨m, x⟩ := path
      simp only [hpath] at hok herr
      refine Prog.ends_raiseIf_bind ?_ fun hne => Prog.ends_perform_bind (fun f hf => ?_) fun e he => ?_
      · rintro (h | h)
        · exact herr _ fun ha => ha.1 h
        · exact herr _ fun ha => ha.2.1 h
      · have hf : w.importModule m x = .ok f := hf
        rw [hf] at hok herr
        refine Prog.ends_raiseIf_bind (fun hc => ?_) fun hc => ?_
        · refine herr _ fun ha => ?_
          rw [ha.2.2] at hc
          cases hc
        · have hc : f.callable = true := by simpa using hc
          exact hok f ⟨fun _ => ⟨(not_or.1 hne).1, (not_or.1 hne).2, hc⟩, fun _ => hc⟩
      · have he : w.importModule m x = .error e := he
        rw [he] at herr
        exact herr e fun ha => ha.2.2

theorem resolved_ends {f : Factory} {Q : Except Exn Factory → Shared O (Adapter O) → Nat → Prop}
    (hf : s.runtime.factory = some f) (h : Q (.ok f) s p) : config.resolveFactory.Ends w Q s p := by
  refine Prog.ends_perform_bind ?_ nofun
  rintro _ ⟨⟩
  show Prog.Ends w (match s.runtime.factory with
    | some factory => pure factory
    | none => config.importFactory) Q s p
  rw [hf]
  exact h

/-- No native runtime was built or recorded. -/
structure Same (a a' : Adapter O) : Prop where
  runtime : a'.runtime = a.runtime
  objects : a'.objects = a.objects

theorem same_guarded (config : Hermes O) (a : Adapter O) : Same a (guarded config a) := by
  unfold guarded
  split <;> exact ⟨rfl, rfl⟩

theorem factory_guarded (a : Adapter O) : (guarded config a).factory = a.factory := by
  unfold guarded
  split <;> rfl

/-- `compatibility` reports that all is well when the guard passes and there is a factory. -/
theorem compatibility_ends {Q : Except Exn RuntimeCompatibility → Shared O (Adapter O) → Nat → Prop}
    (hok : ∀ c f, c.compatible = true → Passes w config s.runtime.guardCalls →
      Available w config s.runtime.factory → f.callable = true →
      Q (.ok c) { s with runtime := known f (guarded config s.runtime) } p)
    (hbad : ∀ r a, (∀ c, r = .ok c → c.compatible = false) →
      ¬ (Passes w config s.runtime.guardCalls ∧ Available w config s.runtime.factory) →
      Same s.runtime a → Q r { s with runtime := a } p) :
    config.compatibility.Ends w Q s p := by
  have hsame := same_guarded config s.runtime
  have hraised : ∀ e a, ¬ (Passes w config s.runtime.guardCalls ∧ Available w config s.runtime.factory) →
      Same s.runtime a → Prog.Ends w (if Exn.isException e then
        pure (config.report false (some ("Hermes runtime factory unavailable: " ++ e.message)))
      else .raise e) Q { s with runtime := a } p := by
    intro e a hno ha
    by_cases he : e.isException
    · rw [if_pos he]
      refine hbad _ a ?_ hno ha
      rintro _ ⟨⟩
      rfl
    · rw [if_neg he]
      exact hbad _ a nofun hno ha
  refine Prog.ends_andThen (Prog.ends_seq (guard_ends (fun hpass => ?_) fun e hpass => ?_))
  · refine resolveFactory_ends (fun f hf => ?_) fun e hno => ?_
    · rw [factory_guarded] at hf
      show Prog.Ends w (if f.callable then pure (config.report true none)
        else pure (config.report false (some "Hermes runtime factory is not callable"))) Q _ p
      by_cases hc : f.callable
      · rw [if_pos hc]
        exact hok _ f rfl hpass (hf.1 hc) hc
      · rw [if_neg hc]
        refine hbad _ _ ?_ (fun h => hc (hf.2 h.2)) ⟨hsame.runtime, hsame.objects⟩
        rintro _ ⟨⟩
        rfl
    · rw [factory_guarded] at hno
      exact hraised e _ (fun h => hno h.2) hsame
  · exact hraised e _ (fun h => hpass h.1) hsame

/-- The factory makes what the environment answers. -/
theorem construct_ends {f : Factory} (hf : f.callable = true) {kwargs : Kwargs O}
    {Q : Except Exn (Native O) → Shared O (Adapter O) → Nat → Prop}
    (h : ∀ k, Q (made w s.runtime.factoryCalls kwargs)
      { s with runtime := { s.runtime with factoryCalls := k } } p) :
    (Hermes.construct f kwargs).Ends w Q s p := by
  have hcall : ∀ (kwargs : Kwargs O) {R : Except Exn (Native O) → Shared O (Adapter O) → Nat → Prop}
      {s : Shared O (Adapter O)}, R (w.factory s.runtime.factoryCalls kwargs)
        { s with runtime := { s.runtime with factoryCalls := s.runtime.factoryCalls + 1 } } p →
      (Hermes.callFactory f kwargs).Ends w R s p := by
    intro kwargs R s h
    refine Prog.ends_raiseIf_bind (fun hc => ?_) fun _ => h
    rw [hf] at hc
    cases hc
  refine Prog.ends_andThen (hcall kwargs ?_)
  unfold made at h
  cases hr : w.factory s.runtime.factoryCalls kwargs with
  | ok n =>
    rw [hr] at h
    exact h _
  | error e =>
    rw [hr] at h
    cases e with
    | typeError m => exact hcall _ (h _)
    | _ => exact h _

/-- `_build_runtime` after `compatibility` has found the factory. -/
theorem buildRuntime_ends {f : Factory} (hknown : s.runtime.factory = some f) (hf : f.callable = true)
    {agentName : String} {Q : Except Exn Nat → Shared O (Adapter O) → Nat → Prop}
    (hok : ∀ n a, Passes w config s.runtime.guardCalls →
      made w s.runtime.factoryCalls (withAgentName config.factoryKwargs agentName) = .ok n →
      a.runtime = s.runtime.runtime → a.objects = s.runtime.objects ++ [{ native := n.normalize }] →
      a.pendingMemory = s.runtime.pendingMemory → a.pendingPlugins = s.runtime.pendingPlugins →
      Q (.ok s.runtime.objects.length) { s with runtime := a } p)
    (herr : ∀ e a, ¬ (Passes w config s.runtime.guardCalls ∧
        ∃ n, made w s.runtime.factoryCalls (withAgentName config.factoryKwargs agentName) = .ok n) →
      Same s.runtime a → Q (.error e) { s with runtime := a } p) :
    (config.buildRuntime agentName).Ends w Q s p := by
  have hsame := same_guarded config s.runtime
  have hcalls : (guarded config s.runtime).factoryCalls = s.runtime.factoryCalls := by
    unfold guarded
    split <;> rfl
  have hpending : (guarded config s.runtime).pendingMemory = s.runtime.pendingMemory ∧
      (guarded config s.runtime).pendingPlugins = s.runtime.pendingPlugins := by
    unfold guarded
    split <;> exact ⟨rfl, rfl⟩
  have hfactory : (guarded config s.runtime).factory = some f := by rw [factory_guarded, hknown]
  refine Prog.ends_seq (guard_ends (fun hpass => ?_) fun e hpass => ?_)
  · refine Prog.ends_seq (resolved_ends hfactory ?_)
    refine Prog.ends_seq (construct_ends hf fun k => ?_)
    dsimp only
    rw [hcalls]
    cases hmade : made w s.runtime.factoryCalls (withAgentName config.factoryKwargs agentName) with
    | ok n =>
      have hobjects : (guarded config s.runtime).objects = s.runtime.objects := hsame.objects
      have hdone := hok n { guarded config s.runtime with
        factoryCalls := k, objects := s.runtime.objects ++ [{ native := n.normalize }] } hpass hmade
        hsame.runtime rfl hpending.1 hpending.2
      rw [← hobjects] at hdone
      exact hdone
    | error e =>
      refine herr e _ ?_ ⟨hsame.runtime, hsame.objects⟩
      rintro ⟨-, n, hn⟩
      rw [hmade] at hn
      cases hn
  · exact herr e _ (fun h => hpass h.1) hsame

/-! ## The installation -/

/-- The state in which the last native runtime built is `n` and has had the calls `done`. -/
def placed (s : Shared O (Adapter O)) (objects : List (Built O)) (n : Native O) (done : List (NativeCall O)) :
    Shared O (Adapter O) :=
  { s with runtime := { s.runtime with objects := objects ++ [{ native := n, calls := done }] } }

variable {objects : List (Built O)} {n : Native O} {done : List (NativeCall O)}

theorem modify_last (f : Built O → Built O) (o : Built O) (objects : List (Built O)) :
    (objects ++ [o]).modify objects.length f = objects ++ [f o] := by
  induction objects with
  | nil => rfl
  | cons x xs ih => exact congrArg (x :: ·) ih

theorem request_ends {c : NativeCall O} {Q : Except Exn (Option O) → Shared O (Adapter O) → Nat → Prop}
    (hmissing : n.respond done c = .error c.missing → Q (.error c.missing) (placed s objects n done) p)
    (hcall : ∀ r, n.respond done c = r.map (fun _ => ()) → Q r (placed s objects n (done ++ [c])) p) :
    (Hermes.request objects.length c).Ends w Q (placed s objects n done) p := by
  unfold Native.respond at hmissing hcall
  have hobject : (placed s objects n done).runtime.objects[objects.length]? =
      some { native := n, calls := done } := by simp [placed]
  refine Prog.ends_perform_bind (fun has hhas => ?_) nofun
  have hhas : n.has c.attr = has := by
    have h : (((placed s objects n done).runtime.objects[objects.length]?.map
      fun o => o.native.has c.attr).getD false) = has := by injection hhas
    rw [hobject] at h
    exact h
  rw [hhas] at hmissing hcall
  refine Prog.ends_raiseIf_bind (fun hno => ?_) fun hyes => ?_
  · have hno : has = false := by simpa using hno
    rw [hno] at hmissing
    exact hmissing rfl
  · have hyes : has = true := by simpa using hyes
    rw [hyes] at hcall
    have h := hcall (n.answer done c) rfl
    show Q (((placed s objects n done).runtime.objects[objects.length]?.map
      fun o => o.native.answer o.calls c).getD (.ok none)) _ p
    rw [hobject]
    have hmodify := modify_last (fun o : Built O => ({ o with calls := o.calls ++ [c] } : Built O))
      { native := n, calls := done } objects
    unfold placed at h ⊢
    show Q (n.answer done c) { s with runtime := { s.runtime with
      objects := (objects ++ [({ native := n, calls := done } : Built O)]).modify objects.length fun o =>
        { o with calls := o.calls ++ [c] } } } p
    rw [hmodify]
    exact h

/-- The calls end as the native runtime responds; what it has had are calls of the list. -/
theorem requests_ends {calls : List (NativeCall O)}
    {Q : Except Exn Unit → Shared O (Adapter O) → Nat → Prop}
    (h : ∀ had, (∀ c ∈ had, c ∈ calls) → (n.responds done calls = .ok () → had = calls) →
      Q (n.responds done calls) (placed s objects n (done ++ had)) p) :
    (Hermes.requests objects.length calls).Ends w Q (placed s objects n done) p := by
  induction calls generalizing done with
  | nil =>
    have h := h [] nofun fun _ => rfl
    rw [List.append_nil] at h
    exact h
  | cons c calls ih =>
    have hstep : n.responds done (c :: calls) =
        (n.respond done c >>= fun _ => n.responds (done ++ [c]) calls) := rfl
    rw [hstep] at h
    refine Prog.ends_seq (request_ends (fun hmissing => ?_) fun r hr => ?_)
    · rw [hmissing] at h
      have h := h [] nofun nofun
      rw [List.append_nil] at h
      exact h
    · rw [hr] at h
      cases r with
      | ok v =>
        refine ih fun had hhad hall => ?_
        have h := h (c :: had) ?_ ?_
        · rw [List.append_assoc]
          exact h
        · intro d hd
          rcases List.mem_cons.1 hd with rfl | hd
          · exact List.mem_cons_self
          · exact List.mem_cons_of_mem c (hhad d hd)
        · exact fun hok => congrArg (c :: ·) (hall hok)
      | error e =>
        refine h [c] ?_ nofun
        intro d hd
        rw [List.mem_singleton.1 hd]
        exact List.mem_cons_self

theorem Native.responds_installation (n : Native O) (memory : List O) (plugins : Plugins O)
    (agentName : String) :
    n.responds [] (installation memory plugins agentName) =
      (n.responds [] (memory.map .attachMemory) >>= fun _ =>
        n.responds (memory.map .attachMemory) (plugins.map fun item => .loadPlugin item.1 item.2) >>= fun _ =>
          n.respond (memory.map .attachMemory ++ plugins.map fun item => .loadPlugin item.1 item.2)
            (.start agentName)) := by
  unfold installation
  rw [Native.responds_append, Native.responds_append, List.nil_append, List.nil_append]
  have hlast : ∀ done, n.responds done [.start agentName] = n.respond done (.start agentName) := by
    intro done
    show (n.respond done (.start agentName) >>= fun _ => .ok ()) = _
    cases n.respond done (.start agentName) <;> rfl
  rw [hlast]
  cases n.responds [] (memory.map .attachMemory) <;> rfl

/-- The installation of a native runtime that has just been built. -/
theorem install_ends {agentName : String} {Q : Except Exn Unit → Shared O (Adapter O) → Nat → Prop}
    (h : ∀ had, .stop ∉ had →
      Q (n.responds [] (installation s.runtime.pendingMemory s.runtime.pendingPlugins agentName))
        (placed s objects n had) p) :
    (Hermes.install objects.length agentName).Ends w Q (placed s objects n []) p := by
  rw [Native.responds_installation] at h
  refine Prog.ends_perform_bind (fun memory hm => ?_) nofun
  have hm : s.runtime.pendingMemory = memory := by injection hm
  rw [hm] at h
  refine Prog.ends_seq (requests_ends fun had hhad hall => ?_)
  rw [List.nil_append]
  cases hr : n.responds [] (memory.map .attachMemory) with
  | error e =>
    rw [hr] at h
    refine h had fun hstop => ?_
    simpa using hhad _ hstop
  | ok _ =>
    rw [hr] at h
    rw [hall hr]
    refine Prog.ends_perform_bind (fun plugins hp => ?_) nofun
    have hp : s.runtime.pendingPlugins = plugins := by injection hp
    rw [hp] at h
    refine Prog.ends_seq (requests_ends fun had hhad hall => ?_)
    have h : ∀ had, .stop ∉ had → Q (n.responds (memory.map .attachMemory)
        (plugins.map fun item => .loadPlugin item.1 item.2) >>= fun _ => n.respond (memory.map .attachMemory ++
          plugins.map fun item => .loadPlugin item.1 item.2) (.start agentName)) (placed s objects n had) p := h
    cases hr : n.responds (memory.map .attachMemory)
        (plugins.map fun item => .loadPlugin item.1 item.2) with
    | error e =>
      rw [hr] at h
      refine h _ ?_
      rw [List.mem_append]
      rintro (hstop | hstop)
      · simp at hstop
      · simpa using hhad _ hstop
    | ok _ =>
      rw [hr] at h
      rw [hall hr]
      have h : ∀ had, .stop ∉ had → Q (n.respond (memory.map .attachMemory ++
        plugins.map fun item => .loadPlugin item.1 item.2) (.start agentName)) (placed s objects n had) p := h
      refine Prog.ends_seq (request_ends (fun hmissing => ?_) fun r hr' => ?_)
      · rw [hmissing] at h
        exact h _ (by simp)
      · rw [hr'] at h
        cases r with
        | ok v => exact h _ (by simp)
        | error e => exact h _ (by simp)

/-! ## A start that finds no native runtime -/

/-- A native runtime was built and installed, with the result `r`, or none could be. -/
inductive Installed (w : Environment O) (config : Hermes O) (agentName : String) (a : Adapter O)
    (memory : List O) (plugins : Plugins O) (r : Except Exn Unit) (a' : Adapter O) : Prop
  | none : (∀ n, ¬ Builds w config agentName a n) → Same a a' → Installed w config agentName a memory plugins r a'
  | built {n : Native O} {had : List (NativeCall O)} : Builds w config agentName a n → .stop ∉ had →
      a'.objects = a.objects ++ [{ native := n, calls := had }] →
      r = n.responds [] (installation memory plugins agentName) →
      (∀ e, r = .error e → a'.runtime = Option.none) → Installed w config agentName a memory plugins r a'

theorem Installed.of_same {agentName : String} {a a' a'' : Adapter O} {memory : List O} {plugins : Plugins O}
    {r : Except Exn Unit} (h : Installed w config agentName a memory plugins r a') (hs : Same a' a'') :
    Installed w config agentName a memory plugins r a'' := by
  cases h with
  | none hno hsame =>
    exact .none hno ⟨hs.runtime.trans hsame.runtime, hs.objects.trans hsame.objects⟩
  | built hb hstop hobjects hr hnone =>
    exact .built hb hstop (hs.objects.trans hobjects) hr fun e he => hs.runtime.trans (hnone e he)

/-- The native runtime that is there, or a new one. -/
def Hermes.orBuild (config : Hermes O) (agentName : String) : Option Nat → HermesCode O Nat
  | some i => pure i
  | none => config.buildRuntime agentName

/-- The adapter's `start`, after `compatibility` found the factory `f` in the state `a`. -/
theorem start_ends {a : Adapter O} {f : Factory} (hnew : a.runtime = none)
    (hpass : Passes w config a.guardCalls) (havailable : Available w config a.factory)
    (hf : f.callable = true) {memory : List O} {plugins : Plugins O}
    (hs : s.runtime = { known f (guarded config a) with pendingMemory := memory, pendingPlugins := plugins })
    {agentName : String} :
    (config.start agentName).Ends w
      (fun r s' _ => Installed w config agentName a memory plugins r s'.runtime) s p := by
  have hsame := same_guarded config a
  have hcount : Passes w config s.runtime.guardCalls ↔ Passes w config (a.guardCalls + 1) := by
    rw [hs]
    unfold known guarded Passes
    split
    · rfl
    · rename_i hg
      exact ⟨fun _ h => absurd h hg, fun _ h => absurd h hg⟩
  have hcalls : s.runtime.factoryCalls = a.factoryCalls := by
    rw [hs]
    unfold known guarded
    split <;> rfl
  have hruntime : s.runtime.runtime = none := by
    rw [hs]
    exact hsame.runtime.trans hnew
  have hobjects : s.runtime.objects = a.objects := by
    rw [hs]
    exact hsame.objects
  have hlaunch : (config.launch agentName).Ends w
      (fun r s' _ => Installed w config agentName a memory plugins r s'.runtime) s p := by
    refine Prog.ends_seq (Prog.ends_perform_bind ?_ fun _ h => by cases h)
    rintro _ ⟨⟩
    show Prog.Ends w (config.orBuild agentName s.runtime.runtime) _ s p
    rw [hruntime]
    refine buildRuntime_ends (f := f) (by rw [hs]; rfl) hf ?_ ?_
    · intro n a' hagain hmade hr ho hm hp
      have hbuilds : Builds w config agentName a n.normalize := by
        rw [hcalls] at hmade
        exact ⟨hnew, hpass, havailable, hcount.1 hagain, n, hmade, rfl⟩
      have hplaced : ({ s with runtime := a' } : Shared O (Adapter O)) =
          placed { s with runtime := a' } s.runtime.objects n.normalize [] := by
        unfold placed
        rw [← ho]
      rw [hplaced]
      refine Prog.ends_seq (install_ends fun had hstop => ?_)
      have hpending : ({ s with runtime := a' } : Shared O (Adapter O)).runtime.pendingMemory = memory ∧
          ({ s with runtime := a' } : Shared O (Adapter O)).runtime.pendingPlugins = plugins := by
        constructor
        · exact hm.trans (by rw [hs])
        · exact hp.trans (by rw [hs])
      rw [hpending.1, hpending.2]
      cases hr' : n.normalize.responds [] (installation memory plugins agentName) with
      | ok _ =>
        refine .built hbuilds hstop ?_ hr'.symm fun _ h => by cases h
        rw [← hobjects]
        rfl
      | error e =>
        refine .built hbuilds hstop ?_ hr'.symm fun _ _ => hr.trans hruntime
        rw [← hobjects]
        rfl
    · intro e a' hno hs'
      refine .none (fun n hb => hno ⟨hcount.2 hb.again, ?_⟩)
        ⟨hs'.runtime.trans (hruntime.trans hnew.symm), hs'.objects.trans hobjects⟩
      obtain ⟨raw, hraw, -⟩ := hb.made
      rw [hcalls]
      exact ⟨raw, hraw⟩
  refine Prog.ends_mapError hlaunch (fun _ _ _ h => h) fun e s' _ h => ?_
  by_cases he : e.isException
  · rw [if_pos he]
    exact h.of_same ⟨rfl, rfl⟩
  · rw [if_neg he]
    exact h

/-- An agent over the adapter. -/
def hermesAgent (config : Hermes O) (name quotedName : String) : Agent (Environment O) O (Adapter O) :=
  { name, quotedName, configured := .runtime, runtime := config.agentRuntime }

variable {name quotedName : String}

theorem attach_ends (hnew : s.runtime.runtime = none) {provider : Option O}
    {Q : Except Exn Unit → Shared O (Adapter O) → Nat → Prop}
    (h : Q (.ok ()) { s with runtime := { s.runtime with
      pendingMemory := s.runtime.pendingMemory ++ provider.toList } } p) :
    ((hermesAgent config name quotedName).attach provider).Ends w Q s p := by
  cases provider with
  | none =>
    simp only [Option.toList_none, List.append_nil] at h
    exact h
  | some provider =>
    refine Prog.ends_perform_bind ?_ nofun
    rintro _ ⟨⟩
    dsimp only [HermesAct.get]
    rw [hnew]
    exact h

theorem loadPending_ends (hnew : s.runtime.runtime = none) {plugins : Plugins O}
    {Q : Except Exn Unit → Shared O (Adapter O) → Nat → Prop}
    (h : Q (.ok ()) { s with runtime := { s.runtime with
      pendingPlugins := s.runtime.pendingPlugins ++ plugins } } p) :
    ((hermesAgent config name quotedName).loadPending plugins).Ends w Q s p := by
  induction plugins generalizing s with
  | nil =>
    rw [List.append_nil] at h
    exact h
  | cons item plugins ih =>
    refine Prog.ends_seq ?_
    refine Prog.ends_perform_bind ?_ nofun
    rintro _ ⟨⟩
    dsimp only [HermesAct.get]
    rw [hnew]
    refine ih hnew ?_
    show Q (.ok ()) { s with runtime := { s.runtime with
      pendingPlugins := (s.runtime.pendingPlugins ++ [(item.1, item.2)]) ++ plugins } } p
    rw [List.append_assoc]
    exact h

/-- The configuration of a runtime that has no native runtime yet. -/
theorem configure_ends (hnew : s.runtime.runtime = none) :
    (hermesAgent config name quotedName).configure.Ends w
      (fun r s' _ => Installed w config name s.runtime
        (s.runtime.pendingMemory ++ s.agent.memoryProvider.toList)
        (s.runtime.pendingPlugins ++ s.agent.pendingPlugins) r s'.runtime) s p := by
  refine Prog.ends_seq (compatibility_ends (fun c f hc hpass havailable hf => ?_) fun r a hr hno hsame => ?_)
  · refine Prog.ends_raiseIf_bind (fun hbad => ?_) fun _ => ?_
    · rw [hc] at hbad
      cases hbad
    · refine Prog.ends_perform_bind ?_ nofun
      rintro _ ⟨⟩
      have hsame := same_guarded config s.runtime
      refine Prog.ends_seq (attach_ends (hsame.runtime.trans hnew) ?_)
      refine Prog.ends_perform_bind ?_ nofun
      rintro _ ⟨⟩
      refine Prog.ends_seq (loadPending_ends (hsame.runtime.trans hnew) ?_)
      refine start_ends hnew hpass havailable hf ?_
      have hpending : (guarded config s.runtime).pendingMemory = s.runtime.pendingMemory ∧
          (guarded config s.runtime).pendingPlugins = s.runtime.pendingPlugins := by
        unfold guarded
        split <;> exact ⟨rfl, rfl⟩
      rw [← hpending.1, ← hpending.2]
      rfl
  · have hnone : ∀ r, Installed w config name s.runtime
        (s.runtime.pendingMemory ++ s.agent.memoryProvider.toList)
        (s.runtime.pendingPlugins ++ s.agent.pendingPlugins) r a :=
      fun _ => .none (fun n hb => hno ⟨hb.guarded, hb.available⟩) hsame
    cases r with
    | ok c =>
      refine Prog.ends_raiseIf_bind (fun _ => hnone _) fun hc => ?_
      rw [hr c rfl] at hc
      exact absurd rfl hc
    | error e => exact hnone _

/-! ## The agent's answer to a failure -/

/-- The adapter's `stop` does not reach a native runtime that is not recorded. -/
theorem stop_ends (hnew : s.runtime.runtime = none)
    {Q : Except Exn Unit → Shared O (Adapter O) → Nat → Prop}
    (h : Q (.ok ()) { s with runtime := { s.runtime with started := false } } p) :
    (Hermes.stop : HermesCode O Unit).Ends w Q s p := by
  refine Prog.ends_perform_bind ?_ nofun
  rintro _ ⟨⟩
  dsimp only [HermesAct.get]
  rw [hnew]
  exact h

/-- What `Agent.start` makes of the result `r` of the configuration, when the runtime's `stop` returns
if `c`. -/
structure Answers (c : Prop) (r r' : Except Exn Unit) (state : AgentState) : Prop where
  failed : ∀ message, r' = .error (.agentStart message) →
    state = .failed ∧ ∃ e, r = .error e ∧ e.isException = true
  raised : c → ∀ e, r = .error e → e.isException = true → ∃ message, r' = .error (.agentStart message)

/-- `Agent.start` of a new agent, from what its configuration ends in and the runtime's `stop` keeps. -/
theorem agentStart_ends {G : Except Exn Unit → Adapter O → Prop} {c : Prop} (hfree : s.holder = none)
    (hcreated : s.agent.state = .created)
    (hconfigure : (hermesAgent config name quotedName).configure.Ends w (fun r s' _ => G r s'.runtime)
      { s with holder := some p, agent := { s.agent with state := .starting } } p)
    (hstop : ∀ e s p, G (.error e) s.runtime → (Hermes.stop : HermesCode O Unit).Ends w
      (fun r s' _ => G (.error e) s'.runtime ∧ (c → r = .ok ())) s p) :
    (hermesAgent config name quotedName).start.Ends w
      (fun r' s' _ => ∃ r, G r s'.runtime ∧ Answers c r r' s'.agent.state) s p := by
  have hacquire : (Act.acquire : HermesAct O Unit).next w s p = (.ok (), { s with holder := some p }, p) := by
    simp only [Act.acquire, hfree]
  refine Prog.ends_perform_bind (fun _ _ => ?_) fun e he => ?_
  · rw [hacquire]
    refine Prog.ends_ensuring (P := fun r' s' _ => ∃ r, G r s'.runtime ∧ Answers c r r' s'.agent.state) ?_ ?_
    rotate_left
    · intro r' s' p' h
      exact h
    refine Prog.ends_perform_bind ?_ nofun
    rintro _ ⟨⟩
    refine Prog.ends_raiseIf_bind (fun hne => absurd hcreated hne) fun _ => ?_
    refine Prog.ends_perform_bind (fun _ _ => ?_) nofun
    refine Prog.ends_bind (P := fun r' s' _ => (r' = .ok () ∧ G (.ok ()) s'.runtime) ∨
      ∃ r, G r s'.runtime ∧ Answers c r r' s'.agent.state ∧ r' ≠ .ok ()) ?_ ?_ ?_
    · refine Prog.ends_mapError hconfigure (fun _ _ _ h => .inl ⟨rfl, h⟩) fun e s' p' h => ?_
      by_cases he : e.isException
      · rw [if_pos he]
        refine Prog.ends_seq (Prog.ends_seq (Prog.ends_andThen (Prog.ends_mono (hstop e s' p' h) ?_)))
        rintro r s p ⟨hg, hok⟩
        have hdone : Answers c (.error e) (.error (.agentStart ("failed to start agent " ++ quotedName)))
            .failed :=
          ⟨fun _ _ => ⟨rfl, e, rfl, he⟩, fun _ _ _ _ => ⟨_, rfl⟩⟩
        cases r with
        | ok _ => exact .inr ⟨.error e, hg, hdone, nofun⟩
        | error e' =>
          refine Prog.ends_raiseIf (fun he' => ?_) fun _ => .inr ⟨.error e, hg, hdone, nofun⟩
          refine .inr ⟨.error e, hg, ⟨?_, ?_⟩, nofun⟩
          · rintro _ ⟨⟩
            exact absurd rfl he'
          · intro hc
            cases hok hc
      · rw [if_neg he]
        refine .inr ⟨.error e, h, ⟨?_, ?_⟩, nofun⟩
        · rintro _ ⟨⟩
          exact absurd rfl he
        · rintro - _ ⟨⟩ hex
          exact absurd hex he
    · rintro _ s' p' (⟨-, h⟩ | ⟨r, -, -, hne⟩)
      · exact ⟨.ok (), h, nofun, nofun⟩
      · exact absurd rfl hne
    · rintro e s' p' (⟨h, -⟩ | ⟨r, h, ha, -⟩)
      · cases h
      · exact ⟨r, h, ha⟩
  · rw [hacquire] at he
    cases he

/-! ## A start that finds a native runtime -/

/-- The native runtime `i` is recorded, and `k` have been built. -/
def Kept (i k : Nat) (a : Adapter O) : Prop := a.runtime = some i ∧ a.objects.length = k

def Keeping (i k : Nat) {β : Type} (act : HermesAct O β) : Prop :=
  ∀ w s p, Kept i k s.runtime → Kept i k (act.next w s p).2.1.runtime

section

variable {i k : Nat}

theorem keeping_get {field : Adapter O → β} : Keeping i k (HermesAct.get field) := fun _ _ _ h => h

theorem keeping_call {j : Nat} {c : NativeCall O} : Keeping i k (HermesAct.call j c) :=
  fun _ _ _ h => ⟨h.1, (List.length_modify ..).trans h.2⟩

theorem each_guard : (config.guard).Each (Keeping i k) := by
  unfold Hermes.guard
  split
  · exact .perform fun _ _ _ h => h
  · exact trivial

theorem each_resolveFactory : (config.resolveFactory).Each (Keeping i k) := by
  refine Prog.Each.bind (.perform keeping_get) fun known => ?_
  cases known with
  | some f => exact trivial
  | none =>
    show config.importFactory.Each _
    unfold Hermes.importFactory
    split
    · exact trivial
    · refine Prog.Each.bind .raiseIf fun _ => ?_
      refine Prog.Each.bind (.perform fun _ _ _ h => h) fun f => ?_
      refine Prog.Each.bind .raiseIf fun _ => ?_
      exact Prog.Each.bind (.perform fun _ _ _ h => h) fun _ => trivial

theorem each_compatibility : (config.compatibility).Each (Keeping i k) := by
  refine Prog.Each.andThen (Prog.Each.bind each_guard fun _ => each_resolveFactory) fun r => ?_
  cases r with
  | ok f =>
    dsimp only
    split <;> exact trivial
  | error e =>
    dsimp only
    split <;> exact trivial

theorem each_request {j : Nat} {c : NativeCall O} : (Hermes.request j c).Each (Keeping i k) := by
  refine Prog.Each.bind (.perform keeping_get) fun _ => ?_
  exact Prog.Each.bind .raiseIf fun _ => .perform keeping_call

theorem each_requests {j : Nat} {calls : List (NativeCall O)} :
    (Hermes.requests j calls).Each (Keeping i k) := by
  induction calls with
  | nil => exact trivial
  | cons c calls ih => exact Prog.Each.bind each_request fun _ => ih

theorem each_install {j : Nat} {agentName : String} :
    (Hermes.install j agentName : HermesCode O Unit).Each (Keeping i k) := by
  refine Prog.Each.bind (.perform keeping_get) fun _ => ?_
  refine Prog.Each.bind each_requests fun _ => ?_
  refine Prog.Each.bind (.perform keeping_get) fun _ => ?_
  exact Prog.Each.bind each_requests fun _ => Prog.Each.bind each_request fun _ => trivial

theorem each_stop : (Hermes.stop : HermesCode O Unit).Each (Keeping i k) := by
  refine Prog.Each.bind (.perform keeping_get) fun known => ?_
  refine Prog.Each.bind ?_ fun _ => .perform fun _ _ _ h => h
  cases known with
  | none => exact trivial
  | some j =>
    refine Prog.Each.bind (.perform keeping_get) fun has => ?_
    cases has with
    | false => exact trivial
    | true => exact Prog.Each.bind (.perform keeping_call) fun _ => trivial

theorem kept_ends {α : Type} {x : HermesCode O α} (hx : x.Each (Keeping i k)) (h : Kept i k s.runtime) :
    x.Ends w (fun _ s' _ => Kept i k s'.runtime) s p :=
  hx.ends (J := fun s _ => Kept i k s.runtime) (fun _ ha f s p h => ha f s p h) w h

/-- The same for the parts that ask whether there is a native runtime. -/
theorem known_ends {α : Type} {x : Option Nat → HermesCode O α} (h : Kept i k s.runtime)
    (hx : (x (some i)).Ends w (fun _ s' _ => Kept i k s'.runtime) s p) :
    Prog.Ends w (.perform (HermesAct.get Adapter.runtime) >>= x) (fun _ s' _ => Kept i k s'.runtime) s p := by
  refine Prog.ends_perform_bind ?_ nofun
  rintro _ ⟨⟩
  dsimp only [HermesAct.get]
  rw [h.1]
  exact hx

theorem then_ends {α γ : Type} {x : HermesCode O α} {f : α → HermesCode O γ}
    (hx : x.Ends w (fun _ s' _ => Kept i k s'.runtime) s p)
    (hf : ∀ v s p, Kept i k s.runtime → (f v).Ends w (fun _ s' _ => Kept i k s'.runtime) s p) :
    (x >>= f).Ends w (fun _ s' _ => Kept i k s'.runtime) s p :=
  Prog.ends_bind hx (fun v s p h => hf v s p h) fun _ _ _ h => h

theorem start_kept {agentName : String} (h : Kept i k s.runtime) :
    (config.start agentName).Ends w (fun _ s' _ => Kept i k s'.runtime) s p := by
  refine Prog.ends_mapError (P := fun _ s' _ => Kept i k s'.runtime) ?_ (fun _ _ _ h => h) fun e s p h => ?_
  · refine Prog.ends_seq (Prog.ends_perform_bind ?_ nofun)
    rintro _ ⟨⟩
    dsimp only [HermesAct.get]
    rw [h.1]
    refine then_ends (kept_ends each_install h) fun _ s p h => ?_
    exact Prog.ends_perform ⟨rfl, h.2⟩
  · by_cases he : e.isException
    · rw [if_pos he]
      exact h
    · rw [if_neg he]
      exact h

theorem configure_kept (h : Kept i k s.runtime) :
    (hermesAgent config name quotedName).configure.Ends w (fun _ s' _ => Kept i k s'.runtime) s p := by
  refine then_ends (kept_ends each_compatibility h) fun c s p h => ?_
  refine then_ends (kept_ends .raiseIf h) fun _ s p h => ?_
  refine then_ends (kept_ends (.perform fun _ _ _ h => h) h) fun provider s p h => ?_
  refine then_ends ?_ fun _ s p h => ?_
  · cases provider with
    | none => exact h
    | some provider => exact known_ends h (kept_ends (.bind each_request fun _ => trivial) h)
  refine then_ends (kept_ends (.perform fun _ _ _ h => h) h) fun plugins s p h => ?_
  refine then_ends ?_ fun _ s p h => start_kept h
  induction plugins generalizing s p with
  | nil => exact h
  | cons item plugins ih =>
    refine then_ends ?_ fun _ s p h => ih s p h
    exact known_ends h (kept_ends (.bind each_request fun _ => trivial) h)

end

/-! ## Both together -/

/-- If the start of the agent fails, it leaves the agent failed, and every native runtime that it
has built, if that has a `stop`, has had it called last. -/
def RolledBack (w : Environment O) (self : Agent (Environment O) O (Adapter O)) (s : Shared O (Adapter O))
    (p : Nat) : Prop :=
  self.start.Ends w (fun r s' _ => ∀ message, r = .error (.agentStart message) →
    s'.agent.state = .failed ∧ ∀ o ∈ s'.runtime.objects.drop s.runtime.objects.length,
      o.native.has .stop = true → o.calls.getLast? = some .stop) s p

/-- The start can begin: the lock is free and the agent is new. -/
structure Startable (s : Shared O (Adapter O)) : Prop where
  free : s.holder = none
  created : s.agent.state = .created

/-- What the start of the agent installs in a native runtime. -/
def installed (name : String) (s : Shared O (Adapter O)) : List (NativeCall O) :=
  installation (s.runtime.pendingMemory ++ s.agent.memoryProvider.toList)
    (s.runtime.pendingPlugins ++ s.agent.pendingPlugins) name

/-- A start that cannot begin raises no `AgentStartError`. -/
theorem not_startable (hs : ¬ Startable s) :
    (hermesAgent config name quotedName).start.Ends w
      (fun r _ _ => ∀ message, r ≠ .error (.agentStart message)) s p := by
  by_cases hfree : s.holder = none
  · have hcreated : s.agent.state ≠ .created := fun h => hs ⟨hfree, h⟩
    have hacquire : (Act.acquire : HermesAct O Unit).next w s p =
        (.ok (), { s with holder := some p }, p) := by simp only [Act.acquire, hfree]
    refine Prog.ends_perform_bind (fun _ _ => ?_) fun e he => ?_
    · rw [hacquire]
      refine Prog.ends_ensuring (P := fun r _ _ => ∀ message, r ≠ .error (.agentStart message)) ?_ ?_
      · refine Prog.ends_perform_bind ?_ nofun
        rintro _ ⟨⟩
        exact Prog.ends_raiseIf_bind (fun _ _ => nofun) fun h => absurd h (not_not.2 hcreated)
      · exact fun r s' p' h => h
    · rw [hacquire] at he
      cases he
  · obtain ⟨q, hq⟩ := Option.ne_none_iff_exists'.1 hfree
    have hacquire : (Act.acquire : HermesAct O Unit).next w s p = (.error .blocked, s, p) := by
      simp only [Act.acquire, hq]
    refine Prog.ends_perform_bind (fun _ he => ?_) fun e he => ?_
    · rw [hacquire] at he
      cases he
    · rw [hacquire] at he
      cases he
      nofun

/-- How a start ends that can begin and finds no native runtime. -/
theorem new_ends (hs : Startable s) (hnew : s.runtime.runtime = none) :
    (hermesAgent config name quotedName).start.Ends w
      (fun r' s' _ => ∃ r, Installed w config name s.runtime
          (s.runtime.pendingMemory ++ s.agent.memoryProvider.toList)
          (s.runtime.pendingPlugins ++ s.agent.pendingPlugins) r s'.runtime ∧
        Answers True r r' s'.agent.state) s p := by
  have hconfigure : (hermesAgent config name quotedName).configure.Ends w _ _ p := configure_ends (w := w)
    (s := { s with holder := some p, agent := { s.agent with state := .starting } }) hnew
  refine agentStart_ends hs.free hs.created hconfigure fun e s' p' h => ?_
  have hnone : s'.runtime.runtime = none := by
    cases h with
    | none _ hsame => exact hsame.runtime.trans hnew
    | built _ _ _ _ hnone => exact hnone e rfl
  exact stop_ends hnone ⟨h.of_same ⟨rfl, rfl⟩, fun _ => rfl⟩

/-- A start that finds a native runtime builds none. -/
theorem known_start {i : Nat} (hs : Startable s) (hknown : s.runtime.runtime = some i) :
    RolledBack w (hermesAgent config name quotedName) s p := by
  have hkept : Kept i s.runtime.objects.length s.runtime := ⟨hknown, rfl⟩
  have hends : (hermesAgent config name quotedName).start.Ends w
      (fun r' s' _ => ∃ r, Kept i s.runtime.objects.length s'.runtime ∧ Answers False r r' s'.agent.state)
      s p := by
    refine agentStart_ends (G := fun _ a => Kept i s.runtime.objects.length a) hs.free hs.created
      (configure_kept hkept) fun e s' p' h => ?_
    exact Prog.ends_mono (kept_ends each_stop h) fun _ _ _ h => ⟨h, nofun⟩
  refine Prog.ends_mono hends ?_
  rintro r' s' _ ⟨r, hk, hans⟩ message hr'
  refine ⟨(hans.failed message hr').1, ?_⟩
  rw [← hk.2, List.drop_length]
  nofun

/-- A failed start is rolled back exactly when a native runtime that it builds has no `stop`, or
takes its installation without an `Exception`. -/
theorem rolled_back_iff (w : Environment O) (config : Hermes O) (name quotedName : String)
    (s : Shared O (Adapter O)) (p : Nat) :
    RolledBack w (hermesAgent config name quotedName) s p ↔
      (Startable s → ∀ n, Builds w config name s.runtime n → n.has .stop = true →
        ∀ e, n.responds [] (installed name s) = .error e → e.isException = false) := by
  by_cases hs : Startable s
  · cases hknown : s.runtime.runtime with
    | some i =>
      refine ⟨fun _ _ n hb => ?_, fun _ => known_start hs hknown⟩
      rw [hb.new] at hknown
      cases hknown
    | none =>
      have hends : (hermesAgent config name quotedName).start.Ends w _ s p := new_ends hs hknown
      obtain ⟨r, hinst, hans⟩ := hends
      constructor
      · intro h _ n hb hstop e he
        by_contra hex
        have hex : e.isException = true := by simpa using hex
        cases hinst with
        | none hno _ => exact hno n hb
        | @built n' had hb' hhad hobjects hr _ =>
          have hn := hb'.unique hb
          subst hn
          obtain ⟨message, hr'⟩ := hans.raised trivial e (hr.trans he) hex
          have hlast := (h message hr').2 { native := n', calls := had } ?_ hstop
          · exact hhad (List.mem_of_getLast? hlast)
          · rw [hobjects, List.drop_left]
            exact List.mem_singleton_self _
      · intro h message hr'
        obtain ⟨hstate, e, he, hex⟩ := hans.failed message hr'
        refine ⟨hstate, ?_⟩
        cases hinst with
        | none _ hsame =>
          rw [hsame.objects, List.drop_length]
          nofun
        | built hb hhad hobjects hr _ =>
          rw [hobjects, List.drop_left]
          intro o ho hstop
          rw [List.mem_singleton.1 ho] at hstop
          have hno := h hs _ hb hstop e (hr.symm.trans he)
          rw [hex] at hno
          cases hno
  · refine ⟨fun _ h => absurd h hs, fun _ => ?_⟩
    exact Prog.ends_mono (not_startable hs) fun r _ _ h message hr => absurd hr (h message)

end

end

/-! ## A plugin that fails to load -/

namespace Sample

/-- A native runtime with all methods, whose plugin `broken` fails to initialise. -/
def native : Native Nat where
  has _ := true
  answer _
    | .loadPlugin "broken" _ => .error (.failure "plugin initialization failed")
    | _ => .ok none

def environment : Environment Nat where
  factory _ _ := .ok native

/-- A new agent with one memory provider and the plugin. -/
def agent : Shared Nat (Adapter Nat) where
  agent := { memoryProvider := some 1, pendingPlugins := [("broken", some 2)] }
  runtime := {}

/-- The agent's start raises `AgentStartError`, and the native runtime was built, has the memory
provider attached and is never stopped. -/
theorem not_rolled_back :
    ¬ ∀ (w : Environment Nat) (config : Hermes Nat) (name quotedName : String)
      (s : Shared Nat (Adapter Nat)) (p : Nat), RolledBack w (hermesAgent config name quotedName) s p := by
  intro h
  have h := h environment {} "employee" "'employee'" agent 0
  have hlast := (h "failed to start agent 'employee'" rfl).2
    { native, calls := [.attachMemory 1, .loadPlugin "broken" (some 2)] } (List.mem_singleton_self _) rfl
  cases hlast

end Sample

end ProjectMaya.Facade
