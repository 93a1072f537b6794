import ProjectMaya.RequestScopes

/-! # Requests with a bearer token

One call of `handle` with a `BearerTokenAuthenticator`. Everybody else is asked at most once in a
call, so one choice is all that the environment has to say. `handled_iff` says when the call returns;
that the agent runs for the right requests only does not depend on it. -/

namespace ProjectMaya.LocalApi

open Logic
open Plugin (Dict Payload)

/-! ## `BearerTokenAuthenticator` -/

structure BearerTokenAuthenticator where
  identity : RequestIdentity
  /-- What the secret store has for the reference to the token; without it, it raises a
  `SecretStoreError`. -/
  stored : Option String

def isAscii (text : String) : Bool := text.toList.all fun c => c.toNat < 128

/-- `hmac.compare_digest` of texts; its error is a `TypeError`. -/
def compareDigest (a b : String) : Except Exn Bool :=
  if isAscii a ∧ isAscii b then .ok (decide (a = b)) else .error .failure

/-- The token that the headers supply. -/
def supplied (loc : Broker.Locale) (headers : List (String × String)) : Option String :=
  let authorization := (header loc headers "authorization").toList
  if "Bearer ".toList.isPrefixOf authorization then
    let token := loc.strip (String.ofList (authorization.drop "Bearer ".toList.length))
    if token = "" then none else some token
  else none

/-- `authenticate_identity` -/
def BearerTokenAuthenticator.authenticateIdentity (a : BearerTokenAuthenticator)
    (loc : Broker.Locale) (headers : List (String × String)) :
    Except Exn (Option RequestIdentity) :=
  match supplied loc headers with
  | none => .ok none
  | some token =>
    match a.stored with
    | none => .ok none
    | some expected => do
      let same ← compareDigest token expected
      return if same then some a.identity else none

/-- `authenticate` -/
def BearerTokenAuthenticator.authenticate (a : BearerTokenAuthenticator) (loc : Broker.Locale)
    (headers : List (String × String)) : Except Exn Bool := do
  let identity ← a.authenticateIdentity loc headers
  return identity.isSome

/-! ## What a call keeps to -/

section

variable {T ν : Type} {files : ResolvedPath → ResolvedPath} (a : BearerTokenAuthenticator)
  (loc : Broker.Locale) (api : LocalAPI T files) (loads : Loads ν) (request : Request)

/-- The environment `c`, where this authenticator answers for itself. -/
def answering (c : Choice ν) : Choice ν :=
  { c with
    authenticate := a.authenticate loc request.headers
    authenticateIdentity := a.authenticateIdentity loc request.headers }

/-- The request has the token that is stored, and is within the size. -/
structure Admissible : Prop where
  token : ∃ token, supplied loc request.headers = some token ∧ a.stored = some token
  contract : header loc request.headers "x-maya-session-binding" = "" ∨
    api.binding.isSome ∧ header loc request.headers "x-maya-session-binding" = requestBindingContract
  size : request.body.size ≤ api.maxBodyBytes

/-- It is at this route. -/
structure Reaches (path method : String) : Prop extends Admissible a loc api request where
  path : request.path = path
  method : loc.upper request.method = method

/-- The body is a run request, with this input. -/
def Requests (input : RunInput) : Prop :=
  ∃ text dict payload, String.fromUTF8? request.body = some text ∧
    loads text = .ok (some (.mapping dict payload)) ∧
    runInput loc api.binding.isSome payload = .ok input

/-- Within `authenticated_request` for the identity of the token. -/
structure Inward (b : Binding T files) (earlier : List Event) (vars : Vars) : Prop where
  owner : a.identity = b.owner
  identity : vars.identity = some a.identity
  session : ∃ context, vars.session = some context ∧ Fits b context ∧ .bound context ∈ earlier

/-- The agent runs at most once, for a request that may run it. -/
structure Guarded (new : List Event) : Prop where
  once : (agentRuns new).length ≤ 1
  admitted : ∀ earlier vars call later, new = earlier ++ .entered vars call :: later →
    Reaches a loc api request "/v1/run" "POST" ∧ (∃ input, Requests loc api loads request input) ∧
    ∀ b, api.binding = some b → Inward a b earlier vars

/-- A run returns unless `raises`, and its new events are guarded. -/
structure Settled (raises : Prop) (t : Thread) (run : Except Exn (Response ν) × Shared T × Thread) :
    Prop where
  returns : (∃ response, run.1 = .ok response) ↔ ¬ raises
  guarded : ∃ new, run.2.2.events = t.events ++ new ∧ Guarded a loc api loads request new

variable {a loc api loads request} {s : Shared T} {t : Thread} {input : RunInput}
  {before : List Event} {vars : Vars} {call : AgentCall}

theorem agentRuns_nil_cons {e : Event} {before : List Event} (h : agentRuns (e :: before) = []) :
    (∀ vars call, e ≠ .entered vars call) ∧ agentRuns before = [] := by
  rw [agentRuns, List.filterMap_cons] at h
  cases e with
  | entered vars call => cases h
  | wrote record => exact ⟨by simp, h⟩
  | bound context => exact ⟨by simp, h⟩

/-- Where a list goes on with the only run of the agent. -/
theorem eq_of_append_entered {before earlier later : List Event} {vars vars' : Vars}
    {call call' : AgentCall} (hcalm : agentRuns before = [])
    (h : before ++ [.entered vars call] = earlier ++ .entered vars' call' :: later) :
    earlier = before ∧ vars' = vars := by
  induction before generalizing earlier with
  | nil =>
    cases earlier with
    | nil =>
      cases h
      exact ⟨rfl, rfl⟩
    | cons e earlier =>
      have := congrArg List.length h
      simp at this
  | cons e before ih =>
    obtain ⟨hne, hbefore⟩ := agentRuns_nil_cons hcalm
    cases earlier with
    | nil =>
      rw [List.cons_append, List.nil_append, List.cons.injEq] at h
      exact absurd h.1 (hne _ _)
    | cons e' earlier =>
      rw [List.cons_append, List.cons_append, List.cons.injEq] at h
      obtain ⟨rfl, hrest⟩ := h
      obtain ⟨rfl, hvars⟩ := ih hbefore hrest
      exact ⟨rfl, hvars⟩

theorem guarded_calm (hcalm : agentRuns before = []) : Guarded a loc api loads request before where
  once := by simp [hcalm]
  admitted earlier vars call later h := by
    rw [h, agentRuns, List.filterMap_append, List.append_eq_nil_iff] at hcalm
    cases hcalm.2

variable (before) in
theorem guarded_run (hcalm : agentRuns before = [])
    (hreach : Reaches a loc api request "/v1/run" "POST")
    (hinput : Requests loc api loads request input)
    (hinward : ∀ b, api.binding = some b → Inward a b before vars) :
    Guarded a loc api loads request (before ++ [.entered vars call]) where
  once := by
    rw [agentRuns, List.filterMap_append, ← agentRuns, hcalm]
    exact Nat.le_refl 1
  admitted earlier vars' call' later h := by
    obtain ⟨rfl, rfl⟩ := eq_of_append_entered hcalm h
    exact ⟨hreach, ⟨input, hinput⟩, hinward⟩

/-- Nothing has happened but the answer. -/
theorem settled_answer {raises : Prop} (h : ¬ raises) (response : Response ν) :
    Settled a loc api loads request raises t (.ok response, s, t) where
  returns := ⟨fun _ => h, fun _ => ⟨response, rfl⟩⟩
  guarded := ⟨[], (List.append_nil _).symm, guarded_calm rfl⟩

theorem settled_raised {raises : Prop} (h : raises) (e : Exn) :
    Settled a loc api loads request raises t (.error e, s, t) where
  returns := by
    constructor
    · rintro ⟨response, hr⟩
      cases hr
    · exact fun hn => absurd h hn
  guarded := ⟨[], (List.append_nil _).symm, guarded_calm rfl⟩

theorem Settled.congr {p q : Prop} {run : Except Exn (Response ν) × Shared T × Thread}
    (h : Settled a loc api loads request p t run) (hpq : p ↔ q) :
    Settled a loc api loads request q t run := by
  rw [← propext hpq]
  exact h

/-- The answer is made of what `p` returns. -/
theorem runErrors_settled {c : Choice ν} {α : Type} {p : Code T ν α} {raises : Prop}
    (f : α → Response ν)
    (hraises : raises ↔ ∃ e, (p.under c s t).1 = .error e ∧ e.isException = false)
    (hguarded : ∃ new, (p.under c s t).2.2.events = t.events ++ new ∧
      Guarded a loc api loads request new) :
    Settled a loc api loads request raises t ((runErrors do
      let v ← p
      return f v).under c s t) := by
  obtain ⟨hafter, hreturns⟩ := runErrors_under (c := c) (s := s) (t := t) (p := do
    let v ← p
    return f v)
  obtain ⟨hmap, herror⟩ := map_under (c := c) (s := s) (t := t) (p := p) f
  constructor
  · rw [hreturns, hraises]
    simp only [herror]
    constructor
    · rintro h ⟨e, he, hfatal⟩
      rw [h e he] at hfatal
      cases hfatal
    · intro h e he
      by_contra hfatal
      exact h ⟨e, he, Bool.eq_false_of_not_eq_true hfatal⟩
  · rw [hafter, hmap]
    exact hguarded

theorem health_settled {c : Choice ν} :
    Settled a loc api loads request
      (loc.upper request.method = "GET" ∧ ∃ e, c.health = .error e) t
      ((health loc request : Code T ν (Response ν)).under c s t) := by
  unfold health
  split
  · rename_i hmethod
    exact settled_answer (fun h => hmethod h.1) _
  · rename_i hmethod
    rw [not_not] at hmethod
    cases hhealth : c.health with
    | error e =>
      have hask : (Prog.perform (Act.ask Choice.health) : Code T ν _).under c s t = (.error e, s, t) := by
        rw [← hhealth]
        rfl
      rw [Prog.under_bind_error hask]
      exact settled_raised ⟨hmethod, e, rfl⟩ e
    | ok state =>
      have hask : (Prog.perform (Act.ask Choice.health) : Code T ν _).under c s t = (.ok state, s, t) := by
        rw [← hhealth]
        rfl
      rw [Prog.under_bind_ok hask]
      exact settled_answer (by simp) _

/-- What the header `x-maya-session-binding` is refused for. -/
theorem contract_iff {α : Type} (binding : Option α) (required contract : String) :
    ¬ (required ≠ "" ∧ (binding.isNone = true ∨ required ≠ contract)) ↔
      required = "" ∨ binding.isSome = true ∧ required = contract := by
  cases binding <;> by_cases required = "" <;> simp [*]

/-! ## The token -/

variable (loc) in
theorem authenticateIdentity_eq {token : String} (hstored : a.stored = some token)
    (hascii : isAscii token = true) (headers : List (String × String)) :
    a.authenticateIdentity loc headers =
      if ∃ text, supplied loc headers = some text ∧ isAscii text = false then .error .failure
      else .ok (if supplied loc headers = some token then some a.identity else none) := by
  unfold BearerTokenAuthenticator.authenticateIdentity
  cases hsupplied : supplied loc headers with
  | none => simp
  | some text =>
    rw [hstored]
    cases htext : isAscii text with
    | false => simp [htext, compareDigest]
    | true =>
      simp [htext, compareDigest, hascii]

variable (api) in
/-- `authenticated` and `identity` of `handle`, from what `authenticate_identity` gives. -/
def seen (r : Except Exn (Option RequestIdentity)) : Except Exn (Bool × Option RequestIdentity) :=
  match api.binding, r with
  | none, .ok identity => .ok (identity.isSome, none)
  | none, .error e => .error e
  | some _, .ok identity => .ok (identity.isSome, identity)
  | some _, .error e => if e.isException then .ok (false, none) else .error e

variable (api) in
theorem authenticate_under {c : Choice ν} {r : Except Exn (Option RequestIdentity)}
    (h : a.authenticateIdentity loc request.headers = r) :
    (LocalApi.authenticate api : Code T ν _).under (answering a loc request c) s t =
      (seen api r, s, t) := by
  unfold LocalApi.authenticate seen
  cases api.binding with
  | none =>
    have hask : (Prog.perform (Act.ask Choice.authenticate) : Code T ν _).under
        (answering a loc request c) s t = (r.map Option.isSome, s, t) := by
      show (a.authenticate loc request.headers, s, t) = _
      rw [BearerTokenAuthenticator.authenticate, h]
      cases r <;> rfl
    cases r with
    | ok identity => exact Prog.under_bind_ok hask
    | error e => exact Prog.under_bind_error hask
  | some b =>
    have hask : (Prog.perform (Act.ask Choice.authenticateIdentity) : Code T ν _).under
        (answering a loc request c) s t = (r, s, t) := by
      rw [← h]
      rfl
    simp only
    rw [Prog.under_andThen, hask]
    cases r with
    | ok identity => rfl
    | error e => cases e <;> rfl

end

section

variable {T ν : Type} [LinearOrder T] [Add T] [OfNat T 0] [OfNat T 3600]
  {files : ResolvedPath → ResolvedPath} (a : BearerTokenAuthenticator) (loc : Broker.Locale)
  (clock : Clock T) (api : LocalAPI T files) (loads : Loads ν) (request : Request) (c : Choice ν)

/-- `handle` of one request. -/
def handled (s : Shared T) (t : Thread) : Except Exn (Response ν) × Shared T × Thread :=
  (handle loc clock api loads request).under (answering a loc request c) s t

/-- The call returns a response, and its new events are guarded. -/
structure Handled (s : Shared T) (t : Thread) : Prop where
  returns : ∃ response, (handled a loc clock api loads request c s t).1 = .ok response
  guarded : ∃ new, (handled a loc clock api loads request c s t).2.2.events = t.events ++ new ∧
    Guarded a loc api loads request new

/-- What comes of a run request with this input. -/
def outcome (locked : Option Nat) (input : RunInput) : Except Exn Unit :=
  match api.binding with
  | none => c.run.map fun _ => ()
  | some b =>
    if input.classified = true ∧ input.dataClassification ≠ a.identity.dataClassification then .ok ()
    else do
      entry c b a.identity locked
      c.run.map fun _ => ()

/-- The JSON parser raises what is no `JSONDecodeError`, or the agent what is no `Exception`. -/
def RunRaises (locked : Option Nat) : Prop :=
  (∃ text e, String.fromUTF8? request.body = some text ∧ loads text = .error e) ∨
    ∃ input, Requests loc api loads request input ∧
      ∃ e, outcome a api c locked input = .error e ∧ e.isException = false

/-- One of the routes lets an exception pass. -/
inductive RouteRaises (locked : Option Nat) : Prop where
  | health (reaches : Reaches a loc api request "/v1/health" "GET") {e : Exn}
      (raised : c.health = .error e)
  | run (reaches : Reaches a loc api request "/v1/run" "POST")
      (raised : RunRaises a loc api loads request c locked)
  | sessionBinding (reaches : Reaches a loc api request "/v1/session-binding" "GET")
      {b : Binding T files} (binding : api.binding = some b) {e : Exn}
      (raised : entry c b a.identity locked = .error e) (passed : e.isDenied = false)

/-- The comparison of the token raises, or a route does. -/
inductive Raises (locked : Option Nat) : Prop where
  | token (binding : api.binding = none) (path : "/v1/".toList.isPrefixOf request.path.toList)
      {text : String} (token : supplied loc request.headers = some text)
      (unicode : isAscii text = false)
  | route (raised : RouteRaises a loc api loads request c locked)

variable {a loc api loads request c} {s : Shared T} {t : Thread} {input : RunInput}

/-! ## `_run` -/

theorem runAgent_free (identity : Option RequestIdentity)
    (hreach : Reaches a loc api request "/v1/run" "POST")
    (hinput : Requests loc api loads request input) (hbinding : api.binding = none) :
    Settled a loc api loads request
      (∃ e, outcome a api c s.locked input = .error e ∧ e.isException = false) t
      ((runAgent clock api identity input).under c s t) := by
  unfold runAgent outcome
  simp only [hbinding]
  refine runErrors_settled _ ?_ ⟨[.entered t.vars _], rfl, ?_⟩
  · show _ ↔ ∃ e, c.run = .error e ∧ _
    cases c.run <;> simp [Except.map]
  · refine guarded_run [] rfl hreach hinput ?_
    rintro b hb
    rw [hbinding] at hb
    cases hb

variable (a input) in
/-- The call of the agent under the binding. -/
abbrev boundCall : AgentCall where
  message := input.message
  idempotencyKey := input.idempotencyKey.map hash
  dataClassification := a.identity.dataClassification

theorem runAgent_bound {b : Binding T files}
    (hreach : Reaches a loc api request "/v1/run" "POST")
    (hinput : Requests loc api loads request input) (hbinding : api.binding = some b) :
    Settled a loc api loads request
      (∃ e, outcome a api c s.locked input = .error e ∧ e.isException = false) t
      ((runAgent clock api (some a.identity) input).under c s t) := by
  unfold runAgent outcome
  simp only [hbinding]
  split
  · exact settled_answer (by simp) _
  · refine runErrors_settled _ ?_ ?_
    · cases authenticatedRequest_entered clock (agentRun (boundCall a input)) a.identity
          (b := b) (c := c) (s := s) (t := t) with
      | refused before stops result events calm =>
        rw [result, stops, error_bind]
        simp
      | inside before passes owner vars fits events bound calm result after =>
        have hrun : (do
            let _ ← entry c b a.identity s.locked
            c.run.map fun _ => ()) = c.run.map fun _ => () := by rw [passes, ok_bind]
        rw [result, hrun]
        show _ ↔ ∃ e, c.run = .error e ∧ _
        cases c.run <;> simp [Except.map]
    · cases authenticatedRequest_entered clock (agentRun (boundCall a input)) a.identity
          (b := b) (c := c) (s := s) (t := t) with
      | refused before stops result events calm => exact ⟨before, events, guarded_calm calm⟩
      | @inside s' t' context before passes owner vars fits events bound calm result after =>
        refine ⟨before ++ [.entered t'.vars (boundCall a input)], ?_, guarded_run before calm hreach hinput ?_⟩
        · rw [after, ← List.append_assoc, ← events]
          rfl
        · rintro b' hb'
          obtain rfl : b = b' := Option.some.inj (hbinding.symm.trans hb')
          exact ⟨owner, congrArg Vars.identity vars, context, congrArg Vars.session vars, fits, bound⟩

theorem runAgent_settled (hreach : Reaches a loc api request "/v1/run" "POST")
    (hinput : Requests loc api loads request input) :
    Settled a loc api loads request
      (∃ e, outcome a api c s.locked input = .error e ∧ e.isException = false) t
      ((runAgent clock api (api.binding.map fun _ => a.identity) input).under c s t) := by
  cases hbinding : api.binding with
  | none => exact runAgent_free clock none hreach hinput hbinding
  | some b => exact runAgent_bound clock hreach hinput hbinding

omit [Add T] in
theorem not_runRaises {locked : Option Nat} {text : String}
    {value : Option (Payload ν)} (hbody : String.fromUTF8? request.body = some text)
    (hloads : loads text = .ok value)
    (h : ∀ dict payload, value = some (.mapping dict payload) → ∀ input,
      runInput loc api.binding.isSome payload ≠ .ok input) :
    ¬ RunRaises a loc api loads request c locked := by
  rintro (⟨text', e, htext, he⟩ | ⟨input, ⟨text', dict, payload, htext, hvalue, hinput⟩, -⟩)
  · obtain rfl : text = text' := Option.some.inj (hbody.symm.trans htext)
    rw [hloads] at he
    cases he
  · obtain rfl : text = text' := Option.some.inj (hbody.symm.trans htext)
    rw [hloads] at hvalue
    cases hvalue
    exact h dict payload rfl input hinput

omit [Add T] in
theorem runRaises_of_requests {locked : Option Nat}
    (h : Requests loc api loads request input) :
    RunRaises a loc api loads request c locked ↔
      ∃ e, outcome a api c locked input = .error e ∧ e.isException = false := by
  obtain ⟨text, dict, payload, hbody, hloads, hinput⟩ := h
  constructor
  · rintro (⟨text', e, htext, he⟩ | ⟨input', ⟨text', dict', payload', htext, hvalue, hinput'⟩, h⟩)
    · obtain rfl : text = text' := Option.some.inj (hbody.symm.trans htext)
      rw [hloads] at he
      cases he
    · obtain rfl : text = text' := Option.some.inj (hbody.symm.trans htext)
      rw [hloads] at hvalue
      cases hvalue
      rw [hinput] at hinput'
      cases hinput'
      exact h
  · intro h
    exact .inr ⟨input, ⟨text, dict, payload, hbody, hloads, hinput⟩, h⟩

theorem runRequest_settled (hadmissible : Admissible a loc api request)
    (hpath : request.path = "/v1/run") :
    Settled a loc api loads request
      (loc.upper request.method = "POST" ∧ RunRaises a loc api loads request c s.locked) t
      ((runRequest loc clock api loads request (api.binding.map fun _ => a.identity)).under c s t) := by
  unfold runRequest
  split
  · rename_i hmethod
    exact settled_answer (fun h => hmethod h.1) _
  · rename_i hmethod
    rw [not_not] at hmethod
    have hreach : Reaches a loc api request "/v1/run" "POST" := ⟨hadmissible, hpath, hmethod⟩
    cases hbody : String.fromUTF8? request.body with
    | none =>
      refine settled_answer ?_ _
      rintro ⟨-, ⟨text, e, htext, -⟩ | ⟨input, ⟨text, dict, payload, htext, -⟩, -⟩⟩
      · rw [hbody] at htext
        cases htext
      · rw [hbody] at htext
        cases htext
    | some text =>
      simp only [Option.map_some]
      cases hloads : loads text with
      | error e => exact settled_raised ⟨hmethod, .inl ⟨text, e, hbody, hloads⟩⟩ e
      | ok value =>
        cases value with
        | none =>
          refine settled_answer (fun h => not_runRaises hbody hloads ?_ h.2) _
          rintro dict payload ⟨⟩
        | some value =>
          cases value with
          | mapping dict payload =>
            cases hinput : runInput loc api.binding.isSome payload with
            | error response =>
              simp only [hinput]
              refine settled_answer (fun h => not_runRaises hbody hloads ?_ h.2) _
              rintro _ _ ⟨⟩ input hok
              rw [hinput] at hok
              cases hok
            | ok input =>
              have hrequests : Requests loc api loads request input :=
                ⟨text, dict, payload, hbody, hloads, hinput⟩
              simp only [hinput]
              exact (runAgent_settled clock hreach hrequests).congr
                ((and_iff_right hmethod).trans (runRaises_of_requests hrequests)).symm
          | none | bool _ | int _ | float _ | str _ | list _ _ | path _ | object =>
            refine settled_answer (fun h => not_runRaises hbody hloads ?_ h.2) _
            rintro dict payload ⟨⟩

/-! ## `handle` -/

theorem sessionBinding_settled :
    Settled a loc api loads request
      (loc.upper request.method = "GET" ∧ ∃ b, api.binding = some b ∧
        ∃ e, entry c b a.identity s.locked = .error e ∧ e.isDenied = false) t
      ((sessionBinding loc clock api request (api.binding.map fun _ => a.identity) :
        Code T ν (Response ν)).under c s t) := by
  unfold sessionBinding
  split
  · rename_i hmethod
    exact settled_answer (fun h => hmethod h.1) _
  · rename_i hmethod
    rw [not_not] at hmethod
    cases hbinding : api.binding with
    | none => exact settled_answer (by simp) _
    | some b =>
      obtain ⟨hafter, hreturns⟩ := deniedAs_under (c := c) (s := s) (t := t)
        (p := authenticatedRequest clock b a.identity (pure bindingResponse))
        (jsonResponse 403 "action_denied" "action denied")
      cases authenticatedRequest_entered clock (pure bindingResponse : Code T ν _) a.identity
        (b := b) (c := c) (s := s) (t := t) with
      | @refused e before stops result events calm =>
        refine ⟨?_, before, (congrArg (fun x => x.2.events) hafter).trans events, guarded_calm calm⟩
        refine hreturns.trans ?_
        rw [result]
        simp [hmethod, stops]
      | @inside s' t' context before passes owner vars fits events bound calm result after =>
        refine ⟨?_, before, ?_, guarded_calm calm⟩
        · refine hreturns.trans ?_
          rw [result]
          simp [passes, pure, Prog.under]
        · exact (congrArg (fun x => x.2.events) hafter).trans (after.trans events)

omit [Add T] in
theorem RouteRaises.admissible {locked : Option Nat}
    (h : RouteRaises a loc api loads request c locked) : Admissible a loc api request := by
  cases h with
  | health reaches | run reaches | sessionBinding reaches => exact reaches.toAdmissible

omit [Add T] in
theorem RouteRaises.path {locked : Option Nat}
    (h : RouteRaises a loc api loads request c locked) :
    "/v1/".toList.isPrefixOf request.path.toList := by
  cases h with
  | health reaches | run reaches | sessionBinding reaches =>
    rw [reaches.path]
    decide

theorem route_settled
    (htoken : ∃ token, supplied loc request.headers = some token ∧ a.stored = some token) :
    Settled a loc api loads request (RouteRaises a loc api loads request c s.locked) t
      ((route loc clock api loads request (api.binding.map fun _ => a.identity)).under c s t) := by
  unfold route
  dsimp only
  split
  · rename_i hrequired
    refine settled_answer (fun h => ?_) _
    exact (contract_iff _ _ _).mpr h.admissible.contract hrequired
  · rename_i hrequired
    split
    · rename_i hsize
      refine settled_answer (fun h => ?_) _
      exact absurd h.admissible.size (Nat.not_le.mpr hsize)
    · rename_i hsize
      have hadmissible : Admissible a loc api request :=
        ⟨htoken, (contract_iff _ _ _).mp hrequired, Nat.le_of_not_lt hsize⟩
      split
      · rename_i hpath
        refine health_settled.congr ⟨?_, ?_⟩
        · rintro ⟨hmethod, e, he⟩
          exact .health ⟨hadmissible, hpath, hmethod⟩ he
        · rintro (⟨reaches, raised⟩ | ⟨reaches, -⟩ | ⟨reaches, -⟩)
          · exact ⟨reaches.method, _, raised⟩
          · exact absurd (hpath.symm.trans reaches.path) (by decide)
          · exact absurd (hpath.symm.trans reaches.path) (by decide)
      · rename_i hnohealth
        split
        · rename_i hpath
          refine (runRequest_settled clock hadmissible hpath).congr ⟨?_, ?_⟩
          · rintro ⟨hmethod, hraises⟩
            exact .run ⟨hadmissible, hpath, hmethod⟩ hraises
          · rintro (⟨reaches, -⟩ | ⟨reaches, raised⟩ | ⟨reaches, -⟩)
            · exact absurd reaches.path hnohealth
            · exact ⟨reaches.method, raised⟩
            · exact absurd (hpath.symm.trans reaches.path) (by decide)
        · rename_i hnorun
          split
          · rename_i hpath
            refine (sessionBinding_settled clock).congr ⟨?_, ?_⟩
            · rintro ⟨hmethod, b, hbinding, e, he, hpassed⟩
              exact .sessionBinding ⟨hadmissible, hpath, hmethod⟩ hbinding he hpassed
            · rintro (⟨reaches, -⟩ | ⟨reaches, -⟩ | ⟨reaches, binding, raised, passed⟩)
              · exact absurd reaches.path hnohealth
              · exact absurd reaches.path hnorun
              · exact ⟨reaches.method, _, binding, _, raised, passed⟩
          · rename_i hnobinding
            refine settled_answer ?_ _
            rintro (⟨reaches, -⟩ | ⟨reaches, -⟩ | ⟨reaches, -⟩)
            · exact hnohealth reaches.path
            · exact hnorun reaches.path
            · exact hnobinding reaches.path

omit [Add T] in
theorem routeRaises_answering {locked : Option Nat} :
    RouteRaises a loc api loads request (answering a loc request c) locked ↔
      RouteRaises a loc api loads request c locked := by
  constructor
  · rintro (⟨reaches, raised⟩ | ⟨reaches, raised⟩ | ⟨reaches, binding, raised, passed⟩)
    · exact .health reaches raised
    · exact .run reaches raised
    · exact .sessionBinding reaches binding raised passed
  · rintro (⟨reaches, raised⟩ | ⟨reaches, raised⟩ | ⟨reaches, binding, raised, passed⟩)
    · exact .health reaches raised
    · exact .run reaches raised
    · exact .sessionBinding reaches binding raised passed

omit [Add T] in
/-- Without the token that is stored, no route raises. -/
theorem not_routeRaises {locked : Option Nat} {token : String}
    (hstored : a.stored = some token) (hbears : supplied loc request.headers ≠ some token) :
    ¬ RouteRaises a loc api loads request c locked := by
  intro h
  obtain ⟨token', htoken, hsame⟩ := h.admissible.token
  rw [hstored] at hsame
  cases hsame
  exact hbears htoken

variable (loc api loads request) in
theorem handled_settled {token : String} (hstored : a.stored = some token)
    (hascii : isAscii token = true) :
    Settled a loc api loads request (Raises a loc api loads request c s.locked) t
      (handled a loc clock api loads request c s t) := by
  unfold handled handle
  split
  · rename_i hpath
    refine settled_answer ?_ _
    rintro (⟨-, path, -, -⟩ | ⟨raised⟩)
    · exact hpath path
    · exact hpath raised.path
  · rename_i hpath
    rw [not_not] at hpath
    have hverdict := authenticateIdentity_eq loc hstored hascii request.headers
    have hseen := authenticate_under api (c := c) (s := s) (t := t) hverdict
    by_cases hunicode : ∃ text, supplied loc request.headers = some text ∧ isAscii text = false
    · rw [if_pos hunicode] at hseen
      obtain ⟨text, hsupplied, htext⟩ := hunicode
      have hbears : supplied loc request.headers ≠ some token := by
        rw [hsupplied]
        rintro ⟨⟩
        rw [hascii] at htext
        cases htext
      cases hbinding : api.binding with
      | none =>
        have hraises : seen api (.error .failure) = .error .failure := by
          unfold seen
          rw [hbinding]
        rw [hraises] at hseen
        rw [Prog.under_bind_error hseen]
        exact settled_raised (.token hbinding hpath hsupplied htext) _
      | some b =>
        have hnone : seen api (.error .failure) = .ok (false, none) := by
          unfold seen
          rw [hbinding]
          rfl
        rw [hnone] at hseen
        rw [Prog.under_bind_ok hseen]
        refine settled_answer ?_ _
        rintro (⟨binding, -⟩ | ⟨raised⟩)
        · rw [hbinding] at binding
          cases binding
        · exact not_routeRaises hstored hbears raised
    · rw [if_neg hunicode] at hseen
      have hraises : Raises a loc api loads request c s.locked ↔
          RouteRaises a loc api loads request c s.locked := by
        refine ⟨?_, .route⟩
        rintro (⟨-, -, token, unicode⟩ | ⟨raised⟩)
        · exact absurd ⟨_, token, unicode⟩ hunicode
        · exact raised
      by_cases hbears : supplied loc request.headers = some token
      · have hidentity : seen api (.ok (some a.identity)) =
            .ok (true, api.binding.map fun _ => a.identity) := by
          unfold seen
          cases api.binding <;> rfl
        rw [if_pos hbears, hidentity] at hseen
        rw [Prog.under_bind_ok hseen]
        exact (route_settled clock ⟨token, hbears, hstored⟩).congr
          (routeRaises_answering.trans hraises.symm)
      · have hnone : seen api (.ok none) = .ok (false, none) := by
          unfold seen
          cases api.binding <;> rfl
        rw [if_neg hbears, hnone] at hseen
        rw [Prog.under_bind_ok hseen]
        exact settled_answer (fun h => not_routeRaises hstored hbears (hraises.mp h)) _

variable (a loc api loads request c)

/-- A call returns exactly where nothing raises; the agent runs for the right requests anyway. -/
theorem handled_iff {token : String} (hstored : a.stored = some token)
    (hascii : isAscii token = true) (s : Shared T) (t : Thread) :
    Handled a loc clock api loads request c s t ↔ ¬ Raises a loc api loads request c s.locked := by
  have hsettled := handled_settled loc clock api loads request (c := c) (s := s) (t := t)
    hstored hascii
  exact ⟨fun h => hsettled.returns.mp h.returns, fun h => ⟨hsettled.returns.mpr h, hsettled.guarded⟩⟩

end

namespace BearerSample

def clock : Clock Nat := ⟨id, monotone_id⟩

/-- Texts that Python's functions leave as they are. -/
def loc : Broker.Locale where
  upper text := text
  lower text := text
  strip text := text
  split text := [text]
  isAlnum _ := true
  parseQuery _ := none
  zone _ := 0

def api : LocalAPI Nat id := {}

def authenticator : BearerTokenAuthenticator where
  identity := { actorId := "local-user" }
  stored := some "secret"

def loads : Loads Rat := fun _ => .ok (some (.mapping true [(.str "input", .str "hello")]))

def run (token : String) : Request where
  method := "POST"
  path := "/v1/run"
  headers := [("authorization", "Bearer " ++ token)]
  body := "\x7b\"input\": \"hello\"\x7d".toUTF8

theorem stored_ascii : isAscii "secret" = true := by decide

/-- The agent runs. -/
theorem secret_handled : Handled authenticator loc clock api loads (run "secret") {} {} { id := 1 } := by
  refine (handled_iff authenticator loc clock api loads (run "secret") {} rfl stored_ascii {}
    { id := 1 }).mpr ?_
  rintro (⟨-, -, token, unicode⟩ | ⟨⟨reaches, -⟩ | ⟨reaches, h | h⟩ | ⟨reaches, -⟩⟩)
  · have hsupplied : supplied loc (run "secret").headers = some "secret" := by rfl
    rw [hsupplied] at token
    cases token
    rw [stored_ascii] at unicode
    cases unicode
  · exact absurd reaches.path (by decide)
  · obtain ⟨text, e, -, he⟩ := h
    cases he
  · obtain ⟨input, -, e, he, -⟩ := h
    cases he
  · exact absurd reaches.path (by decide)

theorem accented_raised :
    ¬ Handled authenticator loc clock api loads (run "secrét") {} {} { id := 1 } := by
  intro h
  obtain ⟨response, hresponse⟩ := h.returns
  have hraised : (handled authenticator loc clock api loads (run "secrét") {} {} { id := 1 }).1 =
      .error .failure := by rfl
  rw [hraised] at hresponse
  cases hresponse

end BearerSample

end ProjectMaya.LocalApi
