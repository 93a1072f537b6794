import ProjectMaya.LocalApi
import ProjectMaya.Logic.Dialogue
import ProjectMaya.Logic.Raises
import ProjectMaya.Loopback

/-! # The client of the bound local API

`run_authenticated_cli_request` is a dialogue with whatever listens at the endpoint: it asks
for the binding, and only when that is confirmed does it send the message.  Every answer goes
through `judge`.  `takes_iff` are all its transcripts, and `spoken` is what they have in common,
whatever the peer. -/

namespace ProjectMaya.SessionClient

open Logic
open Plugin (Dict Key Payload checkedPayload)
open LocalApi (Request requestBindingContract)
open Configuration (MayaConfig)

/-- What leaves the client as an exception. -/
inductive Exn where
  /-- `CandidateSessionClientError(code)` -/
  | error (code : String)
  /-- a `BaseException` that is no `Exception` -/
  | interrupt
  deriving DecidableEq, Repr

/-- What comes back from the endpoint. -/
inductive Answer where
  /-- A response; `data` is all that the endpoint sends as its body. -/
  | response (status : Nat) (data : List UInt8)
  /-- Connecting, sending or receiving raises an `Exception`. -/
  | failed
  | interrupted
  deriving DecidableEq, Repr

/-- `ACKNOWLEDGEMENT` -/
def requiredAcknowledgement : String := "session-write-source-candidate-only"

def maxResponseBytes : Nat := 1048576

/-! ## The token -/

/-- A character of the class in the pattern of tokens. -/
def tokenChar (c : Char) : Bool := c.isAlphanum || ['.', '_', '~', '+', '/', '-'].contains c

/-- One or more characters of the class, then at most two `=`; and the bounds of the length. -/
def tokenFits (token : String) : Bool :=
  let chars := token.toList
  let padding := chars.dropWhile tokenChar
  1 ≤ chars.length && chars.length ≤ 4096 && chars.takeWhile tokenChar ≠ [] &&
    padding.length ≤ 2 && padding.all (· = '=')

/-- `token in item` -/
def contains (token item : String) : Bool := decide (token.toList <:+: item.toList)

/-- `token.encode() in data` -/
def containsBytes (token : String) (data : List UInt8) : Bool := decide (utf8 token.toList <:+: data)

section

variable {ν : Type}

/-- A key of a mapping, as an item. -/
def keyItem : Key → Payload ν
  | .str s => .str s
  | .other => .object

/-- What an item puts on `pending`. -/
def parts : Payload ν → List (Payload ν)
  | .mapping _ items => items.map (keyItem ∘ Prod.fst) ++ items.map Prod.snd
  | .list false items => items
  | _ => []

mutual

def weight : Payload ν → Nat
  | .mapping _ items => 1 + weightMembers items
  | .list _ items => 1 + weightItems items
  | _ => 1

def weightItems : List (Payload ν) → Nat
  | [] => 0
  | v :: rest => weight v + weightItems rest

def weightMembers : List (Key × Payload ν) → Nat
  | [] => 0
  | (_, v) :: rest => 1 + weight v + weightMembers rest

end

theorem weightItems_eq (items : List (Payload ν)) : weightItems items = (items.map weight).sum := by
  induction items with
  | nil => rfl
  | cons v rest ih => rw [weightItems, ih, List.map_cons, List.sum_cons]

theorem weight_keyItem (k : Key) : weight (keyItem k : Payload ν) = 1 := by
  cases k <;> rfl

theorem weight_members (items : List (Key × Payload ν)) :
    ((items.map (keyItem ∘ Prod.fst) ++ items.map Prod.snd).map weight).sum = weightMembers items := by
  induction items with
  | nil => rfl
  | cons x rest ih =>
    obtain ⟨k, v⟩ := x
    rw [weightMembers, ← ih]
    simp only [List.map_cons, List.cons_append, List.map_append, List.sum_cons, List.sum_append,
      Function.comp_apply, weight_keyItem]
    omega

theorem weight_parts (v : Payload ν) : ((parts v).map weight).sum < weight v := by
  cases v with
  | mapping d items =>
    rw [parts, weight_members, weight]
    omega
  | list t items =>
    cases t with
    | false =>
      rw [parts, weight, weightItems_eq]
      omega
    | true => exact Nat.lt_add_right _ Nat.one_pos
  | _ => exact Nat.one_pos

/-- `isinstance(item, str) and token in item` -/
def itself (token : String) : Payload ν → Bool
  | .str s => contains token s
  | _ => false

/-- The loop over `pending`, whose last item stands first: the token is in one of its texts. -/
def carries (token : String) : List (Payload ν) → Bool
  | [] => false
  | item :: pending => itself token item || carries token ((parts item).reverse ++ pending)
termination_by pending => (pending.map weight).sum
decreasing_by
  simp only [List.map_append, List.map_reverse, List.sum_append, List.sum_reverse, List.map_cons,
    List.sum_cons]
  have h := weight_parts item
  omega

/-- The token is in a text at some depth, or in the name of a member. -/
inductive Holds (token : String) : Payload ν → Prop
  | text {s : String} : contains token s = true → Holds token (.str s)
  | name {d : Bool} {items : List (Key × Payload ν)} {s : String} {x : Payload ν} :
      (.str s, x) ∈ items → contains token s = true → Holds token (.mapping d items)
  | value {d : Bool} {items : List (Key × Payload ν)} {k : Key} {x : Payload ν} :
      (k, x) ∈ items → Holds token x → Holds token (.mapping d items)
  | item {items : List (Payload ν)} {x : Payload ν} :
      x ∈ items → Holds token x → Holds token (.list false items)

/-- One item of the loop. -/
theorem holds_iff {token : String} {v : Payload ν} :
    Holds token v ↔ itself token v = true ∨ ∃ x ∈ parts v, Holds token x := by
  constructor
  · rintro (htext | ⟨hmem, hname⟩ | ⟨hmem, hvalue⟩ | ⟨hmem, hitem⟩)
    · exact .inl htext
    · exact .inr ⟨_, List.mem_append_left _ (List.mem_map.mpr ⟨_, hmem, rfl⟩), .text hname⟩
    · exact .inr ⟨_, List.mem_append_right _ (List.mem_map.mpr ⟨_, hmem, rfl⟩), hvalue⟩
    · exact .inr ⟨_, hmem, hitem⟩
  · rintro (h | ⟨x, hx, h⟩)
    · cases v with
      | str s => exact .text h
      | _ => cases h
    · cases v with
      | mapping d items =>
        rcases List.mem_append.mp hx with hx | hx
        · obtain ⟨⟨k, y⟩, hmem, rfl⟩ := List.mem_map.mp hx
          cases k with
          | other => cases h
          | str s =>
            cases h with
            | text h => exact .name hmem h
        · obtain ⟨⟨k, y⟩, hmem, rfl⟩ := List.mem_map.mp hx
          exact .value hmem h
      | list t items =>
        cases t with
        | false => exact .item hx h
        | true => cases hx
      | _ => cases hx

theorem carries_iff {token : String} {pending : List (Payload ν)} :
    carries token pending = true ↔ ∃ v ∈ pending, Holds token v := by
  induction pending using carries.induct with
  | case1 => simp [carries]
  | case2 item pending ih =>
    rw [carries, Bool.or_eq_true, ih, List.exists_mem_cons_iff, holds_iff]
    constructor
    · rintro (h | ⟨v, hv, h⟩)
      · exact .inl (.inl h)
      · rcases List.mem_append.mp hv with hv | hv
        · exact .inl (.inr ⟨v, List.mem_reverse.mp hv, h⟩)
        · exact .inr ⟨v, hv, h⟩
    · rintro ((h | ⟨v, hv, h⟩) | ⟨v, hv, h⟩)
      · exact .inl h
      · exact .inr ⟨v, List.mem_append_left _ (List.mem_reverse.mpr hv), h⟩
      · exact .inr ⟨v, List.mem_append_right _ hv, h⟩

end

/-! ## One exchange -/

/-- What the client does with an exception that is no `CandidateSessionClientError`. -/
def failed : Raised → Exn
  | .interrupt => .interrupt
  | _ => .error "request_failed"

section

variable {ν : Type}

/-- `item == text` -/
def isText (text : String) : Payload ν → Bool
  | .str s => s = text
  | _ => false

/-- The payload as a mapping that confirms the binding. -/
def confirming : Payload ν → Option (Dict ν)
  | .mapping _ body =>
    if isText requestBindingContract (Dict.get body "session_binding_contract") = true ∧
        isText "source_candidate_only" (Dict.get body "qualification") = true then
      some body
    else none
  | _ => none

theorem isText_iff {text : String} {v : Payload ν} : isText text v = true ↔ v = .str text := by
  cases v <;> simp [isText]

theorem confirming_eq_some {parsed : Payload ν} {body : Dict ν} :
    confirming parsed = some body ↔ ∃ dict, parsed = .mapping dict body ∧
      Dict.get body "session_binding_contract" = .str requestBindingContract ∧
      Dict.get body "qualification" = .str "source_candidate_only" := by
  unfold confirming
  constructor
  · intro h
    split at h
    · split at h
      · rename_i hboth
        cases h
        exact ⟨_, rfl, isText_iff.mp hboth.1, isText_iff.mp hboth.2⟩
      · cases h
    · cases h
  · rintro ⟨dict, rfl, hcontract, hqualification⟩
    exact if_pos ⟨isText_iff.mpr hcontract, isText_iff.mpr hqualification⟩

theorem mapError_eq_ok {ε ε' α : Type} {f : ε → ε'} {x : Except ε α} {a : α} :
    x.mapError f = .ok a ↔ x = .ok a := by
  cases x with
  | ok b =>
    show Except.ok b = Except.ok a ↔ _
    rw [Except.ok.injEq, Except.ok.injEq]
  | error e => exact ⟨nofun, nofun⟩

variable [Plugin.Python ν] (decode : List UInt8 → Except Raised (Payload ν)) (token : String)

/-- What `exchange` makes of an answer; `decode` is `json.loads` of bytes. -/
def judge : Answer → Except Exn (Dict ν)
  | .failed => .error (.error "request_failed")
  | .interrupted => .error .interrupt
  | .response status sent => do
    ensure (status = 200) (.error "request_rejected")
    let data := sent.take (maxResponseBytes + 1)
    ensure (data.length ≤ maxResponseBytes ∧ containsBytes token data = false) (.error "response_rejected")
    let parsed ← (decode data).mapError failed
    ensure (carries token [parsed] = false) (.error "response_rejected")
    let body ← fetch (confirming parsed) (.error "binding_required")
    let _ ← (checkedPayload parsed).mapError failed
    return body

/-- An answer that the client takes, with its body. -/
structure Taken (answer : Answer) (body : Dict ν) : Prop where
  response : ∃ data dict, answer = .response 200 data ∧ data.length ≤ maxResponseBytes ∧
    containsBytes token data = false ∧ decode data = .ok (.mapping dict body) ∧
    ¬ Holds token (.mapping dict body) ∧ ∃ text, checkedPayload (.mapping dict body) = .ok text
  contract : Dict.get body "session_binding_contract" = .str requestBindingContract
  qualification : Dict.get body "qualification" = .str "source_candidate_only"

variable {decode token} {answer : Answer} {body : Dict ν}

theorem judge_eq_ok : judge decode token answer = .ok body ↔ Taken decode token answer body := by
  constructor
  · intro h
    cases answer with
    | failed => cases h
    | interrupted => cases h
    | response status sent =>
      simp only [judge, bind_eq_ok, ensure_eq_ok, fetch_eq_ok, pure_eq_ok, mapError_eq_ok] at h
      obtain ⟨_, rfl, _, ⟨hlength, hbytes⟩, parsed, hdecode,
        _, hcarries, body', hconfirming, text, hchecked, rfl⟩ := h
      have hwhole : sent.take (maxResponseBytes + 1) = sent := by
        rw [List.take_eq_self_iff]
        rw [List.length_take] at hlength
        omega
      rw [hwhole] at hlength hbytes hdecode
      obtain ⟨dict, rfl, hcontract, hqualification⟩ := confirming_eq_some.mp hconfirming
      refine ⟨⟨sent, dict, rfl, hlength, hbytes, hdecode, fun hholds => ?_, text, hchecked⟩,
        hcontract, hqualification⟩
      rw [carries_iff.mpr ⟨_, List.mem_singleton.mpr rfl, hholds⟩] at hcarries
      cases hcarries
  · rintro ⟨⟨data, dict, rfl, hlength, hbytes, hdecode, hholds, text, hchecked⟩, hcontract, hqualification⟩
    have hwhole : data.take (maxResponseBytes + 1) = data := by
      rw [List.take_eq_self_iff]
      omega
    simp only [judge, bind_eq_ok, ensure_eq_ok, fetch_eq_ok, pure_eq_ok, mapError_eq_ok]
    rw [hwhole]
    refine ⟨(), trivial, (), ⟨hlength, hbytes⟩, _, hdecode, (), ?_, body,
      confirming_eq_some.mpr ⟨dict, rfl, hcontract, hqualification⟩, text, hchecked, rfl⟩
    rw [Bool.eq_false_iff]
    intro hcarries
    obtain ⟨v, hv, hholds'⟩ := carries_iff.mp hcarries
    rw [List.mem_singleton.mp hv] at hholds'
    exact hholds hholds'

end

/-! ## The dialogue -/

/-- `json.dumps({"input": message})` -/
def inputText (message : String) : List Char :=
  "\x7b\"input\": ".toList ++ Json.quote message ++ ['\x7d']

/-- The value of the `Host` header. -/
def hostText (host : List Char) (port : Int) : String :=
  let host := if ':' ∈ host then '[' :: (host ++ [']']) else host
  String.ofList (if port = 80 then host else host ++ ':' :: (toString port).toList)

/-- A request as it arrives: `http.client` adds the first headers. -/
def requestOf (host : List Char) (port : Int) (token method path : String) (payload : Option (List Char)) :
    Request where
  method
  path
  headers :=
    [("Host", hostText host port), ("Accept-Encoding", "identity")] ++
      (payload.map fun body => ("Content-Length", toString (utf8 body).length)).toList ++
      [("Authorization", "Bearer " ++ token), ("Content-Type", "application/json"),
        ("X-Maya-Session-Binding", requestBindingContract)]
  body := (String.ofList (payload.getD [])).toUTF8

section

variable {μ ν : Type} [Vector.Python μ] [Plugin.Python ν] (decode : List UInt8 → Except Raised (Payload ν))
  (loc : Broker.Locale) (config : MayaConfig μ) (token message acknowledgement : String)

/-- The checks before anything is sent: the endpoint. -/
def endpointOf : Except Exn (List Char × Int) := do
  ensure (acknowledgement = requiredAcknowledgement) (.error "acknowledgement_required")
  let endpoint ← (Loopback.endpoint config).mapError fun _ => Exn.error "loopback_endpoint_required"
  ensure (tokenFits token = true) (.error "invalid_local_api_token")
  ensure (loc.strip message ≠ "") (.error "invalid_request")
  ensure ((utf8 (inputText message)).length ≤ 65536) (.error "request_too_large")
  return endpoint

/-- `exchange` -/
def exchange (request : Request) : Dialogue Request Answer (Except Exn (Dict ν)) :=
  .ask request fun answer => .done (judge decode token answer)

/-- `GET /v1/session-binding` -/
def bindingRequest (endpoint : List Char × Int) : Request :=
  requestOf endpoint.1 endpoint.2 token "GET" "/v1/session-binding" none

/-- `POST /v1/run` -/
def runRequest (endpoint : List Char × Int) : Request :=
  requestOf endpoint.1 endpoint.2 token "POST" "/v1/run" (some (inputText message))

/-- `run_authenticated_cli_request` -/
def runAuthenticatedCliRequest : Dialogue Request Answer (Except Exn (Payload ν)) :=
  match endpointOf loc config token message acknowledgement with
  | .error e => .done (.error e)
  | .ok endpoint => (exchange decode token (bindingRequest token endpoint)).andThen fun
    | .error e => .done (.error e)
    | .ok _ => (exchange decode token (runRequest token message endpoint)).andThen fun
      | .error e => .done (.error e)
      | .ok body => .done do
        let item ← fetch (body.find? fun item => item.1 = .str "result") (.error "response_rejected")
        return item.2

variable {decode loc config token message acknowledgement}
  {log : List (Request × Answer)} {r : Except Exn (Payload ν)} {endpoint : List Char × Int}

theorem takes_exchange {request : Request} {r : Except Exn (Dict ν)} :
    (exchange decode token request).Takes log r ↔
      ∃ answer, log = [(request, answer)] ∧ r = judge decode token answer := by
  unfold exchange
  rw [Dialogue.takes_ask]
  constructor
  · rintro ⟨answer, rest, rfl, h⟩
    obtain ⟨rfl, rfl⟩ := Dialogue.takes_done.mp h
    exact ⟨answer, rfl, rfl⟩
  · rintro ⟨answer, rfl, rfl⟩
    exact ⟨answer, [], rfl, .done _⟩

/-- The ways of a call: it is refused at once, or the binding is, or the run is, or it returns. -/
inductive Way (decode : List UInt8 → Except Raised (Payload ν)) (token : String) (get post : Request) :
    List (Request × Answer) → Except Exn (Payload ν) → Prop
  | unbound {a : Answer} {e : Exn} : judge decode token a = .error e →
      Way decode token get post [(get, a)] (.error e)
  | unanswered {a b : Answer} {bound : Dict ν} {e : Exn} : Taken decode token a bound →
      judge decode token b = .error e → Way decode token get post [(get, a), (post, b)] (.error e)
  | empty {a b : Answer} {bound body : Dict ν} : Taken decode token a bound → Taken decode token b body →
      (∀ item ∈ body, item.1 ≠ .str "result") →
      Way decode token get post [(get, a), (post, b)] (.error (.error "response_rejected"))
  | returned {a b : Answer} {bound body : Dict ν} {v : Payload ν} : Taken decode token a bound →
      Taken decode token b body → body.find? (fun item => item.1 = .str "result") = some (.str "result", v) →
      Way decode token get post [(get, a), (post, b)] (.ok v)

/-- **Every transcript** of the client, whatever answers at the endpoint. -/
theorem takes_iff :
    (runAuthenticatedCliRequest decode loc config token message acknowledgement).Takes log r ↔
    (∃ e, endpointOf loc config token message acknowledgement = .error e ∧ log = [] ∧ r = .error e) ∨
    ∃ endpoint, endpointOf loc config token message acknowledgement = .ok endpoint ∧
      Way decode token (bindingRequest token endpoint) (runRequest token message endpoint) log r := by
  unfold runAuthenticatedCliRequest
  cases hendpoint : endpointOf loc config token message acknowledgement with
  | error e =>
    simp only [Except.error.injEq, reduceCtorEq, false_and, exists_false, or_false, exists_eq_left']
    exact Dialogue.takes_done
  | ok endpoint =>
    simp only [Except.ok.injEq, reduceCtorEq, false_and, exists_false, false_or, exists_eq_left']
    simp only [Dialogue.takes_andThen, takes_exchange]
    constructor
    · rintro ⟨_, rest, _, rfl, ⟨a, rfl, rfl⟩, h⟩
      cases hbound : judge decode token a with
      | error e =>
        rw [hbound] at h
        obtain ⟨rfl, rfl⟩ := Dialogue.takes_done.mp h
        exact .unbound hbound
      | ok bound =>
        rw [hbound] at h
        simp only [Dialogue.takes_andThen, takes_exchange] at h
        obtain ⟨_, rest, _, rfl, ⟨b, rfl, rfl⟩, h⟩ := h
        cases hbody : judge decode token b with
        | error e =>
          rw [hbody] at h
          obtain ⟨rfl, rfl⟩ := Dialogue.takes_done.mp h
          exact .unanswered (judge_eq_ok.mp hbound) hbody
        | ok body =>
          rw [hbody] at h
          obtain ⟨rfl, rfl⟩ := Dialogue.takes_done.mp h
          cases hfind : body.find? fun item => item.1 = .str "result" with
          | none =>
            refine .empty (judge_eq_ok.mp hbound) (judge_eq_ok.mp hbody) fun item hitem => ?_
            simpa using List.find?_eq_none.mp hfind item hitem
          | some item =>
            have hkey : item.1 = .str "result" := by simpa using List.find?_some hfind
            exact .returned (v := item.2) (judge_eq_ok.mp hbound) (judge_eq_ok.mp hbody)
              (by rw [hfind, ← hkey])
    · intro h
      cases h with
      | unbound hbound =>
        refine ⟨[_], [], _, rfl, ⟨_, rfl, rfl⟩, ?_⟩
        rw [hbound]
        exact .done _
      | unanswered hbound hbody =>
        refine ⟨[_], [_], _, rfl, ⟨_, rfl, rfl⟩, ?_⟩
        rw [judge_eq_ok.mpr hbound]
        refine Dialogue.takes_andThen.mpr ⟨[_], [], _, rfl, takes_exchange.mpr ⟨_, rfl, rfl⟩, ?_⟩
        rw [hbody]
        exact .done _
      | @empty a b bound body hbound hbody hnone =>
        refine ⟨[_], [_], _, rfl, ⟨_, rfl, rfl⟩, ?_⟩
        rw [judge_eq_ok.mpr hbound]
        refine Dialogue.takes_andThen.mpr ⟨[_], [], _, rfl, takes_exchange.mpr ⟨_, rfl, rfl⟩, ?_⟩
        have hfind : body.find? (fun item => item.1 = .str "result") = none :=
          List.find?_eq_none.mpr fun item hitem => by simpa using hnone item hitem
        rw [judge_eq_ok.mpr hbody]
        dsimp only
        rw [hfind]
        exact .done _
      | returned hbound hbody hfind =>
        refine ⟨[_], [_], _, rfl, ⟨_, rfl, rfl⟩, ?_⟩
        rw [judge_eq_ok.mpr hbound]
        refine Dialogue.takes_andThen.mpr ⟨[_], [], _, rfl, takes_exchange.mpr ⟨_, rfl, rfl⟩, ?_⟩
        rw [judge_eq_ok.mpr hbody]
        dsimp only
        rw [hfind]
        exact .done _

/-! ## What no peer can change -/

/-- The codes of the exceptions before anything is sent. -/
def checkCodes : List String := ["acknowledgement_required", "loopback_endpoint_required",
  "invalid_local_api_token", "invalid_request", "request_too_large"]

/-- The codes of the exceptions of an exchange. -/
def exchangeCodes : List String := ["request_rejected", "response_rejected", "binding_required",
  "request_failed"]

theorem endpointOf_raises : RaisesOnly (fun e => ∃ code ∈ checkCodes, e = .error code)
    (endpointOf loc config token message acknowledgement) := by
  have hcode : ∀ {code}, code ∈ checkCodes → ∃ c ∈ checkCodes, Exn.error code = .error c :=
    fun h => ⟨_, h, rfl⟩
  simp only [endpointOf, raisesOnly_bind, raisesOnly_ensure, raisesOnly_mapError, raisesOnly_pure]
  exact ⟨.inr (hcode (by decide)), fun _ _ => ⟨fun _ _ => hcode (by decide), fun _ _ =>
    ⟨.inr (hcode (by decide)), fun _ _ => ⟨.inr (hcode (by decide)), fun _ _ =>
      ⟨.inr (hcode (by decide)), fun _ _ => trivial⟩⟩⟩⟩⟩

theorem loopback_of_endpointOf
    (h : endpointOf loc config token message acknowledgement = .ok endpoint) :
    Loopback.isLoopbackAddress endpoint.1 = true := by
  simp only [endpointOf, bind_eq_ok, ensure_eq_ok, pure_eq_ok, mapError_eq_ok] at h
  obtain ⟨_, _, found, hfound, _, _, _, _, _, _, rfl⟩ := h
  unfold Loopback.endpoint at hfound
  split at hfound
  · have hown := fetch_eq_ok.mp hfound
    unfold Loopback.ownCheck at hown
    split at hown
    · split at hown
      · rename_i hkept
        cases hown
        exact hkept.2.1
      · cases hown
    · cases hown
  · cases hfound

theorem judge_raises (answer : Answer) :
    RaisesOnly (fun e => ∀ code, e = .error code → code ∈ exchangeCodes) (judge decode token answer) := by
  have hcode : ∀ {code}, code ∈ exchangeCodes → ∀ c, Exn.error code = .error c → c ∈ exchangeCodes := by
    rintro code h c ⟨⟩
    exact h
  have hfailed : ∀ e c, failed e = .error c → c ∈ exchangeCodes := by
    intro e c h
    cases e with
    | interrupt => cases h
    | _ => exact hcode (by decide) c h
  cases answer with
  | failed => exact raisesOnly_error.mpr (hcode (by decide))
  | interrupted => exact raisesOnly_error.mpr (by rintro _ ⟨⟩)
  | response status sent =>
    simp only [judge, raisesOnly_bind, raisesOnly_ensure, raisesOnly_fetch, raisesOnly_mapError,
      raisesOnly_pure]
    exact ⟨.inr (hcode (by decide)), fun _ _ => ⟨.inr (hcode (by decide)), fun _ _ =>
      ⟨fun e _ => hfailed e, fun _ _ => ⟨.inr (hcode (by decide)), fun _ _ =>
        ⟨fun _ => hcode (by decide), fun _ _ => ⟨fun e _ => hfailed e, fun _ _ => trivial⟩⟩⟩⟩⟩⟩

/-- What is sent: the question for the binding, and the message only when it is confirmed. -/
def Asked (decode : List UInt8 → Except Raised (Payload ν)) (token : String) (get post : Request)
    (log : List (Request × Answer)) : Prop :=
  ∃ a, log = [(get, a)] ∨ ∃ b bound, Taken decode token a bound ∧ log = [(get, a), (post, b)]

theorem Way.asked {get post : Request} (h : Way decode token get post log r) :
    Asked decode token get post log := by
  cases h with
  | unbound => exact ⟨_, .inl rfl⟩
  | unanswered hbound => exact ⟨_, .inr ⟨_, _, hbound, rfl⟩⟩
  | empty hbound => exact ⟨_, .inr ⟨_, _, hbound, rfl⟩⟩
  | returned hbound => exact ⟨_, .inr ⟨_, _, hbound, rfl⟩⟩

theorem Way.not_holds {get post : Request} {v : Payload ν} (h : Way decode token get post log (.ok v)) :
    ¬ Holds token v := by
  cases h with
  | returned _ hbody hfind =>
    obtain ⟨⟨_, _, _, _, _, _, hholds, _⟩, _, _⟩ := hbody
    exact fun hv => hholds (.value (List.mem_of_find?_eq_some hfind) hv)

theorem Way.code {get post : Request} {code : String}
    (h : Way decode token get post log (.error (.error code))) : code ∈ exchangeCodes := by
  cases h with
  | unbound hbound => exact judge_raises _ _ hbound code rfl
  | unanswered _ hbody => exact judge_raises _ _ hbody code rfl
  | empty => decide

end

namespace Sample

open ProjectMaya.Vector (text)

/-- No text is JSON, and no URL is well formed. -/
instance plain : Plugin.Python Unit where
  isFinite _ := true
  repr _ := "0.0"
  lower := String.toLower
  isWord c := c.isAlphanum || c = '_'
  isDecimal := Char.isDigit
  isSpace := Char.isWhitespace
  loads _ := .ok none
  urlsplit _ := none
  recursionLimit := 1000
  maxStrDigits := 4300

def place (s : String) : Configuration.Path := ⟨.parse s, PurePath.proper_parse _⟩

/-- A configuration whose local API is at the port 8080. -/
def config : MayaConfig Rat where
  schemaVersion := 2
  product := { edition := .standard, instanceId := .str (text "instance") }
  deployment := { deploymentClass := .null, networkPolicy := .null, dataDir := place "/data" }
  runtime :=
    { hermesCompatibility := .null
      enabledProfiles := [.core]
      hermesFactory := .null
      hermesRuntimeVersion := .null }
  broker := { mode := .disabled, endpoint := .null }
  llm :=
    { mode := .null
      provider := .null
      model := .null
      credentialRef := .null
      endpoint := .null
      timeoutSeconds := 60 }
  integrations := .empty
  memory :=
    { hermesProvider := .null
      retriever := .str (text "local_json")
      registry := .null
      governanceEnabled := .bool true }
  governance :=
    { policyFile := place "/policy.json"
      auditEnabled := true
      defaultAction := .null
      minimumMemoryTrust := 0 }
  metabase :=
    { enabled := false
      deployment := .null
      endpoint := .null
      applicationDatabase := none
      analyticsSources := [] }
  localApi := { bind := .str (text "localhost"), port := .int 8080, remoteAccess := .bool false }

def token : String := "0123456789abcdef0123456789abcdef"

def decode : List UInt8 → Except Raised (Payload Unit) := fun _ => .ok .none

def endpoint : List Char × Int := (text "127.0.0.1", 8080)

theorem endpoint_found :
    endpointOf Broker.Sample.loc config token "hello" requiredAcknowledgement = .ok endpoint := by
  decide +kernel

end Sample

end ProjectMaya.SessionClient
