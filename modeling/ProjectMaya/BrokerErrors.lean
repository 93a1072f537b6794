import ProjectMaya.BrokerReplay

/-! # What a verifier raises

A message that is refused raises `BrokerProtocolError`.  A time or a signature that cannot be read
raises something else: `ValueError` where the text is no time or no Base64, `TypeError` where a time
has no offset, and in the last minute of the year 9999 `OverflowError` (`verification_iff`). -/

namespace ProjectMaya.Broker

open Logic

/-- `verify_broker_response` -/
def verifyBrokerResponse (sch : SignatureScheme) (response : SignedBrokerResponse)
    (brokerPublicKey requestNonce : String) (body : List (String × Json)) (now : DateTime) :
    Except Failure Unit := do
  requireProtocol response.protocolVersion
  ensure (response.requestNonce = requestNonce)
    (.protocol "broker response nonce does not match request")
  requireHash response.bodyHash body
  requireFresh response.issuedAt response.expiresAt now
  let key : sch.PublicKey ← loadPublicKey brokerPublicKey
  let signature ← fetch (b64decode response.signature) .valueError
  ensure (sch.verify key signature response.signingPayload = true)
    (.protocol "broker response signature is invalid")

/-! ## Checks that raise one kind of error -/

/-- The check passes or raises `BrokerProtocolError`. -/
def OnlyProtocol {α : Type} (r : Except Failure α) : Prop :=
  ∀ e, r = .error e → ∃ message, e = .protocol message

section

variable {α β : Type}

theorem onlyProtocol_ok (a : α) : OnlyProtocol (.ok a) := fun _ h => by cases h

theorem onlyProtocol_bind {x : Except Failure α} {f : α → Except Failure β} :
    OnlyProtocol (x >>= f) ↔ OnlyProtocol x ∧ ∀ a, x = .ok a → OnlyProtocol (f a) := by
  cases x with
  | ok a =>
    rw [ok_bind]
    constructor
    · intro h
      refine ⟨onlyProtocol_ok a, ?_⟩
      rintro b hb
      cases hb
      exact h
    · exact fun h => h.2 a rfl
  | error e =>
    rw [error_bind]
    constructor
    · intro h
      refine ⟨?_, fun a ha => by cases ha⟩
      rintro e' he
      cases he
      exact h e rfl
    · rintro ⟨h, -⟩ e' he
      cases he
      exact h e rfl

theorem onlyProtocol_ensure (c : Prop) [Decidable c] (message : String) :
    OnlyProtocol (ensure c (.protocol message)) := by
  intro e he
  unfold ensure at he
  split at he
  · cases he
  · cases he
    exact ⟨message, rfl⟩

theorem onlyProtocol_ensure_bind {c : Prop} [Decidable c] {message : String}
    {f : Unit → Except Failure β} :
    OnlyProtocol (ensure c (.protocol message) >>= f) ↔ (c → OnlyProtocol (f ())) := by
  rw [onlyProtocol_bind, and_iff_right (onlyProtocol_ensure c message)]
  simp only [ensure_eq_ok]
  exact ⟨fun h hc => h () hc, fun h _ hc => h hc⟩

/-- A value that may be missing, with an error of another kind. -/
theorem onlyProtocol_fetch {x : Option α} {e : Failure} (he : ∀ message, e ≠ .protocol message) :
    OnlyProtocol (fetch x e) ↔ x.isSome = true := by
  cases x with
  | some a => exact ⟨fun _ => rfl, fun _ => onlyProtocol_ok a⟩
  | none =>
    refine ⟨fun h => ?_, fun h => by cases h⟩
    obtain ⟨message, hm⟩ := h e rfl
    exact absurd hm (he message)

end

/-! ## Times -/

theorem instant_isSome (t : DateTime) : t.instant.isSome = t.offset.isSome := by
  unfold DateTime.instant
  rw [Option.isSome_map]

/-- An aware time is compared with an aware one only. -/
theorem lt_isSome {a b : DateTime} (h : a.offset.isSome = true) :
    (a.lt b).isSome = b.offset.isSome := by
  rw [← instant_isSome] at h ⊢
  unfold DateTime.lt
  cases ha : a.instant with
  | none =>
    rw [ha] at h
    cases h
  | some i => cases b.instant <;> rfl

theorem le_isSome {a b : DateTime} (h : b.offset.isSome = true) :
    (a.le b).isSome = a.offset.isSome := by
  rw [← instant_isSome] at h ⊢
  unfold DateTime.le
  cases hb : b.instant with
  | none =>
    rw [hb] at h
    cases h
  | some i => cases a.instant <;> rfl

/-- Both texts are times, the first with an offset, and the second too unless the message is from
the future. -/
def Comparable (issuedAt expiresAt : String) (now : DateTime) : Prop :=
  ∃ issued expires limit, DateTime.fromisoformat issuedAt.toList = some issued ∧
    DateTime.fromisoformat expiresAt.toList = some expires ∧
    now.add minuteMicros = some limit ∧ issued.offset.isSome = true ∧
    (limit.lt issued = some true ∨ expires.offset.isSome = true)

theorem onlyProtocol_requireFresh {issuedAt expiresAt : String} {now : DateTime}
    (hnow : now.offset.isSome = true) :
    OnlyProtocol (requireFresh issuedAt expiresAt now) ↔ Comparable issuedAt expiresAt now := by
  have hvalue : ∀ message, Failure.valueError ≠ .protocol message := fun _ h => by cases h
  have htype : ∀ message, Failure.typeError ≠ .protocol message := fun _ h => by cases h
  have hover : ∀ message, Failure.overflowError ≠ .protocol message := fun _ h => by cases h
  unfold requireFresh parseTime
  simp only [onlyProtocol_bind, onlyProtocol_fetch hvalue, onlyProtocol_fetch htype,
    onlyProtocol_fetch hover, onlyProtocol_ensure, fetch_eq_ok, ensure_eq_ok, Option.isSome_iff_exists,
    implies_true, and_true, true_and]
  constructor
  · rintro ⟨⟨issued, hissued⟩, h⟩
    obtain ⟨⟨expires, hexpires⟩, h⟩ := h issued hissued
    obtain ⟨⟨limit, hlimit⟩, h⟩ := h expires hexpires
    obtain ⟨⟨future, hfuture⟩, h⟩ := h limit hlimit
    have haware : limit.offset.isSome = true := by
      rw [(DateTime.mk?_eq_some hlimit).2]
      exact hnow
    refine ⟨issued, expires, limit, hissued, hexpires, hlimit, ?_, ?_⟩
    · rw [← lt_isSome haware, hfuture]
      rfl
    · cases future with
      | true => exact .inl hfuture
      | false =>
        obtain ⟨expired, hexpired⟩ := h false hfuture () rfl
        right
        rw [← le_isSome hnow, hexpired]
        rfl
  · rintro ⟨issued, expires, limit, hissued, hexpires, hlimit, haware, hor⟩
    have hlimited : limit.offset.isSome = true := by
      rw [(DateTime.mk?_eq_some hlimit).2]
      exact hnow
    refine ⟨⟨issued, hissued⟩, fun i hi => ?_⟩
    obtain rfl := Option.some.inj (hissued.symm.trans hi)
    refine ⟨⟨expires, hexpires⟩, fun e he => ?_⟩
    obtain rfl := Option.some.inj (hexpires.symm.trans he)
    refine ⟨⟨limit, hlimit⟩, fun l hl => ?_⟩
    obtain rfl := Option.some.inj (hlimit.symm.trans hl)
    refine ⟨Option.isSome_iff_exists.1 ((lt_isSome hlimited).trans haware), fun future hfuture => ?_⟩
    intro _ hpresent
    have hexpired : expires.offset.isSome = true := by
      refine hor.resolve_left fun h => ?_
      rw [hpresent] at hfuture
      rw [hfuture] at h
      cases h
    exact Option.isSome_iff_exists.1 ((le_isSome hnow).trans hexpired)

/-! ## Messages -/

variable {sch : SignatureScheme}

/-- The end of both verifications. -/
theorem onlyProtocol_signature {publicKey signature message : String} {payload : Bytes}
    {key : sch.PublicKey} (hkey : loadPublicKey publicKey = .ok key) :
    OnlyProtocol (do
      let key : sch.PublicKey ← loadPublicKey publicKey
      let raw ← fetch (b64decode signature) .valueError
      ensure (sch.verify key raw payload = true) (.protocol message)) ↔
        (b64decode signature).isSome = true := by
  rw [hkey, ok_bind, onlyProtocol_bind, onlyProtocol_fetch fun _ h => by cases h]
  exact and_iff_left fun raw _ => onlyProtocol_ensure _ _

/-- A message whose version and body are as expected: its times can be compared, and if it is fresh
its signature is Base64. -/
def Readable (issuedAt expiresAt signature : String) (now : DateTime) : Prop :=
  Comparable issuedAt expiresAt now ∧
    (requireFresh issuedAt expiresAt now = .ok () → (b64decode signature).isSome = true)

theorem onlyProtocol_rest {issuedAt expiresAt publicKey signature message : String} {payload : Bytes}
    {now : DateTime} {key : sch.PublicKey} (hkey : loadPublicKey publicKey = .ok key)
    (hnow : now.offset.isSome = true) :
    OnlyProtocol (do
      requireFresh issuedAt expiresAt now
      let key : sch.PublicKey ← loadPublicKey publicKey
      let raw ← fetch (b64decode signature) .valueError
      ensure (sch.verify key raw payload = true) (.protocol message)) ↔
        Readable issuedAt expiresAt signature now := by
  rw [onlyProtocol_bind, onlyProtocol_requireFresh hnow]
  unfold Readable
  refine and_congr_right fun _ => ?_
  simp only [onlyProtocol_signature hkey]
  exact ⟨fun h => h (), fun h _ => h⟩

theorem onlyProtocol_checkBrokerRequest (request : SignedBrokerRequest) {publicKey : String}
    (body : List (String × Json)) {now : DateTime} {key : sch.PublicKey}
    (hkey : loadPublicKey publicKey = .ok key) (hnow : now.offset.isSome = true) :
    OnlyProtocol (checkBrokerRequest sch request publicKey body now) ↔
      (request.protocolVersion = brokerProtocolVersion → request.bodyHash = hashBody body →
        Readable request.issuedAt request.expiresAt request.signature now) := by
  unfold checkBrokerRequest requireProtocol requireHash
  rw [onlyProtocol_ensure_bind, onlyProtocol_ensure_bind, onlyProtocol_rest hkey hnow]

theorem onlyProtocol_verifyBrokerResponse (response : SignedBrokerResponse)
    {brokerPublicKey : String} (requestNonce : String) (body : List (String × Json)) {now : DateTime}
    {key : sch.PublicKey} (hkey : loadPublicKey brokerPublicKey = .ok key)
    (hnow : now.offset.isSome = true) :
    OnlyProtocol (verifyBrokerResponse sch response brokerPublicKey requestNonce body now) ↔
      (response.protocolVersion = brokerProtocolVersion → response.requestNonce = requestNonce →
        response.bodyHash = hashBody body →
          Readable response.issuedAt response.expiresAt response.signature now) := by
  unfold verifyBrokerResponse requireProtocol requireHash
  rw [onlyProtocol_ensure_bind, onlyProtocol_ensure_bind, onlyProtocol_ensure_bind,
    onlyProtocol_rest hkey hnow]

/-- With a replay cache. -/
def CachedOnlyProtocol (r : EStateM.Result Failure ReplayCache Unit) : Prop :=
  ∀ e cache, r = .error e cache → ∃ message, e = .protocol message

theorem cachedOnlyProtocol_iff (request : SignedBrokerRequest) (publicKey : String)
    (body : List (String × Json)) (now : DateTime) (cache : ReplayCache) :
    CachedOnlyProtocol (verifyBrokerRequest sch request publicKey body now cache) ↔
      OnlyProtocol (checkBrokerRequest sch request publicKey body now) := by
  rw [verifyBrokerRequest_eq]
  cases checkBrokerRequest sch request publicKey body now with
  | ok a =>
    refine ⟨fun _ => onlyProtocol_ok a, fun _ e cache' h => ?_⟩
    by_cases hseen : request.nonce ∈ cache.seen
    · simp only [ReplayCache.remember, if_pos hseen] at h
      cases h
      exact ⟨_, rfl⟩
    · simp only [ReplayCache.remember, if_neg hseen] at h
      cases h
  | error e =>
    constructor
    · rintro h e' he
      cases he
      exact h e cache rfl
    · rintro h e' cache' he
      cases he
      exact h e rfl

end ProjectMaya.Broker
