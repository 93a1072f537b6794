import ProjectMaya.Broker

/-! # A nonce is accepted once

A verifier with a replay cache takes requests in any order, at any time. -/

namespace ProjectMaya.Broker

open Logic

variable {sch : SignatureScheme}

/-! ## One request -/

/-- Everything that is checked before the nonce. -/
def checkBrokerRequest (sch : SignatureScheme) (request : SignedBrokerRequest) (publicKey : String)
    (body : List (String × Json)) (now : DateTime) : Except Failure Unit := do
  requireProtocol request.protocolVersion
  requireHash request.bodyHash body
  requireFresh request.issuedAt request.expiresAt now
  let key : sch.PublicKey ← loadPublicKey publicKey
  let signature ← fetch (b64decode request.signature) .valueError
  ensure (sch.verify key signature request.signingPayload = true)
    (.protocol "broker request signature is invalid")

/-- The cache is touched after all checks. -/
theorem verifyBrokerRequest_eq (request : SignedBrokerRequest) (publicKey : String)
    (body : List (String × Json)) (now : DateTime) (cache : ReplayCache) :
    verifyBrokerRequest sch request publicKey body now cache =
      match checkBrokerRequest sch request publicKey body now with
      | .error e => .error e cache
      | .ok () => ReplayCache.remember request.nonce cache := by
  unfold verifyBrokerRequest checkBrokerRequest
  cases requireProtocol request.protocolVersion with
  | error e => rfl
  | ok a =>
    cases requireHash request.bodyHash body with
    | error e => rfl
    | ok a =>
      cases requireFresh request.issuedAt request.expiresAt now with
      | error e => rfl
      | ok a =>
        cases (loadPublicKey publicKey : Except Failure sch.PublicKey) with
        | error e => rfl
        | ok key =>
          cases fetch (b64decode request.signature) Failure.valueError with
          | error e => rfl
          | ok signature =>
            cases hverify : ensure (sch.verify key signature request.signingPayload = true)
                (Failure.protocol "broker request signature is invalid") with
            | error e => simp only [bind, EStateM.bind, Except.bind, raising, pure, EStateM.pure, hverify]; rfl
            | ok a => simp only [bind, EStateM.bind, Except.bind, raising, pure, EStateM.pure, hverify]

/-! ## Requests one after the other -/

structure Call where
  request : SignedBrokerRequest
  publicKey : String
  body : List (String × Json)
  now : DateTime

def Call.verify (sch : SignatureScheme) (c : Call) : Cached Unit :=
  verifyBrokerRequest sch c.request c.publicKey c.body c.now

def Call.accepted (sch : SignatureScheme) (c : Call) (cache : ReplayCache) : Bool :=
  match c.verify sch cache with
  | .ok _ _ => true
  | .error _ _ => false

/-- The cache after the call, whether it raised or not. -/
def Call.after (sch : SignatureScheme) (c : Call) (cache : ReplayCache) : ReplayCache :=
  match c.verify sch cache with
  | .ok _ cache' => cache'
  | .error _ cache' => cache'

def cacheAfter (sch : SignatureScheme) : List Call → ReplayCache → ReplayCache
  | [], cache => cache
  | c :: rest, cache => cacheAfter sch rest (c.after sch cache)

/-- The nonces of the requests that are accepted, in order. -/
def acceptedNonces (sch : SignatureScheme) : List Call → ReplayCache → List String
  | [], _ => []
  | c :: rest, cache =>
    if c.accepted sch cache then c.request.nonce :: acceptedNonces sch rest (c.after sch cache)
    else acceptedNonces sch rest (c.after sch cache)

theorem Call.after_of_rejected {c : Call} {cache : ReplayCache} (h : c.accepted sch cache = false) :
    c.after sch cache = cache := by
  unfold Call.accepted Call.verify at h
  unfold Call.after Call.verify
  rw [verifyBrokerRequest_eq] at h ⊢
  cases hcheck : checkBrokerRequest sch c.request c.publicKey c.body c.now with
  | error e => rfl
  | ok u =>
    rw [hcheck] at h
    by_cases hseen : c.request.nonce ∈ cache.seen
    · simp only [ReplayCache.remember, hseen, if_true]
    · simp [ReplayCache.remember, hseen] at h

theorem Call.accepted_iff {c : Call} {cache : ReplayCache} :
    c.accepted sch cache = true ↔
      checkBrokerRequest sch c.request c.publicKey c.body c.now = .ok () ∧ c.request.nonce ∉ cache.seen := by
  unfold Call.accepted Call.verify
  rw [verifyBrokerRequest_eq]
  cases hcheck : checkBrokerRequest sch c.request c.publicKey c.body c.now with
  | error e => simp
  | ok u =>
    by_cases hseen : c.request.nonce ∈ cache.seen
    · simp [ReplayCache.remember, hseen]
    · simp [ReplayCache.remember, hseen]

theorem Call.after_of_accepted {c : Call} {cache : ReplayCache} (h : c.accepted sch cache = true) :
    c.after sch cache = { seen := c.request.nonce :: cache.seen } := by
  obtain ⟨hcheck, hseen⟩ := Call.accepted_iff.mp h
  unfold Call.after Call.verify
  rw [verifyBrokerRequest_eq, hcheck]
  simp only [ReplayCache.remember, hseen, if_false]

/-- The cache holds the nonces that were accepted. -/
theorem mem_cacheAfter (calls : List Call) (cache : ReplayCache) (nonce : String) :
    nonce ∈ (cacheAfter sch calls cache).seen ↔
      nonce ∈ acceptedNonces sch calls cache ∨ nonce ∈ cache.seen := by
  induction calls generalizing cache with
  | nil => simp [cacheAfter, acceptedNonces]
  | cons c rest ih =>
    unfold cacheAfter acceptedNonces
    rw [ih]
    by_cases h : c.accepted sch cache = true
    · rw [if_pos h, Call.after_of_accepted h, List.mem_cons, List.mem_cons]
      tauto
    · rw [if_neg h, Call.after_of_rejected (by simpa using h)]

theorem acceptedNonces_nodup (calls : List Call) (cache : ReplayCache) :
    (acceptedNonces sch calls cache).Nodup ∧
      ∀ nonce ∈ acceptedNonces sch calls cache, nonce ∉ cache.seen := by
  induction calls generalizing cache with
  | nil => exact ⟨List.nodup_nil, nofun⟩
  | cons c rest ih =>
    unfold acceptedNonces
    by_cases h : c.accepted sch cache = true
    · obtain ⟨hnodup, hfresh⟩ := ih (c.after sch cache)
      rw [Call.after_of_accepted h] at hnodup hfresh
      rw [if_pos h, Call.after_of_accepted h]
      refine ⟨List.nodup_cons.mpr ⟨fun hin => hfresh _ hin List.mem_cons_self, hnodup⟩, ?_⟩
      intro nonce hin
      rcases List.mem_cons.mp hin with rfl | hin
      · exact (Call.accepted_iff.mp h).2
      · exact fun hseen => hfresh nonce hin (List.mem_cons_of_mem _ hseen)
    · rw [if_neg h, Call.after_of_rejected (by simpa using h)]
      exact ih cache

/-! ## Requests that were signed -/

theorem formatTime_ok {loc : Locale} {t : DateTime} {text : String} (h : formatTime loc t = .ok text) :
    ∃ utc, DateTime.fromisoformat text.toList = some utc ∧ utc.offset = some 0 ∧
      (utc.wall : Int) = t.wall - t.offset.getD (loc.zone t.wall) := by
  simp only [formatTime, bind_eq_ok, fetch_eq_ok, pure_eq_ok] at h
  obtain ⟨utc, hutc, rfl⟩ := h
  obtain ⟨hwall, hoffset⟩ := DateTime.mk?_eq_some hutc
  refine ⟨utc, ?_, hoffset, hwall⟩
  rw [String.toList_ofList]
  exact DateTime.fromisoformat_isoformat utc

/-- What the signer puts into a request. -/
theorem signBrokerRequest_ok {loc : Locale} {identity : BrokerInstanceIdentity}
    {privateKey method path : String} {body : List (String × Json)} {ttlSeconds : Int} {issued : DateTime}
    {nonce : String} {request : SignedBrokerRequest}
    (h : signBrokerRequest sch loc identity privateKey method path body ttlSeconds issued nonce = .ok request) :
    ∃ key : sch.PrivateKey, loadPrivateKey privateKey = .ok key ∧
      request.protocolVersion = brokerProtocolVersion ∧ request.bodyHash = hashBody body ∧
      request.nonce = nonce ∧ request.signature = b64encode (sch.sign key request.signingPayload) ∧
      formatTime loc issued = .ok request.issuedAt ∧
      ∃ expires, issued.add (ttlSeconds * 1000000) = some expires ∧
        formatTime loc expires = .ok request.expiresAt := by
  simp only [signBrokerRequest, bind_eq_ok, fetch_eq_ok, pure_eq_ok] at h
  obtain ⟨issuedAt, hissued, expires, hexpires, expiresAt, hat, key, hkey, rfl⟩ := h
  exact ⟨key, hkey, rfl, rfl, rfl, rfl, hissued, expires, hexpires, hat⟩

/-- A signed request passes every check but the one of its time. -/
theorem checkBrokerRequest_signed {loc : Locale} {identity : BrokerInstanceIdentity}
    {privateKey method path : String} {body : List (String × Json)} {ttlSeconds : Int} {issued : DateTime}
    {nonce publicKey : String} {request : SignedBrokerRequest} {key : sch.PrivateKey} {now : DateTime}
    (h : signBrokerRequest sch loc identity privateKey method path body ttlSeconds issued nonce = .ok request)
    (hkey : loadPrivateKey privateKey = .ok key) (hpublic : loadPublicKey publicKey = .ok (sch.publicKey key)) :
    checkBrokerRequest sch request publicKey body now = .ok () ↔
      requireFresh request.issuedAt request.expiresAt now = .ok () := by
  obtain ⟨key', hkey', hprotocol, hbody, -, hsignature, -⟩ := signBrokerRequest_ok h
  rw [hkey] at hkey'
  cases hkey'
  have hverify := sch.verify_sign key request.signingPayload
  simp only [checkBrokerRequest, requireProtocol, requireHash, bind_eq_ok, ensure_eq_ok, fetch_eq_ok,
    hprotocol, hbody, hpublic, hsignature, b64decode_b64encode, Option.some.injEq, exists_eq_left',
    hverify, Except.ok.injEq]
  constructor
  · rintro ⟨_, _, _, _, _, hfresh, _⟩
    exact hfresh
  · intro hfresh
    exact ⟨(), trivial, (), trivial, (), hfresh, trivial⟩

/-! ## The window -/

/-- The moment that a text stands for. -/
def timeOf (text : String) : Option Int := (DateTime.fromisoformat text.toList).bind DateTime.instant

/-- Issued at most a minute ahead, and not expired. -/
def InWindow (request : SignedBrokerRequest) (now : DateTime) : Prop :=
  ∃ issued expires current, timeOf request.issuedAt = some issued ∧
    timeOf request.expiresAt = some expires ∧ now.instant = some current ∧
    issued ≤ current + minuteMicros ∧ current < expires

/-- The check of the time, where both times are of UTC. -/
theorem requireFresh_iff {issuedAt expiresAt : String} {now issued expires : DateTime}
    (hissued : DateTime.fromisoformat issuedAt.toList = some issued)
    (hexpires : DateTime.fromisoformat expiresAt.toList = some expires)
    (hi : issued.offset = some 0) (he : expires.offset = some 0) :
    requireFresh issuedAt expiresAt now = .ok () ↔
      (now.add minuteMicros).isSome ∧
        ∃ current, now.instant = some current ∧ (issued.wall : Int) ≤ current + minuteMicros ∧
          current < expires.wall := by
  simp only [requireFresh, parseTime, bind_eq_ok, fetch_eq_ok, ensure_eq_ok, hissued, hexpires,
    Option.some.injEq, exists_eq_left']
  rw [Option.isSome_iff_exists]
  constructor
  · rintro ⟨limit, hlimit, future, hfuture, -, rfl, expired, hexpired, rfl⟩
    refine ⟨⟨limit, hlimit⟩, ?_⟩
    obtain ⟨hwall, hoffset⟩ := DateTime.mk?_eq_some hlimit
    simp only [DateTime.lt, DateTime.le, DateTime.instant, hoffset, hi, he, Option.map_some] at hfuture hexpired
    cases hnow : now.offset with
    | none =>
      rw [hnow] at hfuture
      cases hfuture
    | some o =>
      rw [hnow] at hfuture hexpired
      simp only [Option.map_some, Option.some.injEq, decide_eq_false_iff_not] at hfuture hexpired
      refine ⟨now.wall - o, by rw [DateTime.instant, hnow]; rfl, ?_, ?_⟩
      · omega
      · omega
  · rintro ⟨⟨limit, hlimit⟩, current, hcurrent, hmin, hexp⟩
    obtain ⟨hwall, hoffset⟩ := DateTime.mk?_eq_some hlimit
    cases hnow : now.offset with
    | none =>
      rw [DateTime.instant, hnow] at hcurrent
      cases hcurrent
    | some o =>
      rw [DateTime.instant, hnow] at hcurrent
      have hat : now.wall - o = current := Option.some.inj hcurrent
      refine ⟨limit, hlimit, false, ?_, (), rfl, false, ?_, rfl⟩
      · simp only [DateTime.lt, DateTime.instant, hoffset, hnow, hi, Option.map_some, Option.some.injEq,
          decide_eq_false_iff_not]
        omega
      · simp only [DateTime.le, DateTime.instant, hnow, he, Option.map_some, Option.some.injEq,
          decide_eq_false_iff_not]
        omega

/-- A signed request is fresh exactly in its window, where the next minute is a date at all. -/
theorem requireFresh_signed {loc : Locale} {identity : BrokerInstanceIdentity}
    {privateKey method path : String} {body : List (String × Json)} {ttlSeconds : Int} {issued : DateTime}
    {nonce : String} {request : SignedBrokerRequest} {now : DateTime}
    (h : signBrokerRequest sch loc identity privateKey method path body ttlSeconds issued nonce = .ok request) :
    requireFresh request.issuedAt request.expiresAt now = .ok () ↔
      (now.add minuteMicros).isSome ∧ InWindow request now := by
  obtain ⟨-, -, -, -, -, -, hissuedAt, expires, -, hexpiresAt⟩ := signBrokerRequest_ok h
  obtain ⟨t, ht, htz, -⟩ := formatTime_ok hissuedAt
  obtain ⟨u, hu, huz, -⟩ := formatTime_ok hexpiresAt
  have htimeT : timeOf request.issuedAt = some (t.wall : Int) := by
    rw [timeOf, ht, Option.bind_some, DateTime.instant, htz]
    simp
  have htimeU : timeOf request.expiresAt = some (u.wall : Int) := by
    rw [timeOf, hu, Option.bind_some, DateTime.instant, huz]
    simp
  rw [requireFresh_iff ht hu htz huz]
  unfold InWindow
  rw [htimeT, htimeU]
  simp only [Option.some.injEq, exists_eq_left', exists_and_left]

/-- **Replay protection.**  Whatever requests a cache sees, and when: no nonce is accepted twice; a
request that is rejected leaves the cache as it was; and a signed request with a new nonce is
accepted, with its key and body, exactly in its window, unless the next minute is past the last
date. -/
theorem replay_protection (calls : List Call) :
    (acceptedNonces sch calls {}).Nodup ∧
    ∀ before call rest, calls = before ++ call :: rest →
      (call.accepted sch (cacheAfter sch before {}) = false →
        call.after sch (cacheAfter sch before {}) = cacheAfter sch before {}) ∧
      ∀ (loc : Locale) (identity : BrokerInstanceIdentity) (privateKey method path : String)
        (ttlSeconds : Int) (issued : DateTime) (nonce : String) (key : sch.PrivateKey),
        signBrokerRequest sch loc identity privateKey method path call.body ttlSeconds issued nonce =
          .ok call.request →
        loadPrivateKey privateKey = .ok key → loadPublicKey call.publicKey = .ok (sch.publicKey key) →
        nonce ∉ acceptedNonces sch before {} →
        (call.accepted sch (cacheAfter sch before {}) = true ↔
          (call.now.add minuteMicros).isSome ∧ InWindow call.request call.now) := by
  refine ⟨(acceptedNonces_nodup calls {}).1, ?_⟩
  rintro before call rest -
  refine ⟨Call.after_of_rejected, ?_⟩
  intro loc identity privateKey method path ttlSeconds issued nonce key hsign hkey hpublic hnew
  obtain ⟨-, -, -, -, hnonce, -⟩ := signBrokerRequest_ok hsign
  have hseen : call.request.nonce ∉ (cacheAfter sch before {}).seen := by
    rw [hnonce, mem_cacheAfter]
    rintro (hin | hin)
    · exact hnew hin
    · cases hin
  rw [Call.accepted_iff, checkBrokerRequest_signed hsign hkey hpublic, requireFresh_signed hsign]
  simp only [hseen, not_false_eq_true, and_true]

namespace Sample

def identity : BrokerInstanceIdentity := { instanceId := "instance", keyId := "key" }

/-- The key that `"AQ"` stands for. -/
def key : SignatureScheme.attached.PrivateKey := ([1] : Bytes)

def unsigned (issuedAt expiresAt : String) : SignedBrokerRequest where
  protocolVersion := brokerProtocolVersion
  instanceId := "instance"
  keyId := "key"
  method := loc.upper "post"
  path := "/oauth/start"
  bodyHash := hashBody []
  nonce := "nonce"
  issuedAt := issuedAt
  expiresAt := expiresAt
  signature := ""

def signed (issuedAt expiresAt : String) : SignedBrokerRequest :=
  { unsigned issuedAt expiresAt with
    signature := b64encode (SignatureScheme.attached.sign key (unsigned issuedAt expiresAt).signingPayload) }

def utc (wall : Nat) (h : wall < Calendar.maxOrdinal * dayMicros) : DateTime where
  wall := wall
  offset := some 0
  wall_lt := h
  offset_lt := by
    rintro o ⟨⟩
    decide

theorem load_key : loadPrivateKey "AQ" = .ok key := by
  show loadPrivateKey (b64encode ([1] : Bytes)) = .ok key
  rw [loadPrivateKey, b64decode_b64encode]
  rfl

theorem load_public_key : loadPublicKey "AQ" = .ok (SignatureScheme.attached.publicKey key) := by
  show loadPublicKey (b64encode ([1] : Bytes)) = .ok (SignatureScheme.attached.publicKey key)
  rw [loadPublicKey, b64decode_b64encode]
  rfl

theorem sign_eq {ttlSeconds : Int} {issued expires : DateTime} {issuedAt expiresAt : String}
    (hi : formatTime loc issued = .ok issuedAt) (he : issued.add (ttlSeconds * 1000000) = some expires)
    (ha : formatTime loc expires = .ok expiresAt) :
    signBrokerRequest SignatureScheme.attached loc identity "AQ" "post" "/oauth/start" [] ttlSeconds issued
      "nonce" = .ok (signed issuedAt expiresAt) := by
  simp only [signBrokerRequest, bind_eq_ok, fetch_eq_ok, pure_eq_ok]
  exact ⟨issuedAt, hi, expires, he, expiresAt, ha, key, load_key, rfl⟩

/-- Midday of 1 January 2026. -/
def midday : DateTime := utc 63902865600000000 (by decide)

def call : Call where
  request := signed "2026-01-01T12:00:00+00:00" "2026-01-01T12:05:00+00:00"
  publicKey := "AQ"
  body := []
  now := midday

theorem call_signed :
    signBrokerRequest SignatureScheme.attached loc identity "AQ" "post" "/oauth/start" call.body 300 midday
      "nonce" = .ok call.request := by
  have hissued : formatTime loc midday = .ok "2026-01-01T12:00:00+00:00" := by decide +kernel
  have hadd : midday.add (300 * 1000000) = some (utc 63902865900000000 (by decide)) := by decide +kernel
  exact sign_eq hissued hadd (by decide +kernel)

theorem call_inWindow : InWindow call.request call.now :=
  ⟨63902865600000000, 63902865900000000, 63902865600000000, by decide +kernel, by decide +kernel, rfl,
    by decide, by decide⟩

/-- A signed request is accepted, and not a second time. -/
theorem accepted_once :
    call.accepted SignatureScheme.attached (cacheAfter SignatureScheme.attached [] {}) = true ∧
      (acceptedNonces SignatureScheme.attached [call, call] {}).Nodup := by
  obtain ⟨hnodup, hcalls⟩ := @replay_protection SignatureScheme.attached [call, call]
  have hcall := (hcalls [] call [call] rfl).2 loc identity "AQ" "post" "/oauth/start" 300 midday "nonce" key
    call_signed load_key load_public_key nofun
  exact ⟨hcall.mpr ⟨by decide, call_inWindow⟩, hnodup⟩

/-- Half a minute before the end of the year 9999. -/
def lastMinute : DateTime := utc (Calendar.maxOrdinal * dayMicros - 30000000) (by decide)

def lastCall : Call where
  request := signed "9999-12-31T23:59:30+00:00" "9999-12-31T23:59:40+00:00"
  publicKey := "AQ"
  body := []
  now := lastMinute

/-- A request that was signed with the matching key, in its window, is not accepted: the minute that
is added to the time goes past the last date. -/
theorem last_minute_rejected :
    signBrokerRequest SignatureScheme.attached loc identity "AQ" "post" "/oauth/start" lastCall.body 10
      lastMinute "nonce" = .ok lastCall.request ∧
    loadPrivateKey "AQ" = .ok key ∧ loadPublicKey lastCall.publicKey = .ok (SignatureScheme.attached.publicKey key) ∧
    "nonce" ∉ acceptedNonces SignatureScheme.attached [] {} ∧ InWindow lastCall.request lastCall.now ∧
    lastCall.accepted SignatureScheme.attached {} = false := by
  have hsign : signBrokerRequest SignatureScheme.attached loc identity "AQ" "post" "/oauth/start" lastCall.body
      10 lastMinute "nonce" = .ok lastCall.request := by
    have hissued : formatTime loc lastMinute = .ok "9999-12-31T23:59:30+00:00" := by decide +kernel
    have hadd : lastMinute.add (10 * 1000000) =
        some (utc (Calendar.maxOrdinal * dayMicros - 20000000) (by decide)) := by decide +kernel
    exact sign_eq hissued hadd (by decide +kernel)
  refine ⟨hsign, load_key, load_public_key, nofun, ?_, ?_⟩
  · exact ⟨315537897570000000, 315537897580000000, 315537897570000000, by decide +kernel, by decide +kernel,
      by decide +kernel, by decide, by decide⟩
  · by_contra h
    have haccepted := (Call.accepted_iff.mp (Bool.not_eq_false _ ▸ h)).1
    have hfresh := (checkBrokerRequest_signed hsign load_key load_public_key).mp haccepted
    exact absurd ((requireFresh_signed hsign).mp hfresh).1 (by decide)

end Sample

end ProjectMaya.Broker
