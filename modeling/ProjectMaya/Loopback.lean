import ProjectMaya.Configuration
import ProjectMaya.Logic.IpAddress

/-! # The checks of the loopback address

The configuration and the HTTP server of the local API take whatever begins like a loopback address;
the client of the session parses the address.  The three agree on a bind exactly when one that
begins with `127.` is an address in dotted decimals (`agrees_iff`). -/

namespace ProjectMaya.Loopback

open Logic
open ProjectMaya.Configuration (LocalAPIConfig MayaConfig)
open ProjectMaya.Vector (Python Text Value text)

/-! ## The server -/

/-- `_is_loopback` of `local_api.py` -/
def isLoopback (bind : Text) : Prop :=
  bind = text "localhost" ∨ text "127." <+: bind ∨ bind = text "::1"

instance (bind : Text) : Decidable (isLoopback bind) := inferInstanceAs (Decidable (_ ∨ _))

inductive ServerError (ε : Type) where
  | localAPIError (message : Text)
  /-- what `ThreadingHTTPServer` raises -/
  | listening (e : ε)

section

variable {σ ε : Type} (listen : Text → Int → Except ε σ) (bind : Text) (port : Int)
  (remoteAccess : Bool)

/-- `build_local_api_http_server` -/
def buildLocalApiHttpServer : Except (ServerError ε) σ := do
  ensure (remoteAccess = false ∧ isLoopback bind)
    (.localAPIError (text "Phase 1 local API HTTP server only supports loopback"))
  match listen bind port with
  | .ok server => .ok server
  | .error e => .error (.listening e)

/-- The server does not refuse what it is asked for. -/
def Accepted (r : Except (ServerError ε) σ) : Prop := ∀ message, r ≠ .error (.localAPIError message)

theorem accepted_iff : Accepted (buildLocalApiHttpServer listen bind port remoteAccess) ↔
    remoteAccess = false ∧ isLoopback bind := by
  unfold buildLocalApiHttpServer Accepted
  by_cases h : remoteAccess = false ∧ isLoopback bind
  · rw [ensure_pos h]
    refine ⟨fun _ => h, fun _ message hr => ?_⟩
    cases hlisten : listen bind port with
    | ok server =>
      rw [hlisten] at hr
      cases hr
    | error e =>
      rw [hlisten] at hr
      cases hr
  · rw [ensure_neg h]
    exact ⟨fun hr => absurd rfl (hr _), fun ha => absurd ha h⟩

end

/-! ## The client -/

section

variable {ν : Type}

/-- The host that the client connects to. -/
def clientHost (bind : Text) : Text :=
  if bind = text "localhost" then text "127.0.0.1" else bind

/-- `ip_address(host).is_loopback`, if it does not raise. -/
def isLoopbackAddress (host : Text) : Bool := (Ip.ipAddress host).any Ip.Address.isLoopback

variable [Python ν]

/-- The check that `run_authenticated_cli_request` makes itself, with what it connects to. -/
def ownCheck (localApi : LocalAPIConfig ν) : Option (Text × Int) :=
  match localApi.bind, localApi.port with
  | .str bind, .int port =>
    if localApi.remoteAccess.truthy = false ∧ isLoopbackAddress (clientHost bind) = true ∧
        1 ≤ port ∧ port ≤ 65535 then
      some (clientHost bind, port)
    else none
  | _, _ => none

inductive ClientError where
  | loopbackEndpointRequired
  deriving DecidableEq

/-- The endpoint of `run_authenticated_cli_request`, which lets no other exception out. -/
def endpoint (config : MayaConfig ν) : Except ClientError (Text × Int) :=
  match config.validate with
  | .ok _ => fetch (ownCheck config.localApi) .loopbackEndpointRequired
  | .error _ => .error .loopbackEndpointRequired

end

/-! ## Agreement -/

/-- The name `localhost`, or the text of an address in the loopback range. -/
def IsLoopbackText (bind : Text) : Prop :=
  bind = text "localhost" ∨ ∃ address, Ip.ipAddress bind = some address ∧ address.isLoopback = true

def ValidPort (port : Int) : Prop := 1 ≤ port ∧ port ≤ 65535

/-- What the server or the configuration accepts without remote access is a text of a loopback
address, and the client connects to it. -/
structure Agrees (ν : Type) [Python ν] (bind : Text) : Prop where
  server : ∀ {σ ε : Type} (listen : Text → Int → Except ε σ) (port : Int),
    Accepted (buildLocalApiHttpServer listen bind port false) →
      IsLoopbackText bind ∧ ∀ port, ValidPort port →
        ownCheck { bind := .str bind, port := .int port, remoteAccess := (.bool false : Value ν) } =
          some (clientHost bind, port)
  config : ∀ config : MayaConfig ν, config.localApi.bind = .str bind →
    config.localApi.remoteAccess.truthy = false → config.validate = .ok () →
      IsLoopbackText bind ∧ ∀ port, ValidPort port →
        endpoint { config with localApi := { config.localApi with port := .int port } } =
          .ok (clientHost bind, port)

/-- A text `127.b.c.d` whose numbers are decimal, up to 255 and without leading zeros. -/
def Dotted (bind : Text) : Prop :=
  ∃ b c d, b ≤ 255 ∧ c ≤ 255 ∧ d ≤ 255 ∧
    bind = ['.'].intercalate ([127, b, c, d].map (Nat.toDigits 10))

theorem ipAddress_of_dotted {bind : Text} (h : Dotted bind) :
    ∃ n, Ip.ipAddress bind = some (.v4 n) ∧ n >>> 24 = 127 := by
  obtain ⟨b, c, d, hb, hc, hd, rfl⟩ := h
  refine ⟨((127 * 256 + b) * 256 + c) * 256 + d, ?_, ?_⟩
  · unfold Ip.ipAddress
    rw [Ip.v4Address_eq_some.mpr ⟨127, b, c, d, by decide, hb, hc, hd, rfl, rfl⟩]
  · rw [Nat.shiftRight_eq_div_pow]
    omega

/-- The first number of a dotted text is what stands before its first dot. -/
theorem takeWhile_dotted (a b c d : Nat) :
    (['.'].intercalate ([a, b, c, d].map (Nat.toDigits 10))).takeWhile (· ≠ '.') =
      Nat.toDigits 10 a := by
  have hdigits : ∀ c ∈ Nat.toDigits 10 a, decide (c ≠ '.') = true := by
    intro c hc
    have hdot : '.' ∉ Nat.toDigits 10 a := Ip.notMem_toDigits rfl
    rw [decide_eq_true_iff]
    rintro rfl
    exact hdot hc
  show (Nat.toDigits 10 a ++ '.' :: _).takeWhile _ = _
  rw [List.takeWhile_append_of_pos hdigits]
  exact List.append_nil _

/-- Of what begins with `127.`, the dotted texts alone are read as addresses. -/
theorem dotted_of_ipAddress {bind : Text} {address : Ip.Address} (hstart : text "127." <+: bind)
    (h : Ip.ipAddress bind = some address) : Dotted bind := by
  obtain ⟨rest, rfl⟩ := hstart
  unfold Ip.ipAddress at h
  cases hv4 : Ip.v4Address (text "127." ++ rest) with
  | none =>
    rw [hv4] at h
    have hv6 : Ip.v6Address (['1', '2', '7'] ++ '.' :: rest) = none := by
      apply Ip.v6Address_of_dot
      intro c hc
      simp only [List.mem_cons, List.not_mem_nil, or_false] at hc
      rcases hc with rfl | rfl | rfl <;> decide
    cases hv6.symm.trans h
  | some n =>
    obtain ⟨a, b, c, d, -, hb, hc, hd, hbind, -⟩ := Ip.v4Address_eq_some.mp hv4
    have hfirst : Nat.toDigits 10 a = ['1', '2', '7'] := by
      rw [← takeWhile_dotted a b c d, ← hbind]
      rfl
    have ha : a = 127 := by
      rw [← Nat.ofDigitChars_ten_toDigits (n := a), hfirst]
      rfl
    subst ha
    exact ⟨b, c, d, hb, hc, hd, hbind⟩

/-- Every bind but an undotted `127.` is a text of a loopback address if it is accepted. -/
theorem isLoopbackText_of_dotted {bind : Text} (h : isLoopback bind)
    (hdotted : text "127." <+: bind → Dotted bind) :
    IsLoopbackText bind ∧ isLoopbackAddress (clientHost bind) = true := by
  unfold isLoopbackAddress clientHost
  rcases h with rfl | hstart | rfl
  · exact ⟨.inl rfl, by decide +kernel⟩
  · obtain ⟨n, hn, hloop⟩ := ipAddress_of_dotted (hdotted hstart)
    have hname : bind ≠ text "localhost" := by
      rintro rfl
      exact absurd hstart (by decide)
    have hv4 : (Ip.Address.v4 n).isLoopback = true := decide_eq_true hloop
    rw [if_neg hname, hn]
    exact ⟨.inr ⟨_, hn, hv4⟩, hv4⟩
  · exact ⟨.inr ⟨.v6 1 none, by decide +kernel, by decide⟩, by decide +kernel⟩

section

variable {ν : Type} [Python ν]

theorem ownCheck_of_loopback {localApi : LocalAPIConfig ν} {bind : Text} {port : Int}
    (hbind : localApi.bind = .str bind) (hport : localApi.port = .int port)
    (hremote : localApi.remoteAccess.truthy = false)
    (h : isLoopbackAddress (clientHost bind) = true) (hvalid : ValidPort port) :
    ownCheck localApi = some (clientHost bind, port) := by
  unfold ownCheck
  rw [hbind, hport]
  exact if_pos ⟨hremote, h, hvalid.1, hvalid.2⟩

omit [Python ν] in
/-- The configuration looks at a text as the server does. -/
theorem isLoopback_str (bind : Text) :
    Configuration.isLoopback (.str bind : Value ν) = .ok (decide (isLoopback bind)) := by
  have hstart : (text "127.").isPrefixOf bind = decide (text "127." <+: bind) := by
    rw [Bool.eq_iff_iff, List.isPrefixOf_iff_prefix, decide_eq_true_iff]
  unfold Configuration.isLoopback Configuration.isText isLoopback
  by_cases hname : bind = text "localhost"
  · simp only [hname, decide_true, Bool.true_or, if_true, true_or]
    rfl
  · by_cases hsix : bind = text "::1"
    · simp only [hsix, decide_true, Bool.or_true, if_true, or_true]
      rfl
    · simp only [hname, hsix, decide_false, Bool.or_self, Bool.false_eq_true, if_false, false_or,
        or_false, Configuration.startsWith, hstart]

theorem isLoopback_of_validate {config : MayaConfig ν} {bind : Text}
    (hbind : config.localApi.bind = .str bind) (h : config.validate = .ok ()) : isLoopback bind := by
  unfold MayaConfig.validate Configuration.validateSettings at h
  simp only [bind_eq_ok, hbind, isLoopback_str] at h
  obtain ⟨_, ⟨_, -, _, -, _, -, _, -, _, -, _, -, _, -, _, -, _, -, _, hloop, _, hensure, -⟩, -⟩ := h
  cases hloop
  exact of_decide_eq_true (ensure_eq_ok.mp hensure)

/-- The three checks agree on a bind if and only if it is dotted or does not begin like that. -/
theorem agrees_iff (bind : Text) : Agrees ν bind ↔ (text "127." <+: bind → Dotted bind) := by
  constructor
  · intro h hstart
    have haccepted : Accepted (buildLocalApiHttpServer (fun _ _ => .ok ()) bind 0 false :
        Except (ServerError Unit) Unit) :=
      (accepted_iff _ bind 0 false).mpr ⟨rfl, .inr (.inl hstart)⟩
    rcases (h.server _ 0 haccepted).1 with rfl | ⟨address, haddress, -⟩
    · exact absurd hstart (by decide)
    · exact dotted_of_ipAddress hstart haddress
  · intro hdotted
    constructor
    · intro σ ε listen port haccepted
      obtain ⟨-, hloop⟩ := (accepted_iff listen bind port false).mp haccepted
      obtain ⟨htext, haddress⟩ := isLoopbackText_of_dotted hloop hdotted
      exact ⟨htext, fun port hport => ownCheck_of_loopback rfl rfl rfl haddress hport⟩
    · intro config hbind hremote hvalid
      obtain ⟨htext, haddress⟩ :=
        isLoopbackText_of_dotted (isLoopback_of_validate hbind hvalid) hdotted
      refine ⟨htext, fun port hport => ?_⟩
      have hagain : ({ config with localApi := { config.localApi with port := .int port } } :
          MayaConfig ν).validate = .ok () := hvalid
      unfold endpoint
      rw [hagain]
      have hown : ownCheck { config.localApi with port := .int port } =
          some (clientHost bind, port) := ownCheck_of_loopback hbind rfl hremote haddress hport
      show fetch (ownCheck { config.localApi with port := .int port }) _ = _
      rw [hown]
      rfl

end

namespace Sample

instance floats : Python Rat where
  half := 1 / 2
  isZero x := x = 0
  isFinite _ := true
  inUnit x := 0 ≤ x ∧ x ≤ 1
  ofInt n := some n
  ofText _ := none
  repr _ := []

end Sample

open Sample in
/-- A host name that begins like an address is accepted, and what it resolves to is not looked at. -/
theorem sample_not_agrees : ¬ Agrees Rat (text "127.evil.example") := by
  intro h
  have haccepted : Accepted (buildLocalApiHttpServer (fun _ _ => .ok ()) (text "127.evil.example") 0
      false : Except (ServerError Unit) Unit) :=
    (accepted_iff _ _ 0 false).mpr ⟨rfl, .inr (.inl (by decide))⟩
  have hnone : Ip.ipAddress (text "127.evil.example") = none := by decide +kernel
  rcases (h.server _ 0 haccepted).1 with hname | ⟨address, haddress, -⟩
  · exact absurd hname (by decide)
  · rw [hnone] at haddress
    cases haddress

end ProjectMaya.Loopback
