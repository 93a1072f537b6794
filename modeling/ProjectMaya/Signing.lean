import ProjectMaya.Store
import ProjectMaya.Logic.Base64
import ProjectMaya.Logic.JsonText

/-! # Signatures over canonical bytes

Broker messages and release manifests sign the canonical JSON text of a record, and carry keys
and signatures as URL-safe Base64 without padding. -/

namespace ProjectMaya

open Logic

/-- What the code uses of Ed25519: keys as raw bytes, and that a signature is valid for what was
signed. -/
structure SignatureScheme where
  PrivateKey : Type
  PublicKey : Type
  publicKey : PrivateKey → PublicKey
  fromPrivateBytes : Bytes → Option PrivateKey
  fromPublicBytes : Bytes → Option PublicKey
  publicBytes : PublicKey → Bytes
  sign : PrivateKey → Bytes → Bytes
  verify : PublicKey → Bytes → Bytes → Bool
  fromPublicBytes_publicBytes : ∀ k, fromPublicBytes (publicBytes k) = some k
  verify_sign : ∀ k message, verify (publicKey k) (sign k message) message = true

/-- No signature made for one message is valid for another. -/
def SignatureScheme.Binding (sch : SignatureScheme) : Prop :=
  ∀ k message message', sch.verify (sch.publicKey k) (sch.sign k message) message' = true →
    message = message'

/-- A scheme to run the model with: what was signed stands behind the key. -/
def SignatureScheme.attached : SignatureScheme where
  PrivateKey := Bytes
  PublicKey := Bytes
  publicKey := id
  fromPrivateBytes := some
  fromPublicBytes := some
  publicBytes := id
  sign k message := k ++ message
  verify k signature message := signature == k ++ message
  fromPublicBytes_publicBytes _ := rfl
  verify_sign _ _ := beq_self_eq_true _

theorem SignatureScheme.attached_binding : SignatureScheme.attached.Binding := by
  intro k message message' h
  exact List.append_cancel_left (beq_iff_eq.mp h)

/-- `_b64encode` -/
def b64encode (value : Bytes) : String := String.ofList (Base64.encode value)

/-- `_b64decode` -/
def b64decode (value : String) : Option Bytes := Base64.decode value.toList

@[simp] theorem b64decode_b64encode (value : Bytes) : b64decode (b64encode value) = some value := by
  rw [b64decode, b64encode, String.toList_ofList, Base64.decode_encode]

/-- `canonical_json_bytes` -/
def canonicalJsonBytes (data : List (String × Json)) : Bytes := utf8 (Json.dumps (.obj data))

/-- Records with equal canonical bytes are equal up to the order of their fields. -/
theorem canonicalJsonBytes_inj {data data' : List (String × Json)}
    (h : canonicalJsonBytes data = canonicalJsonBytes data') :
    Json.sorted (.obj data) = Json.sorted (.obj data') := Json.dumps_inj (utf8_inj h)

end ProjectMaya
