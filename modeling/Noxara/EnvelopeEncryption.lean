import Noxara.Base64
import Noxara.TableRows

/-! Envelope encryption: a key of the KMS wraps the data key of an organization, which encrypts its fields. -/
namespace Noxara.Crypto

/-- AES-256-GCM and SHA-256. The cipher is a key stream that is xored onto the text and a tag over the result. -/
class Primitives where
  keystream : List UInt8 → List UInt8 → Nat → UInt8
  tag : List UInt8 → List UInt8 → List UInt8 → Vector UInt8 16
  sha256Hex : String → List Char

inductive CryptoError
  | encrypt | decrypt | badVersion | keyNotFound (id : String) | keyRevoked (id : String) | invalidKey
  deriving DecidableEq

def CryptoError.asStr : CryptoError → String
  | encrypt => "encryption failed"
  | decrypt => "decryption failed"
  | badVersion => "unsupported ciphertext version"
  | keyNotFound id => s!"key not found: {id}"
  | keyRevoked id => s!"key revoked: {id}"
  | invalidKey => "invalid key material"

def CIPHERTEXT_VERSION : UInt8 := 0x01

def WRAPPED_DEK_VERSION : UInt8 := 0x01

def xorStream (stream : Nat → UInt8) (bytes : List UInt8) : List UInt8 := bytes.mapIdx fun i b => b ^^^ stream i

@[simp] theorem xorStream_xorStream (stream : Nat → UInt8) (bytes : List UInt8) :
    xorStream stream (xorStream stream bytes) = bytes := by
  apply List.ext_getElem
  · simp [xorStream]
  · intro i h _
    simp only [xorStream, List.getElem_mapIdx]
    rw [UInt8.xor_assoc, UInt8.xor_self, UInt8.xor_zero]

section
variable [Primitives]

def gcmEncrypt (key nonce plaintext : List UInt8) : List UInt8 :=
  let text := xorStream (Primitives.keystream key nonce) plaintext
  text ++ (Primitives.tag key nonce text).toList

/-- The text, if its tag is right. -/
def gcmDecrypt (key nonce sealed : List UInt8) : Option (List UInt8) :=
  let text := sealed.take (sealed.length - 16)
  if 16 ≤ sealed.length ∧ (Primitives.tag key nonce text).toList = sealed.drop (sealed.length - 16) then
    some (xorStream (Primitives.keystream key nonce) text)
  else none

theorem length_gcmEncrypt (key nonce plaintext : List UInt8) :
    (gcmEncrypt key nonce plaintext).length = plaintext.length + 16 := by
  simp [gcmEncrypt, xorStream]

/-- What a key has sealed it opens. -/
theorem gcmDecrypt_gcmEncrypt (key nonce plaintext : List UInt8) :
    gcmDecrypt key nonce (gcmEncrypt key nonce plaintext) = some plaintext := by
  have hlen := length_gcmEncrypt key nonce plaintext
  have htext : (gcmEncrypt key nonce plaintext).length - 16 =
      (xorStream (Primitives.keystream key nonce) plaintext).length := by
    simp [hlen, xorStream]
  unfold gcmDecrypt
  rw [htext]
  simp [gcmEncrypt]

/-- Version, nonce and sealed text. -/
def frame (version : UInt8) (nonce : Vector UInt8 12) (sealed : List UInt8) : List UInt8 :=
  version :: nonce.toList ++ sealed

/-- Take a blob apart that has room for a nonce and a tag. -/
def openFrame (version : UInt8) (key blob : List UInt8) : Except CryptoError (List UInt8) :=
  if blob.length < 1 + 12 + 16 ∨ blob.head? ≠ some version then .error .badVersion
  else
    match gcmDecrypt key ((blob.drop 1).take 12) (blob.drop 13) with
    | some text => .ok text
    | none => .error .decrypt

theorem openFrame_frame (version : UInt8) (key : List UInt8) (nonce : Vector UInt8 12) (plaintext : List UInt8) :
    openFrame version key (frame version nonce (gcmEncrypt key nonce.toList plaintext)) = .ok plaintext := by
  have hlen := length_gcmEncrypt key nonce.toList plaintext
  have hframe : ¬ ((frame version nonce (gcmEncrypt key nonce.toList plaintext)).length < 1 + 12 + 16 ∨
      (frame version nonce (gcmEncrypt key nonce.toList plaintext)).head? ≠ some version) := by
    simp [frame, hlen]
    omega
  unfold openFrame
  rw [if_neg hframe]
  have hnonce : ((frame version nonce (gcmEncrypt key nonce.toList plaintext)).drop 1).take 12 = nonce.toList := by
    simp [frame]
  have hsealed : (frame version nonce (gcmEncrypt key nonce.toList plaintext)).drop 13 =
      gcmEncrypt key nonce.toList plaintext := by
    simp [frame]
  rw [hnonce, hsealed, gcmDecrypt_gcmEncrypt]

structure MockKeyState where
  material : Vector UInt8 32
  revoked : Bool
  deriving DecidableEq

/-- The keys by their ids. -/
abbrev MockKms := Table String MockKeyState

/-- The random bytes of one request, the salt in hex. -/
structure Draws where
  salt : String
  material : Vector UInt8 32
  dek : Vector UInt8 32
  nonce : Vector UInt8 12

def mockKeyId (keyAlias : String) (r : Draws) : String :=
  "cmk_mock_" ++ String.ofList ((Primitives.sha256Hex s!"{keyAlias}-{r.salt}").take 16)

def createKey (kms : MockKms) (keyAlias : String) (r : Draws) : String × MockKms :=
  (mockKeyId keyAlias r, kms.upsert (mockKeyId keyAlias r) ⟨r.material, false⟩)

/-- The key, if it can be used. -/
def usable (kms : MockKms) (id : String) : Except CryptoError MockKeyState :=
  match kms.find? id with
  | none => .error (.keyNotFound id)
  | some state => if state.revoked then .error (.keyRevoked id) else .ok state

def wrap (kms : MockKms) (id : String) (plaintext : List UInt8) (r : Draws) : Except CryptoError (List UInt8) := do
  let state ← usable kms id
  return frame WRAPPED_DEK_VERSION r.nonce (gcmEncrypt state.material.toList r.nonce.toList plaintext)

def unwrap (kms : MockKms) (id : String) (wrapped : List UInt8) : Except CryptoError (List UInt8) := do
  let state ← usable kms id
  openFrame WRAPPED_DEK_VERSION state.material.toList wrapped

omit [Primitives] in
theorem usable_ok {kms : MockKms} {id : String} {state : MockKeyState} :
    usable kms id = .ok state ↔ kms.find? id = some state ∧ state.revoked = false := by
  unfold usable
  cases kms.find? id with
  | none => simp
  | some st =>
    simp only [Option.some.injEq]
    split_ifs with hr
    · simp only [false_iff, not_and]
      rintro rfl
      simp [hr]
    · simp only [Except.ok.injEq]
      refine ⟨fun h => ⟨h, ?_⟩, fun h => h.1⟩
      subst h
      simpa using hr

theorem wrap_ok {kms : MockKms} {id : String} {plaintext blob : List UInt8} {r : Draws} :
    wrap kms id plaintext r = .ok blob ↔ ∃ state, kms.find? id = some state ∧ state.revoked = false ∧
      blob = frame WRAPPED_DEK_VERSION r.nonce (gcmEncrypt state.material.toList r.nonce.toList plaintext) := by
  constructor
  · intro h
    unfold wrap at h
    cases hu : usable kms id with
    | error e =>
      rw [hu] at h
      cases h
    | ok state =>
      rw [hu] at h
      cases h
      exact ⟨state, (usable_ok.mp hu).1, (usable_ok.mp hu).2, rfl⟩
  · rintro ⟨state, hfind, hrevoked, rfl⟩
    rw [wrap, usable_ok.mpr ⟨hfind, hrevoked⟩]
    rfl

theorem unwrap_ok {kms : MockKms} {id : String} {wrapped dek : List UInt8} :
    unwrap kms id wrapped = .ok dek ↔ ∃ state, kms.find? id = some state ∧ state.revoked = false ∧
      openFrame WRAPPED_DEK_VERSION state.material.toList wrapped = .ok dek := by
  constructor
  · intro h
    unfold unwrap at h
    cases hu : usable kms id with
    | error e =>
      rw [hu] at h
      cases h
    | ok state =>
      rw [hu] at h
      exact ⟨state, (usable_ok.mp hu).1, (usable_ok.mp hu).2, h⟩
  · rintro ⟨state, hfind, hrevoked, hopen⟩
    rw [unwrap, usable_ok.mpr ⟨hfind, hrevoked⟩]
    exact hopen

/-- From here on the key can be used neither to wrap nor to unwrap. -/
def revoke (kms : MockKms) (id : String) : Except CryptoError MockKms :=
  match kms.find? id with
  | none => .error (.keyNotFound id)
  | some _ => .ok (kms.modify id fun state => { state with revoked := true })

structure WrappedDek where
  cmkId : String
  wrappedB64 : List Char

structure OrgDataKey where
  dek : List UInt8
  keyId : String

def OrgDataKey.fromWrapped (kms : MockKms) (w : WrappedDek) : Except CryptoError OrgDataKey :=
  match Base64.decode w.wrappedB64 with
  | none => .error .invalidKey
  | some raw => do
    let dek ← unwrap kms w.cmkId raw
    if dek.length ≠ 32 then .error .invalidKey else .ok ⟨dek, w.cmkId⟩

theorem OrgDataKey.fromWrapped_ok {kms : MockKms} {w : WrappedDek} {k : OrgDataKey} :
    fromWrapped kms w = .ok k ↔ ∃ raw, Base64.decode w.wrappedB64 = some raw ∧
      unwrap kms w.cmkId raw = .ok k.dek ∧ k.dek.length = 32 ∧ k.keyId = w.cmkId := by
  unfold fromWrapped
  cases Base64.decode w.wrappedB64 with
  | none => simp
  | some raw =>
    simp only [Option.some.injEq, exists_eq_left']
    cases unwrap kms w.cmkId raw with
    | error e => exact ⟨fun h => (by cases h), fun h => (by cases h.1)⟩
    | ok dek =>
      change (if dek.length ≠ 32 then _ else _) = _ ↔ _
      split_ifs with hlen
      · refine ⟨fun h => (by cases h), fun h => ?_⟩
        cases h.1
        exact absurd h.2.1 hlen
      · obtain ⟨kdek, kid⟩ := k
        simp only [Except.ok.injEq, OrgDataKey.mk.injEq]
        refine ⟨fun h => ⟨h.1, ?_, h.2.symm⟩, fun h => ⟨h.1, h.2.2.symm⟩⟩
        rw [← h.1]
        simpa using hlen

def OrgDataKey.encrypt (k : OrgDataKey) (nonce : Vector UInt8 12) (plaintext : List UInt8) : List UInt8 :=
  frame CIPHERTEXT_VERSION nonce (gcmEncrypt k.dek nonce.toList plaintext)

def OrgDataKey.decrypt (k : OrgDataKey) (blob : List UInt8) : Except CryptoError (List UInt8) :=
  openFrame CIPHERTEXT_VERSION k.dek blob

/-- Data keys with the same bytes read each other's blobs. -/
theorem OrgDataKey.decrypt_encrypt {k k' : OrgDataKey} (h : k.dek = k'.dek) (nonce : Vector UInt8 12)
    (plaintext : List UInt8) : k'.decrypt (k.encrypt nonce plaintext) = .ok plaintext := by
  rw [decrypt, encrypt, h]
  exact openFrame_frame _ _ _ _

end

end Noxara.Crypto
