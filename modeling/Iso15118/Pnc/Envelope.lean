import Iso15118.Lib.Check
import Iso15118.Lib.Wire
import Iso15118.Pnc.Signature

/-!
# The contract key, and the envelope it travels in

`pnc/envelope.rs`: the private key of a contract certificate is delivered encrypted, under a key
both sides derive from an elliptic-curve agreement. The cipher has no integrity of its own; what
stands between a vehicle and a key that is not its certificate's is the last check of `open`.

The arithmetic on the curve and the cipher are the caller's, **`KeyAgreement`** and **`Aes128Cbc`**.

* **`sessionKey`** — the derivation;
* **`openEnvelope`**, **`sealEnvelope`** — the two halves, `open` and `seal`;
* **`openEnvelope_ok`** — what an envelope that opens has passed;
* **`sealed_opens`** — what is sealed opens to what went in, and nothing opens to anything else.
-/

namespace Iso15118.Pnc.Envelope

open Iso15118.Lib

def ivLen : Nat := 16

def privateKeyLen : Nat := 32

def dhPublicKeyLen : Nat := 65

def envelopeLen : Nat := ivLen + privateKeyLen

/-- The `AlgorithmID`, `IDU` and `IDV` of [V2G2-818]. -/
def otherInfo : List UInt8 := [0x01, 0x55, 0x56]

structure KeyAgreement where
  /-- The shared secret with the holder of a public key. -/
  agree : List UInt8 → Except PncError (List UInt8)
  /-- The public point of a private scalar: arithmetic on the curve, not on the holder's key. -/
  publicKeyOf : List UInt8 → Except PncError (List UInt8)

structure Aes128Cbc where
  decrypt : Bytes 16 → Bytes 16 → List UInt8 → Except PncError (List UInt8)
  encrypt : Bytes 16 → Bytes 16 → List UInt8 → Except PncError (List UInt8)

/-- `<[u8; N]>::try_from`. -/
def tryArray (n : Nat) (bytes : List UInt8) : Option (Bytes n) :=
  if h : bytes.length = n then some ⟨bytes, h⟩ else none

theorem tryArray_toList {n : Nat} (v : Bytes n) : tryArray n v.toList = some v := by
  unfold tryArray
  rw [dif_pos v.length_toList]

/-- The session key of [V2G2-818]: the leftmost sixteen bytes of one digest. A digest that is
shorter leaves the rest zero. -/
def sessionKey (sharedSecret : List UInt8) (hash : Hash) : Bytes 16 :=
  let input := u32ToBe 1 ++ sharedSecret ++ otherInfo
  let digest := hash .ecdsaSha256 input
  ⟨(digest ++ List.replicate 16 0).take 16, by simp⟩

/-- Opens a `ContractSignatureEncryptedPrivateKey`. -/
def openEnvelope (envelope dhPublicKey certificatePublicKey : List UInt8)
    (agreement : KeyAgreement) (hash : Hash) (cipher : Aes128Cbc) :
    Except PncError (List UInt8) :=
  if envelope.length ≠ envelopeLen then .error (.badEnvelope envelope.length)
  else if dhPublicKey.length ≠ dhPublicKeyLen ∨ dhPublicKey.head? ≠ some 0x04 then
    .error (.badEnvelope dhPublicKey.length)
  else
    let (iv, ciphertext) := envelope.splitAt ivLen
    match tryArray ivLen iv with
    | none => .error (.badEnvelope iv.length)
    | some iv => do
        let shared ← agreement.agree dhPublicKey
        let key := sessionKey shared hash
        let scalar ← cipher.decrypt key iv ciphertext
        if scalar.length ≠ privateKeyLen then .error (.badEnvelope scalar.length)
        else do
          -- [V2G2-823]: the key has to be the one the certificate is for
          let derived ← agreement.publicKeyOf scalar
          if derived ≠ certificatePublicKey then .error .keyMismatch else .ok scalar

/-- Builds a `ContractSignatureEncryptedPrivateKey`: the sender's half. -/
def sealEnvelope (privateKey receiverPublicKey : List UInt8) (iv : Bytes 16)
    (agreement : KeyAgreement) (hash : Hash) (cipher : Aes128Cbc) :
    Except PncError (List UInt8) :=
  if privateKey.length ≠ privateKeyLen then .error (.badEnvelope privateKey.length)
  else do
    let shared ← agreement.agree receiverPublicKey
    let key := sessionKey shared hash
    let ciphertext ← cipher.encrypt key iv privateKey
    .ok (iv.toList ++ ciphertext)

section

variable {envelope dhPublicKey certificatePublicKey privateKey receiverPublicKey : List UInt8}
  {iv : Bytes 16} {agreement : KeyAgreement} {hash : Hash} {cipher : Aes128Cbc}

/-! ## What opens

The lengths are checked first, then the key is derived and the rest decrypted. Nothing in this
tells a wrong key, so all depends on the comparison with the certificate's public key at the end. -/

/-- What `open` does with an envelope of the right length, by the parts it is made of. -/
theorem openEnvelope_append (ciphertext : List UInt8) (hlen : ciphertext.length = privateKeyLen)
    (hpoint : dhPublicKey.length = dhPublicKeyLen ∧ dhPublicKey.head? = some 0x04) :
    openEnvelope (iv.toList ++ ciphertext) dhPublicKey certificatePublicKey agreement hash cipher
      = (do
          let shared ← agreement.agree dhPublicKey
          let scalar ← cipher.decrypt (sessionKey shared hash) iv ciphertext
          if scalar.length ≠ privateKeyLen then .error (.badEnvelope scalar.length)
          else do
            let derived ← agreement.publicKeyOf scalar
            if derived ≠ certificatePublicKey then .error .keyMismatch else .ok scalar) := by
  have hsplit : (iv.toList ++ ciphertext).splitAt ivLen = (iv.toList, ciphertext) := by
    have hiv : iv.toList.length = ivLen := iv.length_toList
    rw [List.splitAt_eq, List.take_left' hiv, List.drop_left' hiv]
  have hlength : (iv.toList ++ ciphertext).length = envelopeLen := by
    rw [List.length_append, iv.length_toList, hlen]
    rfl
  unfold openEnvelope
  rw [if_neg (not_not.mpr hlength),
    if_neg (not_or.mpr ⟨not_not.mpr hpoint.1, not_not.mpr hpoint.2⟩), hsplit]
  dsimp only
  rw [show tryArray ivLen iv.toList = some iv from tryArray_toList iv]

/-- **What opens** has the lengths the standard fixes, and the key in it generates the public key of
the certificate. -/
theorem openEnvelope_ok
    (h : openEnvelope envelope dhPublicKey certificatePublicKey agreement hash cipher
      = .ok privateKey) :
    envelope.length = envelopeLen
      ∧ dhPublicKey.length = dhPublicKeyLen ∧ dhPublicKey.head? = some 0x04
      ∧ privateKey.length = privateKeyLen
      ∧ agreement.publicKeyOf privateKey = .ok certificatePublicKey := by
  unfold openEnvelope at h
  obtain ⟨hlen, h⟩ := refuse_eq_ok.mp h
  obtain ⟨hpoint, h⟩ := refuse_eq_ok.mp h
  rw [not_or, not_not, not_not] at hpoint
  dsimp only at h
  split at h
  · cases h
  · obtain ⟨shared, -, h⟩ := bind_eq_ok.mp h
    obtain ⟨scalar, -, h⟩ := bind_eq_ok.mp h
    obtain ⟨hscalar, h⟩ := refuse_eq_ok.mp h
    obtain ⟨derived, hderived, h⟩ := bind_eq_ok.mp h
    obtain ⟨hmatch, h⟩ := refuse_eq_ok.mp h
    cases h
    rw [not_not] at hlen hscalar hmatch
    exact ⟨hlen, hpoint.1, hpoint.2, hscalar, hmatch ▸ hderived⟩

/-- What `seal` builds: the IV, and the key under the session key. -/
theorem sealEnvelope_ok
    (h : sealEnvelope privateKey receiverPublicKey iv agreement hash cipher = .ok envelope) :
    privateKey.length = privateKeyLen
      ∧ ∃ shared ciphertext, agreement.agree receiverPublicKey = .ok shared
        ∧ cipher.encrypt (sessionKey shared hash) iv privateKey = .ok ciphertext
        ∧ envelope = iv.toList ++ ciphertext := by
  unfold sealEnvelope at h
  obtain ⟨hlen, h⟩ := refuse_eq_ok.mp h
  obtain ⟨shared, hshared, h⟩ := bind_eq_ok.mp h
  obtain ⟨ciphertext, hencrypt, h⟩ := bind_eq_ok.mp h
  exact ⟨not_not.mp hlen, shared, ciphertext, hshared, hencrypt, (Except.ok.inj h).symm⟩

/-- **What is sealed** is what the receiver's decryption gives back; whether it is kept is up to the
certificate. -/
theorem openEnvelope_sealEnvelope {receiver : KeyAgreement}
    (hpoint : dhPublicKey.length = dhPublicKeyLen ∧ dhPublicKey.head? = some 0x04)
    (hagree : ∀ shared, agreement.agree receiverPublicKey = .ok shared →
      receiver.agree dhPublicKey = .ok shared)
    (hcipher : ∀ key iv data out, cipher.encrypt key iv data = .ok out →
      out.length = data.length ∧ cipher.decrypt key iv out = .ok data)
    (h : sealEnvelope privateKey receiverPublicKey iv agreement hash cipher = .ok envelope) :
    openEnvelope envelope dhPublicKey certificatePublicKey receiver hash cipher
      = (do
          let derived ← receiver.publicKeyOf privateKey
          if derived ≠ certificatePublicKey then .error .keyMismatch else .ok privateKey) := by
  obtain ⟨hlen, shared, ciphertext, hshared, hencrypt, rfl⟩ := sealEnvelope_ok h
  obtain ⟨hsame, hdecrypt⟩ := hcipher _ _ _ _ hencrypt
  rw [openEnvelope_append ciphertext (hsame.trans hlen) hpoint, hagree shared hshared]
  show (do
    let scalar ← cipher.decrypt (sessionKey shared hash) iv ciphertext
    if scalar.length ≠ privateKeyLen then Except.error (PncError.badEnvelope scalar.length)
    else do
      let derived ← receiver.publicKeyOf scalar
      if derived ≠ certificatePublicKey then .error .keyMismatch else .ok scalar) = _
  rw [hdecrypt]
  show (if privateKey.length ≠ privateKeyLen then _ else _) = _
  rw [if_neg (not_not.mpr hlen)]

end

/-- **The key that was sealed, or none.** Assume the agreement is one, the cipher decrypts what it
encrypts, block for block, and no two scalars have one public point. What the sender seals the
receiver opens to the key that went in, against that key's certificate, and refuses against every
other. And no envelope, from whomever and whatever was done to it, opens to another key against that
certificate, for no receiver on the curve. -/
theorem sealed_opens (sender receiver : KeyAgreement) (hash : Hash) (cipher : Aes128Cbc)
    (receiverPublicKey dhPublicKey : List UInt8)
    (hpoint : dhPublicKey.length = dhPublicKeyLen ∧ dhPublicKey.head? = some 0x04)
    (hagree : ∀ shared, sender.agree receiverPublicKey = .ok shared →
      receiver.agree dhPublicKey = .ok shared)
    (hcipher : ∀ key iv data out, cipher.encrypt key iv data = .ok out →
      out.length = data.length ∧ cipher.decrypt key iv out = .ok data)
    (hcurve : ∀ a b point, a.length = privateKeyLen → b.length = privateKeyLen →
      receiver.publicKeyOf a = .ok point → receiver.publicKeyOf b = .ok point → a = b)
    (privateKey certificatePublicKey envelope : List UInt8) (iv : Bytes 16)
    (hkey : receiver.publicKeyOf privateKey = .ok certificatePublicKey)
    (hsealed : sealEnvelope privateKey receiverPublicKey iv sender hash cipher = .ok envelope) :
    openEnvelope envelope dhPublicKey certificatePublicKey receiver hash cipher = .ok privateKey
      ∧ (∀ other, other ≠ certificatePublicKey →
        openEnvelope envelope dhPublicKey other receiver hash cipher = .error .keyMismatch)
      ∧ ∀ opener envelope' dhPublicKey' opened, opener.publicKeyOf = receiver.publicKeyOf →
        openEnvelope envelope' dhPublicKey' certificatePublicKey opener hash cipher = .ok opened →
          opened = privateKey := by
  -- opening depends on the certificate in the comparison at the end only
  have hopens : ∀ certificate,
      openEnvelope envelope dhPublicKey certificate receiver hash cipher
        = if certificatePublicKey ≠ certificate then .error .keyMismatch else .ok privateKey := by
    intro certificate
    rw [openEnvelope_sealEnvelope hpoint hagree hcipher hsealed, hkey]
    rfl
  refine ⟨?_, ?_, ?_⟩
  · rw [hopens, if_neg (not_not.mpr rfl)]
  · intro other hother
    rw [hopens, if_pos (Ne.symm hother)]
  -- two private keys of one public key are one
  · intro opener envelope' dhPublicKey' opened hsame h
    obtain ⟨-, -, -, hlen, hopened⟩ := openEnvelope_ok h
    rw [hsame] at hopened
    exact hcurve _ _ _ hlen (sealEnvelope_ok hsealed).1 hopened hkey

/-! ## The envelope of the tests

Built by a third implementation from the text of the standard; `tests/fixtures/pki`. -/

namespace Fixture

def envelope : List UInt8 :=
  [0x30, 0x31, 0x32, 0x33, 0x34, 0x35, 0x36, 0x37, 0x38, 0x39, 0x61, 0x62, 0x63, 0x64, 0x65, 0x66,
    0xFF, 0xF1, 0x00, 0x22, 0x7E, 0xB1, 0xA5, 0xCF, 0x16, 0xAB, 0x36, 0xE1, 0xD9, 0x42, 0x5A, 0x01,
    0x5A, 0x0B, 0xB9, 0xBB, 0x28, 0x88, 0x2F, 0xC5, 0x62, 0x04, 0x16, 0xCD, 0x0E, 0x22, 0xE8, 0x61]

def dhPublicKey : List UInt8 :=
  [0x04, 0xE2, 0x80, 0x6E, 0x78, 0x6C, 0x06, 0xBF, 0xC7, 0x8B, 0x90, 0xE8, 0x6E, 0x1E, 0x40, 0x57,
    0xDA, 0x46, 0xC8, 0x8F, 0x22, 0xAA, 0xF3, 0x52, 0x7A, 0x22, 0xE1, 0x2E, 0x05, 0x62, 0x8B, 0x01,
    0x7F, 0xE2, 0x0E, 0x62, 0x5E, 0x49, 0xF2, 0x39, 0xC8, 0x39, 0x49, 0x8F, 0x8A, 0x36, 0x99, 0xB7,
    0x3D, 0x30, 0x86, 0x36, 0xAF, 0xBB, 0x90, 0xB1, 0xBD, 0xA9, 0x26, 0xCC, 0xF4, 0x5E, 0xE3, 0x82,
    0xAB]

def contractPublic : List UInt8 :=
  [0x04, 0xB2, 0x97, 0xD0, 0x96, 0x0E, 0x67, 0xEF, 0x83, 0x39, 0x7A, 0x66, 0x80, 0xC9, 0xE4, 0x7E,
    0x3C, 0x8A, 0xAF, 0x3D, 0x1F, 0x49, 0xED, 0x60, 0xC8, 0x37, 0xA6, 0x6F, 0xD8, 0xBE, 0x72, 0x0F,
    0xB2, 0x09, 0xA7, 0x28, 0x81, 0x26, 0xD0, 0x5D, 0x36, 0xFB, 0xF8, 0xC2, 0xE5, 0x64, 0x12, 0xA8,
    0xBF, 0x37, 0x59, 0x73, 0xD4, 0xC9, 0xAB, 0x07, 0x5E, 0x06, 0x4D, 0x23, 0xCB, 0x7F, 0x5B, 0xEA,
    0xE3]

def contractKey : List UInt8 :=
  [0x77, 0x7E, 0xB7, 0x4C, 0x7F, 0xC3, 0xDA, 0xD6, 0x28, 0xB2, 0x6E, 0xDD, 0x44, 0xAD, 0x92, 0xE3,
    0x4D, 0x1F, 0xBD, 0x91, 0x76, 0x29, 0x53, 0xC7, 0x8F, 0x7B, 0x40, 0x33, 0x65, 0x36, 0x9B, 0xDC]

def receiverPublic : List UInt8 :=
  [0x04, 0xAD, 0x35, 0x39, 0x3F, 0x53, 0xA9, 0x0A, 0xB0, 0x13, 0xFF, 0x8F, 0x6E, 0xA4, 0x93, 0x28,
    0x67, 0x8B, 0x67, 0xF8, 0x82, 0x7B, 0xFB, 0x2D, 0x91, 0x54, 0xB6, 0xB7, 0xF5, 0x38, 0x15, 0xB3,
    0x72, 0xC4, 0xD1, 0x06, 0x6D, 0x0E, 0x13, 0xBB, 0xC8, 0x89, 0x4E, 0x42, 0xD2, 0xE7, 0xD7, 0x99,
    0xFA, 0x0A, 0x6F, 0xBD, 0x13, 0x89, 0x28, 0x13, 0x32, 0xD5, 0x3D, 0xDF, 0x8E, 0xDC, 0x3C, 0x1E,
    0x8C]

def sharedSecret : List UInt8 :=
  [0x5D, 0x6C, 0xE3, 0xC4, 0x74, 0x1F, 0x27, 0x13, 0x9C, 0x90, 0xBD, 0xE1, 0xDE, 0x90, 0xFF, 0x79,
    0x2B, 0x73, 0x32, 0x0B, 0x00, 0xAB, 0x7F, 0x64, 0x65, 0x02, 0xDF, 0xA7, 0xA2, 0x73, 0x00, 0x0A]

def kdfDigest : List UInt8 :=
  [0xFD, 0x3E, 0xF5, 0x7A, 0x8F, 0x5A, 0x66, 0x26, 0x68, 0xB8, 0x41, 0x71, 0x95, 0x4F, 0xD4, 0xA4,
    0xB7, 0xEA, 0x74, 0xEF, 0x1C, 0xB3, 0xA2, 0x5F, 0xA1, 0x88, 0x1F, 0x4C, 0xE8, 0xED, 0x18, 0x0E]

def iv : Bytes 16 := ⟨envelope.take 16, rfl⟩

def sessionKey : Bytes 16 := ⟨kdfDigest.take 16, rfl⟩

/-- The answer to one question. -/
def answers {α : Type} (asked : Prop) [Decidable asked] (answer : α) : Except PncError α :=
  if asked then .ok answer else .error (.backend "not in the fixture")

def publicKeyOf (scalar : List UInt8) : Except PncError (List UInt8) :=
  answers (scalar = contractKey) contractPublic

def agreesWith (publicKey : List UInt8) : KeyAgreement where
  agree peer := answers (peer = publicKey) sharedSecret
  publicKeyOf := publicKeyOf

def hash : Hash := fun _ data =>
  if data = [0, 0, 0, 1] ++ sharedSecret ++ [0x01, 0x55, 0x56] then kdfDigest else []

def cipher : Aes128Cbc where
  decrypt key iv' data :=
    answers (key = sessionKey ∧ iv' = iv ∧ data = envelope.drop 16) contractKey
  encrypt key iv' data :=
    answers (key = sessionKey ∧ iv' = iv ∧ data = contractKey) (envelope.drop 16)

theorem answers_eq_ok {α : Type} {asked : Prop} [Decidable asked] {answer a : α} :
    answers asked answer = .ok a ↔ asked ∧ answer = a := by
  unfold answers
  rw [require_eq_ok, Except.ok.injEq]

theorem agree_own (publicKey : List UInt8) :
    (agreesWith publicKey).agree publicKey = .ok sharedSecret :=
  answers_eq_ok.mpr ⟨rfl, rfl⟩

theorem decrypt_encrypt (key iv' : Bytes 16) (data out : List UInt8)
    (h : cipher.encrypt key iv' data = .ok out) :
    out.length = data.length ∧ cipher.decrypt key iv' out = .ok data := by
  obtain ⟨⟨rfl, rfl, rfl⟩, rfl⟩ := answers_eq_ok.mp h
  exact ⟨rfl, by decide +kernel⟩

theorem publicKeyOf_injective (a b point : List UInt8) (ha : publicKeyOf a = .ok point)
    (hb : publicKeyOf b = .ok point) : a = b :=
  (answers_eq_ok.mp ha).1.trans (answers_eq_ok.mp hb).1.symm

end Fixture

/-- The envelope of the tests opens to the key that went in. -/
theorem sealed_opens_fixture :
    openEnvelope Fixture.envelope Fixture.dhPublicKey Fixture.contractPublic
      (Fixture.agreesWith Fixture.dhPublicKey) Fixture.hash Fixture.cipher
        = .ok Fixture.contractKey :=
  (sealed_opens (Fixture.agreesWith Fixture.receiverPublic)
    (Fixture.agreesWith Fixture.dhPublicKey) Fixture.hash Fixture.cipher Fixture.receiverPublic
    Fixture.dhPublicKey (by decide +kernel)
    (by
      intro shared h
      rw [Fixture.agree_own] at h ⊢
      exact h)
    Fixture.decrypt_encrypt (fun a b point _ _ => Fixture.publicKeyOf_injective a b point)
    Fixture.contractKey Fixture.contractPublic Fixture.envelope Fixture.iv
    (by decide +kernel) (by decide +kernel)).1

end Iso15118.Pnc.Envelope
