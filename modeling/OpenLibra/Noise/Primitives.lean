import OpenLibra.Rust.Outcome

/-!
# Primitives of the Noise protocol

The hash, the key derivation, Diffie-Hellman and the AEAD are arbitrary; lengths and errors are
modelled.
-/

namespace OpenLibra.Noise

open Rust

inductive NoiseError where
  | msgTooShort
  | hkdf
  | encrypt
  | decrypt
  | wrongPublicKeyReceived
  | sessionClosed
  | payloadTooLarge
  | receivedMsgTooLarge
  | responseBufferTooSmall
  | nonceOverflow
deriving DecidableEq, Repr

def Bytes (length : Nat) : Type :=
  { bytes : List UInt8 // bytes.length = length }
deriving DecidableEq

/-!
# Constants
-/

def maxSizeNoiseMsg : Nat := 65535

def aesGcmTaglen : Nat := 16

def aesNonceSize : Nat := 12

abbrev publicKeySize : Nat := 32

def minimumSeedLength : Nat := 16

/-- `Noise_IK_25519_AESGCM_SHA256` and four zero bytes. -/
def protocolName : List UInt8 :=
  [78, 111, 105, 115, 101, 95, 73, 75, 95, 50, 53, 53, 49, 57, 95, 65, 69, 83,
    71, 67, 77, 95, 83, 72, 65, 50, 53, 54, 0, 0, 0, 0]

def encryptedLen (plaintextLen : Nat) : Nat := plaintextLen + aesGcmTaglen

def handshakeInitMsgLen (payloadLen : Nat) : Nat :=
  publicKeySize + encryptedLen publicKeySize + encryptedLen payloadLen

def handshakeRespMsgLen (payloadLen : Nat) : Nat := publicKeySize + encryptedLen payloadLen

/-!
# Authenticated encryption
-/

/-- Sealing gives the ciphertext and its tag; opening takes them appended. -/
structure Aead where
  sealSeparateTag : Bytes 32 -> List UInt8 -> List UInt8 -> List UInt8 ->
    Option (List UInt8 × List UInt8)
  openInPlace : Bytes 32 -> List UInt8 -> List UInt8 -> List UInt8 -> Option (List UInt8)

namespace Aead

/-- `seal_in_place_append_tag`. -/
def sealAppendTag (aead : Aead) (key : Bytes 32) (nonce aad plaintext : List UInt8) :
    Option (List UInt8) :=
  (aead.sealSeparateTag key nonce aad plaintext).map fun sealed =>
    sealed.1 ++ sealed.2

/-- Sealing within the message size succeeds and adds a tag to a ciphertext of
the same length, and opening inverts it. -/
structure Lawful (aead : Aead) : Prop where
  exists_seal : forall key nonce aad plaintext, plaintext.length ≤ maxSizeNoiseMsg ->
      exists sealed, aead.sealSeparateTag key nonce aad plaintext = some sealed
  length_ciphertext : forall {key nonce aad plaintext sealed},
    aead.sealSeparateTag key nonce aad plaintext = some sealed -> sealed.1.length = plaintext.length
  length_tag : forall {key nonce aad plaintext sealed},
    aead.sealSeparateTag key nonce aad plaintext = some sealed -> sealed.2.length = aesGcmTaglen
  open_seal : forall {key nonce aad plaintext sealed},
    aead.sealSeparateTag key nonce aad plaintext = some sealed ->
      aead.openInPlace key nonce aad (sealed.1 ++ sealed.2) = some plaintext

/-- A text sealed under `aad` does not open under `other`.  Tags have a fixed
length, so no AEAD has this for all pairs at once. -/
def RejectsOtherAad (aead : Aead) (aad other : List UInt8) : Prop :=
  other ≠ aad -> forall {key nonce plaintext sealed},
    aead.sealSeparateTag key nonce aad plaintext = some sealed ->
      aead.openInPlace key nonce other (sealed.1 ++ sealed.2) = none

theorem Lawful.exists_sealAppendTag {aead : Aead} (h : aead.Lawful) (key : Bytes 32)
    (nonce aad : List UInt8) {plaintext} (hlen : plaintext.length ≤ maxSizeNoiseMsg) :
    exists text, aead.sealAppendTag key nonce aad plaintext = some text ∧
      text.length = encryptedLen plaintext.length ∧
      aead.openInPlace key nonce aad text = some plaintext := by
  rcases h.exists_seal key nonce aad plaintext hlen with ⟨sealed, hsealed⟩
  refine ⟨sealed.1 ++ sealed.2, by simp [sealAppendTag, hsealed], ?_, h.open_seal hsealed⟩
  rw [List.length_append, h.length_ciphertext hsealed, h.length_tag hsealed]
  rfl

theorem RejectsOtherAad.open_eq_none {aead : Aead} {aad other} (h : aead.RejectsOtherAad aad other)
    (hother : other ≠ aad) {key : Bytes 32} {nonce plaintext text}
    (hsealed : aead.sealAppendTag key nonce aad plaintext = some text) :
    aead.openInPlace key nonce other text = none := by
  rcases Option.map_eq_some_iff.mp hsealed with ⟨_, hseal, rfl⟩
  exact h hother hseal

end Aead

/-!
# Hashing and key derivation
-/

structure NoiseCrypto (privateKey : Type) where
  publicKeyOf : privateKey -> Bytes 32
  diffieHellman : privateKey -> Bytes 32 -> Bytes 32
  sha256 : List UInt8 -> List UInt8
  hkdfExtract : List UInt8 -> List UInt8 -> List UInt8
  hkdfExpand : List UInt8 -> Bytes 64
  aead : Aead

variable {privateKey : Type} (C : NoiseCrypto privateKey)

def splitKeys (okm : Bytes 64) : Bytes 32 × Bytes 32 :=
  (⟨okm.val.take 32, by rw [List.length_take, okm.property]; rfl⟩,
    ⟨okm.val.drop 32, by rw [List.length_drop, okm.property]⟩)

def hkdf (ck : List UInt8) (dhOutput : Option (List UInt8)) :
    Outcome NoiseError (Bytes 32 × Bytes 32) :=
  let ikm := dhOutput.getD []
  if ikm = [] then
    .ok (splitKeys (C.hkdfExpand (C.hkdfExtract ck [])))
  else if ikm.length < minimumSeedLength then
    .err .hkdf
  else
    .ok (splitKeys (C.hkdfExpand (C.hkdfExtract ck ikm)))

def mixHash (h data : List UInt8) : List UInt8 := C.sha256 (h ++ data)

variable (ck : List UInt8) (dhOutput : Bytes 32)

def mixKey : Outcome NoiseError (List UInt8 × Bytes 32) := do
  let (newCk, k) <- hkdf C ck (some dhOutput.val)
  return (newCk.val, k)

def derived : Bytes 32 × Bytes 32 :=
  splitKeys (C.hkdfExpand (C.hkdfExtract ck dhOutput.val))

theorem mixKey_eq : mixKey C ck dhOutput =
    .ok ((derived C ck dhOutput).1.val, (derived C ck dhOutput).2) := by
  have hlen := dhOutput.property
  have hne : dhOutput.val ≠ [] := by
    intro hnil
    rw [hnil] at hlen
    cases hlen
  have hseed : ¬ dhOutput.val.length < minimumSeedLength := by
    rw [hlen]
    decide
  simp [mixKey, hkdf, hne, hseed, derived]

end OpenLibra.Noise
