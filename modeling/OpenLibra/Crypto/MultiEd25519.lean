import Mathlib.Data.List.Sort
import OpenLibra.Accumulator.InMemory
import OpenLibra.Bits.Bitmap

/-!
# Multi-key Ed25519 signatures

A key is a list of Ed25519 keys with a threshold, a signature a list of signatures with a bitmap
of their keys.  Ed25519 itself is arbitrary.
-/

namespace OpenLibra.Crypto

open Rust Accumulator

inductive CryptoMaterialError where
  | serializationError
  | deserializationError
  | validationError
  | wrongLengthError
  | canonicalRepresentationError
  | smallSubgroupError
  | pointNotOnCurveError
  | bitVecError (message : String)
deriving DecidableEq, Repr

def CryptoMaterialError.toText : CryptoMaterialError -> String
  | serializationError => "SerializationError"
  | deserializationError => "DeserializationError"
  | validationError => "ValidationError"
  | wrongLengthError => "WrongLengthError"
  | canonicalRepresentationError => "CanonicalRepresentationError"
  | smallSubgroupError => "SmallSubgroupError"
  | pointNotOnCurveError => "PointNotOnCurveError"
  | bitVecError message => "BitVecError(\"" ++ message ++ "\")"

/-- The calls into Ed25519; verification returns an error or nothing. -/
structure Ed25519 (publicKey signature : Type) where
  signatureTryFrom : List UInt8 -> Except CryptoMaterialError signature
  verifyArbitraryMsg : signature -> List UInt8 -> publicKey -> Except AnyhowError Unit

/-- A `Result` that another function returned. -/
def ofExcept {error alpha : Type} : Except error alpha -> Outcome error alpha
  | .ok result => .ok result
  | .error e => .err e

def maxNumOfKeys : Nat := 32

def bitmapNumOfBytes : Nat := 4

def ed25519SignatureLength : Nat := 64

/-!
# Bitmaps of four bytes
-/

def Bitmap : Type :=
  { bytes : List UInt8 // bytes.length = bitmapNumOfBytes }
deriving DecidableEq

namespace Bitmap

def zero : Bitmap := ⟨List.replicate bitmapNumOfBytes 0, List.length_replicate⟩

def setBit {error : Type} (input : Bitmap) (index : Nat) : Outcome error Bitmap :=
  if index / 8 < bitmapNumOfBytes then
    .ok ⟨Bits.setBit input.val index, by
      rw [Bits.length_setBit]
      exact input.property⟩
  else .panic

def getBit {error : Type} (input : Bitmap) (index : Nat) : Outcome error Bool :=
  if index / 8 < bitmapNumOfBytes then
    .ok (Bits.getBit input.val index)
  else .panic

def countOnes (input : Bitmap) : Nat := Bits.countOnes input.val

def lastSetBit (input : Bitmap) : Option Nat := Bits.lastSetBit input.val

end Bitmap

structure MultiEd25519PublicKey (publicKey : Type) where
  publicKeys : List publicKey
  threshold : UInt8
deriving DecidableEq, Repr

/-- `chunks_exact`: the full chunks of a slice. -/
def chunksExact (size : Nat) (bytes : List UInt8) : List (List UInt8) :=
  (List.range (bytes.length / size)).map fun i =>
    (bytes.drop (i * size)).take size

variable {publicKey signature : Type}

namespace MultiEd25519PublicKey

def fromSingle (key : publicKey) : MultiEd25519PublicKey publicKey :=
  { publicKeys := [key], threshold := 1 }

end MultiEd25519PublicKey

/-!
# Signatures
-/

structure MultiEd25519Signature (signature : Type) where
  signatures : List signature
  bitmap : Bitmap
deriving DecidableEq

namespace MultiEd25519Signature

/-- The loop of `new`: marks the indexes, which must be new and in range. -/
def markIndexes : Bitmap -> List UInt8 -> Outcome CryptoMaterialError Bitmap
  | bitmap, [] => return bitmap
  | bitmap, i :: rest =>
    if i.toNat < maxNumOfKeys then do
      let taken <- bitmap.getBit i.toNat
      if taken then
        .err (CryptoMaterialError.bitVecError "Duplicate signature index")
      else do
        let marked <- bitmap.setBit i.toNat
        markIndexes marked rest
    else
      .err (CryptoMaterialError.bitVecError "Signature index is out of range")

def new (signatures : List (signature × UInt8)) :
    Outcome CryptoMaterialError (MultiEd25519Signature signature) := do
  let numOfSigs := signatures.length
  ensure (¬ (numOfSigs = 0 ∨ maxNumOfKeys < numOfSigs)) .validationError
  let sortedSignatures := signatures.mergeSort fun a b => a.2.toNat ≤ b.2.toNat
  let bitmap <- markIndexes Bitmap.zero (sortedSignatures.map Prod.snd)
  return { signatures := sortedSignatures.map Prod.fst, bitmap := bitmap }

def newWithSignaturesAndBitmap (signatures : List signature) (bitmap : Bitmap) :
    MultiEd25519Signature signature :=
  { signatures := signatures, bitmap := bitmap }

def tryFrom (E : Ed25519 publicKey signature) (bytes : List UInt8) :
    Outcome CryptoMaterialError (MultiEd25519Signature signature) := do
  let length := bytes.length
  let numOfBitmapBytes := length % ed25519SignatureLength
  let numOfSigs := length / ed25519SignatureLength
  ensure (¬ (numOfSigs = 0 ∨ maxNumOfKeys < numOfSigs ∨ numOfBitmapBytes ≠ bitmapNumOfBytes))
    .wrongLengthError
  if h : (bytes.drop (length - bitmapNumOfBytes)).length =
      bitmapNumOfBytes then do
    let bitmap : Bitmap := ⟨bytes.drop (length - bitmapNumOfBytes), h⟩
    ensure (bitmap.countOnes = numOfSigs) .deserializationError
    let signatures <-
      tryMap (fun chunk => ofExcept (E.signatureTryFrom chunk))
        (chunksExact ed25519SignatureLength bytes)
    return { signatures := signatures, bitmap := bitmap }
  else
    .err .deserializationError

def fromSingle (sig : signature) : MultiEd25519Signature signature :=
  { signatures := [sig], bitmap := ⟨[0b10000000, 0, 0, 0], rfl⟩ }

def skipClearBits (bitmap : Bitmap) (bitmapIndex : Nat) : Outcome AnyhowError Nat :=
  if bitmapIndex / 8 < bitmapNumOfBytes then
    if Bits.getBit bitmap.val bitmapIndex then .ok bitmapIndex
    else skipClearBits bitmap (bitmapIndex + 1)
  else .panic
termination_by bitmapNumOfBytes * 8 - bitmapIndex
decreasing_by
  unfold bitmapNumOfBytes at *
  omega

def verifyLoop (E : Ed25519 publicKey signature) (key : MultiEd25519PublicKey publicKey)
    (message : List UInt8) (bitmap : Bitmap) : List signature -> Nat -> Outcome AnyhowError Unit
  | [], _ => return ()
  | sig :: rest, bitmapIndex => do
    let position <- skipClearBits bitmap bitmapIndex
    let publicKey <- expect key.publicKeys[position]?
    ofExcept (E.verifyArbitraryMsg sig message publicKey)
    verifyLoop E key message bitmap rest (position + 1)

def verifyArbitraryMsg (E : Ed25519 publicKey signature) (self : MultiEd25519Signature signature)
    (message : List UInt8) (key : MultiEd25519PublicKey publicKey) : Outcome AnyhowError Unit := do
  match self.bitmap.lastSetBit with
  | some lastBit =>
    ensure (lastBit < key.publicKeys.length) [(CryptoMaterialError.bitVecError
        "Signature index is out of range").toText]
  | none => .err [(CryptoMaterialError.bitVecError "Signature index is out of range").toText]
  ensure (¬ self.bitmap.countOnes < key.threshold.toNat) [(CryptoMaterialError.bitVecError
      "Not enough signatures to meet the threshold").toText]
  verifyLoop E key message self.bitmap self.signatures 0

end MultiEd25519Signature

end OpenLibra.Crypto
