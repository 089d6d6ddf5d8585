import OpenLibra.Accumulator.RangeProof
import OpenLibra.SparseMerkle.Proof

/-!
# Range proofs of untrusted data

Both range proofs are checked on data that anybody may send; here is for which data the verifiers
panic.
-/

namespace OpenLibra.SparseMerkle

open Rust Crypto Accumulator

structure SparseMerkleRangeProof (digest : Type) where
  rightSiblings : List digest
deriving DecidableEq, Repr

namespace SparseMerkleRangeProof

variable {digest : Type} (H : SparseHasher digest)

def climbLoop : List Bool -> List digest -> List digest -> digest -> Outcome AnyhowError digest
  | [], _, _, currentHash => .ok currentHash
  | true :: _, [], _, _ => .err ["Missing left sibling."]
  | true :: bits, leftHash :: leftSiblings, rightSiblings, currentHash =>
    climbLoop bits leftSiblings rightSiblings (H.internalNode leftHash currentHash)
  | false :: _, _, [], _ => .err ["Missing right sibling."]
  | false :: bits, leftSiblings, rightHash :: rightSiblings, currentHash =>
    climbLoop bits leftSiblings rightSiblings (H.internalNode currentHash rightHash)

def verify [DecidableEq digest] [ToString digest] (self : SparseMerkleRangeProof digest)
    (expectedRootHash : digest) (rightmostKnownLeaf : SparseMerkleLeafNode digest)
    (leftSiblings : List digest) : Outcome AnyhowError Unit := do
  let numSiblings <- u64Add leftSiblings.length self.rightSiblings.length
  let skipped <- u64Sub HashValue.lengthInBits numSiblings
  let currentHash <- climbLoop H (rightmostKnownLeaf.key.iterBits.reverse.drop skipped) leftSiblings
    self.rightSiblings (rightmostKnownLeaf.hash H)
  ensureRootHash "SparseMerkleRangeProof" currentHash expectedRootHash

theorem climbLoop_ne_panic (bits : List Bool)
    (leftSiblings rightSiblings : List digest) (currentHash : digest) :
    climbLoop H bits leftSiblings rightSiblings currentHash ≠ .panic := by
  induction bits generalizing leftSiblings rightSiblings currentHash with
  | nil => simp [climbLoop]
  | cons bit bits ih =>
    cases bit with
    | true =>
      cases leftSiblings with
      | nil => simp [climbLoop]
      | cons => exact ih _ _ _
    | false =>
      cases rightSiblings with
      | nil => simp [climbLoop]
      | cons => exact ih _ _ _

theorem verify_eq_panic_iff [DecidableEq digest] [ToString digest]
    (self : SparseMerkleRangeProof digest) (expectedRootHash : digest)
    (rightmostKnownLeaf : SparseMerkleLeafNode digest) (leftSiblings : List digest) :
    self.verify H expectedRootHash rightmostKnownLeaf leftSiblings = .panic <->
      HashValue.lengthInBits < leftSiblings.length + self.rightSiblings.length := by
  unfold verify
  constructor
  · intro hpanic
    by_contra hle
    have hadd : (u64Add leftSiblings.length self.rightSiblings.length :
      Outcome AnyhowError Nat) = .ok _ :=
      u64Add_eq_ok (by unfold HashValue.lengthInBits at hle
                       unfold u64Bound
                       omega)
    rw [hadd, ok_bind, u64Sub_eq_ok (by omega), ok_bind]
      at hpanic
    rcases bind_eq_panic_iff.mp hpanic with hloop | ⟨_, _, hroot⟩
    · exact climbLoop_ne_panic H _ _ _ _ hloop
    · exact ensure_ne_panic hroot
  · intro hlt
    unfold u64Add u64Sub
    split
    · rw [ok_bind, if_neg (by omega)]
      rfl
    · rfl

end SparseMerkleRangeProof

/-- The accumulator range proof returns exactly when its loop stays inside the
tree, the sparse range proof exactly when the siblings are not more than the
bits of a key. -/
theorem rangeProofs_return_iff {hash digest : Type} [DecidableEq hash] [ToString hash]
    [DecidableEq digest] [ToString digest] (H : TreeHasher hash) (S : SparseHasher digest) :
    (forall (proof : AccumulatorRangeProof hash) (expectedRootHash : hash)
        (firstLeafIndex : Option Nat) (leafHashes : List hash),
      proof.verify H expectedRootHash firstLeafIndex leafHashes ≠ Outcome.panic <->
        forall first, firstLeafIndex = some first ->
          proof.leftSiblings.length ≤ maxAccumulatorProofDepth ->
          proof.rightSiblings.length ≤ maxAccumulatorProofDepth ->
          leafHashes ≠ [] ->
          ¬ AccumulatorRangeProof.Overruns (first % maxAccumulatorLeaves)
            leafHashes.length proof.leftSiblings.length
            proof.rightSiblings.length) ∧
      forall (proof : SparseMerkleRangeProof digest) (expectedRootHash : digest)
        (rightmostKnownLeaf : SparseMerkleLeafNode digest)
        (leftSiblings : List digest),
        proof.verify S expectedRootHash rightmostKnownLeaf leftSiblings ≠ Outcome.panic <->
          leftSiblings.length + proof.rightSiblings.length ≤ HashValue.lengthInBits := by
  constructor
  · intro proof expectedRootHash _ _
    rw [ne_eq, AccumulatorRangeProof.verify_eq_panic_iff]
    constructor
    · intro hnot first hfirst hleft hright hne hover
      exact hnot ⟨first, hfirst, hleft, hright, hne, hover⟩
    · rintro hcondition ⟨first, hfirst, hleft, hright, hne, hover⟩
      exact hcondition first hfirst hleft hright hne hover
  · intro _ _ _ _
    rw [ne_eq, SparseMerkleRangeProof.verify_eq_panic_iff, Nat.not_lt]

/-- One leaf at index `3` with two left and `63` right siblings: after `64`
rounds there is a sibling left and no level above.  For the sparse range proof
`257` siblings are too many. -/
theorem rangeProofs_panic : (AccumulatorRangeProof.mk (freeLeaves 2) (freeLeaves 63)).verify
        freeHasher FreeHash.placeholder (some 3) [FreeHash.leaf 0] =
      Outcome.panic ∧
    (SparseMerkleRangeProof.mk (List.replicate 257 FreeDigest.placeholder)).verify freeSparseHasher
        FreeDigest.placeholder ⟨firstByteKey 0, FreeDigest.value 0⟩ [] =
      Outcome.panic := by
  constructor
  · rw [AccumulatorRangeProof.verify_eq_panic_iff]
    refine ⟨3, rfl, by decide, by decide, by decide, Or.inr ?_⟩
    unfold AccumulatorRangeProof.Outlasts
    decide +kernel
  · rw [SparseMerkleRangeProof.verify_eq_panic_iff, List.length_replicate]
    decide

end OpenLibra.SparseMerkle
