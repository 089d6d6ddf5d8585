import OpenLibra.Merkle.Ranges
import OpenLibra.Accumulator.Refinement

/-!
# Proofs for a single leaf

Each sibling consumes the lowest bit of the index, so an index is proved only modulo the width
of the tree.
-/

namespace OpenLibra.Accumulator

open Rust Merkle List

structure AccumulatorProof (hash : Type) where
  siblings : List hash
deriving DecidableEq, Repr

def ensureRootHash {hash : Type} [DecidableEq hash] [ToString hash]
    (typeName : String) (actualRootHash expectedRootHash : hash) :
    Outcome AnyhowError Unit :=
  ensure (actualRootHash = expectedRootHash)
    [typeName ++ ": Root hashes do not match. Actual root hash: " ++
      toString actualRootHash ++ ". Expected root hash: " ++
      toString expectedRootHash ++ "."]

namespace AccumulatorProof

variable {hash : Type} [dh : DecidableEq hash] [th : ToString hash] (H : TreeHasher hash)

def foldStep (state : hash × Nat) (siblingHash : hash) : hash × Nat :=
  (if state.2 % 2 = 0 then
      H.internalNode state.1 siblingHash
    else
      H.internalNode siblingHash state.1,
    state.2 / 2)

def verify (self : AccumulatorProof hash)
    (expectedRootHash elementHash : hash) (elementIndex : Nat) :
    Outcome AnyhowError Unit := do
  ensure (self.siblings.length ≤ maxAccumulatorProofDepth)
    ["Accumulator proof has more than " ++ toString maxAccumulatorProofDepth ++ " (" ++
      toString self.siblings.length ++ ") siblings."]
  let actualRootHash := (self.siblings.foldl (foldStep H) (elementHash, elementIndex)).1
  ensureRootHash "AccumulatorProof" actualRootHash expectedRootHash

omit dh th in
theorem climbs_foldl (siblings : List hash) (x : hash) (i : Nat) :
    exists left right, Climbs H.internalNode H.placeholder siblings.length i [x] left right
        (siblings.foldl (foldStep H) (x, i)).1 := by
  induction siblings generalizing x i with
  | nil => exact ⟨[], [], .done i x⟩
  | cons sibling siblings ih =>
    rcases Nat.mod_two_eq_zero_or_one i with hmod | hmod
    · rcases ih (H.internalNode x sibling) (i / 2) with ⟨left, right, h⟩
      have hlift : Lifts H.internalNode H.placeholder i [x] [] [sibling]
        [H.internalNode x sibling] :=
        { length_left := hmod.symm
          length_right := by
            simp only [length_singleton]
            omega
          above_eq := rfl }
      rw [foldl_cons, foldStep, if_pos hmod]
      exact ⟨_, _, .round hlift h⟩
    · rcases ih (H.internalNode sibling x) (i / 2) with ⟨left, right, h⟩
      have hlift : Lifts H.internalNode H.placeholder i [x] [sibling] []
        [H.internalNode sibling x] :=
        { length_left := hmod.symm
          length_right := by
            simp only [length_nil, length_singleton]
            omega
          above_eq := rfl }
      rw [foldl_cons, foldStep, if_neg (by dsimp only; omega)]
      exact ⟨_, _, .round hlift h⟩

theorem verify_eq_ok_iff {self : AccumulatorProof hash}
    {expectedRootHash elementHash : hash} {elementIndex : Nat} :
    self.verify H expectedRootHash elementHash elementIndex = .ok () <->
      self.siblings.length ≤ maxAccumulatorProofDepth ∧ (self.siblings.foldl (foldStep H)
          (elementHash, elementIndex)).1 = expectedRootHash := by
  unfold verify ensureRootHash
  constructor
  · intro h
    rcases of_bind h with ⟨_, hlen, hroot⟩
    exact ⟨ensure_eq_ok_iff.mp hlen, ensure_eq_ok_iff.mp hroot⟩
  · rintro ⟨hlen, hroot⟩
    rw [ensure_eq_ok_iff.mpr hlen, ok_bind]
    exact ensure_eq_ok_iff.mpr hroot

theorem getElem?_of_verify {leaf : hash -> Prop}
    (hsep : Separated H.internalNode H.placeholder leaf) {xs : List hash}
    (hxs : forall x, x ∈ xs -> leaf x) {h : hash} (hh : leaf h)
    {index : Nat} {proof : AccumulatorProof hash}
    (hvfy : proof.verify H (levelRoot H.internalNode H.placeholder xs) h index = .ok ()) :
    xs.length ≤ 2 ^ proof.siblings.length ∧ xs[index % 2 ^ proof.siblings.length]? = some h := by
  have hroot := ((verify_eq_ok_iff H).mp hvfy).right
  rcases climbs_foldl H proof.siblings h index with ⟨_, _, hclimb⟩
  rw [hroot] at hclimb
  rcases hclimb.of_root hsep hxs (by simp) (by simpa using hh) with ⟨hlen, hat, _⟩
  exact ⟨hlen, hat 0 h rfl⟩

/-- Under acceptance, the leaf is the one at the index exactly when the index
has no bits above the siblings. -/
theorem verify_sound_iff {leaf : hash -> Prop} (hsep : Separated H.internalNode H.placeholder leaf)
    {xs : List hash} (hxs : forall x, x ∈ xs -> leaf x) {acc : InMemoryAccumulator hash}
    (hacc : InMemoryAccumulator.fromLeaves H xs = Outcome.ok acc) {h : hash} (hh : leaf h)
    {index : Nat} {proof : AccumulatorProof hash}
    (hverify : proof.verify H acc.rootHash h index = Outcome.ok ()) :
    (index < xs.length ∧ xs[index]? = some h) <-> index < 2 ^ proof.siblings.length := by
  rw [InMemoryAccumulator.eq_ofList_of_fromLeaves H hacc] at hverify
  rcases getElem?_of_verify H hsep hxs hh hverify with ⟨hlength, hget⟩
  constructor
  · rintro ⟨hindex, _⟩
    omega
  · intro hindex
    rw [Nat.mod_eq_of_lt hindex] at hget
    exact ⟨(List.getElem?_eq_some_iff.mp hget).choose, hget⟩

end AccumulatorProof

/-!
# Free hashes
-/

theorem freeHasher_separated : Separated freeHasher.internalNode freeHasher.placeholder
    FreeHash.IsLeaf where
  injective := freeHasher_nodeInjective
  node_ne_filler := by
    intro _ _ h
    cases h
  leaf_ne_filler := by
    rintro _ ⟨n, rfl⟩ h
    cases h
  leaf_ne_node := by
    rintro _ _ _ ⟨_, rfl⟩ h
    cases h

theorem isLeaf_of_mem_freeLeaves {count : Nat} {x : FreeHash} (h : x ∈ freeLeaves count) :
    x.IsLeaf := by
  rcases mem_map.mp h with ⟨n, _, hn⟩
  exact ⟨n, hn.symm⟩

def freeTwo : InMemoryAccumulator FreeHash where
  frozenSubtreeRoots := [freePair]
  numLeaves := 2
  rootHash := freePair

theorem verify_sound_iff_two : (AccumulatorProof.mk [FreeHash.leaf 0]).verify freeHasher
      freeTwo.rootHash (FreeHash.leaf 1) 1 = Outcome.ok () ∧
    ((1 < (freeLeaves 2).length ∧ (freeLeaves 2)[1]? = some (FreeHash.leaf 1)) <->
      1 < 2 ^ (AccumulatorProof.mk [FreeHash.leaf 0]).siblings.length) := by
  have hverify : (AccumulatorProof.mk [.leaf 0]).verify freeHasher
    freeTwo.rootHash (.leaf 1) 1 = .ok () := by
    decide +kernel
  have hacc : InMemoryAccumulator.fromLeaves freeHasher (freeLeaves 2) = .ok freeTwo := by
    decide +kernel
  exact ⟨hverify, AccumulatorProof.verify_sound_iff freeHasher
    freeHasher_separated (fun _ => isLeaf_of_mem_freeLeaves) hacc ⟨1, rfl⟩
    hverify⟩

/-- Leaf `0` of two leaves is accepted at index `2`, beyond the tree. -/
theorem verify_beyond_tree : InMemoryAccumulator.fromLeaves freeHasher (freeLeaves 2) =
      Outcome.ok freeTwo ∧
    (AccumulatorProof.mk [FreeHash.leaf 1]).verify freeHasher
      freeTwo.rootHash (FreeHash.leaf 0) 2 = Outcome.ok () ∧
    ¬ 2 < (freeLeaves 2).length := by
  decide +kernel

end OpenLibra.Accumulator
