import OpenLibra.Merkle.Levels
import OpenLibra.Accumulator.Summary

/-!
# The accumulator refines the plain Merkle tree

The abstract accumulator of a leaf list is the list itself: its length, the roots of its perfect
subtrees and its level by level root.
-/

namespace OpenLibra.Accumulator

open Rust Merkle List

namespace InMemoryAccumulator

variable {hash : Type} (H : TreeHasher hash) (leaves : List hash)

def ofList : InMemoryAccumulator hash where
  frozenSubtreeRoots := frozenRoots H leaves
  numLeaves := leaves.length
  rootHash := levelRoot H.internalNode H.placeholder leaves

theorem computeRootHash_frozenRoots : computeRootHash H (frozenRoots H leaves) leaves.length =
    .ok (levelRoot H.internalNode H.placeholder leaves) := by
  by_cases hne : leaves.length = 0
  · rw [length_eq_zero_iff.mp hne]
    simp [frozenRoots, computeRootHash]
  · rcases eq_trailingZeros_mul_odd (Nat.pos_of_ne_zero hne) with ⟨m, hm⟩
    have hdiv : leaves.length / 2 ^ trailingZeros leaves.length = 2 * m + 1 :=
      Nat.div_eq_of_eq_mul_right (Nat.two_pow_pos _) hm
    have hroots : mountains H.internalNode H.placeholder 0 leaves.length
      leaves = mountains H.internalNode H.placeholder
        (trailingZeros leaves.length) (2 * m + 1) leaves := by
      conv_lhs => rw [hm, mountains_mul_pow, zero_add]
    generalize hj : trailingZeros leaves.length = j at *
    have hpow := Nat.two_pow_pos j
    have hmul : leaves.length = (2 * m + 1) * 2 ^ j := by rw [hm, mul_comm]
    have hsize : 2 ^ j < 2 * leaves.length := by
      have hle : 2 ^ j * 1 ≤ 2 ^ j * (2 * m + 1) := Nat.mul_le_mul_left _ (by omega)
      omega
    cases m with
    | zero =>
      -- A single perfect tree: its root is the root hash.
      have hperfect := level_perfect H.internalNode H.placeholder
        (show leaves.length = 2 ^ j by omega)
      rw [frozenRoots, hroots, mountains_double_succ,
        ← levelRoot_level H.internalNode H.placeholder hsize, hperfect]
      simp [computeRootHash]
    | succ m =>
      have hones : 2 ≤ (frozenRoots H leaves).length := by
        rw [length_frozenRoots, hm, countOnes_mul_pow, countOnes_double_succ]
        exact Nat.succ_le_succ (countOnes_pos (Nat.succ_pos m))
      have hlen := length_level_mul H.internalNode H.placeholder (2 * (m + 1) + 1) hmul
      have hpadded : 2 ≤ (level H.internalNode H.placeholder j leaves ++
        [H.placeholder]).length := by
        rw [length_append]
        omega
      rw [computeRootHash_eq_fold H hones, frozenRoots, reverse_reverse, hj, hdiv, hroots,
        mountains_level H.internalNode H.placeholder hmul,
        fold_mountains H.internalNode H.placeholder hlen,
        ← levelRoot_parents H.internalNode H.placeholder hpadded,
        parents_append_filler H.internalNode H.placeholder (by omega),
        levelRoot_parents H.internalNode H.placeholder (by omega),
        levelRoot_level H.internalNode H.placeholder hsize]
      rfl

theorem new_frozenRoots : new H (frozenRoots H leaves) leaves.length = .ok (ofList H leaves) :=
  (new_eq_ok_iff H).mpr ⟨length_frozenRoots H leaves, rfl, rfl,
    computeRootHash_frozenRoots H leaves⟩

theorem fromLeaves_eq_ofList {leaves} (hbound : leaves.length < u64Bound) :
    fromLeaves H leaves = .ok (ofList H leaves) :=
  (fromLeaves_eq_ok_iff H hbound).mpr ⟨rfl, rfl, computeRootHash_frozenRoots H leaves⟩

theorem append_ofList {leaves rest} (hbound : leaves.length + rest.length < u64Bound) :
    (ofList H leaves).append H rest = .ok (ofList H (leaves ++ rest)) := by
  have hloop := appendLoop_frozenRoots H hbound
  have hnew := new_frozenRoots H (leaves ++ rest)
  rw [length_append] at hnew
  unfold append
  rw [show (ofList H leaves).frozenSubtreeRoots = frozenRoots H leaves from
    rfl, show (ofList H leaves).numLeaves = leaves.length from rfl, hloop,
    ok_bind]
  change (new H (frozenRoots H (leaves ++ rest)) (leaves.length + rest.length)).unwrap = _
  rw [hnew]
  rfl

theorem length_lt_of_appendLoop {leaves roots} {n : Nat} {result} (hn : n < u64Bound)
    (h : appendLoop H leaves roots n = .ok result) : n + leaves.length < u64Bound := by
  induction leaves generalizing roots n with
  | nil => exact hn
  | cons leaf leaves ih =>
    rcases of_bind h with ⟨roots', _, h⟩
    rcases of_bind h with ⟨n', hadd, h⟩
    unfold u64Add at hadd
    split at hadd
    · next hlt =>
        cases hadd
        have hlen := ih hlt h
        rw [length_cons]
        omega
    · cases hadd

theorem eq_ofList_of_fromLeaves {leaves} {acc} (h : fromLeaves H leaves = .ok acc) :
    acc = ofList H leaves := by
  have hbound : leaves.length < u64Bound := by
    rcases of_bind h with ⟨_, hempty, h⟩
    rcases of_bind h with ⟨_, hloop, _⟩
    have hnil := new_frozenRoots H []
    rw [show frozenRoots H [] = [] by simp [frozenRoots], length_nil] at hnil
    unfold default at hempty
    rw [hnil] at hempty
    cases hempty
    have hlen := length_lt_of_appendLoop H (by unfold ofList u64Bound; simp) hloop
    unfold ofList at hlen
    simpa using hlen
  rw [fromLeaves_eq_ofList H hbound] at h
  cases h
  rfl

structure Represents (leaves : List hash) (acc : InMemoryAccumulator hash) : Prop where
  numLeaves : acc.numLeaves = leaves.length
  frozenSubtreeRoots : acc.frozenSubtreeRoots = perfectRoots H.internalNode H.placeholder
      leaves.length.bitIndices.reverse leaves
  rootHash : acc.rootHash = levelRoot H.internalNode H.placeholder leaves

theorem represents_ofList : Represents H leaves (ofList H leaves) where
  numLeaves := rfl
  frozenSubtreeRoots := by
    have h := mountains_reverse H.internalNode H.placeholder
      (show leaves.length = leaves.length * 2 ^ 0 by simp)
    simpa [ofList, frozenRoots] using h
  rootHash := rfl

/-- Leaf by leaf or in two parts, an accumulator within the bound is built
without a panic and represents the list of its leaves. -/
theorem fromLeaves_append {xs ys : List hash}
    (hbound : xs.length + ys.length ≤ maxAccumulatorLeaves) :
    exists acc result : InMemoryAccumulator hash,
      fromLeaves H xs = Outcome.ok acc ∧ Represents H xs acc ∧
      acc.append H ys = Outcome.ok result ∧
      fromLeaves H (xs ++ ys) = Outcome.ok result := by
  have hlt := lt_u64Bound_of_le hbound
  refine ⟨ofList H xs, ofList H (xs ++ ys), ?_, represents_ofList H xs, ?_, ?_⟩
  · exact fromLeaves_eq_ofList H (by omega)
  · exact append_ofList H hlt
  · exact fromLeaves_eq_ofList H (by rw [List.length_append]; exact hlt)

theorem fromLeaves_append_three_two :
    (freeLeaves 3).length + (freeLeaves 2).length ≤ maxAccumulatorLeaves ∧
      exists acc result : InMemoryAccumulator FreeHash,
        fromLeaves freeHasher (freeLeaves 3) = Outcome.ok acc ∧
        Represents freeHasher (freeLeaves 3) acc ∧
        acc.append freeHasher (freeLeaves 2) = Outcome.ok result ∧
        fromLeaves freeHasher (freeLeaves 3 ++ freeLeaves 2) = Outcome.ok result :=
  ⟨by decide, fromLeaves_append freeHasher (by decide)⟩

end InMemoryAccumulator

end OpenLibra.Accumulator
