import OpenLibra.Accumulator.Position
import OpenLibra.Accumulator.Refinement

/-!
# Appending subtrees

The prover enumerates the subtrees a verifier needs to extend its accumulator.  Each side finds
their sizes by its own bit tricks.
-/

namespace OpenLibra.Accumulator

open Rust Merkle List

/-!
# The enumeration
-/

structure FrozenSubtreeSiblingIterator where
  currentNumLeaves : Nat
  remainingNewLeaves : Nat
deriving DecidableEq, Repr

namespace FrozenSubtreeSiblingIterator

def new (currentNumLeaves newNumLeaves : Nat) :
    Outcome AnyhowError FrozenSubtreeSiblingIterator := do
  assertThat (newNumLeaves ≤ maxAccumulatorLeaves)
  assertThat (currentNumLeaves ≤ newNumLeaves)
  let remainingNewLeaves <- u64Sub newNumLeaves currentNumLeaves
  return ⟨currentNumLeaves, remainingNewLeaves⟩

variable (self : FrozenSubtreeSiblingIterator)

def nextNewLeafBatch : Outcome AnyhowError Nat := do
  let zeros := leadingZeros self.remainingNewLeaves
  let shift <- u64Sub maxAccumulatorProofDepth zeros
  return 2 ^ shift

def nextSubtreeLeaves : Outcome AnyhowError Nat :=
  if 0 < self.currentNumLeaves then
    let rightmostFrozenSubtreeLeaves := 2 ^ trailingZeros self.currentNumLeaves
    if rightmostFrozenSubtreeLeaves ≤ self.remainingNewLeaves then
      .ok rightmostFrozenSubtreeLeaves
    else
      self.nextNewLeafBatch
  else
    self.nextNewLeafBatch

def next : Outcome AnyhowError (Option (Position × FrozenSubtreeSiblingIterator)) :=
  if self.remainingNewLeaves = 0 then
    .ok none
  else do
    let nextSubtreeLeaves <- self.nextSubtreeLeaves
    let firstLeafIndex := self.currentNumLeaves
    let endLeafIndex <- u64Add firstLeafIndex nextSubtreeLeaves
    let lastLeafIndex <- u64Sub endLeafIndex 1
    let currentNumLeaves <- u64Add self.currentNumLeaves nextSubtreeLeaves
    let remainingNewLeaves <- u64Sub self.remainingNewLeaves nextSubtreeLeaves
    let index <- u64Add firstLeafIndex lastLeafIndex
    return some (Position.fromInorderIndex index, ⟨currentNumLeaves, remainingNewLeaves⟩)

variable {self rest : FrozenSubtreeSiblingIterator} {position : Position} {remaining current : Nat}

theorem nextSubtreeLeaves_pos {leaves : Nat} (h : self.nextSubtreeLeaves = .ok leaves) :
    0 < leaves := by
  have hbatch (h : self.nextNewLeafBatch = .ok leaves) : 0 < leaves := by
    rcases of_bind h with ⟨shift, _, h⟩
    cases h
    exact Nat.two_pow_pos shift
  unfold nextSubtreeLeaves at h
  dsimp only at h
  split at h
  · split at h
    · cases h
      exact Nat.two_pow_pos _
    · exact hbatch h
  · exact hbatch h

theorem next_lt (h : self.next = .ok (some (position, rest))) :
    rest.remainingNewLeaves < self.remainingNewLeaves := by
  unfold next at h
  split at h
  · cases h
  · rcases of_bind h with ⟨leaves, hlvs, h⟩
    rcases of_bind h with ⟨_, _, h⟩
    rcases of_bind h with ⟨_, _, h⟩
    rcases of_bind h with ⟨_, _, h⟩
    rcases of_bind h with ⟨remaining, hsub, h⟩
    rcases of_bind h with ⟨_, _, h⟩
    cases h
    have hpos := nextSubtreeLeaves_pos hlvs
    unfold u64Sub at hsub
    split at hsub
    · cases hsub
      dsimp only
      omega
    · cases hsub

def collect (self : FrozenSubtreeSiblingIterator) : Outcome AnyhowError (List Position) :=
  match _h : self.next with
  | .ok none => .ok []
  | .ok (some (position, rest)) => do
    let positions <- rest.collect
    return position :: positions
  | .err e => .err e
  | .panic => .panic
termination_by self.remainingNewLeaves
decreasing_by exact next_lt _h

theorem collect_of_none (h : self.next = .ok none) : self.collect = .ok [] := by
  rw [collect]
  split
  · rfl
  all_goals
    next hnext =>
      rw [h] at hnext
      cases hnext

theorem collect_of_some (h : self.next = .ok (some (position, rest))) :
    self.collect = rest.collect >>= fun positions => .ok (position :: positions) := by
  rw [collect]
  split
  · next hnext =>
      rw [h] at hnext
      cases hnext
  · next hnext =>
      rw [h] at hnext
      cases hnext
      rfl
  all_goals
    next hnext =>
      rw [h] at hnext
      cases hnext

/-!
# One step
-/

def nextHeight (current remaining : Nat) : Nat :=
  if 0 < current ∧ 2 ^ trailingZeros current ≤ remaining then
    trailingZeros current
  else
    Nat.log2 remaining

theorem nextHeight_le (current : Nat) (hrem : 0 < remaining) :
    2 ^ nextHeight current remaining ≤ remaining := by
  unfold nextHeight
  split
  · next hgrow => exact hgrow.right
  · exact Nat.log2_self_le (by omega)

def Descending (current remaining : Nat) : Prop :=
  current = 0 ∨ remaining < 2 ^ trailingZeros current

theorem not_descending (h : ¬ Descending current remaining) :
    0 < current ∧ 2 ^ trailingZeros current ≤ remaining := by
  unfold Descending at h
  omega

theorem nextHeight_of_descending (h : Descending current remaining) :
    nextHeight current remaining = Nat.log2 remaining := by
  unfold nextHeight
  rw [if_neg]
  unfold Descending at h
  omega

theorem dvd_of_trailingZeros {k : Nat} (hpos : 0 < current) (h : k ≤ trailingZeros current) :
    2 ^ k ∣ current := by
  rcases eq_trailingZeros_mul_odd hpos with ⟨_, hm⟩
  rw [hm]
  exact Dvd.dvd.mul_right (Nat.pow_dvd_pow 2 h) _

theorem Descending.dvd (h : Descending current remaining) (hrem : 0 < remaining) :
    2 ^ (Nat.log2 remaining + 1) ∣ current := by
  by_cases hzero : current = 0
  · rw [hzero]
    exact Nat.dvd_zero _
  · have hlt : remaining < 2 ^ trailingZeros current := h.resolve_left hzero
    apply dvd_of_trailingZeros (Nat.pos_of_ne_zero hzero)
    exact (Nat.log2_lt (by omega)).mpr hlt

theorem nextHeight_dvd (current : Nat) (hrem : 0 < remaining) :
    2 ^ nextHeight current remaining ∣ current := by
  by_cases h : Descending current remaining
  · rw [nextHeight_of_descending h]
    exact Nat.dvd_trans (Nat.pow_dvd_pow 2 (Nat.le_succ _)) (h.dvd hrem)
  · rw [nextHeight, if_pos (not_descending h)]
    exact dvd_of_trailingZeros (not_descending h).left (le_refl _)

theorem Descending.next (h : Descending current remaining) (hrem : 0 < remaining) :
    Descending (current + 2 ^ Nat.log2 remaining) (remaining - 2 ^ Nat.log2 remaining) := by
  rcases h.dvd hrem with ⟨q, hq⟩
  have hlt : remaining < 2 ^ (Nat.log2 remaining + 1) := Nat.lt_log2_self
  have hsum : current + 2 ^ Nat.log2 remaining = 2 ^ Nat.log2 remaining * (2 * q + 1) := by
    rw [hq]
    ring
  right
  rw [hsum, trailingZeros_mul_pow _ (by omega), trailingZeros_of_odd (by omega)]
  rw [pow_succ] at hlt
  rw [add_zero]
  omega

/-- The positions enumerated from `current` leaves for `remaining` more. -/
inductive Siblings : Nat -> Nat -> List Position -> Prop
  | done (current : Nat) : Siblings current 0 []
  | step {current remaining : Nat} {positions : List Position} (hrem : 0 < remaining)
      (hrest : Siblings (current + 2 ^ nextHeight current remaining)
        (remaining - 2 ^ nextHeight current remaining) positions) :
      Siblings current remaining (Position.inorder (nextHeight current remaining)
          (current / 2 ^ nextHeight current remaining) :: positions)

theorem nextSubtreeLeaves_eq (hrem : 0 < remaining)
    (hbound : current + remaining ≤ maxAccumulatorLeaves) :
    (mk current remaining).nextSubtreeLeaves = .ok (2 ^ nextHeight current remaining) := by
  have hlog : Nat.log2 remaining < 64 := by
    apply (Nat.log2_lt (by omega)).mpr
    have hlt := lt_u64Bound_of_le hbound
    unfold u64Bound at hlt
    omega
  have hbatch : (mk current remaining).nextNewLeafBatch = .ok (2 ^ Nat.log2 remaining) := by
    unfold nextNewLeafBatch leadingZeros maxAccumulatorProofDepth
    dsimp only
    rw [if_neg (by omega), u64Sub_eq_ok (by omega), ok_bind, show 63 - (63 - Nat.log2 remaining) =
      Nat.log2 remaining by omega]
    rfl
  unfold nextSubtreeLeaves
  dsimp only
  rw [hbatch]
  by_cases h : Descending current remaining
  · rw [nextHeight_of_descending h]
    split
    · rw [if_neg]
      unfold Descending at h
      omega
    · rfl
  · rw [nextHeight, if_pos (not_descending h), if_pos (not_descending h).left,
      if_pos (not_descending h).right]

theorem next_eq (hrem : 0 < remaining) (hbound : current + remaining ≤ maxAccumulatorLeaves) :
    (mk current remaining).next = .ok (some (Position.inorder (nextHeight current remaining)
        (current / 2 ^ nextHeight current remaining),
          mk (current + 2 ^ nextHeight current remaining)
          (remaining - 2 ^ nextHeight current remaining))) := by
  have hle := nextHeight_le current hrem
  have hlvs := nextSubtreeLeaves_eq hrem hbound
  rcases nextHeight_dvd current hrem with ⟨q, hq⟩
  unfold next
  rw [if_neg (by dsimp only; omega), hlvs, ok_bind]
  generalize nextHeight current remaining = k at *
  have hpow := Nat.two_pow_pos k
  have hidx : current + (current + 2 ^ k - 1) = 2 ^ (k + 1) * (current / 2 ^ k) + (2 ^ k - 1) := by
    rw [hq, Nat.mul_div_cancel_left q hpow, pow_succ, mul_comm _ 2, mul_assoc]
    omega
  unfold maxAccumulatorLeaves maxAccumulatorProofDepth at hbound
  dsimp only
  rw [u64Add_eq_ok (by unfold u64Bound; omega), ok_bind, u64Sub_eq_ok (by omega), ok_bind, ok_bind,
    u64Sub_eq_ok hle, ok_bind,
    u64Add_eq_ok (by unfold u64Bound; omega), ok_bind, hidx]
  rfl

theorem collect_siblings (hbound : current + remaining ≤ maxAccumulatorLeaves) :
    exists positions, (mk current remaining).collect = .ok positions ∧
      Siblings current remaining positions := by
  induction remaining using Nat.strong_induction_on generalizing current with
  | _ remaining ih =>
    by_cases hzero : remaining = 0
    · rw [hzero]
      exact ⟨[], collect_of_none rfl, .done current⟩
    · have hrem := Nat.pos_of_ne_zero hzero
      have hle := nextHeight_le current hrem
      have hpow := Nat.two_pow_pos (nextHeight current remaining)
      have hrest := @ih (remaining - 2 ^ nextHeight current remaining)
        (by omega) (current + 2 ^ nextHeight current remaining) (by omega)
      rcases hrest with ⟨_, hcoll, hsiblings⟩
      refine ⟨_, ?_, .step hrem hsiblings⟩
      rw [collect_of_some (next_eq hrem hbound), hcoll]
      rfl

theorem inRange_next (hrem : 0 < remaining) (hbound : current + remaining ≤ maxAccumulatorLeaves) :
    Position.InRange (nextHeight current remaining)
      (current / 2 ^ nextHeight current remaining) := by
  have hle := nextHeight_le current hrem
  rcases nextHeight_dvd current hrem with ⟨q, hq⟩
  generalize nextHeight current remaining = k at *
  have hpow := Nat.two_pow_pos k
  unfold maxAccumulatorLeaves maxAccumulatorProofDepth at hbound
  have hk : k ≤ 63 := by
    by_contra hgt
    have hlarge : 2 ^ 64 ≤ 2 ^ k := Nat.pow_le_pow_right (by omega) (by omega)
    omega
  refine ⟨hk, ?_⟩
  rw [hq, Nat.mul_div_cancel_left q hpow]
  have hsplit : 2 ^ 63 = 2 ^ k * 2 ^ (63 - k) := by
    rw [← pow_add]
    congr 1
    omega
  have hmul : 2 ^ k * q < 2 ^ k * 2 ^ (63 - k) := by omega
  exact Nat.lt_of_mul_lt_mul_left hmul

/-- Roots of perfect subtrees that cover the leaves from `first` up to `last`
one after the other. -/
def Partition : Nat -> List Position -> Nat -> Prop
  | first, [], last => first = last
  | first, position :: positions, last =>
    position.posCountingFromLeft * 2 ^ position.level = first ∧
      Partition (first + 2 ^ position.level) positions last

theorem Siblings.partition {positions} (h : Siblings current remaining positions)
    (hbound : current + remaining ≤ maxAccumulatorLeaves) :
    Partition current positions (current + remaining) := by
  induction h with
  | done => rfl
  | @step current remaining positions hrem _ ih =>
    have hle := nextHeight_le current hrem
    have hrange := inRange_next hrem hbound
    have hdvd := nextHeight_dvd current hrem
    rw [Partition, Position.level_inorder hrange, Position.posCountingFromLeft_inorder hrange]
    refine ⟨Nat.div_mul_cancel hdvd, ?_⟩
    have hrest := ih (by omega)
    rwa [show current + 2 ^ nextHeight current remaining +
      (remaining - 2 ^ nextHeight current remaining) = current + remaining by omega] at hrest

end FrozenSubtreeSiblingIterator

/-!
# The hashes of the enumerated subtrees
-/

section

open FrozenSubtreeSiblingIterator InMemoryAccumulator

variable {hash : Type} (H : TreeHasher hash)

def nodeHash (leaves : List hash) (position : Position) : hash :=
  ((Merkle.level H.internalNode H.placeholder position.level
    leaves)[position.posCountingFromLeft]?).getD H.placeholder

variable {leaves subtrees : List hash} {current remaining : Nat} {positions : List Position}

theorem nodeHash_next (hrem : 0 < remaining) (hbound : current + remaining ≤ maxAccumulatorLeaves)
    (hlvs : leaves.length = current + remaining) :
    nodeHash H leaves (Position.inorder (nextHeight current remaining)
        (current / 2 ^ nextHeight current remaining)) =
      subtreeRoot H.internalNode H.placeholder (nextHeight current remaining)
        ((leaves.drop current).take (2 ^ nextHeight current remaining)) := by
  have hrange := inRange_next hrem hbound
  have hle := nextHeight_le current hrem
  have hdvd := nextHeight_dvd current hrem
  have hstart := Nat.div_mul_cancel hdvd
  have hlen : (current / 2 ^ nextHeight current remaining + 1) *
    2 ^ nextHeight current remaining ≤ leaves.length := by
    rw [add_mul, hstart]
    omega
  rw [nodeHash, Position.level_inorder hrange, Position.posCountingFromLeft_inorder hrange,
    getElem?_level H.internalNode H.placeholder hlen, hstart]
  rfl

theorem frozenRoots_cons (hne : leaves ≠ []) : frozenRoots H leaves =
    subtreeRoot H.internalNode H.placeholder (Nat.log2 leaves.length)
        (leaves.take (2 ^ Nat.log2 leaves.length)) ::
      frozenRoots H (leaves.drop (2 ^ Nat.log2 leaves.length)) := by
  have hpos := length_pos_iff.mpr hne
  have hle : 2 ^ Nat.log2 leaves.length ≤ leaves.length := Nat.log2_self_le (by omega)
  have hlt : leaves.length < 2 ^ (Nat.log2 leaves.length + 1) := Nat.lt_log2_self
  generalize Nat.log2 leaves.length = j at *
  rw [pow_succ] at hlt
  have hsplit := @mountains_split _ H.internalNode H.placeholder j 0 1
    (leaves.length - 2 ^ j) leaves (by omega) (by omega)
  rw [show 2 ^ j * 1 + (leaves.length - 2 ^ j) = leaves.length by omega,
    one_mul, zero_add] at hsplit
  have hone := mountains_double_succ H.internalNode H.placeholder j 0 (leaves.take (2 ^ j))
  simp only [mul_zero, zero_add, zero_mul, drop_zero, mountains_zero] at hone
  rw [frozenRoots, hsplit, hone, frozenRoots, length_drop]
  simp

theorem frozenRoots_append (hlvs : leaves.length = current + remaining)
    (h : Descending current remaining) :
    frozenRoots H leaves = frozenRoots H (leaves.take current) ++
        frozenRoots H (leaves.drop current) := by
  by_cases hzero : current = 0
  · rw [hzero]
    simp [frozenRoots]
  · have hlt := h.resolve_left hzero
    rcases eq_trailingZeros_mul_odd (Nat.pos_of_ne_zero hzero) with ⟨m, hm⟩
    generalize trailingZeros current = j at *
    have hsplit := @mountains_split _ H.internalNode H.placeholder j 0
      (2 * m + 1) remaining leaves hlt
      (by rw [← hm, pow_zero, mul_one, hlvs])
    rw [← hm, ← hlvs, zero_add, mul_comm (2 * m + 1), ← hm]
      at hsplit
    have hlow : mountains H.internalNode H.placeholder 0 current
      (leaves.take current) = mountains H.internalNode H.placeholder j
        (2 * m + 1) (leaves.take current) := by
      conv_lhs => rw [hm, mountains_mul_pow, zero_add, ← hm]
    rw [frozenRoots, hsplit, ← hlow, reverse_append, frozenRoots, frozenRoots, length_take,
      length_drop, hlvs, min_eq_left (Nat.le_add_right _ _), Nat.add_sub_cancel_left]

theorem Siblings.map_nodeHash (h : Siblings current remaining positions)
    (hbound : current + remaining ≤ maxAccumulatorLeaves)
    (hlvs : leaves.length = current + remaining)
    (hdesc : Descending current remaining) :
    positions.map (nodeHash H leaves) = frozenRoots H (leaves.drop current) := by
  induction h with
  | done =>
    rw [drop_eq_nil_of_le (by omega)]
    simp [frozenRoots]
  | @step current remaining positions hrem _ ih =>
    have hle := nextHeight_le current hrem
    have hlen : (leaves.drop current).length = remaining := by
      rw [length_drop]
      omega
    have hne : leaves.drop current ≠ [] := by
      intro hnil
      rw [hnil] at hlen
      simp at hlen
      omega
    have hheight := nextHeight_of_descending hdesc
    have hnext := hdesc.next hrem
    rw [← hheight] at hnext
    rw [map_cons, nodeHash_next H hrem hbound hlvs,
      ih (by omega) (by omega) hnext, frozenRoots_cons H hne, hlen,
      hheight, drop_drop]

/-!
# The verifier's loop along the enumeration
-/

theorem carry_next (hpos : 0 < current) (hsize : 2 ^ trailingZeros current ≤ remaining)
    (hlvs : leaves.length = current + remaining) :
    carry H.internalNode (mountains H.internalNode H.placeholder 0 current (leaves.take current))
        (current / 2 ^ trailingZeros current)
        (subtreeRoot H.internalNode H.placeholder (trailingZeros current)
          ((leaves.drop current).take (2 ^ trailingZeros current))) =
      some (mountains H.internalNode H.placeholder 0 (current + 2 ^ trailingZeros current)
        (leaves.take (current + 2 ^ trailingZeros current))) := by
  rcases eq_trailingZeros_mul_odd hpos with ⟨m, hm⟩
  generalize trailingZeros current = j at *
  have hpow := Nat.two_pow_pos j
  have hdiv : current / 2 ^ j = 2 * m + 1 := Nat.div_eq_of_eq_mul_right hpow hm
  have hnext : current + 2 ^ j = 2 ^ j * (2 * m + 1 + 1) := by
    rw [hm]
    ring
  have hlow (list : List hash) : mountains H.internalNode H.placeholder 0 current list =
      mountains H.internalNode H.placeholder j (2 * m + 1) list := by
    rw [hm, mountains_mul_pow, zero_add]
  have htake : (leaves.take current).length = (2 * m + 1) * 2 ^ j := by
    rw [length_take, mul_comm, ← hm]
    omega
  have hblock : ((leaves.drop current).take (2 ^ j)).length = 2 ^ j := by
    rw [length_take, length_drop]
    omega
  rw [hdiv, hlow, carry_mountains H.internalNode H.placeholder htake hblock,
    ← take_add, hnext, mountains_mul_pow, zero_add]

theorem growLoop_siblings (h : Siblings current remaining positions)
    (hpos : 0 < current) (hbound : current + remaining ≤ maxAccumulatorLeaves)
    (hlvs : leaves.length = current + remaining) :
    exists growth : Growth hash, growLoop H (positions.map (nodeHash H leaves))
          (mountains H.internalNode H.placeholder 0 current (leaves.take current)) current remaining
          (2 ^ trailingZeros current) = .ok growth ∧
        growth.stack.reverse ++ growth.unused = frozenRoots H leaves := by
  induction h with
  | done current =>
    have hpow := Nat.two_pow_pos (trailingZeros current)
    rw [growLoop_done H (by omega)]
    refine ⟨_, rfl, ?_⟩
    rw [add_zero] at hlvs
    rw [take_of_length_le (by omega), ← hlvs]
    simp [frozenRoots]
  | @step current remaining positions hrem hrest ih =>
    by_cases hdesc : Descending current remaining
    · have hlt := hdesc.resolve_left (by omega)
      have hhashes := Siblings.map_nodeHash H (.step hrem hrest) hbound hlvs hdesc
      have hfrozen : frozenRoots H (leaves.take current) =
        (mountains H.internalNode H.placeholder 0 current (leaves.take current)).reverse := by
        rw [frozenRoots, length_take, hlvs, min_eq_left (Nat.le_add_right _ _)]
      rw [growLoop_done H (by omega)]
      refine ⟨_, rfl, ?_⟩
      rw [hhashes, frozenRoots_append H hlvs hdesc, hfrozen]
    · have hsize := (not_descending hdesc).right
      have hheight : nextHeight current remaining = trailingZeros current := by
        rw [nextHeight, if_pos (not_descending hdesc)]
      have hpow := Nat.two_pow_pos (trailingZeros current)
      have hlen : (mountains H.internalNode H.placeholder 0 current
        (leaves.take current)).length = countOnes current :=
        length_mountains _ _ _ _ _
      rcases growLoop_step H hpos hbound hlen hsize
        (nodeHash H leaves (Position.inorder (nextHeight current remaining)
          (current / 2 ^ nextHeight current remaining)))
        (positions.map (nodeHash H leaves)) with
        ⟨stack', hcarry, _, hstep⟩
      rw [nodeHash_next H hrem hbound hlvs, hheight, carry_next H hpos hsize hlvs] at hcarry
      cases hcarry
      rw [map_cons, hstep]
      rw [hheight] at ih
      exact ih (by omega) (by omega) (by omega)

theorem Siblings.length_eq (h : Siblings current remaining positions)
    (hbound : current + remaining ≤ maxAccumulatorLeaves) (hdesc : Descending current remaining) :
    positions.length = countOnes remaining := by
  -- Any leaves will do: only the number of their subtrees matters.
  have hhashes := Siblings.map_nodeHash (TreeHasher.mk (fun _ _ => ()) ()) h
    hbound (show (replicate (current + remaining) ()).length = _ by simp)
    hdesc
  have hlen := congrArg length hhashes
  rw [length_map, length_frozenRoots, length_drop,
    length_replicate, Nat.add_sub_cancel_left] at hlen
  exact hlen

theorem countOnes_add_of_descending (h : Descending current remaining) :
    countOnes (current + remaining) = countOnes current + countOnes remaining := by
  have hlen := congrArg length (frozenRoots_append (TreeHasher.mk (fun _ _ => ()) ())
    (show (replicate (current + remaining) ()).length = _ by simp) h)
  rw [length_append, length_frozenRoots, length_frozenRoots, length_frozenRoots, length_take,
    length_drop, length_replicate, min_eq_left (Nat.le_add_right _ _), Nat.add_sub_cancel_left]
    at hlen
  exact hlen

theorem length_of_growLoop {stack} {growth} (h : Siblings current remaining positions)
    (hpos : 0 < current) (hbound : current + remaining ≤ maxAccumulatorLeaves)
    (hstack : stack.length = countOnes current)
    (hgrow : growLoop H subtrees stack current remaining (2 ^ trailingZeros current) = .ok growth)
    (hroots : growth.stack.length + growth.unused.length = countOnes (current + remaining)) :
    subtrees.length = positions.length := by
  induction h generalizing subtrees stack with
  | done current =>
    have hpow := Nat.two_pow_pos (trailingZeros current)
    rw [growLoop_done H (by omega)] at hgrow
    cases hgrow
    dsimp only at hroots
    rw [add_zero, hstack] at hroots
    rw [length_nil]
    omega
  | @step current remaining positions hrem hrest ih =>
    by_cases hdesc : Descending current remaining
    · have hlt := hdesc.resolve_left (by omega)
      rw [growLoop_done H (by omega)] at hgrow
      cases hgrow
      dsimp only at hroots
      rw [countOnes_add_of_descending hdesc, hstack] at hroots
      rw [Siblings.length_eq (.step hrem hrest) hbound hdesc]
      omega
    · have hsize := (not_descending hdesc).right
      have hheight : nextHeight current remaining = trailingZeros current := by
        rw [nextHeight, if_pos (not_descending hdesc)]
      have hpow := Nat.two_pow_pos (trailingZeros current)
      cases subtrees with
      | nil =>
        rw [growLoop, if_pos hsize] at hgrow
        cases hgrow
      | cons subtree subtrees =>
        rcases growLoop_step H hpos hbound hstack hsize subtree
          subtrees with ⟨stack', _, hlen, hstep⟩
        rw [hstep] at hgrow
        rw [hheight] at ih
        rw [length_cons, length_cons, ih (by omega) (by omega) hlen hgrow]
        rw [hroots]
        congr 1
        omega

theorem appendSubtrees_siblings {xs ys} (h : Siblings xs.length ys.length positions)
    (hbound : xs.length + ys.length ≤ maxAccumulatorLeaves) :
    (ofList H xs).appendSubtrees H (positions.map (nodeHash H (xs ++ ys))) ys.length =
      .ok (ofList H (xs ++ ys)) := by
  have hlvs : (xs ++ ys).length = xs.length + ys.length := length_append
  have hnew := new_frozenRoots H (xs ++ ys)
  rw [hlvs] at hnew
  unfold appendSubtrees
  rw [show (ofList H xs).numLeaves = xs.length from rfl, u64Sub_eq_ok (by omega), ok_bind,
    ensure_eq_ok_iff.mpr (by omega), ok_bind]
  by_cases hzero : xs.length = 0
  · rw [if_pos hzero]
    have hhashes := Siblings.map_nodeHash H h hbound hlvs (Or.inl hzero)
    rw [hzero, zero_add] at hnew
    rw [hhashes, hzero, drop_zero]
    exact hnew
  · rcases growLoop_siblings H h (Nat.pos_of_ne_zero hzero) hbound hlvs with ⟨growth, hgrow, hroots⟩
    have hstack : (ofList H xs).frozenSubtreeRoots.reverse =
      mountains H.internalNode H.placeholder 0 xs.length
        ((xs ++ ys).take xs.length) := by
      simp [ofList, frozenRoots]
    have hgrown := growLoop_grownFrom H (Nat.pos_of_ne_zero hzero) hbound
      (length_mountains _ _ _ _ _) hgrow
    rw [if_neg hzero, hstack, hgrow, ok_bind,
      u64Add_total (by rw [hgrown.total]; exact hbound), ok_bind,
      hgrown.total, hroots, hnew]

theorem appendSubtrees_wrong_length {xs ys : List hash} (h : Siblings xs.length ys.length positions)
    (hbound : xs.length + ys.length ≤ maxAccumulatorLeaves)
    (hlen : subtrees.length ≠ positions.length) :
    exists e, (ofList H xs).appendSubtrees H subtrees ys.length = .err e := by
  have hself : (ofList H xs).frozenSubtreeRoots.length =
    countOnes (ofList H xs).numLeaves := length_frozenRoots H xs
  apply exists_err_of_ne
  · exact appendSubtrees_ne_panic H hself
      (le_trans (Nat.le_add_right _ _) hbound) subtrees ys.length
  · intro _ hok
    apply hlen
    by_cases hzero : xs.length = 0
    · unfold appendSubtrees at hok
      rcases of_bind hok with ⟨_, _, hok⟩
      rcases of_bind hok with ⟨_, _, hok⟩
      rw [if_pos (show (ofList H xs).numLeaves = 0 from hzero)] at hok
      rw [Siblings.length_eq h hbound (Or.inl hzero)]
      exact ((new_eq_ok_iff H).mp hok).left
    · have hpos := Nat.pos_of_ne_zero hzero
      rcases @appendSubtrees_eq_ok _ H (ofList H xs) _ _ _ hpos hself hok with ⟨_, hgrow, _, hnew⟩
      apply length_of_growLoop H h hpos hbound _ hgrow
      · have hroots := ((new_eq_ok_iff H).mp hnew).left
        rw [length_append, length_reverse] at hroots
        exact hroots
      · rw [length_reverse]
        exact hself

/-- The enumeration covers the new leaves by perfect subtrees; their hashes, in
this order, extend the accumulator to the one of the longer list, and no list
of another length is accepted. -/
theorem appendSubtrees_complete {xs ys : List hash}
    (hbound : xs.length + ys.length ≤ maxAccumulatorLeaves) :
    exists (positions : List Position) (self result : InMemoryAccumulator hash),
      (FrozenSubtreeSiblingIterator.new xs.length
          (xs.length + ys.length) >>= collect) = Outcome.ok positions ∧
      Partition xs.length positions (xs.length + ys.length) ∧
      fromLeaves H xs = Outcome.ok self ∧
      fromLeaves H (xs ++ ys) = Outcome.ok result ∧
      self.appendSubtrees H (positions.map (nodeHash H (xs ++ ys))) ys.length = Outcome.ok result ∧
      forall subtrees : List hash, subtrees.length ≠ positions.length ->
        exists e, self.appendSubtrees H subtrees ys.length = Outcome.err e := by
  have hlt := lt_u64Bound_of_le hbound
  rcases collect_siblings hbound with ⟨positions, hcollect, hsiblings⟩
  refine ⟨positions, ofList H xs, ofList H (xs ++ ys), ?_,
    hsiblings.partition hbound, ?_, ?_, ?_, ?_⟩
  · have hnew : FrozenSubtreeSiblingIterator.new xs.length
        (xs.length + ys.length) = .ok ⟨xs.length, ys.length⟩ := by
      unfold FrozenSubtreeSiblingIterator.new assertThat
      rw [if_pos hbound, if_pos (Nat.le_add_right _ _),
        u64Sub_eq_ok (Nat.le_add_right _ _), Nat.add_sub_cancel_left]
      rfl
    rw [hnew, ok_bind, hcollect]
  · exact fromLeaves_eq_ofList H (by omega)
  · exact fromLeaves_eq_ofList H (by rw [length_append]; exact hlt)
  · exact appendSubtrees_siblings H hsiblings hbound
  · intro _ hlength
    exact appendSubtrees_wrong_length H hsiblings hbound hlength

end

theorem appendSubtrees_complete_three_six :
    (freeLeaves 3).length + (freeLeaves 6).length ≤ maxAccumulatorLeaves ∧
      exists (positions : List Position) (self result : InMemoryAccumulator FreeHash),
        (FrozenSubtreeSiblingIterator.new 3 9 >>=
            FrozenSubtreeSiblingIterator.collect) = Outcome.ok positions ∧
        FrozenSubtreeSiblingIterator.Partition 3 positions 9 ∧
        InMemoryAccumulator.fromLeaves freeHasher (freeLeaves 3) = Outcome.ok self ∧
        InMemoryAccumulator.fromLeaves freeHasher (freeLeaves 3 ++ freeLeaves 6) =
          Outcome.ok result ∧
        self.appendSubtrees freeHasher (positions.map
          (nodeHash freeHasher (freeLeaves 3 ++ freeLeaves 6))) 6 = Outcome.ok result ∧
        forall subtrees : List FreeHash, subtrees.length ≠ positions.length ->
          exists e, self.appendSubtrees freeHasher subtrees 6 = Outcome.err e :=
  ⟨by decide, @appendSubtrees_complete _ freeHasher (freeLeaves 3)
    (freeLeaves 6) (by decide)⟩

end OpenLibra.Accumulator
