import OpenLibra.Accumulator.Position
import OpenLibra.Bits.Smearing
import Mathlib.Data.Nat.Factorization.Basic

/-!
# The tree of positions

Every `u64` but the largest is the number of one node of a binary tree.  On the last leaf the
navigation functions panic.
-/

namespace OpenLibra.Accumulator

open Rust

/-- The right-most `n` bits are turned off.  A shift by the whole width is a
panic. -/
def turnOffRightMostNBits (v n : Nat) : Outcome AnyhowError Nat := do
  assertThat (n < 64)
  return shiftLeft (v >>> n) n

inductive NodeDirection where
  | left
  | right
deriving DecidableEq, Repr

namespace Position

variable (self : Position)

def isLeaf : Bool := decide (self.index &&& 1 = 0)

def child (dir : NodeDirection) : Outcome AnyhowError Position := do
  assertThat (self.isLeaf = false)
  self.assertInvariant
  let directionBit := match dir with
    | .left => 0
    | .right => isolateRightmostZeroBit self.index
  return ⟨(self.index ||| directionBit) &&& complement (isolateRightmostZeroBit self.index >>> 1)⟩

def leftChild : Outcome AnyhowError Position := do
  assertThat (self.isLeaf = false)
  self.child .left

def rightChild : Outcome AnyhowError Position := do
  assertThat (self.isLeaf = false)
  self.child .right

def sibling : Outcome AnyhowError Position := do
  self.assertInvariant
  return ⟨self.index ^^^ shiftLeft (isolateRightmostZeroBit self.index) 1⟩

variable (leafIndex : Nat)

def rootFromLeafIndex : Outcome AnyhowError Position := do
  let leaf <- fromLeafIndex leafIndex
  return ⟨Bits.smearOnes leaf.index >>> 1⟩

def rootFromLeafCount (leafCount : Nat) : Outcome AnyhowError Position := do
  assertThat (0 < leafCount)
  rootFromLeafIndex (leafCount - 1)

def rootLevelFromLeafCount (leafCount : Nat) : Outcome AnyhowError Nat := do
  assertThat (0 < leafCount)
  u64Sub (maxAccumulatorProofDepth + 1) (leadingZeros (leafCount - 1))

def rightMostChild : Outcome AnyhowError Position := do
  assertThat (self.level < 64)
  let behind <- u64Add self.index (shiftLeft 1 self.level)
  let index <- u64Sub behind 1
  return ⟨index⟩

def leftMostChild : Outcome AnyhowError Position := do
  let index <- turnOffRightMostNBits self.index self.level
  return ⟨index⟩

def isFreezable : Outcome AnyhowError Bool := do
  let leaf <- fromLeafIndex leafIndex
  let rightMostChild <- self.rightMostChild
  return decide (rightMostChild.index ≤ leaf.index)

def isPlaceholder : Outcome AnyhowError Bool := do
  let leaf <- fromLeafIndex leafIndex
  if self.index ≤ leaf.index then
    return false
  let leftMostChild <- self.leftMostChild
  return decide (leaf.index < leftMostChild.index)

def Covers : Prop :=
  leafIndex / 2 ^ self.level = self.posCountingFromLeft

/-!
# Numbers of nodes
-/

variable {k a i : Nat} {p : Position}

theorem exists_inorder (h : p.index < u64Bound - 1) :
    exists k a, InRange k a ∧ p = inorder k a := by
  rcases p with ⟨index⟩
  rcases Nat.exists_eq_two_pow_mul_odd (Nat.succ_ne_zero index) with ⟨k, m, ⟨a, rfl⟩, hm⟩
  have hpow := Nat.two_pow_pos k
  have hidx : index + 1 = 2 ^ (k + 1) * a + 2 ^ k := by
    rw [← Nat.succ_eq_add_one, hm]
    ring
  have hwidth : 2 ^ (k + 1) * a + 2 ^ k < 2 ^ 64 := by
    change index < 2 ^ 64 - 1 at h
    omega
  have hk : k < 64 := (Nat.pow_lt_pow_iff_right (by omega)).mp
    (lt_of_le_of_lt (Nat.le_add_left _ _) hwidth)
  refine ⟨k, a, ⟨by omega, ?_⟩, ?_⟩
  · have hsplit : 2 ^ 64 = 2 ^ (k + 1) * 2 ^ (63 - k) := by
      rw [← Nat.pow_add, show k + 1 + (63 - k) = 64 by omega]
    rw [hsplit] at hwidth
    exact Nat.lt_of_mul_lt_mul_left (lt_of_le_of_lt (Nat.le_add_right _ _) hwidth)
  · rw [inorder, Position.mk.injEq]
    omega

theorem eq_inorder_of_testBit {index : Nat}
    (h : forall j, index.testBit j = (inorder k a).index.testBit j) :
    (⟨index⟩ : Position) = inorder k a :=
  congrArg Position.mk (Nat.eq_of_testBit_eq h)

theorem inorder_lt_max (h : InRange k a) : (inorder k a).index < u64Bound - 1 := by
  have hlt := inorder_lt h
  have hpow := Nat.two_pow_pos k
  omega

theorem fromLevelAndPos_inorder (h : InRange k a) : fromLevelAndPos k a = .ok (inorder k a) := by
  have hk := h.left
  have hshift := shiftLeft_one (Nat.lt_succ_of_le h.left)
  have hpos : (if k = 63 then 0 else shiftLeft a (k + 1)) = 2 ^ (k + 1) * a := by
    have hle := h.le
    have hpow := Nat.two_pow_pos (k + 1)
    split
    · next htop =>
      have ha := h.right
      rw [htop] at ha
      rw [show a = 0 by omega, mul_zero]
    · rw [shiftLeft, mul_comm, Nat.mod_eq_of_lt (by omega)]
  unfold fromLevelAndPos
  rw [assertThat, if_pos (by omega), ok_bind, hshift, assertThat,
    if_pos (Nat.two_pow_pos k), ok_bind, hpos, inorder,
    Nat.two_pow_add_eq_or_of_lt (two_pow_sub_one_lt k)]
  rfl

theorem last_of_index_lt (h : (inorder k a).index < u64Bound - 2) : 0 < k ∨ a + 1 < 2 ^ 63 := by
  cases k with
  | zero =>
    change 2 ^ 1 * a + (2 ^ 0 - 1) < 2 ^ 64 - 2 at h
    omega
  | succ k => exact .inl (Nat.succ_pos k)

/-!
# Navigation
-/

theorem InRange.child (h : InRange (k + 1) a) (dir : Nat) (hdir : dir < 2) :
    InRange k (2 * a + dir) := by
  have hk := h.left
  have ha := h.right
  refine ⟨by omega, ?_⟩
  rw [show 63 - k = 63 - (k + 1) + 1 by omega, Nat.pow_succ]
  omega

theorem isLeaf_inorder (k a : Nat) : (inorder k a).isLeaf = decide (k = 0) := by
  have hbit := Nat.and_two_pow (inorder k a).index 0
  rw [testBit_inorder, if_pos (by omega)] at hbit
  rw [isLeaf, ← Nat.pow_zero 2, hbit]
  cases k <;> simp

theorem testBit_child (h : InRange (k + 1) a) {dir : Nat} (hdir : dir < 2) (j : Nat) :
    (((inorder (k + 1) a).index ||| dir * 2 ^ (k + 1)) &&& complement (2 ^ k)).testBit j =
      (inorder k (2 * a + dir)).index.testBit j := by
  have hk := h.left
  have hbound : 2 ^ k < u64Bound := Nat.pow_lt_pow_right (by omega) (by omega)
  rw [Nat.testBit_and, Nat.testBit_or, testBit_complement hbound, Nat.testBit_two_pow,
    testBit_inorder, testBit_inorder, Nat.testBit_mul_two_pow]
  rcases Nat.lt_or_ge j (k + 1) with hj | hj
  · have hbit : decide (j < k) = !decide (k = j) := by
      rw [← decide_not]
      exact decide_eq_decide.mpr (by omega)
    simp [hj, hbit, show j < k + 2 by omega, show ¬ k + 1 ≤ j by omega, show j < 64 by omega]
  · rcases Nat.exists_eq_add_of_le hj with ⟨m, rfl⟩
    rw [Nat.add_sub_cancel_left, show k + 1 + m - (k + 1 + 1) = m - 1 by omega,
      if_neg (show ¬ k + 1 + m < k + 1 by omega)]
    cases m with
    | zero =>
      have hparity : (2 * a + dir) % 2 = dir % 2 := by omega
      simp [hparity, show k + 1 < 64 by omega]
    | succ m =>
      have hdouble : (2 * a + dir).testBit (m + 1) = a.testBit m := by
        rw [Nat.testBit_succ, show (2 * a + dir) / 2 = a by omega]
      have hsmall : dir.testBit (m + 1) = false := by
        rw [Nat.testBit_succ, Nat.div_eq_of_lt hdir, Nat.zero_testBit]
      rw [if_neg (show ¬ k + 1 + (m + 1) < k + 1 + 1 by omega), hdouble, hsmall]
      by_cases hwidth : k + 1 + (m + 1) < 64
      · simp [hwidth, show ¬ k = k + 1 + (m + 1) by omega]
      · have hover : a.testBit m = false :=
          Nat.testBit_lt_two_pow (lt_of_lt_of_le h.right
            (Nat.pow_le_pow_right (by omega) (by omega)))
        simp [hwidth, hover]

theorem child_inorder (h : InRange (k + 1) a) (dir : NodeDirection) :
    (inorder (k + 1) a).child dir = .ok (inorder k (2 * a + if dir = .left then 0 else 1)) := by
  have hhalf : 2 ^ (k + 1) >>> 1 = 2 ^ k := by
    rw [Nat.shiftRight_eq_div_pow, Nat.pow_succ, Nat.pow_one, Nat.mul_div_cancel _ (by omega)]
  unfold child
  rw [isLeaf_inorder, assertThat, if_pos (by simp), ok_bind,
    assertInvariant_inorder h (Or.inl (Nat.succ_pos k)), ok_bind,
    isolateRightmostZeroBit_inorder h, hhalf]
  cases dir with
  | left =>
    refine congrArg Outcome.ok (eq_inorder_of_testBit fun j => ?_)
    have hbits := testBit_child h (show 0 < 2 by omega) j
    rwa [zero_mul] at hbits
  | right =>
    refine congrArg Outcome.ok (eq_inorder_of_testBit fun j => ?_)
    have hbits := testBit_child h (show 1 < 2 by omega) j
    rwa [one_mul] at hbits

theorem leftChild_inorder (h : InRange (k + 1) a) :
    (inorder (k + 1) a).leftChild = .ok (inorder k (2 * a)) := by
  unfold leftChild
  rw [isLeaf_inorder, assertThat, if_pos (by simp), ok_bind, child_inorder h]
  rfl

theorem rightChild_inorder (h : InRange (k + 1) a) :
    (inorder (k + 1) a).rightChild = .ok (inorder k (2 * a + 1)) := by
  unfold rightChild
  rw [isLeaf_inorder, assertThat, if_pos (by simp), ok_bind, child_inorder h]
  rfl

theorem isLeftChild_inorder (h : InRange k a) (hlast : 0 < k ∨ a + 1 < 2 ^ 63) :
    (inorder k a).isLeftChild = .ok (decide (a % 2 = 0)) := by
  rcases of_bind (isRightChild_inorder h hlast) with ⟨isLeft, hleft, hright⟩
  rw [hleft]
  have hnot := Outcome.ok.inj hright
  cases isLeft <;> simp_all

theorem sibling_inorder (hk : k < 63) (h : InRange k a) (hlast : 0 < k ∨ a + 1 < 2 ^ 63) :
    (inorder k a).sibling = .ok (inorder k (a ^^^ 1)) := by
  unfold sibling
  rw [assertInvariant_inorder h hlast, ok_bind, isolateRightmostZeroBit_inorder h,
    shiftLeft_two_pow (by omega)]
  refine congrArg Outcome.ok (eq_inorder_of_testBit fun j => ?_)
  rw [Nat.testBit_xor, Nat.testBit_two_pow, testBit_inorder, testBit_inorder, Nat.testBit_xor,
    ← Nat.pow_zero 2, Nat.testBit_two_pow]
  split
  · simp [show k + 1 ≠ j by omega]
  · rw [show decide (k + 1 = j) = decide (0 = j - (k + 1)) from decide_eq_decide.mpr (by omega)]

theorem covers_inorder (h : InRange k a) : (inorder k a).Covers i <-> i / 2 ^ k = a := by
  rw [Covers, level_inorder h, posCountingFromLeft_inorder h]

theorem covers_iff_le (h : InRange k a) :
    (inorder k a).Covers i <-> 2 ^ k * a ≤ i ∧ i ≤ 2 ^ k * a + 2 ^ k - 1 := by
  have hpow := Nat.two_pow_pos k
  rw [covers_inorder h, Nat.div_eq_iff hpow, mul_comm a]

theorem leftMostChild_inorder (h : InRange k a) :
    (inorder k a).leftMostChild = .ok (inorder 0 (2 ^ k * a)) := by
  have hk := h.left
  have hle := h.le
  have hpow := Nat.two_pow_pos k
  have hshift : (inorder k a).index >>> k = 2 * a := by
    rw [Nat.shiftRight_eq_div_pow, inorder,
      show 2 ^ (k + 1) * a + (2 ^ k - 1) = 2 ^ k * (2 * a) + (2 ^ k - 1) by ring,
      Nat.mul_add_div hpow, Nat.div_eq_of_lt (by omega), add_zero]
  unfold leftMostChild turnOffRightMostNBits
  have hidx : 2 * a * 2 ^ k = 2 ^ 1 * (2 ^ k * a) := by ring
  have hwidth : 2 ^ (k + 1) * a = 2 ^ 1 * (2 ^ k * a) := by ring
  rw [level_inorder h, assertThat, if_pos (by omega), ok_bind, hshift, shiftLeft,
    hidx, Nat.mod_eq_of_lt (by omega)]
  rfl

theorem rightMostChild_inorder (h : InRange k a) :
    (inorder k a).rightMostChild = .ok (inorder 0 (2 ^ k * a + 2 ^ k - 1)) := by
  have hk := h.left
  have hlt := inorder_lt h
  have hpow := Nat.two_pow_pos k
  unfold rightMostChild
  rw [level_inorder h, assertThat, if_pos (by omega), ok_bind, shiftLeft_one (by omega),
    u64Add_eq_ok hlt, ok_bind, u64Sub_eq_ok (by omega), ok_bind]
  have hwidth : 2 ^ (k + 1) * a = 2 * (2 ^ k * a) := by ring
  simp only [inorder, pure_eq, Outcome.ok.injEq, Position.mk.injEq]
  omega

theorem index_leaf (i : Nat) : (inorder 0 i).index = 2 * i := by simp [inorder]

theorem isFreezable_inorder (h : InRange k a) (hi : i < 2 ^ 63) :
    (inorder k a).isFreezable i = .ok (decide (2 ^ k * a + 2 ^ k - 1 ≤ i)) := by
  unfold isFreezable
  rw [fromLeafIndex_eq, ok_bind, rightMostChild_inorder h, ok_bind,
    maxAccumulatorLeaves, maxAccumulatorProofDepth, Nat.mod_eq_of_lt hi]
  refine congrArg Outcome.ok (decide_eq_decide.mpr ?_)
  rw [index_leaf, index_leaf]
  omega

theorem isPlaceholder_inorder (h : InRange k a) (hi : i < 2 ^ 63) :
    (inorder k a).isPlaceholder i = .ok (decide (i < 2 ^ k * a)) := by
  have hidx : (inorder k a).index = 2 * (2 ^ k * a) + (2 ^ k - 1) := by
    rw [inorder]
    ring
  unfold isPlaceholder
  rw [fromLeafIndex_eq, ok_bind, leftMostChild_inorder h, ok_bind,
    maxAccumulatorLeaves, maxAccumulatorProofDepth, Nat.mod_eq_of_lt hi]
  split
  · next hle =>
    rw [hidx, index_leaf] at hle
    refine congrArg Outcome.ok (decide_eq_false ?_).symm
    omega
  · refine congrArg Outcome.ok (decide_eq_decide.mpr ?_)
    rw [index_leaf, index_leaf]
    omega

/-!
# Roots
-/

def height (leafIndex : Nat) : Nat := if leafIndex = 0 then 0 else Nat.log2 leafIndex + 1

theorem lt_two_pow_iff_height_le (leafIndex level : Nat) :
    leafIndex < 2 ^ level <-> height leafIndex ≤ level := by
  unfold height
  split
  · next hzero => simp [hzero]
  · next hne => rw [← Nat.log2_lt hne, Nat.lt_iff_add_one_le]

theorem inRange_height (hi : i < 2 ^ 63) : InRange (height i) 0 :=
  ⟨(lt_two_pow_iff_height_le i 63).mp hi, Nat.two_pow_pos _⟩

theorem rootFromLeafIndex_eq (hi : i < 2 ^ 63) :
    rootFromLeafIndex i = .ok (inorder (height i) 0) := by
  unfold rootFromLeafIndex
  rw [fromLeafIndex_eq, ok_bind, maxAccumulatorLeaves, maxAccumulatorProofDepth,
    Nat.mod_eq_of_lt hi]
  refine congrArg (Outcome.ok ∘ Position.mk) ?_
  rw [Nat.shiftRight_eq_div_pow]
  by_cases hzero : i = 0
  · rw [hzero]
    rfl
  · have hlog : Nat.log2 (2 * i) = Nat.log2 i + 1 := Nat.log2_two_mul hzero
    have hpow := Nat.two_pow_pos (Nat.log2 i + 1)
    rw [show (inorder 0 i).index = 2 * i by simp [inorder],
      Bits.smearOnes_eq (by omega) (by omega), hlog, height, if_neg hzero, Nat.pow_succ]
    omega

theorem rootLevelFromLeafCount_eq {n : Nat} (hpos : 0 < n) (hn : n ≤ 2 ^ 63) :
    rootLevelFromLeafCount n = .ok (height (n - 1)) := by
  have hheight := (inRange_height (show n - 1 < 2 ^ 63 by omega)).left
  unfold rootLevelFromLeafCount leadingZeros
  unfold height at hheight ⊢
  rw [assertThat, if_pos hpos, ok_bind, maxAccumulatorProofDepth]
  split at hheight
  · next hzero => simp [hzero, u64Sub]
  · next hne =>
    rw [if_neg hne, if_neg hne, u64Sub_eq_ok (by omega)]
    refine congrArg Outcome.ok ?_
    omega

/-- The positions below the largest `u64` are the nodes of a binary tree whose
leaves are numbered from the left. -/
structure IsTree : Prop where
  numbered : forall {level pos : Nat}, InRange level pos ->
    exists p, fromLevelAndPos level pos = .ok p ∧ p.index < u64Bound - 1 ∧
      p.level = level ∧ p.index / 2 ^ (level + 1) = pos
  allNumbered : forall {p : Position}, p.index < u64Bound - 1 ->
    InRange p.level (p.index / 2 ^ (p.level + 1)) ∧
      fromLevelAndPos p.level (p.index / 2 ^ (p.level + 1)) = .ok p
  up : forall {p : Position}, p.level < 63 -> p.index < u64Bound - 2 ->
    exists parent sibling isLeft, p.parent = .ok parent ∧ p.sibling = .ok sibling ∧
      p.isLeftChild = .ok isLeft ∧ parent.level = p.level + 1 ∧ sibling.level = p.level ∧
      parent.leftChild = .ok (if isLeft then p else sibling) ∧
      parent.rightChild = .ok (if isLeft then sibling else p)
  down : forall {p : Position}, p.index < u64Bound - 2 -> p.isLeaf = false ->
    exists left right, p.leftChild = .ok left ∧ p.rightChild = .ok right ∧
      left.level + 1 = p.level ∧ right.level + 1 = p.level ∧
      left.parent = .ok p ∧ left.sibling = .ok right ∧ left.isLeftChild = .ok true ∧
      (right.index < u64Bound - 2 ->
        right.parent = .ok p ∧ right.sibling = .ok left ∧ right.isLeftChild = .ok false) ∧
      (right.index = u64Bound - 2 <-> p.index = u64Bound - 3) ∧
      forall i, p.Covers i <-> left.Covers i ∨ right.Covers i
  leaf : forall {p : Position} {i : Nat}, p.index < u64Bound - 1 -> p.isLeaf = true ->
    (p.Covers i <-> p.index = 2 * i)
  leaves : forall {p : Position}, p.index < u64Bound - 1 ->
    exists first last, p.leftMostChild = .ok ⟨2 * first⟩ ∧ p.rightMostChild = .ok ⟨2 * last⟩ ∧
      forall i, p.Covers i <-> first ≤ i ∧ i ≤ last
  root : forall {n : Nat}, 0 < n -> n ≤ 2 ^ 63 ->
    exists r, rootFromLeafCount n = .ok r ∧ rootLevelFromLeafCount n = .ok r.level ∧
      (forall i, i < n -> r.Covers i) ∧
      forall p : Position, p.index < u64Bound - 1 -> (forall i, i < n -> p.Covers i) ->
        r.level ≤ p.level
  freezable : forall {p : Position} {i : Nat}, p.index < u64Bound - 1 -> i < 2 ^ 63 ->
    exists answer, p.isFreezable i = .ok answer ∧ (answer = true <-> forall j, p.Covers j -> j ≤ i)
  placeholder : forall {p : Position} {i : Nat}, p.index < u64Bound - 1 -> i < 2 ^ 63 ->
    exists answer, p.isPlaceholder i = .ok answer ∧
      (answer = true <-> forall j, p.Covers j -> i < j)

theorem index_rightChild_iff (k a : Nat) : (inorder k (2 * a + 1)).index = u64Bound - 2 <->
    (inorder (k + 1) a).index = u64Bound - 3 := by
  unfold inorder u64Bound
  cases k with
  | zero => simp only [Nat.pow_succ]; omega
  | succ k =>
    -- Above the leaves the numbers end in a one and in two ones.
    have hpow := Nat.two_pow_pos k
    have hright : 2 ^ (k + 1 + 1) * (2 * a + 1) = 2 * (2 ^ (k + 1) * (2 * a + 1)) := by ring
    have hnode : 2 ^ (k + 1 + 1 + 1) * a = 4 * (2 ^ (k + 1) * a) := by ring
    have hones : 2 ^ (k + 1 + 1) = 4 * 2 ^ k := by ring
    have hones' : 2 ^ (k + 1) = 2 * 2 ^ k := by ring
    dsimp only
    rw [hright, hnode]
    omega

theorem isTree : IsTree where
  numbered := by
    intro level pos h
    exact ⟨_, fromLevelAndPos_inorder h, inorder_lt_max h, level_inorder h, inorder_div level pos⟩
  allNumbered := by
    intro p hp
    rcases exists_inorder hp with ⟨k, a, h, rfl⟩
    rw [level_inorder h, inorder_div]
    exact ⟨h, fromLevelAndPos_inorder h⟩
  up := by
    intro p hlevel hindex
    rcases exists_inorder (show p.index < u64Bound - 1 by omega) with ⟨k, a, h, rfl⟩
    rw [level_inorder h] at hlevel ⊢
    have hlast := last_of_index_lt hindex
    have hparent := h.parent hlevel
    have hsibling : InRange k (a ^^^ 1) := by
      have hhalf : (a ^^^ 1) / 2 = a / 2 := by rw [Nat.xor_div_two]; simp
      have hright := hparent.right
      refine ⟨h.left, ?_⟩
      rw [show 63 - k = 63 - (k + 1) + 1 by omega, Nat.pow_succ]
      omega
    refine ⟨_, _, _, parent_inorder h hlast, sibling_inorder hlevel h hlast,
      isLeftChild_inorder h hlast, level_inorder hparent, level_inorder hsibling, ?_⟩
    rw [leftChild_inorder hparent, rightChild_inorder hparent]
    rcases Nat.mod_two_eq_zero_or_one a with hparity | hparity
    · have hodd : a ^^^ 1 = 2 * (a / 2) + 1 := by
        rw [Nat.xor_one_of_even (Nat.even_iff.mpr hparity)]
        omega
      rw [hodd, show decide (a % 2 = 0) = true by simp [hparity], if_pos rfl, if_pos rfl,
        show 2 * (a / 2) = a by omega]
      exact ⟨rfl, rfl⟩
    · have heven : a ^^^ 1 = 2 * (a / 2) := by
        rw [Nat.xor_one_of_odd (Nat.odd_iff.mpr hparity)]
        omega
      rw [heven, show decide (a % 2 = 0) = false by simp [hparity], if_neg (by simp),
        if_neg (by simp), show 2 * (a / 2) + 1 = a by omega]
      exact ⟨rfl, rfl⟩
  down := by
    intro p hindex hleaf
    rcases exists_inorder (show p.index < u64Bound - 1 by omega) with ⟨k, a, h, rfl⟩
    rw [isLeaf_inorder] at hleaf
    cases k with
    | zero => cases hleaf
    | succ k =>
      rw [level_inorder h]
      have hk : k < 63 := h.left
      have hleft : InRange k (2 * a) := h.child 0 (by omega)
      have hright : InRange k (2 * a + 1) := h.child 1 (by omega)
      have hlast : 0 < k ∨ 2 * a + 1 < 2 ^ 63 := by
        have hlt := hright.right
        cases k with
        | zero => exact .inr hlt
        | succ k => exact .inl (Nat.succ_pos k)
      refine ⟨_, _, leftChild_inorder h, rightChild_inorder h, by rw [level_inorder hleft],
        by rw [level_inorder hright], ?_, ?_, ?_, ?_, index_rightChild_iff k a, ?_⟩
      · rw [parent_inorder hleft hlast, show 2 * a / 2 = a by omega]
      · rw [sibling_inorder hk hleft hlast, Nat.xor_one_of_even (even_two_mul a)]
      · rw [isLeftChild_inorder hleft hlast, show 2 * a % 2 = 0 by omega]
        rfl
      · intro hindex
        have hlast := last_of_index_lt hindex
        rw [parent_inorder hright hlast, sibling_inorder hk hright hlast,
          isLeftChild_inorder hright hlast, show (2 * a + 1) / 2 = a by omega,
          Nat.xor_one_of_odd (odd_two_mul_add_one a), show (2 * a + 1) % 2 = 1 by omega]
        exact ⟨rfl, rfl, rfl⟩
      · intro i
        rw [covers_inorder h, covers_inorder hleft, covers_inorder hright, Nat.pow_succ,
          ← Nat.div_div_eq_div_mul]
        omega
  leaf := by
    intro p i hindex hleaf
    rcases exists_inorder hindex with ⟨k, a, h, rfl⟩
    rw [isLeaf_inorder, decide_eq_true_eq] at hleaf
    subst hleaf
    rw [covers_inorder h, index_leaf, Nat.pow_zero, Nat.div_one]
    omega
  leaves := by
    intro p hindex
    rcases exists_inorder hindex with ⟨k, a, h, rfl⟩
    refine ⟨2 ^ k * a, 2 ^ k * a + 2 ^ k - 1, ?_, ?_, fun i => covers_iff_le h⟩
    · rw [leftMostChild_inorder h, ← index_leaf]
    · rw [rightMostChild_inorder h, ← index_leaf]
  root := by
    intro n hpos hn
    have hlast : n - 1 < 2 ^ 63 := by omega
    have hrange := inRange_height hlast
    refine ⟨inorder (height (n - 1)) 0, ?_, ?_, ?_, ?_⟩
    · unfold rootFromLeafCount
      rw [assertThat, if_pos hpos, ok_bind, rootFromLeafIndex_eq hlast]
    · rw [rootLevelFromLeafCount_eq hpos hn, level_inorder hrange]
    · intro i hi
      have hlt := (lt_two_pow_iff_height_le (n - 1) _).mpr (Nat.le_refl _)
      rw [covers_inorder hrange, Nat.div_eq_of_lt (by omega)]
    · intro p hp hcovers
      rcases exists_inorder hp with ⟨k, a, hka, rfl⟩
      have hfirst := (covers_inorder hka).mp (hcovers 0 hpos)
      have hn := (covers_inorder hka).mp (hcovers (n - 1) (by omega))
      rw [← hfirst, Nat.zero_div, Nat.div_eq_zero_iff_lt (Nat.two_pow_pos k)] at hn
      rw [level_inorder hrange, level_inorder hka]
      exact (lt_two_pow_iff_height_le _ _).mp hn
  freezable := by
    intro p i hindex hi
    rcases exists_inorder hindex with ⟨k, a, h, rfl⟩
    have hpow := Nat.two_pow_pos k
    refine ⟨_, isFreezable_inorder h hi, ?_⟩
    rw [decide_eq_true_eq]
    constructor
    · intro hle j hj
      exact Nat.le_trans ((covers_iff_le h).mp hj).2 hle
    · intro hall
      exact hall _ ((covers_iff_le h).mpr ⟨by omega, Nat.le_refl _⟩)
  placeholder := by
    intro p i hindex hi
    rcases exists_inorder hindex with ⟨k, a, h, rfl⟩
    have hpow := Nat.two_pow_pos k
    refine ⟨_, isPlaceholder_inorder h hi, ?_⟩
    rw [decide_eq_true_eq]
    constructor
    · intro hlt j hj
      exact Nat.lt_of_lt_of_le hlt ((covers_iff_le h).mp hj).1
    · intro hall
      exact hall _ ((covers_iff_le h).mpr ⟨Nat.le_refl _, by omega⟩)

/-- The node before the last leaf has it as its right child, and the parent of
the last leaf is a panic. -/
theorem parent_of_lastLeaf : (Position.mk (2 ^ 64 - 3)).level = 1 ∧
    (Position.mk (2 ^ 64 - 3)).rightChild = .ok ⟨2 ^ 64 - 2⟩ ∧
    (Position.mk (2 ^ 64 - 2)).parent = .panic ∧
    (Position.mk (2 ^ 64 - 2)).sibling = .panic ∧
    (Position.mk (2 ^ 64 - 2)).isLeftChild = .panic := by
  decide +kernel

end Position

end OpenLibra.Accumulator
