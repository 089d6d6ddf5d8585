import OpenLibra.Accumulator.InMemory

/-!
# Positions of tree nodes

A position is the in-order number of a node: the node `a` of level `k` has the number `2 ^ (k +
1) * a + 2 ^ k - 1`.
-/

namespace OpenLibra.Accumulator

open Rust

structure Position where
  index : Nat
deriving DecidableEq, Repr

/-- `u64::leading_zeros`. -/
def leadingZeros (n : Nat) : Nat := if n = 0 then 64 else 63 - Nat.log2 n

/-- `<<` on a `u64`: bits beyond the width are lost. -/
def shiftLeft (n count : Nat) : Nat := n * 2 ^ count % u64Bound

theorem shiftLeft_two_pow {k count : Nat} (h : k + count < 64) :
    shiftLeft (2 ^ k) count = 2 ^ (k + count) := by
  rw [shiftLeft, ← pow_add]
  exact Nat.mod_eq_of_lt (Nat.pow_lt_pow_right (by omega) h)

theorem shiftLeft_one {k : Nat} (h : k < 64) : shiftLeft 1 k = 2 ^ k := by
  have hzero := @shiftLeft_two_pow 0 k (by omega)
  rwa [Nat.zero_add] at hzero

def isolateRightmostZeroBit (v : Nat) : Nat := complement v &&& ((v + 1) % u64Bound)

/-- `assert!`: a failed condition is a panic. -/
def assertThat (condition : Prop) [Decidable condition] : Outcome AnyhowError Unit :=
  if condition then .ok () else .panic

namespace Position

variable (self : Position)

def level : Nat := trailingZeros (complement self.index)

def posCountingFromLeft : Nat := self.index / 2 ^ (self.level + 1)

def fromLevelAndPos (level pos : Nat) : Outcome AnyhowError Position := do
  assertThat (level < 64)
  assertThat (0 < shiftLeft 1 level)
  let levelOneBits := shiftLeft 1 level - 1
  let shiftedPos := if level = 63 then 0 else shiftLeft pos (level + 1)
  return ⟨shiftedPos ||| levelOneBits⟩

def fromInorderIndex (index : Nat) : Position := ⟨index⟩

def assertInvariant : Outcome AnyhowError Unit :=
  assertThat (self.index < u64Bound - 1 - 1)

def parent : Outcome AnyhowError Position := do
  self.assertInvariant
  return ⟨(self.index ||| isolateRightmostZeroBit self.index) &&&
    complement (shiftLeft (isolateRightmostZeroBit self.index) 1)⟩

def isLeftChild : Outcome AnyhowError Bool := do
  self.assertInvariant
  return decide (self.index &&& shiftLeft (isolateRightmostZeroBit self.index) 1 = 0)

def isRightChild : Outcome AnyhowError Bool := do
  let isLeft <- self.isLeftChild
  return !isLeft

def fromLeafIndex (leafIndex : Nat) : Outcome AnyhowError Position := fromLevelAndPos 0 leafIndex

/-!
# In-order numbers
-/

/-- The node number `a` of level `k`. -/
def inorder (k a : Nat) : Position := ⟨2 ^ (k + 1) * a + (2 ^ k - 1)⟩

/-- The nodes whose in-order number and leaves fit into a `u64`. -/
def InRange (k a : Nat) : Prop := k ≤ 63 ∧ a < 2 ^ (63 - k)

variable {k a : Nat}

theorem InRange.width (h : InRange k a) : 2 ^ (k + 1) * 2 ^ (63 - k) = u64Bound := by
  have hk := h.left
  rw [← pow_add, u64Bound]
  congr 1
  omega

theorem InRange.le (h : InRange k a) : 2 ^ (k + 1) * a + 2 ^ (k + 1) ≤ u64Bound := by
  calc 2 ^ (k + 1) * a + 2 ^ (k + 1) = 2 ^ (k + 1) * (a + 1) := by ring
    _ ≤ 2 ^ (k + 1) * 2 ^ (63 - k) := Nat.mul_le_mul_left _ h.right
    _ = u64Bound := h.width

theorem InRange.parent (h : InRange k a) (hk : k < 63) : InRange (k + 1) (a / 2) := by
  refine ⟨hk, ?_⟩
  have hlt := h.right
  rw [show 63 - k = 63 - (k + 1) + 1 by omega, pow_succ] at hlt
  omega

theorem inorder_lt (h : InRange k a) : (inorder k a).index + 2 ^ k < u64Bound := by
  have hle := h.le
  have hpow := Nat.two_pow_pos k
  unfold inorder
  rw [pow_succ] at hle ⊢
  dsimp only
  omega

theorem two_pow_sub_one_lt (k : Nat) : 2 ^ k - 1 < 2 ^ (k + 1) := by
  have hpow := Nat.two_pow_pos k
  rw [pow_succ]
  omega

theorem inorder_div (k a : Nat) : (inorder k a).index / 2 ^ (k + 1) = a := by
  unfold inorder
  rw [Nat.mul_add_div (Nat.two_pow_pos _), Nat.div_eq_of_lt (two_pow_sub_one_lt k), add_zero]

theorem testBit_inorder (k a j : Nat) : (inorder k a).index.testBit j =
    if j < k + 1 then decide (j < k) else a.testBit (j - (k + 1)) := by
  unfold inorder
  rw [Nat.testBit_two_pow_mul_add a (two_pow_sub_one_lt k), Nat.testBit_two_pow_sub_one]

theorem testBit_complement {n : Nat} (hn : n < u64Bound) (j : Nat) :
    (complement n).testBit j = (decide (j < 64) && !n.testBit j) := by
  rw [complement, Nat.sub_sub, add_comm 1 n]
  exact Nat.testBit_two_pow_sub_succ hn j

theorem isolateRightmostZeroBit_inorder (h : InRange k a) :
    isolateRightmostZeroBit (inorder k a).index = 2 ^ k := by
  have hlt := inorder_lt h
  have hpow := Nat.two_pow_pos k
  have hnext : (inorder k a).index + 1 = 2 ^ (k + 1) * a + 2 ^ k := by
    unfold inorder
    dsimp only
    omega
  have hsmall : 2 ^ k < 2 ^ (k + 1) := by
    rw [pow_succ]
    omega
  have hk := h.left
  unfold isolateRightmostZeroBit
  rw [Nat.mod_eq_of_lt (by omega)]
  apply Nat.eq_of_testBit_eq
  intro j
  rw [Nat.testBit_and, testBit_complement (by omega), testBit_inorder, hnext,
    Nat.testBit_two_pow_mul_add a hsmall, Nat.testBit_two_pow]
  -- Below the zero bit both numbers differ from the mask, above they agree.
  rcases Nat.lt_trichotomy j k with hj | hj | hj
  · simp [hj, show j < k + 1 by omega, show k ≠ j by omega]
  · simp [hj, show k < 64 by omega]
  · simp [show ¬ j < k + 1 by omega, show k ≠ j by omega]

theorem assertInvariant_inorder (h : InRange k a) (hlast : 0 < k ∨ a + 1 < 2 ^ 63) :
    (inorder k a).assertInvariant = .ok () := by
  apply if_pos
  have hlt := inorder_lt h
  cases k with
  | zero =>
    unfold inorder u64Bound
    dsimp only
    omega
  | succ k =>
    have hpow := Nat.two_pow_pos k
    rw [pow_succ] at hlt
    omega

theorem isRightChild_inorder (h : InRange k a) (hlast : 0 < k ∨ a + 1 < 2 ^ 63) :
    (inorder k a).isRightChild = .ok (decide (a % 2 = 1)) := by
  have hk := h.left
  unfold isRightChild isLeftChild
  rw [assertInvariant_inorder h hlast, isolateRightmostZeroBit_inorder h]
  simp only [ok_bind, pure_eq, Outcome.ok.injEq]
  by_cases htop : k = 63
  · have ha : a = 0 := by
      have hlt := h.right
      rw [htop] at hlt
      omega
    rw [htop, ha]
    decide
  · have hbit := and_two_pow_ne_zero_iff (inorder k a).index (k + 1)
    rw [inorder_div] at hbit
    rw [shiftLeft_two_pow (by omega), ← decide_not]
    exact decide_eq_decide.mpr hbit

theorem parent_inorder (h : InRange k a) (hlast : 0 < k ∨ a + 1 < 2 ^ 63) :
    (inorder k a).parent = .ok (inorder (k + 1) (a / 2)) := by
  have hk := h.left
  unfold parent
  rw [assertInvariant_inorder h hlast, isolateRightmostZeroBit_inorder h]
  simp only [ok_bind, pure_eq, Outcome.ok.injEq]
  by_cases htop : k = 63
  · have ha : a = 0 := by
      have hlt := h.right
      rw [htop] at hlt
      omega
    rw [htop, ha]
    decide
  · have hbound : 2 ^ (k + 1) < u64Bound := Nat.pow_lt_pow_right (by omega) (by omega)
    rw [shiftLeft_two_pow (by omega), Position.mk.injEq]
    apply Nat.eq_of_testBit_eq
    intro j
    rw [Nat.testBit_and, Nat.testBit_or, testBit_complement hbound, testBit_inorder,
      testBit_inorder, Nat.testBit_two_pow, Nat.testBit_two_pow]
    rcases Nat.lt_trichotomy j (k + 1) with hj | hj | hj
    · by_cases hjk : j = k
      · simp [hjk, show k < 64 by omega, show k < k + 1 + 1 by omega]
      · simp [hj, show j < k by omega, show j < k + 1 + 1 by omega,
          show k + 1 ≠ j by omega, show j < 64 by omega]
    · simp [hj]
    · rw [if_neg (show ¬ j < k + 1 by omega),
        if_neg (show ¬ j < k + 1 + 1 by omega), Nat.testBit_div_two,
        show j - (k + 1 + 1) + 1 = j - (k + 1) by omega]
      by_cases hhigh : j < 64
      · simp [hhigh, show k ≠ j by omega, show k + 1 ≠ j by omega]
      · have hzero : a.testBit (j - (k + 1)) = false := by
          apply Nat.testBit_lt_two_pow
          exact lt_of_lt_of_le h.right (Nat.pow_le_pow_right (by omega) (by omega))
        simp [hzero, hhigh]

theorem fromLeafIndex_eq (leafIndex : Nat) : fromLeafIndex leafIndex =
    .ok (inorder 0 (leafIndex % maxAccumulatorLeaves)) := by
  have hmod : leafIndex * 2 % 2 ^ 64 = 2 * (leafIndex % 2 ^ 63) := by omega
  unfold fromLeafIndex fromLevelAndPos inorder maxAccumulatorLeaves maxAccumulatorProofDepth
  simpa [assertThat, shiftLeft, u64Bound] using hmod

theorem level_inorder (h : InRange k a) : (inorder k a).level = k := by
  have hpos := Nat.two_pow_pos k
  rcases Nat.exists_eq_add_of_lt h.right with ⟨c, hc⟩
  have hwidth : u64Bound = 2 ^ (k + 1) * a + 2 * (2 ^ k * c) + 2 * 2 ^ k := by
    calc u64Bound = 2 ^ (k + 1) * 2 ^ (63 - k) := h.width.symm
      _ = 2 ^ (k + 1) * a + 2 * (2 ^ k * c) + 2 * 2 ^ k := by
          rw [hc]
          ring
  have hodd : complement (inorder k a).index = 2 ^ k * (2 * c + 1) := by
    rw [show 2 ^ k * (2 * c + 1) = 2 * (2 ^ k * c) + 2 ^ k by ring]
    unfold complement inorder
    dsimp only
    omega
  rw [level, hodd, trailingZeros_mul_pow k (by omega), trailingZeros_of_odd (by omega)]
  rfl

theorem posCountingFromLeft_inorder (h : InRange k a) : (inorder k a).posCountingFromLeft = a := by
  rw [posCountingFromLeft, level_inorder h, inorder_div]

end Position

end OpenLibra.Accumulator
