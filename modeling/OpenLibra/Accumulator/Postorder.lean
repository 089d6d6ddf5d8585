import OpenLibra.Accumulator.PositionTree

/-!
# Post-order numbers

The nodes of a subtree have consecutive post-order numbers, its root the last one.
-/

namespace OpenLibra.Accumulator

open Rust Merkle

def childrenOfNode (node : Nat) : Outcome AnyhowError Nat :=
  u64Sub (shiftLeft (isolateRightmostZeroBit node) 1) 2

def nodesToLeftOf (node : Nat) : Outcome AnyhowError Nat := do
  let onesUpToLevel <- u64Sub (isolateRightmostZeroBit node) 1
  let unsetLevelZeros := node ^^^ onesUpToLevel
  u64Sub unsetLevelZeros (countOnes unsetLevelZeros)

def inorderToPostorder (node : Nat) : Outcome AnyhowError Nat := do
  let children <- childrenOfNode node
  let leftNodes <- nodesToLeftOf node
  u64Add children leftNodes

def descend : Nat -> Nat -> Nat -> Nat -> Nat × Nat
  | 0, node, _, bitmap => (node, bitmap)
  | i + 1, node, fullBinarySize, bitmap =>
    if fullBinarySize ≤ node then
      descend i (node - fullBinarySize) (fullBinarySize >>> 1) (bitmap ||| 1 <<< i)
    else descend i node (fullBinarySize >>> 1) bitmap

def postorderToInorder (node : Nat) : Outcome AnyhowError Nat := do
  let found := descend 64 node (u64Bound - 1) 0
  let level := found.1 % 2 ^ 32
  assertThat (level < 64)
  let position <- Position.fromLevelAndPos level (found.2 >>> level)
  return position.index

namespace Position

def fromPostorderIndex (index : Nat) : Outcome AnyhowError Position := do
  ensure (index < u64Bound - 1)
    ["node index " ++ toString index ++ " is invalid (equal to 2^64 - 1)"]
  let inorder <- postorderToInorder index
  return ⟨inorder⟩

def toPostorderIndex (self : Position) : Outcome AnyhowError Nat := inorderToPostorder self.index

/-- `p` is strictly below `q`, or all of its leaves are to the left. -/
def Precedes (p q : Position) : Prop :=
  (p.level < q.level ∧ forall i, p.Covers i -> q.Covers i) ∨
    forall i j, p.Covers i -> q.Covers j -> i < j

/-!
# Numbers of subtrees
-/

def firstNumber (k a : Nat) : Nat := 2 ^ (k + 1) * a - countOnes a

def postorder (k a : Nat) : Nat := firstNumber k a + (2 ^ (k + 1) - 2)

variable {j k a b d : Nat}

theorem countOnes_le (a : Nat) : countOnes a ≤ a := by
  induction a using binary_induction with
  | zero => rw [countOnes_zero]
  | double =>
    rw [countOnes_double]
    omega
  | double_succ =>
    rw [countOnes_double_succ]
    omega

theorem countOnes_succ_le (a : Nat) : countOnes (a + 1) ≤ countOnes a + 1 := by
  induction a using binary_induction with
  | zero => rw [countOnes_zero]; exact countOnes_le 1
  | double => rw [countOnes_double_succ, countOnes_double]
  | double_succ n =>
    rw [show 2 * n + 1 + 1 = 2 * (n + 1) by ring, countOnes_double, countOnes_double_succ]
    omega

theorem countOnes_le_mul (k a : Nat) : countOnes a ≤ 2 ^ (k + 1) * a :=
  le_trans (countOnes_le a) (Nat.le_mul_of_pos_left a (Nat.two_pow_pos _))

theorem numbers_parent (k b : Nat) : firstNumber (k + 1) (b / 2) ≤ firstNumber k b ∧
    postorder k b + 1 ≤ postorder (k + 1) (b / 2) := by
  have hpow := Nat.two_pow_pos k
  have hle := countOnes_le_mul k (b / 2)
  have hdouble : 2 ^ (k + 1 + 1) = 2 * 2 ^ (k + 1) := by ring
  have hone : 2 ^ (k + 1) = 2 * 2 ^ k := by ring
  have hwide : 2 ^ (k + 1 + 1) * (b / 2) = 2 * (2 ^ (k + 1) * (b / 2)) := by ring
  unfold postorder firstNumber
  rcases Nat.mod_two_eq_zero_or_one b with hparity | hparity
  · have hb : 2 ^ (k + 1) * b = 2 * (2 ^ (k + 1) * (b / 2)) := by
      conv_lhs => rw [show b = 2 * (b / 2) by omega]
      ring
    rw [hwide, hb, countOnes_eq b, hparity]
    omega
  · have hb : 2 ^ (k + 1) * b = 2 * (2 ^ (k + 1) * (b / 2)) + 2 ^ (k + 1) := by
      conv_lhs => rw [show b = 2 * (b / 2) + 1 by omega]
      ring
    rw [hwide, hb, countOnes_eq b, hparity]
    omega

theorem numbers_ancestor (d k b : Nat) : firstNumber (k + d) (b / 2 ^ d) ≤ firstNumber k b ∧
    postorder k b + d ≤ postorder (k + d) (b / 2 ^ d) := by
  induction d with
  | zero => simp
  | succ d =>
    have hpar := numbers_parent (k + d) (b / 2 ^ d)
    rw [Nat.div_div_eq_div_mul, ← Nat.pow_succ, Nat.succ_eq_add_one] at hpar
    rw [← add_assoc]
    omega

theorem postorder_lt_firstNumber (h : b < a) : postorder k b < firstNumber k a := by
  have hpow := Nat.two_pow_pos k
  have hone : 2 ^ (k + 1) = 2 * 2 ^ k := by ring
  induction a with
  | zero => omega
  | succ a ih =>
    have hsucc := countOnes_succ_le a
    have hle := countOnes_le_mul k a
    have hnext : firstNumber k a + (2 ^ (k + 1) - 1) ≤ firstNumber k (a + 1) := by
      unfold firstNumber
      rw [mul_add, mul_one]
      omega
    rcases Nat.lt_succ_iff_lt_or_eq.mp h with hlt | rfl
    · have := ih hlt
      omega
    · unfold postorder
      omega

theorem postorder_add (k : Nat) (h : a < 2 ^ d) :
    postorder k (2 ^ d + a) = postorder k a + (2 ^ (k + d + 1) - 1) := by
  have hones : countOnes (2 ^ d + a) = countOnes a + 1 := by
    rw [countOnes_split _ d, Nat.add_mod_left, Nat.mod_eq_of_lt h, Nat.add_div_left _
      (Nat.two_pow_pos d), Nat.div_eq_of_lt h, countOnes_double_succ 0, countOnes_zero]
  have hle := countOnes_le_mul k a
  have hpow := Nat.two_pow_pos (k + d + 1)
  have hmul : 2 ^ (k + 1) * (2 ^ d + a) = 2 ^ (k + d + 1) + 2 ^ (k + 1) * a := by ring
  unfold postorder firstNumber
  rw [hones, hmul]
  omega

theorem exists_postorder {c n : Nat} (h : n < 2 ^ (c + 1) - 1) :
    exists k a, k ≤ c ∧ a < 2 ^ (c - k) ∧ n = postorder k a := by
  induction c generalizing n with
  | zero =>
    have hzero : n = 0 := by omega
    exact ⟨0, 0, le_refl 0, Nat.one_pos, by simp [hzero, postorder, firstNumber]⟩
  | succ c ih =>
    have hdouble : 2 ^ (c + 1 + 1) = 2 * 2 ^ (c + 1) := by ring
    rcases Nat.lt_or_ge n (2 ^ (c + 1) - 1) with hlt | hge
    · rcases ih hlt with ⟨k, a, hk, ha, rfl⟩
      refine ⟨k, a, by omega, lt_of_lt_of_le ha ?_, rfl⟩
      exact Nat.pow_le_pow_right (by omega) (by omega)
    · by_cases hroot : n = 2 ^ (c + 1 + 1) - 2
      · refine ⟨c + 1, 0, le_refl _, Nat.two_pow_pos _, ?_⟩
        rw [postorder, firstNumber, mul_zero, Nat.zero_sub, zero_add]
        exact hroot
      · rcases ih (show n - (2 ^ (c + 1) - 1) < 2 ^ (c + 1) - 1 by omega) with ⟨k, a, hk, ha, hn⟩
        have hadd := postorder_add k ha
        rw [show k + (c - k) + 1 = c + 1 by omega] at hadd
        refine ⟨k, 2 ^ (c - k) + a, by omega, ?_, by omega⟩
        rw [show c + 1 - k = c - k + 1 by omega, Nat.pow_succ]
        omega

/-!
# The conversions
-/

theorem or_one_shiftLeft {bitmap c : Nat} (h : 2 ^ (c + 1) ∣ bitmap) :
    bitmap ||| 1 <<< c = bitmap + 2 ^ c := by
  rcases h with ⟨q, rfl⟩
  rw [Nat.one_shiftLeft, Nat.two_pow_add_eq_or_of_lt (Nat.pow_lt_pow_succ (by omega))]

theorem size_shiftRight (c : Nat) : (2 ^ (c + 1) - 1) >>> 1 = 2 ^ c - 1 := by
  rw [Nat.shiftRight_eq_div_pow, Nat.pow_succ]
  omega

theorem descend_root (c e : Nat) {bitmap : Nat} (h : 2 ^ c ∣ bitmap) :
    descend c (2 ^ (c + 1) - 2 + e) (2 ^ c - 1) bitmap = (c + e, bitmap + (2 ^ c - 1)) := by
  induction c generalizing e bitmap with
  | zero => simp [descend]
  | succ c ih =>
    have hpow := Nat.two_pow_pos c
    have hdouble : 2 ^ (c + 1 + 1) = 2 * 2 ^ (c + 1) := by ring
    have hone : 2 ^ (c + 1) = 2 * 2 ^ c := by ring
    have hdvd : 2 ^ c ∣ bitmap + 2 ^ c :=
      Nat.dvd_add (Nat.dvd_trans (Nat.pow_dvd_pow 2 (Nat.le_succ c)) h) (Nat.dvd_refl _)
    rw [descend, if_pos (by omega), or_one_shiftLeft h, size_shiftRight,
      show 2 ^ (c + 1 + 1) - 2 + e - (2 ^ (c + 1) - 1) = 2 ^ (c + 1) - 2 + (e + 1) by omega,
      ih (e + 1) hdvd, Prod.mk.injEq]
    omega

theorem descend_postorder (k d : Nat) {bitmap : Nat} (ha : a < 2 ^ d) (h : 2 ^ (k + d) ∣ bitmap) :
    descend (k + d) (postorder k a) (2 ^ (k + d) - 1) bitmap =
      (k, bitmap + (2 ^ k * a + (2 ^ k - 1))) := by
  induction d generalizing a bitmap with
  | zero =>
    have hzero : a = 0 := by omega
    have hroot := descend_root k 0 h
    simpa [hzero, postorder, firstNumber] using hroot
  | succ d ih =>
    have hpow := Nat.two_pow_pos (k + d)
    have hdvd : 2 ^ (k + d) ∣ bitmap := Nat.dvd_trans (Nat.pow_dvd_pow 2 (Nat.le_succ (k + d))) h
    rw [← add_assoc] at h ⊢
    rcases Nat.lt_or_ge a (2 ^ d) with hlt | hge
    · have hleft := (numbers_ancestor d k a).2
      rw [Nat.div_eq_of_lt hlt] at hleft
      have hroot : postorder (k + d) 0 = 2 ^ (k + d + 1) - 2 := by simp [postorder, firstNumber]
      rw [descend, if_neg (by rw [Nat.pow_succ] at hroot ⊢; omega), size_shiftRight, ih hlt hdvd]
    · rcases Nat.exists_eq_add_of_le hge with ⟨a, rfl⟩
      have ha : a < 2 ^ d := by
        rw [Nat.pow_succ] at ha
        omega
      rw [descend, postorder_add k ha, if_pos (Nat.le_add_left _ _), Nat.add_sub_cancel,
        or_one_shiftLeft h, size_shiftRight, ih ha (Nat.dvd_add hdvd (Nat.dvd_refl _)),
        Prod.mk.injEq]
      refine ⟨rfl, ?_⟩
      ring

theorem postorder_le (h : InRange k a) : postorder k a ≤ u64Bound - 2 ∧
    (postorder k a = u64Bound - 2 <-> k = 63) := by
  have hle := (numbers_ancestor (63 - k) k a).2
  have hk := h.left
  rw [Nat.div_eq_of_lt h.right, show k + (63 - k) = 63 by omega] at hle
  have hroot : postorder 63 0 = u64Bound - 2 := by simp [postorder, firstNumber, u64Bound]
  refine ⟨by omega, by omega, ?_⟩
  rintro rfl
  rw [show a = 0 by have := h.right; omega, hroot]

theorem fromPostorderIndex_postorder (h : InRange k a) :
    fromPostorderIndex (postorder k a) = .ok (inorder k a) := by
  have hk := h.left
  have hpow := Nat.two_pow_pos k
  have hle := (postorder_le h).1
  have ha : a < 2 ^ (64 - k) :=
    lt_of_lt_of_le h.right (Nat.pow_le_pow_right (by omega) (by omega))
  have hfound := descend_postorder k (64 - k) ha (Nat.dvd_zero _)
  rw [show k + (64 - k) = 64 by omega, zero_add] at hfound
  have hpos : (2 ^ k * a + (2 ^ k - 1)) >>> k = a := by
    rw [Nat.shiftRight_eq_div_pow, Nat.mul_add_div hpow, Nat.div_eq_of_lt (by omega), add_zero]
  unfold fromPostorderIndex postorderToInorder
  rw [ensure_eq_ok_iff.mpr (by unfold u64Bound at hle ⊢; omega), ok_bind, u64Bound, hfound]
  dsimp only
  rw [Nat.mod_eq_of_lt (by omega), assertThat, if_pos (by omega), ok_bind, hpos,
    fromLevelAndPos_inorder h]
  rfl

theorem toPostorderIndex_inorder (h : InRange k a) : (inorder k a).toPostorderIndex =
    if k = 63 then .panic else .ok (postorder k a) := by
  have hpow := Nat.two_pow_pos k
  have hunset : (inorder k a).index ^^^ (2 ^ k - 1) = 2 ^ (k + 1) * a := by
    apply Nat.eq_of_testBit_eq
    intro j
    rw [Nat.testBit_xor, testBit_inorder, Nat.testBit_two_pow_sub_one, Nat.testBit_two_pow_mul]
    rcases Nat.lt_or_ge j (k + 1) with hj | hj
    · simp [hj, show ¬ k + 1 ≤ j by omega]
    · simp [show ¬ j < k + 1 by omega, show ¬ j < k by omega, hj]
  unfold toPostorderIndex inorderToPostorder childrenOfNode nodesToLeftOf
  rw [isolateRightmostZeroBit_inorder h]
  split
  · next htop =>
    rw [htop]
    rfl
  · next htop =>
    have hk := h.left
    have hle := (postorder_le h).1
    have hone : 2 ^ (k + 1) = 2 * 2 ^ k := by ring
    have hsum : 2 ^ (k + 1) - 2 + (2 ^ (k + 1) * a - countOnes a) = postorder k a :=
      add_comm _ _
    rw [shiftLeft_two_pow (by omega), u64Sub_eq_ok (by omega), ok_bind, u64Sub_eq_ok hpow,
      ok_bind, hunset]
    dsimp only
    rw [countOnes_mul_pow, u64Sub_eq_ok (countOnes_le_mul k a), ok_bind,
      u64Add_eq_ok (by unfold u64Bound at hle ⊢; omega), hsum]

/-!
# The order
-/

/-- `Precedes` on levels and places. -/
def Prior (j b k a : Nat) : Prop := j < k ∧ b / 2 ^ (k - j) = a ∨ 2 ^ j * b + 2 ^ j ≤ 2 ^ k * a

theorem precedes_inorder (hb : InRange j b) (ha : InRange k a) :
    Precedes (inorder j b) (inorder k a) <-> Prior j b k a := by
  have hj := Nat.two_pow_pos j
  have hk := Nat.two_pow_pos k
  unfold Precedes Prior
  rw [level_inorder hb, level_inorder ha]
  refine or_congr (and_congr_right fun hlt => ?_) ?_
  · have hdiv (i : Nat) : i / 2 ^ k = i / 2 ^ j / 2 ^ (k - j) := by
      rw [Nat.div_div_eq_div_mul, ← Nat.pow_add, show j + (k - j) = k by omega]
    simp only [covers_inorder hb, covers_inorder ha, hdiv]
    constructor
    · intro h
      have hfirst := h (2 ^ j * b) (Nat.mul_div_cancel_left b hj)
      rwa [Nat.mul_div_cancel_left b hj] at hfirst
    · rintro h i rfl
      exact h
  · simp only [covers_iff_le hb, covers_iff_le ha]
    constructor
    · intro h
      have hends := h (2 ^ j * b + 2 ^ j - 1) (2 ^ k * a) ⟨by omega, by omega⟩ ⟨by omega, by omega⟩
      omega
    · intro h i i' hi hi'
      omega

theorem Prior.lt (h : Prior j b k a) : postorder j b < postorder k a := by
  rcases h with ⟨hlt, rfl⟩ | h
  · have hbelow := (numbers_ancestor (k - j) j b).2
    rw [show j + (k - j) = k by omega] at hbelow
    omega
  · have hfirst : firstNumber k a ≤ postorder k a := Nat.le_add_right _ _
    refine lt_of_lt_of_le ?_ hfirst
    rcases le_total j k with hle | hle
    · rcases Nat.exists_eq_add_of_le hle with ⟨d, rfl⟩
      have hbelow := (numbers_ancestor d j b).2
      rw [Nat.pow_add, mul_assoc, ← Nat.mul_succ] at h
      have hleft : b / 2 ^ d < a := (Nat.div_lt_iff_lt_mul (Nat.two_pow_pos d)).mpr (by
        rw [mul_comm]
        exact Nat.le_of_mul_le_mul_left h (Nat.two_pow_pos j))
      have hnum : postorder (j + d) (b / 2 ^ d) < firstNumber (j + d) a :=
        postorder_lt_firstNumber hleft
      omega
    · rcases Nat.exists_eq_add_of_le hle with ⟨d, rfl⟩
      have habove := (numbers_ancestor d k a).1
      rw [Nat.pow_add, ← Nat.mul_succ, mul_assoc] at h
      have hright : b + 1 ≤ a / 2 ^ d := (Nat.le_div_iff_mul_le (Nat.two_pow_pos d)).mpr (by
        rw [mul_comm]
        exact Nat.le_of_mul_le_mul_left h (Nat.two_pow_pos k))
      exact lt_of_lt_of_le (postorder_lt_firstNumber hright) habove

theorem prior_total_of_le (hle : j ≤ k) (hne : ¬ (j = k ∧ b = a)) :
    Prior j b k a ∨ Prior k a j b := by
  rcases Nat.exists_eq_add_of_le hle with ⟨d, rfl⟩
  have hpow := Nat.two_pow_pos d
  unfold Prior
  rw [Nat.add_sub_cancel_left, Nat.pow_add]
  rcases Nat.lt_trichotomy (b / 2 ^ d) a with hlt | heq | hgt
  · rw [Nat.div_lt_iff_lt_mul hpow] at hlt
    have hmul := Nat.mul_le_mul_left (2 ^ j) hlt
    rw [Nat.mul_succ, mul_comm a, ← mul_assoc] at hmul
    exact .inl (Or.inr hmul)
  · refine .inl (Or.inl ⟨?_, heq⟩)
    by_contra hzero
    have hd : d = 0 := by omega
    rw [hd, Nat.pow_zero, Nat.div_one] at heq
    exact hne ⟨by omega, heq⟩
  · have hmul := Nat.mul_le_mul_left (2 ^ j) ((Nat.le_div_iff_mul_le hpow).mp hgt)
    refine .inr (Or.inr (le_trans (le_of_eq ?_) hmul))
    rw [Nat.succ_eq_add_one]
    ring

theorem prior_total (hne : ¬ (j = k ∧ b = a)) : Prior j b k a ∨ Prior k a j b := by
  rcases le_total j k with hle | hle
  · exact prior_total_of_le hle hne
  · refine (prior_total_of_le hle ?_).symm
    rintro ⟨rfl, rfl⟩
    exact hne ⟨rfl, rfl⟩

theorem postorder_lt_iff (hb : InRange j b) (ha : InRange k a) :
    postorder j b < postorder k a <-> Precedes (inorder j b) (inorder k a) := by
  rw [precedes_inorder hb ha]
  refine ⟨fun hlt => ?_, Prior.lt⟩
  have hne : ¬ (j = k ∧ b = a) := by
    rintro ⟨rfl, rfl⟩
    omega
  rcases prior_total hne with h | h
  · exact h
  · have := h.lt
    omega

theorem postorder_roundTrip_iff (index : Nat) (q : Position) :
    (index < u64Bound - 1 -> exists p, fromPostorderIndex index = .ok p ∧ p.index < u64Bound - 1 ∧
      (p.toPostorderIndex = .ok index <-> index ≠ u64Bound - 2) ∧
      forall index' p', fromPostorderIndex index' = .ok p' -> (index < index' <-> Precedes p p')) ∧
    (q.index < u64Bound - 1 -> exists index, fromPostorderIndex index = .ok q) := by
  have hexists {index : Nat} (h : index < u64Bound - 1) :
    exists k a, InRange k a ∧ index = postorder k a := by
    rcases exists_postorder (show index < 2 ^ (63 + 1) - 1 from h) with ⟨k, a, hk, ha, rfl⟩
    exact ⟨k, a, ⟨hk, ha⟩, rfl⟩
  constructor
  · intro hindex
    rcases hexists hindex with ⟨k, a, h, rfl⟩
    refine ⟨inorder k a, fromPostorderIndex_postorder h, inorder_lt_max h, ?_, ?_⟩
    · rw [toPostorderIndex_inorder h, ne_eq, (postorder_le h).2]
      split
      · next htop => simp [htop]
      · next htop => simp [htop]
    · intro _ _ h'
      rcases of_ensure h' with ⟨hindex', _⟩
      rcases hexists hindex' with ⟨_, _, hrange, rfl⟩
      rw [fromPostorderIndex_postorder hrange] at h'
      cases h'
      exact postorder_lt_iff h hrange
  · intro hq
    rcases exists_inorder hq with ⟨_, _, h, rfl⟩
    exact ⟨_, fromPostorderIndex_postorder h⟩

/-- The last number is that of the root, and its conversion back overflows. -/
theorem toPostorderIndex_root : fromPostorderIndex (2 ^ 64 - 2) = .ok ⟨2 ^ 63 - 1⟩ ∧
    (Position.mk (2 ^ 63 - 1)).toPostorderIndex = .panic := by
  decide +kernel

end Position

end OpenLibra.Accumulator
