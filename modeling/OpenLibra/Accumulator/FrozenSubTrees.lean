import OpenLibra.Accumulator.PositionTree

/-!
# The frozen subtrees

The iterator takes the largest perfect subtree that is left, from the left.
-/

namespace OpenLibra.Accumulator

open Rust Position

structure FrozenSubTreeIterator where
  bitmap : Nat
  seenLeaves : Nat
deriving DecidableEq, Repr

namespace FrozenSubTreeIterator

def new (numLeaves : Nat) : FrozenSubTreeIterator where
  bitmap := numLeaves
  seenLeaves := 0

def next (self : FrozenSubTreeIterator) :
    Outcome AnyhowError (Option (Position × FrozenSubTreeIterator)) := do
  let bound <- u64Sub (u64Bound - 1) self.bitmap
  assertThat (self.seenLeaves < bound)
  if self.bitmap = 0 then
    return none
  let rootOffset := Bits.smearOnes self.bitmap >>> 1
  assertThat (rootOffset < self.bitmap)
  let numLeaves <- u64Add rootOffset 1
  let leftmostLeaf <- fromLeafIndex self.seenLeaves
  let root <- u64Add leftmostLeaf.index rootOffset
  let seenLeaves <- u64Add self.seenLeaves numLeaves
  return some (fromInorderIndex root,
    { bitmap := self.bitmap &&& complement numLeaves, seenLeaves := seenLeaves })

/-- The iterator ends after these positions. -/
inductive Yields : FrozenSubTreeIterator -> List Position -> Prop where
  | nil {self : FrozenSubTreeIterator} (h : self.next = .ok none) : Yields self []
  | cons {self rest : FrozenSubTreeIterator} {p : Position} {ps : List Position}
      (h : self.next = .ok (some (p, rest))) (hrest : Yields rest ps) : Yields self (p :: ps)

/-- The binary digits of `n` below `width` that are ones, in descending order. -/
def digits (n : Nat) : Nat -> List Nat
  | 0 => []
  | width + 1 => if n.testBit width then width :: digits n width else digits n width

def rootAt (n digit : Nat) : Position := inorder digit (n / 2 ^ digit - 1)

variable {n k : Nat}

theorem mem_digits {width : Nat} : k ∈ digits n width <-> k < width ∧ n.testBit k = true := by
  induction width with
  | zero => simp [digits]
  | succ width ih =>
    unfold digits
    split
    · next hbit =>
      rw [List.mem_cons, ih]
      constructor
      · rintro (rfl | ⟨hlt, hk⟩)
        · exact ⟨Nat.lt_succ_self _, hbit⟩
        · exact ⟨Nat.lt_succ_of_lt hlt, hk⟩
      · rintro ⟨hlt, hk⟩
        rcases Nat.lt_succ_iff_lt_or_eq.mp hlt with hlt | heq
        · exact .inr ⟨hlt, hk⟩
        · exact .inl heq
    · next hbit =>
      rw [ih]
      constructor
      · rintro ⟨hlt, hk⟩
        exact ⟨Nat.lt_succ_of_lt hlt, hk⟩
      · rintro ⟨hlt, hk⟩
        refine ⟨Nat.lt_of_le_of_ne (Nat.lt_succ_iff.mp hlt) ?_, hk⟩
        rintro rfl
        exact hbit hk

theorem pairwise_digits (n width : Nat) : (digits n width).Pairwise (· > ·) := by
  induction width with
  | zero => exact List.Pairwise.nil
  | succ width ih =>
    unfold digits
    split
    · exact List.Pairwise.cons (fun k hk => (mem_digits.mp hk).1) ih
    · exact ih

theorem mod_of_testBit (h : n.testBit k = true) :
    n % 2 ^ (k + 1) = 2 ^ k + n % 2 ^ k ∧ n / 2 ^ k = 2 * (n / 2 ^ (k + 1)) + 1 := by
  have hodd : n / 2 ^ k % 2 = 1 := by rwa [Nat.testBit_eq_decide_div_mod_eq, decide_eq_true_eq] at h
  refine ⟨by rw [pow_succ, Nat.mod_mul, hodd]; omega, ?_⟩
  rw [pow_succ, ← Nat.div_div_eq_div_mul]
  omega

theorem mod_of_not_testBit (h : ¬ n.testBit k = true) : n % 2 ^ (k + 1) = n % 2 ^ k := by
  have heven : n / 2 ^ k % 2 = 0 := by
    rw [Nat.testBit_eq_decide_div_mod_eq, decide_eq_true_eq] at h
    omega
  rw [pow_succ, Nat.mod_mul, heven, mul_zero, add_zero]

/-- The state when the digits from `width` on are taken. -/
def after (n width : Nat) : FrozenSubTreeIterator where
  bitmap := n % 2 ^ width
  seenLeaves := n - n % 2 ^ width

theorem and_complement_two_pow {low : Nat} (hk : k < 64) (hlow : low < 2 ^ k) :
    (2 ^ k + low) &&& complement (2 ^ k) = low := by
  have hbound : 2 ^ k < u64Bound := Nat.pow_lt_pow_right (by omega) hk
  have hor := Nat.two_pow_add_eq_or_of_lt hlow 1
  rw [mul_one] at hor
  apply Nat.eq_of_testBit_eq
  intro j
  rw [hor, Nat.testBit_and, Nat.testBit_or, testBit_complement hbound, Nat.testBit_two_pow]
  rcases lt_or_ge j k with hj | hj
  · simp [show k ≠ j by omega, show j < 64 by omega]
  · rw [Nat.testBit_lt_two_pow (lt_of_lt_of_le hlow (Nat.pow_le_pow_right (by omega) hj))]
    cases decide (k = j) <;> simp

theorem next_after (hn : n ≤ 2 ^ 63) (hk : k < 64) (h : n.testBit k = true) :
    (after n (k + 1)).next = .ok (some (rootAt n k, after n k)) := by
  have hpow := Nat.two_pow_pos k
  have hlow := Nat.mod_lt n hpow
  rcases mod_of_testBit h with ⟨hmod, hdiv⟩
  rcases Nat.exists_eq_add_one.mpr (show 0 < n / 2 ^ k by omega) with ⟨q, hq⟩
  have hsplit := Nat.div_add_mod n (2 ^ k)
  rw [hq, mul_add, mul_one] at hsplit
  have hlog : Nat.log2 (2 ^ k + n % 2 ^ k) = k :=
    (Nat.log2_eq_iff (by omega)).mpr ⟨by omega, by rw [pow_succ]; omega⟩
  have hsmear : Bits.smearOnes (2 ^ k + n % 2 ^ k) >>> 1 = 2 ^ k - 1 := by
    rw [Bits.smearOnes_eq (by omega) (by omega), hlog, Nat.shiftRight_eq_div_pow, pow_succ]
    omega
  have hseen : n - n % 2 ^ (k + 1) = 2 ^ k * q := by omega
  have hroot : rootAt n k = ⟨2 * (2 ^ k * q) + (2 ^ k - 1)⟩ := by
    rw [rootAt, inorder, hq, Nat.add_sub_cancel, pow_succ, mul_comm (2 ^ k), mul_assoc]
  unfold next after
  dsimp only
  rw [hseen, hmod, u64Sub_eq_ok (by unfold u64Bound; omega), ok_bind, assertThat,
    if_pos (by unfold u64Bound; omega), ok_bind, if_neg (by omega), hsmear, assertThat,
    if_pos (by omega), ok_bind, u64Add_eq_ok (by unfold u64Bound; omega),
    ok_bind, fromLeafIndex_eq, ok_bind, maxAccumulatorLeaves,
    maxAccumulatorProofDepth, Nat.mod_eq_of_lt (by omega), index_leaf,
    u64Add_eq_ok (by unfold u64Bound; omega), ok_bind,
    u64Add_eq_ok (by unfold u64Bound; omega), ok_bind, Nat.sub_add_cancel hpow,
    and_complement_two_pow hk hlow, hroot, show n - n % 2 ^ k = 2 ^ k * q + 2 ^ k by omega]
  rfl

theorem yields_after (hn : n ≤ 2 ^ 63) {width : Nat} (hwidth : width ≤ 64) :
    Yields (after n width) ((digits n width).map (rootAt n)) := by
  induction width with
  | zero =>
    refine .nil ?_
    unfold next after
    dsimp only
    rw [pow_zero, Nat.mod_one, u64Sub_eq_ok (by omega), ok_bind, assertThat,
      if_pos (by unfold u64Bound; omega), ok_bind, if_pos rfl]
    rfl
  | succ width ih =>
    unfold digits
    split
    · next hbit => exact .cons (next_after hn hwidth hbit) (ih (by omega))
    · next hbit =>
      have hsame : after n (width + 1) = after n width := by
        rw [after, mod_of_not_testBit hbit]
        rfl
      rw [hsame]
      exact ih (by omega)

/-!
# The leaves of the subtrees
-/

theorem inRange_rootAt (hn : n ≤ 2 ^ 63) (h : n.testBit k = true) : InRange k (n / 2 ^ k - 1) := by
  have hle := Nat.ge_two_pow_of_testBit h
  have hk : k ≤ 63 := (Nat.pow_le_pow_iff_right (by omega)).mp (le_trans hle hn)
  have hdiv := Nat.div_le_div_right (c := 2 ^ k) hn
  rw [Nat.pow_div hk (by omega)] at hdiv
  have hpos := Nat.div_pos hle (Nat.two_pow_pos k)
  exact ⟨hk, by omega⟩

theorem covers_rootAt (hn : n ≤ 2 ^ 63) (h : n.testBit k = true) {i : Nat} :
    (rootAt n k).Covers i <-> i / 2 ^ k + 1 = n / 2 ^ k := by
  have hpos := Nat.div_pos (Nat.ge_two_pow_of_testBit h) (Nat.two_pow_pos k)
  rw [rootAt, covers_inorder (inRange_rootAt hn h)]
  omega

theorem exists_digit_iff {i width : Nat} :
    (exists k, k ∈ digits n width ∧ i / 2 ^ k + 1 = n / 2 ^ k) <->
      i / 2 ^ width = n / 2 ^ width ∧ i < n := by
  induction width with
  | zero => simp [digits]; omega
  | succ width ih =>
    have hlt : i / 2 ^ width < n / 2 ^ width -> i < n := Nat.lt_of_div_lt_div
    have hle : i < n -> i / 2 ^ width ≤ n / 2 ^ width :=
      fun h => Nat.div_le_div_right (le_of_lt h)
    rw [pow_succ, ← Nat.div_div_eq_div_mul, ← Nat.div_div_eq_div_mul]
    unfold digits
    split
    · next hbit =>
      have hodd := (mod_of_testBit hbit).2
      rw [pow_succ, ← Nat.div_div_eq_div_mul] at hodd
      simp only [List.mem_cons, or_and_right, exists_or, exists_eq_left, ih]
      omega
    · next hbit =>
      rw [Nat.testBit_eq_decide_div_mod_eq, decide_eq_true_eq] at hbit
      rw [ih]
      omega

theorem frozenSubTrees_partition (n : Nat) (hn : n ≤ 2 ^ 63) :
    exists ps, Yields (new n) ps ∧ (ps.map level).Pairwise (· > ·) ∧
      (forall k, k ∈ ps.map level <-> n.testBit k = true) ∧
      (forall p, p ∈ ps -> exists first,
        forall i, p.Covers i <-> first ≤ i ∧ i ≤ first + 2 ^ p.level - 1) ∧
      ps.Pairwise (fun p q => forall i j, p.Covers i -> q.Covers j -> i < j) ∧
      (forall i, (exists p, p ∈ ps ∧ p.Covers i) <-> i < n) ∧
      (n < 2 ^ 63 -> forall p, p ∈ ps -> p.isFreezable (n - 1) = .ok true ∧
        exists parent, p.parent = .ok parent ∧ parent.isFreezable (n - 1) = .ok false) := by
  have hbit {k : Nat} (hk : k ∈ digits n 64) := (mem_digits.mp hk).2
  have hlevel : ((digits n 64).map (rootAt n)).map level = digits n 64 := by
    rw [List.map_map]
    refine (List.map_congr_left fun k hk => ?_).trans (List.map_id _)
    exact level_inorder (inRange_rootAt hn (hbit hk))
  refine ⟨(digits n 64).map (rootAt n), ?_, ?_, ?_, ?_, ?_, ?_, ?_⟩
  · have hyields := yields_after hn (Nat.le_refl 64)
    rwa [after, Nat.mod_eq_of_lt (by omega), Nat.sub_self] at hyields
  · rw [hlevel]
    exact pairwise_digits n 64
  · intro k
    rw [hlevel, mem_digits, and_iff_right_iff_imp]
    intro hk
    have hle := Nat.le_trans (Nat.ge_two_pow_of_testBit hk) hn
    exact Nat.lt_succ_of_le ((Nat.pow_le_pow_iff_right (by omega)).mp hle)
  · intro p hp
    rcases List.mem_map.mp hp with ⟨k, hk, rfl⟩
    have hrange := inRange_rootAt hn (hbit hk)
    rw [rootAt, level_inorder hrange]
    exact ⟨_, fun i => covers_iff_le hrange⟩
  · rw [List.pairwise_map]
    refine (pairwise_digits n 64).imp_of_mem ?_
    intro k k' hk hk' hgt i j hi hj
    rw [covers_rootAt hn (hbit hk)] at hi
    rw [covers_rootAt hn (hbit hk')] at hj
    have habove := (exists_digit_iff.mp ⟨k', mem_digits.mpr ⟨hgt, hbit hk'⟩, hj⟩).1
    exact Nat.lt_of_div_lt_div (show i / 2 ^ k < j / 2 ^ k by omega)
  · intro i
    have hcover := @exists_digit_iff n i 64
    rw [Nat.div_eq_of_lt (show n < 2 ^ 64 by omega)] at hcover
    have hhigh (h : i < n) : i / 2 ^ 64 = 0 := Nat.div_eq_of_lt (by omega)
    constructor
    · rintro ⟨p, hp, hi⟩
      rcases List.mem_map.mp hp with ⟨k, hk, rfl⟩
      exact (hcover.mp ⟨k, hk, (covers_rootAt hn (hbit hk)).mp hi⟩).2
    · intro hi
      rcases hcover.mpr ⟨hhigh hi, hi⟩ with ⟨k, hk, hdigit⟩
      exact ⟨_, List.mem_map_of_mem hk, (covers_rootAt hn (hbit hk)).mpr hdigit⟩
  · intro hlt p hp
    rcases List.mem_map.mp hp with ⟨k, hk, rfl⟩
    have hrange := inRange_rootAt hn (hbit hk)
    have hle := Nat.ge_two_pow_of_testBit (hbit hk)
    have hpow := Nat.two_pow_pos k
    have hk63 : k < 63 := (Nat.pow_lt_pow_iff_right (by omega)).mp (Nat.lt_of_le_of_lt hle hlt)
    have hlast : 0 < k ∨ n / 2 ^ k - 1 + 1 < 2 ^ 63 := by
      have := Nat.div_le_self n (2 ^ k)
      omega
    have hhalf : (n / 2 ^ k - 1) / 2 = n / 2 ^ (k + 1) := by
      have hdiv := (mod_of_testBit (hbit hk)).2
      omega
    rw [rootAt, isFreezable_inorder hrange (by omega), parent_inorder hrange hlast]
    refine ⟨congrArg Outcome.ok (decide_eq_true ?_), _, rfl, ?_⟩
    · have hmul := Nat.mul_div_le n (2 ^ k)
      rcases Nat.exists_eq_add_one.mpr (Nat.div_pos hle hpow) with ⟨q, hq⟩
      rw [hq, Nat.mul_add, Nat.mul_one] at hmul
      rw [hq, Nat.add_sub_cancel]
      omega
    · rw [isFreezable_inorder (hrange.parent hk63) (by omega), hhalf]
      have hmul := Nat.lt_mul_div_succ n (Nat.two_pow_pos (k + 1))
      rw [Nat.mul_add, Nat.mul_one] at hmul
      refine congrArg Outcome.ok (decide_eq_false ?_)
      omega

theorem frozenSubTrees_partition_five :
    exists ps, Yields (new 5) ps ∧ (ps.map level).Pairwise (· > ·) ∧
      (forall k, k ∈ ps.map level <-> Nat.testBit 5 k = true) ∧
      (forall p, p ∈ ps -> exists first,
        forall i, p.Covers i <-> first ≤ i ∧ i ≤ first + 2 ^ p.level - 1) ∧
      ps.Pairwise (fun p q => forall i j, p.Covers i -> q.Covers j -> i < j) ∧
      (forall i, (exists p, p ∈ ps ∧ p.Covers i) <-> i < 5) ∧
      forall p, p ∈ ps -> p.isFreezable 4 = .ok true ∧
        exists parent, p.parent = .ok parent ∧ parent.isFreezable 4 = .ok false := by
  rcases frozenSubTrees_partition 5 (by decide) with
    ⟨ps, hyields, hlevels, hbits, hcovers, hordered, hall, hfrozen⟩
  exact ⟨ps, hyields, hlevels, hbits, hcovers, hordered, hall, hfrozen (by decide)⟩

end FrozenSubTreeIterator

end OpenLibra.Accumulator
