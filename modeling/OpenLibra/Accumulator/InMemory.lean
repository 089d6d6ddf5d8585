import Mathlib.Data.Nat.Bitwise
import OpenLibra.Rust.Outcome
import OpenLibra.Merkle.MountainRange

/-!
# The in-memory Merkle accumulator

The accumulator keeps only the roots of its full subtrees, left to right, and the number of
leaves.
-/

namespace OpenLibra.Accumulator

open Rust Merkle List

abbrev AnyhowError := List String

structure TreeHasher (hash : Type) where
  internalNode : hash -> hash -> hash
  placeholder : hash

def maxAccumulatorProofDepth : Nat := 63

def maxAccumulatorLeaves : Nat := 2 ^ maxAccumulatorProofDepth

variable {n : Nat}

theorem lt_u64Bound_of_le (h : n ≤ maxAccumulatorLeaves) : n < u64Bound := by
  unfold maxAccumulatorLeaves maxAccumulatorProofDepth at h
  unfold u64Bound
  omega

/-- `u64::trailing_zeros`. -/
def trailingZeros (n : Nat) : Nat :=
  if n = 0 then 64
  else if n % 2 = 1 then 0
  else trailingZeros (n / 2) + 1

/-- Bitwise negation of a `u64`. -/
def complement (n : Nat) : Nat := u64Bound - 1 - n

/-!
# The accumulator
-/

structure InMemoryAccumulator (hash : Type) where
  frozenSubtreeRoots : List hash
  numLeaves : Nat
  rootHash : hash
deriving DecidableEq, Repr

namespace InMemoryAccumulator

variable {hash : Type} (H : TreeHasher hash) (frozenSubtreeRoots : List hash)

def computeRootHash (numLeaves : Nat) : Outcome AnyhowError hash :=
  match frozenSubtreeRoots with
  | [] => .ok H.placeholder
  | [root] => .ok root
  | _ =>
    expect (fold H.internalNode H.placeholder (numLeaves / 2 ^ trailingZeros numLeaves)
        frozenSubtreeRoots.reverse H.placeholder)

def new (numLeaves : Nat) : Outcome AnyhowError (InMemoryAccumulator hash) := do
  ensure (frozenSubtreeRoots.length = countOnes numLeaves)
    ["The number of frozen subtrees does not match the number of leaves. " ++
      "frozen_subtree_roots.len(): " ++ toString frozenSubtreeRoots.length ++
      ". num_leaves: " ++ toString numLeaves ++ "."]
  let rootHash <- computeRootHash H frozenSubtreeRoots numLeaves
  return {
    frozenSubtreeRoots := frozenSubtreeRoots
    numLeaves := numLeaves
    rootHash := rootHash }

def default : Outcome AnyhowError (InMemoryAccumulator hash) := (new H [] 0).unwrap

/-- The loop of `append_one`: merge the last two subtrees `count` times. -/
def mergeLast : Nat -> List hash -> Outcome AnyhowError (List hash)
  | 0, stack => .ok stack
  | count + 1, right :: left :: rest => mergeLast count (H.internalNode left right :: rest)
  | _ + 1, _ => .panic

def appendOne (numExistingLeaves : Nat) (leaf : hash) : Outcome AnyhowError (List hash) := do
  let numTrailingOnes := trailingZeros (complement numExistingLeaves)
  let stack <- mergeLast H numTrailingOnes (leaf :: frozenSubtreeRoots.reverse)
  return stack.reverse

def appendLoop : List hash -> List hash -> Nat -> Outcome AnyhowError (List hash × Nat)
  | [], frozenSubtreeRoots, numLeaves => .ok (frozenSubtreeRoots, numLeaves)
  | leaf :: leaves, frozenSubtreeRoots, numLeaves => do
    let frozenSubtreeRoots <- appendOne H frozenSubtreeRoots numLeaves leaf
    let numLeaves <- u64Add numLeaves 1
    appendLoop leaves frozenSubtreeRoots numLeaves

variable (self : InMemoryAccumulator hash)

def append (leaves : List hash) : Outcome AnyhowError (InMemoryAccumulator hash) := do
  let (frozenSubtreeRoots, numLeaves) <-
    appendLoop H leaves self.frozenSubtreeRoots self.numLeaves
  (new H frozenSubtreeRoots numLeaves).unwrap

def fromLeaves (leaves : List hash) :
    Outcome AnyhowError (InMemoryAccumulator hash) := do
  let empty <- default H
  empty.append H leaves

/-- The inner loop of `append_subtrees`: the stack left over, the first power
of two missing in the count, and the merged hash. -/
def carryLoop (currentNumLeaves : Nat) :
    List hash -> Nat -> hash -> Outcome AnyhowError (List hash × Nat × hash)
  | [], mask, currentHash =>
    if currentNumLeaves &&& mask ≠ 0 then
      .panic
    else
      .ok ([], mask, currentHash)
  | leftHash :: rest, mask, currentHash =>
    if currentNumLeaves &&& mask ≠ 0 then
      carryLoop currentNumLeaves rest (mask * 2 % u64Bound) (H.internalNode leftHash currentHash)
    else
      .ok (leftHash :: rest, mask, currentHash)

/-- State of the outer loop of `append_subtrees`. -/
structure Growth (hash : Type) where
  stack : List hash
  currentNumLeaves : Nat
  remainingNewLeaves : Nat
  unused : List hash

/-- The outer loop of `append_subtrees`: combine new subtrees with the
rightmost frozen one while enough new leaves remain. -/
def growLoop : List hash -> List hash -> Nat -> Nat -> Nat -> Outcome AnyhowError (Growth hash)
  | subtrees, stack, current, remaining, size =>
    if size ≤ remaining then
      match subtrees with
      | [] => Outcome.err ["Too few subtrees."]
      | subtree :: subtrees => do
        let (stack, mask, currentHash) <-
          carryLoop H current stack size subtree
        let current <- u64Add current size
        let remaining <- u64Sub remaining size
        growLoop subtrees (currentHash :: stack) current remaining mask
    else
      .ok
        { stack := stack
          currentNumLeaves := current
          remainingNewLeaves := remaining
          unused := subtrees }

def appendSubtrees (subtrees : List hash) (numNewLeaves : Nat) :
    Outcome AnyhowError (InMemoryAccumulator hash) := do
  let room <- u64Sub maxAccumulatorLeaves self.numLeaves
  ensure (numNewLeaves ≤ room)
    ["Too many new leaves. self.num_leaves: " ++ toString self.numLeaves ++
      ". num_new_leaves: " ++ toString numNewLeaves ++ "."]
  if self.numLeaves = 0 then
    new H subtrees numNewLeaves
  else
    let growth <- growLoop H subtrees self.frozenSubtreeRoots.reverse
      self.numLeaves numNewLeaves (2 ^ trailingZeros self.numLeaves)
    let total <- u64Add growth.currentNumLeaves growth.remainingNewLeaves
    new H (growth.stack.reverse ++ growth.unused) total

def version : Nat :=
  if self.numLeaves = 0 then 0 else self.numLeaves - 1

/-!
# Digits of the leaf count
-/

end InMemoryAccumulator

theorem trailingZeros_of_odd (h : n % 2 = 1) : trailingZeros n = 0 := by
  rw [trailingZeros, if_neg (by omega), if_pos h]

theorem trailingZeros_double (h : 0 < n) : trailingZeros (2 * n) = trailingZeros n + 1 := by
  rw [trailingZeros, if_neg (by omega), if_neg (by omega), Nat.mul_div_cancel_left n (by omega)]

theorem trailingZeros_mul_pow (j : Nat) (h : 0 < n) :
    trailingZeros (2 ^ j * n) = j + trailingZeros n := by
  induction j with
  | zero => simp
  | succ j ih =>
    rw [show 2 ^ (j + 1) * n = 2 * (2 ^ j * n) by ring,
      trailingZeros_double (Nat.mul_pos (Nat.two_pow_pos j) h), ih]
    omega

theorem eq_trailingZeros_mul_odd (h : 0 < n) : exists m, n = 2 ^ trailingZeros n * (2 * m + 1) := by
  induction n using binary_induction with
  | zero => omega
  | double n hn ih =>
    rcases ih hn with ⟨m, hm⟩
    refine ⟨m, ?_⟩
    rw [trailingZeros_double hn, Nat.pow_succ', mul_assoc, ← hm]
  | double_succ n => exact ⟨n, by rw [trailingZeros_of_odd (by omega)]; omega⟩

theorem and_two_pow_ne_zero_iff (n j : Nat) : n &&& 2 ^ j ≠ 0 <-> n / 2 ^ j % 2 = 1 := by
  rw [Nat.and_two_pow, Nat.testBit_eq_decide_div_mod_eq]
  have hpow := Nat.two_pow_pos j
  by_cases h : n / 2 ^ j % 2 = 1
  · simp [h]
  · simp [h]

namespace InMemoryAccumulator

variable {hash : Type} (H : TreeHasher hash)

def frozenRoots (leaves : List hash) : List hash :=
  (mountains H.internalNode H.placeholder 0 leaves.length leaves).reverse

variable {n count remaining current : Nat} {leaves roots stack subtrees : List hash}
  {result self : InMemoryAccumulator hash}

theorem mergeLast_eq_carry {width : Nat} (hn : n + 1 < 2 ^ width)
    (stack : List hash) (root : hash) :
    mergeLast H (trailingZeros (2 ^ width - 1 - n)) (root :: stack) =
      expect (carry H.internalNode stack n root) := by
  induction n using binary_induction generalizing width stack root with
  | zero =>
    cases width with
    | zero => simp at hn
    | succ width =>
      have hodd : (2 ^ (width + 1) - 1 - 0) % 2 = 1 := by
        rw [pow_succ] at hn ⊢
        omega
      rw [trailingZeros_of_odd hodd,
        show carry H.internalNode stack 0 root = some (root :: stack) from
          carry_double H.internalNode stack 0 root]
      rfl
  | double n =>
    cases width with
    | zero => simp at hn
    | succ width =>
      have hodd : (2 ^ (width + 1) - 1 - 2 * n) % 2 = 1 := by
        rw [pow_succ] at hn ⊢
        omega
      rw [trailingZeros_of_odd hodd, carry_double]
      rfl
  | double_succ n ih =>
    cases width with
    | zero => simp at hn
    | succ width =>
      have hwidth : n + 1 < 2 ^ width := by
        rw [pow_succ] at hn
        omega
      have heven : 2 ^ (width + 1) - 1 - (2 * n + 1) = 2 * (2 ^ width - 1 - n) := by
        rw [pow_succ]
        omega
      rw [heven, trailingZeros_double (by omega)]
      cases stack with
      | nil => simp [mergeLast, carry]
      | cons left rest =>
        rw [carry_double_succ_cons]
        exact ih hwidth rest (H.internalNode left root)

theorem appendOne_frozenRoots {leaf : hash} (hbound : leaves.length + 1 < u64Bound) :
    appendOne H (frozenRoots H leaves) leaves.length leaf =
      .ok (frozenRoots H (leaves ++ [leaf])) := by
  have hcarry := @carry_mountains _ H.internalNode H.placeholder 0
    leaves.length leaves [leaf] (by simp) rfl
  have hmerge := mergeLast_eq_carry H hbound
    (mountains H.internalNode H.placeholder 0 leaves.length leaves) leaf
  change mergeLast H (trailingZeros (complement leaves.length)) _ = _ at hmerge
  unfold appendOne frozenRoots
  simp only [reverse_reverse, hmerge]
  rw [show subtreeRoot H.internalNode H.placeholder 0 [leaf] = leaf from rfl]
    at hcarry
  rw [hcarry]
  simp

theorem appendLoop_frozenRoots {leaves rest} (hbound : leaves.length + rest.length < u64Bound) :
    appendLoop H rest (frozenRoots H leaves) leaves.length = .ok (frozenRoots H (leaves ++ rest),
        leaves.length + rest.length) := by
  induction rest generalizing leaves with
  | nil => simp [appendLoop]
  | cons leaf rest ih =>
    rw [length_cons] at hbound
    have hadd : (u64Add leaves.length 1 : Outcome AnyhowError Nat) =
      .ok (leaves.length + 1) := u64Add_eq_ok (by omega)
    have hih := @ih (leaves ++ [leaf]) (by rw [length_append]; simpa using by omega)
    rw [appendLoop, appendOne_frozenRoots H (by omega), ok_bind, hadd, ok_bind]
    rw [length_append, append_assoc] at hih
    simpa [add_assoc, add_comm 1 rest.length] using hih

/-!
# The root hash
-/

theorem countOnes_shift (hn : 0 < n) : countOnes (n / 2 ^ trailingZeros n) = countOnes n := by
  rcases eq_trailingZeros_mul_odd hn with ⟨m, hm⟩
  have hdiv : n / 2 ^ trailingZeros n = 2 * m + 1 :=
    Nat.div_eq_of_eq_mul_right (Nat.two_pow_pos _) hm
  rw [hdiv, ← countOnes_mul_pow (trailingZeros n) (2 * m + 1), ← hm]

theorem computeRootHash_eq_fold (hroots : 2 ≤ roots.length) : computeRootHash H roots n =
    expect (fold H.internalNode H.placeholder (n / 2 ^ trailingZeros n)
        roots.reverse H.placeholder) := by
  match roots with
  | [] => simp at hroots
  | [root] => simp at hroots
  | _ :: _ :: _ => rfl

theorem pos_of_countOnes (h : count = countOnes n) (hcount : 0 < count) : 0 < n := by
  apply Nat.pos_of_ne_zero
  rintro rfl
  rw [countOnes_zero] at h
  omega

theorem computeRootHash_succeeds (hroots : roots.length = countOnes n) :
    exists root, computeRootHash H roots n = .ok root := by
  by_cases hlength : 2 ≤ roots.length
  · have hn := pos_of_countOnes hroots (by omega)
    have hshift : roots.reverse.length = countOnes (n / 2 ^ trailingZeros n) := by
      rw [length_reverse, countOnes_shift hn, hroots]
    rcases fold_succeeds H.internalNode H.placeholder hshift H.placeholder with ⟨root, hroot⟩
    exact ⟨root, by rw [computeRootHash_eq_fold H hlength, hroot]; rfl⟩
  · match roots with
    | [] => exact ⟨_, rfl⟩
    | [root] => exact ⟨root, rfl⟩
    | _ :: _ :: _ => simp at hlength

theorem computeRootHash_injective (hnode : NodeInjective H.internalNode) {left right} {root : hash}
    (hleft : left.length = countOnes n) (hright : right.length = countOnes n)
    (hl : computeRootHash H left n = .ok root) (hr : computeRootHash H right n = .ok root) :
    left = right := by
  by_cases hlength : 2 ≤ left.length
  · have hn := pos_of_countOnes hleft (by omega)
    have hfold {roots : List hash} (hroots : roots.length = countOnes n)
      (h : computeRootHash H roots n = .ok root) :
      fold H.internalNode H.placeholder (n / 2 ^ trailingZeros n)
        roots.reverse H.placeholder = some root := by
      rw [computeRootHash_eq_fold H (by omega)] at h
      cases hfold : fold H.internalNode H.placeholder
          (n / 2 ^ trailingZeros n) roots.reverse H.placeholder with
      | none =>
        rw [hfold] at h
        cases h
      | some r =>
        rw [hfold] at h
        cases h
        rfl
    have hlists := (fold_injective hnode (by rw [length_reverse, countOnes_shift hn, hleft])
      (by rw [length_reverse, countOnes_shift hn, hright])
      (hfold hleft hl) (hfold hright hr)).left
    exact reverse_inj.mp hlists
  · have hsame : right.length = left.length := by rw [hleft, hright]
    match left, right with
    | [], [] => rfl
    | [x], [y] =>
      cases hl
      cases hr
      rfl
    | [], _ :: _ => simp at hsame
    | [_], [] => simp at hsame
    | [_], _ :: _ :: _ => simp at hsame
    | _ :: _ :: _, _ => simp at hlength

theorem length_frozenRoots (leaves : List hash) :
    (frozenRoots H leaves).length = countOnes leaves.length := by
  rw [frozenRoots, length_reverse, length_mountains]

theorem frozenRoots_injective (hnode : NodeInjective H.internalNode) {xs ys}
    (hlength : xs.length = ys.length) (h : frozenRoots H xs = frozenRoots H ys) : xs = ys := by
  unfold frozenRoots at h
  rw [hlength] at h
  exact mountains_injective hnode (by rw [hlength]; simp) (by simp) (reverse_inj.mp h)

theorem new_eq_ok_iff : new H roots n = .ok result <->
    roots.length = countOnes n ∧ result.frozenSubtreeRoots = roots ∧ result.numLeaves = n ∧
      computeRootHash H roots n = .ok result.rootHash := by
  unfold new
  constructor
  · intro h
    rcases of_bind h with ⟨_, hensure, h⟩
    rcases of_bind h with ⟨root, hroot, h⟩
    cases h
    exact ⟨ensure_eq_ok_iff.mp hensure, rfl, rfl, hroot⟩
  · rcases result with ⟨roots', n', _⟩
    rintro ⟨hlength, rfl, rfl, hroot⟩
    rw [ensure_eq_ok_iff.mpr hlength, ok_bind]
    change (computeRootHash H roots' n' >>= _) = _
    rw [hroot]
    rfl

theorem new_ne_panic (roots : List hash) (n : Nat) : new H roots n ≠ .panic := by
  unfold new
  by_cases hlength : roots.length = countOnes n
  · rcases computeRootHash_succeeds H hlength with ⟨_, hroot⟩
    rw [ensure_eq_ok_iff.mpr hlength, hroot]
    simp
  · rw [ensure, if_neg hlength]
    simp

theorem fromLeaves_eq_ok_iff (hbound : leaves.length < u64Bound) :
    fromLeaves H leaves = .ok result <-> result.frozenSubtreeRoots = frozenRoots H leaves ∧
        result.numLeaves = leaves.length ∧
        computeRootHash H (frozenRoots H leaves) leaves.length = .ok result.rootHash := by
  have hempty : default H = .ok
    { frozenSubtreeRoots := []
      numLeaves := 0
      rootHash := H.placeholder } := by
    unfold default
    have hnew : new H [] 0 = .ok ⟨[], 0, H.placeholder⟩ :=
      (new_eq_ok_iff H).mpr ⟨by rw [countOnes_zero]; rfl, rfl, rfl, rfl⟩
    rw [hnew]
    rfl
  have hloop := @appendLoop_frozenRoots _ H [] leaves (by simpa using hbound)
  have hnil : frozenRoots H [] = [] := by simp [frozenRoots]
  rw [hnil, nil_append, length_nil, zero_add] at hloop
  rcases computeRootHash_succeeds H (length_frozenRoots H leaves) with ⟨root, hroot⟩
  have hnew : new H (frozenRoots H leaves) leaves.length = .ok
    { frozenSubtreeRoots := frozenRoots H leaves
      numLeaves := leaves.length
      rootHash := root } :=
    (new_eq_ok_iff H).mpr ⟨length_frozenRoots H leaves, rfl, rfl, hroot⟩
  unfold fromLeaves append
  rw [hempty, ok_bind, hloop, ok_bind, hroot]
  change (new H (frozenRoots H leaves) leaves.length).unwrap = _ <-> _
  rw [hnew, Outcome.unwrap_ok, Outcome.ok.injEq, Outcome.ok.injEq]
  constructor
  · rintro rfl
    exact ⟨rfl, rfl, rfl⟩
  · rcases result with ⟨_, _, _⟩
    rintro ⟨rfl, rfl, rfl⟩
    rfl

/-!
# Appending subtrees
-/

omit H in
theorem double_mask {j : Nat} (hcount : count < 2 ^ 63) (hodd : count / 2 ^ j % 2 = 1) :
    2 ^ j * 2 % u64Bound = 2 ^ (j + 1) := by
  have hj : j < 63 := by
    by_contra hge
    have hpow : 2 ^ 63 ≤ 2 ^ j := Nat.pow_le_pow_right (by omega) (by omega)
    rw [Nat.div_eq_of_lt (by omega)] at hodd
    omega
  rw [← pow_succ, Nat.mod_eq_of_lt]
  exact Nat.pow_lt_pow_right (by omega) (by omega)

theorem carryLoop_eq_carry {j : Nat} (hcount : count < 2 ^ 63) (hn : count / 2 ^ j = n) {rest}
    {mask : Nat} {subtree root : hash}
    (h : carryLoop H count stack (2 ^ j) subtree = .ok (rest, mask, root)) :
    carry H.internalNode stack n subtree = some (root :: rest) ∧
      mask = 2 ^ (j + trailingZeros (n + 1)) := by
  induction stack generalizing j n subtree with
  | nil =>
    by_cases hodd : n % 2 = 1
    · rw [carryLoop, if_pos ((and_two_pow_ne_zero_iff count j).mpr (by rw [hn]; exact hodd))] at h
      cases h
    · rw [carryLoop, if_neg (mt (and_two_pow_ne_zero_iff count j).mp (by rw [hn]; exact hodd))] at h
      cases h
      rw [trailingZeros_of_odd (by omega)]
      exact ⟨by simp [carry, hodd], rfl⟩
  | cons left stack ih =>
    by_cases hodd : n % 2 = 1
    · rw [carryLoop, if_pos ((and_two_pow_ne_zero_iff count j).mpr (by rw [hn]; exact hodd))] at h
      rw [double_mask hcount (by omega)] at h
      have hhalf : count / 2 ^ (j + 1) = n / 2 := by rw [pow_succ, ← Nat.div_div_eq_div_mul, hn]
      rcases ih hhalf h with ⟨hcarry, hmask'⟩
      refine ⟨by rw [carry, if_pos hodd]; exact hcarry, ?_⟩
      rw [hmask', show n + 1 = 2 * (n / 2 + 1) by omega,
        trailingZeros_double (by omega)]
      congr 1
      omega
    · rw [carryLoop, if_neg (mt (and_two_pow_ne_zero_iff count j).mp (by rw [hn]; exact hodd))] at h
      cases h
      rw [trailingZeros_of_odd (by omega)]
      exact ⟨by rw [carry, if_neg hodd], rfl⟩

theorem carryLoop_succeeds {count j n : Nat} (hcount : count < 2 ^ 63) (hn : count / 2 ^ j = n)
    {stack} {subtree : hash} (hstack : stack.length = countOnes n) :
    exists result, carryLoop H count stack (2 ^ j) subtree = .ok result := by
  induction stack generalizing j n subtree with
  | nil =>
    have hzero : n = 0 := by
      by_contra hne
      have hpos := countOnes_pos (Nat.pos_of_ne_zero hne)
      simp at hstack
      omega
    rw [carryLoop, if_neg (mt (and_two_pow_ne_zero_iff count j).mp (by rw [hn, hzero]; decide))]
    exact ⟨_, rfl⟩
  | cons left stack ih =>
    by_cases hodd : n % 2 = 1
    · have hones : countOnes n = countOnes (n / 2) + 1 := by
        rw [← countOnes_double_succ, show 2 * (n / 2) + 1 = n by omega]
      rw [length_cons, hones] at hstack
      rw [carryLoop, if_pos ((and_two_pow_ne_zero_iff count j).mpr
        (by rw [hn]; exact hodd)), double_mask hcount (by omega)]
      have hhalf : count / 2 ^ (j + 1) = n / 2 := by rw [pow_succ, ← Nat.div_div_eq_div_mul, hn]
      exact ih hhalf (by omega)
    · rw [carryLoop, if_neg (mt (and_two_pow_ne_zero_iff count j).mp (by rw [hn]; exact hodd))]
      exact ⟨_, rfl⟩

theorem growLoop_done {size : Nat} (h : ¬ size ≤ remaining)
    (subtrees stack : List hash) (current : Nat) :
    growLoop H subtrees stack current remaining size = .ok
      { stack := stack
        currentNumLeaves := current
        remainingNewLeaves := remaining
        unused := subtrees } := by
  cases subtrees with
  | nil | cons => rw [growLoop, if_neg h]

theorem growLoop_step (hpos : 0 < current) (hbound : current + remaining ≤ maxAccumulatorLeaves)
    (hstack : stack.length = countOnes current) (hsize : 2 ^ trailingZeros current ≤ remaining)
    (subtree : hash) (subtrees : List hash) :
    exists stack' : List hash, carry H.internalNode stack (current / 2 ^ trailingZeros current)
        subtree = some stack' ∧ stack'.length = countOnes (current + 2 ^ trailingZeros current) ∧
      growLoop H (subtree :: subtrees) stack current remaining (2 ^ trailingZeros current) =
        growLoop H subtrees stack' (current + 2 ^ trailingZeros current)
          (remaining - 2 ^ trailingZeros current)
          (2 ^ trailingZeros (current + 2 ^ trailingZeros current)) := by
  rcases eq_trailingZeros_mul_odd hpos with ⟨m, hm⟩
  generalize trailingZeros current = j at *
  unfold maxAccumulatorLeaves maxAccumulatorProofDepth at hbound
  have hjpos := Nat.two_pow_pos j
  have hdiv : current / 2 ^ j = 2 * m + 1 := Nat.div_eq_of_eq_mul_right hjpos hm
  have hnext : current + 2 ^ j = 2 ^ j * (2 * m + 1 + 1) := by
    rw [hm]
    ring
  have hones : stack.length = countOnes (2 * m + 1) := by rw [hstack, hm, countOnes_mul_pow]
  rcases @carryLoop_succeeds _ H current j _ (by omega) hdiv stack subtree
    hones with ⟨⟨rest, mask, root⟩, hloop⟩
  rcases carryLoop_eq_carry H (by omega) hdiv hloop with ⟨hcarry, hmask⟩
  have hadd : (u64Add current (2 ^ j) : Outcome AnyhowError Nat) = .ok (current + 2 ^ j) :=
    u64Add_eq_ok (by unfold u64Bound; omega)
  have hsub : (u64Sub remaining (2 ^ j) : Outcome AnyhowError Nat) =
    .ok (remaining - 2 ^ j) := u64Sub_eq_ok hsize
  have hmask' : mask = 2 ^ trailingZeros (current + 2 ^ j) := by
    rw [hmask, hnext, trailingZeros_mul_pow j (by omega)]
  refine ⟨root :: rest, by rw [hdiv]; exact hcarry, ?_, ?_⟩
  · rw [length_carry H.internalNode hones hcarry, hnext, countOnes_mul_pow]
  · rw [growLoop, if_pos hsize]
    simp only [hloop, hadd, hsub, ok_bind, hmask']

/-- What is known about the state in which the outer loop of `append_subtrees`
ends, relative to the state it started from. -/
structure GrownFrom (stack : List hash) (current remaining : Nat)
    (growth : Growth hash) : Prop where
  total : growth.currentNumLeaves + growth.remainingNewLeaves = current + remaining
  positive : 0 < growth.currentNumLeaves
  small : growth.remainingNewLeaves < 2 ^ trailingZeros growth.currentNumLeaves
  length : growth.stack.length = countOnes growth.currentNumLeaves
  le : current ≤ growth.currentNumLeaves
  undo : NodeInjective H.internalNode -> forall leaves : List hash,
    leaves.length = growth.currentNumLeaves ->
    growth.stack = mountains H.internalNode H.placeholder 0 growth.currentNumLeaves leaves ->
    stack = mountains H.internalNode H.placeholder 0 current (leaves.take current)

theorem GrownFrom.refl (hpos : 0 < current) (hstack : stack.length = countOnes current)
    (hsize : ¬ 2 ^ trailingZeros current ≤ remaining) (unused : List hash) :
    GrownFrom H stack current remaining
      { stack := stack
        currentNumLeaves := current
        remainingNewLeaves := remaining
        unused := unused } where
  total := rfl
  positive := hpos
  small := by simpa using hsize
  length := hstack
  le := le_refl _
  undo := by
    intro _ _ hlvs _
    rwa [take_of_length_le (by simpa using hlvs.le)]

omit H in
theorem u64Add_total (hbound : current + remaining ≤ maxAccumulatorLeaves) :
    (u64Add current remaining : Outcome AnyhowError Nat) = .ok (current + remaining) :=
  u64Add_eq_ok (lt_u64Bound_of_le hbound)

theorem growLoop_grownFrom {growth} (hpos : 0 < current)
    (hbound : current + remaining ≤ maxAccumulatorLeaves)
    (hstack : stack.length = countOnes current)
    (h : growLoop H subtrees stack current remaining (2 ^ trailingZeros current) = .ok growth) :
    GrownFrom H stack current remaining growth := by
  induction subtrees generalizing stack current remaining with
  | nil =>
    rw [growLoop] at h
    split at h
    · cases h
    · next hsize =>
        cases h
        exact GrownFrom.refl H hpos hstack hsize []
  | cons subtree subtrees ih =>
    by_cases hsize : 2 ^ trailingZeros current ≤ remaining
    · rcases growLoop_step H hpos hbound hstack hsize subtree subtrees with
        ⟨stack', hcarry, hlength, hstep⟩
      have hpow := Nat.two_pow_pos (trailingZeros current)
      rw [hstep] at h
      have hgrown := ih (by omega) (by omega) hlength h
      have htot := hgrown.total
      have hle := hgrown.le
      exact { hgrown with
          total := by omega
          le := by omega
          undo := by
            intro hnode leaves hlvs hstack'
            have hundo := hgrown.undo hnode leaves hlvs hstack'
            rcases eq_trailingZeros_mul_odd hpos with ⟨m, hm⟩
            generalize trailingZeros current = j at *
            have hnext : current + 2 ^ j = 2 ^ j * (2 * m + 1 + 1) := by
              rw [hm]
              ring
            have hlen : (leaves.take (current + 2 ^ j)).length = (2 * m + 1 + 1) * 2 ^ j := by
              rw [length_take, hlvs, min_eq_left hle, hnext]
              ring
            have hones : stack.length = countOnes (2 * m + 1) := by
              rw [hstack, hm, countOnes_mul_pow]
            rw [Nat.div_eq_of_eq_mul_right (Nat.two_pow_pos j) hm] at hcarry
            rw [hnext, mountains_mul_pow, zero_add, ← hnext] at hundo
            have hinv := (carry_eq_mountains hnode hlen hones (by rw [hcarry, hundo])).left
            rw [take_take, mul_comm _ (2 ^ j), ← hm, min_eq_left (by omega)] at hinv
            rw [hinv]
            conv_rhs => rw [hm, mountains_mul_pow, zero_add, ← hm] }
    · rw [growLoop_done H hsize] at h
      cases h
      exact GrownFrom.refl H hpos hstack hsize _

theorem growLoop_ne_panic (hpos : 0 < current) (hbound : current + remaining ≤ maxAccumulatorLeaves)
    (hstack : stack.length = countOnes current) :
    growLoop H subtrees stack current remaining (2 ^ trailingZeros current) ≠ .panic := by
  induction subtrees generalizing stack current remaining with
  | nil =>
    rw [growLoop]
    split <;> simp
  | cons subtree subtrees ih =>
    by_cases hsize : 2 ^ trailingZeros current ≤ remaining
    · rcases growLoop_step H hpos hbound hstack hsize subtree subtrees with
        ⟨stack', _, hlength, hstep⟩
      have hpow := Nat.two_pow_pos (trailingZeros current)
      rw [hstep]
      exact ih (by omega) (by omega) hlength
    · rw [growLoop_done H hsize]
      simp

theorem appendSubtrees_eq_ok {self result : InMemoryAccumulator hash}
    {subtrees : List hash} {numNewLeaves : Nat} (hpos : 0 < self.numLeaves)
    (hself : self.frozenSubtreeRoots.length = countOnes self.numLeaves)
    (h : self.appendSubtrees H subtrees numNewLeaves = .ok result) :
    exists growth : Growth hash, growLoop H subtrees self.frozenSubtreeRoots.reverse self.numLeaves
        numNewLeaves (2 ^ trailingZeros self.numLeaves) = .ok growth ∧
      GrownFrom H self.frozenSubtreeRoots.reverse self.numLeaves numNewLeaves growth ∧
      new H (growth.stack.reverse ++ growth.unused) (self.numLeaves + numNewLeaves) =
        .ok result := by
  unfold appendSubtrees at h
  rcases of_bind h with ⟨room, hroom, h⟩
  rcases of_bind h with ⟨_, hensure, h⟩
  rw [if_neg (by omega)] at h
  rcases of_bind h with ⟨growth, hgrow, h⟩
  rcases of_bind h with ⟨total, htot, h⟩
  have hbound : self.numLeaves + numNewLeaves ≤ maxAccumulatorLeaves := by
    have hnew := ensure_eq_ok_iff.mp hensure
    unfold u64Sub at hroom
    split at hroom
    · cases hroom
      omega
    · cases hroom
  have hgrown := growLoop_grownFrom H hpos hbound (by rw [length_reverse, hself]) hgrow
  refine ⟨growth, hgrow, hgrown, ?_⟩
  rw [u64Add_total (by rw [hgrown.total]; exact hbound)] at htot
  cases htot
  rw [← hgrown.total]
  exact h

theorem appendSubtrees_ne_panic (hself : self.frozenSubtreeRoots.length = countOnes self.numLeaves)
    (hmax : self.numLeaves ≤ maxAccumulatorLeaves) (subtrees : List hash) (numNewLeaves : Nat) :
    self.appendSubtrees H subtrees numNewLeaves ≠ .panic := by
  unfold appendSubtrees
  rw [u64Sub_eq_ok hmax, ok_bind]
  by_cases hroom : numNewLeaves ≤ maxAccumulatorLeaves - self.numLeaves
  · rw [ensure_eq_ok_iff.mpr hroom, ok_bind]
    split
    · exact new_ne_panic H _ _
    · next hpos =>
        have hbound : self.numLeaves + numNewLeaves ≤ maxAccumulatorLeaves := by
          omega
        have hstack : self.frozenSubtreeRoots.reverse.length = countOnes self.numLeaves := by
          rw [length_reverse, hself]
        intro hpanic
        rcases bind_eq_panic_iff.mp hpanic with hloop | h
        · exact growLoop_ne_panic H (Nat.pos_of_ne_zero hpos) hbound hstack hloop
        · rcases h with ⟨_, hgrow, h⟩
          have hgrown := growLoop_grownFrom H (Nat.pos_of_ne_zero hpos) hbound hstack hgrow
          rw [u64Add_total (by rw [hgrown.total]; exact hbound), ok_bind] at h
          exact new_ne_panic H _ _ h
  · rw [ensure, if_neg hroom]
    simp

theorem appendSubtrees_undo (hnode : NodeInjective H.internalNode) {numNewLeaves : Nat}
    (hpos : 0 < self.numLeaves) (hself : self.frozenSubtreeRoots.length = countOnes self.numLeaves)
    (h : self.appendSubtrees H subtrees numNewLeaves = .ok result)
    (hlength : leaves.length = self.numLeaves + numNewLeaves)
    (hroots : result.frozenSubtreeRoots = frozenRoots H leaves) :
    self.frozenSubtreeRoots = frozenRoots H (leaves.take self.numLeaves) := by
  rcases appendSubtrees_eq_ok H hpos hself h with ⟨growth, _, hgrown, hnew⟩
  rcases (new_eq_ok_iff H).mp hnew with ⟨_, hres, _, _⟩
  have htot := hgrown.total
  have hle := hgrown.le
  rcases eq_trailingZeros_mul_odd hgrown.positive with ⟨m, hm⟩
  have hcount : leaves.length = 2 ^ trailingZeros growth.currentNumLeaves * (2 * m + 1) +
      growth.remainingNewLeaves := by
    rw [← hm, htot, hlength]
  have hmountains := mountains_split H.internalNode H.placeholder
    (trailingZeros growth.currentNumLeaves) hgrown.small
    (by rw [pow_zero, mul_one]; exact hcount)
  rw [mul_comm (2 * m + 1), zero_add, ← hm] at hmountains
  have hfrozen : mountains H.internalNode H.placeholder
    (trailingZeros growth.currentNumLeaves) (2 * m + 1)
    (leaves.take growth.currentNumLeaves) =
    mountains H.internalNode H.placeholder 0 growth.currentNumLeaves
      (leaves.take growth.currentNumLeaves) := by
    conv_rhs => rw [hm, mountains_mul_pow, zero_add, ← hm]
  rw [hres, frozenRoots, hcount, ← hm, hmountains, hfrozen, reverse_append] at hroots
  have hstack := (append_inj hroots (by
    rw [length_reverse, length_reverse, hgrown.length, length_mountains])).left
  have hundo := hgrown.undo hnode (leaves.take growth.currentNumLeaves)
    (by rw [length_take]; omega) (reverse_inj.mp hstack)
  rw [take_take, min_eq_left hle] at hundo
  have hlen : (leaves.take self.numLeaves).length = self.numLeaves := by
    rw [length_take]
    omega
  rw [frozenRoots, hlen, ← hundo, reverse_reverse]

end InMemoryAccumulator

end OpenLibra.Accumulator
