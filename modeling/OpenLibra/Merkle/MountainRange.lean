import Mathlib.Data.Nat.Bits
import Mathlib.Tactic.Ring

/-!
# Mountain ranges of perfect binary trees

`n` leaves are cut into perfect trees whose sizes are the binary digits of `n`.  Their roots form
a stack with the smallest tree on top.
-/

namespace OpenLibra.Merkle

open List

/-!
# Binary digits
-/

def countOnes (n : Nat) : Nat := if n = 0 then 0 else n % 2 + countOnes (n / 2)

theorem countOnes_zero : countOnes 0 = 0 := by simp [countOnes]

theorem countOnes_eq (n : Nat) : countOnes n = n % 2 + countOnes (n / 2) := by
  by_cases hn : n = 0
  · rw [hn, countOnes_zero]
  · rw [countOnes, if_neg hn]

theorem countOnes_double (n : Nat) : countOnes (2 * n) = countOnes n := by
  by_cases hn : n = 0
  · simp [hn]
  · rw [countOnes, if_neg (by omega), Nat.mul_mod_right, zero_add,
      Nat.mul_div_cancel_left n (by omega)]

theorem countOnes_double_succ (n : Nat) : countOnes (2 * n + 1) = countOnes n + 1 := by
  rw [countOnes, if_neg (by omega), show (2 * n + 1) % 2 = 1 by omega,
    show (2 * n + 1) / 2 = n by omega, add_comm]

theorem countOnes_mul_pow (j n : Nat) : countOnes (2 ^ j * n) = countOnes n := by
  induction j with
  | zero => simp
  | succ j ih => rw [show 2 ^ (j + 1) * n = 2 * (2 ^ j * n) by ring, countOnes_double, ih]

theorem binary_induction {motive : Nat -> Prop} (zero : motive 0)
    (double : forall n, 0 < n -> motive n -> motive (2 * n))
    (double_succ : forall n, motive n -> motive (2 * n + 1)) (n : Nat) : motive n := by
  induction n using Nat.strong_induction_on with
  | _ n ih =>
    by_cases hn : n = 0
    · rw [hn]
      exact zero
    · rcases Nat.mod_two_eq_zero_or_one n with hmod | hmod
      · rw [show n = 2 * (n / 2) by omega]
        exact double (n / 2) (by omega) (ih (n / 2) (by omega))
      · rw [show n = 2 * (n / 2) + 1 by omega]
        exact double_succ (n / 2) (ih (n / 2) (by omega))

theorem countOnes_pos {n : Nat} (h : 0 < n) : 0 < countOnes n := by
  induction n using binary_induction with
  | zero => omega
  | double n hn ih =>
    rw [countOnes_double]
    exact ih hn
  | double_succ =>
    rw [countOnes_double_succ]
    omega

theorem countOnes_split (n k : Nat) :
    countOnes n = countOnes (n % 2 ^ k) + countOnes (n / 2 ^ k) := by
  induction k generalizing n with
  | zero => simp [Nat.mod_one, countOnes_zero]
  | succ k ih =>
    have hmod : n % 2 ^ (k + 1) = n % 2 + 2 * (n / 2 % 2 ^ k) := by rw [Nat.pow_succ', Nat.mod_mul]
    have hdiv : n / 2 ^ (k + 1) = n / 2 / 2 ^ k := by rw [Nat.pow_succ', Nat.div_div_eq_div_mul]
    rw [countOnes_eq n, ih (n / 2), countOnes_eq (n % 2 ^ (k + 1)), hdiv,
      show n % 2 ^ (k + 1) % 2 = n % 2 by omega,
      show n % 2 ^ (k + 1) / 2 = n / 2 % 2 ^ k by omega]
    omega

section

variable {hash : Type} (node : hash -> hash -> hash) (filler : hash)

/-- Root of the perfect tree of height `k` over `2 ^ k` leaves. -/
def subtreeRoot : Nat -> List hash -> hash
  | 0, leaves => leaves.headD filler
  | k + 1, leaves =>
    node (subtreeRoot k (leaves.take (2 ^ k))) (subtreeRoot k (leaves.drop (2 ^ k)))

theorem subtreeRoot_append {k : Nat} {left right} (hleft : left.length = 2 ^ k) :
    subtreeRoot node filler (k + 1) (left ++ right) = node (subtreeRoot node filler k left)
        (subtreeRoot node filler k right) := by
  rw [subtreeRoot, take_left' hleft, drop_left' hleft]

/-!
# The stack of roots
-/

def mountains (k n : Nat) (leaves : List hash) : List hash :=
  if n = 0 then
    []
  else if n % 2 = 1 then
    subtreeRoot node filler k (leaves.drop (n / 2 * 2 ^ (k + 1))) ::
      mountains (k + 1) (n / 2) (leaves.take (n / 2 * 2 ^ (k + 1)))
  else
    mountains (k + 1) (n / 2) leaves
termination_by n

@[simp] theorem mountains_zero (k : Nat) (leaves : List hash) :
    mountains node filler k 0 leaves = [] := by
  simp [mountains]

variable (k n : Nat) (leaves : List hash)

theorem mountains_double : mountains node filler k (2 * n) leaves =
    mountains node filler (k + 1) n leaves := by
  by_cases hn : n = 0
  · simp [hn]
  · rw [mountains, if_neg (by omega), if_neg (by omega), Nat.mul_div_cancel_left n (by omega)]

theorem mountains_double_succ : mountains node filler k (2 * n + 1) leaves =
    subtreeRoot node filler k (leaves.drop (n * 2 ^ (k + 1))) ::
      mountains node filler (k + 1) n (leaves.take (n * 2 ^ (k + 1))) := by
  rw [mountains, if_neg (by omega), if_pos (by omega), show (2 * n + 1) / 2 = n by omega]

theorem mountains_mul_pow (j k n : Nat) (leaves : List hash) :
    mountains node filler k (2 ^ j * n) leaves = mountains node filler (k + j) n leaves := by
  induction j generalizing k with
  | zero => simp
  | succ j ih =>
    rw [show 2 ^ (j + 1) * n = 2 * (2 ^ j * n) by ring, mountains_double,
      ih, show k + 1 + j = k + (j + 1) by omega]

theorem length_mountains : (mountains node filler k n leaves).length = countOnes n := by
  induction n using binary_induction generalizing k leaves with
  | zero => simp [countOnes_zero]
  | double n _ ih => rw [mountains_double, countOnes_double, ih]
  | double_succ n ih => rw [mountains_double_succ, countOnes_double_succ, length_cons, ih]

theorem mountains_split (j : Nat) {k q r : Nat} {leaves}
    (hr : r < 2 ^ j) (hlvs : leaves.length = (2 ^ j * q + r) * 2 ^ k) :
    mountains node filler k (2 ^ j * q + r) leaves =
      mountains node filler k r (leaves.drop (q * 2 ^ (k + j))) ++
        mountains node filler (k + j) q (leaves.take (q * 2 ^ (k + j))) := by
  induction j generalizing k r leaves with
  | zero =>
    have hzero : r = 0 := by simpa using hr
    subst hzero
    rw [take_of_length_le (by simp [hlvs])]
    simp
  | succ j ih =>
    have hpow : 2 ^ (j + 1) * q = 2 * (2 ^ j * q) := by ring
    have hhalf : r / 2 < 2 ^ j := by
      rw [pow_succ] at hr
      omega
    rw [show k + (j + 1) = k + 1 + j by omega]
    rcases Nat.mod_two_eq_zero_or_one r with hmod | hmod
    · have hcount : 2 ^ (j + 1) * q + r = 2 * (2 ^ j * q + r / 2) := by omega
      have hrest : mountains node filler k r (leaves.drop (q * 2 ^ (k + 1 + j))) =
          mountains node filler (k + 1) (r / 2)
            (leaves.drop (q * 2 ^ (k + 1 + j))) := by
        rw [← mountains_double, show 2 * (r / 2) = r by omega]
      rw [hcount, mountains_double, hrest]
      refine ih hhalf ?_
      rw [hlvs, hcount]
      ring
    · have hcount : 2 ^ (j + 1) * q + r = 2 * (2 ^ j * q + r / 2) + 1 := by
        omega
      have hlower : (2 ^ j * q + r / 2) * 2 ^ (k + 1) =
        q * 2 ^ (k + 1 + j) + r / 2 * 2 ^ (k + 1) := by
        ring
      have hlength : leaves.length = (2 ^ j * q + r / 2) * 2 ^ (k + 1) + 2 ^ k := by
        rw [hlvs, hcount]
        ring
      have hcut : (leaves.take ((2 ^ j * q + r / 2) * 2 ^ (k + 1))).length =
          (2 ^ j * q + r / 2) * 2 ^ (k + 1) := by
        rw [length_take, hlength]
        exact min_eq_left (Nat.le_add_right _ _)
      have hrest := mountains_double_succ node filler k (r / 2) (leaves.drop (q * 2 ^ (k + 1 + j)))
      rw [show 2 * (r / 2) + 1 = r by omega, drop_drop, ← hlower]
        at hrest
      rw [hcount, mountains_double_succ, ih hhalf hcut, hrest,
        take_take, min_eq_left (by omega), drop_take, hlower,
        Nat.add_sub_cancel_left]
      rfl

/-!
# The carry
-/

def carry : List hash -> Nat -> hash -> Option (List hash)
  | [], n, root => if n % 2 = 1 then none else some [root]
  | left :: rest, n, root =>
    if n % 2 = 1 then
      carry rest (n / 2) (node left root)
    else
      some (root :: left :: rest)

theorem carry_double (stack : List hash) (n : Nat) (root : hash) :
    carry node stack (2 * n) root = some (root :: stack) := by
  cases stack <;> simp [carry]

theorem carry_double_succ_cons (left : hash) (rest : List hash) (n : Nat) (root : hash) :
    carry node (left :: rest) (2 * n + 1) root = carry node rest n (node left root) := by
  rw [carry, if_pos (by omega), show (2 * n + 1) / 2 = n by omega]

theorem length_carry {stack : List hash} {n : Nat} {root : hash} {result : List hash}
    (hstack : stack.length = countOnes n) (h : carry node stack n root = some result) :
    result.length = countOnes (n + 1) := by
  induction n using binary_induction generalizing stack root with
  | zero =>
    rw [show carry node stack 0 root = some (root :: stack) from
      carry_double node stack 0 root] at h
    cases h
    rw [length_cons, hstack]
    exact (countOnes_double_succ 0).symm
  | double =>
    rw [carry_double] at h
    cases h
    rw [length_cons, hstack, countOnes_double, countOnes_double_succ]
  | double_succ n ih =>
    rw [countOnes_double_succ] at hstack
    cases stack with
    | nil => simp at hstack
    | cons =>
      rw [carry_double_succ_cons] at h
      rw [show 2 * n + 1 + 1 = 2 * (n + 1) by omega, countOnes_double]
      exact ih (by simpa using hstack) h

theorem carry_mountains {k n : Nat} {leaves block : List hash}
    (hlvs : leaves.length = n * 2 ^ k) (hblock : block.length = 2 ^ k) :
    carry node (mountains node filler k n leaves) n (subtreeRoot node filler k block) =
      some (mountains node filler k (n + 1) (leaves ++ block)) := by
  induction n using binary_induction generalizing k leaves block with
  | zero =>
    have hnil : leaves = [] := by simpa using hlvs
    have h := mountains_double_succ node filler k 0 block
    simpa [hnil, carry] using h.symm
  | double n =>
    have hcut : leaves.length = n * 2 ^ (k + 1) := by
      rw [hlvs]
      ring
    rw [carry_double, mountains_double, mountains_double_succ, drop_left' hcut, take_left' hcut]
  | double_succ n ih =>
    have hlen : leaves.length = n * 2 ^ (k + 1) + 2 ^ k := by
      rw [hlvs]
      ring
    have htake : (leaves.take (n * 2 ^ (k + 1))).length = n * 2 ^ (k + 1) := by
      rw [length_take]
      omega
    have hdrop : (leaves.drop (n * 2 ^ (k + 1))).length = 2 ^ k := by
      rw [length_drop]
      omega
    have hpair : (leaves.drop (n * 2 ^ (k + 1)) ++ block).length = 2 ^ (k + 1) := by
      rw [length_append, hdrop, hblock]
      ring
    rw [mountains_double_succ, carry_double_succ_cons,
      ← subtreeRoot_append node filler hdrop, ih htake hpair,
      ← append_assoc, take_append_drop,
      show 2 * n + 1 + 1 = 2 * (n + 1) by omega, mountains_double]

/-!
# Folding the stack
-/

def fold (padding : hash) (n : Nat) (stack : List hash) (current : hash) : Option hash :=
  if n = 0 then
    some current
  else if n % 2 = 1 then
    match stack with
    | [] => none
    | root :: rest => fold padding (n / 2) rest (node root current)
  else
    fold padding (n / 2) stack (node current padding)
termination_by n

variable (padding : hash)

@[simp] theorem fold_zero (stack : List hash) (current : hash) :
    fold node padding 0 stack current = some current := by
  rw [fold.eq_def, if_pos rfl]

theorem fold_double {n : Nat} (hn : 0 < n) (stack : List hash) (current : hash) :
    fold node padding (2 * n) stack current = fold node padding n stack (node current padding) := by
  rw [fold.eq_def, if_neg (by omega), if_neg (by omega), Nat.mul_div_cancel_left n (by omega)]

theorem fold_double_succ_cons (n : Nat) (root : hash) (rest : List hash) (current : hash) :
    fold node padding (2 * n + 1) (root :: rest) current =
      fold node padding n rest (node root current) := by
  rw [fold.eq_def, if_neg (by omega), if_pos (by omega), show (2 * n + 1) / 2 = n by omega]

theorem fold_succeeds {n : Nat} {stack : List hash}
    (hlength : stack.length = countOnes n) (current : hash) :
    exists root, fold node padding n stack current = some root := by
  induction n using binary_induction generalizing stack current with
  | zero => exact ⟨current, by simp⟩
  | double n hn ih =>
    rw [countOnes_double] at hlength
    rw [fold_double node padding hn]
    exact ih hlength _
  | double_succ n ih =>
    rw [countOnes_double_succ] at hlength
    cases stack with
    | nil => simp at hlength
    | cons =>
      rw [fold_double_succ_cons]
      exact ih (by simpa using hlength) _

end

/-!
# Inverting the operations
-/

variable {hash : Type} {node : hash -> hash -> hash} {filler : hash}

/-- The node function is injective in the pair of its arguments. -/
def NodeInjective (node : hash -> hash -> hash) : Prop :=
  forall a b c d, node a b = node c d -> a = c ∧ b = d

theorem subtreeRoot_injective (hnode : NodeInjective node) {k : Nat}
    {xs ys} (hxs : xs.length = 2 ^ k) (hys : ys.length = 2 ^ k)
    (h : subtreeRoot node filler k xs = subtreeRoot node filler k ys) : xs = ys := by
  induction k generalizing xs ys with
  | zero =>
    rcases length_eq_one_iff.mp hxs with ⟨x, rfl⟩
    rcases length_eq_one_iff.mp hys with ⟨y, rfl⟩
    simpa [subtreeRoot] using h
  | succ k ih =>
    rw [pow_succ] at hxs hys
    rcases hnode _ _ _ _ h with ⟨hleft, hright⟩
    have htake := ih (by rw [length_take]; omega)
      (by rw [length_take]; omega) hleft
    have hdrop := ih (by rw [length_drop]; omega)
      (by rw [length_drop]; omega) hright
    rw [← take_append_drop (2 ^ k) xs, htake, hdrop, take_append_drop]

theorem mountains_injective (hnode : NodeInjective node) {k n : Nat} {xs ys : List hash}
    (hxs : xs.length = n * 2 ^ k) (hys : ys.length = n * 2 ^ k)
    (h : mountains node filler k n xs = mountains node filler k n ys) : xs = ys := by
  induction n using binary_induction generalizing k xs ys with
  | zero =>
    rw [zero_mul] at hxs hys
    rw [length_eq_zero_iff.mp hxs, length_eq_zero_iff.mp hys]
  | double n _ ih =>
    rw [mountains_double, mountains_double] at h
    refine ih ?_ ?_ h
    · rw [hxs]
      ring
    · rw [hys]
      ring
  | double_succ n ih =>
    rw [mountains_double_succ, mountains_double_succ] at h
    injection h with hroot hrest
    have hsplit : (2 * n + 1) * 2 ^ k = n * 2 ^ (k + 1) + 2 ^ k := by ring
    rw [hsplit] at hxs hys
    have hpow := Nat.two_pow_pos k
    have htake := ih (by rw [length_take]; omega)
      (by rw [length_take]; omega) hrest
    have hdrop := subtreeRoot_injective hnode (by rw [length_drop]; omega)
      (by rw [length_drop]; omega) hroot
    rw [← take_append_drop (n * 2 ^ (k + 1)) xs, htake, hdrop, take_append_drop]

theorem carry_eq_mountains (hnode : NodeInjective node) {k n : Nat} {leaves stack : List hash}
    {root : hash} (hlvs : leaves.length = (n + 1) * 2 ^ k) (hstack : stack.length = countOnes n)
    (h : carry node stack n root = some (mountains node filler k (n + 1) leaves)) :
    stack = mountains node filler k n (leaves.take (n * 2 ^ k)) ∧
      root = subtreeRoot node filler k (leaves.drop (n * 2 ^ k)) := by
  induction n using binary_induction generalizing k leaves stack root with
  | zero =>
    have hnil : stack = [] := by simpa [countOnes_zero] using hstack
    have hone := mountains_double_succ node filler k 0 leaves
    simp only [hnil, carry, mul_zero, zero_add, zero_mul,
      drop_zero, take_zero, mountains_zero] at h hone
    rw [hone] at h
    simpa [hnil] using h
  | double n =>
    have hmul : 2 * n * 2 ^ k = n * 2 ^ (k + 1) := by ring
    rw [carry_double, mountains_double_succ] at h
    injection h with h
    injection h with hroot hrest
    rw [hmul, mountains_double]
    exact ⟨hrest, hroot⟩
  | double_succ n ih =>
    cases stack with
    | nil =>
      rw [countOnes_double_succ] at hstack
      simp at hstack
    | cons =>
      rw [countOnes_double_succ] at hstack
      rw [carry_double_succ_cons, show 2 * n + 1 + 1 = 2 * (n + 1) by omega, mountains_double] at h
      have hmul : (2 * n + 1) * 2 ^ k = n * 2 ^ (k + 1) + 2 ^ k := by ring
      have hlen : leaves.length = n * 2 ^ (k + 1) + 2 ^ k + 2 ^ k := by
        rw [hlvs]
        ring
      have hpow := Nat.two_pow_pos k
      rcases ih (by rw [hlvs]; ring) (by simpa using hstack) h with ⟨hrest, hroot⟩
      rcases hnode _ _ _ _ hroot with ⟨hleft, hright⟩
      rw [drop_drop] at hright
      rw [take_drop] at hleft
      rw [hmul, mountains_double_succ, take_take, min_eq_left (by omega), hrest, hleft]
      exact ⟨rfl, hright⟩

theorem fold_injective (hnode : NodeInjective node) {padding : hash} {n : Nat}
    {left right : List hash} {a b root : hash} (hleft : left.length = countOnes n)
    (hright : right.length = countOnes n) (ha : fold node padding n left a = some root)
    (hb : fold node padding n right b = some root) : left = right ∧ a = b := by
  induction n using binary_induction generalizing left right a b with
  | zero =>
    rw [countOnes_zero] at hleft hright
    rw [fold_zero] at ha hb
    rw [length_eq_zero_iff.mp hleft, length_eq_zero_iff.mp hright]
    exact ⟨rfl, Option.some.inj (ha.trans hb.symm)⟩
  | double n hn ih =>
    rw [countOnes_double] at hleft hright
    rw [fold_double node padding hn] at ha hb
    rcases ih hleft hright ha hb with ⟨hlists, hcur⟩
    exact ⟨hlists, (hnode _ _ _ _ hcur).left⟩
  | double_succ n ih =>
    rw [countOnes_double_succ] at hleft hright
    cases left with
    | nil => simp at hleft
    | cons =>
      cases right with
      | nil => simp at hright
      | cons =>
        rw [fold_double_succ_cons] at ha hb
        rcases ih (by simpa using hleft) (by simpa using hright) ha hb with ⟨hlists, hcur⟩
        rcases hnode _ _ _ _ hcur with ⟨hxy, hab⟩
        rw [hlists, hxy]
        exact ⟨rfl, hab⟩

end OpenLibra.Merkle
