import Mathlib.Algebra.BigOperators.Ring.List
import Mathlib.Algebra.Order.BigOperators.Group.List
import Mathlib.Data.List.TakeWhile
import Mathlib.Tactic.Ring
import OpenLibra.Rust.Outcome

/-!
# The macro `checked!`

The macro evaluates the tail of a chain first, so it computes the chain of the last two operands
and then the others from right to left.
-/

namespace OpenLibra.Rust

open List

inductive Operator where
  | add | sub | mul | div
deriving DecidableEq, Repr

namespace Operator

def symbol : Operator -> String
  | add => "+"
  | sub => "-"
  | mul => "*"
  | div => "/"

/-- `checked_add`, `checked_sub`, `checked_mul` and `checked_div` of `u64`. -/
def checked : Operator -> Nat -> Nat -> Option Nat
  | add, a, b => if a + b < u64Bound then some (a + b) else none
  | sub, a, b => if b ≤ a then some (a - b) else none
  | mul, a, b => if a * b < u64Bound then some (a * b) else none
  | div, a, b => if b = 0 then none else some (a / b)

end Operator

structure ArithmeticError where
  text : String
deriving DecidableEq, Repr

/-- An operand is a value or an expression in parentheses, which runs plain arithmetic. -/
inductive Operand where
  | value (n : BitVec 64)
  | binary (op : Operator) (a b : Operand)
deriving DecidableEq, Repr

/-- Plain arithmetic panics where the checked one fails, since `overflow-checks` is on. -/
def Operand.eval : Operand -> Outcome ArithmeticError Nat
  | value n => .ok n.toNat
  | binary op a b => do
    let x <- a.eval
    let y <- b.eval
    match op.checked x y with
    | some result => .ok result
    | none => .panic

def applyOperator (op : Operator) (a b : Nat) : Outcome ArithmeticError Nat :=
  match op.checked a b with
  | some result => .ok result
  | none => .err ⟨"Operation results in overflow/underflow: " ++ toString a ++ " " ++ op.symbol ++
      " " ++ toString b⟩

/-- The chain `a op b` and the operators and operands behind it. -/
def checkedChain (a : Operand) (op : Operator) (b : Operand) :
    List (Operator × Operand) -> Outcome ArithmeticError Nat
  | [] => do
    let x <- a.eval
    let y <- b.eval
    applyOperator op x y
  | (next, c) :: rest => do
    let tail <- checkedChain b next c rest
    let x <- a.eval
    applyOperator op tail x

/-- The chain of one operator with `before` and then the operands `y` and `z`. -/
def checkedAll (op : Operator) (before : List Operand) (y z : Operand) :
    Outcome ArithmeticError Nat :=
  match before with
  | [] => checkedChain y op z []
  | [a] => checkedChain a op y [(op, z)]
  | a :: b :: rest => checkedChain a op b ((rest ++ [y, z]).map (Prod.mk op))

/-- The chain evaluated from the left. -/
def leftAssociated (op : Operator) (a : Nat) (operands : List Nat) : Option Nat :=
  operands.foldlM op.checked a

/-- The outcome is `Ok` of the value if there is one, and `Err` otherwise. -/
def Returns (outcome : Outcome ArithmeticError Nat) : Option Nat -> Prop
  | some value => outcome = .ok value
  | none => exists e, outcome = .err e

theorem returns_applyOperator (op : Operator) (a b : Nat) :
    Returns (applyOperator op a b) (op.checked a b) := by
  unfold applyOperator
  cases op.checked a b with
  | none => exact ⟨_, rfl⟩
  | some => rfl

theorem returns_iff {outcome : Outcome ArithmeticError Nat} {result expected : Option Nat}
    (h : Returns outcome result) : Returns outcome expected <-> result = expected := by
  constructor
  · intro hexpected
    cases result with
    | none =>
      rcases h with ⟨e, rfl⟩
      cases expected with
      | none => rfl
      | some => cases hexpected
    | some value =>
      cases h
      cases expected with
      | none => rcases hexpected with ⟨_, hexpected⟩; cases hexpected
      | some =>
        cases hexpected
        rfl
  · rintro rfl
    exact h

/-!
# The order of the macro
-/

def Evaluate (operands : List Operand) (values : List Nat) : Prop :=
  List.Forall₂ (fun operand value => operand.eval = .ok value) operands values

theorem checkedAll_cons (op : Operator) (a : Operand) (before : List Operand) (y z : Operand) :
    checkedAll op (a :: before) y z =
      checkedAll op before y z >>= fun tail => a.eval >>= fun x => applyOperator op tail x := by
  rcases before with _ | ⟨b, _ | ⟨c, rest⟩⟩ <;> rfl

theorem returns_checkedAll (op : Operator) {before : List Operand} {values : List Nat}
    {y z : Operand} {yv zv : Nat} (hbefore : Evaluate before values) (hy : y.eval = .ok yv)
    (hz : z.eval = .ok zv) :
    Returns (checkedAll op before y z) (leftAssociated op yv (zv :: values.reverse)) := by
  induction hbefore with
  | nil =>
    change Returns (y.eval >>= _) (op.checked yv zv >>= some)
    rw [hy, ok_bind, hz, ok_bind]
    simpa using returns_applyOperator op yv zv
  | @cons a value before values ha _ ih =>
    rw [checkedAll_cons, reverse_cons, ← cons_append, leftAssociated, foldlM_append]
    change Returns _ (leftAssociated op yv (zv :: values.reverse) >>= _)
    cases hresult : leftAssociated op yv (zv :: values.reverse) with
    | none =>
      rw [hresult] at ih
      rcases ih with ⟨e, htail⟩
      rw [htail]
      exact ⟨e, rfl⟩
    | some tail =>
      rw [hresult] at ih
      change checkedAll op before y z = .ok tail at ih
      rw [ih, ok_bind, ha, ok_bind]
      simpa using returns_applyOperator op tail value

theorem Operator.checked_lt {op : Operator} {a b result : Nat} (ha : a < u64Bound)
    (h : op.checked a b = some result) : result < u64Bound := by
  cases op <;> simp only [checked, Option.ite_none_right_eq_some, Option.ite_none_left_eq_some,
    Option.some.injEq] at h
  · exact h.2 ▸ h.1
  · omega
  · exact h.2 ▸ h.1
  · exact h.2 ▸ (Nat.div_le_self a b).trans_lt ha

theorem eval_lt {operand : Operand} {value : Nat} (h : operand.eval = .ok value) :
    value < u64Bound := by
  induction operand generalizing value with
  | value n =>
    cases h
    exact n.isLt
  | binary op a b iha =>
    rcases of_bind h with ⟨x, hx, h⟩
    rcases of_bind h with ⟨y, _, h⟩
    split at h
    · next hchecked =>
      cases h
      exact Operator.checked_lt (iha hx) hchecked
    · cases h

/-!
# Values in closed form
-/

section

variable {a : Nat} {operands : List Nat}

theorem leftAssociated_add (ha : a < u64Bound) : leftAssociated .add a operands =
    if a + operands.sum < u64Bound then some (a + operands.sum) else none := by
  induction operands generalizing a with
  | nil => exact (if_pos ha).symm
  | cons b operands ih =>
    change (if a + b < u64Bound then some (a + b) else none) >>= (leftAssociated .add · _) = _
    rw [sum_cons, ← add_assoc]
    split
    · next hb => exact ih hb
    · rw [if_neg (by omega)]
      rfl

theorem leftAssociated_sub : leftAssociated .sub a operands =
    if operands.sum ≤ a then some (a - operands.sum) else none := by
  induction operands generalizing a with
  | nil => rfl
  | cons b operands ih =>
    change (if b ≤ a then some (a - b) else none) >>= (leftAssociated .sub · _) = _
    rw [sum_cons]
    by_cases hb : b ≤ a
    · rw [if_pos hb]
      refine ih.trans ?_
      rw [Nat.sub_sub]
      exact if_congr (by omega) rfl rfl
    · rw [if_neg hb, if_neg (by omega)]
      rfl

theorem leftAssociated_div : leftAssociated .div a operands =
    if operands.prod = 0 then none else some (a / operands.prod) := by
  induction operands generalizing a with
  | nil => simp [leftAssociated]
  | cons b operands ih =>
    change (if b = 0 then none else some (a / b)) >>= (leftAssociated .div · _) = _
    rw [prod_cons]
    by_cases hb : b = 0
    · rw [if_pos hb, hb, Nat.zero_mul]
      rfl
    · rw [if_neg hb]
      refine ih.trans ?_
      rw [Nat.div_div_eq_div_mul]
      exact if_congr (by simp [hb]) rfl rfl

/-- The product of the operands in front of the first zero fits. -/
def Fits (operands : List Nat) : Prop := (operands.takeWhile (· ≠ 0)).prod < u64Bound

instance : DecidablePred Fits := fun _ => inferInstanceAs (Decidable (_ < _))

theorem fits_cons_zero (operands : List Nat) : Fits (0 :: operands) := by
  unfold Fits u64Bound
  simp

theorem fits_cons_iff {b : Nat} (hb : b ≠ 0) :
    Fits (b :: operands) <-> b * (operands.takeWhile (· ≠ 0)).prod < u64Bound := by
  unfold Fits
  rw [takeWhile_cons_of_pos (by simpa using hb), prod_cons]

theorem fits_of_mul_eq_zero {b : Nat} (ha : a < u64Bound) (hzero : a * b = 0) :
    Fits (a :: b :: operands) := by
  by_cases ha0 : a = 0
  · rw [ha0]
    exact fits_cons_zero _
  · rw [(Nat.mul_eq_zero.mp hzero).resolve_left ha0, fits_cons_iff ha0,
      takeWhile_cons_of_neg (by simp)]
    simpa using ha

theorem fits_mul_cons_iff {b : Nat} (hzero : a * b ≠ 0) :
    Fits (a :: b :: operands) <-> Fits (a * b :: operands) := by
  have hb0 : b ≠ 0 := right_ne_zero_of_mul hzero
  rw [fits_cons_iff (left_ne_zero_of_mul hzero), takeWhile_cons_of_pos (by simpa using hb0),
    prod_cons, ← mul_assoc, fits_cons_iff hzero]

theorem not_fits_cons {b : Nat} (hb : u64Bound ≤ b) : ¬ Fits (b :: operands) := by
  have hb0 : b ≠ 0 := (Nat.lt_of_lt_of_le (by decide) hb).ne'
  have hpos : 0 < (operands.takeWhile (· ≠ 0)).prod := by
    apply Nat.pos_of_ne_zero
    apply List.prod_ne_zero
    intro hmem
    simpa using mem_takeWhile_imp hmem
  rw [fits_cons_iff hb0]
  exact not_lt.mpr (hb.trans (Nat.le_mul_of_pos_right _ hpos))

theorem leftAssociated_mul (ha : a < u64Bound) : leftAssociated .mul a operands =
    if Fits (a :: operands) then some (a :: operands).prod else none := by
  induction operands generalizing a with
  | nil =>
    have hfits : Fits [a] := by
      by_cases hzero : a = 0
      · rw [hzero]
        exact fits_cons_zero []
      · rw [fits_cons_iff hzero]
        simpa using ha
    rw [if_pos hfits, prod_singleton]
    rfl
  | cons b operands ih =>
    change (if a * b < u64Bound then some (a * b) else none) >>= (leftAssociated .mul · _) = _
    rw [prod_cons, prod_cons, ← mul_assoc]
    by_cases hzero : a * b = 0
    · -- From the zero on every product fits.
      have hpos : 0 < u64Bound := by decide
      rw [if_pos (fits_of_mul_eq_zero ha hzero), hzero, if_pos hpos]
      refine (ih hpos).trans ?_
      rw [if_pos (fits_cons_zero operands), prod_cons]
    · rw [if_congr (fits_mul_cons_iff hzero) rfl rfl]
      by_cases hab : a * b < u64Bound
      · rw [if_pos hab]
        exact ih hab
      · rw [if_neg hab, if_neg (not_fits_cons (not_lt.mp hab))]
        rfl

end

/-- What the order of the operands does not matter for.  Sums are the same in any order, and
products as far as no zero hides an overflow; differences and quotients are the same if the first
operand and the last but one are, or if neither covers the others. -/
def OrderIrrelevant (op : Operator) (a : Nat) (mid : List Nat) (y z : Nat) : Prop :=
  match op with
  | .add => True
  | .sub => a = y ∨ a < y + (z + mid.sum) ∧ y < a + (z + mid.sum)
  | .mul => Fits (a :: (mid ++ [y, z])) <-> Fits (y :: z :: (a :: mid).reverse)
  | .div => z * mid.prod = 0 ∨ a = y ∨ a < y * (z * mid.prod) ∧ y < a * (z * mid.prod)

theorem quotients_eq_iff_of_lt {a y p : Nat} (hp : 0 < p) (hlt : a < y) :
    ((if p * a = 0 then none else some (y / (p * a))) =
      if p * y = 0 then none else some (a / (p * y))) <-> a < y * p ∧ y < a * p := by
  have hay : a < y * p := hlt.trans_le (Nat.le_mul_of_pos_right y hp)
  have hpy : p * y ≠ 0 := (Nat.mul_pos hp (by omega)).ne'
  have hzero : a / (p * y) = 0 := Nat.div_eq_of_lt (by rwa [mul_comm p y])
  rw [if_neg hpy, hzero, and_iff_right hay, mul_comm a p]
  by_cases hpa : p * a = 0
  · simp [hpa]
  · rw [if_neg hpa, Option.some.injEq, Nat.div_eq_zero_iff, or_iff_right hpa]

theorem quotients_eq_iff (a y p : Nat) :
    ((if p * a = 0 then none else some (y / (p * a))) =
      if p * y = 0 then none else some (a / (p * y))) <->
        p = 0 ∨ a = y ∨ a < y * p ∧ y < a * p := by
  rcases Nat.eq_zero_or_pos p with rfl | hp
  · simp
  · rw [or_iff_right hp.ne']
    rcases lt_trichotomy a y with hlt | rfl | hgt
    · rw [or_iff_right hlt.ne, quotients_eq_iff_of_lt hp hlt]
    · simp
    · rw [or_iff_right hgt.ne', eq_comm, quotients_eq_iff_of_lt hp hgt, and_comm]

theorem leftAssociated_eq_iff (op : Operator) {a y z : Nat} {mid : List Nat} (ha : a < u64Bound)
    (hy : y < u64Bound) :
    leftAssociated op y (z :: (a :: mid).reverse) = leftAssociated op a (mid ++ [y, z]) <->
      OrderIrrelevant op a mid y z := by
  have hsum : (z :: (a :: mid).reverse).sum = z + mid.sum + a ∧
      (mid ++ [y, z]).sum = y + (z + mid.sum) := by
    simp only [sum_cons, reverse_cons, sum_append, sum_reverse, sum_nil]
    omega
  have hprod : (z :: (a :: mid).reverse).prod = z * mid.prod * a ∧
      (mid ++ [y, z]).prod = z * mid.prod * y := by
    simp only [prod_cons, reverse_cons, prod_append, prod_reverse, prod_nil]
    constructor <;> ring
  cases op with
  | add =>
    rw [leftAssociated_add ha, leftAssociated_add hy, hsum.1, hsum.2,
      show y + (z + mid.sum + a) = a + (y + (z + mid.sum)) by omega]
    exact iff_of_true rfl trivial
  | sub =>
    rw [leftAssociated_sub, leftAssociated_sub, hsum.1, hsum.2]
    unfold OrderIrrelevant
    split <;> split <;> simp only [Option.some.injEq, reduceCtorEq, true_iff, false_iff] <;> omega
  | mul =>
    have hsame : (y :: z :: (a :: mid).reverse).prod = (a :: (mid ++ [y, z])).prod := by
      rw [prod_cons, hprod.1, prod_cons, hprod.2]
      ring
    rw [leftAssociated_mul ha, leftAssociated_mul hy, hsame]
    unfold OrderIrrelevant
    split <;> split <;> simp_all
  | div =>
    rw [leftAssociated_div, leftAssociated_div, hprod.1, hprod.2]
    exact quotients_eq_iff a y (z * mid.prod)

/-- The operands of a chain evaluate.  The macro then returns what the chain as written gives,
always for two operands, and for more exactly if their order is irrelevant. -/
theorem checked_agrees_iff (op : Operator) {a y z : Operand} {mid : List Operand} {av yv zv : Nat}
    {midv : List Nat} (ha : a.eval = .ok av) (hmid : Evaluate mid midv) (hy : y.eval = .ok yv)
    (hz : z.eval = .ok zv) :
    Returns (checkedAll op [] y z) (leftAssociated op yv [zv]) ∧
      (Returns (checkedAll op (a :: mid) y z) (leftAssociated op av (midv ++ [yv, zv])) <->
        OrderIrrelevant op av midv yv zv) := by
  refine ⟨returns_checkedAll op .nil hy hz, ?_⟩
  rw [returns_iff (returns_checkedAll op (.cons ha hmid) hy hz)]
  exact leftAssociated_eq_iff op (eval_lt ha) (eval_lt hy)

/-- The macro computes `(1 + 1) * 3 * 10`, which is the product as written. -/
theorem checked_product :
    Returns (checkedAll .mul [.value 10] (.binary .add (.value 1) (.value 1)) (.value 3))
      (some 60) := by
  refine (@checked_agrees_iff .mul (.value 10) _ _ [] 10 2 3 [] rfl .nil rfl rfl).2.mpr ?_
  change Fits _ <-> Fits _
  decide

/-- As written `5 - 3 - 1` is 1, but the macro computes `3 - 1 - 5`. -/
theorem checked_subtractions : leftAssociated .sub 5 [3, 1] = some 1 ∧
    ¬ Returns (checkedAll .sub [.value 5] (.value 3) (.value 1)) (some 1) := by
  refine ⟨by decide, ?_⟩
  intro h
  change checkedAll .sub [.value 5] (.value 3) (.value 1) = .ok 1 at h
  exact absurd h (by decide)

end OpenLibra.Rust
