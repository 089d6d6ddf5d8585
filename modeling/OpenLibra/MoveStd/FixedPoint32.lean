import Mathlib.Tactic.Ring
import OpenLibra.Move.Semantics

/-!
# Fixed-point numbers

A number is a `u64` with 32 fractional bits.  The operations go through `u128`,
where nothing is lost, and truncate at the end.
-/

namespace OpenLibra.MoveStd

open Rust Move

structure FixedPoint32 where
  value : U64
deriving DecidableEq, Repr

namespace FixedPoint32

def maxU64 : U128 := 18446744073709551615

def eDenominator : Abort := .code 0x10001

def eDivision : Abort := .code 0x20002

def eMultiplication : Abort := .code 0x20003

def eDivisionByZero : Abort := .code 0x10004

def eRatioOutOfRange : Abort := .code 0x20005

/-- The check before the result is cast. -/
def asU64 (result : U128) (e : Abort) : MoveResult U64 := do
  ensure (result ≤ maxU64) e
  cast 64 result

def multiplyU64 (val : U64) (multiplier : FixedPoint32) : MoveResult U64 := do
  let unscaledProduct <- mul (val.setWidth 128) (multiplier.value.setWidth 128)
  asU64 (unscaledProduct >>> 32) eMultiplication

def divideU64 (val : U64) (divisor : FixedPoint32) : MoveResult U64 := do
  ensure (divisor.value ≠ 0) eDivisionByZero
  let scaledValue := val.setWidth 128 <<< 32
  let quotient <- div scaledValue (divisor.value.setWidth 128)
  asU64 quotient eDivision

variable (numerator denominator : U64)

def createFromRational : MoveResult FixedPoint32 := do
  let scaledNumerator := numerator.setWidth 128 <<< 64
  let scaledDenominator := denominator.setWidth 128 <<< 32
  ensure (scaledDenominator ≠ 0) eDenominator
  let quotient <- div scaledNumerator scaledDenominator
  ensure (quotient ≠ 0 ∨ numerator = 0) eRatioOutOfRange
  let value <- asU64 quotient eRatioOutOfRange
  return { value := value }

variable (num : FixedPoint32)

def floor : U64 := num.value >>> 32

def ceil : MoveResult U64 :=
  let flooredNum := num.floor <<< 32
  if num.value = flooredNum then .ok (flooredNum >>> 32)
  else do
    let val <- add (flooredNum.setWidth 128) (1#128 <<< 32)
    cast 64 (val >>> 32)

def round : MoveResult U64 := do
  let flooredNum := num.floor <<< 32
  let boundary <- add flooredNum (1#64 <<< 32 / 2)
  if num.value < boundary then .ok (flooredNum >>> 32) else num.ceil

theorem toNat_widen (a : U64) : (a.setWidth 128).toNat = a.toNat := by
  rw [BitVec.toNat_setWidth]
  exact Nat.mod_eq_of_lt (lt_trans a.isLt (by decide))

theorem toNat_scaled (a : U64) {bits : Nat} (h : bits ≤ 64) :
    (a.setWidth 128 <<< bits).toNat = a.toNat * 2 ^ bits := by
  rw [BitVec.toNat_shiftLeft, toNat_widen, Nat.shiftLeft_eq]
  refine Nat.mod_eq_of_lt (lt_of_lt_of_le ?_ (show 2 ^ 64 * 2 ^ 64 ≤ 2 ^ 128 by decide))
  exact Nat.mul_lt_mul_of_lt_of_le a.isLt (Nat.pow_le_pow_right (by decide) h) (by decide)

/-- The number if it fits. -/
def fitted (n : Nat) (e : Abort) : MoveResult U64 :=
  if n < 2 ^ 64 then .ok (BitVec.ofNat 64 n) else .err e

theorem asU64_eq (result : U128) (e : Abort) : asU64 result e = fitted result.toNat e := by
  have hle : result ≤ maxU64 <-> result.toNat < 2 ^ 64 := by
    rw [BitVec.le_def, show maxU64.toNat = 2 ^ 64 - 1 from rfl]
    omega
  unfold asU64 ensure fitted
  simp only [hle]
  split
  · next hlt => exact fit_eq_ok hlt
  · rfl

theorem multiplyU64_eq (val : U64) (multiplier : FixedPoint32) : multiplyU64 val multiplier =
    fitted (val.toNat * multiplier.value.toNat / 2 ^ 32) eMultiplication := by
  have hprod : val.toNat * multiplier.value.toNat < 2 ^ 128 :=
    Nat.lt_of_lt_of_eq (Nat.mul_lt_mul'' val.isLt multiplier.value.isLt) (by decide)
  rcases exists_fit hprod with ⟨product, hfit, hvalue⟩
  unfold multiplyU64
  rw [mul, toNat_widen, toNat_widen, hfit, ok_bind, asU64_eq, BitVec.toNat_ushiftRight, hvalue,
    Nat.shiftRight_eq_div_pow]

theorem divideU64_eq (val : U64) (divisor : FixedPoint32) : divideU64 val divisor =
    if divisor.value.toNat = 0 then .err eDivisionByZero
    else fitted (val.toNat * 2 ^ 32 / divisor.value.toNat) eDivision := by
  unfold divideU64 ensure
  by_cases hzero : divisor.value.toNat = 0
  · rw [if_neg (not_not.mpr (BitVec.eq_of_toNat_eq hzero)), if_pos hzero]
    rfl
  · have hne : divisor.value ≠ 0 := fun h => hzero (congrArg BitVec.toNat h)
    have hwide : (divisor.value.setWidth 128).toNat ≠ 0 := by rwa [toNat_widen]
    rw [if_pos hne, ok_bind]
    dsimp only
    rcases @exists_div _ (val.setWidth 128 <<< 32) _ hwide with ⟨quotient, hdiv, hvalue⟩
    rw [hdiv, ok_bind, asU64_eq, hvalue, toNat_scaled val (by decide), toNat_widen, if_neg hzero]

/-- The quotient as a fixed-point number. -/
def ratio : Nat := numerator.toNat * 2 ^ 32 / denominator.toNat

theorem createFromRational_eq :
    createFromRational numerator denominator = if denominator.toNat = 0 then .err eDenominator
      else if numerator.toNat ≠ 0 ∧ ratio numerator denominator = 0 then .err eRatioOutOfRange
      else fitted (ratio numerator denominator) eRatioOutOfRange >>= fun value => .ok ⟨value⟩ := by
  have hscaled := toNat_scaled denominator (show 32 ≤ 64 by decide)
  unfold createFromRational ensure
  dsimp only
  by_cases hzero : denominator.toNat = 0
  · rw [hzero, zero_mul] at hscaled
    rw [if_neg (not_not.mpr (BitVec.eq_of_toNat_eq hscaled)), if_pos hzero]
    rfl
  · have hwide : (denominator.setWidth 128 <<< 32).toNat ≠ 0 := by
      rw [hscaled]
      omega
    have hne : denominator.setWidth 128 <<< 32 ≠ 0 := fun h => hwide (congrArg BitVec.toNat h)
    rcases @exists_div _ (numerator.setWidth 128 <<< 64) _ hwide with ⟨quotient, hdiv, hvalue⟩
    rw [toNat_scaled numerator (by decide), hscaled,
      show numerator.toNat * 2 ^ 64 = numerator.toNat * 2 ^ 32 * 2 ^ 32 by ring,
      Nat.mul_div_mul_right _ _ (by decide), ← ratio] at hvalue
    rw [if_pos hne, ok_bind, hdiv, ok_bind, asU64_eq, hvalue, if_neg hzero]
    have hcheck : (quotient ≠ 0 ∨ numerator = 0) <->
      ¬ (numerator.toNat ≠ 0 ∧ ratio numerator denominator = 0) := by
      rw [← hvalue, ne_eq, ← BitVec.toNat_inj, ← BitVec.toNat_inj]
      change (¬ quotient.toNat = 0 ∨ numerator.toNat = 0) <-> _
      omega
    simp only [hcheck]
    by_cases hlost : numerator.toNat ≠ 0 ∧ ratio numerator denominator = 0
    · rw [if_neg (not_not.mpr hlost), if_pos hlost]
      rfl
    · rw [if_pos hlost, if_neg hlost, ok_bind]
      simp only [pure_eq]

theorem toNat_flooredNum : (num.floor <<< 32).toNat = num.value.toNat / 2 ^ 32 * 2 ^ 32 := by
  have hvalue := num.value.isLt
  unfold floor
  rw [BitVec.toNat_shiftLeft, BitVec.toNat_ushiftRight, Nat.shiftRight_eq_div_pow,
    Nat.shiftLeft_eq, Nat.mod_eq_of_lt (by omega)]

theorem ceil_eq : num.ceil = .ok (BitVec.ofNat 64 ((num.value.toNat + (2 ^ 32 - 1)) / 2 ^ 32)) := by
  have hvalue := num.value.isLt
  have hfloored := toNat_flooredNum num
  unfold ceil
  generalize num.floor <<< 32 = flooredNum at hfloored ⊢
  dsimp only
  split
  · next heq =>
    refine congrArg Outcome.ok (BitVec.eq_of_toNat_eq ?_)
    rw [heq] at hfloored ⊢
    rw [BitVec.toNat_ushiftRight, Nat.shiftRight_eq_div_pow, BitVec.toNat_ofNat]
    omega
  · next hne =>
    have hne' : num.value.toNat ≠ flooredNum.toNat := fun h => hne (BitVec.eq_of_toNat_eq h)
    have hsum : flooredNum.toNat + 2 ^ 32 < 2 ^ 128 := by omega
    rcases exists_fit hsum with ⟨val, hfit, hval⟩
    rw [add, toNat_widen, show (1#128 <<< 32).toNat = 2 ^ 32 from rfl, hfit, ok_bind, Move.cast,
      BitVec.toNat_ushiftRight, hval, Nat.shiftRight_eq_div_pow, fit_eq_ok (by omega)]
    refine congrArg (fun n => Outcome.ok (BitVec.ofNat 64 n)) ?_
    omega

theorem round_eq : num.round = .ok (BitVec.ofNat 64 ((num.value.toNat + 2 ^ 31) / 2 ^ 32)) := by
  have hvalue := num.value.isLt
  have hfloored := toNat_flooredNum num
  unfold round
  rw [ceil_eq]
  generalize num.floor <<< 32 = flooredNum at hfloored ⊢
  dsimp only
  have hsum : flooredNum.toNat + 2 ^ 31 < 2 ^ 64 := by omega
  rcases exists_fit hsum with ⟨boundary, hfit, hboundary⟩
  rw [add, show (1#64 <<< 32 / 2).toNat = 2 ^ 31 from rfl, hfit, ok_bind]
  split
  · next hlt =>
    rw [BitVec.lt_def, hboundary] at hlt
    refine congrArg Outcome.ok (BitVec.eq_of_toNat_eq ?_)
    rw [BitVec.toNat_ushiftRight, Nat.shiftRight_eq_div_pow, BitVec.toNat_ofNat]
    omega
  · next hge =>
    rw [BitVec.lt_def, hboundary] at hge
    refine congrArg (fun n => Outcome.ok (BitVec.ofNat 64 n)) ?_
    omega

/-- A quotient times its denominator is the numerator, up to the truncation. -/
theorem multiply_create {n d : Nat} (hpos : 0 < d) (hd : d < 2 ^ 32) :
    d * (n * 2 ^ 32 / d) / 2 ^ 32 = n ∨ d * (n * 2 ^ 32 / d) / 2 ^ 32 + 1 = n := by
  have hmod := Nat.mod_lt (n * 2 ^ 32) hpos
  have hdiv := Nat.div_add_mod (n * 2 ^ 32) d
  omega

theorem arithmetic_exact (num : FixedPoint32) (val numerator denominator : U64) :
    num.floor.toNat = num.value.toNat / 2 ^ 32 ∧
    num.ceil = .ok (BitVec.ofNat 64 ((num.value.toNat + (2 ^ 32 - 1)) / 2 ^ 32)) ∧
    num.round = .ok (BitVec.ofNat 64 ((num.value.toNat + 2 ^ 31) / 2 ^ 32)) ∧
    multiplyU64 val num = fitted (val.toNat * num.value.toNat / 2 ^ 32) eMultiplication ∧
    (divideU64 val num = if num.value.toNat = 0 then .err eDivisionByZero
      else fitted (val.toNat * 2 ^ 32 / num.value.toNat) eDivision) ∧
    (createFromRational numerator denominator = if denominator.toNat = 0 then .err eDenominator
      else if numerator.toNat ≠ 0 ∧ ratio numerator denominator = 0 then .err eRatioOutOfRange
      else fitted (ratio numerator denominator) eRatioOutOfRange >>= fun value => .ok ⟨value⟩) ∧
    (forall created, 0 < denominator.toNat -> denominator.toNat < 2 ^ 32 ->
      createFromRational numerator denominator = .ok created ->
        (exists product, multiplyU64 denominator created = .ok product ∧
          (product.toNat = numerator.toNat ∨ product.toNat + 1 = numerator.toNat)) ∧
        created.floor.toNat = numerator.toNat / denominator.toNat) := by
  have hfloor (num : FixedPoint32) : num.floor.toNat = num.value.toNat / 2 ^ 32 := by
    rw [floor, BitVec.toNat_ushiftRight, Nat.shiftRight_eq_div_pow]
  refine ⟨hfloor num, ceil_eq num, round_eq num, multiplyU64_eq val num, divideU64_eq val num,
    createFromRational_eq numerator denominator, ?_⟩
  intro created hpos hlt hcreated
  have hfits : created.value.toNat = ratio numerator denominator := by
    rw [createFromRational_eq, if_neg (by omega)] at hcreated
    split at hcreated
    · cases hcreated
    · rcases of_bind hcreated with ⟨value, hvalue, hcreated⟩
      cases hcreated
      unfold fitted at hvalue
      split at hvalue
      · cases hvalue
        rw [BitVec.toNat_ofNat, Nat.mod_eq_of_lt (by assumption)]
      · cases hvalue
  have hproduct := @multiply_create numerator.toNat _ hpos hlt
  have hnumerator := numerator.isLt
  rw [multiplyU64_eq, hfloor, hfits, ratio]
  constructor
  · rw [fitted, if_pos (by omega)]
    refine ⟨_, rfl, ?_⟩
    rw [BitVec.toNat_ofNat, Nat.mod_eq_of_lt (by omega)]
    exact hproduct
  · rw [Nat.div_div_eq_div_mul, Nat.mul_div_mul_right _ _ (by decide)]

end FixedPoint32

end OpenLibra.MoveStd
