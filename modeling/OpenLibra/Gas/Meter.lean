import Mathlib.Algebra.Order.BigOperators.Group.List
import Mathlib.Algebra.Order.Ring.Nat
import OpenLibra.Packages.CompiledModules

/-!
# The gas meter

What is left is rounded down from internal to external units, so what is billed is the sum of
the charges rounded up.
-/

namespace OpenLibra.Gas

open Rust Move List

/-!
# Quantities
-/

/-- The arithmetic of `GasQuantity` and its conversions between units, which another crate
defines. -/
class GasAlgebra where
  plus : U64 -> U64 -> U64
  times : U64 -> U64 -> U64
  /-- `to_unit_with_params` by its multiplier. -/
  toUnit : U64 -> U64 -> U64
  /-- `to_unit_round_down_with_params` by its ratio. -/
  toUnitRoundDown : U64 -> U64 × U64 -> U64
  toUnitRoundUp : U64 -> U64 × U64 -> U64

open GasAlgebra

/-- The conversions saturate and round as their names say. -/
structure GasAlgebra.Lawful [GasAlgebra] : Prop where
  toNat_toUnit : forall val multiplier : U64, val.toNat * multiplier.toNat < u64Bound ->
    (toUnit val multiplier).toNat = val.toNat * multiplier.toNat
  toNat_roundDown : forall val nominator denominator : U64, denominator ≠ 0 ->
    val.toNat * nominator.toNat / denominator.toNat < u64Bound ->
      (toUnitRoundDown val (nominator, denominator)).toNat =
        val.toNat * nominator.toNat / denominator.toNat
  toNat_roundUp : forall val nominator denominator : U64, denominator ≠ 0 ->
    (toUnitRoundUp val (nominator, denominator)).toNat =
      min ((val.toNat * nominator.toNat + (denominator.toNat - 1)) / denominator.toNat)
        (u64Bound - 1)

inductive StatusCode where
  | vmStartupFailure
  | exceededMaxTransactionSize
  | maxGasUnitsExceedsMaxGasUnitsBound
  | maxGasUnitsBelowMinTransactionGasUnits
  | gasUnitPriceBelowMinBound
  | gasUnitPriceAboveMaxBound
  | outOfGas
deriving DecidableEq, Repr

structure TransactionGasParameters where
  minTransactionGasUnits : U64
  largeTransactionCutoff : U64
  intrinsicGasPerByte : U64
  maximumNumberOfGasUnits : U64
  minPricePerGasUnit : U64
  maxPricePerGasUnit : U64
  maxTransactionSizeInBytes : U64
  gasUnitScalingFactor : U64
  memoryQuota : U64
deriving DecidableEq, Repr

namespace TransactionGasParameters

def initial : TransactionGasParameters where
  minTransactionGasUnits := 1500000
  largeTransactionCutoff := 600
  intrinsicGasPerByte := 2000
  maximumNumberOfGasUnits := 2000000
  minPricePerGasUnit := 100
  maxPricePerGasUnit := 10000000000
  maxTransactionSizeInBytes := 64 * 1024
  gasUnitScalingFactor := 10000
  memoryQuota := 10000000

def scalingFactor (self : TransactionGasParameters) : U64 :=
  if self.gasUnitScalingFactor = 0 then 1 else self.gasUnitScalingFactor

def calculateIntrinsicGas [GasAlgebra] (self : TransactionGasParameters) (transactionSize : U64) :
    U64 :=
  if transactionSize > self.largeTransactionCutoff then
    let excess := transactionSize - self.largeTransactionCutoff
    plus self.minTransactionGasUnits (times excess self.intrinsicGasPerByte)
  else self.minTransactionGasUnits

end TransactionGasParameters

structure InstructionGasParameters where
  callBase : U64
  callPerArg : U64
  callPerLocal : U64
  callGenericBase : U64
  callGenericPerTyArg : U64
  callGenericPerArg : U64
  callGenericPerLocal : U64
deriving DecidableEq, Repr

/-!
# The meter
-/

/-- `internalBalance` is the field `balance`. -/
structure OLGasMeter where
  featureVersion : Nat
  instr : InstructionGasParameters
  txn : TransactionGasParameters
  internalBalance : U64
  memoryQuota : U64
  shouldLeakMemoryForNative : Bool
deriving DecidableEq, Repr

namespace OLGasMeter

def new [GasAlgebra] (gasFeatureVersion : Nat) (instr : InstructionGasParameters)
    (txn : TransactionGasParameters) (balance : U64) : OLGasMeter where
  featureVersion := gasFeatureVersion
  instr := instr
  txn := txn
  internalBalance := toUnit balance txn.scalingFactor
  memoryQuota := txn.memoryQuota
  shouldLeakMemoryForNative := false

variable (self : OLGasMeter)

def balance [GasAlgebra] : U64 := toUnitRoundDown self.internalBalance (1, self.txn.scalingFactor)

def charge (amount : U64) : Outcome StatusCode Unit × OLGasMeter :=
  if amount ≤ self.internalBalance then
    (.ok (), { self with internalBalance := self.internalBalance - amount })
  else (.err .outOfGas, { self with internalBalance := 0 })

def chargeIntrinsicGasForTransaction [GasAlgebra] (txnSize : U64) :
    Outcome StatusCode Unit × OLGasMeter :=
  self.charge (self.txn.calculateIntrinsicGas txnSize)

/-- The gas that `success_transaction_cleanup` bills. -/
def gasUsed [GasAlgebra] (maxGasAmount : U64) : Outcome StatusCode U64 :=
  expect (if self.balance ≤ maxGasAmount then some (maxGasAmount - self.balance) else none)

end OLGasMeter

structure TransactionMetadata where
  maxGasAmount : U64
  gasUnitPrice : U64
  transactionSize : U64
  scriptHash : List UInt8
  scriptSize : U64
deriving DecidableEq, Repr

def maximumApprovedTransactionSize : U64 := 1024 * 1024

/-- The entries are those of `ApprovedExecutionHashes`, if it is found and read. -/
def isApproved [GasAlgebra] (params : TransactionGasParameters) (txnData : TransactionMetadata) :
    Option (List (Nat × List UInt8)) -> Bool
  | none => false
  | some entries =>
      entries.any (fun entry => entry.snd = txnData.scriptHash) &&
        plus txnData.scriptSize params.maxTransactionSizeInBytes > txnData.transactionSize &&
        txnData.transactionSize ≤ maximumApprovedTransactionSize

def checkGas [GasAlgebra] (gasParams : Option TransactionGasParameters)
    (approved : Option (List (Nat × List UInt8))) (txnData : TransactionMetadata) :
    Outcome StatusCode Unit :=
  match gasParams with
  | none => .err .vmStartupFailure
  | some params => do
      let rawBytesLen := txnData.transactionSize
      ensure (¬ txnData.transactionSize > params.maxTransactionSizeInBytes ∨
        isApproved params txnData approved) .exceededMaxTransactionSize
      ensure (¬ txnData.maxGasAmount > params.maximumNumberOfGasUnits)
        .maxGasUnitsExceedsMaxGasUnitsBound
      let intrinsicGas :=
        toUnitRoundUp (params.calculateIntrinsicGas rawBytesLen) (1, params.scalingFactor)
      ensure (¬ txnData.maxGasAmount < intrinsicGas) .maxGasUnitsBelowMinTransactionGasUnits
      ensure (¬ txnData.gasUnitPrice < params.minPricePerGasUnit) .gasUnitPriceBelowMinBound
      ensure (¬ txnData.gasUnitPrice > params.maxPricePerGasUnit) .gasUnitPriceAboveMaxBound

/-!
# The roundings cancel
-/

variable {scale : Nat}

theorem div_add_roundUp {units spent : Nat} (hscale : 0 < scale) (h : spent ≤ units * scale) :
    (units * scale - spent) / scale + (spent + (scale - 1)) / scale = units := by
  -- The quotient rounded up is the least number of units that covers what was spent.
  have hlow := Nat.div_mul_le_self (spent + (scale - 1)) scale
  have hhigh := Nat.lt_div_mul_add (a := spent + (scale - 1)) hscale
  generalize (spent + (scale - 1)) / scale = used at hlow hhigh ⊢
  have hlt : used * scale < (units + 1) * scale := by
    rw [add_mul]
    omega
  have hused := Nat.lt_succ_iff.mp (Nat.lt_of_mul_lt_mul_right hlt)
  rcases Nat.exists_eq_add_of_le hused with ⟨left, rfl⟩
  rw [add_mul] at h ⊢
  have hleft : (used * scale + left * scale - spent) / scale = left := by
    apply Nat.div_eq_of_lt_le
    · omega
    · rw [add_mul]
      omega
  rw [hleft, Nat.add_comm]

theorem le_roundUp_mul {val : Nat} (hscale : 0 < scale) :
    val ≤ (val + (scale - 1)) / scale * scale := by
  have hlow := Nat.lt_div_mul_add (a := val + (scale - 1)) hscale
  omega

namespace OLGasMeter

def chargeAll (self : OLGasMeter) (amounts : List U64) : OLGasMeter :=
  amounts.foldl (fun meter amount => (meter.charge amount).snd) self

def Succeeds (self : OLGasMeter) : List U64 -> Prop
  | [] => True
  | amount :: rest => (self.charge amount).fst = .ok () ∧ (self.charge amount).snd.Succeeds rest

@[simp] theorem txn_charge (self : OLGasMeter) (amount : U64) :
    (self.charge amount).snd.txn = self.txn := by
  unfold charge
  split <;> rfl

variable {self : OLGasMeter} {amount : U64}

theorem charge_eq_ok_iff : (self.charge amount).fst = .ok () <-> amount ≤ self.internalBalance := by
  unfold charge
  split <;> simp [*]

theorem charge_spent (h : (self.charge amount).fst = .ok ()) :
    (self.charge amount).snd.internalBalance.toNat + amount.toNat = self.internalBalance.toNat := by
  have hle := charge_eq_ok_iff.mp h
  unfold charge
  rw [if_pos hle, BitVec.toNat_sub_of_le hle]
  exact Nat.sub_add_cancel (BitVec.le_def.mp hle)

theorem charge_le (self : OLGasMeter) (amount : U64) :
    (self.charge amount).snd.internalBalance ≤ self.internalBalance := by
  rw [BitVec.le_def]
  by_cases h : (self.charge amount).fst = .ok ()
  · have hspent := charge_spent h
    omega
  · unfold charge
    rw [if_neg (mt charge_eq_ok_iff.mpr h)]
    exact Nat.zero_le _

@[simp] theorem txn_chargeAll (self : OLGasMeter) (amounts : List U64) :
    (self.chargeAll amounts).txn = self.txn := by
  induction amounts generalizing self with
  | nil => rfl
  | cons amount rest ih => exact (ih _).trans (txn_charge self amount)

theorem chargeAll_le (self : OLGasMeter) (amounts : List U64) :
    (self.chargeAll amounts).internalBalance ≤ self.internalBalance := by
  induction amounts generalizing self with
  | nil => exact BitVec.le_refl _
  | cons amount rest ih => exact BitVec.le_trans (ih _) (charge_le self amount)

variable {amounts : List U64}

theorem chargeAll_spent (h : self.Succeeds amounts) :
    (self.chargeAll amounts).internalBalance.toNat + (amounts.map BitVec.toNat).sum =
      self.internalBalance.toNat := by
  induction amounts generalizing self with
  | nil => rfl
  | cons amount rest ih =>
    have hspent := charge_spent h.left
    have hrest := ih h.right
    simp only [chargeAll, foldl_cons, map_cons, sum_cons] at hrest ⊢
    omega

theorem chargeAll_failed {before after : List U64} (hsplit : amounts = before ++ amount :: after)
    (hfailed : ((self.chargeAll before).charge amount).fst ≠ .ok ()) :
    (self.chargeAll amounts).internalBalance = 0 := by
  have hzero : ((self.chargeAll before).charge amount).snd.internalBalance = 0 := by
    unfold charge
    rw [if_neg (mt charge_eq_ok_iff.mpr hfailed)]
  have hle := chargeAll_le ((self.chargeAll before).charge amount).snd after
  rw [hzero] at hle
  subst hsplit
  unfold chargeAll
  rw [foldl_append]
  exact BitVec.le_zero_iff.mp hle

section

variable {featureVersion : Nat} {instr : InstructionGasParameters} {txn : TransactionGasParameters}
  {maxGas : U64} (hscale : txn.gasUnitScalingFactor ≠ 0)
  (hbound : maxGas.toNat * txn.gasUnitScalingFactor.toNat < u64Bound)
include hscale

theorem scalingFactor_eq : txn.scalingFactor = txn.gasUnitScalingFactor := if_neg hscale

theorem scale_pos : 0 < txn.gasUnitScalingFactor.toNat := by
  apply Nat.pos_of_ne_zero
  intro hzero
  exact hscale (BitVec.eq_of_toNat_eq hzero)

variable [GasAlgebra] (hlawful : GasAlgebra.Lawful)
include hlawful

theorem toNat_balance {self : OLGasMeter} (htxn : self.txn = txn) :
    self.balance.toNat = self.internalBalance.toNat / txn.gasUnitScalingFactor.toNat := by
  have hone : self.internalBalance.toNat * (1 : U64).toNat = self.internalBalance.toNat :=
    mul_one _
  have hle := Nat.div_le_self self.internalBalance.toNat txn.gasUnitScalingFactor.toNat
  have hlt := self.internalBalance.isLt
  unfold balance
  rw [htxn, scalingFactor_eq hscale, hlawful.toNat_roundDown _ _ _ hscale, hone]
  rw [hone]
  unfold u64Bound
  omega

include hbound

theorem toNat_new : (new featureVersion instr txn maxGas).internalBalance.toNat =
    maxGas.toNat * txn.gasUnitScalingFactor.toNat := by
  unfold new
  rw [scalingFactor_eq hscale, hlawful.toNat_toUnit _ _ hbound]

theorem balance_le (amounts : List U64) :
    ((new featureVersion instr txn maxGas).chargeAll amounts).balance ≤ maxGas := by
  have hle := BitVec.le_def.mp (chargeAll_le (new featureVersion instr txn maxGas) amounts)
  rw [toNat_new hscale hbound hlawful] at hle
  rw [BitVec.le_def, toNat_balance hscale hlawful (txn_chargeAll _ _)]
  exact Nat.div_le_of_le_mul (by rwa [mul_comm] at hle)

theorem gasUsed_eq (amounts : List U64) :
    ((new featureVersion instr txn maxGas).chargeAll amounts).gasUsed maxGas =
      .ok (maxGas - ((new featureVersion instr txn maxGas).chargeAll amounts).balance) := by
  unfold gasUsed
  rw [if_pos (balance_le hscale hbound hlawful amounts), expect_some]

theorem intrinsic_of_checkGas {approved} {txnData} (hmax : txnData.maxGasAmount = maxGas)
    (h : checkGas (some txn) approved txnData = .ok ()) :
    ((new featureVersion instr txn maxGas).chargeIntrinsicGasForTransaction
      txnData.transactionSize).fst = .ok () := by
  unfold checkGas at h
  rcases of_ensure h with ⟨_, h⟩
  rcases of_ensure h with ⟨_, h⟩
  rcases of_ensure h with ⟨hcov, _⟩
  unfold chargeIntrinsicGasForTransaction
  rw [charge_eq_ok_iff, BitVec.le_def, toNat_new hscale hbound hlawful]
  rw [BitVec.not_lt, BitVec.le_def, hmax, scalingFactor_eq hscale,
    hlawful.toNat_roundUp _ _ _ hscale, show (1 : U64).toNat = 1 from rfl, mul_one] at hcov
  rcases min_le_iff.mp hcov with hunits | hfull
  · exact Nat.le_trans (le_roundUp_mul (scale_pos hscale)) (Nat.mul_le_mul_right _ hunits)
  · have hlt := (txn.calculateIntrinsicGas txnData.transactionSize).isLt
    have hscaled := Nat.le_mul_of_pos_right maxGas.toNat (scale_pos hscale)
    have hall : (txn.calculateIntrinsicGas txnData.transactionSize).toNat ≤ maxGas.toNat := by
      unfold u64Bound at hfull
      omega
    exact Nat.le_trans hall hscaled

/-- What is billed is the sum of the charges rounded up, and all the gas once a charge fails. -/
theorem billed_exactly (featureVersion : Nat) (instr : InstructionGasParameters) :
    (forall amounts : List U64,
      let meter := (new featureVersion instr txn maxGas).chargeAll amounts
      meter.balance ≤ maxGas ∧
      meter.gasUsed maxGas = .ok (maxGas - meter.balance) ∧
      ((new featureVersion instr txn maxGas).Succeeds amounts ->
        maxGas.toNat - meter.balance.toNat =
          ((amounts.map BitVec.toNat).sum + (txn.gasUnitScalingFactor.toNat - 1)) /
            txn.gasUnitScalingFactor.toNat) ∧
      (forall before amount after, amounts = before ++ amount :: after ->
        (((new featureVersion instr txn maxGas).chargeAll before).charge amount).fst ≠ .ok () ->
          meter.balance = 0 ∧ meter.gasUsed maxGas = .ok maxGas)) ∧
    (forall approved (txnData : TransactionMetadata), txnData.maxGasAmount = maxGas ->
      checkGas (some txn) approved txnData = .ok () ->
        ((new featureVersion instr txn maxGas).chargeIntrinsicGasForTransaction
          txnData.transactionSize).fst = .ok ()) := by
  refine ⟨?_, fun _ _ hmax => intrinsic_of_checkGas hscale hbound hlawful hmax⟩
  intro amounts
  dsimp only
  have hused := @gasUsed_eq featureVersion instr txn maxGas hscale hbound _ hlawful amounts
  have hbalance := toNat_balance hscale hlawful
    (txn_chargeAll (new featureVersion instr txn maxGas) amounts)
  refine ⟨balance_le hscale hbound hlawful amounts, hused, ?_, ?_⟩
  · intro hsucceeds
    have hspent := chargeAll_spent hsucceeds
    rw [toNat_new hscale hbound hlawful] at hspent
    have hunits := div_add_roundUp (scale_pos hscale) (Nat.le_of_add_left_le (le_of_eq hspent))
    rw [Nat.sub_eq_of_eq_add hspent.symm, ← hbalance] at hunits
    exact Nat.sub_eq_of_eq_add' hunits.symm
  · intro _ _ _ hsplit hfailed
    have hzero : ((new featureVersion instr txn maxGas).chargeAll amounts).balance = 0 := by
      apply BitVec.eq_of_toNat_eq
      rw [hbalance, chargeAll_failed hsplit hfailed]
      simp
    rw [hused, hzero]
    exact ⟨rfl, congrArg _ (BitVec.sub_zero maxGas)⟩

end

/-- Arithmetic that saturates. -/
instance saturating : GasAlgebra where
  plus a b := BitVec.ofNat 64 (min (a.toNat + b.toNat) (u64Bound - 1))
  times a b := BitVec.ofNat 64 (min (a.toNat * b.toNat) (u64Bound - 1))
  toUnit val multiplier := BitVec.ofNat 64 (min (val.toNat * multiplier.toNat) (u64Bound - 1))
  toUnitRoundDown val ratio :=
    BitVec.ofNat 64 (min (val.toNat * ratio.fst.toNat / ratio.snd.toNat) (u64Bound - 1))
  toUnitRoundUp val ratio :=
    BitVec.ofNat 64 (min ((val.toNat * ratio.fst.toNat + (ratio.snd.toNat - 1)) / ratio.snd.toNat)
      (u64Bound - 1))

theorem toNat_saturated (n : Nat) :
    (BitVec.ofNat 64 (min n (u64Bound - 1))).toNat = min n (u64Bound - 1) := by
  rw [BitVec.toNat_ofNat]
  apply Nat.mod_eq_of_lt
  unfold u64Bound
  omega

theorem saturating_lawful : @GasAlgebra.Lawful saturating := by
  constructor
  · intro _ _ h
    exact (toNat_saturated _).trans (min_eq_left (Nat.le_sub_one_of_lt h))
  · intro _ _ _ _ h
    exact (toNat_saturated _).trans (min_eq_left (Nat.le_sub_one_of_lt h))
  · intro _ _ _ _
    exact toNat_saturated _

def freeCalls : InstructionGasParameters where
  callBase := 0
  callPerArg := 0
  callPerLocal := 0
  callGenericBase := 0
  callGenericPerTyArg := 0
  callGenericPerArg := 0
  callGenericPerLocal := 0

theorem billed_exactly_initial : TransactionGasParameters.initial.gasUnitScalingFactor ≠ 0 ∧
    200 * TransactionGasParameters.initial.gasUnitScalingFactor.toNat < u64Bound ∧
    (new 5 freeCalls .initial 200).Succeeds [15000, 3] ∧
    200 - ((new 5 freeCalls .initial 200).chargeAll [15000, 3]).balance.toNat = 2 := by
  have hsucceeds : (new 5 freeCalls .initial 200).Succeeds [15000, 3] :=
    ⟨by decide, by decide, trivial⟩
  refine ⟨by decide, by decide, hsucceeds, ?_⟩
  exact ((@billed_exactly .initial 200 (by decide) (by decide) _ saturating_lawful 5 freeCalls).left
    [15000, 3]).right.right.left hsucceeds

end OLGasMeter

end OpenLibra.Gas
