import OpenLibra.Framework.FeeConfiguration

/-!
# Processing of the collected fees

At a block boundary the fees of the block before are burnt in part and the rest is recorded for
its proposer.
-/

namespace OpenLibra.Framework

open Rust Move Tables Option

variable {address coinType : Type}

/-!
# Burning a share
-/

theorem share_le {percentage value : Nat} (h : percentage ≤ 100) :
    percentage * value / 100 ≤ value := by
  calc percentage * value / 100
      ≤ 100 * value / 100 := Nat.div_le_div_right (Nat.mul_le_mul_right _ h)
    _ = value := Nat.mul_div_cancel_left _ (by decide)

namespace Resources

variable {chain : Chain address coinType} {s s' : Resources address coinType}

structure Burnt (chain : Chain address coinType)
    (s s' : Resources address coinType) (amount : Nat) : Prop where
  supply : forall v, s.supplyValue chain.olCoin = some v ->
    exists v', s'.supplyValue chain.olCoin = some v' ∧ v' + amount = v
  otherInfo : forall t, t ≠ chain.olCoin -> s'.coinInfo t = s.coinInfo t
  stores : s'.coinStores = s.coinStores
  fees : KeepsFees s s'

theorem Burnt.refl (chain : Chain address coinType) (s : Resources address coinType) :
    Burnt chain s s 0 where
  supply v hv := ⟨v, hv, rfl⟩
  otherInfo _ _ := rfl
  stores := rfl
  fees := KeepsFees.refl s

variable [DecidableEq coinType] {info : CoinInfo} {supply : OptionalAggregator} {coin : Coin}
  {burnPercentage : U8}

theorem exists_burn_eq_ok (hinfo : s.coinInfo chain.olCoin = some info)
    (htracked : info.supply = some supply) (hpos : 0 < coin.value.toNat)
    (hle : coin.value.toNat ≤ supply.read.toNat) :
    exists s', s.burn chain.olCoin coin = .ok s' ∧ Burnt chain s s' coin.value.toNat := by
  have hlt : coin.value.toNat < 2 ^ 128 := lt_trans coin.value.isLt (by decide)
  have hcast : Move.cast 128 coin.value = .ok (BitVec.ofNat 128 coin.value.toNat) := fit_eq_ok hlt
  have hamt := Move.cast_eq_ok_iff.mp hcast
  rw [← hamt] at hle
  rcases OptionalAggregator.exists_sub_eq_ok hle with ⟨supply', hsub⟩
  have hread := OptionalAggregator.read_sub hsub
  rw [hamt] at hread
  refine ⟨s.setCoinInfo chain.olCoin { info with supply := some supply' }, ?_, ?_⟩
  · simp only [burn, borrowCoinInfo, hinfo, borrowGlobal, htracked, hcast,
      hsub, ensure, if_pos hpos, ok_bind, pure_eq]
  · constructor
    · intro _ hv
      refine ⟨supply'.read.toNat, ?_, ?_⟩
      · unfold supplyValue
        rw [coinInfo_setCoinInfo_self]
        rfl
      · unfold supplyValue at hv
        rw [hinfo] at hv
        simp only [htracked, map_some, Option.some.injEq] at hv
        rw [hread, hv]
    · intro _ ht
      exact coinInfo_setCoinInfo_of_ne ht _ _
    · rfl
    · exact ⟨rfl, rfl⟩

theorem burnCoinFraction_eq_ok {rest : Coin}
    (h : s.burnCoinFraction chain coin burnPercentage = .ok (rest, s')) :
    burnPercentage.toNat * coin.value.toNat < 2 ^ 64 ∧
      (0 < burnPercentage.toNat * coin.value.toNat / 100 -> s.burnCap = true) ∧
      rest.value.toNat + burnPercentage.toNat * coin.value.toNat / 100 = coin.value.toNat := by
  rcases of_ensure h with ⟨_, h⟩
  rcases of_bind h with ⟨_, hpct, h⟩
  rcases of_bind h with ⟨product, hprod, h⟩
  have hval := Move.mul_eq_ok_iff.mp hprod
  rw [Move.cast_eq_ok_iff.mp hpct] at hval
  have hshare : (product / 100 : U64).toNat = burnPercentage.toNat * coin.value.toNat / 100 := by
    rw [BitVec.toNat_udiv, hval]
    rfl
  rw [← hshare, ← hval]
  refine ⟨product.isLt, ?_⟩
  dsimp only at h
  split at h
  · rcases of_bind h with ⟨⟨_, _⟩, hextr, h⟩
    rcases of_ensure h with ⟨hcap, h⟩
    rcases of_bind h with ⟨_, _, h⟩
    cases h
    exact ⟨fun _ => hcap, (extract_eq_ok hextr).1⟩
  · next hzero =>
      cases h
      refine ⟨fun hpos => absurd hpos hzero, ?_⟩
      rw [Nat.eq_zero_of_not_pos hzero, add_zero]

theorem exists_burnCoinFraction_eq_ok (hinfo : s.coinInfo chain.olCoin = some info)
    (htracked : info.supply = some supply) (hle : coin.value.toNat ≤ supply.read.toNat)
    (hcap : 0 < burnPercentage.toNat * coin.value.toNat / 100 -> s.burnCap = true)
    (hpct : burnPercentage.toNat ≤ 100) (hprod : burnPercentage.toNat * coin.value.toNat < 2 ^ 64) :
    exists rest s', s.burnCoinFraction chain coin burnPercentage = .ok (rest, s') ∧ Burnt chain s s'
        (burnPercentage.toNat * coin.value.toNat / 100) := by
  have hcast : Move.cast 64 burnPercentage = .ok (BitVec.ofNat 64 burnPercentage.toNat) :=
    fit_eq_ok (lt_of_le_of_lt hpct (by decide))
  have hmul : Move.mul (BitVec.ofNat 64 burnPercentage.toNat) coin.value = .ok (BitVec.ofNat 64
      (burnPercentage.toNat * coin.value.toNat)) := by
    unfold Move.mul
    rw [Move.cast_eq_ok_iff.mp hcast]
    exact fit_eq_ok hprod
  have hval := Move.mul_eq_ok_iff.mp hmul
  rw [Move.cast_eq_ok_iff.mp hcast] at hval
  have hamt : (BitVec.ofNat 64 (burnPercentage.toNat * coin.value.toNat) / 100 : U64).toNat =
      burnPercentage.toNat * coin.value.toNat / 100 := by
    rw [BitVec.toNat_udiv, hval]
    rfl
  have hshare : burnPercentage.toNat * coin.value.toNat / 100 ≤ coin.value.toNat := share_le hpct
  simp only [burnCoinFraction, ensure, if_pos hpct, ok_bind, hcast, hmul]
  rw [← hamt] at hshare hcap ⊢
  split
  · next hpos =>
      have hstored := hcap hpos
      rcases exists_extract_eq_ok hshare with ⟨rest, hextr⟩
      rcases exists_burn_eq_ok hinfo htracked hpos
          (le_trans hshare hle) with ⟨s', hburn, hburnt⟩
      refine ⟨rest, s', ?_, hburnt⟩
      simp only [hextr, ok_bind, hstored, if_true, hburn, pure_eq]
  · next hzero =>
      refine ⟨coin, s, rfl, ?_⟩
      rw [Nat.eq_zero_of_not_pos hzero]
      exact Burnt.refl chain s

theorem share_hundred (value : Nat) : (100 : U8).toNat * value / 100 = value :=
  Nat.mul_div_cancel_left _ (by decide)

theorem burnCollected_eq_ok (h : s.burnCollected chain coin = .ok s') :
    100 * coin.value.toNat < 2 ^ 64 ∧ (0 < coin.value.toNat -> s.burnCap = true) := by
  rcases of_bind h with ⟨⟨_, _⟩, hburn, _⟩
  rcases burnCoinFraction_eq_ok hburn with ⟨hprod, hcap, _⟩
  rw [share_hundred] at hcap
  exact ⟨hprod, hcap⟩

theorem exists_burnCollected_eq_ok (hinfo : s.coinInfo chain.olCoin = some info)
    (htracked : info.supply = some supply) (hle : coin.value.toNat ≤ supply.read.toNat)
    (hcap : s.burnCap = true) (hprod : 100 * coin.value.toNat < 2 ^ 64) :
    exists s', s.burnCollected chain coin = .ok s' ∧ Burnt chain s s' coin.value.toNat := by
  rcases exists_burnCoinFraction_eq_ok hinfo htracked hle (fun _ => hcap)
      (by decide : (100 : U8).toNat ≤ 100) hprod with
    ⟨rest, s', hburn, hburnt⟩
  rcases burnCoinFraction_eq_ok hburn with ⟨_, _, hrest⟩
  rw [share_hundred] at hrest hburnt
  have hzero : destroyZero rest = .ok () := destroyZero_eq_ok_iff.mpr (Nat.add_eq_right.mp hrest)
  refine ⟨s', ?_, hburnt⟩
  simp only [burnCollected, hburn, ok_bind, hzero, pure_eq]

end Resources

/-!
# What processing is for
-/

namespace CollectedFeesPerBlock

def collected (fees : CollectedFeesPerBlock address) : Nat := fees.amount.value.value.toNat

def fraction (fees : CollectedFeesPerBlock address) : Nat :=
  fees.burnPercentage.toNat * fees.collected / 100

variable [DecidableEq address] (chain : Chain address coinType)
  (fees : CollectedFeesPerBlock address)

def realProposer : Option address :=
  fees.proposer.filter fun proposer => proposer ≠ chain.vmReserved

def toBurn : Nat :=
  if (fees.realProposer chain).isSome then fees.fraction else fees.collected

end CollectedFeesPerBlock

namespace Resources

section

variable [DecidableEq coinType]

/-- Fees are collected, and the supply of the coin is tracked and balanced, as
along every run after the start of fee collection. -/
structure FeesReady (chain : Chain address coinType)
    (s : Resources address coinType) (fees : CollectedFeesPerBlock address)
    (loose : coinType -> Nat) : Prop where
  enabled : s.collectedFees = some fees
  percentage : fees.burnPercentage.toNat ≤ 100
  collected : fees.collected < 2 ^ 64
  tracked : (s.supplyValue chain.olCoin).isSome
  balances : Balances chain s loose

theorem FeesReady.covered {chain : Chain address coinType} {s : Resources address coinType}
    {fees : CollectedFeesPerBlock address} {loose : coinType -> Nat}
    (h : FeesReady chain s fees loose) (hpos : fees.collected ≠ 0) :
    exists info supply, s.coinInfo chain.olCoin = some info ∧ info.supply = some supply ∧
      fees.collected ≤ supply.read.toNat := by
  rcases isSome_iff_exists.mp h.tracked with ⟨v, hv⟩
  have hle : fees.collected ≤ v := by
    rw [h.balances chain.olCoin v hv]
    unfold holdings inFees
    rw [if_pos rfl, h.enabled, map_some, getD_some]
    unfold CollectedFeesPerBlock.collected
    omega
  unfold supplyValue at hv
  cases hinfo : s.coinInfo chain.olCoin with
  | none =>
    rw [hinfo] at hv
    cases hv
    exact absurd (Nat.le_zero.mp hle) hpos
  | some info =>
    rw [hinfo] at hv
    rcases map_eq_some_iff.mp hv with ⟨supply, hsup, rfl⟩
    exact ⟨info, supply, rfl, hsup, hle⟩

end

variable [DecidableEq address]

def recordedFee (s : Resources address coinType) (validatorAddr : address) : Nat :=
  (s.validatorFees.map fun table =>
    weightAt World.coinValue table validatorAddr).getD 0

/-- The collected amount and the proposer are empty, the share is burnt and the
rest recorded for the real proposer; nothing else changes. -/
structure FeesProcessed (chain : Chain address coinType) (s s' : Resources address coinType)
    (fees : CollectedFeesPerBlock address) : Prop where
  emptied : exists fees', s'.collectedFees = some fees' ∧
    fees'.collected = 0 ∧ fees'.proposer = none ∧
    fees'.burnPercentage = fees.burnPercentage
  burnt : exists v v', s.supplyValue chain.olCoin = some v ∧
    s'.supplyValue chain.olCoin = some v' ∧ v' + fees.toBurn chain = v
  recorded : forall validatorAddr, s'.recordedFee validatorAddr = s.recordedFee validatorAddr +
      if fees.realProposer chain = some validatorAddr then
        fees.collected - fees.toBurn chain
      else 0
  stores : s'.coinStores = s.coinStores
  otherInfo : forall t, t ≠ chain.olCoin -> s'.coinInfo t = s.coinInfo t

/-- The capability is stored if something is to be burnt, no product and no sum
leaves `u64`, and a fee for a validator has a table to be recorded in. -/
def FeesProcessable (chain : Chain address coinType) (s : Resources address coinType)
    (fees : CollectedFeesPerBlock address) : Prop :=
  fees.collected = 0 ∨ (0 < fees.toBurn chain -> s.burnCap = true) ∧
      match fees.realProposer chain with
      | none => 100 * fees.collected < 2 ^ 64
      | some proposer =>
        fees.burnPercentage.toNat * fees.collected < 2 ^ 64 ∧ s.validatorFees.isSome ∧
          s.recordedFee proposer + (fees.collected - fees.fraction) < 2 ^ 64

variable {s s' : Resources address coinType} {validatorAddr : address}

theorem recordedFee_lt_of_addTransactionFee {fee : Coin}
    (h : s.addTransactionFee validatorAddr fee = .ok s') :
    s.validatorFees.isSome ∧ s.recordedFee validatorAddr + fee.value.toNat < 2 ^ 64 := by
  rcases addTransactionFee_eq_ok h with ⟨_, grown, htable, hval, _⟩
  unfold recordedFee
  rw [htable, map_some, getD_some]
  exact ⟨rfl, lt_of_le_of_lt (le_of_eq hval.symm) grown.value.isLt⟩

theorem weightAt_insert_grown {table} {grown : Coin} {amount : Nat}
    (h : grown.value.toNat = weightAt World.coinValue table validatorAddr + amount)
    (other : address) : weightAt World.coinValue (table.insert validatorAddr grown) other =
      weightAt World.coinValue table other +
        if validatorAddr = other then amount else 0 := by
  by_cases hother : validatorAddr = other
  · subst hother
    rw [weightAt_insert_self, if_pos rfl]
    exact h
  · rw [weightAt_insert_of_ne _ (Ne.symm hother), if_neg hother, add_zero]

theorem exists_addTransactionFee_eq_ok {fee : Coin} (htable : s.validatorFees.isSome)
    (hlt : s.recordedFee validatorAddr + fee.value.toNat < 2 ^ 64) :
    exists table, s.addTransactionFee validatorAddr fee =
      .ok { s with validatorFees := some table } ∧
      forall other, weightAt World.coinValue table other = s.recordedFee other +
          if validatorAddr = other then fee.value.toNat else 0 := by
  rcases isSome_iff_exists.mp htable with ⟨feesTable, hfound⟩
  unfold recordedFee at hlt ⊢
  simp only [hfound, map_some, getD_some] at hlt ⊢
  cases hlook : feesTable.lookup validatorAddr with
  | none =>
    refine ⟨feesTable.insert validatorAddr fee, ?_, ?_⟩
    · simp only [addTransactionFee, hfound, borrowGlobal, ok_bind, hlook, pure_eq]
    · apply weightAt_insert_grown
      rw [weightAt_of_notMem hlook, zero_add]
  | some collectedFee =>
    rw [weightAt_of_lookup hlook] at hlt
    have hmerge : exists grown, merge collectedFee fee = .ok grown := by
      let sum := collectedFee.value.toNat + fee.value.toNat
      refine ⟨{ value := BitVec.ofNat 64 sum }, ?_⟩
      exact merge_eq_ok_iff.mpr (Nat.mod_eq_of_lt hlt)
    rcases hmerge with ⟨grown, hmerge⟩
    refine ⟨feesTable.insert validatorAddr grown, ?_, ?_⟩
    · simp only [addTransactionFee, hfound, borrowGlobal, ok_bind, hlook, hmerge, pure_eq]
    · apply weightAt_insert_grown
      rw [weightAt_of_lookup hlook]
      exact merge_eq_ok_iff.mp hmerge

/-!
# Processing
-/

theorem drainAggregatableCoin_of_lt {coin} (h : coin.value.value.toNat < 2 ^ 64) :
    exists rest out, drainAggregatableCoin coin = .ok (rest, out) := by
  have hmax : coin.value.read.toNat ≤ maxU64.toNat := Nat.le_of_lt_succ h
  have hsub : coin.value.sub coin.value.read =
    .ok { coin.value with value := 0 } :=
    Aggregator.sub_eq_ok_iff.mpr ⟨rfl, zero_add _⟩
  have hcast : Move.cast 64 coin.value.read =
    .ok (BitVec.ofNat 64 coin.value.read.toNat) := fit_eq_ok h
  refine ⟨{ value := { coin.value with value := 0 } },
    { value := BitVec.ofNat 64 coin.value.read.toNat }, ?_⟩
  simp only [drainAggregatableCoin, ensure, if_pos hmax, ok_bind, hsub, hcast, pure_eq]

def afterDrain (s : Resources address coinType)
    (fees : CollectedFeesPerBlock address) (amount : AggregatableCoin) :
    Resources address coinType :=
  { s with
    collectedFees := some { fees with amount := amount, proposer := none } }

variable [DecidableEq coinType] {chain : Chain address coinType}
  {fees : CollectedFeesPerBlock address} {loose : coinType -> Nat}

theorem processCollectedFees_of_zero (henabled : s.collectedFees = some fees)
    (hzero : fees.collected = 0) :
    s.processCollectedFees chain = .ok (s.afterDrain fees fees.amount) := by
  have hread : fees.amount.value.read = 0 := BitVec.eq_of_toNat_eq hzero
  simp only [processCollectedFees, henabled, isAggregatableCoinZero, hread, decide_true, if_true]
  rfl

theorem processCollectedFees_of_pos (henabled : s.collectedFees = some fees)
    (hpos : fees.collected ≠ 0) (hlt : fees.collected < 2 ^ 64) :
    exists amount coin, amount.value.value.toNat = 0 ∧ coin.value.toNat = fees.collected ∧
      s.processCollectedFees chain =
        (match fees.realProposer chain with
          | none => (s.afterDrain fees amount).burnCollected chain coin
          | some proposer => do
            let (rest, s) <- (s.afterDrain fees amount).burnCoinFraction
              chain coin fees.burnPercentage
            s.addTransactionFee proposer rest) := by
  have hread : ¬ fees.amount.value.read = 0 := by
    intro hread
    exact hpos (congrArg BitVec.toNat hread)
  rcases drainAggregatableCoin_of_lt hlt with ⟨amount, coin, hdrain⟩
  rcases drainAggregatableCoin_eq_ok hdrain with ⟨hamt, hcoin⟩
  refine ⟨amount, coin, hamt, hcoin, ?_⟩
  simp only [processCollectedFees, henabled, isAggregatableCoinZero, hread, decide_false,
    Bool.false_eq_true, if_false, hdrain, ok_bind, CollectedFeesPerBlock.realProposer]
  cases hprop : fees.proposer with
  | none => rfl
  | some proposer =>
    by_cases hvm : proposer = chain.vmReserved
    · simp only [Option.filter, hvm, ne_eq, not_true_eq_false, decide_false, if_true]
      rfl
    · simp only [Option.filter, hvm, ne_eq, not_false_eq_true, decide_true, if_false]
      rfl

theorem FeesReady.processed (h : FeesReady chain s fees loose) {amount}
    (hamt : amount.value.value.toNat = 0)
    (hburnt : Burnt chain (s.afterDrain fees amount) s' (fees.toBurn chain)) {table}
    (hrecd : forall validatorAddr, ({ s' with validatorFees := table } : Resources address
      coinType).recordedFee validatorAddr = s.recordedFee validatorAddr + if fees.realProposer chain
      = some validatorAddr then fees.collected - fees.toBurn chain else 0) :
    FeesProcessed chain s { s' with validatorFees := table } fees := by
  rcases isSome_iff_exists.mp h.tracked with ⟨v, hv⟩
  rcases hburnt.supply v hv with ⟨v', hv', hsum⟩
  constructor
  · exact ⟨_, hburnt.fees.collectedFees, hamt, rfl, rfl⟩
  · exact ⟨v, v', hv, hv', hsum⟩
  · exact hrecd
  · exact hburnt.stores
  · exact hburnt.otherInfo

theorem feesProcessable_of_eq_ok (hready : FeesReady chain s fees loose)
    (h : s.processCollectedFees chain = .ok s') : FeesProcessable chain s fees := by
  by_cases hzero : fees.collected = 0
  · exact .inl hzero
  · apply Or.inr
    rcases processCollectedFees_of_pos hready.enabled hzero hready.collected with
      ⟨amount, coin, _, hcoin, hproc⟩
    rw [hproc] at h
    unfold CollectedFeesPerBlock.toBurn
    cases hprop : fees.realProposer chain with
    | none =>
      rw [hprop] at h
      rcases burnCollected_eq_ok h with ⟨hprod, hcap⟩
      rw [hcoin] at hprod hcap
      exact ⟨hcap, hprod⟩
    | some =>
      rw [hprop] at h
      rcases of_bind h with ⟨⟨rest, _⟩, hburn, h⟩
      rcases burnCoinFraction_eq_ok hburn with ⟨hprod, hcap, hrest⟩
      rcases recordedFee_lt_of_addTransactionFee h with ⟨htable, hsum⟩
      have hkeeps := (moves_burnCoinFraction hburn).keepsFees.validatorFees
      unfold recordedFee at hsum
      rw [hkeeps] at htable hsum
      rw [hcoin] at hprod hcap hrest
      have hval : rest.value.toNat = fees.collected - fees.fraction := Nat.eq_sub_of_add_eq hrest
      rw [hval] at hsum
      exact ⟨hcap, hprod, htable, hsum⟩

theorem exists_processed_of_zero (hready : FeesReady chain s fees loose)
    (hzero : fees.collected = 0) :
    exists s', s.processCollectedFees chain = .ok s' ∧ FeesProcessed chain s s' fees := by
  have hburn : fees.toBurn chain = 0 := by
    unfold CollectedFeesPerBlock.toBurn CollectedFeesPerBlock.fraction
    rw [hzero]
    simp
  have hframe := Burnt.refl chain (s.afterDrain fees fees.amount)
  rw [← hburn] at hframe
  refine ⟨_, processCollectedFees_of_zero hready.enabled hzero, ?_⟩
  refine hready.processed hzero hframe ?_
  intro _
  rw [hzero, Nat.zero_sub, ite_self]
  rfl

theorem exists_processed_of_none (hready : FeesReady chain s fees loose)
    (hpos : fees.collected ≠ 0) (hprop : fees.realProposer chain = none)
    (hcap : s.burnCap = true) (hprod : 100 * fees.collected < 2 ^ 64) :
    exists s', s.processCollectedFees chain = .ok s' ∧ FeesProcessed chain s s' fees := by
  rcases hready.covered hpos with ⟨_, _, hinfo, htracked, hle⟩
  rcases processCollectedFees_of_pos hready.enabled hpos hready.collected with
    ⟨amount, coin, hamt, hcoin, hproc⟩
  have hburn : fees.toBurn chain = coin.value.toNat := by
    unfold CollectedFeesPerBlock.toBurn
    rw [hprop, hcoin]
    rfl
  rw [← hcoin] at hle hprod
  have hdrained : exists s', (s.afterDrain fees amount).burnCollected chain coin = .ok s' ∧
    Burnt chain (s.afterDrain fees amount) s' coin.value.toNat := by
    refine exists_burnCollected_eq_ok ?_ htracked hle ?_ hprod
    · exact hinfo
    · exact hcap
  rcases hdrained with ⟨s', hburnt, hframe⟩
  rw [← hburn] at hframe
  rw [hprop] at hproc
  refine ⟨s', hproc.trans hburnt, ?_⟩
  refine hready.processed hamt hframe ?_
  intro _
  rw [hprop, if_neg (by simp), add_zero]
  unfold recordedFee
  rw [hframe.fees.validatorFees]
  rfl

theorem exists_processed_of_some (hready : FeesReady chain s fees loose) (hpos : fees.collected ≠ 0)
    {proposer : address} (hprop : fees.realProposer chain = some proposer)
    (hcap : 0 < fees.fraction -> s.burnCap = true)
    (hprod : fees.burnPercentage.toNat * fees.collected < 2 ^ 64) (htable : s.validatorFees.isSome)
    (hsum : s.recordedFee proposer + (fees.collected - fees.fraction) < 2 ^ 64) :
    exists s', s.processCollectedFees chain = .ok s' ∧ FeesProcessed chain s s' fees := by
  rcases hready.covered hpos with ⟨_, _, hinfo, htracked, hle⟩
  rcases processCollectedFees_of_pos hready.enabled hpos hready.collected with
    ⟨amount, coin, hamt, hcoin, hproc⟩
  have hburn : fees.toBurn chain = fees.fraction := by
    unfold CollectedFeesPerBlock.toBurn
    rw [hprop]
    rfl
  unfold CollectedFeesPerBlock.fraction at hcap
  rw [← hcoin] at hle hprod hcap
  have hdrained : exists rest s', (s.afterDrain fees amount).burnCoinFraction
    chain coin fees.burnPercentage = .ok (rest, s') ∧
    Burnt chain (s.afterDrain fees amount) s'
      (fees.burnPercentage.toNat * coin.value.toNat / 100) := by
    refine exists_burnCoinFraction_eq_ok ?_ htracked hle ?_ hready.percentage hprod
    · exact hinfo
    · exact hcap
  rcases hdrained with ⟨rest, burnt, hburnt, hframe⟩
  rcases burnCoinFraction_eq_ok hburnt with ⟨_, _, hrest⟩
  rw [hcoin] at hframe hrest
  have hval : rest.value.toNat = fees.collected - fees.fraction := Nat.eq_sub_of_add_eq hrest
  have hkeeps : burnt.validatorFees = s.validatorFees := hframe.fees.validatorFees
  have hsame : forall other, burnt.recordedFee other = s.recordedFee other := by
    intro _
    unfold recordedFee
    rw [hkeeps]
  rw [← hval, ← hsame] at hsum
  rw [← hkeeps] at htable
  rcases exists_addTransactionFee_eq_ok htable hsum with ⟨table, hadd, hweights⟩
  refine ⟨{ burnt with validatorFees := some table }, ?_, ?_⟩
  · rw [hproc, hprop]
    simp only [hburnt, ok_bind]
    exact hadd
  · rw [← hburn] at hval
    apply hready.processed hamt (by rw [hburn]; exact hframe)
    intro validatorAddr
    rw [hprop, ← hsame, ← hval]
    simp only [Option.some.injEq]
    exact hweights validatorAddr

/-- Processing succeeds and does what it is for exactly under the condition. -/
theorem processCollectedFees_correct_iff (hready : FeesReady chain s fees loose) :
    (exists s', s.processCollectedFees chain = Outcome.ok s' ∧
      FeesProcessed chain s s' fees) <-> FeesProcessable chain s fees := by
  constructor
  · rintro ⟨_, h, _⟩
    exact feesProcessable_of_eq_ok hready h
  · intro h
    rcases h with hzero | ⟨hcap, h⟩
    · exact exists_processed_of_zero hready hzero
    · by_cases hzero : fees.collected = 0
      · exact exists_processed_of_zero hready hzero
      · unfold CollectedFeesPerBlock.toBurn at hcap
        cases hproposer : fees.realProposer chain with
        | none =>
          rw [hproposer] at hcap h
          exact exists_processed_of_none hready hzero hproposer (hcap (Nat.pos_of_ne_zero hzero)) h
        | some =>
          rw [hproposer] at hcap h
          rcases h with ⟨hproduct, htable, hsum⟩
          exact exists_processed_of_some hready hzero hproposer hcap hproduct htable hsum

end Resources

namespace World

open Resources

section

variable [DecidableEq address] [DecidableEq coinType] {chain : Chain address coinType}
  {w : World address coinType} {fees : CollectedFeesPerBlock address}

theorem feesReady_run (hfresh : w.Fresh chain) (hconf : w.resources.FeesConfigured)
    (operations : List (Operation address coinType))
    (henabled : (w.run chain operations).resources.collectedFees = some fees)
    (hcolld : fees.collected < 2 ^ 64)
    (htracked : ((w.run chain operations).resources.supplyValue chain.olCoin).isSome) :
    FeesReady chain (w.run chain operations).resources fees (w.run chain operations).loose where
  enabled := henabled
  percentage := (feesConfigured_run hconf operations).percentage fees henabled
  collected := hcolld
  tracked := htracked
  balances := balanced_run (balanced_of_fresh hfresh) operations

end

/-!
# Runs of the small chain
-/

def smallFees : CollectedFeesPerBlock Nat :=
  { amount := { value := { value := 100, limit := maxU64 } }
    proposer := some 0
    burnPercentage := 50 }

theorem smallWorld_feesConfigured (accounts : List Nat) :
    (smallWorld accounts).resources.FeesConfigured where
  percentage := by
    intro _ hfees
    cases hfees
  noTable := rfl

/-- A block of the VM: all of its fees are burnt. -/
theorem processCollectedFees_correct_smallFees :
    exists s', (afterFees 100 0).resources.processCollectedFees smallChain = Outcome.ok s' ∧
      FeesProcessed smallChain (afterFees 100 0).resources s' smallFees := by
  have hready : FeesReady smallChain (afterFees 100 0).resources smallFees
    (afterFees 100 0).loose := by
    apply feesReady_run (smallWorld_fresh [7]) (smallWorld_feesConfigured [7])
    · decide +kernel
    · decide +kernel
    · decide +kernel
  apply (processCollectedFees_correct_iff hready).mpr
  have hcap : (afterFees 100 0).resources.burnCap = true := by decide +kernel
  have hproduct : 100 * smallFees.collected < 2 ^ 64 := by decide
  exact .inr ⟨fun _ => hcap, hproduct⟩

/-- Fees of a hundred for a real proposer, and `2 ^ 62` for the VM. -/
theorem processCollectedFees_aborts : (afterFees 100 9).resources.processCollectedFees smallChain =
      Outcome.err Abort.missingData ∧
    (afterFees (BitVec.ofNat 64 (2 ^ 62)) 0).resources.processCollectedFees
      smallChain = Outcome.err Abort.arithmeticError := by
  constructor
  · rfl
  · rfl

end World

end OpenLibra.Framework
