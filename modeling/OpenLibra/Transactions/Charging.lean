import OpenLibra.Framework.FeeLimit
import OpenLibra.Framework.FeeProcessing
import OpenLibra.Transactions.Validation

/-!
# Charging a transaction

What a prologue has checked is enough for the epilogue: the fee is covered by
the balance, the fee can be collected or burnt, and the sequence number can be
increased.
-/

namespace OpenLibra
namespace Framework

open Rust Move Tables

/-!
# Taking coins out of a store
-/

theorem Aggregator.exists_add_eq_ok {self : Aggregator} {amount : U128}
    (h : self.value.toNat + amount.toNat ≤ self.limit.toNat) :
    exists next, self.add amount = .ok next := by
  have hlt := self.limit.isLt
  have hsum : (self.value + amount).toNat = self.value.toNat + amount.toNat := by
    rw [BitVec.toNat_add, Nat.mod_eq_of_lt (lt_of_le_of_lt h hlt)]
  refine ⟨{ self with value := self.value + amount }, ?_⟩
  refine Aggregator.add_eq_ok_iff.mpr ⟨rfl, hsum, ?_⟩
  change (self.value + amount).toNat ≤ self.limit.toNat
  rw [hsum]
  exact h

theorem exists_cast_128_eq_ok (amount : U64) : exists wide : U128, Move.cast 128 amount = .ok wide ∧
    wide.toNat = amount.toNat := by
  have hlt : amount.toNat < 2 ^ 128 := lt_trans amount.isLt (by decide)
  have hcast : Move.cast 128 amount = .ok (BitVec.ofNat 128 amount.toNat) := Move.fit_eq_ok hlt
  exact ⟨_, hcast, Move.cast_eq_ok_iff.mp hcast⟩

theorem exists_mergeAggregatableCoin_eq_ok {dstCoin : AggregatableCoin} {coin : Coin}
    (h : dstCoin.value.value.toNat + coin.value.toNat ≤ dstCoin.value.limit.toNat) :
    exists merged, mergeAggregatableCoin dstCoin coin = .ok merged := by
  rcases exists_cast_128_eq_ok coin.value with ⟨_, hcast, hwide⟩
  rw [← hwide] at h
  rcases Aggregator.exists_add_eq_ok h with ⟨sum, hsum⟩
  refine ⟨{ value := sum }, ?_⟩
  simp only [mergeAggregatableCoin, hcast, hsum, ok_bind, pure_eq]

namespace Resources

section

variable {address coinType : Type} [DecidableEq coinType] {chain : Chain address coinType}
  {s : Resources address coinType}

theorem exists_burn_eq_ok_of_covered {coin : Coin} (hpos : 0 < coin.value.toNat)
    (hcovered : forall v, s.supplyValue chain.olCoin = some v -> coin.value.toNat ≤ v) :
    exists s', s.burn chain.olCoin coin = .ok s' ∧ s'.coinStores = s.coinStores := by
  unfold supplyValue at hcovered
  cases hinfo : s.coinInfo chain.olCoin with
  | none =>
    rw [hinfo] at hcovered
    exact absurd (hcovered 0 rfl) (Nat.not_le_of_lt hpos)
  | some info =>
    rw [hinfo] at hcovered
    cases hsup : info.supply with
    | none =>
      refine ⟨s, ?_, rfl⟩
      simp only [burn, borrowCoinInfo, hinfo, borrowGlobal, hsup,
        ensure, if_pos hpos, ok_bind, pure_eq]
    | some supply =>
      have hle : coin.value.toNat ≤ supply.read.toNat := by
        apply hcovered
        simp only [hsup, Option.map_some]
      rcases exists_burn_eq_ok hinfo hsup hpos hle with ⟨s', hburn, hburnt⟩
      exact ⟨s', hburn, hburnt.stores⟩

end

variable {address coinType : Type} [DecidableEq address] {s s' : Resources address coinType}
  {t : coinType} {accountAddr : address} {store : CoinStore} {amount : U64}

def Paid (s : Resources address coinType) (t : coinType)
    (accountAddr : address) (before amount : Nat) : Prop :=
  exists store, (s.coinStores t).lookup accountAddr = some store ∧
    store.coin.value.toNat + amount = before

theorem storeValue_le_inStores (hstore : (s.coinStores t).lookup accountAddr = some store) :
    store.coin.value.toNat ≤ s.inStores t := by
  have hle := weightAt_le_total storeValue accountAddr (s.coinStores t)
  rw [weightAt_of_lookup hstore] at hle
  exact hle

variable [DecidableEq coinType]

theorem paid_setCoinStore {rest : Coin} {before : Nat}
    (hrest : rest.value.toNat + amount.toNat = before) :
    (s.setCoinStore t accountAddr { store with coin := rest }).Paid t
      accountAddr before amount.toNat := by
  refine ⟨{ store with coin := rest }, ?_, hrest⟩
  rw [coinStores_setCoinStore_self, AList.lookup_insert]

variable {chain : Chain address coinType} {loose : coinType -> Nat}

theorem storeValue_le_holdings
    (hstore : (s.coinStores chain.olCoin).lookup accountAddr = some store) :
    store.coin.value.toNat + s.inFees ≤ s.holdings chain chain.olCoin := by
  unfold holdings
  rw [if_pos rfl]
  exact Nat.add_le_add_right (storeValue_le_inStores hstore) _

theorem exists_burnFee_eq_ok (hcap : s.burnCap = true) (hbals : Balances chain s loose)
    (hstore : (s.coinStores chain.olCoin).lookup accountAddr = some store)
    (hle : amount.toNat ≤ store.coin.value.toNat) :
    exists s', s.burnFee chain accountAddr amount = .ok s' ∧
      s'.Paid chain.olCoin accountAddr store.coin.value.toNat amount.toNat := by
  simp only [burnFee, hcap, ensure, if_true, ok_bind]
  by_cases hzero : amount = 0
  · refine ⟨s, if_pos hzero, store, hstore, ?_⟩
    rw [hzero]
    rfl
  · have hpos : 0 < amount.toNat := by
      apply Nat.pos_of_ne_zero
      intro h
      exact hzero (BitVec.eq_of_toNat_eq h)
    rcases exists_extract_eq_ok hle with ⟨rest, hextr⟩
    rcases extract_eq_ok hextr with ⟨hrest, _⟩
    let taken := s.setCoinStore chain.olCoin accountAddr
      { store with coin := rest }
    have hcovered : forall v, taken.supplyValue chain.olCoin = some v ->
      ({ value := amount } : Coin).value.toNat ≤ v := by
      intro v hv
      rw [hbals chain.olCoin v hv]
      have hheld := storeValue_le_holdings hstore
      change amount.toNat ≤ _
      omega
    have hburnable : exists s', taken.burn chain.olCoin { value := amount } = .ok s' ∧
          s'.coinStores = taken.coinStores :=
      exists_burn_eq_ok_of_covered hpos hcovered
    rcases hburnable with ⟨s', hburn, hstores⟩
    refine ⟨s', ?_, ?_⟩
    · simp only [burnFrom, if_neg hzero, borrowCoinStore, hstore, borrowGlobal, hextr, ok_bind]
      exact hburn
    · have hpaid : taken.Paid chain.olCoin accountAddr
          store.coin.value.toNat amount.toNat := paid_setCoinStore hrest
      unfold Paid at hpaid ⊢
      rw [hstores]
      exact hpaid

theorem exists_collectFee_eq_ok {fees} (hfees : s.collectedFees = some fees)
    (hlim : fees.amount.value.limit = maxU64) (hfits : s.holdings chain chain.olCoin < 2 ^ 64)
    (hstore : (s.coinStores chain.olCoin).lookup accountAddr = some store)
    (hle : amount.toNat ≤ store.coin.value.toNat) :
    exists s', s.collectFee chain accountAddr amount = .ok s' ∧
      s'.Paid chain.olCoin accountAddr store.coin.value.toNat amount.toNat := by
  simp only [collectFee, hfees, borrowGlobal, ok_bind]
  by_cases hzero : amount = 0
  · refine ⟨{ s with collectedFees := some fees }, ?_, store, hstore, ?_⟩
    · simp only [collectIntoAggregatableCoin, if_pos hzero, ok_bind, pure_eq]
    · rw [hzero]
      rfl
  · rcases exists_extract_eq_ok hle with ⟨rest, hextr⟩
    rcases extract_eq_ok hextr with ⟨hrest, _⟩
    -- What is collected already and what is in the store fit together.
    have hroom : fees.amount.value.value.toNat + ({ value := amount } : Coin).value.toNat ≤
          fees.amount.value.limit.toNat := by
      have hheld := storeValue_le_holdings hstore
      have hin : fees.amount.value.value.toNat ≤ s.inFees := by
        unfold inFees
        rw [hfees]
        exact Nat.le_add_right _ _
      have hmax : fees.amount.value.limit.toNat = 2 ^ 64 - 1 := by
        rw [hlim]
        rfl
      rw [hmax]
      change fees.amount.value.value.toNat + amount.toNat ≤ _
      omega
    rcases exists_mergeAggregatableCoin_eq_ok hroom with ⟨merged, hmerged⟩
    refine ⟨{ s.setCoinStore chain.olCoin accountAddr
        { store with coin := rest } with
      collectedFees := some { fees with amount := merged } }, ?_, ?_⟩
    · simp only [collectIntoAggregatableCoin, if_neg hzero, borrowCoinStore,
        hstore, borrowGlobal, hextr, hmerged, ok_bind,
        pure_eq]
    · exact paid_setCoinStore hrest

end Resources

end Framework

namespace Transactions

open Rust Move Accounts Framework.Resources

/-!
# The epilogue after a prologue
-/

variable {coinType : Type} [DecidableEq coinType] {chain : Framework.Chain Address coinType}
  {ledger : Ledger coinType} {txn : Transaction} {loose : coinType -> Nat}

/-- Fees can be taken: the resource for collected fees or the capability to burn
is there.  The supply is what is held somewhere, and fits.  That aggregatable
coins have the limit they were made with holds along every run. -/
structure Chargeable (chain : Framework.Chain Address coinType)
    (ledger : Ledger coinType) (loose : coinType -> Nat) : Prop where
  collected : ledger.collectAndDistributeGasFees = true ->
    exists fees, ledger.coins.collectedFees = some fees
  burnCap : ledger.collectAndDistributeGasFees = false -> ledger.coins.burnCap = true
  limited : ledger.coins.FeesLimited
  balances : Balances chain ledger.coins loose
  fits : ledger.coins.holdings chain chain.olCoin + loose chain.olCoin < 2 ^ 64

/-- Along every run of the coin operations only the resources for fees and the size of the supply
are left to ask for. -/
theorem chargeable_run {w : Framework.World Address coinType} (hfresh : w.Fresh chain)
    (hnone : w.resources.collectedFees = none)
    (operations : List (Framework.Operation Address coinType))
    (hcoins : ledger.coins = (w.run chain operations).resources)
    (hcollected : ledger.collectAndDistributeGasFees = true ->
      exists fees, ledger.coins.collectedFees = some fees)
    (hburnCap : ledger.collectAndDistributeGasFees = false -> ledger.coins.burnCap = true)
    (hfits : (w.run chain operations).inExistence chain chain.olCoin < 2 ^ 64) :
    Chargeable chain ledger (w.run chain operations).loose where
  collected := hcollected
  burnCap := hburnCap
  limited := by
    rw [hcoins]
    refine Framework.World.feesLimited_run (fun fees hfees => ?_) operations
    cases hnone.symm.trans hfees
  balances := by
    rw [hcoins]
    exact Framework.World.balanced_run (Framework.World.balanced_of_fresh hfresh) operations
  fits := by
    rw [hcoins]
    exact hfits

theorem exists_payFee_eq_ok (hledger : Chargeable chain ledger loose) {addr : Address} {store}
    {amount : U64} (hstore : (ledger.coins.coinStores chain.olCoin).lookup addr = some store)
    (hle : amount.toNat ≤ store.coin.value.toNat) :
    exists coins, ledger.payFee chain addr amount = .ok coins ∧
      coins.Paid chain.olCoin addr store.coin.value.toNat amount.toNat := by
  unfold Ledger.payFee
  cases hflag : ledger.collectAndDistributeGasFees with
  | true =>
    rcases hledger.collected hflag with ⟨fees, hfees⟩
    have hfits := lt_of_le_of_lt (Nat.le_add_right _ _) hledger.fits
    exact exists_collectFee_eq_ok hfees (hledger.limited fees hfees) hfits hstore hle
  | false => exact exists_burnFee_eq_ok (hledger.burnCap hflag) hledger.balances hstore hle

theorem exists_incrementSequenceNumber_eq_ok {s : Store} {addr : Address} {account : Account}
    (hfound : s.accounts.lookup addr = some account)
    (hbig : account.sequenceNumber.toNat < maxU64) :
    exists s' next, s.incrementSequenceNumber addr = .ok s' ∧ s'.accounts.lookup addr =
        some { account with sequenceNumber := next } ∧
      next.toNat = account.sequenceNumber.toNat + 1 := by
  have hfits : account.sequenceNumber.toNat + (1 : U64).toNat < 2 ^ 64 :=
    Nat.add_lt_add_right hbig 1
  have hadd : Move.add account.sequenceNumber 1 = .ok
    (BitVec.ofNat 64 (account.sequenceNumber.toNat + 1)) :=
    Move.fit_eq_ok hfits
  refine ⟨(s.setAccount addr
    { account with
      sequenceNumber := BitVec.ofNat 64 (account.sequenceNumber.toNat + 1) }).record
      (.transactionSent addr), _, ?_,
    Store.lookup_setAccount_self s addr _, Move.add_eq_ok_iff.mp hadd⟩
  simp only [Store.incrementSequenceNumber, Store.borrowAccount, hfound, borrowGlobal, ensure,
    if_pos hbig, hadd, ok_bind, pure_eq]

def feeOf (txn : Transaction) (gasUnitsRemaining : U64) : Nat :=
  txn.gasUnitPrice.toNat * (txn.maxGasAmount.toNat - gasUnitsRemaining.toNat)

/-- The epilogue has taken the fee and counted the transaction. -/
structure Charged (chain : Framework.Chain Address coinType)
    (ledger ledger' : Ledger coinType) (txn : Transaction)
    (gasUnitsRemaining : U64) : Prop where
  balance : exists before after, ledger.balance chain txn.sender = .ok before ∧
    ledger'.balance chain txn.sender = .ok after ∧
    after.toNat + feeOf txn gasUnitsRemaining = before.toNat
  sequenceNumber : exists account account',
    ledger.accounts.accounts.lookup txn.sender = some account ∧
    ledger'.accounts.accounts.lookup txn.sender = some account' ∧
    account'.sequenceNumber.toNat = account.sequenceNumber.toNat + 1

theorem exists_epilogue_eq_ok (hledger : Chargeable chain ledger loose)
    (hprol : ledger.prologueCommon chain txn = .ok ()) {gasUnitsRemaining : U64}
    (hrem : gasUnitsRemaining.toNat ≤ txn.maxGasAmount.toNat) :
    exists ledger', ledger.epilogue chain txn gasUnitsRemaining = .ok ledger' ∧
      Charged chain ledger ledger' txn gasUnitsRemaining := by
  rcases checked_of_prologueCommon hprol with ⟨account, store, hchk⟩
  have hused : Move.sub txn.maxGasAmount gasUnitsRemaining = .ok (BitVec.ofNat 64
      (txn.maxGasAmount.toNat - gasUnitsRemaining.toNat)) :=
    if_pos hrem
  have husedVal : (BitVec.ofNat 64 (txn.maxGasAmount.toNat - gasUnitsRemaining.toNat)).toNat =
      txn.maxGasAmount.toNat - gasUnitsRemaining.toNat := by
    have hval := Move.sub_eq_ok_iff.mp hused
    omega
  have hcovered : feeOf txn gasUnitsRemaining ≤ store.coin.value.toNat :=
    le_trans (Nat.mul_le_mul_left _ (Nat.sub_le _ _)) hchk.feeFits
  have hfits : feeOf txn gasUnitsRemaining < 2 ^ 64 :=
    lt_of_le_of_lt hcovered store.coin.value.isLt
  have hmul : Move.mul txn.gasUnitPrice (BitVec.ofNat 64
    (txn.maxGasAmount.toNat - gasUnitsRemaining.toNat)) = .ok
      (BitVec.ofNat 64 (feeOf txn gasUnitsRemaining)) := by
    unfold Move.mul
    rw [husedVal]
    exact Move.fit_eq_ok hfits
  have hamt : (BitVec.ofNat 64 (feeOf txn gasUnitsRemaining)).toNat =
    feeOf txn gasUnitsRemaining := by
    rw [BitVec.toNat_ofNat, Nat.mod_eq_of_lt hfits]
  have hbalance : ledger.balance chain txn.sender = .ok store.coin.value :=
    balance_eq_ok_iff.mpr ⟨store, hchk.hasStore, rfl⟩
  rcases exists_payFee_eq_ok hledger hchk.hasStore (le_trans (le_of_eq hamt) hcovered) with
    ⟨coins, hpay, store', hstore', hpaid⟩
  have hbig : account.sequenceNumber.toNat < maxU64 := by
    rw [hchk.sequenceNumber]
    exact hchk.notTooBig
  rcases exists_incrementSequenceNumber_eq_ok hchk.hasAccount hbig with
    ⟨accounts, next, hincrement, hacct', hnext⟩
  refine ⟨{ ledger with
    coins := coins
    accounts := accounts }, ?_, ?_⟩
  · have hrange : txn.gasUnitPrice.toNat *
        (txn.maxGasAmount.toNat - gasUnitsRemaining.toNat) ≤ maxU64 :=
      Nat.le_of_lt_succ hfits
    simp only [Ledger.epilogue, ensure, if_pos hrem, hused, husedVal, if_pos hrange, hmul,
      hbalance, hamt, if_pos hcovered, hpay, hincrement, ok_bind, pure_eq]
  · constructor
    · refine ⟨store.coin.value, store'.coin.value, hbalance, ?_, ?_⟩
      · exact balance_eq_ok_iff.mpr ⟨store', hstore', rfl⟩
      · rw [← hamt]
        exact hpaid
    · exact ⟨account, { account with sequenceNumber := next }, hchk.hasAccount, hacct', hnext⟩

end Transactions
end OpenLibra
