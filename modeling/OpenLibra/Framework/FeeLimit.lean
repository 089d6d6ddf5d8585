import OpenLibra.Framework.Operations

/-!
# The limit of the collected fees

An aggregatable coin is made with the largest `u64` as its limit, which no function changes.  So
along every run fees are collected up to it.
-/

namespace OpenLibra.Framework

open Rust Move

theorem limit_mergeAggregatableCoin {dstCoin merged} {coin : Coin}
    (h : mergeAggregatableCoin dstCoin coin = .ok merged) :
    merged.value.limit = dstCoin.value.limit := by
  rcases of_bind h with ⟨_, _, h⟩
  rcases of_bind h with ⟨_, hsum, h⟩
  cases h
  exact (Aggregator.add_eq_ok_iff.mp hsum).1

theorem limit_drainAggregatableCoin {coin rest} {out : Coin}
    (h : drainAggregatableCoin coin = .ok (rest, out)) : rest.value.limit = coin.value.limit := by
  rcases of_ensure h with ⟨_, h⟩
  rcases of_bind h with ⟨_, hleft, h⟩
  rcases of_bind h with ⟨_, _, h⟩
  cases h
  exact (Aggregator.sub_eq_ok_iff.mp hleft).1

namespace Resources

variable {address coinType : Type} {s s' : Resources address coinType}

def FeesLimited (s : Resources address coinType) : Prop :=
  forall fees, s.collectedFees = some fees -> fees.amount.value.limit = maxU64

theorem FeesLimited.keep (h : s.FeesLimited) (hkeeps : KeepsFees s s') : s'.FeesLimited := by
  unfold FeesLimited
  rw [hkeeps.collectedFees]
  exact h

theorem feesLimited_set {fees} (hlim : fees.amount.value.limit = maxU64) :
    { s with collectedFees := some fees }.FeesLimited := by
  intro _ hfound
  cases hfound
  exact hlim

theorem feesLimited_of_keeps {fees} (hkeeps : KeepsFees { s with collectedFees := some fees } s')
    (hlim : fees.amount.value.limit = maxU64) : s'.FeesLimited :=
  (feesLimited_set hlim).keep hkeeps

theorem FeesLimited.registerProposer (hs : s.FeesLimited) (proposerAddr : address) :
    (s.registerProposerForFeeCollection proposerAddr).FeesLimited := by
  unfold registerProposerForFeeCollection
  split
  · exact hs
  · next fees hfees => exact feesLimited_set (hs fees hfees)

variable [DecidableEq address] {chain : Chain address coinType} {account : address}

theorem limit_initializeAggregatableCoin {coin}
    (h : s.initializeAggregatableCoin chain account = .ok coin) : coin.value.limit = maxU64 := by
  rcases of_check h with ⟨_, h⟩
  rcases of_bind h with ⟨_, hcre, h⟩
  cases h
  rw [Aggregator.createInternal_eq_ok hcre]

/-!
# Calls
-/

theorem feesLimited_initializeFeeCollection {burnPercentage : U8}
    (h : s.initializeFeeCollectionAndDistribution chain account burnPercentage = .ok s') :
    s'.FeesLimited := by
  rcases of_check h with ⟨_, h⟩
  rcases of_ensure h with ⟨_, h⟩
  rcases of_ensure h with ⟨_, h⟩
  rcases of_bind h with ⟨_, hamt, h⟩
  cases h
  exact feesLimited_set (limit_initializeAggregatableCoin hamt)

variable [DecidableEq coinType]

theorem FeesLimited.processCollectedFees (hs : s.FeesLimited)
    (h : s.processCollectedFees chain = .ok s') : s'.FeesLimited := by
  unfold Resources.processCollectedFees at h
  split at h
  · cases h
    exact hs
  · next fees hfees =>
    have hlim := hs fees hfees
    split at h
    · cases h
      exact feesLimited_set hlim
    · rcases of_bind h with ⟨⟨_, _⟩, hdrain, h⟩
      have hlim := (limit_drainAggregatableCoin hdrain).trans hlim
      dsimp only at h
      split at h
      · split at h
        · exact feesLimited_of_keeps (moves_burnCollected h).keepsFees hlim
        · rcases of_bind h with ⟨⟨_, _⟩, hburn, h⟩
          have hburnt := feesLimited_of_keeps (moves_burnCoinFraction hburn).keepsFees hlim
          rcases addTransactionFee_eq_ok h with ⟨_, _, _, _, rfl⟩
          exact hburnt
      · exact feesLimited_of_keeps (moves_burnCollected h).keepsFees hlim

theorem FeesLimited.upgradeBurnPercentage (hs : s.FeesLimited) {newBurnPercentage : U8}
    (h : s.upgradeBurnPercentage chain account newBurnPercentage = .ok s') : s'.FeesLimited := by
  rcases of_check h with ⟨_, h⟩
  rcases of_ensure h with ⟨_, h⟩
  rcases of_bind h with ⟨middle, hproc, h⟩
  have hmid := hs.processCollectedFees hproc
  split at h
  · cases h
    exact hmid
  · next fees hfees =>
    cases h
    exact feesLimited_set (hmid fees hfees)

theorem FeesLimited.collectFee (hs : s.FeesLimited) {fee : U64}
    (h : s.collectFee chain account fee = .ok s') : s'.FeesLimited := by
  rcases of_bind h with ⟨fees, hfees, h⟩
  rcases of_bind h with ⟨⟨_, _⟩, hcoll, h⟩
  cases h
  have hbef := hs fees (borrowGlobal_eq_ok_iff.mp hfees)
  apply feesLimited_set
  unfold collectIntoAggregatableCoin at hcoll
  split at hcoll
  · cases hcoll
    exact hbef
  · rcases of_bind hcoll with ⟨_, _, hcoll⟩
    rcases of_bind hcoll with ⟨⟨_, _⟩, _, hcoll⟩
    rcases of_bind hcoll with ⟨_, hmerge, hcoll⟩
    cases hcoll
    exact (limit_mergeAggregatableCoin hmerge).trans hbef

end Resources

open Resources

variable {address coinType : Type} [DecidableEq address] [DecidableEq coinType]
  {chain : Chain address coinType}

theorem feesLimited_call {s s' : Resources address coinType} {call : Call address coinType}
    (hs : s.FeesLimited) (h : call.run chain s = .ok s') : s'.FeesLimited := by
  cases call with
  | initializeFeeCollectionAndDistribution => exact feesLimited_initializeFeeCollection h
  | upgradeBurnPercentage => exact hs.upgradeBurnPercentage h
  | registerProposerForFeeCollection proposerAddr =>
    cases h
    exact hs.registerProposer proposerAddr
  | processCollectedFees => exact hs.processCollectedFees h
  | collectFee => exact hs.collectFee h
  | _ =>
    rcases Call.moves_of_coin rfl h with ⟨_, hmoves⟩
    exact hs.keep hmoves.keepsFees

namespace World

variable {w w' : World address coinType}

theorem feesLimited_step {operation : Operation address coinType} (hw : w.resources.FeesLimited)
    (h : w.step chain operation = .ok w') : w'.resources.FeesLimited := by
  cases operation with
  | call =>
    rcases of_bind h with ⟨_, hs, h⟩
    cases h
    exact feesLimited_call hw hs
  | _ =>
    rcases coinStep_of_step (by simp) h with ⟨_, _, _, _, _, _, hmoves⟩
    exact hw.keep hmoves.keepsFees

theorem feesLimited_run (hw : w.resources.FeesLimited)
    (operations : List (Operation address coinType)) :
    (w.run chain operations).resources.FeesLimited := by
  apply run_invariant (fun w => w.resources.FeesLimited)
  · intro _ _ _ hbef hstep
    exact feesLimited_step hbef hstep
  · exact hw

/-- A hundred is collected for the proposer 9. -/
theorem feesLimited_feeRun : exists fees, (afterFees 100 9).resources.collectedFees = some fees ∧
    fees.amount.value.value = 100 ∧ fees.amount.value.limit = maxU64 := by
  have hlimited : (afterFees 100 9).resources.FeesLimited :=
    feesLimited_run (by intro _ h; cases h) (feeRun 100 9)
  have hfees : (afterFees 100 9).resources.collectedFees = some
      { amount := { value := { value := 100, limit := maxU64 } }
        proposer := some 9
        burnPercentage := 50 } := by
    decide +kernel
  exact ⟨_, hfees, rfl, hlimited _ hfees⟩

end World

end OpenLibra.Framework
