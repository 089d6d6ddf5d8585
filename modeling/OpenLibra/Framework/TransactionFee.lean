import OpenLibra.Framework.Coin

/-!
# The coin of the chain and its transaction fees

Minting of `OLCoin` with a mint capability, the fees recorded for validators, and the fees
collected during a block.
-/

namespace OpenLibra.Framework

open Rust Move

/-- Codes of `ol_coin`. -/
def eNoCapabilities : Nat := 1

def eAlreadyDelegated : Nat := 2

def eDelegationNotFound : Nat := 3

/-- Codes of `transaction_fee`. -/
def eAlreadyCollectingFees : Nat := 1

def eInvalidBurnPercentage : Nat := 3

namespace Resources

variable {address coinType : Type} [DecidableEq address] [DecidableEq coinType]
  (chain : Chain address coinType) (s : Resources address coinType)

/-!
# Minting the coin of the chain
-/

variable (account : address)

/-- `ol_coin::initialize`: the mint capability is stored under `@open_libra`. -/
def initializeOlCoin : MoveResult (Resources address coinType) := do
  assertOpenLibra chain account
  let s <- s.initializeWithParallelizableSupply chain chain.olCoin account "OLCoin" "OL" 8 true
  ensure (account ∉ s.mintCapStores) .resourceAlreadyExists
  return { s with mintCapStores := account :: s.mintCapStores }

/-- `ol_coin::mint`. -/
def olMint (account dstAddr : address) (amount : U64) :
    MoveResult (Resources address coinType) := do
  ensure (account ∈ s.mintCapStores) (notFound eNoCapabilities)
  let (coinsMinted, s) <- s.mint chain.olCoin amount
  s.deposit chain.olCoin dstAddr coinsMinted

/-- `ol_coin::destroy_mint_cap`. -/
def destroyMintCap : MoveResult (Resources address coinType) := do
  assertOpenLibra chain account
  ensure (chain.openLibra ∈ s.mintCapStores) .missingData
  return { s with mintCapStores := s.mintCapStores.erase chain.openLibra }

def delegateMintCapability (account delegatee : address) :
    MoveResult (Resources address coinType) := do
  ensure (account = chain.coreResources) (permissionDenied eNotCoreResourceAddress)
  let delegations <- borrowGlobal s.delegations
  ensure (delegatee ∉ delegations) (invalidArgument eAlreadyDelegated)
  return { s with delegations := some (delegations ++ [delegatee]) }

/-- `vector::swap_remove`: the last element takes the free place. -/
def swapRemove (elements : List address) (index : Nat) : List address :=
  match elements.getLast? with
  | none => []
  | some last => (elements.set index last).dropLast

def claimMintCapability : MoveResult (Resources address coinType) := do
  let delegations <- borrowGlobal s.delegations
  ensure (account ∈ delegations) (.code eDelegationNotFound)
  let s := { s with
    delegations := some (swapRemove delegations (delegations.idxOf account)) }
  ensure (chain.coreResources ∈ s.mintCapStores) .missingData
  ensure (account ∉ s.mintCapStores) .resourceAlreadyExists
  return { s with mintCapStores := account :: s.mintCapStores }

def addTransactionFee (validatorAddr : address) (fee : Coin) :
    MoveResult (Resources address coinType) := do
  let feesTable <- borrowGlobal s.validatorFees
  match feesTable.lookup validatorAddr with
  | some collectedFee => do
    let merged <- merge collectedFee fee
    return { s with
      validatorFees := some (feesTable.insert validatorAddr merged) }
  | none =>
    return { s with
      validatorFees := some (feesTable.insert validatorAddr fee) }

/-!
# Fees of a block
-/

def initializeFeeCollectionAndDistribution (burnPercentage : U8) :
    MoveResult (Resources address coinType) := do
  assertOpenLibra chain account
  ensure (s.collectedFees.isNone = true) (alreadyExists eAlreadyCollectingFees)
  ensure (burnPercentage.toNat ≤ 100) (outOfRange eInvalidBurnPercentage)
  let amount <- s.initializeAggregatableCoin chain account
  return { s with
    collectedFees := some
      { amount := amount
        proposer := none
        burnPercentage := burnPercentage } }

def burnCoinFraction (coin : Coin) (burnPercentage : U8) :
    MoveResult (Coin × Resources address coinType) := do
  ensure (burnPercentage.toNat ≤ 100) (outOfRange eInvalidBurnPercentage)
  let percentage <- Move.cast 64 burnPercentage
  let product <- Move.mul percentage coin.value
  let amountToBurn : U64 := product / 100
  if 0 < amountToBurn.toNat then do
    let (rest, coinToBurn) <- extract coin amountToBurn
    ensure (s.burnCap = true) .missingData
    let s <- s.burn chain.olCoin coinToBurn
    return (rest, s)
  else
    return (coin, s)

def burnCollected (coin : Coin) :
    MoveResult (Resources address coinType) := do
  let (rest, s) <- s.burnCoinFraction chain coin 100
  destroyZero rest
  return s

def processCollectedFees : MoveResult (Resources address coinType) :=
  match s.collectedFees with
  | none => .ok s
  | some fees =>
    if isAggregatableCoinZero fees.amount then
      -- Only the proposer is unset.
      .ok
        { s with collectedFees := some { fees with proposer := none } }
    else do
      let (amount, coin) <- drainAggregatableCoin fees.amount
      let s := { s with
        collectedFees := some
          { fees with amount := amount, proposer := none } }
      match fees.proposer with
      | some proposer =>
        if proposer = chain.vmReserved then
          s.burnCollected chain coin
        else do
          let (rest, s) <-
            s.burnCoinFraction chain coin fees.burnPercentage
          s.addTransactionFee proposer rest
      | none => s.burnCollected chain coin

def upgradeBurnPercentage (newBurnPercentage : U8) : MoveResult (Resources address coinType) := do
  assertOpenLibra chain account
  ensure (newBurnPercentage.toNat ≤ 100) (outOfRange eInvalidBurnPercentage)
  let s <- s.processCollectedFees chain
  match s.collectedFees with
  | none => return s
  | some fees =>
    return { s with
      collectedFees := some
        { fees with burnPercentage := newBurnPercentage } }

def registerProposerForFeeCollection (proposerAddr : address) : Resources address coinType :=
  match s.collectedFees with
  | none => s
  | some fees =>
    { s with
      collectedFees := some { fees with proposer := some proposerAddr } }

def burnFee (fee : U64) : MoveResult (Resources address coinType) := do
  ensure (s.burnCap = true) .missingData
  s.burnFrom chain.olCoin account fee

def collectFee (fee : U64) : MoveResult (Resources address coinType) := do
  let fees <- borrowGlobal s.collectedFees
  let (amount, s) <-
    s.collectIntoAggregatableCoin chain.olCoin account fee fees.amount
  return { s with collectedFees := some { fees with amount := amount } }

def storeOlCoinBurnCap : MoveResult (Resources address coinType) := do
  assertOpenLibra chain account
  ensure (s.burnCap = false) .resourceAlreadyExists
  return { s with burnCap := true }

end Resources

end OpenLibra.Framework
