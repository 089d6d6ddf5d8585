import OpenLibra.Accounts.Account
import OpenLibra.Framework.TransactionFee

/-!
# The transaction validation module

What the VM calls before and after a transaction.  The prologue only reads, the
epilogue takes the fee and counts the transaction.
-/

namespace OpenLibra.Transactions

open Rust Move Accounts

def eOutOfGas : Nat := 6

def prologueEInvalidAccountAuthKey : Nat := 1001

def prologueESequenceNumberTooOld : Nat := 1002

def prologueESequenceNumberTooNew : Nat := 1003

def prologueEAccountDoesNotExist : Nat := 1004

def prologueECantPayGasDeposit : Nat := 1005

def prologueETransactionExpired : Nat := 1006

def prologueEBadChainId : Nat := 1007

def prologueESequenceNumberTooBig : Nat := 1008

def prologueESecondaryKeysAddressesCountMismatch : Nat := 1009

def microConversionFactor : Nat := 1000000

/-- Global storage.  `coins.accounts` has the fields that registering a coin changes, and only that
reads them there; the prologue and the epilogue use the authentication key and the sequence
number, which are in `accounts`. -/
structure Ledger (coinType : Type) where
  coins : Framework.Resources Address coinType
  accounts : Store
  currentTimeMicroseconds : Option U64
  chainId : Option U8
  collectAndDistributeGasFees : Bool

/-- `TransactionMetadata`, with the kind of the payload. -/
structure Transaction where
  sender : Address
  sequenceNumber : U64
  authenticationKey : List UInt8
  secondarySigners : List Address
  secondaryAuthenticationKeys : List (List UInt8)
  gasUnitPrice : U64
  maxGasAmount : U64
  expirationTimestampSecs : U64
  chainId : U8
  isModuleBundle : Bool

namespace Ledger

variable {coinType : Type} (chain : Framework.Chain Address coinType) (ledger : Ledger coinType)

/-!
# Prologues
-/

/-- `timestamp::now_seconds`. -/
def nowSeconds : MoveResult Nat := do
  let microseconds <- borrowGlobal ledger.currentTimeMicroseconds
  return microseconds.toNat / microConversionFactor

/-- `coin::balance<OLCoin>`. -/
def balance (owner : Address) : MoveResult U64 := do
  ensure (ledger.coins.isAccountRegistered chain.olCoin owner = true)
    (notFound Framework.eCoinStoreNotPublished)
  let store <- ledger.coins.borrowCoinStore chain.olCoin owner
  return store.coin.value

variable (txn : Transaction)

def prologueCommon : MoveResult Unit := do
  let nowSeconds <- ledger.nowSeconds
  ensure (nowSeconds < txn.expirationTimestampSecs.toNat)
    (invalidArgument prologueETransactionExpired)
  let chainId <- borrowGlobal ledger.chainId
  ensure (chainId = txn.chainId) (invalidArgument prologueEBadChainId)
  ensure (ledger.accounts.existsAt txn.sender = true) (invalidArgument prologueEAccountDoesNotExist)
  let account <- ledger.accounts.borrowAccount txn.sender
  ensure (txn.authenticationKey = account.authenticationKey)
    (invalidArgument prologueEInvalidAccountAuthKey)
  ensure (txn.sequenceNumber.toNat < maxU64) (outOfRange prologueESequenceNumberTooBig)
  ensure (account.sequenceNumber.toNat ≤ txn.sequenceNumber.toNat)
    (invalidArgument prologueESequenceNumberTooOld)
  ensure (txn.sequenceNumber = account.sequenceNumber)
    (invalidArgument prologueESequenceNumberTooNew)
  let maxTransactionFee <- Move.mul txn.gasUnitPrice txn.maxGasAmount
  ensure (ledger.coins.isAccountRegistered chain.olCoin txn.sender = true)
    (invalidArgument prologueECantPayGasDeposit)
  let balance <- ledger.balance chain txn.sender
  ensure (maxTransactionFee.toNat ≤ balance.toNat) (invalidArgument prologueECantPayGasDeposit)

def modulePrologue : MoveResult Unit := ledger.prologueCommon chain txn

def scriptPrologue : MoveResult Unit := ledger.prologueCommon chain txn

def checkSecondarySigners : List (Address × List UInt8) -> MoveResult Unit
  | [] => .ok ()
  | (secondaryAddress, signerPublicKeyHash) :: rest => do
    ensure (ledger.accounts.existsAt secondaryAddress = true)
      (invalidArgument prologueEAccountDoesNotExist)
    let account <- ledger.accounts.borrowAccount secondaryAddress
    ensure (signerPublicKeyHash = account.authenticationKey)
      (invalidArgument prologueEInvalidAccountAuthKey)
    checkSecondarySigners rest

def multiAgentScriptPrologue : MoveResult Unit := do
  ledger.prologueCommon chain txn
  ensure (txn.secondaryAuthenticationKeys.length = txn.secondarySigners.length)
    (invalidArgument prologueESecondaryKeysAddressesCountMismatch)
  ledger.checkSecondarySigners (txn.secondarySigners.zip txn.secondaryAuthenticationKeys)

/-- The prologue that the VM calls: `run_module_prologue` for a bundle of
modules and `run_script_prologue` for the rest. -/
def prologue : MoveResult Unit :=
  if txn.isModuleBundle then ledger.modulePrologue chain txn
  else if txn.secondarySigners.isEmpty then ledger.scriptPrologue chain txn
  else ledger.multiAgentScriptPrologue chain txn

variable [DecidableEq coinType]

def payFee (addr : Address) (amount : U64) : MoveResult (Framework.Resources Address coinType) :=
  if ledger.collectAndDistributeGasFees then
    ledger.coins.collectFee chain addr amount
  else ledger.coins.burnFee chain addr amount

def epilogue (txn : Transaction) (gasUnitsRemaining : U64) :
    MoveResult (Ledger coinType) := do
  ensure (gasUnitsRemaining.toNat ≤ txn.maxGasAmount.toNat) (invalidArgument eOutOfGas)
  let gasUsed <- Move.sub txn.maxGasAmount gasUnitsRemaining
  ensure (txn.gasUnitPrice.toNat * gasUsed.toNat ≤ maxU64) (outOfRange eOutOfGas)
  let transactionFeeAmount <- Move.mul txn.gasUnitPrice gasUsed
  let balance <- ledger.balance chain txn.sender
  ensure (transactionFeeAmount.toNat ≤ balance.toNat) (outOfRange prologueECantPayGasDeposit)
  let coins <- ledger.payFee chain txn.sender transactionFeeAmount
  let accounts <- ledger.accounts.incrementSequenceNumber txn.sender
  return { ledger with
    coins := coins
    accounts := accounts }

end Ledger

variable {coinType : Type} {chain : Framework.Chain Address coinType} {ledger : Ledger coinType}
  {txn : Transaction}

structure Checked (chain : Framework.Chain Address coinType)
    (ledger : Ledger coinType) (txn : Transaction) (account : Account)
    (store : Framework.CoinStore) : Prop where
  hasAccount : ledger.accounts.accounts.lookup txn.sender = some account
  sequenceNumber : account.sequenceNumber = txn.sequenceNumber
  notTooBig : txn.sequenceNumber.toNat < maxU64
  hasStore : (ledger.coins.coinStores chain.olCoin).lookup txn.sender = some store
  feeFits : txn.gasUnitPrice.toNat * txn.maxGasAmount.toNat ≤ store.coin.value.toNat

theorem balance_eq_ok_iff {owner : Address} {balance : U64} :
    ledger.balance chain owner = .ok balance <->
      exists store, (ledger.coins.coinStores chain.olCoin).lookup owner =
        some store ∧ store.coin.value = balance := by
  constructor
  · intro h
    rcases of_ensure h with ⟨_, h⟩
    rcases of_bind h with ⟨store, hstore, h⟩
    cases h
    exact ⟨store, borrowGlobal_eq_ok_iff.mp hstore, rfl⟩
  · rintro ⟨_, hstore, rfl⟩
    simp [Ledger.balance, Framework.Resources.isAccountRegistered,
      Framework.Resources.borrowCoinStore, borrowGlobal, ensure, hstore]

theorem checked_of_prologueCommon (h : ledger.prologueCommon chain txn = .ok ()) :
    exists account store, Checked chain ledger txn account store := by
  rcases of_bind h with ⟨_, _, h⟩
  rcases of_ensure h with ⟨_, h⟩
  rcases of_bind h with ⟨_, _, h⟩
  rcases of_ensure h with ⟨_, h⟩
  rcases of_ensure h with ⟨_, h⟩
  rcases of_bind h with ⟨account, hacct, h⟩
  rcases of_ensure h with ⟨_, h⟩
  rcases of_ensure h with ⟨hbig, h⟩
  rcases of_ensure h with ⟨_, h⟩
  rcases of_ensure h with ⟨hsequence, h⟩
  rcases of_bind h with ⟨_, hfee, h⟩
  rcases of_ensure h with ⟨_, h⟩
  rcases of_bind h with ⟨_, hbalance, h⟩
  have hcovered := ensure_eq_ok_iff.mp h
  rcases balance_eq_ok_iff.mp hbalance with ⟨store, hstore, rfl⟩
  refine ⟨account, store, ?_⟩
  exact
    { hasAccount := borrowGlobal_eq_ok_iff.mp hacct
      sequenceNumber := hsequence.symm
      notTooBig := hbig
      hasStore := hstore
      feeFits := by
        rw [← Move.mul_eq_ok_iff.mp hfee]
        exact hcovered }

theorem prologueCommon_of_prologue (h : ledger.prologue chain txn = .ok ()) :
    ledger.prologueCommon chain txn = .ok () := by
  unfold Ledger.prologue at h
  split at h
  · exact h
  · split at h
    · exact h
    · exact (of_check h).1

end OpenLibra.Transactions
