import OpenLibra.Framework.OptionalAggregator
import OpenLibra.Tables.Totals

/-!
# The coin module

Coins of every type live in stores under addresses, in the hands of other modules, or in
aggregatable coins.
-/

namespace OpenLibra.Framework

open Rust Move Function

def eCoinInfoAddressMismatch : Nat := 1

def eCoinInfoAlreadyPublished : Nat := 2

def eCoinStoreNotPublished : Nat := 5

def eInsufficientBalance : Nat := 6

def eDestructionOfNonzeroToken : Nat := 7

def eZeroCoinAmount : Nat := 9

def eFrozen : Nat := 10

def eCoinSupplyUpgradeNotSupported : Nat := 11

def eCoinNameTooLong : Nat := 12

def eCoinSymbolTooLong : Nat := 13

def eAggregatableCoinValueTooLarge : Nat := 14

def maxCoinNameLength : Nat := 32

def maxCoinSymbolLength : Nat := 10

def maxU64 : U128 := 18446744073709551615

def maxU128 : U128 := 340282366920938463463374607431768211455

/-- `system_addresses`. -/
def eNotCoreResourceAddress : Nat := 1

def eNotOpenLibraAddress : Nat := 3

/-!
# Resources
-/

/-- The named addresses and the coin types. -/
structure Chain (address coinType : Type) where
  openLibra : address
  vmReserved : address
  coreResources : address
  coinAddress : coinType -> address
  olCoin : coinType

structure Coin where
  value : U64
deriving DecidableEq

/-- Its limit is the largest `u64`. -/
structure AggregatableCoin where
  value : Aggregator
deriving DecidableEq

structure EventHandle where
  counter : U64
  creationNum : U64
deriving DecidableEq

structure Account where
  guidCreationNum : U64
  coinRegisterEvents : EventHandle
deriving DecidableEq

structure CoinStore where
  coin : Coin
  frozen : Bool
  depositEvents : EventHandle
  withdrawEvents : EventHandle
deriving DecidableEq

structure CoinInfo where
  name : String
  symbol : String
  decimals : U8
  supply : Option OptionalAggregator
deriving DecidableEq

structure CollectedFeesPerBlock (address : Type) where
  amount : AggregatableCoin
  proposer : Option address
  burnPercentage : U8
deriving DecidableEq

/-- Global storage.  Resources under `@open_libra` are optional; a resource
without data is a truth value, or a list of the addresses that have it. -/
structure Resources (address coinType : Type) where
  accounts : AList fun _ : address => Account
  aggregatorFactory : Bool
  allowSupplyUpgrades : Option Bool
  coinInfo : coinType -> Option CoinInfo
  coinStores : coinType -> AList fun _ : address => CoinStore
  mintCapStores : List address
  delegations : Option (List address)
  burnCap : Bool
  collectedFees : Option (CollectedFeesPerBlock address)
  validatorFees : Option (AList fun _ : address => Coin)

/-!
# Coins as values
-/

def zero : Coin :=
  { value := 0 }

def extract (coin : Coin) (amount : U64) : MoveResult (Coin × Coin) := do
  ensure (amount.toNat ≤ coin.value.toNat) (invalidArgument eInsufficientBalance)
  let rest <- Move.sub coin.value amount
  return ({ value := rest }, { value := amount })

def extractAll (coin : Coin) : Coin × Coin := (zero, coin)

def merge (dstCoin sourceCoin : Coin) : MoveResult Coin := do
  let sum <- Move.add dstCoin.value sourceCoin.value
  return { value := sum }

def destroyZero (zeroCoin : Coin) : MoveResult Unit :=
  ensure (zeroCoin.value = 0) (invalidArgument eDestructionOfNonzeroToken)

def isAggregatableCoinZero (coin : AggregatableCoin) : Bool := coin.value.read = 0

def drainAggregatableCoin (coin : AggregatableCoin) :
    MoveResult (AggregatableCoin × Coin) := do
  let amount := coin.value.read
  ensure (amount.toNat ≤ maxU64.toNat) (outOfRange eAggregatableCoinValueTooLarge)
  let rest <- coin.value.sub amount
  let value <- Move.cast 64 amount
  return ({ value := rest }, { value := value })

def mergeAggregatableCoin (dstCoin : AggregatableCoin) (coin : Coin) :
    MoveResult AggregatableCoin := do
  let amount <- Move.cast 128 coin.value
  let sum <- dstCoin.value.add amount
  return { value := sum }

/-- `event::emit_event`. -/
def EventHandle.emit (self : EventHandle) : MoveResult EventHandle := do
  let next <- Move.add self.counter 1
  return { self with counter := next }

namespace Resources

section

variable {address coinType : Type} [DecidableEq address] [DecidableEq coinType]
  (chain : Chain address coinType) (s : Resources address coinType)

/-!
# Reading and writing resources
-/

variable (t : coinType) (accountAddr : address)

def borrowCoinStore : MoveResult CoinStore :=
  borrowGlobal ((s.coinStores t).lookup accountAddr)

def setCoinStore (store : CoinStore) : Resources address coinType :=
  { s with
    coinStores := update s.coinStores t ((s.coinStores t).insert accountAddr store) }

def borrowCoinInfo (t : coinType) : MoveResult CoinInfo := borrowGlobal (s.coinInfo t)

def setCoinInfo (t : coinType) (info : CoinInfo) : Resources address coinType :=
  { s with coinInfo := update s.coinInfo t (some info) }

variable (account : address)

def assertOpenLibra : MoveResult Unit :=
  ensure (account = chain.openLibra) (permissionDenied eNotOpenLibraAddress)

def isAccountRegistered : Bool :=
  ((s.coinStores t).lookup accountAddr).isSome

/-!
# Supply
-/

def initializeSupplyConfig : MoveResult (Resources address coinType) := do
  assertOpenLibra chain account
  ensure (s.allowSupplyUpgrades = none) .resourceAlreadyExists
  return { s with allowSupplyUpgrades := some false }

def setAllowSupplyUpgrades (allowed : Bool) : MoveResult (Resources address coinType) := do
  assertOpenLibra chain account
  let _ <- borrowGlobal s.allowSupplyUpgrades
  return { s with allowSupplyUpgrades := some allowed }

def supply (t : coinType) : MoveResult (Option U128) := do
  let info <- s.borrowCoinInfo t
  return info.supply.map OptionalAggregator.read

def upgradeSupply (t : coinType) (account : address) :
    MoveResult (Resources address coinType) := do
  ensure (chain.coinAddress t = account) (invalidArgument eCoinInfoAddressMismatch)
  let allowUpgrades <- borrowGlobal s.allowSupplyUpgrades
  ensure (allowUpgrades = true) (permissionDenied eCoinSupplyUpgradeNotSupported)
  let info <- s.borrowCoinInfo t
  match info.supply with
  | none => return s
  | some supply =>
    if supply.isParallelizable then return s
    else do
      let switched <- supply.switch s.aggregatorFactory
      return s.setCoinInfo t { info with supply := some switched }

def initializeInternal (t : coinType) (account : address) (name symbol : String) (decimals : U8)
    (monitorSupply parallelizable : Bool) :
    MoveResult (Resources address coinType) := do
  ensure (chain.coinAddress t = account) (invalidArgument eCoinInfoAddressMismatch)
  ensure (s.coinInfo t = none) (alreadyExists eCoinInfoAlreadyPublished)
  ensure (name.utf8ByteSize ≤ maxCoinNameLength) (invalidArgument eCoinNameTooLong)
  ensure (symbol.utf8ByteSize ≤ maxCoinSymbolLength) (invalidArgument eCoinSymbolTooLong)
  if monitorSupply then do
    let supply <-
      OptionalAggregator.new s.aggregatorFactory maxU128 parallelizable
    return s.setCoinInfo t { name, symbol, decimals, supply := some supply }
  else
    return s.setCoinInfo t { name, symbol, decimals, supply := none }

/-- `initialize`. -/
def initializeCoin (t : coinType) (account : address) (name symbol : String)
    (decimals : U8) (monitorSupply : Bool) :
    MoveResult (Resources address coinType) :=
  s.initializeInternal chain t account name symbol decimals monitorSupply false

def initializeWithParallelizableSupply (t : coinType) (account : address)
    (name symbol : String) (decimals : U8) (monitorSupply : Bool) :
    MoveResult (Resources address coinType) := do
  assertOpenLibra chain account
  s.initializeInternal chain t account name symbol decimals monitorSupply true

def mint (t : coinType) (amount : U64) : MoveResult (Coin × Resources address coinType) :=
  if amount = 0 then .ok (zero, s)
  else do
    let info <- s.borrowCoinInfo t
    match info.supply with
    | none => return ({ value := amount }, s)
    | some supply => do
      let amount128 <- Move.cast 128 amount
      let supply <- supply.add amount128
      return ({ value := amount }, s.setCoinInfo t { info with supply := some supply })

def burn (t : coinType) (coin : Coin) :
    MoveResult (Resources address coinType) := do
  ensure (0 < coin.value.toNat) (invalidArgument eZeroCoinAmount)
  let info <- s.borrowCoinInfo t
  match info.supply with
  | none => return s
  | some supply => do
    let amount <- Move.cast 128 coin.value
    let supply <- supply.sub amount
    return s.setCoinInfo t { info with supply := some supply }

def burnFrom (amount : U64) : MoveResult (Resources address coinType) :=
  if amount = 0 then .ok s
  else do
    let store <- s.borrowCoinStore t accountAddr
    let (rest, coinToBurn) <- extract store.coin amount
    let s := s.setCoinStore t accountAddr { store with coin := rest }
    s.burn t coinToBurn

/-!
# Stores
-/

def deposit (coin : Coin) : MoveResult (Resources address coinType) := do
  ensure (s.isAccountRegistered t accountAddr = true) (notFound eCoinStoreNotPublished)
  let store <- s.borrowCoinStore t accountAddr
  ensure (store.frozen = false) (permissionDenied eFrozen)
  let depositEvents <- store.depositEvents.emit
  let merged <- merge store.coin coin
  return s.setCoinStore t accountAddr
    { store with coin := merged, depositEvents := depositEvents }

def withdraw (t : coinType) (account : address) (amount : U64) :
    MoveResult (Coin × Resources address coinType) := do
  ensure (s.isAccountRegistered t account = true) (notFound eCoinStoreNotPublished)
  let store <- s.borrowCoinStore t account
  ensure (store.frozen = false) (permissionDenied eFrozen)
  let withdrawEvents <- store.withdrawEvents.emit
  let (rest, coin) <- extract store.coin amount
  return (coin, s.setCoinStore t account
    { store with coin := rest, withdrawEvents := withdrawEvents })

def transfer (t : coinType) (sender recipient : address) (amount : U64) :
    MoveResult (Resources address coinType) := do
  let (coin, s) <- s.withdraw t sender amount
  s.deposit t recipient coin

def setFrozen (frozen : Bool) (t : coinType) (accountAddr : address) :
    MoveResult (Resources address coinType) := do
  let store <- s.borrowCoinStore t accountAddr
  return s.setCoinStore t accountAddr { store with frozen := frozen }

def freezeCoinStore : MoveResult (Resources address coinType) :=
  s.setFrozen true t accountAddr

def unfreezeCoinStore : MoveResult (Resources address coinType) :=
  s.setFrozen false t accountAddr

/-- `account::register_coin`. -/
def registerCoin (accountAddr : address) :
    MoveResult (Resources address coinType) := do
  let account <- borrowGlobal (s.accounts.lookup accountAddr)
  let events <- account.coinRegisterEvents.emit
  return { s with
    accounts := s.accounts.insert accountAddr
      { account with coinRegisterEvents := events } }

/-- `account::new_event_handle`. -/
def newEventHandle (accountAddr : address) :
    MoveResult (EventHandle × Resources address coinType) := do
  let account <- borrowGlobal (s.accounts.lookup accountAddr)
  let next <- Move.add account.guidCreationNum 1
  return ({ counter := 0, creationNum := account.guidCreationNum },
    { s with
      accounts := s.accounts.insert accountAddr
        { account with guidCreationNum := next } })

def register (t : coinType) (account : address) : MoveResult (Resources address coinType) :=
  if s.isAccountRegistered t account then .ok s
  else do
    let s <- s.registerCoin account
    let (depositEvents, s) <- s.newEventHandle account
    let (withdrawEvents, s) <- s.newEventHandle account
    return s.setCoinStore t account
      { coin := zero
        frozen := false
        depositEvents := depositEvents
        withdrawEvents := withdrawEvents }

/-!
# Aggregatable coins
-/

def initializeAggregatableCoin : MoveResult AggregatableCoin := do
  assertOpenLibra chain account
  let aggregator <- Aggregator.createInternal s.aggregatorFactory maxU64
  return { value := aggregator }

def collectIntoAggregatableCoin (amount : U64) (dstCoin : AggregatableCoin) :
    MoveResult (AggregatableCoin × Resources address coinType) :=
  if amount = 0 then .ok (dstCoin, s)
  else do
    let store <- s.borrowCoinStore t accountAddr
    let (rest, coin) <- extract store.coin amount
    let s := s.setCoinStore t accountAddr { store with coin := rest }
    let dstCoin <- mergeAggregatableCoin dstCoin coin
    return (dstCoin, s)

end

section

variable {address coinType : Type} [DecidableEq coinType]

theorem coinInfo_setCoinInfo_self (s : Resources address coinType)
    (t : coinType) (info : CoinInfo) : (s.setCoinInfo t info).coinInfo t = some info :=
  update_self _ _ _

variable {t t' : coinType}

theorem coinInfo_setCoinInfo_of_ne (h : t' ≠ t) (s : Resources address coinType) (info : CoinInfo) :
    (s.setCoinInfo t info).coinInfo t' = s.coinInfo t' :=
  update_of_ne h _ _

variable [DecidableEq address]

theorem coinStores_setCoinStore_self (s : Resources address coinType)
    (t : coinType) (accountAddr : address) (store : CoinStore) :
    (s.setCoinStore t accountAddr store).coinStores t = (s.coinStores t).insert accountAddr store :=
  update_self _ _ _

theorem coinStores_setCoinStore_of_ne (h : t' ≠ t) (s : Resources address coinType)
    (accountAddr : address) (store : CoinStore) :
    (s.setCoinStore t accountAddr store).coinStores t' = s.coinStores t' :=
  update_of_ne h _ _

end

variable {address coinType : Type} [DecidableEq address] {s s' : Resources address coinType}
  {account : address}

theorem registerCoin_eq_ok (h : s.registerCoin account = .ok s') :
    exists accounts, s' = { s with accounts := accounts } := by
  rcases of_bind h with ⟨_, _, h⟩
  rcases of_bind h with ⟨_, _, h⟩
  cases h
  exact ⟨_, rfl⟩

theorem newEventHandle_eq_ok {handle} (h : s.newEventHandle account = .ok (handle, s')) :
    exists accounts, s' = { s with accounts := accounts } := by
  rcases of_bind h with ⟨_, _, h⟩
  rcases of_bind h with ⟨_, _, h⟩
  cases h
  exact ⟨_, rfl⟩

theorem value_initializeAggregatableCoin {chain} {coin}
    (h : s.initializeAggregatableCoin chain account = .ok coin) : coin.value.value.toNat = 0 := by
  rcases of_check h with ⟨_, h⟩
  rcases of_bind h with ⟨_, hcre, h⟩
  cases h
  rw [Aggregator.createInternal_eq_ok hcre]
  rfl

end Resources

/-!
# Coins as values: what the calls return
-/

variable {coin out : Coin} {amount : U64}

theorem extract_eq_ok {rest : Coin} (h : extract coin amount = .ok (rest, out)) :
    rest.value.toNat + amount.toNat = coin.value.toNat ∧ out = { value := amount } := by
  rcases of_ensure h with ⟨_, h⟩
  rcases of_bind h with ⟨_, hdiff, h⟩
  cases h
  exact ⟨Move.sub_eq_ok_iff.mp hdiff, rfl⟩

theorem exists_extract_eq_ok (h : amount.toNat ≤ coin.value.toNat) :
    exists rest, extract coin amount = .ok (rest, { value := amount }) := by
  have hsub : Move.sub coin.value amount =
    .ok (BitVec.ofNat 64 (coin.value.toNat - amount.toNat)) :=
    if_pos h
  refine ⟨{ value := BitVec.ofNat 64 (coin.value.toNat - amount.toNat) }, ?_⟩
  simp only [extract, ensure, if_pos h, ok_bind, hsub, pure_eq]

theorem merge_eq_ok_iff {dstCoin sourceCoin merged : Coin} :
    merge dstCoin sourceCoin = .ok merged <-> merged.value.toNat =
        dstCoin.value.toNat + sourceCoin.value.toNat := by
  simp only [merge, bind_eq_ok_iff, Move.add_eq_ok_iff, pure_eq, Outcome.ok.injEq]
  constructor
  · intro h
    rcases h with ⟨_, hsum, rfl⟩
    exact hsum
  · intro h
    exact ⟨merged.value, h, rfl⟩

theorem destroyZero_eq_ok_iff : destroyZero coin = .ok () <-> coin.value.toNat = 0 := by
  rw [destroyZero, ensure_eq_ok_iff, ← BitVec.toNat_inj]
  rfl

theorem drainAggregatableCoin_eq_ok {coin rest} (h : drainAggregatableCoin coin = .ok (rest, out)) :
    rest.value.value.toNat = 0 ∧ out.value.toNat = coin.value.value.toNat := by
  rcases of_ensure h with ⟨_, h⟩
  rcases of_bind h with ⟨_, hleft, h⟩
  rcases of_bind h with ⟨_, hval, h⟩
  cases h
  constructor
  · have hrest := (Aggregator.sub_eq_ok_iff.mp hleft).2
    exact Nat.add_eq_right.mp hrest
  · exact Move.cast_eq_ok_iff.mp hval

theorem mergeAggregatableCoin_eq_ok {dstCoin merged}
    (h : mergeAggregatableCoin dstCoin coin = .ok merged) :
    merged.value.value.toNat = dstCoin.value.value.toNat + coin.value.toNat := by
  rcases of_bind h with ⟨_, hamt, h⟩
  rcases of_bind h with ⟨_, hsum, h⟩
  cases h
  rw [← Move.cast_eq_ok_iff.mp hamt]
  exact (Aggregator.add_eq_ok_iff.mp hsum).2.1

end OpenLibra.Framework
