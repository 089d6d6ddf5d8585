import OpenLibra.Framework.Conservation

/-!
# Sequences of operations

Transactions call the public functions and keep loose and aggregatable coins between the calls.  A
call that aborts changes nothing.
-/

namespace OpenLibra.Framework

open Rust Move Tables Function List

/-!
# Operations
-/

/-- Calls that neither take nor return coins. -/
inductive Call (address coinType : Type) where
  | initializeSupplyConfig (account : address)
  | allowSupplyUpgrades (account : address) (allowed : Bool)
  | initializeCoin (t : coinType) (account : address) (name symbol : String)
      (decimals : U8) (monitorSupply : Bool)
  | initializeWithParallelizableSupply (t : coinType) (account : address)
      (name symbol : String) (decimals : U8) (monitorSupply : Bool)
  | upgradeSupply (t : coinType) (account : address)
  | register (t : coinType) (account : address)
  | burnFrom (t : coinType) (accountAddr : address) (amount : U64)
  | transfer (t : coinType) (sender recipient : address) (amount : U64)
  | freezeCoinStore (t : coinType) (accountAddr : address)
  | unfreezeCoinStore (t : coinType) (accountAddr : address)
  | initializeOlCoin (account : address)
  | olMint (account dstAddr : address) (amount : U64)
  | destroyMintCap (account : address)
  | delegateMintCapability (account delegatee : address)
  | claimMintCapability (account : address)
  | initializeFeeCollectionAndDistribution (account : address) (burnPercentage : U8)
  | upgradeBurnPercentage (account : address) (newBurnPercentage : U8)
  | registerProposerForFeeCollection (proposerAddr : address)
  | processCollectedFees
  | burnFee (account : address) (fee : U64)
  | collectFee (account : address) (fee : U64)
  | storeOlCoinBurnCap (account : address)

/-- A loose coin is named by its place in the list of coins of its type. -/
inductive Operation (address coinType : Type) where
  | call (call : Call address coinType)
  | zero (t : coinType)
  | mint (t : coinType) (amount : U64)
  | burn (t : coinType) (coin : Nat)
  | deposit (t : coinType) (accountAddr : address) (coin : Nat)
  | withdraw (t : coinType) (account : address) (amount : U64)
  | extract (t : coinType) (coin : Nat) (amount : U64)
  | extractAll (t : coinType) (coin : Nat)
  | merge (t : coinType) (sourceCoin dstCoin : Nat)
  | destroyZero (t : coinType) (coin : Nat)
  | initializeAggregatableCoin (t : coinType) (account : address)
  | mergeAggregatableCoin (t : coinType) (coin dstCoin : Nat)
  | collectIntoAggregatableCoin (t : coinType) (accountAddr : address)
      (amount : U64) (dstCoin : Nat)
  | drainAggregatableCoin (t : coinType) (coin : Nat)

section

variable {address coinType : Type} [DecidableEq address] [DecidableEq coinType]

def Call.run (chain : Chain address coinType) (s : Resources address coinType) :
    Call address coinType -> MoveResult (Resources address coinType)
  | initializeSupplyConfig account => s.initializeSupplyConfig chain account
  | allowSupplyUpgrades account allowed => s.setAllowSupplyUpgrades chain account allowed
  | initializeCoin t account name symbol decimals monitorSupply =>
    s.initializeCoin chain t account name symbol decimals monitorSupply
  | initializeWithParallelizableSupply t account name symbol decimals
      monitorSupply =>
      s.initializeWithParallelizableSupply chain t account name symbol decimals monitorSupply
  | upgradeSupply t account => s.upgradeSupply chain t account
  | register t account => s.register t account
  | burnFrom t accountAddr amount => s.burnFrom t accountAddr amount
  | transfer t sender recipient amount => s.transfer t sender recipient amount
  | freezeCoinStore t accountAddr => s.freezeCoinStore t accountAddr
  | unfreezeCoinStore t accountAddr => s.unfreezeCoinStore t accountAddr
  | initializeOlCoin account => s.initializeOlCoin chain account
  | olMint account dstAddr amount => s.olMint chain account dstAddr amount
  | destroyMintCap account => s.destroyMintCap chain account
  | delegateMintCapability account delegatee => s.delegateMintCapability chain account delegatee
  | claimMintCapability account => s.claimMintCapability chain account
  | initializeFeeCollectionAndDistribution account burnPercentage =>
    s.initializeFeeCollectionAndDistribution chain account burnPercentage
  | upgradeBurnPercentage account newBurnPercentage =>
    s.upgradeBurnPercentage chain account newBurnPercentage
  | registerProposerForFeeCollection proposerAddr =>
    .ok (s.registerProposerForFeeCollection proposerAddr)
  | processCollectedFees => s.processCollectedFees chain
  | burnFee account fee => s.burnFee chain account fee
  | collectFee account fee => s.collectFee chain account fee
  | storeOlCoinBurnCap account => s.storeOlCoinBurnCap chain account

/-- Global storage, and the loose coins of every type. -/
structure World (address coinType : Type) where
  resources : Resources address coinType
  coins : coinType -> List Coin
  aggregatableCoins : coinType -> List AggregatableCoin

namespace World

def setResources (w : World address coinType) (s : Resources address coinType) :
    World address coinType :=
  { w with resources := s }

variable (w : World address coinType) (t : coinType)

def takeCoin (index : Nat) : MoveResult (Coin × World address coinType) := do
  let coin <- borrowGlobal (w.coins t)[index]?
  return (coin, { w with
    coins := update w.coins t ((w.coins t).eraseIdx index) })

def giveCoin (coin : Coin) : World address coinType :=
  { w with coins := update w.coins t (coin :: w.coins t) }

def takeAggregatable (index : Nat) : MoveResult (AggregatableCoin × World address coinType) := do
  let coin <- borrowGlobal (w.aggregatableCoins t)[index]?
  return (coin, { w with
    aggregatableCoins := update w.aggregatableCoins t ((w.aggregatableCoins t).eraseIdx index) })

def giveAggregatable (coin : AggregatableCoin) : World address coinType :=
  { w with
    aggregatableCoins := update w.aggregatableCoins t (coin :: w.aggregatableCoins t) }

def step (chain : Chain address coinType) (w : World address coinType) :
    Operation address coinType -> MoveResult (World address coinType)
  | .call call => do
    let s <- call.run chain w.resources
    return w.setResources s
  | .zero t => .ok (w.giveCoin t Framework.zero)
  | .mint t amount => do
    let (coin, s) <- w.resources.mint t amount
    return (w.setResources s).giveCoin t coin
  | .burn t coin => do
    let (coin, w) <- w.takeCoin t coin
    let s <- w.resources.burn t coin
    return w.setResources s
  | .deposit t accountAddr coin => do
    let (coin, w) <- w.takeCoin t coin
    let s <- w.resources.deposit t accountAddr coin
    return w.setResources s
  | .withdraw t account amount => do
    let (coin, s) <- w.resources.withdraw t account amount
    return (w.setResources s).giveCoin t coin
  | .extract t coin amount => do
    let (coin, w) <- w.takeCoin t coin
    let (rest, out) <- Framework.extract coin amount
    return (w.giveCoin t rest).giveCoin t out
  | .extractAll t coin => do
    let (coin, w) <- w.takeCoin t coin
    let (rest, out) := Framework.extractAll coin
    return (w.giveCoin t rest).giveCoin t out
  | .merge t sourceCoin dstCoin => do
    let (sourceCoin, w) <- w.takeCoin t sourceCoin
    let (dstCoin, w) <- w.takeCoin t dstCoin
    let merged <- Framework.merge dstCoin sourceCoin
    return w.giveCoin t merged
  | .destroyZero t coin => do
    let (coin, w) <- w.takeCoin t coin
    Framework.destroyZero coin
    return w
  | .initializeAggregatableCoin t account => do
    let coin <- w.resources.initializeAggregatableCoin chain account
    return w.giveAggregatable t coin
  | .mergeAggregatableCoin t coin dstCoin => do
    let (coin, w) <- w.takeCoin t coin
    let (dstCoin, w) <- w.takeAggregatable t dstCoin
    let merged <- Framework.mergeAggregatableCoin dstCoin coin
    return w.giveAggregatable t merged
  | .collectIntoAggregatableCoin t accountAddr amount dstCoin => do
    let (dstCoin, w) <- w.takeAggregatable t dstCoin
    let (collected, s) <- w.resources.collectIntoAggregatableCoin t accountAddr amount dstCoin
    return (w.setResources s).giveAggregatable t collected
  | .drainAggregatableCoin t coin => do
    let (coin, w) <- w.takeAggregatable t coin
    let (rest, out) <- Framework.drainAggregatableCoin coin
    return (w.giveAggregatable t rest).giveCoin t out

def run (chain : Chain address coinType) (w : World address coinType)
    (operations : List (Operation address coinType)) :
    World address coinType :=
  operations.foldl (fun w operation =>
    match w.step chain operation with
    | .ok w' => w'
    | _ => w) w

end World

end

/-!
# Loose coins
-/

section

variable {address coinType : Type} [DecidableEq coinType]

namespace World

def coinValue (coin : Coin) : Nat := coin.value.toNat

def aggregatableValue (coin : AggregatableCoin) : Nat := coin.value.value.toNat

def loose (w : World address coinType) (t : coinType) : Nat :=
  ((w.coins t).map coinValue).sum + ((w.aggregatableCoins t).map aggregatableValue).sum

def inExistence (chain : Chain address coinType) (w : World address coinType) (t : coinType) :
    Nat :=
  w.resources.holdings chain t + w.loose t

variable {w w' : World address coinType} {t : coinType}

theorem plus_loose_setCoins {coins} {a b : Nat}
    (h : (coins.map coinValue).sum + a = ((w.coins t).map coinValue).sum + b) :
    plus t a ({ w with coins := update w.coins t coins } : World address coinType).loose =
      plus t b w.loose := by
  funext t'
  by_cases ht : t' = t
  · subst ht
    simp only [plus_self, loose, update_self]
    omega
  · simp only [plus_of_ne ht, loose, update_of_ne ht]

theorem plus_loose_setAggregatableCoins {coins} {a b : Nat}
    (h : (coins.map aggregatableValue).sum + a = ((w.aggregatableCoins t).map aggregatableValue).sum
      + b) :
    plus t a
        ({ w with
          aggregatableCoins := update w.aggregatableCoins t coins } :
          World address coinType).loose =
      plus t b w.loose := by
  funext t'
  by_cases ht : t' = t
  · subst ht
    simp only [plus_self, loose, update_self]
    omega
  · simp only [plus_of_ne ht, loose, update_of_ne ht]

theorem loose_giveCoin (w : World address coinType) (t : coinType) (coin : Coin) :
    (w.giveCoin t coin).loose = plus t coin.value.toNat w.loose := by
  rw [← plus_zero t (w.giveCoin t coin).loose]
  apply plus_loose_setCoins
  rw [map_cons, sum_cons, add_zero]
  exact add_comm _ _

theorem loose_giveCoin_giveCoin (w : World address coinType) (t : coinType) (first second : Coin) :
    ((w.giveCoin t first).giveCoin t second).loose =
      plus t (first.value.toNat + second.value.toNat) w.loose := by
  rw [loose_giveCoin, loose_giveCoin, ← plus_add, add_comm]

theorem loose_giveAggregatable (w : World address coinType) (t : coinType)
    (coin : AggregatableCoin) :
    (w.giveAggregatable t coin).loose = plus t coin.value.value.toNat w.loose := by
  rw [← plus_zero t (w.giveAggregatable t coin).loose]
  apply plus_loose_setAggregatableCoins
  rw [map_cons, sum_cons, add_zero]
  exact add_comm _ _

theorem takeCoin_eq_ok {index : Nat} {coin : Coin} (h : w.takeCoin t index = .ok (coin, w')) :
    w'.resources = w.resources ∧ w.loose = plus t coin.value.toNat w'.loose := by
  rcases of_bind h with ⟨_, hfound, h⟩
  cases h
  refine ⟨rfl, ?_⟩
  rw [← plus_zero t w.loose]
  apply Eq.symm
  apply plus_loose_setCoins
  rw [sum_eraseIdx coinValue (borrowGlobal_eq_ok_iff.mp hfound)]
  exact add_comm _ _

theorem takeAggregatable_eq_ok {index : Nat} {coin}
    (h : w.takeAggregatable t index = .ok (coin, w')) :
    w'.resources = w.resources ∧ w.loose = plus t coin.value.value.toNat w'.loose := by
  rcases of_bind h with ⟨_, hfound, h⟩
  cases h
  refine ⟨rfl, ?_⟩
  rw [← plus_zero t w.loose]
  apply Eq.symm
  apply plus_loose_setAggregatableCoins
  rw [sum_eraseIdx aggregatableValue (borrowGlobal_eq_ok_iff.mp hfound)]
  exact add_comm _ _

open Resources

variable {chain : Chain address coinType}

def Balanced (chain : Chain address coinType) (w : World address coinType) : Prop :=
  Balances chain w.resources w.loose

/-- A chain without coins, of any type. -/
def Fresh (chain : Chain address coinType) (w : World address coinType) : Prop :=
  forall t, w.resources.coinInfo t = none ∧ w.inExistence chain t = 0

theorem balanced_of_fresh (h : w.Fresh chain) : w.Balanced chain := by
  intro t _ hv
  unfold supplyValue at hv
  rw [(h t).1] at hv
  cases hv
  exact (h t).2.symm

end World

end

/-!
# Conservation along runs
-/

open Resources

variable {address coinType : Type} [DecidableEq address] [DecidableEq coinType]
  {chain : Chain address coinType}

def Call.ofFees : Call address coinType -> Bool
  | .initializeFeeCollectionAndDistribution _ _ | .upgradeBurnPercentage _ _
  | .registerProposerForFeeCollection _ | .processCollectedFees | .collectFee _ _ => true
  | _ => false

variable {s s' : Resources address coinType} {call : Call address coinType}

theorem Call.moves_of_coin (hcall : call.ofFees = false) (h : call.run chain s = .ok s') :
    exists t, Moves t s 0 0 s' := by
  cases call with
  | initializeSupplyConfig | destroyMintCap | storeOlCoinBurnCap =>
    rcases of_check h with ⟨_, h⟩
    rcases of_check h with ⟨_, h⟩
    cases h
    refine ⟨chain.olCoin, .untouched ?_ ?_ ⟨?_, ?_⟩ 0⟩ <;> rfl
  | allowSupplyUpgrades =>
    rcases of_check h with ⟨_, h⟩
    rcases of_bind h with ⟨_, _, h⟩
    cases h
    refine ⟨chain.olCoin, .untouched ?_ ?_ ⟨?_, ?_⟩ 0⟩ <;> rfl
  | initializeCoin t => exact ⟨t, moves_initializeInternal h⟩
  | initializeWithParallelizableSupply t => exact ⟨t, moves_initializeWithParallelizableSupply h⟩
  | upgradeSupply t => exact ⟨t, moves_upgradeSupply h⟩
  | register t => exact ⟨t, moves_register h⟩
  | burnFrom t => exact ⟨t, moves_burnFrom h⟩
  | transfer t => exact ⟨t, moves_transfer h⟩
  | freezeCoinStore t | unfreezeCoinStore t => exact ⟨t, moves_setFrozen h⟩
  | initializeOlCoin => exact ⟨_, moves_initializeOlCoin h⟩
  | olMint => exact ⟨_, moves_olMint h⟩
  | delegateMintCapability =>
    rcases of_check h with ⟨_, h⟩
    rcases of_bind h with ⟨_, _, h⟩
    rcases of_check h with ⟨_, h⟩
    cases h
    refine ⟨chain.olCoin, .untouched ?_ ?_ ⟨?_, ?_⟩ 0⟩ <;> rfl
  | claimMintCapability =>
    rcases of_bind h with ⟨_, _, h⟩
    rcases of_check h with ⟨_, h⟩
    rcases of_check h with ⟨_, h⟩
    rcases of_check h with ⟨_, h⟩
    cases h
    refine ⟨chain.olCoin, .untouched ?_ ?_ ⟨?_, ?_⟩ 0⟩ <;> rfl
  | burnFee => exact ⟨_, moves_burnFee h⟩
  | _ => cases hcall

theorem Call.moves (h : call.run chain s = .ok s') :
    (exists t, Moves t s 0 0 s') ∨ FeeMoves chain s 0 0 s' := by
  cases call with
  | initializeFeeCollectionAndDistribution => exact .inr (feeMoves_initializeFeeCollection h)
  | upgradeBurnPercentage => exact .inr (feeMoves_upgradeBurnPercentage h)
  | registerProposerForFeeCollection proposerAddr =>
    cases h
    exact .inr (feeMoves_registerProposer proposerAddr)
  | processCollectedFees => exact .inr (feeMoves_processCollectedFees h)
  | collectFee => exact .inr (feeMoves_collectFee h)
  | _ => exact .inl (Call.moves_of_coin rfl h)

namespace World

def CoinStep (w w' : World address coinType) : Prop :=
  exists t a b frame, w.loose = plus t a frame ∧
    w'.loose = plus t b frame ∧ Moves t w.resources a b w'.resources

def FeeStep (chain : Chain address coinType) (w w' : World address coinType) : Prop :=
  w'.loose = w.loose ∧ FeeMoves chain w.resources 0 0 w'.resources

variable {w w' : World address coinType} {t : coinType} {s : Resources address coinType}
  {operation : Operation address coinType}

theorem coinStep_setResources (h : Moves t w.resources 0 0 s) : CoinStep w (w.setResources s) :=
  ⟨t, 0, 0, w.loose, (plus_zero t _).symm, (plus_zero t _).symm, h⟩

theorem coinStep_giveCoin {coin : Coin} (h : Moves t w.resources 0 coin.value.toNat s) :
    CoinStep w ((w.setResources s).giveCoin t coin) :=
  ⟨t, 0, coin.value.toNat, w.loose, (plus_zero t _).symm, loose_giveCoin _ t coin, h⟩

theorem coinStep_takeCoin {middle} {index : Nat}
    {coin : Coin} (htake : w.takeCoin t index = .ok (coin, middle))
    (h : Moves t middle.resources coin.value.toNat 0 s) : CoinStep w (middle.setResources s) := by
  rcases takeCoin_eq_ok htake with ⟨hrsrc, hloose⟩
  rw [hrsrc] at h
  exact ⟨t, coin.value.toNat, 0, middle.loose, hloose, (plus_zero t _).symm, h⟩

theorem coinStep_loose {a b : Nat} {frame} (hrsrc : w'.resources = w.resources)
    (hbef : w.loose = plus t a frame) (hafter : w'.loose = plus t b frame) (hval : a = b) :
    CoinStep w w' := by
  subst hval
  refine ⟨t, a, a, frame, hbef, hafter, ?_⟩
  rw [hrsrc]
  exact Moves.same _ a

theorem coinStep_of_step (hop : forall call, operation ≠ .call call)
    (h : w.step chain operation = .ok w') : CoinStep w w' := by
  cases operation with
  | call call => exact (hop call rfl).elim
  | zero t =>
    cases h
    exact coinStep_loose rfl (plus_zero t _).symm (loose_giveCoin w t Framework.zero) rfl
  | mint =>
    rcases of_bind h with ⟨⟨coin, s⟩, hmint, h⟩
    cases h
    exact coinStep_giveCoin (moves_mint hmint)
  | burn =>
    rcases of_bind h with ⟨⟨coin, middle⟩, htake, h⟩
    rcases of_bind h with ⟨s, hburn, h⟩
    cases h
    exact coinStep_takeCoin htake (moves_burn hburn)
  | deposit =>
    rcases of_bind h with ⟨⟨coin, middle⟩, htake, h⟩
    rcases of_bind h with ⟨s, hdeposit, h⟩
    cases h
    exact coinStep_takeCoin htake (moves_deposit hdeposit)
  | withdraw =>
    rcases of_bind h with ⟨⟨coin, s⟩, hwithdraw, h⟩
    cases h
    exact coinStep_giveCoin (moves_withdraw hwithdraw)
  | extract t =>
    rcases of_bind h with ⟨⟨coin, middle⟩, htake, h⟩
    rcases of_bind h with ⟨⟨rest, out⟩, hextr, h⟩
    cases h
    rcases extract_eq_ok hextr with ⟨hval, rfl⟩
    rcases takeCoin_eq_ok htake with ⟨hrsrc, hloose⟩
    exact coinStep_loose hrsrc hloose (loose_giveCoin_giveCoin middle t _ _) hval.symm
  | extractAll t =>
    rcases of_bind h with ⟨⟨coin, middle⟩, htake, h⟩
    cases h
    rcases takeCoin_eq_ok htake with ⟨hrsrc, hloose⟩
    exact coinStep_loose hrsrc hloose (loose_giveCoin_giveCoin middle t _ _) (zero_add _).symm
  | merge t =>
    rcases of_bind h with ⟨⟨_, first⟩, htake, h⟩
    rcases of_bind h with ⟨⟨dstCoin, second⟩, htakeDst, h⟩
    rcases of_bind h with ⟨merged, hmerge, h⟩
    cases h
    rcases takeCoin_eq_ok htake with ⟨hrsrc, hloose⟩
    rcases takeCoin_eq_ok htakeDst with ⟨hrsrcDst, hlooseDst⟩
    rw [hlooseDst, ← plus_add, add_comm] at hloose
    exact coinStep_loose (hrsrcDst.trans hrsrc) hloose
      (loose_giveCoin second t merged) (merge_eq_ok_iff.mp hmerge).symm
  | destroyZero t =>
    rcases of_bind h with ⟨⟨coin, middle⟩, htake, h⟩
    rcases of_check h with ⟨hzero, h⟩
    cases h
    rcases takeCoin_eq_ok htake with ⟨hrsrc, hloose⟩
    exact coinStep_loose hrsrc hloose (plus_zero t _).symm (destroyZero_eq_ok_iff.mp hzero)
  | initializeAggregatableCoin t =>
    rcases of_bind h with ⟨coin, hcoin, h⟩
    cases h
    exact coinStep_loose rfl (plus_zero t _).symm (loose_giveAggregatable w t coin)
      (value_initializeAggregatableCoin hcoin).symm
  | mergeAggregatableCoin t =>
    rcases of_bind h with ⟨⟨coin, _⟩, htake, h⟩
    rcases of_bind h with ⟨⟨dstCoin, second⟩, htakeDst, h⟩
    rcases of_bind h with ⟨merged, hmerge, h⟩
    cases h
    rcases takeCoin_eq_ok htake with ⟨hrsrc, hloose⟩
    rcases takeAggregatable_eq_ok htakeDst with ⟨hrsrcDst, hlooseDst⟩
    rw [hlooseDst, ← plus_add, add_comm] at hloose
    exact coinStep_loose (hrsrcDst.trans hrsrc) hloose (loose_giveAggregatable second t merged)
      (mergeAggregatableCoin_eq_ok hmerge).symm
  | collectIntoAggregatableCoin t =>
    rcases of_bind h with ⟨⟨dstCoin, middle⟩, htake, h⟩
    rcases of_bind h with ⟨⟨collected, _⟩, hcoll, h⟩
    cases h
    rcases takeAggregatable_eq_ok htake with ⟨hrsrc, hloose⟩
    rcases moves_collectIntoAggregatableCoin hcoll with ⟨_, hgained, hmoves⟩
    have hframed := hmoves.frame dstCoin.value.value.toNat
    rw [zero_add, add_comm, ← hgained, hrsrc] at hframed
    exact ⟨t, _, _, middle.loose, hloose, loose_giveAggregatable _ t collected, hframed⟩
  | drainAggregatableCoin t =>
    rcases of_bind h with ⟨⟨_, middle⟩, htake, h⟩
    rcases of_bind h with ⟨⟨rest, out⟩, hdrain, h⟩
    cases h
    rcases takeAggregatable_eq_ok htake with ⟨hrsrc, hloose⟩
    rcases drainAggregatableCoin_eq_ok hdrain with ⟨hrest, hout⟩
    have hafter := loose_giveCoin (middle.giveAggregatable t rest) t out
    rw [loose_giveAggregatable, hrest, plus_zero] at hafter
    exact coinStep_loose hrsrc hloose hafter hout.symm

theorem step_eq_ok (h : w.step chain operation = .ok w') : CoinStep w w' ∨ FeeStep chain w w' := by
  cases operation with
  | call =>
    rcases of_bind h with ⟨_, hs, h⟩
    cases h
    rcases Call.moves hs with ⟨_, hmoves⟩ | hmoves
    · exact .inl (coinStep_setResources hmoves)
    · exact .inr ⟨rfl, hmoves⟩
  | _ => exact .inl (coinStep_of_step (by simp) h)

theorem run_invariant (P : World address coinType -> Prop)
    (hstep : forall w operation w', P w -> w.step chain operation = .ok w' -> P w')
    (operations : List (Operation address coinType)) :
    forall {w : World address coinType}, P w -> P (w.run chain operations) := by
  induction operations with
  | nil =>
    intro w h
    exact h
  | cons operation operations ih =>
    intro w h
    unfold run
    rw [foldl_cons]
    apply ih
    split
    · next w' hok => exact hstep w operation w' h hok
    · exact h

theorem balanced_step (hbalanced : w.Balanced chain) (h : w.step chain operation = .ok w') :
    w'.Balanced chain := by
  unfold Balanced at hbalanced ⊢
  rcases step_eq_ok h with hstep | hstep
  · rcases hstep with ⟨_, _, _, _, hbef, hafter, hmoves⟩
    rw [hbef] at hbalanced
    rw [hafter]
    exact hmoves.balances hbalanced
  · rcases hstep with ⟨hloose, hmoves⟩
    rw [← plus_zero chain.olCoin w.loose] at hbalanced
    rw [hloose, ← plus_zero chain.olCoin w.loose]
    exact hmoves.balances hbalanced

theorem balanced_run {w : World address coinType} (hbalanced : w.Balanced chain)
    (operations : List (Operation address coinType)) : (w.run chain operations).Balanced chain := by
  apply run_invariant (fun w => w.Balanced chain)
  · intro _ _ _ hbef hstep
    exact balanced_step hbef hstep
  · exact hbalanced

/-- Along every sequence of operations the tracked supply of every coin type is
the sum of what stores, fees and loose coins hold. -/
theorem supply_conserved {w : World address coinType} (h : w.Fresh chain)
    (operations : List (Operation address coinType)) (t : coinType)
    {info : CoinInfo} {aggregator : OptionalAggregator}
    (hinfo : (w.run chain operations).resources.coinInfo t = some info)
    (htracked : info.supply = some aggregator) :
    exists value, (w.run chain operations).resources.supply t = Outcome.ok (some value) ∧
        value.toNat = (w.run chain operations).inExistence chain t := by
  refine ⟨aggregator.read, ?_, ?_⟩
  · unfold supply borrowCoinInfo
    rw [hinfo]
    simp [borrowGlobal, htracked]
  · apply balanced_run (balanced_of_fresh h) operations
    unfold supplyValue
    rw [hinfo]
    simp [htracked]

/-!
# A small chain
-/

/-- Two coin types, of which `true` is the coin of the chain. -/
def smallChain : Chain Nat Bool :=
  { openLibra := 1
    vmReserved := 0
    coreResources := 0xA550C18
    coinAddress := fun _ => 1
    olCoin := true }

def emptyAccount : Account :=
  { guidCreationNum := 0
    coinRegisterEvents := { counter := 0, creationNum := 0 } }

def smallWorld (accounts : List Nat) : World Nat Bool :=
  { resources :=
      { accounts := accounts.foldl
          (fun table account => table.insert account emptyAccount) ∅
        aggregatorFactory := true
        allowSupplyUpgrades := none
        coinInfo := fun _ => none
        coinStores := fun _ => ∅
        mintCapStores := []
        delegations := none
        burnCap := false
        collectedFees := none
        validatorFees := none }
    coins := fun _ => []
    aggregatableCoins := fun _ => [] }

theorem smallWorld_fresh (accounts : List Nat) : (smallWorld accounts).Fresh smallChain := by
  intro t
  cases t <;> exact ⟨rfl, rfl⟩

def smallRun : List (Operation Nat Bool) :=
  [.call (.initializeSupplyConfig 1), .call (.allowSupplyUpgrades 1 true),
    Operation.call (Call.initializeCoin false 1 "Fake money" "FMD" 8 true),
    .call (.register false 7),
    .mint false 100,
    .deposit false 7 0,
    .call (.upgradeSupply false 1),
    .withdraw false 7 30,
    .extract false 0 20,
    .burn false 0,
    .deposit false 8 0]

/-- Fees are collected for a proposer. -/
def feeRun (amount : U64) (proposerAddr : Nat) : List (Operation Nat Bool) :=
  [.call (.initializeOlCoin 1), .call (.storeOlCoinBurnCap 1), .call
    (.initializeFeeCollectionAndDistribution 1 50), .call (.register true 7), .call (.olMint 1 7
    amount), .call (.registerProposerForFeeCollection proposerAddr), .call (.collectFee 7 amount)]

def afterFees (amount : U64) (proposerAddr : Nat) : World Nat Bool :=
  (smallWorld [7]).run smallChain (feeRun amount proposerAddr)

def smallInfo : CoinInfo :=
  { name := "Fake money"
    symbol := "FMD"
    decimals := 8
    supply := some (.aggregator
      { value := 80, limit := maxU128 }) }

theorem supply_conserved_smallRun :
    exists value, ((smallWorld [7]).run smallChain smallRun).resources.supply false =
          Outcome.ok (some value) ∧
        value.toNat = ((smallWorld [7]).run smallChain smallRun).inExistence smallChain false ∧
        ((smallWorld [7]).run smallChain smallRun).inExistence smallChain
          false = 80 := by
  have hinfo : ((smallWorld [7]).run smallChain smallRun).resources.coinInfo
    false = some smallInfo := by
    decide +kernel
  rcases supply_conserved (smallWorld_fresh [7]) smallRun false hinfo rfl with
    ⟨value, hsupply, hvalue⟩
  exact ⟨value, hsupply, hvalue, by decide +kernel⟩

end World

end OpenLibra.Framework
