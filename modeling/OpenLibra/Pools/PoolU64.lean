import OpenLibra.Move.SimpleMap

/-!
# Pools of shares

Shares are bought and redeemed at the price of the total coins over the total shares, both times
rounded down.
-/

namespace OpenLibra.Pools

open Rust Move

def eShareholderNotFound : Nat := 1

def eTooManyShareholders : Nat := 2

def eInsufficientShares : Nat := 4

def eShareholderSharesOverflow : Nat := 5

def ePoolTotalCoinsOverflow : Nat := 6

def maxU64 : U64 := 18446744073709551615

structure Pool (address : Type) where
  shareholdersLimit : U64
  totalCoins : U64
  totalShares : U64
  shares : SimpleMap address U64
  shareholders : List address
  scalingFactor : U64

namespace Pool

variable {address : Type}

def createWithScalingFactor (shareholdersLimit scalingFactor : U64) : Pool address where
  shareholdersLimit := shareholdersLimit
  totalCoins := 0
  totalShares := 0
  shares := SimpleMap.create
  shareholders := []
  scalingFactor := scalingFactor

variable (pool : Pool address)

def updateTotalCoins (newTotalCoins : U64) : Pool address :=
  { pool with totalCoins := newTotalCoins }

/-!
# Prices
-/

def multiplyThenDivide (x y z : U64) : MoveResult U64 := do
  let x128 <- cast 128 x
  let y128 <- cast 128 y
  let product <- mul x128 y128
  let z128 <- cast 128 z
  let result <- div product z128
  cast 64 result

def amountToSharesWithTotalCoins (coinsAmount totalCoins : U64) : MoveResult U64 :=
  if pool.totalCoins = 0 ∨ pool.totalShares = 0 then
    mul coinsAmount pool.scalingFactor
  else
    multiplyThenDivide coinsAmount pool.totalShares totalCoins

def amountToShares (coinsAmount : U64) : MoveResult U64 :=
  pool.amountToSharesWithTotalCoins coinsAmount pool.totalCoins

def sharesToAmountWithTotalCoins (shares totalCoins : U64) : MoveResult U64 :=
  if pool.totalCoins = 0 ∨ pool.totalShares = 0 then
    .ok 0
  else
    multiplyThenDivide shares totalCoins pool.totalShares

def sharesToAmount (shares : U64) : MoveResult U64 :=
  pool.sharesToAmountWithTotalCoins shares pool.totalCoins

/-!
# Shareholders
-/

variable [DecidableEq address] (pool : Pool address) (shareholder : address)

def contains : Bool :=
  pool.shares.containsKey shareholder

/-- `shares`, whose name is that of the field. -/
def sharesOf : MoveResult U64 :=
  if pool.contains shareholder then pool.shares.borrow shareholder
  else .ok 0

def balance : MoveResult U64 := do
  let numShares <- pool.sharesOf shareholder
  pool.sharesToAmount numShares

def addShares (newShares : U64) : MoveResult (U64 × Pool address) :=
  if pool.contains shareholder then do
    let currentShares <- pool.shares.borrow shareholder
    let room <- sub maxU64 currentShares
    ensure (newShares.toNat ≤ room.toNat) (invalidArgument eShareholderSharesOverflow)
    let existingShares <- add currentShares newShares
    let shares <- pool.shares.assign shareholder existingShares
    return (existingShares, { pool with shares := shares })
  else if 0 < newShares.toNat then do
    ensure (pool.shareholders.length < pool.shareholdersLimit.toNat)
      (invalidState eTooManyShareholders)
    let shares <- pool.shares.add shareholder newShares
    return (newShares, { pool with
      shares := shares
      shareholders := pool.shareholders ++ [shareholder] })
  else
    .ok (newShares, pool)

def removeShareholder : MoveResult (Pool address) := do
  let shareholderIndex := (Vector.indexOf pool.shareholders shareholder).2
  let shareholders <- Vector.remove pool.shareholders shareholderIndex
  let shares <- pool.shares.remove shareholder
  return { pool with
    shares := shares.2
    shareholders := shareholders.2 }

def deductShares (numShares : U64) : MoveResult (U64 × Pool address) := do
  ensure (pool.contains shareholder = true) (invalidArgument eShareholderNotFound)
  let held <- pool.sharesOf shareholder
  ensure (numShares.toNat ≤ held.toNat) (invalidArgument eInsufficientShares)
  let existingShares <- pool.shares.borrow shareholder
  let remainingShares <- sub existingShares numShares
  let shares <- pool.shares.assign shareholder remainingShares
  let pool := { pool with shares := shares }
  if remainingShares = 0 then do
    let pool <- pool.removeShareholder shareholder
    return (remainingShares, pool)
  else
    return (remainingShares, pool)

def buyIn (coinsAmount : U64) : MoveResult (U64 × Pool address) :=
  if coinsAmount = 0 then
    .ok (0, pool)
  else do
    let newShares <- pool.amountToShares coinsAmount
    let coinsRoom <- sub maxU64 pool.totalCoins
    ensure (coinsAmount.toNat ≤ coinsRoom.toNat) (invalidArgument ePoolTotalCoinsOverflow)
    -- The source reports the error of the coins here, too.
    let sharesRoom <- sub maxU64 pool.totalShares
    ensure (newShares.toNat ≤ sharesRoom.toNat) (invalidArgument ePoolTotalCoinsOverflow)
    let totalCoins <- add pool.totalCoins coinsAmount
    let totalShares <- add pool.totalShares newShares
    let added <- { pool with
      totalCoins := totalCoins
      totalShares := totalShares }.addShares shareholder newShares
    return (newShares, added.2)

def redeemShares (sharesToRedeem : U64) : MoveResult (U64 × Pool address) := do
  ensure (pool.contains shareholder = true) (invalidArgument eShareholderNotFound)
  let held <- pool.sharesOf shareholder
  ensure (sharesToRedeem.toNat ≤ held.toNat) (invalidArgument eInsufficientShares)
  if sharesToRedeem = 0 then
    return (0, pool)
  else do
    let redeemedCoins <- pool.sharesToAmount sharesToRedeem
    let totalCoins <- sub pool.totalCoins redeemedCoins
    let totalShares <- sub pool.totalShares sharesToRedeem
    let deducted <- { pool with
      totalCoins := totalCoins
      totalShares := totalShares }.deductShares shareholder sharesToRedeem
    return (redeemedCoins, deducted.2)

def transferShares (pool : Pool address)
    (shareholder1 shareholder2 : address) (sharesToTransfer : U64) :
    MoveResult (Pool address) := do
  ensure (pool.contains shareholder1 = true) (invalidArgument eShareholderNotFound)
  let held <- pool.sharesOf shareholder1
  ensure (sharesToTransfer.toNat ≤ held.toNat) (invalidArgument eInsufficientShares)
  if sharesToTransfer = 0 then
    return pool
  else do
    let deducted <- pool.deductShares shareholder1 sharesToTransfer
    let added <- deducted.2.addShares shareholder2 sharesToTransfer
    return added.2

inductive Call (address : Type) where
  | buyIn (shareholder : address) (coinsAmount : U64)
  | redeemShares (shareholder : address) (sharesToRedeem : U64)
  | transferShares (shareholder1 shareholder2 : address) (sharesToTransfer : U64)
  | updateTotalCoins (newTotalCoins : U64)

def perform (pool : Pool address) : Call address -> MoveResult (Pool address)
  | .buyIn shareholder coinsAmount => do
    let bought <- pool.buyIn shareholder coinsAmount
    return bought.2
  | .redeemShares shareholder sharesToRedeem => do
    let redeemed <- pool.redeemShares shareholder sharesToRedeem
    return redeemed.2
  | .transferShares shareholder1 shareholder2 sharesToTransfer =>
    pool.transferShares shareholder1 shareholder2 sharesToTransfer
  | .updateTotalCoins newTotalCoins => .ok (pool.updateTotalCoins newTotalCoins)

def attempt (pool : Pool address) (call : Call address) : Pool address :=
  match pool.perform call with
  | .ok pool' => pool'
  | _ => pool

def afterCalls (shareholdersLimit scalingFactor : U64) (calls : List (Call address)) :
    Pool address :=
  calls.foldl attempt (createWithScalingFactor shareholdersLimit scalingFactor)

end Pool

end OpenLibra.Pools
