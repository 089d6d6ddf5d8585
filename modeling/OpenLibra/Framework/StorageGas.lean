import OpenLibra.Move.Vector
import OpenLibra.Numeric.Polyline
import OpenLibra.Transition.WhileLoop

/-!
# Gas for global storage

The price of a storage operation depends on how much of the target utilization is used.
-/

namespace OpenLibra.GlobalStorage

open Rust Move Transition

def eInvalidGasRange : Nat := 2

def eZeroTargetUsage : Nat := 3

def eTargetUsageTooBig : Nat := 4

def eInvalidMonotonicallyNonDecreasingCurve : Nat := 5

def basisPointDenomination : U64 := 10000

def maxU64 : U64 := 18446744073709551615

/-!
# Points
-/

structure Point where
  x : U64
  y : U64
deriving DecidableEq, Repr

def startPoint : Point :=
  { x := 0
    y := 0 }

def endPoint : Point :=
  { x := basisPointDenomination
    y := basisPointDenomination }

variable (points : List Point)

def pointBefore (i : Nat) : MoveResult Point :=
  if i = 0 then .ok startPoint else Vector.borrow points (i - 1)

def pointAfter (i : Nat) : MoveResult Point :=
  if i = points.length then .ok endPoint else Vector.borrow points i

/-- One iteration of `validate_points`. -/
def validateGap (i : Nat) : MoveResult Unit := do
  let cur <- pointBefore points i
  let next <- pointAfter points i
  ensure (cur.x.toNat < next.x.toNat ∧ cur.y.toNat ≤ next.y.toNat)
    (invalidArgument eInvalidMonotonicallyNonDecreasingCurve)

def validatePoints : MoveResult Unit :=
  tryForEach (validateGap points) (List.range (points.length + 1))

structure GasCurve where
  minGas : U64
  maxGas : U64
  points : List Point
  ordered : minGas.toNat ≤ maxGas.toNat
  bounded : maxGas.toNat ≤ maxU64.toNat / basisPointDenomination.toNat
  validated : validatePoints points = .ok ()
deriving DecidableEq

def newGasCurve (minGas maxGas : U64) (points : List Point) : MoveResult GasCurve :=
  if ordered : minGas.toNat ≤ maxGas.toNat then
    if bounded : maxGas.toNat ≤ maxU64.toNat / basisPointDenomination.toNat then
      match validated : validatePoints points with
      | .ok () =>
        .ok
          { minGas, maxGas, points, ordered, bounded, validated }
      | .err e => .err e
      | .panic => .panic
    else
      .err (invalidArgument eInvalidGasRange)
  else
    .err (invalidArgument eInvalidGasRange)

structure UsageGasConfig where
  targetUsage : U64
  readCurve : GasCurve
  createCurve : GasCurve
  writeCurve : GasCurve
  positive : 0 < targetUsage.toNat
  bounded : targetUsage.toNat ≤ maxU64.toNat / basisPointDenomination.toNat
deriving DecidableEq

def newUsageGasConfig (targetUsage : U64) (readCurve createCurve writeCurve : GasCurve) :
    MoveResult UsageGasConfig :=
  if positive : 0 < targetUsage.toNat then
    if bounded : targetUsage.toNat ≤ maxU64.toNat / basisPointDenomination.toNat then
      .ok
        { targetUsage, readCurve, createCurve, writeCurve, positive, bounded }
    else
      .err (invalidArgument eTargetUsageTooBig)
  else
    .err (invalidArgument eZeroTargetUsage)

/-!
# Calculation
-/

def interpolate (x0 x1 y0 y1 x : U64) : MoveResult U64 := do
  let dx <- sub x x0
  let dy <- sub y1 y0
  let product <- mul dx dy
  let width <- sub x1 x0
  let rise <- div product width
  add y0 rise

variable (currentUsageBps : U64)

/-- The body of the search.  `mid` is rounded up, so that either bound moves. -/
def searchBody (bounds : Nat × Nat) : MoveResult (Nat × Nat) := do
  let span <- Vector.indexSub bounds.2 bounds.1
  let mid <- Vector.indexSub bounds.2 (span / 2)
  let point <- Vector.borrow points mid
  if currentUsageBps.toNat < point.x.toNat then do
    let j <- Vector.indexSub mid 1
    return (bounds.1, j)
  else
    return (mid, bounds.2)

def search (bounds : Nat × Nat) : MoveResult (Nat × Nat) :=
  match whileLoop (fun bounds : Nat × Nat => decide (bounds.1 < bounds.2))
    (searchBody points currentUsageBps) points.length bounds with
  | some result => result
  | none => .panic

def findSegment : MoveResult (Point × Point) :=
  if points.length = 0 then
    .ok (startPoint, endPoint)
  else do
    let first <- Vector.borrow points 0
    if currentUsageBps.toNat < first.x.toNat then
      .ok (startPoint, first)
    else do
      let lastIndex <- Vector.indexSub points.length 1
      let last <- Vector.borrow points lastIndex
      if last.x.toNat ≤ currentUsageBps.toNat then
        .ok (last, endPoint)
      else do
        let j <- Vector.indexSub points.length 2
        let bounds <- search points currentUsageBps (0, j)
        let left <- Vector.borrow points bounds.1
        let right <- Vector.borrow points (bounds.1 + 1)
        return (left, right)

def cappedUsage (maxUsage currentUsage : U64) : U64 :=
  if maxUsage.toNat < currentUsage.toNat then maxUsage else currentUsage

def calculateGas (maxUsage currentUsage : U64) (curve : GasCurve) :
    MoveResult U64 := do
  let scaled <- mul (cappedUsage maxUsage currentUsage) basisPointDenomination
  let currentUsageBps <- div scaled maxUsage
  let segment <- findSegment curve.points currentUsageBps
  let yInterpolated <- interpolate segment.1.x segment.2.x segment.1.y segment.2.y currentUsageBps
  interpolate 0 basisPointDenomination curve.minGas curve.maxGas yInterpolated

end OpenLibra.GlobalStorage
