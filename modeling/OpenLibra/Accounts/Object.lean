import OpenLibra.Accounts.Account
import OpenLibra.Aggregator.Extension
import OpenLibra.Transition.WhileLoop

/-!
# The object module

The walk along the owners of an object is a loop without a bound of its own, so it gets a number
of iterations.
-/

namespace OpenLibra.Accounts

open Rust Move

def eObjectExists : Nat := 1

def eObjectDoesNotExist : Nat := 2

def eNoUngatedTransfers : Nat := 3

def eNotObjectOwner : Nat := 4

def eCannotDelete : Nat := 5

def eMaximumNesting : Nat := 6

def maximumObjectNesting : Nat := 8

def objectAddressScheme : UInt8 := 0xFE

/-!
# References
-/

structure CreatorRef where
  self : Address
  canDelete : Bool
deriving DecidableEq

structure DeleteRef where
  self : Address
deriving DecidableEq

structure TransferRef where
  self : Address
deriving DecidableEq

structure LinearTransferRef where
  self : Address
  owner : Address
deriving DecidableEq

namespace CreatorRef

def generateDeleteRef (ref : CreatorRef) : MoveResult DeleteRef := do
  ensure (ref.canDelete = true) (permissionDenied eCannotDelete)
  return { self := ref.self }

def generateTransferRef (ref : CreatorRef) : TransferRef :=
  { self := ref.self }

end CreatorRef

/-- The canonical serialization of a `GUID`. -/
def Guid.toBytes (guid : Guid) : List UInt8 :=
  Aggregation.leBytes 8 guid.creationNum.toNat ++ guid.addr.toBytes

def createObjectId (env : Environment) (source : Address) (seed : List UInt8) : Address :=
  env.hashToAddress (source.toBytes ++ seed ++ [objectAddressScheme])

def objectIdFromGuid (env : Environment) (guid : Guid) : Address :=
  env.hashToAddress (guid.toBytes ++ [objectAddressScheme])

namespace Store

/-!
# Creation and deletion
-/

variable (s : Store)

def createObjectInternal (creatorAddress id : Address) (canDelete : Bool) :
    MoveResult (CreatorRef × Store) := do
  ensure (s.objects.lookup id = none) (alreadyExists eObjectExists)
  let (transferEventsGuid, guidCreationNum, s) <- s.guidCreate id 0
  let s <- s.publishObject id
    { guidCreationNum := guidCreationNum
      owner := creatorAddress
      allowUngatedTransfer := true
      transferEvents := EventHandle.new transferEventsGuid }
  return ({ self := id, canDelete := canDelete }, s)

variable (env : Environment)

def createNamedObject (creatorAddress : Address) (seed : List UInt8) :
    MoveResult (CreatorRef × Store) :=
  s.createObjectInternal creatorAddress (createObjectId env creatorAddress seed) false

def createObjectFromGuid (creatorAddress : Address) (guid : Guid) :
    MoveResult (CreatorRef × Store) :=
  s.createObjectInternal creatorAddress (objectIdFromGuid env guid) true

def createObjectFromAccount (creator : Address) : MoveResult (CreatorRef × Store) := do
  let (guid, s) <- s.createGuid creator
  s.createObjectFromGuid env creator guid

/-- `object::create_guid`. -/
def createObjectGuid (addr : Address) : MoveResult (Guid × Store) := do
  let object <- s.borrowObject addr
  let (guid, guidCreationNum, s) <- s.guidCreate addr object.guidCreationNum
  return (guid, s.setObject addr
    { object with guidCreationNum := guidCreationNum })

/-- `object::new_event_handle`. -/
def newObjectEventHandle (addr : Address) : MoveResult (EventHandle × Store) := do
  let (guid, s) <- s.createObjectGuid addr
  return (EventHandle.new guid, s)

def createObjectFromObject (creator : Address) : MoveResult (CreatorRef × Store) := do
  let (guid, s) <- s.createObjectGuid creator
  s.createObjectFromGuid env creator guid

def delete (ref : DeleteRef) : MoveResult Store := do
  let _ <- s.borrowObject ref.self
  return { s with objects := s.objects.erase ref.self }

/-!
# Transfers
-/

/-- `disable_ungated_transfer` and `enable_ungated_transfer`. -/
def setUngatedTransfer (allowed : Bool) (s : Store) (ref : TransferRef) :
    MoveResult Store := do
  let object <- s.borrowObject ref.self
  return s.setObject ref.self { object with allowUngatedTransfer := allowed }

def owner (s : Store) (objectId : Address) : MoveResult Address := do
  ensure ((s.objects.lookup objectId).isSome = true) (notFound eObjectDoesNotExist)
  let object <- s.borrowObject objectId
  return object.owner

def generateLinearTransferRef (ref : TransferRef) : MoveResult LinearTransferRef := do
  let owner <- s.owner ref.self
  return { self := ref.self, owner := owner }

def transferWithRef (ref : LinearTransferRef) (destination : Address) : MoveResult Store := do
  let object <- s.borrowObject ref.self
  let transferEvents <- object.transferEvents.emit
  return s.setObject ref.self
    { object with transferEvents := transferEvents, owner := destination }

/-- The variables of the loop in `verify_ungated_and_descendant`. -/
structure Walk where
  currentAddress : Address
  count : U8
deriving DecidableEq

def ungatedOwner (missing : Abort) (addr : Address) : MoveResult Address := do
  ensure ((s.objects.lookup addr).isSome = true) missing
  let object <- s.borrowObject addr
  ensure (object.allowUngatedTransfer = true) (permissionDenied eNoUngatedTransfers)
  return object.owner

def walkBody (walk : Walk) : MoveResult Walk := do
  -- `let count = count + 1` declares another variable for the rest of the
  -- body; the one of the loop keeps its value.
  let count <- Move.add walk.count 1
  ensure (count.toNat < maximumObjectNesting) (outOfRange eMaximumNesting)
  let owner <- s.ungatedOwner (permissionDenied eNotObjectOwner) walk.currentAddress
  return { walk with currentAddress := owner }

def walkStart (destination : Address) : MoveResult Walk := do
  let owner <- s.ungatedOwner (notFound eObjectDoesNotExist) destination
  return { currentAddress := owner, count := 0 }

def verifyUngatedAndDescendant (iterations : Nat) (owner destination : Address) :
    Option (MoveResult Unit) :=
  match s.walkStart destination with
  | .ok walk =>
    (Transition.whileLoop (fun walk => decide (owner ≠ walk.currentAddress))
      s.walkBody iterations walk).map fun result => do
        let _ <- result
        return ()
  | .err e => some (.err e)
  | .panic => some .panic

def outOfGas : Abort := Abort.vmError (some "OUT_OF_GAS")

/-- `transfer`, and `transfer_call` and `transfer_to_object`, which only unpack
their arguments. -/
def transfer (iterations : Nat) (ownerAddress objectId destination : Address) :
    MoveResult Store := do
  ((s.verifyUngatedAndDescendant iterations ownerAddress objectId).getD (.err outOfGas))
  let object <- s.borrowObject objectId
  if object.owner = destination then
    return s
  else do
    let transferEvents <- object.transferEvents.emit
    return s.setObject objectId
      { object with transferEvents := transferEvents, owner := destination }

end Store

end OpenLibra.Accounts
