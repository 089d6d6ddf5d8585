import Mathlib.Data.List.AList
import OpenLibra.Move.Address

/-!
# Accounts and objects in storage

The resources of the modules `account`, `resource_account` and `object`, and the identifiers that
`guid` derives from their counters.
-/

namespace OpenLibra.Accounts

open Rust Move Function

def openLibra : Address := Address.ofNat 0x1

def vmReserved : Address := Address.ofNat 0x0

/-!
# Resources
-/

/-- `guid::ID`, which is all that a `GUID` holds. -/
structure Guid where
  creationNum : U64
  addr : Address
deriving DecidableEq

structure EventHandle where
  counter : U64
  guid : Guid
deriving DecidableEq

structure Account where
  authenticationKey : List UInt8
  sequenceNumber : U64
  guidCreationNum : U64
  coinRegisterEvents : EventHandle
  keyRotationEvents : EventHandle
  rotationCapabilityOffer : Option Address
  signerCapabilityOffer : Option Address
deriving DecidableEq

structure SignerCapability where
  account : Address
deriving DecidableEq

structure Object where
  guidCreationNum : U64
  owner : Address
  allowUngatedTransfer : Bool
  transferEvents : EventHandle
deriving DecidableEq

/-- What has happened: `guid::create` has returned an identifier, an account or
an object was published, `create_resource_account` has issued a capability, an
offer of a signer capability was revoked, a transaction was sent. -/
inductive Event where
  | guidCreated (guid : Guid)
  | published (addr : Address)
  | resourceAccountCreated (addr : Address)
  | signerOfferRevoked (addr : Address)
  | transactionSent (addr : Address)
deriving DecidableEq

structure Store where
  accounts : AList fun _ : Address => Account
  originatingAddress : Option (AList fun _ : Address => Address)
  containers : AList fun _ : Address =>
    AList fun _ : Address => SignerCapability
  objects : AList fun _ : Address => Object
  log : List Event

namespace Store

def empty : Store :=
  { accounts := ∅
    originatingAddress := none
    containers := ∅
    objects := ∅
    log := [] }

variable (s : Store) (addr : Address)

def existsAt : Bool := (s.accounts.lookup addr).isSome

def borrowAccount : MoveResult Account :=
  borrowGlobal (s.accounts.lookup addr)

def setAccount (account : Account) : Store :=
  { s with accounts := s.accounts.insert addr account }

def accountView {alpha : Type} (part : Account -> alpha) (s : Store) (addr : Address) :
    Option alpha :=
  (s.accounts.lookup addr).map part

def borrowObject : MoveResult Object :=
  borrowGlobal (s.objects.lookup addr)

def setObject (object : Object) : Store :=
  { s with objects := s.objects.insert addr object }

def setOriginatingAddress (s : Store) (table : AList fun _ : Address => Address) : Store :=
  { s with originatingAddress := some table }

def record (s : Store) (event : Event) : Store :=
  { s with log := event :: s.log }

/-- `move_to` of an account. -/
def publishAccount (account : Account) : MoveResult Store := do
  ensure (s.accounts.lookup addr = none) .resourceAlreadyExists
  return (s.setAccount addr account).record (.published addr)

/-- `move_to` of an object. -/
def publishObject (object : Object) : MoveResult Store := do
  ensure (s.objects.lookup addr = none) .resourceAlreadyExists
  return (s.setObject addr object).record (.published addr)

/-- `guid::create`: the identifier and the next creation number. -/
def guidCreate (creationNum : U64) : MoveResult (Guid × U64 × Store) := do
  let next <- Move.add creationNum 1
  let guid := { creationNum := creationNum, addr := addr }
  return (guid, next, s.record (.guidCreated guid))

end Store

namespace EventHandle

def new (guid : Guid) : EventHandle :=
  { counter := 0, guid := guid }

/-- `event::emit_event`; what is written to the event store is not read. -/
def emit (self : EventHandle) : MoveResult EventHandle := do
  let next <- Move.add self.counter 1
  return { self with counter := next }

end EventHandle

/-!
# What the writes leave
-/

namespace Store

@[simp] theorem log_record (s : Store) (event : Event) :
    (s.record event).log = event :: s.log := rfl

variable (s : Store) (addr : Address) (account : Account)

@[simp] theorem log_setAccount : (s.setAccount addr account).log = s.log := rfl

@[simp] theorem lookup_setAccount_self :
    (s.setAccount addr account).accounts.lookup addr = some account :=
  AList.lookup_insert s.accounts

variable {addr : Address} {s s' : Store} {account : Account}

theorem lookup_setAccount_of_ne {other : Address} (h : other ≠ addr) (s : Store)
    (account : Account) :
    (s.setAccount addr account).accounts.lookup other = s.accounts.lookup other :=
  AList.lookup_insert_ne h

@[simp] theorem lookup_setObject_self (s : Store) (addr : Address) (object : Object) :
    (s.setObject addr object).objects.lookup addr = some object :=
  AList.lookup_insert s.objects

theorem lookup_setObject_of_ne {other : Address} (h : other ≠ addr) (s : Store) (object : Object) :
    (s.setObject addr object).objects.lookup other = s.objects.lookup other :=
  AList.lookup_insert_ne h

theorem accountView_setAccount {alpha : Type} (part : Account -> alpha)
    (s : Store) (addr : Address) (account : Account) :
    (s.setAccount addr account).accountView part =
      update (s.accountView part) addr (some (part account)) := by
  refine eq_update_iff.mpr ⟨?_, ?_⟩
  · rw [accountView, lookup_setAccount_self]
    rfl
  · intro other hother
    rw [accountView, lookup_setAccount_of_ne hother]
    rfl

theorem accountView_setAccount_of_kept {alpha : Type} {part : Account -> alpha} {account' : Account}
    (hfound : s.accounts.lookup addr = some account) (hkept : part account' = part account) :
    (s.setAccount addr account').accountView part = s.accountView part := by
  have hview : s.accountView part addr = some (part account') := by
    rw [accountView, hfound, hkept]
    rfl
  rw [accountView_setAccount, ← hview, update_eq_self]

theorem publishAccount_eq_ok (h : s.publishAccount addr account = .ok s') :
    s.accounts.lookup addr = none ∧ s' = (s.setAccount addr account).record (.published addr) := by
  rcases of_ensure h with ⟨hnone, h⟩
  cases h
  exact ⟨hnone, rfl⟩

theorem publishObject_eq_ok {object : Object} (h : s.publishObject addr object = .ok s') :
    s.objects.lookup addr = none ∧ s' = (s.setObject addr object).record (.published addr) := by
  rcases of_ensure h with ⟨hnone, h⟩
  cases h
  exact ⟨hnone, rfl⟩

theorem guidCreate_eq_ok {creationNum next : U64} {guid : Guid}
    (h : s.guidCreate addr creationNum = .ok (guid, next, s')) :
    guid = { creationNum := creationNum, addr := addr } ∧ next.toNat = creationNum.toNat + 1 ∧
      s' = s.record (.guidCreated guid) := by
  rcases of_bind h with ⟨_, hsum, h⟩
  cases h
  exact ⟨rfl, Move.add_eq_ok_iff.mp hsum, rfl⟩

end Store

end OpenLibra.Accounts
