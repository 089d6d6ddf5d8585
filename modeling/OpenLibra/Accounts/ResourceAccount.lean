import OpenLibra.Accounts.Account

/-!
# The module of resource accounts

A container at the address of the origin keeps the capabilities of the resource accounts created
until they are retrieved.
-/

namespace OpenLibra.Accounts

open Rust Move

def eContainerNotPublished : Nat := 1

def eUnauthorizedNotOwner : Nat := 2

/-- Code of `simple_map`. -/
def eKeyAlreadyExists : Nat := 1

namespace Store

def resourceAuthKey (s : Store) (originAddr : Address) (optionalAuthKey : List UInt8) :
    MoveResult (List UInt8) :=
  if optionalAuthKey = [] then do
    let account <- s.borrowAccount originAddr
    return account.authenticationKey
  else .ok optionalAuthKey

def rotateAccountAuthenticationKeyAndStoreCapability (s : Store) (originAddr resourceAddr : Address)
    (resourceSignerCap : SignerCapability) (optionalAuthKey : List UInt8) : MoveResult Store := do
  -- A container is published first where there is none.
  let store := (s.containers.lookup originAddr).getD ∅
  ensure (store.lookup resourceAddr = none) (invalidArgument eKeyAlreadyExists)
  let s := { s with
    containers := s.containers.insert originAddr (store.insert resourceAddr resourceSignerCap) }
  let authKey <- s.resourceAuthKey originAddr optionalAuthKey
  s.rotateAuthenticationKeyInternal resourceAddr authKey

variable (s : Store) (env : Environment) (origin : Address)

/-- `resource_account::create_resource_account`. -/
def createResourceAccountEntry (seed optionalAuthKey : List UInt8) : MoveResult Store := do
  let (resourceSignerCap, s) <- s.createResourceAccount env origin seed
  s.rotateAccountAuthenticationKeyAndStoreCapability origin
    (createResourceAddress env origin seed) resourceSignerCap optionalAuthKey

/-- What `coin::register` does to an account that has no store of the coin. -/
def registerCoinStore (s : Store) (account : Address) : MoveResult Store := do
  let s <- s.registerCoin account
  let (_, s) <- s.newEventHandle account
  let (_, s) <- s.newEventHandle account
  return s

def createResourceAccountAndFund (seed optionalAuthKey : List UInt8) (isRegistered : Bool)
    (transferred : MoveResult Unit) : MoveResult Store := do
  let (resourceSignerCap, s) <- s.createResourceAccount env origin seed
  let resourceAddr := createResourceAddress env origin seed
  let s <- if isRegistered then .ok s
    else s.registerCoinStore resourceAddr
  transferred
  s.rotateAccountAuthenticationKeyAndStoreCapability origin resourceAddr
    resourceSignerCap optionalAuthKey

def createResourceAccountAndPublishPackage (seed : List UInt8) (requested : MoveResult Unit) :
    MoveResult Store := do
  let (resourceSignerCap, s) <- s.createResourceAccount env origin seed
  requested
  s.rotateAccountAuthenticationKeyAndStoreCapability origin
    (createResourceAddress env origin seed) resourceSignerCap zeroAuthKey

def retrieveResourceAccountCap (s : Store) (resourceAddr sourceAddr : Address) :
    MoveResult (SignerCapability × Store) := do
  ensure ((s.containers.lookup sourceAddr).isSome = true) (notFound eContainerNotPublished)
  let store <- borrowGlobal (s.containers.lookup sourceAddr)
  match store.lookup resourceAddr with
  | none => .err (invalidArgument eUnauthorizedNotOwner)
  | some resourceSignerCap => do
    let store := store.erase resourceAddr
    -- An empty container is removed.
    let s := { s with
      containers :=
        if store.entries = [] then s.containers.erase sourceAddr
        else s.containers.insert sourceAddr store }
    let s <- s.rotateAuthenticationKeyInternal resourceAddr zeroAuthKey
    return (resourceSignerCap, s)

end Store

end OpenLibra.Accounts
