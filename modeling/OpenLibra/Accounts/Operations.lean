import OpenLibra.Accounts.Effects

/-!
# Histories of accounts and objects

The public operations of the modules `account`, `resource_account` and `object`, called in any
order with any signers.
-/

namespace OpenLibra.Accounts

open Rust Move

structure World where
  store : Store
  creatorRefs : List CreatorRef
  deleteRefs : List (Option DeleteRef)
  transferRefs : List (Option TransferRef)
  linearTransferRefs : List (Option LinearTransferRef)

def World.empty : World :=
  { store := Store.empty
    creatorRefs := []
    deleteRefs := []
    transferRefs := []
    linearTransferRefs := [] }

/-- An object operation names its references by their places.  A transfer also
says how many iterations its walk can pay for. -/
inductive Operation where
  | initializeOriginatingAddress (account : Address)
  | createAccount (newAddress : Address)
  | createFrameworkReservedAccount (addr : Address)
  | sendTransaction (addr : Address)
  | rotateAuthenticationKey (addr : Address) (fromScheme : UInt8)
      (fromPublicKeyBytes : List UInt8) (toScheme : UInt8)
      (toPublicKeyBytes capRotateKey capUpdateTable : List UInt8)
  | rotateAuthenticationKeyWithRotationCapability
      (delegateAddress rotationCapOffererAddress : Address)
      (newScheme : UInt8) (newPublicKeyBytes capUpdateTable : List UInt8)
  | offerRotationCapability (addr : Address)
      (rotationCapabilitySigBytes : List UInt8) (accountScheme : UInt8)
      (accountPublicKeyBytes : List UInt8) (recipientAddress : Address)
  | revokeRotationCapability (addr toBeRevokedAddress : Address)
  | revokeAnyRotationCapability (addr : Address)
  | offerSignerCapability (sourceAddress : Address)
      (signerCapabilitySigBytes : List UInt8) (accountScheme : UInt8)
      (accountPublicKeyBytes : List UInt8) (recipientAddress : Address)
  | revokeSignerCapability (addr toBeRevokedAddress : Address)
  | revokeAnySignerCapability (addr : Address)
  | createAuthorizedSigner (account offererAddress : Address)
  | createResourceAccount (source : Address) (seed : List UInt8)
  | createGuid (addr : Address)
  | newEventHandle (addr : Address)
  | registerCoin (addr : Address)
  | createResourceAccountEntry (origin : Address) (seed optionalAuthKey : List UInt8)
  | createResourceAccountAndFund (origin : Address)
      (seed optionalAuthKey : List UInt8) (isRegistered : Bool)
      (transferred : MoveResult Unit)
  | createResourceAccountAndPublishPackage (origin : Address)
      (seed : List UInt8) (requested : MoveResult Unit)
  | retrieveResourceAccountCap (resourceAddr sourceAddr : Address)
  | createNamedObject (creator : Address) (seed : List UInt8)
  | createObjectFromAccount (creator : Address)
  | createObjectFromObject (creator : Address)
  | createObjectGuid (addr : Address)
  | newObjectEventHandle (addr : Address)
  | generateDeleteRef (creatorRef : Nat)
  | generateTransferRef (creatorRef : Nat)
  | generateLinearTransferRef (transferRef : Nat)
  | delete (deleteRef : Nat)
  | setUngatedTransfer (allowed : Bool) (transferRef : Nat)
  | transferWithRef (linearTransferRef : Nat) (destination : Address)
  | transfer (iterations : Nat) (ownerAddress objectId destination : Address)

namespace World

/-!
# Steps
-/

def noSuchReference : Abort := .vmError none

def reference {ref : Type} (refs : List ref) (place : Nat) : MoveResult ref :=
  match refs[place]? with
  | some found => .ok found
  | none => .err noSuchReference

def heldReference {ref : Type} (refs : List (Option ref)) (place : Nat) : MoveResult ref :=
  match refs[place]? with
  | some (some found) => .ok found
  | _ => .err noSuchReference

def withStore (w : World) (result : MoveResult Store) : MoveResult World := do
  let s <- result
  return { w with store := s }

def withStoreOf {alpha : Type} (w : World) (result : MoveResult (alpha × Store)) :
    MoveResult World := do
  let (_, s) <- result
  return { w with store := s }

def withCreatorRef (w : World) (result : MoveResult (CreatorRef × Store)) :
    MoveResult World := do
  let (ref, s) <- result
  return { w with
    store := s
    creatorRefs := w.creatorRefs ++ [ref] }

variable (env : Environment) (w : World)

def step : Operation -> MoveResult World
  | .initializeOriginatingAddress account =>
    w.withStore (w.store.initializeOriginatingAddress account)
  | .createAccount newAddress => w.withStore (w.store.createAccount newAddress)
  | .createFrameworkReservedAccount addr =>
    w.withStoreOf (w.store.createFrameworkReservedAccount addr)
  | .sendTransaction addr => w.withStore (w.store.incrementSequenceNumber addr)
  | .rotateAuthenticationKey addr fromScheme fromPublicKeyBytes
      toScheme toPublicKeyBytes capRotateKey capUpdateTable =>
      w.withStore (w.store.rotateAuthenticationKey env addr fromScheme fromPublicKeyBytes toScheme
        toPublicKeyBytes capRotateKey capUpdateTable)
  | .rotateAuthenticationKeyWithRotationCapability delegateAddress
      rotationCapOffererAddress newScheme newPublicKeyBytes capUpdateTable =>
      w.withStore (w.store.rotateAuthenticationKeyWithRotationCapability env delegateAddress
        rotationCapOffererAddress newScheme newPublicKeyBytes capUpdateTable)
  | .offerRotationCapability addr rotationCapabilitySigBytes
      accountScheme accountPublicKeyBytes recipientAddress =>
      w.withStore (w.store.offerRotationCapability env addr rotationCapabilitySigBytes
        accountScheme accountPublicKeyBytes recipientAddress)
  | .revokeRotationCapability addr toBeRevokedAddress =>
    w.withStore (w.store.revokeRotationCapability addr toBeRevokedAddress)
  | .revokeAnyRotationCapability addr => w.withStore (w.store.revokeAnyRotationCapability addr)
  | .offerSignerCapability sourceAddress signerCapabilitySigBytes
      accountScheme accountPublicKeyBytes recipientAddress =>
      w.withStore (w.store.offerSignerCapability env sourceAddress signerCapabilitySigBytes
        accountScheme accountPublicKeyBytes recipientAddress)
  | .revokeSignerCapability addr toBeRevokedAddress =>
    w.withStore (w.store.revokeSignerCapability addr toBeRevokedAddress)
  | .revokeAnySignerCapability addr => w.withStore (w.store.revokeAnySignerCapability addr)
  | .createAuthorizedSigner account offererAddress => do
    let _ <- w.store.createAuthorizedSigner account offererAddress
    return w
  | .createResourceAccount source seed =>
    w.withStoreOf (w.store.createResourceAccount env source seed)
  | .createGuid addr => w.withStoreOf (w.store.createGuid addr)
  | .newEventHandle addr => w.withStoreOf (w.store.newEventHandle addr)
  | .registerCoin addr => w.withStore (w.store.registerCoin addr)
  | .createResourceAccountEntry origin seed optionalAuthKey =>
    w.withStore (w.store.createResourceAccountEntry env origin seed optionalAuthKey)
  | .createResourceAccountAndFund origin seed optionalAuthKey
      isRegistered transferred =>
      w.withStore (w.store.createResourceAccountAndFund env origin seed
        optionalAuthKey isRegistered transferred)
  | .createResourceAccountAndPublishPackage origin seed requested =>
    w.withStore (w.store.createResourceAccountAndPublishPackage env origin seed requested)
  | .retrieveResourceAccountCap resourceAddr sourceAddr =>
    w.withStoreOf (w.store.retrieveResourceAccountCap resourceAddr sourceAddr)
  | .createNamedObject creator seed => w.withCreatorRef (w.store.createNamedObject env creator seed)
  | .createObjectFromAccount creator =>
    w.withCreatorRef (w.store.createObjectFromAccount env creator)
  | .createObjectFromObject creator => w.withCreatorRef (w.store.createObjectFromObject env creator)
  | .createObjectGuid addr => w.withStoreOf (w.store.createObjectGuid addr)
  | .newObjectEventHandle addr => w.withStoreOf (w.store.newObjectEventHandle addr)
  | .generateDeleteRef creatorRef => do
    let ref <- reference w.creatorRefs creatorRef
    let deleteRef <- ref.generateDeleteRef
    return { w with deleteRefs := w.deleteRefs ++ [some deleteRef] }
  | .generateTransferRef creatorRef => do
    let ref <- reference w.creatorRefs creatorRef
    return { w with
      transferRefs := w.transferRefs ++ [some ref.generateTransferRef] }
  | .generateLinearTransferRef transferRef => do
    let ref <- heldReference w.transferRefs transferRef
    let linearTransferRef <- w.store.generateLinearTransferRef ref
    return { w with
      transferRefs := w.transferRefs.set transferRef none
      linearTransferRefs := w.linearTransferRefs ++ [some linearTransferRef] }
  | .delete deleteRef => do
    let ref <- heldReference w.deleteRefs deleteRef
    let s <- w.store.delete ref
    return { w with
      store := s
      deleteRefs := w.deleteRefs.set deleteRef none }
  | .setUngatedTransfer allowed transferRef => do
    let ref <- heldReference w.transferRefs transferRef
    w.withStore (Store.setUngatedTransfer allowed w.store ref)
  | .transferWithRef linearTransferRef destination => do
    let ref <- heldReference w.linearTransferRefs linearTransferRef
    let s <- w.store.transferWithRef ref destination
    return { w with
      store := s
      linearTransferRefs := w.linearTransferRefs.set linearTransferRef none }
  | .transfer iterations ownerAddress objectId destination =>
    w.withStore (w.store.transfer iterations ownerAddress objectId destination)

def attempt (operation : Operation) : World :=
  match w.step env operation with
  | .ok w' => w'
  | .err _ => w
  | .panic => w

def run (operations : List Operation) : World :=
  operations.foldl (attempt env) w

end World

/-!
# What operations may do
-/

namespace Operation

/-- The account that `account::create_resource_account` is called for. -/
def createdResource (env : Environment) : Operation -> Option Address
  | createResourceAccount source seed => some (Store.createResourceAddress env source seed)
  | createResourceAccountEntry origin seed _ => some (Store.createResourceAddress env origin seed)
  | createResourceAccountAndFund origin seed _ _ _ =>
    some (Store.createResourceAddress env origin seed)
  | createResourceAccountAndPublishPackage origin seed _ =>
    some (Store.createResourceAddress env origin seed)
  | _ => none

/-- The account whose key `rotate_authentication_key_internal` changes. -/
def rotatedInternally (env : Environment) : Operation -> Option Address
  | retrieveResourceAccountCap resourceAddr _ => some resourceAddr
  | operation => operation.createdResource env

def revokesOffer : Operation -> Bool
  | revokeSignerCapability .. => true
  | revokeAnySignerCapability _ => true
  | _ => false

/-- The operation may make `owner` the owner of the object. -/
def GivesObject (env : Environment) (w : World) (operation : Operation)
    (objectId owner : Address) : Prop :=
  match operation with
  | createNamedObject creator seed => createObjectId env creator seed = objectId ∧ creator = owner
  | createObjectFromAccount creator =>
    (exists guid, guid.addr = creator ∧ objectIdFromGuid env guid = objectId) ∧ creator = owner
  | createObjectFromObject creator =>
    (exists guid, guid.addr = creator ∧ objectIdFromGuid env guid = objectId) ∧ creator = owner
  | transferWithRef place destination =>
    (exists ref, w.linearTransferRefs[place]? = some (some ref) ∧ ref.self = objectId) ∧
      destination = owner
  | transfer _ _ transferred destination => transferred = objectId ∧ destination = owner
  | _ => False

def updatesTable : Operation -> Bool
  | initializeOriginatingAddress _ => true
  | rotateAuthenticationKey .. => true
  | rotateAuthenticationKeyWithRotationCapability .. => true
  | _ => false

def sendsTransaction : Operation -> Bool
  | sendTransaction _ => true
  | _ => false

def rights (env : Environment) (w : World) (operation : Operation) : Rights :=
  { rotatesInternally := fun addr =>
      operation.rotatedInternally env = some addr
    createsResource := fun addr => operation.createdResource env = some addr
    revokesOffer := operation.revokesOffer = true
    givesObject := operation.GivesObject env w
    updatesTable := operation.updatesTable = true
    sendsTransaction := operation.sendsTransaction = true }

end Operation

namespace World

variable {env : Environment} {w w' : World}

theorem heldReference_eq_ok_iff {ref : Type} {refs} {place : Nat} {found : ref} :
    heldReference refs place = .ok found <-> refs[place]? = some (some found) := by
  unfold heldReference
  rcases refs[place]? with _ | _ | held <;> simp

variable {result : MoveResult Store}

theorem withStore_eq_ok_iff : w.withStore result = .ok w' <->
    exists s, result = .ok s ∧ w' = { w with store := s } := by
  unfold withStore
  rw [bind_eq_ok_iff]
  constructor
  · rintro ⟨s, hs, h⟩
    cases h
    exact ⟨s, hs, rfl⟩
  · rintro ⟨s, hs, rfl⟩
    exact ⟨s, hs, rfl⟩

variable {alpha : Type}

theorem withStoreOf_eq_ok {result : MoveResult (alpha × Store)}
    (h : w.withStoreOf result = .ok w') : exists value s, result = .ok (value, s) ∧
      w' = { w with store := s } := by
  rcases of_bind h with ⟨⟨value, s⟩, hs, h⟩
  cases h
  exact ⟨value, s, hs, rfl⟩

theorem withCreatorRef_eq_ok {result} (h : w.withCreatorRef result = .ok w') :
    exists ref s, result = .ok (ref, s) ∧
      w' = { w with
        store := s
        creatorRefs := w.creatorRefs ++ [ref] } := by
  rcases of_bind h with ⟨⟨ref, s⟩, hs, h⟩
  cases h
  exact ⟨ref, s, hs, rfl⟩

variable {rights : Rights}

theorem withStore_effect (heff : forall s, result = .ok s -> Effect rights w.store s)
    (h : w.withStore result = .ok w') : Effect rights w.store w'.store := by
  rcases withStore_eq_ok_iff.mp h with ⟨s, hs, rfl⟩
  exact heff s hs

theorem withStoreOf_effect {result : MoveResult (alpha × Store)}
    (heff : forall value s, result = .ok (value, s) -> Effect rights w.store s)
    (h : w.withStoreOf result = .ok w') : Effect rights w.store w'.store := by
  rcases withStoreOf_eq_ok h with ⟨value, s, hs, rfl⟩
  exact heff value s hs

theorem withCreatorRef_effect {result}
    (heff : forall ref s, result = .ok (ref, s) -> Effect rights w.store s)
    (h : w.withCreatorRef result = .ok w') : Effect rights w.store w'.store := by
  rcases withCreatorRef_eq_ok h with ⟨ref, s, hs, rfl⟩
  exact heff ref s hs

theorem step_effect {operation : Operation} (h : w.step env operation = .ok w') :
    Effect (operation.rights env w) w.store w'.store := by
  cases operation with
  | initializeOriginatingAddress =>
    exact withStore_effect (fun _ => initializeOriginatingAddress_effect rfl) h
  | createAccount => exact withStore_effect (fun _ => createAccount_effect) h
  | createFrameworkReservedAccount =>
    exact withStoreOf_effect (fun _ _ => createFrameworkReservedAccount_effect) h
  | sendTransaction => exact withStore_effect (fun _ => incrementSequenceNumber_effect rfl) h
  | rotateAuthenticationKey =>
    exact withStore_effect (fun _ => rotateAuthenticationKey_effect rfl) h
  | rotateAuthenticationKeyWithRotationCapability =>
    exact withStore_effect (fun _ => rotateAuthenticationKeyWithRotationCapability_effect rfl) h
  | offerRotationCapability => exact withStore_effect (fun _ => offerRotationCapability_effect) h
  | revokeRotationCapability => exact withStore_effect (fun _ => revokeRotationCapability_effect) h
  | revokeAnyRotationCapability =>
    exact withStore_effect (fun _ => revokeAnyRotationCapability_effect) h
  | offerSignerCapability => exact withStore_effect (fun _ => offerSignerCapability_effect) h
  | revokeSignerCapability => exact withStore_effect (fun _ => revokeSignerCapability_effect rfl) h
  | revokeAnySignerCapability =>
    exact withStore_effect (fun _ => revokeAnySignerCapability_effect rfl) h
  | createAuthorizedSigner =>
    rcases of_bind h with ⟨_, _, h⟩
    cases h
    exact .refl _
  | createResourceAccount =>
    exact withStoreOf_effect (fun _ _ => createResourceAccount_effect rfl rfl) h
  | createGuid => exact withStoreOf_effect (fun _ _ => createGuid_effect) h
  | newEventHandle => exact withStoreOf_effect (fun _ _ => newEventHandle_effect) h
  | registerCoin => exact withStore_effect (fun _ => registerCoin_effect) h
  | createResourceAccountEntry =>
    exact withStore_effect (fun _ => createResourceAccountEntry_effect rfl rfl) h
  | createResourceAccountAndFund =>
    exact withStore_effect (fun _ => createResourceAccountAndFund_effect rfl rfl) h
  | createResourceAccountAndPublishPackage =>
    exact withStore_effect (fun _ => createResourceAccountAndPublishPackage_effect rfl rfl) h
  | retrieveResourceAccountCap =>
    exact withStoreOf_effect (fun _ _ => retrieveResourceAccountCap_effect rfl) h
  | createNamedObject =>
    exact withCreatorRef_effect (fun _ _ => createNamedObject_effect ⟨rfl, rfl⟩) h
  | createObjectFromAccount =>
    exact withCreatorRef_effect (fun _ _ => createObjectFromAccount_effect fun guid haddr =>
      ⟨⟨guid, haddr, rfl⟩, rfl⟩) h
  | createObjectFromObject =>
    exact withCreatorRef_effect (fun _ _ => createObjectFromObject_effect fun guid haddr =>
      ⟨⟨guid, haddr, rfl⟩, rfl⟩) h
  | createObjectGuid => exact withStoreOf_effect (fun _ _ => createObjectGuid_effect) h
  | newObjectEventHandle => exact withStoreOf_effect (fun _ _ => newObjectEventHandle_effect) h
  | generateDeleteRef =>
    rcases of_bind h with ⟨ref, _, h⟩
    rcases of_bind h with ⟨_, _, h⟩
    cases h
    exact .refl _
  | generateTransferRef =>
    rcases of_bind h with ⟨ref, _, h⟩
    cases h
    exact .refl _
  | generateLinearTransferRef =>
    rcases of_bind h with ⟨ref, _, h⟩
    rcases of_bind h with ⟨_, _, h⟩
    cases h
    exact .refl _
  | delete =>
    rcases of_bind h with ⟨ref, _, h⟩
    rcases of_bind h with ⟨s, hs, h⟩
    cases h
    exact delete_effect hs
  | setUngatedTransfer =>
    rcases of_bind h with ⟨ref, _, h⟩
    exact withStore_effect (fun _ => setUngatedTransfer_effect) h
  | transferWithRef =>
    rcases of_bind h with ⟨ref, href, h⟩
    rcases of_bind h with ⟨_, hs, h⟩
    cases h
    exact transferWithRef_effect ⟨⟨ref, heldReference_eq_ok_iff.mp href, rfl⟩, rfl⟩ hs
  | transfer => exact withStore_effect (fun _ => transfer_effect ⟨rfl, rfl⟩) h

theorem attempt_cases (env : Environment) (w : World) (operation : Operation) :
    w.step env operation = .ok (w.attempt env operation) ∨ w.attempt env operation = w := by
  unfold attempt
  cases h : w.step env operation with
  | ok => exact .inl rfl
  | err | panic => exact .inr rfl

theorem run_invariant {inv : World -> Prop}
    (hstep : forall w operation w', inv w -> w.step env operation = .ok w' -> inv w') (hw : inv w)
    (operations : List Operation) : inv (w.run env operations) := by
  induction operations generalizing w with
  | nil => exact hw
  | cons operation rest ih =>
    apply ih
    rcases attempt_cases env w operation with h | h
    · exact hstep w operation _ hw h
    · rw [h]
      exact hw

theorem run_effect_invariant {inv : Store -> Prop}
    (hkept : forall rights s s', Effect rights s s' -> inv s -> inv s')
    (hw : inv w.store) (operations : List Operation) : inv (w.run env operations).store :=
  @run_invariant env w (fun w => inv w.store)
    (fun _ _ _ hinv h => hkept _ _ _ (step_effect h) hinv) hw operations

end World

end OpenLibra.Accounts
