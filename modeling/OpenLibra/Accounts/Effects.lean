import OpenLibra.Accounts.Object
import OpenLibra.Accounts.ResourceAccount

/-!
# What calls do to the storage

Every call that succeeds is a sequence of a few kinds of writes, some of which only calls with a
right to them make.
-/

namespace OpenLibra.Accounts

open Rust Move

structure Rights where
  rotatesInternally : Address -> Prop
  createsResource : Address -> Prop
  revokesOffer : Prop
  givesObject : Address -> Address -> Prop
  updatesTable : Prop
  sendsTransaction : Prop

def Rights.none : Rights :=
  { rotatesInternally := fun _ => False
    createsResource := fun _ => False
    revokesOffer := False
    givesObject := fun _ _ => False
    updatesTable := False
    sendsTransaction := False }

def freshAccount (addr : Address) : Account :=
  { authenticationKey := addr.toBytes
    sequenceNumber := 0
    guidCreationNum := 2
    coinRegisterEvents := EventHandle.new { creationNum := 0, addr := addr }
    keyRotationEvents := EventHandle.new { creationNum := 1, addr := addr }
    rotationCapabilityOffer := none
    signerCapabilityOffer := none }

def freshObject (addr owner : Address) : Object :=
  { guidCreationNum := 1
    owner := owner
    allowUngatedTransfer := true
    transferEvents := EventHandle.new { creationNum := 0, addr := addr } }

namespace Store

def withFreshAccount (s : Store) (addr : Address) : Store :=
  (((s.record (.guidCreated { creationNum := 0, addr := addr })).record
    (.guidCreated { creationNum := 1, addr := addr })).setAccount addr
      (freshAccount addr)).record (.published addr)

def withFreshObject (s : Store) (addr owner : Address) : Store :=
  ((s.record (.guidCreated { creationNum := 0, addr := addr })).setObject
    addr (freshObject addr owner)).record (.published addr)

end Store

inductive Effect (rights : Rights) : Store -> Store -> Prop where
  | refl (s : Store) : Effect rights s s
  | trans {s middle s'} (first : Effect rights s middle)
      (second : Effect rights middle s') : Effect rights s s'
  | accountPublished {s addr} (absent : s.accounts.lookup addr = none) :
      Effect rights s (s.withFreshAccount addr)
  | objectPublished {s addr owner} (absent : s.objects.lookup addr = none)
      (right : rights.givesObject addr owner) :
      Effect rights s (s.withFreshObject addr owner)
  | accountGuid {s addr account next} (found : s.accounts.lookup addr = some account)
      (hnext : next.toNat = account.guidCreationNum.toNat + 1) :
      Effect rights s ((s.record (.guidCreated
          { creationNum := account.guidCreationNum, addr := addr })).setAccount
            addr { account with guidCreationNum := next })
  | objectGuid {s addr object next} (found : s.objects.lookup addr = some object)
      (hnext : next.toNat = object.guidCreationNum.toNat + 1) :
      Effect rights s ((s.record (.guidCreated
          { creationNum := object.guidCreationNum, addr := addr })).setObject
            addr { object with guidCreationNum := next })
  | objectWritten {s addr object object'} (found : s.objects.lookup addr = some object)
      (kept : object'.guidCreationNum = object.guidCreationNum)
      (owner : object'.owner = object.owner ∨ rights.givesObject addr object'.owner) :
      Effect rights s (s.setObject addr object')
  | objectDeleted {s} (addr : Address) :
      Effect rights s { s with objects := s.objects.erase addr }
  | accountWritten {s addr account account'} (found : s.accounts.lookup addr = some account)
      (key : account'.authenticationKey = account.authenticationKey)
      (sequence : account'.sequenceNumber = account.sequenceNumber)
      (guid : account'.guidCreationNum = account.guidCreationNum)
      (offer : account'.signerCapabilityOffer = account.signerCapabilityOffer) :
      Effect rights s (s.setAccount addr account')
  | signerOffered {s addr account}
      (found : s.accounts.lookup addr = some account) (recipient : Address) :
      Effect rights s (s.setAccount addr
        { account with signerCapabilityOffer := some recipient })
  | signerOfferRevoked {s addr account} (found : s.accounts.lookup addr = some account)
      (right : rights.revokesOffer) :
      Effect rights s ((s.setAccount addr
        { account with signerCapabilityOffer := none }).record (.signerOfferRevoked addr))
  | resourceAccountCreated {s addr account} (found : s.accounts.lookup addr = some account)
      (unclaimed : account.signerCapabilityOffer = none) (unused : account.sequenceNumber = 0)
      (right : rights.createsResource addr) :
      Effect rights s ((s.setAccount addr
        { account with signerCapabilityOffer := some addr }).record (.resourceAccountCreated addr))
  | containersWritten {s} (containers : AList fun _ : Address =>
        AList fun _ : Address => SignerCapability) :
      Effect rights s { s with containers := containers }
  | transactionSent {s addr account next} (right : rights.sendsTransaction)
      (found : s.accounts.lookup addr = some account)
      (hnext : next.toNat = account.sequenceNumber.toNat + 1) :
      Effect rights s ((s.setAccount addr
        { account with sequenceNumber := next }).record (.transactionSent addr))
  | keyRotated {s addr account} (right : rights.rotatesInternally addr)
      (found : s.accounts.lookup addr = some account) (key : List UInt8) :
      Effect rights s (s.setAccount addr { account with authenticationKey := key })
  | tableInitialized {s} (right : rights.updatesTable) (absent : s.originatingAddress = none) :
      Effect rights s (s.setOriginatingAddress ∅)
  | tableUpdated {s addr curr new account table} (right : rights.updatesTable)
      (found : s.accounts.lookup addr = some account)
      (current : account.authenticationKey = curr.toBytes)
      (present : s.originatingAddress = some table)
      (free : (table.erase curr).lookup new = none) (events : EventHandle) :
      Effect rights s ((s.setAccount addr
          { account with
            keyRotationEvents := events
            authenticationKey := new.toBytes }).setOriginatingAddress
              ((table.erase curr).insert new addr))

/-!
# The account module
-/

variable {rights : Rights} {s s' : Store} {env : Environment} {addr source : Address}

open Store

theorem createAccountUnchecked_eq_ok (h : s.createAccountUnchecked addr = .ok s') :
    s.accounts.lookup addr = none ∧ s' = s.withFreshAccount addr := by
  rcases of_ensure h with ⟨_, h⟩
  exact publishAccount_eq_ok h

theorem createAccountUnchecked_effect (h : s.createAccountUnchecked addr = .ok s') :
    Effect rights s s' := by
  rcases createAccountUnchecked_eq_ok h with ⟨habs, rfl⟩
  exact .accountPublished habs

theorem createAccount_effect (h : s.createAccount addr = .ok s') : Effect rights s s' := by
  rcases of_ensure h with ⟨_, h⟩
  rcases of_ensure h with ⟨_, h⟩
  exact createAccountUnchecked_effect h

variable {cap : SignerCapability} {key capUpdateTable seed : List UInt8} {scheme : UInt8}
  {recipient revoked destination : Address} {handle : EventHandle} {ref : CreatorRef}

theorem createFrameworkReservedAccount_effect
    (h : s.createFrameworkReservedAccount addr = .ok (cap, s')) : Effect rights s s' := by
  rcases of_ensure h with ⟨_, h⟩
  rcases of_bind h with ⟨_, hcre, h⟩
  cases h
  exact createAccountUnchecked_effect hcre

theorem initializeOriginatingAddress_effect (hright : rights.updatesTable)
    (h : s.initializeOriginatingAddress addr = .ok s') : Effect rights s s' := by
  rcases of_ensure h with ⟨_, h⟩
  rcases of_ensure h with ⟨habs, h⟩
  cases h
  exact .tableInitialized hright habs

theorem incrementSequenceNumber_effect (hright : rights.sendsTransaction)
    (h : s.incrementSequenceNumber addr = .ok s') : Effect rights s s' := by
  rcases of_bind h with ⟨_, hfound, h⟩
  rcases of_ensure h with ⟨_, h⟩
  rcases of_bind h with ⟨_, hnext, h⟩
  cases h
  exact .transactionSent hright (borrowGlobal_eq_ok_iff.mp hfound) (Move.add_eq_ok_iff.mp hnext)

theorem rotateAuthenticationKeyInternal_eq_ok
    (h : s.rotateAuthenticationKeyInternal addr key = .ok s') :
    exists account, s.accounts.lookup addr = some account ∧
      s' = s.setAccount addr { account with authenticationKey := key } := by
  rcases of_ensure h with ⟨_, h⟩
  rcases of_ensure h with ⟨_, h⟩
  rcases of_bind h with ⟨account, hfound, h⟩
  cases h
  exact ⟨account, borrowGlobal_eq_ok_iff.mp hfound, rfl⟩

theorem rotateAuthenticationKeyInternal_effect (hright : rights.rotatesInternally addr)
    (h : s.rotateAuthenticationKeyInternal addr key = .ok s') : Effect rights s s' := by
  rcases rotateAuthenticationKeyInternal_eq_ok h with ⟨_, hfound, rfl⟩
  exact .keyRotated hright hfound key

theorem updateAuthKeyAndOriginatingAddressTable_effect {account : Account}
    (hright : rights.updatesTable) (hfound : s.accounts.lookup addr = some account)
    (h : s.updateAuthKeyAndOriginatingAddressTable addr account key = .ok s') :
    Effect rights s s' := by
  rcases of_bind h with ⟨_, htable, h⟩
  rcases of_bind h with ⟨_, hcurr, h⟩
  rcases of_ensure h with ⟨_, h⟩
  rcases of_bind h with ⟨_, hnew, h⟩
  rcases of_ensure h with ⟨hfree, h⟩
  rcases of_bind h with ⟨events, _, h⟩
  cases h
  rw [Address.fromBytes_eq_ok_iff.mp hnew]
  exact .tableUpdated hright hfound (Address.fromBytes_eq_ok_iff.mp hcurr)
    (borrowGlobal_eq_ok_iff.mp htable) hfree events

theorem rotateAuthenticationKey_effect {fromScheme toScheme : UInt8}
    {fromKey toKey capRotateKey} (hright : rights.updatesTable)
    (h : s.rotateAuthenticationKey env addr fromScheme fromKey toScheme toKey
      capRotateKey capUpdateTable = .ok s') : Effect rights s s' := by
  rcases of_ensure h with ⟨_, h⟩
  rcases of_bind h with ⟨_, hfound, h⟩
  rcases of_bind h with ⟨_, _, h⟩
  rcases of_bind h with ⟨_, _, h⟩
  rcases of_ensure h with ⟨_, h⟩
  rcases of_bind h with ⟨_, _, h⟩
  rcases of_bind h with ⟨_, _, h⟩
  rcases of_bind h with ⟨_, _, h⟩
  exact updateAuthKeyAndOriginatingAddressTable_effect hright (borrowGlobal_eq_ok_iff.mp hfound) h

theorem rotateAuthenticationKeyWithRotationCapability_effect
    {delegate : Address} (hright : rights.updatesTable)
    (h : s.rotateAuthenticationKeyWithRotationCapability env delegate addr
      scheme key capUpdateTable = .ok s') : Effect rights s s' := by
  rcases of_ensure h with ⟨_, h⟩
  rcases of_bind h with ⟨_, hfound, h⟩
  rcases of_ensure h with ⟨_, h⟩
  rcases of_bind h with ⟨_, _, h⟩
  rcases of_bind h with ⟨_, _, h⟩
  rcases of_bind h with ⟨_, _, h⟩
  exact updateAuthKeyAndOriginatingAddressTable_effect hright (borrowGlobal_eq_ok_iff.mp hfound) h

theorem offerRotationCapability_effect {sig}
    (h : s.offerRotationCapability env addr sig scheme key recipient = .ok s') :
    Effect rights s s' := by
  rcases of_ensure h with ⟨_, h⟩
  rcases of_bind h with ⟨_, hfound, h⟩
  rcases of_check h with ⟨_, h⟩
  cases h
  exact .accountWritten (borrowGlobal_eq_ok_iff.mp hfound) rfl rfl rfl rfl

theorem revokeAnyRotationCapability_effect (h : s.revokeAnyRotationCapability addr = .ok s') :
    Effect rights s s' := by
  rcases of_bind h with ⟨_, hfound, h⟩
  rcases of_ensure h with ⟨_, h⟩
  cases h
  exact .accountWritten (borrowGlobal_eq_ok_iff.mp hfound) rfl rfl rfl rfl

theorem revokeRotationCapability_effect (h : s.revokeRotationCapability addr revoked = .ok s') :
    Effect rights s s' := by
  rcases of_ensure h with ⟨_, h⟩
  rcases of_bind h with ⟨_, _, h⟩
  rcases of_ensure h with ⟨_, h⟩
  exact revokeAnyRotationCapability_effect h

theorem offerSignerCapability_effect {sig}
    (h : s.offerSignerCapability env addr sig scheme key recipient = .ok s') :
    Effect rights s s' := by
  rcases of_ensure h with ⟨_, h⟩
  rcases of_bind h with ⟨_, hfound, h⟩
  rcases of_check h with ⟨_, h⟩
  cases h
  exact .signerOffered (borrowGlobal_eq_ok_iff.mp hfound) recipient

theorem revokeAnySignerCapability_effect (hright : rights.revokesOffer)
      (h : s.revokeAnySignerCapability addr = .ok s') :
    Effect rights s s' := by
  rcases of_bind h with ⟨_, hfound, h⟩
  rcases of_ensure h with ⟨_, h⟩
  cases h
  exact .signerOfferRevoked (borrowGlobal_eq_ok_iff.mp hfound) hright

theorem revokeSignerCapability_effect (hright : rights.revokesOffer)
      (h : s.revokeSignerCapability addr revoked = .ok s') :
    Effect rights s s' := by
  rcases of_ensure h with ⟨_, h⟩
  rcases of_bind h with ⟨_, _, h⟩
  rcases of_ensure h with ⟨_, h⟩
  exact revokeAnySignerCapability_effect hright h

theorem createGuid_effect {guid : Guid} (h : s.createGuid addr = .ok (guid, s')) :
    Effect rights s s' := by
  rcases of_bind h with ⟨_, hfound, h⟩
  rcases of_bind h with ⟨⟨_, _, _⟩, hcreate, h⟩
  rcases guidCreate_eq_ok hcreate with ⟨rfl, hnext, rfl⟩
  cases h
  exact .accountGuid (borrowGlobal_eq_ok_iff.mp hfound) hnext

theorem createGuid_addr {guid : Guid} (h : s.createGuid addr = .ok (guid, s')) :
    guid.addr = addr := by
  rcases of_bind h with ⟨_, _, h⟩
  rcases of_bind h with ⟨⟨_, _, _⟩, hcreate, h⟩
  rcases guidCreate_eq_ok hcreate with ⟨rfl, _, rfl⟩
  cases h
  rfl

theorem newEventHandle_effect (h : s.newEventHandle addr = .ok (handle, s')) :
    Effect rights s s' := by
  rcases of_bind h with ⟨⟨_, _⟩, hcre, h⟩
  cases h
  exact createGuid_effect hcre

theorem registerCoin_effect (h : s.registerCoin addr = .ok s') : Effect rights s s' := by
  rcases of_bind h with ⟨_, hfound, h⟩
  rcases of_bind h with ⟨_, _, h⟩
  cases h
  exact .accountWritten (borrowGlobal_eq_ok_iff.mp hfound) rfl rfl rfl rfl

/-!
# Resource accounts
-/

theorem claimResourceAddress_eq_ok (h : s.claimResourceAddress addr = .ok s') :
    exists account, s'.accounts.lookup addr = some account ∧
      account.signerCapabilityOffer = none ∧ account.sequenceNumber = 0 ∧
      s'.originatingAddress = s.originatingAddress ∧ forall rights, Effect rights s s' := by
  unfold claimResourceAddress at h
  split at h
  · rcases of_bind h with ⟨account, hfound, h⟩
    rcases of_ensure h with ⟨hoffer, h⟩
    rcases of_ensure h with ⟨hunused, h⟩
    cases h
    exact ⟨account, borrowGlobal_eq_ok_iff.mp hfound, hoffer, hunused, rfl, fun _ => .refl s⟩
  · rcases createAccountUnchecked_eq_ok h with ⟨habs, rfl⟩
    exact ⟨freshAccount addr, lookup_setAccount_self _ addr _, rfl, rfl, rfl,
      fun _ => .accountPublished habs⟩

theorem createResourceAccount_eq_ok
    (h : s.createResourceAccount env source seed = .ok (cap, s')) :
    exists claimed account, s.claimResourceAddress (createResourceAddress env source seed) =
        .ok claimed ∧
      claimed.accounts.lookup (createResourceAddress env source seed) = some account ∧
      s' = ((claimed.setAccount (createResourceAddress env source seed)
          { account with authenticationKey := zeroAuthKey }).setAccount
            (createResourceAddress env source seed)
          { account with
            authenticationKey := zeroAuthKey
            signerCapabilityOffer := some (createResourceAddress env source seed) }).record
        (.resourceAccountCreated (createResourceAddress env source seed)) := by
  rcases of_bind h with ⟨claimed, hclaim, h⟩
  rcases of_bind h with ⟨_, hrotate, h⟩
  rcases rotateAuthenticationKeyInternal_eq_ok hrotate with ⟨account, hbef, rfl⟩
  rcases of_bind h with ⟨_, hafter, h⟩
  have hafter := borrowGlobal_eq_ok_iff.mp hafter
  rw [lookup_setAccount_self] at hafter
  cases hafter
  cases h
  exact ⟨claimed, account, hclaim, hbef, rfl⟩

theorem createResourceAccount_effect
    (hright : rights.rotatesInternally (createResourceAddress env source seed))
    (hcreates : rights.createsResource (createResourceAddress env source seed))
    (h : s.createResourceAccount env source seed = .ok (cap, s')) : Effect rights s s' := by
  rcases createResourceAccount_eq_ok h with ⟨claimed, account, hclaim, hbef, rfl⟩
  rcases claimResourceAddress_eq_ok hclaim with ⟨_, hfound, hoffer, hunused, _, heff⟩
  rw [hfound] at hbef
  cases hbef
  refine (heff rights).trans ((Effect.keyRotated hright hfound zeroAuthKey).trans ?_)
  exact Effect.resourceAccountCreated (lookup_setAccount_self claimed _ _) hoffer hunused hcreates

theorem rotateAccountAuthenticationKeyAndStoreCapability_effect {origin : Address}
    (hright : rights.rotatesInternally addr)
    (h : s.rotateAccountAuthenticationKeyAndStoreCapability origin addr cap key = .ok s') :
    Effect rights s s' := by
  rcases of_ensure h with ⟨_, h⟩
  rcases of_bind h with ⟨_, _, h⟩
  exact (Effect.containersWritten _).trans (rotateAuthenticationKeyInternal_effect hright h)

theorem createResourceAccountEntry_effect
      (hright : rights.rotatesInternally (createResourceAddress env source seed))
      (hcreates : rights.createsResource (createResourceAddress env source seed))
    (h : s.createResourceAccountEntry env source seed key = .ok s') : Effect rights s s' := by
  rcases of_bind h with ⟨⟨_, _⟩, hcre, h⟩
  exact (createResourceAccount_effect hright hcreates hcre).trans
    (rotateAccountAuthenticationKeyAndStoreCapability_effect hright h)

theorem registerCoinStore_effect (h : s.registerCoinStore addr = .ok s') : Effect rights s s' := by
  rcases of_bind h with ⟨_, hreg, h⟩
  rcases of_bind h with ⟨⟨_, _⟩, hfirst, h⟩
  rcases of_bind h with ⟨⟨_, _⟩, hsnd, h⟩
  cases h
  exact (registerCoin_effect hreg).trans
    ((newEventHandle_effect hfirst).trans (newEventHandle_effect hsnd))

theorem createResourceAccountAndFund_effect {isRegistered : Bool} {transferred}
      (hright : rights.rotatesInternally (createResourceAddress env source seed))
      (hcreates : rights.createsResource (createResourceAddress env source seed))
    (h : s.createResourceAccountAndFund env source seed key isRegistered transferred = .ok s') :
    Effect rights s s' := by
  rcases of_bind h with ⟨⟨_, _⟩, hcre, h⟩
  refine (createResourceAccount_effect hright hcreates hcre).trans ?_
  cases isRegistered with
  | true =>
    rcases of_check h with ⟨_, h⟩
    exact rotateAccountAuthenticationKeyAndStoreCapability_effect hright h
  | false =>
    rcases of_bind h with ⟨_, hreg, h⟩
    rcases of_check h with ⟨_, h⟩
    exact (registerCoinStore_effect hreg).trans
      (rotateAccountAuthenticationKeyAndStoreCapability_effect hright h)

theorem createResourceAccountAndPublishPackage_effect {requested}
      (hright : rights.rotatesInternally (createResourceAddress env source seed))
      (hcreates : rights.createsResource (createResourceAddress env source seed))
    (h : s.createResourceAccountAndPublishPackage env source seed requested = .ok s') :
    Effect rights s s' := by
  rcases of_bind h with ⟨⟨_, _⟩, hcre, h⟩
  rcases of_check h with ⟨_, h⟩
  exact (createResourceAccount_effect hright hcreates hcre).trans
    (rotateAccountAuthenticationKeyAndStoreCapability_effect hright h)

theorem retrieveResourceAccountCap_effect (hright : rights.rotatesInternally addr)
    (h : s.retrieveResourceAccountCap addr source = .ok (cap, s')) : Effect rights s s' := by
  rcases of_ensure h with ⟨_, h⟩
  rcases of_bind h with ⟨_, _, h⟩
  dsimp only at h
  split at h
  · cases h
  · rcases of_bind h with ⟨_, hrotated, h⟩
    cases h
    exact (Effect.containersWritten _).trans
      (rotateAuthenticationKeyInternal_effect hright hrotated)

/-!
# The object module
-/

theorem createObjectInternal_effect {creator : Address} {canDelete : Bool}
    (hright : rights.givesObject addr creator)
    (h : s.createObjectInternal creator addr canDelete = .ok (ref, s')) : Effect rights s s' := by
  rcases of_ensure h with ⟨habs, h⟩
  rcases of_bind h with ⟨⟨_, _, _⟩, hcreate, h⟩
  cases hcreate
  rcases of_bind h with ⟨_, hpub, h⟩
  cases h
  rw [(publishObject_eq_ok hpub).2]
  exact .objectPublished habs hright

theorem createNamedObject_effect
    (hright : rights.givesObject (createObjectId env source seed) source)
    (h : s.createNamedObject env source seed = .ok (ref, s')) : Effect rights s s' :=
  createObjectInternal_effect hright h

theorem createObjectFromAccount_effect
    (hright : forall guid, guid.addr = source ->
      rights.givesObject (objectIdFromGuid env guid) source)
    (h : s.createObjectFromAccount env source = .ok (ref, s')) : Effect rights s s' := by
  rcases of_bind h with ⟨⟨guid, _⟩, hcre, h⟩
  exact (createGuid_effect hcre).trans
    (createObjectInternal_effect (hright guid (createGuid_addr hcre)) h)

theorem createObjectGuid_effect {guid : Guid} (h : s.createObjectGuid addr = .ok (guid, s')) :
    Effect rights s s' := by
  rcases of_bind h with ⟨_, hfound, h⟩
  rcases of_bind h with ⟨⟨_, _, _⟩, hcreate, h⟩
  rcases guidCreate_eq_ok hcreate with ⟨rfl, hnext, rfl⟩
  cases h
  exact .objectGuid (borrowGlobal_eq_ok_iff.mp hfound) hnext

theorem createObjectGuid_addr {guid : Guid} (h : s.createObjectGuid addr = .ok (guid, s')) :
    guid.addr = addr := by
  rcases of_bind h with ⟨_, _, h⟩
  rcases of_bind h with ⟨⟨_, _, _⟩, hcreate, h⟩
  rcases guidCreate_eq_ok hcreate with ⟨rfl, _, rfl⟩
  cases h
  rfl

theorem newObjectEventHandle_effect (h : s.newObjectEventHandle addr = .ok (handle, s')) :
    Effect rights s s' := by
  rcases of_bind h with ⟨⟨_, _⟩, hcre, h⟩
  cases h
  exact createObjectGuid_effect hcre

theorem createObjectFromObject_effect
    (hright : forall guid, guid.addr = source ->
      rights.givesObject (objectIdFromGuid env guid) source)
    (h : s.createObjectFromObject env source = .ok (ref, s')) : Effect rights s s' := by
  rcases of_bind h with ⟨⟨guid, _⟩, hcre, h⟩
  exact (createObjectGuid_effect hcre).trans
    (createObjectInternal_effect (hright guid (createObjectGuid_addr hcre)) h)

theorem delete_effect {ref} (h : s.delete ref = .ok s') : Effect rights s s' := by
  rcases of_bind h with ⟨_, _, h⟩
  cases h
  exact .objectDeleted ref.self

theorem setUngatedTransfer_effect {allowed : Bool} {ref}
    (h : setUngatedTransfer allowed s ref = .ok s') : Effect rights s s' := by
  rcases of_bind h with ⟨_, hfound, h⟩
  cases h
  refine .objectWritten (borrowGlobal_eq_ok_iff.mp hfound) ?_ (.inl ?_) <;> rfl

theorem transferWithRef_effect {ref} (hright : rights.givesObject ref.self destination)
    (h : s.transferWithRef ref destination = .ok s') : Effect rights s s' := by
  rcases of_bind h with ⟨_, hfound, h⟩
  rcases of_bind h with ⟨_, _, h⟩
  cases h
  refine .objectWritten (borrowGlobal_eq_ok_iff.mp hfound) ?_ (.inr hright)
  rfl

theorem transfer_effect {iterations : Nat} {owner objectId : Address}
    (hright : rights.givesObject objectId destination)
    (h : s.transfer iterations owner objectId destination = .ok s') : Effect rights s s' := by
  rcases of_check h with ⟨_, h⟩
  rcases of_bind h with ⟨_, hfound, h⟩
  split at h
  · cases h
    exact .refl s
  · rcases of_bind h with ⟨_, _, h⟩
    cases h
    refine .objectWritten (borrowGlobal_eq_ok_iff.mp hfound) ?_ (.inr hright)
    rfl

end OpenLibra.Accounts
