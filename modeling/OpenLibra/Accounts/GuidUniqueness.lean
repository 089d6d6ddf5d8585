import OpenLibra.Accounts.Operations
import OpenLibra.Tables.Counters

/-!
# Uniqueness of GUIDs

Accounts and objects count on their own, and an object created again starts over.  So identifiers
are unique exactly if no address got one of them twice.
-/

namespace OpenLibra.Accounts

open Move Tables Function

/-!
# Counters of a store
-/

inductive Holder where
  | account
  | object
deriving DecidableEq

namespace Event

def createdGuid : Event -> Option Guid
  | guidCreated guid => some guid
  | _ => none

def publishedAddress : Event -> Option Address
  | published addr => some addr
  | _ => none

end Event

namespace Store

/-- What `guid::create` has returned, the latest first. -/
def guids (s : Store) : List Guid := s.log.filterMap Event.createdGuid

def publishedAddresses (s : Store) : List Address := s.log.filterMap Event.publishedAddress

def guidCounter (s : Store) : Holder × Address -> Option Nat
  | (.account, addr) =>
    (s.accounts.lookup addr).map fun account =>
      account.guidCreationNum.toNat
  | (.object, addr) => (s.objects.lookup addr).map fun object => object.guidCreationNum.toNat

end Store

def Guid.identifier (guid : Guid) : Address × Nat := (guid.addr, guid.creationNum.toNat)

theorem Guid.identifier_injective : Function.Injective Guid.identifier := by
  rintro ⟨num, addr⟩ ⟨num', addr'⟩ h
  rcases Prod.mk.inj h with ⟨haddr, hnum⟩
  cases (haddr : addr = addr')
  cases BitVec.eq_of_toNat_eq (hnum : num.toNat = num'.toNat)
  rfl

namespace Store

def counters (s : Store) : Counters (Holder × Address) Address :=
  { next := s.guidCounter
    issued := s.guids.map Guid.identifier
    opened := s.publishedAddresses }

/-!
# Writes as steps of the counters
-/

variable (s : Store) (addr : Address)

theorem guidCounter_setAccount (account : Account) :
    (s.setAccount addr account).guidCounter = update s.guidCounter (.account, addr)
        (some account.guidCreationNum.toNat) := by
  refine eq_update_iff.mpr ⟨?_, ?_⟩
  · rw [guidCounter, lookup_setAccount_self]
    rfl
  · rintro ⟨holder, other⟩ hne
    cases holder with
    | object => rfl
    | account =>
      rw [guidCounter, lookup_setAccount_of_ne (by simpa using hne)]
      rfl

theorem guidCounter_setObject (object : Object) :
    (s.setObject addr object).guidCounter = update s.guidCounter (.object, addr)
        (some object.guidCreationNum.toNat) := by
  refine eq_update_iff.mpr ⟨?_, ?_⟩
  · rw [guidCounter, lookup_setObject_self]
    rfl
  · rintro ⟨holder, other⟩ hne
    cases holder with
    | account => rfl
    | object =>
      rw [guidCounter, lookup_setObject_of_ne (by simpa using hne)]
      rfl

theorem guidCounter_erase (s : Store) (addr : Address) :
    { s with objects := s.objects.erase addr }.guidCounter =
      update s.guidCounter (.object, addr) none := by
  refine eq_update_iff.mpr ⟨?_, ?_⟩
  · rw [guidCounter, AList.lookup_erase]
    rfl
  · rintro ⟨holder, other⟩ hne
    cases holder with
    | account => rfl
    | object =>
      rw [guidCounter, AList.lookup_erase_ne (by simpa using hne)]
      rfl

theorem counters_setAccount (account : Account) :
    (s.setAccount addr account).counters =
      { s.counters with
        next := update s.guidCounter (.account, addr)
          (some account.guidCreationNum.toNat) } := by
  rw [← guidCounter_setAccount]
  rfl

theorem counters_setObject (object : Object) :
    (s.setObject addr object).counters =
      { s.counters with
        next := update s.guidCounter (.object, addr)
          (some object.guidCreationNum.toNat) } := by
  rw [← guidCounter_setObject]
  rfl

theorem counters_empty : Store.empty.counters = Counters.empty := by
  have hnext : Store.empty.guidCounter = fun _ => none := by
    funext slot
    rcases slot with ⟨holder, _⟩
    cases holder with
    | account | object => rfl
  exact congrArg (fun next => Counters.mk next [] []) hnext

theorem counters_record {event : Event} (hguid : event.createdGuid = none)
    (hpub : event.publishedAddress = none) (s : Store) :
    (s.record event).counters = s.counters := by
  have hguids : (s.record event).guids = s.guids := List.filterMap_cons_none hguid
  have haddrs : (s.record event).publishedAddresses =
    s.publishedAddresses := List.filterMap_cons_none hpub
  unfold counters
  rw [hguids, haddrs]
  rfl

theorem counters_setOriginatingAddress (s : Store) (table : AList fun _ : Address => Address) :
    (s.setOriginatingAddress table).counters = s.counters :=
  rfl

theorem counters_setAccount_of_kept {s : Store} {addr : Address} {account account' : Account}
    (hfound : s.accounts.lookup addr = some account)
    (hkept : account'.guidCreationNum = account.guidCreationNum) :
    (s.setAccount addr account').counters = s.counters := by
  have hcnt : s.guidCounter (.account, addr) = some account'.guidCreationNum.toNat := by
    rw [guidCounter, hfound, hkept]
    rfl
  rw [counters_setAccount, ← hcnt, update_eq_self]
  rfl

theorem counters_setObject_of_kept {s : Store} {addr : Address} {object object' : Object}
    (hfound : s.objects.lookup addr = some object)
    (hkept : object'.guidCreationNum = object.guidCreationNum) :
    (s.setObject addr object').counters = s.counters := by
  have hcnt : s.guidCounter (.object, addr) = some object'.guidCreationNum.toNat := by
    rw [guidCounter, hfound, hkept]
    rfl
  rw [counters_setObject, ← hcnt, update_eq_self]
  rfl

theorem counters_withFreshAccount :
    (s.withFreshAccount addr).counters = s.counters.withOpened Prod.snd (.account, addr) 1 := by
  unfold withFreshAccount Counters.withOpened
  exact congrArg (fun next => Counters.mk next _ _)
    (guidCounter_setAccount s addr (freshAccount addr))

theorem counters_withFreshObject (s : Store) (addr owner : Address) :
    (s.withFreshObject addr owner).counters = s.counters.withOpened Prod.snd (.object, addr) 0 := by
  unfold withFreshObject Counters.withOpened
  exact congrArg (fun next => Counters.mk next _ _)
    (guidCounter_setObject s addr (freshObject addr owner))

end Store

open Relation

theorem Effect.counters_steps {rights : Rights} {s s' : Store} (h : Effect rights s s') :
    ReflTransGen (Counters.Step Prod.snd) s.counters s'.counters := by
  induction h with
  | refl | containersWritten | tableInitialized => exact ReflTransGen.refl
  | trans first second ihfirst ihsecond => exact ihfirst.trans ihsecond
  | @accountPublished s addr absent =>
    rw [Store.counters_withFreshAccount]
    apply ReflTransGen.single
    apply Counters.Step.opening
    change Option.map _ (s.accounts.lookup addr) = none
    rw [absent]
    rfl
  | @objectPublished s addr owner absent =>
    rw [Store.counters_withFreshObject]
    apply ReflTransGen.single
    apply Counters.Step.opening
    change Option.map _ (s.objects.lookup addr) = none
    rw [absent]
    rfl
  | @accountGuid s addr account next found hnext =>
    have hissued : ((s.record (.guidCreated
      { creationNum := account.guidCreationNum
        addr := addr })).setAccount addr
          { account with guidCreationNum := next }).counters =
      s.counters.withIssued Prod.snd (.account, addr)
        account.guidCreationNum.toNat := by
      rw [Store.counters_setAccount, hnext]
      rfl
    rw [hissued]
    apply ReflTransGen.single
    apply Counters.Step.issue
    change Option.map _ (s.accounts.lookup addr) = some _
    rw [found]
    rfl
  | @objectGuid s addr object next found hnext =>
    have hissued : ((s.record (.guidCreated
      { creationNum := object.guidCreationNum
        addr := addr })).setObject addr
          { object with guidCreationNum := next }).counters =
      s.counters.withIssued Prod.snd (.object, addr)
        object.guidCreationNum.toNat := by
      rw [Store.counters_setObject, hnext]
      rfl
    rw [hissued]
    apply ReflTransGen.single
    apply Counters.Step.issue
    change Option.map _ (s.objects.lookup addr) = some _
    rw [found]
    rfl
  | objectWritten found kept => rw [Store.counters_setObject_of_kept found kept]
  | @objectDeleted s addr =>
    have hclosed : { s with objects := s.objects.erase addr }.counters =
        s.counters.withClosed (.object, addr) :=
      congrArg (fun next => Counters.mk next _ _) (Store.guidCounter_erase s addr)
    rw [hclosed]
    exact ReflTransGen.single (.close _ _)
  | accountWritten found key sequence guid => rw [Store.counters_setAccount_of_kept found guid]
  | signerOffered found | keyRotated right found =>
    rw [Store.counters_setAccount_of_kept found]
    rfl
  | signerOfferRevoked found | resourceAccountCreated found | transactionSent right found =>
    rw [Store.counters_record rfl rfl, Store.counters_setAccount_of_kept found]
    rfl
  | tableUpdated right found =>
    rw [Store.counters_setOriginatingAddress, Store.counters_setAccount_of_kept found]
    rfl

theorem coherent_run (env : Environment) (operations : List Operation) :
    (World.empty.run env operations).store.counters.Coherent Prod.snd := by
  refine @World.run_effect_invariant env World.empty
    (fun s => s.counters.Coherent Prod.snd) ?_ ?_ operations
  · intro _ _ _ heff hs
    exact hs.steps heff.counters_steps
  · change Store.empty.counters.Coherent Prod.snd
    rw [Store.counters_empty]
    exact Counters.coherent_empty Prod.snd

/-- Over every history, no two calls of `guid::create` return the same
identifier exactly if no two publications of accounts and objects are at the
same address. -/
theorem guids_nodup_iff_published_nodup (env : Environment) (operations : List Operation) :
    (World.empty.run env operations).store.guids.Nodup <->
      (World.empty.run env operations).store.publishedAddresses.Nodup := by
  rw [← List.nodup_map_iff Guid.identifier_injective]
  exact (coherent_run env operations).issued_nodup_iff

/-- The object that `0x10` creates from an empty seed. -/
def squattedAddress : Address := createObjectId lastBytesEnvironment (Address.ofNat 16) []

/-- Anybody may create the account at the address of an object.  Both then
number their identifiers from zero. -/
theorem guids_of_object_and_account : (World.empty.run lastBytesEnvironment
    [Operation.createNamedObject (Address.ofNat 16) [],
      Operation.createAccount squattedAddress]).store.guids =
    [{ creationNum := 1, addr := squattedAddress },
      { creationNum := 0, addr := squattedAddress },
      { creationNum := 0, addr := squattedAddress }] ∧
    ¬ (World.empty.run lastBytesEnvironment [Operation.createNamedObject (Address.ofNat 16) [],
        Operation.createAccount squattedAddress]).store.guids.Nodup := by
  have hguids : (World.empty.run lastBytesEnvironment [.createNamedObject (Address.ofNat 16) [],
      .createAccount squattedAddress]).store.guids =
    [{ creationNum := 1, addr := squattedAddress },
      { creationNum := 0, addr := squattedAddress },
      { creationNum := 0, addr := squattedAddress }] := by
    decide +kernel
  constructor
  · exact hguids
  · rw [hguids]
    intro hnodup
    exact (List.nodup_cons.mp (List.nodup_cons.mp hnodup).2).1 List.mem_cons_self

end OpenLibra.Accounts
