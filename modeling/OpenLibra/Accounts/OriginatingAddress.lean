import OpenLibra.Accounts.Operations
import OpenLibra.Tables.ReverseIndex
import OpenLibra.Transition.System

/-!
# The table of originating addresses

The table leads from a rotated key to the account that has it.  Rotations by the owner or a
delegate keep it up to date.
-/

namespace OpenLibra.Accounts

open Rust Move Tables Relation Function

namespace Store

variable (s : Store)

def keyOf : Address -> Option (List UInt8) := s.accountView Account.authenticationKey

def originOf (key : Address) : Option Address :=
  s.originatingAddress.bind fun table => table.lookup key

/-- Where the table maps a key to an account, the account exists and has this
key. -/
def Indexed : Prop :=
  forall key addr, s.originOf key = some addr -> s.keyOf addr = some key.toBytes

def keyIndex : KeyIndex Address Address (List UInt8) :=
  { keyOf := s.keyOf
    ownerOf := s.originOf }

/-!
# Writes as steps of the index
-/

theorem keyIndex_setAccount (addr : Address) (account : Account) :
    (s.setAccount addr account).keyIndex = s.keyIndex.withKey addr account.authenticationKey :=
  congrArg (fun keyOf => KeyIndex.mk keyOf s.originOf)
    (accountView_setAccount Account.authenticationKey s addr account)

theorem keyIndex_setAccount_of_kept {s : Store} {addr : Address} {account account' : Account}
    (hfound : s.accounts.lookup addr = some account)
    (hkept : account'.authenticationKey = account.authenticationKey) :
    (s.setAccount addr account').keyIndex = s.keyIndex := by
  exact congrArg (fun keyOf => KeyIndex.mk keyOf s.originOf)
    (accountView_setAccount_of_kept hfound hkept)

theorem keyIndex_record (event : Event) : (s.record event).keyIndex = s.keyIndex :=
  rfl

theorem originOf_setOriginatingAddress {s : Store} {table}
    (htable : s.originatingAddress = some table) (curr new addr : Address) :
    (s.setOriginatingAddress ((table.erase curr).insert new addr)).originOf =
      update (update s.originOf curr none) new (some addr) := by
  funext key
  change ((table.erase curr).insert new addr).lookup key = _
  by_cases hnew : key = new
  · rw [hnew, AList.lookup_insert, update_self]
  · rw [AList.lookup_insert_ne hnew, update_of_ne hnew]
    by_cases hcurr : key = curr
    · rw [hcurr, AList.lookup_erase, update_self]
    · rw [AList.lookup_erase_ne hcurr, update_of_ne hcurr, originOf, htable, Option.bind_some]

end Store

theorem Effect.keyIndex_steps {rights : Rights} {s s' : Store} (h : Effect rights s s') :
    ReflTransGen (KeyIndex.Step Address.toBytes rights.rotatesInternally
      rights.updatesTable) s.keyIndex s'.keyIndex := by
  induction h with
  | refl | objectPublished | objectGuid | objectWritten | objectDeleted | containersWritten =>
    exact ReflTransGen.refl
  | trans first second ihfirst ihsecond => exact ihfirst.trans ihsecond
  | @accountPublished s addr absent =>
    have hcre : (s.withFreshAccount addr).keyIndex =
      s.keyIndex.withKey addr (freshAccount addr).authenticationKey :=
      Store.keyIndex_setAccount s addr (freshAccount addr)
    rw [hcre]
    apply ReflTransGen.single
    apply KeyIndex.Step.created
    change Option.map _ (s.accounts.lookup addr) = none
    rw [absent]
    rfl
  | @accountGuid s addr account next found =>
    have hkept := @Store.keyIndex_setAccount_of_kept (s.record (.guidCreated
        { creationNum := account.guidCreationNum, addr := addr })) addr
      account { account with guidCreationNum := next } found rfl
    rw [hkept]
    exact ReflTransGen.refl
  | accountWritten found key => rw [Store.keyIndex_setAccount_of_kept found key]
  | signerOffered found =>
    rw [Store.keyIndex_setAccount_of_kept found]
    rfl
  | signerOfferRevoked found | resourceAccountCreated found | transactionSent right found =>
    rw [Store.keyIndex_record, Store.keyIndex_setAccount_of_kept found]
    rfl
  | keyRotated right found key =>
    rw [Store.keyIndex_setAccount]
    exact ReflTransGen.single (.rotated _ right key)
  | @tableInitialized s right =>
    have hcleared : (s.setOriginatingAddress ∅).keyIndex =
      { s.keyIndex with ownerOf := fun _ => none } := by
      rfl
    rw [hcleared]
    exact ReflTransGen.single (.cleared _ right)
  | @tableUpdated s addr curr new account table right found current present free events =>
    have hindexed : ((s.setAccount addr
      { account with
        keyRotationEvents := events
        authenticationKey := new.toBytes }).setOriginatingAddress
          ((table.erase curr).insert new addr)).keyIndex =
      (s.keyIndex.withKey addr new.toBytes).withEntry curr new addr := by
      unfold KeyIndex.withEntry KeyIndex.withKey
      exact congrArg₂ KeyIndex.mk (Store.accountView_setAccount Account.authenticationKey s addr _)
        (Store.originOf_setOriginatingAddress present curr new addr)
    rw [hindexed]
    apply ReflTransGen.single
    apply KeyIndex.Step.indexed right
    change Option.map _ (s.accounts.lookup addr) = some curr.toBytes
    rw [found, ← current]
    rfl

theorem Operation.not_updatesTable_of_rotatedInternally {env : Environment} {w : World}
    {operation : Operation} {addr : Address} (h : operation.rotatedInternally env = some addr) :
    ¬ (operation.rights env w).updatesTable := by
  intro htable
  cases operation with
  | initializeOriginatingAddress | rotateAuthenticationKey
  | rotateAuthenticationKeyWithRotationCapability => cases h
  | _ => cases htable

/-!
# Keys of internal rotations
-/

/-- The key that an operation gives to the account it rotates internally.  An origin that is its
own resource account has the zero key by then. -/
def Operation.rotationKey (env : Environment) (s : Store) : Operation -> Option (List UInt8)
  | createResourceAccountEntry origin seed optionalAuthKey
  | createResourceAccountAndFund origin seed optionalAuthKey _ _ =>
    if optionalAuthKey ≠ [] then some optionalAuthKey
    else if origin = Store.createResourceAddress env origin seed then some zeroAuthKey
    else s.keyOf origin
  | _ => some zeroAuthKey

section

variable {env : Environment} {s s' : Store} {origin resource : Address}
  {seed optionalAuthKey key : List UInt8} {cap : SignerCapability}

open Store

theorem keyOf_of_effect {rights : Rights} (h : Effect rights s s') (htable : ¬ rights.updatesTable)
    {addr : Address} (haddr : ¬ rights.rotatesInternally addr) (hkey : s.keyOf addr = some key) :
    s'.keyOf addr = some key :=
  KeyIndex.keyOf_steps htable haddr (x := s.keyIndex) hkey h.keyIndex_steps

theorem keyOf_rotateAuthenticationKeyInternal
    (h : s.rotateAuthenticationKeyInternal resource key = .ok s') :
    s'.keyOf resource = some key := by
  rcases rotateAuthenticationKeyInternal_eq_ok h with ⟨account, _, rfl⟩
  exact congrArg (Option.map Account.authenticationKey) (lookup_setAccount_self s resource _)

theorem keyOf_createResourceAccount
    (h : s.createResourceAccount env origin seed = .ok (cap, s')) :
    s'.keyOf (createResourceAddress env origin seed) = some zeroAuthKey := by
  rcases createResourceAccount_eq_ok h with ⟨_, _, _, _, rfl⟩
  exact congrArg (Option.map Account.authenticationKey) (lookup_setAccount_self _ _ _)

theorem keyOf_origin_createResourceAccount
    (hne : origin ≠ createResourceAddress env origin seed)
    (h : s.createResourceAccount env origin seed = .ok (cap, s'))
    (hkey : s.keyOf origin = some key) : s'.keyOf origin = some key := by
  have heff := @createResourceAccount_effect
    { Rights.none with
      rotatesInternally := fun addr => addr = createResourceAddress env origin seed
      createsResource := fun _ => True } s s' env origin cap seed rfl trivial h
  exact keyOf_of_effect heff id hne hkey

theorem keyOf_storeCapability
    (h : s.rotateAccountAuthenticationKeyAndStoreCapability origin resource cap optionalAuthKey =
      .ok s') :
    (optionalAuthKey ≠ [] -> s'.keyOf resource = some optionalAuthKey) ∧
      (optionalAuthKey = [] -> s'.keyOf resource = s.keyOf origin) := by
  rcases of_ensure h with ⟨_, h⟩
  rcases of_bind h with ⟨authKey, hauth, h⟩
  have hkey := keyOf_rotateAuthenticationKeyInternal h
  unfold resourceAuthKey at hauth
  constructor
  · intro hgiven
    rw [if_neg hgiven] at hauth
    cases hauth
    exact hkey
  · intro hempty
    rw [if_pos hempty] at hauth
    rcases of_bind hauth with ⟨account, hfound, hauth⟩
    cases hauth
    rw [hkey]
    exact (congrArg (Option.map Account.authenticationKey)
      (borrowGlobal_eq_ok_iff.mp hfound)).symm

/-- A creation, writes that rotate nothing, and the rotation to the key for the account. -/
theorem keyOf_created_stored {created prepared : Store}
    (hcreated : s.createResourceAccount env origin seed = .ok (cap, created))
    (hprepared : Effect Rights.none created prepared)
    (hstored : prepared.rotateAccountAuthenticationKeyAndStoreCapability origin
      (createResourceAddress env origin seed) cap optionalAuthKey = .ok s')
    (hkey : (Operation.createResourceAccountEntry origin seed optionalAuthKey).rotationKey env s =
      some key) :
    s'.keyOf (createResourceAddress env origin seed) = some key := by
  rcases keyOf_storeCapability hstored with ⟨hgiven, hempty⟩
  simp only [Operation.rotationKey] at hkey
  by_cases hoptional : optionalAuthKey ≠ []
  · rw [if_pos hoptional] at hkey
    exact (hgiven hoptional).trans hkey
  · rw [if_neg hoptional] at hkey
    rw [hempty (not_not.mp hoptional)]
    apply keyOf_of_effect hprepared id id
    by_cases hself : origin = createResourceAddress env origin seed
    · rw [if_pos hself] at hkey
      rw [← hkey, ← keyOf_createResourceAccount hcreated, ← hself]
    · rw [if_neg hself] at hkey
      exact keyOf_origin_createResourceAccount hself hcreated hkey

end

namespace World

variable {env : Environment} {w w' : World} {operation : Operation}

theorem keyOf_rotated {rotated : Address} {key : List UInt8}
    (h : w.step env operation = .ok w') (hrotated : operation.rotatedInternally env = some rotated)
    (hkey : operation.rotationKey env w.store = some key) : w'.store.keyOf rotated = some key := by
  cases operation with
  | createResourceAccount =>
    rcases withStoreOf_eq_ok h with ⟨_, _, hs, rfl⟩
    cases hrotated
    cases hkey
    exact keyOf_createResourceAccount hs
  | createResourceAccountEntry =>
    rcases withStore_eq_ok_iff.mp h with ⟨_, hs, rfl⟩
    cases hrotated
    rcases of_bind hs with ⟨⟨_, _⟩, hcreated, hs⟩
    exact keyOf_created_stored hcreated (.refl _) hs hkey
  | createResourceAccountAndFund _ _ _ isRegistered =>
    rcases withStore_eq_ok_iff.mp h with ⟨_, hs, rfl⟩
    cases hrotated
    rcases of_bind hs with ⟨⟨_, _⟩, hcreated, hs⟩
    cases isRegistered with
    | true =>
      rcases of_check hs with ⟨_, hs⟩
      exact keyOf_created_stored hcreated (.refl _) hs hkey
    | false =>
      rcases of_bind hs with ⟨_, hregistered, hs⟩
      rcases of_check hs with ⟨_, hs⟩
      exact keyOf_created_stored hcreated (registerCoinStore_effect hregistered) hs hkey
  | createResourceAccountAndPublishPackage =>
    rcases withStore_eq_ok_iff.mp h with ⟨_, hs, rfl⟩
    cases hrotated
    cases hkey
    rcases of_bind hs with ⟨⟨_, _⟩, hcreated, hs⟩
    rcases of_check hs with ⟨_, hs⟩
    exact (keyOf_storeCapability hs).1 (by decide)
  | retrieveResourceAccountCap =>
    rcases withStoreOf_eq_ok h with ⟨_, _, hs, rfl⟩
    cases hrotated
    cases hkey
    rcases of_ensure hs with ⟨_, hs⟩
    rcases of_bind hs with ⟨_, _, hs⟩
    dsimp only at hs
    split at hs
    · cases hs
    · rcases of_bind hs with ⟨_, hinternal, hs⟩
      cases hs
      exact keyOf_rotateAuthenticationKeyInternal hinternal
  | _ => cases hrotated

/-- Whatever key leads to the account that the operation rotates internally, it is the key that
the operation gives to the account. -/
def RotationAgrees (env : Environment) (w : World) (operation : Operation) : Prop :=
  forall rotated, operation.rotatedInternally env = some rotated ->
    forall key, w.store.originOf key = some rotated ->
      operation.rotationKey env w.store = some key.toBytes

theorem indexed_attempt (w : World) (operation : Operation) (hw : w.store.Indexed)
    (hagrees : RotationAgrees env w operation) : (w.attempt env operation).store.Indexed := by
  have hcorrect : w.store.keyIndex.Correct Address.toBytes := hw
  rcases attempt_cases env w operation with hstep | hsame
  · have hsteps := (step_effect hstep).keyIndex_steps
    cases hrotated : operation.rotatedInternally env with
    | none =>
      refine KeyIndex.Correct.steps Address.toBytes_injective ?_ hcorrect hsteps
      intro addr h
      change operation.rotatedInternally env = some addr at h
      rw [hrotated] at h
      cases h
    | some =>
      refine hcorrect.of_rotated (Operation.not_updatesTable_of_rotatedInternally hrotated) ?_
        hsteps
      intro key rotated hright horigin
      exact keyOf_rotated hstep hright (hagrees rotated hright key horigin)
  · rw [hsame]
    exact hw

end World

theorem indexed_empty : Store.empty.Indexed := by
  intro _ _ h
  cases h

/-- Every rotation behind the back of the table gives the account the key that the table has for
it before the call, if it has one. -/
def RotationsAgree (env : Environment) (operations : List Operation) : Prop :=
  forall before operation after, operations = before ++ operation :: after ->
    World.RotationAgrees env (World.empty.run env before) operation

/-- The table is a correct reverse index in every state of a history in which the rotations that
come with resource accounts agree with it. -/
theorem indexed_of_rotationsAgree {env : Environment} {operations : List Operation}
    (hagree : RotationsAgree env operations) (before after : List Operation)
    (hsplit : operations = before ++ after) : (World.empty.run env before).store.Indexed :=
  @Transition.along_of_step World Operation (World.attempt env) (fun w => w.store.Indexed)
    (World.RotationAgrees env) World.empty World.indexed_attempt indexed_empty operations hagree
    before after hsplit

/-!
# A stale entry
-/

def firstPublicKey : List UInt8 := List.replicate 32 1

def secondPublicKey : List UInt8 := List.replicate 32 2

def keyHolder : Address := Address.ofNat 16

def resourceOfKeyHolder : Address := Store.createResourceAddress lastBytesEnvironment keyHolder []

def retrievingHistory : List Operation :=
  [.initializeOriginatingAddress openLibra, .createAccount keyHolder, .createResourceAccountEntry
    keyHolder [] (Scheme.ed25519.authenticationKey lastBytesEnvironment firstPublicKey),
    .rotateAuthenticationKey resourceOfKeyHolder 0 firstPublicKey 0 secondPublicKey (List.replicate
    64 0) (List.replicate 64 0), .retrieveResourceAccountCap resourceOfKeyHolder keyHolder]

theorem mem_owners_of_originOf {s : Store} {key addr : Address} (h : s.originOf key = some addr) :
    addr ∈ s.originatingAddress.elim [] fun table => table.entries.map Sigma.snd := by
  rcases Option.bind_eq_some_iff.mp h with ⟨table, htable, hkey⟩
  rw [htable]
  exact List.mem_map.mpr ⟨⟨key, addr⟩, AList.mem_lookup_iff.mp hkey, rfl⟩

def secondResource : Address := Store.createResourceAddress lastBytesEnvironment keyHolder [1]

/-- The table leads to the first resource account, and the second one is rotated internally. -/
def retrievingSecond : List Operation :=
  retrievingHistory.take 4 ++ [.createResourceAccountEntry keyHolder [1] [],
    .retrieveResourceAccountCap secondResource keyHolder]

/-- The table still maps the second key to the account, which now has the zero
key. -/
theorem retrievingHistory_not_indexed : ¬ (World.empty.run lastBytesEnvironment
    retrievingHistory).store.Indexed := by
  have horigin : (World.empty.run lastBytesEnvironment retrievingHistory).store.originOf
      (lastBytesEnvironment.hashToAddress (secondPublicKey ++ [0])) =
    some resourceOfKeyHolder := by
    decide +kernel
  have hkey : (World.empty.run lastBytesEnvironment
    retrievingHistory).store.keyOf resourceOfKeyHolder =
    some zeroAuthKey := by
    decide +kernel
  intro hindexed
  have hsame := hindexed _ _ horigin
  rw [hkey] at hsame
  exact absurd hsame (by decide +kernel)

theorem retrievingSecond_indexed :
    RotationsAgree lastBytesEnvironment retrievingSecond ∧
      (World.empty.run lastBytesEnvironment retrievingSecond).store.Indexed := by
  have hagree : RotationsAgree lastBytesEnvironment retrievingSecond := by
    refine Transition.forall_split_cons nofun (Transition.forall_split_cons nofun
      (Transition.forall_split_cons ?_ (Transition.forall_split_cons nofun
        (Transition.forall_split_cons ?_ (Transition.forall_split_cons ?_
          Transition.forall_split_nil)))))
    all_goals
      intro rotated hrotated key hkey
      cases hrotated
      exact absurd (mem_owners_of_originOf hkey) (by decide +kernel)
  exact ⟨hagree, indexed_of_rotationsAgree hagree _ [] (List.append_nil _).symm⟩

end OpenLibra.Accounts
