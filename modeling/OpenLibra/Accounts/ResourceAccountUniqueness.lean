import OpenLibra.Accounts.Operations
import OpenLibra.Transition.System

/-!
# How often a resource account is created

A created resource account is marked by an offer of its signer capability, which may be
revoked; then the creation succeeds again.
-/

namespace OpenLibra.Accounts

open Move List

def Account.claim (account : Account) : Option Address × U64 :=
  (account.signerCapabilityOffer, account.sequenceNumber)

structure ClaimHistory (r : Address) (s : Store) : Prop where
  created : .resourceAccountCreated r ∈ s.log ->
    exists claim, s.accountView Account.claim r = some claim
  sent : .transactionSent r ∈ s.log ->
    exists offer sequenceNumber, s.accountView Account.claim r = some (offer, sequenceNumber) ∧
      sequenceNumber ≠ 0
  not_created_after_sent : ¬ List.Sublist [.resourceAccountCreated r, .transactionSent r] s.log

namespace ClaimHistory

variable {r addr : Address} {s s' : Store} {account account' : Account}

theorem empty (r : Address) : ClaimHistory r Store.empty where
  created := by intro h; cases h
  sent := by intro h; cases h
  not_created_after_sent := by intro h; cases h

theorem congr (hs : ClaimHistory r s)
    (hview : s'.accountView Account.claim = s.accountView Account.claim) (hlog : s'.log = s.log) :
    ClaimHistory r s' where
  created := by
    rw [hview, hlog]
    exact hs.created
  sent := by
    rw [hview, hlog]
    exact hs.sent
  not_created_after_sent := by
    rw [hlog]
    exact hs.not_created_after_sent

theorem claim_eq (h : s.accounts.lookup r = some account) :
    s.accountView Account.claim r = some account.claim :=
  congrArg (Option.map Account.claim) h

variable {event : Event}

theorem not_created_after_sent_cons (hs : ClaimHistory r s)
    (hcre : event ≠ .resourceAccountCreated r) :
    ¬ List.Sublist [.resourceAccountCreated r, .transactionSent r] (event :: s.log) := by
  intro h
  rcases sublist_cons_iff.mp h with hold | ⟨_, heq, _⟩
  · exact hs.not_created_after_sent hold
  · exact hcre (List.cons.inj heq).1.symm

theorem record_other (hs : ClaimHistory r s)
    (hcre : event ≠ .resourceAccountCreated r) (hsent : event ≠ .transactionSent r) :
    ClaimHistory r (s.record event) where
  created := by
    intro h
    rcases mem_cons.mp h with heq | hold
    · exact absurd heq.symm hcre
    · exact hs.created hold
  sent := by
    intro h
    rcases mem_cons.mp h with heq | hold
    · exact absurd heq.symm hsent
    · exact hs.sent hold
  not_created_after_sent := hs.not_created_after_sent_cons hcre

theorem record_revoked (hs : ClaimHistory r s) (hfound : s.accounts.lookup r = some account) :
    ClaimHistory r ((s.setAccount r { account with signerCapabilityOffer := none }).record
        (.signerOfferRevoked r)) where
  created := by
    intro h
    rcases mem_cons.mp h with heq | hold
    · cases heq
    · exact ⟨_, claim_eq (Store.lookup_setAccount_self s r _)⟩
  sent := by
    intro h
    rcases mem_cons.mp h with heq | hold
    · cases heq
    · rcases hs.sent hold with ⟨offer, number, hview, hnum⟩
      cases (claim_eq hfound).symm.trans hview
      exact ⟨none, _, claim_eq (Store.lookup_setAccount_self s r _), hnum⟩
  not_created_after_sent := hs.not_created_after_sent_cons nofun

theorem record_sent (hs : ClaimHistory r s) {next : U64}
    (hnext : next.toNat = account.sequenceNumber.toNat + 1) :
    ClaimHistory r ((s.setAccount r { account with sequenceNumber := next }).record
        (.transactionSent r)) where
  created := by
    intro h
    rcases mem_cons.mp h with heq | hold
    · cases heq
    · exact ⟨_, claim_eq (Store.lookup_setAccount_self s r _)⟩
  sent := by
    intro _
    refine ⟨_, next, claim_eq (Store.lookup_setAccount_self s r _), ?_⟩
    intro hzero
    rw [hzero] at hnext
    exact Nat.succ_ne_zero _ hnext.symm
  not_created_after_sent := hs.not_created_after_sent_cons nofun

theorem record_created (hs : ClaimHistory r s) (hfound : s.accounts.lookup r = some account)
    (hoffer : account.signerCapabilityOffer = none) (hunused : account.sequenceNumber = 0) :
    ClaimHistory r ((s.setAccount r { account with signerCapabilityOffer := some r }).record
        (.resourceAccountCreated r)) := by
  have hview : s.accountView Account.claim r = some (none, 0) := by
    rw [Store.accountView, hfound, Option.map_some, Account.claim, hoffer, hunused]
  have hnotsent : .transactionSent r ∉ s.log := by
    intro hsent
    rcases hs.sent hsent with ⟨offer, number, hsame, hnum⟩
    rw [hview] at hsame
    cases hsame
    exact hnum rfl
  exact
    { created := fun _ => ⟨_, claim_eq (Store.lookup_setAccount_self s r _)⟩
      sent := by
        intro h
        rcases mem_cons.mp h with heq | hold
        · cases heq
        · exact absurd hold hnotsent
      not_created_after_sent := by
        intro h
        rcases sublist_cons_iff.mp h with hold | ⟨_, heq, hrest⟩
        · exact hs.not_created_after_sent hold
        · cases heq
          exact hnotsent (singleton_sublist.mp hrest) }

theorem setAccount (hs : ClaimHistory r s)
    (hkept : addr = r -> exists before, s.accounts.lookup r = some before ∧
      account.sequenceNumber = before.sequenceNumber) :
    ClaimHistory r (s.setAccount addr account) := by
  by_cases haddr : addr = r
  · rcases hkept haddr with ⟨before, hfound, hnum⟩
    subst haddr
    have hafter := claim_eq (Store.lookup_setAccount_self s addr account)
    exact { hs with
        created := fun _ => ⟨_, hafter⟩
        sent := by
          intro h
          rcases hs.sent h with ⟨_, _, hview, hused⟩
          cases (claim_eq hfound).symm.trans hview
          refine ⟨_, _, hafter, ?_⟩
          rw [hnum]
          exact hused }
  · have hview : (s.setAccount addr account).accountView Account.claim r =
        s.accountView Account.claim r := by
      rw [Store.accountView_setAccount, Function.update_of_ne (Ne.symm haddr)]
    exact { hs with
        created := by
          rw [hview]
          exact hs.created
        sent := by
          rw [hview]
          exact hs.sent }

theorem setAccount_fresh (hs : ClaimHistory r s) (habs : s.accounts.lookup addr = none) :
    ClaimHistory r (s.setAccount addr account) := by
  by_cases haddr : addr = r
  · subst haddr
    have hview : s.accountView Account.claim addr = none := by
      rw [Store.accountView, habs]
      rfl
    exact { hs with
        created := by
          intro h
          rcases hs.created h with ⟨_, hsome⟩
          cases hview.symm.trans hsome
        sent := by
          intro h
          rcases hs.sent h with ⟨_, _, hsome, _⟩
          cases hview.symm.trans hsome }
  · exact hs.setAccount fun h => absurd h haddr

end ClaimHistory

theorem Effect.claimHistory {rights : Rights} {r : Address} {s s' : Store}
    (h : Effect rights s s') (hs : ClaimHistory r s) : ClaimHistory r s' := by
  induction h with
  | refl => exact hs
  | trans first second ihfirst ihsecond => exact ihsecond (ihfirst hs)
  | accountPublished absent =>
    refine ClaimHistory.record_other ?_ (by simp) (by simp)
    refine ClaimHistory.setAccount_fresh ?_ absent
    exact (hs.record_other (by simp) (by simp)).record_other (by simp)
      (by simp)
  | @objectPublished s addr =>
    refine ClaimHistory.record_other ?_ (by simp) (by simp)
    have hrecd : ClaimHistory r (s.record (.guidCreated
      { creationNum := 0, addr := addr })) :=
      hs.record_other (by simp) (by simp)
    exact hrecd.congr rfl rfl
  | @accountGuid s addr account next found =>
    refine (hs.record_other (by simp) (by simp)).setAccount ?_
    rintro rfl
    exact ⟨account, found, rfl⟩
  | objectGuid => exact (hs.record_other (by simp) (by simp)).congr rfl rfl
  | objectWritten | objectDeleted | containersWritten | tableInitialized => exact hs.congr rfl rfl
  | @accountWritten s addr account account' found key sequence guid offer =>
    refine hs.setAccount ?_
    rintro rfl
    exact ⟨account, found, sequence⟩
  | @signerOffered s addr account found =>
    refine hs.setAccount ?_
    rintro rfl
    exact ⟨account, found, rfl⟩
  | @signerOfferRevoked s addr account found =>
    by_cases haddr : addr = r
    · subst haddr
      exact hs.record_revoked found
    · refine ClaimHistory.record_other ?_ (by simp) (by simp)
      exact hs.setAccount fun h => absurd h haddr
  | @resourceAccountCreated s addr account found unclaimed unused =>
    by_cases haddr : addr = r
    · subst haddr
      exact hs.record_created found unclaimed unused
    · refine ClaimHistory.record_other ?_ (by simpa using haddr) (by simp)
      exact hs.setAccount fun h => absurd h haddr
  | @transactionSent s addr account next right found hnext =>
    by_cases haddr : addr = r
    · subst haddr
      exact hs.record_sent hnext
    · refine ClaimHistory.record_other ?_ (by simp) (by simpa using haddr)
      exact hs.setAccount fun h => absurd h haddr
  | @keyRotated s addr account right found =>
    refine hs.setAccount ?_
    rintro rfl
    exact ⟨account, found, rfl⟩
  | @tableUpdated s addr curr new account table right found =>
    refine ClaimHistory.congr (hs.setAccount ?_) rfl rfl
    rintro rfl
    exact ⟨account, found, rfl⟩

/-!
# Claimed accounts
-/

/-- The account carries an offer of its signer capability or has sent a transaction. -/
def Account.Claimed (account : Account) : Prop :=
  account.signerCapabilityOffer ≠ none ∨ account.sequenceNumber ≠ 0

structure Store.ClaimedOnce (r : Address) (s : Store) : Prop where
  count_le : s.log.count (.resourceAccountCreated r) ≤ 1
  claimed : .resourceAccountCreated r ∈ s.log ->
    exists account, s.accounts.lookup r = some account ∧ account.Claimed

section

variable {rights : Rights} {r addr : Address} {s s' : Store} {account : Account}

theorem Store.ClaimedOnce.congr (hs : s.ClaimedOnce r)
    (hlog : s'.log.count (.resourceAccountCreated r) = s.log.count (.resourceAccountCreated r))
    (hkept : forall account, s.accounts.lookup r = some account -> account.Claimed ->
      exists account', s'.accounts.lookup r = some account' ∧ account'.Claimed) :
    s'.ClaimedOnce r where
  count_le := hlog.trans_le hs.count_le
  claimed := by
    intro h
    rw [← count_pos_iff, hlog, count_pos_iff] at h
    rcases hs.claimed h with ⟨account, hfound, hclaimed⟩
    exact hkept account hfound hclaimed

theorem Store.ClaimedOnce.setAccount (hs : s.ClaimedOnce r)
    (hlog : s'.log.count (.resourceAccountCreated r) = s.log.count (.resourceAccountCreated r))
    (haccounts : s'.accounts = (s.setAccount addr account).accounts)
    (hkept : addr = r -> forall before, s.accounts.lookup r = some before -> before.Claimed ->
      account.Claimed) : s'.ClaimedOnce r := by
  refine hs.congr hlog ?_
  intro before hbefore hclaimed
  rw [haccounts]
  by_cases haddr : addr = r
  · subst haddr
    exact ⟨account, Store.lookup_setAccount_self s addr account, hkept rfl before hbefore hclaimed⟩
  · refine ⟨before, ?_, hclaimed⟩
    rw [Store.lookup_setAccount_of_ne (Ne.symm haddr)]
    exact hbefore

theorem Effect.count_created (h : Effect rights s s') (hr : ¬ rights.createsResource r) :
    s'.log.count (.resourceAccountCreated r) = s.log.count (.resourceAccountCreated r) := by
  induction h with
  | trans _ _ ihfirst ihsecond => exact ihsecond.trans ihfirst
  | @resourceAccountCreated s addr account found unclaimed unused right =>
    refine count_cons_of_ne ?_
    intro heq
    cases heq
    exact hr right
  | _ => rfl

theorem Account.Claimed.of_same {before found account : Account}
    (hfound : s.accounts.lookup addr = some found)
    (hsequence : account.sequenceNumber = found.sequenceNumber)
    (hoffer : account.signerCapabilityOffer = found.signerCapabilityOffer) (haddr : addr = r)
    (hbefore : s.accounts.lookup r = some before) (hclaimed : before.Claimed) :
    account.Claimed := by
  subst haddr
  cases hfound.symm.trans hbefore
  rw [Account.Claimed, hsequence, hoffer]
  exact hclaimed

/-- Without revocations a claimed account stays claimed. -/
theorem Effect.claimedOnce (h : Effect rights s s') (hr : ¬ rights.revokesOffer)
    (hs : s.ClaimedOnce r) : s'.ClaimedOnce r := by
  induction h with
  | refl => exact hs
  | trans _ _ ihfirst ihsecond => exact ihsecond (ihfirst hs)
  | @accountPublished s addr absent =>
    refine @Store.ClaimedOnce.setAccount r addr s _ _ hs rfl rfl ?_
    rintro rfl before hbefore
    cases absent.symm.trans hbefore
  | objectPublished | objectGuid | objectWritten | objectDeleted | containersWritten
  | tableInitialized =>
    exact hs.congr rfl fun account hfound hclaimed => ⟨account, hfound, hclaimed⟩
  | @accountGuid s addr account next found =>
    exact @Store.ClaimedOnce.setAccount r addr s _ _ hs rfl rfl
      fun haddr _ => .of_same found rfl rfl haddr
  | accountWritten found key sequence guid offer =>
    exact hs.setAccount rfl rfl fun haddr _ => .of_same found sequence offer haddr
  | signerOffered found => exact hs.setAccount rfl rfl fun _ _ _ _ => .inl nofun
  | signerOfferRevoked found right => exact absurd right hr
  | @resourceAccountCreated s addr account found unclaimed unused right =>
    by_cases haddr : addr = r
    · subst haddr
      have hfresh : .resourceAccountCreated addr ∉ s.log := by
        intro hcreated
        rcases hs.claimed hcreated with ⟨_, hfound, hclaimed⟩
        cases found.symm.trans hfound
        rcases hclaimed with hoffer | hused
        · exact hoffer unclaimed
        · exact hused unused
      refine ⟨?_, fun _ => ⟨_, Store.lookup_setAccount_self s addr _, .inl nofun⟩⟩
      rw [Store.log_record, Store.log_setAccount, count_cons_self,
        count_eq_zero_of_not_mem hfresh]
    · have hlog : (Event.resourceAccountCreated addr :: s.log).count (.resourceAccountCreated r) =
          s.log.count (.resourceAccountCreated r) :=
        count_cons_of_ne fun heq => haddr (Event.resourceAccountCreated.inj heq)
      exact @Store.ClaimedOnce.setAccount r addr s _ _ hs hlog rfl fun h => absurd h haddr
  | @transactionSent s addr account next right found hnext =>
    refine @Store.ClaimedOnce.setAccount r addr s _ _ hs rfl rfl fun _ _ _ _ => .inr ?_
    intro hzero
    change next = 0 at hzero
    rw [hzero] at hnext
    exact Nat.succ_ne_zero _ hnext.symm
  | @keyRotated s addr account right found =>
    exact hs.setAccount rfl rfl fun haddr _ => .of_same found rfl rfl haddr
  | @tableUpdated s addr curr new account table right found =>
    exact @Store.ClaimedOnce.setAccount r addr s _ _ hs rfl rfl
      fun haddr _ => .of_same found rfl rfl haddr

end

/-- At most one creation of the resource account succeeds, and none does after
the account has sent a transaction. -/
def CreatedOnce (s : Store) (r : Address) : Prop :=
  s.log.count (.resourceAccountCreated r) ≤ 1 ∧
    ¬ List.Sublist [.resourceAccountCreated r, .transactionSent r] s.log

/-- A creation of a resource account that exists already is called only while the account
carries an offer of its signer capability or has sent a transaction. -/
def CreatesUnclaimed (env : Environment) (w : World) (operation : Operation) : Prop :=
  forall r, operation.createdResource env = some r -> .resourceAccountCreated r ∈ w.store.log ->
    forall account, w.store.accounts.lookup r = some account -> account.Claimed

theorem Operation.not_revokesOffer_of_createdResource {env : Environment} {w : World}
    {operation : Operation} {r : Address} (h : operation.createdResource env = some r) :
    ¬ (operation.rights env w).revokesOffer := by
  intro hrevokes
  cases operation with
  | revokeSignerCapability | revokeAnySignerCapability => cases h
  | _ => cases hrevokes

theorem count_created_attempt {env : Environment} {r : Address} (w : World) (operation : Operation)
    (hw : w.store.log.count (.resourceAccountCreated r) ≤ 1 ∧ ClaimHistory r w.store)
    (hclaimed : CreatesUnclaimed env w operation) :
    (w.attempt env operation).store.log.count (.resourceAccountCreated r) ≤ 1 ∧
      ClaimHistory r (w.attempt env operation).store := by
  rcases hw with ⟨hcount, hhistory⟩
  rcases World.attempt_cases env w operation with hstep | hsame
  · have heff := World.step_effect hstep
    refine ⟨?_, heff.claimHistory hhistory⟩
    by_cases hcreates : operation.createdResource env = some r
    · have honce : w.store.ClaimedOnce r := by
        refine ⟨hcount, ?_⟩
        intro hcreated
        rcases hhistory.created hcreated with ⟨_, hview⟩
        rcases Option.map_eq_some_iff.mp hview with ⟨account, hfound, _⟩
        exact ⟨account, hfound, hclaimed r hcreates hcreated account hfound⟩
      exact (heff.claimedOnce
        (Operation.not_revokesOffer_of_createdResource hcreates) honce).count_le
    · rw [heff.count_created hcreates]
      exact hcount
  · rw [hsame]
    exact ⟨hcount, hhistory⟩

/-- Over every history whose creations meet only claimed accounts where the resource account
exists already, each resource account is created once. -/
theorem createdOnce_of_createsUnclaimed {env : Environment} {operations : List Operation}
    (h : forall before operation after, operations = before ++ operation :: after ->
      CreatesUnclaimed env (World.empty.run env before) operation) (r : Address) :
    CreatedOnce (World.empty.run env operations).store r := by
  have hstart : World.empty.store.log.count (.resourceAccountCreated r) ≤ 1 ∧
      ClaimHistory r World.empty.store :=
    ⟨Nat.zero_le 1, ClaimHistory.empty r⟩
  have hrun := Transition.along_of_step count_created_attempt hstart h operations []
    (append_nil _).symm
  exact ⟨hrun.1, hrun.2.not_created_after_sent⟩

def vaultOwner : Address := Address.ofNat 16

def vaultAddress : Address := Store.createResourceAddress lastBytesEnvironment vaultOwner []

def recreatingHistory : List Operation :=
  [.createResourceAccount vaultOwner [], .revokeAnySignerCapability vaultAddress,
    .createResourceAccount vaultOwner []]

/-- The second creation finds the offer of the first one. -/
theorem createdOnce_offered :
    CreatedOnce (World.empty.run lastBytesEnvironment
      [.createResourceAccount vaultOwner [], .createResourceAccount vaultOwner []]).store
        vaultAddress := by
  apply createdOnce_of_createsUnclaimed
  refine Transition.forall_split_cons ?_ (Transition.forall_split_cons ?_
    Transition.forall_split_nil)
  · intro r _ hcreated
    cases hcreated
  · intro r hr _ account hfound
    cases hr
    have hoffer : ((World.empty.run lastBytesEnvironment
        [.createResourceAccount vaultOwner []]).store.accounts.lookup vaultAddress).bind
          Account.signerCapabilityOffer = some vaultAddress := by
      decide +kernel
    refine .inl fun hnone => ?_
    rw [show (World.empty.run _ _).store.accounts.lookup vaultAddress = _ from hfound] at hoffer
    exact absurd (hoffer.symm.trans hnone) nofun

theorem recreatingHistory_not_createdOnce : ¬ CreatedOnce (World.empty.run lastBytesEnvironment
    recreatingHistory).store vaultAddress := by
  intro honce
  have htwice : (World.empty.run lastBytesEnvironment recreatingHistory).store.log.count
      (.resourceAccountCreated vaultAddress) = 2 := by
    decide +kernel
  have hle := honce.1
  rw [htwice] at hle
  exact Nat.not_succ_le_self 1 hle

end OpenLibra.Accounts
