import OpenLibra.Accounts.Effects
import OpenLibra.Transactions.Charging
import OpenLibra.Transition.System

/-!
# Execution of user transactions

The VM runs prologue, payload and epilogue.  After a failure that is to be kept the epilogue
runs again on the storage from before.
-/

namespace OpenLibra.Transactions

open Rust Move Accounts List Function

/-!
# Statuses
-/

/-- `TransactionStatus`; nothing is retried. -/
inductive TransactionStatus (status code : Type) where
  | keep (status : status)
  | discard (code : code)

/-- What the execution of transactions rests on and is arbitrary here: statuses
and their conversions, the checks of the format and the gas of a transaction,
the information on aborts, and how a session ends, which may fail. -/
structure Vm (coinType status code : Type) where
  transactionStatus : status -> TransactionStatus status code
  statusCode : status -> code
  checkTransaction : Transaction -> Option status
  convertPrologueError : Abort -> status
  convertEpilogueError : Abort -> status
  expectOnlySuccessfulExecution : Abort -> status
  extractAbortInfo : status -> status
  success : status
  finish : Ledger coinType -> Option status

structure Output (coinType status code : Type) where
  status : TransactionStatus status code
  ledger : Ledger coinType

/-- A payload leaves so much gas, and the changed storage or a status. -/
structure Payload (coinType status : Type) where
  gasBalance : U64
  result : Outcome status (Ledger coinType)

def SendsNothing (s s' : Store) : Prop :=
  exists rights : Rights, ¬ rights.sendsTransaction ∧ Effect rights s s'

structure UserTransaction (coinType status : Type) where
  data : Transaction
  execute : Ledger coinType -> Payload coinType status
  sendsNothing : forall ledger changed, (execute ledger).result = .ok changed ->
      SendsNothing ledger.accounts changed.accounts

/-!
# The VM
-/

namespace Vm

variable {coinType status code : Type} [DecidableEq coinType] (vm : Vm coinType status code)
  (chain : Framework.Chain Address coinType) (ledger : Ledger coinType)

def discardErrorVmStatus (e : status) : Output coinType status code :=
  { status :=
      match vm.transactionStatus e with
      | .keep _ => .discard (vm.statusCode e)
      | .discard code => .discard code
    ledger := ledger }

/-- The session that has led to `changed` is finished. -/
def getTransactionOutput (ledger changed : Ledger coinType) (kept : status) :
    Output coinType status code :=
  match vm.finish changed with
  | none =>
    { status := .keep kept
      ledger := changed }
  | some e => vm.discardErrorVmStatus ledger e

def failedTransactionCleanup (txn : Transaction) (gasBalance : U64) (errorCode : status) :
    Option (Output coinType status code) :=
  match vm.transactionStatus errorCode with
  | .keep kept =>
    match ledger.epilogue chain txn gasBalance with
    | .ok changed => some (vm.getTransactionOutput ledger changed (vm.extractAbortInfo kept))
    | .err e =>
      -- There is no choice but to discard the transaction.
      some (vm.discardErrorVmStatus ledger (vm.expectOnlySuccessfulExecution e))
    | .panic => none
  | .discard code =>
    some
      { status := .discard code
        ledger := ledger }

def successTransactionCleanup (changed : Ledger coinType) (txn : Transaction) (gasBalance : U64) :
    Outcome status (Output coinType status code) := do
  let charged <- (changed.epilogue chain txn gasBalance).mapErr vm.convertEpilogueError
  match vm.finish charged with
  | none =>
    .ok
      { status := .keep vm.success
        ledger := charged }
  | some e => .err e

def executePayload (txn : UserTransaction coinType status) :
    Outcome status (Output coinType status code) := do
  let changed <- (txn.execute ledger).result
  vm.successTransactionCleanup chain changed txn.data (txn.execute ledger).gasBalance

def executeUserTransaction (txn : UserTransaction coinType status) :
    Option (Output coinType status code) :=
  match vm.checkTransaction txn.data with
  | some e => some (vm.discardErrorVmStatus ledger e)
  | none =>
    match ledger.prologue chain txn.data with
    | .err e => some (vm.discardErrorVmStatus ledger (vm.convertPrologueError e))
    | .panic => none
    | .ok () =>
      match vm.executePayload chain ledger txn with
      | .ok output => some output
      | .panic => none
      | .err e =>
        match vm.transactionStatus e with
        | .discard _ => some (vm.discardErrorVmStatus ledger e)
        | .keep _ =>
          vm.failedTransactionCleanup chain ledger txn.data (txn.execute ledger).gasBalance e

end Vm

def Output.kept {coinType status code : Type}
    (output : Output coinType status code) (txn : Transaction) :
    List (Address × U64) :=
  match output.status with
  | .keep _ => [(txn.sender, txn.sequenceNumber)]
  | .discard _ => []

def executions {coinType status code : Type} [DecidableEq coinType] (vm : Vm coinType status code)
    (chain : Framework.Chain Address coinType) :
    Transition.TransitionSystem (Ledger coinType) (Address × U64) where
  initial := fun _ => True
  step := fun ledger labels ledger' =>
    (exists txn output, vm.executeUserTransaction chain ledger txn = some output ∧
      labels = output.kept txn.data ∧ ledger' = output.ledger) ∨
    (labels = [] ∧ SendsNothing ledger.accounts ledger'.accounts)

/-!
# Sequence numbers
-/

section

def sequenceNumberOf (s : Store) : Address -> Option U64 := s.accountView Account.sequenceNumber

theorem sequenceNumberOf_setAccount {s : Store} {addr found : Address} {account account' : Account}
    {number : U64} (hfound : s.accounts.lookup found = some account)
    (hkept : account'.sequenceNumber = account.sequenceNumber)
    (hs : sequenceNumberOf s addr = some number) :
    sequenceNumberOf (s.setAccount found account') addr = some number := by
  rw [sequenceNumberOf, Store.accountView_setAccount_of_kept hfound hkept]
  exact hs

theorem sendsNothing_keeps {s s' : Store} {addr : Address} {number : U64}
    (h : SendsNothing s s') (hs : sequenceNumberOf s addr = some number) :
    sequenceNumberOf s' addr = some number := by
  rcases h with ⟨_, hnone, heff⟩
  induction heff with
  | refl | objectPublished | objectGuid | objectWritten | objectDeleted | containersWritten
  | tableInitialized => exact hs
  | trans first second ihfirst ihsecond => exact ihsecond (ihfirst hs)
  | @accountPublished s fresh absent =>
    have hne : addr ≠ fresh := by
      intro h
      rw [sequenceNumberOf, Store.accountView, h, absent] at hs
      cases hs
    exact (congrArg (Option.map Account.sequenceNumber)
      (Store.lookup_setAccount_of_ne hne s (freshAccount fresh))).trans hs
  | @accountGuid s found account next hfound =>
    exact @sequenceNumberOf_setAccount s addr found account
      { account with guidCreationNum := next } number hfound rfl hs
  | accountWritten found key sequence => exact sequenceNumberOf_setAccount found sequence hs
  | signerOffered found | keyRotated right found => exact sequenceNumberOf_setAccount found rfl hs
  | @signerOfferRevoked s found account hfound =>
    exact @sequenceNumberOf_setAccount s addr found account
      { account with signerCapabilityOffer := none } number hfound rfl hs
  | @resourceAccountCreated s found account hfound =>
    exact @sequenceNumberOf_setAccount s addr found account
      { account with signerCapabilityOffer := some found } number hfound
      rfl hs
  | transactionSent right => exact absurd right hnone
  | @tableUpdated s found curr new account table right hfound current present free events =>
    exact @sequenceNumberOf_setAccount s addr found account
      { account with
        keyRotationEvents := events
        authenticationKey := new.toBytes } number hfound rfl hs

variable {coinType : Type} {chain : Framework.Chain Address coinType}
  {ledger ledger' : Ledger coinType} {txn : Transaction}

structure KeptOnce (labels : List (Address × U64)) (ledger : Ledger coinType) : Prop where
  nodup : labels.Nodup
  below : forall sender number, (sender, number) ∈ labels ->
    exists current, sequenceNumberOf ledger.accounts sender = some current ∧
      number.toNat < current.toNat

theorem KeptOnce.sendsNothing {labels} (h : KeptOnce labels ledger)
    (hnothing : SendsNothing ledger.accounts ledger'.accounts) : KeptOnce labels ledger' where
  nodup := h.nodup
  below := by
    intro sender number hmem
    rcases h.below sender number hmem with ⟨current, hcur, hlt⟩
    exact ⟨current, sendsNothing_keeps hnothing hcur, hlt⟩

theorem sequenceNumberOf_prologue (h : ledger.prologue chain txn = .ok ()) :
    sequenceNumberOf ledger.accounts txn.sender = some txn.sequenceNumber := by
  rcases checked_of_prologueCommon (prologueCommon_of_prologue h) with ⟨_, _, hchk⟩
  rw [sequenceNumberOf, Store.accountView, hchk.hasAccount, Option.map_some, hchk.sequenceNumber]

variable [DecidableEq coinType]

theorem sequenceNumberOf_epilogue {gasBalance : U64}
    (h : ledger.epilogue chain txn gasBalance = .ok ledger') :
    exists number next, sequenceNumberOf ledger.accounts txn.sender = some number ∧
      next.toNat = number.toNat + 1 ∧ sequenceNumberOf ledger'.accounts =
        update (sequenceNumberOf ledger.accounts) txn.sender (some next) := by
  rcases of_ensure h with ⟨_, h⟩
  rcases of_bind h with ⟨_, _, h⟩
  rcases of_ensure h with ⟨_, h⟩
  rcases of_bind h with ⟨_, _, h⟩
  rcases of_bind h with ⟨_, _, h⟩
  rcases of_ensure h with ⟨_, h⟩
  rcases of_bind h with ⟨_, _, h⟩
  rcases of_bind h with ⟨_, hincrement, h⟩
  cases h
  rcases of_bind hincrement with ⟨account, hfound, h⟩
  rcases of_ensure h with ⟨_, h⟩
  rcases of_bind h with ⟨next, hnext, h⟩
  cases h
  refine ⟨account.sequenceNumber, next, ?_, Move.add_eq_ok_iff.mp hnext, ?_⟩
  · exact congrArg (Option.map Account.sequenceNumber) (borrowGlobal_eq_ok_iff.mp hfound)
  · exact Store.accountView_setAccount Account.sequenceNumber ledger.accounts
      txn.sender { account with sequenceNumber := next }

end

/-!
# Kept transactions
-/

namespace Vm

variable {coinType status code : Type} [DecidableEq coinType] {vm : Vm coinType status code}
  {chain : Framework.Chain Address coinType} {ledger : Ledger coinType}

inductive Executed (chain : Framework.Chain Address coinType)
    (ledger : Ledger coinType) (txn : Transaction) :
    Output coinType status code -> Prop where
  | discarded (code : code) : Executed chain ledger txn
        { status := .discard code
          ledger := ledger }
  | kept {changed charged : Ledger coinType} {gasBalance : U64}
      (prologue : ledger.prologue chain txn = .ok ())
      (sendsNothing : SendsNothing ledger.accounts changed.accounts)
      (epilogue : changed.epilogue chain txn gasBalance = .ok charged)
      (status : status) :
      Executed chain ledger txn
        { status := .keep status
          ledger := charged }

theorem executed_discardErrorVmStatus (txn : Transaction) (e : status) :
    Executed chain ledger txn (vm.discardErrorVmStatus ledger e) := by
  unfold discardErrorVmStatus
  cases vm.transactionStatus e with
  | keep => exact .discarded _
  | discard code => exact .discarded code

variable {txn : Transaction} {output : Output coinType status code} {labels : List (Address × U64)}

theorem executed_getTransactionOutput {changed charged : Ledger coinType} {gasBalance : U64}
    (hprol : ledger.prologue chain txn = .ok ())
    (hnothing : SendsNothing ledger.accounts changed.accounts)
    (hepil : changed.epilogue chain txn gasBalance = .ok charged) (kept : status) :
    Executed chain ledger txn (vm.getTransactionOutput ledger charged kept) := by
  unfold getTransactionOutput
  cases vm.finish charged with
  | none => exact .kept hprol hnothing hepil kept
  | some e => exact executed_discardErrorVmStatus txn e

theorem sendsNothing_refl (s : Store) : SendsNothing s s := ⟨Rights.none, id, .refl s⟩

theorem executed_failedTransactionCleanup {gasBalance : U64} {errorCode : status}
    (hprol : ledger.prologue chain txn = .ok ())
    (h : vm.failedTransactionCleanup chain ledger txn gasBalance errorCode = some output) :
    Executed chain ledger txn output := by
  unfold failedTransactionCleanup at h
  split at h
  · split at h
    · next charged hepil =>
        cases h
        exact executed_getTransactionOutput hprol (sendsNothing_refl ledger.accounts) hepil _
    · cases h
      exact executed_discardErrorVmStatus txn _
    · cases h
  · cases h
    exact .discarded _

theorem executed_executePayload {txn} (hprol : ledger.prologue chain txn.data = .ok ())
    (h : vm.executePayload chain ledger txn = .ok output) :
    Executed chain ledger txn.data output := by
  rcases of_bind h with ⟨changed, hchanged, h⟩
  rcases of_bind h with ⟨_, hcharged, h⟩
  have hepil := mapErr_eq_ok_iff.mp hcharged
  split at h
  · cases h
    exact .kept hprol (txn.sendsNothing ledger changed hchanged) hepil _
  · cases h

theorem executed_executeUserTransaction {txn}
    (h : vm.executeUserTransaction chain ledger txn = some output) :
    Executed chain ledger txn.data output := by
  unfold executeUserTransaction at h
  split at h
  · cases h
    exact executed_discardErrorVmStatus txn.data _
  · split at h
    · cases h
      exact executed_discardErrorVmStatus txn.data _
    · cases h
    · next hprol =>
        split at h
        · next hpay =>
            cases h
            exact executed_executePayload hprol hpay
        · cases h
        · split at h
          · cases h
            exact executed_discardErrorVmStatus txn.data _
          · exact executed_failedTransactionCleanup hprol h

theorem keptOnce_executed (h : KeptOnce labels ledger) (hexec : Executed chain ledger txn output) :
    KeptOnce (labels ++ output.kept txn) output.ledger := by
  cases hexec with
  | discarded =>
    change KeptOnce (labels ++ []) ledger
    rw [append_nil]
    exact h
  | @kept changed charged gasBalance prologue sendsNothing epilogue =>
    have hchanged := h.sendsNothing sendsNothing
    have hnow := sendsNothing_keeps sendsNothing (sequenceNumberOf_prologue prologue)
    rcases sequenceNumberOf_epilogue epilogue with ⟨number, next, hnum, hnext, hafter⟩
    rw [hnow] at hnum
    cases hnum
    change KeptOnce (labels ++ [(txn.sender, txn.sequenceNumber)]) charged
    constructor
    · rw [nodup_append]
      refine ⟨h.nodup, nodup_singleton _, ?_⟩
      rintro ⟨sender, number⟩ hmem _ hpair rfl
      rcases mem_singleton.mp hpair with hsame
      cases hsame
      rcases hchanged.below _ _ hmem with ⟨current, hcur, hlt⟩
      rw [hnow] at hcur
      cases hcur
      exact lt_irrefl _ hlt
    · intro sender _ hmem
      rw [hafter]
      by_cases hsender : sender = txn.sender
      · subst hsender
        refine ⟨next, update_self _ _ _, ?_⟩
        rw [hnext]
        rcases mem_append.mp hmem with hold | hnew
        · rcases hchanged.below _ _ hold with ⟨current, hcur, hlt⟩
          rw [hnow] at hcur
          cases hcur
          exact Nat.lt_succ_of_lt hlt
        · cases mem_singleton.mp hnew
          exact Nat.lt_succ_self _
      · rcases mem_append.mp hmem with hold | hnew
        · rcases hchanged.below _ _ hold with ⟨current, hcur, hlt⟩
          exact ⟨current, by rw [update_of_ne hsender, hcur], hlt⟩
        · cases mem_singleton.mp hnew
          exact absurd rfl hsender

theorem keptOnce_of_execution (h : (executions vm chain).Execution labels ledger) :
    KeptOnce labels ledger := by
  refine Transition.TransitionSystem.Execution.invariant ?_ ?_ h
  · intro _ _
    exact ⟨nodup_nil, fun _ _ hmem => absurd hmem not_mem_nil⟩
  · intro _ _ _ _ _ hkept hstep
    rcases hstep with ⟨_, _, houtput, rfl, rfl⟩ | ⟨rfl, hnothing⟩
    · exact keptOnce_executed hkept (executed_executeUserTransaction houtput)
    · rw [append_nil]
      exact hkept.sendsNothing hnothing

/-- The numbers below the current one are those below `first`, then the kept ones in order. -/
def InSequence (sender : Address) (first : Nat) (labels : List (Address × U64))
    (ledger : Ledger coinType) : Prop :=
  exists current, sequenceNumberOf ledger.accounts sender = some current ∧
    range current.toNat = range first ++ (labels.filter (·.1 = sender)).map (·.2.toNat)

theorem InSequence.executed {sender : Address} {first : Nat}
    (h : InSequence sender first labels ledger) (hexec : Executed chain ledger txn output) :
    InSequence sender first (labels ++ output.kept txn) output.ledger := by
  cases hexec with
  | discarded => simpa [Output.kept] using h
  | @kept _ charged _ prologue sendsNothing epilogue =>
    rcases h with ⟨current, hcur, hlabels⟩
    have hcur := sendsNothing_keeps sendsNothing hcur
    have hnow := sendsNothing_keeps sendsNothing (sequenceNumberOf_prologue prologue)
    rcases sequenceNumberOf_epilogue epilogue with ⟨_, next, hnum, hnext, hafter⟩
    change InSequence sender first (labels ++ [(txn.sender, txn.sequenceNumber)]) charged
    rw [InSequence, hafter, filter_append, map_append, ← append_assoc, ← hlabels]
    by_cases hsender : txn.sender = sender
    · subst hsender
      rw [hcur] at hnow hnum
      cases hnow
      cases hnum
      exact ⟨next, update_self _ _ _, by simp [hnext, range_succ]⟩
    · refine ⟨current, ?_, by simp [hsender]⟩
      rw [update_of_ne (Ne.symm hsender), hcur]

/-- In every run the kept transactions of a sender have consecutive sequence numbers, from the
number at the start up to the current one. -/
theorem kept_in_sequence {ledger' : Ledger coinType} {sender : Address} {first : U64}
    (h : (executions vm chain).Run ledger labels ledger')
    (hfirst : sequenceNumberOf ledger.accounts sender = some first) :
    InSequence sender first.toNat labels ledger' := by
  induction h with
  | refl => exact ⟨first, hfirst, by simp⟩
  | snoc run step ih =>
    rcases step with ⟨_, _, houtput, rfl, rfl⟩ | ⟨rfl, hnothing⟩
    · exact ih.executed (executed_executeUserTransaction houtput)
    · rcases ih with ⟨current, hcur, hrest⟩
      rw [append_nil]
      exact ⟨current, sendsNothing_keeps hnothing hcur, hrest⟩

variable {txn : Transaction} {loose : coinType -> Nat}

/-- After a prologue, the epilogue on the same storage succeeds, takes the fee
and counts the transaction; so the cleanup of a failure that is to be kept gets
to its output.  In no run is a pair of sender and sequence number kept twice. -/
theorem prologue_suffices (vm : Vm coinType status code) (hledger : Chargeable chain ledger loose)
    (hprologue : ledger.prologueCommon chain txn = Outcome.ok ()) {gasUnitsRemaining : U64}
    (hremaining : gasUnitsRemaining.toNat ≤ txn.maxGasAmount.toNat) :
    (exists charged, ledger.epilogue chain txn gasUnitsRemaining = Outcome.ok charged ∧
      Charged chain ledger charged txn gasUnitsRemaining ∧
      forall errorCode kept, vm.transactionStatus errorCode = TransactionStatus.keep kept ->
        vm.failedTransactionCleanup chain ledger txn gasUnitsRemaining errorCode =
          some (vm.getTransactionOutput ledger charged (vm.extractAbortInfo kept))) ∧
      forall labels final, (executions vm chain).Execution labels final -> labels.Nodup := by
  constructor
  · rcases exists_epilogue_eq_ok hledger hprologue hremaining with ⟨charged, hepilogue, hcharged⟩
    refine ⟨charged, hepilogue, hcharged, ?_⟩
    intro _ _ hkept
    simp only [failedTransactionCleanup, hkept, hepilogue]
  · intro _ _ h
    exact (keptOnce_of_execution h).nodup

end Vm

/-!
# A transaction that pays
-/

def payingChain : Framework.Chain Address Unit :=
  { openLibra := openLibra
    vmReserved := vmReserved
    coreResources := Address.ofNat 0xA550C18
    coinAddress := fun _ => openLibra
    olCoin := () }

def payer : Address := Address.ofNat 16

def payingWorld : Framework.World Address Unit :=
  { resources :=
      { accounts := AList.insert payer Framework.World.emptyAccount ∅
        aggregatorFactory := true
        allowSupplyUpgrades := none
        coinInfo := fun _ => none
        coinStores := fun _ => ∅
        mintCapStores := []
        delegations := none
        burnCap := false
        collectedFees := none
        validatorFees := none }
    coins := fun _ => []
    aggregatableCoins := fun _ => [] }

def payingRun : List (Framework.Operation Address Unit) :=
  [.call (.initializeOlCoin openLibra), .call (.storeOlCoinBurnCap openLibra),
    .call (.initializeFeeCollectionAndDistribution openLibra 50), .call (.register () payer),
    .call (.olMint openLibra payer 1000)]

/-- The fees are collected or burnt. -/
def payingLedger (collects : Bool) : Ledger Unit :=
  { coins := (payingWorld.run payingChain payingRun).resources
    accounts := Store.empty.setAccount payer (freshAccount payer)
    currentTimeMicroseconds := some 0
    chainId := some 4
    collectAndDistributeGasFees := collects }

def payingTransaction : Transaction :=
  { sender := payer
    sequenceNumber := 0
    authenticationKey := payer.toBytes
    secondarySigners := []
    secondaryAuthenticationKeys := []
    gasUnitPrice := 2
    maxGasAmount := 100
    expirationTimestampSecs := 1
    chainId := 4
    isModuleBundle := false }

theorem payingLedger_chargeable (collects : Bool) : Chargeable payingChain (payingLedger collects)
    (payingWorld.run payingChain payingRun).loose := by
  refine chargeable_run (fun t => ⟨rfl, rfl⟩) rfl payingRun rfl (fun _ => ?_) (fun _ => ?_) ?_
  · exact Option.isSome_iff_exists.mp (by cases collects <;> decide +kernel)
  · cases collects <;> decide +kernel
  · decide +kernel

def keepingVm : Vm Unit Unit Unit :=
  { transactionStatus := .keep
    statusCode := id
    checkTransaction := fun _ => none
    convertPrologueError := fun _ => ()
    convertEpilogueError := fun _ => ()
    expectOnlySuccessfulExecution := fun _ => ()
    extractAbortInfo := id
    success := ()
    finish := fun _ => none }

def payingUser : UserTransaction Unit Unit where
  data := payingTransaction
  execute ledger :=
    { gasBalance := 40
      result := .ok ledger }
  sendsNothing := by
    rintro ledger _ h
    cases h
    exact Vm.sendsNothing_refl ledger.accounts

/-- The transaction is kept, and with it its sequence number. -/
theorem payer_in_sequence : exists output,
    keepingVm.executeUserTransaction payingChain (payingLedger true) payingUser = some output ∧
    Vm.InSequence payer 0 [(payer, 0)] output.ledger := by
  have hkept : (keepingVm.executeUserTransaction payingChain (payingLedger true) payingUser).map
      (Output.kept · payingTransaction) = some [(payer, 0)] := by
    decide +kernel
  rcases Option.map_eq_some_iff.mp hkept with ⟨output, houtput, hlabels⟩
  have hrun : (executions keepingVm payingChain).Run (payingLedger true) ([] ++ [(payer, 0)])
      output.ledger :=
    .snoc (.refl _) (.inl ⟨payingUser, output, houtput, hlabels.symm, rfl⟩)
  exact ⟨output, houtput, Vm.kept_in_sequence hrun (show _ = some 0 by decide +kernel)⟩

/-- Forty of a hundred units of gas are left; the fee is burnt or collected. -/
theorem payingTransaction_charged :
    (exists charged, (payingLedger false).epilogue payingChain payingTransaction 40 =
        Outcome.ok charged ∧
      Charged payingChain (payingLedger false) charged payingTransaction 40) ∧
    exists charged, (payingLedger true).epilogue payingChain payingTransaction 40 =
        Outcome.ok charged ∧
      Charged payingChain (payingLedger true) charged payingTransaction 40 := by
  have hprologue (collects : Bool) : (payingLedger collects).prologueCommon payingChain
      payingTransaction = .ok () := by
    cases collects <;> decide +kernel
  have hremaining : (40 : U64).toNat ≤ payingTransaction.maxGasAmount.toNat := by decide
  have hcharged (collects : Bool) : exists charged,
      (payingLedger collects).epilogue payingChain payingTransaction 40 = .ok charged ∧
      Charged payingChain (payingLedger collects) charged payingTransaction 40 := by
    rcases (Vm.prologue_suffices keepingVm (payingLedger_chargeable collects) (hprologue collects)
      hremaining).1 with ⟨charged, hepilogue, hcharged, _⟩
    exact ⟨charged, hepilogue, hcharged⟩
  exact ⟨hcharged false, hcharged true⟩

end OpenLibra.Transactions
