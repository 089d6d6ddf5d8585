import OpenLibra.Ledger.TransactionInfoList

/-!
# Transactions of an account

A list of transactions of one account, each with its own proof.
-/

namespace OpenLibra.Ledger

open Rust Merkle Accumulator

variable {address payload event writeSet status hash : Type} [dh : DecidableEq hash]
  [th : ToString hash] (H : LedgerHasher address payload event writeSet status hash)

structure TransactionInfoWithProof (status hash : Type) where
  ledgerInfoToTransactionInfoProof : AccumulatorProof hash
  transactionInfo : TransactionInfo status hash
deriving DecidableEq, Repr

def verifyTransactionInfo (ledgerInfo : LedgerInfo hash)
    (transactionVersion : Nat) (transactionInfo : TransactionInfo status hash)
    (ledgerInfoToTransactionInfoProof : AccumulatorProof hash) :
    Outcome AnyhowError Unit := do
  ensure (transactionVersion ≤ ledgerInfo.version)
    ["Transaction version " ++ toString transactionVersion ++
      " is newer than LedgerInfo version " ++ toString ledgerInfo.version ++
      "."]
  let transactionInfoHash := H.transactionInfo transactionInfo
  ledgerInfoToTransactionInfoProof.verify H.transactionTree
    ledgerInfo.transactionAccumulatorHash transactionInfoHash
    transactionVersion

def TransactionInfoWithProof.verify (self : TransactionInfoWithProof status hash)
    (ledgerInfo : LedgerInfo hash) (transactionVersion : Nat) :
    Outcome AnyhowError Unit :=
  verifyTransactionInfo H ledgerInfo transactionVersion self.transactionInfo
    self.ledgerInfoToTransactionInfoProof

theorem getElem?_of_verifyTransactionInfo (hsep : H.IsSeparated) {ledgerInfo} {infos}
    (hcommits : Commits H ledgerInfo infos) {version : Nat} {info} {proof}
    (h : verifyTransactionInfo H ledgerInfo version info proof = .ok ()) :
    infos[version]? = some info := by
  rcases of_bind h with ⟨_, hver, hproof⟩
  have hle := ensure_eq_ok_iff.mp hver
  have hlen := hcommits.version
  rw [hcommits.root_eq] at hproof
  rcases AccumulatorProof.getElem?_of_verify H.transactionTree
    hsep.transactionTree mem_range_of_mem_map ⟨info, rfl⟩ hproof with
    ⟨hwidth, hat⟩
  rw [List.length_map] at hwidth
  rw [Nat.mod_eq_of_lt (by omega)] at hat
  exact getElem?_of_map hsep.transactionInfo hat

/-!
# A single user transaction
-/

structure TransactionWithProof (address payload event status hash : Type)
    where
  version : Nat
  transaction : Transaction address payload
  events : Option (List event)
  proof : TransactionInfoWithProof status hash
deriving DecidableEq, Repr

namespace TransactionWithProof

def checkEventRoot (self : TransactionWithProof address payload event status hash) :
    Outcome AnyhowError Unit :=
  match self.events with
  | none => .ok ()
  | some events => do
    let eventRootHash <- eventRootHash H events
    ensure (eventRootHash = self.proof.transactionInfo.eventRootHash)
      ["Event root hash (" ++ toString eventRootHash ++ ") not expected (" ++
        toString self.proof.transactionInfo.eventRootHash ++ ")."]

variable {self : TransactionWithProof address payload event status hash}

theorem committed_of_checkEventRoot (hsep : H.IsSeparated) (h : self.checkEventRoot H = .ok ())
    {events} (hevs : self.events = some events) :
    Committed (eventRoot H) self.proof.transactionInfo.eventRootHash events := by
  rw [checkEventRoot, hevs] at h
  rcases of_bind h with ⟨_, hroot, hensure⟩
  apply committed_of_injective (eventRoot_injective H hsep)
  rw [eventRootHash_eq_ok H hroot]
  exact ensure_eq_ok_iff.mp hensure

variable [da : DecidableEq address] [ta : ToString address]

def verifyUserTxn (self : TransactionWithProof address payload event status hash)
    (ledgerInfo : LedgerInfo hash) (version : Nat) (sender : address) (sequenceNumber : Nat) :
    Outcome AnyhowError Unit := do
  let signedTransaction <- self.transaction.asSignedUserTxn
  ensure (self.version = version)
    ["Version (" ++ toString self.version ++ ") is not expected (" ++ toString version ++ ")."]
  ensure (signedTransaction.sender = sender)
    ["Sender (" ++ toString signedTransaction.sender ++ ") not expected (" ++
      toString sender ++ ")."]
  ensure (signedTransaction.sequenceNumber = sequenceNumber)
    ["Sequence number (" ++ toString signedTransaction.sequenceNumber ++
      ") not expected (" ++ toString sequenceNumber ++ ")."]
  let txnHash := H.transaction self.transaction
  ensure (txnHash = self.proof.transactionInfo.transactionHash)
    ["Transaction hash (" ++ toString txnHash ++ ") not expected (" ++
      toString self.proof.transactionInfo.transactionHash ++ ")."]
  self.checkEventRoot H
  self.proof.verify H ledgerInfo version

structure StandsIn (entry : TransactionWithProof address payload event status hash)
    (infos : List (TransactionInfo status hash)) (sender : address)
    (sequenceNumber : Nat) : Prop where
  user : exists txn, entry.transaction = .userTransaction txn ∧
    txn.sender = sender ∧ txn.sequenceNumber = sequenceNumber
  committed : exists info, infos[entry.version]? = some info ∧
    Committed H.transaction info.transactionHash entry.transaction ∧
    forall events, entry.events = some events -> Committed (eventRoot H) info.eventRootHash events

theorem standsIn_of_verifyUserTxn (hsep : H.IsSeparated) {ledgerInfo} {infos}
    (hcommits : Commits H ledgerInfo infos) {version sequenceNumber : Nat} {sender : address}
    (h : self.verifyUserTxn H ledgerInfo version sender sequenceNumber = .ok ()) :
    self.StandsIn H infos sender sequenceNumber := by
  rcases of_bind h with ⟨txn, huser, h⟩
  rcases of_bind h with ⟨_, hver, h⟩
  rcases of_bind h with ⟨_, hsender, h⟩
  rcases of_bind h with ⟨_, hnum, h⟩
  rcases of_bind h with ⟨_, htransaction, h⟩
  rcases of_bind h with ⟨_, hevs, hproof⟩
  rw [← ensure_eq_ok_iff.mp hver] at hproof
  constructor
  · exact ⟨txn, Transaction.eq_userTransaction huser, ensure_eq_ok_iff.mp hsender,
      ensure_eq_ok_iff.mp hnum⟩
  · refine ⟨self.proof.transactionInfo, getElem?_of_verifyTransactionInfo H hsep hcommits hproof,
      committed_of_injective hsep.transaction (ensure_eq_ok_iff.mp htransaction), ?_⟩
    intro _ hsome
    exact committed_of_checkEventRoot H hsep hevs hsome

end TransactionWithProof

/-!
# The list of an account
-/

/-- `u64::saturating_add`. -/
def saturatingAdd (a b : Nat) : Nat := min (a + b) (u64Bound - 1)

structure AccountTransactionsWithProof
    (address payload event status hash : Type) where
  inner : List (TransactionWithProof address payload event status hash)
deriving DecidableEq, Repr

namespace AccountTransactionsWithProof

variable [da : DecidableEq address] [ta : ToString address]

def verifyEntry (ledgerInfo : LedgerInfo hash) (account : address)
    (startSeqNum : Nat) (includeEvents : Bool) (ledgerVersion : Nat)
    (indexed : TransactionWithProof address payload event status hash × Nat) :
    Outcome AnyhowError Unit := do
  let txnWithProof := indexed.fst
  let expectedSeqNum := saturatingAdd startSeqNum indexed.snd
  let txnVersion := txnWithProof.version
  ensure (includeEvents = txnWithProof.events.isSome) ["unexpected events or missing events"]
  ensure (txnVersion ≤ ledgerVersion) ["transaction with version (" ++ toString txnVersion ++
      ") greater than requested ledger version (" ++
      toString ledgerVersion ++ ")"]
  txnWithProof.verifyUserTxn H ledgerInfo txnVersion account expectedSeqNum

variable (self : AccountTransactionsWithProof address payload event status hash)

def verify (ledgerInfo : LedgerInfo hash) (account : address)
    (startSeqNum limit : Nat) (includeEvents : Bool) (ledgerVersion : Nat) :
    Outcome AnyhowError Unit := do
  ensure (self.inner.length ≤ limit)
    ["number of account transactions (" ++ toString self.inner.length ++
      ") exceeded limit (" ++ toString limit ++ ")"]
  tryForEach (verifyEntry H ledgerInfo account startSeqNum includeEvents ledgerVersion)
    self.inner.zipIdx

structure EntryOf (infos : List (TransactionInfo status hash))
    (account : address) (includeEvents : Bool) (ledgerVersion : Nat)
    (sequenceNumber : Nat)
    (entry : TransactionWithProof address payload event status hash) :
    Prop where
  standsIn : entry.StandsIn H infos account sequenceNumber
  version_lt : entry.version < infos.length
  version_le : entry.version ≤ ledgerVersion
  included : includeEvents = entry.events.isSome

/-- The list answers the request: at most `limit` entries, and the sequence
numbers are those from the first one on, without any repetition. -/
def Answers (infos : List (TransactionInfo status hash)) (account : address)
    (startSeqNum limit : Nat) (includeEvents : Bool) (ledgerVersion : Nat) :
    Prop :=
  self.inner.length ≤ limit ∧ forall i entry, self.inner[i]? = some entry ->
      EntryOf H infos account includeEvents ledgerVersion (startSeqNum + i) entry

variable {infos : List (TransactionInfo status hash)} {account : address} {ledgerVersion : Nat}
  {includeEvents : Bool} {entry : TransactionWithProof address payload event status hash}

theorem entryOf_of_verify (hsep : H.IsSeparated) {ledgerInfo : LedgerInfo hash}
    (hcommits : Commits H ledgerInfo infos)
    {self : AccountTransactionsWithProof address payload event status hash}
    {startSeqNum limit : Nat}
    (h : self.verify H ledgerInfo account startSeqNum limit includeEvents ledgerVersion = .ok ())
    {i : Nat} (hent : self.inner[i]? = some entry) :
    EntryOf H infos account includeEvents ledgerVersion (saturatingAdd startSeqNum i) entry := by
  rcases of_bind h with ⟨_, _, hloop⟩
  have hcheck := tryForEach_eq_ok hloop (List.mk_mem_zipIdx_iff_getElem?.mpr hent)
  rcases of_bind hcheck with ⟨_, hincluded, hcheck⟩
  rcases of_bind hcheck with ⟨_, hver, huser⟩
  have hstands := TransactionWithProof.standsIn_of_verifyUserTxn H hsep hcommits huser
  rcases hstands.committed with ⟨_, hinfo, _⟩
  exact
    { standsIn := hstands
      version_lt := (List.getElem?_eq_some_iff.mp hinfo).choose
      version_le := ensure_eq_ok_iff.mp hver
      included := ensure_eq_ok_iff.mp hincluded }

omit dh th da ta in
theorem EntryOf.sequenceNumber_unique {m n : Nat}
    (hm : EntryOf H infos account includeEvents ledgerVersion m entry)
    (hn : EntryOf H infos account includeEvents ledgerVersion n entry) : m = n := by
  rcases hm.standsIn.user with ⟨txn, htxn, _, hnum⟩
  rcases hn.standsIn.user with ⟨other, hother, _, hother_number⟩
  rw [htxn] at hother
  cases hother
  omega

/-- An accepted list answers the request if and only if its sequence numbers
end before the saturation begins. -/
theorem verify_complete_iff (hsep : H.IsSeparated) {ledgerInfo : LedgerInfo hash}
    {infos : List (TransactionInfo status hash)} (hcommits : Commits H ledgerInfo infos)
    {self : AccountTransactionsWithProof address payload event status hash} {account : address}
    {startSeqNum limit ledgerVersion : Nat} {includeEvents : Bool} (hstart : startSeqNum < u64Bound)
    (h : self.verify H ledgerInfo account startSeqNum limit includeEvents ledgerVersion = Outcome.ok
      ()) :
    self.Answers H infos account startSeqNum limit includeEvents ledgerVersion <->
      startSeqNum + self.inner.length ≤ u64Bound := by
  constructor
  · intro hanswers
    by_contra hbeyond
    -- the last entry has both the saturated and the exact number
    have hpos : self.inner.length - 1 < self.inner.length := by omega
    have hlast := List.getElem?_eq_getElem hpos
    have hsaturated := entryOf_of_verify H hsep hcommits h hlast
    have hexact := hanswers.right _ _ hlast
    have hnumber := EntryOf.sequenceNumber_unique H hsaturated hexact
    unfold saturatingAdd at hnumber
    omega
  · intro hfits
    rcases of_bind h with ⟨_, hlimit, _⟩
    refine ⟨ensure_eq_ok_iff.mp hlimit, ?_⟩
    intro i entry hentry
    have hi := (List.getElem?_eq_some_iff.mp hentry).choose
    have hexact : saturatingAdd startSeqNum i = startSeqNum + i := by
      unfold saturatingAdd
      omega
    rw [← hexact]
    exact entryOf_of_verify H hsep hcommits h hentry

end AccountTransactionsWithProof

/-!
# Free hashes
-/

def freeEntry (version sequenceNumber : Nat) (siblings : List FreeLedgerHash) :
    TransactionWithProof Nat Nat Nat Nat FreeLedgerHash where
  version := version
  transaction := freeTransaction sequenceNumber
  events := some [1, 2]
  proof :=
    { ledgerInfoToTransactionInfoProof := { siblings := siblings }
      transactionInfo := freeInfo sequenceNumber }

def freeAccountTransactions : AccountTransactionsWithProof Nat Nat Nat Nat FreeLedgerHash where
  inner :=
    [freeEntry 0 0 [freeLedgerHasher.transactionInfo (freeInfo 1)],
      freeEntry 1 1 [freeLedgerHasher.transactionInfo (freeInfo 0)]]

theorem verify_complete_iff_two :
    freeAccountTransactions.Answers freeLedgerHasher (freeInfos 2) 0 0 2 true
      1 := by
  have hverify : freeAccountTransactions.verify freeLedgerHasher
    (freeLedgerInfo 2) 0 0 2 true 1 = .ok () := by
    decide +kernel
  exact (AccountTransactionsWithProof.verify_complete_iff freeLedgerHasher
    freeLedgerHasher_isSeparated (freeLedgerInfo_commits (by decide))
    (by decide) hverify).mpr (by decide)

def lastSeqNum : Nat := u64Bound - 1

def lastLedgerInfo : LedgerInfo FreeLedgerHash where
  version := 0
  transactionAccumulatorHash := freeLedgerHasher.transactionInfo (freeInfo lastSeqNum)

def repeatedTransactions : AccountTransactionsWithProof Nat Nat Nat Nat FreeLedgerHash where
  inner := [freeEntry 0 lastSeqNum [], freeEntry 0 lastSeqNum []]

theorem verify_saturated : Commits freeLedgerHasher lastLedgerInfo [freeInfo lastSeqNum] ∧
    repeatedTransactions.verify freeLedgerHasher lastLedgerInfo 0 lastSeqNum
      2 true 0 = Outcome.ok () ∧
    ¬ repeatedTransactions.Answers freeLedgerHasher [freeInfo lastSeqNum] 0
      lastSeqNum 2 true 0 := by
  refine ⟨⟨rfl, ?_⟩, by decide +kernel, ?_⟩
  · exact ⟨InMemoryAccumulator.ofList freeTree _,
      InMemoryAccumulator.fromLeaves_eq_ofList freeTree (by decide),
      (levelRoot_singleton _ _ _).symm⟩
  · intro hanswers
    have hsecond := hanswers.right 1 (freeEntry 0 lastSeqNum []) rfl
    rcases hsecond.standsIn.user with ⟨txn, htxn, _, hnumber⟩
    cases htxn
    exact absurd hnumber (by decide)

end OpenLibra.Ledger
