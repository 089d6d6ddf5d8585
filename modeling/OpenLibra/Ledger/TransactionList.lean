import OpenLibra.Ledger.TransactionInfoList

/-!
# Lists of transactions and of outputs

Each entry is compared with its info, and the infos are proved against a ledger info, whose
version is not compared.
-/

namespace OpenLibra.Ledger

open Rust Merkle Accumulator

def debugVersion : Option Nat -> String
  | none => "None"
  | some version => "Some(" ++ toString version ++ ")"

def TransactionStatus.debug {status code : Type} [ToString status] [ToString code] :
    TransactionStatus status code -> String
  | discard code => "Discard(" ++ toString code ++ ")"
  | keep status => "Keep(" ++ toString status ++ ")"
  | retry => "Retry"

variable {address payload event writeSet status code hash : Type}

/-- The ledger has `count` versions from the first one on, and its info at each
of them is as described. -/
def Covers (infos : List (TransactionInfo status hash)) (firstVersion count : Nat)
    (described : Nat -> TransactionInfo status hash -> Prop) : Prop :=
  firstVersion + count ≤ infos.length ∧ forall i, i < count -> exists info,
      infos[firstVersion + i]? = some info ∧ described i info

theorem covers_iff {infos run : List (TransactionInfo status hash)} {firstVersion : Nat}
    {described : Nat -> TransactionInfo status hash -> Prop} (hne : run ≠ [])
    (hat : firstVersion < infos.length -> RunAt infos firstVersion run)
    (hrun : forall i info, run[i]? = some info -> described i info) :
    Covers infos firstVersion run.length described <-> firstVersion < infos.length := by
  constructor
  · intro hcov
    have hpos := List.length_pos_iff.mpr hne
    have hle := hcov.left
    omega
  · intro hfirst
    refine ⟨(hat hfirst).length_le hne, ?_⟩
    intro i hi
    have hinfo := List.getElem?_eq_getElem hi
    exact ⟨_, hat hfirst i _ hinfo, hrun i _ hinfo⟩

variable [DecidableEq hash] [ToString hash]
  (H : LedgerHasher address payload event writeSet status hash)

/-!
# Transactions
-/

structure TransactionListWithProof
    (address payload event status hash : Type) where
  transactions : List (Transaction address payload)
  events : Option (List (List event))
  firstTransactionVersion : Option Nat
  proof : TransactionInfoListWithProof status hash
deriving DecidableEq, Repr

namespace TransactionListWithProof

def checkTransactionHash (txnHash : hash) (txnInfo : TransactionInfo status hash) :
    Outcome AnyhowError Unit :=
  ensure (txnHash = txnInfo.transactionHash)
    ["The hash of transaction does not match the transaction info in proof. " ++
      "Transaction hash: " ++ toString txnHash ++
      ". Transaction hash in txn_info: " ++
      toString txnInfo.transactionHash ++ "."]

variable (self : TransactionListWithProof address payload event status hash)

def checkEvents : Outcome AnyhowError Unit :=
  match self.events with
  | none => .ok ()
  | some eventLists => do
    ensure (eventLists.length = self.transactions.length)
      ["The length of event_lists (" ++ toString eventLists.length ++
        ") does not match the number of transactions (" ++
        toString self.transactions.length ++ ")."]
    checkZipEq (verifyEventsAgainstRootHash H) eventLists self.proof.transactionInfos

def verify (self : TransactionListWithProof address payload event status hash)
    (ledgerInfo : LedgerInfo hash) (firstTransactionVersion : Option Nat) :
    Outcome AnyhowError Unit := do
  ensure (self.firstTransactionVersion = firstTransactionVersion)
    ["First transaction version (" ++ debugVersion self.firstTransactionVersion ++
      ") doesn't match given version (" ++
      debugVersion firstTransactionVersion ++ ")."]
  ensure (self.proof.transactionInfos.length = self.transactions.length)
    ["The number of TransactionInfo objects (" ++ toString self.proof.transactionInfos.length ++
      ") does not match the number of transactions (" ++
      toString self.transactions.length ++ ")."]
  let transactionHashes := self.transactions.map H.transaction
  checkZipEq checkTransactionHash transactionHashes self.proof.transactionInfos
  self.proof.verify H ledgerInfo self.firstTransactionVersion
  self.checkEvents H

/-- The entry at an index holds what an info commits to. -/
def Describes (i : Nat) (info : TransactionInfo status hash) : Prop :=
  (exists txn, self.transactions[i]? = some txn ∧
      Committed H.transaction info.transactionHash txn) ∧
    forall eventLists, self.events = some eventLists ->
      exists events, eventLists[i]? = some events ∧
        Committed (eventRoot H) info.eventRootHash events

variable {self : TransactionListWithProof address payload event status hash}

theorem describes_of_checks (hsep : H.IsSeparated) (htxns : checkZipEq checkTransactionHash
      (self.transactions.map H.transaction) self.proof.transactionInfos = .ok ())
    (hevs : self.checkEvents H = .ok ()) {i : Nat} {info}
    (hinfo : self.proof.transactionInfos[i]? = some info) : self.Describes H i info := by
  constructor
  · rcases checkZipEq_eq_ok htxns hinfo with ⟨_, hhash, hcheck⟩
    rw [List.getElem?_map] at hhash
    rcases Option.map_eq_some_iff.mp hhash with ⟨txn, htxn, rfl⟩
    exact ⟨txn, htxn, committed_of_injective hsep.transaction (ensure_eq_ok_iff.mp hcheck)⟩
  · intro _ hlists
    rw [checkEvents, hlists] at hevs
    rcases of_bind hevs with ⟨_, _, hzip⟩
    rcases checkZipEq_eq_ok hzip hinfo with ⟨events, hat, hcheck⟩
    exact ⟨events, hat, committed_of_verifyEvents H hsep hcheck⟩

theorem verify_eq_ok_list (hsep : H.IsSeparated) {ledgerInfo} {firstVersion}
    (h : self.verify H ledgerInfo firstVersion = .ok ()) :
    self.proof.transactionInfos.length = self.transactions.length ∧
      self.proof.verify H ledgerInfo firstVersion = .ok () ∧
      forall i info, self.proof.transactionInfos[i]? = some info -> self.Describes H i info := by
  rcases of_bind h with ⟨_, hver, h⟩
  rcases of_bind h with ⟨_, hlen, h⟩
  rcases of_bind h with ⟨_, htxns, h⟩
  rcases of_bind h with ⟨_, hproof, hevs⟩
  rw [ensure_eq_ok_iff.mp hver] at hproof
  refine ⟨ensure_eq_ok_iff.mp hlen, hproof, ?_⟩
  intro _ _ hinfo
  exact describes_of_checks H hsep htxns hevs hinfo

end TransactionListWithProof

/-!
# Outputs
-/

structure TransactionOutputListWithProof
    (address payload event writeSet status code hash : Type) where
  transactionsAndOutputs : List (Transaction address payload ×
    TransactionOutput event writeSet status code)
  firstTransactionOutputVersion : Option Nat
  proof : TransactionInfoListWithProof status hash
deriving DecidableEq, Repr

namespace TransactionOutputListWithProof

variable [DecidableEq status] [DecidableEq code] [ToString status] [ToString code]

def checkOutput (entry : Transaction address payload × TransactionOutput event writeSet status code)
    (txnInfo : TransactionInfo status hash) : Outcome AnyhowError Unit := do
  let txnOutput := entry.snd
  verifyEventsAgainstRootHash H txnOutput.events txnInfo
  let writeSetHash := H.writeSet txnOutput.writeSet
  ensure (txnInfo.stateChangeHash = writeSetHash)
    ["The write set in transaction output does not match the transaction " ++
      "info in proof. Hash of write set in transaction output: " ++
      toString writeSetHash ++ ". Write set hash in txn_info: " ++
      toString txnInfo.stateChangeHash ++ "."]
  ensure (txnOutput.gasUsed = txnInfo.gasUsed)
    ["The gas used in transaction output does not match the transaction " ++
      "info in proof. Gas used in transaction output: " ++
      toString txnOutput.gasUsed ++ ". Gas used in txn_info: " ++
      toString txnInfo.gasUsed ++ "."]
  ensure (txnOutput.status = .keep txnInfo.status)
    ["The execution status of transaction output does not match the " ++
      "transaction info in proof. Status in transaction output: " ++
      txnOutput.status.debug ++ ". Status in txn_info: " ++
      toString txnInfo.status ++ "."]
  let txnHash := H.transaction entry.fst
  ensure (txnHash = txnInfo.transactionHash)
    ["The transaction hash does not match the hash in transaction info. " ++
      "Transaction hash: " ++ toString txnHash ++
      ". Transaction hash in txn_info: " ++
      toString txnInfo.transactionHash ++ "."]

def verify (self : TransactionOutputListWithProof address payload event writeSet status code hash)
    (ledgerInfo : LedgerInfo hash) (firstTransactionOutputVersion : Option Nat) :
    Outcome AnyhowError Unit := do
  ensure (self.firstTransactionOutputVersion = firstTransactionOutputVersion)
    ["First transaction and output version (" ++ debugVersion self.firstTransactionOutputVersion ++
      ") doesn't match given version (" ++
      debugVersion firstTransactionOutputVersion ++ ")."]
  ensure (self.proof.transactionInfos.length = self.transactionsAndOutputs.length)
    ["The number of TransactionInfo objects (" ++ toString self.proof.transactionInfos.length ++
      ") does not match the number of transactions and outputs (" ++
      toString self.transactionsAndOutputs.length ++ ")."]
  checkZipEq (checkOutput H) self.transactionsAndOutputs self.proof.transactionInfos
  self.proof.verify H ledgerInfo self.firstTransactionOutputVersion

structure Agrees (entry : Transaction address payload ×
      TransactionOutput event writeSet status code)
    (info : TransactionInfo status hash) : Prop where
  transaction : Committed H.transaction info.transactionHash entry.fst
  events : Committed (eventRoot H) info.eventRootHash entry.snd.events
  writeSet : Committed H.writeSet info.stateChangeHash entry.snd.writeSet
  gasUsed : entry.snd.gasUsed = info.gasUsed
  status : entry.snd.status = .keep info.status

/-- The entry at an index holds what an info commits to. -/
def Describes
    (self : TransactionOutputListWithProof address payload event writeSet status code hash)
    (i : Nat)
    (info : TransactionInfo status hash) : Prop :=
  exists entry, self.transactionsAndOutputs[i]? = some entry ∧ Agrees H entry info

theorem agrees_of_checkOutput (hsep : H.IsSeparated)
    {entry : Transaction address payload × TransactionOutput event writeSet status code}
    {info : TransactionInfo status hash} (h : checkOutput H entry info = .ok ()) :
    Agrees H entry info := by
  rcases of_bind h with ⟨_, hevs, h⟩
  rcases of_bind h with ⟨_, hwriteSet, h⟩
  rcases of_bind h with ⟨_, hgas, h⟩
  rcases of_bind h with ⟨_, hst, htransaction⟩
  exact
    { transaction := committed_of_injective hsep.transaction
        (ensure_eq_ok_iff.mp htransaction)
      events := committed_of_verifyEvents H hsep hevs
      writeSet := committed_of_injective hsep.writeSet (ensure_eq_ok_iff.mp hwriteSet).symm
      gasUsed := ensure_eq_ok_iff.mp hgas
      status := ensure_eq_ok_iff.mp hst }

theorem verify_eq_ok_outputs (hsep : H.IsSeparated)
    {self : TransactionOutputListWithProof address payload event writeSet status code hash}
    {ledgerInfo : LedgerInfo hash} {firstVersion : Option Nat}
    (h : self.verify H ledgerInfo firstVersion = .ok ()) :
    self.proof.transactionInfos.length = self.transactionsAndOutputs.length ∧
      self.proof.verify H ledgerInfo firstVersion = .ok () ∧
      forall i info, self.proof.transactionInfos[i]? = some info -> self.Describes H i info := by
  rcases of_bind h with ⟨_, hver, h⟩
  rcases of_bind h with ⟨_, hlen, h⟩
  rcases of_bind h with ⟨_, hents, hproof⟩
  rw [ensure_eq_ok_iff.mp hver] at hproof
  refine ⟨ensure_eq_ok_iff.mp hlen, hproof, ?_⟩
  intro _ _ hinfo
  rcases checkZipEq_eq_ok hents hinfo with ⟨entry, hat, hcheck⟩
  exact ⟨entry, hat, agrees_of_checkOutput H hsep hcheck⟩

end TransactionOutputListWithProof

section

variable [DecidableEq status] [DecidableEq code] [ToString status] [ToString code]

theorem listVerify_sound_iff (hsep : H.IsSeparated) {ledgerInfo : LedgerInfo hash}
    {infos : List (TransactionInfo status hash)} (hcommits : Commits H ledgerInfo infos)
    (hbound : infos.length ≤ maxAccumulatorLeaves) (firstVersion : Nat) :
    (forall self : TransactionListWithProof address payload event status hash,
        self.verify H ledgerInfo (some firstVersion) = Outcome.ok () ->
        (Covers infos firstVersion self.transactions.length (self.Describes H) <->
          firstVersion < infos.length)) ∧
      forall self : TransactionOutputListWithProof address payload event writeSet status code hash,
        self.verify H ledgerInfo (some firstVersion) = Outcome.ok () ->
        (Covers infos firstVersion self.transactionsAndOutputs.length (self.Describes H) <->
          firstVersion < infos.length) := by
  constructor
  · intro self h
    rcases TransactionListWithProof.verify_eq_ok_list H hsep h with ⟨hlength, hproof, hrun⟩
    rcases TransactionInfoListWithProof.runAt_of_verify_infos H hsep hcommits
      hbound hproof with ⟨hne, hat⟩
    rw [← hlength]
    exact covers_iff hne hat hrun
  · intro _ h
    rcases TransactionOutputListWithProof.verify_eq_ok_outputs H hsep h with ⟨hlength, hproof, hrun⟩
    rcases TransactionInfoListWithProof.runAt_of_verify_infos H hsep hcommits
      hbound hproof with ⟨hne, hat⟩
    rw [← hlength]
    exact covers_iff hne hat hrun

end

/-!
# Free hashes
-/

variable (firstVersion : Nat) (proof : TransactionInfoListWithProof Nat FreeLedgerHash)
  (numbers : List Nat)

def freeTransactionList :
    TransactionListWithProof Nat Nat Nat Nat FreeLedgerHash where
  transactions := numbers.map freeTransaction
  events := some (numbers.map (fun _ => [1, 2]))
  firstTransactionVersion := some firstVersion
  proof := proof

def freeOutputList :
    TransactionOutputListWithProof Nat Nat Nat Nat Nat Nat
      FreeLedgerHash where
  transactionsAndOutputs := numbers.map (fun n => (freeTransaction n,
    { writeSet := n
      events := [1, 2]
      gasUsed := 5
      status := .keep 0 }))
  firstTransactionOutputVersion := some firstVersion
  proof := proof

theorem listVerify_sound_iff_four : Covers (freeInfos 4) 1 3
      ((freeTransactionList 1 freeInfoList [1, 2, 3]).Describes freeLedgerHasher) ∧
    Covers (freeInfos 4) 1 3 ((freeOutputList 1 freeInfoList [1, 2, 3]).Describes
        freeLedgerHasher) := by
  have hsound := @listVerify_sound_iff Nat Nat Nat Nat Nat Nat FreeLedgerHash
    _ _ freeLedgerHasher _ _ _ _ freeLedgerHasher_isSeparated
    (freeLedgerInfo 4) (freeInfos 4) (freeLedgerInfo_commits (by decide))
    (by decide) 1
  constructor
  · exact (hsound.left (freeTransactionList 1 freeInfoList [1, 2, 3])
      (by decide +kernel)).mpr (by decide)
  · exact (hsound.right (freeOutputList 1 freeInfoList [1, 2, 3])
      (by decide +kernel)).mpr (by decide)

def freeWholeLedger : TransactionInfoListWithProof Nat FreeLedgerHash where
  ledgerInfoToTransactionInfosProof :=
    { leftSiblings := []
      rightSiblings := [] }
  transactionInfos := [freeInfo 0, freeInfo 1]

/-- A ledger of two transactions, accepted as the versions `2` and `3`. -/
theorem listVerify_beyond_ledger : Commits freeLedgerHasher (freeLedgerInfo 2) (freeInfos 2) ∧
    ((freeTransactionList 2 freeWholeLedger [0, 1]).verify freeLedgerHasher
        (freeLedgerInfo 2) (some 2) = Outcome.ok () ∧
      ¬ Covers (freeInfos 2) 2 2 ((freeTransactionList 2 freeWholeLedger [0, 1]).Describes
          freeLedgerHasher)) ∧
    (freeOutputList 2 freeWholeLedger [0, 1]).verify freeLedgerHasher
        (freeLedgerInfo 2) (some 2) = Outcome.ok () ∧
      ¬ Covers (freeInfos 2) 2 2 ((freeOutputList 2 freeWholeLedger [0, 1]).Describes
          freeLedgerHasher) := by
  have hlength : ¬ 2 + 2 ≤ (freeInfos 2).length := by decide
  refine ⟨freeLedgerInfo_commits (by decide), ⟨by decide +kernel, ?_⟩,
    by decide +kernel, ?_⟩
  · intro hcovers
    exact hlength hcovers.left
  · intro hcovers
    exact hlength hcovers.left

end OpenLibra.Ledger
