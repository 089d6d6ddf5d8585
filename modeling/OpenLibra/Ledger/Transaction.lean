import OpenLibra.Crypto.HashValue
import OpenLibra.Accumulator.Proof

/-!
# Transactions and their infos

The ledger is a list of transaction infos, which hold hashes that are assumed injective and
separated.
-/

namespace OpenLibra.Ledger

open Rust Merkle Crypto Accumulator List

/-!
# Data
-/

structure SignedTransaction (address payload : Type) where
  sender : address
  sequenceNumber : Nat
  rest : payload
deriving DecidableEq, Repr

inductive Transaction (address payload : Type) where
  | userTransaction (txn : SignedTransaction address payload)
  | genesisTransaction (writeSetPayload : payload)
  | blockMetadata (metadata : payload)
  | stateCheckpoint (blockId : HashValue)
deriving DecidableEq, Repr

/-- `Transaction::as_signed_user_txn`. -/
def Transaction.asSignedUserTxn {address payload : Type} (self : Transaction address payload) :
    Outcome AnyhowError (SignedTransaction address payload) :=
  match self with
  | userTransaction txn => .ok txn
  | genesisTransaction _ => .err ["Not a user transaction."]
  | blockMetadata _ => .err ["Not a user transaction."]
  | stateCheckpoint _ => .err ["Not a user transaction."]

theorem Transaction.eq_userTransaction {address payload : Type} {self : Transaction address payload}
    {txn : SignedTransaction address payload} (h : self.asSignedUserTxn = .ok txn) :
    self = .userTransaction txn := by
  cases self with
  | userTransaction =>
    cases h
    rfl
  | genesisTransaction | blockMetadata | stateCheckpoint => cases h

structure TransactionInfo (status hash : Type) where
  gasUsed : Nat
  status : status
  transactionHash : hash
  eventRootHash : hash
  stateChangeHash : hash
  stateCheckpointHash : Option hash
  stateCemeteryHash : Option hash
deriving DecidableEq, Repr

inductive TransactionStatus (status code : Type) where
  | discard (code : code)
  | keep (status : status)
  | retry
deriving DecidableEq, Repr

structure TransactionOutput (event writeSet status code : Type) where
  writeSet : writeSet
  events : List event
  gasUsed : Nat
  status : TransactionStatus status code
deriving DecidableEq, Repr

/-!
# Hashes
-/

structure LedgerHasher (address payload event writeSet status hash : Type)
    where
  transaction : Transaction address payload -> hash
  transactionInfo : TransactionInfo status hash -> hash
  event : event -> hash
  writeSet : writeSet -> hash
  transactionTree : TreeHasher hash
  eventTree : TreeHasher hash

section

variable {address payload event writeSet status hash : Type}

/-- Hash functions are injective, and in both accumulators leaves, nodes and
the placeholder have different hashes. -/
structure LedgerHasher.IsSeparated
    (H : LedgerHasher address payload event writeSet status hash) : Prop where
  transaction : Function.Injective H.transaction
  transactionInfo : Function.Injective H.transactionInfo
  event : Function.Injective H.event
  writeSet : Function.Injective H.writeSet
  transactionTree : Separated H.transactionTree.internalNode
    H.transactionTree.placeholder (· ∈ Set.range H.transactionInfo)
  eventTree : Separated H.eventTree.internalNode H.eventTree.placeholder (· ∈ Set.range H.event)

variable (H : LedgerHasher address payload event writeSet status hash)

def eventRoot (events : List event) : hash :=
  levelRoot H.eventTree.internalNode H.eventTree.placeholder (events.map H.event)

def Committed {value : Type} (digest : value -> hash) (h : hash) (x : value) : Prop :=
  forall y, digest y = h <-> y = x

variable {value : Type}

theorem committed_of_injective {digest} (hinj : Function.Injective digest) {h : hash} {x : value}
    (hx : digest x = h) : Committed digest h x := by
  intro _
  rw [← hx]
  exact hinj.eq_iff

theorem mem_range_of_mem_map {digest : value -> hash}
    {values : List value} (h : hash) (hmem : h ∈ values.map digest) : h ∈ Set.range digest := by
  rcases mem_map.mp hmem with ⟨x, _, hx⟩
  exact ⟨x, hx⟩

theorem eventRoot_injective (hsep : H.IsSeparated) : Function.Injective (eventRoot H) := by
  intro _ _ h
  apply map_injective_iff.mpr hsep.event
  exact levelRoot_injective hsep.eventTree mem_range_of_mem_map mem_range_of_mem_map h

/-!
# Events of a transaction info
-/

/-- `InMemoryAccumulator::<EventAccumulatorHasher>::from_leaves` over the hashes
of some events, and its root hash. -/
def eventRootHash (events : List event) : Outcome AnyhowError hash := do
  let eventHashes := events.map H.event
  let accumulator <- InMemoryAccumulator.fromLeaves H.eventTree eventHashes
  return accumulator.rootHash

variable {events : List event}

theorem eventRootHash_eq_ok {root : hash} (h : eventRootHash H events = .ok root) :
    eventRoot H events = root := by
  rcases of_bind h with ⟨_, hlvs, h⟩
  cases h
  rw [InMemoryAccumulator.eq_ofList_of_fromLeaves H.eventTree hlvs]
  rfl

variable [DecidableEq hash] [ToString hash]

def verifyEventsAgainstRootHash (events : List event)
    (transactionInfo : TransactionInfo status hash) :
    Outcome AnyhowError Unit := do
  let eventRootHash <- eventRootHash H events
  ensure (eventRootHash = transactionInfo.eventRootHash)
    ["The event root hash calculated doesn't match that carried on the " ++
      "transaction info! Calculated hash " ++ toString eventRootHash ++
      ", transaction info hash " ++ toString transactionInfo.eventRootHash]

variable {info : TransactionInfo status hash}

theorem eventRoot_of_verifyEvents (h : verifyEventsAgainstRootHash H events info = .ok ()) :
    eventRoot H events = info.eventRootHash := by
  rcases of_bind h with ⟨_, hroot, h⟩
  rw [eventRootHash_eq_ok H hroot]
  exact ensure_eq_ok_iff.mp h

theorem committed_of_verifyEvents (hsep : H.IsSeparated)
    (h : verifyEventsAgainstRootHash H events info = .ok ()) :
    Committed (eventRoot H) info.eventRootHash events :=
  committed_of_injective (eventRoot_injective H hsep) (eventRoot_of_verifyEvents H h)

/-- Equal root hashes of two accumulators mean equal lists of leaves, whatever
their lengths; so at most one list of events is accepted for an info. -/
theorem rootHash_binding {tree : TreeHasher hash} {leaf : hash -> Prop}
    (htree : Separated tree.internalNode tree.placeholder leaf) (hsep : H.IsSeparated) :
    (forall (xs ys : List hash) (left right : InMemoryAccumulator hash),
        (forall x, x ∈ xs -> leaf x) -> (forall y, y ∈ ys -> leaf y) ->
        InMemoryAccumulator.fromLeaves tree xs = Outcome.ok left ->
        InMemoryAccumulator.fromLeaves tree ys = Outcome.ok right ->
        left.rootHash = right.rootHash -> xs = ys) ∧
      forall (info : TransactionInfo status hash) (events others : List event),
        verifyEventsAgainstRootHash H events info = Outcome.ok () ->
        verifyEventsAgainstRootHash H others info = Outcome.ok () ->
        events = others := by
  constructor
  · intro _ _ _ _ hxs hys hleft hright hroot
    rw [InMemoryAccumulator.eq_ofList_of_fromLeaves tree hleft,
      InMemoryAccumulator.eq_ofList_of_fromLeaves tree hright] at hroot
    exact levelRoot_injective htree hxs hys hroot
  · intro _ _ _ hevents hothers
    apply eventRoot_injective H hsep
    rw [eventRoot_of_verifyEvents H hevents, eventRoot_of_verifyEvents H hothers]

end

/-!
# Free hashes
-/

inductive FreeLedgerHash where
  | transaction (txn : Transaction Nat Nat)
  | event (n : Nat)
  | writeSet (n : Nat)
  | absent
  | present (hash : FreeLedgerHash)
  | info (gasUsed status : Nat) (transactionHash eventRootHash
      stateChangeHash stateCheckpointHash stateCemeteryHash : FreeLedgerHash)
  | placeholder
  | node (left right : FreeLedgerHash)
deriving DecidableEq, Repr

instance : ToString FreeLedgerHash := ⟨fun hash => toString (repr hash)⟩

def FreeLedgerHash.ofOption : Option FreeLedgerHash -> FreeLedgerHash
  | none => absent
  | some hash => present hash

theorem FreeLedgerHash.ofOption_injective : Function.Injective FreeLedgerHash.ofOption := by
  intro left right h
  cases left with
  | none =>
    cases right with
    | none => rfl
    | some => cases h
  | some =>
    cases right with
    | none => cases h
    | some =>
      cases h
      rfl

def freeTree : TreeHasher FreeLedgerHash where
  internalNode := .node
  placeholder := .placeholder

def freeLedgerHasher : LedgerHasher Nat Nat Nat Nat Nat FreeLedgerHash where
  transaction := .transaction
  transactionInfo := fun info =>
    .info info.gasUsed info.status info.transactionHash info.eventRootHash info.stateChangeHash
      (FreeLedgerHash.ofOption info.stateCheckpointHash)
      (FreeLedgerHash.ofOption info.stateCemeteryHash)
  event := .event
  writeSet := .writeSet
  transactionTree := freeTree
  eventTree := freeTree

theorem freeTree_separated {leaf} (hfiller : forall x, leaf x -> x ≠ .placeholder)
    (hnode : forall x a b, leaf x -> x ≠ .node a b) :
    Separated freeTree.internalNode freeTree.placeholder leaf where
  injective := by
    intro _ _ _ _ h
    exact FreeLedgerHash.node.inj h
  node_ne_filler := by
    intro _ _ h
    cases h
  leaf_ne_filler := hfiller
  leaf_ne_node := hnode

theorem freeLedgerHasher_isSeparated : freeLedgerHasher.IsSeparated where
  transaction := by
    intro _ _ h
    exact FreeLedgerHash.transaction.inj h
  transactionInfo := by
    rintro ⟨_, _, _, _, _, _, _⟩ ⟨_, _, _, _, _, _, _⟩ h
    rcases FreeLedgerHash.info.inj h with ⟨rfl, rfl, rfl, rfl, rfl, hcheckpoint, hcemetery⟩
    cases FreeLedgerHash.ofOption_injective hcheckpoint
    cases FreeLedgerHash.ofOption_injective hcemetery
    rfl
  event := by
    intro _ _ h
    exact FreeLedgerHash.event.inj h
  writeSet := by
    intro _ _ h
    exact FreeLedgerHash.writeSet.inj h
  transactionTree := by
    apply freeTree_separated
    · rintro _ ⟨_, rfl⟩ h
      cases h
    · rintro _ _ _ ⟨_, rfl⟩ h
      cases h
  eventTree := by
    apply freeTree_separated
    · rintro _ ⟨_, rfl⟩ h
      cases h
    · rintro _ _ _ ⟨_, rfl⟩ h
      cases h

/-- The transaction number `n` of the account `0`. -/
def freeTransaction (n : Nat) : Transaction Nat Nat :=
  .userTransaction
    { sender := 0
      sequenceNumber := n
      rest := 0 }

def freeInfo (n : Nat) : TransactionInfo Nat FreeLedgerHash where
  gasUsed := 5
  status := 0
  transactionHash := .transaction (freeTransaction n)
  eventRootHash := .node (.event 1) (.event 2)
  stateChangeHash := .writeSet n
  stateCheckpointHash := none
  stateCemeteryHash := none

theorem rootHash_binding_freeInfo :
    verifyEventsAgainstRootHash freeLedgerHasher [1, 2] (freeInfo 0) = Outcome.ok () ∧
      forall others, verifyEventsAgainstRootHash freeLedgerHasher others
        (freeInfo 0) = Outcome.ok () -> [1, 2] = others := by
  have hverify : verifyEventsAgainstRootHash freeLedgerHasher [1, 2]
    (freeInfo 0) = .ok () := by
    decide +kernel
  refine ⟨hverify, ?_⟩
  intro others hothers
  exact (rootHash_binding freeLedgerHasher freeLedgerHasher_isSeparated.eventTree
    freeLedgerHasher_isSeparated).right (freeInfo 0) [1, 2] others hverify
    hothers

end OpenLibra.Ledger
