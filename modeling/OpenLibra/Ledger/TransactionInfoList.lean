import OpenLibra.Accumulator.RangeProof
import OpenLibra.Ledger.Transaction

/-!
# Lists of transaction infos

The left siblings of the range proof serve twice: on the way up, and reversed as the frozen
roots of the ledger before the list.
-/

namespace OpenLibra.Ledger

open Rust Merkle Accumulator List

structure TransactionInfoListWithProof (status hash : Type) where
  ledgerInfoToTransactionInfosProof : AccumulatorRangeProof hash
  transactionInfos : List (TransactionInfo status hash)
deriving DecidableEq, Repr

variable {address payload event writeSet status hash : Type} [dh : DecidableEq hash]
  [th : ToString hash] (H : LedgerHasher address payload event writeSet status hash)

/-!
# The committed ledger
-/

structure Commits (ledgerInfo : LedgerInfo hash)
    (infos : List (TransactionInfo status hash)) : Prop where
  version : infos.length = ledgerInfo.version + 1
  accumulator : exists accumulator : InMemoryAccumulator hash,
    InMemoryAccumulator.fromLeaves H.transactionTree
      (infos.map H.transactionInfo) = .ok accumulator ∧
    ledgerInfo.transactionAccumulatorHash = accumulator.rootHash

omit dh th in
theorem Commits.root_eq {ledgerInfo} {infos} (h : Commits H ledgerInfo infos) :
    ledgerInfo.transactionAccumulatorHash =
      levelRoot H.transactionTree.internalNode H.transactionTree.placeholder
        (infos.map H.transactionInfo) := by
  rcases h.accumulator with ⟨_, hlvs, hroot⟩
  rw [hroot, InMemoryAccumulator.eq_ofList_of_fromLeaves H.transactionTree hlvs]
  rfl

variable {value : Type}

omit dh th in
theorem getElem?_of_map {digest : value -> hash} (hinj : Function.Injective digest)
    {values : List value} {i : Nat} {x : value} (h : (values.map digest)[i]? = some (digest x)) :
    values[i]? = some x := by
  rw [List.getElem?_map] at h
  rcases Option.map_eq_some_iff.mp h with ⟨_, hy, hxy⟩
  rw [hy, hinj hxy]

omit dh th in
theorem runAt_of_map {digest : value -> hash} (hinj : Function.Injective digest)
    {values run : List value} {first : Nat} (h : RunAt (values.map digest) first (run.map digest)) :
    RunAt values first run := by
  intro _ _ hx
  apply getElem?_of_map hinj
  apply h
  rw [List.getElem?_map, hx]
  rfl

namespace TransactionInfoListWithProof

variable (self : TransactionInfoListWithProof status hash)

def txnInfoHashes : List hash :=
  self.transactionInfos.map H.transactionInfo

def verify (self : TransactionInfoListWithProof status hash) (ledgerInfo : LedgerInfo hash)
    (firstTransactionInfoVersion : Option Nat) : Outcome AnyhowError Unit :=
  self.ledgerInfoToTransactionInfosProof.verify H.transactionTree
    ledgerInfo.transactionAccumulatorHash firstTransactionInfoVersion
    (self.txnInfoHashes H)

def verifyExtendsLedger (numTxnsInLedger : Nat)
    (rootHash : hash) (firstTransactionInfoVersion : Option Nat) : Outcome AnyhowError Nat :=
  match firstTransactionInfoVersion with
  | some firstVersion => do
    ensure (firstVersion ≤ numTxnsInLedger) ["Transaction list too new. Expected version: " ++
        toString numTxnsInLedger ++ ". First transaction version: " ++
        toString firstVersion ++ "."]
    let numOverlapTxns <- u64Sub numTxnsInLedger firstVersion
    if self.transactionInfos.length < numOverlapTxns then
      return self.transactionInfos.length
    else
      let overlapTxnInfos := self.transactionInfos.take numOverlapTxns
      let frozenSubtreeRootsFromProof := self.ledgerInfoToTransactionInfosProof.leftSiblings.reverse
      let accuBefore <- InMemoryAccumulator.new H.transactionTree
        frozenSubtreeRootsFromProof firstVersion
      let accuFromProof <- accuBefore.append H.transactionTree
        (overlapTxnInfos.map H.transactionInfo)
      ensure (accuFromProof.rootHash = rootHash)
        ["Fork happens because the current synced_trees doesn't match the " ++ "txn list provided."]
      return numOverlapTxns
  | none => do
    ensure self.transactionInfos.isEmpty ["Condition failed: `self.transaction_infos.is_empty()`"]
    return 0

variable {self : TransactionInfoListWithProof status hash} {firstVersion : Nat}

theorem runAt_of_verify_infos (hsep : H.IsSeparated) {ledgerInfo : LedgerInfo hash}
    {infos : List (TransactionInfo status hash)} (hcommits : Commits H ledgerInfo infos)
    (hbound : infos.length ≤ maxAccumulatorLeaves)
    (h : self.verify H ledgerInfo (some firstVersion) = .ok ()) :
    self.transactionInfos ≠ [] ∧ (firstVersion < infos.length ->
        RunAt infos firstVersion self.transactionInfos) := by
  unfold verify at h
  rw [hcommits.root_eq] at h
  rcases AccumulatorRangeProof.runAt_of_verify H.transactionTree
    hsep.transactionTree mem_range_of_mem_map mem_range_of_mem_map h with
    ⟨hne, n, hlen, hat⟩
  rw [length_map] at hlen
  constructor
  · intro hnil
    apply hne
    rw [hnil]
    rfl
  · intro hfirst
    rw [Nat.mod_eq_of_lt (show firstVersion < maxAccumulatorLeaves by omega),
      Nat.mod_eq_of_lt (by omega)] at hat
    exact runAt_of_map hsep.transactionInfo hat

omit th in
theorem verifyExtendsLedger_eq_ok {numTxnsInLedger : Nat} {rootHash : hash}
    (h : self.verifyExtendsLedger H numTxnsInLedger rootHash (some firstVersion) = .ok
      (numTxnsInLedger - firstVersion)) :
    firstVersion ≤ numTxnsInLedger ∧ numTxnsInLedger - firstVersion ≤ self.transactionInfos.length ∧
      exists before after : InMemoryAccumulator hash, InMemoryAccumulator.new H.transactionTree
          self.ledgerInfoToTransactionInfosProof.leftSiblings.reverse firstVersion = .ok before ∧
        before.append H.transactionTree ((self.txnInfoHashes H).take
          (numTxnsInLedger - firstVersion)) = .ok after ∧ after.rootHash = rootHash := by
  unfold verifyExtendsLedger at h
  dsimp only at h
  rcases of_bind h with ⟨_, hensure, h⟩
  have hle := ensure_eq_ok_iff.mp hensure
  rw [u64Sub_eq_ok hle, ok_bind] at h
  split at h
  · next hlt =>
      have hlen : self.transactionInfos.length = numTxnsInLedger - firstVersion := Outcome.ok.inj h
      omega
  · next hge =>
      rcases of_bind h with ⟨before, hnew, h⟩
      rcases of_bind h with ⟨after, happ, h⟩
      rcases of_bind h with ⟨_, hroot, _⟩
      rw [map_take] at happ
      exact ⟨hle, by omega, before, after, hnew, happ,
        ensure_eq_ok_iff.mp hroot⟩

variable {hashes zs : List hash} {first n : Nat}

omit dh th in
theorem frozenRoots_of_climbs (hsep : H.IsSeparated)
    (hzs : forall z, z ∈ zs -> z ∈ Set.range H.transactionInfo) {left right}
    (hclimb : Climbs H.transactionTree.internalNode H.transactionTree.placeholder n first hashes
      left right (levelRoot H.transactionTree.internalNode H.transactionTree.placeholder zs))
    (hne : hashes ≠ []) (hhashes : forall h, h ∈ hashes -> h ∈ Set.range H.transactionInfo)
    (hleft : left.length = countOnes first) : RunAt zs first hashes ∧
      left.reverse = InMemoryAccumulator.frozenRoots H.transactionTree (zs.take first) := by
  have htree := hsep.transactionTree
  have hfirst := hclimb.lt_of_length_left hleft
  rcases hclimb.of_root htree hzs hne hhashes with ⟨_, hat, hlevel⟩
  rw [Nat.mod_eq_of_lt hfirst] at hat
  have hlen := hat.length_le hne
  have hfiller : forall h, h ∈ hashes -> h ≠ H.transactionTree.placeholder := by
    intro h hmem
    exact htree.leaf_ne_filler h (hhashes h hmem)
  have hstack := @Climbs.left_eq _ _ _ _ htree zs hzs _ _ _ _ _ _ hclimb hne
    hfiller hfirst 0 (by rw [zero_add, hlevel]; rfl)
  refine ⟨hat, ?_⟩
  rw [hstack, InMemoryAccumulator.frozenRoots, length_take, min_eq_left (by omega)]
  rfl

omit dh th in
theorem ofList_of_overlap (hat : RunAt zs first hashes) (hne : hashes ≠ []) (hlow : first ≤ n)
    (hhigh : n - first ≤ hashes.length) (hbound : n < u64Bound) {before after}
    (hnew : InMemoryAccumulator.new H.transactionTree (InMemoryAccumulator.frozenRoots
      H.transactionTree (zs.take first)) first = .ok before)
    (happ : before.append H.transactionTree (hashes.take (n - first)) = .ok after) :
    after = InMemoryAccumulator.ofList H.transactionTree (zs.take n) := by
  have hlen := hat.length_le hne
  have htake : (zs.take first).length = first := by
    rw [length_take]
    omega
  have hbef := InMemoryAccumulator.new_frozenRoots H.transactionTree (zs.take first)
  rw [htake, hnew] at hbef
  have hafter := InMemoryAccumulator.append_ofList H.transactionTree
    (show (zs.take first).length + (hashes.take (n - first)).length < u64Bound by
        rw [htake, length_take]
        omega)
  rw [← Outcome.ok.inj hbef, happ, hat.take_append hlow hhigh] at hafter
  exact Outcome.ok.inj hafter

/-- When a list is proved against a ledger info and covers the local ledger
from its first version on, the local ledger is a prefix of the ledger proved,
and the list continues it. -/
theorem verifyExtendsLedger_sound (hsep : H.IsSeparated) {xs zs : List hash}
    (hxs : forall x, x ∈ xs -> x ∈ Set.range H.transactionInfo)
    (hzs : forall z, z ∈ zs -> z ∈ Set.range H.transactionInfo)
    (hbound : xs.length < maxAccumulatorLeaves) {ledger committed : InMemoryAccumulator hash}
    (hledger : InMemoryAccumulator.fromLeaves H.transactionTree xs = Outcome.ok ledger)
    (hcommitted : InMemoryAccumulator.fromLeaves H.transactionTree zs = Outcome.ok committed)
    {ledgerInfo : LedgerInfo hash}
    (hroot : ledgerInfo.transactionAccumulatorHash = committed.rootHash)
    {self : TransactionInfoListWithProof status hash} {firstVersion : Nat}
    (hverify : self.verify H ledgerInfo (some firstVersion) = Outcome.ok ())
    (hextends : self.verifyExtendsLedger H xs.length ledger.rootHash (some firstVersion) =
      Outcome.ok
      (xs.length - firstVersion)) :
    xs <+: zs ∧
      self.txnInfoHashes H = (zs.drop firstVersion).take self.transactionInfos.length := by
  rw [InMemoryAccumulator.eq_ofList_of_fromLeaves H.transactionTree hledger] at hextends
  rw [InMemoryAccumulator.eq_ofList_of_fromLeaves H.transactionTree hcommitted] at hroot
  unfold verify at hverify
  rw [hroot] at hverify
  rcases verifyExtendsLedger_eq_ok H hextends with
    ⟨hle, hoverlap, before, after, hnew, happend, hafter⟩
  rcases AccumulatorRangeProof.verify_eq_ok H.transactionTree hverify with ⟨hne, n, hclimb⟩
  rw [Nat.mod_eq_of_lt (show firstVersion < maxAccumulatorLeaves by omega)]
    at hclimb
  -- the number of left siblings rules out a first version beyond the tree
  have hleft := ((InMemoryAccumulator.new_eq_ok_iff _).mp hnew).left
  rw [List.length_reverse] at hleft
  rcases frozenRoots_of_climbs H hsep hzs hclimb hne mem_range_of_mem_map hleft with ⟨hat, hfrozen⟩
  have hhashes : (self.txnInfoHashes H).length = self.transactionInfos.length := List.length_map _
  rw [hfrozen] at hnew
  rw [ofList_of_overlap H hat hne hle (by omega)
    (lt_u64Bound_of_le (Nat.le_of_lt hbound)) hnew happend] at hafter
  have hprefix : zs.take xs.length = xs := by
    apply levelRoot_injective hsep.transactionTree _ hxs hafter
    intro z hz
    exact hzs z (List.mem_of_mem_take hz)
  constructor
  · rw [← hprefix]
    exact List.take_prefix _ _
  · rw [← hhashes]
    exact hat.take_drop.symm

end TransactionInfoListWithProof

/-!
# Free hashes
-/

def freeInfos (count : Nat) : List (TransactionInfo Nat FreeLedgerHash) :=
  (List.range count).map freeInfo

def freeInfoHashes (count : Nat) : List FreeLedgerHash :=
  (freeInfos count).map freeLedgerHasher.transactionInfo

/-- The infos from version `1` to version `3` of a ledger of four. -/
def freeInfoList : TransactionInfoListWithProof Nat FreeLedgerHash where
  ledgerInfoToTransactionInfosProof :=
    { leftSiblings := [freeLedgerHasher.transactionInfo (freeInfo 0)]
      rightSiblings := [] }
  transactionInfos := [freeInfo 1, freeInfo 2, freeInfo 3]

def freeLedgerInfo (count : Nat) : LedgerInfo FreeLedgerHash where
  version := count - 1
  transactionAccumulatorHash :=
    (InMemoryAccumulator.ofList freeTree (freeInfoHashes count)).rootHash

theorem freeLedgerInfo_commits {count : Nat} (hbound : count + 1 < u64Bound) :
    Commits freeLedgerHasher (freeLedgerInfo (count + 1)) (freeInfos (count + 1)) where
  version := by simp [freeInfos, freeLedgerInfo]
  accumulator := by
    refine ⟨InMemoryAccumulator.ofList freeTree (freeInfoHashes (count + 1)),
      InMemoryAccumulator.fromLeaves_eq_ofList freeTree ?_, rfl⟩
    simpa [freeInfoHashes, freeInfos] using hbound

theorem verifyExtendsLedger_sound_two_four :
    freeInfoList.verify freeLedgerHasher (freeLedgerInfo 4) (some 1) = Outcome.ok () ∧
      freeInfoHashes 2 <+: freeInfoHashes 4 ∧
      freeInfoList.txnInfoHashes freeLedgerHasher = ((freeInfoHashes 4).drop 1).take 3 := by
  have hverify : freeInfoList.verify freeLedgerHasher (freeLedgerInfo 4)
    (some 1) = .ok () := by
    decide +kernel
  have hextends : freeInfoList.verifyExtendsLedger freeLedgerHasher 2
    (InMemoryAccumulator.ofList freeTree (freeInfoHashes 2)).rootHash
    (some 1) = .ok 1 := by
    decide +kernel
  exact ⟨hverify, TransactionInfoListWithProof.verifyExtendsLedger_sound
    freeLedgerHasher freeLedgerHasher_isSeparated mem_range_of_mem_map
    mem_range_of_mem_map (by decide)
    (InMemoryAccumulator.fromLeaves_eq_ofList freeTree (by decide))
    (InMemoryAccumulator.fromLeaves_eq_ofList freeTree (by decide)) rfl
    hverify hextends⟩

end OpenLibra.Ledger
