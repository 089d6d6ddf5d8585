import OpenLibra.Accumulator.InMemory

/-!
# Accumulator summaries and consistency proofs

A consistency proof is an unauthenticated list of subtree roots; the extended summary must have
the target version and root hash.
-/

namespace OpenLibra.Accumulator

open Rust Merkle

structure LedgerInfo (hash : Type) where
  version : Nat
  transactionAccumulatorHash : hash
deriving DecidableEq, Repr

structure AccumulatorConsistencyProof (hash : Type) where
  subtrees : List hash
deriving DecidableEq, Repr

structure TransactionAccumulatorSummary (hash : Type) where
  accumulator : InMemoryAccumulator hash
deriving DecidableEq, Repr

/-- `anyhow::Context::context` on a result. -/
def withContext {value : Type} (message : String) :
    Outcome AnyhowError value -> Outcome AnyhowError value
  | .ok x => .ok x
  | .err messages => .err (message :: messages)
  | .panic => .panic

namespace TransactionAccumulatorSummary

variable {hash : Type} [dh : DecidableEq hash] [th : ToString hash] (H : TreeHasher hash)

def new (accumulator : InMemoryAccumulator hash) :
    Outcome AnyhowError (TransactionAccumulatorSummary hash) := do
  ensure (accumulator.numLeaves ≠ 0)
    ["empty accumulator: we can't verify consistency proofs from an empty " ++ "accumulator"]
  return ⟨accumulator⟩

def version (self : TransactionAccumulatorSummary hash) : Nat := self.accumulator.version

def rootHash (self : TransactionAccumulatorSummary hash) : hash := self.accumulator.rootHash

def verifyConsistency (self : TransactionAccumulatorSummary hash) (ledgerInfo : LedgerInfo hash) :
    Outcome AnyhowError Unit := do
  ensure (ledgerInfo.version = self.version)
    ["ledger info and accumulator must be at the same version: " ++
      "ledger info version=" ++ toString ledgerInfo.version ++
      ", accumulator version=" ++ toString self.version]
  ensure (ledgerInfo.transactionAccumulatorHash = self.rootHash)
    ["ledger info root hash and accumulator root hash must match: " ++ "ledger info root hash=" ++
      toString ledgerInfo.transactionAccumulatorHash ++
      ", accumulator root hash=" ++ toString self.rootHash]

def tryFromGenesisProof (genesisProof : AccumulatorConsistencyProof hash) (targetVersion : Nat) :
    Outcome AnyhowError (TransactionAccumulatorSummary hash) := do
  let numTxns := min (targetVersion + 1) (u64Bound - 1)
  let accumulator <- InMemoryAccumulator.new H genesisProof.subtrees numTxns
  return ⟨accumulator⟩

def tryExtendWithProof (self : TransactionAccumulatorSummary hash)
    (consistencyProof : AccumulatorConsistencyProof hash) (targetLi : LedgerInfo hash) :
    Outcome AnyhowError (TransactionAccumulatorSummary hash) := do
  ensure (self.version ≤ targetLi.version)
    ["target ledger info version (" ++ toString targetLi.version ++
      ") must be newer than our current accumulator summary version (" ++
      toString self.version ++ ")"]
  let numNewTxns <- u64Sub targetLi.version self.version
  let accumulator <-
    self.accumulator.appendSubtrees H consistencyProof.subtrees numNewTxns
  let newAccumulator : TransactionAccumulatorSummary hash := ⟨accumulator⟩
  withContext ("accumulator is not consistent with the target ledger info after " ++
      "applying consistency proof")
    (newAccumulator.verifyConsistency targetLi)
  return newAccumulator

def ofLeaves (leaves : List hash) :
    Outcome AnyhowError (TransactionAccumulatorSummary hash) := do
  let accumulator <- InMemoryAccumulator.fromLeaves H leaves
  new accumulator

variable {self result : TransactionAccumulatorSummary hash}
  {proof : AccumulatorConsistencyProof hash}

theorem verifyConsistency_eq_ok_iff {ledgerInfo} :
    self.verifyConsistency ledgerInfo = .ok () <-> ledgerInfo.version = self.version ∧
        ledgerInfo.transactionAccumulatorHash = self.rootHash := by
  unfold verifyConsistency
  constructor
  · intro h
    rcases of_bind h with ⟨_, hver, hroot⟩
    exact ⟨ensure_eq_ok_iff.mp hver, ensure_eq_ok_iff.mp hroot⟩
  · rintro ⟨hver, hroot⟩
    rw [ensure_eq_ok_iff.mpr hver, ok_bind]
    exact ensure_eq_ok_iff.mpr hroot

theorem tryExtendWithProof_eq_ok {targetLi}
    (h : self.tryExtendWithProof H proof targetLi = .ok result) :
    self.version ≤ targetLi.version ∧ self.accumulator.appendSubtrees H proof.subtrees
        (targetLi.version - self.version) = .ok result.accumulator ∧
      targetLi.version = result.version ∧
        targetLi.transactionAccumulatorHash = result.rootHash := by
  unfold tryExtendWithProof at h
  rcases of_bind h with ⟨_, hensure, h⟩
  have hle := ensure_eq_ok_iff.mp hensure
  rw [u64Sub_eq_ok hle, ok_bind] at h
  rcases of_bind h with ⟨_, happ, h⟩
  rcases of_bind h with ⟨_, hvfy, h⟩
  cases h
  refine ⟨hle, happ, ?_⟩
  unfold withContext at hvfy
  split at hvfy
  · next hcons => exact verifyConsistency_eq_ok_iff.mp hcons
  · cases hvfy
  · cases hvfy

omit dh th in
theorem ofLeaves_eq_ok_iff {leaves} (hne : leaves ≠ [])
    (hbound : leaves.length ≤ maxAccumulatorLeaves) :
    ofLeaves H leaves = .ok result <-> InMemoryAccumulator.fromLeaves H leaves =
        .ok result.accumulator := by
  unfold ofLeaves new
  constructor
  · intro h
    rcases of_bind h with ⟨_, hlvs, h⟩
    rcases of_bind h with ⟨_, _, h⟩
    cases h
    exact hlvs
  · intro h
    have hpos : result.accumulator.numLeaves ≠ 0 := by
      rw [((InMemoryAccumulator.fromLeaves_eq_ok_iff H (lt_u64Bound_of_le hbound)).mp h).right.left]
      exact fun hzero => hne (List.length_eq_zero_iff.mp hzero)
    rw [h, ok_bind, ensure_eq_ok_iff.mpr hpos]
    rfl

/-- With an injective node hash, whatever the proof holds, an accepted
extension of the summary of `xs` to the root of `zs` shows that `xs` is a
prefix of `zs` and yields exactly the summary of `zs`. -/
theorem tryExtendWithProof_sound (hnode : NodeInjective H.internalNode) {xs zs : List hash}
    (hxs : xs ≠ []) (hzs : zs ≠ []) (hxsBound : xs.length ≤ maxAccumulatorLeaves)
    (hzsBound : zs.length ≤ maxAccumulatorLeaves) {self result : TransactionAccumulatorSummary hash}
    {target : InMemoryAccumulator hash} {targetLi : LedgerInfo hash}
    (hself : ofLeaves H xs = Outcome.ok self)
    (htarget : InMemoryAccumulator.fromLeaves H zs = Outcome.ok target)
    (hversion : targetLi.version = zs.length - 1)
    (hroot : targetLi.transactionAccumulatorHash = target.rootHash)
    (proof : AccumulatorConsistencyProof hash)
    (h : self.tryExtendWithProof H proof targetLi = Outcome.ok result) :
    xs <+: zs ∧ ofLeaves H zs = Outcome.ok result := by
  have hxsPos := List.length_pos_iff.mpr hxs
  have hzsPos := List.length_pos_iff.mpr hzs
  rcases (InMemoryAccumulator.fromLeaves_eq_ok_iff H (lt_u64Bound_of_le hxsBound)).mp
    ((ofLeaves_eq_ok_iff H hxs hxsBound).mp hself) with
    ⟨hselfRoots, hselfNum, _⟩
  rcases (InMemoryAccumulator.fromLeaves_eq_ok_iff H (lt_u64Bound_of_le hzsBound)).mp htarget with
    ⟨htargetRoots, htargetNum, htargetHash⟩
  rcases tryExtendWithProof_eq_ok H h with ⟨hle, happend, hresultVersion, hresultRoot⟩
  have hselfVersion : self.version = xs.length - 1 := by
    rw [version, InMemoryAccumulator.version, hselfNum, if_neg (by omega)]
  have hselfLength : self.accumulator.frozenSubtreeRoots.length =
    countOnes self.accumulator.numLeaves := by
    rw [hselfRoots, hselfNum, InMemoryAccumulator.length_frozenRoots]
  have htotal : zs.length = self.accumulator.numLeaves +
    (targetLi.version - self.version) := by
    rw [hselfNum]
    omega
  rcases InMemoryAccumulator.appendSubtrees_eq_ok H (by omega)
    hselfLength happend with ⟨growth, _, _, hnew⟩
  rcases (InMemoryAccumulator.new_eq_ok_iff H).mp hnew with
    ⟨hlength, hresultRoots, hresultNum, hresultHash⟩
  rw [← htotal] at hlength hresultNum hresultHash
  have hsameRoot : result.accumulator.rootHash = target.rootHash := by
    rw [← hroot, hresultRoot, rootHash]
  have hroots : result.accumulator.frozenSubtreeRoots = InMemoryAccumulator.frozenRoots H zs := by
    rw [hresultRoots]
    rw [hsameRoot] at hresultHash
    exact InMemoryAccumulator.computeRootHash_injective H hnode hlength
      (InMemoryAccumulator.length_frozenRoots H zs) hresultHash htargetHash
  have hundo := InMemoryAccumulator.appendSubtrees_undo H hnode (by omega)
    hselfLength happend htotal hroots
  rw [hselfRoots, hselfNum] at hundo
  constructor
  · rw [InMemoryAccumulator.frozenRoots_injective H hnode (by rw [List.length_take]; omega) hundo]
    exact List.take_prefix _ _
  · rw [ofLeaves_eq_ok_iff H hzs hzsBound, InMemoryAccumulator.fromLeaves_eq_ok_iff H
        (lt_u64Bound_of_le hzsBound), hsameRoot]
    exact ⟨hroots, hresultNum, htargetHash⟩

/-!
# Summaries from genesis proofs
-/

def SafeFor (targetVersion : Nat) (self : TransactionAccumulatorSummary hash) : Prop :=
  self.version = targetVersion ∧ self.accumulator.numLeaves = targetVersion + 1 ∧
    targetVersion + 1 ≤ maxAccumulatorLeaves ∧
    forall (proof : AccumulatorConsistencyProof hash) (targetLi : LedgerInfo hash),
      self.tryExtendWithProof H proof targetLi ≠ .panic

omit dh th in
theorem tryFromGenesisProof_eq_ok_iff {targetVersion : Nat} :
    tryFromGenesisProof H proof targetVersion = .ok result <->
      InMemoryAccumulator.new H proof.subtrees (min (targetVersion + 1) (u64Bound - 1)) =
          .ok result.accumulator := by
  unfold tryFromGenesisProof
  constructor
  · intro h
    rcases of_bind h with ⟨_, hnew, h⟩
    cases h
    exact hnew
  · intro h
    dsimp only
    rw [h]
    rfl

theorem verifyConsistency_ne_panic (self : TransactionAccumulatorSummary hash)
    (ledgerInfo : LedgerInfo hash) : self.verifyConsistency ledgerInfo ≠ .panic := by
  unfold verifyConsistency
  intro hpanic
  rcases bind_eq_panic_iff.mp hpanic with hver | ⟨_, _, hroot⟩
  · exact ensure_ne_panic hver
  · exact ensure_ne_panic hroot

theorem tryExtendWithProof_ne_panic
    (hself : self.accumulator.frozenSubtreeRoots.length = countOnes self.accumulator.numLeaves)
    (hmax : self.accumulator.numLeaves ≤ maxAccumulatorLeaves)
    (proof : AccumulatorConsistencyProof hash) (targetLi : LedgerInfo hash) :
    self.tryExtendWithProof H proof targetLi ≠ .panic := by
  unfold tryExtendWithProof
  by_cases hle : self.version ≤ targetLi.version
  · rw [ensure_eq_ok_iff.mpr hle, ok_bind, u64Sub_eq_ok hle, ok_bind]
    intro hpanic
    rcases bind_eq_panic_iff.mp hpanic with happ | h
    · exact InMemoryAccumulator.appendSubtrees_ne_panic H hself hmax _ _ happ
    · rcases h with ⟨_, _, h⟩
      rcases bind_eq_panic_iff.mp h with hcontext | h
      · unfold withContext at hcontext
        split at hcontext
        · cases hcontext
        · cases hcontext
        · next hvfy =>
            exact verifyConsistency_ne_panic _ _ hvfy
      · rcases h with ⟨_, _, h⟩
        cases h
  · rw [ensure, if_neg hle]
    simp

/-- The summaries a genesis proof can lead to are safe exactly when the target
version is below the largest number of leaves or the proof is rejected. -/
theorem tryFromGenesisProof_safe_iff (targetVersion : Nat)
    (proof : AccumulatorConsistencyProof hash) :
    (forall result, tryFromGenesisProof H proof targetVersion =
        Outcome.ok result -> SafeFor H targetVersion result) <->
      targetVersion < maxAccumulatorLeaves ∨ proof.subtrees.length ≠
          countOnes (min (targetVersion + 1) (u64Bound - 1)) := by
  constructor
  · intro hsafe
    by_contra hcondition
    rw [not_or, not_not] at hcondition
    rcases hcondition with ⟨hlarge, hlength⟩
    rcases InMemoryAccumulator.computeRootHash_succeeds H hlength with ⟨root, hroot⟩
    have hnew : InMemoryAccumulator.new H proof.subtrees
      (min (targetVersion + 1) (u64Bound - 1)) = .ok ⟨_, _, root⟩ :=
      (InMemoryAccumulator.new_eq_ok_iff H).mpr ⟨hlength, rfl, rfl, hroot⟩
    have hresult := hsafe ⟨_⟩ ((tryFromGenesisProof_eq_ok_iff H).mpr hnew)
    exact hlarge hresult.right.right.left
  · intro hcondition result h
    have hnew := (tryFromGenesisProof_eq_ok_iff H).mp h
    rcases (InMemoryAccumulator.new_eq_ok_iff H).mp hnew with ⟨hlength, hroots, hnum, _⟩
    have hlt : targetVersion < maxAccumulatorLeaves :=
      hcondition.resolve_right (not_not.mpr hlength)
    have hmin : min (targetVersion + 1) (u64Bound - 1) = targetVersion + 1 := by
      unfold maxAccumulatorLeaves maxAccumulatorProofDepth at hlt
      unfold u64Bound
      omega
    rw [hmin] at hnum hlength
    refine ⟨?_, hnum, hlt, ?_⟩
    · rw [version, InMemoryAccumulator.version, hnum,
        if_neg (Nat.succ_ne_zero _), Nat.add_sub_cancel]
    · apply tryExtendWithProof_ne_panic H
      · rw [hroots, hnum, hlength]
      · rw [hnum]
        exact hlt

end TransactionAccumulatorSummary

/-!
# The free hash
-/

inductive FreeHash where
  | leaf (n : Nat)
  | placeholder
  | node (left right : FreeHash)
deriving DecidableEq, Repr

instance : ToString FreeHash := ⟨fun h => toString (repr h)⟩

def freeHasher : TreeHasher FreeHash where
  internalNode := .node
  placeholder := .placeholder

theorem freeHasher_nodeInjective : NodeInjective freeHasher.internalNode := by
  intro _ _ _ _ h
  exact FreeHash.node.inj h

def FreeHash.IsLeaf (h : FreeHash) : Prop := exists n, h = .leaf n

def freeLeaves (count : Nat) : List FreeHash := (List.range count).map .leaf

/-- Frozen roots of the first `2` leaves of the free hash. -/
def freePair : FreeHash := .node (.leaf 0) (.leaf 1)

def freeThree : InMemoryAccumulator FreeHash where
  frozenSubtreeRoots := [freePair, .leaf 2]
  numLeaves := 3
  rootHash := .node freePair (.node (.leaf 2) .placeholder)

def freeFour : InMemoryAccumulator FreeHash :=
  let root := .node freePair (.node (.leaf 2) (.leaf 3))
  { frozenSubtreeRoots := [root]
    numLeaves := 4
    rootHash := root }

theorem tryExtendWithProof_sound_three_four :
    (TransactionAccumulatorSummary.mk freeThree).tryExtendWithProof freeHasher
        ⟨[FreeHash.leaf 3]⟩ ⟨3, freeFour.rootHash⟩ = Outcome.ok ⟨freeFour⟩ ∧
      freeLeaves 3 <+: freeLeaves 4 ∧
      TransactionAccumulatorSummary.ofLeaves freeHasher (freeLeaves 4) = Outcome.ok ⟨freeFour⟩ := by
  have haccepted : (TransactionAccumulatorSummary.mk
    freeThree).tryExtendWithProof freeHasher ⟨[.leaf 3]⟩
    ⟨3, freeFour.rootHash⟩ = .ok ⟨freeFour⟩ := by
    decide +kernel
  have hself : TransactionAccumulatorSummary.ofLeaves freeHasher
    (freeLeaves 3) = .ok ⟨freeThree⟩ := by
    decide +kernel
  have htarget : InMemoryAccumulator.fromLeaves freeHasher (freeLeaves 4) = .ok freeFour := by
    decide +kernel
  exact ⟨haccepted, TransactionAccumulatorSummary.tryExtendWithProof_sound freeHasher
      freeHasher_nodeInjective (by decide) (by decide) (by decide)
      (by decide) hself htarget rfl rfl ⟨[.leaf 3]⟩ haccepted⟩

theorem tryFromGenesisProof_safe_iff_three :
    (forall result, TransactionAccumulatorSummary.tryFromGenesisProof
        freeHasher ⟨freeThree.frozenSubtreeRoots⟩ 2 = Outcome.ok result ->
      TransactionAccumulatorSummary.SafeFor freeHasher 2 result) ∧
      TransactionAccumulatorSummary.tryFromGenesisProof freeHasher
        ⟨freeThree.frozenSubtreeRoots⟩ 2 = Outcome.ok ⟨freeThree⟩ :=
  ⟨(TransactionAccumulatorSummary.tryFromGenesisProof_safe_iff freeHasher 2
    ⟨freeThree.frozenSubtreeRoots⟩).mpr (Or.inl (by decide)),
    by decide +kernel⟩

/-- Two subtrees are accepted for the target version `2 ^ 63`; the summary has
more leaves than an accumulator may have, and extending it panics. -/
theorem tryFromGenesisProof_too_large : exists result : TransactionAccumulatorSummary FreeHash,
    TransactionAccumulatorSummary.tryFromGenesisProof freeHasher
      ⟨[FreeHash.leaf 0, FreeHash.leaf 1]⟩ (2 ^ 63) = Outcome.ok result ∧
    result.accumulator.numLeaves = maxAccumulatorLeaves + 1 ∧
    result.tryExtendWithProof freeHasher ⟨[]⟩
      ⟨2 ^ 63, result.rootHash⟩ = Outcome.panic := by
  have hlength : [FreeHash.leaf 0, FreeHash.leaf 1].length =
    countOnes (min (2 ^ 63 + 1) (u64Bound - 1)) := by
    decide +kernel
  rcases InMemoryAccumulator.computeRootHash_succeeds freeHasher hlength with ⟨root, hroot⟩
  have hnew : InMemoryAccumulator.new freeHasher
    [.leaf 0, .leaf 1] (min (2 ^ 63 + 1) (u64Bound - 1)) = .ok ⟨_, _, root⟩ :=
    (InMemoryAccumulator.new_eq_ok_iff freeHasher).mpr ⟨hlength, rfl, rfl, hroot⟩
  exact ⟨⟨_⟩, (TransactionAccumulatorSummary.tryFromGenesisProof_eq_ok_iff freeHasher).mpr hnew,
    show min (2 ^ 63 + 1) (u64Bound - 1) = maxAccumulatorLeaves + 1 by decide,
    rfl⟩

end OpenLibra.Accumulator
