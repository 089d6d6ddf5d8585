import OpenLibra.BlockExecutor.Worker

/-!
# Block execution

The sequential executor, and what the parallel one does after its workers: it collects the outputs
up to one that skips the rest, fills up with skipped outputs, and materializes the deltas.
-/

namespace OpenLibra.BlockExecutor

open Rust Aggregation TransactionOutput List Function

/-- `Vec::resize_with`. -/
def resizeWith (size : Nat) (fill : alpha) (list : List alpha) : List alpha :=
  list.take size ++ List.replicate (size - list.length) fill

theorem resizeWith_of_length {size : Nat} {fill : alpha} {list} (h : list.length = size) :
    resizeWith size fill list = list := by
  subst h
  simp [resizeWith]

section

variable {txn key value output error : Type} [DecidableEq key] [TransactionWrite value]
  [TransactionOutput output key value]

def insertWrites (map : key -> Option value) : List (key × value) -> key -> Option value
  | [] => map
  | (k, v) :: writes => insertWrites (update map k (some v)) writes

/-- The loop of `execute_transactions_sequential`; it stops after an output that
skips the rest, and panics over a delta. -/
def sequentialOutputs (ctx : BlockContext txn key output error) :
    TxnIndex -> List txn -> (key -> Option value) -> Outcome (Error error) (List output)
  | _, [], _ => .ok []
  | idx, txn :: rest, dataMap =>
    match (ctx.executeTransaction txn idx true).run
      (LatestView.getStateValueBTree ctx.baseView dataMap) with
    | .success out =>
      if (getDeltas out).length = 0 then do
        let outputs <- sequentialOutputs ctx (idx + 1) rest (insertWrites dataMap (getWrites out))
        .ok (out :: outputs)
      else
        .panic
    | .skipRest out =>
      if (getDeltas out).length = 0 then
        .ok [out]
      else
        .panic
    | .abort e => .err (.userError e)

def executeTransactionsSequential (ctx : BlockContext txn key output error) :
    Outcome (Error error) (List (output × List (key × WriteOp))) := do
  let ret <- sequentialOutputs ctx 0 ctx.block (fun _ => none)
  .ok
    ((resizeWith ctx.block.length (skipOutput : output) ret).map fun out =>
      (out, []))

end

/-!
# Materializing deltas
-/

/-- The places where `resolve` can panic. -/
inductive ResolvePanic where
  | deserialize
  | noEntries
  | nonExistent
  | application
deriving DecidableEq, Repr

namespace OutputDeltaResolver

variable {key value : Type} [TransactionWrite value] (codec : ValueCodec)

def readValue : Option Bytes -> Except ResolvePanic (Option U128)
  | none => .ok none
  | some bytes =>
    match codec.deserialize bytes with
    | none => .error .deserialize
    | some v => .ok (some v)

def resolveEntries (entries : TxnIndex -> Option (Entry value)) : List TxnIndex -> Option U128 ->
    Except ResolvePanic (List (TxnIndex × U128))
  | [], _ => .ok []
  | idx :: rest, latestValue =>
    match entries idx with
    | none => resolveEntries entries rest latestValue
    | some entry =>
      match entry.cell with
      | .write _ data => do
        let latestValue <-
          readValue codec (TransactionWrite.extractRawBytes data)
        resolveEntries entries rest latestValue
      | .delta delta =>
        match latestValue with
        | none => .error .nonExistent
        | some base =>
          match delta.applyTo base with
          | .ok aggregatorValue => do
            let values <-
              resolveEntries entries rest (some aggregatorValue)
            .ok ((idx, aggregatorValue) :: values)
          | _ => .error .application

def storedValue (baseView : StateView key) (k : key) : Except ResolvePanic (Option U128) :=
  match baseView k with
  | .ok bytes => readValue codec bytes
  | .error _ => .ok none

variable (baseView : StateView key) (cache : MVHashMap key value) (blockSize : Nat)

def resolveKey (k : key) : Except ResolvePanic (List (TxnIndex × U128)) := do
  let latestValue <- storedValue codec baseView k
  match cache.data k with
  | none => .error .noEntries
  | some v => resolveEntries codec v.versionedMap (List.range blockSize) latestValue

/-- `ret[*idx].push(..)`. -/
def push (ret : TxnIndex -> List (key × WriteOp)) (k : key) :
    List (TxnIndex × U128) -> TxnIndex -> List (key × WriteOp)
  | [] => ret
  | (idx, v) :: values =>
    push (update ret idx (ret idx ++ [(k, .modification (codec.serialize v))])) k values

def resolveKeys (baseView : StateView key) (cache : MVHashMap key value) (blockSize : Nat) :
    List key -> (TxnIndex -> List (key × WriteOp)) ->
      Except ResolvePanic (TxnIndex -> List (key × WriteOp))
  | [], ret => .ok ret
  | k :: keys, ret => do
    let values <- resolveKey codec baseView cache blockSize k
    resolveKeys baseView cache blockSize keys (push codec ret k values)

/-- `resolve`.  The entries of the multi-version map belong to indices of the
block. -/
def resolve : Except ResolvePanic (List (List (key × WriteOp))) := do
  let ret <- resolveKeys codec baseView cache blockSize cache.aggregatorKeys
    (fun _ => [])
  .ok ((List.range blockSize).map ret)

/-!
# Keys without entries
-/

theorem readValue_ne_noEntries (bytes : Option Bytes) :
    readValue codec bytes ≠ .error .noEntries := by
  unfold readValue
  split
  · simp
  · split <;> simp

theorem resolveEntries_ne_noEntries (entries : TxnIndex -> Option (Entry value))
    (indices : List TxnIndex) (latestValue : Option U128) :
    resolveEntries codec entries indices latestValue ≠ .error .noEntries := by
  induction indices generalizing latestValue with
  | nil => simp [resolveEntries]
  | cons idx rest ih =>
    rw [resolveEntries]
    split
    · exact ih latestValue
    · split
      · next data _ =>
          intro h
          cases hread : readValue codec
            (TransactionWrite.extractRawBytes data) with
          | error panic =>
            rw [hread] at h
            cases h
            exact readValue_ne_noEntries codec _ hread
          | ok latest =>
            rw [hread] at h
            exact ih latest h
      · split
        · simp
        · split
          · next aggregatorValue _ =>
              intro h
              cases hrest : resolveEntries codec entries rest
                (some aggregatorValue) with
              | error panic =>
                rw [hrest] at h
                cases h
                exact ih _ hrest
              | ok values =>
                rw [hrest] at h
                cases h
          · simp

theorem storedValue_ne_noEntries (baseView : StateView key) (k : key) :
    storedValue codec baseView k ≠ .error .noEntries := by
  unfold storedValue
  split
  · exact readValue_ne_noEntries codec _
  · simp

theorem resolveKey_ne_noEntries {k : key} (hk : k ∈ cache.aggregatorKeys) :
    resolveKey codec baseView cache blockSize k ≠ .error .noEntries := by
  rcases (cache.mem_deltaKeys k).mp hk with ⟨v, hdata, _⟩
  intro h
  rw [resolveKey] at h
  cases hstored : storedValue codec baseView k with
  | error =>
    rw [hstored] at h
    cases h
    exact storedValue_ne_noEntries codec baseView k hstored
  | ok =>
    rw [hstored] at h
    simp only [hdata] at h
    exact resolveEntries_ne_noEntries codec _ _ _ h

theorem resolve_ne_noEntries : resolve codec baseView cache blockSize ≠ .error .noEntries := by
  have hkeys (keys : List key) (ret : TxnIndex -> List (key × WriteOp))
    (hsubset : forall k, k ∈ keys -> k ∈ cache.aggregatorKeys) :
    resolveKeys codec baseView cache blockSize keys ret ≠ .error .noEntries := by
    induction keys generalizing ret with
    | nil => simp [resolveKeys]
    | cons k keys ih =>
      intro h
      rw [resolveKeys] at h
      cases hvals : resolveKey codec baseView cache blockSize k with
      | error =>
        rw [hvals] at h
        cases h
        exact resolveKey_ne_noEntries codec baseView cache blockSize
          (hsubset k mem_cons_self) hvals
      | ok =>
        rw [hvals] at h
        exact ih _ (fun k' hk' => hsubset k' (mem_cons_of_mem k hk')) h
  intro h
  rw [resolve] at h
  cases hret : resolveKeys codec baseView cache blockSize cache.aggregatorKeys
    (fun _ => []) with
  | error panic =>
    rw [hret] at h
    cases h
    exact hkeys _ _ (fun _ hk => hk) hret
  | ok ret =>
    rw [hret] at h
    cases h

end OutputDeltaResolver

variable {worker txn key value path output error : Type} [TransactionWrite value]
  [TransactionOutput output key value]

def takeOutputs (outputs : TxnIndex -> Option (Task.ExecutionStatus output (Error error))) :
    List TxnIndex -> Outcome (Error error) (List output)
  | [] => .ok []
  | idx :: rest =>
    match outputs idx with
    | none => .panic
    | some (.success out) => do
      let outs <- takeOutputs outputs rest
      .ok (out :: outs)
    | some (.skipRest out) => .ok [out]
    | some (.abort e) => .err e

variable [DecidableEq worker] [DecidableEq key] [DecidableEq path] [ModulePath key path]

end OpenLibra.BlockExecutor
