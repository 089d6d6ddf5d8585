import OpenLibra.BlockExecutor.TxnLastInputOutput

/-!
# What a transaction sees

A transaction is a program that reads keys one after another and ends with a result.
-/

namespace OpenLibra.BlockExecutor

open Rust Aggregation

/-- The storage below a block. -/
abbrev StateView (key : Type) := key -> Except String (Option Bytes)

inductive ViewError where
  | baseView (message : String)
  | storageError
  | deltaFailure (error : PartialVMError)
deriving DecidableEq, Repr

/-- What `get_state_value` returns to the transaction. -/
abbrev ViewResult := Except ViewError (Option Bytes)

inductive Program (key output error : Type) where
  | done (status : Task.ExecutionStatus output error)
  | read (k : key) (next : ViewResult -> Program key output error)

def Program.run (view : key -> ViewResult) :
    Program key output error -> Task.ExecutionStatus output error
  | .done status => status
  | .read k next => Program.run view (next (view k))

def Program.Always (kind : Task.ExecutionStatus output error -> Prop) :
    Program key output error -> Prop
  | .done status => kind status
  | .read _ next => forall answer, Program.Always kind (next answer)

/-- `execute_transaction`, the block it is called on, and the storage below.
The flag asks to materialize deltas. -/
structure BlockContext (txn key output error : Type) where
  codec : ValueCodec
  baseView : StateView key
  block : List txn
  executeTransaction : txn -> TxnIndex -> Bool -> Program key output error

def BlockContext.ofPrograms (codec : ValueCodec) (baseView : StateView key)
    (block : List (Program key output error)) :
    BlockContext (Program key output error) key output error where
  codec := codec
  baseView := baseView
  block := block
  executeTransaction := fun program _ _ => program

def BlockContext.program (ctx : BlockContext txn key output error)
    (txnIdx : TxnIndex) (materializeDeltas : Bool) :
    Option (Program key output error) :=
  (ctx.block[txnIdx]?).map fun txn =>
    ctx.executeTransaction txn txnIdx materializeDeltas

/-!
# The multi-version view
-/

inductive ReadResult (value : Type) where
  | value (v : value)
  | u128 (v : U128)
  | unresolved (delta : DeltaOp)
  | none
deriving DecidableEq, Repr

/-- One round of `MVHashMapView::read`. -/
inductive Capture (key value : Type) where
  | captured (descriptor : ReadDescriptor key) (result : ReadResult value)
  | dependency (depIdx : TxnIndex)
  | panic

def capture (k : key) : Outcome MVHashMapError (MVHashMapOutput value) -> Capture key value
  | .ok (.version (idx, incarnation) v) =>
    .captured
      { accessPath := k, kind := .version idx incarnation }
      (.value v)
  | .ok (.resolved v) => .captured { accessPath := k, kind := .resolved v } (.u128 v)
  | .err .notFound => .captured { accessPath := k, kind := .storage } .none
  | .err (.unresolved delta) =>
    .captured { accessPath := k, kind := .unresolved delta } (.unresolved delta)
  | .err (.dependency depIdx) => .dependency depIdx
  | .err .deltaApplicationFailure =>
    .captured
      { accessPath := k, kind := .deltaApplicationFailure }
      (.u128 0)
  | .panic => .panic

namespace LatestView

/-- An error of the base view, seen through `anyhow`. -/
def fromBase (result : Except String (Option Bytes)) : ViewResult :=
  match result with
  | .ok bytes => .ok bytes
  | .error message => .error (.baseView message)

/-- `get_state_value` over the multi-version map; a stored value that cannot be
deserialized is a panic. -/
def getStateValueMv [TransactionWrite value] (codec : ValueCodec)
    (baseView : StateView key) (k : key) :
    ReadResult value -> Outcome ViewError (Option Bytes)
  | .value v => .ok (TransactionWrite.extractRawBytes v)
  | .u128 v => .ok (some (codec.serialize v))
  | .unresolved delta =>
    match baseView k with
    | .error message => .err (.baseView message)
    | .ok none => .err .storageError
    | .ok (some bytes) =>
      match codec.deserialize bytes with
      | none => .panic
      | some fromStorage =>
        match delta.applyTo fromStorage with
        | .ok result => .ok (some (codec.serialize result))
        | .err e => .err (.deltaFailure e)
        | .panic => .panic
  | .none =>
    match baseView k with
    | .ok bytes => .ok bytes
    | .error message => .err (.baseView message)

/-- `get_state_value` over the writes of the transactions before. -/
def getStateValueBTree [TransactionWrite value] (baseView : StateView key)
    (map : key -> Option value) (k : key) : ViewResult :=
  match map k with
  | none => fromBase (baseView k)
  | some v => .ok (TransactionWrite.extractRawBytes v)

end LatestView

theorem capture_eq_dependency {k : key} {outcome : Outcome MVHashMapError (MVHashMapOutput value)}
    {depIdx : TxnIndex} (h : capture k outcome = .dependency depIdx) :
    outcome = .err (.dependency depIdx) := by
  rcases outcome with (v | ⟨⟨idx, incarnation⟩, v⟩) | e | _
  · cases h
  · cases h
  · cases e with
    | dependency =>
      cases h
      rfl
    | notFound | unresolved | deltaApplicationFailure => cases h
  · cases h

end OpenLibra.BlockExecutor
