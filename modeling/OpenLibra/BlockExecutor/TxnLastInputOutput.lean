import Mathlib.Data.List.Dedup
import OpenLibra.BlockExecutor.MVHashMap

/-!
# Inputs and outputs of the last executions

For every transaction the reads and the result of its last finished execution are recorded.
-/

namespace OpenLibra.BlockExecutor

open Rust Aggregation Function

/-!
# Results of executions
-/

namespace Task

inductive ExecutionStatus (output error : Type) where
  | success (output : output)
  | abort (error : error)
  | skipRest (output : output)
deriving DecidableEq, Repr

end Task

inductive Error (error : Type) where
  | modulePathReadWrite
  | userError (error : error)
deriving DecidableEq, Repr

class ModulePath (key : Type) (path : outParam Type) where
  modulePath : key -> Option path

structure KeyType (key : Type) where
  key : key
  isModule : Bool
deriving DecidableEq, Repr

instance : ModulePath (KeyType key) key where
  modulePath k := if k.isModule then some k.key else none

/-- The writes and deltas of an output, and the output of skipped
transactions. -/
class TransactionOutput (output : Type) (key value : outParam Type) where
  getWrites : output -> List (key × value)
  getDeltas : output -> List (key × DeltaOp)
  skipOutput : output

open TransactionOutput

structure TransactionOutputExt (key : Type) where
  writeSet : List (key × WriteOp)
  deltaChangeSet : List (key × DeltaOp)
deriving DecidableEq

instance : TransactionOutput (TransactionOutputExt key) key WriteOp where
  getWrites := TransactionOutputExt.writeSet
  getDeltas := TransactionOutputExt.deltaChangeSet
  skipOutput := { writeSet := [], deltaChangeSet := [] }

def outputKeys [DecidableEq key] [TransactionOutput output key value] (out : output) : List key :=
  ((getWrites out).map Prod.fst ++ (getDeltas out).map Prod.fst).dedup

/-!
# Read descriptors
-/

inductive ReadKind where
  | version (txnIdx : TxnIndex) (incarnation : Incarnation)
  | resolved (result : U128)
  | unresolved (delta : DeltaOp)
  | storage
  | deltaApplicationFailure
deriving DecidableEq, Repr

structure ReadDescriptor (key : Type) where
  accessPath : key
  kind : ReadKind
deriving DecidableEq, Repr

def readKind : Outcome MVHashMapError (MVHashMapOutput value) -> Option ReadKind
  | .ok (.version (txnIdx, incarnation) _) => some (.version txnIdx incarnation)
  | .ok (.resolved result) => some (.resolved result)
  | .err .notFound => some .storage
  | .err (.unresolved delta) => some (.unresolved delta)
  | .err .deltaApplicationFailure => some .deltaApplicationFailure
  | .err (.dependency _) => none
  | .panic => none

variable (self : ReadDescriptor key) (result : Outcome MVHashMapError (MVHashMapOutput value))

/-- The match of `validate` on a repeated read. -/
def ReadDescriptor.validate : Bool :=
  match result with
  | .ok (.version (txnIdx, incarnation) _) => self.kind = .version txnIdx incarnation
  | .ok (.resolved result) => self.kind = .resolved result
  | .err (.dependency _) => false
  | .err (.unresolved delta) => self.kind = .unresolved delta
  | .err .notFound => self.kind = .storage
  | .err .deltaApplicationFailure => self.kind = .deltaApplicationFailure
  | .panic => false

theorem ReadDescriptor.validate_iff :
    self.validate result = true <-> readKind result = some self.kind := by
  rcases result with (result | ⟨txnIdx, data⟩) | e | _
  · simp [validate, readKind, eq_comm]
  · simp [validate, readKind, eq_comm]
  · cases e <;> simp [validate, readKind, eq_comm]
  · simp [validate, readKind]

/-!
# The record
-/

structure TxnLastInputOutput (key path output error : Type) where
  inputs : TxnIndex -> Option (List (ReadDescriptor key))
  outputs : TxnIndex -> Option (Task.ExecutionStatus output (Error error))
  moduleWrites : List path
  moduleReads : List path
  moduleReadWriteIntersection : Bool

namespace TxnLastInputOutput

variable {key path value output error : Type}

def new : TxnLastInputOutput key path output error where
  inputs := fun _ => none
  outputs := fun _ => none
  moduleWrites := []
  moduleReads := []
  moduleReadWriteIntersection := false

/-- `append_and_check`: insert the paths one by one and stop at the first that
the other set contains. -/
def appendAndCheck [DecidableEq path] : List path -> List path -> List path -> List path × Bool
  | [], setToAppend, _ => (setToAppend, false)
  | p :: paths, setToAppend, setToCheck =>
    let setToAppend := setToAppend.insert p
    if p ∈ setToCheck then
      (setToAppend, true)
    else
      appendAndCheck paths setToAppend setToCheck

variable [dk : DecidableEq key] [DecidableEq path] [mk : ModulePath key path]
  [TransactionOutput output key value]

def writtenModules : Task.ExecutionStatus output (Error error) -> List path
  | .success out | .skipRest out =>
    (getWrites out).filterMap fun write => ModulePath.modulePath write.1
  | .abort _ => []

variable (self : TxnLastInputOutput key path output error)

/-- The module part of `record`. -/
def recordModules (readModules writtenModules : List path) :
    TxnLastInputOutput key path output error :=
  if self.moduleReadWriteIntersection then
    self
  else
    match appendAndCheck readModules self.moduleReads self.moduleWrites with
    | (moduleReads, true) =>
      { self with
        moduleReads := moduleReads
        moduleReadWriteIntersection := true }
    | (moduleReads, false) =>
      let (moduleWrites, intersects) := appendAndCheck writtenModules self.moduleWrites moduleReads
      { self with
        moduleReads := moduleReads
        moduleWrites := moduleWrites
        moduleReadWriteIntersection := intersects }

variable (txnIdx : TxnIndex) (input : List (ReadDescriptor key))

def record (result : Task.ExecutionStatus output (Error error)) :
    TxnLastInputOutput key path output error :=
  let readModules := input.filterMap fun desc => ModulePath.modulePath desc.accessPath
  let self := self.recordModules readModules (writtenModules result)
  { self with
    inputs := update self.inputs txnIdx (some input)
    outputs := update self.outputs txnIdx (some result) }

def modulePublishingMayRace : Bool :=
  self.moduleReadWriteIntersection

def readSet (txnIdx : TxnIndex) : Option (List (ReadDescriptor key)) :=
  self.inputs txnIdx

def resultKeys : Task.ExecutionStatus output (Error error) -> List key
  | .success out | .skipRest out => outputKeys out
  | .abort _ => []

def modifiedKeys (txnIdx : TxnIndex) : List key :=
  match self.outputs txnIdx with
  | none => []
  | some result => resultKeys result

omit dk mk in
@[simp] theorem recordModules_inputs (readModules writtenModules : List path) :
    (self.recordModules readModules writtenModules).inputs = self.inputs := by
  unfold recordModules
  split
  · rfl
  · split <;> rfl

omit dk mk in
@[simp] theorem recordModules_outputs (readModules writtenModules : List path) :
    (self.recordModules readModules writtenModules).outputs = self.outputs := by
  unfold recordModules
  split
  · rfl
  · split <;> rfl

omit dk in
@[simp] theorem record_inputs (result : Task.ExecutionStatus output (Error error)) :
    (self.record txnIdx input result).inputs = update self.inputs txnIdx (some input) := by
  simp [record]

omit dk in
@[simp] theorem record_outputs (result : Task.ExecutionStatus output (Error error)) :
    (self.record txnIdx input result).outputs = update self.outputs txnIdx (some result) := by
  simp [record]

end TxnLastInputOutput

end OpenLibra.BlockExecutor
