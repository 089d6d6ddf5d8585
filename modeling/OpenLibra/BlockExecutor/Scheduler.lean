import Mathlib.Tactic.Common

/-!
# The scheduler of the parallel block executor

Every definition below is one atomic access to the shared state: an atomic instruction, or a
critical section of one lock.  Waves, incarnations and the two halves of the packed validation index
are unbounded here; in the code they are words of fixed width.
-/

namespace OpenLibra.BlockExecutor

open Function

abbrev TxnIndex := Nat

abbrev Incarnation := Nat

abbrev Wave := Nat

abbrev DependencyCondvar := Nat

abbrev Version := TxnIndex × Incarnation

inductive SchedulerTask where
  | executionTask (version : Version) (condvar : Option DependencyCondvar)
  | validationTask (version : Version) (wave : Wave)
  | noTask
  | done
deriving DecidableEq, Repr

inductive ExecutionStatus where
  | readyToExecute (incarnation : Incarnation) (condvar : Option DependencyCondvar)
  | executing (incarnation : Incarnation)
  | suspended (incarnation : Incarnation) (condvar : DependencyCondvar)
  | executed (incarnation : Incarnation)
  | committed (incarnation : Incarnation)
  | aborting (incarnation : Incarnation)
deriving DecidableEq, Repr

structure ValidationStatus where
  maxTriggeredWave : Wave
  requiredWave : Wave
  maybeMaxValidatedWave : Option Wave
deriving DecidableEq, Repr

def ValidationStatus.new : ValidationStatus where
  maxTriggeredWave := 0
  requiredWave := 0
  maybeMaxValidatedWave := none

/-- The update of `finish_validation`. -/
def ValidationStatus.validated (self : ValidationStatus) (wave : Wave) : ValidationStatus :=
  { self with
    maybeMaxValidatedWave :=
      some (match self.maybeMaxValidatedWave with
        | none => wave
        | some prevWave => max prevWave wave) }

theorem ValidationStatus.validated_eq_some {self : ValidationStatus} {wave wave' : Wave}
    (h : (self.validated wave).maybeMaxValidatedWave = some wave') :
    self.maybeMaxValidatedWave = some wave' ∨ wave' = wave := by
  unfold ValidationStatus.validated at h
  cases hbef : self.maybeMaxValidatedWave with
  | none =>
    rw [hbef] at h
    exact .inr (Option.some.inj h).symm
  | some prevWave =>
    rw [hbef] at h
    have hmax : max prevWave wave = wave' := Option.some.inj h
    rcases Nat.le_total prevWave wave with hle | hle
    · exact .inr (hmax.symm.trans (Nat.max_eq_right hle))
    · rw [Nat.max_eq_left hle] at hmax
      exact .inl (congrArg some hmax)

/-- `Executed` or `Committed`: no dependency on the transaction is left. -/
def ExecutionStatus.isExecuted : ExecutionStatus -> Bool
  | .executed _ | .committed _ => true
  | _ => false

/-- The state of the scheduler.  The validation and dependency locks that are
held across several accesses name the worker that holds them; the locks of the
commit state and of the execution status are only held inside one access.
`condvars` holds the flag guarded by each allocated condition variable. -/
structure Scheduler (worker : Type) where
  numTxns : Nat
  executionIdx : TxnIndex
  validationIdx : TxnIndex
  validationWave : Wave
  commitIdx : TxnIndex
  commitWave : Wave
  doneMarker : Bool
  txnDependency : TxnIndex -> List TxnIndex
  dependencyLock : TxnIndex -> Option worker
  executionStatus : TxnIndex -> ExecutionStatus
  validationStatus : TxnIndex -> ValidationStatus
  validationLock : TxnIndex -> Option worker
  condvars : DependencyCondvar -> Bool
  nextCondvar : DependencyCondvar

namespace Scheduler

variable {worker : Type}

def new (numTxns : Nat) : Scheduler worker where
  numTxns := numTxns
  executionIdx := 0
  validationIdx := 0
  validationWave := 0
  commitIdx := 0
  commitWave := 0
  doneMarker := false
  txnDependency := fun _ => []
  dependencyLock := fun _ => none
  executionStatus := fun _ => .readyToExecute 0 none
  validationStatus := fun _ => ValidationStatus.new
  validationLock := fun _ => none
  condvars := fun _ => false
  nextCondvar := 0

variable (self : Scheduler worker) (txnIdx : TxnIndex)

def setExecutionStatus (status : ExecutionStatus) : Scheduler worker :=
  { self with
    executionStatus := update self.executionStatus txnIdx status }

def setValidationStatus (status : ValidationStatus) : Scheduler worker :=
  { self with
    validationStatus := update self.validationStatus txnIdx status }

def setValidationLock (holder : Option worker) : Scheduler worker :=
  { self with
    validationLock := update self.validationLock txnIdx holder }

def setDependencyLock (holder : Option worker) : Scheduler worker :=
  { self with
    dependencyLock := update self.dependencyLock txnIdx holder }

/-- `try_commit`.  The two `try_` locks fail when the validation status is
locked, and may fail whenever another worker is inside a critical section;
`acquired` is the outcome of the latter. -/
def tryCommit (self : Scheduler worker) (acquired : Bool) : Scheduler worker × Option TxnIndex :=
  if self.commitIdx = self.numTxns then
    ({ self with doneMarker := true }, none)
  else if acquired ∧ self.validationLock self.commitIdx = none then
    match self.executionStatus self.commitIdx with
    | .executed incarnation =>
      let validationStatus := self.validationStatus self.commitIdx
      let commitWave := max self.commitWave validationStatus.maxTriggeredWave
      let self := { self with commitWave := commitWave }
      match validationStatus.maybeMaxValidatedWave with
      | some validatedWave =>
        if max commitWave validationStatus.requiredWave ≤ validatedWave then
          ({ self.setExecutionStatus self.commitIdx
                (.committed incarnation) with
              commitIdx := self.commitIdx + 1 },
            some self.commitIdx)
        else
          (self, none)
      | none => (self, none)
    | _ => (self, none)
  else
    (self, none)

/-- Repeated calls of `try_commit` while nobody else holds a lock. -/
def tryCommits (self : Scheduler worker) : Nat -> Scheduler worker
  | 0 => self
  | count + 1 => tryCommits (self.tryCommit true).1 count

/-!
# Status changes
-/

def tryAbort (incarnation : Incarnation) : Scheduler worker × Bool :=
  if self.executionStatus txnIdx = .executed incarnation then
    (self.setExecutionStatus txnIdx (.aborting incarnation), true)
  else
    (self, false)

def tryIncarnate : Scheduler worker × Option (Incarnation × Option DependencyCondvar) :=
  if self.numTxns ≤ txnIdx then
    (self, none)
  else
    match self.executionStatus txnIdx with
    | .readyToExecute incarnation maybeCondvar =>
      (self.setExecutionStatus txnIdx (.executing incarnation), some (incarnation, maybeCondvar))
    | _ => (self, none)

def isExecuted (includeCommitted : Bool) : Option Incarnation :=
  if self.numTxns ≤ txnIdx then
    none
  else
    match self.executionStatus txnIdx with
    | .executed incarnation => some incarnation
    | .committed incarnation =>
      if includeCommitted then some incarnation else none
    | _ => none

/-- `suspend`; `none` is the `unreachable!()` branch. -/
def suspend (depCondvar : DependencyCondvar) : Option (Scheduler worker) :=
  match self.executionStatus txnIdx with
  | .executing incarnation =>
    some (self.setExecutionStatus txnIdx (.suspended incarnation depCondvar))
  | _ => none

/-- `resume`; `none` is the `unreachable!()` branch. -/
def resume : Option (Scheduler worker) :=
  match self.executionStatus txnIdx with
  | .suspended incarnation depCondvar =>
    some (self.setExecutionStatus txnIdx (.readyToExecute incarnation (some depCondvar)))
  | _ => none

/-- `set_executed_status`; `none` is a failed `debug_assert!`. -/
def setExecutedStatus (incarnation : Incarnation) : Option (Scheduler worker) :=
  if self.executionStatus txnIdx = .executing incarnation then
    some (self.setExecutionStatus txnIdx (.executed incarnation))
  else
    none

/-- `set_aborted_status`; `none` is a failed `debug_assert!`. -/
def setAbortedStatus (incarnation : Incarnation) : Option (Scheduler worker) :=
  if self.executionStatus txnIdx = .aborting incarnation then
    some (self.setExecutionStatus txnIdx (.readyToExecute (incarnation + 1) none))
  else
    none

/-- The `fetch_add` of `try_validate_next_version`. -/
def fetchAddValidationIdx (self : Scheduler worker) : Scheduler worker × TxnIndex × Wave :=
  ({ self with validationIdx := self.validationIdx + 1 }, self.validationIdx, self.validationWave)

/-- The `fetch_add` of `try_execute_next_version`. -/
def fetchAddExecutionIdx (self : Scheduler worker) : Scheduler worker × TxnIndex :=
  ({ self with executionIdx := self.executionIdx + 1 }, self.executionIdx)

/-- The `fetch_min` of `finish_execution`. -/
def fetchMinExecutionIdx (self : Scheduler worker) (target : TxnIndex) : Scheduler worker :=
  { self with executionIdx := min self.executionIdx target }

def decreaseValidationIdx (self : Scheduler worker) (targetIdx : TxnIndex) :
    Scheduler worker × Option Wave :=
  if targetIdx < self.validationIdx then
    ({ self with
        validationIdx := targetIdx
        validationWave := self.validationWave + 1 },
      some (self.validationWave + 1))
  else
    (self, none)

/-- The critical section of `finish_validation`. -/
def finishValidation (wave : Wave) : Scheduler worker :=
  self.setValidationStatus txnIdx ((self.validationStatus txnIdx).validated wave)

def setRequiredWave (wave : Wave) : Scheduler worker :=
  self.setValidationStatus txnIdx
    { self.validationStatus txnIdx with requiredWave := wave }

/-- `decrease_validation_idx` followed by the write of the triggered wave, which
the caller makes under the validation lock of the same transaction. -/
def triggerWave : Scheduler worker :=
  match self.decreaseValidationIdx txnIdx with
  | (self, some wave) =>
    self.setValidationStatus txnIdx
      { self.validationStatus txnIdx with maxTriggeredWave := wave }
  | (self, none) => self

def takeDependencies : Scheduler worker × List TxnIndex :=
  ({ self with
      txnDependency := update self.txnDependency txnIdx [] },
    self.txnDependency txnIdx)

def pushDependency (self : Scheduler worker) (depTxnIdx txnIdx : TxnIndex) : Scheduler worker :=
  { self with
    txnDependency := update self.txnDependency depTxnIdx
      (self.txnDependency depTxnIdx ++ [txnIdx]) }

def newCondvar (self : Scheduler worker) : Scheduler worker × DependencyCondvar :=
  ({ self with
      condvars := update self.condvars self.nextCondvar false
      nextCondvar := self.nextCondvar + 1 },
    self.nextCondvar)

def notify (self : Scheduler worker) (condvar : DependencyCondvar) : Scheduler worker :=
  { self with condvars := update self.condvars condvar true }

end Scheduler

end OpenLibra.BlockExecutor
