import OpenLibra.BlockExecutor.Scheduler
import OpenLibra.Transition.System

/-!
# The scheduling protocol

An abstraction of the workers that keeps only what matters to the scheduler: the role a worker
plays between two accesses.
-/

namespace OpenLibra.BlockExecutor

open Transition Function

/-- What a worker is about to do, as far as the scheduler is concerned. -/
inductive Role where
  | idle
  | fetchedValidation (i : TxnIndex) (wave : Wave)
  | fetchedExecution (i : TxnIndex)
  | notifying (condvar : DependencyCondvar)
  | executing (i : TxnIndex) (inc : Incarnation) (outside : Bool)
  | depLocked (i : TxnIndex) (inc : Incarnation) (dep : TxnIndex)
  | waiting (i : TxnIndex) (inc : Incarnation) (condvar : DependencyCondvar)
  | draining (i : TxnIndex) (inc : Incarnation) (outside : Bool)
  | resuming (i : TxnIndex) (inc : Incarnation) (outside : Bool)
      (deps : List TxnIndex) (minDep : Option TxnIndex)
  | scheduling (i : TxnIndex) (inc : Incarnation) (outside : Bool)
  | revalidating (i : TxnIndex) (inc : Incarnation)
  | validating (i : TxnIndex) (inc : Incarnation) (wave : Wave)
  | aborting (i : TxnIndex) (inc : Incarnation)
  | abortDecreasing (i : TxnIndex)
  | abortLoading (i : TxnIndex)
  | abortIncarnating (i : TxnIndex)
deriving DecidableEq, Repr

inductive SchedulerEvent where
  | executionTask (version : Version) (condvar : Option DependencyCondvar)
  | aborted (version : Version)
  | suspended (version : Version) (condvar : DependencyCondvar)
deriving DecidableEq, Repr

structure Protocol (worker : Type) where
  scheduler : Scheduler worker
  role : worker -> Role

/-!
# Triggered waves
-/

namespace Scheduler

variable {worker : Type} (self : Scheduler worker)

def waveAfter (i : TxnIndex) : Wave :=
  if i < self.validationIdx then self.validationWave + 1
  else self.validationWave

def triggeredAfter (i : TxnIndex) : TxnIndex -> ValidationStatus :=
  if i < self.validationIdx then
    update self.validationStatus i
      { self.validationStatus i with
        maxTriggeredWave := self.validationWave + 1 }
  else
    self.validationStatus

theorem triggerWave_eq (i : TxnIndex) : self.triggerWave i =
    { self with
      validationIdx := min self.validationIdx i
      validationWave := self.waveAfter i
      validationStatus := self.triggeredAfter i } := by
  unfold triggerWave decreaseValidationIdx waveAfter triggeredAfter
  by_cases h : i < self.validationIdx
  · simp [h, setValidationStatus, Nat.min_eq_right (Nat.le_of_lt h)]
  · simp [h, Nat.min_eq_left (Nat.le_of_not_lt h)]

@[simp, grind =] theorem triggeredAfter_validated (i j : TxnIndex) :
    (self.triggeredAfter i j).maybeMaxValidatedWave =
      (self.validationStatus j).maybeMaxValidatedWave := by
  unfold triggeredAfter
  by_cases h : i < self.validationIdx
  · by_cases hj : j = i
    · subst hj
      simp [h]
    · simp [h, hj]
  · simp [h]

@[simp, grind =] theorem triggeredAfter_required (i j : TxnIndex) :
    (self.triggeredAfter i j).requiredWave = (self.validationStatus j).requiredWave := by
  unfold triggeredAfter
  by_cases h : i < self.validationIdx
  · by_cases hj : j = i
    · subst hj
      simp [h]
    · simp [h, hj]
  · simp [h]

end Scheduler

namespace Protocol

variable {worker : Type} [DecidableEq worker]

def taskRole (i : TxnIndex) (inc : Incarnation) : Option DependencyCondvar -> Role
  | none => .executing i inc false
  | some condvar => .notifying condvar

theorem taskRole_cases (i : TxnIndex) (inc : Incarnation) (condvar : Option DependencyCondvar) :
    (condvar = none ∧ taskRole i inc condvar = .executing i inc false) ∨
      exists waiting, condvar = some waiting ∧ taskRole i inc condvar = .notifying waiting := by
  cases condvar with
  | none => exact .inl ⟨rfl, rfl⟩
  | some waiting => exact .inr ⟨waiting, rfl, rfl⟩

inductive Step (p : Protocol worker) : List SchedulerEvent -> Protocol worker -> Prop where
  | markDone (hidx : p.scheduler.commitIdx = p.scheduler.numTxns) :
      Step p [] { p with scheduler := { p.scheduler with doneMarker := true } }
  | raiseCommitWave {inc} (hidx : p.scheduler.commitIdx ≠ p.scheduler.numTxns)
      (hst : p.scheduler.executionStatus p.scheduler.commitIdx = .executed inc) :
      Step p [] { p with
        scheduler := { p.scheduler with
          commitWave := max p.scheduler.commitWave (p.scheduler.validationStatus
              p.scheduler.commitIdx).maxTriggeredWave } }
  | commit {inc wave} (hidx : p.scheduler.commitIdx ≠ p.scheduler.numTxns)
      (hlock : p.scheduler.validationLock p.scheduler.commitIdx = none)
      (hst : p.scheduler.executionStatus p.scheduler.commitIdx = .executed inc)
      (hvald : (p.scheduler.validationStatus
        p.scheduler.commitIdx).maybeMaxValidatedWave = some wave)
      (hcommit : p.scheduler.commitWave ≤ wave)
      (htrig : (p.scheduler.validationStatus p.scheduler.commitIdx).maxTriggeredWave ≤ wave)
      (hreq : (p.scheduler.validationStatus p.scheduler.commitIdx).requiredWave ≤ wave) :
      Step p [] { p with
        scheduler := { p.scheduler with
          executionStatus := update p.scheduler.executionStatus
            p.scheduler.commitIdx (.committed inc)
          commitWave := max p.scheduler.commitWave (p.scheduler.validationStatus
              p.scheduler.commitIdx).maxTriggeredWave
          commitIdx := p.scheduler.commitIdx + 1 } }
  | fetchValidation {w} (hrole : p.role w = .idle)
      (hidx : p.scheduler.validationIdx < p.scheduler.numTxns) :
      Step p [] {
        scheduler := { p.scheduler with validationIdx := p.scheduler.validationIdx + 1 }
        role := update p.role w (.fetchedValidation p.scheduler.validationIdx
            p.scheduler.validationWave) }
  | overrunValidation (hidx : p.scheduler.numTxns ≤ p.scheduler.validationIdx) :
      Step p [] { p with
        scheduler := { p.scheduler with validationIdx := p.scheduler.validationIdx + 1 } }
  | tryValidate {w i inc wave} (hrole : p.role w = .fetchedValidation i wave)
      (hst : p.scheduler.executionStatus i = .executed inc) :
      Step p [] { p with role := update p.role w (.validating i inc wave) }
  | skipValidate {w i wave} (hrole : p.role w = .fetchedValidation i wave)
      (hst : forall inc, p.scheduler.executionStatus i ≠ .executed inc) :
      Step p [] { p with role := update p.role w .idle }
  | fetchExecution {w} (hrole : p.role w = .idle)
      (hidx : p.scheduler.executionIdx < p.scheduler.numTxns) :
      Step p [] {
        scheduler := { p.scheduler with executionIdx := p.scheduler.executionIdx + 1 }
        role := update p.role w (.fetchedExecution p.scheduler.executionIdx) }
  | overrunExecution (hidx : p.scheduler.numTxns ≤ p.scheduler.executionIdx) :
      Step p [] { p with
        scheduler := { p.scheduler with executionIdx := p.scheduler.executionIdx + 1 } }
  | tryExecute {w i inc condvar} (hrole : p.role w = .fetchedExecution i)
      (hst : p.scheduler.executionStatus i = .readyToExecute inc condvar) :
      Step p [.executionTask (i, inc) condvar] {
        scheduler := { p.scheduler with
          executionStatus := update p.scheduler.executionStatus i (.executing inc) }
        role := update p.role w (taskRole i inc condvar) }
  | skipExecute {w i} (hrole : p.role w = .fetchedExecution i)
      (hst : forall inc condvar, p.scheduler.executionStatus i ≠ .readyToExecute inc condvar) :
      Step p [] { p with role := update p.role w .idle }
  | notify {w condvar} (hrole : p.role w = .notifying condvar) :
      Step p [] {
        scheduler := { p.scheduler with condvars := update p.scheduler.condvars condvar true }
        role := update p.role w .idle }
  | writeOutside {w i inc} (hrole : p.role w = .executing i inc false) :
      Step p [] { p with role := update p.role w (.executing i inc true) }
  | lockDependency {w i dep inc} (hrole : p.role w = .executing i inc false) (hdep : dep < i)
      (hlock : p.scheduler.dependencyLock dep = none)
      (hexec : (p.scheduler.executionStatus dep).isExecuted = false) :
      Step p [] {
        scheduler := { p.scheduler with
          dependencyLock := update p.scheduler.dependencyLock dep (some w) }
        role := update p.role w (.depLocked i inc dep) }
  | suspend {w i dep inc} (hrole : p.role w = .depLocked i inc dep)
      (hst : p.scheduler.executionStatus i = .executing inc) :
      Step p [.suspended (i, inc) p.scheduler.nextCondvar] {
        scheduler := { p.scheduler with
          executionStatus := update p.scheduler.executionStatus i
            (.suspended inc p.scheduler.nextCondvar)
          txnDependency := update p.scheduler.txnDependency dep
            (p.scheduler.txnDependency dep ++ [i])
          dependencyLock := update p.scheduler.dependencyLock dep none
          condvars := update p.scheduler.condvars p.scheduler.nextCondvar false
          nextCondvar := p.scheduler.nextCondvar + 1 }
        role := update p.role w (.waiting i inc p.scheduler.nextCondvar) }
  | wake {w i inc condvar} (hrole : p.role w = .waiting i inc condvar)
      (hflag : p.scheduler.condvars condvar = true) :
      Step p [] { p with role := update p.role w (.executing i inc false) }
  | setExecuted {w i inc outside} (hrole : p.role w = .executing i inc outside)
      (hlock : p.scheduler.validationLock i = none)
      (hst : p.scheduler.executionStatus i = .executing inc) :
      Step p [] {
        scheduler := { p.scheduler with
          executionStatus := update p.scheduler.executionStatus i (.executed inc)
          validationLock := update p.scheduler.validationLock i (some w) }
        role := update p.role w (.draining i inc outside) }
  | drain {w i inc outside} (hrole : p.role w = .draining i inc outside)
      (hlock : p.scheduler.dependencyLock i = none) :
      Step p [] {
        scheduler := { p.scheduler with txnDependency := update p.scheduler.txnDependency i [] }
        role := update p.role w (.resuming i inc outside (p.scheduler.txnDependency i) none) }
  | resume {w i dep inc inc' outside deps minDep condvar}
      (hrole : p.role w = .resuming i inc outside (dep :: deps) minDep)
      (hst : p.scheduler.executionStatus dep = .suspended inc' condvar) :
      Step p [] {
        scheduler := { p.scheduler with
          executionStatus := update p.scheduler.executionStatus dep
            (.readyToExecute inc' (some condvar)) }
        role := update p.role w (.resuming i inc outside deps (some (minDep.elim dep (min dep)))) }
  | lowerExecutionIdx {w i inc outside minDep}
      (hrole : p.role w = .resuming i inc outside [] (some minDep)) :
      Step p [] {
        scheduler := { p.scheduler with executionIdx := min p.scheduler.executionIdx minDep }
        role := update p.role w (.scheduling i inc outside) }
  | keepExecutionIdx {w i inc outside} (hrole : p.role w = .resuming i inc outside [] none) :
      Step p [] { p with role := update p.role w (.scheduling i inc outside) }
  | leaveToValidationSweep {w i inc outside} (hrole : p.role w = .scheduling i inc outside)
      (hidx : p.scheduler.validationIdx ≤ i) :
      Step p [] {
        scheduler := { p.scheduler with validationLock := update p.scheduler.validationLock i none }
        role := update p.role w .idle }
  | requireWave {w i inc} (hrole : p.role w = .scheduling i inc false)
      (hidx : i < p.scheduler.validationIdx) :
      Step p [] {
        scheduler := { p.scheduler with
          validationStatus := update p.scheduler.validationStatus i
            { p.scheduler.validationStatus i with requiredWave := p.scheduler.validationWave }
          validationLock := update p.scheduler.validationLock i none }
        role := update p.role w (.validating i inc p.scheduler.validationWave) }
  | startRevalidation {w i inc} (hrole : p.role w = .scheduling i inc true)
      (hidx : i < p.scheduler.validationIdx) :
      Step p [] { p with role := update p.role w (.revalidating i inc) }
  | revalidate {w i inc} (hrole : p.role w = .revalidating i inc) :
      Step p [] {
        scheduler := { p.scheduler with
          validationIdx := min p.scheduler.validationIdx i
          validationWave := p.scheduler.waveAfter i
          validationStatus := p.scheduler.triggeredAfter i
          validationLock := update p.scheduler.validationLock i none }
        role := update p.role w .idle }
  | finishValidation {w i inc wave} (hrole : p.role w = .validating i inc wave)
      (hlock : p.scheduler.validationLock i = none) :
      Step p [] {
        scheduler := { p.scheduler with
          validationStatus := update p.scheduler.validationStatus i
            ((p.scheduler.validationStatus i).validated wave) }
        role := update p.role w .idle }
  | tryAbort {w i inc wave} (hrole : p.role w = .validating i inc wave)
      (hst : p.scheduler.executionStatus i = .executed inc) :
      Step p [.aborted (i, inc)] {
        scheduler := { p.scheduler with
          executionStatus := update p.scheduler.executionStatus i (.aborting inc) }
        role := update p.role w (.aborting i inc) }
  | setAborted {w i inc} (hrole : p.role w = .aborting i inc)
      (hlock : p.scheduler.validationLock i = none)
      (hst : p.scheduler.executionStatus i = .aborting inc) :
      Step p [] {
        scheduler := { p.scheduler with
          executionStatus := update p.scheduler.executionStatus i (.readyToExecute (inc + 1) none)
          validationLock := update p.scheduler.validationLock i (some w) }
        role := update p.role w (.abortDecreasing i) }
  | abortDecrease {w i} (hrole : p.role w = .abortDecreasing i) :
      Step p [] {
        scheduler := { p.scheduler with
          validationIdx := min p.scheduler.validationIdx i
          validationWave := p.scheduler.waveAfter i
          validationStatus := p.scheduler.triggeredAfter i }
        role := update p.role w (.abortLoading i) }
  | leaveToExecutionSweep {w i} (hrole : p.role w = .abortLoading i)
      (hidx : p.scheduler.executionIdx ≤ i) :
      Step p [] {
        scheduler := { p.scheduler with validationLock := update p.scheduler.validationLock i none }
        role := update p.role w .idle }
  | startIncarnation {w i} (hrole : p.role w = .abortLoading i)
      (hidx : i < p.scheduler.executionIdx) :
      Step p [] { p with role := update p.role w (.abortIncarnating i) }
  | incarnate {w i inc condvar} (hrole : p.role w = .abortIncarnating i)
      (hst : p.scheduler.executionStatus i = .readyToExecute inc condvar) :
      Step p [.executionTask (i, inc) condvar] {
        scheduler := { p.scheduler with
          executionStatus := update p.scheduler.executionStatus i (.executing inc)
          validationLock := update p.scheduler.validationLock i none }
        role := update p.role w (taskRole i inc condvar) }
  | skipIncarnation {w i} (hrole : p.role w = .abortIncarnating i)
      (hst : forall inc condvar, p.scheduler.executionStatus i ≠ .readyToExecute inc condvar) :
      Step p [] {
        scheduler := { p.scheduler with validationLock := update p.scheduler.validationLock i none }
        role := update p.role w .idle }

def initial (numTxns : Nat) : Protocol worker where
  scheduler := Scheduler.new numTxns
  role := fun _ => .idle

theorem tryCommit_step (p : Protocol worker) (acquired : Bool) :
    (p.scheduler.tryCommit acquired).1 = p.scheduler ∨
      Step p [] {
        scheduler := (p.scheduler.tryCommit acquired).1
        role := p.role } := by
  unfold Scheduler.tryCommit
  by_cases hidx : p.scheduler.commitIdx = p.scheduler.numTxns
  · rw [if_pos hidx]
    exact .inr (.markDone hidx)
  · rw [if_neg hidx]
    split
    · rename_i hacquired
      split
      · rename_i inc hst
        have hraise := Step.raiseCommitWave hidx hst
        dsimp only
        split
        · rename_i wave hvald
          split
          · rename_i hle
            rcases Nat.max_le.mp hle with ⟨hle, hreq⟩
            rcases Nat.max_le.mp hle with ⟨hcommit, htrig⟩
            exact .inr (.commit hidx hacquired.right hst hvald hcommit htrig hreq)
          · exact .inr hraise
        · exact .inr hraise
      · exact .inl rfl
    · exact .inl rfl

end Protocol

def protocol (worker : Type) [DecidableEq worker] (numTxns : Nat) :
    TransitionSystem (Protocol worker) SchedulerEvent where
  initial p := p = Protocol.initial numTxns
  step p events p' := Protocol.Step p events p'

end OpenLibra.BlockExecutor
