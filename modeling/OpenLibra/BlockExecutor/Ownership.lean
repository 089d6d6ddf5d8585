import OpenLibra.BlockExecutor.Protocol
import OpenLibra.Transition.Locks

/-!
# Ownership of transactions

At any time at most one worker executes or aborts a given transaction, and its role agrees with
the status of the transaction.
-/

namespace OpenLibra.BlockExecutor

open Transition Function

/-!
# What a role stands for
-/

namespace Role

@[grind] def holdsValidation : Role -> Option TxnIndex
  | draining i _ _ => some i
  | resuming i _ _ _ _ => some i
  | scheduling i _ _ => some i
  | revalidating i _ => some i
  | abortDecreasing i => some i
  | abortLoading i => some i
  | abortIncarnating i => some i
  | _ => none

@[grind] def holdsDependency : Role -> Option TxnIndex
  | depLocked _ _ dep => some dep
  | _ => none

@[grind] def active : Role -> Option TxnIndex
  | executing i _ _ => some i
  | depLocked i _ _ => some i
  | waiting i _ _ => some i
  | aborting i _ => some i
  | _ => none

/-- The version whose `finish_execution` the worker is inside. -/
@[grind] def finishes : Role -> Option Version
  | draining i inc _ => some (i, inc)
  | resuming i inc _ _ _ => some (i, inc)
  | scheduling i inc _ => some (i, inc)
  | revalidating i inc => some (i, inc)
  | _ => none

/-- The transaction whose `finish_abort` the worker is inside. -/
@[grind] def retracts : Role -> Option TxnIndex
  | abortDecreasing i => some i
  | abortLoading i => some i
  | abortIncarnating i => some i
  | _ => none

@[grind] def index : Role -> Option TxnIndex
  | idle => none
  | notifying _ => none
  | fetchedValidation i _ => some i
  | fetchedExecution i => some i
  | executing i _ _ => some i
  | depLocked i _ _ => some i
  | waiting i _ _ => some i
  | draining i _ _ => some i
  | resuming i _ _ _ _ => some i
  | scheduling i _ _ => some i
  | revalidating i _ => some i
  | validating i _ _ => some i
  | aborting i _ => some i
  | abortDecreasing i => some i
  | abortLoading i => some i
  | abortIncarnating i => some i

variable {role : Role} {i : TxnIndex}

theorem active_eq_some (h : role.active = some i) :
    (exists inc outside, role = executing i inc outside) ∨
      (exists inc dep, role = depLocked i inc dep) ∨
      (exists inc condvar, role = waiting i inc condvar) ∨ (exists inc, role = aborting i inc) := by
  cases role <;> simp_all [active]

theorem holdsValidation_of_finishes {inc} (h : role.finishes = some (i, inc)) :
    role.holdsValidation = some i := by
  cases role <;> simp_all [holdsValidation, finishes]

theorem holdsValidation_of_retracts (h : role.retracts = some i) :
    role.holdsValidation = some i := by
  cases role <;> simp_all [holdsValidation, retracts]

theorem holdsValidation_eq_some (h : role.holdsValidation = some i) :
    (exists inc, role.finishes = some (i, inc)) ∨ role.retracts = some i := by
  cases role <;> simp_all [holdsValidation, finishes, retracts]

end Role

namespace ExecutionStatus

@[grind] def claimed : ExecutionStatus -> Bool
  | readyToExecute _ (some _) => true
  | executing _ => true
  | suspended _ _ => true
  | aborting _ => true
  | _ => false

@[grind] def unfinished : ExecutionStatus -> Bool
  | readyToExecute _ _ => true
  | executing _ => true
  | suspended _ _ => true
  | _ => false

@[grind] def condvar : ExecutionStatus -> Option DependencyCondvar
  | readyToExecute _ condvar => condvar
  | suspended _ condvar => some condvar
  | _ => none

end ExecutionStatus

namespace Protocol

variable {worker : Type} [dw : DecidableEq worker]

attribute [local grind =] update_apply
attribute [local grind .] taskRole_cases

def InBlock (p : Protocol worker) : Prop :=
  forall w i, (p.role w).index = some i -> i < p.scheduler.numTxns

omit dw in
theorem inBlock_initial (numTxns : Nat) : InBlock (initial numTxns : Protocol worker) := by
  intro w i hw
  cases hw

variable {p p' : Protocol worker} {events : List SchedulerEvent}

theorem inBlock_step (h : InBlock p) (hstep : Step p events p') : InBlock p' := by
  intro w i hw
  have hold := h w i
  have hactor {w : worker} := h w i
  cases hstep <;> grind

/-!
# Locks
-/

structure Locks (p : Protocol worker) : Prop where
  validation : LocksAgree p.scheduler.validationLock (fun w => (p.role w).holdsValidation)
  dependency : LocksAgree p.scheduler.dependencyLock (fun w => (p.role w).holdsDependency)

omit dw in
theorem locks_initial (numTxns : Nat) : Locks (initial numTxns : Protocol worker) where
  validation := by simp [LocksAgree, initial, Scheduler.new, Role.holdsValidation]
  dependency := by simp [LocksAgree, initial, Scheduler.new, Role.holdsDependency]

theorem holds_update {alpha : Type} (f : Role -> alpha)
    (role : worker -> Role) (w : worker) (r : Role) :
    (fun w' => f (update role w r w')) = update (fun w' => f (role w')) w (f r) :=
  comp_update f role w r

section

variable {lock : TxnIndex -> Option worker} {role : worker -> Role}
  {holds : Role -> Option TxnIndex} {w : worker} {i : TxnIndex} {r : Role}

theorem locksAgree_acquire (h : LocksAgree lock (fun w => holds (role w))) (hfree : lock i = none)
    (hw : holds (role w) = none) (hr : holds r = some i) : LocksAgree (update lock i (some w))
      (fun w' => holds (update role w r w')) := by
  rw [holds_update, hr]
  exact h.acquire hfree hw

theorem locksAgree_release (h : LocksAgree lock (fun w => holds (role w)))
    (hw : holds (role w) = some i) (hr : holds r = none) : LocksAgree (update lock i none)
      (fun w' => holds (update role w r w')) := by
  rw [holds_update, hr]
  exact h.release hw

theorem locksAgree_keep (h : LocksAgree lock (fun w => holds (role w)))
    (hr : holds r = holds (role w)) : LocksAgree lock (fun w' => holds (update role w r w')) := by
  rw [holds_update, hr, update_eq_self]
  exact h

end

theorem locks_validation_step (h : Locks p) (hstep : Step p events p') :
    LocksAgree p'.scheduler.validationLock (fun w => (p'.role w).holdsValidation) := by
  have hagree := h.validation
  cases hstep with
  | setExecuted hrole hlock | setAborted hrole hlock =>
    exact locksAgree_acquire hagree hlock (by rw [hrole]; rfl) rfl
  | leaveToValidationSweep hrole | requireWave hrole | revalidate hrole
  | leaveToExecutionSweep hrole | skipIncarnation hrole =>
    exact locksAgree_release hagree (by rw [hrole]; rfl) rfl
  | incarnate hrole => exact locksAgree_release hagree (by rw [hrole]; rfl) (by grind)
  | _ =>
    -- Some steps change no role at all.
    first
    | exact hagree
    | exact locksAgree_keep hagree (by grind)

theorem locks_dependency_step (h : Locks p) (hstep : Step p events p') :
    LocksAgree p'.scheduler.dependencyLock (fun w => (p'.role w).holdsDependency) := by
  have hagree := h.dependency
  cases hstep with
  | lockDependency hrole _ hlock => exact locksAgree_acquire hagree hlock (by rw [hrole]; rfl) rfl
  | suspend hrole => exact locksAgree_release hagree (by rw [hrole]; rfl) rfl
  | _ =>
    -- Some steps change no role at all.
    first
    | exact hagree
    | exact locksAgree_keep hagree (by grind)

theorem locks_step (h : Locks p) (hstep : Step p events p') : Locks p' where
  validation := locks_validation_step h hstep
  dependency := locks_dependency_step h hstep

/-!
# Owners
-/

structure Owners (p : Protocol worker) : Prop where
  executing : forall w i inc outside, p.role w = .executing i inc outside ->
    p.scheduler.executionStatus i = .executing inc
  depLocked : forall w i inc dep, p.role w = .depLocked i inc dep ->
    p.scheduler.executionStatus i = .executing inc
  waiting : forall w i inc condvar, p.role w = .waiting i inc condvar ->
    p.scheduler.executionStatus i = .executing inc ∨ p.scheduler.executionStatus i =
        .suspended inc condvar ∨
      p.scheduler.executionStatus i = .readyToExecute inc (some condvar)
  aborting : forall w i inc, p.role w = .aborting i inc ->
    p.scheduler.executionStatus i = .aborting inc
  unique : forall w w' i, (p.role w).active = some i -> (p.role w').active = some i -> w = w'
  finishing : forall w i inc, (p.role w).finishes = some (i, inc) ->
    p.scheduler.executionStatus i = .executed inc ∨ p.scheduler.executionStatus i = .aborting inc
  retracting : forall w i, (p.role w).retracts = some i ->
    (p.scheduler.executionStatus i).unfinished = true
  heldBound : forall i condvar, (p.scheduler.executionStatus i).condvar = some condvar ->
    condvar < p.scheduler.nextCondvar
  heldSilent : forall i condvar, (p.scheduler.executionStatus i).condvar = some condvar ->
    p.scheduler.condvars condvar = false ∧ forall w, p.role w ≠ .notifying condvar
  heldUnique : forall i j condvar, (p.scheduler.executionStatus i).condvar = some condvar ->
    (p.scheduler.executionStatus j).condvar = some condvar -> i = j
  notifyingBound : forall w condvar, p.role w = .notifying condvar ->
    condvar < p.scheduler.nextCondvar

omit dw in
theorem owners_initial (numTxns : Nat) : Owners (initial numTxns : Protocol worker) where
  executing := by simp [initial]
  depLocked := by simp [initial]
  waiting := by simp [initial]
  aborting := by simp [initial]
  unique := by simp [initial, Role.active]
  finishing := by simp [initial, Role.finishes]
  retracting := by simp [initial, Role.retracts]
  heldBound := by simp [initial, Scheduler.new, ExecutionStatus.condvar]
  heldSilent := by simp [initial, Scheduler.new, ExecutionStatus.condvar]
  heldUnique := by simp [initial, Scheduler.new, ExecutionStatus.condvar]
  notifyingBound := by simp [initial]

omit dw in
theorem Owners.claimed (h : Owners p) {w : worker} {i : TxnIndex}
    (hactive : (p.role w).active = some i) : (p.scheduler.executionStatus i).claimed = true := by
  rcases Role.active_eq_some hactive with
    ⟨inc, outside, hrole⟩ | ⟨inc, dep, hrole⟩ | ⟨inc, condvar, hrole⟩ |
    ⟨inc, hrole⟩
  · rw [h.executing w i inc outside hrole]
    rfl
  · rw [h.depLocked w i inc dep hrole]
    rfl
  · rcases h.waiting w i inc condvar hrole with hs | hs | hs
    · rw [hs]
      rfl
    · rw [hs]
      rfl
    · rw [hs]
      rfl
  · rw [h.aborting w i inc hrole]
    rfl

theorem owners_unique_step (h : Owners p) (hstep : Step p events p') (w w' : worker) (i : TxnIndex)
    (hw : (p'.role w).active = some i) (hw' : (p'.role w').active = some i) : w = w' := by
  have hunique := h.unique
  have hclaimed {w : worker} {i : TxnIndex} := h.claimed (w := w) (i := i)
  cases hstep <;> grind

theorem owners_executing_step (h : Owners p) (hstep : Step p events p') (w : worker) (i : TxnIndex)
    (inc : Incarnation) (outside : Bool) (hw : p'.role w = .executing i inc outside) :
    p'.scheduler.executionStatus i = .executing inc := by
  have hexecuting := h.executing
  have habrt := h.aborting
  have hwaiting := h.waiting
  have hsilent := h.heldSilent
  cases hstep with
  | @suspend owner | @setExecuted owner =>
    have hunique := h.unique w owner i
    grind
  | _ => grind

theorem owners_depLocked_step (h : Owners p) (hstep : Step p events p') (w : worker) (i : TxnIndex)
    (inc : Incarnation) (dep : TxnIndex) (hw : p'.role w = .depLocked i inc dep) :
    p'.scheduler.executionStatus i = .executing inc := by
  have hexecuting := h.executing
  have hdepLocked := h.depLocked
  cases hstep with
  | @suspend owner | @setExecuted owner =>
    have hunique := h.unique w owner i
    grind
  | _ => grind

theorem owners_waiting_step (h : Owners p) (hstep : Step p events p') (w : worker) (i : TxnIndex)
    (inc : Incarnation) (condvar : DependencyCondvar) (hw : p'.role w = .waiting i inc condvar) :
    p'.scheduler.executionStatus i = .executing inc ∨
      p'.scheduler.executionStatus i = .suspended inc condvar ∨
      p'.scheduler.executionStatus i = .readyToExecute inc (some condvar) := by
  have hwaiting := h.waiting
  cases hstep with
  | @suspend owner | @setExecuted owner =>
    have hunique := h.unique w owner i
    grind
  | _ => grind

theorem owners_aborting_step (h : Owners p) (hstep : Step p events p') (w : worker) (i : TxnIndex)
    (inc : Incarnation) (hw : p'.role w = .aborting i inc) :
    p'.scheduler.executionStatus i = .aborting inc := by
  have habrt := h.aborting
  cases hstep with
  | @setAborted owner =>
    have hunique := h.unique w owner i
    grind
  | _ => grind

theorem owners_finishing_step (hlocks : Locks p) (h : Owners p) (hstep : Step p events p')
    (w : worker) (i : TxnIndex) (inc : Incarnation) (hw : (p'.role w).finishes = some (i, inc)) :
    p'.scheduler.executionStatus i = .executed inc ∨
      p'.scheduler.executionStatus i = .aborting inc := by
  have hfinishing := h.finishing
  have hfree {w : worker} {i : TxnIndex} {inc : Incarnation}
    (hlock : p.scheduler.validationLock i = none) :
    (p.role w).finishes ≠ some (i, inc) := fun hw =>
    hlocks.validation.not_holds_of_free hlock w (Role.holdsValidation_of_finishes hw)
  cases hstep <;> grind

theorem owners_retracting_step (hlocks : Locks p) (h : Owners p) (hstep : Step p events p')
    (w : worker) (i : TxnIndex) (hw : (p'.role w).retracts = some i) :
    (p'.scheduler.executionStatus i).unfinished = true := by
  have hretracting := h.retracting
  have hfree {w : worker} {i : TxnIndex} (hlock : p.scheduler.validationLock i = none) :
    (p.role w).retracts ≠ some i := fun hw =>
    hlocks.validation.not_holds_of_free hlock w (Role.holdsValidation_of_retracts hw)
  cases hstep <;> grind

theorem owners_heldBound_step (h : Owners p) (hstep : Step p events p') (i : TxnIndex)
    (condvar : DependencyCondvar)
    (hheld : (p'.scheduler.executionStatus i).condvar = some condvar) :
    condvar < p'.scheduler.nextCondvar := by
  have hbound := h.heldBound
  cases hstep <;> grind

theorem owners_heldSilent_step (h : Owners p) (hstep : Step p events p') (i : TxnIndex)
    (condvar : DependencyCondvar)
    (hheld : (p'.scheduler.executionStatus i).condvar = some condvar) :
    p'.scheduler.condvars condvar = false ∧ forall w, p'.role w ≠ .notifying condvar := by
  have hsilent := h.heldSilent
  have hbound := h.heldBound
  have hunique := h.heldUnique
  have hnotifying := h.notifyingBound
  cases hstep <;> grind

theorem owners_heldUnique_step (h : Owners p) (hstep : Step p events p') (i j : TxnIndex)
    (condvar : DependencyCondvar) (hi : (p'.scheduler.executionStatus i).condvar = some condvar)
    (hj : (p'.scheduler.executionStatus j).condvar = some condvar) : i = j := by
  have hbound := h.heldBound
  have hunique := h.heldUnique
  cases hstep <;> grind

theorem owners_notifyingBound_step (h : Owners p) (hstep : Step p events p') (w : worker)
    (condvar : DependencyCondvar) (hw : p'.role w = .notifying condvar) :
    condvar < p'.scheduler.nextCondvar := by
  have hbound := h.heldBound
  have hnotifying := h.notifyingBound
  cases hstep <;> grind

theorem owners_step (hlocks : Locks p) (h : Owners p) (hstep : Step p events p') : Owners p' where
  executing := owners_executing_step h hstep
  depLocked := owners_depLocked_step h hstep
  waiting := owners_waiting_step h hstep
  aborting := owners_aborting_step h hstep
  unique := owners_unique_step h hstep
  finishing := owners_finishing_step hlocks h hstep
  retracting := owners_retracting_step hlocks h hstep
  heldBound := owners_heldBound_step h hstep
  heldSilent := owners_heldSilent_step h hstep
  heldUnique := owners_heldUnique_step h hstep
  notifyingBound := owners_notifyingBound_step h hstep

end Protocol

end OpenLibra.BlockExecutor
