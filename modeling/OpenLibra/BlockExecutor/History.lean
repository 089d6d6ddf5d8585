import OpenLibra.BlockExecutor.Quiescence

/-!
# The history of a transaction

Every step changes the status of at most one transaction, along the transition diagram of the
scheduler.
-/

namespace OpenLibra.BlockExecutor

open Transition List

@[grind] def ExecutionStatus.incarnation : ExecutionStatus -> Incarnation
  | .readyToExecute inc _ => inc
  | .executing inc => inc
  | .suspended inc _ => inc
  | .executed inc => inc
  | .committed inc => inc
  | .aborting inc => inc

inductive StatusStep (i : TxnIndex) (next : DependencyCondvar) :
    ExecutionStatus -> List SchedulerEvent -> ExecutionStatus -> Prop where
  | incarnate (inc : Incarnation) (condvar : Option DependencyCondvar) :
      StatusStep i next (.readyToExecute inc condvar) [.executionTask (i, inc) condvar]
        (.executing inc)
  | suspend (inc : Incarnation) : StatusStep i next (.executing inc) [.suspended (i, inc) next]
        (.suspended inc next)
  | resume (inc : Incarnation) (condvar : DependencyCondvar) :
      StatusStep i next (.suspended inc condvar) [] (.readyToExecute inc (some condvar))
  | finishExecution (inc : Incarnation) : StatusStep i next (.executing inc) [] (.executed inc)
  | commit (inc : Incarnation) : StatusStep i next (.executed inc) [] (.committed inc)
  | tryAbort (inc : Incarnation) : StatusStep i next (.executed inc)
        [.aborted (i, inc)] (.aborting inc)
  | finishAbort (inc : Incarnation) : StatusStep i next (.aborting inc) []
        (.readyToExecute (inc + 1) none)

namespace Protocol

variable {worker : Type} [dw : DecidableEq worker]

attribute [local grind =] count_append count_cons

inductive StatusChange (p : Protocol worker) (events : List SchedulerEvent)
    (p' : Protocol worker) : Prop where
  | keep (hevs : events = []) (hst : forall j, p'.scheduler.executionStatus j =
        p.scheduler.executionStatus j)
      (hnext : p'.scheduler.nextCondvar = p.scheduler.nextCondvar)
  | change {i : TxnIndex} {status status' : ExecutionStatus}
      (hold : p.scheduler.executionStatus i = status)
      (hstep : StatusStep i p.scheduler.nextCondvar status events status')
      (hst : forall j, p'.scheduler.executionStatus j =
        if j = i then status' else p.scheduler.executionStatus j)
      (hnext : p.scheduler.nextCondvar ≤ p'.scheduler.nextCondvar)

variable {p p' : Protocol worker} {events labels : List SchedulerEvent} {numTxns : Nat}

theorem statusChange_of_step (hstep : Step p events p') : StatusChange p events p' := by
  have hupd := Function.update_apply p.scheduler.executionStatus
  cases hstep with
  | commit _ _ hst => exact .change hst (.commit _) (hupd _ _) (Nat.le_refl _)
  | tryExecute _ hst | incarnate _ hst =>
    exact .change hst (.incarnate _ _) (hupd _ _) (Nat.le_refl _)
  | suspend _ hst => exact .change hst (.suspend _) (hupd _ _) (Nat.le_succ _)
  | setExecuted _ _ hst => exact .change hst (.finishExecution _) (hupd _ _) (Nat.le_refl _)
  | resume _ hst => exact .change hst (.resume _ _) (hupd _ _) (Nat.le_refl _)
  | tryAbort _ hst => exact .change hst (.tryAbort _) (hupd _ _) (Nat.le_refl _)
  | setAborted _ _ hst => exact .change hst (.finishAbort _) (hupd _ _) (Nat.le_refl _)
  | _ => exact .keep rfl (fun _ => rfl) rfl

theorem incarnation_step (hstep : Step p events p') (i : TxnIndex) :
    (p.scheduler.executionStatus i).incarnation ≤ (p'.scheduler.executionStatus i).incarnation := by
  cases statusChange_of_step hstep with
  | keep _ hst => exact Nat.le_of_eq (by rw [hst])
  | change hold hchg => cases hchg <;> grind

theorem committed_step (hstep : Step p events p') {i : TxnIndex}
    (hi : (p.scheduler.executionStatus i).isCommitted = true) :
    p'.scheduler.executionStatus i = p.scheduler.executionStatus i ∧ forall inc condvar,
        .executionTask (i, inc) condvar ∉ events := by
  cases statusChange_of_step hstep with
  | keep hevs hst => simp [hevs, hst]
  | change hold hchg => cases hchg <;> grind

/-!
# Events of a version
-/

structure History (labels : List SchedulerEvent) (p : Protocol worker) : Prop where
  untasked : forall i inc, (p.scheduler.executionStatus i).incarnation < inc ∨
      p.scheduler.executionStatus i = .readyToExecute inc none ->
    labels.count (.executionTask (i, inc) none) = 0
  taskedOnce : forall version, labels.count (.executionTask version none) ≤ 1
  unaborted : forall i inc, (p.scheduler.executionStatus i).incarnation ≤ inc ->
    p.scheduler.executionStatus i ≠ .aborting inc ->
    labels.count (.aborted (i, inc)) = 0
  abortedOnce : forall version, labels.count (.aborted version) ≤ 1
  unallocated : forall version condvar, p.scheduler.nextCondvar ≤ condvar ->
    labels.count (.suspended version condvar) = 0
  held : forall i condvar, (p.scheduler.executionStatus i).condvar = some condvar ->
    labels.count (.suspended (i, (p.scheduler.executionStatus i).incarnation) condvar) = 1 ∧
    labels.count (.executionTask
      (i, (p.scheduler.executionStatus i).incarnation) (some condvar)) = 0
  suspendedOnce : forall version condvar, labels.count (.suspended version condvar) ≤ 1
  suspendedVersion : forall version version' condvar, .suspended version condvar ∈ labels ->
    .suspended version' condvar ∈ labels -> version = version'
  resumed : forall version condvar, labels.count (.executionTask version (some condvar)) ≤
      labels.count (.suspended version condvar)

omit dw in
theorem history_initial (numTxns : Nat) : History [] (initial numTxns : Protocol worker) where
  untasked := by simp
  taskedOnce := by simp
  unaborted := by simp
  abortedOnce := by simp
  unallocated := by simp
  held := by simp [initial, Scheduler.new, ExecutionStatus.condvar]
  suspendedOnce := by simp
  suspendedVersion := by simp
  resumed := by simp

theorem history_untasked_step (h : History labels p) (hstep : Step p events p') (i : TxnIndex)
    (inc : Incarnation)
    (hi : (p'.scheduler.executionStatus i).incarnation < inc ∨ p'.scheduler.executionStatus i =
      .readyToExecute inc none) : (labels ++ events).count (.executionTask (i, inc) none) = 0 := by
  have huntasked := h.untasked i inc
  cases statusChange_of_step hstep with
  | keep => grind
  | change hold hchg => cases hchg <;> grind

theorem history_taskedOnce_step (h : History labels p)
    (hstep : Step p events p') (version : Version) : (labels ++ events).count
      (.executionTask version none) ≤ 1 := by
  have honce := h.taskedOnce version
  have huntasked := h.untasked version.1 version.2
  cases statusChange_of_step hstep with
  | keep => grind
  | change hold hchg => cases hchg <;> grind

theorem history_unaborted_step (h : History labels p) (hstep : Step p events p') (i : TxnIndex)
    (inc : Incarnation) (hi : (p'.scheduler.executionStatus i).incarnation ≤ inc)
    (hne : p'.scheduler.executionStatus i ≠ .aborting inc) :
    (labels ++ events).count (.aborted (i, inc)) = 0 := by
  have hunaborted := h.unaborted i inc
  cases statusChange_of_step hstep with
  | keep => grind
  | change hold hchg => cases hchg <;> grind

theorem history_abortedOnce_step (h : History labels p)
    (hstep : Step p events p') (version : Version) :
    (labels ++ events).count (.aborted version) ≤ 1 := by
  have honce := h.abortedOnce version
  have hunaborted := h.unaborted version.1 version.2
  cases statusChange_of_step hstep with
  | keep => grind
  | change hold hchg => cases hchg <;> grind

theorem history_unallocated_step (howns : Owners p') (h : History labels p)
    (hstep : Step p events p') (version : Version) (condvar : DependencyCondvar)
    (hle : p'.scheduler.nextCondvar ≤ condvar) : (labels ++ events).count
      (.suspended version condvar) = 0 := by
  have hunallocated := h.unallocated version condvar
  cases statusChange_of_step hstep with
  | keep => grind
  | @change i _ _ hold hchg =>
    have hbound := howns.heldBound i p.scheduler.nextCondvar
    cases hchg <;> grind

theorem history_held_step (howns : Owners p) (h : History labels p)
    (hstep : Step p events p') (i : TxnIndex) (condvar : DependencyCondvar)
    (hi : (p'.scheduler.executionStatus i).condvar = some condvar) :
    (labels ++ events).count (.suspended
        (i, (p'.scheduler.executionStatus i).incarnation) condvar) = 1 ∧
      (labels ++ events).count (.executionTask (i, (p'.scheduler.executionStatus i).incarnation)
        (some condvar)) = 0 := by
  have hheld := h.held
  have hbound := howns.heldBound i
  have hresumed := h.resumed (i, (p'.scheduler.executionStatus i).incarnation)
  have hunallocated := h.unallocated (i, (p'.scheduler.executionStatus i).incarnation)
  have hunique := howns.heldUnique i
  cases statusChange_of_step hstep with
  | keep => grind
  | change hold hchg => cases hchg <;> grind

theorem history_suspendedOnce_step (h : History labels p) (hstep : Step p events p')
    (version : Version) (condvar : DependencyCondvar) : (labels ++ events).count
      (.suspended version condvar) ≤ 1 := by
  have honce := h.suspendedOnce version condvar
  have hunallocated := h.unallocated version condvar
  cases statusChange_of_step hstep with
  | keep => grind
  | change hold hchg => cases hchg <;> grind

theorem history_suspendedVersion_step (h : History labels p) (hstep : Step p events p')
    (version version' : Version) (condvar : DependencyCondvar)
    (hmem : .suspended version condvar ∈ labels ++ events)
    (hmem' : .suspended version' condvar ∈ labels ++ events) : version = version' := by
  have hver := h.suspendedVersion version version' condvar
  have hunallocated := fun version => count_eq_zero.mp
    (h.unallocated version p.scheduler.nextCondvar (Nat.le_refl _))
  cases statusChange_of_step hstep with
  | keep => grind
  | change hold hchg => cases hchg <;> grind

theorem history_resumed_step (h : History labels p) (hstep : Step p events p')
    (version : Version) (condvar : DependencyCondvar) :
    (labels ++ events).count (.executionTask version (some condvar)) ≤ (labels ++ events).count
        (.suspended version condvar) := by
  have hresumed := h.resumed version condvar
  have hheld := h.held version.1
  cases statusChange_of_step hstep with
  | keep => grind
  | change hold hchg => cases hchg <;> grind

theorem history_step (hlocks : Locks p) (howns : Owners p)
    (h : History labels p) (hstep : Step p events p') : History (labels ++ events) p' where
  untasked := history_untasked_step h hstep
  taskedOnce := history_taskedOnce_step h hstep
  unaborted := history_unaborted_step h hstep
  abortedOnce := history_abortedOnce_step h hstep
  unallocated := history_unallocated_step (owners_step hlocks howns hstep) h hstep
  held := history_held_step howns h hstep
  suspendedOnce := history_suspendedOnce_step h hstep
  suspendedVersion := history_suspendedVersion_step h hstep
  resumed := history_resumed_step h hstep

theorem history_of_execution (h : (protocol worker numTxns).Execution labels p) :
    History labels p := by
  refine TransitionSystem.Execution.invariant ?_ ?_ h
  · intro s hs
    rw [hs]
    exact history_initial numTxns
  · intro _ _ _ _ hs hhistory hstep
    have hinv := invariant_of_reachable hs.reachable
    exact history_step hinv.locks hinv.owners hhistory hstep

theorem incarnation_run (h : TransitionSystem.Run (protocol worker numTxns) p labels p')
    (i : TxnIndex) :
    (p.scheduler.executionStatus i).incarnation ≤ (p'.scheduler.executionStatus i).incarnation := by
  induction h with
  | refl => exact Nat.le_refl _
  | snoc _ step ih => exact Nat.le_trans ih (incarnation_step step i)

theorem committed_run (h : TransitionSystem.Run (protocol worker numTxns) p labels p')
    {i : TxnIndex} (hi : (p.scheduler.executionStatus i).isCommitted = true) :
    p'.scheduler.executionStatus i = p.scheduler.executionStatus i ∧ forall inc condvar,
        .executionTask (i, inc) condvar ∉ labels := by
  induction h with
  | refl => simp
  | snoc _ step ih =>
    rcases committed_step step (ih.left ▸ hi) with ⟨hst, hnone⟩
    refine ⟨hst.trans ih.left, fun inc condvar hmem => ?_⟩
    rcases mem_append.mp hmem with hmem | hmem
    · exact ih.right inc condvar hmem
    · exact hnone inc condvar hmem

end Protocol

end OpenLibra.BlockExecutor
