import OpenLibra.BlockExecutor.Refinement

/-!
# What the scheduler guarantees to the executor

The invariants of the protocol for the workers: no work is lost, no suspended transaction is
forgotten, and no version is handed out twice.
-/

namespace OpenLibra.BlockExecutor

open Transition

section

variable {worker txn key value path output error : Type} [DecidableEq worker] [dk : DecidableEq key]
  [DecidableEq path] [tw : TransactionWrite value] [ModulePath key path]
  [tx : TransactionOutput output key value] {ctx : BlockContext txn key output error}

/-- Nothing is left to execute or to validate, and the block can be committed to
its end. -/
structure Scheduler.Settled (scheduler : Scheduler worker) : Prop where
  notReady : forall i inc condvar, i < scheduler.numTxns ->
    scheduler.executionStatus i ≠ .readyToExecute inc condvar
  notSuspended : forall i inc condvar, scheduler.executionStatus i ≠ .suspended inc condvar
  validated : forall i inc, i < scheduler.numTxns -> scheduler.executionStatus i = .executed inc ->
    exists wave, (scheduler.validationStatus i).maybeMaxValidatedWave = some wave ∧
      scheduler.commitWave ≤ wave ∧
      (scheduler.validationStatus i).requiredWave ≤ wave ∧
      forall j, j ≤ i -> (scheduler.validationStatus j).maxTriggeredWave ≤ wave
  commits : forall count, scheduler.numTxns - scheduler.commitIdx < count ->
    (scheduler.tryCommits count).doneMarker = true ∧ forall i, i < scheduler.numTxns ->
        ((scheduler.tryCommits count).executionStatus i).isCommitted = true

/-- When every worker is idle and both indices have left the block, no
transaction is stuck. -/
theorem settled_of_idle {s : State worker key value path output error}
    (hs : (parallelExecution worker value path ctx).Reachable s)
    (hidle : forall w, (s.pc w).role = Role.idle)
    (hexecution : s.scheduler.numTxns ≤ s.scheduler.executionIdx)
    (hvalidation : s.scheduler.numTxns ≤ s.scheduler.validationIdx) :
    s.scheduler.Settled := by
  have hinv := protocol_invariant hs
  have hquiet : s.protocol.Quiescent := ⟨hidle, hexecution, hvalidation⟩
  constructor
  · intro i inc condvar hi hstatus
    rcases hquiet.committable hinv hi with hcommitted | ⟨_, _, hexecuted, _⟩
    · rw [show s.protocol.scheduler = s.scheduler from rfl, hstatus]
        at hcommitted
      cases hcommitted
    · cases hstatus.symm.trans hexecuted
  · intro i inc _ hstatus
    have hclaimed := hquiet.not_claimed hinv i
    rw [show s.protocol.scheduler = s.scheduler from rfl, hstatus] at hclaimed
    cases hclaimed
  · intro _ _ hi hstatus
    rcases hquiet.committable hinv hi with
      hcommitted | ⟨_, wave, _, hwave, hcommit, hcurrent⟩
    · rw [show s.protocol.scheduler = s.scheduler from rfl, hstatus]
        at hcommitted
      cases hcommitted
    · exact ⟨wave, hwave, hcommit, hcurrent.required, hcurrent.triggered⟩
  · intro count hcount
    exact hquiet.tryCommits hinv count hcount

end

theorem settled_of_idle_chain : exists s : State Bool Chain.Key WriteOp Nat Chain.Output Unit,
    (parallelExecution Bool WriteOp Nat Chain.context).Reachable s ∧
    s.scheduler.commitIdx = 2 ∧ s.scheduler.numTxns = 3 ∧
    s.scheduler.Settled := by
  have hs := (Chain.execution_after Chain.validates).reachable
  refine ⟨_, hs, by decide +kernel, by decide +kernel, ?_⟩
  exact settled_of_idle hs (by decide +kernel) (by decide +kernel)
    (by decide +kernel)

section

variable {worker txn key value path output error : Type} [DecidableEq worker] [dk : DecidableEq key]
  [DecidableEq path] [tw : TransactionWrite value] [ModulePath key path]
  [tx : TransactionOutput output key value] {ctx : BlockContext txn key output error}

/-!
# No forgotten dependency
-/

/-- A suspended transaction waits in exactly one list, once.  The list belongs
to a lower transaction that is still to be executed or has just been executed,
or has been taken out by the worker that executed the lower transaction. -/
structure State.DependenciesSound
    (s : State worker key value path output error) : Prop where
  suspended : forall j, (s.scheduler.executionStatus j).isSuspended = true <->
      exists slot, j ∈ s.protocol.dependencySlots slot
  unique : forall j slot slot', j ∈ s.protocol.dependencySlots slot ->
    j ∈ s.protocol.dependencySlots slot' -> slot = slot'
  once : forall slot, (s.protocol.dependencySlots slot).Nodup
  stored : forall i j, j ∈ s.scheduler.txnDependency i -> i < j ∧
      ((s.scheduler.executionStatus i).isExecuted = false ∨
        exists w inc outside, s.pc w = .drain (i, inc) outside)
  taken : forall w version outside txnDeps minDep,
    s.pc w = .resume version outside txnDeps minDep ->
    forall j, j ∈ txnDeps -> version.1 < j
  suspend : forall w version depIdx program reads, s.pc w = .suspend version depIdx program reads ->
    s.scheduler.executionStatus version.1 = .executing version.2
  resume : forall w version outside dep txnDeps minDep,
    s.pc w = .resume version outside (dep :: txnDeps) minDep ->
    exists inc condvar, s.scheduler.executionStatus dep = .suspended inc condvar
  finishExecution : forall w version outside, s.pc w = .finishExecution version outside ->
    s.scheduler.executionStatus version.1 = .executing version.2
  finishAbort : forall w version keys, s.pc w = .markEstimates version keys ->
    s.scheduler.executionStatus version.1 = .aborting version.2
  panics : forall w, s.panicked w ≠ some .suspendUnreachable ∧
      s.panicked w ≠ some .resumeUnreachable ∧
      s.panicked w ≠ some .setExecutedStatus ∧
      s.panicked w ≠ some .setAbortedStatus

variable {s : State worker key value path output error} {w : worker} {version : Version}
  {outside : Bool}

theorem resume_suspended (hs : (parallelExecution worker value path ctx).Reachable s)
    {dep : TxnIndex} {txnDeps} {minDep}
    (hpc : s.pc w = .resume version outside (dep :: txnDeps) minDep) :
    exists inc condvar, s.scheduler.executionStatus dep = .suspended inc condvar := by
  have hmem : dep ∈ s.protocol.dependencySlots (.taken w) := by
    rw [Protocol.dependencySlots, State.protocol_role hpc]
    exact List.mem_cons_self
  have hsusp := ((protocol_invariant hs).dependencies.suspended dep).mp ⟨_, hmem⟩
  unfold ExecutionStatus.isSuspended at hsusp
  split at hsusp
  · next inc condvar hst => exact ⟨inc, condvar, hst⟩
  · cases hsusp

theorem suspend_executing (hs : (parallelExecution worker value path ctx).Reachable s)
    {depIdx : TxnIndex} {program} {reads} (hpc : s.pc w = .suspend version depIdx program reads) :
    s.scheduler.executionStatus version.1 = .executing version.2 :=
  (protocol_invariant hs).owners.depLocked w version.1 version.2 depIdx (State.protocol_role hpc)

theorem finishExecution_executing (hs : (parallelExecution worker value path ctx).Reachable s)
    (hpc : s.pc w = .finishExecution version outside) :
    s.scheduler.executionStatus version.1 = .executing version.2 :=
  (protocol_invariant hs).owners.executing w version.1 version.2 outside (State.protocol_role hpc)

theorem markEstimates_aborting (hs : (parallelExecution worker value path ctx).Reachable s)
    {keys : List key} (hpc : s.pc w = .markEstimates version keys) :
    s.scheduler.executionStatus version.1 = .aborting version.2 :=
  (protocol_invariant hs).owners.aborting w version.1 version.2 (State.protocol_role hpc)

theorem scheduler_not_panicked
    (hs : (parallelExecution worker value path ctx).Reachable s) (w : worker) :
    s.panicked w ≠ some .suspendUnreachable ∧ s.panicked w ≠ some .resumeUnreachable ∧
      s.panicked w ≠ some .setExecutedStatus ∧ s.panicked w ≠ some .setAbortedStatus := by
  refine ⟨not_panicked_of_reachable ?_ hs w, not_panicked_of_reachable ?_ hs w,
    not_panicked_of_reachable ?_ hs w, not_panicked_of_reachable ?_ hs w⟩
  · intro s w hs _ hcause
    cases hcause with
    | suspend hpc hst => exact hst _ (suspend_executing hs hpc)
  · intro s w hs _ hcause
    cases hcause with
    | resume hpc hst =>
      rcases resume_suspended hs hpc with ⟨inc, condvar, hsusp⟩
      exact hst inc condvar hsusp
  · intro s w hs _ hcause
    cases hcause with
    | setExecutedStatus hpc hst => exact hst (finishExecution_executing hs hpc)
  · intro _ _ hs _ hcause
    cases hcause with
    | setAbortedStatus hpc hst => exact hst (markEstimates_aborting hs hpc)

omit dk tw tx in
theorem Pc.role_eq_draining {pc : Pc key value output error} {i : TxnIndex}
    {inc : Incarnation} (h : pc.role = .draining i inc outside) : pc = .drain (i, inc) outside := by
  cases pc with
  | loopTop task =>
    rcases task with ⟨version, _ | _⟩ | ⟨version, wave⟩ | _ | _ <;>
      cases h
  | drain =>
    cases h
    rfl
  | _ => cases h

theorem dependencies_sound {s : State worker key value path output error}
    (hs : (parallelExecution worker value path ctx).Reachable s) :
    s.DependenciesSound := by
  have hinv := (protocol_invariant hs).dependencies
  constructor
  · intro j
    exact (hinv.suspended j).symm
  · intro j slot slot' hslot hslot'
    exact hinv.spread.unique slot slot' j hslot hslot'
  · exact hinv.spread.nodup
  · intro i j hj
    rcases hinv.stored i j hj with ⟨hlt, hpending | ⟨w, inc, outside, hw⟩⟩
    · exact ⟨hlt, Or.inl hpending⟩
    · exact ⟨hlt, Or.inr ⟨w, inc, outside, Pc.role_eq_draining hw⟩⟩
  · intro w version outside txnDeps minDep hpc
    exact hinv.taken w version.1 version.2 outside txnDeps minDep (State.protocol_role hpc)
  · intro w version _ _ _ hpc
    exact suspend_executing hs hpc
  · intro w version outside _ _ _ hpc
    exact resume_suspended hs hpc
  · intro w version _ hpc
    exact finishExecution_executing hs hpc
  · intro _ _ _ hpc
    exact markEstimates_aborting hs hpc
  · exact scheduler_not_panicked hs

end

theorem dependencies_sound_chain : exists s : State Bool Chain.Key WriteOp Nat Chain.Output Unit,
    (parallelExecution Bool WriteOp Nat Chain.context).Reachable s ∧
    s.scheduler.txnDependency 1 = [2] ∧ s.DependenciesSound := by
  have hs := (Chain.execution_after Chain.suspends).reachable
  exact ⟨_, hs, by decide +kernel, dependencies_sound hs⟩

section

variable {worker txn key value path output error : Type} [DecidableEq worker] [dk : DecidableEq key]
  [DecidableEq path] [tw : TransactionWrite value] [ModulePath key path]
  [tx : TransactionOutput output key value] {ctx : BlockContext txn key output error}

/-- What the history of a run says about the tasks handed out in it.  The events
of a version are counted over the whole history. -/
structure TasksUnique (ctx : BlockContext txn key output error)
    (labels : List (Event key output error))
    (s : State worker key value path output error) : Prop where
  taskedOnce : forall version, (schedulerEvents labels).count (.executionTask version none) ≤ 1
  abortedOnce : forall version, (schedulerEvents labels).count (.aborted version) ≤ 1
  suspendedOnce : forall version condvar, (schedulerEvents labels).count
    (.suspended version condvar) ≤ 1
  suspendedVersion : forall version version' condvar, .suspended version condvar ∈ labels ->
    .suspended version' condvar ∈ labels -> version = version'
  resumed : forall version condvar, (schedulerEvents labels).count
        (.executionTask version (some condvar)) ≤
      (schedulerEvents labels).count (.suspended version condvar)
  committed : forall i, i < s.scheduler.commitIdx <->
    (s.scheduler.executionStatus i).isCommitted = true
  incarnation : forall more s',
    TransitionSystem.Run (parallelExecution worker value path ctx) s more s' ->
    forall i, (s.scheduler.executionStatus i).incarnation ≤
      (s'.scheduler.executionStatus i).incarnation
  final : forall more s', TransitionSystem.Run (parallelExecution worker value path ctx) s more
      s' ->
    forall i, (s.scheduler.executionStatus i).isCommitted = true ->
      s'.scheduler.executionStatus i = s.scheduler.executionStatus i ∧
        forall inc condvar, .executionTask (i, inc) condvar ∉ more

omit dk in
theorem mem_schedulerEvents {labels : List (Event key output error)}
    {event : Event key output error} {event' : SchedulerEvent}
    (hmem : event ∈ labels) (hevent : event.scheduling = some event') :
    event' ∈ schedulerEvents labels :=
  List.mem_filterMap.mpr ⟨event, hmem, hevent⟩

theorem tasks_unique {labels : List (Event key output error)}
    {s : State worker key value path output error}
    (hs : (parallelExecution worker value path ctx).Execution labels s) :
    TasksUnique ctx labels s := by
  have hhistory := Protocol.history_of_execution ((refinement worker value path ctx).execution hs)
  have hcommits := (protocol_invariant hs.reachable).commits
  have hrun {more : List (Event key output error)}
    {s' : State worker key value path output error}
    (h : TransitionSystem.Run (parallelExecution worker value path ctx) s more s') :=
    (refinement worker value path ctx).run hs.reachable h
  constructor
  · exact hhistory.taskedOnce
  · exact hhistory.abortedOnce
  · exact hhistory.suspendedOnce
  · intro version version' condvar hmem hmem'
    exact hhistory.suspendedVersion version version' condvar
      (mem_schedulerEvents hmem rfl) (mem_schedulerEvents hmem' rfl)
  · exact hhistory.resumed
  · exact hcommits.committed
  · intro more s' h i
    exact Protocol.incarnation_run (hrun h) i
  · intro _ _ h _ hi
    rcases Protocol.committed_run (hrun h) hi with ⟨hstatus, htasks⟩
    refine ⟨hstatus, fun inc condvar hmem => ?_⟩
    exact htasks inc condvar (mem_schedulerEvents hmem rfl)

end

theorem tasks_unique_chain : exists labels,
    exists s : State Bool Chain.Key WriteOp Nat Chain.Output Unit,
      (parallelExecution Bool WriteOp Nat Chain.context).Execution labels s ∧
      schedulerEvents labels = [SchedulerEvent.executionTask (0, 0) none,
          SchedulerEvent.executionTask (1, 0) none,
          SchedulerEvent.aborted (1, 0),
          SchedulerEvent.executionTask (2, 0) none,
          SchedulerEvent.suspended (2, 0) 0,
          SchedulerEvent.executionTask (1, 1) none,
          SchedulerEvent.executionTask (2, 0) (some 0)] ∧
      TasksUnique Chain.context labels s := by
  have hs := Chain.execution_after Chain.finishes
  exact ⟨_, _, hs, by decide +kernel, tasks_unique hs⟩

end OpenLibra.BlockExecutor
