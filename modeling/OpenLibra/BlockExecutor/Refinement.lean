import OpenLibra.BlockExecutor.Accesses
import OpenLibra.BlockExecutor.Validations

/-!
# The workers follow the protocol

Every access of a worker is a step of the scheduling protocol, or one that the protocol does not
see.
-/

namespace OpenLibra.BlockExecutor

open Aggregation Transition Function

/-!
# The role behind a program counter
-/

def SchedulerTask.role : SchedulerTask -> Role
  | .executionTask version condvar => Protocol.taskRole version.1 version.2 condvar
  | .validationTask version wave => .validating version.1 version.2 wave
  | .noTask => .idle
  | .done => .idle

def Pc.role : Pc key value output error -> Role
  | .start => .idle
  | .loopTop task => task.role
  | .finished => .idle
  | .checkDone => .idle
  | .loadValidationIdx => .idle
  | .loadExecutionIdx _ => .idle
  | .recheckDone => .idle
  | .fetchValidation => .idle
  | .tryValidate idx wave => .fetchedValidation idx wave
  | .fetchExecution => .idle
  | .tryExecute idx => .fetchedExecution idx
  | .notify condvar => .notifying condvar
  | .running version _ _ => .executing version.1 version.2 false
  | .checkDependency version _ _ _ => .executing version.1 version.2 false
  | .suspend version depIdx _ _ => .depLocked version.1 version.2 depIdx
  | .wait version condvar _ _ => .waiting version.1 version.2 condvar
  | .applyUpdates version _ _ _ updatesOutside _ _ => .executing version.1 version.2 updatesOutside
  | .finishExecution version revalidateSuffix => .executing version.1 version.2 revalidateSuffix
  | .drain version revalidateSuffix => .draining version.1 version.2 revalidateSuffix
  | .resume version revalidateSuffix txnDeps minDep =>
    .resuming version.1 version.2 revalidateSuffix txnDeps minDep
  | .scheduleValidation version revalidateSuffix => .scheduling version.1 version.2 revalidateSuffix
  | .revalidate version => .revalidating version.1 version.2
  | .loadReadSet version wave => .validating version.1 version.2 wave
  | .validate version wave _ => .validating version.1 version.2 wave
  | .tryAbort version wave => .validating version.1 version.2 wave
  | .loadModifiedKeys version => .aborting version.1 version.2
  | .markEstimates version _ => .aborting version.1 version.2
  | .abortDecrease version => .abortDecreasing version.1
  | .abortLoadExecution version => .abortLoading version.1
  | .abortIncarnate version => .abortIncarnating version.1

def Event.scheduling : Event key output error -> Option SchedulerEvent
  | .executionTask version condvar => some (.executionTask version condvar)
  | .aborted version => some (.aborted version)
  | .suspended version condvar => some (.suspended version condvar)
  | .recorded _ _ _ => none

def schedulerEvents (labels : List (Event key output error)) : List SchedulerEvent :=
  labels.filterMap Event.scheduling

namespace State

variable {worker key value path output error : Type}

def protocol (s : State worker key value path output error) : Protocol worker where
  scheduler := s.scheduler
  role := fun w => (s.pc w).role

theorem protocol_role {s : State worker key value path output error}
    {w : worker} {pc : Pc key value output error} (h : s.pc w = pc) : s.protocol.role w = pc.role :=
  congrArg Pc.role h

variable [DecidableEq worker]

@[simp] theorem protocol_goto (s : State worker key value path output error) (w : worker)
    (pc : Pc key value output error) :
    (s.goto w pc).protocol =
      { scheduler := s.scheduler
        role := update s.protocol.role w pc.role } := by
  exact congrArg (Protocol.mk s.scheduler) (comp_update Pc.role s.pc w pc)

theorem protocol_assert (asserts : Bool) (s : State worker key value path output error) (w : worker)
    (reason : Panic) :
    (if asserts then s else s.panic w reason).protocol = s.protocol := by
  cases asserts <;> rfl

end State

/-!
# Steps seen by the protocol
-/

section

variable {worker key value path output error : Type} [DecidableEq worker]

def Refines (s : State worker key value path output error) (events : List (Event key output error))
    (s' : State worker key value path output error) : Prop :=
  Protocol.Step s.protocol (schedulerEvents events) s'.protocol ∨
    (s'.protocol = s.protocol ∧ schedulerEvents events = [])

variable {s s' : State worker key value path output error}

theorem refines_stutter (h : s'.protocol = s.protocol) : Refines s [] s' := Or.inr ⟨h, rfl⟩

theorem refines_of_step {events} {p} (hstep : Protocol.Step s.protocol (schedulerEvents events) p)
    (h : s'.protocol = p) : Refines s events s' :=
  Or.inl (h ▸ hstep)

theorem refines_goto_step {events} {w : worker} {pc} (hs' : s'.pc = s.pc)
    (hstep : Protocol.Step s.protocol (schedulerEvents events)
      { scheduler := s'.scheduler, role := update s.protocol.role w pc.role }) :
    Refines s events (s'.goto w pc) := by
  refine refines_of_step hstep ?_
  rw [State.protocol_goto, State.protocol, State.protocol, hs']

theorem protocol_goto_same {s : State worker key value path output error} {w : worker}
    {pc : Pc key value output error} (h : pc.role = (s.pc w).role) :
    (s.goto w pc).protocol = s.protocol := by
  have hrole : pc.role = s.protocol.role w := h
  rw [State.protocol_goto, hrole, update_eq_self]
  rfl

theorem refines_goto {w : worker} {pc : Pc key value output error} (h : pc.role = (s.pc w).role) :
    Refines s [] (s.goto w pc) :=
  refines_stutter (protocol_goto_same h)

theorem refines_panic {w : worker} {reason : Panic} : Refines s [] (s.panic w reason) :=
  refines_stutter rfl

end

/-!
# Taking tasks
-/

theorem Scheduler.tryIncarnate_cases {worker : Type}
    (self : Scheduler worker) {idx : TxnIndex} (hidx : idx < self.numTxns) :
    (exists inc condvar, self.executionStatus idx = .readyToExecute inc condvar ∧
      self.tryIncarnate idx = (self.setExecutionStatus idx (.executing inc), some (inc, condvar))) ∨
      ((forall inc condvar, self.executionStatus idx ≠ .readyToExecute inc condvar) ∧
      self.tryIncarnate idx = (self, none)) := by
  unfold tryIncarnate
  rw [if_neg (Nat.not_le_of_lt hidx)]
  cases hst : self.executionStatus idx <;> simp

section

variable {worker txn key value path output error : Type} [DecidableEq worker]
  {ctx : BlockContext txn key output error} {s : State worker key value path output error}
  {w : worker}

theorem dispatch_protocol {task : SchedulerTask} (hpc : (s.pc w).role = task.role) :
    (dispatch ctx s w task).protocol = s.protocol := by
  unfold dispatch
  split
  · exact protocol_goto_same hpc.symm
  · split
    · exact protocol_goto_same hpc.symm
    · rfl
  · exact protocol_goto_same hpc.symm
  · exact protocol_goto_same hpc.symm
  · exact protocol_goto_same hpc.symm

theorem refines_loopTop {task} (acquired : Bool) (hpc : (s.pc w).role = task.role) :
    Refines s [] (stepLoopTop ctx s w acquired task) := by
  have hcommit {s' : State worker key value path output error}
    (h : s'.protocol = {
      scheduler := (s.scheduler.tryCommit acquired).1
      role := s.protocol.role }) : Refines s [] s' := by
    rcases s.protocol.tryCommit_step acquired with hsame | hstep
    · refine refines_stutter (h.trans ?_)
      exact congrArg (fun scheduler => Protocol.mk scheduler s.protocol.role) hsame
    · exact refines_of_step hstep h
  unfold stepLoopTop
  split
  · split
    · next scheduler _ hres =>
        exact hcommit (by rw [hres]; rfl)
    · next scheduler hres =>
        refine hcommit ?_
        rw [hres]
        exact @dispatch_protocol _ _ _ _ _ _ _ _ ctx (s.withScheduler scheduler) w task hpc
  · exact refines_stutter (dispatch_protocol hpc)

theorem refines_fetchValidation (hpc : (s.pc w).role = .idle) : Refines s []
    ((s.withScheduler s.scheduler.fetchAddValidationIdx.1).goto w
      (if s.scheduler.numTxns ≤ s.scheduler.validationIdx then .checkDone
        else .tryValidate s.scheduler.validationIdx
          s.scheduler.validationWave)) := by
  split
  · next hidx =>
      exact refines_of_step (@Protocol.Step.overrunValidation _ _ s.protocol
        hidx) (protocol_goto_same hpc.symm)
  · next hidx =>
      exact refines_goto_step rfl (.fetchValidation hpc (Nat.lt_of_not_le hidx))

theorem refines_fetchExecution (hpc : (s.pc w).role = .idle) : Refines s []
    ((s.withScheduler s.scheduler.fetchAddExecutionIdx.1).goto w
      (if s.scheduler.numTxns ≤ s.scheduler.executionIdx then .checkDone
        else .tryExecute s.scheduler.executionIdx)) := by
  split
  · next hidx =>
      exact refines_of_step (@Protocol.Step.overrunExecution _ _ s.protocol
        hidx) (protocol_goto_same hpc.symm)
  · next hidx =>
      exact refines_goto_step rfl (.fetchExecution hpc (Nat.lt_of_not_le hidx))

theorem refines_tryValidate {idx : TxnIndex} {wave : Wave}
    (hpc : (s.pc w).role = .fetchedValidation idx wave) (hidx : idx < s.scheduler.numTxns) :
    Refines s [] (s.goto w (match s.scheduler.isExecuted idx false with
        | some incarnation => .loopTop (.validationTask (idx, incarnation) wave)
        | none => .checkDone)) := by
  unfold Scheduler.isExecuted
  rw [if_neg (Nat.not_le_of_lt hidx)]
  have hskip (hst : forall inc, s.scheduler.executionStatus idx ≠
    .executed inc) : Refines s [] (s.goto w .checkDone) :=
    refines_goto_step rfl (.skipValidate hpc hst)
  cases hst : s.scheduler.executionStatus idx with
  | executed => exact refines_goto_step rfl (.tryValidate hpc hst)
  | _ => exact hskip (by simp [hst])

theorem refines_tryExecute {idx : TxnIndex} (hpc : (s.pc w).role = .fetchedExecution idx)
    (hidx : idx < s.scheduler.numTxns) :
    Refines s (stepTryExecute s w idx).2 (stepTryExecute s w idx).1 := by
  unfold stepTryExecute
  rcases s.scheduler.tryIncarnate_cases hidx with ⟨_, _, hst, heq⟩ | ⟨hst, heq⟩
  · rw [heq]
    exact refines_goto_step rfl (.tryExecute hpc hst)
  · rw [heq]
    exact refines_goto_step rfl (.skipExecute hpc hst)

theorem refines_abortIncarnate {version : Version}
    (hpc : (s.pc w).role = .abortIncarnating version.1) (hidx : version.1 < s.scheduler.numTxns) :
    Refines s (stepAbortIncarnate s w version).2 (stepAbortIncarnate s w version).1 := by
  unfold stepAbortIncarnate
  rcases s.scheduler.tryIncarnate_cases hidx with ⟨_, _, hst, heq⟩ | ⟨hst, heq⟩
  · rw [heq]
    exact refines_goto_step rfl (.incarnate hpc hst)
  · rw [heq]
    exact refines_goto_step rfl (.skipIncarnation hpc hst)

/-!
# Executing
-/

variable {version : Version} {program : Program key output error}
  {reads : List (ReadDescriptor key)} {depIdx : TxnIndex}
  {s' : State worker key value path output error} {revalidateSuffix : Bool}
  {events : List (Event key output error)}

theorem refines_running [DecidableEq key] [TransactionWrite value]
    [TransactionOutput output key value]
    (hpc : (s.pc w).role = .executing version.1 version.2 false) :
    Refines s [] (stepRunning ctx s w version reads program) := by
  unfold stepRunning
  split
  · dsimp only
    split <;> exact refines_goto hpc.symm
  · split
    · split
      · exact refines_goto hpc.symm
      · exact refines_goto hpc.symm
      · exact refines_panic
    · exact refines_goto hpc.symm
    · exact refines_panic

theorem refines_checkDependency (hpc : (s.pc w).role = .executing version.1 version.2 false)
    (hdep : depIdx < version.1) (hidx : version.1 < s.scheduler.numTxns)
    (hlock : s.scheduler.dependencyLock depIdx = none) :
    Refines s [] (stepCheckDependency s w version depIdx program reads) := by
  have hlocked (hexec : (s.scheduler.executionStatus depIdx).isExecuted = false) :
    Refines s [] ((s.withScheduler (s.scheduler.setDependencyLock depIdx (some w))).goto w
      (.suspend version depIdx program reads)) :=
    refines_goto_step rfl (.lockDependency hpc hdep hlock hexec)
  unfold stepCheckDependency Scheduler.isExecuted
  rw [if_neg (Nat.not_le_of_lt (Nat.lt_trans hdep hidx))]
  cases hst : s.scheduler.executionStatus depIdx with
  | executed | committed => exact refines_goto hpc.symm
  | _ => exact hlocked (by rw [hst]; rfl)

theorem refines_suspend (hpc : (s.pc w).role = .depLocked version.1 version.2 depIdx)
    (hst : s.scheduler.executionStatus version.1 = .executing version.2) :
    Refines s (stepSuspend s w version depIdx program reads).2
      (stepSuspend s w version depIdx program reads).1 := by
  have hsuspend : s.scheduler.newCondvar.1.suspend version.1 s.scheduler.nextCondvar = some
      (s.scheduler.newCondvar.1.setExecutionStatus version.1
        (.suspended version.2 s.scheduler.nextCondvar)) := by
    unfold Scheduler.suspend
    rw [show s.scheduler.newCondvar.1.executionStatus version.1 = .executing version.2 from hst]
  unfold stepSuspend
  dsimp only [Scheduler.newCondvar] at hsuspend ⊢
  rw [hsuspend]
  exact refines_goto_step rfl (.suspend hpc hst)

theorem refines_update {outside outside' : Bool} {pc : Pc key value output error}
    (hpc : (s.pc w).role = .executing version.1 version.2 outside)
    (hpc' : pc.role = .executing version.1 version.2 (outside || outside'))
    (hs' : s'.protocol = (s.goto w pc).protocol) : Refines s [] s' := by
  cases outside with
  | true =>
    refine refines_stutter (hs'.trans (protocol_goto_same ?_))
    rw [hpc', hpc, Bool.true_or]
  | false =>
    cases outside' with
    | false =>
      refine refines_stutter (hs'.trans (protocol_goto_same ?_))
      rw [hpc', hpc, Bool.false_or]
    | true =>
      refine refines_of_step (@Protocol.Step.writeOutside _ _ s.protocol w
        version.1 version.2 hpc) (hs'.trans ?_)
      rw [State.protocol_goto, hpc', Bool.false_or]
      rfl

theorem refines_applyUpdates [DecidableEq key] [DecidableEq path] [ModulePath key path]
    [TransactionOutput output key value] {pick : Nat}
    {result : Task.ExecutionStatus output (Error error)} {prevModifiedKeys : List key}
    {updatesOutside : Bool} {writes : List (key × value)} {deltas : List (key × DeltaOp)}
    (hpc : (s.pc w).role = .executing version.1 version.2 updatesOutside)
    (h : stepApplyUpdates s w pick version result reads prevModifiedKeys updatesOutside writes
      deltas = some (s', events)) : Refines s events s' := by
  cases writes with
  | cons write =>
    rcases write with ⟨k, _⟩
    cases h
    exact refines_update hpc rfl (State.protocol_assert _ _ _ _)
  | nil =>
    cases deltas with
    | cons write =>
      rcases write with ⟨_, _⟩
      cases h
      exact refines_update hpc rfl rfl
    | nil =>
      rw [stepApplyUpdates] at h
      split at h
      · cases h
        exact .inr ⟨@protocol_goto_same _ _ _ _ _ _ _
          { s with lastInputOutput := s.lastInputOutput.record version.1 reads result } w _
          hpc.symm, rfl⟩
      · split at h
        · cases h
        · split at h
          · cases h
            exact refines_panic
          · cases h
            exact refines_stutter (protocol_goto_same hpc.symm)

theorem refines_finishExecution
    (hpc : (s.pc w).role = .executing version.1 version.2 revalidateSuffix)
    (hlock : s.scheduler.validationLock version.1 = none)
    (hst : s.scheduler.executionStatus version.1 = .executing version.2) :
    Refines s [] (stepFinishExecution s w version revalidateSuffix) := by
  unfold stepFinishExecution Scheduler.setExecutedStatus
  rw [if_pos hst]
  exact refines_goto_step rfl (.setExecuted hpc hlock hst)

theorem refines_resume {txnDeps} {minDep}
    (hpc : (s.pc w).role = .resuming version.1 version.2 revalidateSuffix txnDeps minDep)
    (hst : forall dep, dep ∈ txnDeps -> (s.scheduler.executionStatus dep).isSuspended = true) :
    Refines s [] (stepResume s w version revalidateSuffix minDep txnDeps) := by
  unfold stepResume
  split
  · next dep deps =>
      have hdep := hst dep List.mem_cons_self
      unfold Scheduler.resume
      cases hsusp : s.scheduler.executionStatus dep with
      | suspended => exact refines_goto_step rfl (.resume hpc hsusp)
      | _ =>
        rw [hsusp] at hdep
        cases hdep
  · cases minDep with
    | some => exact refines_goto_step rfl (.lowerExecutionIdx hpc)
    | none => exact refines_goto_step rfl (.keepExecutionIdx hpc)

theorem refines_scheduleValidation
    (hpc : (s.pc w).role = .scheduling version.1 version.2 revalidateSuffix) :
    Refines s [] (stepScheduleValidation s w version revalidateSuffix) := by
  unfold stepScheduleValidation
  split
  · next hidx =>
      cases revalidateSuffix with
      | true => exact refines_goto_step rfl (.startRevalidation hpc hidx)
      | false => exact refines_goto_step rfl (.requireWave hpc hidx)
  · next hidx =>
      exact refines_goto_step rfl (.leaveToValidationSweep hpc (Nat.le_of_not_lt hidx))

theorem refines_validate [TransactionWrite value] {wave : Wave} {reads}
    (hpc : (s.pc w).role = .validating version.1 version.2 wave)
    (h : stepValidate ctx s w version wave reads = some (s', events)) : Refines s events s' := by
  unfold stepValidate at h
  split at h
  · split at h
    · cases h
      exact refines_panic
    · cases h
      refine refines_goto ?_
      rw [hpc]
      split <;> rfl
  · split at h
    · next hlock =>
        cases h
        exact refines_goto_step rfl (.finishValidation hpc hlock)
    · cases h

theorem refines_tryAbort {wave : Wave}
    (hpc : (s.pc w).role = .validating version.1 version.2 wave) :
    Refines s (stepTryAbort s w version wave).2 (stepTryAbort s w version wave).1 := by
  unfold stepTryAbort Scheduler.tryAbort
  split
  · next heq =>
      split at heq
      · next hst =>
          cases heq
          exact refines_goto_step rfl (.tryAbort hpc hst)
      · cases heq
  · next heq =>
      split at heq
      · cases heq
      · cases heq
        exact refines_goto hpc.symm

theorem refines_markEstimates [DecidableEq key] {pick : Nat} {keys : List key}
    (hpc : (s.pc w).role = .aborting version.1 version.2)
    (hst : s.scheduler.executionStatus version.1 = .aborting version.2)
    (h : stepMarkEstimates s w pick version keys = some (s', events)) : Refines s events s' := by
  unfold stepMarkEstimates Scheduler.setAbortedStatus at h
  rw [if_pos hst] at h
  split at h
  · split at h
    · next hlock =>
        cases h
        exact refines_goto_step rfl (.setAborted hpc hlock hst)
    · cases h
  · split at h
    · cases h
    · split at h
      · cases h
        exact refines_panic
      · cases h
        exact refines_stutter (protocol_goto_same hpc.symm)

end

/-!
# The simulation
-/

variable {worker txn key value path output error : Type} [DecidableEq worker] [DecidableEq key]
  [DecidableEq path] [TransactionWrite value] [ModulePath key path]
  [TransactionOutput output key value] {ctx : BlockContext txn key output error}

def DependsBelow (s : State worker key value path output error) : Prop :=
  forall w version depIdx program reads, s.pc w = .checkDependency version depIdx program reads ->
    depIdx < version.1

variable {s s' : State worker key value path output error} {w : worker}
  {events : List (Event key output error)} {choice : Choice}

omit [DecidableEq worker] in
theorem dependsBelow_access {recorded} {memory} {pc} {panic} (h : DependsBelow s)
    (hacc : Access ctx s w recorded memory pc panic) {version : Version}
    {depIdx : TxnIndex} {program}
    {reads} (hpc : pc = .checkDependency version depIdx program reads) : depIdx < version.1 := by
  cases hacc with
  | plain _ hplain =>
    rw [hpc] at hplain
    cases hplain
  | stay | panic => exact h w version depIdx program reads hpc
  | depend _ hread =>
    cases hpc
    exact (MVHashMap.read_eq_dependency ctx.codec hread).left
  | _ => cases hpc

theorem dependsBelow_step (h : DependsBelow s) (hstep : step ctx w choice s = some (s', events)) :
    DependsBelow s' := by
  rcases access_of_step hstep with ⟨_, _, haccessed⟩
  intro w' version depIdx program reads hpc
  rw [haccessed.pc] at hpc
  by_cases hw : w' = w
  · subst hw
    rw [update_self] at hpc
    exact dependsBelow_access h haccessed.access hpc
  · rw [update_of_ne hw] at hpc
    exact h w' version depIdx program reads hpc

theorem dependsBelow_of_reachable (h : (parallelExecution worker value path ctx).Reachable s) :
    DependsBelow s := by
  refine TransitionSystem.Reachable.invariant ?_ ?_ h
  · intro s hs w _ _ _ _ hpc
    rw [hs] at hpc
    cases hpc
  · rintro _ _ _ _ hinv ⟨_, _, hstep⟩
    exact dependsBelow_step hinv hstep

theorem refines_step (hinv : Protocol.Invariant s.protocol)
    (hbelow : DependsBelow s) (h : step ctx w choice s = some (s', events)) :
    Refines s events s' := by
  have hrole {pc : Pc key value output error} (hpc : s.pc w = pc) :
    (s.pc w).role = pc.role := by rw [hpc]
  have hidx {i : TxnIndex} (hi : (s.pc w).role.index = some i) :
    i < s.scheduler.numTxns := hinv.inBlock w i hi
  have hpair {r : State worker key value path output error ×
    List (Event key output error)} (h : some r = some (s', events))
    (href : Refines s r.2 r.1) : Refines s events s' := by
    cases h
    exact href
  unfold step at h
  split at h
  · cases h
  generalize hpc : s.pc w = pc at h
  cases pc with
  | start =>
    cases h
    exact refines_stutter (protocol_goto_same (hrole hpc).symm)
  | loopTop =>
    cases h
    exact refines_loopTop choice.acquired (hrole hpc)
  | finished => cases h
  | checkDone | recheckDone =>
    cases h
    refine refines_goto ?_
    rw [hpc]
    split <;> rfl
  | loadValidationIdx | loadModifiedKeys =>
    cases h
    exact refines_goto (hrole hpc).symm
  | loadExecutionIdx =>
    cases h
    refine refines_goto ?_
    rw [hpc]
    split
    · rfl
    · split <;> rfl
  | fetchValidation =>
    cases h
    exact refines_fetchValidation (hrole hpc)
  | tryValidate =>
    cases h
    exact refines_tryValidate (hrole hpc) (hidx (by rw [hpc]; rfl))
  | fetchExecution =>
    cases h
    exact refines_fetchExecution (hrole hpc)
  | tryExecute => exact hpair h (refines_tryExecute (hrole hpc) (hidx (by rw [hpc]; rfl)))
  | notify =>
    cases h
    exact refines_goto_step rfl (.notify (hrole hpc))
  | running =>
    cases h
    exact refines_running (hrole hpc)
  | checkDependency version depIdx program reads =>
    dsimp only at h
    split at h
    · next hlock =>
        cases h
        exact refines_checkDependency (hrole hpc) (hbelow w version depIdx program reads hpc)
          (hidx (by rw [hpc]; rfl)) hlock
    · cases h
  | suspend version depIdx =>
    exact hpair h (refines_suspend (hrole hpc)
      (hinv.owners.depLocked w version.1 version.2 depIdx (hrole hpc)))
  | wait =>
    dsimp only at h
    split at h
    · next hflag =>
        cases h
        exact refines_goto_step rfl (.wake (hrole hpc) hflag)
    · cases h
  | applyUpdates => exact refines_applyUpdates (hrole hpc) h
  | finishExecution version revalidateSuffix =>
    dsimp only at h
    split at h
    · next hlock =>
        cases h
        exact refines_finishExecution (hrole hpc) hlock
          (hinv.owners.executing w version.1 version.2 revalidateSuffix (hrole hpc))
    · cases h
  | drain =>
    dsimp only at h
    split at h
    · next hlock =>
        cases h
        exact refines_goto_step rfl (.drain (hrole hpc) hlock)
    · cases h
  | resume =>
    cases h
    refine refines_resume (hrole hpc) (fun dep hdep => ?_)
    refine (hinv.dependencies.suspended dep).mp ⟨.taken w, ?_⟩
    rw [Protocol.dependencySlots, show s.protocol.role w = _ from hrole hpc]
    exact hdep
  | scheduleValidation =>
    cases h
    exact refines_scheduleValidation (hrole hpc)
  | revalidate version =>
    cases h
    refine refines_of_step (@Protocol.Step.revalidate _ _ s.protocol w
      version.1 version.2 (hrole hpc)) ?_
    rw [Scheduler.triggerWave_eq]
    exact State.protocol_goto _ _ _
  | loadReadSet =>
    dsimp only at h
    split at h
    · cases h
      exact refines_panic
    · cases h
      exact refines_goto (hrole hpc).symm
  | validate => exact refines_validate (hrole hpc) h
  | tryAbort => exact hpair h (refines_tryAbort (hrole hpc))
  | markEstimates version =>
    exact refines_markEstimates (hrole hpc)
      (hinv.owners.aborting w version.1 version.2 (hrole hpc)) h
  | abortDecrease version =>
    cases h
    refine refines_of_step (@Protocol.Step.abortDecrease _ _ s.protocol w version.1 (hrole hpc)) ?_
    rw [Scheduler.triggerWave_eq]
    exact State.protocol_goto _ _ _
  | abortLoadExecution =>
    dsimp only at h
    split at h
    · next hlt =>
        cases h
        exact refines_goto_step rfl (.startIncarnation (hrole hpc) hlt)
    · next hle =>
        cases h
        exact refines_goto_step rfl (.leaveToExecutionSweep (hrole hpc) (Nat.le_of_not_lt hle))
  | abortIncarnate => exact hpair h (refines_abortIncarnate (hrole hpc) (hidx (by rw [hpc]; rfl)))

def refinement (worker value path : Type) [DecidableEq worker] [DecidableEq path]
    [TransactionWrite value] [ModulePath key path] [TransactionOutput output key value]
    (ctx : BlockContext txn key output error) :
    TransitionSystem.Simulation (parallelExecution worker value path ctx)
      (protocol worker ctx.block.length) where
  onState := State.protocol
  onLabel := Event.scheduling
  initial := by
    intro s hs
    rw [hs]
    rfl
  step := by
    rintro s events s' hs hs' ⟨w, choice, hstep⟩
    exact refines_step (Protocol.invariant_of_reachable hs') (dependsBelow_of_reachable hs) hstep

theorem protocol_invariant (h : (parallelExecution worker value path ctx).Reachable s) :
    Protocol.Invariant s.protocol :=
  Protocol.invariant_of_reachable ((refinement worker value path ctx).reachable h)

theorem refines_of_reachable (hs : (parallelExecution worker value path ctx).Reachable s)
    (hstep : step ctx w choice s = some (s', events)) : Refines s events s' :=
  refines_step (protocol_invariant hs) (dependsBelow_of_reachable hs) hstep

theorem protocol_validations (h : (parallelExecution worker value path ctx).Reachable s) :
    Protocol.Validations s.protocol :=
  Protocol.validations_of_reachable ((refinement worker value path ctx).reachable h)

theorem commitIdx_of_done (h : (parallelExecution worker value path ctx).Reachable s)
    (hdone : s.scheduler.doneMarker = true) : s.scheduler.commitIdx = ctx.block.length :=
  ((protocol_validations h).done hdone).trans (Protocol.numTxns_of_reachable
      ((refinement worker value path ctx).reachable h))

end OpenLibra.BlockExecutor
