import OpenLibra.BlockExecutor.Memory

/-!
# Every step is an access

The inversion of the step function: what a worker does is one of the listed accesses, and touches
the program counter of no other worker.
-/

namespace OpenLibra.BlockExecutor

open Transition Function

/-!
# Scheduler operations that memory does not see
-/

namespace Scheduler

variable {worker : Type}

structure Agrees (before after : Scheduler worker) : Prop where
  stage : forall i, (after.executionStatus i).stage = (before.executionStatus i).stage
  validated : forall i, (after.validationStatus i).maybeMaxValidatedWave =
    (before.validationStatus i).maybeMaxValidatedWave

variable {before after : Scheduler worker}

theorem agrees_of_status {i : TxnIndex} {status}
    (hst : after.executionStatus = update before.executionStatus i status)
    (hstage : status.stage = (before.executionStatus i).stage)
    (hvald : after.validationStatus = before.validationStatus) : Agrees before after where
  stage := by
    intro j
    rw [hst]
    by_cases hj : j = i
    · subst hj
      rw [update_self, hstage]
    · rw [update_of_ne hj]
  validated := fun j => by rw [hvald]

theorem agrees_of_validationStatus {i : TxnIndex} {status}
    (hst : after.executionStatus = before.executionStatus)
    (hvalidation : after.validationStatus = update before.validationStatus i status)
    (hwave : status.maybeMaxValidatedWave = (before.validationStatus i).maybeMaxValidatedWave) :
    Agrees before after where
  stage := fun j => by rw [hst]
  validated := by
    intro j
    rw [hvalidation]
    by_cases hj : j = i
    · subst hj
      rw [update_self, hwave]
    · rw [update_of_ne hj]

variable (self : Scheduler worker)

theorem tryCommit_agrees (acquired : Bool) : Agrees self (self.tryCommit acquired).1 := by
  have hsame {wave : Wave} {done : Bool} : Agrees self
    { self with commitWave := wave, doneMarker := done } :=
    ⟨fun _ => rfl, fun _ => rfl⟩
  unfold tryCommit
  split
  · exact hsame
  · split
    · split
      · next hst =>
          dsimp only
          split
          · split
            · exact agrees_of_status rfl (by rw [hst]; rfl) rfl
            · exact hsame
          · exact hsame
      · exact hsame
    · exact hsame

theorem tryIncarnate_agrees (i : TxnIndex) : Agrees self (self.tryIncarnate i).1 := by
  unfold tryIncarnate
  split
  · exact ⟨fun _ => rfl, fun _ => rfl⟩
  · split
    · next hst => exact agrees_of_status rfl (by rw [hst]; rfl) rfl
    · exact ⟨fun _ => rfl, fun _ => rfl⟩

theorem triggerWave_agrees (i : TxnIndex) : Agrees self (self.triggerWave i) := by
  unfold triggerWave decreaseValidationIdx
  by_cases h : i < self.validationIdx
  · rw [if_pos h]
    exact agrees_of_validationStatus rfl rfl rfl
  · rw [if_neg h]
    exact ⟨fun _ => rfl, fun _ => rfl⟩

end Scheduler

/-!
# Accesses of single program counters
-/

variable {worker txn key value path output error : Type}
  {s s' : State worker key value path output error}

theorem memory_of_agrees (hcache : s'.cache = s.cache)
    (hrec : s'.lastInputOutput = s.lastInputOutput) (hagr : s.scheduler.Agrees s'.scheduler) :
    s'.memory = s.memory := by
  unfold State.memory
  rw [hcache, hrec]
  congr 1
  · funext i
    exact hagr.stage i
  · funext i
    exact hagr.validated i

theorem memory_setStatus (s : State worker key value path output error) (i : TxnIndex)
    (status : ExecutionStatus) (hcache : s'.cache = s.cache)
    (hrec : s'.lastInputOutput = s.lastInputOutput)
    (hst : s'.scheduler.executionStatus = update s.scheduler.executionStatus i status)
    (hvalidation : s'.scheduler.validationStatus = s.scheduler.validationStatus) :
    s'.memory =
      { s.memory with
        stage := update s.memory.stage i status.stage } := by
  unfold State.memory
  rw [hcache, hrec, hst, hvalidation]
  exact congrArg (Memory.mk _ _ · _) (comp_update ExecutionStatus.stage _ i status)

theorem memory_setValidation {i : TxnIndex} {status} (hcache : s'.cache = s.cache)
    (hrec : s'.lastInputOutput = s.lastInputOutput)
    (hst : s'.scheduler.executionStatus = s.scheduler.executionStatus)
    (hvalidation : s'.scheduler.validationStatus = update s.scheduler.validationStatus i status) :
    s'.memory =
      { s.memory with
        validated := update s.memory.validated i
          status.maybeMaxValidatedWave } := by
  unfold State.memory
  rw [hcache, hrec, hst, hvalidation]
  exact congrArg (Memory.mk _ _ _) (comp_update ValidationStatus.maybeMaxValidatedWave _ i status)

theorem panicked_same [DecidableEq worker] {w : worker} (halive : s.panicked w = none) :
    s.panicked = update s.panicked w none := by
  rw [← halive, update_eq_self]

variable [DecidableEq worker] [DecidableEq key] [DecidableEq path] [TransactionWrite value]
  [ModulePath key path] [TransactionOutput output key value]

/-- A step of worker `w` is an access, and touches no other worker. -/
structure Accessed (ctx : BlockContext txn key output error)
    (s : State worker key value path output error) (w : worker)
    (events : List (Event key output error))
    (s' : State worker key value path output error)
    (pc : Pc key value output error) (panic : Option Panic) : Prop where
  access : Access ctx s w (records events) s'.memory pc panic
  alive : s.panicked w = none
  pc : s'.pc = update s.pc w pc
  panicked : s'.panicked = update s.panicked w panic

variable {ctx : BlockContext txn key output error} {w : worker}
  {events : List (Event key output error)}

theorem accessed_panic {reason : Panic} (halive : s.panicked w = none)
    (hcause : PanicCause ctx s w reason) :
    Accessed ctx s w [] (s.panic w reason) (s.pc w) (some reason) where
  access := .panic hcause
  alive := halive
  pc := (update_eq_self w s.pc).symm
  panicked := rfl

variable {pc : Pc key value output error} {task : SchedulerTask} {version : Version}
  {program : Program key output error} {reads : List (ReadDescriptor key)} {depIdx : TxnIndex}
  {revalidateSuffix : Bool}

theorem accessed_of {memory} (halive : s.panicked w = none)
    (hacc : Access ctx s w (records events) memory pc none) (hmem : s'.memory = memory)
    (hpc : s'.pc = update s.pc w pc) (hpan : s'.panicked = s.panicked) :
    Accessed ctx s w events s' pc none where
  access := hmem ▸ hacc
  alive := halive
  pc := hpc
  panicked := hpan.trans (panicked_same halive)

theorem accessed_plain (halive : s.panicked w = none) (hplain : (s.pc w).plain = true)
    (hplain' : pc.plain = true) (hrecords : records events = []) (hmem : s'.memory = s.memory)
    (hpc : s'.pc = update s.pc w pc) (hpan : s'.panicked = s.panicked) :
    Accessed ctx s w events s' pc none :=
  accessed_of halive (hrecords ▸ .plain hplain hplain') hmem hpc hpan

theorem accessed_dispatch {before} (hpc : s.pc w = .loopTop task) (halive : s.panicked w = none)
    (hbef : before.pc = s.pc) (hpan : before.panicked = s.panicked)
    (hmem : before.memory = s.memory) : exists pc panic,
      Accessed ctx s w [] (dispatch ctx before w task) pc panic := by
  have hplain {pc : Pc key value output error} (h : pc.plain = true) :
    Accessed ctx s w [] (before.goto w pc) pc none :=
    accessed_plain halive (by rw [hpc]; rfl) h rfl hmem
      (by rw [← hbef]; rfl) hpan
  cases task with
  | validationTask | noTask | done => exact ⟨_, none, hplain rfl⟩
  | executionTask version condvar =>
    cases condvar with
    | some => exact ⟨_, none, hplain rfl⟩
    | none =>
      rw [dispatch]
      split
      · next program hprog =>
          exact ⟨_, none, accessed_of halive (.start hpc hprog) hmem (by rw [← hbef]; rfl) hpan⟩
      · next hprog =>
        refine ⟨s.pc w, some .indexOutOfBounds, ?_, halive, ?_, ?_⟩
        · rw [show (before.panic w .indexOutOfBounds).memory = s.memory from hmem]
          exact .panic (.indexOutOfBounds hpc hprog)
        · rw [update_eq_self, ← hbef]
          rfl
        · rw [← hpan]
          rfl

theorem accessed_loopTop (acquired : Bool) (hpc : s.pc w = .loopTop task)
    (halive : s.panicked w = none) : exists pc panic,
      Accessed ctx s w [] (stepLoopTop ctx s w acquired task) pc panic := by
  have hmem {scheduler : Scheduler worker} {r : Option TxnIndex}
    (h : s.scheduler.tryCommit acquired = (scheduler, r)) :
    (s.withScheduler scheduler).memory = s.memory := by
    have hagr := s.scheduler.tryCommit_agrees acquired
    rw [h] at hagr
    exact memory_of_agrees rfl rfl hagr
  unfold stepLoopTop
  split
  · split
    · next scheduler _ hcommit =>
        exact ⟨s.pc w, none, accessed_of halive .stay (hmem hcommit)
          (update_eq_self w s.pc).symm rfl⟩
    · next scheduler hcommit =>
        exact accessed_dispatch hpc halive rfl rfl (hmem hcommit)
  · exact accessed_dispatch hpc halive rfl rfl rfl

theorem accessed_running (hpc : s.pc w = .running version program reads)
    (halive : s.panicked w = none) :
    exists pc panic, Accessed ctx s w [] (stepRunning ctx s w version reads program) pc panic := by
  cases program with
  | done status =>
    cases status with
    | _ => exact ⟨_, none, accessed_of halive (.finish hpc) rfl rfl rfl⟩
  | read k next =>
    rw [stepRunning]
    split
    · next descriptor result hcapt =>
        split
        · next bytes hans =>
            exact ⟨_, none, accessed_of halive (.read hpc hcapt (by rw [hans]; rfl)) rfl rfl rfl⟩
        · next e hans =>
            exact ⟨_, none, accessed_of halive (.read hpc hcapt (by rw [hans]; rfl)) rfl rfl rfl⟩
        · exact ⟨_, _, accessed_panic halive .deserialize⟩
    · next depIdx hcapt =>
        exact ⟨_, none, accessed_of halive (.depend hpc (capture_eq_dependency hcapt)) rfl rfl rfl⟩
    · exact ⟨_, _, accessed_panic halive .deserialize⟩

theorem accessed_suspend (hpc : s.pc w = .suspend version depIdx program reads)
    (halive : s.panicked w = none) :
    exists pc panic, Accessed ctx s w (stepSuspend s w version depIdx program reads).2
        (stepSuspend s w version depIdx program reads).1 pc panic := by
  have hunreachable (hst : forall inc, s.scheduler.executionStatus version.1 ≠ .executing inc) :=
    accessed_panic halive (.suspend hpc hst : PanicCause ctx s w _)
  unfold stepSuspend Scheduler.suspend
  dsimp only [Scheduler.newCondvar]
  cases hst : s.scheduler.executionStatus version.1 with
  | executing =>
    exact ⟨_, none, accessed_of halive (.suspend hpc)
      (memory_of_agrees rfl rfl (Scheduler.agrees_of_status rfl (by rw [hst]; rfl) rfl)) rfl rfl⟩
  | _ => exact ⟨_, _, hunreachable (by simp [hst])⟩

theorem accessed_applyUpdates {pick : Nat} {result} {prev : List key} {outside : Bool} {writes}
    {deltas} (hpc : s.pc w = .applyUpdates version result reads prev outside writes deltas)
    (halive : s.panicked w = none)
    (h : stepApplyUpdates s w pick version result reads prev outside writes deltas = some (s',
      events)) : exists pc panic, Accessed ctx s w events s' pc panic := by
  cases writes with
  | cons write writes =>
    rcases write with ⟨k, v⟩
    rw [stepApplyUpdates] at h
    dsimp only at h
    have hacc := @Access.write _ _ _ _ _ _ _ _ _ _ _ _ ctx s w
      version result reads prev outside k v writes deltas hpc
    cases hassert : (s.cache.addWrite k version v).2 with
    | true =>
      rw [hassert] at h hacc
      cases h
      exact ⟨_, none, accessed_of halive hacc rfl rfl rfl⟩
    | false =>
      rw [hassert] at h hacc
      cases h
      exact ⟨_, _, hacc, halive, rfl, rfl⟩
  | nil =>
    cases deltas with
    | cons update =>
      rcases update with ⟨k, _⟩
      cases h
      exact ⟨_, none, accessed_of halive (.delta hpc) rfl rfl rfl⟩
    | nil =>
      rw [stepApplyUpdates] at h
      split at h
      · next hprev =>
          cases h
          rw [hprev] at hpc
          exact ⟨_, none, accessed_of halive (.record hpc) rfl rfl rfl⟩
      · split at h
        · cases h
        · next k hpick =>
            split at h
            · next missing hdele =>
                cases h
                exact ⟨_, _, accessed_panic halive (.delete hpc hpick hdele)⟩
            · next cache hdele =>
                cases h
                exact ⟨_, none, accessed_of halive (.delete hpc hpick hdele) rfl rfl rfl⟩

theorem accessed_resume {txnDeps} {minDep}
    (hpc : s.pc w = .resume version revalidateSuffix txnDeps minDep)
    (halive : s.panicked w = none) :
    exists pc panic, Accessed ctx s w [] (stepResume s w version revalidateSuffix minDep txnDeps) pc
        panic := by
  cases txnDeps with
  | cons dep =>
    have hunreachable (hst : forall inc condvar, s.scheduler.executionStatus dep ≠
        .suspended inc condvar) :=
      accessed_panic halive (.resume hpc hst : PanicCause ctx s w _)
    rw [stepResume, Scheduler.resume]
    cases hst : s.scheduler.executionStatus dep with
    | suspended =>
      exact ⟨_, none, accessed_plain halive (by rw [hpc]; rfl) rfl rfl
        (memory_of_agrees rfl rfl (Scheduler.agrees_of_status rfl (by rw [hst]; rfl) rfl)) rfl rfl⟩
    | _ => exact ⟨_, _, hunreachable (by simp [hst])⟩
  | nil =>
    cases minDep with
    | _ => exact ⟨_, none, accessed_plain halive (by rw [hpc]; rfl) rfl rfl rfl rfl rfl⟩

theorem accessed_checkDependency (hpc : s.pc w = .checkDependency version depIdx program reads)
    (halive : s.panicked w = none) : exists pc panic, Accessed ctx s w []
        (stepCheckDependency s w version depIdx program reads) pc panic := by
  unfold stepCheckDependency
  split
  · exact ⟨_, none, accessed_of halive (.retry (by rw [hpc]; rfl)) rfl rfl rfl⟩
  · exact ⟨_, none, accessed_of halive (.lock hpc) rfl rfl rfl⟩

theorem accessed_finishExecution (hpc : s.pc w = .finishExecution version revalidateSuffix)
    (halive : s.panicked w = none) :
    exists pc panic, Accessed ctx s w [] (stepFinishExecution s w version revalidateSuffix)
        pc panic := by
  unfold stepFinishExecution Scheduler.setExecutedStatus
  by_cases hst : s.scheduler.executionStatus version.1 = .executing version.2
  · rw [if_pos hst]
    exact ⟨_, none, accessed_of halive (.setExecuted hpc) (memory_setStatus s version.1 (.executed
      version.2) rfl rfl rfl rfl) rfl rfl⟩
  · rw [if_neg hst]
    exact ⟨_, _, accessed_panic halive (.setExecutedStatus hpc hst)⟩

theorem accessed_scheduleValidation (hpc : s.pc w = .scheduleValidation version revalidateSuffix)
    (halive : s.panicked w = none) : exists pc panic, Accessed ctx s w []
        (stepScheduleValidation s w version revalidateSuffix) pc panic := by
  have hplain : (s.pc w).plain = true := by
    rw [hpc]
    rfl
  unfold stepScheduleValidation
  split
  · split
    · exact ⟨_, none, accessed_plain halive hplain rfl rfl rfl rfl rfl⟩
    · exact ⟨_, none, accessed_plain halive hplain rfl rfl (memory_of_agrees rfl rfl
          (Scheduler.agrees_of_validationStatus rfl rfl rfl)) rfl rfl⟩
  · exact ⟨_, none, accessed_plain halive hplain rfl rfl rfl rfl rfl⟩

theorem accessed_validate {wave : Wave} (hpc : s.pc w = .validate version wave reads)
    (halive : s.panicked w = none)
    (h : stepValidate ctx s w version wave reads = some (s', events)) :
    exists pc panic, Accessed ctx s w events s' pc panic := by
  cases reads with
  | cons =>
    rw [stepValidate] at h
    split at h
    · cases h
      exact ⟨_, _, accessed_panic halive .deserialize⟩
    · cases h
      split
      · next hvalid =>
          exact ⟨_, none, accessed_of halive (.pass hpc hvalid) rfl rfl rfl⟩
      · exact ⟨_, none, accessed_of halive (.fail hpc) rfl rfl rfl⟩
  | nil =>
    rw [stepValidate] at h
    split at h
    · cases h
      refine ⟨_, none, accessed_of halive (.finishValidation hpc) ?_ rfl rfl⟩
      exact memory_setValidation rfl rfl rfl rfl
    · cases h

theorem accessed_tryAbort {wave : Wave}
    (hpc : s.pc w = .tryAbort version wave) (halive : s.panicked w = none) :
    exists pc panic, Accessed ctx s w (stepTryAbort s w version wave).2
        (stepTryAbort s w version wave).1 pc panic := by
  unfold stepTryAbort Scheduler.tryAbort
  split
  · next heq =>
      split at heq
      · next hst =>
          cases heq
          exact ⟨_, none, accessed_of halive (.tryAbort hpc hst) (memory_setStatus s version.1
            (.aborting version.2) rfl rfl rfl rfl) rfl rfl⟩
      · cases heq
  · next heq =>
      split at heq
      · cases heq
      · next hst =>
          cases heq
          exact ⟨_, none, accessed_of halive (.loseAbort hpc hst) rfl rfl rfl⟩

theorem accessed_markEstimates {pick : Nat} {keys : List key}
    (hpc : s.pc w = .markEstimates version keys) (halive : s.panicked w = none)
    (h : stepMarkEstimates s w pick version keys = some (s', events)) :
    exists pc panic, Accessed ctx s w events s' pc panic := by
  unfold stepMarkEstimates Scheduler.setAbortedStatus at h
  split at h
  · next hkeys =>
      rw [hkeys] at hpc
      split at h
      · by_cases hst : s.scheduler.executionStatus version.1 = .aborting version.2
        · rw [if_pos hst] at h
          cases h
          exact ⟨_, none, accessed_of halive (.setAborted hpc) (memory_setStatus s version.1
              (.readyToExecute (version.2 + 1) none) rfl rfl rfl rfl) rfl rfl⟩
        · rw [if_neg hst] at h
          cases h
          exact ⟨_, _, accessed_panic halive (.setAbortedStatus hpc hst)⟩
      · cases h
  · split at h
    · cases h
    · next k hpick =>
        split at h
        · next missing hmark =>
            cases h
            exact ⟨_, _, accessed_panic halive (.markEstimate hpc hpick hmark)⟩
        · next cache hmark =>
            cases h
            exact ⟨_, none, accessed_of halive (.markEstimate hpc hpick hmark) rfl rfl rfl⟩

theorem accessed_tryExecute {idx : TxnIndex}
    (hpc : s.pc w = .tryExecute idx) (halive : s.panicked w = none) :
    exists pc panic, Accessed ctx s w (stepTryExecute s w idx).2 (stepTryExecute s w idx).1
        pc panic := by
  have hagr := s.scheduler.tryIncarnate_agrees idx
  have hplain : (s.pc w).plain = true := by
    rw [hpc]
    rfl
  unfold stepTryExecute
  split
  all_goals
    next heq =>
      rw [heq] at hagr
      exact ⟨_, none, accessed_plain halive hplain rfl rfl (memory_of_agrees rfl rfl hagr) rfl rfl⟩

theorem accessed_abortIncarnate (hpc : s.pc w = .abortIncarnate version)
    (halive : s.panicked w = none) :
    exists pc panic, Accessed ctx s w (stepAbortIncarnate s w version).2
        (stepAbortIncarnate s w version).1 pc panic := by
  have hagr := s.scheduler.tryIncarnate_agrees version.1
  have hplain : (s.pc w).plain = true := by
    rw [hpc]
    rfl
  unfold stepAbortIncarnate
  split
  all_goals
    next heq =>
      rw [heq] at hagr
      exact ⟨_, none, accessed_plain halive hplain rfl rfl
        (memory_of_agrees rfl rfl ⟨hagr.stage, hagr.validated⟩) rfl rfl⟩

theorem access_of_step {choice : Choice} (h : step ctx w choice s = some (s', events)) :
    exists pc panic, Accessed ctx s w events s' pc panic := by
  have halive : s.panicked w = none := by
    unfold step at h
    split at h
    · cases h
    · next hpan => simpa using hpan
  have hquiet {scheduler : Scheduler worker} {pc : Pc key value output error}
    (hplain : (s.pc w).plain = true) (hplain' : pc.plain = true)
    (hagr : s.scheduler.Agrees scheduler) :
    exists pc' panic, Accessed ctx s w []
      ((s.withScheduler scheduler).goto w pc) pc' panic :=
    ⟨pc, none, accessed_plain halive hplain hplain' rfl (memory_of_agrees rfl rfl hagr) rfl rfl⟩
  have hsame : s.scheduler.Agrees s.scheduler := ⟨fun _ => rfl, fun _ => rfl⟩
  have hplain {pc : Pc key value output error} (hpc : s.pc w = pc)
    (h : pc.plain = true) : (s.pc w).plain = true := by
    rw [hpc, h]
  have hpair {r : State worker key value path output error ×
    List (Event key output error)} (h : some r = some (s', events))
    (hacc : exists pc panic, Accessed ctx s w r.2 r.1 pc panic) :
    exists pc panic, Accessed ctx s w events s' pc panic := by
    cases h
    exact hacc
  unfold step at h
  rw [if_neg (by simp [halive])] at h
  generalize hpc : s.pc w = pc at h
  cases pc with
  | start =>
    cases h
    exact ⟨_, none, accessed_plain halive (hplain hpc rfl) rfl rfl rfl rfl rfl⟩
  | loopTop =>
    cases h
    exact accessed_loopTop choice.acquired hpc halive
  | finished => cases h
  | checkDone | recheckDone | tryValidate =>
    cases h
    exact hquiet (hplain hpc rfl) (by split <;> rfl) hsame
  | loadValidationIdx =>
    cases h
    exact hquiet (hplain hpc rfl) rfl hsame
  | loadExecutionIdx =>
    cases h
    refine hquiet (hplain hpc rfl) ?_ hsame
    split
    · rfl
    · split <;> rfl
  | fetchValidation | fetchExecution =>
    cases h
    exact hquiet (hplain hpc rfl) (by split <;> rfl) ⟨fun _ => rfl, fun _ => rfl⟩
  | tryExecute => exact hpair h (accessed_tryExecute hpc halive)
  | notify =>
    cases h
    exact hquiet (hplain hpc rfl) rfl ⟨fun _ => rfl, fun _ => rfl⟩
  | running =>
    cases h
    exact accessed_running hpc halive
  | checkDependency =>
    dsimp only at h
    split at h
    · cases h
      exact accessed_checkDependency hpc halive
    · cases h
  | suspend => exact hpair h (accessed_suspend hpc halive)
  | wait =>
    dsimp only at h
    split at h
    · cases h
      exact ⟨_, none, accessed_of halive (.retry (by rw [hpc]; rfl)) rfl rfl rfl⟩
    · cases h
  | applyUpdates => exact accessed_applyUpdates hpc halive h
  | finishExecution =>
    dsimp only at h
    split at h
    · cases h
      exact accessed_finishExecution hpc halive
    · cases h
  | drain =>
    dsimp only at h
    split at h
    · cases h
      exact hquiet (hplain hpc rfl) rfl ⟨fun _ => rfl, fun _ => rfl⟩
    · cases h
  | resume =>
    cases h
    exact accessed_resume hpc halive
  | scheduleValidation =>
    cases h
    exact accessed_scheduleValidation hpc halive
  | revalidate version =>
    cases h
    have hagr := s.scheduler.triggerWave_agrees version.1
    exact hquiet (hplain hpc rfl) rfl ⟨hagr.stage, hagr.validated⟩
  | loadReadSet =>
    dsimp only at h
    split at h
    · next hreads =>
        cases h
        exact ⟨_, _, accessed_panic halive (.readSet hpc hreads)⟩
    · next reads hreads =>
        cases h
        exact ⟨_, none, accessed_of halive (.loadReadSet hpc hreads) rfl rfl rfl⟩
  | validate => exact accessed_validate hpc halive h
  | tryAbort => exact hpair h (accessed_tryAbort hpc halive)
  | loadModifiedKeys =>
    cases h
    exact ⟨_, none, accessed_of halive (.loadModifiedKeys hpc) rfl rfl rfl⟩
  | markEstimates => exact accessed_markEstimates hpc halive h
  | abortDecrease version =>
    cases h
    exact hquiet (hplain hpc rfl) rfl (s.scheduler.triggerWave_agrees version.1)
  | abortLoadExecution =>
    dsimp only at h
    split at h
    · cases h
      exact hquiet (hplain hpc rfl) rfl hsame
    · cases h
      exact hquiet (hplain hpc rfl) rfl ⟨fun _ => rfl, fun _ => rfl⟩
  | abortIncarnate => exact hpair h (accessed_abortIncarnate hpc halive)

theorem not_panicked_of_reachable {reason : Panic}
    (hsafe : forall (s : State worker key value path output error) w,
      (parallelExecution worker value
      path ctx).Reachable s -> s.panicked w = none -> ¬ PanicCause ctx s w reason)
    {s} (hs : (parallelExecution worker value path ctx).Reachable s) (w : worker) :
    s.panicked w ≠ some reason := by
  refine @TransitionSystem.Reachable.invariant _ _ _
    (fun s => s.panicked w ≠ some reason) ?_ ?_ s hs
  · intro s hinit
    rw [hinit]
    simp [State.initial]
  · intro s _ _ hs ih hstep hpanic
    rcases hstep with ⟨w', _, hstep⟩
    rcases access_of_step hstep with ⟨_, _, hacc⟩
    rw [hacc.panicked] at hpanic
    by_cases hw : w = w'
    · subst hw
      rw [update_self] at hpanic
      exact hsafe s w hs hacc.alive (panicCause_of_access hacc.access hpanic)
    · rw [update_of_ne hw] at hpanic
      exact ih hpanic

end OpenLibra.BlockExecutor
