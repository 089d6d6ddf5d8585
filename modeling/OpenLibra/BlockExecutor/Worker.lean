import OpenLibra.BlockExecutor.View
import OpenLibra.Transition.System

/-!
# The workers of the parallel executor

A program counter names the next access to shared state, with the local variables still needed;
one step is one such access by one worker.
-/

namespace OpenLibra.BlockExecutor

open Aggregation Transition TransactionOutput Function

inductive Panic where
  | indexOutOfBounds
  | suspendUnreachable
  | resumeUnreachable
  | setExecutedStatus
  | setAbortedStatus
  | addWriteAssertion
  | markEstimate (missing : MVHashMap.Missing)
  | delete (missing : MVHashMap.Missing)
  | readSet
  | deserialize
deriving DecidableEq, Repr

inductive Pc (key value output error : Type) where
  | start
  | loopTop (task : SchedulerTask)
  | finished
  | checkDone
  | loadValidationIdx
  | loadExecutionIdx (idxToValidate : TxnIndex)
  | recheckDone
  | fetchValidation
  | tryValidate (idx : TxnIndex) (wave : Wave)
  | fetchExecution
  | tryExecute (idx : TxnIndex)
  | notify (condvar : DependencyCondvar)
  | running (version : Version) (program : Program key output error)
      (reads : List (ReadDescriptor key))
  | checkDependency (version : Version) (depIdx : TxnIndex)
      (program : Program key output error) (reads : List (ReadDescriptor key))
  | suspend (version : Version) (depIdx : TxnIndex)
      (program : Program key output error) (reads : List (ReadDescriptor key))
  | wait (version : Version) (condvar : DependencyCondvar)
      (program : Program key output error) (reads : List (ReadDescriptor key))
  | applyUpdates (version : Version) (result : Task.ExecutionStatus output (Error error))
      (reads : List (ReadDescriptor key)) (prevModifiedKeys : List key)
      (updatesOutside : Bool) (writes : List (key × value))
      (deltas : List (key × DeltaOp))
  | finishExecution (version : Version) (revalidateSuffix : Bool)
  | drain (version : Version) (revalidateSuffix : Bool)
  | resume (version : Version) (revalidateSuffix : Bool)
      (txnDeps : List TxnIndex) (minDep : Option TxnIndex)
  | scheduleValidation (version : Version) (revalidateSuffix : Bool)
  | revalidate (version : Version)
  | loadReadSet (version : Version) (wave : Wave)
  | validate (version : Version) (wave : Wave) (reads : List (ReadDescriptor key))
  | tryAbort (version : Version) (wave : Wave)
  | loadModifiedKeys (version : Version)
  | markEstimates (version : Version) (keys : List key)
  | abortDecrease (version : Version)
  | abortLoadExecution (version : Version)
  | abortIncarnate (version : Version)

/-- What the history of a run remembers. -/
inductive Event (key output error : Type) where
  | executionTask (version : Version) (condvar : Option DependencyCondvar)
  | aborted (version : Version)
  | suspended (version : Version) (condvar : DependencyCondvar)
  | recorded (version : Version) (reads : List (ReadDescriptor key))
      (result : Task.ExecutionStatus output (Error error))

/-- Choices left open by the code: whether a `try_` lock is acquired, and which
element of a hash set comes next. -/
structure Choice where
  acquired : Bool
  pick : Nat
deriving DecidableEq, Repr

/-!
# States
-/

/-- State of the parallel execution.  `committing` is the flag from which the
first worker takes the committing role. -/
structure State (worker key value path output error : Type) where
  scheduler : Scheduler worker
  cache : MVHashMap key value
  lastInputOutput : TxnLastInputOutput key path output error
  committing : Bool
  pc : worker -> Pc key value output error
  commits : worker -> Bool
  panicked : worker -> Option Panic

namespace State

variable {worker key value path output error : Type}

def initial (numTxns : Nat) : State worker key value path output error where
  scheduler := Scheduler.new numTxns
  cache := MVHashMap.new
  lastInputOutput := TxnLastInputOutput.new
  committing := true
  pc := fun _ => .start
  commits := fun _ => false
  panicked := fun _ => none

variable [DecidableEq worker] (s : State worker key value path output error)

def goto (w : worker) (pc : Pc key value output error) :
    State worker key value path output error :=
  { s with pc := update s.pc w pc }

def withScheduler (scheduler : Scheduler worker) : State worker key value path output error :=
  { s with scheduler := scheduler }

def withCache (cache : MVHashMap key value) : State worker key value path output error :=
  { s with cache := cache }

def panic (w : worker) (reason : Panic) : State worker key value path output error :=
  { s with panicked := update s.panicked w (some reason) }

end State

/-!
# Steps
-/

section

variable {worker txn key value path output error : Type} [DecidableEq worker] [DecidableEq key]
  [DecidableEq path] [TransactionWrite value] [ModulePath key path]
  [TransactionOutput output key value] (ctx : BlockContext txn key output error)

def quiet (s : State worker key value path output error) :
    Option (State worker key value path output error × List (Event key output error)) :=
  some (s, [])

variable (s : State worker key value path output error) (w : worker)

def dispatch :
    SchedulerTask -> State worker key value path output error
  | .validationTask version wave => s.goto w (.loadReadSet version wave)
  | .executionTask version none =>
    match ctx.program version.1 false with
    | some program => s.goto w (.running version program [])
    | none => s.panic w .indexOutOfBounds
  | .executionTask _ (some condvar) => s.goto w (.notify condvar)
  | .noTask => s.goto w .checkDone
  | .done => s.goto w .finished

def stepLoopTop (acquired : Bool) (task : SchedulerTask) :
    State worker key value path output error :=
  if s.commits w then
    match s.scheduler.tryCommit acquired with
    | (scheduler, some _) => s.withScheduler scheduler
    | (scheduler, none) => dispatch ctx (s.withScheduler scheduler) w task
  else
    dispatch ctx s w task

/-- One access of `next_task`, for the steps that hand out a task. -/
def stepTryExecute (idx : TxnIndex) :
    State worker key value path output error ×
      List (Event key output error) :=
  match s.scheduler.tryIncarnate idx with
  | (scheduler, some (incarnation, maybeCondvar)) =>
    ((s.withScheduler scheduler).goto w (.loopTop (.executionTask (idx, incarnation) maybeCondvar)),
      [.executionTask (idx, incarnation) maybeCondvar])
  | (scheduler, none) => ((s.withScheduler scheduler).goto w .checkDone, [])

variable (version : Version)

def stepRunning (reads : List (ReadDescriptor key)) :
    Program key output error -> State worker key value path output error
  | .done status =>
    let prevModifiedKeys := s.lastInputOutput.modifiedKeys version.1
    match status with
    | .success out =>
      s.goto w (.applyUpdates version (.success out) reads prevModifiedKeys false
        (getWrites out) (getDeltas out))
    | .skipRest out =>
      s.goto w (.applyUpdates version (.skipRest out) reads prevModifiedKeys false
        (getWrites out) (getDeltas out))
    | .abort e =>
      s.goto w (.applyUpdates version (.abort (.userError e)) reads prevModifiedKeys false [] [])
  | .read k next =>
    match capture k (s.cache.read ctx.codec k version.1) with
    | .captured descriptor result =>
      match LatestView.getStateValueMv ctx.codec ctx.baseView k result with
      | .ok bytes => s.goto w (.running version (next (.ok bytes)) (reads ++ [descriptor]))
      | .err e => s.goto w (.running version (next (.error e)) (reads ++ [descriptor]))
      | .panic => s.panic w .deserialize
    | .dependency depIdx => s.goto w (.checkDependency version depIdx (.read k next) reads)
    | .panic => s.panic w .deserialize

/-- `wait_for_dependency` up to the check of the dependency's status, which is
made under the lock of its dependency list. -/
def stepCheckDependency (depIdx : TxnIndex)
    (program : Program key output error) (reads : List (ReadDescriptor key)) :
    State worker key value path output error :=
  match s.scheduler.isExecuted depIdx true with
  | some _ => s.goto w (.running version program reads)
  | none =>
    (s.withScheduler (s.scheduler.setDependencyLock depIdx (some w))).goto w
      (.suspend version depIdx program reads)

/-- The rest of `wait_for_dependency`: suspend, store the dependency, unlock. -/
def stepSuspend (depIdx : TxnIndex) (program : Program key output error)
    (reads : List (ReadDescriptor key)) :
    State worker key value path output error × List (Event key output error) :=
  let (scheduler, depCondvar) := s.scheduler.newCondvar
  match scheduler.suspend version.1 depCondvar with
  | none => (s.panic w .suspendUnreachable, [])
  | some scheduler =>
    ((s.withScheduler ((scheduler.pushDependency depIdx version.1).setDependencyLock depIdx
        none)).goto w (.wait version depCondvar program reads), [.suspended version depCondvar])

def stepApplyUpdates (pick : Nat)
    (version : Version) (result : Task.ExecutionStatus output (Error error))
    (reads : List (ReadDescriptor key)) (prevModifiedKeys : List key) (updatesOutside : Bool) :
    List (key × value) -> List (key × DeltaOp) -> Option (State worker key value path output error ×
        List (Event key output error))
  | (k, v) :: writes, deltas =>
    let updatesOutside := updatesOutside || decide (k ∉ prevModifiedKeys)
    let (cache, asserts) := s.cache.addWrite k version v
    let s := (s.withCache cache).goto w
      (.applyUpdates version result reads (prevModifiedKeys.erase k) updatesOutside writes deltas)
    quiet (if asserts then s else s.panic w .addWriteAssertion)
  | [], (k, delta) :: deltas =>
    let updatesOutside := updatesOutside || decide (k ∉ prevModifiedKeys)
    quiet ((s.withCache (s.cache.addDelta k version.1 delta)).goto w
      (.applyUpdates version result reads (prevModifiedKeys.erase k) updatesOutside [] deltas))
  | [], [] =>
    if prevModifiedKeys = [] then
      some
        ({ s with
            lastInputOutput := s.lastInputOutput.record version.1 reads result }.goto w
            (.finishExecution version updatesOutside),
          [.recorded version reads result])
    else
      match prevModifiedKeys[pick]? with
      | none => none
      | some k =>
        match s.cache.delete k version.1 with
        | .error missing => quiet (s.panic w (.delete missing))
        | .ok cache =>
          quiet ((s.withCache cache).goto w (.applyUpdates version result reads
              (prevModifiedKeys.eraseIdx pick) updatesOutside [] []))

/-- The start of `finish_execution` under the validation lock. -/
def stepFinishExecution (revalidateSuffix : Bool) : State worker key value path output error :=
  match s.scheduler.setExecutedStatus version.1 version.2 with
  | none => s.panic w .setExecutedStatus
  | some scheduler =>
    (s.withScheduler (scheduler.setValidationLock version.1 (some w))).goto w
      (.drain version revalidateSuffix)

def stepResume (revalidateSuffix : Bool) (minDep : Option TxnIndex) :
    List TxnIndex -> State worker key value path output error
  | dep :: txnDeps =>
    match s.scheduler.resume dep with
    | none => s.panic w .resumeUnreachable
    | some scheduler =>
      (s.withScheduler scheduler).goto w (.resume version revalidateSuffix txnDeps
          (some (minDep.elim dep (min dep))))
  | [] =>
    let scheduler :=
      match minDep with
      | some executionTargetIdx => s.scheduler.fetchMinExecutionIdx executionTargetIdx
      | none => s.scheduler
    (s.withScheduler scheduler).goto w (.scheduleValidation version revalidateSuffix)

/-- `finish_execution` from the load of the validation index on. -/
def stepScheduleValidation (revalidateSuffix : Bool) : State worker key value path output error :=
  if version.1 < s.scheduler.validationIdx then
    if revalidateSuffix then
      s.goto w (.revalidate version)
    else
      let curWave := s.scheduler.validationWave
      (s.withScheduler ((s.scheduler.setRequiredWave version.1 curWave).setValidationLock
          version.1 none)).goto w
        (.loopTop (.validationTask version curWave))
  else
    (s.withScheduler (s.scheduler.setValidationLock version.1 none)).goto w (.loopTop .noTask)

def stepValidate (wave : Wave) :
    List (ReadDescriptor key) -> Option (State worker key value path output error ×
        List (Event key output error))
  | r :: reads =>
    match s.cache.read ctx.codec r.accessPath version.1 with
    | .panic => quiet (s.panic w .deserialize)
    | outcome =>
      quiet (s.goto w (if r.validate outcome then .validate version wave reads
          else .tryAbort version wave))
  | [] =>
    if s.scheduler.validationLock version.1 = none then
      quiet ((s.withScheduler (s.scheduler.finishValidation version.1 wave)).goto w
        (.loopTop .noTask))
    else
      none

def stepTryAbort (wave : Wave) :
    State worker key value path output error × List (Event key output error) :=
  match s.scheduler.tryAbort version.1 version.2 with
  | (scheduler, true) =>
    ((s.withScheduler scheduler).goto w (.loadModifiedKeys version), [.aborted version])
  | (scheduler, false) => ((s.withScheduler scheduler).goto w (.validate version wave []), [])

/-- Mark the next entry as an estimate; at the end `finish_abort` starts under
the validation lock. -/
def stepMarkEstimates (pick : Nat) (version : Version) (keys : List key) :
    Option (State worker key value path output error × List (Event key output error)) :=
  if keys = [] then
    if s.scheduler.validationLock version.1 = none then
      match s.scheduler.setAbortedStatus version.1 version.2 with
      | none => quiet (s.panic w .setAbortedStatus)
      | some scheduler =>
        quiet ((s.withScheduler (scheduler.setValidationLock version.1 (some w))).goto w
          (.abortDecrease version))
    else
      none
  else
    match keys[pick]? with
    | none => none
    | some k =>
      match s.cache.markEstimate k version.1 with
      | .error missing => quiet (s.panic w (.markEstimate missing))
      | .ok cache =>
        quiet ((s.withCache cache).goto w (.markEstimates version (keys.eraseIdx pick)))

/-- The last access of `finish_abort`. -/
def stepAbortIncarnate : State worker key value path output error × List (Event key output error) :=
  match s.scheduler.tryIncarnate version.1 with
  | (scheduler, some (newIncarnation, maybeCondvar)) =>
    ((s.withScheduler (scheduler.setValidationLock version.1 none)).goto w
        (.loopTop (.executionTask (version.1, newIncarnation) maybeCondvar)),
      [.executionTask (version.1, newIncarnation) maybeCondvar])
  | (scheduler, none) =>
    ((s.withScheduler (scheduler.setValidationLock version.1 none)).goto w (.loopTop .noTask), [])

/-- One access to shared state by worker `w`; `none` if it is blocked, has
finished or has panicked. -/
def step (w : worker) (choice : Choice) (s : State worker key value path output error) :
    Option (State worker key value path output error × List (Event key output error)) :=
  if (s.panicked w).isSome then
    none
  else
    match s.pc w with
    | .start =>
      quiet
        ({ s with
            commits := update s.commits w s.committing
            committing := false }.goto w (.loopTop .noTask))
    | .loopTop task => quiet (stepLoopTop ctx s w choice.acquired task)
    | .finished => none
    | .checkDone =>
      quiet (s.goto w (if s.scheduler.doneMarker then .loopTop .done
          else .loadValidationIdx))
    | .loadValidationIdx => quiet (s.goto w (.loadExecutionIdx s.scheduler.validationIdx))
    | .loadExecutionIdx idxToValidate =>
      let numTxns := s.scheduler.numTxns
      let idxToExecute := s.scheduler.executionIdx
      quiet (s.goto w (if numTxns ≤ idxToExecute ∧ numTxns ≤ idxToValidate then
          .recheckDone
        else if idxToValidate < idxToExecute then
          .fetchValidation
        else
          .fetchExecution))
    | .recheckDone =>
      quiet (s.goto w (if s.scheduler.doneMarker then .loopTop .done
          else .loopTop .noTask))
    | .fetchValidation =>
      let (scheduler, idxToValidate, wave) := s.scheduler.fetchAddValidationIdx
      quiet ((s.withScheduler scheduler).goto w
        (if s.scheduler.numTxns ≤ idxToValidate then .checkDone
          else .tryValidate idxToValidate wave))
    | .tryValidate idx wave =>
      quiet (s.goto w
        (match s.scheduler.isExecuted idx false with
        | some incarnation => .loopTop (.validationTask (idx, incarnation) wave)
        | none => .checkDone))
    | .fetchExecution =>
      let (scheduler, idxToExecute) := s.scheduler.fetchAddExecutionIdx
      quiet ((s.withScheduler scheduler).goto w
        (if s.scheduler.numTxns ≤ idxToExecute then .checkDone
          else .tryExecute idxToExecute))
    | .tryExecute idx => some (stepTryExecute s w idx)
    | .notify condvar =>
      quiet ((s.withScheduler (s.scheduler.notify condvar)).goto w (.loopTop .noTask))
    | .running version program reads => quiet (stepRunning ctx s w version reads program)
    | .checkDependency version depIdx program reads =>
      if s.scheduler.dependencyLock depIdx = none then
        quiet (stepCheckDependency s w version depIdx program reads)
      else
        none
    | .suspend version depIdx program reads => some (stepSuspend s w version depIdx program reads)
    | .wait version condvar program reads =>
      if s.scheduler.condvars condvar then
        quiet (s.goto w (.running version program reads))
      else
        none
    | .applyUpdates version result reads prevModifiedKeys updatesOutside
        writes deltas =>
        stepApplyUpdates s w choice.pick version result reads prevModifiedKeys
          updatesOutside writes deltas
    | .finishExecution version revalidateSuffix =>
      if s.scheduler.validationLock version.1 = none then
        quiet (stepFinishExecution s w version revalidateSuffix)
      else
        none
    | .drain version revalidateSuffix =>
      if s.scheduler.dependencyLock version.1 = none then
        let (scheduler, txnDeps) := s.scheduler.takeDependencies version.1
        quiet ((s.withScheduler scheduler).goto w (.resume version revalidateSuffix txnDeps none))
      else
        none
    | .resume version revalidateSuffix txnDeps minDep =>
      quiet (stepResume s w version revalidateSuffix minDep txnDeps)
    | .scheduleValidation version revalidateSuffix =>
      quiet (stepScheduleValidation s w version revalidateSuffix)
    | .revalidate version =>
      quiet ((s.withScheduler ((s.scheduler.triggerWave version.1).setValidationLock version.1
          none)).goto w (.loopTop .noTask))
    | .loadReadSet version wave =>
      match s.lastInputOutput.readSet version.1 with
      | none => quiet (s.panic w .readSet)
      | some reads => quiet (s.goto w (.validate version wave reads))
    | .validate version wave reads => stepValidate ctx s w version wave reads
    | .tryAbort version wave => some (stepTryAbort s w version wave)
    | .loadModifiedKeys version =>
      quiet (s.goto w (.markEstimates version (s.lastInputOutput.modifiedKeys version.1)))
    | .markEstimates version keys => stepMarkEstimates s w choice.pick version keys
    | .abortDecrease version =>
      quiet ((s.withScheduler (s.scheduler.triggerWave version.1)).goto w
        (.abortLoadExecution version))
    | .abortLoadExecution version =>
      if version.1 < s.scheduler.executionIdx then
        quiet (s.goto w (.abortIncarnate version))
      else
        quiet ((s.withScheduler (s.scheduler.setValidationLock version.1 none)).goto w
          (.loopTop .noTask))
    | .abortIncarnate version => some (stepAbortIncarnate s w version)

def parallelExecution (worker value path : Type) [DecidableEq worker] [DecidableEq path]
    [TransactionWrite value] [ModulePath key path] [TransactionOutput output key value]
    (ctx : BlockContext txn key output error) :
    TransitionSystem (State worker key value path output error)
      (Event key output error) where
  initial s := s = State.initial ctx.block.length
  step s events s' := exists w choice, step ctx w choice s = some (s', events)

def runSchedule : List (worker × Choice) -> State worker key value path output error ->
    Option (State worker key value path output error × List (Event key output error))
  | [], s => some (s, [])
  | (w, choice) :: schedule, s =>
    match step ctx w choice s with
    | none => none
    | some (next, events) =>
      match runSchedule schedule next with
      | none => none
      | some (last, more) => some (last, events ++ more)

variable {schedule : List (worker × Choice)} {s : State worker key value path output error}
  {events : List (Event key output error)}

theorem run_of_runSchedule {s'} (h : runSchedule ctx schedule s = some (s', events)) :
    TransitionSystem.Run (parallelExecution worker value path ctx) s events s' := by
  induction schedule generalizing s events with
  | nil =>
    cases h
    exact .refl _
  | cons choice schedule ih =>
    rcases choice with ⟨w, choice⟩
    rw [runSchedule] at h
    split at h
    · cases h
    · next next first hstep =>
        split at h
        · cases h
        · next last more hrest =>
            cases h
            have hfirst := TransitionSystem.Run.snoc (TransitionSystem.Run.refl s)
              (show (parallelExecution worker value path ctx).step s first
                next from ⟨w, choice, hstep⟩)
            exact hfirst.trans (ih hrest)

theorem execution_of_runSchedule
    (h : runSchedule ctx schedule (State.initial ctx.block.length) = some (s, events)) :
    (parallelExecution worker value path ctx).Execution events s :=
  ⟨State.initial ctx.block.length, rfl, run_of_runSchedule ctx h⟩

theorem execution_of_isSome (h : (runSchedule ctx schedule (State.initial ctx.block.length :
      State worker key value path output error)).isSome = true) :
    (parallelExecution worker value path ctx).Execution
      ((runSchedule ctx schedule (State.initial ctx.block.length)).get h).2
      ((runSchedule ctx schedule (State.initial ctx.block.length)).get h).1 :=
  execution_of_runSchedule ctx (Option.some_get h).symm

theorem step_of_isSome {w : worker} {choice : Choice} (h : (step ctx w choice s).isSome = true) :
    (parallelExecution worker value path ctx).step s
      ((step ctx w choice s).get h).2 ((step ctx w choice s).get h).1 :=
  ⟨w, choice, (Option.some_get h).symm⟩

end

/-!
# A sample block
-/

namespace Chain

abbrev Key := KeyType Nat

abbrev Output := TransactionOutputExt Key

abbrev Txn := Program Key Output Unit

def writeKey (k : Nat) (bytes : Bytes) : Txn :=
  .done (.success
    { writeSet := [(⟨k, false⟩, .creation bytes)]
      deltaChangeSet := [] })

def copyKey (source target : Nat) : Txn :=
  .read ⟨source, false⟩ fun answer =>
    match answer with
    | .ok (some bytes) => writeKey target bytes
    | _ => writeKey target []

def context : BlockContext Txn Key Output Unit :=
  BlockContext.ofPrograms ValueCodec.littleEndian (fun _ => .ok none)
    [writeKey 0 [7], copyKey 0 1, copyKey 1 2]

theorem always_of_program {kind} (hwrite : forall k bytes, (writeKey k bytes).Always kind)
    {i : TxnIndex} {program : Txn} (hprog : context.program i false = some program) :
    program.Always kind := by
  have hcopy (source target : Nat) : (copyKey source target).Always kind := by
    intro _
    dsimp only
    split
    · exact hwrite _ _
    · exact hwrite _ _
  match i with
  | 0 =>
    cases hprog
    exact hwrite _ _
  | 1 =>
    cases hprog
    exact hcopy _ _
  | 2 =>
    cases hprog
    exact hcopy _ _
  | i + 3 => cases hprog

def schedule (turns : List (Bool × Nat)) : List (Bool × Choice) :=
  turns.flatMap fun (w, count) => List.replicate count (w, ⟨true, 0⟩)

def untilSuspended : List (Bool × Nat) := [(false, 8), (true, 31), (false, 30), (true, 10)]

def untilRevalidated : List (Bool × Nat) := untilSuspended ++ [(false, 24)]

def untilValidated : List (Bool × Nat) := untilSuspended ++ [(false, 33), (true, 19)]

def untilFinished : List (Bool × Nat) :=
  untilSuspended ++ [(false, 33), (true, 9), (false, 14), (true, 3)]

def after (turns : List (Bool × Nat)) : Option (State Bool Key WriteOp Nat Output Unit ×
    List (Event Key Output Unit)) :=
  runSchedule context (schedule turns) (State.initial 3)

theorem suspends : (after untilSuspended).isSome = true := by decide +kernel

theorem revalidates : (after untilRevalidated).isSome = true := by decide +kernel

theorem validates : (after untilValidated).isSome = true := by decide +kernel

theorem finishes : (after untilFinished).isSome = true := by decide +kernel

theorem execution_after {turns} (h : (after turns).isSome = true) :
    (parallelExecution Bool WriteOp Nat context).Execution
      ((after turns).get h).2 ((after turns).get h).1 :=
  execution_of_isSome context h

end Chain

end OpenLibra.BlockExecutor
