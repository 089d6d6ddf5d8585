import OpenLibra.BlockExecutor.Worker

/-!
# What a step does to memory

The relation below lists the accesses to the shared memory, with the program counter of the
worker before and after.
-/

namespace OpenLibra.BlockExecutor

open Rust Aggregation TransactionOutput Function

inductive Stage where
  | pending (incarnation : Incarnation)
  | written (incarnation : Incarnation)
  | aborting (incarnation : Incarnation)
deriving DecidableEq, Repr

def ExecutionStatus.stage : ExecutionStatus -> Stage
  | .readyToExecute inc _ => .pending inc
  | .executing inc => .pending inc
  | .suspended inc _ => .pending inc
  | .executed inc => .written inc
  | .committed inc => .written inc
  | .aborting inc => .aborting inc

structure Memory (key value path output error : Type) where
  cache : MVHashMap key value
  lastInputOutput : TxnLastInputOutput key path output error
  stage : TxnIndex -> Stage
  validated : TxnIndex -> Option Wave

def State.memory (s : State worker key value path output error) :
    Memory key value path output error where
  cache := s.cache
  lastInputOutput := s.lastInputOutput
  stage := fun i => (s.scheduler.executionStatus i).stage
  validated := fun i =>
    (s.scheduler.validationStatus i).maybeMaxValidatedWave

structure Record (key output error : Type) where
  version : Version
  reads : List (ReadDescriptor key)
  result : Task.ExecutionStatus output (Error error)

def Event.recording : Event key output error -> Option (Record key output error)
  | .recorded version reads result => some ⟨version, reads, result⟩
  | .executionTask _ _ => none
  | .aborted _ => none
  | .suspended _ _ => none

def records (labels : List (Event key output error)) : List (Record key output error) :=
  labels.filterMap Event.recording

/-!
# Results of a program
-/

def recordedResult : Task.ExecutionStatus output error -> Task.ExecutionStatus output (Error error)
  | .success out => .success out
  | .skipRest out => .skipRest out
  | .abort e => .abort (.userError e)

section

variable {key value output error : Type} [TransactionOutput output key value]

def resultWrites : Task.ExecutionStatus output error -> List (key × value)
  | .success out | .skipRest out => getWrites out
  | .abort _ => []

def resultDeltas : Task.ExecutionStatus output error -> List (key × DeltaOp)
  | .success out | .skipRest out => getDeltas out
  | .abort _ => []

@[simp] theorem resultWrites_recordedResult (status : Task.ExecutionStatus output error) :
    resultWrites (recordedResult status) = (resultWrites status : List (key × value)) := by
  cases status <;> rfl

@[simp] theorem resultDeltas_recordedResult (status : Task.ExecutionStatus output error) :
    (resultDeltas (recordedResult status) : List (key × DeltaOp)) = resultDeltas status := by
  cases status <;> rfl

end

def viewAnswer : Outcome ViewError (Option Bytes) -> Option ViewResult
  | .ok bytes => some (.ok bytes)
  | .err e => some (.error e)
  | .panic => none

def Pc.plain : Pc key value output error -> Bool
  | .running _ _ _ => false
  | .checkDependency _ _ _ _ => false
  | .suspend _ _ _ _ => false
  | .wait _ _ _ _ => false
  | .applyUpdates _ _ _ _ _ _ _ => false
  | .finishExecution _ _ => false
  | .validate _ _ _ => false
  | .tryAbort _ _ => false
  | .loadModifiedKeys _ => false
  | .markEstimates _ _ => false
  | _ => true

def Pc.interrupted : Pc key value output error -> Option (Version × Program key output error ×
    List (ReadDescriptor key))
  | .running version program reads => some (version, program, reads)
  | .checkDependency version _ program reads => some (version, program, reads)
  | .suspend version _ program reads => some (version, program, reads)
  | .wait version _ program reads => some (version, program, reads)
  | _ => none

variable {worker txn key value path output error : Type} [DecidableEq key] [DecidableEq path]
  [TransactionWrite value] [ModulePath key path] [TransactionOutput output key value]

inductive PanicCause (ctx : BlockContext txn key output error)
    (s : State worker key value path output error) (w : worker) :
    Panic -> Prop where
  | indexOutOfBounds {version} (hpc : s.pc w = .loopTop (.executionTask version none))
      (hprog : ctx.program version.1 false = none) :
      PanicCause ctx s w .indexOutOfBounds
  | suspend {version depIdx program reads} (hpc : s.pc w = .suspend version depIdx program reads)
      (hst : forall inc, s.scheduler.executionStatus version.1 ≠ .executing inc) :
      PanicCause ctx s w .suspendUnreachable
  | resume {version revalidateSuffix dep txnDeps minDep}
      (hpc : s.pc w = .resume version revalidateSuffix (dep :: txnDeps) minDep)
      (hst : forall inc condvar, s.scheduler.executionStatus dep ≠ .suspended inc condvar) :
      PanicCause ctx s w .resumeUnreachable
  | setExecutedStatus {version revalidateSuffix}
      (hpc : s.pc w = .finishExecution version revalidateSuffix)
      (hst : s.scheduler.executionStatus version.1 ≠ .executing version.2) :
      PanicCause ctx s w .setExecutedStatus
  | setAbortedStatus {version} (hpc : s.pc w = .markEstimates version [])
      (hst : s.scheduler.executionStatus version.1 ≠ .aborting version.2) :
      PanicCause ctx s w .setAbortedStatus
  | addWrite {version result reads prev outside k v writes deltas}
      (hpc : s.pc w = .applyUpdates version result reads prev outside ((k, v) :: writes) deltas)
      (hasserts : (s.cache.addWrite k version v).2 ≠ true) :
      PanicCause ctx s w .addWriteAssertion
  | delete {version result reads prev outside k} {pick : Nat} {missing}
      (hpc : s.pc w = .applyUpdates version result reads prev outside [] [])
      (hpick : prev[pick]? = some k) (hdele : s.cache.delete k version.1 = .error missing) :
      PanicCause ctx s w (.delete missing)
  | readSet {version wave} (hpc : s.pc w = .loadReadSet version wave)
      (hreads : s.lastInputOutput.readSet version.1 = none) :
      PanicCause ctx s w .readSet
  | markEstimate {version keys k} {pick : Nat} {missing}
      (hpc : s.pc w = .markEstimates version keys)
      (hpick : keys[pick]? = some k) (hmark : s.cache.markEstimate k version.1 = .error missing) :
      PanicCause ctx s w (.markEstimate missing)
  | deserialize : PanicCause ctx s w .deserialize

/-- The accesses worker `w` can make in state `s`: what is recorded, the memory
and the program counter afterwards, and the panic if there is one. -/
inductive Access (ctx : BlockContext txn key output error)
    (s : State worker key value path output error) (w : worker) :
    List (Record key output error) -> Memory key value path output error ->
      Pc key value output error -> Option Panic -> Prop where
  | plain {pc} (hpc : (s.pc w).plain = true) (hpc' : pc.plain = true) :
      Access ctx s w [] s.memory pc none
  | stay : Access ctx s w [] s.memory (s.pc w) none
  | panic {reason} (hcause : PanicCause ctx s w reason) :
      Access ctx s w [] s.memory (s.pc w) (some reason)
  | start {version program} (hpc : s.pc w =
        .loopTop (.executionTask version none))
      (hprog : ctx.program version.1 false = some program) :
      Access ctx s w [] s.memory (.running version program []) none
  | read {version k next reads descriptor result answer}
      (hpc : s.pc w = .running version (.read k next) reads)
      (hcapt : capture k (s.cache.read ctx.codec k version.1) = .captured descriptor result)
      (hans : viewAnswer (LatestView.getStateValueMv ctx.codec ctx.baseView
        k result) = some answer) :
      Access ctx s w [] s.memory (.running version (next answer) (reads ++ [descriptor])) none
  | depend {version k depIdx next reads} (hpc : s.pc w = .running version (.read k next) reads)
      (hread : s.cache.read ctx.codec k version.1 = .err (.dependency depIdx)) :
      Access ctx s w [] s.memory (.checkDependency version depIdx (.read k next) reads) none
  | retry {version program reads} (hpc : (s.pc w).interrupted = some (version, program, reads)) :
      Access ctx s w [] s.memory (.running version program reads) none
  | lock {version depIdx program reads}
      (hpc : s.pc w = .checkDependency version depIdx program reads) :
      Access ctx s w [] s.memory (.suspend version depIdx program reads) none
  | suspend {version depIdx condvar program reads}
      (hpc : s.pc w = .suspend version depIdx program reads) :
      Access ctx s w [] s.memory (.wait version condvar program reads) none
  | finish {version status reads} (hpc : s.pc w = .running version (.done status) reads) :
      Access ctx s w [] s.memory (.applyUpdates version (recordedResult status) reads
          (s.lastInputOutput.modifiedKeys version.1) false
          (resultWrites status) (resultDeltas status)) none
  | write {version result reads prev outside k v writes deltas}
      (hpc : s.pc w = .applyUpdates version result reads prev outside ((k, v) :: writes) deltas) :
      Access ctx s w []
        { s.memory with cache := (s.cache.addWrite k version v).1 }
        (.applyUpdates version result reads (prev.erase k)
          (outside || decide (k ∉ prev)) writes deltas)
        (if (s.cache.addWrite k version v).2 then none
          else some .addWriteAssertion)
  | delta {version result reads prev outside k op deltas}
      (hpc : s.pc w = .applyUpdates version result reads prev outside [] ((k, op) :: deltas)) :
      Access ctx s w []
        { s.memory with cache := s.cache.addDelta k version.1 op }
        (.applyUpdates version result reads (prev.erase k)
          (outside || decide (k ∉ prev)) [] deltas) none
  | delete {version result reads prev outside k pick cache}
      (hpc : s.pc w = .applyUpdates version result reads prev outside [] [])
      (hpick : prev[pick]? = some k) (hdele : s.cache.delete k version.1 = .ok cache) :
      Access ctx s w [] { s.memory with cache := cache }
        (.applyUpdates version result reads (prev.eraseIdx pick) outside [] []) none
  | record {version result reads outside}
      (hpc : s.pc w = .applyUpdates version result reads [] outside [] []) :
      Access ctx s w [⟨version, reads, result⟩]
        { s.memory with lastInputOutput := s.lastInputOutput.record version.1 reads result }
        (.finishExecution version outside) none
  | setExecuted {version outside} (hpc : s.pc w = .finishExecution version outside) :
      Access ctx s w []
        { s.memory with stage := update s.memory.stage version.1 (.written version.2) }
        (.drain version outside) none
  | loadReadSet {version wave reads} (hpc : s.pc w = .loadReadSet version wave)
      (hreads : s.lastInputOutput.readSet version.1 = some reads) :
      Access ctx s w [] s.memory (.validate version wave reads) none
  | pass {version wave r reads} (hpc : s.pc w = .validate version wave (r :: reads))
      (hvalid : r.validate (s.cache.read ctx.codec r.accessPath version.1) = true) :
      Access ctx s w [] s.memory (.validate version wave reads) none
  | fail {version wave r reads} (hpc : s.pc w = .validate version wave (r :: reads)) :
      Access ctx s w [] s.memory (.tryAbort version wave) none
  | finishValidation {version wave} (hpc : s.pc w = .validate version wave []) :
      Access ctx s w []
        { s.memory with
          validated := update s.memory.validated version.1
            ((s.scheduler.validationStatus version.1).validated wave).maybeMaxValidatedWave }
        (.loopTop .noTask) none
  | tryAbort {version wave} (hpc : s.pc w = .tryAbort version wave)
      (hst : s.scheduler.executionStatus version.1 = .executed version.2) :
      Access ctx s w []
        { s.memory with stage := update s.memory.stage version.1 (.aborting version.2) }
        (.loadModifiedKeys version) none
  | loseAbort {version wave} (hpc : s.pc w = .tryAbort version wave)
      (hst : s.scheduler.executionStatus version.1 ≠ .executed version.2) :
      Access ctx s w [] s.memory (.validate version wave []) none
  | loadModifiedKeys {version} (hpc : s.pc w = .loadModifiedKeys version) :
      Access ctx s w [] s.memory (.markEstimates version
          (s.lastInputOutput.modifiedKeys version.1)) none
  | markEstimate {version keys k pick cache} (hpc : s.pc w = .markEstimates version keys)
      (hpick : keys[pick]? = some k) (hmark : s.cache.markEstimate k version.1 = .ok cache) :
      Access ctx s w [] { s.memory with cache := cache }
        (.markEstimates version (keys.eraseIdx pick)) none
  | setAborted {version} (hpc : s.pc w = .markEstimates version []) : Access ctx s w []
        { s.memory with stage := update s.memory.stage version.1 (.pending (version.2 + 1)) }
        (.abortDecrease version) none

theorem panicCause_of_access {ctx : BlockContext txn key output error}
    {s : State worker key value path output error} {w : worker}
    {recorded : List (Record key output error)} {memory : Memory key value path output error}
    {pc : Pc key value output error} {panic : Option Panic}
    (hacc : Access ctx s w recorded memory pc panic) {reason : Panic}
    (hpanic : panic = some reason) :
    PanicCause ctx s w reason := by
  cases hacc with
  | panic hcause =>
    cases hpanic
    exact hcause
  | write hpc =>
    split at hpanic
    · cases hpanic
    · next hasserts =>
        cases hpanic
        exact .addWrite hpc hasserts
  | _ => cases hpanic

end OpenLibra.BlockExecutor
