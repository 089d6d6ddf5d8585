import OpenLibra.BlockExecutor.Executor
import OpenLibra.BlockExecutor.Layout
import OpenLibra.BlockExecutor.Refinement
import OpenLibra.BlockExecutor.Traces

/-!
# Consistency of the multi-version map

At any time the entries of a transaction are those of its last execution, or a worker is about
to make them so.
-/

namespace OpenLibra.BlockExecutor

open Aggregation Transition Function List

/-!
# Who touches the entries of a transaction
-/

def Pc.touches : Pc key value output error -> Option TxnIndex
  | .applyUpdates version _ _ _ _ _ _ => some version.1
  | .finishExecution version _ => some version.1
  | .loadModifiedKeys version => some version.1
  | .markEstimates version _ => some version.1
  | _ => none

theorem Pc.active_of_touches {pc : Pc key value output error} {i : TxnIndex}
    (h : pc.touches = some i) : pc.role.active = some i := by
  cases pc <;> first | exact h | cases h

theorem Pc.touches_of_plain {pc : Pc key value output error} (h : pc.plain = true) :
    pc.touches = none := by
  cases pc <;> first | rfl | cases h

theorem Pc.touches_of_interrupted {pc : Pc key value output error}
    {execution : Version × Program key output error × List (ReadDescriptor key)}
    (h : pc.interrupted = some execution) : pc.touches = none := by
  cases pc <;> first | rfl | cases h

structure SameAt (m m' : Memory key value path output error) (i : TxnIndex) : Prop where
  entry : forall k, m'.cache.entry k i = m.cache.entry k i
  inputs : m'.lastInputOutput.inputs i = m.lastInputOutput.inputs i
  outputs : m'.lastInputOutput.outputs i = m.lastInputOutput.outputs i

section

variable {key value path output error : Type} [DecidableEq key] [TransactionOutput output key value]
  {m m' : Memory key value path output error} {i : TxnIndex}

theorem SameAt.modifiedKeys (h : SameAt m m' i) :
    m'.lastInputOutput.modifiedKeys i = m.lastInputOutput.modifiedKeys i := by
  unfold TxnLastInputOutput.modifiedKeys
  rw [h.outputs]

theorem Estimated.frame {inc} (h : Estimated m i inc) (hsame : SameAt m m' i) :
    Estimated m' i inc := by
  unfold Estimated
  rw [hsame.modifiedKeys]
  exact h.congr_entry hsame.entry

variable {version : Version} {result : Task.ExecutionStatus output (Error error)}
  {pc : Pc key value output error} {alive : Prop}

theorem Written.frame {reads} (h : Written m version reads result) (hsame : SameAt m m' version.1) :
    Written m' version reads result where
  inputs := hsame.inputs.trans h.inputs
  outputs := hsame.outputs.trans h.outputs
  nodup := h.nodup
  layout := h.layout.congr_entry hsame.entry

theorem Marking.frame {keys : List key} (h : Marking m version keys)
    (hsame : SameAt m m' version.1) : Marking m' version keys where
  nodup := h.nodup
  subset := by
    rw [hsame.modifiedKeys]
    exact h.subset
  layout := by
    rw [hsame.modifiedKeys]
    exact h.layout.congr_entry hsame.entry

omit [DecidableEq key] in
theorem Applying.frame {prev : List key} {writes} {deltas}
    (h : Applying m.cache version result prev writes deltas) (hsame : SameAt m m' version.1) :
    Applying m'.cache version result prev writes deltas := by
  rcases h.applied with ⟨writes', deltas', hwrs, hdels, hnodup, hnil, hlay⟩
  exact ⟨h.nodup, writes', deltas', hwrs, hdels, hnodup, hnil, hlay.congr_entry hsame.entry⟩

def Pc.phase (m : Memory key value path output error) (alive : Prop) :
    Pc key value output error -> Prop
  | .applyUpdates version result _ prev _ writes deltas =>
    alive -> Applying m.cache version result prev writes deltas
  | .finishExecution version _ => exists reads result, Written m version reads result
  | .loadModifiedKeys version => exists reads result, Written m version reads result
  | .markEstimates version keys => Marking m version keys
  | _ => True

theorem Pc.phase_of_not_touches (h : pc.touches = none) : pc.phase m alive := by
  cases pc <;> first | exact trivial | cases h

theorem Pc.phase_mono {alive' : Prop} (h : pc.phase m alive) (halive : alive' -> alive) :
    pc.phase m alive' := by
  cases pc with
  | applyUpdates => exact fun halive' => h (halive halive')
  | finishExecution | loadModifiedKeys | markEstimates => exact h
  | _ => trivial

theorem Pc.phase_frame (h : pc.phase m alive)
    (hsame : forall i, pc.touches = some i -> SameAt m m' i) : pc.phase m' alive := by
  cases pc with
  | applyUpdates version => exact fun halive => (h halive).frame (hsame version.1 rfl)
  | finishExecution version | loadModifiedKeys version =>
    rcases h with ⟨reads, result, h⟩
    exact ⟨reads, result, h.frame (hsame version.1 rfl)⟩
  | markEstimates version => exact Marking.frame h (hsame version.1 rfl)
  | _ => trivial

end

section

variable {worker txn key value path output error : Type} [DecidableEq key] [dp : DecidableEq path]
  [tw : TransactionWrite value] [mk : ModulePath key path] [TransactionOutput output key value]
  {ctx : BlockContext txn key output error} {s : State worker key value path output error}
  {w : worker} {recorded : List (Record key output error)}
  {memory : Memory key value path output error} {pc : Pc key value output error}
  {panic : Option Panic}

theorem sameAt_access (hacc : Access ctx s w recorded memory pc panic)
    {i : TxnIndex} (hi : (s.pc w).touches ≠ some i) : SameAt s.memory memory i := by
  have hne {version : Version} (h : (s.pc w).touches = some version.1) :
    i ≠ version.1 := fun heq => hi (heq ▸ h)
  cases hacc with
  | @write version _ _ _ _ k v _ _ hpc =>
    have hne := hne (by rw [hpc]; rfl)
    refine ⟨fun k' => ?_, rfl, rfl⟩
    exact (s.cache.entry_addWrite k k' version v i).trans (if_neg fun h => hne h.right)
  | @delta version _ _ _ _ k op _ hpc =>
    have hne := hne (by rw [hpc]; rfl)
    refine ⟨fun k' => ?_, rfl, rfl⟩
    exact (s.cache.entry_addDelta k k' version.1 i op).trans (if_neg fun h => hne h.right)
  | @delete version _ _ _ _ k _ _ hpc _ hdele =>
    have hne := hne (by rw [hpc]; rfl)
    cases MVHashMap.delete_eq_ok hdele
    refine ⟨fun k' => ?_, rfl, rfl⟩
    exact (s.cache.entry_setEntry k k' version.1 i none).trans (if_neg fun h => hne h.right)
  | @markEstimate version _ k _ _ hpc _ hmark =>
    have hne := hne (by rw [hpc]; rfl)
    rcases MVHashMap.markEstimate_eq_ok hmark with ⟨_, _, hcache⟩
    subst hcache
    refine ⟨fun k' => ?_, rfl, rfl⟩
    exact (s.cache.entry_setEntry k k' version.1 i _).trans (if_neg fun h => hne h.right)
  | @record version result reads _ hpc =>
    have hne := hne (by rw [hpc]; rfl)
    refine ⟨fun _ => rfl, ?_, ?_⟩
    · dsimp only
      rw [TxnLastInputOutput.record_inputs, update_of_ne hne]
      rfl
    · dsimp only
      rw [TxnLastInputOutput.record_outputs, update_of_ne hne]
      rfl
  | _ => exact ⟨fun _ => rfl, rfl, rfl⟩

inductive StageChange (s : State worker key value path output error) (w : worker) (i : TxnIndex)
    (memory : Memory key value path output error)
    (pc : Pc key value output error) : Prop where
  | keep (hstage : memory.stage i = s.memory.stage i)
  | executed {inc : Incarnation} {outside : Bool} (hpc : s.pc w = .finishExecution (i, inc) outside)
      (hsame : SameAt s.memory memory i)
      (hstage : memory.stage i = .written inc)
  | aborting {inc : Incarnation} (hbef : s.memory.stage i = .written inc)
      (hstage : memory.stage i = .aborting inc)
  | aborted {inc : Incarnation} (hpc : s.pc w = .markEstimates (i, inc) [])
      (hstage : memory.stage i = .pending (inc + 1))

theorem stageChange_of_access (hacc : Access ctx s w recorded memory pc panic) (i : TxnIndex) :
    StageChange s w i memory pc := by
  cases hacc with
  | @setExecuted version outside hpc =>
    by_cases hi : i = version.1
    · subst hi
      exact .executed hpc (⟨fun _ => rfl, rfl, rfl⟩) (update_self _ _ _)
    · exact .keep (update_of_ne hi _ _)
  | @tryAbort version _ hpc hst =>
    by_cases hi : i = version.1
    · subst hi
      exact .aborting (congrArg ExecutionStatus.stage hst) (update_self _ _ _)
    · exact .keep (update_of_ne hi _ _)
  | @setAborted version hpc =>
    by_cases hi : i = version.1
    · subst hi
      exact .aborted hpc (update_self _ _ _)
    · exact .keep (update_of_ne hi _ _)
  | _ => exact .keep rfl

theorem touches_access (hacc : Access ctx s w recorded memory pc panic) {i : TxnIndex}
    (hbef : (s.pc w).touches = some i) (hafter : pc.touches ≠ some i) :
    (exists inc outside, s.pc w = .finishExecution (i, inc) outside ∧
      memory.stage i = .written inc) ∨
      exists inc, s.pc w = .markEstimates (i, inc) [] ∧ SameAt s.memory memory i ∧
        memory.stage i = .pending (inc + 1) := by
  cases hacc with
  | plain hpc =>
    rw [Pc.touches_of_plain hpc] at hbef
    cases hbef
  | stay | panic => exact (hafter hbef).elim
  | retry hpc =>
    rw [Pc.touches_of_interrupted hpc] at hbef
    cases hbef
  | @setExecuted version outside hpc =>
    rw [hpc] at hbef
    cases hbef
    exact .inl ⟨_, _, hpc, update_self _ _ _⟩
  | @setAborted version hpc =>
    rw [hpc] at hbef
    cases hbef
    exact .inr ⟨_, hpc, ⟨fun _ => rfl, rfl, rfl⟩, update_self _ _ _⟩
  | write hpc | delta hpc | delete hpc | record hpc | loadModifiedKeys hpc | markEstimate hpc =>
    rw [hpc] at hbef
    exact (hafter hbef).elim
  | start hpc | read hpc | depend hpc | lock hpc | suspend hpc | finish hpc | loadReadSet hpc
  | pass hpc | fail hpc | finishValidation hpc | tryAbort hpc | loseAbort hpc =>
    rw [hpc] at hbef
    cases hbef

end

/-!
# Owners and stages
-/

section

variable {worker key value path output error : Type} {s : State worker key value path output error}
  {w : worker} {i : TxnIndex} {inc : Incarnation} {status : ExecutionStatus}

theorem stage_of_executing (hinv : Protocol.Invariant s.protocol)
    {outside : Bool} (hrole : (s.pc w).role = .executing i inc outside) :
    s.memory.stage i = .pending inc :=
  congrArg ExecutionStatus.stage (hinv.owners.executing w i inc outside hrole)

theorem stage_of_aborting (hinv : Protocol.Invariant s.protocol)
    (hrole : (s.pc w).role = .aborting i inc) : s.memory.stage i = .aborting inc :=
  congrArg ExecutionStatus.stage (hinv.owners.aborting w i inc hrole)

theorem ExecutionStatus.not_claimed_of_stage (h : status.stage = .written inc) :
    status.claimed = false := by
  cases status <;> first | rfl | cases h

theorem ExecutionStatus.stage_of_isExecuted (h : status.isExecuted = true) :
    exists inc, status.stage = .written inc := by
  cases status with
  | executed inc | committed inc => exact ⟨inc, rfl⟩
  | _ => cases h

theorem ExecutionStatus.stage_of_finished (h : status.finished inc) :
    status.stage = .written inc := by
  rcases h with h | h <;> rw [h] <;> rfl

theorem ExecutionStatus.not_begun_of_stage (h : status.stage = .pending 0) : ¬ status.begun := by
  cases status with
  | readyToExecute | executing | suspended =>
    cases h
    exact fun hbegun => lt_irrefl 0 (hbegun rfl)
  | _ => cases h

theorem Pc.role_eq_aborting {pc : Pc key value output error} (h : pc.role = .aborting i inc) :
    pc = .loadModifiedKeys (i, inc) ∨ exists keys, pc = .markEstimates (i, inc) keys := by
  cases pc with
  | loopTop task =>
    rcases task with ⟨version, _ | _⟩ | ⟨version, wave⟩ | _ | _ <;>
      cases h
  | loadModifiedKeys =>
    cases h
    exact .inl rfl
  | markEstimates version keys =>
    cases h
    exact .inr ⟨keys, rfl⟩
  | _ => cases h

theorem exists_aborting (hinv : Protocol.Invariant s.protocol)
    (hst : s.scheduler.executionStatus i = .aborting inc) :
    exists w, (s.pc w).role = .aborting i inc := by
  have hclaimed : (s.protocol.scheduler.executionStatus i).claimed = true := by
    rw [show s.protocol.scheduler = s.scheduler from rfl, hst]
    rfl
  rcases hinv.progress.claimed i hclaimed with ⟨w, hactive⟩
  refine ⟨w, ?_⟩
  rcases Role.active_eq_some hactive with ⟨inc', outside, hrole⟩ |
    ⟨inc', dep, hrole⟩ | ⟨inc', condvar, hrole⟩ | ⟨inc', hrole⟩
  · cases hst.symm.trans (hinv.owners.executing w i inc' outside hrole)
  · cases hst.symm.trans (hinv.owners.depLocked w i inc' dep hrole)
  · rcases hinv.owners.waiting w i inc' condvar hrole with h | h | h <;>
      cases hst.symm.trans h
  · cases hst.symm.trans (hinv.owners.aborting w i inc' hrole)
    exact hrole

theorem not_touches_of_written (hinv : Protocol.Invariant s.protocol)
    (hstage : s.memory.stage i = .written inc) (w : worker) : (s.pc w).touches ≠ some i := by
  intro htouches
  have hclaimed : (s.scheduler.executionStatus i).claimed = true :=
    hinv.owners.claimed (Pc.active_of_touches htouches)
  rw [ExecutionStatus.not_claimed_of_stage hstage] at hclaimed
  cases hclaimed

theorem eq_of_touches (hinv : Protocol.Invariant s.protocol) {w' : worker}
    (hw : (s.pc w).role.active = some i) (hw' : (s.pc w').touches = some i) : w' = w :=
  hinv.owners.unique w' w i (Pc.active_of_touches hw') hw

end

section

variable {worker txn key value path output error : Type} [dw : DecidableEq worker] [DecidableEq key]
  [dp : DecidableEq path] [tw : TransactionWrite value] [mk : ModulePath key path]
  [TransactionOutput output key value]

structure MapLayout (s : State worker key value path output error) : Prop where
  phase : forall w, (s.pc w).phase s.memory (s.panicked w = none)
  estimated : forall i inc, s.memory.stage i = .pending inc ->
    (forall w, (s.pc w).touches ≠ some i) -> Estimated s.memory i inc
  written : forall i inc, s.memory.stage i = .written inc ->
    exists reads result, Written s.memory (i, inc) reads result
  recorded : forall i, s.memory.stage i ≠ .pending 0 -> (s.lastInputOutput.inputs i).isSome = true

variable {ctx : BlockContext txn key output error} {s s' : State worker key value path output error}
  {w : worker}

omit dw dp tw mk in
theorem mapLayout_initial (numTxns : Nat) : MapLayout
    (State.initial numTxns : State worker key value path output error) where
  phase := fun _ => trivial
  estimated := by
    intro i inc _ _
    exact ⟨fun _ hk => (not_mem_nil hk).elim, fun _ hk => hk.elim, fun _ _ _ => rfl⟩
  written := by
    intro i _ hstage
    cases hstage
  recorded := by
    intro _ hstage
    exact (hstage rfl).elim

/-!
# Preservation
-/

variable {pc : Pc key value output error} {panic : Option Panic}
  {events : List (Event key output error)}

omit dw in
theorem phase_access {recorded : List (Record key output error)}
    {memory : Memory key value path output error} (hinv : Protocol.Invariant s.protocol)
    (h : MapLayout s) (halive : s.panicked w = none)
    (hacc : Access ctx s w recorded memory pc panic) : pc.phase memory (panic = none) := by
  have hphase := h.phase w
  cases hacc with
  | plain _ hpc => exact Pc.phase_of_not_touches (Pc.touches_of_plain hpc)
  | stay | panic => exact Pc.phase_mono hphase (fun _ => halive)
  | @finish version status reads hpc =>
    have hrole : (s.pc w).role = .executing version.1 version.2 false := by
      rw [hpc]
      rfl
    have hestimated := h.estimated version.1 version.2
      (stage_of_executing hinv hrole) (fun w' htouches => by
        cases eq_of_touches hinv (by rw [hrole]; rfl) htouches
        rw [hpc] at htouches
        cases htouches)
    exact fun _ => hestimated.applying status
  | @write version result reads prev outside k v writes deltas hpc =>
    rw [hpc] at hphase
    intro hpanic
    split at hpanic
    · next hasserts => exact (hphase halive).write hasserts
    · cases hpanic
  | delta hpc =>
    rw [hpc] at hphase
    exact fun _ => (hphase halive).delta
  | delete hpc hpick hdele =>
    rw [hpc] at hphase
    exact fun _ => (hphase halive).delete hpick hdele
  | @record version result reads outside hpc =>
    rw [hpc] at hphase
    exact ⟨reads, result, (hphase halive).written reads⟩
  | @tryAbort version wave hpc hst =>
    rcases h.written version.1 version.2
      (congrArg ExecutionStatus.stage hst) with ⟨reads, result, hwr⟩
    exact ⟨reads, result, hwr.frame ⟨fun _ => rfl, rfl, rfl⟩⟩
  | loadModifiedKeys hpc =>
    rw [hpc] at hphase
    rcases hphase with ⟨_, _, hwr⟩
    exact hwr.marking
  | markEstimate hpc hpick hmark =>
    rw [hpc] at hphase
    exact Marking.mark hphase hpick hmark
  | _ => trivial

theorem mapLayout_phase_step (hinv : Protocol.Invariant s.protocol) (h : MapLayout s)
    (hacc : Accessed ctx s w events s' pc panic) (w' : worker) :
    (s'.pc w').phase s'.memory (s'.panicked w' = none) := by
  rw [hacc.panicked, hacc.pc]
  by_cases hw : w' = w
  · subst hw
    rw [update_self, update_self]
    exact phase_access hinv h hacc.alive hacc.access
  · rw [update_of_ne hw, update_of_ne hw]
    refine Pc.phase_frame (h.phase w') (fun i htouches => ?_)
    refine sameAt_access hacc.access (fun htouches' => hw ?_)
    exact eq_of_touches hinv (Pc.active_of_touches htouches') htouches

theorem mapLayout_estimated_step (h : MapLayout s) (hacc : Accessed ctx s w events s' pc panic)
    (i : TxnIndex) (inc : Incarnation) (hstage : s'.memory.stage i = .pending inc)
    (huntouched : forall w, (s'.pc w).touches ≠ some i) : Estimated s'.memory i inc := by
  have hafter : pc.touches ≠ some i := by
    have huntouched := huntouched w
    rwa [hacc.pc, update_self] at huntouched
  have hothers (w' : worker) (hw : w' ≠ w) : (s.pc w').touches ≠ some i := by
    have huntouched := huntouched w'
    rwa [hacc.pc, update_of_ne hw] at huntouched
  by_cases hbef : (s.pc w).touches = some i
  · rcases touches_access hacc.access hbef hafter with ⟨inc', _, _, hwr⟩ | ⟨inc', hpc, hsame, hpend⟩
    · cases hstage.symm.trans hwr
    · cases hstage.symm.trans hpend
      have hphase := h.phase w
      rw [hpc] at hphase
      exact (Marking.estimated hphase).frame hsame
  · have hsame := sameAt_access hacc.access hbef
    cases stageChange_of_access hacc.access i with
    | keep hkeep =>
      refine (h.estimated i inc (hkeep.symm.trans hstage) ?_).frame hsame
      intro w'
      by_cases hw : w' = w
      · rw [hw]
        exact hbef
      · exact hothers w' hw
    | executed hpc _ hwr | aborting _ hwr => cases hstage.symm.trans hwr
    | aborted hpc =>
      rw [hpc] at hbef
      exact (hbef rfl).elim

theorem mapLayout_written_step (hinv : Protocol.Invariant s.protocol) (h : MapLayout s)
    (hacc : Accessed ctx s w events s' pc panic) (i : TxnIndex) (inc : Incarnation)
    (hstage : s'.memory.stage i = .written inc) :
    exists reads result, Written s'.memory (i, inc) reads result := by
  cases stageChange_of_access hacc.access i with
  | keep hkeep =>
    have hbef := hkeep.symm.trans hstage
    rcases h.written i inc hbef with ⟨reads, result, hwr⟩
    exact ⟨reads, result, hwr.frame (sameAt_access hacc.access
      (not_touches_of_written hinv hbef w))⟩
  | executed hpc hsame hwr =>
    cases hstage.symm.trans hwr
    have hphase := h.phase w
    rw [hpc] at hphase
    rcases hphase with ⟨reads, result, hwr⟩
    exact ⟨reads, result, hwr.frame hsame⟩
  | aborting _ habrt | aborted _ habrt => cases hstage.symm.trans habrt

theorem mapLayout_recorded_step (hinv : Protocol.Invariant s.protocol)
    (h : MapLayout s) (hacc : Accessed ctx s w events s' pc panic)
    (i : TxnIndex) (hstage : s'.memory.stage i ≠ .pending 0) :
    (s'.lastInputOutput.inputs i).isSome = true := by
  have hkept (hins : (s.lastInputOutput.inputs i).isSome = true) :
    (s'.lastInputOutput.inputs i).isSome = true := by
    rcases lastInputOutput_access hacc.access i with ⟨hsame, _⟩ | ⟨_, _, reads, _, _, _, hnew, _⟩
    · exact hsame ▸ hins
    · exact Option.isSome_of_eq_some hnew
  cases stageChange_of_access hacc.access i with
  | keep hkeep => exact hkept (h.recorded i (hkeep ▸ hstage))
  | executed hpc =>
    have hphase := h.phase w
    rw [hpc] at hphase
    rcases hphase with ⟨_, _, hwr⟩
    exact hkept (Option.isSome_of_eq_some hwr.inputs)
  | aborting hbef =>
    refine hkept (h.recorded i ?_)
    rw [hbef]
    simp
  | aborted hpc =>
    have hbef := stage_of_aborting hinv (by rw [hpc]; rfl)
    refine hkept (h.recorded i ?_)
    rw [hbef]
    simp

theorem mapLayout_of_reachable (hs : (parallelExecution worker value path ctx).Reachable s) :
    MapLayout s := by
  refine TransitionSystem.Reachable.invariant ?_ ?_ hs
  · intro s hinit
    rw [hinit]
    exact mapLayout_initial _
  · intro _ _ _ hs h hstep
    rcases hstep with ⟨_, _, hstep⟩
    rcases access_of_step hstep with ⟨_, _, hacc⟩
    have hinv := protocol_invariant hs
    exact ⟨mapLayout_phase_step hinv h hacc, mapLayout_estimated_step h hacc,
      mapLayout_written_step hinv h hacc, mapLayout_recorded_step hinv h hacc⟩

end

/-!
# Expectations of the code
-/

section

variable {worker txn key value path output error : Type} [dw : DecidableEq worker] [DecidableEq key]
  [dp : DecidableEq path] [tw : TransactionWrite value] [mk : ModulePath key path]
  [TransactionOutput output key value]

def BlockContext.DistinctWrites (ctx : BlockContext txn key output error) : Prop :=
  forall i program, ctx.program i false = some program ->
    program.Always fun status => ((resultWrites status).map Prod.fst).Nodup

variable {ctx : BlockContext txn key output error} {s : State worker key value path output error}
  {w : worker} {version : Version} {result : Task.ExecutionStatus output (Error error)}
  {reads : List (ReadDescriptor key)} {prev : List key} {outside : Bool}
  {writes : List (key × value)} {deltas : List (key × DeltaOp)} {k : key}
  {m : Memory key value path output error}

theorem resultWrites_nodup (hdist : ctx.DistinctWrites)
    (hs : (parallelExecution worker value path ctx).Reachable s)
    (hpc : s.pc w = .applyUpdates version result reads prev outside writes deltas) :
    ((resultWrites result).map Prod.fst).Nodup := by
  have htraces := traces_of_reachable (fun _ _ _ => True)
    (fun _ _ _ _ _ _ _ _ _ => trivial) (fun _ _ _ _ _ _ _ _ => trivial) hs
  rcases htraces.applying w version result reads prev outside writes deltas
    hpc with ⟨status, hres, program, trace, hprog, hafter, _⟩
  rw [hres, resultWrites_recordedResult]
  exact (hdist version.1 program hprog).after hafter

theorem addWrite_asserts (hdist : ctx.DistinctWrites)
    (hs : (parallelExecution worker value path ctx).Reachable s) (halive : s.panicked w = none)
    {v : value}
    (hpc : s.pc w = .applyUpdates version result reads prev outside ((k, v) :: writes) deltas) :
    (s.cache.addWrite k version v).2 = true := by
  have hphase := (mapLayout_of_reachable hs).phase w
  rw [hpc] at hphase
  rcases (hphase halive).applied with ⟨writes', _, hwrs, _, _, hnil, hlay⟩
  have hnodup := resultWrites_nodup hdist hs hpc
  rw [hwrs, map_append, map_cons] at hnodup
  have hfirst : k ∉ writes'.map Prod.fst := by
    intro hmem
    exact (nodup_append.mp hnodup).right.right k hmem k mem_cons_self rfl
  rw [s.cache.addWrite_asserts_iff]
  intro _ inc v' hent
  rcases (hlay.entry_iff k).mp ⟨_, hent⟩ with hk | hk | hk
  · rcases hlay.ofEstimate k hk with ⟨_, he, _, hbef⟩
    cases hent.symm.trans he
    exact hbef inc v' rfl
  · exact (hfirst hk).elim
  · rw [hnil (cons_ne_nil _ _)] at hk
    cases hk

theorem delete_ok (hs : (parallelExecution worker value path ctx).Reachable s)
    (halive : s.panicked w = none)
    (hpc : s.pc w = .applyUpdates version result reads prev outside writes deltas) (hk : k ∈ prev) :
    exists cache, s.cache.delete k version.1 = .ok cache := by
  have hphase := (mapLayout_of_reachable hs).phase w
  rw [hpc] at hphase
  rcases (hphase halive).applied with ⟨_, _, _, _, _, _, hlay⟩
  rcases hlay.ofEstimate k hk with ⟨_, he, _⟩
  exact ⟨_, MVHashMap.delete_of_entry he⟩

theorem markEstimate_ok (hs : (parallelExecution worker value path ctx).Reachable s)
    {keys : List key} (hpc : s.pc w = .markEstimates version keys) (hk : k ∈ keys) :
    exists cache, s.cache.markEstimate k version.1 = .ok cache := by
  have hphase := (mapLayout_of_reachable hs).phase w
  rw [hpc] at hphase
  rcases (Marking.layout hphase).ofReadable k hk with ⟨_, he, _⟩
  exact ⟨_, MVHashMap.markEstimate_of_entry he⟩

theorem readSet_isSome (hs : (parallelExecution worker value path ctx).Reachable s) {wave : Wave}
    (hpc : s.pc w = .loadReadSet version wave) :
    (s.lastInputOutput.readSet version.1).isSome = true := by
  have hbegun := (protocol_validations hs).begun w version.1 version.2 wave
    (State.protocol_role hpc)
  refine (mapLayout_of_reachable hs).recorded version.1 (fun hstage => ?_)
  exact ExecutionStatus.not_begun_of_stage hstage hbegun

/-- What the executor may rely on when it uses the multi-version map. -/
structure MapConsistent (ctx : BlockContext txn key output error)
    (s : State worker key value path output error) : Prop where
  keys : forall i inc, s.scheduler.executionStatus i = .executed inc ∨
      s.scheduler.executionStatus i = .committed inc ∨
      s.scheduler.executionStatus i = .aborting inc ->
    forall k, (exists e, s.cache.entry k i = some e) <-> k ∈ s.lastInputOutput.modifiedKeys i
  readable : forall i, (s.scheduler.executionStatus i).isExecuted = true ->
    forall k e, s.cache.entry k i = some e -> e.flag = .done
  addWrite : ctx.DistinctWrites -> forall w, s.panicked w ≠ some .addWriteAssertion
  markEstimate : forall w missing, s.panicked w ≠ some (.markEstimate missing)
  delete : forall w missing, s.panicked w ≠ some (.delete missing)
  readSet : forall w, s.panicked w ≠ some .readSet
  resolve : OutputDeltaResolver.resolve ctx.codec ctx.baseView s.cache
    ctx.block.length ≠ .error .noEntries

omit dw dp tw mk in
theorem Written.entry_iff (h : Written m version reads result) (k : key) :
    (exists e, m.cache.entry k version.1 = some e) <->
      k ∈ m.lastInputOutput.modifiedKeys version.1 := by
  rw [modifiedKeys_of_outputs h.outputs, h.layout.entry_iff k, false_or]

omit dw dp tw mk in
theorem Marking.entry_iff {keys : List key} (h : Marking m version keys) (k : key) :
    (exists e, m.cache.entry k version.1 = some e) <->
      k ∈ m.lastInputOutput.modifiedKeys version.1 := by
  rw [h.layout.entry_iff k]
  constructor
  · rintro (hk | hk)
    · exact hk.left
    · exact h.subset k hk
  · intro hk
    by_cases hkeys : k ∈ keys
    · exact .inr hkeys
    · exact .inl ⟨hk, hkeys⟩

theorem entry_iff_of_aborting (hs : (parallelExecution worker value path ctx).Reachable s)
    {i : TxnIndex} {inc : Incarnation} (hst : s.scheduler.executionStatus i = .aborting inc)
    (k : key) :
    (exists e, s.cache.entry k i = some e) <-> k ∈ s.lastInputOutput.modifiedKeys i := by
  rcases exists_aborting (protocol_invariant hs) hst with ⟨w, hrole⟩
  have hphase := (mapLayout_of_reachable hs).phase w
  rcases Pc.role_eq_aborting hrole with hpc | ⟨_, hpc⟩
  · rw [hpc] at hphase
    rcases hphase with ⟨_, _, hwr⟩
    exact hwr.entry_iff k
  · rw [hpc] at hphase
    exact Marking.entry_iff hphase k

/-- The multi-version map is consistent with the recorded outputs, and every
expectation the code has about it is met. -/
theorem map_consistent (hs : (parallelExecution worker value path ctx).Reachable s) :
    MapConsistent ctx s := by
  have hlayout := mapLayout_of_reachable hs
  constructor
  · rintro i inc (hstatus | hstatus | hstatus) k
    · rcases hlayout.written i inc
        (congrArg ExecutionStatus.stage hstatus) with ⟨reads, result, hwritten⟩
      exact hwritten.entry_iff k
    · rcases hlayout.written i inc
        (congrArg ExecutionStatus.stage hstatus) with ⟨reads, result, hwritten⟩
      exact hwritten.entry_iff k
    · exact entry_iff_of_aborting hs hstatus k
  · intro i hexecuted k e hentry
    rcases ExecutionStatus.stage_of_isExecuted hexecuted with ⟨inc, hstage⟩
    rcases hlayout.written i inc hstage with ⟨_, _, hwritten⟩
    rcases (hwritten.layout.entry_iff k).mp ⟨e, hentry⟩ with hk | hk
    · exact hk.elim
    · rcases hwritten.layout.ofReadable k hk with ⟨_, hentry', hflag, _⟩
      cases hentry.symm.trans hentry'
      exact hflag
  · intro hdistinct w
    refine not_panicked_of_reachable ?_ hs w
    intro s w hs halive hcause
    cases hcause with
    | addWrite hpc hasserts => exact hasserts (addWrite_asserts hdistinct hs halive hpc)
  · intro w missing
    refine not_panicked_of_reachable ?_ hs w
    intro s w hs halive hcause
    cases hcause with
    | markEstimate hpc hpick hmark =>
      rcases markEstimate_ok hs hpc (List.mem_of_getElem? hpick) with ⟨cache, hok⟩
      cases hmark.symm.trans hok
  · intro w _
    refine not_panicked_of_reachable ?_ hs w
    intro s w hs halive hcause
    cases hcause with
    | delete hpc hpick hdelete =>
      rcases delete_ok hs halive hpc (List.mem_of_getElem? hpick) with ⟨_, hok⟩
      cases hdelete.symm.trans hok
  · intro w
    refine not_panicked_of_reachable ?_ hs w
    intro s _ hs _ hcause
    cases hcause with
    | readSet hpc hreads =>
      have hsome := readSet_isSome hs hpc
      rw [hreads] at hsome
      cases hsome
  · exact OutputDeltaResolver.resolve_ne_noEntries ctx.codec ctx.baseView s.cache ctx.block.length

end

theorem Chain.distinctWrites : Chain.context.DistinctWrites := by
  intro _ _ hprog
  refine Chain.always_of_program (fun k bytes => ?_) hprog
  exact nodup_singleton _

theorem map_consistent_chain : exists s : State Bool Chain.Key WriteOp Nat Chain.Output Unit,
    (parallelExecution Bool WriteOp Nat Chain.context).Reachable s ∧
    s.scheduler.executionStatus 0 = ExecutionStatus.committed 0 ∧
    s.scheduler.executionStatus 1 = ExecutionStatus.aborting 0 ∧
    MapConsistent Chain.context s ∧
    forall w, s.panicked w ≠ some Panic.addWriteAssertion := by
  have hs := (Chain.execution_after Chain.suspends).reachable
  have hconsistent := map_consistent hs
  exact ⟨_, hs, by decide +kernel, by decide +kernel, hconsistent,
    hconsistent.addWrite Chain.distinctWrites⟩

end OpenLibra.BlockExecutor
