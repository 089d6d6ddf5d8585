import OpenLibra.BlockExecutor.MapConsistency

/-!
# Recorded executions

The history of a run holds one record for each version that was executed.
-/

namespace OpenLibra.BlockExecutor

open Transition Function List

def Concluded (s : State worker key value path output error) (i : TxnIndex) (inc : Incarnation) :
    Prop :=
  s.memory.stage i = .written inc ∨ s.memory.stage i = .aborting inc ∨
    exists w outside, s.pc w = .finishExecution (i, inc) outside

theorem ExecutionStatus.incarnation_of_stage {status : ExecutionStatus} {inc : Incarnation}
    (h : status.stage = .pending inc ∨ status.stage = .written inc ∨ status.stage = .aborting inc) :
    status.incarnation = inc := by
  rcases h with h | h | h <;> cases status <;> cases h <;> rfl

section

variable {worker txn key value path output error : Type} [dk : DecidableEq key]
  [dp : DecidableEq path] [tw : TransactionWrite value] [mk : ModulePath key path]
  [tx : TransactionOutput output key value] {ctx : BlockContext txn key output error}
  {s : State worker key value path output error} {w : worker}
  {recorded : List (Record key output error)} {memory : Memory key value path output error}
  {pc : Pc key value output error} {panic : Option Panic}

theorem record_access (hacc : Access ctx s w recorded memory pc panic)
    {record} (hrec : record ∈ recorded) :
    (exists outside, pc = .finishExecution record.version outside) ∧
      memory.lastInputOutput.inputs record.version.1 = some record.reads ∧
      memory.lastInputOutput.outputs record.version.1 = some record.result := by
  cases hacc with
  | @record version result reads outside =>
    cases mem_singleton.mp hrec
    refine ⟨⟨outside, rfl⟩, ?_, ?_⟩
    · dsimp only
      rw [TxnLastInputOutput.record_inputs, update_self]
    · dsimp only
      rw [TxnLastInputOutput.record_outputs, update_self]
  | _ => cases hrec

variable {version : Version} {outside : Bool}

theorem finishExecution_access (hacc : Access ctx s w recorded memory pc panic)
    (hpc : pc = .finishExecution version outside) : s.pc w = .finishExecution version outside ∨
      exists record, record ∈ recorded ∧ record.version = version := by
  cases hacc with
  | plain _ hplain =>
    rw [hpc] at hplain
    cases hplain
  | stay | panic => exact .inl hpc
  | record =>
    cases hpc
    exact .inr ⟨_, mem_singleton.mpr rfl, rfl⟩
  | _ => cases hpc

theorem setExecuted_access (hacc : Access ctx s w recorded memory pc panic)
    (hpc : s.pc w = .finishExecution version outside) :
    pc = .finishExecution version outside ∨ memory.stage version.1 = .written version.2 := by
  cases hacc with
  | plain hplain =>
    rw [hpc] at hplain
    cases hplain
  | stay | panic => exact .inl hpc
  | retry hinterrupted =>
    rw [hpc] at hinterrupted
    cases hinterrupted
  | setExecuted hpc' =>
    cases hpc.symm.trans hpc'
    exact .inr (update_self _ _ _)
  | start hpc' | read hpc' | depend hpc' | lock hpc' | suspend hpc' | finish hpc' | write hpc'
  | delta hpc' | delete hpc' | record hpc' | loadReadSet hpc' | pass hpc' | fail hpc'
  | finishValidation hpc' | tryAbort hpc' | loseAbort hpc' | loadModifiedKeys hpc'
  | markEstimate hpc' | setAborted hpc' => cases hpc.symm.trans hpc'

theorem lastInputOutput_kept (hinv : Protocol.Invariant s.protocol)
    (hacc : Access ctx s w recorded memory pc panic) {i : TxnIndex} {inc} (h : Concluded s i inc) :
    memory.lastInputOutput.inputs i = s.lastInputOutput.inputs i ∧
      memory.lastInputOutput.outputs i = s.lastInputOutput.outputs i := by
  rcases lastInputOutput_access hacc i with
    hsame | ⟨version, result, reads, outside, hi, hpc, _, _⟩
  · exact hsame
  · subst hi
    have hrole : (s.pc w).role = .executing version.1 version.2 outside := by
      rw [hpc]
      rfl
    have hstage := stage_of_executing hinv hrole
    rcases h with h | h | ⟨w', _, hpc'⟩
    · cases hstage.symm.trans h
    · cases hstage.symm.trans h
    · have hw : w' = w := eq_of_touches hinv (by rw [hrole]; rfl)
        (by rw [hpc']; rfl)
      subst hw
      cases hpc.symm.trans hpc'

end

variable {worker txn key value path output error : Type} [dw : DecidableEq worker]
  [dk : DecidableEq key] [dp : DecidableEq path] [tw : TransactionWrite value]
  [mk : ModulePath key path] [tx : TransactionOutput output key value]

structure Recordings (labels : List (Event key output error))
    (s : State worker key value path output error) : Prop where
  past : forall record, record ∈ records labels -> record.version.2 <
        (s.scheduler.executionStatus record.version.1).incarnation ∨
      (Concluded s record.version.1 record.version.2 ∧
        s.lastInputOutput.inputs record.version.1 = some record.reads ∧
        s.lastInputOutput.outputs record.version.1 = some record.result)
  present : forall i inc, Concluded s i inc ->
    exists record, record ∈ records labels ∧ record.version = (i, inc)

variable {ctx : BlockContext txn key output error} {s s' : State worker key value path output error}
  {w : worker} {labels events : List (Event key output error)} {pc : Pc key value output error}
  {panic : Option Panic}

omit dw dk dp tw mk tx in
theorem recordings_initial (numTxns : Nat) : Recordings []
    (State.initial numTxns : State worker key value path output error) where
  past := fun record hrec => (not_mem_nil hrec).elim
  present := by rintro i inc (h | h | ⟨w, outside, h⟩) <;> cases h

variable {i : TxnIndex} {inc : Incarnation}

theorem concluded_step (hinv : Protocol.Invariant s.protocol)
    (hacc : Accessed ctx s w events s' pc panic) (h : Concluded s i inc) :
    Concluded s' i inc ∨ inc < (s'.scheduler.executionStatus i).incarnation := by
  rcases h with h | h | ⟨w', outside, hpc⟩
  · cases stageChange_of_access hacc.access i with
    | keep hkeep => exact .inl (.inl (hkeep.trans h))
    | executed hpc | aborted hpc => exact (not_touches_of_written hinv h w (by rw [hpc]; rfl)).elim
    | aborting hbef habrt =>
      cases h.symm.trans hbef
      exact .inl (.inr (.inl habrt))
  · cases stageChange_of_access hacc.access i with
    | keep hkeep => exact .inl (.inr (.inl (hkeep.trans h)))
    | executed hpc => cases h.symm.trans (stage_of_executing hinv (by rw [hpc]; rfl))
    | aborting hbef => cases h.symm.trans hbef
    | aborted hpc hpend =>
      cases h.symm.trans (stage_of_aborting hinv (by rw [hpc]; rfl))
      refine .inr ?_
      rw [ExecutionStatus.incarnation_of_stage (.inl hpend)]
      exact Nat.lt_succ_self _
  · by_cases hw : w' = w
    · subst hw
      rcases setExecuted_access hacc.access hpc with hafter | hwr
      · refine .inl (.inr (.inr ⟨w', outside, ?_⟩))
        rw [hacc.pc, update_self, hafter]
      · exact .inl (.inl hwr)
    · refine .inl (.inr (.inr ⟨w', outside, ?_⟩))
      rw [hacc.pc, update_of_ne hw]
      exact hpc

theorem concluded_before (hacc : Accessed ctx s w events s' pc panic) (h : Concluded s' i inc) :
    Concluded s i inc ∨ exists record, record ∈ records events ∧ record.version = (i, inc) := by
  rcases h with h | h | ⟨w', outside, hpc⟩
  · cases stageChange_of_access hacc.access i with
    | keep hkeep => exact .inl (.inl (hkeep.symm.trans h))
    | executed hpc _ hwr =>
      cases h.symm.trans hwr
      exact .inl (.inr (.inr ⟨w, _, hpc⟩))
    | aborting _ habrt | aborted _ habrt => cases h.symm.trans habrt
  · cases stageChange_of_access hacc.access i with
    | keep hkeep => exact .inl (.inr (.inl (hkeep.symm.trans h)))
    | executed _ _ hwr | aborted _ hwr => cases h.symm.trans hwr
    | aborting hbef habrt =>
      cases h.symm.trans habrt
      exact .inl (.inl hbef)
  · rw [hacc.pc] at hpc
    by_cases hw : w' = w
    · subst hw
      rw [update_self] at hpc
      exact (finishExecution_access hacc.access hpc).imp_left fun hbef =>
        .inr (.inr ⟨w', outside, hbef⟩)
    · rw [update_of_ne hw] at hpc
      exact .inl (.inr (.inr ⟨w', outside, hpc⟩))

omit dk dp tw mk tx in
theorem incarnation_refines (href : Refines s events s') (i : TxnIndex) :
    (s.scheduler.executionStatus i).incarnation ≤ (s'.scheduler.executionStatus i).incarnation := by
  rcases href with hstep | ⟨hsame, _⟩
  · exact Protocol.incarnation_step hstep i
  · refine le_of_eq ?_
    show _ = (s'.protocol.scheduler.executionStatus i).incarnation
    rw [hsame]
    rfl

theorem recordings_step (hinv : Protocol.Invariant s.protocol) (href : Refines s events s')
    (hacc : Accessed ctx s w events s' pc panic) (h : Recordings labels s) :
    Recordings (labels ++ events) s' := by
  have hlabels : records (labels ++ events) = records labels ++ records events :=
    filterMap_append
  constructor
  · intro record hrec
    rw [hlabels, mem_append] at hrec
    rcases hrec with hold | hnew
    · rcases h.past record hold with hlt | ⟨hconcluded, hins, houts⟩
      · exact .inl (lt_of_lt_of_le hlt (incarnation_refines href _))
      · rcases concluded_step hinv hacc hconcluded with hafter | hlt
        · rcases lastInputOutput_kept hinv hacc.access hconcluded with ⟨hins', houts'⟩
          exact .inr ⟨hafter, hins'.trans hins, houts'.trans houts⟩
        · exact .inl hlt
    · rcases record_access hacc.access hnew with ⟨⟨outside, hpc⟩, hins, houts⟩
      refine .inr ⟨.inr (.inr ⟨w, outside, ?_⟩), hins, houts⟩
      rw [hacc.pc, update_self, hpc]
  · intro i inc hconcluded
    rw [hlabels]
    rcases concluded_before hacc hconcluded with
      hbef | ⟨record, hnew, hver⟩
    · rcases h.present i inc hbef with ⟨record, hold, hver⟩
      exact ⟨record, mem_append_left _ hold, hver⟩
    · exact ⟨record, mem_append_right _ hnew, hver⟩

theorem recordings_of_execution
    (hs : (parallelExecution worker value path ctx).Execution labels s) : Recordings labels s := by
  refine TransitionSystem.Execution.invariant ?_ ?_ hs
  · intro s hinit
    rw [hinit]
    exact recordings_initial _
  · intro _ _ _ _ hs h hstep
    rcases hstep with ⟨_, _, hstep⟩
    rcases access_of_step hstep with ⟨_, _, hacc⟩
    exact recordings_step (protocol_invariant hs.reachable)
      (refines_of_reachable hs.reachable hstep) hacc h

end OpenLibra.BlockExecutor
