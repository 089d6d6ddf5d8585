import OpenLibra.BlockExecutor.Dependencies
import OpenLibra.BlockExecutor.Progress

/-!
# Quiescence

What the invariants say of a state in which every worker is idle and both shared indices have
left the block.
-/

namespace OpenLibra.BlockExecutor

open Transition

namespace Protocol

variable {worker : Type} [dw : DecidableEq worker]

/-!
# The invariants together
-/

structure Invariant (p : Protocol worker) : Prop where
  inBlock : InBlock p
  locks : Locks p
  owners : Owners p
  dependencies : Dependencies p
  waves : Waves p
  commits : Commits p
  progress : Progress p

omit dw in
theorem invariant_initial (numTxns : Nat) : Invariant (initial numTxns : Protocol worker) where
  inBlock := inBlock_initial numTxns
  locks := locks_initial numTxns
  owners := owners_initial numTxns
  dependencies := dependencies_initial numTxns
  waves := waves_initial numTxns
  commits := commits_initial numTxns
  progress := progress_initial numTxns

variable {p : Protocol worker} {i : TxnIndex}

theorem invariant_step {p'} {events} (h : Invariant p) (hstep : Step p events p') :
    Invariant p' where
  inBlock := inBlock_step h.inBlock hstep
  locks := locks_step h.locks hstep
  owners := owners_step h.locks h.owners hstep
  dependencies := dependencies_step h.locks h.dependencies hstep
  waves := waves_step h.waves hstep
  commits := commits_step h.owners h.waves h.commits hstep
  progress := progress_step h.waves h.progress hstep

theorem invariant_of_reachable {numTxns : Nat} (h : (protocol worker numTxns).Reachable p) :
    Invariant p := by
  refine TransitionSystem.Reachable.invariant ?_ ?_ h
  · intro s hs
    rw [hs]
    exact invariant_initial numTxns
  · intro _ _ _ _ hinv hstep
    exact invariant_step hinv hstep

theorem numTxns_of_reachable {numTxns : Nat} (h : (protocol worker numTxns).Reachable p) :
    p.scheduler.numTxns = numTxns := by
  refine @TransitionSystem.Reachable.invariant _ _ _
    (fun p => p.scheduler.numTxns = numTxns) ?_ ?_ p h
  · intro p hinit
    rw [hinit]
    rfl
  · intro _ _ _ _ hnum hstep
    exact (numTxns_step hstep).trans hnum

/-!
# Idle workers
-/

structure Quiescent (p : Protocol worker) : Prop where
  idle : forall w, p.role w = .idle
  executionIdx : p.scheduler.numTxns ≤ p.scheduler.executionIdx
  validationIdx : p.scheduler.numTxns ≤ p.scheduler.validationIdx

def Committable (p : Protocol worker) (i : TxnIndex) : Prop :=
  (p.scheduler.executionStatus i).isCommitted = true ∨
    exists inc wave, p.scheduler.executionStatus i = .executed inc ∧
      (p.scheduler.validationStatus i).maybeMaxValidatedWave = some wave ∧
      p.scheduler.commitWave ≤ wave ∧ p.Current i wave

omit dw in
theorem Quiescent.not_claimed (h : Invariant p) (hquiet : Quiescent p) (i : TxnIndex) :
    (p.scheduler.executionStatus i).claimed = false := by
  rw [← Bool.not_eq_true]
  intro hclaimed
  rcases h.progress.claimed i hclaimed with ⟨w, hw⟩
  rw [hquiet.idle w] at hw
  cases hw

omit dw in
theorem Quiescent.not_executionScheduled (hquiet : Quiescent p) (hi : i < p.scheduler.numTxns) :
    ¬ p.ExecutionScheduled i := by
  intro h
  cases h with
  | sweep hidx => exact Nat.not_le_of_lt hi (Nat.le_trans hquiet.executionIdx hidx)
  | @fetched w hrole | @retracting w hrole | @resuming w m hrole =>
    rw [hquiet.idle w] at hrole
    cases hrole

omit dw in
theorem Quiescent.validated (hquiet : Quiescent p)
    (hi : i < p.scheduler.numTxns) (h : p.ValidationScheduled i) :
    exists wave, (p.scheduler.validationStatus i).maybeMaxValidatedWave = some wave ∧
      p.Current i wave := by
  cases h with
  | sweep hidx => exact (Nat.not_le_of_lt hi (Nat.le_trans hquiet.validationIdx hidx)).elim
  | @finishing w inc hrole =>
    rw [hquiet.idle w] at hrole
    cases hrole
  | @evidence wave hevid hcur =>
    cases hevid with
    | @fetched w hrole | @validating w inc hrole =>
      rw [hquiet.idle w] at hrole
      cases hrole
    | validated hwave => exact ⟨wave, hwave, hcur⟩

omit dw in
theorem Commits.wave_le (h : Commits p) {wave : Wave}
    (hi : p.scheduler.commitIdx ≤ i) (hcur : p.Current i wave) : p.scheduler.commitWave ≤ wave := by
  rcases h.source with hzero | ⟨j, hj, hle⟩
  · rw [hzero]
    exact Nat.zero_le wave
  · exact Nat.le_trans hle (hcur.triggered j (Nat.le_trans hj hi))

omit dw in
theorem Quiescent.committable (h : Invariant p) (hquiet : Quiescent p)
    (hi : i < p.scheduler.numTxns) : p.Committable i := by
  have hclaimed := hquiet.not_claimed h i
  cases hst : p.scheduler.executionStatus i with
  | readyToExecute inc condvar =>
    exact (hquiet.not_executionScheduled hi (h.progress.ready i inc condvar hi hst)).elim
  | executing | suspended | aborting =>
    rw [hst] at hclaimed
    cases hclaimed
  | committed =>
    left
    rw [hst]
    rfl
  | executed inc =>
    right
    rcases hquiet.validated hi (h.progress.executed i inc hi hst) with ⟨wave, hwave, hcur⟩
    have hidx : p.scheduler.commitIdx ≤ i := by
      apply Nat.le_of_not_lt
      intro hlt
      have hcomm := (h.commits.committed i).mp hlt
      rw [hst] at hcomm
      cases hcomm
    exact ⟨inc, wave, hst, hwave, h.commits.wave_le hidx hcur, hcur⟩

/-!
# Committing the rest of the block
-/

end Protocol

namespace Scheduler

variable {worker : Type} (self : Scheduler worker)

theorem tryCommit_of_done (h : self.commitIdx = self.numTxns) :
    (self.tryCommit true).1 = { self with doneMarker := true } := by
  rw [tryCommit, if_pos h]

theorem tryCommits_of_done (count : Nat)
    (h : self.commitIdx = self.numTxns) (hdone : self.doneMarker = true) :
    self.tryCommits count = self := by
  induction count with
  | zero => rfl
  | succ count ih =>
    rw [tryCommits, tryCommit_of_done self h, ← hdone]
    exact ih

theorem tryCommit_of_validated {inc} {wave : Wave}
    (hidx : self.commitIdx ≠ self.numTxns) (hlock : self.validationLock self.commitIdx = none)
    (hst : self.executionStatus self.commitIdx = .executed inc)
    (hvald : (self.validationStatus self.commitIdx).maybeMaxValidatedWave = some wave)
    (hcommit : self.commitWave ≤ wave)
    (htrig : (self.validationStatus self.commitIdx).maxTriggeredWave ≤ wave)
    (hreq : (self.validationStatus self.commitIdx).requiredWave ≤ wave) :
    self.tryCommit true =
      ({ self with
          commitWave := max self.commitWave (self.validationStatus self.commitIdx).maxTriggeredWave
          executionStatus := Function.update self.executionStatus self.commitIdx (.committed inc)
          commitIdx := self.commitIdx + 1 },
        some self.commitIdx) := by
  have hle : max (max self.commitWave (self.validationStatus self.commitIdx).maxTriggeredWave)
    (self.validationStatus self.commitIdx).requiredWave ≤ wave :=
    Nat.max_le.mpr ⟨Nat.max_le.mpr ⟨hcommit, htrig⟩, hreq⟩
  rw [tryCommit, if_neg hidx, if_pos ⟨rfl, hlock⟩, hst]
  simp only [hvald, if_pos hle, setExecutionStatus]

end Scheduler

namespace Protocol

variable {worker : Type} [dw : DecidableEq worker] {p : Protocol worker}

omit dw in
theorem Quiescent.validationLock (h : Invariant p) (hquiet : Quiescent p) (i : TxnIndex) :
    p.scheduler.validationLock i = none := by
  cases hlock : p.scheduler.validationLock i with
  | none => rfl
  | some w =>
    have hholds := (h.locks.validation i w).mp hlock
    simp only [hquiet.idle w] at hholds
    cases hholds

theorem Quiescent.tryCommit (h : Invariant p) (hquiet : Quiescent p)
    (hidx : p.scheduler.commitIdx ≠ p.scheduler.numTxns) :
    exists p' : Protocol worker, p'.scheduler = (p.scheduler.tryCommit true).1 ∧
      p'.scheduler.numTxns = p.scheduler.numTxns ∧
      p'.scheduler.commitIdx = p.scheduler.commitIdx + 1 ∧ Invariant p' ∧ Quiescent p' := by
  have hlt : p.scheduler.commitIdx < p.scheduler.numTxns := Nat.lt_of_le_of_ne h.commits.bound hidx
  rcases hquiet.committable h hlt with
    hcomm | ⟨inc, wave, hst, hwave, hle, hcur⟩
  · exact (Nat.lt_irrefl _ ((h.commits.committed p.scheduler.commitIdx).mpr hcomm)).elim
  · have hlock := hquiet.validationLock h p.scheduler.commitIdx
    have htrig := hcur.triggered _ (Nat.le_refl _)
    have hstep := Step.commit hidx hlock hst hwave hle htrig hcur.required
    refine ⟨_, ?_, ?_, ?_, invariant_step h hstep, ?_⟩
    · rw [p.scheduler.tryCommit_of_validated hidx hlock hst hwave hle htrig hcur.required]
    · rfl
    · rfl
    · exact { hquiet with }

theorem Quiescent.tryCommits (h : Invariant p) (hquiet : Quiescent p) (count : Nat)
    (hcount : p.scheduler.numTxns - p.scheduler.commitIdx < count) :
    (p.scheduler.tryCommits count).doneMarker = true ∧ forall i, i < p.scheduler.numTxns ->
        ((p.scheduler.tryCommits count).executionStatus i).isCommitted = true := by
  induction count generalizing p with
  | zero => exact (Nat.not_lt_zero _ hcount).elim
  | succ count ih =>
    by_cases hidx : p.scheduler.commitIdx = p.scheduler.numTxns
    · have hdone := p.scheduler.tryCommit_of_done hidx
      have hrest : p.scheduler.tryCommits (count + 1) =
        { p.scheduler with doneMarker := true } := by
        rw [Scheduler.tryCommits, hdone]
        exact Scheduler.tryCommits_of_done _ count hidx rfl
      rw [hrest]
      refine ⟨rfl, fun i hi => ?_⟩
      exact (h.commits.committed i).mp (hidx.symm ▸ hi)
    · rcases hquiet.tryCommit h hidx with ⟨p', hscheduler, hnum, hcommit, hinv, hquiet'⟩
      have hlt := Nat.lt_of_le_of_ne h.commits.bound hidx
      have hrest := ih hinv hquiet' (by rw [hnum, hcommit]; omega)
      rw [hnum, hscheduler] at hrest
      exact hrest

end Protocol

end OpenLibra.BlockExecutor
