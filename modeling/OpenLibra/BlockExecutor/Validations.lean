import OpenLibra.BlockExecutor.History

/-!
# Validations under way

A worker that validates a version was given it when the version had been executed.
-/

namespace OpenLibra.BlockExecutor

open Transition

@[grind] def ExecutionStatus.begun (status : ExecutionStatus) : Prop :=
  status.unfinished = true -> 0 < status.incarnation

@[grind] def ExecutionStatus.finished (status : ExecutionStatus) (inc : Incarnation) : Prop :=
  status = .executed inc ∨ status = .committed inc

namespace Protocol

variable {worker : Type} [dw : DecidableEq worker]

attribute [local grind =] Function.update_apply
attribute [local grind .] taskRole_cases

variable {p p' : Protocol worker} {events : List SchedulerEvent} {i : TxnIndex} {inc : Incarnation}

theorem begun_step (hstep : Step p events p') (h : (p.scheduler.executionStatus i).begun) :
    (p'.scheduler.executionStatus i).begun := by
  cases statusChange_of_step hstep with
  | keep _ hst =>
    rw [hst]
    exact h
  | change hold hchg => cases hchg <;> grind

theorem finished_step (hstep : Step p events p')
    (h : (p.scheduler.executionStatus i).finished inc) :
    (p'.scheduler.executionStatus i).finished inc ∨ p'.AbortPending i := by
  cases statusChange_of_step hstep with
  | keep _ hst =>
    rw [hst]
    exact .inl h
  | change hold hchg =>
    unfold AbortPending
    cases hchg <;> grind

theorem validating_step (hstep : Step p events p') {w : worker} {wave : Wave}
    (hrole : p'.role w = .validating i inc wave) : p.role w = .validating i inc wave ∨
      (p'.scheduler.executionStatus i = p.scheduler.executionStatus i ∧
        (p.scheduler.executionStatus i = .executed inc ∨ (p.role w).finishes = some (i, inc))) := by
  cases hstep with
  | _ => grind

theorem commit_of_step (hstep : Step p events p')
    (hbef : (p.scheduler.executionStatus i).isCommitted = false)
    (hafter : (p'.scheduler.executionStatus i).isCommitted = true) :
    i = p.scheduler.commitIdx ∧ p.scheduler.validationLock i = none ∧
      exists inc wave, p.scheduler.executionStatus i = .executed inc ∧
        (p.scheduler.validationStatus i).maybeMaxValidatedWave = some wave ∧
        p.scheduler.commitWave ≤ wave ∧ p.triggered i ≤ wave ∧
        (p.scheduler.validationStatus i).requiredWave ≤ wave := by
  cases hstep with
  | @commit inc wave _ hlock hst hvald hcommit htrig hreq =>
    by_cases hi : i = p.scheduler.commitIdx
    · subst hi
      exact ⟨rfl, hlock, inc, wave, hst, hvald, hcommit, htrig, hreq⟩
    · dsimp only at hafter
      rw [Function.update_of_ne hi, hbef] at hafter
      cases hafter
  | _ => grind

/-!
# The invariant
-/

structure Validations (p : Protocol worker) : Prop where
  begun : forall w i inc wave, p.role w = .validating i inc wave ->
    (p.scheduler.executionStatus i).begun
  current : forall w i inc wave, p.role w = .validating i inc wave ->
    p.Doubt i wave ∨ (p.scheduler.executionStatus i).finished inc
  done : p.scheduler.doneMarker = true -> p.scheduler.commitIdx = p.scheduler.numTxns

omit dw in
theorem validations_initial (numTxns : Nat) : Validations (initial numTxns : Protocol worker) where
  begun := by simp [initial]
  current := by simp [initial]
  done := by simp [initial, Scheduler.new]

omit dw in
theorem finished_of_new_validation (howns : Owners p) {w : worker}
    (hst : p'.scheduler.executionStatus i = p.scheduler.executionStatus i)
    (h : p.scheduler.executionStatus i = .executed inc ∨ (p.role w).finishes = some (i, inc)) :
    (p'.scheduler.executionStatus i).finished inc ∨
      p'.scheduler.executionStatus i = .aborting inc := by
  rw [hst]
  rcases h with hexec | hfinishes
  · exact .inl (.inl hexec)
  · exact (howns.finishing w i inc hfinishes).imp_left .inl

theorem validations_begun_step (howns : Owners p) (h : Validations p)
    (hstep : Step p events p') (w : worker) (i : TxnIndex) (inc : Incarnation)
    (wave : Wave) (hrole : p'.role w = .validating i inc wave) :
    (p'.scheduler.executionStatus i).begun := by
  rcases validating_step hstep hrole with hrole | ⟨hst, hnew⟩
  · exact begun_step hstep (h.begun w i inc wave hrole)
  · rcases finished_of_new_validation howns hst hnew with
      (h | h) | h <;> rw [h] <;> intro hunfinished <;> cases hunfinished

theorem validations_current_step (howns : Owners p) (hwaves : Waves p) (h : Validations p)
    (hstep : Step p events p') (w : worker) (i : TxnIndex) (inc : Incarnation) (wave : Wave)
    (hrole : p'.role w = .validating i inc wave) :
    p'.Doubt i wave ∨ (p'.scheduler.executionStatus i).finished inc := by
  have hpend (hpend : p'.AbortPending i) : p'.Doubt i wave :=
    .inr (.inl ⟨i, Nat.le_refl i, hpend⟩)
  rcases validating_step hstep hrole with hrole | ⟨hst, hnew⟩
  · rcases h.current w i inc wave hrole with hdoubt | hfin
    · exact .inl (doubt_step hwaves hstep (.validating hrole) hdoubt)
    · exact (finished_step hstep hfin).symm.imp_left hpend
  · rcases finished_of_new_validation howns hst hnew with
      hfin | habrt
    · exact .inr hfin
    · exact .inl (hpend (.inl ⟨inc, habrt⟩))

theorem validations_done_step (h : Validations p) (hstep : Step p events p')
    (hdone : p'.scheduler.doneMarker = true) : p'.scheduler.commitIdx = p'.scheduler.numTxns := by
  have hbef := h.done
  cases hstep with
  | markDone hidx => exact hidx
  | commit hidx => exact (hidx (hbef hdone)).elim
  | _ => exact hbef hdone

theorem validations_step (howns : Owners p) (hwaves : Waves p)
    (h : Validations p) (hstep : Step p events p') : Validations p' where
  begun := validations_begun_step howns h hstep
  current := validations_current_step howns hwaves h hstep
  done := validations_done_step h hstep

theorem validations_of_reachable {numTxns : Nat} (h : (protocol worker numTxns).Reachable p) :
    Validations p := by
  refine TransitionSystem.Reachable.invariant ?_ ?_ h
  · intro p hinit
    rw [hinit]
    exact validations_initial numTxns
  · intro _ _ _ hp h hstep
    have hinv := invariant_of_reachable hp
    exact validations_step hinv.owners hinv.waves h hstep

end Protocol

end OpenLibra.BlockExecutor
