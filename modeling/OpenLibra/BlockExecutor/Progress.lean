import OpenLibra.BlockExecutor.Waves

/-!
# No task is lost

Every transaction that is not committed is looked after by a worker, or one of the two shared
indices will still pass over it.
-/

namespace OpenLibra.BlockExecutor

@[grind] def Role.resumed : Role -> Option TxnIndex
  | .resuming _ _ _ _ minDep => minDep
  | _ => none

namespace Protocol

variable {worker : Type} [dw : DecidableEq worker]

attribute [local grind =] Function.update_apply
attribute [local grind .] taskRole_cases
attribute [local grind] ValidationStatus.validated Scheduler.waveAfter

/-!
# Scheduled work
-/

inductive ExecutionScheduled (p : Protocol worker) (i : TxnIndex) : Prop where
  | sweep (hidx : p.scheduler.executionIdx ≤ i)
  | fetched {w : worker} (hrole : p.role w = .fetchedExecution i)
  | retracting {w : worker} (hrole : (p.role w).retracts = some i)
  | resuming {w : worker} {m : TxnIndex} (hrole : (p.role w).resumed = some m) (hle : m ≤ i)

structure Current (p : Protocol worker) (i : TxnIndex) (wave : Wave) : Prop where
  required : (p.scheduler.validationStatus i).requiredWave ≤ wave
  triggered : forall j, j ≤ i -> p.triggered j ≤ wave

inductive ValidationScheduled (p : Protocol worker) (i : TxnIndex) : Prop where
  | sweep (hidx : p.scheduler.validationIdx ≤ i)
  | finishing {w : worker} {inc : Incarnation} (hrole : (p.role w).finishes = some (i, inc))
  | evidence {wave : Wave} (hevid : p.Evidence i wave) (hcur : p.Current i wave)

structure Progress (p : Protocol worker) : Prop where
  claimed : forall i, (p.scheduler.executionStatus i).claimed = true ->
    exists w, (p.role w).active = some i
  ready : forall i inc condvar, i < p.scheduler.numTxns -> p.scheduler.executionStatus i =
      .readyToExecute inc condvar ->
    p.ExecutionScheduled i
  executed : forall i inc, i < p.scheduler.numTxns ->
    p.scheduler.executionStatus i = .executed inc ->
    p.ValidationScheduled i

omit dw in
theorem progress_initial (numTxns : Nat) : Progress (initial numTxns : Protocol worker) where
  claimed := by simp [initial, Scheduler.new, ExecutionStatus.claimed]
  ready := fun i _ _ _ _ => .sweep (Nat.zero_le i)
  executed := by simp [initial, Scheduler.new]

variable {p p' : Protocol worker} {events : List SchedulerEvent} {i : TxnIndex} {inc : Incarnation}
  {wave : Wave}

theorem numTxns_step (hstep : Step p events p') : p'.scheduler.numTxns = p.scheduler.numTxns := by
  cases hstep <;> rfl

theorem active_step (hstep : Step p events p') {w : worker} (hw : (p.role w).active = some i)
    (hi : (p'.scheduler.executionStatus i).claimed = true) : (p'.role w).active = some i := by
  cases hstep with
  | _ => grind

theorem claimed_step (hstep : Step p events p')
    (hi : (p'.scheduler.executionStatus i).claimed = true) :
    (p.scheduler.executionStatus i).claimed = true ∨ exists w, (p'.role w).active = some i := by
  by_cases hold : (p.scheduler.executionStatus i).claimed = true
  · exact .inl hold
  · right
    cases hstep with
    | @tryExecute w | @incarnate w | @tryAbort w | @suspend w => exact ⟨w, by grind⟩
    | _ => exact (hold (by grind)).elim

theorem progress_claimed_step (h : Progress p) (hstep : Step p events p')
    (i : TxnIndex) (hi : (p'.scheduler.executionStatus i).claimed = true) :
    exists w, (p'.role w).active = some i := by
  rcases claimed_step hstep hi with hold | hnew
  · rcases h.claimed i hold with ⟨w, hw⟩
    exact ⟨w, active_step hstep hw hi⟩
  · exact hnew

theorem executionScheduled_step (hstep : Step p events p') {condvar} (hi : i < p.scheduler.numTxns)
    (hready : p'.scheduler.executionStatus i = .readyToExecute inc condvar)
    (h : p.ExecutionScheduled i) : p'.ExecutionScheduled i := by
  cases h with
  | sweep =>
    cases hstep with
    | @fetchExecution w =>
      by_cases heq : p.scheduler.executionIdx = i
      · exact @ExecutionScheduled.fetched _ _ i w (by simp [heq])
      · exact .sweep (by grind)
    | _ => exact .sweep (by grind)
  | @fetched w => exact @ExecutionScheduled.fetched _ _ i w (by cases hstep <;> grind)
  | @retracting w =>
    cases hstep with
    | @leaveToExecutionSweep w' =>
      by_cases hw : w = w'
      · exact .sweep (by grind)
      · exact @ExecutionScheduled.retracting _ _ i w (by grind)
    | _ => exact @ExecutionScheduled.retracting _ _ i w (by grind)
  | @resuming w m hrole hle =>
    cases hstep with
    | @lowerExecutionIdx w' =>
      by_cases hw : w = w'
      · exact .sweep (by grind)
      · exact @ExecutionScheduled.resuming _ _ i w m (by grind) hle
    | @resume w' i' dep =>
      by_cases hw : w = w'
      · exact @ExecutionScheduled.resuming _ _ i w (min dep m)
          (by grind) (Nat.le_trans (Nat.min_le_right dep m) hle)
      · exact @ExecutionScheduled.resuming _ _ i w m (by grind) hle
    | _ => exact @ExecutionScheduled.resuming _ _ i w m (by grind) hle

theorem progress_ready_step (h : Progress p) (hstep : Step p events p') (i : TxnIndex)
    (inc : Incarnation) (condvar : Option DependencyCondvar) (hi : i < p'.scheduler.numTxns)
    (hready : p'.scheduler.executionStatus i = .readyToExecute inc condvar) :
    p'.ExecutionScheduled i := by
  rw [numTxns_step hstep] at hi
  have hkeep (hold : exists inc condvar, p.scheduler.executionStatus i =
    .readyToExecute inc condvar) :
    p'.ExecutionScheduled i := by
    rcases hold with ⟨inc', condvar', hst⟩
    exact executionScheduled_step hstep hi hready (h.ready i inc' condvar' hi hst)
  cases hstep with
  | @setAborted w i' =>
    by_cases hii : i = i'
    · exact @ExecutionScheduled.retracting _ _ i w (by grind)
    · exact hkeep ⟨inc, condvar, by grind⟩
  | @resume w i' dep inc' inc'' outside deps minDep =>
    by_cases hii : i = dep
    · refine @ExecutionScheduled.resuming _ _ i w (minDep.elim dep (min dep)) (by grind) ?_
      cases minDep with
      | none => exact Nat.le_of_eq hii.symm
      | some m =>
        rw [hii]
        exact Nat.min_le_left dep m
    · exact hkeep ⟨inc, condvar, by grind⟩
  | _ => exact hkeep ⟨inc, condvar, by grind⟩

/-!
# Scheduled validations
-/

theorem exists_validated_wave (status : ValidationStatus) (wave : Wave) :
    exists wave', (status.validated wave).maybeMaxValidatedWave = some wave' ∧ wave ≤ wave' ∧
      forall prev, status.maybeMaxValidatedWave = some prev -> prev ≤ wave' := by
  refine ⟨_, rfl, ?_⟩
  cases hst : status.maybeMaxValidatedWave with
  | none => simp
  | some prev =>
    refine ⟨Nat.le_max_right prev wave, fun prev' hprev => ?_⟩
    cases hprev
    exact Nat.le_max_left prev wave

theorem evidence_kept (hstep : Step p events p')
    (hexec : p'.scheduler.executionStatus i = .executed inc) (h : p.Evidence i wave) :
    exists wave', wave ≤ wave' ∧ p'.Evidence i wave' := by
  cases h with
  | @fetched w =>
    refine ⟨wave, Nat.le_refl wave, ?_⟩
    cases hstep with
    | @tryValidate w' i' inc' =>
      by_cases hw : w = w'
      · exact @Evidence.validating _ _ i wave w inc' (by grind)
      · exact @Evidence.fetched _ _ i wave w (by grind)
    | _ => exact @Evidence.fetched _ _ i wave w (by grind)
  | @validating w inc' hrole =>
    cases hstep with
    | @finishValidation w' i' inc'' wave' hrole' =>
      by_cases hw : w = w'
      · subst hw
        rw [hrole] at hrole'
        cases hrole'
        rcases exists_validated_wave (p.scheduler.validationStatus i)
          wave with ⟨wave', hsome, hle, _⟩
        exact ⟨wave', hle, .validated (by simpa using hsome)⟩
      · exact ⟨wave, Nat.le_refl wave, @Evidence.validating _ _ i wave w inc' (by grind)⟩
    | _ => exact ⟨wave, Nat.le_refl wave, @Evidence.validating _ _ i wave w inc' (by grind)⟩
  | validated hwave =>
    cases hstep with
    | @finishValidation w' i' inc'' wave' =>
      by_cases hii : i = i'
      · subst hii
        rcases exists_validated_wave (p.scheduler.validationStatus i)
          wave' with ⟨wave'', hsome, _, hprev⟩
        exact ⟨wave'', hprev wave hwave, .validated (by simpa using hsome)⟩
      · exact ⟨wave, Nat.le_refl wave, .validated (by grind)⟩
    | _ => exact ⟨wave, Nat.le_refl wave, .validated (by grind)⟩

omit dw in
theorem Current.mono {wave' : Wave} (h : p.Current i wave) (hle : wave ≤ wave') :
    p.Current i wave' where
  required := Nat.le_trans h.required hle
  triggered := fun j hj => Nat.le_trans (h.triggered j hj) hle

omit dw in
theorem current_validationWave (hwaves : Waves p) (i : TxnIndex) :
    p.Current i p.scheduler.validationWave where
  required := hwaves.required i
  triggered := fun j _ => hwaves.triggered j

theorem current_step (hstep : Step p events p') (h : p.Current i wave)
    (hreq : (p'.scheduler.validationStatus i).requiredWave =
      (p.scheduler.validationStatus i).requiredWave) :
    p'.Current i wave ∨ p'.scheduler.validationIdx ≤ i := by
  have hkeep (htrig : forall j, j ≤ i -> p'.triggered j = p.triggered j) : p'.Current i wave :=
    { required := hreq ▸ h.required
      triggered := fun j hj => htrig j hj ▸ h.triggered j hj }
  cases waveChange_of_step hstep with
  | keep _ _ htrig => exact .inl (hkeep (fun j _ => by rw [htrig]))
  | trigger k _ _ _ hidx htrig =>
    by_cases hki : k ≤ i
    · exact .inr (hidx ▸ hki)
    · refine .inl (hkeep (fun j hj => ?_))
      have hne : j ≠ k := fun heq => hki (heq ▸ hj)
      rw [htrig, Function.update_of_ne hne]

theorem required_step (hstep : Step p events p') (i : TxnIndex) :
    (p'.scheduler.validationStatus i).requiredWave = (p.scheduler.validationStatus i).requiredWave ∨
      p'.Evidence i p'.scheduler.validationWave := by
  cases hstep with
  | @requireWave w i' inc =>
    by_cases hii : i = i'
    · exact .inr (@Evidence.validating _ _ i _ w inc (by grind))
    · exact .inl (by grind)
  | _ => exact .inl (by grind)

theorem validationScheduled_step (hwaves : Waves p) (hstep : Step p events p')
    (hi : i < p.scheduler.numTxns)
    (hexec : p'.scheduler.executionStatus i = .executed inc) (h : p.ValidationScheduled i) :
    p'.ValidationScheduled i := by
  have hcur := current_validationWave (waves_step hwaves hstep) i
  cases h with
  | sweep =>
    cases hstep with
    | @fetchValidation w =>
      by_cases heq : p.scheduler.validationIdx = i
      · exact .evidence (@Evidence.fetched _ _ i _ w (by simp [heq])) hcur
      · exact .sweep (by grind)
    | _ => exact .sweep (by grind)
  | @finishing w inc' =>
    cases hstep with
    | @leaveToValidationSweep w' | @revalidate w' =>
      by_cases hw : w = w'
      · exact .sweep (by grind)
      · exact @ValidationScheduled.finishing _ _ i w inc' (by grind)
    | @requireWave w' =>
      by_cases hw : w = w'
      · exact .evidence (@Evidence.validating _ _ i _ w inc' (by grind)) hcur
      · exact @ValidationScheduled.finishing _ _ i w inc' (by grind)
    | _ => exact @ValidationScheduled.finishing _ _ i w inc' (by grind)
  | @evidence wave hevid hwave =>
    rcases required_step hstep i with hreq | hnew
    · rcases current_step hstep hwave hreq with hwave | hidx
      · rcases evidence_kept hstep hexec hevid with ⟨_, hle, hevid⟩
        exact .evidence hevid (hwave.mono hle)
      · exact .sweep hidx
    · exact .evidence hnew hcur

theorem progress_executed_step (hwaves : Waves p) (h : Progress p) (hstep : Step p events p')
    (i : TxnIndex) (inc : Incarnation) (hi : i < p'.scheduler.numTxns)
    (hexec : p'.scheduler.executionStatus i = .executed inc) : p'.ValidationScheduled i := by
  rw [numTxns_step hstep] at hi
  by_cases hold : p.scheduler.executionStatus i = .executed inc
  · exact validationScheduled_step hwaves hstep hi hexec (h.executed i inc hi hold)
  · cases hstep with
    | @setExecuted w i' inc' => exact @ValidationScheduled.finishing _ _ i w inc' (by grind)
    | _ => grind

theorem progress_step (hwaves : Waves p) (h : Progress p) (hstep : Step p events p') :
    Progress p' where
  claimed := progress_claimed_step h hstep
  ready := progress_ready_step h hstep
  executed := progress_executed_step hwaves h hstep

end Protocol

end OpenLibra.BlockExecutor
