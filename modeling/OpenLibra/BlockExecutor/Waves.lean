import OpenLibra.BlockExecutor.Ownership

/-!
# Waves

A wave is a sweep of the validation index over the block.  Lowering the index to a transaction
starts a new wave there.
-/

namespace OpenLibra.BlockExecutor

open Function

@[grind] def Role.wroteOutside : Role -> Option TxnIndex
  | .executing i _ outside => if outside then some i else none
  | .draining i _ outside => if outside then some i else none
  | .resuming i _ outside _ _ => if outside then some i else none
  | .scheduling i _ outside => if outside then some i else none
  | .revalidating i _ => some i
  | _ => none

theorem Role.wroteOutside_eq_some {role : Role} {i : TxnIndex} (h : role.wroteOutside = some i) :
    (exists inc outside, role = .executing i inc outside) ∨
      exists inc, role.finishes = some (i, inc) := by
  have hindex {outside : Bool} {j : TxnIndex}
    (h : (if outside then some j else none) = some i) : j = i := by
    cases outside <;> cases h
    rfl
  cases role with
  | executing j inc outside =>
    cases hindex h
    exact .inl ⟨inc, outside, rfl⟩
  | draining j inc | resuming j inc | scheduling j inc =>
    cases hindex h
    exact .inr ⟨inc, rfl⟩
  | revalidating j inc =>
    cases h
    exact .inr ⟨inc, rfl⟩
  | _ => cases h

@[grind] def ExecutionStatus.isCommitted : ExecutionStatus -> Bool
  | .committed _ => true
  | _ => false

namespace Protocol

variable {worker : Type} [dw : DecidableEq worker]

attribute [local grind =] update_apply
attribute [local grind .] taskRole_cases
attribute [local grind] ValidationStatus.validated Scheduler.waveAfter

@[grind] def triggered (p : Protocol worker) (i : TxnIndex) : Wave :=
  (p.scheduler.validationStatus i).maxTriggeredWave

inductive WaveChange (p p' : Protocol worker) : Prop where
  | keep (hwave : p'.scheduler.validationWave = p.scheduler.validationWave)
      (hidx : p.scheduler.validationIdx ≤ p'.scheduler.validationIdx)
      (htrig : p'.triggered = p.triggered)
  | trigger (i : TxnIndex) (hlt : i < p.scheduler.validationIdx)
      (hholder : exists w, (p.role w).holdsValidation = some i)
      (hwave : p'.scheduler.validationWave = p.scheduler.validationWave + 1)
      (hidx : p'.scheduler.validationIdx = i)
      (htrig : p'.triggered = update p.triggered i (p.scheduler.validationWave + 1))

variable {p p' : Protocol worker} {i j : TxnIndex} {events : List SchedulerEvent} {wave : Wave}

omit dw in
theorem waveChange_of_trigger (hholder : exists w, (p.role w).holdsValidation = some i)
    (hidx : p'.scheduler.validationIdx = min p.scheduler.validationIdx i)
    (hwave : p'.scheduler.validationWave = p.scheduler.waveAfter i)
    (hst : p'.scheduler.validationStatus = p.scheduler.triggeredAfter i) : WaveChange p p' := by
  by_cases hlt : i < p.scheduler.validationIdx
  · refine .trigger i hlt hholder ?_ ?_ ?_
    · rw [hwave, Scheduler.waveAfter, if_pos hlt]
    · rw [hidx, Nat.min_eq_right (Nat.le_of_lt hlt)]
    · funext j
      rw [triggered, hst, Scheduler.triggeredAfter, if_pos hlt]
      by_cases hj : j = i
      · subst hj
        simp
      · simp [hj, triggered]
  · refine .keep ?_ ?_ ?_
    · rw [hwave, Scheduler.waveAfter, if_neg hlt]
    · exact Nat.le_of_eq (by
        rw [hidx, Nat.min_eq_left (Nat.le_of_not_lt hlt)])
    · funext j
      rw [triggered, hst, Scheduler.triggeredAfter, if_neg hlt, triggered]

theorem waveChange_of_step (hstep : Step p events p') : WaveChange p p' := by
  cases hstep with
  | @revalidate w i inc hrole | @abortDecrease w i hrole =>
    exact waveChange_of_trigger ⟨w, by rw [hrole]; rfl⟩ rfl rfl rfl
  | fetchValidation | overrunValidation => exact .keep rfl (Nat.le_succ _) rfl
  | requireWave | finishValidation => exact .keep rfl (Nat.le_refl _) (by funext j; grind)
  | _ => exact .keep rfl (Nat.le_refl _) rfl

/-!
# Evidence
-/

/-- A validation of transaction `i` in a wave is under way or has succeeded. -/
inductive Evidence (p : Protocol worker) (i : TxnIndex) (wave : Wave) : Prop where
  | fetched {w : worker} (hrole : p.role w = .fetchedValidation i wave)
  | validating {w : worker} {inc : Incarnation} (hrole : p.role w = .validating i inc wave)
  | validated (hwave : (p.scheduler.validationStatus i).maybeMaxValidatedWave = some wave)

def Superseded (p : Protocol worker) (i : TxnIndex) (wave : Wave) : Prop :=
  exists j, j ≤ i ∧ wave < p.triggered j

structure Waves (p : Protocol worker) : Prop where
  triggered : forall i, p.triggered i ≤ p.scheduler.validationWave
  required : forall i, (p.scheduler.validationStatus i).requiredWave ≤ p.scheduler.validationWave
  evidence : forall i wave, p.Evidence i wave -> wave ≤ p.scheduler.validationWave
  swept : forall i wave, p.Evidence i wave -> p.Superseded i wave ∨ i < p.scheduler.validationIdx

omit dw in
theorem not_evidence_initial (numTxns : Nat) (i : TxnIndex) (wave : Wave) :
    ¬ (initial numTxns : Protocol worker).Evidence i wave := by
  intro h
  cases h with
  | fetched hrole | validating hrole | validated hrole => cases hrole

omit dw in
theorem waves_initial (numTxns : Nat) : Waves (initial numTxns : Protocol worker) where
  triggered := fun _ => Nat.le_refl 0
  required := fun _ => Nat.le_refl 0
  evidence := fun i wave h => (not_evidence_initial numTxns i wave h).elim
  swept := fun i wave h => (not_evidence_initial numTxns i wave h).elim

theorem evidence_step (hstep : Step p events p') (h : p'.Evidence i wave) : p.Evidence i wave ∨
    (wave = p'.scheduler.validationWave ∧ i < p'.scheduler.validationIdx) := by
  cases h with
  | @fetched w =>
    by_cases hold : p.role w = .fetchedValidation i wave
    · exact .inl (.fetched hold)
    · right
      cases hstep <;> grind
  | @validating w inc =>
    by_cases hold : p.role w = .validating i inc wave
    · exact .inl (.validating hold)
    · cases hstep with
      | tryValidate =>
        refine .inl (@Evidence.fetched _ p i wave w ?_)
        grind
      | _ =>
        right
        grind
  | validated =>
    by_cases hold : (p.scheduler.validationStatus i).maybeMaxValidatedWave = some wave
    · exact .inl (.validated hold)
    · cases hstep with
      | @finishValidation w' i' inc' =>
        refine .inl (@Evidence.validating _ p i wave w' inc' ?_)
        grind
      | _ =>
        right
        grind

theorem triggered_step (hwaves : Waves p) (hstep : Step p events p') (j : TxnIndex) :
    p.triggered j ≤ p'.triggered j := by
  cases waveChange_of_step hstep with
  | keep _ _ htrig => exact Nat.le_of_eq (by rw [htrig])
  | trigger k _ _ _ _ htrig =>
    rw [htrig]
    by_cases hjk : j = k
    · subst hjk
      rw [update_self]
      exact Nat.le_succ_of_le (hwaves.triggered j)
    · exact Nat.le_of_eq (update_of_ne hjk _ _).symm

theorem superseded_step (hwaves : Waves p) (hstep : Step p events p') (h : p.Superseded i wave) :
    p'.Superseded i wave := by
  rcases h with ⟨j, hji, hlt⟩
  exact ⟨j, hji, Nat.lt_of_lt_of_le hlt (triggered_step hwaves hstep j)⟩

theorem waves_required_step (h : Waves p) (hstep : Step p events p') (i : TxnIndex) :
    (p'.scheduler.validationStatus i).requiredWave ≤ p'.scheduler.validationWave := by
  have hreq := h.required i
  cases hstep <;> grind

theorem waves_step (h : Waves p) (hstep : Step p events p') : Waves p' where
  triggered := by
    intro i
    have hi := h.triggered i
    cases waveChange_of_step hstep with
    | keep hwave hidx htrig => rwa [htrig, hwave]
    | trigger k hk _ hwave hidx htrig =>
      rw [htrig, hwave]
      by_cases hik : i = k
      · subst hik
        exact Nat.le_of_eq (update_self _ _ _)
      · rw [update_of_ne hik]
        exact Nat.le_succ_of_le hi
  required := waves_required_step h hstep
  evidence := by
    intro i wave hevid
    rcases evidence_step hstep hevid with hold | ⟨hwave, _⟩
    · have hle := h.evidence i wave hold
      cases waveChange_of_step hstep with
      | keep hwave => rwa [hwave]
      | trigger _ _ _ hwave =>
        rw [hwave]
        exact Nat.le_succ_of_le hle
    · exact Nat.le_of_eq hwave
  swept := by
    intro i wave hevid
    rcases evidence_step hstep hevid with hold | ⟨_, hidx⟩
    · rcases h.swept i wave hold with hsupd | hlt
      · exact .inl (superseded_step h hstep hsupd)
      · cases waveChange_of_step hstep with
        | keep _ hidx => exact .inr (Nat.lt_of_lt_of_le hlt hidx)
        | trigger k hk _ hwave hidx htrig =>
          by_cases hki : k ≤ i
          · refine .inl ⟨k, hki, ?_⟩
            rw [htrig, update_self]
            exact Nat.lt_succ_of_le (h.evidence i wave hold)
          · rw [hidx]
            exact .inr (Nat.lt_of_not_le hki)
    · exact .inr hidx

/-!
# Doubt
-/

def AbortPending (p : Protocol worker) (i : TxnIndex) : Prop :=
  (exists inc, p.scheduler.executionStatus i = .aborting inc) ∨
    exists w, p.role w = .abortDecreasing i

def WritesPending (p : Protocol worker) (i : TxnIndex) : Prop :=
  exists w, (p.role w).wroteOutside = some i

def Doubt (p : Protocol worker) (i : TxnIndex) (wave : Wave) : Prop :=
  p.Superseded i wave ∨ (exists j, j ≤ i ∧ p.AbortPending j) ∨ exists j, j < i ∧ p.WritesPending j

/-- The transactions above `j` are left to a wave later than all evidence. -/
def Settles (p p' : Protocol worker) (j : TxnIndex) : Prop :=
  p.scheduler.validationIdx ≤ j ∨ p.scheduler.validationWave < p'.triggered j

omit dw in
theorem settles_of_trigger (hst : p'.scheduler.validationStatus = p.scheduler.triggeredAfter j) :
    Settles p p' j := by
  by_cases hlt : j < p.scheduler.validationIdx
  · right
    rw [triggered, hst, Scheduler.triggeredAfter, if_pos hlt, update_self]
    exact Nat.lt_succ_self _
  · exact .inl (Nat.le_of_not_lt hlt)

theorem abortPending_step (hstep : Step p events p') (h : p.AbortPending j) :
    p'.AbortPending j ∨ Settles p p' j := by
  rcases h with ⟨inc, hst⟩ | ⟨w, hrole⟩
  · cases hstep with
    | @setAborted w i =>
      by_cases hji : j = i
      · subst hji
        exact .inl (.inr ⟨w, by simp⟩)
      · exact .inl (.inl ⟨inc, by simpa [hji] using hst⟩)
    | _ => exact .inl (.inl ⟨inc, by grind⟩)
  · cases hstep with
    | @abortDecrease w' i hrole' =>
      by_cases hw : w = w'
      · subst hw
        rw [hrole] at hrole'
        cases hrole'
        exact .inr (settles_of_trigger rfl)
      · exact .inl (.inr ⟨w, by simpa [hw] using hrole⟩)
    | _ => exact .inl (.inr ⟨w, by grind⟩)

theorem writesPending_step (hstep : Step p events p') (h : p.WritesPending j) :
    p'.WritesPending j ∨ Settles p p' j := by
  rcases h with ⟨w, hw⟩
  cases hstep with
  | @revalidate w' i inc hrole' =>
    by_cases hww : w = w'
    · subst hww
      rw [hrole'] at hw
      cases hw
      exact .inr (settles_of_trigger rfl)
    · exact .inl ⟨w, by simpa [hww] using hw⟩
  | @leaveToValidationSweep w' i inc outside hrole' =>
    by_cases hww : w = w'
    · subst hww
      rw [hrole'] at hw
      refine .inr (.inl ?_)
      grind
    · exact .inl ⟨w, by simpa [hww] using hw⟩
  | _ => exact .inl ⟨w, by grind⟩

theorem superseded_of_settles (hwaves : Waves p) (hstep : Step p events p')
    (hevid : p.Evidence i wave) (hj : j ≤ i) (h : Settles p p' j) : p'.Superseded i wave := by
  rcases h with hidx | hlt
  · rcases hwaves.swept i wave hevid with hsupd | hi
    · exact superseded_step hwaves hstep hsupd
    · exact (Nat.not_le_of_lt hi (Nat.le_trans hidx hj)).elim
  · exact ⟨j, hj, Nat.lt_of_le_of_lt (hwaves.evidence i wave hevid) hlt⟩

theorem doubt_step (hwaves : Waves p) (hstep : Step p events p')
    (hevid : p.Evidence i wave) (h : p.Doubt i wave) : p'.Doubt i wave := by
  rcases h with hsupd | ⟨j, hj, hpend⟩ | ⟨j, hj, hpend⟩
  · exact .inl (superseded_step hwaves hstep hsupd)
  · rcases abortPending_step hstep hpend with hpend | hsettles
    · exact .inr (.inl ⟨j, hj, hpend⟩)
    · exact .inl (superseded_of_settles hwaves hstep hevid hj hsettles)
  · rcases writesPending_step hstep hpend with hpend | hsettles
    · exact .inr (.inr ⟨j, hj, hpend⟩)
    · exact .inl (superseded_of_settles hwaves hstep hevid (Nat.le_of_lt hj) hsettles)

/-!
# Commits
-/

structure Commits (p : Protocol worker) : Prop where
  committed : forall i, i < p.scheduler.commitIdx <->
    (p.scheduler.executionStatus i).isCommitted = true
  bound : p.scheduler.commitIdx ≤ p.scheduler.numTxns
  swept : forall j, j < p.scheduler.commitIdx -> p.triggered j ≤ p.scheduler.commitWave
  source : p.scheduler.commitWave = 0 ∨
    exists j, j ≤ p.scheduler.commitIdx ∧ p.scheduler.commitWave ≤ p.triggered j

omit dw in
theorem commits_initial (numTxns : Nat) : Commits (initial numTxns : Protocol worker) where
  committed := by simp [initial, Scheduler.new, ExecutionStatus.isCommitted]
  bound := Nat.zero_le _
  swept := by simp [initial, Scheduler.new]
  source := .inl rfl

theorem commits_committed_step (h : Commits p) (hstep : Step p events p') (i : TxnIndex) :
    i < p'.scheduler.commitIdx <-> (p'.scheduler.executionStatus i).isCommitted = true := by
  have hi := h.committed i
  cases hstep <;> grind

theorem commits_bound_step (h : Commits p) (hstep : Step p events p') :
    p'.scheduler.commitIdx ≤ p'.scheduler.numTxns := by
  have hbound := h.bound
  cases hstep <;> grind

omit dw in
theorem not_holdsValidation_of_committed (howns : Owners p)
    (hi : (p.scheduler.executionStatus i).isCommitted = true) (w : worker) :
    (p.role w).holdsValidation ≠ some i := by
  intro hw
  rcases Role.holdsValidation_eq_some hw with ⟨inc, hfinishes⟩ | hretracts
  · rcases howns.finishing w i inc hfinishes with hst | hst
    · rw [hst] at hi
      cases hi
    · rw [hst] at hi
      cases hi
  · have hunfinished := howns.retracting w i hretracts
    unfold ExecutionStatus.isCommitted at hi
    split at hi
    · next inc hst =>
        rw [hst] at hunfinished
        cases hunfinished
    · cases hi

theorem triggered_committed_step (howns : Owners p) (hstep : Step p events p')
    (hi : (p.scheduler.executionStatus i).isCommitted = true) : p'.triggered i = p.triggered i := by
  cases waveChange_of_step hstep with
  | keep _ _ htrig => rw [htrig]
  | trigger k _ hholder _ _ htrig =>
    rcases hholder with ⟨w, hw⟩
    have hne : i ≠ k := by
      intro heq
      rw [← heq] at hw
      exact not_holdsValidation_of_committed howns hi w hw
    rw [htrig, update_of_ne hne]

theorem commitWave_step (hstep : Step p events p') :
    p.scheduler.commitWave ≤ p'.scheduler.commitWave ∧
      p'.scheduler.commitWave ≤ max p.scheduler.commitWave (p.triggered p.scheduler.commitIdx) ∧
      p.scheduler.commitIdx ≤ p'.scheduler.commitIdx := by
  cases hstep <;> grind

theorem commits_swept_step (howns : Owners p) (h : Commits p) (hstep : Step p events p')
    (j : TxnIndex) (hj : j < p'.scheduler.commitIdx) :
    p'.triggered j ≤ p'.scheduler.commitWave := by
  by_cases hold : j < p.scheduler.commitIdx
  · rw [triggered_committed_step howns hstep ((h.committed j).mp hold)]
    exact Nat.le_trans (h.swept j hold) (commitWave_step hstep).left
  · cases hstep with
    | commit => grind
    | _ => exact (hold hj).elim

theorem commits_source_step (hwaves : Waves p) (h : Commits p) (hstep : Step p events p') :
    p'.scheduler.commitWave = 0 ∨ exists j, j ≤ p'.scheduler.commitIdx ∧
        p'.scheduler.commitWave ≤ p'.triggered j := by
  rcases commitWave_step hstep with ⟨_, hle, hidx⟩
  rcases Nat.le_total p.scheduler.commitWave (p.triggered p.scheduler.commitIdx) with hmax | hmax
  · rw [Nat.max_eq_right hmax] at hle
    exact .inr ⟨p.scheduler.commitIdx, hidx, Nat.le_trans hle (triggered_step hwaves hstep _)⟩
  · rw [Nat.max_eq_left hmax] at hle
    rcases h.source with hzero | ⟨j, hj, hsource⟩
    · rw [hzero] at hle
      exact .inl (Nat.le_zero.mp hle)
    · exact .inr ⟨j, Nat.le_trans hj hidx, Nat.le_trans hle
        (Nat.le_trans hsource (triggered_step hwaves hstep j))⟩

theorem commits_step (howns : Owners p) (hwaves : Waves p) (h : Commits p)
    (hstep : Step p events p') : Commits p' where
  committed := commits_committed_step h hstep
  bound := commits_bound_step h hstep
  swept := commits_swept_step howns h hstep
  source := commits_source_step hwaves h hstep

omit dw in
theorem not_abortPending_of_committed (howns : Owners p)
    (hi : (p.scheduler.executionStatus i).isCommitted = true) : ¬ p.AbortPending i := by
  rintro (⟨_, hst⟩ | ⟨w, hw⟩)
  · rw [hst] at hi
    cases hi
  · exact not_holdsValidation_of_committed howns hi w (by rw [hw]; rfl)

omit dw in
theorem not_writesPending_of_committed (howns : Owners p)
    (hi : (p.scheduler.executionStatus i).isCommitted = true) : ¬ p.WritesPending i := by
  rintro ⟨w, hw⟩
  rcases Role.wroteOutside_eq_some hw with ⟨inc, outside, hrole⟩ | ⟨inc, hrole⟩
  · rw [howns.executing w i inc outside hrole] at hi
    cases hi
  · rcases howns.finishing w i inc hrole with h | h <;> rw [h] at hi <;>
      cases hi

omit dw in
theorem not_doubt_of_commit {inc} (hlocks : Locks p) (howns : Owners p) (h : Commits p)
    (hlock : p.scheduler.validationLock p.scheduler.commitIdx = none)
    (hst : p.scheduler.executionStatus p.scheduler.commitIdx = .executed inc)
    (hcommit : p.scheduler.commitWave ≤ wave) (htrig : p.triggered p.scheduler.commitIdx ≤ wave) :
    ¬ p.Doubt p.scheduler.commitIdx wave := by
  have hbelow {j : TxnIndex} (hj : j < p.scheduler.commitIdx) :
    (p.scheduler.executionStatus j).isCommitted = true :=
    (h.committed j).mp hj
  rintro (⟨j, hj, hlt⟩ | ⟨j, hj, hpend⟩ | ⟨j, hj, hpend⟩)
  · rcases Nat.lt_or_eq_of_le hj with hj | rfl
    · exact Nat.not_le_of_lt hlt (Nat.le_trans (h.swept j hj) hcommit)
    · exact Nat.not_le_of_lt hlt htrig
  · rcases Nat.lt_or_eq_of_le hj with hj | rfl
    · exact not_abortPending_of_committed howns (hbelow hj) hpend
    · rcases hpend with ⟨_, habort⟩ | ⟨w, hw⟩
      · rw [hst] at habort
        cases habort
      · exact hlocks.validation.not_holds_of_free hlock w (by rw [hw]; rfl)
  · exact not_writesPending_of_committed howns (hbelow hj) hpend

end Protocol

end OpenLibra.BlockExecutor
