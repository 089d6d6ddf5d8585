import OpenLibra.BlockExecutor.Ownership
import OpenLibra.Transition.Slots

/-!
# Dependencies

A suspended transaction sits in the dependency list of a lower one, or in the hands of the worker
that has just drained that list.
-/

namespace OpenLibra.BlockExecutor

open Transition Function

@[grind] def Role.taken : Role -> List TxnIndex
  | .resuming _ _ _ deps _ => deps
  | _ => []

@[grind] def ExecutionStatus.isSuspended : ExecutionStatus -> Bool
  | .suspended _ _ => true
  | _ => false

inductive DependencySlot (worker : Type) where
  | stored (i : TxnIndex)
  | taken (w : worker)
deriving DecidableEq

namespace Protocol

variable {worker : Type} [dw : DecidableEq worker]

attribute [local grind =] update_apply
attribute [local grind .] taskRole_cases
attribute [local grind] ExecutionStatus.isExecuted

def dependencySlots (p : Protocol worker) : DependencySlot worker -> List TxnIndex
  | .stored i => p.scheduler.txnDependency i
  | .taken w => (p.role w).taken

/-- The dependencies on `i` are still to be drained. -/
def Unresolved (p : Protocol worker) (i : TxnIndex) : Prop :=
  (p.scheduler.executionStatus i).isExecuted = false ∨
    exists w inc outside, p.role w = .draining i inc outside

structure Dependencies (p : Protocol worker) : Prop where
  spread : Spread p.dependencySlots
  suspended : forall j, Waits p.dependencySlots j <->
    (p.scheduler.executionStatus j).isSuspended = true
  stored : forall i j, j ∈ p.scheduler.txnDependency i -> i < j ∧ p.Unresolved i
  taken : forall w i inc outside deps minDep, p.role w = .resuming i inc outside deps minDep ->
    forall j, j ∈ deps -> i < j
  locked : forall w i inc dep, p.role w = .depLocked i inc dep -> dep < i ∧ p.Unresolved dep

omit dw in
theorem dependencySlots_initial (numTxns : Nat) (slot : DependencySlot worker) :
    (initial numTxns : Protocol worker).dependencySlots slot = [] := by
  cases slot with
  | stored | taken => rfl

omit dw in
theorem dependencies_initial (numTxns : Nat) :
    Dependencies (initial numTxns : Protocol worker) where
  spread :=
    { nodup := by simp [dependencySlots_initial]
      unique := by simp [dependencySlots_initial] }
  suspended := by
    intro j
    simp only [Waits, dependencySlots_initial]
    simp [initial, Scheduler.new, ExecutionStatus.isSuspended]
  stored := by simp [initial, Scheduler.new]
  taken := by simp [initial]
  locked := by simp [initial]

inductive SlotChange (p p' : Protocol worker) : Prop where
  | keep (hslots : p'.dependencySlots = p.dependencySlots)
      (hsusp : forall j, (p'.scheduler.executionStatus j).isSuspended =
        (p.scheduler.executionStatus j).isSuspended)
  | push {i dep : TxnIndex} (hst : (p.scheduler.executionStatus i).isSuspended = false)
      (hslots : p'.dependencySlots = update p.dependencySlots (.stored dep)
        (p.dependencySlots (.stored dep) ++ [i]))
      (hsusp : forall j, (p'.scheduler.executionStatus j).isSuspended = true <->
          (p.scheduler.executionStatus j).isSuspended = true ∨ j = i)
  | move {i : TxnIndex} {w : worker} (hempty : p.dependencySlots (.taken w) = [])
      (hslots : p'.dependencySlots = update (update p.dependencySlots (.stored i)
        []) (.taken w) (p.dependencySlots (.stored i)))
      (hsusp : forall j, (p'.scheduler.executionStatus j).isSuspended =
        (p.scheduler.executionStatus j).isSuspended)
  | pop {dep : TxnIndex} {deps : List TxnIndex} {w : worker}
      (htaken : p.dependencySlots (.taken w) = dep :: deps)
      (hslots : p'.dependencySlots = update p.dependencySlots (.taken w) deps)
      (hsusp : forall j, (p'.scheduler.executionStatus j).isSuspended = true <->
          (p.scheduler.executionStatus j).isSuspended = true ∧ j ≠ dep)

variable {p p' : Protocol worker} {events : List SchedulerEvent}

theorem slotChange_of_step (hstep : Step p events p') : SlotChange p p' := by
  cases hstep with
  | @suspend w i dep inc hrole hst =>
    refine @SlotChange.push _ _ p _ i dep (by rw [hst]; rfl) ?_ ?_
    · funext slot
      cases slot <;> grind [dependencySlots]
    · grind
  | @drain w i inc outside hrole =>
    refine @SlotChange.move _ _ p _ i w ?_ ?_ ?_
    · rw [dependencySlots, hrole]
      rfl
    · funext slot
      cases slot <;> grind [dependencySlots]
    · intro j
      rfl
  | @resume w i dep inc inc' outside deps minDep condvar hrole =>
    refine @SlotChange.pop _ _ p _ dep deps w ?_ ?_ ?_
    · rw [dependencySlots, hrole]
      rfl
    · funext slot
      cases slot <;> grind [dependencySlots]
    · grind
  | _ =>
    refine .keep ?_ (by grind)
    funext slot
    cases slot <;> grind [dependencySlots]

/-!
# Preservation
-/

theorem dependencies_spread_step (h : Dependencies p) (hstep : Step p events p') :
    Spread p'.dependencySlots ∧ forall j, Waits p'.dependencySlots j <->
        (p'.scheduler.executionStatus j).isSuspended = true := by
  have hspread := h.spread
  have hwaits := h.suspended
  cases slotChange_of_step hstep with
  | keep hslots hsusp =>
    rw [hslots]
    exact ⟨hspread, fun j => by rw [hwaits j, hsusp j]⟩
  | @push i dep hst hslots hsusp =>
    have hfresh : ¬ Waits p.dependencySlots i := by
      rw [hwaits i, hst]
      exact Bool.false_ne_true
    rw [hslots]
    refine ⟨hspread.push hfresh, fun j => ?_⟩
    rw [Spread.waits_push, hsusp j, hwaits j]
  | move hempty hslots hsusp =>
    rw [hslots]
    refine ⟨hspread.move (by simp) hempty, fun j => ?_⟩
    rw [Spread.waits_move (by simp) hempty, hwaits j, hsusp j]
  | pop htaken hslots hsusp =>
    rw [hslots]
    refine ⟨hspread.pop htaken, fun j => ?_⟩
    rw [hspread.waits_pop htaken, hsusp j, hwaits j]

theorem unresolved_step {i : TxnIndex} (h : p.Unresolved i) (hstep : Step p events p') :
    p'.Unresolved i ∨
      (p.scheduler.dependencyLock i = none ∧ p'.scheduler.txnDependency i = []) := by
  rcases h with hst | ⟨w, inc, outside, hrole⟩
  · cases hstep with
    | @setExecuted w i' inc outside =>
      by_cases hi : i = i'
      · subst hi
        exact .inl (.inr ⟨w, inc, outside, by simp⟩)
      · exact .inl (.inl (by simpa [hi] using hst))
    | _ => exact .inl (.inl (by grind))
  · have hkeep {p' : Protocol worker} (hw : p'.role w = p.role w) : p'.Unresolved i :=
      .inr ⟨w, inc, outside, by rw [hw, hrole]⟩
    cases hstep with
    | @drain w' i' inc' outside' hrole' hlock =>
      by_cases hw : w = w'
      · subst hw
        rw [hrole] at hrole'
        cases hrole'
        exact .inr ⟨hlock, by simp⟩
      · exact .inl (hkeep (by simp [hw]))
    | _ => exact .inl (hkeep (by grind))

theorem dependencies_stored_step (h : Dependencies p) (hstep : Step p events p')
    (i j : TxnIndex) (hj : j ∈ p'.scheduler.txnDependency i) : i < j ∧ p'.Unresolved i := by
  have hkeep (hlt : i < j) (hunres : p.Unresolved i) : i < j ∧ p'.Unresolved i := by
    rcases unresolved_step hunres hstep with hunres | ⟨_, hempty⟩
    · exact ⟨hlt, hunres⟩
    · rw [hempty] at hj
      cases hj
  by_cases hold : j ∈ p.scheduler.txnDependency i
  · exact hkeep (h.stored i j hold).left (h.stored i j hold).right
  · cases hstep with
    | @suspend w i' dep inc hrole =>
      have hlocked := h.locked w i' inc dep hrole
      have hnew : i = dep ∧ j = i' := by grind
      rw [hnew.left, hnew.right] at hkeep ⊢
      exact hkeep hlocked.left hlocked.right
    | _ => grind

theorem dependencies_taken_step (h : Dependencies p) (hstep : Step p events p') (w : worker)
    (i : TxnIndex) (inc : Incarnation) (outside : Bool) (deps : List TxnIndex)
    (minDep : Option TxnIndex) (hw : p'.role w = .resuming i inc outside deps minDep) (j : TxnIndex)
    (hj : j ∈ deps) : i < j := by
  have hstored := fun hj => (h.stored i j hj).left
  have htaken := h.taken w i inc outside
  cases hstep with
  | @resume w' i' dep =>
    have hold := htaken (dep :: deps)
    grind
  | _ => grind

theorem dependencies_locked_step (hlocks : Locks p) (h : Dependencies p)
    (hstep : Step p events p') (w : worker) (i : TxnIndex) (inc : Incarnation)
    (dep : TxnIndex) (hw : p'.role w = .depLocked i inc dep) : dep < i ∧ p'.Unresolved dep := by
  by_cases hold : p.role w = .depLocked i inc dep
  · have hlocked := h.locked w i inc dep hold
    rcases unresolved_step hlocked.right hstep with hunres | ⟨hfree, _⟩
    · exact ⟨hlocked.left, hunres⟩
    · exact (hlocks.dependency.not_holds_of_free hfree w (by simp only [hold]; rfl)).elim
  · cases hstep with
    | lockDependency =>
      have hnew : dep < i ∧ (p.scheduler.executionStatus dep).isExecuted = false := by
        grind
      exact ⟨hnew.left, .inl hnew.right⟩
    | _ => grind

theorem dependencies_step (hlocks : Locks p) (h : Dependencies p) (hstep : Step p events p') :
    Dependencies p' where
  spread := (dependencies_spread_step h hstep).left
  suspended := (dependencies_spread_step h hstep).right
  stored := dependencies_stored_step h hstep
  taken := dependencies_taken_step h hstep
  locked := dependencies_locked_step hlocks h hstep

end Protocol

end OpenLibra.BlockExecutor
