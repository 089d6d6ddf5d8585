import Mathlib.Data.List.Induction

/-!
# Labelled transition systems

A step may emit labels.  Executions keep those emitted so far, so that a property of the whole
history is an invariant like any other.
-/

namespace OpenLibra.Transition

open List

structure TransitionSystem (state label : Type) where
  initial : state -> Prop
  step : state -> List label -> state -> Prop

namespace TransitionSystem

variable {state label state' label' : Type}

/-- Finite runs with the labels emitted on the way. -/
inductive Run (sys : TransitionSystem state label) : state -> List label -> state -> Prop where
  | refl (s : state) : Run sys s [] s
  | snoc {s middle s' : state} {labels more : List label}
      (run : Run sys s labels middle) (step : sys.step middle more s') :
      Run sys s (labels ++ more) s'

def Execution (sys : TransitionSystem state label) (labels : List label) (s : state) : Prop :=
  exists start, sys.initial start ∧ Run sys start labels s

def Reachable (sys : TransitionSystem state label) (s : state) : Prop :=
  exists labels, sys.Execution labels s

variable {sys : TransitionSystem state label} {s : state} {labels more : List label}

theorem Run.trans {middle s' : state} (hfirst : Run sys s labels middle)
    (hsnd : Run sys middle more s') : Run sys s (labels ++ more) s' := by
  induction hsnd with
  | refl => simpa using hfirst
  | snoc run step ih =>
    rw [← append_assoc]
    exact .snoc ih step

theorem Execution.run {s' : state} (hs : sys.Execution labels s) (hrun : Run sys s more s') :
    sys.Execution (labels ++ more) s' := by
  rcases hs with ⟨start, hstart, hprefix⟩
  exact ⟨start, hstart, hprefix.trans hrun⟩

theorem Execution.step {sys : TransitionSystem state label} {labels more : List label}
    {s s' : state} (hs : sys.Execution labels s) (hstep : sys.step s more s') :
    sys.Execution (labels ++ more) s' := by
  rcases hs with ⟨start, hstart, hprefix⟩
  exact ⟨start, hstart, .snoc hprefix hstep⟩

theorem Execution.reachable (hs : sys.Execution labels s) : sys.Reachable s := ⟨labels, hs⟩

theorem Execution.invariant {sys : TransitionSystem state label} {inv : List label -> state -> Prop}
    (hinit : forall s, sys.initial s -> inv [] s)
    (hstep : forall labels s more s', sys.Execution labels s -> inv labels s ->
      sys.step s more s' ->
      inv (labels ++ more) s') {labels : List label} {s : state} (hs : sys.Execution labels s) :
    inv labels s := by
  rcases hs with ⟨start, hstart, hrun⟩
  induction hrun with
  | refl => exact hinit _ hstart
  | snoc run step ih => exact hstep _ _ _ _ ⟨start, hstart, run⟩ ih step

theorem Reachable.invariant {sys : TransitionSystem state label} {inv : state -> Prop}
    (hinit : forall s, sys.initial s -> inv s)
    (hstep : forall s more s', sys.Reachable s -> inv s -> sys.step s more s' -> inv s') {s : state}
    (hs : sys.Reachable s) : inv s := by
  rcases hs with ⟨labels, hs⟩
  exact @Execution.invariant _ _ _ (fun _ s => inv s) hinit
    (fun _ _ _ _ hs hinv hnext => hstep _ _ _ hs.reachable hinv hnext)
    labels s hs

structure Simulation (sys : TransitionSystem state label)
    (sys' : TransitionSystem state' label') where
  onState : state -> state'
  onLabel : label -> Option label'
  initial : forall s, sys.initial s -> sys'.initial (onState s)
  step : forall s labels s', sys.Reachable s -> sys'.Reachable (onState s) ->
    sys.step s labels s' ->
    sys'.step (onState s) (labels.filterMap onLabel) (onState s') ∨
      (onState s' = onState s ∧ labels.filterMap onLabel = [])

namespace Simulation

variable {sys : TransitionSystem state label} {sys' : TransitionSystem state' label'}
  {labels : List label} {s : state} (sim : Simulation sys sys')

theorem execution (hs : sys.Execution labels s) :
    sys'.Execution (labels.filterMap sim.onLabel) (sim.onState s) := by
  refine @Execution.invariant _ _ sys (fun labels s => sys'.Execution (labels.filterMap sim.onLabel)
      (sim.onState s)) ?_ ?_ labels s hs
  · intro start hstart
    exact ⟨sim.onState start, sim.initial start hstart, .refl _⟩
  · intro _ s more s' hs hs' hstep
    rw [filterMap_append]
    rcases sim.step s more s' hs.reachable hs'.reachable hstep with
      hstep | ⟨hsame, hlabels⟩
    · exact hs'.step hstep
    · rw [hsame, hlabels, append_nil]
      exact hs'

theorem reachable (hs : sys.Reachable s) : sys'.Reachable (sim.onState s) := by
  rcases hs with ⟨_, hs⟩
  exact (sim.execution hs).reachable

theorem run {s' : state} (hs : sys.Reachable s) (hrun : Run sys s labels s') :
    Run sys' (sim.onState s) (labels.filterMap sim.onLabel) (sim.onState s') := by
  rcases hs with ⟨_, hs⟩
  induction hrun with
  | refl => exact .refl _
  | snoc run step ih =>
    have hmid := (hs.run run).reachable
    rw [filterMap_append]
    rcases sim.step _ _ _ hmid (sim.reachable hmid) step with
      hstep | ⟨hsame, hlabels⟩
    · exact .snoc ih hstep
    · rw [hsame, hlabels, append_nil]
      exact ih

end Simulation

end TransitionSystem

/-!
# Histories of deterministic systems
-/

section

variable {state input : Type} {step : state -> input -> state} {inv : state -> Prop}
  {condition : state -> input -> Prop} {start : state}

theorem along_of_step (hstep : forall s x, inv s -> condition s x -> inv (step s x))
    (hstart : inv start) {inputs : List input}
    (hcond : forall before x after, inputs = before ++ x :: after ->
      condition (before.foldl step start) x)
    (before after : List input) (hsplit : inputs = before ++ after) :
    inv (before.foldl step start) := by
  -- The induction goes along the states of the history.
  induction before using List.reverseRecOn generalizing after with
  | nil => exact hstart
  | append_singleton before x ih =>
    rw [List.append_assoc] at hsplit
    rw [List.foldl_append]
    exact hstep _ x (ih (x :: after) hsplit) (hcond before x after hsplit)

/-- A condition on the places of a concrete history, place by place. -/
theorem forall_split_cons {condition : List input -> input -> Prop} {x : input}
    {inputs : List input} (hfirst : condition [] x)
    (hrest : forall before y after, inputs = before ++ y :: after -> condition (x :: before) y) :
    forall before y after, x :: inputs = before ++ y :: after -> condition before y := by
  rintro (_ | ⟨z, before⟩) y after hsplit
  · cases hsplit
    exact hfirst
  · cases hsplit
    exact hrest before y after rfl

theorem forall_split_nil {condition : List input -> input -> Prop} :
    forall before y after, [] = before ++ y :: after -> condition before y := by
  intro before y after hsplit
  cases before <;> cases hsplit

theorem along_iff_of_step_iff (hstep : forall s x, inv s -> (inv (step s x) <-> condition s x))
    (hstart : inv start) (inputs : List input) :
    (forall before after, inputs = before ++ after -> inv (before.foldl step start)) <->
      forall before x after, inputs = before ++ x :: after ->
        condition (before.foldl step start) x := by
  constructor
  · intro hinv before x after hsplit
    have hbef := hinv before (x :: after) hsplit
    have hafter := hinv (before ++ [x]) after (by rw [hsplit, List.append_assoc]; rfl)
    rw [List.foldl_append] at hafter
    exact (hstep _ x hbef).mp hafter
  · exact along_of_step (fun s x hs => (hstep s x hs).mpr) hstart

end

end OpenLibra.Transition
