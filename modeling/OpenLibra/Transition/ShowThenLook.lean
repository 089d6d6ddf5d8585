import Mathlib.Tactic.Common

/-!
# First show, then look

Threads show items and then look for those of the other side: of two that meet in an item at
least one finds the other.
-/

namespace OpenLibra.Transition

inductive Side where
  | left
  | right
deriving DecidableEq, Repr

def Side.other : Side -> Side
  | left => right
  | right => left

structure Sightings (thread item : Type) where
  shown : Side -> item -> Prop
  missed : Side -> thread -> item -> Prop

namespace Sightings

variable {thread item : Type}

structure Exclusive (x : Sightings thread item) : Prop where
  shown_of_missed : forall side t p, x.missed side t p -> x.shown side p
  exclusive : forall side t t' p, x.missed side t p -> ¬ x.missed side.other t' p

variable {x x' : Sightings thread item}

theorem Exclusive.step (hx : x.Exclusive)
    (hshown : forall side p, x.shown side p -> x'.shown side p)
    (hmissed : forall side t p, x'.missed side t p ->
      x.missed side t p ∨ x.shown side p ∧ ¬ x.shown side.other p) : x'.Exclusive := by
  have hshows : forall side t p, x'.missed side t p -> x.shown side p := by
    intro side t p h
    rcases hmissed side t p h with hold | hnew
    · exact hx.shown_of_missed side t p hold
    · exact hnew.1
  constructor
  · intro side t p h
    exact hshown side p (hshows side t p h)
  · intro side t t' p h h'
    rcases hmissed side t p h with hold | hnew
    · rcases hmissed side.other t' p h' with hold' | hnew'
      · exact hx.exclusive side t t' p hold hold'
      · have hback : side.other.other = side := by cases side <;> rfl
        rw [hback] at hnew'
        exact hnew'.2 (hx.shown_of_missed side t p hold)
    · exact hnew.2 (hshows side.other t' p h')

end Sightings

end OpenLibra.Transition
