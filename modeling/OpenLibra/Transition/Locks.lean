import Mathlib.Tactic.Common

/-!
# Locks and their holders

A lock table says who holds each lock, a worker's state which lock it holds.  The two agree when
acquiring and releasing update both.
-/

namespace OpenLibra.Transition

open Function

variable {key worker : Type}

def LocksAgree (lock : key -> Option worker) (holds : worker -> Option key) : Prop :=
  forall k w, lock k = some w <-> holds w = some k

namespace LocksAgree

variable {lock : key -> Option worker} {holds : worker -> Option key}

theorem exclusive (h : LocksAgree lock holds) {k : key} {w w' : worker}
    (hw : holds w = some k) (hw' : holds w' = some k) : w = w' := by
  have hlock := (h k w).mpr hw
  rw [(h k w').mpr hw'] at hlock
  exact (Option.some.inj hlock).symm

theorem not_holds_of_free (h : LocksAgree lock holds) {k : key}
    (hfree : lock k = none) (w : worker) : holds w ≠ some k := by
  intro hw
  rw [(h k w).mpr hw] at hfree
  cases hfree

theorem acquire [DecidableEq key] [DecidableEq worker] (h : LocksAgree lock holds) {k : key}
    {w : worker} (hfree : lock k = none) (hw : holds w = none) : LocksAgree (update lock k (some w))
      (update holds w (some k)) := by
  intro k' w'
  by_cases hk : k' = k
  · subst hk
    by_cases hww : w' = w
    · subst hww
      simp
    · have hne : w ≠ w' := fun heq => hww heq.symm
      simp [hww, hne, h.not_holds_of_free hfree w']
  · by_cases hww : w' = w
    · subst hww
      have hne : k ≠ k' := fun heq => hk heq.symm
      simp [hk, hne, h k' w', hw]
    · simp [hk, hww, h k' w']

theorem release [DecidableEq key] [DecidableEq worker] (h : LocksAgree lock holds) {k : key}
    {w : worker} (hw : holds w = some k) :
    LocksAgree (update lock k none) (update holds w none) := by
  intro k' w'
  by_cases hk : k' = k
  · subst hk
    by_cases hww : w' = w
    · subst hww
      simp
    · have hholds : holds w' ≠ some k' := fun hw' => hww (h.exclusive hw' hw)
      simp [hww, hholds]
  · by_cases hww : w' = w
    · subst hww
      have hne : k ≠ k' := fun heq => hk heq.symm
      simp [hk, hne, h k' w', hw]
    · simp [hk, hww, h k' w']

end LocksAgree

end OpenLibra.Transition
