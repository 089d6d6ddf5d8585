import OpenLibra.Rust.Outcome

/-!
# Loops with a bound on their iterations

A loop that has spent its bound and still has to go on has no result.
-/

namespace OpenLibra.Transition

open Rust

variable {state error : Type} (guard : state -> Bool) (body : state -> Outcome error state)

def whileLoop : Nat -> state -> Option (Outcome error state)
  | 0, s => if guard s then none else some (.ok s)
  | iterations + 1, s =>
    if guard s then
      match body s with
      | .ok s' => whileLoop iterations s'
      | .err e => some (.err e)
      | .panic => some .panic
    else some (.ok s)

def afterIterations : Nat -> state -> Option state
  | 0, s => some s
  | iterations + 1, s =>
    if guard s then
      match body s with
      | .ok s' => afterIterations iterations s'
      | _ => none
    else none

variable {guard body} {iterations : Nat} {s s' : state}

theorem afterIterations_succ_eq_some_iff :
    afterIterations guard body (iterations + 1) s = some s' <->
      exists middle, guard s = true ∧ body s = .ok middle ∧
        afterIterations guard body iterations middle = some s' := by
  rw [afterIterations]
  cases hguard : guard s with
  | false => simp
  | true =>
    cases hbody : body s with
    | ok | err | panic => simp

theorem whileLoop_eq_none_iff : whileLoop guard body iterations s = none <->
    exists s', afterIterations guard body iterations s = some s' ∧ guard s' = true := by
  induction iterations generalizing s with
  | zero => simp [whileLoop, afterIterations]
  | succ iterations ih =>
    cases hguard : guard s with
    | false => simp [whileLoop, afterIterations, hguard]
    | true =>
      cases hbody : body s with
      | ok =>
        simp only [whileLoop, afterIterations, hguard, hbody, if_true]
        exact ih
      | err | panic => simp [whileLoop, afterIterations, hguard, hbody]

theorem whileLoop_eq_ok_iff : whileLoop guard body iterations s = some (.ok s') <->
    exists k, k ≤ iterations ∧ afterIterations guard body k s = some s' ∧ guard s' = false := by
  induction iterations generalizing s with
  | zero =>
    constructor
    · intro h
      cases hguard : guard s with
      | true => simp [whileLoop, hguard] at h
      | false =>
        simp only [whileLoop, hguard, Bool.false_eq_true, if_false,
          Option.some.injEq, Outcome.ok.injEq] at h
        subst h
        exact ⟨0, le_refl 0, rfl, hguard⟩
    · intro h
      rcases h with ⟨k, hk, hafter, hguard⟩
      rw [Nat.le_zero.mp hk, afterIterations, Option.some.injEq] at hafter
      subst hafter
      simp [whileLoop, hguard]
  | succ iterations ih =>
    cases hguard : guard s with
    | false =>
      simp only [whileLoop, hguard, Bool.false_eq_true, if_false,
        Option.some.injEq, Outcome.ok.injEq]
      constructor
      · intro h
        subst h
        exact ⟨0, Nat.zero_le _, rfl, hguard⟩
      · intro h
        rcases h with ⟨k, _, hafter, _⟩
        cases k with
        | zero => exact Option.some.inj hafter
        | succ => simp [afterIterations, hguard] at hafter
    | true =>
      have hstep : (exists k, k ≤ iterations + 1 ∧
        afterIterations guard body k s = some s' ∧ guard s' = false) <->
        exists middle, body s = .ok middle ∧
          exists k, k ≤ iterations ∧ afterIterations guard body k middle = some s' ∧
            guard s' = false := by
        constructor
        · intro h
          rcases h with ⟨k, hk, hafter, hend⟩
          cases k with
          | zero =>
            cases hafter
            rw [hguard] at hend
            cases hend
          | succ k =>
            rcases afterIterations_succ_eq_some_iff.mp hafter with ⟨middle, _, hbody, hrest⟩
            exact ⟨middle, hbody, k, Nat.le_of_succ_le_succ hk, hrest, hend⟩
        · intro h
          rcases h with ⟨middle, hbody, k, hk, hrest, hend⟩
          refine ⟨k + 1, Nat.succ_le_succ hk, ?_, hend⟩
          exact afterIterations_succ_eq_some_iff.mpr ⟨middle, hguard, hbody, hrest⟩
      rw [hstep]
      cases hbody : body s with
      | ok => simp [whileLoop, hguard, hbody, ih]
      | err | panic => simp [whileLoop, hguard, hbody]

theorem whileLoop_of_measure (inv : state -> Prop) (measure : state -> Nat)
    (hstep : forall s, inv s -> guard s = true -> exists s', body s = .ok s' ∧ inv s' ∧ measure s' <
      measure s) (hinv : inv s) (hbound : measure s ≤ iterations) :
    exists s', whileLoop guard body iterations s = some (.ok s') ∧ inv s' ∧ guard s' = false := by
  induction iterations generalizing s with
  | zero =>
    cases hguard : guard s with
    | false => exact ⟨s, by simp [whileLoop, hguard], hinv, hguard⟩
    | true =>
      rcases hstep s hinv hguard with ⟨s', _, _, hless⟩
      omega
  | succ iterations ih =>
    cases hguard : guard s with
    | false => exact ⟨s, by simp [whileLoop, hguard], hinv, hguard⟩
    | true =>
      rcases hstep s hinv hguard with ⟨middle, hbody, hmid, hless⟩
      rcases ih hmid (by omega) with ⟨s', hloop, hend⟩
      refine ⟨s', ?_, hend⟩
      simp only [whileLoop, hguard, hbody, if_true]
      exact hloop

end OpenLibra.Transition
