import Mathlib.Algebra.Group.Nat.Defs
import Mathlib.Data.Nat.Basic
import Mathlib.Tactic.Common

/-!
# Outcomes of fallible code

A call returns a value, returns an error through `Result`, or panics: an error is handled by the
caller, a panic stops the thread.
-/

namespace OpenLibra.Rust

open List

/-!
# The outcome monad
-/

/-- Result of a call that may fail with an error or panic. -/
inductive Outcome (error : Type u) (value : Type v) where
  | ok (result : value)
  | err (error : error)
  | panic
deriving DecidableEq, Repr

namespace Outcome

def bind (outcome : Outcome error alpha) (next : alpha -> Outcome error beta) :
    Outcome error beta :=
  match outcome with
  | ok result => next result
  | err e => err e
  | panic => panic

instance : Monad (Outcome error) where
  pure := ok
  bind := bind

/-- `Option::expect` and `Option::unwrap`: a missing value is a panic. -/
def expect : Option alpha -> Outcome error alpha
  | some result => ok result
  | none => panic

/-- `Result::expect` and `Result::unwrap`: an error is a panic. -/
def unwrap : Outcome error alpha -> Outcome error alpha
  | ok result => ok result
  | err _ => panic
  | panic => panic

/-- `Result::map_err`, and `?` into another error type. -/
def mapErr (convert : error -> error') : Outcome error alpha -> Outcome error' alpha
  | ok result => ok result
  | err e => err (convert e)
  | panic => panic

variable {outcome : Outcome error alpha}

theorem mapErr_eq_ok_iff {convert : error -> error'} {result : alpha} :
    outcome.mapErr convert = ok result <-> outcome = ok result := by
  cases outcome <;> simp [mapErr]

/-- `ensure!`: a failed condition is an error. -/
def ensure (condition : Prop) [Decidable condition] (e : error) : Outcome error Unit :=
  if condition then ok () else err e

@[simp] theorem pure_eq (result : alpha) : (pure result : Outcome error alpha) = ok result := rfl

@[simp] theorem ok_bind (result : alpha) (next : alpha -> Outcome error beta) :
    ((ok result : Outcome error alpha) >>= next) = next result := rfl

@[simp] theorem err_bind (e : error) (next : alpha -> Outcome error beta) :
    ((err e : Outcome error alpha) >>= next) = err e := rfl

@[simp] theorem panic_bind (next : alpha -> Outcome error beta) :
    ((panic : Outcome error alpha) >>= next) = panic := rfl

@[simp] theorem expect_some (result : alpha) :
    (expect (some result) : Outcome error alpha) = ok result := rfl

@[simp] theorem expect_none : (expect none : Outcome error alpha) = panic := rfl

@[simp] theorem unwrap_ok (result : alpha) :
    (ok result : Outcome error alpha).unwrap = ok result := rfl

variable {condition : Prop} {e : error}

theorem ensure_eq_ok_iff [Decidable condition] : ensure condition e = ok () <-> condition := by
  unfold ensure
  split <;> simp_all

theorem ensure_ne_panic [Decidable condition] : ensure condition e ≠ panic := by
  unfold ensure
  split <;> simp

variable {result : beta}

theorem bind_eq_ok_iff {next} : (outcome >>= next) = ok result <->
    exists middle, outcome = ok middle ∧ next middle = ok result := by
  cases outcome with
  | ok | err | panic => simp

variable {next : Unit -> Outcome error beta}

theorem check_bind_eq_ok_iff {check} :
    (check >>= next) = ok result <-> check = ok () ∧ next () = ok result := by
  cases check with
  | ok | err | panic => simp

theorem ensure_bind_eq_ok_iff [Decidable condition] : (ensure condition e >>= next) = ok result <->
    condition ∧ next () = ok result := by
  rw [check_bind_eq_ok_iff, ensure_eq_ok_iff]

end Outcome

/-!
Peeling a computation that has returned.
-/

variable {result : beta}

theorem of_bind {outcome : Outcome error alpha} {next : alpha -> Outcome error beta}
    (h : (outcome >>= next) = .ok result) :
    exists middle, outcome = .ok middle ∧ next middle = .ok result :=
  Outcome.bind_eq_ok_iff.mp h

variable {next : Unit -> Outcome error beta}

theorem of_check {check} (h : (check >>= next) = .ok result) :
    check = .ok () ∧ next () = .ok result :=
  Outcome.check_bind_eq_ok_iff.mp h

theorem of_ensure {condition : Prop} [Decidable condition] {e : error}
    (h : (Outcome.ensure condition e >>= next) = .ok result) : condition ∧ next () = .ok result :=
  Outcome.ensure_bind_eq_ok_iff.mp h

namespace Outcome

variable {outcome : Outcome error alpha}

theorem bind_eq_panic_iff {next : alpha -> Outcome error beta} :
    (outcome >>= next) = panic <-> outcome = panic ∨
        exists middle, outcome = ok middle ∧ next middle = panic := by
  cases outcome with
  | ok | err | panic => simp

variable {result : beta}

theorem except_bind_eq_ok_iff {outcome : Except error alpha} {next : alpha -> Except error beta} :
    (outcome >>= next) = .ok result <-> exists middle, outcome = .ok middle ∧
        next middle = .ok result := by
  cases outcome with
  | error | ok => simp [Bind.bind, Except.bind]

theorem exists_err_of_ne (hpanic : outcome ≠ panic) (hok : forall result, outcome ≠ ok result) :
    exists e, outcome = err e := by
  cases outcome with
  | ok result => exact absurd rfl (hok result)
  | err e => exact ⟨e, rfl⟩
  | panic => exact absurd rfl hpanic

/-!
# Checks over lists
-/

/-- `Iterator::try_for_each`. -/
def tryForEach (check : alpha -> Outcome error Unit) : List alpha -> Outcome error Unit
  | [] => ok ()
  | x :: xs => do
    check x
    tryForEach check xs

/-- `itertools::zip_eq`, each pair checked and the results collected: lists of
different lengths are a panic once the shorter one is exhausted. -/
def checkZipEq (check : alpha -> beta -> Outcome error Unit) :
    List alpha -> List beta -> Outcome error Unit
  | [], [] => ok ()
  | x :: xs, y :: ys => do
    check x y
    checkZipEq check xs ys
  | [], _ :: _ => panic
  | _ :: _, [] => panic

/-- `Iterator::map` with a fallible function, collected into a `Result`. -/
def tryMap (convert : alpha -> Outcome error beta) : List alpha -> Outcome error (List beta)
  | [] => ok []
  | x :: xs => do
    let y <- convert x
    let ys <- tryMap convert xs
    return y :: ys

/-- `Iterator::try_fold`. -/
def tryFold (step : beta -> alpha -> Outcome error beta) : beta -> List alpha -> Outcome error beta
  | b, [] => ok b
  | b, x :: xs => do
    let b <- step b x
    tryFold step b xs

variable {convert : alpha -> Outcome error beta} {xs : List alpha} {ys : List beta}

theorem length_of_tryMap_eq_ok (h : tryMap convert xs = ok ys) : ys.length = xs.length := by
  induction xs generalizing ys with
  | nil =>
    cases h
    rfl
  | cons x xs ih =>
    rcases bind_eq_ok_iff.mp h with ⟨_, _, h⟩
    rcases bind_eq_ok_iff.mp h with ⟨_, hrest, h⟩
    cases h
    rw [length_cons, length_cons, ih hrest]

theorem tryMap_eq_ok {f} (h : forall x, x ∈ xs -> convert x = ok (f x)) :
    tryMap convert xs = ok (xs.map f) := by
  induction xs with
  | nil => rfl
  | cons x xs ih =>
    rw [tryMap, h x mem_cons_self, ok_bind, ih fun y hy => h y (mem_cons_of_mem x hy), ok_bind]
    rfl

theorem exists_of_mem_tryMap {ys : List beta} {y : beta} (h : tryMap convert xs = ok ys)
    (hy : y ∈ ys) : exists x, x ∈ xs ∧ convert x = ok y := by
  induction xs generalizing ys with
  | nil =>
    cases h
    cases hy
  | cons x xs ih =>
    rcases of_bind h with ⟨first, hfirst, h⟩
    rcases of_bind h with ⟨rest, hrest, h⟩
    cases h
    rcases mem_cons.mp hy with rfl | hy
    · exact ⟨x, mem_cons_self, hfirst⟩
    · rcases ih hrest hy with ⟨z, hz, hconvert⟩
      exact ⟨z, mem_cons_of_mem x hz, hconvert⟩

theorem tryForEach_eq_ok {check : alpha -> Outcome error Unit} (h : tryForEach check xs = ok ())
    {x : alpha} (hx : x ∈ xs) : check x = ok () := by
  induction xs with
  | nil => cases hx
  | cons y ys ih =>
    rcases bind_eq_ok_iff.mp h with ⟨_, hcheck, hrest⟩
    rcases mem_cons.mp hx with rfl | hmem
    · exact hcheck
    · exact ih hrest hmem

theorem tryFold_invariant {step : beta -> alpha -> Outcome error beta}
    (inv : List alpha -> beta -> Prop)
    (hstep : forall seen b x b', inv seen b -> step b x = ok b' -> inv (seen ++ [x]) b')
    {start : beta} (hstart : inv [] start) (h : tryFold step start xs = ok result) :
    inv xs result := by
  have hrest : forall (ys seen : List alpha) (b : beta), inv seen b ->
    tryFold step b ys = ok result -> inv (seen ++ ys) result := by
    intro ys
    induction ys with
    | nil =>
      intro seen b hb h
      cases h
      rw [append_nil]
      exact hb
    | cons y ys ih =>
      intro seen b hb h
      rcases bind_eq_ok_iff.mp h with ⟨b', hb', h⟩
      have hdone := ih (seen ++ [y]) b' (hstep seen b y b' hb hb') h
      rw [append_assoc] at hdone
      exact hdone
  exact hrest xs [] start hstart h

theorem tryFold_fixed {step : beta -> alpha -> Outcome error beta} {b : beta}
    (h : forall x, x ∈ xs -> step b x = ok b) : tryFold step b xs = ok b := by
  induction xs with
  | nil => rfl
  | cons x xs ih =>
    rw [forall_mem_cons] at h
    rw [tryFold, h.left]
    exact ih h.right

theorem checkZipEq_eq_ok {check : alpha -> beta -> Outcome error Unit}
    (h : checkZipEq check xs ys = ok ()) {i : Nat} {y : beta} (hy : ys[i]? = some y) :
    exists x, xs[i]? = some x ∧ check x y = ok () := by
  induction xs generalizing ys i with
  | nil =>
    cases ys with
    | nil => cases hy
    | cons => cases h
  | cons x xs ih =>
    cases ys with
    | nil => cases h
    | cons =>
      rcases bind_eq_ok_iff.mp h with ⟨_, hcheck, hrest⟩
      cases i with
      | zero =>
        cases hy
        exact ⟨x, rfl, hcheck⟩
      | succ => exact ih hrest hy

end Outcome

export Outcome (ensure ok_bind pure_eq tryFold ensure_eq_ok_iff bind_eq_panic_iff bind_eq_ok_iff
  expect tryForEach check_bind_eq_ok_iff tryForEach_eq_ok ensure_ne_panic tryFold_invariant
  expect_some tryMap mapErr_eq_ok_iff exists_err_of_ne checkZipEq err_bind checkZipEq_eq_ok
  except_bind_eq_ok_iff tryFold_fixed)

/-!
# Checked machine arithmetic
-/

/-- One more than the largest `u64`.  Where only sums and differences occur, a
`u64` is a natural number below this bound. -/
def u64Bound : Nat := 2 ^ 64

def u64Add (a b : Nat) : Outcome error Nat := if a + b < u64Bound then .ok (a + b) else .panic

def u64Sub (a b : Nat) : Outcome error Nat := if b ≤ a then .ok (a - b) else .panic

variable {a b : Nat}

theorem u64Add_eq_ok (h : a + b < u64Bound) : (u64Add a b : Outcome error Nat) = .ok (a + b) :=
  if_pos h

theorem u64Sub_eq_ok (h : b ≤ a) : (u64Sub a b : Outcome error Nat) = .ok (a - b) :=
  if_pos h

/-- One more than the largest `u128`. -/
def u128Bound : Nat := 2 ^ 128

def u128Add (a b : Nat) : Outcome error Nat := if a + b < u128Bound then .ok (a + b) else .panic

def u128Mul (a b : Nat) : Outcome error Nat := if a * b < u128Bound then .ok (a * b) else .panic

variable {c : Nat}

theorem u128Add_eq_ok_iff : (u128Add a b : Outcome error Nat) = .ok c <->
    a + b < u128Bound ∧ a + b = c := by
  unfold u128Add
  split
  · next h => simp [h]
  · next h => simp [h]

theorem u128Mul_eq_ok_iff : (u128Mul a b : Outcome error Nat) = .ok c <->
    a * b < u128Bound ∧ a * b = c := by
  unfold u128Mul
  split
  · next h => simp [h]
  · next h => simp [h]

abbrev U128 := BitVec 128

def checkedAdd (a b : BitVec width) : Outcome error (BitVec width) :=
  if a.toNat + b.toNat < 2 ^ width then .ok (a + b) else .panic

def checkedSub (a b : BitVec width) : Outcome error (BitVec width) :=
  if b.toNat ≤ a.toNat then .ok (a - b) else .panic

theorem checkedAdd_eq_ok {a b c} (h : a.toNat + b.toNat = c.toNat) :
    (checkedAdd a b : Outcome error (BitVec width)) = .ok c := by
  have hlt : a.toNat + b.toNat < 2 ^ width := by
    rw [h]
    exact c.isLt
  have hsum : a + b = c := by
    apply BitVec.eq_of_toNat_eq
    rw [BitVec.toNat_add, Nat.mod_eq_of_lt hlt, h]
  simp [checkedAdd, hlt, hsum]

theorem checkedSub_eq_ok {a b c} (h : c.toNat + b.toNat = a.toNat) :
    (checkedSub a b : Outcome error (BitVec width)) = .ok c := by
  have hle : b.toNat ≤ a.toNat := by omega
  have hdiff : a - b = c := by
    apply BitVec.eq_of_toNat_eq
    rw [BitVec.toNat_sub_of_le (BitVec.le_def.mpr hle)]
    omega
  simp [checkedSub, hle, hdiff]

/-- `u128::max` and its siblings. -/
def umax (a b : BitVec width) : BitVec width := if a.toNat ≤ b.toNat then b else a

@[simp] theorem toNat_umax (a b : BitVec width) : (umax a b).toNat = max a.toNat b.toNat := by
  unfold umax
  by_cases h : a.toNat ≤ b.toNat
  · simp [h]
  · rw [if_neg h]
    omega

end OpenLibra.Rust
