import OpenLibra.Rust.Outcome

/-!
# Aborts and arithmetic of Move

Integers have a fixed width, and an operation whose result does not fit aborts.
A transaction that aborts leaves no trace.
-/

namespace OpenLibra.Move

open Rust

abbrev U8 := BitVec 8

abbrev U64 := BitVec 64

inductive Abort where
  | code (value : Nat)
  | arithmeticError
  | missingData
  | resourceAlreadyExists
  | vmError (message : Option String)
deriving DecidableEq, Repr

abbrev MoveResult (alpha : Type) := Outcome Abort alpha

/-!
# Abort codes
-/

/-- `std::error::canonical`: a category and a reason. -/
def canonical (category reason : Nat) : Abort := .code (category <<< 16 + reason)

variable (reason : Nat)

def invalidArgument : Abort := canonical 0x1 reason

def outOfRange : Abort := canonical 0x2 reason

def invalidState : Abort := canonical 0x3 reason

def unauthenticated : Abort := canonical 0x4 reason

def permissionDenied : Abort := canonical 0x5 reason

def notFound : Abort := canonical 0x6 reason

def alreadyExists : Abort := canonical 0x8 reason

/-- `borrow_global` and `borrow_global_mut`. -/
def borrowGlobal {alpha : Type} : Option alpha -> MoveResult alpha
  | none => .err .missingData
  | some resource => .ok resource

theorem borrowGlobal_eq_ok_iff {alpha : Type} {resource} {found : alpha} :
    borrowGlobal resource = .ok found <-> resource = some found := by
  cases resource <;> simp [borrowGlobal]

/-!
# Arithmetic
-/

variable {width : Nat}

def fit (width result : Nat) : MoveResult (BitVec width) :=
  if result < 2 ^ width then .ok (BitVec.ofNat width result)
  else .err .arithmeticError

variable (a b : BitVec width)

def add : MoveResult (BitVec width) := fit width (a.toNat + b.toNat)

def sub : MoveResult (BitVec width) :=
  if b.toNat ≤ a.toNat then .ok (BitVec.ofNat width (a.toNat - b.toNat))
  else .err .arithmeticError

def mul : MoveResult (BitVec width) := fit width (a.toNat * b.toNat)

def div : MoveResult (BitVec width) :=
  if b.toNat = 0 then .err .arithmeticError
  else .ok (BitVec.ofNat width (a.toNat / b.toNat))

/-- `as`. -/
def cast (target : Nat) (a : BitVec width) : MoveResult (BitVec target) := fit target a.toNat

variable {result : Nat} {c a b : BitVec width}

theorem fit_eq_ok_iff : fit width result = .ok c <-> c.toNat = result := by
  have hc := c.isLt
  unfold fit
  by_cases hlt : result < 2 ^ width
  · rw [if_pos hlt, Outcome.ok.injEq, ← BitVec.toNat_inj, BitVec.toNat_ofNat,
      Nat.mod_eq_of_lt hlt, eq_comm]
  · rw [if_neg hlt]
    constructor
    · intro h
      cases h
    · intro h
      omega

theorem fit_eq_ok (h : result < 2 ^ width) : fit width result = .ok (BitVec.ofNat width result) :=
  if_pos h

theorem add_eq_ok_iff : add a b = .ok c <-> c.toNat = a.toNat + b.toNat :=
  fit_eq_ok_iff

theorem mul_eq_ok_iff : mul a b = .ok c <-> c.toNat = a.toNat * b.toNat :=
  fit_eq_ok_iff

theorem cast_eq_ok_iff {target : Nat} {c} : cast target a = .ok c <-> c.toNat = a.toNat :=
  fit_eq_ok_iff

theorem sub_eq_ok_iff : sub a b = .ok c <-> c.toNat + b.toNat = a.toNat := by
  have ha := a.isLt
  unfold sub
  by_cases hle : b.toNat ≤ a.toNat
  · have hlt : a.toNat - b.toNat < 2 ^ width := lt_of_le_of_lt (Nat.sub_le _ _) ha
    rw [if_pos hle, Outcome.ok.injEq, ← BitVec.toNat_inj, BitVec.toNat_ofNat, Nat.mod_eq_of_lt hlt]
    omega
  · rw [if_neg hle]
    constructor
    · intro h
      cases h
    · intro h
      omega

theorem div_eq_ok_iff : div a b = .ok c <-> b.toNat ≠ 0 ∧ c.toNat = a.toNat / b.toNat := by
  have hlt : a.toNat / b.toNat < 2 ^ width := lt_of_le_of_lt (Nat.div_le_self _ _) a.isLt
  unfold div
  by_cases hzero : b.toNat = 0
  · simp [hzero]
  · rw [if_neg hzero, Outcome.ok.injEq, ← BitVec.toNat_inj,
      BitVec.toNat_ofNat, Nat.mod_eq_of_lt hlt, eq_comm]
    exact ⟨fun h => ⟨hzero, h⟩, fun h => h.right⟩

theorem exists_fit (h : result < 2 ^ width) :
    exists c, fit width result = .ok c ∧ c.toNat = result :=
  ⟨BitVec.ofNat width result, fit_eq_ok h, by rw [BitVec.toNat_ofNat, Nat.mod_eq_of_lt h]⟩

theorem exists_sub (h : b.toNat ≤ a.toNat) :
    exists c, sub a b = .ok c ∧ c.toNat = a.toNat - b.toNat := by
  have hlt : a.toNat - b.toNat < 2 ^ width := lt_of_le_of_lt (Nat.sub_le _ _) a.isLt
  refine ⟨BitVec.ofNat width (a.toNat - b.toNat), if_pos h, ?_⟩
  rw [BitVec.toNat_ofNat, Nat.mod_eq_of_lt hlt]

theorem exists_div {a b : BitVec width} (h : b.toNat ≠ 0) :
    exists c, div a b = .ok c ∧ c.toNat = a.toNat / b.toNat := by
  have hlt : a.toNat / b.toNat < 2 ^ width := lt_of_le_of_lt (Nat.div_le_self _ _) a.isLt
  refine ⟨BitVec.ofNat width (a.toNat / b.toNat), if_neg h, ?_⟩
  rw [BitVec.toNat_ofNat, Nat.mod_eq_of_lt hlt]

end OpenLibra.Move
