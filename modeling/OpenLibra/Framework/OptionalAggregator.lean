import OpenLibra.Aggregator.Extension
import OpenLibra.Move.Semantics

/-!
# Aggregators and optional aggregators of the framework

A coin's supply is kept in an aggregator, which can be updated in parallel, or in an integer, and
can be switched from one to the other.
-/

namespace OpenLibra.Framework

open Rust Move

def eAggregatorOverflow : Nat := 1

def eAggregatorUnderflow : Nat := 2

def eAggregatorFactoryNotFound : Nat := 1

/-!
# Aggregators
-/

structure Aggregator where
  value : U128
  limit : U128
deriving DecidableEq

def ofNative {alpha : Type} : Aggregation.PartialVMResult alpha -> MoveResult alpha
  | .ok result => .ok result
  | .err e =>
    match e.subStatus with
    | some code => .err (.code code)
    | none => .err (.vmError e.message)
  | .panic => .panic

theorem ofNative_eq_ok_iff {alpha : Type} {result} {found : alpha} :
    ofNative result = .ok found <-> result = .ok found := by
  cases result with
  | ok | panic => simp [ofNative]
  | err e => cases hcode : e.subStatus <;> simp [ofNative, hcode]

namespace Aggregator

def add (self : Aggregator) (amount : U128) : MoveResult Aggregator := do
  let next <- ofNative ((Aggregation.Aggregator.known self.value self.limit).add amount)
  return { self with value := next.value }

def sub (self : Aggregator) (amount : U128) : MoveResult Aggregator := do
  let next <- ofNative ((Aggregation.Aggregator.known self.value self.limit).sub amount)
  return { self with value := next.value }

def read (self : Aggregator) : U128 := self.value

/-- `aggregator_factory::create_aggregator_internal`. -/
def createInternal (factory : Bool) (limit : U128) : MoveResult Aggregator := do
  ensure (factory = true) (notFound eAggregatorFactoryNotFound)
  return { value := 0, limit := limit }

theorem createInternal_eq_ok {factory : Bool} {limit : U128} {created}
    (h : createInternal factory limit = .ok created) :
    created = { value := 0, limit := limit } := by
  rcases of_ensure h with ⟨_, h⟩
  exact (Outcome.ok.inj h).symm

variable {self next : Aggregator}

/-- The native functions change the value and keep the limit. -/
theorem changed_eq_ok_iff {result : Aggregation.PartialVMResult U128} :
    (do
      let changed <- ofNative (result >>= fun value =>
        .ok (Aggregation.Aggregator.known value self.limit))
      return { self with value := changed.value } : MoveResult Aggregator) = .ok next <->
      next.limit = self.limit ∧ result = .ok next.value := by
  simp only [bind_eq_ok_iff, ofNative_eq_ok_iff, pure_eq, Outcome.ok.injEq]
  constructor
  · intro h
    rcases h with ⟨_, ⟨value, hval, rfl⟩, rfl⟩
    exact ⟨rfl, hval⟩
  · intro h
    rcases h with ⟨hlim, hval⟩
    refine ⟨_, ⟨next.value, hval, rfl⟩, ?_⟩
    cases next
    simp_all [Aggregation.Aggregator.known]

theorem add_eq_ok_iff {amount : U128} : self.add amount = .ok next <-> next.limit = self.limit ∧
      next.value.toNat = self.value.toNat + amount.toNat ∧ next.value.toNat ≤ self.limit.toNat := by
  rw [eq_comm (a := next.value.toNat), ← Aggregation.addition_eq_ok_iff]
  exact changed_eq_ok_iff

theorem sub_eq_ok_iff {amount : U128} : self.sub amount = .ok next <-> next.limit = self.limit ∧
      next.value.toNat + amount.toNat = self.value.toNat := by
  rw [← Aggregation.subtraction_eq_ok_iff]
  exact changed_eq_ok_iff

end Aggregator

/-!
# Integers
-/

structure Integer where
  value : U128
  limit : U128
deriving DecidableEq

namespace Integer

def new (limit : U128) : Integer :=
  { value := 0, limit := limit }

def add (self : Integer) (value : U128) : MoveResult Integer := do
  let room <- Move.sub self.limit self.value
  ensure (value.toNat ≤ room.toNat) (outOfRange eAggregatorOverflow)
  let sum <- Move.add self.value value
  return { self with value := sum }

def sub (self : Integer) (value : U128) : MoveResult Integer := do
  ensure (value.toNat ≤ self.value.toNat) (outOfRange eAggregatorUnderflow)
  let diff <- Move.sub self.value value
  return { self with value := diff }

def read (self : Integer) : U128 := self.value

theorem add_eq_ok {self next : Integer} {value : U128} (h : self.add value = .ok next) :
    next.value.toNat = self.value.toNat + value.toNat := by
  rcases of_bind h with ⟨_, _, h⟩
  rcases of_ensure h with ⟨_, h⟩
  rcases of_bind h with ⟨_, hsum, h⟩
  cases h
  exact Move.add_eq_ok_iff.mp hsum

theorem sub_eq_ok_iff {self next : Integer} {value : U128} : self.sub value = .ok next <->
    next.limit = self.limit ∧ next.value.toNat + value.toNat = self.value.toNat := by
  rw [sub, Outcome.ensure_bind_eq_ok_iff]
  simp only [bind_eq_ok_iff, Move.sub_eq_ok_iff, pure_eq, Outcome.ok.injEq]
  constructor
  · intro h
    rcases h with ⟨_, diff, hdiff, rfl⟩
    exact ⟨rfl, hdiff⟩
  · intro h
    rcases h with ⟨hlim, hval⟩
    refine ⟨le_trans (Nat.le_add_left _ _) (le_of_eq hval), next.value, hval, ?_⟩
    cases next
    simp_all

end Integer

/-!
# Optional aggregators
-/

/-- One of the two options of the source's structure is set, never both. -/
inductive OptionalAggregator where
  | aggregator (aggregator : Aggregator)
  | integer (integer : Integer)
deriving DecidableEq

namespace OptionalAggregator

def new (factory : Bool) (limit : U128) (parallelizable : Bool) : MoveResult OptionalAggregator :=
  if parallelizable then do
    let created <- Aggregator.createInternal factory limit
    return aggregator created
  else
    .ok (integer (Integer.new limit))

def isParallelizable : OptionalAggregator -> Bool
  | aggregator _ => true
  | integer _ => false

def add (self : OptionalAggregator) (value : U128) : MoveResult OptionalAggregator :=
  match self with
  | aggregator current => do
    let next <- current.add value
    return aggregator next
  | integer current => do
    let next <- current.add value
    return integer next

def sub (self : OptionalAggregator) (value : U128) : MoveResult OptionalAggregator :=
  match self with
  | aggregator current => do
    let next <- current.sub value
    return aggregator next
  | integer current => do
    let next <- current.sub value
    return integer next

def read : OptionalAggregator -> U128
  | aggregator current => current.read
  | integer current => current.read

def switchAndZeroOut (factory : Bool) : OptionalAggregator -> MoveResult OptionalAggregator
  | aggregator current => .ok (integer (Integer.new current.limit))
  | integer current => do
    let created <- Aggregator.createInternal factory current.limit
    return aggregator created

def switch (self : OptionalAggregator) (factory : Bool) :
    MoveResult OptionalAggregator := do
  let value := self.read
  let switched <- self.switchAndZeroOut factory
  switched.add value

variable {factory : Bool} {self next switched : OptionalAggregator} {value : U128}

theorem read_new {parallelizable : Bool} {limit : U128} {created}
    (h : new factory limit parallelizable = .ok created) : created.read.toNat = 0 := by
  unfold new at h
  cases parallelizable with
  | true =>
    rcases of_bind h with ⟨_, hfresh, h⟩
    cases h
    rw [read, Aggregator.createInternal_eq_ok hfresh]
    rfl
  | false =>
    cases h
    rfl

theorem read_add (h : self.add value = .ok next) :
    next.read.toNat = self.read.toNat + value.toNat := by
  cases self with
  | aggregator =>
    simp only [add, bind_eq_ok_iff, pure_eq, Outcome.ok.injEq] at h
    rcases h with ⟨sum, hsum, rfl⟩
    exact (Aggregator.add_eq_ok_iff.mp hsum).2.1
  | integer =>
    simp only [add, bind_eq_ok_iff, pure_eq, Outcome.ok.injEq] at h
    rcases h with ⟨_, hsum, rfl⟩
    exact Integer.add_eq_ok hsum

theorem read_sub (h : self.sub value = .ok next) :
    next.read.toNat + value.toNat = self.read.toNat := by
  cases self with
  | aggregator =>
    simp only [sub, bind_eq_ok_iff, pure_eq, Outcome.ok.injEq] at h
    rcases h with ⟨diff, hdiff, rfl⟩
    exact (Aggregator.sub_eq_ok_iff.mp hdiff).2
  | integer =>
    simp only [sub, bind_eq_ok_iff, pure_eq, Outcome.ok.injEq] at h
    rcases h with ⟨_, hdiff, rfl⟩
    exact (Integer.sub_eq_ok_iff.mp hdiff).2

theorem exists_sub_eq_ok (h : value.toNat ≤ self.read.toNat) :
    exists next, self.sub value = .ok next := by
  have hdiff : (self.read - value).toNat + value.toNat = self.read.toNat := by
    rw [BitVec.toNat_sub_of_le (BitVec.le_def.mpr h)]
    omega
  cases self with
  | aggregator current =>
    have hsub : current.sub value =
      .ok { current with value := current.value - value } :=
      Aggregator.sub_eq_ok_iff.mpr ⟨rfl, hdiff⟩
    exact ⟨_, by simp only [sub, hsub, ok_bind]; rfl⟩
  | integer current =>
    have hsub : current.sub value =
      .ok { current with value := current.value - value } :=
      Integer.sub_eq_ok_iff.mpr ⟨rfl, hdiff⟩
    exact ⟨_, by simp only [sub, hsub, ok_bind]; rfl⟩

theorem read_switchAndZeroOut (h : self.switchAndZeroOut factory = .ok switched) :
    switched.read.toNat = 0 := by
  cases self with
  | aggregator =>
    cases h
    rfl
  | integer =>
    rcases of_bind h with ⟨_, hfresh, h⟩
    cases h
    rw [read, Aggregator.createInternal_eq_ok hfresh]
    rfl

theorem read_switch (h : self.switch factory = .ok switched) :
    switched.read.toNat = self.read.toNat := by
  rcases of_bind h with ⟨_, hzeroed, hadd⟩
  rw [read_add hadd, read_switchAndZeroOut hzeroed, zero_add]

end OptionalAggregator

end OpenLibra.Framework
