import OpenLibra.Aggregator.DeltaOp

/-!
# The aggregator extension of the VM

An aggregator knows its value or accumulates a delta, of which it records the largest excursions
until the value is read.
-/

namespace OpenLibra.Aggregation

open Rust

abbrev Bytes := List UInt8

/-- The byte encoding of aggregator values.  The code uses the canonical
serialization of `u128`; only that decoding inverts encoding is relied on. -/
structure ValueCodec where
  serialize : U128 -> Bytes
  deserialize : Bytes -> Option U128
  deserialize_serialize : forall value, deserialize (serialize value) = some value

inductive AggregatorState where
  | data
  | positiveDelta
  | negativeDelta
deriving DecidableEq, Repr

structure History where
  maxPositive : U128
  minNegative : U128
deriving DecidableEq, Repr

namespace History

def new : History where
  maxPositive := 0
  minNegative := 0

def recordPositive (self : History) (value : U128) : History :=
  { self with maxPositive := umax self.maxPositive value }

def recordNegative (self : History) (value : U128) : History :=
  { self with minNegative := umax self.minNegative value }

end History

structure Aggregator where
  value : U128
  state : AggregatorState
  limit : U128
  history : Option History
deriving DecidableEq, Repr

/-- Storage as the aggregator sees it: the lookup itself may fail, and the
entry may be missing. -/
abbrev TableResolver (key : Type) := key -> Except String (Option Bytes)

def extensionError (message : String) : PartialVMError where
  majorStatus := .vmExtensionError
  subStatus := none
  message := some message

namespace Aggregator

variable (self : Aggregator)

def record : PartialVMResult Aggregator :=
  match self.history with
  | none => .ok self
  | some history =>
    match self.state with
    | .positiveDelta =>
      .ok
        { self with history := some (history.recordPositive self.value) }
    | .negativeDelta =>
      .ok
        { self with history := some (history.recordNegative self.value) }
    | .data => .panic

def add (value : U128) : PartialVMResult Aggregator :=
  match self.state with
  | .data => do
    let sum <- addition self.value value self.limit
    return { self with value := sum }
  | .positiveDelta => do
    let sum <- addition self.value value self.limit
    record { self with value := sum }
  | .negativeDelta => do
    if self.value.toNat ≤ value.toNat then
      let diff <- subtraction value self.value
      record
        { self with value := diff, state := .positiveDelta }
    else
      let diff <- subtraction self.value value
      record { self with value := diff }

def sub (value : U128) : PartialVMResult Aggregator :=
  match self.state with
  | .data => do
    let diff <- subtraction self.value value
    return { self with value := diff }
  | .positiveDelta => do
    if value.toNat ≤ self.value.toNat then
      let diff <- subtraction self.value value
      record { self with value := diff }
    else
      let _ <- subtraction self.limit value
      let diff <- subtraction value self.value
      record
        { self with value := diff, state := .negativeDelta }
  | .negativeDelta => do
    let sum <- addition self.value value self.limit
    record { self with value := sum }

def readAndMaterialize (self : Aggregator) (codec : ValueCodec)
    (resolver : TableResolver key) (id : key) :
    PartialVMResult (U128 × Aggregator) :=
  let missing := extensionError "could not find the value of the aggregator"
  match self.state with
  | .data => .ok (self.value, self)
  | state =>
    match resolver id with
    | .error _ => .err missing
    | .ok none => .err missing
    | .ok (some bytes) => do
      let valueFromStorage <- expect (codec.deserialize bytes)
      let history <- expect self.history
      let _ <- addition valueFromStorage history.maxPositive self.limit
      let _ <- subtraction valueFromStorage history.minNegative
      let value <-
        match state with
        | .positiveDelta => addition valueFromStorage self.value self.limit
        | .negativeDelta => subtraction valueFromStorage self.value
        | .data => .panic
      return (value,
        { self with
          value := value
          state := .data
          history := none })

end Aggregator

/-!
# Aggregators of one transaction
-/

structure AggregatorData (key : Type) where
  aggregators : key -> Option Aggregator

namespace AggregatorData

def default : AggregatorData key where
  aggregators := fun _ => none

def getAggregator [DecidableEq key] (self : AggregatorData key) (id : key) (limit : U128) :
    AggregatorData key × Aggregator :=
  match self.aggregators id with
  | some aggregator => (self, aggregator)
  | none =>
    let aggregator : Aggregator :=
      { value := 0
        state := .positiveDelta
        limit := limit
        history := some History.new }
    ({ aggregators := Function.update self.aggregators id (some aggregator) }, aggregator)

end AggregatorData

inductive AggregatorChange where
  | write (value : U128)
  | merge (delta : DeltaOp)
  | delete
deriving DecidableEq, Repr

/-- The change that `into_change_set` produces for one aggregator. -/
def Aggregator.intoChange (self : Aggregator) : PartialVMResult AggregatorChange :=
  match self.state with
  | .data => .ok (.write self.value)
  | .positiveDelta => do
    let history <- expect self.history
    return .merge
      { maxPositive := history.maxPositive
        minNegative := history.minNegative
        limit := self.limit
        update := .plus self.value }
  | .negativeDelta => do
    let history <- expect self.history
    return .merge
      { maxPositive := history.maxPositive
        minNegative := history.minNegative
        limit := self.limit
        update := .minus self.value }

/-!
# Sequences of operations
-/

inductive AggregatorOp where
  | add (value : U128)
  | sub (value : U128)
deriving DecidableEq, Repr

namespace AggregatorOp

def apply (self : Aggregator) : AggregatorOp -> PartialVMResult Aggregator
  | add value => self.add value
  | sub value => self.sub value

def toInt : AggregatorOp -> Int
  | add value => value.toNat
  | sub value => -value.toNat

end AggregatorOp

def Aggregator.run (self : Aggregator) : List AggregatorOp -> PartialVMResult Aggregator
  | [] => .ok self
  | op :: ops => do
    let next <- AggregatorOp.apply self op
    Aggregator.run next ops

def Aggregator.known (value limit : U128) : Aggregator where
  value := value
  state := .data
  limit := limit
  history := none

def Aggregator.ofDelta (delta : DeltaOp) : Aggregator :=
  match delta.update with
  | .plus value =>
    { value := value
      state := .positiveDelta
      limit := delta.limit
      history := some ⟨delta.maxPositive, delta.minNegative⟩ }
  | .minus value =>
    { value := value
      state := .negativeDelta
      limit := delta.limit
      history := some ⟨delta.maxPositive, delta.minNegative⟩ }

/-!
# One operation
-/

namespace Aggregator

variable {value limit base : U128} {op : AggregatorOp} {next final : Aggregator} {delta : DeltaOp}
  {codec : ValueCodec}

theorem apply_known_ok_iff (hval : value.toNat ≤ limit.toNat) :
    AggregatorOp.apply (known value limit) op = .ok next <->
      exists r, next = known r limit ∧ (r.toNat : Int) = value.toNat + op.toInt ∧
        r.toNat ≤ limit.toNat := by
  cases op with
  | add amount =>
    change (addition value amount limit >>= fun sum =>
      .ok (known sum limit)) = .ok next <-> _
    simp only [bind_eq_ok_iff, addition_eq_ok_iff, Outcome.ok.injEq, AggregatorOp.toInt]
    constructor
    · rintro ⟨r, hr, rfl⟩
      exact ⟨r, rfl, by omega, by omega⟩
    · rintro ⟨r, rfl, hr, hle⟩
      exact ⟨r, by omega, rfl⟩
  | sub amount =>
    change (subtraction value amount >>= fun diff =>
      .ok (known diff limit)) = .ok next <-> _
    simp only [bind_eq_ok_iff, subtraction_eq_ok_iff, Outcome.ok.injEq, AggregatorOp.toInt]
    constructor
    · rintro ⟨r, hr, rfl⟩
      exact ⟨r, rfl, by omega, by omega⟩
    · rintro ⟨r, rfl, hr, hle⟩
      exact ⟨r, by omega, rfl⟩

theorem apply_known_ne_panic (value limit : U128) (op : AggregatorOp) :
    AggregatorOp.apply (known value limit) op ≠ .panic := by
  intro h
  cases op with
  | add =>
    rcases bind_eq_panic_iff.mp h with h | ⟨_, _, h⟩
    · exact addition_ne_panic _ _ _ h
    · cases h
  | sub =>
    rcases bind_eq_panic_iff.mp h with h | ⟨_, _, h⟩
    · exact subtraction_ne_panic _ _ h
    · cases h

/-- `next` has moved from `delta` by `amount`, and its recorded range covers
the position it reached. -/
structure DeltaMoves (delta : DeltaOp) (amount : Int) (next : DeltaOp) : Prop where
  limit : next.limit = delta.limit
  update : next.update.toInt = delta.update.toInt + amount
  maxPositive : (next.maxPositive.toNat : Int) =
    max (delta.maxPositive.toNat : Int) next.update.toInt
  minNegative : (next.minNegative.toNat : Int) =
    max (delta.minNegative.toNat : Int) (-next.update.toInt)

theorem deltaMoves_plus {delta : DeltaOp} {amount : Int} {value : U128}
    (h : (value.toNat : Int) = delta.update.toInt + amount) :
    DeltaMoves delta amount
      { maxPositive := umax delta.maxPositive value
        minNegative := delta.minNegative
        limit := delta.limit
        update := .plus value } where
  limit := rfl
  update := h
  maxPositive := by
    simp only [toNat_umax, DeltaUpdate.toInt]
    omega
  minNegative := by
    simp only [DeltaUpdate.toInt]
    omega

theorem deltaMoves_minus {delta : DeltaOp} {amount : Int} {value : U128}
    (h : -(value.toNat : Int) = delta.update.toInt + amount) :
    DeltaMoves delta amount
      { maxPositive := delta.maxPositive
        minNegative := umax delta.minNegative value
        limit := delta.limit
        update := .minus value } where
  limit := rfl
  update := h
  maxPositive := by
    simp only [DeltaUpdate.toInt]
    omega
  minNegative := by
    simp only [toNat_umax, DeltaUpdate.toInt]
    omega

theorem bind_eq_err {alpha beta : Type} {outcome : PartialVMResult alpha}
    {f : alpha -> PartialVMResult beta} {e} (h : outcome = .err e) : (outcome >>= f) = .err e := by
  rw [h, err_bind]

theorem addition_cases (base value limit : U128) :
    (exists r, addition base value limit = .ok r ∧ base.toNat + value.toNat = r.toNat) ∨
      (exists e, addition base value limit = .err e) ∧ limit.toNat < base.toNat + value.toNat := by
  rcases Nat.lt_or_ge limit.toNat (base.toNat + value.toNat) with hlt | hge
  · refine .inr ⟨?_, hlt⟩
    rw [addition_eq, if_neg (Nat.not_le.mpr hlt)]
    exact ⟨_, rfl⟩
  · rcases addition_succeeds_iff.mpr hge with ⟨r, hr⟩
    exact .inl ⟨r, hr, (addition_eq_ok_iff.mp hr).left⟩

theorem subtraction_cases (base value : U128) : (exists r, subtraction base value = .ok r) ∨
    (exists e, subtraction base value = .err e) ∧ base.toNat < value.toNat := by
  rw [subtraction_eq]
  split <;> simp_all

/-- An operation moves the delta, or it fails because the delta would leave the limits. -/
theorem apply_ofDelta (delta : DeltaOp) (op : AggregatorOp) :
    (exists delta', AggregatorOp.apply (ofDelta delta) op = .ok (ofDelta delta') ∧
      DeltaMoves delta op.toInt delta') ∨
        (exists e, AggregatorOp.apply (ofDelta delta) op = .err e) ∧
      ((delta.limit.toNat : Int) < delta.update.toInt + op.toInt ∨
        (delta.limit.toNat : Int) < -(delta.update.toInt + op.toInt) ∨
        (delta.limit.toNat : Int) < -op.toInt) := by
  rcases delta with ⟨maxPositive, minNegative, limit, update⟩
  cases update with
  | plus value =>
    cases op with
    | add amount =>
      simp only [DeltaUpdate.toInt, AggregatorOp.toInt]
      rcases addition_cases value amount limit with ⟨sum, hsum, hval⟩ | ⟨⟨e, herr⟩, hlt⟩
      · have hmoved : (sum.toNat : Int) = value.toNat + amount.toNat := by omega
        exact .inl ⟨_, bind_eq_ok_iff.mpr ⟨sum, hsum, rfl⟩, deltaMoves_plus hmoved⟩
      · exact .inr ⟨⟨e, bind_eq_err herr⟩, by omega⟩
    | sub amount =>
      simp only [DeltaUpdate.toInt, AggregatorOp.toInt]
      by_cases hle : amount.toNat ≤ value.toNat
      · rcases subtraction_succeeds_iff.mpr hle with ⟨diff, hdiff⟩
        have hval := subtraction_eq_ok_iff.mp hdiff
        have hmoved : (diff.toNat : Int) = value.toNat + -amount.toNat := by omega
        exact .inl ⟨_, (if_pos hle).trans (bind_eq_ok_iff.mpr ⟨diff, hdiff, rfl⟩),
          deltaMoves_plus hmoved⟩
      · rcases subtraction_succeeds_iff.mpr (Nat.le_of_not_le hle) with ⟨diff, hdiff⟩
        have hval := subtraction_eq_ok_iff.mp hdiff
        have hmoved : -(diff.toNat : Int) = value.toNat + -amount.toNat := by omega
        rcases subtraction_cases limit amount with ⟨room, hroom⟩ | ⟨⟨e, herr⟩, hlt⟩
        · exact .inl ⟨_, (if_neg hle).trans (bind_eq_ok_iff.mpr ⟨room, hroom,
            bind_eq_ok_iff.mpr ⟨diff, hdiff, rfl⟩⟩), deltaMoves_minus hmoved⟩
        · exact .inr ⟨⟨e, (if_neg hle).trans (bind_eq_err herr)⟩, by omega⟩
  | minus value =>
    cases op with
    | add amount =>
      simp only [DeltaUpdate.toInt, AggregatorOp.toInt]
      by_cases hle : value.toNat ≤ amount.toNat
      · rcases subtraction_succeeds_iff.mpr hle with ⟨diff, hdiff⟩
        have hval := subtraction_eq_ok_iff.mp hdiff
        have hmoved : (diff.toNat : Int) = -value.toNat + amount.toNat := by omega
        exact .inl ⟨_, (if_pos hle).trans (bind_eq_ok_iff.mpr ⟨diff, hdiff, rfl⟩),
          deltaMoves_plus hmoved⟩
      · rcases subtraction_succeeds_iff.mpr (Nat.le_of_not_le hle) with ⟨diff, hdiff⟩
        have hval := subtraction_eq_ok_iff.mp hdiff
        have hmoved : -(diff.toNat : Int) = -value.toNat + amount.toNat := by omega
        exact .inl ⟨_, (if_neg hle).trans (bind_eq_ok_iff.mpr ⟨diff, hdiff, rfl⟩),
          deltaMoves_minus hmoved⟩
    | sub amount =>
      simp only [DeltaUpdate.toInt, AggregatorOp.toInt]
      rcases addition_cases value amount limit with ⟨sum, hsum, hval⟩ | ⟨⟨e, herr⟩, hlt⟩
      · have hmoved : -(sum.toNat : Int) = -value.toNat + -amount.toNat := by omega
        exact .inl ⟨_, bind_eq_ok_iff.mpr ⟨sum, hsum, rfl⟩, deltaMoves_minus hmoved⟩
      · exact .inr ⟨⟨e, bind_eq_err herr⟩, by omega⟩

/-!
# Whole runs
-/

/-- The delta replays on `base` and reaches `value`. -/
structure Agrees (base limit value : U128) (delta : DeltaOp) : Prop where
  limit_eq : delta.limit = limit
  wellFormed : delta.WellFormed
  position : (value.toNat : Int) = base.toNat + delta.update.toInt
  upper : base.toNat + delta.maxPositive.toNat ≤ limit.toNat
  lower : delta.minNegative.toNat ≤ base.toNat

/-- The recorded range of the delta does not fit around `base`. -/
def Excluded (base limit : U128) (delta : DeltaOp) : Prop :=
  delta.limit = limit ∧ delta.WellFormed ∧ (limit.toNat < base.toNat + delta.maxPositive.toNat ∨
      base.toNat < delta.minNegative.toNat)

theorem deltaMoves_wellFormed {delta' : DeltaOp} {amount : Int}
    (h : DeltaMoves delta amount delta') : delta'.WellFormed := by
  rw [DeltaOp.wellFormed_iff, h.maxPositive, h.minNegative]
  omega

theorem run_ofDelta_excluded (hexcl : Excluded base limit delta) (ops : List AggregatorOp) :
    (exists e, (ofDelta delta).run ops = .err e) ∨
      exists delta', (ofDelta delta).run ops = .ok (ofDelta delta') ∧
        Excluded base limit delta' := by
  induction ops generalizing delta with
  | nil => exact .inr ⟨delta, rfl, hexcl⟩
  | cons op ops ih =>
    rcases apply_ofDelta delta op with ⟨delta', hnext, hmoves⟩ | ⟨⟨e, hnext⟩, _⟩
    · rcases hexcl with ⟨hlim, _, hrange⟩
      simp only [run, hnext, ok_bind]
      refine ih ⟨hmoves.limit.trans hlim, deltaMoves_wellFormed hmoves, ?_⟩
      have hmax := hmoves.maxPositive
      have hmin := hmoves.minNegative
      omega
    · exact .inl ⟨e, by simp only [run, hnext, err_bind]⟩

theorem agrees_step (hagr : Agrees base limit value delta) (op : AggregatorOp) :
    (exists r delta', AggregatorOp.apply (known value limit) op = .ok (known r limit) ∧
        AggregatorOp.apply (ofDelta delta) op = .ok (ofDelta delta') ∧ Agrees base limit r delta') ∨
      (exists e, AggregatorOp.apply (known value limit) op = .err e) ∧
        ((exists e, AggregatorOp.apply (ofDelta delta) op = .err e) ∨
          exists delta', AggregatorOp.apply (ofDelta delta) op = .ok (ofDelta delta') ∧
              Excluded base limit delta') := by
  have hwf := (DeltaOp.wellFormed_iff delta).mp hagr.wellFormed
  have hposn := hagr.position
  have hupper := hagr.upper
  have hlower := hagr.lower
  have hlim := hagr.limit_eq
  have hval : value.toNat ≤ limit.toNat := by omega
  by_cases hknown : exists next, AggregatorOp.apply (known value limit) op = .ok next
  · rcases hknown with ⟨next, hnext⟩
    rcases (apply_known_ok_iff hval).mp hnext with ⟨r, rfl, hr, hle⟩
    rcases apply_ofDelta delta op with ⟨delta', hdel, hmoves⟩ | ⟨hdel, hfails⟩
    · have hupd := hmoves.update
      have hmax := hmoves.maxPositive
      have hmin := hmoves.minNegative
      exact .inl ⟨r, delta', hnext, hdel,
        { limit_eq := hmoves.limit.trans hlim
          wellFormed := deltaMoves_wellFormed hmoves
          position := by omega
          upper := by omega
          lower := by omega }⟩
    · rw [hlim] at hfails
      omega
  · right
    refine ⟨exists_err_of_ne (apply_known_ne_panic _ _ _) (not_exists.mp hknown), ?_⟩
    rcases apply_ofDelta delta op with ⟨delta', hdel, hmoves⟩ | ⟨hdel, hfails⟩
    · have hupd := hmoves.update
      have hmax := hmoves.maxPositive
      have hmin := hmoves.minNegative
      refine .inr ⟨delta', hdel, hmoves.limit.trans hlim, deltaMoves_wellFormed hmoves, ?_⟩
      by_contra hinside
      have hlt := limit.isLt
      have hr : ((BitVec.ofInt 128 ((value.toNat : Int) + op.toInt)).toNat : Int) =
          value.toNat + op.toInt := by
        rw [BitVec.toNat_ofInt]
        omega
      exact hknown ⟨_, (apply_known_ok_iff hval).mpr ⟨_, rfl, hr, by omega⟩⟩
    · exact .inl hdel

theorem agrees_run (hagr : Agrees base limit value delta) (ops : List AggregatorOp) :
    (exists r delta', (known value limit).run ops = .ok (known r limit) ∧
        (ofDelta delta).run ops = .ok (ofDelta delta') ∧ Agrees base limit r delta') ∨
      (exists e, (known value limit).run ops = .err e) ∧
        ((exists e, (ofDelta delta).run ops = .err e) ∨
          exists delta', (ofDelta delta).run ops = .ok (ofDelta delta') ∧
              Excluded base limit delta') := by
  induction ops generalizing value delta with
  | nil => exact .inl ⟨value, delta, rfl, rfl, hagr⟩
  | cons op ops ih =>
    rcases agrees_step hagr op with ⟨_, delta', hknown, hdel, hnext⟩ | ⟨⟨e, hknown⟩, hdel⟩
    · simp only [run, hknown, hdel, ok_bind]
      exact ih hnext
    · right
      refine ⟨⟨e, by simp only [run, hknown, err_bind]⟩, ?_⟩
      rcases hdel with ⟨e', hdel⟩ | ⟨delta', hdel, hexcl⟩
      · exact .inl ⟨e', by simp only [run, hdel, err_bind]⟩
      · simp only [run, hdel, ok_bind]
        exact run_ofDelta_excluded hexcl ops

/-!
# Materialization
-/

theorem intoChange_ofDelta (delta : DeltaOp) : (ofDelta delta).intoChange = .ok (.merge delta) := by
  rcases delta with ⟨_, _, _, update⟩
  cases update <;> rfl

theorem ofDelta_injective : Function.Injective ofDelta := by
  intro left _ h
  have hchg := intoChange_ofDelta left
  rw [h, intoChange_ofDelta] at hchg
  cases hchg
  rfl

theorem readAndMaterialize_ofDelta (codec : ValueCodec) (resolver : TableResolver key) (id : key)
    (delta : DeltaOp) (base : U128) (hstor : resolver id = .ok (some (codec.serialize base))) :
    (ofDelta delta).readAndMaterialize codec resolver id = (delta.applyTo base >>= fun r =>
          .ok (r, known r delta.limit)) := by
  rcases delta with ⟨maxPositive, minNegative, limit, update⟩
  cases update with
  | plus | minus =>
    simp only [ofDelta, readAndMaterialize, hstor, codec.deserialize_serialize, expect_some,
      ok_bind, DeltaOp.applyTo]
    cases addition base maxPositive limit with
    | ok => cases subtraction base minNegative <;> rfl
    | err | panic => rfl

theorem applyTo_of_agrees (hagr : Agrees base limit value delta) :
    delta.applyTo base = .ok value := by
  have hlim := hagr.limit_eq
  have hupper := hagr.upper
  refine (DeltaOp.applyTo_eq_ok_iff hagr.wellFormed).mpr ⟨?_, hagr.lower, hagr.position.symm⟩
  rw [hlim]
  exact hupper

theorem applyTo_of_excluded (hexcl : Excluded base limit delta) (r : U128) :
    delta.applyTo base ≠ .ok r := by
  rcases hexcl with ⟨hlim, hwf, hrange⟩
  intro h
  have hok := (DeltaOp.applyTo_eq_ok_iff hwf).mp h
  rw [hlim] at hok
  omega

theorem readAndMaterialize_ofDelta_eq_ok_iff {resolver} {id : key} {r : U128}
    (hstor : resolver id = .ok (some (codec.serialize base))) :
    (ofDelta delta).readAndMaterialize codec resolver id = .ok (r, final) <->
      delta.applyTo base = .ok r ∧ final = known r delta.limit := by
  rw [readAndMaterialize_ofDelta codec resolver id delta base hstor, bind_eq_ok_iff]
  constructor
  · rintro ⟨_, happly, hval⟩
    cases hval
    exact ⟨happly, rfl⟩
  · rintro ⟨happly, rfl⟩
    exact ⟨r, happly, rfl⟩

theorem readAndMaterialize_ofDelta_ne_panic {resolver} {id : key} (delta : DeltaOp)
    (hstor : resolver id = .ok (some (codec.serialize base))) :
    (ofDelta delta).readAndMaterialize codec resolver id ≠ .panic := by
  rw [readAndMaterialize_ofDelta codec resolver id delta base hstor]
  intro hpanic
  rcases bind_eq_panic_iff.mp hpanic with h | ⟨_, _, h⟩
  · exact DeltaOp.applyTo_ne_panic _ _ h
  · cases h

/-!
# Whole runs
-/

theorem run_ofDelta_eq_ok {ops} (h : (ofDelta delta).run ops = .ok final) :
    exists delta', final = ofDelta delta' := by
  induction ops generalizing delta with
  | nil =>
    cases h
    exact ⟨delta, rfl⟩
  | cons op ops ih =>
    rw [run] at h
    rcases apply_ofDelta delta op with ⟨_, hstep, _⟩ | ⟨⟨e, hstep⟩, _⟩
    · rw [hstep, ok_bind] at h
      exact ih h
    · rw [hstep] at h
      cases h

theorem run_ne_panic_of_agrees (hagr : Agrees base limit value delta) (ops : List AggregatorOp) :
    (known value limit).run ops ≠ .panic ∧ (ofDelta delta).run ops ≠ .panic := by
  rcases agrees_run hagr ops with ⟨_, delta', hknown, hdel, _⟩ |
    ⟨⟨e, hknown⟩, ⟨e', hdel⟩ | ⟨delta', hdel, _⟩⟩
  · simp [hknown, hdel]
  · simp [hknown, hdel]
  · simp [hknown, hdel]

theorem run_known_iff_applyTo (hagr : Agrees base limit value delta)
    (ops : List AggregatorOp) (r : U128) : (exists final, (known value limit).run ops = .ok final ∧
        final.state = .data ∧ final.value = r) <->
      exists delta', (ofDelta delta).run ops = .ok (ofDelta delta') ∧
        delta'.applyTo base = .ok r := by
  rcases agrees_run hagr ops with ⟨_, reached, hknown, hdel, hreached⟩ | ⟨⟨e, hknown⟩, hdel⟩
  · have happly := applyTo_of_agrees hreached
    constructor
    · rintro ⟨final, hfinal, _, rfl⟩
      rw [hknown] at hfinal
      cases hfinal
      exact ⟨reached, hdel, happly⟩
    · rintro ⟨delta', hdel', happly'⟩
      rw [hdel] at hdel'
      have hsame := ofDelta_injective (Outcome.ok.inj hdel')
      rw [← hsame, happly] at happly'
      cases happly'
      exact ⟨_, hknown, rfl, rfl⟩
  · constructor
    · rintro ⟨_, hfinal, _⟩
      rw [hknown] at hfinal
      cases hfinal
    · rintro ⟨_, hdel', happly'⟩
      rcases hdel with ⟨_, herr⟩ | ⟨reached, hok, hexcl⟩
      · rw [herr] at hdel'
        cases hdel'
      · rw [hok] at hdel'
        have hsame := ofDelta_injective (Outcome.ok.inj hdel')
        rw [← hsame] at happly'
        exact absurd happly' (applyTo_of_excluded hexcl r)

end Aggregator

def freshAggregator [DecidableEq key] (id : key) (limit : U128) : Aggregator :=
  (AggregatorData.default.getAggregator id limit).2

theorem freshAggregator_eq [DecidableEq key] (id : key) (limit : U128) : freshAggregator id limit =
    Aggregator.ofDelta
      { maxPositive := 0
        minNegative := 0
        limit := limit
        update := .plus 0 } := rfl

theorem agrees_fresh {base limit : U128} (hbase : base.toNat ≤ limit.toNat) :
    Aggregator.Agrees base limit base
      { maxPositive := 0
        minNegative := 0
        limit := limit
        update := .plus 0 } where
  limit_eq := rfl
  wellFormed := by simp [DeltaOp.WellFormed]
  position := by simp [DeltaUpdate.toInt]
  upper := by simpa using hbase
  lower := by simp

/-- A run against the known value, a speculative run that is materialized
afterwards and the delta published by that run all agree, and no step of them
overflows. -/
theorem speculative_run_eq_direct_run [DecidableEq key] (codec : ValueCodec)
    (resolver : TableResolver key) (id : key) (limit base : U128) (hbase : base.toNat ≤ limit.toNat)
    (hstorage : resolver id = Except.ok (some (codec.serialize base))) (ops : List AggregatorOp) :
    (forall r, (exists final, (Aggregator.known base limit).run ops =
          Outcome.ok final ∧ final.state = AggregatorState.data ∧
          final.value = r) <->
        exists delta final, (freshAggregator id limit).run ops = Outcome.ok delta ∧
            delta.readAndMaterialize codec resolver id = Outcome.ok (r, final)) ∧
      (forall r, (exists final, (Aggregator.known base limit).run ops =
            Outcome.ok final ∧ final.state = AggregatorState.data ∧
            final.value = r) <->
          exists delta op, (freshAggregator id limit).run ops = Outcome.ok delta ∧
              delta.intoChange = Outcome.ok (AggregatorChange.merge op) ∧
              op.applyTo base = Outcome.ok r) ∧
      (Aggregator.known base limit).run ops ≠ Outcome.panic ∧
      (freshAggregator id limit).run ops ≠ Outcome.panic ∧
      forall delta, (freshAggregator id limit).run ops = Outcome.ok delta ->
        delta.readAndMaterialize codec resolver id ≠ Outcome.panic ∧
          delta.intoChange ≠ Outcome.panic := by
  have hagrees := agrees_fresh hbase
  have hpanic := Aggregator.run_ne_panic_of_agrees hagrees ops
  rw [freshAggregator_eq]
  refine ⟨?_, ?_, hpanic.left, hpanic.right, ?_⟩
  · intro r
    rw [Aggregator.run_known_iff_applyTo hagrees]
    constructor
    · rintro ⟨op, hrun, happly⟩
      exact ⟨_, _, hrun, (Aggregator.readAndMaterialize_ofDelta_eq_ok_iff hstorage).mpr
          ⟨happly, rfl⟩⟩
    · rintro ⟨delta, _, hrun, hread⟩
      rcases Aggregator.run_ofDelta_eq_ok hrun with ⟨op, rfl⟩
      exact ⟨op, hrun, ((Aggregator.readAndMaterialize_ofDelta_eq_ok_iff hstorage).mp hread).left⟩
  · intro _
    rw [Aggregator.run_known_iff_applyTo hagrees]
    constructor
    · rintro ⟨op, hrun, happly⟩
      exact ⟨_, op, hrun, Aggregator.intoChange_ofDelta op, happly⟩
    · rintro ⟨delta, op, hrun, hchange, happly⟩
      rcases Aggregator.run_ofDelta_eq_ok hrun with ⟨_, rfl⟩
      rw [Aggregator.intoChange_ofDelta] at hchange
      cases hchange
      exact ⟨op, hrun, happly⟩
  · intro _ hrun
    rcases Aggregator.run_ofDelta_eq_ok hrun with ⟨op, rfl⟩
    rw [Aggregator.intoChange_ofDelta]
    exact ⟨Aggregator.readAndMaterialize_ofDelta_ne_panic op hstorage, by simp⟩

/-!
# The canonical encoding of values
-/

/-- The lowest `count` bytes of a number, least significant first. -/
def leBytes : Nat -> Nat -> Bytes
  | 0, _ => []
  | count + 1, value => (value % 256).toUInt8 :: leBytes count (value / 256)

def leValue : Bytes -> Nat
  | [] => 0
  | byte :: bytes => byte.toNat + 256 * leValue bytes

theorem length_leBytes (count value : Nat) : (leBytes count value).length = count := by
  induction count generalizing value with
  | zero => rfl
  | succ count ih => simp [leBytes, ih]

theorem leValue_leBytes (count value : Nat) :
    leValue (leBytes count value) = value % 256 ^ count := by
  induction count generalizing value with
  | zero => simp [leBytes, leValue, Nat.mod_one]
  | succ count ih =>
    simp only [leBytes, leValue, ih]
    rw [Nat.pow_succ', Nat.mod_mul]
    simp

/-- The canonical serialization of `u128`: sixteen bytes, least significant
first. -/
def ValueCodec.littleEndian : ValueCodec where
  serialize value := leBytes 16 value.toNat
  deserialize bytes :=
    if bytes.length = 16 then
      some (BitVec.ofNat 128 (leValue bytes))
    else
      none
  deserialize_serialize := by
    intro value
    have hlt : value.toNat < 256 ^ 16 := by
      have := value.isLt
      omega
    rw [if_pos (length_leBytes 16 value.toNat), leValue_leBytes,
      Nat.mod_eq_of_lt hlt, BitVec.ofNat_toNat, BitVec.setWidth_eq]

theorem speculative_run_eq_direct_run_300 : (Aggregator.known 300 600).run
        [AggregatorOp.add 200, AggregatorOp.sub 300] =
      Outcome.ok (Aggregator.known 200 600) ∧
    exists delta final, (freshAggregator () 600).run
          [AggregatorOp.add 200, AggregatorOp.sub 300] = Outcome.ok delta ∧
        delta.readAndMaterialize ValueCodec.littleEndian
            (fun _ => Except.ok (some (ValueCodec.littleEndian.serialize 300))) () =
          Outcome.ok (200, final) :=
  ⟨by decide,
    ((speculative_run_eq_direct_run ValueCodec.littleEndian
      (fun _ => .ok (some (ValueCodec.littleEndian.serialize 300)))
      () 600 300 (by decide) rfl
      [.add 200, .sub 300]).left 200).mp
      ⟨Aggregator.known 200 600, by decide, rfl, rfl⟩⟩

end OpenLibra.Aggregation
