import OpenLibra.Rust.Outcome

/-!
# Delta operations

A delta is a signed update of an aggregator together with the range of deltas its transaction
went through.
-/

namespace OpenLibra.Aggregation

open Rust

/-!
# Errors
-/

inductive StatusCode where
  | aborted
  | vmExtensionError
  | storageError
deriving DecidableEq, Repr

structure PartialVMError where
  majorStatus : StatusCode
  subStatus : Option Nat
  message : Option String
deriving DecidableEq, Repr

abbrev PartialVMResult (alpha : Type) := Outcome PartialVMError alpha

def eAddOverflow : Nat := 0x020001

def eSubUnderflow : Nat := 0x020002

def abortError (message : String) (code : Nat) : PartialVMError where
  majorStatus := .aborted
  subStatus := some code
  message := some message

/-!
# Bounded addition and subtraction
-/

variable (base value : U128)

def addOverflow : PartialVMError :=
  abortError ("overflow when adding " ++ toString value.toNat ++ " to " ++
      toString base.toNat) eAddOverflow

def subUnderflow : PartialVMError :=
  abortError ("underflow when subtracting " ++ toString value.toNat ++ " from " ++
      toString base.toNat) eSubUnderflow

def addition (base value limit : U128) : PartialVMResult U128 := do
  if limit.toNat < base.toNat then
    .err (addOverflow base value)
  else
    let room <- checkedSub limit base
    if room.toNat < value.toNat then
      .err (addOverflow base value)
    else
      checkedAdd base value

def subtraction : PartialVMResult U128 :=
  if base.toNat < value.toNat then
    .err (subUnderflow base value)
  else
    checkedSub base value

theorem addition_eq (base value limit : U128) : addition base value limit =
    if base.toNat + value.toNat ≤ limit.toNat then
      .ok (base + value)
    else
      .err (addOverflow base value) := by
  unfold addition
  by_cases hlim : limit.toNat < base.toNat
  · rw [if_pos hlim, if_neg (by omega)]
  · have hroom : (limit - base).toNat + base.toNat = limit.toNat := by
      rw [BitVec.toNat_sub_of_le (BitVec.le_def.mpr (by omega))]
      omega
    rw [if_neg hlim, checkedSub_eq_ok hroom, ok_bind]
    by_cases hval : (limit - base).toNat < value.toNat
    · rw [if_pos hval, if_neg (by omega)]
    · have hsum : base.toNat + value.toNat = (base + value).toNat := by
        rw [BitVec.toNat_add, Nat.mod_eq_of_lt]
        have := limit.isLt
        omega
      rw [if_neg hval, if_pos (by omega), checkedAdd_eq_ok hsum]

theorem subtraction_eq : subtraction base value =
    if value.toNat ≤ base.toNat then
      .ok (base - value)
    else
      .err (subUnderflow base value) := by
  unfold subtraction
  by_cases hval : base.toNat < value.toNat
  · rw [if_pos hval, if_neg (by omega)]
  · have hdiff : (base - value).toNat + value.toNat = base.toNat := by
      rw [BitVec.toNat_sub_of_le (BitVec.le_def.mpr (by omega))]
      omega
    rw [if_neg hval, if_pos (by omega), checkedSub_eq_ok hdiff]

theorem addition_ne_panic (base value limit : U128) : addition base value limit ≠ .panic := by
  rw [addition_eq]
  split <;> simp

theorem subtraction_ne_panic : subtraction base value ≠ .panic := by
  rw [subtraction_eq]
  split <;> simp

variable {base value : U128}

theorem addition_eq_ok_iff {limit r : U128} : addition base value limit = .ok r <->
    base.toNat + value.toNat = r.toNat ∧ r.toNat ≤ limit.toNat := by
  rw [addition_eq]
  by_cases hfits : base.toNat + value.toNat ≤ limit.toNat
  · have hsum : (base + value).toNat = base.toNat + value.toNat := by
      rw [BitVec.toNat_add, Nat.mod_eq_of_lt]
      have := limit.isLt
      omega
    rw [if_pos hfits, Outcome.ok.injEq, ← BitVec.toNat_inj, hsum]
    omega
  · rw [if_neg hfits]
    constructor
    · intro h
      cases h
    · intro h
      omega

theorem subtraction_eq_ok_iff {r : U128} : subtraction base value = .ok r <->
    r.toNat + value.toNat = base.toNat := by
  rw [subtraction_eq]
  by_cases hfits : value.toNat ≤ base.toNat
  · rw [if_pos hfits, Outcome.ok.injEq, ← BitVec.toNat_inj,
      BitVec.toNat_sub_of_le (BitVec.le_def.mpr hfits)]
    omega
  · rw [if_neg hfits]
    constructor
    · intro h
      cases h
    · intro h
      omega

theorem addition_succeeds_iff {limit : U128} : (exists r, addition base value limit = .ok r) <->
    base.toNat + value.toNat ≤ limit.toNat := by
  rw [addition_eq]
  split <;> simp_all

theorem subtraction_succeeds_iff : (exists r, subtraction base value = .ok r) <->
    value.toNat ≤ base.toNat := by
  rw [subtraction_eq]
  split <;> simp_all

/-!
# Deltas and their application
-/

inductive DeltaUpdate where
  | plus (value : U128)
  | minus (value : U128)
deriving DecidableEq, Repr

structure DeltaOp where
  maxPositive : U128
  minNegative : U128
  limit : U128
  update : DeltaUpdate
deriving DecidableEq, Repr

def DeltaUpdate.toInt : DeltaUpdate -> Int
  | plus value => value.toNat
  | minus value => -value.toNat

namespace DeltaOp

variable (self : DeltaOp)

def applyTo (base : U128) : PartialVMResult U128 := do
  let _ <- addition base self.maxPositive self.limit
  let _ <- subtraction base self.minNegative
  match self.update with
  | .plus value => addition base value self.limit
  | .minus value => subtraction base value

/-- The recorded range of a delta contains its final update. -/
def WellFormed : Prop :=
  match self.update with
  | .plus value => value.toNat ≤ self.maxPositive.toNat
  | .minus value => value.toNat ≤ self.minNegative.toNat

instance (self : DeltaOp) : Decidable self.WellFormed := by
  unfold WellFormed
  cases self.update <;> infer_instance

theorem applyTo_ne_panic (base : U128) : self.applyTo base ≠ .panic := by
  intro h
  unfold applyTo at h
  rcases bind_eq_panic_iff.mp h with h | ⟨_, _, h⟩
  · exact addition_ne_panic _ _ _ h
  rcases bind_eq_panic_iff.mp h with h | ⟨_, _, h⟩
  · exact subtraction_ne_panic _ _ h
  cases hupd : self.update with
  | plus =>
    rw [hupd] at h
    exact addition_ne_panic _ _ _ h
  | minus =>
    rw [hupd] at h
    exact subtraction_ne_panic _ _ h

theorem wellFormed_iff : self.WellFormed <->
    self.update.toInt ≤ self.maxPositive.toNat ∧ -self.update.toInt ≤ self.minNegative.toNat := by
  unfold WellFormed
  cases self.update with
  | plus | minus =>
    simp only [DeltaUpdate.toInt]
    omega

variable {self delta previousDelta merged : DeltaOp} {update : DeltaUpdate}

theorem applyTo_eq_ok_iff (hwf : self.WellFormed) {base r : U128} :
    self.applyTo base = .ok r <-> base.toNat + self.maxPositive.toNat ≤ self.limit.toNat ∧
        self.minNegative.toNat ≤ base.toNat ∧ (base.toNat : Int) + self.update.toInt = r.toNat := by
  unfold applyTo
  constructor
  · intro h
    rcases of_bind h with ⟨top, htop, h⟩
    rcases of_bind h with ⟨bottom, hbottom, h⟩
    refine ⟨addition_succeeds_iff.mp ⟨top, htop⟩, subtraction_succeeds_iff.mp ⟨bottom, hbottom⟩, ?_⟩
    cases hupd : self.update with
    | plus =>
      rw [hupd] at h
      have := addition_eq_ok_iff.mp h
      simp only [DeltaUpdate.toInt]
      omega
    | minus =>
      rw [hupd] at h
      have := subtraction_eq_ok_iff.mp h
      simp only [DeltaUpdate.toInt]
      omega
  · rintro ⟨hmax, hmin, hshift⟩
    rcases addition_succeeds_iff.mpr hmax with ⟨top, htop⟩
    rcases subtraction_succeeds_iff.mpr hmin with ⟨bottom, hbottom⟩
    simp only [htop, hbottom, ok_bind]
    have hrange := (wellFormed_iff self).mp hwf
    cases hupd : self.update with
    | plus =>
      rw [hupd] at hshift hrange
      simp only [DeltaUpdate.toInt] at hshift hrange
      exact addition_eq_ok_iff.mpr (by omega)
    | minus =>
      rw [hupd] at hshift
      simp only [DeltaUpdate.toInt] at hshift
      exact subtraction_eq_ok_iff.mpr (by omega)

/-!
# Merging
-/

/-- `subtraction(a, b).unwrap_or(0)`. -/
def subtractionOrZero (a b : U128) : PartialVMResult U128 :=
  match subtraction a b with
  | .ok r => .ok r
  | .err _ => .ok 0
  | .panic => .panic

def shiftedMaxPositiveBy (self delta : DeltaOp) : PartialVMResult U128 :=
  match delta.update with
  | .plus value => addition value self.maxPositive self.limit
  | .minus value => subtractionOrZero self.maxPositive value

def shiftedMinNegativeBy (self delta : DeltaOp) : PartialVMResult U128 :=
  match delta.update with
  | .plus value => subtractionOrZero self.minNegative value
  | .minus value => addition value self.minNegative self.limit

/-- The macro `update_different_sign!`. -/
def updateDifferentSign (a b : U128) : PartialVMResult DeltaUpdate :=
  if b.toNat ≤ a.toNat then
    return .plus (<- subtraction a b)
  else
    return .minus (<- subtraction b a)

def mergedUpdate (self previousDelta : DeltaOp) : PartialVMResult DeltaUpdate :=
  match previousDelta.update, self.update with
  | .plus prevValue, .plus selfValue => return .plus (<- addition prevValue selfValue self.limit)
  | .plus prevValue, .minus selfValue => updateDifferentSign prevValue selfValue
  | .minus prevValue, .plus selfValue => updateDifferentSign selfValue prevValue
  | .minus prevValue, .minus selfValue => return .minus (<- addition prevValue selfValue self.limit)

/-- The new value of `self` after `merge_onto`; on an error `self` is left as
it was. -/
def mergeOnto (self previousDelta : DeltaOp) : PartialVMResult DeltaOp := do
  let shiftedMaxPositive <- self.shiftedMaxPositiveBy previousDelta
  let shiftedMinNegative <- self.shiftedMinNegativeBy previousDelta
  let update <- self.mergedUpdate previousDelta
  return {
    maxPositive := umax previousDelta.maxPositive shiftedMaxPositive
    minNegative := umax previousDelta.minNegative shiftedMinNegative
    limit := self.limit
    update := update }

/-!
Each helper is specified over the integers: shifting the recorded extremes by
the previous update, capped at zero, and adding the two updates.
-/

theorem subtractionOrZero_eq_ok_iff {a b c : U128} : subtractionOrZero a b = .ok c <->
    c.toNat = a.toNat - b.toNat := by
  unfold subtractionOrZero
  rw [subtraction_eq]
  by_cases h : b.toNat ≤ a.toNat
  · rw [if_pos h]
    change Outcome.ok (a - b) = .ok c <-> _
    rw [Outcome.ok.injEq, ← BitVec.toNat_inj, BitVec.toNat_sub_of_le (BitVec.le_def.mpr h)]
    omega
  · rw [if_neg h]
    change Outcome.ok (0 : U128) = .ok c <-> _
    rw [Outcome.ok.injEq, ← BitVec.toNat_inj]
    change 0 = c.toNat <-> _
    omega

theorem subtractionOrZero_succeeds (a b : U128) : exists c, subtractionOrZero a b = .ok c := by
  unfold subtractionOrZero
  rw [subtraction_eq]
  split
  · next hok =>
      exact ⟨_, rfl⟩
  · exact ⟨0, rfl⟩
  · next hpanic =>
      split at hpanic <;> cases hpanic

theorem shiftedMaxPositiveBy_ok {shifted : U128}
    (h : self.shiftedMaxPositiveBy delta = .ok shifted) :
    (shifted.toNat : Int) = max 0 (delta.update.toInt + self.maxPositive.toNat) := by
  unfold shiftedMaxPositiveBy at h
  cases hupd : delta.update with
  | plus =>
    rw [hupd] at h
    have := addition_eq_ok_iff.mp h
    simp only [DeltaUpdate.toInt]
    omega
  | minus =>
    rw [hupd] at h
    have := subtractionOrZero_eq_ok_iff.mp h
    simp only [DeltaUpdate.toInt]
    omega

theorem shiftedMinNegativeBy_ok {shifted : U128}
    (h : self.shiftedMinNegativeBy delta = .ok shifted) :
    (shifted.toNat : Int) = max 0 (self.minNegative.toNat - delta.update.toInt) := by
  unfold shiftedMinNegativeBy at h
  cases hupd : delta.update with
  | plus =>
    rw [hupd] at h
    have := subtractionOrZero_eq_ok_iff.mp h
    simp only [DeltaUpdate.toInt]
    omega
  | minus =>
    rw [hupd] at h
    have := addition_eq_ok_iff.mp h
    simp only [DeltaUpdate.toInt]
    omega

theorem shiftedMaxPositiveBy_fails
    (h : forall shifted, self.shiftedMaxPositiveBy delta ≠ .ok shifted) :
    (self.limit.toNat : Int) < delta.update.toInt + self.maxPositive.toNat := by
  unfold shiftedMaxPositiveBy at h
  cases hupd : delta.update with
  | plus =>
    rw [hupd] at h
    have hnot := mt addition_succeeds_iff.mpr (not_exists.mpr h)
    simp only [DeltaUpdate.toInt]
    omega
  | minus =>
    rw [hupd] at h
    exact absurd (subtractionOrZero_succeeds _ _) (not_exists.mpr h)

theorem shiftedMinNegativeBy_fails
    (h : forall shifted, self.shiftedMinNegativeBy delta ≠ .ok shifted) :
    (self.limit.toNat : Int) < self.minNegative.toNat - delta.update.toInt := by
  unfold shiftedMinNegativeBy at h
  cases hupd : delta.update with
  | plus =>
    rw [hupd] at h
    exact absurd (subtractionOrZero_succeeds _ _) (not_exists.mpr h)
  | minus =>
    rw [hupd] at h
    have hnot := mt addition_succeeds_iff.mpr (not_exists.mpr h)
    simp only [DeltaUpdate.toInt]
    omega

theorem updateDifferentSign_ok {a b : U128} (h : updateDifferentSign a b = .ok update) :
    update.toInt = a.toNat - b.toNat := by
  unfold updateDifferentSign at h
  by_cases hle : b.toNat ≤ a.toNat
  · rw [if_pos hle] at h
    rcases of_bind h with ⟨value, hval, hupd⟩
    cases hupd
    have := subtraction_eq_ok_iff.mp hval
    simp only [DeltaUpdate.toInt]
    omega
  · rw [if_neg hle] at h
    rcases of_bind h with ⟨value, hval, hupd⟩
    cases hupd
    have := subtraction_eq_ok_iff.mp hval
    simp only [DeltaUpdate.toInt]
    omega

theorem updateDifferentSign_succeeds (a b : U128) :
    exists update, updateDifferentSign a b = .ok update := by
  unfold updateDifferentSign
  by_cases hle : b.toNat ≤ a.toNat
  · rcases subtraction_succeeds_iff.mpr hle with ⟨value, hval⟩
    exact ⟨.plus value, by simp [hle, hval]⟩
  · rcases subtraction_succeeds_iff.mpr (Nat.le_of_not_le hle) with ⟨value, hval⟩
    exact ⟨.minus value, by simp [hle, hval]⟩

theorem mergedUpdate_ok (h : self.mergedUpdate previousDelta = .ok update) :
    update.toInt = previousDelta.update.toInt + self.update.toInt := by
  unfold mergedUpdate at h
  cases hprev : previousDelta.update with
  | plus =>
    cases hself : self.update with
    | plus =>
      rw [hprev, hself] at h
      rcases of_bind h with ⟨value, hval, hupd⟩
      cases hupd
      have := addition_eq_ok_iff.mp hval
      simp only [DeltaUpdate.toInt]
      omega
    | minus =>
      rw [hprev, hself] at h
      rw [updateDifferentSign_ok h]
      simp only [DeltaUpdate.toInt]
      omega
  | minus =>
    cases hself : self.update with
    | plus =>
      rw [hprev, hself] at h
      rw [updateDifferentSign_ok h]
      simp only [DeltaUpdate.toInt]
      omega
    | minus =>
      rw [hprev, hself] at h
      rcases of_bind h with ⟨value, hval, hupd⟩
      cases hupd
      have := addition_eq_ok_iff.mp hval
      simp only [DeltaUpdate.toInt]
      omega

theorem mergedUpdate_fails {self previousDelta : DeltaOp}
    (h : forall update, self.mergedUpdate previousDelta ≠ .ok update) :
    (self.limit.toNat : Int) < previousDelta.update.toInt + self.update.toInt ∨
      (self.limit.toNat : Int) < -(previousDelta.update.toInt + self.update.toInt) := by
  unfold mergedUpdate at h
  cases hprev : previousDelta.update with
  | plus prevValue =>
    cases hself : self.update with
    | plus selfValue =>
      rw [hprev, hself] at h
      have hnot : ¬ prevValue.toNat + selfValue.toNat ≤ self.limit.toNat := by
        intro hfits
        rcases addition_succeeds_iff.mpr hfits with ⟨value, hval⟩
        exact h (.plus value) (by simp [hval])
      simp only [DeltaUpdate.toInt]
      omega
    | minus =>
      rw [hprev, hself] at h
      exact absurd (updateDifferentSign_succeeds _ _) (not_exists.mpr h)
  | minus prevValue =>
    cases hself : self.update with
    | plus =>
      rw [hprev, hself] at h
      exact absurd (updateDifferentSign_succeeds _ _) (not_exists.mpr h)
    | minus selfValue =>
      rw [hprev, hself] at h
      have hnot : ¬ prevValue.toNat + selfValue.toNat ≤ self.limit.toNat := by
        intro hfits
        rcases addition_succeeds_iff.mpr hfits with ⟨value, hval⟩
        exact h (.minus value) (by simp [hval])
      simp only [DeltaUpdate.toInt]
      omega

/-!
# Merging is sequential composition
-/

theorem mergeOnto_ok (h : self.mergeOnto previousDelta = .ok merged) :
    merged.limit = self.limit ∧
      merged.update.toInt = previousDelta.update.toInt + self.update.toInt ∧
      (merged.maxPositive.toNat : Int) = max (previousDelta.maxPositive.toNat : Int)
          (max 0 (previousDelta.update.toInt + self.maxPositive.toNat)) ∧
      (merged.minNegative.toNat : Int) = max (previousDelta.minNegative.toNat : Int)
          (max 0 (self.minNegative.toNat - previousDelta.update.toInt)) := by
  unfold mergeOnto at h
  rcases of_bind h with ⟨shiftedMax, hmax, h⟩
  rcases of_bind h with ⟨shiftedMin, hmin, h⟩
  rcases of_bind h with ⟨update, hupd, h⟩
  cases h
  refine ⟨rfl, mergedUpdate_ok hupd, ?_, ?_⟩
  · rw [← shiftedMaxPositiveBy_ok hmax, toNat_umax]
    omega
  · rw [← shiftedMinNegativeBy_ok hmin, toNat_umax]
    omega

theorem mergeOnto_fails {self previousDelta : DeltaOp} (hself : self.WellFormed)
    (h : forall merged, self.mergeOnto previousDelta ≠ .ok merged) :
    (self.limit.toNat : Int) < previousDelta.update.toInt + self.maxPositive.toNat ∨
      (self.limit.toNat : Int) < self.minNegative.toNat - previousDelta.update.toInt := by
  have hrange := (wellFormed_iff self).mp hself
  by_cases hmax : exists shifted, self.shiftedMaxPositiveBy previousDelta = .ok shifted
  · rcases hmax with ⟨shiftedMax, hmax⟩
    by_cases hmin : exists shifted, self.shiftedMinNegativeBy previousDelta = .ok shifted
    · rcases hmin with ⟨shiftedMin, hmin⟩
      have hupd := @mergedUpdate_fails self previousDelta (by
          intro update hupd
          have hmerged : self.mergeOnto previousDelta = .ok
              { maxPositive := umax previousDelta.maxPositive shiftedMax
                minNegative := umax previousDelta.minNegative shiftedMin
                limit := self.limit
                update := update } := by
            simp only [mergeOnto, hmax, hmin, hupd, ok_bind, pure_eq]
          exact h _ hmerged)
      omega
    · exact .inr (shiftedMinNegativeBy_fails (not_exists.mp hmin))
  · exact .inl (shiftedMaxPositiveBy_fails (not_exists.mp hmax))

theorem mergeOnto_ne_panic (self previousDelta : DeltaOp) :
    self.mergeOnto previousDelta ≠ .panic := by
  have hsign (a b : U128) : updateDifferentSign a b ≠ .panic := by
    rcases updateDifferentSign_succeeds a b with ⟨_, hupd⟩
    simp [hupd]
  have hzero (a b : U128) : subtractionOrZero a b ≠ .panic := by
    rcases subtractionOrZero_succeeds a b with ⟨_, hc⟩
    simp [hc]
  intro h
  unfold mergeOnto at h
  rcases bind_eq_panic_iff.mp h with h | ⟨_, _, h⟩
  · unfold shiftedMaxPositiveBy at h
    split at h
    · exact addition_ne_panic _ _ _ h
    · exact hzero _ _ h
  rcases bind_eq_panic_iff.mp h with h | ⟨_, _, h⟩
  · unfold shiftedMinNegativeBy at h
    split at h
    · exact hzero _ _ h
    · exact addition_ne_panic _ _ _ h
  rcases bind_eq_panic_iff.mp h with h | ⟨_, _, h⟩
  · unfold mergedUpdate at h
    split at h
    · rcases bind_eq_panic_iff.mp h with h | ⟨_, _, h⟩
      · exact addition_ne_panic _ _ _ h
      · cases h
    · exact hsign _ _ h
    · exact hsign _ _ h
    · rcases bind_eq_panic_iff.mp h with h | ⟨_, _, h⟩
      · exact addition_ne_panic _ _ _ h
      · cases h
  · cases h

theorem mergeOnto_wellFormed {d1 d2 : DeltaOp} (h1 : d1.WellFormed)
    (h2 : d2.WellFormed) (h : d2.mergeOnto d1 = .ok merged) : merged.WellFormed := by
  have hrange1 := (wellFormed_iff d1).mp h1
  have hrange2 := (wellFormed_iff d2).mp h2
  rcases mergeOnto_ok h with ⟨_, hupd, hmax, hmin⟩
  rw [wellFormed_iff, hupd]
  omega

theorem mergeOnto_applyTo_iff {d1 d2 : DeltaOp} (h1 : d1.WellFormed) (h2 : d2.WellFormed)
    (hlim : d1.limit = d2.limit) (h : d2.mergeOnto d1 = .ok merged) (base r : U128) :
    merged.applyTo base = .ok r <-> exists x, d1.applyTo base = .ok x ∧ d2.applyTo x = .ok r := by
  have hrange1 := (wellFormed_iff d1).mp h1
  rcases mergeOnto_ok h with ⟨hmlimit, hupd, hmax, hmin⟩
  rw [applyTo_eq_ok_iff (mergeOnto_wellFormed h1 h2 h), hupd, hmlimit]
  constructor
  · intro hmerged
    have hlt := d2.limit.isLt
    have hx : (BitVec.ofInt 128 ((base.toNat : Int) + d1.update.toInt)).toNat =
        (base.toNat : Int) + d1.update.toInt := by
      rw [BitVec.toNat_ofInt]
      omega
    refine ⟨BitVec.ofInt 128 ((base.toNat : Int) + d1.update.toInt),
      (applyTo_eq_ok_iff h1).mpr ?_, (applyTo_eq_ok_iff h2).mpr ?_⟩
    · rw [hlim]
      omega
    · omega
  · rintro ⟨x, hx, hr⟩
    have hx := (applyTo_eq_ok_iff h1).mp hx
    have hr := (applyTo_eq_ok_iff h2).mp hr
    rw [hlim] at hx
    omega

/-- Merging `d2` onto `d1` is the sequential composition of the two
partial functions, and it fails only when that composition is nowhere
defined. -/
theorem mergeOnto_sequential (d1 d2 : DeltaOp)
    (h1 : d1.WellFormed) (h2 : d2.WellFormed) (hlimit : d1.limit = d2.limit) :
    (forall merged, d2.mergeOnto d1 = Outcome.ok merged ->
      merged.WellFormed ∧ merged.limit = d1.limit ∧
        forall base r, merged.applyTo base = Outcome.ok r <->
          exists x, d1.applyTo base = Outcome.ok x ∧ d2.applyTo x = Outcome.ok r) ∧
      (forall e, d2.mergeOnto d1 = Outcome.err e -> forall base, exists e',
          (d1.applyTo base >>= d2.applyTo) = Outcome.err e') ∧
      d2.mergeOnto d1 ≠ Outcome.panic := by
  refine ⟨?_, ?_, mergeOnto_ne_panic d2 d1⟩
  · intro merged hmerged
    refine ⟨mergeOnto_wellFormed h1 h2 hmerged, ?_, mergeOnto_applyTo_iff h1 h2 hlimit hmerged⟩
    rw [(mergeOnto_ok hmerged).left, hlimit]
  · intro e he base
    have hfails := @mergeOnto_fails d2 d1 h2 (by simp [he])
    apply exists_err_of_ne
    · intro hpanic
      rcases bind_eq_panic_iff.mp hpanic with h | ⟨x, _, h⟩
      · exact applyTo_ne_panic _ _ h
      · exact applyTo_ne_panic _ _ h
    · intro r hr
      rcases of_bind hr with ⟨x, hx, hr⟩
      have hx := (applyTo_eq_ok_iff h1).mp hx
      have hr := (applyTo_eq_ok_iff h2).mp hr
      rw [hlimit] at hx
      omega

theorem mergeOnto_sequential_at_limit : (DeltaOp.mk 2 0 100 (DeltaUpdate.plus 2)).WellFormed ∧
    (DeltaOp.mk 98 1 100 (DeltaUpdate.minus 1)).WellFormed ∧
    DeltaOp.mergeOnto (DeltaOp.mk 98 1 100 (DeltaUpdate.minus 1))
      (DeltaOp.mk 2 0 100 (DeltaUpdate.plus 2)) =
        Outcome.ok (DeltaOp.mk 100 0 100 (DeltaUpdate.plus 1)) ∧
    (DeltaOp.mk 100 0 100 (DeltaUpdate.plus 1)).limit = 100 :=
  ⟨by decide, by decide, by decide,
    ((mergeOnto_sequential (DeltaOp.mk 2 0 100 (.plus 2))
      (DeltaOp.mk 98 1 100 (.minus 1)) (by decide) (by decide)
      (by decide)).left (DeltaOp.mk 100 0 100 (.plus 1))
      (by decide)).right.left⟩

end DeltaOp

end OpenLibra.Aggregation
