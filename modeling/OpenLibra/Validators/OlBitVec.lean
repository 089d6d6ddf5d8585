import OpenLibra.Bits.Bitmap
import OpenLibra.Rust.Outcome

/-!
# Bit vectors of voters

A bit vector in buckets of eight bits.  Positions are `u16`, so indices are
taken modulo `2 ^ 16` where the code casts them.
-/

namespace OpenLibra.Validators

open Rust List

structure OlBitVec where
  inner : List UInt8
deriving DecidableEq, Repr

/-- `as u16` on a wider unsigned integer. -/
def asU16 (n : Nat) : Nat := n % 2 ^ 16

namespace OlBitVec

def bucketSize : Nat := 8

def requiredBuckets (numBits : Nat) : Nat :=
  if numBits = 0 then 0 else (numBits - 1) / bucketSize + 1

def withNumBits (numBits : Nat) : OlBitVec := ⟨replicate (requiredBuckets numBits) 0⟩

variable (bits : OlBitVec)

def set (pos : Nat) : OlBitVec :=
  let bucket := pos / bucketSize
  let inner :=
    if bits.inner.length ≤ bucket then
      bits.inner ++ replicate (bucket + 1 - bits.inner.length) 0
    else bits.inner
  ⟨Bits.setBit inner pos⟩

def isSet (pos : Nat) : Bool := Bits.getBit bits.inner pos

def lastSetBit (bits : OlBitVec) : Option Nat := (Bits.lastSetBit bits.inner).map asU16

def iterOnes : List Nat :=
  (range (bits.inner.length * bucketSize)).filter fun index => bits.isSet (asU16 index)

def numBuckets : Nat := bits.inner.length

def maxBuckets : Nat := 8192

def countOnes (bits : OlBitVec) : Nat := Bits.countOnes bits.inner

def bitAnd (bits other : OlBitVec) : OlBitVec :=
  ⟨(range (min bits.inner.length other.inner.length)).map fun i =>
    bits.inner[i]?.getD 0 &&& other.inner[i]?.getD 0⟩

def bitOr (bits other : OlBitVec) : OlBitVec :=
  ⟨(range (max bits.inner.length other.inner.length)).map fun i =>
    bits.inner[i]?.getD 0 ||| other.inner[i]?.getD 0⟩

def fromBytes (rawBytes : List UInt8) : Outcome error OlBitVec :=
  if rawBytes.length ≤ maxBuckets then .ok ⟨rawBytes⟩ else .panic

def setFlags (bits : OlBitVec) : Nat -> List Bool -> OlBitVec
  | _, [] => bits
  | index, b :: flags => setFlags (if b then bits.set (asU16 index) else bits) (index + 1) flags

def fromFlags (flags : List Bool) : Outcome error OlBitVec :=
  if flags.length ≤ maxBuckets * bucketSize then
    .ok (setFlags (withNumBits (asU16 flags.length)) 0 flags)
  else .panic

/-- The bit vectors that are built with the operations on `u16` positions. -/
inductive Built : OlBitVec -> Prop where
  | withNumBits {numBits : Nat} (h : numBits < 2 ^ 16) : Built (withNumBits numBits)
  | fromBytes {rawBytes : List UInt8} {bits : OlBitVec}
      (h : fromBytes rawBytes = (.ok bits : Outcome Unit OlBitVec)) : Built bits
  | fromFlags {flags : List Bool} {bits : OlBitVec}
      (h : fromFlags flags = (.ok bits : Outcome Unit OlBitVec)) : Built bits
  | set {bits : OlBitVec} {pos : Nat} (h : Built bits) (hpos : pos < 2 ^ 16) : Built (bits.set pos)
  | bitAnd {bits other : OlBitVec} (h : Built bits) (hother : Built other) :
      Built (bits.bitAnd other)
  | bitOr {bits other : OlBitVec} (h : Built bits) (hother : Built other) : Built (bits.bitOr other)

/-!
# Vectors of at most the maximal size
-/

theorem asU16_eq {n : Nat} (h : n < 2 ^ 16) : asU16 n = n := Nat.mod_eq_of_lt h

theorem le_eight_mul_requiredBuckets (numBits : Nat) : numBits ≤ 8 * requiredBuckets numBits := by
  unfold requiredBuckets bucketSize
  split <;> omega

theorem requiredBuckets_le {numBits : Nat} (h : numBits < 2 ^ 16) :
    requiredBuckets numBits ≤ maxBuckets := by
  unfold requiredBuckets bucketSize maxBuckets
  split <;> omega

variable {bits : OlBitVec} {pos : Nat}

theorem iterOnes_eq (h : bits.numBuckets ≤ maxBuckets) : bits.iterOnes = Bits.ones bits.inner := by
  unfold iterOnes Bits.ones bucketSize
  rw [mul_comm]
  apply filter_congr
  intro index hidx
  have hlt : index < 2 ^ 16 := by
    have hin := mem_range.mp hidx
    unfold numBuckets maxBuckets at h
    omega
  rw [asU16_eq hlt]
  rfl

theorem mem_iterOnes (h : bits.numBuckets ≤ maxBuckets) {index : Nat} :
    index ∈ bits.iterOnes <-> bits.isSet index = true := by
  rw [iterOnes_eq h]
  exact Bits.mem_ones

theorem nodup_iterOnes (h : bits.numBuckets ≤ maxBuckets) : bits.iterOnes.Nodup := by
  rw [iterOnes_eq h]
  exact Bits.nodup_ones bits.inner

theorem lastSetBit_eq (h : bits.numBuckets ≤ maxBuckets) :
    bits.lastSetBit = Bits.lastSetBit bits.inner := by
  unfold lastSetBit
  cases hlast : Bits.lastSetBit bits.inner with
  | none => rfl
  | some last =>
    rw [Bits.lastSetBit_eq_getLast?] at hlast
    have hset := Bits.mem_ones.mp (mem_of_getLast? hlast)
    have hlt : last < 2 ^ 16 := by
      have hin := Bits.lt_of_getBit hset
      unfold numBuckets maxBuckets at h
      omega
    simp [asU16_eq hlt]

@[simp] theorem isSet_withNumBits (numBits pos : Nat) :
    (withNumBits numBits).isSet pos = false := by
  unfold isSet withNumBits
  rw [Bits.getBit_eq, getElem?_replicate]
  split <;> simp

@[simp] theorem numBuckets_withNumBits (numBits : Nat) :
    (withNumBits numBits).numBuckets = requiredBuckets numBits := by
  simp [numBuckets, withNumBits]

theorem numBuckets_set (bits : OlBitVec) (pos : Nat) :
    (bits.set pos).numBuckets = max bits.numBuckets (pos / 8 + 1) := by
  unfold numBuckets set bucketSize
  rw [Bits.length_setBit]
  split
  · rw [length_append, length_replicate]
    omega
  · omega

theorem isSet_set (bits : OlBitVec) (pos other : Nat) :
    (bits.set pos).isSet other = (bits.isSet other || decide (other = pos)) := by
  unfold isSet set bucketSize
  dsimp only
  split
  · rw [Bits.getBit_setBit (by rw [length_append, length_replicate]; omega),
      Bits.getBit_append_replicate]
  · rw [Bits.getBit_setBit (by omega)]

theorem isSet_bitAnd (bits other : OlBitVec) (pos : Nat) :
    (bits.bitAnd other).isSet pos = (bits.isSet pos && other.isSet pos) := by
  unfold isSet bitAnd
  rw [Bits.getBit_eq, Bits.getBit_eq, Bits.getBit_eq, ← Nat.testBit_and, ← UInt8.toNat_and,
    getElem?_map]
  rcases lt_or_ge (pos / 8) (min bits.inner.length other.inner.length) with hlt | hge
  · rw [getElem?_range hlt]
    rfl
  · rw [getElem?_eq_none (by rwa [length_range])]
    rcases le_total bits.inner.length other.inner.length with hle | hle
    · rw [getElem?_eq_none (show bits.inner.length ≤ pos / 8 by omega)]
      simp
    · rw [getElem?_eq_none (show other.inner.length ≤ pos / 8 by omega)]
      simp

theorem isSet_bitOr (bits other : OlBitVec) (pos : Nat) :
    (bits.bitOr other).isSet pos = (bits.isSet pos || other.isSet pos) := by
  unfold isSet bitOr
  rw [Bits.getBit_eq, Bits.getBit_eq, Bits.getBit_eq, ← Nat.testBit_or, ← UInt8.toNat_or,
    getElem?_map]
  rcases lt_or_ge (pos / 8) (max bits.inner.length other.inner.length) with hlt | hge
  · rw [getElem?_range hlt]
    rfl
  · rw [getElem?_eq_none (by rwa [length_range]), getElem?_eq_none (by omega),
      getElem?_eq_none (by omega)]
    simp

/-!
# The loop over flags
-/

theorem isSet_setFlags {flags} {index : Nat} (h : index + flags.length ≤ 2 ^ 16) :
    (setFlags bits index flags).isSet pos =
      (bits.isSet pos || (decide (index ≤ pos) && flags[pos - index]?.getD false)) := by
  induction flags generalizing bits index with
  | nil => simp [setFlags]
  | cons b flags ih =>
    rw [length_cons] at h
    rw [setFlags, ih (by omega), asU16_eq (by omega)]
    rcases Nat.lt_trichotomy pos index with hlt | heq | hgt
    · cases b <;> simp [isSet_set, show ¬ index ≤ pos by omega, show ¬ index + 1 ≤ pos by omega,
        show pos ≠ index by omega]
    · cases b <;> simp [isSet_set, heq]
    · rw [show pos - index = pos - (index + 1) + 1 by omega, getElem?_cons_succ]
      cases b <;> simp [isSet_set, show index + 1 ≤ pos by omega, show index ≤ pos by omega,
        show pos ≠ index by omega]

theorem numBuckets_setFlags_le {flags} {index buckets : Nat} (h : index + flags.length ≤ 2 ^ 16) :
    (setFlags bits index flags).numBuckets ≤ buckets <-> bits.numBuckets ≤ buckets ∧
      forall pos, flags[pos]? = some true -> (index + pos) / 8 + 1 ≤ buckets := by
  induction flags generalizing bits index with
  | nil => simp [setFlags]
  | cons b flags ih =>
    rw [length_cons] at h
    have hflags :
  (forall pos, (b :: flags)[pos]? = some true -> (index + pos) / 8 + 1 ≤ buckets) <->
      (b = true -> index / 8 + 1 ≤ buckets) ∧
        forall pos, flags[pos]? = some true -> (index + 1 + pos) / 8 + 1 ≤ buckets := by
      constructor
      · intro hall
        refine ⟨fun hb => hall 0 (by rw [hb]; rfl), fun pos hpos => ?_⟩
        rw [add_assoc, add_comm 1]
        exact hall (pos + 1) hpos
      · rintro ⟨hfirst, hrest⟩ (_ | pos) hpos
        · exact hfirst (Option.some.inj hpos)
        · rw [show index + (pos + 1) = index + 1 + pos by omega]
          exact hrest pos hpos
    rw [setFlags, ih (by omega), asU16_eq (by omega), hflags]
    cases b with
    | false => simp
    | true => simp only [if_true, numBuckets_set, Nat.max_le, and_assoc, true_implies]

theorem fromFlags_eq_ok {flags} {bits : OlBitVec}
    (h : (fromFlags flags : Outcome error OlBitVec) = .ok bits) :
    flags.length ≤ 2 ^ 16 ∧ bits = setFlags (withNumBits (asU16 flags.length)) 0 flags := by
  unfold fromFlags at h
  split at h
  · next hlen =>
    cases h
    exact ⟨hlen, rfl⟩
  · cases h

theorem numBuckets_fromFlags_le {flags} (h : flags.length ≤ 2 ^ 16) :
    (setFlags (withNumBits (asU16 flags.length)) 0 flags).numBuckets ≤ maxBuckets := by
  have hmod : asU16 flags.length < 2 ^ 16 := Nat.mod_lt _ (by decide)
  rw [numBuckets_setFlags_le (by omega), numBuckets_withNumBits]
  refine ⟨requiredBuckets_le hmod, fun pos hpos => ?_⟩
  have hlt := (List.getElem?_eq_some_iff.mp hpos).1
  unfold maxBuckets
  omega

theorem Built.numBuckets_le (h : Built bits) : bits.numBuckets ≤ maxBuckets := by
  induction h with
  | withNumBits h =>
    rw [numBuckets_withNumBits]
    exact requiredBuckets_le h
  | @fromBytes rawBytes bits h =>
    unfold OlBitVec.fromBytes at h
    split at h
    · next hle =>
      cases h
      exact hle
    · cases h
  | fromFlags h =>
    rcases fromFlags_eq_ok h with ⟨hlen, rfl⟩
    exact numBuckets_fromFlags_le hlen
  | @set bits pos h hpos ih =>
    rw [numBuckets_set]
    unfold maxBuckets at ih ⊢
    omega
  | bitAnd h hother ih =>
    simp only [numBuckets, OlBitVec.bitAnd, length_map, length_range] at ih ⊢
    omega
  | bitOr h hother ih ihother =>
    simp only [numBuckets, OlBitVec.bitOr, length_map, length_range] at ih ihother ⊢
    omega

theorem models_finite_sets (bits other : OlBitVec) (numBits : Nat) (flags : List Bool) :
    (Built bits -> (forall pos pos', (bits.set pos).isSet pos' = true <->
        bits.isSet pos' = true ∨ pos' = pos) ∧
      bits.iterOnes.Pairwise (· < ·) ∧
      (forall pos, pos ∈ bits.iterOnes <-> pos < 2 ^ 16 ∧ bits.isSet pos = true) ∧
      bits.countOnes = bits.iterOnes.length ∧ bits.lastSetBit = bits.iterOnes.getLast?) ∧
    (forall pos,
      ((bits.bitAnd other).isSet pos = true <-> bits.isSet pos = true ∧ other.isSet pos = true) ∧
      ((bits.bitOr other).isSet pos = true <-> bits.isSet pos = true ∨ other.isSet pos = true)) ∧
    ((forall pos, (withNumBits numBits).isSet pos = false) ∧
      forall buckets, numBits ≤ 8 * buckets <-> (withNumBits numBits).numBuckets ≤ buckets) ∧
    (flags.length ≤ 2 ^ 16 -> exists built, (fromFlags flags : Outcome Unit OlBitVec) = .ok built ∧
        (forall pos, built.isSet pos = flags[pos]?.getD false) ∧
        (built.numBuckets = (flags.length + 7) / 8 <->
          flags.length < 2 ^ 16 ∨ exists pos, 2 ^ 16 - 8 ≤ pos ∧ flags[pos]? = some true)) := by
  refine ⟨?_, ?_, ?_, ?_⟩
  · intro hbuilt
    have hmax := hbuilt.numBuckets_le
    refine ⟨fun pos pos' => ?_, ?_, fun pos => ?_, ?_, ?_⟩
    · rw [isSet_set, Bool.or_eq_true, decide_eq_true_eq]
    · rw [iterOnes_eq hmax]
      exact Bits.pairwise_ones bits.inner
    · rw [mem_iterOnes hmax, and_iff_right_of_imp]
      intro hset
      have hlt := Bits.lt_of_getBit hset
      unfold numBuckets maxBuckets at hmax
      omega
    · rw [iterOnes_eq hmax, Bits.length_ones]
      rfl
    · rw [iterOnes_eq hmax, lastSetBit_eq hmax, Bits.lastSetBit_eq_getLast?]
  · intro pos
    rw [isSet_bitAnd, isSet_bitOr, Bool.and_eq_true, Bool.or_eq_true]
    exact ⟨Iff.rfl, Iff.rfl⟩
  · refine ⟨isSet_withNumBits numBits, fun buckets => ?_⟩
    rw [numBuckets_withNumBits, requiredBuckets, bucketSize]
    split <;> omega
  · intro hlength
    refine ⟨_, if_pos hlength, fun pos => ?_, ?_⟩
    · rw [isSet_setFlags (by omega), isSet_withNumBits, Bool.false_or, Nat.sub_zero]
      simp
    · have hmax := numBuckets_fromFlags_le hlength
      have hle := @numBuckets_setFlags_le (withNumBits (asU16 flags.length)) flags 0
      simp only [Nat.zero_add, hlength, numBuckets_withNumBits, true_implies] at hle
      have hleast := hle.mp (Nat.le_refl _)
      rcases Nat.lt_or_ge flags.length (2 ^ 16) with hlt | hge
      · rw [asU16_eq hlt] at hleast hle ⊢
        have hcover := le_eight_mul_requiredBuckets flags.length
        refine iff_of_true (Nat.le_antisymm (hle.mpr ⟨?_, fun pos hpos => ?_⟩) ?_) (Or.inl hlt)
        · unfold requiredBuckets bucketSize
          split <;> omega
        · have hin := (List.getElem?_eq_some_iff.mp hpos).1
          omega
        · omega
      · -- The length wraps around to zero, so that only the flags make buckets.
        rw [show flags.length = 2 ^ 16 by omega] at hmax hleast hle ⊢
        unfold maxBuckets at hmax
        constructor
        · intro heq
          by_contra hnone
          rw [not_or, not_exists] at hnone
          have hsmall := hle.mpr ⟨show _ ≤ 8191 by decide, fun pos hpos => by
            have := hnone.2 pos
            rw [not_and] at this
            have hpos' : ¬ 2 ^ 16 - 8 ≤ pos := fun h => this h hpos
            omega⟩
          omega
        · rintro (hlt | ⟨pos, hpos, hflag⟩)
          · omega
          · have hbucket := hleast.2 pos hflag
            omega

theorem setFlags_replicate_false (bits : OlBitVec) (index count : Nat) :
    setFlags bits index (replicate count false) = bits := by
  induction count generalizing index with
  | zero => rfl
  | succ count ih => exact ih (index + 1)

/-- Without a flag that is set, the largest vector of flags has no bucket. -/
theorem fromFlags_longest :
    (fromFlags (replicate (2 ^ 16) false) : Outcome Unit OlBitVec) = .ok ⟨[]⟩ := by
  rw [fromFlags, length_replicate, if_pos (by decide), setFlags_replicate_false]
  rfl

end OlBitVec

end OpenLibra.Validators
