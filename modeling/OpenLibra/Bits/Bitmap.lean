import Mathlib.Algebra.BigOperators.Group.List.Basic
import Mathlib.Data.List.Induction
import Mathlib.Data.List.Nodup
import Mathlib.Data.List.Pairwise
import Mathlib.Data.Nat.Bitwise
import Mathlib.Tactic.IntervalCases

/-!
# Bitmaps in bytes

A list of bytes read as a set of positions, most significant bit of the first byte first.
-/

namespace OpenLibra.Bits

open List

/-!
# Bits of one byte
-/

def mask (pos : Nat) : UInt8 := 128 >>> UInt8.ofNat pos

variable (byte : UInt8)

def byteCountOnes : Nat := (range 8).countP fun k => byte.toNat.testBit k

def trailingZeros : Nat := ((range 8).find? fun k => byte.toNat.testBit k).getD 8

def byteOnes : List Nat := (range 8).filter fun pos => byte.toNat.testBit (7 - pos)

variable {pos index : Nat} {bytes : List UInt8}

theorem toNat_mask (hpos : pos < 8) : (mask pos).toNat = 2 ^ (7 - pos) := by
  interval_cases pos <;> rfl

theorem and_mask_bne_zero (hpos : pos < 8) :
    (byte &&& mask pos != 0) = byte.toNat.testBit (7 - pos) := by
  have hzero : (byte &&& mask pos = 0) <-> byte.toNat &&& 2 ^ (7 - pos) = 0 := by
    rw [← UInt8.toNat_inj, UInt8.toNat_and, toNat_mask hpos]
    rfl
  rw [Nat.and_two_pow] at hzero
  cases hbit : byte.toNat.testBit (7 - pos) with
  | true =>
    rw [hbit] at hzero
    have hne : byte &&& mask pos ≠ 0 := by
      intro h
      have hpow := hzero.mp h
      simp at hpow
    simpa using hne
  | false =>
    rw [hbit] at hzero
    have h : byte &&& mask pos = 0 := hzero.mpr (by simp)
    simp [h]

theorem testBit_or_mask {other : Nat} (hpos : pos < 8) (hother : other < 8) :
    (byte ||| mask pos).toNat.testBit (7 - other) =
      (byte.toNat.testBit (7 - other) || decide (other = pos)) := by
  rw [UInt8.toNat_or, toNat_mask hpos, Nat.testBit_or, Nat.testBit_two_pow]
  congr 1
  apply decide_eq_decide.mpr
  omega

theorem length_byteOnes : (byteOnes byte).length = byteCountOnes byte := by
  have hall : forall n : Fin 256,
    ((range 8).filter fun pos => n.val.testBit (7 - pos)).length =
      (range 8).countP fun k => n.val.testBit k := by
    decide +kernel
  exact hall ⟨byte.toNat, byte.toNat_lt⟩

theorem getLast?_byteOnes (byte : UInt8) : (byteOnes byte).getLast? =
    if byte = 0 then none else some (7 - trailingZeros byte) := by
  have hall : forall n : Fin 256,
    ((range 8).filter fun pos => n.val.testBit (7 - pos)).getLast? = if n.val = 0 then none
      else some
        (7 - ((range 8).find? fun k => n.val.testBit k).getD 8) := by
    decide +kernel
  have hzero : byte = 0 <-> byte.toNat = 0 := by
    rw [← UInt8.toNat_inj]
    rfl
  simp only [hzero]
  exact hall ⟨byte.toNat, byte.toNat_lt⟩

theorem trailingZeros_lt {byte : UInt8} (hne : byte ≠ 0) : trailingZeros byte < 8 := by
  have hall : forall n : Fin 256, n.val ≠ 0 ->
    ((range 8).find? fun k => n.val.testBit k).getD 8 < 8 := by
    decide +kernel
  apply hall ⟨byte.toNat, byte.toNat_lt⟩
  intro h
  exact hne (UInt8.toNat_inj.mp h)

/-!
# Bitmaps
-/

def getBit (bytes : List UInt8) (index : Nat) : Bool :=
  match bytes[index / 8]? with
  | none => false
  | some byte => byte &&& mask (index - index / 8 * 8) != 0

def setBit (bytes : List UInt8) (index : Nat) : List UInt8 :=
  bytes.modify (index / 8) fun byte => byte ||| mask (index - index / 8 * 8)

def countOnes (bytes : List UInt8) : Nat := (bytes.map byteCountOnes).sum

def lastSetBit (bytes : List UInt8) : Option Nat :=
  (bytes.reverse.zipIdx.find? fun entry => entry.1 != 0).map fun entry =>
    8 * (bytes.length - entry.2) - trailingZeros entry.1 - 1

def ones (bytes : List UInt8) : List Nat := (range (8 * bytes.length)).filter (getBit bytes)

theorem getBit_eq (bytes : List UInt8) (index : Nat) : getBit bytes index =
    (bytes[index / 8]?.getD 0).toNat.testBit (7 - index % 8) := by
  have hpos : index - index / 8 * 8 = index % 8 := by omega
  unfold getBit
  cases bytes[index / 8]? with
  | none => simp
  | some byte =>
    rw [hpos]
    exact and_mask_bne_zero byte (Nat.mod_lt _ (by decide))

theorem getBit_append_replicate (bytes : List UInt8) (count index : Nat) :
    getBit (bytes ++ replicate count 0) index = getBit bytes index := by
  rw [getBit_eq, getBit_eq, getElem?_append]
  split
  · rfl
  · next h =>
    rw [getElem?_eq_none (not_lt.mp h), getElem?_replicate]
    split <;> rfl

theorem getBit_eq_false (h : 8 * bytes.length ≤ index) : getBit bytes index = false := by
  have hnone : bytes[index / 8]? = none := by
    apply getElem?_eq_none
    omega
  simp [getBit, hnone]

theorem lt_of_getBit (h : getBit bytes index = true) : index < 8 * bytes.length := by
  by_contra hle
  rw [getBit_eq_false (not_lt.mp hle)] at h
  cases h

@[simp] theorem mem_ones : index ∈ ones bytes <-> getBit bytes index = true := by
  unfold ones
  rw [mem_filter, mem_range]
  constructor
  · intro h
    exact h.2
  · intro h
    exact ⟨lt_of_getBit h, h⟩

theorem pairwise_ones (bytes : List UInt8) : (ones bytes).Pairwise (fun a b => a < b) :=
  pairwise_lt_range.filter _

theorem nodup_ones (bytes : List UInt8) : (ones bytes).Nodup := nodup_range.filter _

@[simp] theorem length_setBit (bytes : List UInt8) (index : Nat) :
    (setBit bytes index).length = bytes.length := by
  simp [setBit]

theorem getBit_setBit (h : index < 8 * bytes.length) (other : Nat) :
    getBit (setBit bytes index) other = (getBit bytes other || decide (other = index)) := by
  have hpos : index - index / 8 * 8 = index % 8 := by omega
  rw [getBit_eq, getBit_eq]
  unfold setBit
  rw [getElem?_modify, hpos]
  have hlt : other % 8 < 8 := Nat.mod_lt _ (by decide)
  by_cases hbucket : index / 8 = other / 8
  · have hin : other / 8 < bytes.length := by omega
    rw [getElem?_eq_getElem hin]
    simp only [hbucket, if_true, Option.map_eq_map, Option.map_some, Option.getD_some]
    rw [testBit_or_mask _ (Nat.mod_lt _ (by decide)) hlt]
    congr 1
    apply decide_eq_decide.mpr
    omega
  · have hne : other ≠ index := by
      intro heq
      exact hbucket (by rw [heq])
    simp [hbucket, hne]

theorem ones_setBit_perm (h : index < 8 * bytes.length) (hclear : getBit bytes index = false) :
    (ones (setBit bytes index)).Perm (index :: ones bytes) := by
  have hnew : index ∉ ones bytes := by simp [hclear]
  apply (perm_ext_iff_of_nodup (nodup_ones _) ((nodup_ones bytes).cons hnew)).mpr
  intro _
  simp [getBit_setBit h, or_comm]

/-!
# Walking along the set positions
-/

def onesFrom (bytes : List UInt8) (index : Nat) : List Nat :=
  (range' index (8 * bytes.length - index)).filter (getBit bytes)

theorem onesFrom_zero (bytes : List UInt8) : onesFrom bytes 0 = ones bytes := by
  unfold onesFrom ones
  rw [Nat.sub_zero, range_eq_range']

theorem onesFrom_of_le (h : 8 * bytes.length ≤ index) : onesFrom bytes index = [] := by
  simp [onesFrom, Nat.sub_eq_zero_of_le h]

theorem range'_eq_cons (h : index < 8 * bytes.length) : range' index (8 * bytes.length - index) =
    index :: range' (index + 1) (8 * bytes.length - (index + 1)) := by
  rw [← range'_succ]
  congr 1
  omega

theorem onesFrom_of_set (h : getBit bytes index = true) :
    onesFrom bytes index = index :: onesFrom bytes (index + 1) := by
  unfold onesFrom
  rw [range'_eq_cons (lt_of_getBit h), filter_cons_of_pos h]

theorem onesFrom_of_clear (hlt : index < 8 * bytes.length) (h : getBit bytes index = false) :
    onesFrom bytes index = onesFrom bytes (index + 1) := by
  unfold onesFrom
  rw [range'_eq_cons hlt, filter_cons_of_neg (by simp [h])]

/-!
# Appending a byte
-/

theorem getBit_append_left {byte : UInt8} (h : index < 8 * bytes.length) :
    getBit (bytes ++ [byte]) index = getBit bytes index := by
  rw [getBit_eq, getBit_eq, getElem?_append_left (by omega)]

theorem getBit_append_right (bytes : List UInt8) (byte : UInt8) (hpos : pos < 8) :
    getBit (bytes ++ [byte]) (8 * bytes.length + pos) = byte.toNat.testBit (7 - pos) := by
  have hdiv : (8 * bytes.length + pos) / 8 = bytes.length := by omega
  have hmod : (8 * bytes.length + pos) % 8 = pos := by omega
  rw [getBit_eq, hdiv, hmod]
  simp

theorem ones_append_singleton (bytes : List UInt8) (byte : UInt8) : ones (bytes ++ [byte]) =
    ones bytes ++ (byteOnes byte).map fun pos => 8 * bytes.length + pos := by
  have hlen : 8 * (bytes ++ [byte]).length = 8 * bytes.length + 8 := by simp [mul_add]
  unfold ones byteOnes
  rw [hlen, range_add, filter_append, filter_map]
  congr 1
  · apply filter_congr
    intro _ hidx
    exact getBit_append_left (mem_range.mp hidx)
  · congr 1
    apply filter_congr
    intro _ hpos
    exact getBit_append_right bytes byte (mem_range.mp hpos)

theorem length_ones (bytes : List UInt8) : (ones bytes).length = countOnes bytes := by
  induction bytes using reverseRecOn with
  | nil => rfl
  | append_singleton bytes byte ih =>
    rw [ones_append_singleton, length_append, length_map, ih, length_byteOnes]
    simp [countOnes]

theorem lastSetBit_append_singleton (bytes : List UInt8) (byte : UInt8) :
    lastSetBit (bytes ++ [byte]) = if byte = 0 then lastSetBit bytes
      else some (8 * bytes.length + 7 - trailingZeros byte) := by
  unfold lastSetBit
  rw [reverse_append, reverse_singleton, singleton_append, zipIdx_cons, find?_cons]
  by_cases hzero : byte = 0
  · -- The search goes on in the bytes before, its index shifted by one.
    rw [if_pos hzero]
    simp only [hzero, bne_self_eq_false]
    rw [zipIdx_succ, find?_map, Option.map_map]
    simp only [Function.comp_def, length_append, length_singleton, Nat.add_sub_add_right]
  · have hbne : (byte != 0) = true := by simpa using hzero
    have hlt := trailingZeros_lt hzero
    rw [if_neg hzero]
    simp only [hbne, Option.map_some, length_append, length_singleton, Option.some.injEq]
    omega

/-- The last set bit is the greatest set position. -/
theorem lastSetBit_eq_getLast? (bytes : List UInt8) : lastSetBit bytes = (ones bytes).getLast? := by
  induction bytes using reverseRecOn with
  | nil => rfl
  | append_singleton bytes byte ih =>
    rw [lastSetBit_append_singleton, ones_append_singleton,
      getLast?_append, getLast?_map, getLast?_byteOnes, ih]
    by_cases hzero : byte = 0
    · simp [hzero]
    · have hlt := trailingZeros_lt hzero
      rw [if_neg hzero, if_neg hzero]
      simp only [Option.map_some, Option.some_or, Option.some.injEq]
      omega

theorem forall_mem_ones_lt_iff {bound : Nat} :
    (forall index, index ∈ ones bytes -> index < bound) <->
      forall last, lastSetBit bytes = some last -> last < bound := by
  rw [lastSetBit_eq_getLast?]
  constructor
  · intro hall last hlast
    exact hall last (mem_of_getLast? hlast)
  · intro hlast index hidx
    have hne : ones bytes ≠ [] := ne_nil_of_mem hidx
    have hle : index ≤ (ones bytes).getLast hne := by
      have hpair := (pairwise_ones bytes).imp le_of_lt
      exact hpair.rel_getLast_of_rel_getLast_getLast hidx (le_refl _)
    exact lt_of_le_of_lt hle (hlast _ (getLast?_eq_some_getLast hne))

end OpenLibra.Bits
