import OpenLibra.Move.Vector

/-!
# Bit vectors of the standard library

`shift_left` writes the bits in place while it reads them: the read index is
never behind the write index.
-/

namespace OpenLibra.MoveStd

open Rust Move

/-- The field `length` never changes and is the length of the field `bit_field`. -/
abbrev BitVector (length : Nat) := Vector Bool length

namespace BitVector

def eIndex : Nat := 0x20000

variable {length : Nat} (self : BitVector length)

/-- A write through `borrow_mut`. -/
def write (i : Nat) (bit : Bool) : MoveResult (BitVector length) :=
  if h : i < length then .ok (Vector.set self i bit h) else .err Move.Vector.operationError

def set (bitIndex : Nat) : MoveResult (BitVector length) := do
  ensure (bitIndex < length) (.code eIndex)
  self.write bitIndex true

def unset (bitIndex : Nat) : MoveResult (BitVector length) := do
  ensure (bitIndex < length) (.code eIndex)
  self.write bitIndex false

def isIndexSet (bitIndex : Nat) : MoveResult Bool :=
  if h : bitIndex < length then .ok self[bitIndex] else .err (.code eIndex)

/-- The loops that clear the bits from an index on. -/
def clearFrom (clear : BitVector length -> Nat -> MoveResult (BitVector length))
    (self : BitVector length) (i : Nat) : MoveResult (BitVector length) :=
  if i < length then do
    let self <- clear self i
    clearFrom clear self (i + 1)
  else return self
termination_by length - i

def moveBit (amount : Nat) (self : BitVector length) (i : Nat) :
    MoveResult (BitVector length) := do
  if <- self.isIndexSet i then self.set (<- Move.Vector.indexSub i amount)
  else self.unset (<- Move.Vector.indexSub i amount)

def moveBits (amount : Nat) (self : BitVector length) (i : Nat) : MoveResult (BitVector length) :=
  if i < length then do
    let self <- moveBit amount self i
    moveBits amount self (i + 1)
  else return self
termination_by length - i

def shiftLeft (amount : Nat) : MoveResult (BitVector length) :=
  if length ≤ amount then clearFrom (write · · false) self 0
  else do
    let moved <- moveBits amount self amount
    clearFrom unset moved (<- Move.Vector.indexSub length amount)

def scan (self : BitVector length) (index : Nat) : MoveResult Nat :=
  if index < length then do
    if <- self.isIndexSet index then self.scan (index + 1) else return index
  else return index
termination_by length - index

def longestSetSequenceStartingAt (startIndex : Nat) : MoveResult Nat := do
  ensure (startIndex < length) (.code eIndex)
  Move.Vector.indexSub (<- self.scan startIndex) startIndex

/-- The bit, false behind the end. -/
def bit (i : Nat) : Bool := self[i]?.getD false

variable {self : BitVector length} {i : Nat}

theorem ext_bit {other : BitVector length} (h : forall i, self.bit i = other.bit i) :
    self = other := by
  apply Vector.ext
  intro i hi
  have hbit := h i
  simpa [bit, hi] using hbit

theorem bit_of_le (h : length ≤ i) : self.bit i = false := by
  simp [bit, h]

theorem isIndexSet_eq_ok (h : i < length) : self.isIndexSet i = .ok (self.bit i) := by
  simp [isIndexSet, bit, h]

theorem exists_write (self : BitVector length) (h : i < length) (b : Bool) :
    exists next, self.write i b = .ok next ∧
      forall j, next.bit j = if j = i then b else self.bit j := by
  refine ⟨_, dif_pos h, fun j => ?_⟩
  grind [bit]

theorem exists_clearFrom (self : BitVector length) (i : Nat)
    {clear : BitVector length -> Nat -> MoveResult (BitVector length)}
    (hclear : forall self i, i < length -> clear self i = self.write i false) :
    exists cleared, clearFrom clear self i = .ok cleared ∧
      forall j, cleared.bit j = if i ≤ j then false else self.bit j := by
  induction hleft : length - i generalizing self i with
  | zero =>
    rw [clearFrom, if_neg (by omega)]
    refine ⟨self, rfl, fun j => ?_⟩
    split
    · exact bit_of_le (by omega)
    · rfl
  | succ left ih =>
    have hi : i < length := by omega
    rcases exists_write self hi false with ⟨next, hwrite, hnext⟩
    rcases ih next (i + 1) (by omega) with ⟨cleared, hrest, hcleared⟩
    rw [clearFrom, if_pos hi, hclear self i hi, hwrite, ok_bind]
    refine ⟨cleared, hrest, fun j => ?_⟩
    grind

theorem exists_moveBit (self : BitVector length) {amount} (hi : i < length) (hamt : amount ≤ i) :
    exists next, moveBit amount self i = .ok next ∧
      forall j, next.bit j = if j + amount = i then self.bit i else self.bit j := by
  rcases self.exists_write (i := i - amount) (by omega) (self.bit i)
    with ⟨next, hwrite, hnext⟩
  refine ⟨next, ?_, fun j => ?_⟩
  · rw [moveBit, isIndexSet_eq_ok hi, ok_bind, Move.Vector.indexSub_eq_ok hamt]
    have htgt : i - amount < length := by omega
    cases hbit : self.bit i <;> rw [hbit] at hwrite <;>
      simp [set, unset, ensure, htgt, hwrite]
  · rw [hnext]
    congr 1
    grind

/-- The bits from the read index on have not been written yet. -/
theorem exists_moveBits (self : BitVector length) {amount} (hi : amount ≤ i) :
    exists moved, moveBits amount self i = .ok moved ∧ forall j, moved.bit j =
        if i ≤ j + amount ∧ j + amount < length then self.bit (j + amount) else self.bit j := by
  induction hleft : length - i generalizing self i with
  | zero =>
    rw [moveBits, if_neg (by omega)]
    exact ⟨self, rfl, fun j => by rw [if_neg (by omega)]⟩
  | succ left ih =>
    rcases self.exists_moveBit (i := i) (by omega) hi with ⟨next, hmove, hnext⟩
    rcases ih next (i := i + 1) (by omega) (by omega) with ⟨moved, hrest, hmoved⟩
    rw [moveBits, if_pos (by omega), hmove, ok_bind]
    refine ⟨moved, hrest, fun j => ?_⟩
    grind

theorem exists_shiftLeft (self : BitVector length) (amount : Nat) :
    exists shifted, self.shiftLeft amount = .ok shifted ∧
      forall j, shifted.bit j = self.bit (j + amount) := by
  unfold shiftLeft
  split
  · rcases self.exists_clearFrom 0 (fun _ _ _ => rfl) with ⟨cleared, hclear, hcleared⟩
    refine ⟨cleared, hclear, fun j => ?_⟩
    rw [hcleared, if_pos (Nat.zero_le j), bit_of_le (by omega)]
  · rcases self.exists_moveBits (le_refl amount) with ⟨moved, hmove, hmoved⟩
    have hunset : forall (self : BitVector length) i, i < length ->
      self.unset i = self.write i false := by
      intro self i hi
      simp [unset, ensure, hi]
    rcases moved.exists_clearFrom (length - amount) hunset with ⟨cleared, hclear, hcleared⟩
    rw [hmove, ok_bind, Move.Vector.indexSub_eq_ok (by omega), ok_bind]
    refine ⟨cleared, hclear, fun j => ?_⟩
    rw [hcleared, hmoved]
    split
    · rw [bit_of_le (by omega)]
    · rw [if_pos (by omega)]

theorem exists_scan (self : BitVector length) {index} (h : index ≤ length) :
    exists stop, self.scan index = .ok stop ∧ index ≤ stop ∧ stop ≤ length ∧
      (forall j, index ≤ j -> j < stop -> self.bit j = true) ∧ self.bit stop = false := by
  induction hleft : length - index generalizing index with
  | zero =>
    rw [scan, if_neg (by omega)]
    exact ⟨index, rfl, le_refl _, h, by omega, bit_of_le (by omega)⟩
  | succ left ih =>
    rw [scan, if_pos (by omega), isIndexSet_eq_ok (by omega), ok_bind]
    cases hbit : self.bit index with
    | true =>
      rcases ih (by omega : index + 1 ≤ length) (by omega) with
        ⟨stop, hscan, hle, hstop, hset, hend⟩
      refine ⟨stop, hscan, by omega, hstop, fun j hj hjstop => ?_, hend⟩
      rcases Nat.eq_or_lt_of_le hj with rfl | hlt
      · exact hbit
      · exact hset j hlt hjstop
    | false => exact ⟨index, rfl, le_refl _, h, by omega, hbit⟩

/-- A shift moves every bit down, and two shifts are one by the sum.  A scan finds the largest
number of set bits from its start on. -/
theorem shiftLeft_scan_exact (self : BitVector length) (amount more startIndex : Nat) :
    (exists shifted, self.shiftLeft amount = .ok shifted ∧ forall i, i < length ->
      shifted.bit i = if i + amount < length then self.bit (i + amount) else false) ∧
    (self.shiftLeft amount >>= (shiftLeft · more)) = self.shiftLeft (amount + more) ∧
    (startIndex < length -> exists k, self.longestSetSequenceStartingAt startIndex = .ok k ∧
      forall n, n ≤ k <-> startIndex + n ≤ length ∧
        forall j, j < n -> self.bit (startIndex + j) = true) ∧
    (length ≤ startIndex ->
      self.longestSetSequenceStartingAt startIndex = .err (.code eIndex)) := by
  rcases self.exists_shiftLeft amount with ⟨shifted, hshift, hshifted⟩
  refine ⟨⟨shifted, hshift, fun i _ => ?_⟩, ?_, fun hstart => ?_, fun hstart => ?_⟩
  · rw [hshifted]
    split
    · rfl
    · exact bit_of_le (by omega)
  · rcases shifted.exists_shiftLeft more with ⟨twice, htwice, hbits⟩
    rcases self.exists_shiftLeft (amount + more) with ⟨once, honce, honceBits⟩
    rw [hshift, ok_bind, htwice, honce]
    congr 1
    apply ext_bit
    intro i
    rw [hbits, hshifted, honceBits, Nat.add_assoc, Nat.add_comm more]
  · rcases self.exists_scan (Nat.le_of_lt hstart) with ⟨stop, hscan, hle, hstop, hset, hend⟩
    refine ⟨stop - startIndex, ?_, fun n => ⟨fun hn => ⟨by omega, fun j hj => ?_⟩, ?_⟩⟩
    · simp [longestSetSequenceStartingAt, ensure, hstart, hscan, Move.Vector.indexSub, hle]
    · exact hset _ (by omega) (by omega)
    · rintro ⟨_, hall⟩
      -- a longer sequence would include the bit at which the scan stopped
      by_contra hlong
      have hstopSet := hall (stop - startIndex) (by omega)
      rw [Nat.add_sub_cancel' hle, hend] at hstopSet
      cases hstopSet
  · simp [longestSetSequenceStartingAt, ensure, Nat.not_lt.mpr hstart]

end BitVector
end OpenLibra.MoveStd
