import Mathlib.Data.Nat.Bitwise

/-!
# Smearing the highest bit

Or-ing a number with its shifts by doubling distances sets every bit below the
highest one.
-/

namespace OpenLibra.Bits

/-- Every bit is set that has a set bit of `v` at most `width - 1` above. -/
def Smeared (width v n : Nat) : Prop :=
  forall j, n.testBit j = true <-> exists d, d < width ∧ v.testBit (j + d) = true

variable {width v n : Nat}

theorem Smeared.self (v : Nat) : Smeared 1 v v := by
  intro j
  simp

theorem Smeared.double (h : Smeared width v n) : Smeared (2 * width) v (n ||| n >>> width) := by
  intro j
  rw [Nat.testBit_or, Bool.or_eq_true, Nat.testBit_shiftRight, h, h]
  constructor
  · rintro (⟨d, hd, hbit⟩ | ⟨d, hd, hbit⟩)
    · exact ⟨d, by omega, hbit⟩
    · exact ⟨width + d, by omega, by rwa [← add_assoc, add_comm j]⟩
  · rintro ⟨d, hd, hbit⟩
    rcases Nat.lt_or_ge d width with hlt | hge
    · exact .inl ⟨d, hlt, hbit⟩
    · exact .inr ⟨d - width, by omega, by rwa [show width + j + (d - width) = j + d by omega]⟩

/-- The smearing of a `u64`. -/
def smearOnes (v : Nat) : Nat :=
  let n := v ||| v >>> 1
  let n := n ||| n >>> 2
  let n := n ||| n >>> 4
  let n := n ||| n >>> 8
  let n := n ||| n >>> 16
  n ||| n >>> 32

theorem smeared_smearOnes (v : Nat) : Smeared 64 v (smearOnes v) :=
  (Smeared.self v).double.double.double.double.double.double

theorem smearOnes_eq (hpos : v ≠ 0) (hv : v < 2 ^ 64) : smearOnes v = 2 ^ (Nat.log2 v + 1) - 1 := by
  have hlog : Nat.log2 v < 64 := (Nat.log2_lt hpos).mpr hv
  apply Nat.eq_of_testBit_eq
  intro j
  rw [Nat.testBit_two_pow_sub_one, Bool.eq_iff_iff, smeared_smearOnes v j, decide_eq_true_eq]
  constructor
  · rintro ⟨d, _, hbit⟩
    by_contra hj
    rw [Nat.testBit_lt_two_pow (lt_of_lt_of_le Nat.lt_log2_self
      (Nat.pow_le_pow_right (by omega) (by omega)))] at hbit
    cases hbit
  · intro hj
    refine ⟨Nat.log2 v - j, by omega, ?_⟩
    rw [show j + (Nat.log2 v - j) = Nat.log2 v by omega]
    exact Nat.testBit_log2 hpos

end OpenLibra.Bits
