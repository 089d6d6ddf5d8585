import Mathlib.Algebra.BigOperators.Group.List.Basic
import Mathlib.Tactic.Ring

/-!
# Proportional parts, rounded down

A whole is divided in the proportion of weights, every part rounded down.  The parts never exceed
the whole.
-/

namespace OpenLibra.Numeric

def proportion (part weights whole : Nat) : Nat := part * whole / weights

variable {part weights whole : Nat}

theorem proportion_le (h : part ≤ weights) : proportion part weights whole ≤ whole :=
  Nat.div_le_of_le_mul (Nat.mul_le_mul_right _ h)

theorem proportion_mul_le (part weights whole : Nat) :
    proportion part weights whole * weights ≤ part * whole :=
  Nat.div_mul_le_self _ _

theorem sum_proportion_le (parts : List Nat) (weights whole : Nat) :
    (parts.map fun part => proportion part weights whole).sum ≤
      proportion parts.sum weights whole := by
  induction parts with
  | nil => simp [proportion]
  | cons part parts ih =>
    rw [List.map_cons, List.sum_cons, List.sum_cons]
    calc _ ≤ proportion part weights whole +
          proportion parts.sum weights whole := Nat.add_le_add_left ih _
      _ ≤ (part * whole + parts.sum * whole) / weights := Nat.div_add_div_le_add_div
      _ = proportion (part + parts.sum) weights whole := by rw [← add_mul, proportion]

theorem proportion_le_proportion {weights' whole' : Nat}
    (hpos : 0 < weights') (h : whole * weights' ≤ whole' * weights) :
    proportion part weights whole ≤ proportion part weights' whole' := by
  rcases Nat.eq_zero_or_pos weights with hzero | hweights
  · subst hzero
    simp [proportion]
  · apply (Nat.le_div_iff_mul_le hpos).mpr
    apply Nat.le_of_mul_le_mul_right _ hweights
    calc part * whole / weights * weights' * weights =
          part * whole / weights * weights * weights' := by ring
      _ ≤ part * whole * weights' := Nat.mul_le_mul_right _ (Nat.div_mul_le_self _ _)
      _ = part * (whole * weights') := mul_assoc _ _ _
      _ ≤ part * (whole' * weights) := Nat.mul_le_mul_left _ h
      _ = part * whole' * weights := (mul_assoc _ _ _).symm

variable {joined paid : Nat}

theorem proportion_le_of_join (h : joined * whole ≤ paid * weights) :
    proportion part weights whole ≤ proportion part (weights + joined) (whole + paid) := by
  rcases Nat.eq_zero_or_pos weights with hzero | hweights
  · subst hzero
    simp [proportion]
  · apply proportion_le_proportion (Nat.add_pos_left hweights _)
    rw [mul_add, add_mul, mul_comm whole joined]
    exact Nat.add_le_add_left h _

theorem proportion_le_of_leave {left taken : Nat}
    (hleft : left < weights) (h : taken * weights ≤ left * whole) :
    proportion part weights whole ≤ proportion part (weights - left) (whole - taken) := by
  apply proportion_le_proportion (Nat.sub_pos_of_lt hleft)
  rw [Nat.mul_sub, Nat.sub_mul, mul_comm whole left]
  exact Nat.sub_le_sub_left h _

theorem proportion_join_le (h : joined * whole ≤ paid * weights) :
    proportion joined (weights + joined) (whole + paid) ≤ paid := by
  apply Nat.div_le_of_le_mul
  rw [mul_add, add_mul, mul_comm weights paid]
  exact Nat.add_le_add_right h _

end OpenLibra.Numeric
