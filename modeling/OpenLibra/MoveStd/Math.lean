import Mathlib.Tactic.Ring
import OpenLibra.Move.Semantics
import OpenLibra.Transition.WhileLoop

/-!
# Powers

`math64::pow` and `math128::pow` square and multiply.  Every product on the way
divides the power, so none of them overflows unless the power does.
-/

namespace OpenLibra.MoveStd

open Rust Move Transition

variable {width : Nat}

/-- The locals of the loop. -/
structure PowState (width : Nat) where
  p : BitVec width
  n : BitVec width
  e : BitVec width

/-- `if (e % 2 == 1) p = p * n`. -/
def multiplied (s : PowState width) : MoveResult (BitVec width) :=
  if s.e.toNat % 2 = 1 then mul s.p s.n else .ok s.p

def powBody (s : PowState width) : MoveResult (PowState width) := do
  let p <- multiplied s
  let n <- mul s.n s.n
  return { p := p, n := n, e := s.e / BitVec.ofNat width 2 }

/-- With the number of iterations that the loop may take. -/
def pow (iterations : Nat) (n e : BitVec width) : Option (MoveResult (BitVec width)) :=
  if e = BitVec.ofNat width 0 then some (.ok (BitVec.ofNat width 1))
  else (whileLoop (fun s => decide (1 < s.e.toNat)) powBody iterations
    { p := BitVec.ofNat width 1, n := n, e := e }).map fun result => do
      let s <- result
      mul s.p s.n

namespace Math64

def pow (iterations : Nat) (n e : U64) : Option (MoveResult U64) := MoveStd.pow iterations n e

end Math64

namespace Math128

def pow (iterations : Nat) (n e : U128) : Option (MoveResult U128) := MoveStd.pow iterations n e

end Math128

theorem fit_eq_err {result : Nat} (h : 2 ^ width ≤ result) :
    fit width result = .err .arithmeticError :=
  if_neg (not_lt.mpr h)

theorem mul_eq_err {a b : BitVec width} (h : 2 ^ width ≤ a.toNat * b.toNat) :
    mul a b = .err .arithmeticError :=
  fit_eq_err h

/-- One step keeps the power, or it fails because the power does not fit.  The accumulator must
not be zero: an overflow of the square says nothing about a power times zero. -/
theorem powBody_eq {s : PowState width} (hs : s.p.toNat ≠ 0 ∨ s.n.toNat = 0)
    (he : 1 < s.e.toNat) (hwidth : 1 < width) :
    (powBody s = .err .arithmeticError ∧ 2 ^ width ≤ s.p.toNat * s.n.toNat ^ s.e.toNat) ∨
      exists s', powBody s = .ok s' ∧ (s'.p.toNat ≠ 0 ∨ s'.n.toNat = 0) ∧
        s'.e.toNat = s.e.toNat / 2 ∧
        s'.p.toNat * s'.n.toNat ^ s'.e.toNat = s.p.toNat * s.n.toNat ^ s.e.toNat := by
  rcases s with ⟨p, n, e⟩
  dsimp only at hs he ⊢
  have hhalf : (e / BitVec.ofNat width 2).toNat = e.toNat / 2 := by
    have htwo : 2 < 2 ^ width :=
      lt_of_lt_of_le (by decide) (Nat.pow_le_pow_right (by decide) hwidth)
    rw [BitVec.toNat_udiv, BitVec.toNat_ofNat, Nat.mod_eq_of_lt htwo]
  have hsplit : p.toNat * n.toNat ^ e.toNat =
    p.toNat * n.toNat ^ (e.toNat % 2) * (n.toNat * n.toNat) ^ (e.toNat / 2) := by
    rw [← Nat.pow_two, ← pow_mul, mul_assoc, ← pow_add, Nat.mod_add_div]
  have hfirst : multiplied ⟨p, n, e⟩ = fit width (p.toNat * n.toNat ^ (e.toNat % 2)) := by
    unfold multiplied
    rcases Nat.mod_two_eq_zero_or_one e.toNat with hparity | hparity
    · rw [hparity, pow_zero, mul_one, fit_eq_ok_iff.mpr rfl]
      rfl
    · rw [hparity, pow_one, if_pos rfl]
      rfl
  have hzero (h : n.toNat = 0) : p.toNat * n.toNat ^ (e.toNat % 2) < 2 ^ width := by
    have hp := p.isLt
    rcases Nat.mod_two_eq_zero_or_one e.toNat with hparity | hparity
    · rwa [hparity, pow_zero, mul_one]
    · rw [hparity, h, pow_one, mul_zero]
      exact Nat.two_pow_pos width
  unfold powBody
  dsimp only
  rw [hfirst, hsplit]
  by_cases hprod : p.toNat * n.toNat ^ (e.toNat % 2) < 2 ^ width
  · rcases exists_fit hprod with ⟨p', hp', hpval⟩
    rw [hp', ok_bind]
    by_cases hsquare : n.toNat * n.toNat < 2 ^ width
    · rcases exists_fit hsquare with ⟨n', hn', hnval⟩
      refine .inr ⟨⟨p', n', e / BitVec.ofNat width 2⟩, ?_, ?_, hhalf, ?_⟩
      · rw [mul, hn']
        rfl
      · rw [hpval, hnval]
        rcases hs with hp | hn
        · by_cases hn : n.toNat = 0
          · exact .inr (by rw [hn])
          · exact .inl (Nat.mul_ne_zero hp (pow_ne_zero _ hn))
        · exact .inr (by rw [hn])
      · dsimp only
        rw [hpval, hnval, hhalf]
    · have hn : n.toNat ≠ 0 := by
        intro hn
        simp [hn] at hsquare
      have hp := hs.resolve_right hn
      refine .inl ⟨?_, ?_⟩
      · rw [mul_eq_err (not_lt.mp hsquare)]
        rfl
      · have hone : 0 < p.toNat * n.toNat ^ (e.toNat % 2) :=
          Nat.pos_of_ne_zero (Nat.mul_ne_zero hp (pow_ne_zero _ hn))
        exact le_trans (not_lt.mp hsquare) (le_trans (Nat.le_pow (by omega))
          (Nat.le_mul_of_pos_left _ hone))
  · have hn : n.toNat ≠ 0 := fun hn => hprod (hzero hn)
    refine .inl ⟨?_, ?_⟩
    · rw [fit_eq_err (not_lt.mp hprod)]
      rfl
    · exact le_trans (not_lt.mp hprod) (Nat.le_mul_of_pos_right _
        (Nat.pos_of_ne_zero (pow_ne_zero _ (Nat.mul_ne_zero hn hn))))

theorem loop_eq (hwidth : 1 < width) {iterations : Nat} {s : PowState width}
    (hs : s.p.toNat ≠ 0 ∨ s.n.toNat = 0) (he : 0 < s.e.toNat)
    (hiterations : s.e.toNat < 2 ^ (iterations + 1)) :
    ((whileLoop (fun s => decide (1 < s.e.toNat)) powBody iterations s).map fun result => do
        let s <- result
        mul s.p s.n) = some (fit width (s.p.toNat * s.n.toNat ^ s.e.toNat)) := by
  induction iterations generalizing s with
  | zero =>
    have hone : s.e.toNat = 1 := by omega
    simp [whileLoop, hone, mul]
  | succ iterations ih =>
    -- The exponent halves, so an iteration takes one bit from the bound.
    rw [whileLoop]
    by_cases hguard : 1 < s.e.toNat
    · rcases powBody_eq hs hguard hwidth with ⟨hbody, hlarge⟩ | ⟨s', hbody, hs', he', hpower⟩
      · simp [hguard, hbody, fit_eq_err hlarge]
      · simp only [hguard, decide_true, if_true, hbody]
        rw [ih hs' (by omega) (by rw [pow_succ] at hiterations; omega), hpower]
    · have hone : s.e.toNat = 1 := by omega
      simp [hone, mul]

theorem pow_eq (hwidth : 1 < width) (n e : BitVec width) (extra : Nat) :
    pow (width + extra) n e = some (fit width (n.toNat ^ e.toNat)) := by
  have hlt : 1 < 2 ^ width := Nat.one_lt_two_pow (by omega)
  have hone : (BitVec.ofNat width 1).toNat = 1 := by rw [BitVec.toNat_ofNat, Nat.mod_eq_of_lt hlt]
  unfold pow
  split
  · next hzero =>
    rw [hzero, BitVec.toNat_ofNat, Nat.zero_mod, pow_zero, fit_eq_ok hlt]
  · next hne =>
    have he : 0 < e.toNat := by
      apply Nat.pos_of_ne_zero
      intro hzero
      exact hne (BitVec.eq_of_toNat_eq (by rw [hzero, BitVec.toNat_ofNat, Nat.zero_mod]))
    have hiterations : e.toNat < 2 ^ (width + extra + 1) :=
      lt_of_lt_of_le e.isLt (Nat.pow_le_pow_right (by decide) (by omega))
    rw [loop_eq hwidth (Or.inl (by rw [hone]; decide)) he hiterations, hone, one_mul]

/-- The power if it fits, an abort if it does not, and no more iterations than bits. -/
theorem pow_exact (n e : U64) (m f : U128) (extra : Nat) :
    Math64.pow (64 + extra) n e = some (fit 64 (n.toNat ^ e.toNat)) ∧
      Math128.pow (128 + extra) m f = some (fit 128 (m.toNat ^ f.toNat)) :=
  ⟨pow_eq (by decide) n e extra, pow_eq (by decide) m f extra⟩

end OpenLibra.MoveStd
