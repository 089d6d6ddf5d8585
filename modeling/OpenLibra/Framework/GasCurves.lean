import OpenLibra.Framework.StorageGas

/-!
# Gas curves are well behaved

The control points of a validated curve form a polyline that rises, and the price is the rounded
value of the line.
-/

namespace OpenLibra.GlobalStorage

open Rust Move Transition Numeric List

/-!
# The line of a curve
-/

def Point.node (self : Point) : Node :=
  { x := self.x.toNat
    y := self.y.toNat }

def controlPoints (points : List Point) : List Point := startPoint :: (points ++ [endPoint])

theorem length_controlPoints (points : List Point) :
    (controlPoints points).length = points.length + 2 := by
  simp [controlPoints]

variable {points : List Point} {i : Nat} {p : Point} {curve : GasCurve} {bps targetUsage : U64}
  {bounds : Nat × Nat}

theorem controlPoints_succ (h : i < points.length) :
    (controlPoints points)[i + 1]? = points[i]? := by
  simp [controlPoints, List.getElem?_append_left h]

theorem controlPoints_last (points : List Point) :
    (controlPoints points)[points.length + 1]? = some endPoint := by
  simp [controlPoints]

theorem pointBefore_eq_ok_iff (h : i ≤ points.length) : pointBefore points i = .ok p <->
    (controlPoints points)[i]? = some p := by
  unfold pointBefore
  cases i with
  | zero => simp [controlPoints]
  | succ i =>
    rw [if_neg (Nat.succ_ne_zero i), Nat.succ_sub_one,
      Vector.borrow_eq_ok_iff, controlPoints_succ h]

theorem pointAfter_eq_ok_iff (h : i ≤ points.length) : pointAfter points i = .ok p <->
    (controlPoints points)[i + 1]? = some p := by
  unfold pointAfter
  rcases eq_or_lt_of_le h with heq | hlt
  · subst heq
    rw [if_pos rfl, controlPoints_last]
    simp
  · rw [if_neg (Nat.ne_of_lt hlt), Vector.borrow_eq_ok_iff, controlPoints_succ hlt]

theorem rises_of_validatePoints (h : validatePoints points = .ok ()) :
    ((controlPoints points).map Point.node).IsChain Rises := by
  rw [isChain_iff_getElem]
  intro i hi
  rw [length_map, length_controlPoints] at hi
  have hle : i ≤ points.length := by omega
  have hgap := tryForEach_eq_ok h (mem_range.mpr (Nat.lt_succ_of_le hle))
  rcases of_bind hgap with ⟨_, hcur, hgap⟩
  rcases of_bind hgap with ⟨_, hnext, hgap⟩
  have hrises := ensure_eq_ok_iff.mp hgap
  rcases List.getElem?_eq_some_iff.mp ((pointBefore_eq_ok_iff hle).mp hcur) with ⟨_, hcur⟩
  rcases List.getElem?_eq_some_iff.mp ((pointAfter_eq_ok_iff hle).mp hnext) with ⟨_, hnext⟩
  rw [getElem_map, getElem_map, hcur, hnext]
  exact hrises

def GasCurve.line (curve : GasCurve) : Polyline where
  nodes := (controlPoints curve.points).map Point.node
  rises := rises_of_validatePoints curve.validated

theorem GasCurve.line_node (h : (controlPoints curve.points)[i]? = some p) :
    curve.line.nodes[i]? = some p.node := by
  rw [line, List.getElem?_map, h]
  rfl

theorem GasCurve.le_endPoint (h : (controlPoints curve.points)[i]? = some p) :
    p.x.toNat ≤ 10000 ∧ p.y.toNat ≤ 10000 := by
  have hi := (List.getElem?_eq_some_iff.mp h).1
  rw [length_controlPoints] at hi
  have hlast := controlPoints_last curve.points
  rcases eq_or_lt_of_le (Nat.le_of_lt_succ hi) with heq | hlt
  · subst heq
    cases h.symm.trans hlast
    exact ⟨Nat.le_refl _, Nat.le_refl _⟩
  · have hrises := Polyline.rises_of_lt (line_node h) (line_node hlast) hlt
    exact ⟨le_of_lt hrises.left, hrises.right⟩

def Brackets (points : List Point) (bps : U64) (bounds : Nat × Nat) : Prop :=
  bounds.1 ≤ bounds.2 ∧
    exists lower upper, points[bounds.1]? = some lower ∧ points[bounds.2 + 1]? = some upper ∧
      lower.x.toNat ≤ bps.toNat ∧ bps.toNat < upper.x.toNat

theorem searchBody_brackets (h : Brackets points bps bounds) (hguard : bounds.1 < bounds.2) :
    exists bounds', searchBody points bps bounds = .ok bounds' ∧ Brackets points bps bounds' ∧
      bounds'.2 - bounds'.1 < bounds.2 - bounds.1 := by
  rcases h with ⟨hle, lower, upper, hlower, hupper, hlowerBps, hupperBps⟩
  have hbound := (List.getElem?_eq_some_iff.mp hupper).1
  have hmid : bounds.1 < bounds.2 - (bounds.2 - bounds.1) / 2 := by omega
  rcases Vector.exists_borrow
    (show bounds.2 - (bounds.2 - bounds.1) / 2 < points.length by omega) with
    ⟨point, hborrow, hpoint⟩
  rw [searchBody, Vector.indexSub_eq_ok hle, ok_bind,
    Vector.indexSub_eq_ok (by omega), ok_bind, hborrow,
    ok_bind]
  by_cases hless : bps.toNat < point.x.toNat
  · rw [if_pos hless, Vector.indexSub_eq_ok (by omega), ok_bind]
    refine ⟨(bounds.1, _), rfl, ⟨?_, lower, point, hlower, ?_, hlowerBps, hless⟩, ?_⟩
    · exact Nat.le_sub_one_of_lt hmid
    · rw [← hpoint]
      congr 1
      exact Nat.sub_add_cancel (Nat.zero_lt_of_lt hmid)
    · exact Nat.sub_lt_sub_right (by omega) (by omega)
  · rw [if_neg hless]
    refine ⟨(_, bounds.2), rfl, ⟨Nat.sub_le _ _, point, upper, hpoint, hupper,
      Nat.le_of_not_lt hless, hupperBps⟩, ?_⟩
    exact Nat.sub_lt_sub_left hguard hmid

theorem search_brackets (h : Brackets points bps bounds) :
    exists i, search points bps bounds = .ok (i, i) ∧ Brackets points bps (i, i) := by
  have hbound : bounds.2 - bounds.1 ≤ points.length := by
    rcases h with ⟨_, _, upper, _, hupper, _, _⟩
    have hupper := (List.getElem?_eq_some_iff.mp hupper).1
    omega
  rcases whileLoop_of_measure (Brackets points bps) (fun bounds => bounds.2 - bounds.1)
    (fun s hs hguard => searchBody_brackets hs (of_decide_eq_true hguard))
    h hbound with
    ⟨⟨i, j⟩, hloop, hend, hguard⟩
  have heq : i = j := le_antisymm hend.left (Nat.le_of_not_lt (of_decide_eq_false hguard))
  subst heq
  refine ⟨i, ?_, hend⟩
  rw [search, hloop]

section

variable {curve : GasCurve} {bps : U64} {i : Nat} {left right : Point}

theorem covers_of_lt (hleft : (controlPoints curve.points)[i]? = some left)
    (hright : (controlPoints curve.points)[i + 1]? = some right)
    (hle : left.x.toNat ≤ bps.toNat) (hlt : bps.toNat < right.x.toNat) :
    curve.line.Covers bps.toNat i left.node right.node where
  left_node := GasCurve.line_node hleft
  right_node := GasCurve.line_node hright
  left_le := hle
  right_ge := Or.inl hlt

theorem covers_last (hleft : (controlPoints curve.points)[curve.points.length]? = some left)
    (hle : left.x.toNat ≤ bps.toNat) (hbps : bps.toNat ≤ 10000) :
    curve.line.Covers bps.toNat curve.points.length left.node endPoint.node where
  left_node := GasCurve.line_node hleft
  right_node := GasCurve.line_node (controlPoints_last curve.points)
  left_le := hle
  right_ge := by
    rcases eq_or_lt_of_le hbps with heq | hlt
    · refine .inr ⟨?_, heq⟩
      rw [GasCurve.line, length_map, length_controlPoints]
    · exact .inl hlt

end

structure Found (curve : GasCurve) (bps : U64) (i : Nat)
    (left right : Point) : Prop where
  left_point : (controlPoints curve.points)[i]? = some left
  right_point : (controlPoints curve.points)[i + 1]? = some right
  covers : curve.line.Covers bps.toNat i left.node right.node

theorem findSegment_found (curve : GasCurve) (hbps : bps.toNat ≤ 10000) :
    exists i left right, findSegment curve.points bps = .ok (left, right) ∧
        Found curve bps i left right := by
  have hstart : (controlPoints curve.points)[0]? = some startPoint := rfl
  have hend := controlPoints_last curve.points
  unfold findSegment
  by_cases hempty : curve.points.length = 0
  · rw [if_pos hempty]
    rw [← hempty] at hstart
    exact ⟨_, startPoint, endPoint, rfl, hstart, hend, covers_last hstart (Nat.zero_le _) hbps⟩
  rw [if_neg hempty]
  have hpos : 0 < curve.points.length := Nat.pos_of_ne_zero hempty
  rcases Vector.exists_borrow hpos with ⟨first, hborrow, hfirst⟩
  rw [hborrow, ok_bind]
  by_cases hbef : bps.toNat < first.x.toNat
  · rw [if_pos hbef]
    have hright := (controlPoints_succ hpos).trans hfirst
    exact ⟨0, startPoint, first, rfl, hstart, hright,
      covers_of_lt hstart hright (Nat.zero_le _) hbef⟩
  rw [if_neg hbef, Vector.indexSub_eq_ok hpos, ok_bind]
  rcases Vector.exists_borrow (Nat.sub_lt hpos Nat.one_pos) with ⟨last, hborrow, hlast⟩
  rw [hborrow, ok_bind]
  by_cases hbehind : last.x.toNat ≤ bps.toNat
  · rw [if_pos hbehind]
    have hleft := (controlPoints_succ (Nat.sub_lt hpos Nat.one_pos)).trans hlast
    rw [Nat.sub_add_cancel hpos] at hleft
    exact ⟨_, last, endPoint, rfl, hleft, hend, covers_last hleft hbehind hbps⟩
  rw [if_neg hbehind]
  -- With one point only, the two comparisons before would contradict each
  -- other.
  have htwo : 2 ≤ curve.points.length := by
    apply Nat.succ_le_of_lt
    apply Nat.lt_of_le_of_ne hpos
    intro hone
    rw [← hone] at hlast
    cases hfirst.symm.trans hlast
    exact hbehind (Nat.le_of_not_lt hbef)
  have hbrackets : Brackets curve.points bps (0, curve.points.length - 2) := by
    refine ⟨Nat.zero_le _, first, last, hfirst, ?_, Nat.le_of_not_lt hbef, Nat.lt_of_not_le hbehind⟩
    rw [← hlast]
    congr 1
    exact (Nat.succ_sub htwo).symm
  rcases search_brackets hbrackets with
    ⟨i, hsearch, _, left, right, hleft, hright, hleftBps, hrightBps⟩
  have hleft' := (controlPoints_succ (List.getElem?_eq_some_iff.mp hleft).1).trans hleft
  have hright' := (controlPoints_succ (List.getElem?_eq_some_iff.mp hright).1).trans hright
  refine ⟨i + 1, left, right, ?_, hleft', hright', covers_of_lt hleft' hright' hleftBps hrightBps⟩
  rw [Vector.indexSub_eq_ok htwo, ok_bind, hsearch, ok_bind, Vector.borrow_eq_ok_iff.mpr hleft,
    ok_bind, Vector.borrow_eq_ok_iff.mpr hright, ok_bind, pure_eq]

/-!
# The price
-/

theorem interpolate_eq_ok {x0 x1 y0 y1 x : U64} (hx : x0.toNat < x1.toNat)
    (hy : y0.toNat ≤ y1.toNat) (hleft : x0.toNat ≤ x.toNat) (hright : x.toNat ≤ x1.toNat)
    (hfits : (x.toNat - x0.toNat) * (y1.toNat - y0.toNat) < 2 ^ 64) :
    exists y, interpolate x0 x1 y0 y1 x = .ok y ∧ y.toNat = Numeric.interpolate
        { x := x0.toNat, y := y0.toNat } { x := x1.toNat, y := y1.toNat }
        x.toNat := by
  rcases exists_sub hleft with ⟨_, hdx, hdxNat⟩
  rcases exists_sub hy with ⟨_, hdy, hdyNat⟩
  rw [← hdxNat, ← hdyNat] at hfits
  rcases exists_fit hfits with ⟨product, hprod, hprodNat⟩
  rcases exists_sub (le_of_lt hx) with ⟨width, hwidth, hwidthNat⟩
  have hpos : width.toNat ≠ 0 := by
    rw [hwidthNat]
    exact Nat.sub_ne_zero_of_lt hx
  rcases @exists_div _ product width hpos with ⟨rise, hrise, hriseNat⟩
  have hval : y0.toNat + rise.toNat = Numeric.interpolate
    { x := x0.toNat, y := y0.toNat } { x := x1.toNat, y := y1.toNat }
    x.toNat := by
    rw [hriseNat, hprodNat, hwidthNat, hdxNat, hdyNat, Numeric.interpolate]
  have hsum : y0.toNat + rise.toNat < 2 ^ 64 := by
    rw [hval]
    exact lt_of_le_of_lt (interpolate_le hx hy hright) y1.isLt
  rcases exists_fit hsum with ⟨y, hadd, hyNat⟩
  refine ⟨y, ?_, hyNat.trans hval⟩
  rw [interpolate, hdx, ok_bind, hdy, ok_bind, mul, hprod, ok_bind, hwidth, ok_bind, hrise,
    ok_bind, add, hadd]

def usageBps (targetUsage currentUsage : U64) : Nat :=
  min currentUsage.toNat targetUsage.toNat * 10000 / targetUsage.toNat

theorem usageBps_le (targetUsage currentUsage : U64) :
    usageBps targetUsage currentUsage ≤ 10000 := by
  apply Nat.div_le_of_le_mul
  exact Nat.mul_le_mul_right _ (Nat.min_le_right _ _)

theorem usageBps_mono (targetUsage : U64) {usage usage' : U64} (h : usage.toNat ≤ usage'.toNat) :
    usageBps targetUsage usage ≤ usageBps targetUsage usage' := by
  apply Nat.div_le_div_right
  apply Nat.mul_le_mul_right
  omega

theorem usageBps_zero (targetUsage : U64) : usageBps targetUsage 0 = 0 := by simp [usageBps]

theorem usageBps_of_le {currentUsage : U64} (hpos : 0 < targetUsage.toNat)
    (h : targetUsage.toNat ≤ currentUsage.toNat) : usageBps targetUsage currentUsage = 10000 := by
  rw [usageBps, min_eq_right h, Nat.mul_div_cancel_left _ hpos]

theorem exists_usageBps (hpos : 0 < targetUsage.toNat) (hbounded : targetUsage.toNat ≤
      maxU64.toNat / basisPointDenomination.toNat) (currentUsage : U64) :
    exists scaled bps : U64, mul (cappedUsage targetUsage currentUsage) basisPointDenomination =
          .ok scaled ∧ div scaled targetUsage = .ok bps ∧
        bps.toNat = usageBps targetUsage currentUsage := by
  have hcapped : (cappedUsage targetUsage currentUsage).toNat =
    min currentUsage.toNat targetUsage.toNat := by
    unfold cappedUsage
    split <;> omega
  have hfits : (cappedUsage targetUsage currentUsage).toNat *
    basisPointDenomination.toNat < 2 ^ 64 := by
    have hmin := Nat.min_le_right currentUsage.toNat targetUsage.toNat
    rw [hcapped]
    change _ * 10000 < _
    change _ ≤ 18446744073709551615 / 10000 at hbounded
    omega
  rcases exists_fit hfits with ⟨scaled, hscaled, hscaledNat⟩
  rcases @exists_div _ scaled targetUsage (Nat.ne_of_gt hpos) with ⟨bps, hbps, hbpsNat⟩
  refine ⟨scaled, bps, hscaled, hbps, ?_⟩
  rw [hbpsNat, hscaledNat, hcapped]
  rfl

def GasCurve.price (curve : GasCurve) (y : Nat) : Nat :=
  Numeric.interpolate { x := 0, y := curve.minGas.toNat }
    { x := 10000, y := curve.maxGas.toNat } y

theorem calculateGas_eq_ok (hpos : 0 < targetUsage.toNat)
    (hbounded : targetUsage.toNat ≤ maxU64.toNat / basisPointDenomination.toNat) (curve : GasCurve)
    (currentUsage : U64) : exists gas i left right,
      calculateGas targetUsage currentUsage curve = .ok gas ∧
        curve.line.Covers (usageBps targetUsage currentUsage) i left right ∧
        gas.toNat = curve.price (Numeric.interpolate left right
          (usageBps targetUsage currentUsage)) := by
  rcases exists_usageBps hpos hbounded currentUsage with ⟨scaled, bps, hscaled, hbps, hbpsNat⟩
  have hle := usageBps_le targetUsage currentUsage
  rw [← hbpsNat] at hle
  rcases findSegment_found curve hle with ⟨i, left, right, hsegment, hfound⟩
  have hcov := hfound.covers
  have hrightLe := curve.le_endPoint hfound.right_point
  have hfits : (bps.toNat - left.x.toNat) *
    (right.y.toNat - left.y.toNat) < 2 ^ 64 := by
    calc _ ≤ 10000 * 10000 := Nat.mul_le_mul (by omega) (by omega)
      _ < 2 ^ 64 := by decide
  rcases interpolate_eq_ok hcov.rises.left hcov.rises.right
    hcov.left_le hcov.le_right hfits with ⟨y, hy, hyNat⟩
  have hyLe : y.toNat ≤ 10000 := by
    rw [hyNat]
    exact Nat.le_trans (interpolate_le hcov.rises.left
      hcov.rises.right hcov.le_right) hrightLe.right
  have hpriceFits : (y.toNat - (0 : U64).toNat) *
    (curve.maxGas.toNat - curve.minGas.toNat) < 2 ^ 64 := by
    have hbound := curve.bounded
    change _ ≤ 18446744073709551615 / 10000 at hbound
    calc _ ≤ 10000 * (18446744073709551615 / 10000) := Nat.mul_le_mul (by omega) (by omega)
      _ < 2 ^ 64 := by decide
  rcases @interpolate_eq_ok 0 basisPointDenomination curve.minGas
    curve.maxGas y (by decide) curve.ordered (Nat.zero_le _) hyLe hpriceFits
    with ⟨gas, hgas, hgasNat⟩
  rw [← hbpsNat]
  refine ⟨gas, i, left.node, right.node, ?_, hcov, ?_⟩
  · rw [calculateGas, hscaled, ok_bind, hbps, ok_bind, hsegment, ok_bind, hy, ok_bind, hgas]
  · rw [hgasNat, hyNat]
    rfl

/-!
# The ends of the curve
-/

theorem GasCurve.first_node (curve : GasCurve) : curve.line.nodes[0]? = some startPoint.node := rfl

theorem GasCurve.last_node (curve : GasCurve) :
    curve.line.nodes[curve.points.length + 1]? = some endPoint.node :=
  line_node (controlPoints_last curve.points)

theorem GasCurve.length_nodes (curve : GasCurve) :
    curve.points.length + 1 + 1 = curve.line.nodes.length := by
  rw [line, length_map, length_controlPoints]

theorem GasCurve.price_zero (curve : GasCurve) :
    curve.price startPoint.node.y = curve.minGas.toNat :=
  interpolate_left

theorem GasCurve.price_full (curve : GasCurve) : curve.price endPoint.node.y = curve.maxGas.toNat :=
  interpolate_right (Nat.zero_lt_succ 9999) curve.ordered

theorem GasCurve.price_mem (curve : GasCurve) {x : Nat} {left right : Node}
    (h : curve.line.Covers x i left right) :
    curve.minGas.toNat ≤ curve.price (Numeric.interpolate left right x) ∧
      curve.price (Numeric.interpolate left right x) ≤ curve.maxGas.toNat := by
  unfold price
  constructor
  · exact Nat.le_add_right _ _
  · exact interpolate_le (Nat.zero_lt_succ 9999) curve.ordered
      (h.interpolate_le_last curve.last_node curve.length_nodes)

theorem newGasCurve_eq_ok {minGas maxGas : U64} (h : newGasCurve minGas maxGas points = .ok curve) :
    curve.minGas = minGas ∧ curve.maxGas = maxGas ∧ curve.points = points := by
  unfold newGasCurve at h
  split at h
  · split at h
    · split at h
      · cases h
        exact ⟨rfl, rfl, rfl⟩
      · cases h
      · cases h
    · cases h
  · cases h

theorem newUsageGasConfig_eq_ok {readCurve createCurve writeCurve : GasCurve} {config}
    (h : newUsageGasConfig targetUsage readCurve createCurve writeCurve = .ok config) :
    config.targetUsage = targetUsage := by
  unfold newUsageGasConfig at h
  split at h
  · split at h
    · cases h
      rfl
    · cases h
  · cases h

/-- The price at every usage, as a function of the usage. -/
theorem calculateGas_regular {minGas maxGas targetUsage : U64} {points : List Point}
    {curve readCurve createCurve writeCurve : GasCurve} {config : UsageGasConfig}
    (hcurve : newGasCurve minGas maxGas points = Outcome.ok curve)
    (hconfig : newUsageGasConfig targetUsage readCurve createCurve writeCurve = Outcome.ok config) :
    exists gas : U64 -> U64, (forall usage,
        calculateGas config.targetUsage usage curve = Outcome.ok (gas usage)) ∧
      (forall usage, minGas.toNat ≤ (gas usage).toNat ∧ (gas usage).toNat ≤ maxGas.toNat) ∧
      gas 0 = minGas ∧
      (forall usage, targetUsage.toNat ≤ usage.toNat -> gas usage = maxGas) ∧
      (forall usage usage', usage.toNat ≤ usage'.toNat -> (gas usage).toNat ≤ (gas usage').toNat) ∧
      forall usage, exists i left right,
        curve.line.Covers (usageBps targetUsage usage) i left right ∧ (forall i' left' right',
            curve.line.Covers (usageBps targetUsage usage) i' left' right' ->
              i' = i ∧ left' = left ∧ right' = right) ∧
          (gas usage).toNat = minGas.toNat +
            Numeric.interpolate left right (usageBps targetUsage usage) *
              (maxGas.toNat - minGas.toNat) / 10000 := by
  rcases newGasCurve_eq_ok hcurve with ⟨rfl, rfl, rfl⟩
  cases newUsageGasConfig_eq_ok hconfig
  choose gas index left right hgas hcovers hprice using
    calculateGas_eq_ok config.positive config.bounded curve
  refine ⟨gas, hgas, ?_, ?_, ?_, ?_, ?_⟩
  · intro usage
    rw [hprice usage]
    exact curve.price_mem (hcovers usage)
  · apply BitVec.eq_of_toNat_eq
    rw [hprice 0, (hcovers 0).interpolate_first curve.first_node (usageBps_zero _)]
    exact curve.price_zero
  · intro usage hreached
    apply BitVec.eq_of_toNat_eq
    rw [hprice usage, (hcovers usage).interpolate_last curve.last_node
      curve.length_nodes (usageBps_of_le config.positive hreached)]
    exact curve.price_full
  · intro usage usage' hle
    rw [hprice usage, hprice usage']
    apply Numeric.interpolate_mono
    exact (hcovers usage).interpolate_mono (hcovers usage') (usageBps_mono _ hle)
  · intro usage
    refine ⟨index usage, left usage, right usage, hcovers usage, ?_, hprice usage⟩
    intro _ _ _ hcovers'
    exact (hcovers usage).unique hcovers'

def steepCurve : GasCurve where
  minGas := 0
  maxGas := 1844674407370955
  points := [{ x := 1000, y := 2 }, { x := 9900, y := 9138 }]
  ordered := by decide
  bounded := by decide
  validated := by decide

def steepConfig : UsageGasConfig where
  targetUsage := 1844674407370955
  readCurve := steepCurve
  createCurve := steepCurve
  writeCurve := steepCurve
  positive := by decide
  bounded := by decide

/-- Half of the target lies on the line between the two points. -/
theorem calculateGas_regular_steep : newGasCurve 0 1844674407370955
      [{ x := 1000, y := 2 }, { x := 9900, y := 9138 }] = Outcome.ok steepCurve ∧
    newUsageGasConfig 1844674407370955 steepCurve steepCurve steepCurve = Outcome.ok steepConfig ∧
    exists gas : U64 -> U64,
      calculateGas steepConfig.targetUsage 922337203685478 steepCurve =
          Outcome.ok (gas 922337203685478) ∧
        (gas 922337203685478).toNat = 4108 * 1844674407370955 / 10000 := by
  have hcurve : newGasCurve 0 1844674407370955 [{ x := 1000, y := 2 }, { x := 9900, y := 9138 }] =
        .ok steepCurve := by
    decide +kernel
  have hconfig : newUsageGasConfig 1844674407370955 steepCurve steepCurve
    steepCurve = .ok steepConfig := rfl
  rcases calculateGas_regular hcurve hconfig with ⟨gas, hgas, _, _, _, _, hprice⟩
  refine ⟨hcurve, hconfig, gas, hgas _, ?_⟩
  rcases hprice 922337203685478 with ⟨_, left, right, _, hunique, hvalue⟩
  have hcovers : steepCurve.line.Covers (usageBps 1844674407370955 922337203685478) 1
      { x := 1000, y := 2 } { x := 9900, y := 9138 } :=
    ⟨rfl, rfl, by decide, by decide⟩
  rcases hunique 1 _ _ hcovers with ⟨_, rfl, rfl⟩
  rw [hvalue]
  decide

end OpenLibra.GlobalStorage
