import OpenLibra.Framework.Operations

/-!
# The configuration of the fees

Along every run the burn percentage is a percentage, and there is no table
of the validators' fees: no operation publishes it.
-/

namespace OpenLibra.Framework

variable {address coinType : Type}

namespace Resources

structure FeesConfigured (s : Resources address coinType) : Prop where
  percentage : forall fees, s.collectedFees = some fees -> fees.burnPercentage.toNat ≤ 100
  noTable : s.validatorFees = none

variable {s s' : Resources address coinType}

theorem FeesConfigured.keep (h : s.FeesConfigured) (hkeeps : KeepsFees s s') :
    s'.FeesConfigured where
  percentage := by
    rw [hkeeps.collectedFees]
    exact h.percentage
  noTable := hkeeps.validatorFees.trans h.noTable

theorem FeesConfigured.percentage_of_percentageFrom (h : s.FeesConfigured)
    {fees} (hfees : s.PercentageFrom fees) : fees.burnPercentage.toNat ≤ 100 := by
  rcases hfees with hchk | ⟨before, hbef, hsame⟩
  · exact hchk
  · rw [hsame]
    exact h.percentage before hbef

variable [DecidableEq address] [DecidableEq coinType] {chain : Chain address coinType} {a b : Nat}

theorem FeeMoves.feesConfigured (h : FeeMoves chain s a b s') (hconf : s.FeesConfigured) :
    s'.FeesConfigured := by
  induction h with
  | coins h => exact hconf.keep h.keepsFees
  | collected hpct =>
    constructor
    · intro _ hfees
      cases hfees
      exact hconf.percentage_of_percentageFrom hpct
    · exact hconf.noTable
  | recorded htable =>
    -- Recording needs a table.
    rw [hconf.noTable] at htable
    cases htable
  | trans _ _ hfirst hsnd => exact hsnd (hfirst hconf)

end Resources

namespace World

variable [DecidableEq address] [DecidableEq coinType] {chain : Chain address coinType}

theorem feesConfigured_step {w w' : World address coinType} {operation : Operation address coinType}
    (hconf : w.resources.FeesConfigured) (h : w.step chain operation = .ok w') :
    w'.resources.FeesConfigured := by
  rcases step_eq_ok h with hstep | hstep
  · rcases hstep with ⟨_, _, _, _, _, _, hmoves⟩
    exact hconf.keep hmoves.keepsFees
  · exact hstep.2.feesConfigured hconf

theorem feesConfigured_run {w : World address coinType} (hconf : w.resources.FeesConfigured)
    (operations : List (Operation address coinType)) :
    (w.run chain operations).resources.FeesConfigured := by
  apply run_invariant (fun w => w.resources.FeesConfigured)
  · intro _ _ _ hbef hstep
    exact feesConfigured_step hbef hstep
  · exact hconf

end World

end OpenLibra.Framework
