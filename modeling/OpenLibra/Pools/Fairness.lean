import OpenLibra.Pools.Accounting

/-!
# Fairness of pools

Trades round down in favour of those who stay: nobody loses by the trades of others, and shares
just bought are not worth more than they cost.
-/

namespace OpenLibra.Pools
namespace Pool

open Rust Move Numeric

variable {address : Type} [DecidableEq address]

def BalanceKept (pool pool' : Pool address) (shareholder : address) : Prop :=
  exists before after, pool.balance shareholder = .ok before ∧
    pool'.balance shareholder = .ok after ∧
    before.toNat ≤ after.toNat

variable {pool pool' : Pool address} {shareholder : address} {coins shares : U64}

theorem balanceKept_of_proportion (hsound : Sound pool) (hsound' : Sound pool')
    (hsame : pool'.sharesAt shareholder = pool.sharesAt shareholder)
    (hle : proportion (pool.sharesAt shareholder).toNat pool.totalShares.toNat pool.totalCoins.toNat
      ≤ proportion (pool.sharesAt shareholder).toNat pool'.totalShares.toNat
        pool'.totalCoins.toNat) :
    BalanceKept pool pool' shareholder := by
  refine ⟨_, _, balance_eq hsound shareholder, balance_eq hsound' shareholder, ?_⟩
  rw [toNat_balanceAt hsound, toNat_balanceAt hsound', hsame]
  exact hle

theorem Bought.balanceKept {other : address} (hsound : Sound pool) (hsound' : Sound pool')
    (h : Bought pool pool' shareholder coins shares) (hne : other ≠ shareholder) :
    BalanceKept pool pool' other := by
  apply balanceKept_of_proportion hsound hsound' (h.other other hne)
  rw [h.totalCoins, h.totalShares]
  rcases Nat.eq_zero_or_pos pool.totalShares.toNat with hzero | hpos
  · -- Without shares there is no other shareholder.
    rw [hzero, proportion, Nat.div_zero]
    exact Nat.zero_le _
  · exact proportion_le_of_join (h.price (Or.inl hpos))

theorem Redeemed.balanceKept {other : address} (hsound : Sound pool) (hsound' : Sound pool')
    (h : Redeemed pool pool' shareholder shares coins) (hne : other ≠ shareholder) :
    BalanceKept pool pool' other := by
  apply balanceKept_of_proportion hsound hsound' (h.other other hne)
  have hshares := h.totalShares
  have hcoins := h.totalCoins
  rcases Nat.eq_zero_or_pos pool'.totalShares.toNat with hzero | hpos
  · -- With all shares redeemed the other holds none.
    have hnone := hsound'.sharesAt_le other
    rw [hzero, h.other other hne] at hnone
    rw [Nat.le_zero.mp hnone, proportion, zero_mul, Nat.zero_div]
    exact Nat.zero_le _
  · have hleave := @proportion_le_of_leave (pool.sharesAt other).toNat
      pool.totalShares.toNat pool.totalCoins.toNat shares.toNat coins.toNat
      (by omega) (by
        rw [h.amount]
        exact proportion_mul_le _ _ _)
    rw [← Nat.eq_sub_of_add_eq hshares, ← Nat.eq_sub_of_add_eq hcoins]
      at hleave
    exact hleave

theorem Bought.redeem_le {pool''} {returned : U64} (h : Bought pool pool' shareholder coins shares)
    (hpriced : 0 < pool.totalShares.toNat ∨ pool.totalCoins.toNat = 0)
    (h' : Redeemed pool' pool'' shareholder shares returned) : returned.toNat ≤ coins.toNat := by
  rw [h'.amount, h.totalShares, h.totalCoins]
  exact proportion_join_le (h.price hpriced)

theorem Bought.exists_redeem (hsound' : Sound pool')
    (h : Bought pool pool' shareholder coins shares) (hpos : 0 < shares.toNat) :
    exists returned pool'', pool'.redeemShares shareholder shares = .ok (returned, pool'') := by
  have hself := h.self
  cases hlook : pool'.shares.lookup shareholder with
  | none =>
    have hnone : (pool'.sharesAt shareholder).toNat = 0 := by
      rw [sharesAt, hlook]
      rfl
    omega
  | some held =>
    have hheld : pool'.sharesAt shareholder = held := by
      rw [sharesAt, hlook]
      rfl
    rw [hheld] at hself
    have hle : shares.toNat ≤ held.toNat := by omega
    rcases exists_redeemShares hsound' hlook hle with ⟨returned, pool'', hredeem, _⟩
    exact ⟨returned, pool'', hredeem⟩

theorem afterCalls_fair (shareholdersLimit scalingFactor : U64) (calls : List (Call address)) :
    let pool := afterCalls shareholdersLimit scalingFactor calls
  (forall shareholder other coins shares pool', other ≠ shareholder ->
    pool.buyIn shareholder coins = Outcome.ok (shares, pool') -> BalanceKept pool pool' other) ∧
    (forall shareholder other shares coins pool', other ≠ shareholder ->
      pool.redeemShares shareholder shares = Outcome.ok (coins, pool') ->
        BalanceKept pool pool' other) ∧
    forall shareholder coins shares pool', 0 < pool.totalShares.toNat ∨ pool.totalCoins.toNat = 0 ->
      pool.buyIn shareholder coins = Outcome.ok (shares, pool') ->
        (0 < shares.toNat -> exists returned pool'', pool'.redeemShares shareholder shares =
            Outcome.ok (returned, pool'')) ∧
        forall returned pool'', pool'.redeemShares shareholder shares =
              Outcome.ok (returned, pool'') ->
            returned.toNat ≤ coins.toNat := by
  intro pool
  have hsound : Sound pool := (afterCalls_sound shareholdersLimit scalingFactor calls).left
  refine ⟨?_, ?_, ?_⟩
  · intro shareholder other coins shares pool' hne hbuy
    rcases buyIn_bought hsound hbuy with ⟨hsound', hbought⟩
    exact hbought.balanceKept hsound hsound' hne
  · intro shareholder _ shares coins pool' hne hredeem
    rcases redeemShares_redeemed hsound hredeem with ⟨hsound', hredeemed⟩
    exact hredeemed.balanceKept hsound hsound' hne
  · intro _ _ _ _ hpriced hbuy
    rcases buyIn_bought hsound hbuy with ⟨hsound', hbought⟩
    refine ⟨hbought.exists_redeem hsound', ?_⟩
    intro _ _ hredeem
    exact hbought.redeem_le hpriced (redeemShares_redeemed hsound' hredeem).right

end Pool
end OpenLibra.Pools
