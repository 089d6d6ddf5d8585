import Mathlib.Algebra.Order.BigOperators.Group.List
import OpenLibra.Numeric.Proportions
import OpenLibra.Pools.PoolU64

/-!
# Accounting of pools

After any calls the total shares of a pool are the sum of the recorded ones, the list of
shareholders names the keys of the map, and the coins cover the balances.
-/

namespace OpenLibra.Pools
namespace Pool

open Rust Move Numeric List

variable {address : Type} [da : DecidableEq address]

/-!
# What is recorded
-/

variable (pool : Pool address) (shareholder : address)

def sharesAt : U64 :=
  (pool.shares.lookup shareholder).getD 0

omit da in
def recordedShares (pool : Pool address) : Nat :=
  (pool.shares.data.map fun element => element.2.toNat).sum

structure Listed (pool : Pool address) : Prop where
  keys : pool.shareholders.Perm (pool.shares.data.map Prod.fst)
  limited : pool.shareholders.length ≤ pool.shareholdersLimit.toNat
  positive : forall element, element ∈ pool.shares.data -> 0 < element.2.toNat

structure Sound (pool : Pool address) : Prop extends Listed pool where
  total : pool.totalShares.toNat = pool.recordedShares

theorem contains_eq : pool.contains shareholder = (pool.shares.lookup shareholder).isSome :=
  SimpleMap.containsKey_eq _ _

theorem sharesOf_eq : pool.sharesOf shareholder = .ok (pool.sharesAt shareholder) := by
  unfold sharesOf sharesAt
  rw [contains_eq]
  cases hlook : pool.shares.lookup shareholder with
  | none => rfl
  | some =>
    rw [Option.isSome_some, if_pos rfl]
    exact SimpleMap.borrow_eq_ok hlook

structure Moved (pool pool' : Pool address) (shareholder : address)
    (held : Nat) : Prop where
  limit : pool'.shareholdersLimit = pool.shareholdersLimit
  totalCoins : pool'.totalCoins = pool.totalCoins
  totalShares : pool'.totalShares = pool.totalShares
  self : (pool'.sharesAt shareholder).toNat = held
  other : forall other, other ≠ shareholder -> pool'.sharesAt other = pool.sharesAt other
  recorded : pool'.recordedShares + (pool.sharesAt shareholder).toNat = pool.recordedShares + held

section

variable {pool : Pool address} {shareholder : address} {shares : SimpleMap address U64}
  {shareholders : List address} {old new : Option U64} {rest : List (address × U64)}

theorem moved_of_replaced (h : SimpleMap.Replaced pool.shares shares shareholder old new rest)
    (hold : pool.shares.lookup shareholder = old) (shareholders : List address) :
    Moved pool { pool with shares := shares, shareholders := shareholders }
      shareholder (new.getD 0).toNat where
  limit := rfl
  totalCoins := rfl
  totalShares := rfl
  self := by
    change ((shares.lookup shareholder).getD 0).toNat = _
    rw [h.lookup_self]
  other := by
    intro other hne
    change (shares.lookup other).getD 0 = _
    rw [h.lookup_of_ne hne]
    rfl
  recorded := by
    have hsum := h.sum_eq BitVec.toNat
    have hval (v : Option U64) : (v.map BitVec.toNat).getD 0 = (v.getD 0).toNat := by
      cases v <;> rfl
    rw [hval, hval] at hsum
    rw [sharesAt, hold]
    exact hsum

omit da in
theorem Listed.replace (hlisted : Listed pool)
    (h : SimpleMap.Replaced pool.shares shares shareholder old new rest)
    (hnew : forall v, new = some v -> 0 < v.toNat)
    (hkeys : ((SimpleMap.elementsAt shareholder old).map Prod.fst ++
      shareholders).Perm ((SimpleMap.elementsAt shareholder new).map Prod.fst ++ pool.shareholders))
    (hlimited : shareholders.length ≤ pool.shareholdersLimit.toNat) : Listed
      { pool with shares := shares, shareholders := shareholders } where
  keys := h.keys_perm hlisted.keys hkeys
  limited := hlimited
  positive := by
    intro element helem
    exact @SimpleMap.Replaced.forall_after _ _ _ _ _ _ _ _ h
      (fun element => 0 < element.2.toNat) hlisted.positive hnew element
      helem

end

theorem addShares_moved {pool pool'} {shareholder : address} {newShares result : U64}
    (hlisted : Listed pool) (h : pool.addShares shareholder newShares = .ok (result, pool')) :
    Listed pool' ∧ Moved pool pool' shareholder
      ((pool.sharesAt shareholder).toNat + newShares.toNat) := by
  unfold addShares at h
  rw [contains_eq] at h
  cases hlook : pool.shares.lookup shareholder with
  | some =>
    rw [hlook, Option.isSome_some, if_pos rfl, SimpleMap.borrow_eq_ok hlook, ok_bind] at h
    rcases of_bind h with ⟨_, _, h⟩
    rcases of_ensure h with ⟨_, h⟩
    rcases of_bind h with ⟨existing, hexisting, h⟩
    rcases SimpleMap.exists_assign hlook existing with ⟨shares, rest, hassign, hreplaced⟩
    rw [hassign, ok_bind] at h
    cases h
    have hsum := add_eq_ok_iff.mp hexisting
    have hpos := hlisted.positive _ (SimpleMap.lookup_eq_some_iff.mp hlook)
    constructor
    · apply hlisted.replace hreplaced _ (List.Perm.refl _) hlisted.limited
      intro v hv
      cases hv
      rw [hsum]
      exact Nat.add_pos_left hpos _
    · have hmoved := moved_of_replaced hreplaced hlook pool.shareholders
      rw [sharesAt, hlook, Option.getD_some, ← hsum]
      exact hmoved
  | none =>
    rw [hlook, Option.isSome_none] at h
    simp only [Bool.false_eq_true, if_false] at h
    have hnone : pool.sharesAt shareholder = 0 := by
      rw [sharesAt, hlook]
      rfl
    rw [hnone]
    change _ ∧ Moved _ _ _ (0 + _)
    rw [Nat.zero_add]
    by_cases hpos : 0 < newShares.toNat
    · rw [if_pos hpos] at h
      rcases of_ensure h with ⟨hlim, h⟩
      rcases SimpleMap.exists_add hlook newShares with ⟨_, _, hadd, hreplaced⟩
      rw [hadd, ok_bind] at h
      cases h
      constructor
      · apply hlisted.replace hreplaced _ (perm_append_singleton _ _)
        · rw [length_append]
          exact hlim
        · intro _ hv
          cases hv
          exact hpos
      · exact moved_of_replaced hreplaced hlook _
    · rw [if_neg hpos] at h
      cases h
      refine ⟨hlisted, rfl, rfl, rfl, ?_, fun _ _ => rfl, ?_⟩
      · rw [hnone, Nat.eq_zero_of_not_pos hpos]
        rfl
      · rw [hnone, Nat.eq_zero_of_not_pos hpos]
        rfl

theorem exists_removeShareholder {pool : Pool address} {shareholder : address} {held : U64}
    (hmem : shareholder ∈ pool.shareholders) (hlook : pool.shares.lookup shareholder = some held) :
    exists shares shareholders rest,
      pool.removeShareholder shareholder = .ok { pool with
          shares := shares
          shareholders := shareholders } ∧
        SimpleMap.Replaced pool.shares shares shareholder (some held) none rest ∧
        pool.shareholders.Perm (shareholder :: shareholders) := by
  rcases Vector.indexOf_of_mem hmem with ⟨i, hidx, hi⟩
  rcases SimpleMap.exists_remove hlook with ⟨shares, rest, hremove, h⟩
  refine ⟨shares, pool.shareholders.eraseIdx i, rest, ?_, h, Vector.perm_cons_eraseIdx hi⟩
  simp [removeShareholder, hidx, Vector.remove_eq_ok hi, hremove]

theorem exists_deductShares {pool : Pool address} {shareholder : address} {held numShares : U64}
    (hlisted : Listed pool) (hlook : pool.shares.lookup shareholder = some held)
    (hle : numShares.toNat ≤ held.toNat) :
    exists remaining pool', pool.deductShares shareholder numShares = .ok (remaining, pool') ∧
        Listed pool' ∧ Moved pool pool' shareholder (held.toNat - numShares.toNat) := by
  rcases exists_sub hle with ⟨remaining, hrem, hremNat⟩
  rcases SimpleMap.exists_assign hlook remaining with ⟨shares, rest, hassign, hreplaced⟩
  have hmem : shareholder ∈ pool.shareholders :=
    hlisted.keys.mem_iff.mpr (mem_map_of_mem (SimpleMap.lookup_eq_some_iff.mp hlook))
  have hhead : pool.deductShares shareholder numShares =
    if remaining = 0 then do
        let pool <- { pool with shares := shares }.removeShareholder shareholder
        return (remaining, pool)
      else
        return (remaining, { pool with shares := shares }) := by
    have hsharesAt : pool.sharesAt shareholder = held := by
      rw [sharesAt, hlook]
      rfl
    simp only [deductShares, contains_eq, hlook, Option.isSome_some, sharesOf_eq, hsharesAt,
      ensure, if_true, hle, SimpleMap.borrow_eq_ok hlook, hrem, hassign, ok_bind]
  rw [hhead, ← hremNat]
  by_cases hzero : remaining = 0
  · subst hzero
    rcases @exists_removeShareholder _ _ { pool with shares := shares }
      shareholder 0 hmem hreplaced.lookup_self with
      ⟨shares', shareholders, rest', hremove, hreplaced', hperm⟩
    rw [if_pos rfl, hremove, ok_bind]
    have hboth := hreplaced.trans hreplaced'
    refine ⟨0, _, rfl, ?_, moved_of_replaced hboth hlook shareholders⟩
    apply hlisted.replace hboth _ hperm.symm
    · have hlen := hperm.length_eq
      have hlimited := hlisted.limited
      rw [length_cons] at hlen
      change pool.shareholders.length = _ at hlen
      omega
    · intro v hv
      cases hv
  · rw [if_neg hzero]
    refine ⟨remaining, _, rfl, ?_, moved_of_replaced hreplaced hlook pool.shareholders⟩
    apply hlisted.replace hreplaced _ (List.Perm.refl _) hlisted.limited
    intro _ hv
    cases hv
    apply Nat.pos_of_ne_zero
    intro hnat
    exact hzero (BitVec.eq_of_toNat_eq hnat)

theorem multiplyThenDivide_eq_ok_iff {x y z result : U64} :
    multiplyThenDivide x y z = .ok result <->
      z.toNat ≠ 0 ∧ result.toNat = x.toNat * y.toNat / z.toNat := by
  have hwide (n : U64) : n.toNat < 2 ^ 128 := lt_trans n.isLt (by decide)
  rcases exists_fit (hwide x) with ⟨x128, hx, hxNat⟩
  rcases exists_fit (hwide y) with ⟨y128, hy, hyNat⟩
  rcases exists_fit (hwide z) with ⟨z128, hz, hzNat⟩
  have hprod : x128.toNat * y128.toNat < 2 ^ 128 := by
    rw [hxNat, hyNat]
    exact lt_of_lt_of_le (Nat.mul_lt_mul'' x.isLt y.isLt) (by decide)
  rcases exists_fit hprod with ⟨product, hmul, hprodNat⟩
  simp only [multiplyThenDivide, Move.cast, mul, hx, hy, hz, hmul, ok_bind]
  rw [← hxNat, ← hyNat, ← hzNat, ← hprodNat]
  constructor
  · intro h
    rcases of_bind h with ⟨quotient, hdiv, hcast⟩
    rcases div_eq_ok_iff.mp hdiv with ⟨hpos, hquotient⟩
    exact ⟨hpos, (fit_eq_ok_iff.mp hcast).trans hquotient⟩
  · intro h
    rcases @exists_div _ product z128 h.left with ⟨_, hdiv, hquotient⟩
    rw [hdiv, ok_bind, fit_eq_ok_iff, hquotient]
    exact h.right

variable {shares : U64} {pool pool' : Pool address} {shareholder : address}

omit da in
theorem sharesToAmount_eq_ok (pool : Pool address) (h : shares.toNat ≤ pool.totalShares.toNat) :
    pool.sharesToAmount shares =
      .ok (BitVec.ofNat 64 (proportion shares.toNat pool.totalShares.toNat
        pool.totalCoins.toNat)) := by
  have hfits := Nat.lt_of_le_of_lt (@proportion_le _ _ pool.totalCoins.toNat h) pool.totalCoins.isLt
  unfold sharesToAmount sharesToAmountWithTotalCoins
  by_cases hempty : pool.totalCoins = 0 ∨ pool.totalShares = 0
  · rw [if_pos hempty]
    rcases hempty with hcoins | hshares
    · simp [proportion, hcoins]
    · simp [proportion, hshares]
  · rw [if_neg hempty, multiplyThenDivide_eq_ok_iff, BitVec.toNat_ofNat, Nat.mod_eq_of_lt hfits]
    refine ⟨?_, rfl⟩
    intro hzero
    exact hempty (Or.inr (BitVec.eq_of_toNat_eq hzero))

omit da in
theorem amountToShares_price {coinsAmount newShares : U64}
    (h : pool.amountToShares coinsAmount = .ok newShares)
    (hpriced : 0 < pool.totalShares.toNat ∨ pool.totalCoins.toNat = 0) :
    newShares.toNat * pool.totalCoins.toNat ≤ coinsAmount.toNat * pool.totalShares.toNat := by
  unfold amountToShares amountToSharesWithTotalCoins at h
  by_cases hcoins : pool.totalCoins = 0
  · rw [hcoins]
    exact Nat.zero_le _
  have hshares : pool.totalShares ≠ 0 := by
    intro hzero
    rcases hpriced with hpos | hnone
    · rw [hzero] at hpos
      exact absurd hpos (lt_irrefl 0)
    · exact hcoins (BitVec.eq_of_toNat_eq hnone)
  rw [if_neg (not_or.mpr ⟨hcoins, hshares⟩)] at h
  rw [(multiplyThenDivide_eq_ok_iff.mp h).right]
  exact Nat.div_mul_le_self _ _

structure Bought (pool pool' : Pool address) (shareholder : address)
    (coins shares : U64) : Prop where
  limit : pool'.shareholdersLimit = pool.shareholdersLimit
  totalCoins : pool'.totalCoins.toNat = pool.totalCoins.toNat + coins.toNat
  totalShares : pool'.totalShares.toNat = pool.totalShares.toNat + shares.toNat
  self : (pool'.sharesAt shareholder).toNat = (pool.sharesAt shareholder).toNat + shares.toNat
  other : forall other, other ≠ shareholder -> pool'.sharesAt other = pool.sharesAt other
  price : 0 < pool.totalShares.toNat ∨ pool.totalCoins.toNat = 0 ->
    shares.toNat * pool.totalCoins.toNat ≤ coins.toNat * pool.totalShares.toNat

theorem buyIn_bought {coins : U64} (hsound : Sound pool)
    (h : pool.buyIn shareholder coins = .ok (shares, pool')) :
    Sound pool' ∧ Bought pool pool' shareholder coins shares := by
  unfold buyIn at h
  by_cases hzero : coins = 0
  · rw [if_pos hzero] at h
    cases h
    subst hzero
    refine ⟨hsound, rfl, rfl, rfl, rfl, fun _ _ => rfl, ?_⟩
    intro _
    rw [BitVec.ofNat_eq_ofNat, BitVec.toNat_ofNat, Nat.zero_mod, zero_mul, zero_mul]
  · rw [if_neg hzero] at h
    rcases of_bind h with ⟨newShares, hshares, h⟩
    rcases of_bind h with ⟨_, _, h⟩
    rcases of_ensure h with ⟨_, h⟩
    rcases of_bind h with ⟨_, _, h⟩
    rcases of_ensure h with ⟨_, h⟩
    rcases of_bind h with ⟨totalCoins, hcoins, h⟩
    rcases of_bind h with ⟨totalShares, htot, h⟩
    rcases of_bind h with ⟨⟨result, added⟩, hadded, h⟩
    cases h
    rcases @addShares_moved _ _
      { pool with totalCoins := totalCoins, totalShares := totalShares }
      _ _ _ _ { hsound with } hadded with ⟨hlisted, hmoved⟩
    have hcoins := add_eq_ok_iff.mp hcoins
    have htot := add_eq_ok_iff.mp htot
    have hsameCoins : added.totalCoins = totalCoins := hmoved.totalCoins
    have hsameShares : added.totalShares = totalShares := hmoved.totalShares
    have hsoundTot := hsound.total
    have hrecd := hmoved.recorded
    change _ + (pool.sharesAt shareholder).toNat = pool.recordedShares +
      ((pool.sharesAt shareholder).toNat + _) at hrecd
    refine ⟨⟨hlisted, ?_⟩, hmoved.limit, ?_, ?_, hmoved.self, hmoved.other,
      amountToShares_price hshares⟩
    · change added.totalShares.toNat = added.recordedShares
      rw [hsameShares]
      omega
    · rw [hsameCoins, hcoins]
    · rw [hsameShares, htot]

/-!
# Redeeming
-/

omit da in
theorem le_recordedShares {element} (h : element ∈ pool.shares.data) :
    element.2.toNat ≤ pool.recordedShares :=
  le_sum_of_mem (mem_map_of_mem h)

theorem Sound.sharesAt_le (hsound : Sound pool) (shareholder : address) :
    (pool.sharesAt shareholder).toNat ≤ pool.totalShares.toNat := by
  unfold sharesAt
  rw [hsound.total]
  cases hlook : pool.shares.lookup shareholder with
  | none => exact Nat.zero_le _
  | some => exact le_recordedShares (SimpleMap.lookup_eq_some_iff.mp hlook)

structure Redeemed (pool pool' : Pool address) (shareholder : address)
    (shares coins : U64) : Prop where
  limit : pool'.shareholdersLimit = pool.shareholdersLimit
  totalCoins : pool'.totalCoins.toNat + coins.toNat = pool.totalCoins.toNat
  totalShares : pool'.totalShares.toNat + shares.toNat = pool.totalShares.toNat
  self : (pool'.sharesAt shareholder).toNat + shares.toNat = (pool.sharesAt shareholder).toNat
  other : forall other, other ≠ shareholder -> pool'.sharesAt other = pool.sharesAt other
  amount : coins.toNat = proportion shares.toNat pool.totalShares.toNat pool.totalCoins.toNat

theorem exists_redeemShares {held : U64} (hsound : Sound pool)
    (hlook : pool.shares.lookup shareholder = some held) (hle : shares.toNat ≤ held.toNat) :
    exists coins pool', pool.redeemShares shareholder shares = .ok (coins, pool') ∧
        Sound pool' ∧ Redeemed pool pool' shareholder shares coins := by
  have hsharesAt : pool.sharesAt shareholder = held := by
    rw [sharesAt, hlook]
    rfl
  have htot := hsound.sharesAt_le shareholder
  rw [hsharesAt] at htot
  have hamtLe := @proportion_le _ _ pool.totalCoins.toNat (Nat.le_trans hle htot)
  have hamt := pool.sharesToAmount_eq_ok (Nat.le_trans hle htot)
  have hamtNat : (BitVec.ofNat 64 (proportion shares.toNat
    pool.totalShares.toNat pool.totalCoins.toNat)).toNat =
      proportion shares.toNat pool.totalShares.toNat
        pool.totalCoins.toNat := by
    rw [BitVec.toNat_ofNat, Nat.mod_eq_of_lt (Nat.lt_of_le_of_lt hamtLe pool.totalCoins.isLt)]
  simp only [redeemShares, contains_eq, hlook, Option.isSome_some,
    sharesOf_eq, hsharesAt, ensure, if_true, hle, ok_bind]
  by_cases hzero : shares = 0
  · subst hzero
    rw [if_pos rfl]
    refine ⟨0, pool, rfl, hsound, rfl, rfl, rfl, rfl, fun _ _ => rfl, ?_⟩
    simp [proportion]
  · rw [if_neg hzero, hamt, ok_bind]
    rcases exists_sub (hamtNat.symm ▸ hamtLe) with ⟨totalCoins, hcoins, hcoinsNat⟩
    rcases exists_sub (Nat.le_trans hle htot) with ⟨totalShares, hshares, hsharesNat⟩
    rw [hcoins, ok_bind, hshares, ok_bind]
    rcases @exists_deductShares _ _
      { pool with totalCoins := totalCoins, totalShares := totalShares }
      shareholder held shares { hsound with } hlook hle with
      ⟨remaining, pool', hdeduct, hlisted, hmoved⟩
    rw [hdeduct, ok_bind]
    have hrecd := hmoved.recorded
    change _ + (pool.sharesAt shareholder).toNat = pool.recordedShares + _
      at hrecd
    rw [hsharesAt] at hrecd
    have hsameCoins : pool'.totalCoins = totalCoins := hmoved.totalCoins
    have hsameShares : pool'.totalShares = totalShares := hmoved.totalShares
    have hsoundTot := hsound.total
    refine ⟨_, pool', rfl, ⟨hlisted, ?_⟩, hmoved.limit, ?_, ?_, ?_, hmoved.other, hamtNat⟩
    · rw [hsameShares]
      omega
    · rw [hsameCoins]
      omega
    · rw [hsameShares]
      omega
    · rw [hmoved.self, hsharesAt]
      exact Nat.sub_add_cancel hle

theorem redeemShares_redeemed {coins : U64} (hsound : Sound pool)
    (h : pool.redeemShares shareholder shares = .ok (coins, pool')) :
    Sound pool' ∧ Redeemed pool pool' shareholder shares coins := by
  have hcopy := h
  unfold redeemShares at hcopy
  rw [contains_eq, sharesOf_eq] at hcopy
  rcases of_ensure hcopy with ⟨hcontains, hcopy⟩
  rw [ok_bind] at hcopy
  have hle := (of_ensure hcopy).left
  rcases Option.isSome_iff_exists.mp hcontains with ⟨_, hlook⟩
  rw [sharesAt, hlook, Option.getD_some] at hle
  rcases exists_redeemShares hsound hlook hle with ⟨_, _, hredeem, hres⟩
  cases h.symm.trans hredeem
  exact hres

theorem transferShares_sound {shareholder1 shareholder2 : address} (hsound : Sound pool)
    (h : pool.transferShares shareholder1 shareholder2 shares = .ok pool') :
    Sound pool' ∧ pool'.shareholdersLimit = pool.shareholdersLimit := by
  unfold transferShares at h
  rw [contains_eq, sharesOf_eq] at h
  rcases of_ensure h with ⟨hcontains, h⟩
  rw [ok_bind] at h
  rcases of_ensure h with ⟨hle, h⟩
  by_cases hzero : shares = 0
  · rw [if_pos hzero] at h
    cases h
    exact ⟨hsound, rfl⟩
  rw [if_neg hzero] at h
  rcases Option.isSome_iff_exists.mp hcontains with ⟨held, hlook⟩
  have hsharesAt : pool.sharesAt shareholder1 = held := by
    rw [sharesAt, hlook]
    rfl
  rw [hsharesAt] at hle
  rcases exists_deductShares hsound.toListed hlook hle with
    ⟨remaining, middle, hdeduct, hlisted, hdeducted⟩
  rw [hdeduct, ok_bind] at h
  rcases of_bind h with ⟨⟨result, added⟩, hadd, h⟩
  cases h
  rcases addShares_moved hlisted hadd with ⟨hlisted', hadded⟩
  refine ⟨⟨hlisted', ?_⟩, hadded.limit.trans hdeducted.limit⟩
  change added.totalShares.toNat = added.recordedShares
  have hfirst := hdeducted.recorded
  have hsnd := hadded.recorded
  have htot := hsound.total
  rw [hsharesAt] at hfirst
  rw [hadded.totalShares, hdeducted.totalShares]
  omega

theorem perform_sound {call} (hsound : Sound pool) (h : pool.perform call = .ok pool') :
    Sound pool' ∧ pool'.shareholdersLimit = pool.shareholdersLimit := by
  cases call with
  | buyIn =>
    rcases of_bind h with ⟨_, hbuy, h⟩
    cases h
    rcases buyIn_bought hsound hbuy with ⟨hsound', hbought⟩
    exact ⟨hsound', hbought.limit⟩
  | redeemShares =>
    rcases of_bind h with ⟨_, hredeem, h⟩
    cases h
    rcases redeemShares_redeemed hsound hredeem with ⟨hsound', hredeemed⟩
    exact ⟨hsound', hredeemed.limit⟩
  | transferShares => exact transferShares_sound hsound h
  | updateTotalCoins =>
    cases h
    exact ⟨{ hsound with }, rfl⟩

theorem attempt_sound (hsound : Sound pool) (call : Call address) : Sound (pool.attempt call) ∧
    (pool.attempt call).shareholdersLimit = pool.shareholdersLimit := by
  unfold attempt
  cases hperform : pool.perform call with
  | ok => exact perform_sound hsound hperform
  | err | panic => exact ⟨hsound, rfl⟩

theorem afterCalls_sound (shareholdersLimit scalingFactor : U64) (calls : List (Call address)) :
    Sound (afterCalls shareholdersLimit scalingFactor calls) ∧
      (afterCalls shareholdersLimit scalingFactor calls).shareholdersLimit = shareholdersLimit := by
  have hall (calls : List (Call address)) (pool : Pool address)
    (hsound : Sound pool) : Sound (calls.foldl attempt pool) ∧
      (calls.foldl attempt pool).shareholdersLimit = pool.shareholdersLimit := by
    induction calls generalizing pool with
    | nil => exact ⟨hsound, rfl⟩
    | cons call calls ih =>
      rcases attempt_sound hsound call with ⟨hsound', hlim⟩
      rcases ih _ hsound' with ⟨hend, hendLim⟩
      exact ⟨hend, hendLim.trans hlim⟩
  apply hall
  exact { keys := List.Perm.refl _
          limited := Nat.zero_le _
          positive := by
            intro _ helem
            cases helem
          total := rfl }

/-!
# Balances
-/

def balanceAt (pool : Pool address) (shareholder : address) : U64 :=
  BitVec.ofNat 64 (proportion (pool.sharesAt shareholder).toNat
    pool.totalShares.toNat pool.totalCoins.toNat)

theorem balance_eq (hsound : Sound pool) (shareholder : address) :
    pool.balance shareholder = .ok (pool.balanceAt shareholder) := by
  rw [balance, sharesOf_eq, ok_bind]
  exact pool.sharesToAmount_eq_ok (hsound.sharesAt_le shareholder)

theorem toNat_balanceAt (hsound : Sound pool) (shareholder : address) :
    (pool.balanceAt shareholder).toNat =
      proportion (pool.sharesAt shareholder).toNat pool.totalShares.toNat
        pool.totalCoins.toNat := by
  rw [balanceAt, BitVec.toNat_ofNat]
  apply Nat.mod_eq_of_lt
  exact Nat.lt_of_le_of_lt (proportion_le (hsound.sharesAt_le shareholder)) pool.totalCoins.isLt

theorem Listed.sum_sharesAt (hlisted : Listed pool) : (pool.shareholders.map fun shareholder =>
      (pool.sharesAt shareholder).toNat).sum = pool.recordedShares := by
  rw [(hlisted.keys.map _).sum_eq, map_map, recordedShares]
  congr 1
  apply map_congr_left
  intro element helem
  have hlook : pool.shares.lookup element.1 = some element.2 :=
    SimpleMap.lookup_eq_some_iff.mpr helem
  change ((pool.shares.lookup element.1).getD 0).toNat = _
  rw [hlook]
  rfl

theorem Sound.sum_balanceAt_le (hsound : Sound pool) :
    ((pool.shareholders.map pool.balanceAt).map BitVec.toNat).sum ≤ pool.totalCoins.toNat := by
  have hbals : (pool.shareholders.map pool.balanceAt).map BitVec.toNat =
    (pool.shareholders.map fun shareholder =>
        (pool.sharesAt shareholder).toNat).map fun shares =>
          proportion shares pool.totalShares.toNat
            pool.totalCoins.toNat := by
    rw [map_map, map_map]
    apply map_congr_left
    intro shareholder _
    exact toNat_balanceAt hsound shareholder
  rw [hbals]
  calc
    _ ≤ proportion (pool.shareholders.map fun shareholder =>
          (pool.sharesAt shareholder).toNat).sum pool.totalShares.toNat
          pool.totalCoins.toNat := sum_proportion_le _ _ _
    _ ≤ pool.totalCoins.toNat := by
      apply proportion_le
      rw [hsound.toListed.sum_sharesAt, hsound.total]

theorem afterCalls_accounted (shareholdersLimit scalingFactor : U64) (calls : List (Call address)) :
    let pool := afterCalls shareholdersLimit scalingFactor calls
  pool.totalShares.toNat = (pool.shares.data.map fun element => element.2.toNat).sum ∧
    pool.shareholders.Perm (pool.shares.data.map Prod.fst) ∧
    pool.shareholders.Nodup ∧
    pool.shareholders.length ≤ shareholdersLimit.toNat ∧
    (forall element, element ∈ pool.shares.data -> 0 < element.2.toNat) ∧
    (exists balances, Outcome.tryMap pool.balance pool.shareholders = Outcome.ok balances ∧
        (balances.map BitVec.toNat).sum ≤ pool.totalCoins.toNat) ∧
    forall shareholder held shares, (shareholder, held) ∈ pool.shares.data ->
        shares.toNat ≤ held.toNat -> exists coins pool', pool.redeemShares shareholder shares =
              Outcome.ok (coins, pool') := by
  intro pool
  have hsound : Sound pool := (afterCalls_sound shareholdersLimit scalingFactor calls).left
  have hlimit : pool.shareholdersLimit = shareholdersLimit :=
    (afterCalls_sound shareholdersLimit scalingFactor calls).right
  refine ⟨hsound.total, hsound.keys, ?_, ?_, hsound.positive, ?_, ?_⟩
  · exact hsound.keys.nodup_iff.mpr pool.shares.keys_nodup
  · rw [← hlimit]
    exact hsound.limited
  · refine ⟨pool.shareholders.map pool.balanceAt, ?_, hsound.sum_balanceAt_le⟩
    apply Outcome.tryMap_eq_ok
    intro shareholder _
    exact balance_eq hsound shareholder
  · intro _ _ _ helement hle
    rcases exists_redeemShares hsound (SimpleMap.lookup_eq_some_iff.mpr helement) hle with
      ⟨coins, pool', hredeem, _⟩
    exact ⟨coins, pool', hredeem⟩

end Pool
end OpenLibra.Pools
