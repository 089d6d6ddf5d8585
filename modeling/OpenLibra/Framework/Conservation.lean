import OpenLibra.Framework.Movement

/-!
# Conservation of the supply

For every coin type with a tracked supply, the supply is the sum of what the stores, the fees
and the loose coins hold.
-/

namespace OpenLibra.Framework

open Move Tables Option

variable {address coinType : Type}

/-!
# Holdings
-/

namespace Resources

def inStores (s : Resources address coinType) (t : coinType) : Nat :=
  total storeValue (s.coinStores t)

def inFees (s : Resources address coinType) : Nat :=
  (s.collectedFees.map fun fees => fees.amount.value.value.toNat).getD 0 +
    (s.validatorFees.map (total fun coin => coin.value.toNat)).getD 0

theorem KeepsFees.inFees {s s' : Resources address coinType} (h : KeepsFees s s') :
    s'.inFees = s.inFees := by
  unfold Resources.inFees
  rw [h.collectedFees, h.validatorFees]

end Resources

variable [DecidableEq coinType] (t : coinType) (amount : Nat) (frame : coinType -> Nat)

def plus : coinType -> Nat :=
  fun t' => (if t' = t then amount else 0) + frame t'

@[simp] theorem plus_self : plus t amount frame t = amount + frame t := by
  simp [plus]

theorem plus_of_ne {t t' : coinType} (h : t' ≠ t) (amount : Nat) (frame : coinType -> Nat) :
    plus t amount frame t' = frame t' := by
  simp [plus, h]

theorem plus_zero (t : coinType) (frame : coinType -> Nat) : plus t 0 frame = frame := by
  funext t'
  simp [plus]

theorem plus_add (t : coinType) (a b : Nat) (frame : coinType -> Nat) :
    plus t (a + b) frame = plus t a (plus t b frame) := by
  funext t'
  by_cases ht : t' = t
  · subst ht
    simp only [plus_self]
    exact add_assoc _ _ _
  · simp only [plus_of_ne ht]

namespace Resources

variable (chain : Chain address coinType) (s : Resources address coinType)

def holdings (t : coinType) : Nat :=
  s.inStores t + if t = chain.olCoin then s.inFees else 0

def supplyValue (s : Resources address coinType) (t : coinType) : Option Nat :=
  match s.coinInfo t with
  | none => some 0
  | some info => info.supply.map fun supply => supply.read.toNat

def Balances (loose : coinType -> Nat) : Prop :=
  forall t v, s.supplyValue t = some v -> v = s.holdings chain t + loose t

variable {chain : Chain address coinType} {s s' : Resources address coinType} {t : coinType}
  {frame : coinType -> Nat} {a b : Nat}

/-!
# Rules for writing resources
-/

theorem Balances.shift (h : Balances chain s (plus t b frame)) (hinfo : s'.coinInfo = s.coinInfo)
    (hother : forall t', t' ≠ t -> s'.holdings chain t' = s.holdings chain t')
    (hself : s'.holdings chain t + a = s.holdings chain t + b) :
    Balances chain s' (plus t a frame) := by
  intro t' v hv
  have hbef := h t' v (by rw [← hv]; unfold supplyValue; rw [hinfo])
  by_cases ht : t' = t
  · subst ht
    rw [plus_self] at hbef ⊢
    omega
  · rw [plus_of_ne ht] at hbef ⊢
    rw [hother t' ht]
    exact hbef

theorem Balances.congr (h : Balances chain s frame) (hinfo : s'.coinInfo = s.coinInfo)
    (hstores : s'.coinStores = s.coinStores) (hfees : s'.inFees = s.inFees) :
    Balances chain s' frame := by
  intro t v hv
  have hbef := h t v (by rw [← hv]; unfold supplyValue; rw [hinfo])
  unfold holdings inStores at hbef ⊢
  rw [hstores, hfees]
  exact hbef

theorem Balances.setSupply (h : Balances chain s (plus t b frame)) {info : CoinInfo}
    {supply supply'} (hinfo : s.borrowCoinInfo t = .ok info) (hsup : info.supply = some supply)
    (hval : supply'.read.toNat + b = supply.read.toNat + a) :
    Balances chain (s.setCoinInfo t { info with supply := some supply' })
      (plus t a frame) := by
  have hbef := h t supply.read.toNat (by
    unfold supplyValue
    rw [borrowGlobal_eq_ok_iff.mp hinfo]
    simp [hsup])
  intro t' v hv
  unfold supplyValue at hv
  by_cases ht : t' = t
  · subst ht
    simp only [coinInfo_setCoinInfo_self, map_some, Option.some.injEq] at hv
    rw [plus_self] at hbef ⊢
    change v = s.holdings chain t' + (a + frame t')
    omega
  · rw [coinInfo_setCoinInfo_of_ne ht] at hv
    have hother := h t' v hv
    rw [plus_of_ne ht] at hother ⊢
    exact hother

theorem Balances.untracked (h : Balances chain s (plus t b frame)) {info : CoinInfo}
    (hinfo : s.borrowCoinInfo t = .ok info) (hsup : info.supply = none) (a : Nat) :
    Balances chain s (plus t a frame) := by
  intro t' v hv
  by_cases ht : t' = t
  · subst ht
    unfold supplyValue at hv
    rw [borrowGlobal_eq_ok_iff.mp hinfo] at hv
    simp [hsup] at hv
  · have hother := h t' v hv
    rw [plus_of_ne ht] at hother ⊢
    exact hother

theorem Balances.setFees (h : Balances chain s (plus chain.olCoin b frame))
    (hinfo : s'.coinInfo = s.coinInfo) (hstores : s'.coinStores = s.coinStores)
    (hfees : s'.inFees + a = s.inFees + b) : Balances chain s' (plus chain.olCoin a frame) := by
  refine h.shift hinfo ?_ ?_
  · intro t' ht
    unfold holdings inStores
    rw [hstores, if_neg ht, if_neg ht]
  · unfold holdings inStores
    rw [hstores, if_pos rfl, if_pos rfl]
    omega

theorem Balances.publish (h : Balances chain s frame) (habs : s.coinInfo t = none) {info : CoinInfo}
    (hsup : forall supply, info.supply = some supply -> supply.read.toNat = 0) :
    Balances chain (s.setCoinInfo t info) frame := by
  intro t' v hv
  unfold supplyValue at hv
  by_cases ht : t' = t
  · subst ht
    rw [coinInfo_setCoinInfo_self] at hv
    rcases map_eq_some_iff.mp hv with ⟨supply, hinfo, rfl⟩
    rw [hsup supply hinfo]
    exact h t' 0 (by unfold supplyValue; rw [habs])
  · rw [coinInfo_setCoinInfo_of_ne ht] at hv
    exact h t' v hv

variable [DecidableEq address]

theorem Balances.setCoinStore (h : Balances chain s (plus t b frame))
    {accountAddr : address} {store}
    (hval : store.coin.value.toNat + a = weightAt storeValue (s.coinStores t) accountAddr + b) :
    Balances chain (s.setCoinStore t accountAddr store) (plus t a frame) := by
  have hfees : (s.setCoinStore t accountAddr store).inFees = s.inFees := rfl
  refine h.shift rfl ?_ ?_
  · intro t' ht
    unfold holdings inStores
    rw [coinStores_setCoinStore_of_ne ht, hfees]
  · have htot := total_insert storeValue accountAddr store (s.coinStores t)
    have hstore : storeValue store = store.coin.value.toNat := rfl
    unfold holdings inStores
    rw [coinStores_setCoinStore_self, hfees]
    omega

theorem Moves.balances (h : Moves t s a b s') (hbals : Balances chain s (plus t a frame)) :
    Balances chain s' (plus t b frame) := by
  induction h with
  | untouched hinfo hstores hfees => exact hbals.congr hinfo hstores hfees.inFees
  | untracked hinfo hsup a b => exact hbals.untracked hinfo hsup b
  | supply hinfo hsup hval => exact hbals.setSupply hinfo hsup hval
  | publish habs hzero => exact hbals.publish habs hzero
  | store hval => exact hbals.setCoinStore hval
  | trans _ _ hfirst hsnd => exact hsnd (hfirst hbals)

theorem FeeMoves.balances (h : FeeMoves chain s a b s')
    (hbals : Balances chain s (plus chain.olCoin a frame)) :
    Balances chain s' (plus chain.olCoin b frame) := by
  induction h with
  | coins h => exact h.balances hbals
  | collected hpct hval =>
    refine hbals.setFees rfl rfl ?_
    unfold collectedValue at hval
    simp only [inFees, map_some, getD_some]
    omega
  | @recorded s table validatorAddr grown a htable =>
    refine hbals.setFees rfl rfl ?_
    have hinsert := total_insert (fun coin : Coin => coin.value.toNat) validatorAddr grown table
    simp only [inFees, htable, map_some, getD_some]
    omega
  | trans _ _ hfirst hsnd => exact hsnd (hfirst hbals)

end Resources

end OpenLibra.Framework
