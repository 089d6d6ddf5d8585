import OpenLibra.Framework.TransactionFee

/-!
# What the functions do to the resources

This is said once for each function; the conservation of the supply and the configuration of the
fees follow from it.
-/

namespace OpenLibra.Framework

open Rust Move Tables

variable {address coinType : Type}

namespace Resources

structure KeepsFees (s s' : Resources address coinType) : Prop where
  collectedFees : s'.collectedFees = s.collectedFees
  validatorFees : s'.validatorFees = s.validatorFees

variable {s s' s'' : Resources address coinType}

theorem KeepsFees.refl (s : Resources address coinType) : KeepsFees s s := ⟨rfl, rfl⟩

theorem KeepsFees.trans (h : KeepsFees s s') (h' : KeepsFees s' s'') : KeepsFees s s'' where
  collectedFees := h'.collectedFees.trans h.collectedFees
  validatorFees := h'.validatorFees.trans h.validatorFees

variable [DecidableEq address] {validatorAddr accountAddr account : address} {a b : Nat}
  {store store' : CoinStore} {amount : U64} {coin : Coin} {monitorSupply : Bool}
  {burnPercentage : U8}

theorem addTransactionFee_eq_ok {fee : Coin} (h : s.addTransactionFee validatorAddr fee = .ok s') :
    exists table grown, s.validatorFees = some table ∧ grown.value.toNat =
        weightAt (fun coin => coin.value.toNat) table validatorAddr + fee.value.toNat ∧
      s' = { s with
        validatorFees := some (table.insert validatorAddr grown) } := by
  rcases of_bind h with ⟨table, htable, h⟩
  have hfound := borrowGlobal_eq_ok_iff.mp htable
  cases hlook : table.lookup validatorAddr with
  | none =>
    simp only [hlook] at h
    cases h
    refine ⟨table, fee, hfound, ?_, rfl⟩
    rw [weightAt_of_notMem hlook, zero_add]
  | some =>
    simp only [hlook] at h
    rcases of_bind h with ⟨merged, hmerge, h⟩
    cases h
    refine ⟨table, merged, hfound, ?_, rfl⟩
    rw [weightAt_of_lookup hlook]
    exact merge_eq_ok_iff.mp hmerge

/-!
# Movements of coins
-/

variable [DecidableEq coinType]

def storeValue (store : CoinStore) : Nat := store.coin.value.toNat

/-- From `s` to `s'`, with so much loose value before and after. -/
inductive Moves (t : coinType) : Resources address coinType -> Nat -> Nat ->
    Resources address coinType -> Prop where
  | untouched {s s' : Resources address coinType} (hinfo : s'.coinInfo = s.coinInfo)
      (hstores : s'.coinStores = s.coinStores) (hfees : KeepsFees s s')
      (a : Nat) : Moves t s a a s'
  | untracked {s : Resources address coinType} {info : CoinInfo}
      (hinfo : s.borrowCoinInfo t = .ok info)
      (hsup : info.supply = none) (a b : Nat) : Moves t s a b s
  | supply {s : Resources address coinType} {info : CoinInfo}
      {supply supply' : OptionalAggregator} {a b : Nat}
      (hinfo : s.borrowCoinInfo t = .ok info)
      (hsup : info.supply = some supply)
      (hval : supply'.read.toNat + a = supply.read.toNat + b) :
      Moves t s a b (s.setCoinInfo t { info with supply := some supply' })
  | publish {s : Resources address coinType} {info : CoinInfo} (habs : s.coinInfo t = none)
      (hzero : forall supply, info.supply = some supply -> supply.read.toNat = 0) (a : Nat) :
      Moves t s a a (s.setCoinInfo t info)
  | store {s : Resources address coinType} {accountAddr : address}
      {store : CoinStore} {a b : Nat}
      (hval : store.coin.value.toNat + b = weightAt storeValue (s.coinStores t) accountAddr + a) :
      Moves t s a b (s.setCoinStore t accountAddr store)
  | trans {s s' s'' : Resources address coinType} {a b c : Nat}
      (hfirst : Moves t s a b s') (hsnd : Moves t s' b c s'') :
      Moves t s a c s''

variable {chain : Chain address coinType} {t : coinType}

theorem Moves.same (s : Resources address coinType) (a : Nat) : Moves t s a a s :=
  .untouched rfl rfl (KeepsFees.refl s) a

theorem Moves.keepsFees (h : Moves t s a b s') : KeepsFees s s' := by
  induction h with
  | untouched _ _ hfees => exact hfees
  | untracked => exact KeepsFees.refl _
  | supply | publish | store => exact ⟨rfl, rfl⟩
  | trans _ _ hfirst hsnd => exact hfirst.trans hsnd

theorem Moves.frame (h : Moves t s a b s') (c : Nat) : Moves t s (a + c) (b + c) s' := by
  induction h with
  | untouched hinfo hstores hfees a => exact .untouched hinfo hstores hfees (a + c)
  | untracked hinfo hsup a b => exact .untracked hinfo hsup (a + c) (b + c)
  | supply hinfo hsup =>
    apply Moves.supply hinfo hsup
    omega
  | publish habs hzero a => exact .publish habs hzero (a + c)
  | store =>
    apply Moves.store
    omega
  | trans _ _ hfirst hsnd => exact .trans hfirst hsnd

theorem Moves.replaceStore (hstore : s.borrowCoinStore t accountAddr = .ok store)
    (hval : store'.coin.value.toNat + b = store.coin.value.toNat + a) :
    Moves t s a b (s.setCoinStore t accountAddr store') := by
  apply Moves.store
  rw [weightAt_of_lookup (borrowGlobal_eq_ok_iff.mp hstore)]
  exact hval

theorem Moves.extract {out : Coin} (hstore : s.borrowCoinStore t accountAddr = .ok store)
    (hextr : extract store.coin amount = .ok (store'.coin, out)) :
    Moves t s 0 out.value.toNat (s.setCoinStore t accountAddr store') := by
  rcases extract_eq_ok hextr with ⟨hval, rfl⟩
  exact Moves.replaceStore hstore hval

theorem moves_mint (h : s.mint t amount = .ok (coin, s')) : Moves t s 0 coin.value.toNat s' := by
  unfold mint at h
  split at h
  · cases h
    exact Moves.same s 0
  · rcases of_bind h with ⟨info, hinfo, h⟩
    cases hsup : info.supply with
    | none =>
      simp only [hsup] at h
      cases h
      exact .untracked hinfo hsup _ _
    | some =>
      simp only [hsup] at h
      rcases of_bind h with ⟨_, hamt, h⟩
      rcases of_bind h with ⟨_, hadd, h⟩
      cases h
      apply Moves.supply hinfo hsup
      rw [OptionalAggregator.read_add hadd, Move.cast_eq_ok_iff.mp hamt, add_zero]

theorem moves_burn (h : s.burn t coin = .ok s') : Moves t s coin.value.toNat 0 s' := by
  rcases of_ensure h with ⟨_, h⟩
  rcases of_bind h with ⟨info, hinfo, h⟩
  cases hsup : info.supply with
  | none =>
    simp only [hsup] at h
    cases h
    exact .untracked hinfo hsup _ _
  | some =>
    simp only [hsup] at h
    rcases of_bind h with ⟨_, hamt, h⟩
    rcases of_bind h with ⟨_, hsub, h⟩
    cases h
    apply Moves.supply hinfo hsup
    rw [← Move.cast_eq_ok_iff.mp hamt, OptionalAggregator.read_sub hsub, add_zero]

theorem moves_burnFrom (h : s.burnFrom t accountAddr amount = .ok s') : Moves t s 0 0 s' := by
  unfold burnFrom at h
  split at h
  · cases h
    exact Moves.same s 0
  · rcases of_bind h with ⟨_, hstore, h⟩
    rcases of_bind h with ⟨⟨_, _⟩, hextr, h⟩
    exact .trans (Moves.extract hstore hextr) (moves_burn h)

/-!
# Stores
-/

theorem moves_deposit (h : s.deposit t accountAddr coin = .ok s') :
    Moves t s coin.value.toNat 0 s' := by
  rcases of_ensure h with ⟨_, h⟩
  rcases of_bind h with ⟨_, hstore, h⟩
  rcases of_ensure h with ⟨_, h⟩
  rcases of_bind h with ⟨_, _, h⟩
  rcases of_bind h with ⟨_, hmerge, h⟩
  cases h
  exact Moves.replaceStore hstore (merge_eq_ok_iff.mp hmerge)

theorem moves_withdraw (h : s.withdraw t account amount = .ok (coin, s')) :
    Moves t s 0 coin.value.toNat s' := by
  rcases of_ensure h with ⟨_, h⟩
  rcases of_bind h with ⟨_, hstore, h⟩
  rcases of_ensure h with ⟨_, h⟩
  rcases of_bind h with ⟨_, _, h⟩
  rcases of_bind h with ⟨⟨_, _⟩, hextr, h⟩
  cases h
  exact Moves.extract hstore hextr

theorem moves_transfer {sender recipient : address}
    (h : s.transfer t sender recipient amount = .ok s') : Moves t s 0 0 s' := by
  rcases of_bind h with ⟨⟨_, _⟩, hwithdraw, h⟩
  exact .trans (moves_withdraw hwithdraw) (moves_deposit h)

theorem moves_setFrozen {frozen : Bool} (h : s.setFrozen frozen t accountAddr = .ok s') :
    Moves t s 0 0 s' := by
  rcases of_bind h with ⟨_, hstore, h⟩
  cases h
  exact Moves.replaceStore hstore rfl

theorem moves_register (h : s.register t account = .ok s') : Moves t s 0 0 s' := by
  unfold register at h
  split at h
  · cases h
    exact Moves.same s 0
  · next hreg =>
      rcases of_bind h with ⟨_, hfirst, h⟩
      rcases of_bind h with ⟨⟨_, _⟩, hsnd, h⟩
      rcases of_bind h with ⟨⟨_, _⟩, hthird, h⟩
      rcases registerCoin_eq_ok hfirst with ⟨_, rfl⟩
      rcases newEventHandle_eq_ok hsnd with ⟨_, rfl⟩
      rcases newEventHandle_eq_ok hthird with ⟨accounts, rfl⟩
      cases h
      have habs : (s.coinStores t).lookup account = none := by
        simpa [isAccountRegistered] using hreg
      have haccounts : Moves t s 0 0 { s with accounts := accounts } := by
        refine .untouched ?_ ?_ ⟨?_, ?_⟩ 0 <;> rfl
      apply Moves.trans haccounts
      apply Moves.store
      rw [weightAt_of_notMem habs]
      rfl

theorem moves_collectIntoAggregatableCoin {dstCoin collected}
    (h : s.collectIntoAggregatableCoin t accountAddr amount dstCoin = .ok (collected, s')) :
    exists gained, collected.value.value.toNat =
        dstCoin.value.value.toNat + gained ∧ Moves t s 0 gained s' := by
  unfold collectIntoAggregatableCoin at h
  split at h
  · cases h
    exact ⟨0, rfl, Moves.same s 0⟩
  · rcases of_bind h with ⟨_, hstore, h⟩
    rcases of_bind h with ⟨⟨_, out⟩, hextr, h⟩
    rcases of_bind h with ⟨_, hmerge, h⟩
    cases h
    exact ⟨out.value.toNat, mergeAggregatableCoin_eq_ok hmerge, Moves.extract hstore hextr⟩

theorem moves_upgradeSupply (h : s.upgradeSupply chain t account = .ok s') : Moves t s 0 0 s' := by
  rcases of_ensure h with ⟨_, h⟩
  rcases of_bind h with ⟨_, _, h⟩
  rcases of_ensure h with ⟨_, h⟩
  rcases of_bind h with ⟨info, hinfo, h⟩
  cases hsup : info.supply with
  | none =>
    simp only [hsup] at h
    cases h
    exact Moves.same s 0
  | some =>
    simp only [hsup] at h
    split at h
    · cases h
      exact Moves.same s 0
    · rcases of_bind h with ⟨_, hswitch, h⟩
      cases h
      apply Moves.supply hinfo hsup
      rw [OptionalAggregator.read_switch hswitch]

theorem moves_initializeInternal {name symbol : String} {decimals : U8} {parallelizable : Bool}
    (h : s.initializeInternal chain t account name symbol decimals monitorSupply parallelizable =
      .ok
      s') : Moves t s 0 0 s' := by
  rcases of_ensure h with ⟨_, h⟩
  rcases of_ensure h with ⟨habs, h⟩
  rcases of_ensure h with ⟨_, h⟩
  rcases of_ensure h with ⟨_, h⟩
  split at h
  · rcases of_bind h with ⟨_, hnew, h⟩
    cases h
    refine .publish habs ?_ 0
    intro supply hsup
    cases hsup
    exact OptionalAggregator.read_new hnew
  · cases h
    refine .publish habs ?_ 0
    intro _ hsup
    cases hsup

theorem moves_initializeWithParallelizableSupply {name symbol : String} {decimals : U8}
    (h : s.initializeWithParallelizableSupply chain t account name symbol decimals monitorSupply =
      .ok s') : Moves t s 0 0 s' := by
  rcases of_check h with ⟨_, h⟩
  exact moves_initializeInternal h

/-!
# The coin of the chain
-/

theorem moves_initializeOlCoin (h : s.initializeOlCoin chain account = .ok s') :
    Moves chain.olCoin s 0 0 s' := by
  rcases of_check h with ⟨_, h⟩
  rcases of_bind h with ⟨_, hmid, h⟩
  rcases of_ensure h with ⟨_, h⟩
  cases h
  refine .trans (moves_initializeWithParallelizableSupply hmid) ?_
  refine .untouched ?_ ?_ ⟨?_, ?_⟩ 0 <;> rfl

theorem moves_olMint {dstAddr : address} (h : s.olMint chain account dstAddr amount = .ok s') :
    Moves chain.olCoin s 0 0 s' := by
  rcases of_ensure h with ⟨_, h⟩
  rcases of_bind h with ⟨⟨_, _⟩, hmint, h⟩
  exact .trans (moves_mint hmint) (moves_deposit h)

theorem moves_burnFee {fee : U64} (h : s.burnFee chain account fee = .ok s') :
    Moves chain.olCoin s 0 0 s' := by
  rcases of_ensure h with ⟨_, h⟩
  exact moves_burnFrom h

theorem moves_burnCoinFraction {rest : Coin}
    (h : s.burnCoinFraction chain coin burnPercentage = .ok (rest, s')) :
    Moves chain.olCoin s coin.value.toNat rest.value.toNat s' := by
  rcases of_ensure h with ⟨_, h⟩
  rcases of_bind h with ⟨_, _, h⟩
  rcases of_bind h with ⟨_, _, h⟩
  dsimp only at h
  split at h
  · rcases of_bind h with ⟨⟨left, _⟩, hextr, h⟩
    rcases of_ensure h with ⟨_, h⟩
    rcases of_bind h with ⟨_, hburn, h⟩
    cases h
    rcases extract_eq_ok hextr with ⟨hval, rfl⟩
    have hmoves := (moves_burn hburn).frame left.value.toNat
    rw [zero_add, add_comm, hval] at hmoves
    exact hmoves
  · cases h
    exact Moves.same s _

theorem moves_burnCollected (h : s.burnCollected chain coin = .ok s') :
    Moves chain.olCoin s coin.value.toNat 0 s' := by
  rcases of_bind h with ⟨⟨_, _⟩, hburn, h⟩
  rcases of_check h with ⟨hzero, h⟩
  cases h
  have hmoves := moves_burnCoinFraction hburn
  rw [destroyZero_eq_ok_iff.mp hzero] at hmoves
  exact hmoves

/-!
# Fees
-/

def collectedValue (s : Resources address coinType) : Nat :=
  (s.collectedFees.map fun fees => fees.amount.value.value.toNat).getD 0

def PercentageFrom (s : Resources address coinType) (fees : CollectedFeesPerBlock address) : Prop :=
  fees.burnPercentage.toNat ≤ 100 ∨
    exists before, s.collectedFees = some before ∧ fees.burnPercentage = before.burnPercentage

/-- From `s` to `s'`, with so much loose value of the coin of the chain before
and after.  Fees are recorded only in a table that is there. -/
inductive FeeMoves (chain : Chain address coinType) : Resources address coinType -> Nat -> Nat ->
    Resources address coinType -> Prop where
  | coins {s s' : Resources address coinType} {a b : Nat}
      (h : Moves chain.olCoin s a b s') : FeeMoves chain s a b s'
  | collected {s : Resources address coinType}
      {fees : CollectedFeesPerBlock address} {a b : Nat}
      (hpct : s.PercentageFrom fees)
      (hval : fees.amount.value.value.toNat + b = s.collectedValue + a) :
      FeeMoves chain s a b { s with collectedFees := some fees }
  | recorded {s : Resources address coinType}
      {table : AList fun _ : address => Coin} {validatorAddr : address}
      {grown : Coin} {a : Nat} (htable : s.validatorFees = some table)
      (hval : grown.value.toNat =
        weightAt (fun coin => coin.value.toNat) table validatorAddr + a) :
      FeeMoves chain s a 0
        { s with
          validatorFees := some (table.insert validatorAddr grown) }
  | trans {s s' s'' : Resources address coinType} {a b c : Nat} (hfirst : FeeMoves chain s a b s')
      (hsnd : FeeMoves chain s' b c s'') : FeeMoves chain s a c s''

theorem FeeMoves.setProposer {fees}
    (hfees : s.collectedFees = some fees) (proposer : Option address) : FeeMoves chain s 0 0
      { s with collectedFees := some { fees with proposer := proposer } } := by
  apply FeeMoves.collected
  · exact .inr ⟨fees, hfees, rfl⟩
  · simp [collectedValue, hfees]

theorem feeMoves_addTransactionFee {fee : Coin}
    (h : s.addTransactionFee validatorAddr fee = .ok s') :
    FeeMoves chain s fee.value.toNat 0 s' := by
  rcases addTransactionFee_eq_ok h with ⟨_, _, htable, hval, rfl⟩
  exact .recorded htable hval

theorem feeMoves_initializeFeeCollection
    (h : s.initializeFeeCollectionAndDistribution chain account burnPercentage = .ok s') :
    FeeMoves chain s 0 0 s' := by
  rcases of_check h with ⟨_, h⟩
  rcases of_ensure h with ⟨habs, h⟩
  rcases of_ensure h with ⟨hpct, h⟩
  rcases of_bind h with ⟨_, hamt, h⟩
  cases h
  apply FeeMoves.collected
  · exact .inl hpct
  · simp [collectedValue, Option.isNone_iff_eq_none.mp habs, value_initializeAggregatableCoin hamt]

theorem feeMoves_registerProposer (proposerAddr : address) : FeeMoves chain s 0 0
    (s.registerProposerForFeeCollection proposerAddr) := by
  unfold registerProposerForFeeCollection
  cases hfees : s.collectedFees with
  | none => exact .coins (Moves.same s 0)
  | some => exact FeeMoves.setProposer hfees (some proposerAddr)

theorem feeMoves_processCollectedFees (h : s.processCollectedFees chain = .ok s') :
    FeeMoves chain s 0 0 s' := by
  unfold processCollectedFees at h
  cases hfees : s.collectedFees with
  | none =>
    simp only [hfees] at h
    cases h
    exact .coins (Moves.same s 0)
  | some fees =>
    simp only [hfees] at h
    split at h
    · cases h
      exact FeeMoves.setProposer hfees none
    · rcases of_bind h with ⟨⟨amount, coin⟩, hdrain, h⟩
      rcases drainAggregatableCoin_eq_ok hdrain with ⟨hamt, hcoin⟩
      -- The drained coin is loose until it is burnt or recorded.
      have hdrained : FeeMoves chain s 0 coin.value.toNat
        { s with
          collectedFees := some
            { fees with amount := amount, proposer := none } } := by
        apply FeeMoves.collected
        · exact .inr ⟨fees, hfees, rfl⟩
        · simp [collectedValue, hfees, hamt, hcoin]
      apply FeeMoves.trans hdrained
      cases hprop : fees.proposer with
      | none =>
        simp only [hprop] at h
        exact .coins (moves_burnCollected h)
      | some =>
        simp only [hprop] at h
        split at h
        · exact .coins (moves_burnCollected h)
        · rcases of_bind h with ⟨⟨_, _⟩, hburn, h⟩
          exact .trans (.coins (moves_burnCoinFraction hburn)) (feeMoves_addTransactionFee h)

theorem feeMoves_upgradeBurnPercentage {newBurnPercentage : U8}
    (h : s.upgradeBurnPercentage chain account newBurnPercentage = .ok s') :
    FeeMoves chain s 0 0 s' := by
  rcases of_check h with ⟨_, h⟩
  rcases of_ensure h with ⟨hpct, h⟩
  rcases of_bind h with ⟨middle, hproc, h⟩
  apply FeeMoves.trans (feeMoves_processCollectedFees hproc)
  cases hfees : middle.collectedFees with
  | none =>
    simp only [hfees] at h
    cases h
    exact .coins (Moves.same _ 0)
  | some =>
    simp only [hfees] at h
    cases h
    apply FeeMoves.collected
    · exact .inl hpct
    · simp [collectedValue, hfees]

theorem feeMoves_collectFee {fee : U64} (h : s.collectFee chain account fee = .ok s') :
    FeeMoves chain s 0 0 s' := by
  rcases of_bind h with ⟨fees, hfees, h⟩
  rcases of_bind h with ⟨⟨_, middle⟩, hcoll, h⟩
  cases h
  rcases moves_collectIntoAggregatableCoin hcoll with ⟨_, hgained, hmoves⟩
  have hkept : middle.collectedFees = some fees :=
    hmoves.keepsFees.collectedFees.trans (borrowGlobal_eq_ok_iff.mp hfees)
  apply FeeMoves.trans (FeeMoves.coins hmoves)
  apply FeeMoves.collected
  · exact .inr ⟨fees, hkept, rfl⟩
  · simp [collectedValue, hkept, hgained]

end Resources

end OpenLibra.Framework
