import OpenLibra.Accounts.Object

/-!
# Who may transfer an object

The owner of an object may be an object itself, and the walk along the owners should give up
after a fixed number of them.
-/

namespace OpenLibra.Accounts

open Rust Move Transition

namespace Store

/-!
# The chain of owners
-/

def ownerChain (s : Store) (objectId : Address) : Nat -> Option Address
  | 0 => some objectId
  | k + 1 => (s.ownerChain objectId k).bind fun addr => (s.objects.lookup addr).map Object.owner

def Ungated (s : Store) (addr : Address) : Prop :=
  exists object, s.objects.lookup addr = some object ∧ object.allowUngatedTransfer = true

def UngatedAt (s : Store) (objectId : Address) (i : Nat) : Prop :=
  exists addr, s.ownerChain objectId i = some addr ∧ s.Ungated addr

/-- The chain reaches an address after `k` steps and not earlier. -/
structure Reaches (s : Store) (owner objectId : Address) (k : Nat) : Prop where
  ungated : forall i, i < k -> s.UngatedAt objectId i
  reached : s.ownerChain objectId k = some owner
  first : forall j, 1 ≤ j -> j < k -> s.ownerChain objectId j ≠ some owner

variable {s : Store} {objectId owner current : Address} {k iterations : Nat} {walk : Walk}

theorem ownerChain_succ_eq {object : Object}
    (h : s.objects.lookup objectId = some object) (k : Nat) :
    s.ownerChain objectId (k + 1) = s.ownerChain object.owner k := by
  induction k with
  | zero => simp [ownerChain, h]
  | succ k ih =>
    rw [ownerChain, ih]
    rfl

theorem ungatedAt_succ_iff {object : Object} (h : s.objects.lookup objectId = some object) :
    s.UngatedAt objectId (k + 1) <-> s.UngatedAt object.owner k := by
  unfold UngatedAt
  rw [ownerChain_succ_eq h]

theorem ungatedAt_zero_iff : s.UngatedAt objectId 0 <-> s.Ungated objectId := by
  simp [UngatedAt, ownerChain]

/-!
# What the loop computes
-/

/-- After `k` iterations from an address the walk is at another one, and has met
neither the owner nor a gated object before. -/
def WalksTo (s : Store) (owner start : Address) (k : Nat) (current : Address) : Prop :=
  (forall i, i < k -> s.UngatedAt start i ∧ s.ownerChain start i ≠ some owner) ∧
    s.ownerChain start k = some current

theorem walksTo_succ_iff {start : Address} : s.WalksTo owner start (k + 1) current <->
    owner ≠ start ∧ exists object, s.objects.lookup start = some object ∧
      object.allowUngatedTransfer = true ∧ s.WalksTo owner object.owner k current := by
  constructor
  · intro h
    rcases h with ⟨hbef, hcur⟩
    rcases hbef 0 (Nat.succ_pos k) with ⟨hzero, hne⟩
    rcases ungatedAt_zero_iff.mp hzero with ⟨object, hobj, hallow⟩
    refine ⟨?_, object, hobj, hallow, ?_, ?_⟩
    · intro heq
      exact hne (by rw [heq]; rfl)
    · intro i hi
      rcases hbef (i + 1) (Nat.succ_lt_succ hi) with ⟨hungated, hother⟩
      rw [ownerChain_succ_eq hobj] at hother
      exact ⟨(ungatedAt_succ_iff hobj).mp hungated, hother⟩
    · rw [← ownerChain_succ_eq hobj]
      exact hcur
  · intro h
    rcases h with ⟨hne, object, hobj, hallow, hbef, hcur⟩
    constructor
    · intro i hi
      cases i with
      | zero =>
        refine ⟨ungatedAt_zero_iff.mpr ⟨object, hobj, hallow⟩, ?_⟩
        intro heq
        exact hne (Option.some.inj heq).symm
      | succ i =>
        rcases hbef i (Nat.lt_of_succ_lt_succ hi) with ⟨hungated, hother⟩
        rw [ownerChain_succ_eq hobj]
        exact ⟨(ungatedAt_succ_iff hobj).mpr hungated, hother⟩
    · rw [ownerChain_succ_eq hobj]
      exact hcur

theorem ungatedOwner_eq_ok_iff {missing : Abort} {addr : Address} :
    s.ungatedOwner missing addr = .ok owner <-> exists object, s.objects.lookup addr = some object ∧
        object.allowUngatedTransfer = true ∧ owner = object.owner := by
  constructor
  · intro h
    rcases of_ensure h with ⟨_, h⟩
    rcases of_bind h with ⟨object, hobj, h⟩
    rcases of_ensure h with ⟨hallow, h⟩
    cases h
    exact ⟨object, borrowGlobal_eq_ok_iff.mp hobj, hallow, rfl⟩
  · intro h
    rcases h with ⟨_, hobj, hallow, rfl⟩
    simp [ungatedOwner, borrowObject, borrowGlobal, ensure, hobj, hallow]

theorem walkBody_eq_ok_iff : s.walkBody { currentAddress := current, count := 0 } = .ok walk <->
      exists object, s.objects.lookup current = some object ∧ object.allowUngatedTransfer = true ∧
        walk = { currentAddress := object.owner, count := 0 } := by
  have hcount : Move.add (0 : U8) 1 = .ok 1 := rfl
  have hlt : ensure ((1 : U8).toNat < maximumObjectNesting)
    (outOfRange eMaximumNesting) = .ok () := rfl
  simp only [walkBody, hcount, ok_bind, hlt, bind_eq_ok_iff,
    ungatedOwner_eq_ok_iff, pure_eq, Outcome.ok.injEq]
  constructor
  · intro h
    rcases h with ⟨_, ⟨object, hobj, hallow, rfl⟩, rfl⟩
    exact ⟨object, hobj, hallow, rfl⟩
  · intro h
    rcases h with ⟨object, hobj, hallow, rfl⟩
    exact ⟨object.owner, ⟨object, hobj, hallow, rfl⟩, rfl⟩

theorem walkStart_eq_ok_iff : s.walkStart objectId = .ok walk <->
    exists object, s.objects.lookup objectId = some object ∧ object.allowUngatedTransfer = true ∧
      walk = { currentAddress := object.owner, count := 0 } := by
  simp only [walkStart, bind_eq_ok_iff, ungatedOwner_eq_ok_iff, pure_eq, Outcome.ok.injEq]
  constructor
  · intro h
    rcases h with ⟨_, ⟨object, hobj, hallow, rfl⟩, rfl⟩
    exact ⟨object, hobj, hallow, rfl⟩
  · intro h
    rcases h with ⟨object, hobj, hallow, rfl⟩
    exact ⟨object.owner, ⟨object, hobj, hallow, rfl⟩, rfl⟩

def walkGuard (owner : Address) (walk : Walk) : Bool := decide (owner ≠ walk.currentAddress)

theorem afterIterations_walk_iff {start : Address} : afterIterations (walkGuard owner) s.walkBody k
      { currentAddress := start, count := 0 } = some walk <->
    walk.count = 0 ∧ s.WalksTo owner start k walk.currentAddress := by
  induction k generalizing start with
  | zero =>
    constructor
    · intro h
      cases h
      refine ⟨rfl, ?_, rfl⟩
      intro i hi
      exact absurd hi (Nat.not_lt_zero i)
    · intro h
      rcases h with ⟨hcount, _, hcur⟩
      cases walk
      cases hcur
      cases hcount
      rfl
  | succ k ih =>
    rw [afterIterations_succ_eq_some_iff, walksTo_succ_iff]
    constructor
    · intro h
      rcases h with ⟨_, hguard, hbody, hrest⟩
      rcases walkBody_eq_ok_iff.mp hbody with ⟨object, hobj, hallow, rfl⟩
      rcases ih.mp hrest with ⟨hcount, hwalks⟩
      exact ⟨hcount, of_decide_eq_true hguard, object, hobj, hallow, hwalks⟩
    · intro h
      rcases h with ⟨hcount, hne, object, hobj, hallow, hwalks⟩
      exact ⟨_, decide_eq_true hne, walkBody_eq_ok_iff.mpr ⟨object, hobj, hallow, rfl⟩,
        ih.mpr ⟨hcount, hwalks⟩⟩

theorem reaches_succ_iff : s.Reaches owner objectId (k + 1) <->
    exists object, s.objects.lookup objectId = some object ∧ object.allowUngatedTransfer = true ∧
      s.WalksTo owner object.owner k owner := by
  constructor
  · intro h
    rcases ungatedAt_zero_iff.mp (h.ungated 0 (Nat.succ_pos k)) with ⟨object, hobj, hallow⟩
    refine ⟨object, hobj, hallow, ?_, ?_⟩
    · intro i hi
      have hfirst := h.first (i + 1) (Nat.le_add_left 1 i) (Nat.succ_lt_succ hi)
      rw [ownerChain_succ_eq hobj] at hfirst
      exact ⟨(ungatedAt_succ_iff hobj).mp (h.ungated (i + 1) (Nat.succ_lt_succ hi)), hfirst⟩
    · rw [← ownerChain_succ_eq hobj]
      exact h.reached
  · intro h
    rcases h with ⟨object, hobj, hallow, hbef, hcur⟩
    refine ⟨?_, ?_, ?_⟩
    · intro i hi
      cases i with
      | zero => exact ungatedAt_zero_iff.mpr ⟨object, hobj, hallow⟩
      | succ i => exact (ungatedAt_succ_iff hobj).mpr (hbef i (Nat.lt_of_succ_lt_succ hi)).1
    · rw [ownerChain_succ_eq hobj]
      exact hcur
    · intro j hj hlt
      cases j with
      | zero => exact absurd hj (Nat.not_succ_le_zero 0)
      | succ j =>
        rw [ownerChain_succ_eq hobj]
        exact (hbef j (Nat.lt_of_succ_lt_succ hlt)).2

theorem verifyUngatedAndDescendant_eq_ok_iff :
    s.verifyUngatedAndDescendant iterations owner objectId = some (.ok ()) <->
      exists k, k ≤ iterations ∧ s.Reaches owner objectId (k + 1) := by
  simp only [reaches_succ_iff]
  constructor
  · intro h
    unfold verifyUngatedAndDescendant at h
    cases hstart : s.walkStart objectId with
    | err | panic => simp [hstart] at h
    | ok =>
      rcases walkStart_eq_ok_iff.mp hstart with ⟨object, hobj, hallow, rfl⟩
      rw [hstart] at h
      rcases Option.map_eq_some_iff.mp h with ⟨_, hloop, hres⟩
      rcases of_bind hres with ⟨last, rfl, _⟩
      rcases whileLoop_eq_ok_iff.mp hloop with ⟨k, hk, hafter, hguard⟩
      rcases afterIterations_walk_iff.mp hafter with ⟨_, hwalks⟩
      have hlast : owner = last.currentAddress := of_not_not (of_decide_eq_false hguard)
      rw [← hlast] at hwalks
      exact ⟨k, hk, object, hobj, hallow, hwalks⟩
  · intro h
    rcases h with ⟨k, hk, object, hobj, hallow, hwalks⟩
    have hstart := walkStart_eq_ok_iff.mpr ⟨object, hobj, hallow, rfl⟩
    have hafter : afterIterations (walkGuard owner) s.walkBody k
      { currentAddress := object.owner, count := 0 } =
        some { currentAddress := owner, count := 0 } :=
      afterIterations_walk_iff.mpr ⟨rfl, hwalks⟩
    have hloop := whileLoop_eq_ok_iff.mpr ⟨k, hk, hafter, decide_eq_false (not_not_intro rfl)⟩
    unfold verifyUngatedAndDescendant
    rw [hstart]
    change ((whileLoop (walkGuard owner) s.walkBody iterations _).map _) = _
    rw [hloop]
    rfl

theorem verifyUngatedAndDescendant_eq_none_iff :
    s.verifyUngatedAndDescendant iterations owner objectId = none <->
      exists object, s.objects.lookup objectId = some object ∧ object.allowUngatedTransfer = true ∧
        exists current, owner ≠ current ∧ s.WalksTo owner object.owner iterations current := by
  constructor
  · intro h
    unfold verifyUngatedAndDescendant at h
    cases hstart : s.walkStart objectId with
    | err | panic => simp [hstart] at h
    | ok =>
      rcases walkStart_eq_ok_iff.mp hstart with ⟨object, hobj, hallow, rfl⟩
      rw [hstart] at h
      rcases whileLoop_eq_none_iff.mp (Option.map_eq_none_iff.mp h) with ⟨last, hafter, hguard⟩
      rcases afterIterations_walk_iff.mp hafter with ⟨_, hwalks⟩
      exact ⟨object, hobj, hallow, last.currentAddress, of_decide_eq_true hguard, hwalks⟩
  · intro h
    rcases h with ⟨object, hobj, hallow, current, hne, hwalks⟩
    have hstart := walkStart_eq_ok_iff.mpr ⟨object, hobj, hallow, rfl⟩
    have hafter : afterIterations (walkGuard owner) s.walkBody iterations
      { currentAddress := object.owner, count := 0 } =
        some { currentAddress := current, count := 0 } :=
      afterIterations_walk_iff.mpr ⟨rfl, hwalks⟩
    unfold verifyUngatedAndDescendant
    rw [hstart]
    apply Option.map_eq_none_iff.mpr
    exact whileLoop_eq_none_iff.mpr ⟨_, hafter, decide_eq_true hne⟩

/-!
# The bound on the nesting
-/

structure OnlyOwnerChanged (s s' : Store) (objectId destination : Address) : Prop where
  object : exists before after, s.objects.lookup objectId = some before ∧
    s'.objects.lookup objectId = some after ∧
    after = { before with
      owner := destination, transferEvents := after.transferEvents }
  others : forall addr, addr ≠ objectId -> s'.objects.lookup addr = s.objects.lookup addr
  accounts : s'.accounts = s.accounts
  originatingAddress : s'.originatingAddress = s.originatingAddress
  containers : s'.containers = s.containers

theorem transfer_onlyOwnerChanged {s' : Store} {destination : Address}
    (h : s.transfer iterations owner objectId destination = .ok s') :
    OnlyOwnerChanged s s' objectId destination := by
  rcases of_check h with ⟨_, h⟩
  rcases of_bind h with ⟨object, hobj, h⟩
  have hfound := borrowGlobal_eq_ok_iff.mp hobj
  split at h
  · next heq =>
      cases h
      refine ⟨⟨object, object, hfound, hfound, ?_⟩, ?_, rfl, rfl, rfl⟩
      · rw [← heq]
      · intro addr _
        rfl
  · rcases of_bind h with ⟨_, _, h⟩
    cases h
    refine ⟨⟨object, _, hfound, lookup_setObject_self s _ _, rfl⟩, ?_, rfl, rfl, rfl⟩
    intro _ hne
    exact lookup_setObject_of_ne hne s _

structure WalkBounded (s : Store) (owner objectId : Address) : Prop where
  stops : s.verifyUngatedAndDescendant maximumObjectNesting owner objectId ≠ none
  succeeds_iff : (exists iterations, s.verifyUngatedAndDescendant iterations owner
        objectId = some (.ok ())) <->
      exists k, 1 ≤ k ∧ k ≤ maximumObjectNesting ∧ s.Reaches owner objectId k
  transfers : forall iterations destination s',
    s.transfer iterations owner objectId destination = .ok s' ->
      OnlyOwnerChanged s s' objectId destination

/-- Either the signer or an object that ends the walk is near enough. -/
def NearEnd (s : Store) (owner objectId : Address) : Prop :=
  (exists i, i ≤ maximumObjectNesting ∧ ¬ s.UngatedAt objectId i) ∨
    exists j, 1 ≤ j ∧ j ≤ maximumObjectNesting ∧ s.ownerChain objectId j = some owner

theorem Reaches.le_of_nearEnd (h : s.Reaches owner objectId k) (hnear : s.NearEnd owner objectId) :
    k ≤ maximumObjectNesting := by
  by_contra hlt
  have hlt : maximumObjectNesting < k := Nat.lt_of_not_le hlt
  rcases hnear with ⟨i, hi, hgated⟩ | ⟨j, hpos, hj, hreached⟩
  · exact hgated (h.ungated i (lt_of_le_of_lt hi hlt))
  · exact h.first j hpos (lt_of_le_of_lt hj hlt) hreached

theorem walkBounded_iff_nearEnd (s : Store) (owner objectId : Address) :
    s.WalkBounded owner objectId <-> s.NearEnd owner objectId := by
  constructor
  · intro h
    by_contra hfar
    have hungated : forall i, i ≤ maximumObjectNesting -> s.UngatedAt objectId i := by
      intro i hi
      by_contra hgated
      exact hfar (Or.inl ⟨i, hi, hgated⟩)
    have hother : forall j, 1 ≤ j -> j ≤ maximumObjectNesting ->
      s.ownerChain objectId j ≠ some owner := by
      intro j hpos hj hreached
      exact hfar (Or.inr ⟨j, hpos, hj, hreached⟩)
    rcases ungatedAt_zero_iff.mp (hungated 0 (Nat.zero_le _)) with ⟨object, hobject, hallow⟩
    rcases hungated maximumObjectNesting (Nat.le_refl _) with ⟨_, hlast, above, habove, _⟩
    have hnext : s.ownerChain objectId (maximumObjectNesting + 1) = some above.owner := by
      rw [ownerChain, hlast]
      simp [habove]
    have hwalks : s.WalksTo owner object.owner maximumObjectNesting
      above.owner := by
      constructor
      · intro i hi
        rw [← ownerChain_succ_eq hobject]
        exact ⟨(ungatedAt_succ_iff hobject).mp (hungated (i + 1) hi),
          hother (i + 1) (Nat.le_add_left 1 i) hi⟩
      · rw [← ownerChain_succ_eq hobject]
        exact hnext
    by_cases hsame : owner = above.owner
    · -- The chain reaches the signer one object too late.
      rw [← hsame] at hwalks
      have hreaches := reaches_succ_iff.mpr ⟨object, hobject, hallow, hwalks⟩
      rcases h.succeeds_iff.mp ⟨maximumObjectNesting, verifyUngatedAndDescendant_eq_ok_iff.mpr
          ⟨maximumObjectNesting, Nat.le_refl _, hreaches⟩⟩ with
        ⟨k, hpos, hk, hearly⟩
      exact hother k hpos hk hearly.reached
    · exact h.stops (verifyUngatedAndDescendant_eq_none_iff.mpr
        ⟨object, hobject, hallow, above.owner, hsame, hwalks⟩)
  · intro hnear
    refine ⟨?_, ?_, ?_⟩
    · intro hnone
      rcases verifyUngatedAndDescendant_eq_none_iff.mp hnone with
        ⟨object, hobject, hallow, _, _, hbefore, _⟩
      rcases hnear with ⟨i, hi, hgated⟩ | ⟨j, hpos, hj, hreached⟩
      · cases i with
        | zero => exact hgated (ungatedAt_zero_iff.mpr ⟨object, hobject, hallow⟩)
        | succ i => exact hgated ((ungatedAt_succ_iff hobject).mpr (hbefore i hi).1)
      · cases j with
        | zero => exact absurd hpos (Nat.not_succ_le_zero 0)
        | succ j =>
          rw [ownerChain_succ_eq hobject] at hreached
          exact (hbefore j hj).2 hreached
    · constructor
      · intro h
        rcases h with ⟨iterations, h⟩
        rcases verifyUngatedAndDescendant_eq_ok_iff.mp h with ⟨k, _, hreaches⟩
        exact ⟨k + 1, Nat.le_add_left 1 k, hreaches.le_of_nearEnd hnear, hreaches⟩
      · intro h
        rcases h with ⟨k, hpos, _, hreaches⟩
        rcases Nat.exists_eq_add_of_le' hpos with ⟨k, rfl⟩
        exact ⟨k, verifyUngatedAndDescendant_eq_ok_iff.mpr ⟨k, Nat.le_refl k, hreaches⟩⟩
    · intro _ _ _ h
      exact transfer_onlyOwnerChanged h

/-!
# Cycles
-/

theorem verifyUngatedAndDescendant_eq_none_of_endless (hungated : forall i, s.UngatedAt objectId i)
    (hother : forall j, 1 ≤ j -> s.ownerChain objectId j ≠ some owner) (iterations : Nat) :
    s.verifyUngatedAndDescendant iterations owner objectId = none := by
  rcases ungatedAt_zero_iff.mp (hungated 0) with ⟨object, hobj, hallow⟩
  rcases hungated (iterations + 1) with ⟨last, hlast, _⟩
  refine verifyUngatedAndDescendant_eq_none_iff.mpr ⟨object, hobj, hallow, last, ?_, ?_, ?_⟩
  · intro heq
    exact hother (iterations + 1) (Nat.le_add_left 1 _) (heq ▸ hlast)
  · intro i _
    rw [← ownerChain_succ_eq hobj]
    exact ⟨(ungatedAt_succ_iff hobj).mp (hungated (i + 1)), hother (i + 1) (Nat.le_add_left 1 i)⟩
  · rw [← ownerChain_succ_eq hobj]
    exact hlast

end Store

def objectOwnedBy (addr owner : Address) : Object :=
  { guidCreationNum := 1
    owner := owner
    allowUngatedTransfer := true
    transferEvents := EventHandle.new { creationNum := 0, addr := addr } }

def cyclicPair : Store :=
  (Store.empty.setObject (Address.ofNat 16)
    (objectOwnedBy (Address.ofNat 16) (Address.ofNat 17))).setObject
    (Address.ofNat 17)
    (objectOwnedBy (Address.ofNat 17) (Address.ofNat 16))

theorem lookup_cyclicPair_16 : cyclicPair.objects.lookup (Address.ofNat 16) =
    some (objectOwnedBy (Address.ofNat 16) (Address.ofNat 17)) := by
  decide +kernel

theorem lookup_cyclicPair_17 : cyclicPair.objects.lookup (Address.ofNat 17) =
    some (objectOwnedBy (Address.ofNat 17) (Address.ofNat 16)) := by
  decide +kernel

theorem ownerChain_cyclicPair (i : Nat) :
    cyclicPair.ownerChain (Address.ofNat 16) i = some (Address.ofNat 16) ∨
      cyclicPair.ownerChain (Address.ofNat 16) i = some (Address.ofNat 17) := by
  induction i with
  | zero => exact .inl rfl
  | succ i ih =>
    rcases ih with ih | ih
    · right
      rw [Store.ownerChain, ih, Option.bind_some, lookup_cyclicPair_16]
      rfl
    · left
      rw [Store.ownerChain, ih, Option.bind_some, lookup_cyclicPair_17]
      rfl

/-- A stranger that asks for a transfer starts a walk that never ends. -/
theorem cyclicPair_walk_endless : ¬ cyclicPair.WalkBounded (Address.ofNat 18) (Address.ofNat 16) ∧
    forall iterations, cyclicPair.verifyUngatedAndDescendant iterations
      (Address.ofNat 18) (Address.ofNat 16) = none := by
  have hendless : forall iterations,
    cyclicPair.verifyUngatedAndDescendant iterations (Address.ofNat 18)
      (Address.ofNat 16) = none := by
    apply Store.verifyUngatedAndDescendant_eq_none_of_endless
    · intro i
      rcases ownerChain_cyclicPair i with h | h
      · exact ⟨_, h, _, lookup_cyclicPair_16, rfl⟩
      · exact ⟨_, h, _, lookup_cyclicPair_17, rfl⟩
    · intro j _ hreached
      rcases ownerChain_cyclicPair j with h | h
      · rw [h] at hreached
        exact absurd hreached (by decide +kernel)
      · rw [h] at hreached
        exact absurd hreached (by decide +kernel)
  constructor
  · intro h
    exact h.stops (hendless _)
  · exact hendless

end OpenLibra.Accounts
