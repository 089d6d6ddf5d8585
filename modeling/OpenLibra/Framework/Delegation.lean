import OpenLibra.Framework.Capability
import OpenLibra.Tables.Assignments
import OpenLibra.Transition.System

/-!
# Delegation and its records

A delegation is recorded at the root and at the delegate.  The records agree unless somebody
revokes with the capability of another root.
-/

namespace OpenLibra.Capability

open Rust Move Function List

variable {feature address : Type}

/-!
# The two records
-/

namespace Resources

variable (s : Resources feature address) (f : feature)

/-- The addresses in `CapState(root).delegates`. -/
def delegatesOf (root : address) : List address :=
  match s.capState f root with
  | some state => state.delegates
  | none => []

def delegations : Tables.Assignments address address :=
  { members := s.delegatesOf f
    ownerOf := fun addr => (s.capDelegateState f addr).map CapDelegateState.root }

/-- A delegate is listed exactly by the root that it names, and once. -/
def Consistent (s : Resources feature address) : Prop := forall f, (s.delegations f).Consistent

theorem delegatesOf_eq {s : Resources feature address} {f : feature} {root : address}
    {state : CapState address} (h : s.capState f root = some state) :
    s.delegatesOf f root = state.delegates := by
  unfold delegatesOf
  rw [h]

variable [df : DecidableEq feature] [da : DecidableEq address] {s : Resources feature address}
  {f : feature} {root addr : address}

theorem delegatesOf_setCapState (state : CapState address) :
    (s.setCapState f root state).delegatesOf f = update (s.delegatesOf f) root state.delegates := by
  funext a
  unfold delegatesOf
  rw [capState_setCapState_self]
  by_cases ha : a = root
  · rw [ha, update_self, update_self]
  · rw [update_of_ne ha, update_of_ne ha]

theorem delegations_setCapState_of_ne {g : feature} (hg : g ≠ f) (state : CapState address) :
    (s.setCapState f root state).delegations g = s.delegations g := by
  unfold delegations delegatesOf
  rw [capState_setCapState_of_ne hg]
  rfl

theorem delegations_setCapDelegateState_of_ne {g : feature} (hg : g ≠ f)
    (state : Option (CapDelegateState address)) :
    (s.setCapDelegateState f addr state).delegations g = s.delegations g := by
  unfold delegations delegatesOf
  rw [capDelegateState_setCapDelegateState_of_ne hg]
  rfl

theorem ownerOf_setCapDelegateState (state : Option (CapDelegateState address)) :
    ((s.setCapDelegateState f addr state).delegations f).ownerOf =
      update (s.delegations f).ownerOf addr (state.map CapDelegateState.root) := by
  funext a
  change ((s.setCapDelegateState f addr state).capDelegateState f a).map _ =
    update (fun b => (s.capDelegateState f b).map _) addr _ a
  rw [capDelegateState_setCapDelegateState_self]
  by_cases ha : a = addr
  · rw [ha, update_self, update_self]
  · rw [update_of_ne ha, update_of_ne ha]

theorem delegations_both (owner : Option (CapDelegateState address)) (state : CapState address) :
    ((s.setCapDelegateState f addr owner).setCapState f root state).delegations f =
      { members := update (s.delegations f).members root
          state.delegates
        ownerOf := update (s.delegations f).ownerOf addr
          (owner.map CapDelegateState.root) } := by
  rw [← ownerOf_setCapDelegateState]
  change Tables.Assignments.mk _ _ = _
  rw [delegatesOf_setCapState]
  rfl

theorem consistent_create (hs : s.Consistent) (habs : s.capState f root = none) :
    (s.setCapState f root { delegates := [] }).Consistent := by
  intro g
  by_cases hg : g = f
  · have hmembers : (s.setCapState f root { delegates := [] }).delegatesOf f = s.delegatesOf f := by
      rw [delegatesOf_setCapState]
      apply update_eq_self_iff.mpr
      unfold delegatesOf
      rw [habs]
    have hsame : (s.setCapState f root { delegates := [] }).delegations f = s.delegations f := by
      change Tables.Assignments.mk _ _ = _
      rw [hmembers]
      rfl
    rw [hg, hsame]
    exact hs f
  · rw [delegations_setCapState_of_ne hg]
    exact hs g

end Resources

section

variable [df : DecidableEq feature] [da : DecidableEq address] {s s' : Resources feature address}
  {cap : Cap feature address} {addr : address}

theorem delegate_consistent (hs : s.Consistent) (h : delegate cap addr s = .ok s') :
    s'.Consistent := by
  unfold delegate at h
  cases hdeleg : s.capDelegateState cap.feature addr with
  | some =>
    rw [hdeleg] at h
    cases h
    exact hs
  | none =>
    rw [hdeleg] at h
    rcases of_bind h with ⟨state, hstate, hset⟩
    replace hstate := borrowGlobal_eq_ok_iff.mp hstate
    cases hset
    have hfree : (s.delegations cap.feature).ownerOf addr = none := by
      change (s.capDelegateState cap.feature addr).map _ = none
      rw [hdeleg]
      rfl
    have hmembers : (s.delegations cap.feature).members cap.root =
      state.delegates := Resources.delegatesOf_eq hstate
    have hnew := (hs cap.feature).not_mem hfree cap.root
    rw [hmembers] at hnew
    intro g
    by_cases hg : g = cap.feature
    · have hafter := (hs cap.feature).assign cap.root hfree
      rw [hg, Resources.delegations_both, addElement_of_not_mem hnew, ← hmembers]
      exact hafter
    · rw [Resources.delegations_setCapState_of_ne hg,
        Resources.delegations_setCapDelegateState_of_ne hg]
      exact hs g

theorem revoke_of_none (h : s.capDelegateState cap.feature addr = none) :
    revoke cap addr s = .ok s := by
  unfold revoke
  rw [h]

theorem exists_revoke {delegateState : CapDelegateState address}
    (hdeleg : s.capDelegateState cap.feature addr = some delegateState)
    (hcre : (s.capState cap.feature cap.root).isSome = true) (hs : s.Consistent) :
    exists s', revoke cap addr s = .ok s' ∧ (s'.Consistent <-> delegateState.root = cap.root) := by
  rcases Option.isSome_iff_exists.mp hcre with ⟨state, hstate⟩
  have hmembers : (s.delegations cap.feature).members cap.root =
    state.delegates := Resources.delegatesOf_eq hstate
  have howner : (s.delegations cap.feature).ownerOf addr = some delegateState.root := by
    change (s.capDelegateState cap.feature addr).map _ = _
    rw [hdeleg]
    rfl
  refine ⟨(s.setCapDelegateState cap.feature addr none).setCapState
    cap.feature cap.root { delegates := state.delegates.erase addr }, ?_, ?_⟩
  · unfold revoke
    rw [hdeleg]
    apply bind_eq_ok_iff.mpr
    refine ⟨state, borrowGlobal_eq_ok_iff.mpr hstate, ?_⟩
    rw [removeElement_eq]
    rfl
  · rw [← (hs cap.feature).release_iff howner]
    have hreleased : ((s.setCapDelegateState cap.feature addr none).setCapState cap.feature cap.root
        { delegates := state.delegates.erase addr }).delegations cap.feature =
      (s.delegations cap.feature).release cap.root addr := by
      rw [Resources.delegations_both, ← hmembers]
      rfl
    constructor
    · intro hafter
      rw [← hreleased]
      exact hafter cap.feature
    · intro hafter g
      by_cases hg : g = cap.feature
      · rw [hg, hreleased]
        exact hafter
      · rw [Resources.delegations_setCapState_of_ne hg,
          Resources.delegations_setCapDelegateState_of_ne hg]
        exact hs g

variable {g : feature} {a : address}

theorem isSome_setCapState {f : feature} {root : address}
    (state : CapState address) (h : (s.capState g a).isSome = true) :
    ((s.setCapState f root state).capState g a).isSome = true := by
  by_cases hg : g = f
  · subst hg
    rw [Resources.capState_setCapState_self]
    by_cases ha : a = root
    · rw [ha, update_self]
      rfl
    · rw [update_of_ne ha]
      exact h
  · rw [Resources.capState_setCapState_of_ne hg]
    exact h

theorem delegate_isSome (h : delegate cap addr s = .ok s') (ha : (s.capState g a).isSome = true) :
    (s'.capState g a).isSome = true := by
  unfold delegate at h
  cases hdeleg : s.capDelegateState cap.feature addr with
  | some =>
    rw [hdeleg] at h
    cases h
    exact ha
  | none =>
    rw [hdeleg] at h
    rcases of_bind h with ⟨_, _, hset⟩
    cases hset
    exact isSome_setCapState _ ha

theorem revoke_isSome (h : revoke cap addr s = .ok s') (ha : (s.capState g a).isSome = true) :
    (s'.capState g a).isSome = true := by
  unfold revoke at h
  cases hdeleg : s.capDelegateState cap.feature addr with
  | none =>
    rw [hdeleg] at h
    cases h
    exact ha
  | some =>
    rw [hdeleg] at h
    rcases of_bind h with ⟨_, _, hrest⟩
    rcases of_bind hrest with ⟨_, _, hset⟩
    cases hset
    exact isSome_setCapState _ ha

omit df in
theorem acquire_isSome {f : feature} {requester : address} (h : acquire f requester s = .ok cap) :
    (s.capState cap.feature cap.root).isSome = true := by
  rcases of_bind h with ⟨_, hroot, hcap⟩
  cases hcap
  unfold validateAcquire at hroot
  cases hdeleg : s.capDelegateState f requester with
  | some =>
    rw [hdeleg] at hroot
    rcases of_ensure hroot with ⟨hsome, hrest⟩
    rcases of_bind hrest with ⟨_, _, hrest⟩
    rcases of_ensure hrest with ⟨_, hok⟩
    cases hok
    exact hsome
  | none =>
    rw [hdeleg] at hroot
    rcases of_ensure hroot with ⟨hsome, hok⟩
    cases hok
    exact hsome

end

/-!
# Histories of calls
-/

namespace Session

variable [df : DecidableEq feature] [da : DecidableEq address] {s : Session feature address}

def CapsCreated (s : Session feature address) : Prop :=
  forall cap, cap ∈ s.caps -> (s.resources.capState cap.feature cap.root).isSome = true

variable {cap : Cap feature address}
variable {use : Resources feature address -> MoveResult (Resources feature address)}

theorem withCap_of_eq_ok {resources} (hheld : cap ∈ s.caps) (h : use s.resources = .ok resources) :
    s.withCap cap use = { s with resources := resources } := by
  unfold withCap
  rw [if_pos hheld, h]

theorem withCap_cases (s : Session feature address) (cap : Cap feature address)
    (use : Resources feature address -> MoveResult (Resources feature address)) :
    s.withCap cap use = s ∨ exists resources, use s.resources = .ok resources ∧
        s.withCap cap use = { s with resources := resources } := by
  unfold withCap
  by_cases hheld : cap ∈ s.caps
  · rw [if_pos hheld]
    cases huse : use s.resources with
    | ok resources => exact .inr ⟨resources, rfl, rfl⟩
    | err | panic => exact .inl rfl
  · rw [if_neg hheld]
    exact .inl rfl

theorem perform_create_cases (s : Session feature address) (f : feature) (owner : address) :
    s.perform (.create f owner) = s ∨ s.resources.capState f owner = none ∧
        s.perform (.create f owner) =
          { s with
            resources := s.resources.setCapState f owner
              { delegates := [] } } := by
  cases hcreate : create f owner s.resources with
  | ok =>
    rcases of_ensure hcreate with ⟨hnone, hok⟩
    cases hok
    refine .inr ⟨Option.isNone_iff_eq_none.mp hnone, ?_⟩
    simp only [perform, hcreate]
  | err | panic => exact .inl (by simp only [perform, hcreate])

theorem perform_acquire_cases (s : Session feature address) (f : feature) (requester : address) :
    s.perform (.acquire f requester) = s ∨
      exists cap, acquire f requester s.resources = .ok cap ∧ s.perform (.acquire f requester) =
          { s with caps := cap :: s.caps } := by
  cases hacquire : acquire f requester s.resources with
  | ok cap => exact .inr ⟨cap, rfl, by simp only [perform, hacquire]⟩
  | err | panic => exact .inl (by simp only [perform, hacquire])

theorem CapsCreated.withCap (hs : s.CapsCreated) (cap : Cap feature address)
    (huse : forall resources, use s.resources = .ok resources -> forall g a, (s.resources.capState g
      a).isSome = true -> (resources.capState g a).isSome = true) :
    (s.withCap cap use).CapsCreated := by
  rcases s.withCap_cases cap use with hsame | ⟨resources, hok, hset⟩
  · rw [hsame]
    exact hs
  · rw [hset]
    intro held hheld
    exact huse resources hok _ _ (hs held hheld)

theorem CapsCreated.perform (hs : s.CapsCreated) (call : Call feature address) :
    (s.perform call).CapsCreated := by
  cases call with
  | create f owner =>
    rcases s.perform_create_cases f owner with hsame | ⟨_, hset⟩
    · rw [hsame]
      exact hs
    · rw [hset]
      intro cap hcap
      exact isSome_setCapState _ (hs cap hcap)
  | acquire f requester =>
    rcases s.perform_acquire_cases f requester with hsame | ⟨cap, hcap, hset⟩
    · rw [hsame]
      exact hs
    · rw [hset]
      intro held hheld
      rcases mem_cons.mp hheld with hnew | hold
      · rw [hnew]
        exact acquire_isSome hcap
      · exact hs held hold
  | acquireLinear => exact hs
  | delegate cap => exact hs.withCap cap fun _ hok _ _ => delegate_isSome hok
  | revoke cap => exact hs.withCap cap fun _ hok _ _ => revoke_isSome hok
  | endTransaction =>
    intro _ hcap
    cases hcap

theorem performAll_capsCreated (calls : List (Call feature address)) :
    (performAll calls).CapsCreated := by
  induction calls using List.reverseRecOn with
  | nil =>
    intro _ hcap
    cases hcap
  | append_singleton calls call ih =>
    unfold performAll
    rw [foldl_append]
    exact ih.perform call

/-- A revocation finds a delegate of its own root, or none at all. -/
def RevokesOwn (s : Session feature address) (cap : Cap feature address) (source : address) :
    Prop :=
  cap ∈ s.caps -> forall delegateState,
    s.resources.capDelegateState cap.feature source = some delegateState ->
      delegateState.root = cap.root

theorem perform_revoke_eq_self {source : address}
    (h : cap ∉ s.caps ∨ s.resources.capDelegateState cap.feature source = none) :
    s.perform (.revoke cap source) = s := by
  change s.withCap cap (revoke cap source) = s
  by_cases hheld : cap ∈ s.caps
  · rcases h with hnot | hnone
    · exact absurd hheld hnot
    · rw [withCap_of_eq_ok hheld (revoke_of_none hnone)]
  · unfold withCap
    rw [if_neg hheld]

theorem perform_revoke_consistent_iff (hs : s.resources.Consistent) (hcre : s.CapsCreated)
    (cap : Cap feature address) (source : address) :
    (s.perform (.revoke cap source)).resources.Consistent <-> s.RevokesOwn cap source := by
  by_cases hheld : cap ∈ s.caps
  · cases hdeleg : s.resources.capDelegateState cap.feature source with
    | none =>
      rw [perform_revoke_eq_self (.inr hdeleg)]
      constructor
      · intro _ _ delegateState hstate
        rw [hdeleg] at hstate
        cases hstate
      · intro _
        exact hs
    | some delegateState =>
      rcases exists_revoke hdeleg (hcre cap hheld) hs with ⟨_, hok, hiff⟩
      change (s.withCap cap (revoke cap source)).resources.Consistent <-> _
      rw [withCap_of_eq_ok hheld hok]
      refine hiff.trans ?_
      constructor
      · intro hroot _ _ hfound
        rw [hdeleg] at hfound
        cases hfound
        exact hroot
      · intro hown
        exact hown hheld delegateState hdeleg
  · rw [perform_revoke_eq_self (.inl hheld)]
    constructor
    · intro _ hcap
      exact absurd hcap hheld
    · intro _
      exact hs

theorem perform_consistent_iff (hs : s.resources.Consistent)
    (hcre : s.CapsCreated) (call : Call feature address) :
    (s.perform call).resources.Consistent <-> forall cap source, call = .revoke cap source ->
        s.RevokesOwn cap source := by
  cases call with
  | revoke cap source =>
    rw [perform_revoke_consistent_iff hs hcre]
    constructor
    · intro hown _ _ hcall
      cases hcall
      exact hown
    · intro hown
      exact hown cap source rfl
  | create f owner =>
    refine iff_of_true ?_ (fun _ _ hcall => by cases hcall)
    rcases s.perform_create_cases f owner with hsame | ⟨hnone, hset⟩
    · rw [hsame]
      exact hs
    · rw [hset]
      exact Resources.consistent_create hs hnone
  | acquire f requester =>
    refine iff_of_true ?_ (fun _ _ hcall => by cases hcall)
    rcases s.perform_acquire_cases f requester with hsame | ⟨cap, _, hset⟩
    · rw [hsame]
      exact hs
    · rw [hset]
      exact hs
  | acquireLinear | endTransaction => exact iff_of_true hs (fun _ _ hcall => by cases hcall)
  | delegate cap target =>
    refine iff_of_true ?_ (fun _ _ hcall => by cases hcall)
    change (s.withCap cap (delegate cap target)).resources.Consistent
    rcases s.withCap_cases cap (delegate cap target) with hsame | ⟨_, hok, hset⟩
    · rw [hsame]
      exact hs
    · rw [hset]
      exact delegate_consistent hs hok

omit df da in
theorem empty_consistent : (empty : Session feature address).resources.Consistent := by
  intro _
  constructor
  · intro root _
    constructor
    · intro h
      cases h
    · intro h
      cases h
  · intro _
    exact nodup_nil

/-- Along a history of calls the records of roots and delegates agree, and a
revocation changes nothing unless it is that of a delegate, exactly if every
revocation finds a delegate of its own root or none. -/
theorem consistent_along_iff_revokesOwn (calls : List (Call feature address)) :
    ((forall before after, calls = before ++ after -> (performAll before).resources.Consistent) ∧
      forall before cap source after, calls = before ++ Call.revoke cap source :: after ->
        source ∉ (performAll before).resources.delegatesOf cap.feature cap.root ->
          (performAll before).perform (Call.revoke cap source) = performAll before) <->
      forall before cap source after, calls = before ++ Call.revoke cap source :: after ->
          (performAll before).RevokesOwn cap source := by
  have hstep : forall (s : Session feature address) call, s.resources.Consistent ∧ s.CapsCreated ->
      ((s.perform call).resources.Consistent ∧ (s.perform call).CapsCreated <->
        forall cap source, call = .revoke cap source ->
          s.RevokesOwn cap source) := by
    rintro _ call ⟨hs, hcreated⟩
    rw [and_iff_left (hcreated.perform call)]
    exact perform_consistent_iff hs hcreated call
  have halong := Transition.along_iff_of_step_iff hstep
    ⟨empty_consistent, performAll_capsCreated []⟩ calls
  constructor
  · rintro ⟨hconsistent, _⟩ before cap source after hsplit
    have hall : forall before after, calls = before ++ after ->
      (performAll before).resources.Consistent ∧ (performAll before).CapsCreated := by
      intro before after hsplit
      exact ⟨hconsistent before after hsplit, performAll_capsCreated before⟩
    exact halong.mp hall before _ after hsplit cap source rfl
  · intro hown
    have hconsistent : forall before after, calls = before ++ after ->
      (performAll before).resources.Consistent := by
      intro before after hsplit
      refine (halong.mpr ?_ before after hsplit).1
      intro before _ after hsplit cap source hcall
      rw [hcall] at hsplit
      exact hown before cap source after hsplit
    refine ⟨hconsistent, ?_⟩
    intro before cap source after hsplit hnot
    apply perform_revoke_eq_self
    by_cases hheld : cap ∈ (performAll before).caps
    · -- A delegate that is found is one of this root, and listed there.
      refine .inr (Option.eq_none_iff_forall_ne_some.mpr ?_)
      intro delegateState hdelegate
      have hroot := hown before cap source after hsplit hheld delegateState hdelegate
      have hbefore := hconsistent before _ hsplit cap.feature
      apply hnot
      apply (hbefore.mem_iff cap.root source).mpr
      change ((performAll before).resources.capDelegateState cap.feature source).map _ = _
      rw [hdelegate, ← hroot]
      rfl
    · exact .inl hheld

def twoRoots : List (Call Unit Nat) :=
  [.create () 1, .create () 2, .acquire () 1, .delegate { feature := (), root := 1 } 3,
    .endTransaction, .acquire () 2]

def foreignRevocation : Call Unit Nat := .revoke { feature := (), root := 2 } 3

/-- It is not a delegate of the second root that loses its state, and the first
root lists it still. -/
theorem foreignRevocation_not_consistent : 3 ∉ (performAll twoRoots).resources.delegatesOf () 2 ∧
    (performAll twoRoots).resources.capDelegateState () 3 = some { root := 1 } ∧
    (performAll (twoRoots ++ [foreignRevocation])).resources.capDelegateState () 3 = none ∧
    ¬ (performAll (twoRoots ++ [foreignRevocation])).resources.Consistent
      := by
  refine ⟨by decide, by decide, by decide, ?_⟩
  intro hconsistent
  have hlisted : 3 ∈ (performAll
    (twoRoots ++ [foreignRevocation])).resources.delegatesOf () 1 := by
    decide
  have howner := ((hconsistent ()).mem_iff 1 3).mp hlisted
  exact absurd howner (by decide)

end Session

end OpenLibra.Capability
