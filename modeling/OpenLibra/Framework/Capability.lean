import OpenLibra.Move.Vector

/-!
# Capabilities

Model of `std::capability`.  The owner of a feature creates a capability at an address, its
root.
-/

namespace OpenLibra.Capability

open Rust Move Function

def eCapabilityAlreadyExists : Nat := 1

def eCapabilityNotFound : Nat := 2

def eDelegate : Nat := 3

variable (feature address : Type)

structure Cap where
  feature : feature
  root : address
deriving DecidableEq, Repr

structure CapState where
  delegates : List address
deriving DecidableEq, Repr

structure CapDelegateState where
  root : address
deriving DecidableEq, Repr

/-- The resources `CapState<Feature>` and `CapDelegateState<Feature>` of all
accounts, for all features. -/
structure Resources where
  capState : feature -> address -> Option (CapState address)
  capDelegateState : feature -> address -> Option (CapDelegateState address)

variable {feature address : Type} [DecidableEq feature] [DecidableEq address]

namespace Resources

variable (s : Resources feature address) (f : feature) (addr : address)

def setCapState (state : CapState address) : Resources feature address :=
  { s with
    capState := update s.capState f (update (s.capState f) addr (some state)) }

def setCapDelegateState (state : Option (CapDelegateState address)) : Resources feature address :=
  { s with
    capDelegateState := update s.capDelegateState f (update (s.capDelegateState f) addr state) }

variable {s : Resources feature address} {f g : feature} {addr : address}

theorem capState_setCapState_self (state : CapState address) :
    (s.setCapState f addr state).capState f = update (s.capState f) addr (some state) :=
  update_self f _ s.capState

theorem capState_setCapState_of_ne (hg : g ≠ f) (state : CapState address) :
    (s.setCapState f addr state).capState g = s.capState g :=
  update_of_ne hg _ s.capState

theorem capDelegateState_setCapDelegateState_self (state : Option (CapDelegateState address)) :
    (s.setCapDelegateState f addr state).capDelegateState f =
      update (s.capDelegateState f) addr state :=
  update_self f _ s.capDelegateState

theorem capDelegateState_setCapDelegateState_of_ne (hg : g ≠ f)
    (state : Option (CapDelegateState address)) :
    (s.setCapDelegateState f addr state).capDelegateState g = s.capDelegateState g :=
  update_of_ne hg _ s.capDelegateState

end Resources

section

variable (f : feature)

def create (owner : address) (s : Resources feature address) :
    MoveResult (Resources feature address) := do
  ensure ((s.capState f owner).isNone = true) (alreadyExists eCapabilityAlreadyExists)
  pure (s.setCapState f owner { delegates := [] })

variable (requester : address) (s : Resources feature address)

def validateAcquire : MoveResult address :=
  match s.capDelegateState f requester with
  | some delegateState => do
    -- The requester has to be registered as a delegate, too.
    ensure ((s.capState f delegateState.root).isSome = true) (invalidState eDelegate)
    let state ← borrowGlobal (s.capState f delegateState.root)
    ensure (Move.Vector.contains state.delegates requester = true) (invalidState eDelegate)
    pure delegateState.root
  | none => do
    ensure ((s.capState f requester).isSome = true) (notFound eCapabilityNotFound)
    pure requester

def acquire : MoveResult (Cap feature address) := do
  let root ← validateAcquire f requester s
  pure { feature := f, root := root }

end

/-!
# Delegation and revocation
-/

section

variable (v : List address) (x : address)

def removeElement : MoveResult (List address) :=
  match Vector.indexOf v x with
  | (true, index) => do
    let removed ← Vector.remove v index
    pure removed.2
  | (false, _) => .ok v

def addElement : List address :=
  if Move.Vector.contains v x = true then v else v ++ [x]

def delegate (cap : Cap feature address) (target : address) (s : Resources feature address) :
    MoveResult (Resources feature address) :=
  match s.capDelegateState cap.feature target with
  | some _ => .ok s
  | none => do
    let moved := s.setCapDelegateState cap.feature target (some { root := cap.root })
    let state ← borrowGlobal (moved.capState cap.feature cap.root)
    pure (moved.setCapState cap.feature cap.root
      { delegates := addElement state.delegates target })

def revoke (cap : Cap feature address) (source : address) (s : Resources feature address) :
    MoveResult (Resources feature address) :=
  match s.capDelegateState cap.feature source with
  | none => .ok s
  | some _ => do
    let moved := s.setCapDelegateState cap.feature source none
    let state ← borrowGlobal (moved.capState cap.feature cap.root)
    let delegates ← removeElement state.delegates source
    pure (moved.setCapState cap.feature cap.root
      { delegates := delegates })

theorem removeElement_eq : removeElement v x = .ok (v.erase x) := by
  have hidx : v.idxOf? x = v.findIdx? fun found => found = x := rfl
  rw [List.erase_eq_eraseIdx, hidx]
  unfold removeElement Vector.indexOf
  cases hfind : v.findIdx? fun found => found = x with
  | none => rfl
  | some i =>
    have hlt := (List.findIdx?_eq_some_iff_getElem.mp hfind).1
    have hremove := Vector.remove_eq_ok (List.getElem?_eq_getElem hlt)
    change (Vector.remove v i >>= fun removed =>
      .ok removed.2) = _
    rw [hremove]
    rfl

theorem addElement_of_not_mem {v} {x : address} (h : x ∉ v) : addElement v x = v ++ [x] := by
  unfold addElement Move.Vector.contains
  rw [if_neg]
  rw [List.contains_iff_mem]
  exact h

end

/-!
# Transactions
-/

structure Session (feature address : Type) where
  resources : Resources feature address
  caps : List (Cap feature address)

/-- Public functions of the module, and the end of the transaction. -/
inductive Call (feature address : Type) where
  | create (f : feature) (owner : address)
  | acquire (f : feature) (requester : address)
  | acquireLinear (f : feature) (requester : address)
  | delegate (cap : Cap feature address) (target : address)
  | revoke (cap : Cap feature address) (source : address)
  | endTransaction
deriving DecidableEq, Repr

namespace Session

def empty : Session feature address :=
  { resources :=
      { capState := fun _ _ => none
        capDelegateState := fun _ _ => none }
    caps := [] }

def withCap (s : Session feature address) (cap : Cap feature address)
    (use : Resources feature address -> MoveResult (Resources feature address)) :
    Session feature address :=
  if cap ∈ s.caps then
    match use s.resources with
    | .ok resources => { s with resources := resources }
    | _ => s
  else s

def perform (s : Session feature address) : Call feature address -> Session feature address
  | .create f owner =>
    match create f owner s.resources with
    | .ok resources => { s with resources := resources }
    | _ => s
  | .acquire f requester =>
    match acquire f requester s.resources with
    | .ok cap => { s with caps := cap :: s.caps }
    | _ => s
  | .acquireLinear _ _ => s
  | .delegate cap target => s.withCap cap (delegate cap target)
  | .revoke cap source => s.withCap cap (revoke cap source)
  | .endTransaction => { s with caps := [] }

def performAll (calls : List (Call feature address)) : Session feature address :=
  calls.foldl perform empty

end Session

end OpenLibra.Capability
