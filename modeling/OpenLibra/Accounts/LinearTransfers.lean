import OpenLibra.Accounts.Operations
import OpenLibra.Transition.System

/-!
# References for one transfer

A linear transfer reference holds the owner at its generation.  The transfer does not compare it
with the owner it finds.
-/

namespace OpenLibra.Accounts

open Rust Move

/-- The object is gone or has the owner. -/
def Store.OwnedBy (s : Store) (objectId owner : Address) : Prop :=
  forall object, s.objects.lookup objectId = some object -> object.owner = owner

theorem Store.OwnedBy.setObject {s : Store} {objectId owner addr : Address} {object : Object}
    (h : s.OwnedBy objectId owner) (howner : addr = objectId -> object.owner = owner) :
    (s.setObject addr object).OwnedBy objectId owner := by
  intro found hfound
  by_cases haddr : objectId = addr
  · rw [haddr, Store.setObject, AList.lookup_insert] at hfound
    cases hfound
    exact howner haddr.symm
  · rw [Store.setObject, AList.lookup_insert_ne haddr] at hfound
    exact h found hfound

namespace Store

end Store

/-!
# The places of references
-/

namespace World

variable {env : Environment} {w w' : World} {operation : Operation} {place : Nat}
  {ref : LinearTransferRef}

end World

/-!
# A reference that outlives its owner
-/

end OpenLibra.Accounts
