import OpenLibra.Aggregator.DeltaChains
import OpenLibra.BlockExecutor.MVHashMap
import OpenLibra.Tables.KeyedLoops

/-!
# Change sets with deltas

A change set has at most one write for every key, and its extension at most one delta.
-/

namespace OpenLibra.ChangeSets

open Rust Aggregation Tables BlockExecutor

structure ChangeSet (key event : Type) where
  writeSet : AList fun _ : key => WriteOp
  events : List event

/-- A `CheckChangeSet`: the status with which it rejects a change set, if it
does. -/
abbrev Checker (key event status : Type) : Type := ChangeSet key event -> Option status

structure ChangeSetExt (key event status : Type) where
  deltaChangeSet : AList fun _ : key => DeltaOp
  changeSet : ChangeSet key event
  checker : Checker key event status

/-- The errors that `anyhow` collects. -/
inductive SquashError (status : Type) where
  | bail (message : String)
  | deserialize
  | delta (e : PartialVMError)
  | check (e : status)
deriving DecidableEq, Repr

variable {key event status : Type}

def ChangeSet.new (writeSet : AList fun _ : key => WriteOp)
    (events : List event) (checker : Checker key event status) :
    Outcome status (ChangeSet key event) :=
  match checker ⟨writeSet, events⟩ with
  | some e => .err e
  | none => .ok ⟨writeSet, events⟩

/-!
# The passes for one key
-/

abbrev Cell : Type := Option WriteOp × Option DeltaOp

/-- An occupied entry in `WriteSetMut::squash` and in `squash_change_set`.  It
is removed if nothing is left to do. -/
def squashOccupied : WriteOp -> WriteOp -> Outcome (SquashError status) (Option WriteOp)
  | .modification _, .creation _
  | .creation _, .creation _
  | .deletion, .deletion
  | .deletion, .modification _ =>
    Outcome.err (SquashError.bail "The given change sets cannot be squashed")
  | .modification _, .modification data => .ok (some (.modification data))
  | .creation _, .modification data => .ok (some (.creation data))
  | .modification _, .deletion => .ok (some .deletion)
  | .deletion, .creation data => .ok (some (.modification data))
  | .creation _, .deletion => .ok none

namespace Cell

/-- One round of the loop of `squash_change_set`. -/
def squashWrite (op : WriteOp) : Cell -> Outcome (SquashError status) Cell
  | (some r, delta) => do
    let result <- squashOccupied r op
    pure (result, delta)
  | (none, _) => .ok (some op, none)

def applyDelta (codec : ValueCodec) (delta : DeltaOp) (data : Bytes) :
    Outcome (SquashError status) Bytes :=
  match codec.deserialize data with
  | none => .err .deserialize
  | some val => do
    let result <- (delta.applyTo val).mapErr .delta
    pure (codec.serialize result)

/-- One round of the loop of `squash_delta_change_set`. -/
def squashDelta (codec : ValueCodec) (op : DeltaOp) : Cell -> Outcome (SquashError status) Cell
  | (some (.creation data), delta) => do
    let result <- applyDelta codec op data
    pure (some (.creation result), delta)
  | (some (.modification data), delta) => do
    let result <- applyDelta codec op data
    pure (some (.modification result), delta)
  | (some .deletion, _) =>
    .err (.bail
      "Failed to apply Aggregator delta -- value already deleted")
  | (none, some previous) => do
    let merged <- (op.mergeOnto previous).mapErr .delta
    pure (none, some merged)
  | (none, none) => .ok (none, some op)

def squash (codec : ValueCodec) (self other : Cell) :
    Outcome (SquashError status) Cell := do
  let middle <- Cells.after squashWrite other.1 self
  Cells.after (squashDelta codec) other.2 middle

end Cell

/-!
# The passes over all keys
-/

namespace ChangeSetExt

variable [dk : DecidableEq key]

def cells : Cells ((AList fun _ : key => WriteOp) ×
    (AList fun _ : key => DeltaOp)) key Cell :=
  Cells.prod Cells.table Cells.table

variable (self : ChangeSetExt key event status)

def cell (k : key) : Cell :=
  cells.view (self.changeSet.writeSet, self.deltaChangeSet) k

def checked (events : List event)
    (sets : (AList fun _ : key => WriteOp) × (AList fun _ : key => DeltaOp)) :
    Outcome (SquashError status) (ChangeSetExt key event status) := do
  let changeSet <-
    (ChangeSet.new sets.1 events self.checker).mapErr .check
  pure
    { deltaChangeSet := sets.2
      changeSet := changeSet
      checker := self.checker }

def squashChangeSet (other : ChangeSet key event) :
    Outcome (SquashError status) (ChangeSetExt key event status) := do
  let sets <- cells.updateFrom Cell.squashWrite
    (self.changeSet.writeSet, self.deltaChangeSet) other.writeSet
  self.checked (self.changeSet.events ++ other.events) sets

def squashDeltaChangeSet (codec : ValueCodec) (self : ChangeSetExt key event status)
    (other : AList fun _ : key => DeltaOp) :
    Outcome (SquashError status) (ChangeSetExt key event status) := do
  let sets <- cells.updateFrom (Cell.squashDelta codec)
    (self.changeSet.writeSet, self.deltaChangeSet) other
  self.checked self.changeSet.events sets

def squash (codec : ValueCodec) (self other : ChangeSetExt key event status) :
    Outcome (SquashError status) (ChangeSetExt key event status) := do
  let middle <- self.squashChangeSet other.changeSet
  middle.squashDeltaChangeSet codec other.deltaChangeSet

variable {codec : ValueCodec} {a b c : ChangeSetExt key event status} {events : List event}
  {sets : (AList fun _ : key => WriteOp) × (AList fun _ : key => DeltaOp)}

omit dk in
theorem checked_cases : a.checked events sets = .ok ⟨sets.2, ⟨sets.1, events⟩, a.checker⟩ ∨
    exists e, a.checked events sets = .err (.check e) := by
  unfold checked ChangeSet.new
  cases a.checker ⟨sets.1, events⟩ with
  | none => exact .inl rfl
  | some e => exact .inr ⟨e, rfl⟩

theorem checked_cell (h : a.checked events sets = .ok c) :
    (forall k, c.cell k = cells.view sets k) ∧ c.changeSet.events = events := by
  rcases checked_cases with hok | ⟨_, herr⟩
  · cases hok.symm.trans h
    exact ⟨fun _ => rfl, rfl⟩
  · cases herr.symm.trans h

theorem squash_cell (h : a.squash codec b = .ok c) :
    (forall k, Cell.squash codec (a.cell k) (b.cell k) =
      (.ok (c.cell k) : Outcome (SquashError status) Cell)) ∧
      c.changeSet.events = a.changeSet.events ++ b.changeSet.events := by
  rcases of_bind h with ⟨middle, hmid, h⟩
  rcases of_bind hmid with ⟨_, hwrs, hmid⟩
  rcases of_bind h with ⟨_, hsets, h⟩
  rcases checked_cell hmid with ⟨hcell, hevs⟩
  rcases checked_cell h with ⟨hcell', hevs'⟩
  refine ⟨fun k => bind_eq_ok_iff.mpr ⟨middle.cell k, ?_, ?_⟩, hevs'.trans hevs⟩
  · rw [hcell]
    exact Cells.updateFrom_view hwrs k
  · rw [hcell']
    exact Cells.updateFrom_view hsets k

theorem squash_returns (h : forall k, exists result, Cell.squash codec (a.cell k) (b.cell k) =
      (.ok result : Outcome (SquashError status) Cell))
    (hcheck : forall e, a.squash codec b ≠ .err (.check e)) :
    exists c, a.squash codec b = .ok c := by
  have hwrs : forall k, exists result, Cells.after Cell.squashWrite (b.changeSet.writeSet.lookup k)
      (a.cell k) = (.ok result : Outcome (SquashError status) Cell) :=
    fun k => by
      rcases h k with ⟨result, hres⟩
      rcases of_bind hres with ⟨middle, hmid, _⟩
      exact ⟨middle, hmid⟩
  rcases Cells.updateFrom_returns hwrs with ⟨writes, hloop⟩
  have hpass : a.squashChangeSet b.changeSet =
    a.checked (a.changeSet.events ++ b.changeSet.events) writes :=
    congrArg (· >>= _) hloop
  rcases @checked_cases _ _ _ a (a.changeSet.events ++ b.changeSet.events)
    writes with hmid | ⟨e, herr⟩
  · have hdels : forall k, exists result,
        Cells.after (Cell.squashDelta codec) (b.deltaChangeSet.lookup k) (cells.view writes k) =
            (.ok result : Outcome (SquashError status) Cell) :=
      fun k => by
        rcases h k with ⟨result, hres⟩
        rcases of_bind hres with ⟨_, hmid, hres⟩
        cases hmid.symm.trans (Cells.updateFrom_view hloop k)
        exact ⟨result, hres⟩
    rcases Cells.updateFrom_returns hdels with ⟨sets, hsets⟩
    have hsquash : a.squash codec b = a.checked
      (a.changeSet.events ++ b.changeSet.events) sets := by
      rw [squash, hpass, hmid, ok_bind]
      exact congrArg (· >>= _) hsets
    rcases checked_cases with hok | ⟨e, herr⟩
    · exact ⟨_, hsquash.trans hok⟩
    · exact absurd (hsquash.trans herr) (hcheck e)
  · refine absurd ?_ (hcheck e)
    rw [squash, hpass, herr]
    rfl

end ChangeSetExt

end OpenLibra.ChangeSets
