import OpenLibra.ChangeSets.ChangeSetExt

/-!
# Squashing composes change sets

A change set acts on the values of keys: a creation needs an absent key, and everything else a
present one.
-/

namespace OpenLibra.ChangeSets

open Rust Aggregation Tables BlockExecutor

namespace Cell

/-!
# The action on one key
-/

def applyDeltaTo (codec : ValueCodec) (delta : DeltaOp) (bytes : Bytes) : Option Bytes :=
  match codec.deserialize bytes with
  | none => none
  | some base =>
    match delta.applyTo base with
    | .ok value => some (codec.serialize value)
    | _ => none

def applyTo (codec : ValueCodec) : Cell -> Option Bytes -> Option (Option Bytes)
  | (none, none), value => some value
  | (some (.creation data), none), none => some (some data)
  | (some (.modification data), none), some _ => some (some data)
  | (some .deletion, none), some _ => some none
  | (none, some delta), some bytes => (applyDeltaTo codec delta bytes).map some
  | _, _ => none

def Disjoint (self : Cell) : Prop := self.1 = none ∨ self.2 = none

variable {codec : ValueCodec} {limit : U128}

theorem applyDeltaTo_eq_some {delta : DeltaOp} {bytes result : Bytes}
    (h : applyDeltaTo codec delta bytes = some result) :
    exists base value, codec.deserialize bytes = some base ∧ delta.applyTo base = .ok value ∧
      result = codec.serialize value := by
  unfold applyDeltaTo at h
  split at h
  · cases h
  · next base hbase =>
      split at h
      · next value hval =>
          cases h
          exact ⟨base, value, hbase, hval, rfl⟩
      · cases h

theorem applyDelta_of_eq_some {status : Type} {delta : DeltaOp} {bytes result : Bytes}
    (h : applyDeltaTo codec delta bytes = some result) :
    applyDelta codec delta bytes = (.ok result : Outcome (SquashError status) Bytes) := by
  rcases applyDeltaTo_eq_some h with ⟨_, _, hbase, hval, rfl⟩
  simp only [applyDelta, hbase, hval]
  rfl

variable {status : Type} {self : Cell} {before middle after : Option Bytes}

theorem squashWrite_applyTo {op : WriteOp} (hself : self.applyTo codec before = some middle)
    (hop : applyTo codec (some op, none) middle = some after) :
    exists result, squashWrite op self = (.ok result : Outcome (SquashError status) Cell) ∧
      result.Disjoint ∧ result.applyTo codec before = some after := by
  rcases self with ⟨_ | r, _ | delta⟩
  · cases hself
    exact ⟨_, rfl, .inr rfl, hop⟩
  · -- a delta needs a value, so the key stays present below the write
    cases before with
    | none => cases hself
    | some =>
      rcases Option.map_eq_some_iff.mp hself with ⟨_, _, rfl⟩
      refine ⟨_, rfl, .inr rfl, ?_⟩
      cases op <;> exact hop
  · -- every pair of writes that can follow each other has its own rule
    cases r <;> cases before <;> cases hself <;> cases op <;> cases hop <;>
      exact ⟨_, rfl, .inr rfl, rfl⟩
  · cases r <;> cases before <;> cases hself

theorem squashDelta_applyTo {op : DeltaOp}
    (hwithin : forall delta, self.2 = some delta -> delta.Within limit)
    (hop : op.Within limit) (hself : self.applyTo codec before = some middle)
    (hnext : applyTo codec (none, some op) middle = some after) :
    exists result, squashDelta codec op self = (.ok result : Outcome (SquashError status) Cell) ∧
      result.Disjoint ∧ result.applyTo codec before = some after := by
  cases middle with
  | none => cases hnext
  | some bytes =>
    rcases Option.map_eq_some_iff.mp hnext with ⟨result, hres, rfl⟩
    have hfold := @applyDelta_of_eq_some codec status op bytes result hres
    rcases self with ⟨_ | r, _ | delta⟩
    · cases hself
      exact ⟨_, rfl, .inl rfl, hnext⟩
    · cases before with
      | none => cases hself
      | some =>
        rcases Option.map_eq_some_iff.mp hself with ⟨_, hfirst, hbytes⟩
        cases hbytes
        rcases applyDeltaTo_eq_some hfirst with ⟨_, value, hbase, hval, rfl⟩
        rcases applyDeltaTo_eq_some hres with ⟨_, _, hlast, hr, rfl⟩
        cases (codec.deserialize_serialize value).symm.trans hlast
        rcases DeltaOp.exists_mergeOnto (hwithin delta rfl) hop hval hr
          with ⟨merged, hmerge, hmerged⟩
        refine ⟨(none, some merged), ?_, .inl rfl, ?_⟩
        · simp only [squashDelta, hmerge]
          rfl
        · simp only [applyTo, applyDeltaTo, hbase, hmerged]
          rfl
    · -- a deletion leaves no value for the delta
      cases r <;> cases before <;> cases hself <;>
        exact ⟨_, congrArg (· >>= _) hfold, .inr rfl, rfl⟩
    · cases r <;> cases before <;> cases hself

theorem disjoint_of_applyTo (h : self.applyTo codec before = some middle) : self.Disjoint := by
  rcases self with ⟨_ | r, _ | _⟩
  · exact .inl rfl
  · exact .inl rfl
  · exact .inr rfl
  · cases r <;> cases before <;> cases h

theorem squash_applyTo {other : Cell}
    (hself : forall delta, self.2 = some delta -> delta.Within limit)
    (hother : forall delta, other.2 = some delta -> delta.Within limit)
    (hfirst : self.applyTo codec before = some middle)
    (hsnd : other.applyTo codec middle = some after) :
    exists result, squash codec self other = (.ok result : Outcome (SquashError status) Cell) ∧
      result.Disjoint ∧ result.applyTo codec before = some after := by
  rcases other with ⟨_ | op, _ | delta⟩
  · cases hsnd
    exact ⟨self, rfl, disjoint_of_applyTo hfirst, hfirst⟩
  · exact squashDelta_applyTo hself (hother delta rfl) hfirst hsnd
  · rcases squashWrite_applyTo hfirst hsnd with ⟨result, hres, hrest⟩
    refine ⟨result, ?_, hrest⟩
    rw [squash, Cells.after, hres]
    rfl
  · cases op <;> cases middle <;> cases hsnd

end Cell

/-!
# The action on states
-/

namespace ChangeSetExt

variable {key event status : Type} [DecidableEq key]

/-- Applied to the state `s`, the change set is defined and gives `t`. -/
def Applies (codec : ValueCodec) (self : ChangeSetExt key event status)
    (s t : key -> Option Bytes) : Prop :=
  forall k, (self.cell k).applyTo codec (s k) = some (t k)

def Disjoint (self : ChangeSetExt key event status) : Prop := forall k, (self.cell k).Disjoint

def DeltasWithin (limit : key -> U128) (self : ChangeSetExt key event status) : Prop :=
  forall k delta, self.deltaChangeSet.lookup k = some delta -> delta.Within (limit k)

/-- Where `a` and then `b` can be applied, and the checker does not reject what
they are squashed to, the squash can be applied instead. -/
theorem squash_composes (codec : ValueCodec) (a b : ChangeSetExt key event status)
    (limit : key -> U128) (ha : a.DeltasWithin limit) (hb : b.DeltasWithin limit)
    (s t : key -> Option Bytes)
    (h : exists middle, a.Applies codec s middle ∧ b.Applies codec middle t)
    (hcheck : forall e, a.squash codec b ≠ Outcome.err (SquashError.check e)) :
    exists c, a.squash codec b = Outcome.ok c ∧ c.Disjoint ∧ c.Applies codec s t ∧
      c.changeSet.events = a.changeSet.events ++ b.changeSet.events := by
  rcases h with ⟨middle, hfirst, hsecond⟩
  have hcells (k : key) := @Cell.squash_applyTo codec (limit k) status
    (a.cell k) (s k) (middle k) (t k) (b.cell k) (ha k) (hb k) (hfirst k)
    (hsecond k)
  rcases squash_returns (fun k => (hcells k).imp fun _ => And.left) hcheck with ⟨c, hc⟩
  rcases squash_cell hc with ⟨hcell, hevents⟩
  refine ⟨c, hc, fun k => ?_, fun k => ?_, hevents⟩
  · rcases hcells k with ⟨result, hresult, hdisjoint, _⟩
    cases hresult.symm.trans (hcell k)
    exact hdisjoint
  · rcases hcells k with ⟨_, hresult, _, happly⟩
    cases hresult.symm.trans (hcell k)
    exact happly

def fundTwo : ChangeSetExt Bool Nat Unit :=
  { deltaChangeSet := AList.singleton false ⟨1, 0, 100, .plus 1⟩
    changeSet :=
      { writeSet := AList.singleton true
          (.creation (ValueCodec.littleEndian.serialize 7))
        events := [1] }
    checker := fun _ => none }

def raiseTwo : ChangeSetExt Bool Nat Unit :=
  { deltaChangeSet := insertAll ∅ [(false, ⟨2, 0, 100, .plus 2⟩),
      (true, ⟨2, 0, 100, .plus 2⟩)]
    changeSet := { writeSet := ∅, events := [2] }
    checker := fun _ => none }

theorem squash_composes_raised :
    exists c, fundTwo.squash ValueCodec.littleEndian raiseTwo = Outcome.ok c ∧ c.Disjoint ∧
      c.Applies ValueCodec.littleEndian
        (fun k => if k then none
          else some (ValueCodec.littleEndian.serialize 3))
        (fun k => some (ValueCodec.littleEndian.serialize (if k then 9 else 6))) ∧
      c.changeSet.events = [1, 2] := by
  refine squash_composes ValueCodec.littleEndian fundTwo raiseTwo (fun _ => 100) ?_ ?_ _ _
    ⟨fun k => some (ValueCodec.littleEndian.serialize (if k then 7 else 4)), ?_, ?_⟩ ?_
  · intro k delta h
    cases k <;> cases h
    exact ⟨by decide, rfl⟩
  · intro k delta h
    cases k <;> cases h <;> exact ⟨by decide, rfl⟩
  · intro k
    cases k <;> decide +kernel
  · intro k
    cases k <;> decide +kernel
  · intro _ h
    cases h

end ChangeSetExt

end OpenLibra.ChangeSets
