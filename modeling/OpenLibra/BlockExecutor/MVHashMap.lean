import Mathlib.Data.List.Nodup
import OpenLibra.Aggregator.Extension
import OpenLibra.BlockExecutor.Scheduler

/-!
# The multi-version data structure

Every key holds the entries of the transactions that wrote it, one for each index.
-/

namespace OpenLibra.BlockExecutor

open Rust Aggregation Function List

/-- Values that can be written: `None` stands for a deletion. -/
class TransactionWrite (value : Type) where
  extractRawBytes : value -> Option Bytes

inductive WriteOp where
  | creation (bytes : Bytes)
  | modification (bytes : Bytes)
  | deletion
deriving DecidableEq, Repr

instance : TransactionWrite WriteOp where
  extractRawBytes
    | .creation bytes | .modification bytes => some bytes
    | .deletion => none

inductive Flag where
  | done
  | estimate
deriving DecidableEq, Repr

inductive EntryCell (value : Type) where
  | write (incarnation : Incarnation) (data : value)
  | delta (op : DeltaOp)
deriving DecidableEq, Repr

structure Entry (value : Type) where
  flag : Flag
  cell : EntryCell value
deriving DecidableEq, Repr

def Entry.markEstimate (self : Entry value) : Entry value :=
  { self with flag := .estimate }

structure VersionedValue (value : Type) where
  versionedMap : TxnIndex -> Option (Entry value)
  containsDelta : Bool

namespace VersionedValue

def new : VersionedValue value where
  versionedMap := fun _ => none
  containsDelta := false

def set (self : VersionedValue value) (txnIdx : TxnIndex) (entry : Option (Entry value)) :
    VersionedValue value :=
  { self with
    versionedMap := update self.versionedMap txnIdx entry }

end VersionedValue

/-- The keys that ever held a delta are listed once each, and each has a path in
the map. -/
structure MVHashMap (key value : Type) where
  data : key -> Option (VersionedValue value)
  deltaKeys : List key
  deltaKeys_nodup : deltaKeys.Nodup
  mem_deltaKeys : forall k, k ∈ deltaKeys <-> exists v, data k = some v ∧ v.containsDelta = true

inductive MVHashMapError where
  | notFound
  | unresolved (delta : DeltaOp)
  | dependency (txnIdx : TxnIndex)
  | deltaApplicationFailure
deriving DecidableEq, Repr

inductive MVHashMapOutput (value : Type) where
  | resolved (result : U128)
  | version (version : Version) (data : value)
deriving DecidableEq, Repr

/-!
# Reading
-/

section

variable [TransactionWrite value] (codec : ValueCodec) (version : Version) (data : value)
  (accumulator : Option DeltaOp)

/-- The case of a write below accumulated deltas.  The accumulator is `none`
when merging the deltas has failed. -/
def resolveOver : Outcome MVHashMapError (MVHashMapOutput value) :=
  match TransactionWrite.extractRawBytes data with
  | none => .ok (.version version data)
  | some bytes =>
    match codec.deserialize bytes, accumulator with
    | none, _ => .panic
    | some _, none => .err .deltaApplicationFailure
    | some base, some delta =>
      match delta.applyTo base with
      | .ok result => .ok (.resolved result)
      | .err _ => .err .deltaApplicationFailure
      | .panic => .panic

def accumulate (accumulator : Option DeltaOp) (delta : DeltaOp) :
    Outcome MVHashMapError (Option DeltaOp) :=
  match accumulator with
  | none => .ok none
  | some merged =>
    match merged.mergeOnto delta with
    | .ok merged => .ok (some merged)
    | .err _ => .ok none
    | .panic => .panic

theorem resolveOver_ne_dependency (dep : TxnIndex) :
    resolveOver codec version data accumulator ≠ .err (.dependency dep) := by
  unfold resolveOver
  split
  · simp
  · split
    · simp
    · simp
    · split <;> simp

variable {v : value}

theorem resolveOver_eq_version {version version' : Version} {data : value} {accumulator}
    (h : resolveOver codec version data accumulator = .ok (.version version' v)) :
    (version, data) = (version', v) := by
  unfold resolveOver at h
  split at h
  · cases h
    rfl
  · split at h
    · cases h
    · cases h
    · split at h <;> cases h

theorem accumulate_ne_err (accumulator : Option DeltaOp) (delta : DeltaOp) (e : MVHashMapError) :
    accumulate accumulator delta ≠ .err e := by
  unfold accumulate
  split
  · simp
  · split <;> simp

/-- The loop of `read` over the entries below an index, highest first. -/
def scan (entries : TxnIndex -> Option (Entry value)) : TxnIndex -> Option (Option DeltaOp) ->
    Outcome MVHashMapError (MVHashMapOutput value)
  | 0, none => .err .notFound
  | 0, some (some delta) => .err (.unresolved delta)
  | 0, some none => .err .deltaApplicationFailure
  | idx + 1, accumulator =>
    match entries idx with
    | none => scan entries idx accumulator
    | some entry =>
      if entry.flag = .estimate then
        .err (.dependency idx)
      else
        match entry.cell, accumulator with
        | .write incarnation data, none => .ok (.version (idx, incarnation) data)
        | .write incarnation data, some accumulator =>
          resolveOver codec (idx, incarnation) data accumulator
        | .delta delta, some accumulator => do
          let accumulator <- accumulate accumulator delta
          scan entries idx (some accumulator)
        | .delta delta, none => scan entries idx (some (some delta))

variable {txnIdx : TxnIndex} {accumulator : Option (Option DeltaOp)}
  {entries : TxnIndex -> Option (Entry value)}

theorem scan_congr {entries'} (h : forall j, j < txnIdx -> entries j = entries' j)
    (accumulator : Option (Option DeltaOp)) :
    scan codec entries txnIdx accumulator = scan codec entries' txnIdx accumulator := by
  induction txnIdx generalizing accumulator with
  | zero => rcases accumulator with _ | _ | delta <;> rfl
  | succ idx ih =>
    have ih := ih (fun j hj => h j (Nat.lt_succ_of_lt hj))
    rw [scan, scan, h idx (Nat.lt_succ_self idx)]
    simp only [ih]

variable {j : TxnIndex}

theorem scan_update_estimate {e} (hent : entries j = some e) (hflag : e.flag = .estimate)
    (e' : Option (Entry value)) (accumulator : Option (Option DeltaOp))
    (h : forall d, scan codec entries txnIdx accumulator ≠ .err (.dependency d)) :
    scan codec (update entries j e') txnIdx accumulator =
      scan codec entries txnIdx accumulator := by
  induction txnIdx generalizing accumulator with
  | zero => rcases accumulator with _ | _ | delta <;> rfl
  | succ idx ih =>
    by_cases hidx : idx = j
    · subst hidx
      rw [scan, hent] at h
      simp only [hflag, if_true] at h
      exact absurd rfl (h idx)
    · rw [scan] at h
      rw [scan, scan, update_of_ne hidx]
      rcases hidxEnt : entries idx with _ | ⟨_, cell⟩
      · rw [hidxEnt] at h
        exact ih accumulator h
      · rw [hidxEnt] at h
        simp only at h ⊢
        split
        · rfl
        · next hdone =>
            rw [if_neg hdone] at h
            rcases cell with ⟨_, _⟩ | delta
            · rcases accumulator with _ | accumulator <;> rfl
            · rcases accumulator with _ | accumulator
              · exact ih _ h
              · simp only at h ⊢
                cases hmerge : accumulate accumulator delta with
                | ok =>
                  rw [hmerge] at h
                  exact ih _ h
                | err | panic => rfl

theorem scan_eq_dependency {dep : TxnIndex}
    (h : scan codec entries txnIdx accumulator = .err (.dependency dep)) :
    dep < txnIdx ∧ exists e, entries dep = some e ∧ e.flag = .estimate := by
  induction txnIdx generalizing accumulator with
  | zero => rcases accumulator with _ | _ | delta <;> cases h
  | succ idx ih =>
    have hlower {accumulator : Option (Option DeltaOp)} (h : scan codec entries idx accumulator =
        .err (.dependency dep)) :=
      (ih h).imp_left Nat.lt_succ_of_lt
    rw [scan] at h
    rcases hent : entries idx with _ | ⟨flag, cell⟩
    · rw [hent] at h
      exact hlower h
    · rw [hent] at h
      simp only at h
      split at h
      · next hflag =>
          cases h
          exact ⟨Nat.lt_succ_self dep, ⟨flag, cell⟩, hent, hflag⟩
      · rcases cell with ⟨_, _⟩ | delta
        · rcases accumulator with _ | accumulator
          · cases h
          · exact (resolveOver_ne_dependency codec _ _ _ _ h).elim
        · rcases accumulator with _ | accumulator
          · exact hlower h
          · simp only at h
            cases hmerge : accumulate accumulator delta with
            | ok =>
              rw [hmerge] at h
              exact hlower h
            | err e => exact (accumulate_ne_err accumulator delta e hmerge).elim
            | panic =>
              rw [hmerge] at h
              cases h

theorem scan_eq_version {inc}
    (h : scan codec entries txnIdx accumulator = .ok (.version (j, inc) v)) :
    exists e, entries j = some e ∧ e.cell = .write inc v := by
  induction txnIdx generalizing accumulator with
  | zero => rcases accumulator with _ | _ | delta <;> cases h
  | succ idx ih =>
    rw [scan] at h
    rcases hent : entries idx with _ | ⟨_, cell⟩
    · rw [hent] at h
      exact ih h
    · rw [hent] at h
      simp only at h
      split at h
      · cases h
      · rcases cell with ⟨_, _⟩ | delta
        · rcases accumulator with _ | accumulator
          · cases h
            exact ⟨_, hent, rfl⟩
          · cases resolveOver_eq_version codec h
            exact ⟨_, hent, rfl⟩
        · rcases accumulator with _ | accumulator
          · exact ih h
          · simp only at h
            cases hmerge : accumulate accumulator delta with
            | ok =>
              rw [hmerge] at h
              exact ih h
            | err | panic =>
              rw [hmerge] at h
              cases h

end

namespace MVHashMap

variable {key value : Type} [dk : DecidableEq key]

def new : MVHashMap key value where
  data := fun _ => none
  deltaKeys := []
  deltaKeys_nodup := nodup_nil
  mem_deltaKeys := by simp

def read [TransactionWrite value] (codec : ValueCodec)
    (self : MVHashMap key value) (k : key) (txnIdx : TxnIndex) :
    Outcome MVHashMapError (MVHashMapOutput value) :=
  match self.data k with
  | some v => scan codec v.versionedMap txnIdx none
  | none => .err .notFound

/-!
# Updates
-/

variable (self : MVHashMap key value)

/-- `entry(key).or_default()`. -/
def valueOrDefault (k : key) : VersionedValue value :=
  (self.data k).getD VersionedValue.new

omit dk in
theorem valueOrDefault_containsDelta (k : key) :
    (self.valueOrDefault k).containsDelta = true <-> k ∈ self.deltaKeys := by
  rw [self.mem_deltaKeys k, valueOrDefault]
  cases self.data k with
  | none => simp [VersionedValue.new]
  | some => simp

variable (k : key) (txnIdx : TxnIndex)

def setEntry (entry : Option (Entry value)) : MVHashMap key value where
  data := update self.data k (some ((self.valueOrDefault k).set txnIdx entry))
  deltaKeys := self.deltaKeys
  deltaKeys_nodup := self.deltaKeys_nodup
  mem_deltaKeys := by
    intro k'
    by_cases hk : k' = k
    · subst hk
      simp [VersionedValue.set, valueOrDefault_containsDelta]
    · rw [update_of_ne hk]
      exact self.mem_deltaKeys k'

/-- `add_write`; the flag says whether the final assertion holds. -/
def addWrite (k : key) (version : Version) (data : value) : MVHashMap key value × Bool :=
  (self.setEntry k version.1 (some { flag := .done, cell := .write version.2 data }),
    match (self.valueOrDefault k).versionedMap version.1 with
    | some { cell := .write incarnation _, .. } => decide (incarnation < version.2)
    | _ => true)

def addDelta (delta : DeltaOp) :
    MVHashMap key value where
  data := update self.data k (some
      { (self.valueOrDefault k).set txnIdx
          (some { flag := .done, cell := .delta delta }) with
        containsDelta := true })
  deltaKeys :=
    if (self.valueOrDefault k).containsDelta then
      self.deltaKeys
    else
      self.deltaKeys ++ [k]
  deltaKeys_nodup := by
    split
    · exact self.deltaKeys_nodup
    · next hk =>
        rw [self.valueOrDefault_containsDelta k] at hk
        exact nodup_append.mpr
          ⟨self.deltaKeys_nodup, nodup_singleton k, by
            intro a ha b hb hab
            rw [mem_singleton] at hb
            exact hk (hb ▸ hab ▸ ha)⟩
  mem_deltaKeys := by
    intro k'
    have hmem := self.mem_deltaKeys k'
    by_cases hk : k' = k
    · subst hk
      split <;> simp_all [valueOrDefault_containsDelta]
    · rw [update_of_ne hk, ← hmem]
      split <;> simp [hk]

/-- Why `mark_estimate` or `delete` panics. -/
inductive Missing where
  | path
  | entry
deriving DecidableEq, Repr

def markEstimate (self : MVHashMap key value) (k : key) (txnIdx : TxnIndex) :
    Except Missing (MVHashMap key value) :=
  match self.data k with
  | none => .error .path
  | some v =>
    match v.versionedMap txnIdx with
    | none => .error .entry
    | some entry => .ok (self.setEntry k txnIdx (some entry.markEstimate))

def delete : Except Missing (MVHashMap key value) :=
  match self.data k with
  | none => .error .path
  | some _ => .ok (self.setEntry k txnIdx none)

def aggregatorKeys : List key := self.deltaKeys

/-!
# Entries
-/

def entry : Option (Entry value) :=
  (self.valueOrDefault k).versionedMap txnIdx

omit dk in
@[simp] theorem entry_new : (new : MVHashMap key value).entry k txnIdx = none := rfl

theorem entry_setEntry (k k' : key) (txnIdx txnIdx' : TxnIndex) (e : Option (Entry value)) :
    (self.setEntry k txnIdx e).entry k' txnIdx' =
      if k' = k ∧ txnIdx' = txnIdx then e else self.entry k' txnIdx' := by
  unfold entry setEntry valueOrDefault
  by_cases hk : k' = k
  · subst hk
    by_cases hidx : txnIdx' = txnIdx
    · subst hidx
      simp [VersionedValue.set]
    · simp [VersionedValue.set, hidx]
  · simp [hk]

theorem entry_addWrite (k k' : key) (version : Version) (data : value) (txnIdx' : TxnIndex) :
    (self.addWrite k version data).1.entry k' txnIdx' =
      if k' = k ∧ txnIdx' = version.1 then
        some { flag := .done, cell := .write version.2 data }
      else
        self.entry k' txnIdx' :=
  self.entry_setEntry k k' version.1 txnIdx' _

theorem entry_addDelta (k k' : key) (txnIdx txnIdx' : TxnIndex) (delta : DeltaOp) :
    (self.addDelta k txnIdx delta).entry k' txnIdx' =
      if k' = k ∧ txnIdx' = txnIdx then
        some { flag := .done, cell := .delta delta }
      else
        self.entry k' txnIdx' := by
  rw [← self.entry_setEntry k k' txnIdx txnIdx']
  unfold entry setEntry addDelta valueOrDefault
  by_cases hk : k' = k
  · subst hk
    simp [VersionedValue.set]
  · simp [hk]

theorem addWrite_asserts_iff (k : key) (version : Version) (data : value) :
    (self.addWrite k version data).2 = true <-> forall flag incarnation data',
        self.entry k version.1 = some { flag := flag, cell := .write incarnation data' } ->
        incarnation < version.2 := by
  unfold addWrite entry
  rcases (self.valueOrDefault k).versionedMap version.1 with
    _ | ⟨flag, ⟨incarnation, data'⟩ | delta⟩
  · simp
  · simp
  · simp

variable {self next : MVHashMap key value} {k : key} {txnIdx : TxnIndex} {e : Entry value}

omit dk in
theorem exists_path_of_entry (h : self.entry k txnIdx = some e) :
    exists v, self.data k = some v ∧ v.versionedMap txnIdx = some e := by
  unfold entry valueOrDefault at h
  cases hdata : self.data k with
  | none =>
    rw [hdata] at h
    cases h
  | some v =>
    rw [hdata] at h
    exact ⟨v, rfl, h⟩

theorem markEstimate_of_entry (h : self.entry k txnIdx = some e) : self.markEstimate k txnIdx =
    .ok (self.setEntry k txnIdx (some e.markEstimate)) := by
  rcases exists_path_of_entry h with ⟨_, hdata, hent⟩
  simp [markEstimate, hdata, hent]

theorem delete_of_entry (h : self.entry k txnIdx = some e) :
    self.delete k txnIdx = .ok (self.setEntry k txnIdx none) := by
  rcases exists_path_of_entry h with ⟨_, hdata, _⟩
  simp [delete, hdata]

theorem markEstimate_eq_ok (h : self.markEstimate k txnIdx = .ok next) :
    exists e, self.entry k txnIdx = some e ∧
      next = self.setEntry k txnIdx (some e.markEstimate) := by
  unfold markEstimate at h
  unfold entry valueOrDefault
  split at h
  · cases h
  · next v hdata =>
      split at h
      · cases h
      · next e hent =>
          cases h
          exact ⟨e, by simp [hdata, hent], rfl⟩

theorem delete_eq_ok (h : self.delete k txnIdx = .ok next) :
    next = self.setEntry k txnIdx none := by
  unfold delete at h
  split at h
  · cases h
  · cases h
    rfl

/-!
# Reads and the entries they depend on
-/

variable [TransactionWrite value] (codec : ValueCodec)

omit dk in
theorem read_eq_scan (self : MVHashMap key value) (k : key) (txnIdx : TxnIndex) :
    self.read codec k txnIdx = scan codec (self.entry k) txnIdx none := by
  unfold read entry valueOrDefault
  cases self.data k with
  | none =>
    induction txnIdx with
    | zero => rfl
    | succ idx ih =>
      rw [scan]
      exact ih
  | some => rfl

variable {self other : MVHashMap key value} {k : key} {txnIdx : TxnIndex}

omit dk in
theorem read_congr (h : forall j, j < txnIdx -> other.entry k j = self.entry k j) :
    other.read codec k txnIdx = self.read codec k txnIdx := by
  rw [read_eq_scan, read_eq_scan]
  exact scan_congr codec h none

variable {j : TxnIndex}

omit dk in
theorem read_update_estimate {e} {e'} (hent : self.entry k j = some e) (hflag : e.flag = .estimate)
    (hother : forall j', other.entry k j' = if j' = j then e' else self.entry k j')
    (hread : forall d, self.read codec k txnIdx ≠ .err (.dependency d)) :
    other.read codec k txnIdx = self.read codec k txnIdx := by
  have hupd : other.entry k = update (self.entry k) j e' := by
    funext j'
    rw [hother j', update_apply]
  rw [read_eq_scan] at hread
  rw [read_eq_scan, read_eq_scan, hupd]
  exact scan_update_estimate codec hent hflag e' none hread

omit dk in
theorem read_eq_dependency {dep : TxnIndex}
    (h : self.read codec k txnIdx = .err (.dependency dep)) :
    dep < txnIdx ∧ exists e, self.entry k dep = some e ∧ e.flag = .estimate := by
  rw [read_eq_scan] at h
  exact scan_eq_dependency codec h

omit dk in
theorem read_eq_version {inc} {v : value}
    (h : self.read codec k txnIdx = .ok (.version (j, inc) v)) :
    exists e, self.entry k j = some e ∧ e.cell = .write inc v := by
  rw [read_eq_scan] at h
  exact scan_eq_version codec h

end MVHashMap

end OpenLibra.BlockExecutor
