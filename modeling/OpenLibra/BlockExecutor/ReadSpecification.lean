import OpenLibra.Aggregator.DeltaChains
import OpenLibra.BlockExecutor.MVHashMap

/-!
# What a read of the multi-version map returns

A read goes down from the index of the reader.  It stops at an estimate or at a write, and on
its way merges the deltas that it meets.
-/

namespace OpenLibra.BlockExecutor

open Rust Aggregation List

variable {value : Type}

/-!
# Places in the entries of a key
-/

variable (entries : TxnIndex -> Option (Entry value))

def deltaAt (j : TxnIndex) : Option DeltaOp :=
  match entries j with
  | some { cell := .delta delta, .. } => some delta
  | _ => none

def deltasBetween (low high : TxnIndex) : List DeltaOp :=
  (List.range' low (high - low)).filterMap (deltaAt entries)

def WriteAt (j : TxnIndex) (incarnation : Incarnation) (data : value) : Prop :=
  exists flag, entries j = some { flag := flag, cell := .write incarnation data }

def EstimateAt (j : TxnIndex) : Prop :=
  exists cell, entries j = some { flag := .estimate, cell := cell }

structure HighestWrite (entries : TxnIndex -> Option (Entry value))
    (txnIdx w : TxnIndex) (incarnation : Incarnation) (data : value) :
    Prop where
  below : w < txnIdx
  write : WriteAt entries w incarnation data
  highest : forall j, w < j -> j < txnIdx ->
    forall incarnation data, ¬ WriteAt entries j incarnation data

def NoWrite (txnIdx : TxnIndex) : Prop :=
  forall j, j < txnIdx -> forall incarnation data, ¬ WriteAt entries j incarnation data

structure FirstEstimate (entries : TxnIndex -> Option (Entry value))
    (txnIdx j : TxnIndex) : Prop where
  below : j < txnIdx
  estimate : EstimateAt entries j
  first : forall i, j < i -> i < txnIdx -> ¬ EstimateAt entries i
  beforeWrites : forall i, j < i -> i < txnIdx ->
    forall incarnation data, ¬ WriteAt entries i incarnation data

def Clear (low high : TxnIndex) : Prop :=
  forall j, low ≤ j -> j < high -> ¬ EstimateAt entries j ∧
    forall incarnation data, ¬ WriteAt entries j incarnation data

section

variable {entries : TxnIndex -> Option (Entry value)} {low high txnIdx w j : TxnIndex}
  {incarnation : Incarnation} {data : value}

theorem deltasBetween_self : deltasBetween entries low low = [] := by
  unfold deltasBetween
  rw [Nat.sub_self]
  rfl

theorem deltasBetween_succ (h : low ≤ high) : deltasBetween entries low (high + 1) =
    deltasBetween entries low high ++ (deltaAt entries high).toList := by
  unfold deltasBetween
  rw [Nat.sub_add_comm h, List.range'_1_concat, filterMap_append, Nat.add_sub_cancel' h]
  rfl

theorem HighestWrite.unique (h : HighestWrite entries txnIdx w incarnation data) {w' : TxnIndex}
    {incarnation'} {data' : value} (h' : HighestWrite entries txnIdx w' incarnation' data') :
    w' = w ∧ incarnation' = incarnation ∧ data' = data := by
  have hle : ¬ w < w' := fun hlt => h.highest w' hlt h'.below _ _ h'.write
  have hge : ¬ w' < w := fun hlt => h'.highest w hlt h.below _ _ h.write
  have hw : w' = w := le_antisymm (not_lt.mp hle) (not_lt.mp hge)
  subst hw
  rcases h.write with ⟨_, hent⟩
  rcases h'.write with ⟨_, hent'⟩
  rw [hent] at hent'
  cases hent'
  exact ⟨rfl, rfl, rfl⟩

theorem Clear.noWrite (h : Clear entries 0 txnIdx) : NoWrite entries txnIdx :=
  fun j hj => (h j (Nat.zero_le j) hj).2

theorem stop_cases (entries : TxnIndex -> Option (Entry value)) (txnIdx : TxnIndex) :
    (exists j, FirstEstimate entries txnIdx j) ∨ (exists w incarnation data,
        HighestWrite entries txnIdx w incarnation data ∧
          ¬ EstimateAt entries w ∧ Clear entries (w + 1) txnIdx) ∨ Clear entries 0 txnIdx := by
  by_cases hclear : Clear entries 0 txnIdx
  · exact .inr (Or.inr hclear)
  -- The highest index that stops the read.
  have hstop : exists j, (j < txnIdx ∧ (EstimateAt entries j ∨
    exists incarnation data, WriteAt entries j incarnation data)) ∧
      Clear entries (j + 1) txnIdx := by
    induction txnIdx with
    | zero =>
      refine absurd ?_ hclear
      intro j _ hj
      exact absurd hj (Nat.not_lt_zero j)
    | succ idx ih =>
      by_cases hidx : EstimateAt entries idx ∨
          exists incarnation data, WriteAt entries idx incarnation data
      · refine ⟨idx, ⟨Nat.lt_succ_self idx, hidx⟩, ?_⟩
        intro j hlow hhigh
        exact absurd hhigh (not_lt.mpr hlow)
      · have hlast : forall low, Clear entries low idx -> Clear entries low (idx + 1) := by
          intro _ h j hlow hhigh
          rcases Nat.lt_succ_iff_lt_or_eq.mp hhigh with hlt | rfl
          · exact h j hlow hlt
          · refine ⟨fun he => hidx (Or.inl he), ?_⟩
            intro incarnation data hwrite
            exact hidx (Or.inr ⟨incarnation, data, hwrite⟩)
        rcases ih (fun h => hclear (hlast 0 h)) with ⟨j, ⟨hj, hat⟩, habove⟩
        exact ⟨j, ⟨Nat.lt_succ_of_lt hj, hat⟩, hlast (j + 1) habove⟩
  rcases hstop with ⟨j, ⟨hj, hat⟩, habove⟩
  by_cases hest : EstimateAt entries j
  · refine .inl ⟨j, hj, hest, ?_, ?_⟩
    · intro i hlow hhigh
      exact (habove i hlow hhigh).1
    · intro i hlow hhigh
      exact (habove i hlow hhigh).2
  · rcases hat with hat | ⟨incarnation, data, hwrite⟩
    · exact absurd hat hest
    · refine .inr (Or.inl ⟨j, incarnation, data, ⟨hj, hwrite, ?_⟩, hest, habove⟩)
      intro i hlow hhigh
      exact (habove i hlow hhigh).2

end

/-!
# The scan
-/

section

variable [tw : TransactionWrite value] {codec : ValueCodec}
  {entries : TxnIndex -> Option (Entry value)} {limit : U128}

/-- All deltas of a key are well formed and have one limit. -/
def DeltasWithin (limit : U128) (entries : TxnIndex -> Option (Entry value)) : Prop :=
  forall j delta, deltaAt entries j = some delta -> delta.Within limit

def Accumulated (limit : U128) (deltas : List DeltaOp) : Option (Option DeltaOp) -> Prop
  | none => deltas = []
  | some merged => deltas ≠ [] ∧ DeltaOp.Composes limit deltas merged

variable {deltas : List DeltaOp} {accumulator : Option (Option DeltaOp)} {txnIdx : TxnIndex}

theorem exists_accumulate {delta : DeltaOp} {accumulator}
    (h : DeltaOp.Composes limit deltas accumulator) (hdel : delta.Within limit) :
    exists merged, accumulate accumulator delta = .ok merged ∧
      DeltaOp.Composes limit (delta :: deltas) merged := by
  cases accumulator with
  | none => exact ⟨none, rfl, DeltaOp.composes_cons_none h⟩
  | some accumulated =>
    cases hmerge : accumulated.mergeOnto delta with
    | ok merged =>
      refine ⟨some merged, ?_, DeltaOp.composes_mergeOnto h hdel hmerge⟩
      simp only [accumulate, hmerge]
    | err =>
      refine ⟨none, by simp only [accumulate, hmerge], DeltaOp.composes_mergeOnto_fails h hdel ?_⟩
      intro _ hmerged
      rw [hmerge] at hmerged
      cases hmerged
    | panic => exact absurd hmerge (DeltaOp.mergeOnto_ne_panic _ _)

theorem scan_succ_of_clear (hdels : DeltasWithin limit entries)
    {idx : TxnIndex} (hest : ¬ EstimateAt entries idx)
    (hwrite : forall incarnation data, ¬ WriteAt entries idx incarnation data)
    (hacc : Accumulated limit deltas accumulator) :
    exists accumulator', Accumulated limit ((deltaAt entries idx).toList ++ deltas) accumulator' ∧
      scan codec entries (idx + 1) accumulator = scan codec entries idx accumulator' := by
  rcases hent : entries idx with _ | ⟨flag, cell⟩
  · have hnone : deltaAt entries idx = none := by
      unfold deltaAt
      rw [hent]
    refine ⟨accumulator, ?_, ?_⟩
    · rw [hnone]
      exact hacc
    · rw [scan, hent]
  · have hdone : flag ≠ .estimate := by
      intro hflag
      subst hflag
      exact hest ⟨cell, hent⟩
    cases cell with
    | write incarnation data => exact absurd ⟨flag, hent⟩ (hwrite incarnation data)
    | delta delta =>
      have hat : deltaAt entries idx = some delta := by
        unfold deltaAt
        rw [hent]
      have hdel := hdels idx delta hat
      rw [hat]
      cases accumulator with
      | none =>
        refine ⟨some (some delta), ⟨cons_ne_nil _ _, ?_⟩, ?_⟩
        · change deltas = [] at hacc
          rw [hacc]
          exact DeltaOp.composes_singleton hdel
        · simp only [scan, hent, if_neg hdone]
      | some =>
        rcases exists_accumulate hacc.2 hdel with ⟨merged, hmerged, hcomposes⟩
        refine ⟨some merged, ⟨cons_ne_nil _ _, hcomposes⟩, ?_⟩
        simp only [scan, hent, if_neg hdone, hmerged, ok_bind]

theorem scan_of_clear (hdels : DeltasWithin limit entries) {low high : TxnIndex} (hle : low ≤ high)
    (hclear : Clear entries low high) (hacc : Accumulated limit deltas accumulator) :
    exists accumulator', Accumulated limit (deltasBetween entries low high ++ deltas) accumulator' ∧
      scan codec entries high accumulator = scan codec entries low accumulator' := by
  induction high, hle using Nat.le_induction generalizing deltas
    accumulator with
  | base =>
    refine ⟨accumulator, ?_, rfl⟩
    rw [deltasBetween_self]
    exact hacc
  | succ idx hle ih =>
    rcases hclear idx hle (Nat.lt_succ_self idx) with ⟨hest, hwrite⟩
    rcases scan_succ_of_clear hdels hest hwrite hacc with ⟨_, hmid, hfirst⟩
    have hbelow : Clear entries low idx := fun j hlow hhigh =>
      hclear j hlow (Nat.lt_succ_of_lt hhigh)
    rcases ih hbelow hmid with ⟨accumulator', hacc', hrest⟩
    refine ⟨accumulator', ?_, hfirst.trans hrest⟩
    rw [deltasBetween_succ hle, append_assoc]
    exact hacc'

theorem scan_of_firstEstimate (hdels : DeltasWithin limit entries)
    {j : TxnIndex} (h : FirstEstimate entries txnIdx j) :
    scan codec entries txnIdx none = .err (.dependency j) := by
  have hclear : Clear entries (j + 1) txnIdx := fun i hlow hhigh =>
    ⟨h.first i hlow hhigh, h.beforeWrites i hlow hhigh⟩
  have hstart : Accumulated limit [] none := rfl
  rcases scan_of_clear hdels h.below hclear hstart with ⟨_, _, hscan⟩
  rcases h.estimate with ⟨_, hent⟩
  rw [hscan]
  simp only [scan, hent, if_true]

theorem scan_of_noStop (hdels : DeltasWithin limit entries) (h : Clear entries 0 txnIdx) :
    exists accumulator, Accumulated limit (deltasBetween entries 0 txnIdx) accumulator ∧
      scan codec entries txnIdx none = scan codec entries 0 accumulator := by
  have hstart : Accumulated limit [] none := rfl
  rcases scan_of_clear hdels (Nat.zero_le txnIdx) h hstart with ⟨accumulator, hacc, hscan⟩
  rw [append_nil] at hacc
  exact ⟨accumulator, hacc, hscan⟩

def atWrite (codec : ValueCodec) (version : Version) (data : value) :
    Option (Option DeltaOp) -> Outcome MVHashMapError (MVHashMapOutput value)
  | none => .ok (.version version data)
  | some accumulator => resolveOver codec version data accumulator

theorem scan_of_write (hdels : DeltasWithin limit entries) {w : TxnIndex} {incarnation}
    {data : value} (h : HighestWrite entries txnIdx w incarnation data)
    (hdone : ¬ EstimateAt entries w) (hclear : Clear entries (w + 1) txnIdx) :
    exists accumulator, Accumulated limit (deltasBetween entries (w + 1) txnIdx) accumulator ∧
      scan codec entries txnIdx none = atWrite codec (w, incarnation) data accumulator := by
  have hstart : Accumulated limit [] none := rfl
  rcases scan_of_clear hdels h.below hclear hstart with ⟨accumulator, hacc, hscan⟩
  rw [append_nil] at hacc
  refine ⟨accumulator, hacc, hscan.trans ?_⟩
  rcases h.write with ⟨flag, hent⟩
  have hflag : flag ≠ .estimate := by
    intro hflag
    subst hflag
    exact hdone ⟨_, hent⟩
  cases accumulator with
  | none | some => simp only [scan, hent, if_neg hflag, atWrite]

end

/-!
# The specification
-/

section

variable [tw : TransactionWrite value] (codec : ValueCodec)

structure ResolvesTo (base : U128) (deltas : List DeltaOp)
    (result : Outcome MVHashMapError (MVHashMapOutput value)) : Prop where
  resolved : forall v, result = .ok (.resolved v) <-> DeltaOp.applyAll deltas base = .ok v
  failure : result = .err .deltaApplicationFailure <->
    exists e, DeltaOp.applyAll deltas base = .err e

structure ReadsWrite (w : TxnIndex) (incarnation : Incarnation)
    (data : value) (deltas : List DeltaOp)
    (result : Outcome MVHashMapError (MVHashMapOutput value)) : Prop where
  version : deltas = [] ∨ TransactionWrite.extractRawBytes data = none ->
    result = .ok (.version (w, incarnation) data)
  value : deltas ≠ [] -> forall bytes base, TransactionWrite.extractRawBytes data = some bytes ->
    codec.deserialize bytes = some base -> ResolvesTo base deltas result
  /-- The write is no value of an aggregator. -/
  panics : deltas ≠ [] -> forall bytes, TransactionWrite.extractRawBytes data = some bytes ->
    codec.deserialize bytes = none -> result = .panic

omit tw in
structure ReadsDeltas (deltas : List DeltaOp)
    (result : Outcome MVHashMapError (MVHashMapOutput value)) : Prop where
  notFound : deltas = [] -> result = .err .notFound
  deltas : deltas ≠ [] -> (exists delta, result = .err (.unresolved delta) ∧
      forall base r, delta.applyTo base = .ok r <-> DeltaOp.applyAll deltas base = .ok r) ∨
    result = .err .deltaApplicationFailure ∧
      forall base, exists e, DeltaOp.applyAll deltas base = .err e

structure ReadSpec (entries : TxnIndex -> Option (Entry value)) (txnIdx : TxnIndex)
    (result : Outcome MVHashMapError (MVHashMapOutput value)) : Prop where
  dependency : forall j, result = .err (.dependency j) <-> FirstEstimate entries txnIdx j
  write : (forall j, ¬ FirstEstimate entries txnIdx j) -> forall w incarnation data,
      HighestWrite entries txnIdx w incarnation data -> ReadsWrite codec w incarnation data
          (deltasBetween entries (w + 1) txnIdx) result
  noWrite : (forall j, ¬ FirstEstimate entries txnIdx j) -> NoWrite entries txnIdx ->
      ReadsDeltas (deltasBetween entries 0 txnIdx) result

variable {codec} {entries : TxnIndex -> Option (Entry value)} {limit : U128} {deltas : List DeltaOp}
  {version : Version} {data : value} {accumulator : Option (Option DeltaOp)}

theorem resolveOver_resolvesTo {bytes : Bytes} {base : U128} {accumulator}
    (hbytes : TransactionWrite.extractRawBytes data = some bytes)
    (hbase : codec.deserialize bytes = some base)
    (hacc : DeltaOp.Composes limit deltas accumulator) :
    ResolvesTo base deltas (resolveOver codec version data accumulator) := by
  cases accumulator with
  | none =>
    have hres : resolveOver codec version data none = .err .deltaApplicationFailure := by
      simp only [resolveOver, hbytes, hbase]
    rw [hres]
    constructor
    · intro v
      simp [hacc base v]
    · rw [DeltaOp.applyAll_fails_iff]
      exact iff_of_true rfl (hacc base)
  | some merged =>
    have hsame := hacc.2 base
    cases happly : merged.applyTo base with
    | ok r =>
      have hres : resolveOver codec version data (some merged) = .ok (.resolved r) := by
        simp only [resolveOver, hbytes, hbase, happly]
      have hr := (hsame r).mp happly
      rw [hres]
      constructor
      · intro v
        simp [hr]
      · simp [hr]
    | err =>
      have hres : resolveOver codec version data (some merged) = .err .deltaApplicationFailure := by
        simp only [resolveOver, hbytes, hbase, happly]
      have hfails : forall r,
        DeltaOp.applyAll deltas base ≠ .ok r := by
        intro r hr
        have hok := (hsame r).mpr hr
        rw [happly] at hok
        cases hok
      rw [hres]
      constructor
      · intro v
        simp [hfails v]
      · rw [DeltaOp.applyAll_fails_iff]
        exact iff_of_true rfl hfails
    | panic => exact absurd happly (DeltaOp.applyTo_ne_panic _ _)

theorem atWrite_readsWrite {w : TxnIndex} {incarnation}
    (hacc : Accumulated limit deltas accumulator) : ReadsWrite codec w incarnation data deltas
      (atWrite codec (w, incarnation) data accumulator) := by
  cases accumulator with
  | none =>
    exact
      { version := fun _ => rfl
        value := fun hne => absurd hacc hne
        panics := fun hne => absurd hacc hne }
  | some =>
    constructor
    · rintro (hnil | hdeletion)
      · exact absurd hnil hacc.1
      · simp only [atWrite, resolveOver, hdeletion]
    · intro _ bytes _ hbytes hbase
      exact resolveOver_resolvesTo hbytes hbase hacc.2
    · intro _ _ hbytes hnone
      simp only [atWrite, resolveOver, hbytes, hnone]

theorem scan_zero_readsDeltas (hacc : Accumulated limit deltas accumulator) :
    ReadsDeltas deltas (scan codec entries 0 accumulator) := by
  rcases accumulator with _ | _ | merged
  · exact
      { notFound := fun _ => rfl
        deltas := fun hne => absurd hacc hne }
  · constructor
    · intro hnil
      exact absurd hnil hacc.1
    · intro _
      refine .inr ⟨rfl, ?_⟩
      intro base
      exact DeltaOp.applyAll_fails_iff.mpr (hacc.2 base)
  · constructor
    · intro hnil
      exact absurd hnil hacc.1
    · intro _
      exact .inl ⟨merged, rfl, hacc.2.2⟩

theorem atWrite_ne_dependency (accumulator : Option (Option DeltaOp)) (j : TxnIndex) :
    atWrite codec version data accumulator ≠ .err (.dependency j) := by
  cases accumulator with
  | none => simp [atWrite]
  | some => exact resolveOver_ne_dependency codec _ _ _ j

theorem scan_readSpec (hdels : DeltasWithin limit entries) (txnIdx : TxnIndex) :
    ReadSpec codec entries txnIdx (scan codec entries txnIdx none) := by
  rcases stop_cases entries txnIdx with ⟨j, hj⟩ | ⟨w, incarnation, data, hw, hdone, hclear⟩ | hclear
  · constructor
    · intro _
      constructor
      · intro h
        rw [scan_of_firstEstimate hdels hj] at h
        cases h
        exact hj
      · intro h
        exact scan_of_firstEstimate hdels h
    · intro hnone
      exact absurd hj (hnone j)
    · intro hnone
      exact absurd hj (hnone j)
  · rcases scan_of_write hdels hw hdone hclear with ⟨accumulator, hacc, hscan⟩
    constructor
    · intro j
      constructor
      · intro h
        rw [hscan] at h
        exact absurd h (atWrite_ne_dependency accumulator j)
      · intro h
        exact scan_of_firstEstimate hdels h
    · intro _ _ _ _ hw'
      rcases hw.unique hw' with ⟨rfl, rfl, rfl⟩
      rw [hscan]
      exact atWrite_readsWrite hacc
    · intro _ hnone
      exact absurd hw.write (hnone w hw.below _ _)
  · rcases scan_of_noStop hdels hclear with ⟨_, hacc, hscan⟩
    constructor
    · intro j
      constructor
      · intro h
        rcases scan_eq_dependency codec h with ⟨hj, ⟨_, cell⟩, hent, rfl⟩
        exact absurd ⟨cell, hent⟩ (hclear j (Nat.zero_le j) hj).1
      · intro h
        exact scan_of_firstEstimate hdels h
    · intro _ w _ _ hw
      exact absurd hw.write (hclear.noWrite w hw.below _ _)
    · intro _ _
      rw [hscan]
      exact scan_zero_readsDeltas hacc

end

namespace MVHashMap

variable {key : Type} [tw : TransactionWrite value]

/-- A read returns what its specification says, whatever the entries of the key
are. -/
theorem read_readSpec (codec : ValueCodec) (self : MVHashMap key value) (k : key) (limit : U128)
    (hdeltas : DeltasWithin limit (self.entry k)) (txnIdx : TxnIndex) :
    ReadSpec codec (self.entry k) txnIdx (self.read codec k txnIdx) := by
  rw [read_eq_scan]
  exact scan_readSpec hdeltas txnIdx

def raisedValue : MVHashMap Unit WriteOp :=
  (new.addWrite () (0, 0) (.modification (ValueCodec.littleEndian.serialize 90))).1.addDelta () 1
      { maxPositive := 5
        minNegative := 0
        limit := 100
        update := .plus 5 }

theorem raisedValue_deltasWithin : DeltasWithin 100 (raisedValue.entry ()) := by
  intro j delta hdel
  unfold deltaAt raisedValue at hdel
  rw [entry_addDelta, entry_addWrite] at hdel
  by_cases hone : j = 1
  · subst hone
    cases hdel
    exact ⟨by decide, rfl⟩
  · by_cases hzero : j = 0
    · subst hzero
      cases hdel
    · simp [hone, hzero] at hdel

theorem read_raisedValue : DeltasWithin 100 (raisedValue.entry ()) ∧
    raisedValue.read ValueCodec.littleEndian () 2 = Outcome.ok (MVHashMapOutput.resolved 95) ∧
    ReadSpec ValueCodec.littleEndian (raisedValue.entry ()) 2
      (raisedValue.read ValueCodec.littleEndian () 2) :=
  ⟨raisedValue_deltasWithin, by decide +kernel,
    read_readSpec ValueCodec.littleEndian raisedValue () 100 raisedValue_deltasWithin 2⟩

end MVHashMap

end OpenLibra.BlockExecutor
