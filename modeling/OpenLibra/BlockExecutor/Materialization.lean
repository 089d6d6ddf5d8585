import OpenLibra.BlockExecutor.DeltaResolution
import OpenLibra.BlockExecutor.ReadSpecification

/-!
# Materialized deltas are what readers saw

After a block its deltas are turned into writes, from the lowest index up.  Readers merged the
same deltas from the top down.
-/

namespace OpenLibra.BlockExecutor

open Rust Aggregation List

namespace OutputDeltaResolver

/-!
# The latest value of a key
-/

section

variable {value : Type} [tw : TransactionWrite value] (codec : ValueCodec)
  (entries : TxnIndex -> Option (Entry value))

inductive Latest (stored : Option U128) : TxnIndex -> Option U128 -> Prop where
  | start : Latest stored 0 stored
  | step {idx : TxnIndex} {latest next : Option U128}
      {emitted : List (TxnIndex × U128)} (below : Latest stored idx latest)
      (round : Round codec entries idx latest next emitted) :
      Latest stored (idx + 1) next

variable {codec entries} {stored latest next : Option U128} {idx low high : TxnIndex}

omit tw in
theorem deltaAt_of_write {incarnation} {data : value} (h : WriteAt entries idx incarnation data) :
    deltaAt entries idx = none := by
  rcases h with ⟨_, hent⟩
  unfold deltaAt
  rw [hent]

theorem Latest.of_noWrite (hle : low ≤ high) (hwrite : forall j, low ≤ j -> j < high ->
      forall incarnation data, ¬ WriteAt entries j incarnation data)
    (h : Latest codec entries stored high next) :
    exists latest, Latest codec entries stored low latest ∧
      (deltasBetween entries low high = [] ∧ next = latest ∨
        exists base v, latest = some base ∧ next = some v ∧
          DeltaOp.applyAll (deltasBetween entries low high) base = .ok v) := by
  induction high, hle using Nat.le_induction generalizing next with
  | base => exact ⟨next, h, .inl ⟨deltasBetween_self, rfl⟩⟩
  | succ idx hle ih =>
    have hbelow : forall j, low ≤ j -> j < idx ->
      forall incarnation data, ¬ WriteAt entries j incarnation data :=
      fun j hlow hhigh => hwrite j hlow (Nat.lt_succ_of_lt hhigh)
    rcases h with _ | ⟨hlatest, hround⟩
    rw [deltasBetween_succ hle]
    rcases ih hbelow hlatest with ⟨first, hfirst, hdels⟩
    cases hround with
    | absent hent =>
      refine ⟨first, hfirst, ?_⟩
      rw [deltaAt, hent, Option.toList_none, append_nil]
      exact hdels
    | write hent => exact absurd ⟨_, hent⟩ (hwrite idx hle (Nat.lt_succ_self idx) _ _)
    | delta hent apply =>
      refine ⟨first, hfirst, .inr ?_⟩
      rw [deltaAt, hent, Option.toList_some]
      rcases hdels with ⟨hnil, hsame⟩ | ⟨base, v, hbase, hv, happly⟩
      · refine ⟨_, _, hsame.symm, rfl, ?_⟩
        rw [hnil, nil_append, DeltaOp.applyAll_singleton]
        exact apply
      · cases hv
        refine ⟨base, _, hbase, rfl, ?_⟩
        rw [DeltaOp.applyAll_concat, happly]
        exact apply

theorem Latest.of_write {w : TxnIndex} {incarnation} {data : value}
    (hwrite : WriteAt entries w incarnation data) (h : Latest codec entries stored (w + 1) next) :
    readValue codec (TransactionWrite.extractRawBytes data) = .ok next := by
  rcases h with _ | ⟨_, hround⟩
  rcases hwrite with ⟨_, hent⟩
  cases hround with
  | absent hent' | delta hent' => cases hent.symm.trans hent'
  | write hent' hread =>
    cases hent.symm.trans hent'
    exact hread

theorem Latest.of_zero (h : Latest codec entries stored 0 next) : next = stored := by
  cases h
  rfl

theorem readValue_eq_some {bytes} {v : U128} (h : readValue codec bytes = .ok (some v)) :
    exists raw, bytes = some raw ∧ codec.deserialize raw = some v := by
  cases bytes with
  | none => cases h
  | some raw =>
    cases hraw : codec.deserialize raw with
    | none =>
      simp only [readValue, hraw] at h
      cases h
    | some =>
      simp only [readValue, hraw] at h
      cases h
      exact ⟨raw, rfl, hraw⟩

end

/-!
# The loop over the entries of a key
-/

section

variable {value : Type} [tw : TransactionWrite value] {codec : ValueCodec}
  {entries : TxnIndex -> Option (Entry value)} {stored latest : Option U128}
  {values : List (TxnIndex × U128)}

inductive MaterializedAt (codec : ValueCodec)
    (entries : TxnIndex -> Option (Entry value)) (stored : Option U128)
    (values : List (TxnIndex × U128)) (idx : TxnIndex) : Prop where
  | delta {v : U128} (delta : (deltaAt entries idx).isSome = true)
      (latest : Latest codec entries stored (idx + 1) (some v))
      (values : values.filter (fun entry => entry.1 = idx) = [(idx, v)])
  | other {next : Option U128} (noDelta : deltaAt entries idx = none)
      (latest : Latest codec entries stored (idx + 1) next)
      (values : values.filter (fun entry => entry.1 = idx) = [])

theorem Round.materializedAt {idx : TxnIndex} {next} {emitted tail}
    (hlatest : Latest codec entries stored idx latest)
    (h : Round codec entries idx latest next emitted)
    (htail : tail.filter (fun entry => entry.1 = idx) = []) :
    MaterializedAt codec entries stored (emitted ++ tail) idx := by
  have hnext := Latest.step hlatest h
  cases h with
  | absent hent =>
    refine .other ?_ hnext htail
    rw [deltaAt, hent]
  | write hent => exact .other (deltaAt_of_write ⟨_, hent⟩) hnext htail
  | delta hent =>
    refine .delta ?_ hnext ?_
    · rw [deltaAt, hent]
      rfl
    · rw [filter_append, htail]
      simp

theorem Round.emitted_index {idx : TxnIndex} {next} {emitted}
    (h : Round codec entries idx latest next emitted) {entry} (hent : entry ∈ emitted) :
    entry.1 = idx := by
  cases h with
  | absent | write => cases hent
  | delta => rw [mem_singleton.mp hent]

theorem resolveEntries_range {low count : Nat} (hlatest : Latest codec entries stored low latest)
    (h : resolveEntries codec entries (List.range' low count) latest = .ok values) :
    (forall entry, entry ∈ values -> low ≤ entry.1) ∧ forall idx, low ≤ idx -> idx < low + count ->
        MaterializedAt codec entries stored values idx := by
  induction count generalizing low latest values with
  | zero =>
    cases h
    refine ⟨?_, ?_⟩
    · intro entry hent
      cases hent
    · intro idx hlow hhigh
      exact absurd hhigh (not_lt.mpr hlow)
  | succ count ih =>
    rcases resolveEntries_cons_eq_ok.mp h with ⟨next, emitted, tail, hround, hrest, rfl⟩
    rcases ih (.step hlatest hround) hrest with ⟨htail, hmat⟩
    refine ⟨?_, ?_⟩
    · intro entry hent
      rcases mem_append.mp hent with hemitted | hmem
      · exact le_of_eq (hround.emitted_index hemitted).symm
      · exact Nat.le_of_succ_le (htail entry hmem)
    · intro idx hlow hhigh
      rcases Nat.eq_or_lt_of_le hlow with rfl | hlt
      · apply hround.materializedAt hlatest
        rw [filter_eq_nil_iff]
        intro entry hent
        simp only [decide_eq_true_eq]
        exact Nat.ne_of_gt (htail entry hent)
      · have hemitted : emitted.filter (fun entry => entry.1 = idx) = [] := by
          rw [filter_eq_nil_iff]
          intro entry hent
          rw [hround.emitted_index hent]
          simp only [decide_eq_true_eq]
          exact Nat.ne_of_lt hlt
        rcases hmat idx hlt (by omega) with ⟨hdel, hnext, hvals⟩ | ⟨hnone, hnext, hvals⟩
        · refine .delta hdel hnext ?_
          rw [filter_append, hemitted, hvals]
          rfl
        · refine .other hnone hnext ?_
          rw [filter_append, hemitted, hvals]
          rfl

theorem exists_latest {blockSize : Nat}
    (hents : forall idx e, entries idx = some e -> idx < blockSize)
    (h : resolveEntries codec entries (List.range blockSize) stored = .ok values) (idx : TxnIndex) :
    exists next, Latest codec entries stored idx next := by
  rw [range_eq_range'] at h
  have hmat := (resolveEntries_range .start h).2
  induction idx with
  | zero => exact ⟨stored, .start⟩
  | succ idx ih =>
    by_cases hidx : idx < blockSize
    · rcases hmat idx (Nat.zero_le idx) (by omega) with ⟨_, hnext, _⟩ | ⟨_, hnext, _⟩
      · exact ⟨_, hnext⟩
      · exact ⟨_, hnext⟩
    · rcases ih with ⟨latest, hlatest⟩
      refine ⟨latest, .step hlatest (.absent ?_)⟩
      cases hent : entries idx with
      | none => rfl
      | some e => exact absurd (hents idx e hent) hidx

end

/-!
# Readers
-/

section

variable {value : Type} [tw : TransactionWrite value] {codec : ValueCodec}
  {entries : TxnIndex -> Option (Entry value)} {limit : U128} {stored next : Option U128}
  {idx : TxnIndex}

def Sees (stored : Option U128)
    (result : Outcome MVHashMapError (MVHashMapOutput value)) (v : U128) :
    Prop :=
  result = .ok (.resolved v) ∨ exists delta base, result = .err (.unresolved delta) ∧
      stored = some base ∧ delta.applyTo base = .ok v

omit tw in
theorem Sees.ne_failure {result : Outcome MVHashMapError (MVHashMapOutput value)} {v : U128}
    (h : Sees stored result v) : result ≠ .err .deltaApplicationFailure := by
  rcases h with h | ⟨_, _, h, _, _⟩
  · rw [h]
    simp
  · rw [h]
    simp

theorem scan_sees_latest (hdels : DeltasWithin limit entries)
    (hdone : forall j, ¬ EstimateAt entries j) (h : Latest codec entries stored idx next) :
    exists low, low ≤ idx ∧ (low = 0 ∨ exists w incarnation data,
        low = w + 1 ∧ WriteAt entries w incarnation data) ∧
      (deltasBetween entries low idx = [] -> scan codec entries idx none ≠
          .err .deltaApplicationFailure) ∧
      (deltasBetween entries low idx ≠ [] -> exists v, next = some v ∧
          Sees stored (scan codec entries idx none) v) := by
  have hspec := @scan_readSpec _ _ codec _ _ hdels idx
  have hnone : forall j, ¬ FirstEstimate entries idx j := fun j hj => hdone j hj.estimate
  rcases stop_cases entries idx with ⟨j, hj⟩ | ⟨w, incarnation, data, hw, _, hclear⟩ | hclear
  · exact absurd hj (hnone j)
  · have hread := hspec.write hnone w incarnation data hw
    refine ⟨w + 1, hw.below, .inr ⟨w, incarnation, data, rfl, hw.write⟩, ?_, ?_⟩
    · intro hnil
      rw [hread.version (.inl hnil)]
      simp
    · intro hne
      rcases h.of_noWrite hw.below (fun j hlow hhigh =>
        (hclear j hlow hhigh).2) with ⟨latest, hlatest, hchg⟩
      rcases hchg with ⟨hnil, _⟩ | ⟨base, v, rfl, hv, happly⟩
      · exact absurd hnil hne
      · rcases readValue_eq_some (hlatest.of_write hw.write) with ⟨raw, hraw, hbase⟩
        have hresolves := hread.value hne raw base hraw hbase
        exact ⟨v, hv, .inl ((hresolves.resolved v).mpr happly)⟩
  · have hread := hspec.noWrite hnone hclear.noWrite
    refine ⟨0, Nat.zero_le idx, .inl rfl, ?_, ?_⟩
    · intro hnil
      rw [hread.notFound hnil]
      simp
    · intro hne
      rcases h.of_noWrite (Nat.zero_le idx) (fun j hlow hhigh =>
        (hclear j hlow hhigh).2) with ⟨latest, hlatest, hchg⟩
      rcases hchg with ⟨hnil, _⟩ | ⟨base, v, hbase, hv, happly⟩
      · exact absurd hnil hne
      · refine ⟨v, hv, .inr ?_⟩
        rcases hread.deltas hne with ⟨delta, hres, hsame⟩ | ⟨_, hfails⟩
        · refine ⟨delta, base, hres, ?_, (hsame base v).mpr happly⟩
          rw [← hlatest.of_zero, hbase]
        · rcases hfails base with ⟨_, he⟩
          rw [happly] at he
          cases he

theorem scan_ne_failure (hdels : DeltasWithin limit entries)
    (hdone : forall j, ¬ EstimateAt entries j) (h : Latest codec entries stored idx next) :
    scan codec entries idx none ≠ .err .deltaApplicationFailure := by
  rcases scan_sees_latest hdels hdone h with ⟨low, _, _, hnil, hsees⟩
  by_cases hdels : deltasBetween entries low idx = []
  · exact hnil hdels
  · rcases hsees hdels with ⟨_, _, hv⟩
    exact hv.ne_failure

theorem scan_above_delta (hdels : DeltasWithin limit entries)
    (hdone : forall j, ¬ EstimateAt entries j) (hdel : (deltaAt entries idx).isSome = true)
    {v : U128}
    (h : Latest codec entries stored (idx + 1) (some v)) :
    Sees stored (scan codec entries (idx + 1) none) v := by
  rcases scan_sees_latest hdels hdone h with ⟨low, hlow, hstart, _, hsees⟩
  have hle : low ≤ idx := by
    rcases hstart with rfl | ⟨_, _, _, rfl, hwrite⟩
    · exact Nat.zero_le idx
    · refine Nat.lt_of_le_of_ne (Nat.le_of_succ_le_succ hlow) ?_
      intro hsame
      subst hsame
      rw [deltaAt_of_write hwrite] at hdel
      cases hdel
  have hne : deltasBetween entries low (idx + 1) ≠ [] := by
    rw [deltasBetween_succ hle]
    rcases Option.isSome_iff_exists.mp hdel with ⟨_, hsome⟩
    rw [hsome]
    simp
  rcases hsees hne with ⟨_, hv, hsees⟩
  cases hv
  exact hsees

end

section

variable {key value : Type} [tw : TransactionWrite value] {codec : ValueCodec}
  {baseView : StateView key} {cache : MVHashMap key value} {blockSize : Nat} [DecidableEq key]

def writesOf (outputs : List (List (key × WriteOp))) (idx : TxnIndex) (k : key) : List WriteOp :=
  ((outputs.getD idx []).filter fun write => write.1 = k).map Prod.snd

theorem filter_materializedWrites (idx : TxnIndex) (k k' : key) (values : List (TxnIndex × U128)) :
    (materializedWrites codec idx k values).filter (fun write => write.1 = k') =
        if k = k' then materializedWrites codec idx k values else [] := by
  unfold materializedWrites
  rw [filter_map]
  by_cases hk : k = k'
  · simp [hk, Function.comp_def]
  · simp [hk, Function.comp_def]

theorem filter_flatMap_materializedWrites {keys : List key} (hnodup : keys.Nodup) (idx : TxnIndex)
    (values : key -> List (TxnIndex × U128)) (k : key) :
    (keys.flatMap fun k => materializedWrites codec idx k (values k)).filter
      (fun write => write.1 = k) = if k ∈ keys then materializedWrites codec idx k (values k)
        else [] := by
  induction keys with
  | nil => rfl
  | cons first keys ih =>
    rw [nodup_cons] at hnodup
    rw [flatMap_cons, filter_append, ih hnodup.2, filter_materializedWrites]
    by_cases hfirst : first = k
    · subst hfirst
      simp [hnodup.1]
    · simp [hfirst, Ne.symm hfirst]

theorem writesOf_resolve {outputs} (h : resolve codec baseView cache blockSize = .ok outputs)
    {idx : TxnIndex} (hidx : idx < blockSize) (k : key) : writesOf outputs idx k =
      if k ∈ cache.aggregatorKeys then
        (materializedWrites codec idx k (resolvedValues codec baseView
          cache blockSize k)).map Prod.snd
      else [] := by
  have hnodup : cache.aggregatorKeys.Nodup := cache.deltaKeys_nodup
  rw [(resolve_eq_ok.mp h).2, writesOf, getD_eq_getElem?_getD,
    List.getElem?_map, List.getElem?_range hidx, Option.map_some,
    Option.getD_some, filter_flatMap_materializedWrites hnodup]
  split
  · rfl
  · rfl

end

/-!
# Agreement with the readers
-/

section

variable {key value : Type} [tw : TransactionWrite value]

/-- What `get_state_value` returns to a transaction for a key. -/
def ReturnsValue (codec : ValueCodec) (baseView : StateView key) (cache : MVHashMap key value)
    (txnIdx : TxnIndex) (k : key) (bytes : Bytes) : Prop :=
  exists descriptor result, capture k (cache.read codec k txnIdx) = .captured descriptor result ∧
    LatestView.getStateValueMv codec baseView k result = .ok (some bytes)

theorem returnsValue_of_sees {codec : ValueCodec} {baseView : StateView key}
    {cache : MVHashMap key value} {txnIdx : TxnIndex} {k : key} {stored : Option U128} {v : U128}
    (hstored : storedValue codec baseView k = .ok stored)
    (h : Sees stored (cache.read codec k txnIdx) v) :
    ReturnsValue codec baseView cache txnIdx k (codec.serialize v) := by
  rcases h with hresolved | ⟨delta, _, hunres, rfl, happly⟩
  · refine ⟨{ accessPath := k, kind := .resolved v }, .u128 v, ?_, rfl⟩
    rw [hresolved]
    rfl
  · refine ⟨{ accessPath := k, kind := .unresolved delta }, .unresolved delta, ?_, ?_⟩
    · rw [hunres]
      rfl
    · unfold storedValue at hstored
      cases hview : baseView k with
      | error =>
        rw [hview] at hstored
        cases hstored
      | ok =>
        rw [hview] at hstored
        rcases readValue_eq_some hstored with ⟨_, rfl, hraw⟩
        simp only [LatestView.getStateValueMv, hview, hraw, happly]

variable [DecidableEq key]

/-- If the resolver returns, every delta is materialized once, as the value that
the transaction above it reads, and nothing else is.  If a read of a key fails,
the resolver does not return. -/
theorem resolve_agrees_with_reads (codec : ValueCodec) (baseView : StateView key)
    (cache : MVHashMap key value) (blockSize : Nat) (limit : key -> U128)
    (hdeltas : forall k, DeltasWithin (limit k) (cache.entry k))
    (hdone : forall k j, ¬ EstimateAt (cache.entry k) j)
    (hblock : forall k j e, cache.entry k j = some e -> j < blockSize) :
    (forall outputs, resolve codec baseView cache blockSize = Except.ok outputs ->
      outputs.length = blockSize ∧ forall i, i < blockSize -> forall k, (k ∈ cache.aggregatorKeys ->
          (deltaAt (cache.entry k) i).isSome = true ->
          exists stored v, storedValue codec baseView k = Except.ok stored ∧
            Sees stored (cache.read codec k (i + 1)) v ∧
            ReturnsValue codec baseView cache (i + 1) k (codec.serialize v) ∧
            writesOf outputs i k = [WriteOp.modification (codec.serialize v)]) ∧
        (k ∉ cache.aggregatorKeys ∨ deltaAt (cache.entry k) i = none ->
          writesOf outputs i k = [])) ∧
    forall k idx, k ∈ cache.aggregatorKeys -> cache.read codec k idx =
        Outcome.err MVHashMapError.deltaApplicationFailure ->
      exists panic,
        resolve codec baseView cache blockSize = Except.error panic := by
  refine ⟨?_, ?_⟩
  · intro outputs h
    refine ⟨by simp [(resolve_eq_ok.mp h).2], ?_⟩
    intro i hi k
    rw [writesOf_resolve h hi]
    by_cases hk : k ∈ cache.aggregatorKeys
    · rcases (resolve_eq_ok.mp h).1 k hk with ⟨values, hvalues⟩
      rcases (resolveKey_eq_ok hk).mp hvalues with ⟨stored, hstored, hentries⟩
      rw [if_pos hk, resolvedValues_eq hvalues]
      rw [List.range_eq_range'] at hentries
      have hmaterialized := (resolveEntries_range .start hentries).2 i (Nat.zero_le i) (by omega)
      unfold materializedWrites
      rcases hmaterialized with ⟨hdelta, hlatest, hfilter⟩ | ⟨hnone, _, hfilter⟩
      · refine ⟨?_, ?_⟩
        · intro _ _
          have hsees := scan_above_delta (hdeltas k) (hdone k) hdelta hlatest
          rw [← MVHashMap.read_eq_scan] at hsees
          refine ⟨stored, _, hstored, hsees, returnsValue_of_sees hstored hsees, ?_⟩
          rw [hfilter]
          rfl
        · rintro (hnot | hnone)
          · exact absurd hk hnot
          · rw [hnone] at hdelta
            cases hdelta
      · refine ⟨?_, ?_⟩
        · intro _ hdelta
          rw [hnone] at hdelta
          cases hdelta
        · intro _
          rw [hfilter]
          rfl
    · refine ⟨fun hmem => absurd hmem hk, ?_⟩
      intro _
      rw [if_neg hk]
  · intro k idx hk hfailure
    cases h : resolve codec baseView cache blockSize with
    | error panic => exact ⟨panic, rfl⟩
    | ok =>
      rcases (resolve_eq_ok.mp h).1 k hk with ⟨_, hvalues⟩
      rcases (resolveKey_eq_ok hk).mp hvalues with ⟨_, _, hentries⟩
      rcases exists_latest (hblock k) hentries idx with ⟨_, hlatest⟩
      rw [MVHashMap.read_eq_scan] at hfailure
      exact absurd hfailure (scan_ne_failure (hdeltas k) (hdone k) hlatest)

theorem raisedValue_entry (j : TxnIndex) : MVHashMap.raisedValue.entry () j =
    if j = 1 then
      some
        { flag := .done
          cell := .delta
            { maxPositive := 5
              minNegative := 0
              limit := 100
              update := .plus 5 } }
    else if j = 0 then
      some
        { flag := .done
          cell := .write 0 (.modification (ValueCodec.littleEndian.serialize 90)) }
    else none := by
  unfold MVHashMap.raisedValue
  rw [MVHashMap.entry_addDelta, MVHashMap.entry_addWrite]
  simp

theorem resolve_raisedValue_agrees :
    exists outputs, resolve ValueCodec.littleEndian
        (fun _ => Except.ok none) MVHashMap.raisedValue 2 = Except.ok outputs ∧
      outputs = [[], [((), WriteOp.modification (ValueCodec.littleEndian.serialize 95))]] ∧
      exists stored v, storedValue ValueCodec.littleEndian
          (fun _ => Except.ok none) () = Except.ok stored ∧
        Sees stored (MVHashMap.raisedValue.read ValueCodec.littleEndian () 2) v ∧
        ReturnsValue ValueCodec.littleEndian (fun _ => Except.ok none)
          MVHashMap.raisedValue 2 () (ValueCodec.littleEndian.serialize v) ∧
        writesOf outputs 1 () = [WriteOp.modification (ValueCodec.littleEndian.serialize v)] := by
  have hresolve : resolve ValueCodec.littleEndian (fun _ => .ok none)
    MVHashMap.raisedValue 2 = .ok [[], [((), .modification
      (ValueCodec.littleEndian.serialize 95))]] := by
    decide +kernel
  refine ⟨_, hresolve, rfl, ?_⟩
  refine (((resolve_agrees_with_reads ValueCodec.littleEndian
    (fun _ => .ok none) MVHashMap.raisedValue 2 (fun _ => 100)
    (fun _ => MVHashMap.raisedValue_deltasWithin) ?_ ?_).1 _ hresolve).2 1
      (by decide) ()).1 (by decide) (by decide)
  · rintro ⟨⟩ j ⟨cell, hentry⟩
    rw [raisedValue_entry] at hentry
    split at hentry
    · cases hentry
    · split at hentry
      · cases hentry
      · cases hentry
  · rintro ⟨⟩ j e hentry
    rw [raisedValue_entry] at hentry
    by_cases hone : j = 1
    · rw [hone]
      decide
    · by_cases hzero : j = 0
      · rw [hzero]
        decide
      · rw [if_neg hone, if_neg hzero] at hentry
        cases hentry

end

def fallBelowHundred : DeltaOp :=
  { maxPositive := 0
    minNegative := 50
    limit := 100
    update := .minus 50 }

def fallBelowFifty : DeltaOp :=
  { maxPositive := 0
    minNegative := 30
    limit := 50
    update := .minus 30 }

def fallingTwice : MVHashMap Unit WriteOp :=
  (MVHashMap.new.addDelta () 0 fallBelowHundred).addDelta () 1 fallBelowFifty

theorem resolve_fallingTwice : fallBelowHundred.WellFormed ∧ fallBelowFifty.WellFormed ∧
    resolve ValueCodec.littleEndian
      (fun _ => Except.ok (some (ValueCodec.littleEndian.serialize 90)))
      fallingTwice 2 = Except.ok [[((), WriteOp.modification
              (ValueCodec.littleEndian.serialize 40))],
            [((), WriteOp.modification (ValueCodec.littleEndian.serialize 10))]] ∧
    fallingTwice.read ValueCodec.littleEndian () 2 =
      Outcome.err MVHashMapError.deltaApplicationFailure := by
  refine ⟨by decide, by decide, ?_, by decide +kernel⟩
  decide +kernel

end OutputDeltaResolver

end OpenLibra.BlockExecutor
