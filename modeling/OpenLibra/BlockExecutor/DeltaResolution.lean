import OpenLibra.BlockExecutor.Executor

/-!
# What the resolver of deltas returns

The resolver walks over the entries of every key with deltas from the lowest index up, and pushes
the value of every delta at its index.
-/

namespace OpenLibra.BlockExecutor

open Rust Aggregation List

namespace OutputDeltaResolver

section

variable {value : Type} [TransactionWrite value] {codec : ValueCodec}
  {entries : TxnIndex -> Option (Entry value)}

inductive Round (codec : ValueCodec) (entries : TxnIndex -> Option (Entry value)) (idx : TxnIndex) :
    Option U128 -> Option U128 -> List (TxnIndex × U128) -> Prop where
  | absent {latestValue : Option U128} (h : entries idx = none) :
      Round codec entries idx latestValue latestValue []
  | write {flag : Flag} {inc : Incarnation} {data : value}
      {latestValue latestValue' : Option U128}
      (h : entries idx = some ⟨flag, .write inc data⟩)
      (hread : readValue codec (TransactionWrite.extractRawBytes data) = .ok latestValue') :
      Round codec entries idx latestValue latestValue' []
  | delta {flag : Flag} {op : DeltaOp} {base v : U128} (h : entries idx = some ⟨flag, .delta op⟩)
      (happly : op.applyTo base = .ok v) :
      Round codec entries idx (some base) (some v) [(idx, v)]

theorem resolveEntries_cons_eq_ok {idx : TxnIndex} {rest} {latestValue} {values} :
    resolveEntries codec entries (idx :: rest) latestValue = .ok values <->
      exists latestValue' pushed values', Round codec entries idx latestValue latestValue' pushed ∧
        resolveEntries codec entries rest latestValue' = .ok values' ∧
        values = pushed ++ values' := by
  constructor
  · intro h
    rw [resolveEntries] at h
    rcases hent : entries idx with _ | ⟨_, ⟨_, _⟩ | op⟩
    · rw [hent] at h
      exact ⟨latestValue, [], values, .absent hent, h, rfl⟩
    · simp only [hent] at h
      rcases except_bind_eq_ok_iff.mp h with ⟨latestValue', hread, hrest⟩
      exact ⟨latestValue', [], values, .write hent hread, hrest, rfl⟩
    · simp only [hent] at h
      cases latestValue with
      | none => cases h
      | some =>
        simp only at h
        split at h
        · next v happly =>
            rcases except_bind_eq_ok_iff.mp h with ⟨values', hrest, hvals⟩
            cases hvals
            exact ⟨some v, [(idx, v)], values', .delta hent happly, hrest, rfl⟩
        · cases h
  · rintro ⟨_, _, _, hround, hrest, rfl⟩
    rw [resolveEntries]
    cases hround with
    | absent hent =>
      rw [hent]
      exact hrest
    | write hent hread =>
      simp only [hent, hread]
      exact hrest
    | delta hent happly =>
      simp only [hent, happly, hrest]
      rfl

end

/-!
# The loop over the keys
-/

variable {key value : Type} [TransactionWrite value] {codec : ValueCodec} {baseView : StateView key}
  {cache : MVHashMap key value} {blockSize : Nat} {k : key} {values : List (TxnIndex × U128)}

theorem resolveKey_eq_ok (hk : k ∈ cache.aggregatorKeys) :
    resolveKey codec baseView cache blockSize k = .ok values <->
      exists latestValue, storedValue codec baseView k = .ok latestValue ∧
        resolveEntries codec (cache.entry k) (List.range blockSize) latestValue = .ok values := by
  rcases (cache.mem_deltaKeys k).mp hk with ⟨v, hdata, _⟩
  have hent : cache.entry k = v.versionedMap := by
    unfold MVHashMap.entry MVHashMap.valueOrDefault
    rw [hdata]
    rfl
  rw [resolveKey, hdata, hent]
  exact except_bind_eq_ok_iff

def materializedWrites (codec : ValueCodec) (idx : TxnIndex) (k : key)
    (values : List (TxnIndex × U128)) : List (key × WriteOp) :=
  (values.filter (fun entry => entry.1 = idx)).map fun entry =>
    (k, .modification (codec.serialize entry.2))

theorem push_eq (ret : TxnIndex -> List (key × WriteOp)) (k : key)
    (values : List (TxnIndex × U128)) :
    push codec ret k values = fun idx => ret idx ++ materializedWrites codec idx k values := by
  induction values generalizing ret with
  | nil => exact funext fun idx => (append_nil _).symm
  | cons entry values ih =>
    rcases entry with ⟨at_, _⟩
    rw [push, ih]
    funext idx
    unfold materializedWrites
    by_cases hidx : at_ = idx
    · subst hidx
      simp
    · rw [Function.update_of_ne (Ne.symm hidx)]
      simp [hidx]

def resolvedValues (codec : ValueCodec) (baseView : StateView key)
    (cache : MVHashMap key value) (blockSize : Nat) (k : key) :
    List (TxnIndex × U128) :=
  match resolveKey codec baseView cache blockSize k with
  | .ok values => values
  | .error _ => []

theorem resolvedValues_eq (h : resolveKey codec baseView cache blockSize k = .ok values) :
    resolvedValues codec baseView cache blockSize k = values := by
  unfold resolvedValues
  rw [h]

theorem resolveKeys_eq_ok {keys : List key} {ret result} :
    resolveKeys codec baseView cache blockSize keys ret = .ok result <->
      (forall k, k ∈ keys -> exists values,
        resolveKey codec baseView cache blockSize k = .ok values) ∧
      result = fun idx => ret idx ++ keys.flatMap fun k => materializedWrites codec idx k
            (resolvedValues codec baseView cache blockSize k) := by
  induction keys generalizing ret with
  | nil => simp [resolveKeys, eq_comm]
  | cons k keys ih =>
    rw [resolveKeys, except_bind_eq_ok_iff, forall_mem_cons, and_assoc]
    constructor
    · rintro ⟨values, hvals, hrest⟩
      rcases ih.mp hrest with ⟨hkeys, rfl⟩
      refine ⟨⟨values, hvals⟩, hkeys, ?_⟩
      funext idx
      rw [push_eq, flatMap_cons, resolvedValues_eq hvals, append_assoc]
    · rintro ⟨⟨values, hvals⟩, hkeys, rfl⟩
      refine ⟨values, hvals, ih.mpr ⟨hkeys, ?_⟩⟩
      funext idx
      rw [push_eq, flatMap_cons, resolvedValues_eq hvals, append_assoc]

theorem resolve_eq_ok {outputs} : resolve codec baseView cache blockSize = .ok outputs <->
    (forall k, k ∈ cache.aggregatorKeys -> exists values,
      resolveKey codec baseView cache blockSize k = .ok values) ∧
    outputs = (List.range blockSize).map fun idx =>
        cache.aggregatorKeys.flatMap fun k => materializedWrites codec idx k
          (resolvedValues codec baseView cache blockSize k) := by
  rw [resolve, except_bind_eq_ok_iff]
  simp only [resolveKeys_eq_ok, nil_append]
  constructor
  · rintro ⟨_, ⟨hkeys, rfl⟩, houts⟩
    exact ⟨hkeys, (Except.ok.inj houts).symm⟩
  · rintro ⟨hkeys, rfl⟩
    exact ⟨_, ⟨hkeys, rfl⟩, rfl⟩

end OutputDeltaResolver

end OpenLibra.BlockExecutor
