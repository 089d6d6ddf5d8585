import OpenLibra.BlockExecutor.Memory

/-!
# The entries of one transaction

An execution replaces the entries of the previous incarnation of its transaction one by one.
-/

namespace OpenLibra.BlockExecutor

open Aggregation List

def CellOf (inc : Incarnation) (writes : List (key × value))
    (deltas : List (key × DeltaOp)) (k : key) : EntryCell value -> Prop
  | .write inc' v => inc' = inc ∧ (k, v) ∈ writes
  | .delta op => (k, op) ∈ deltas

def EntryCell.Before (bound : Incarnation) (cell : EntryCell value) : Prop :=
  forall inc v, cell = .write inc v -> inc < bound

/-- The entries of transaction `i`: which keys have an estimate, and which a
value that can be read. -/
structure Layout (cache : MVHashMap key value) (i : TxnIndex)
    (bound : Incarnation) (estimates : key -> Prop) (readable : key -> Prop)
    (cells : key -> EntryCell value -> Prop) : Prop where
  ofEstimate : forall k, estimates k -> exists e, cache.entry k i = some e ∧
    e.flag = .estimate ∧ e.cell.Before bound
  ofReadable : forall k, readable k -> exists e, cache.entry k i = some e ∧
    e.flag = .done ∧ cells k e.cell
  absent : forall k, ¬ estimates k -> ¬ readable k -> cache.entry k i = none

namespace Layout

variable {key value : Type} {cache cache' : MVHashMap key value} {i : TxnIndex}
  {bound : Incarnation} {estimates readable estimates' readable' : key -> Prop}
  {cells cells' : key -> EntryCell value -> Prop} {k : key}

theorem disjoint (h : Layout cache i bound estimates readable cells) (hest : estimates k) :
    ¬ readable k := by
  intro hreadable
  rcases h.ofEstimate k hest with ⟨_, he, hflag, _⟩
  rcases h.ofReadable k hreadable with ⟨_, he', hflag', _⟩
  rw [he] at he'
  cases he'
  rw [hflag] at hflag'
  cases hflag'

theorem entry_iff (h : Layout cache i bound estimates readable cells) (k : key) :
    (exists e, cache.entry k i = some e) <-> estimates k ∨ readable k := by
  constructor
  · rintro ⟨e, he⟩
    by_contra hnot
    rw [not_or] at hnot
    rw [h.absent k hnot.left hnot.right] at he
    cases he
  · rintro (hk | hk)
    · rcases h.ofEstimate k hk with ⟨e, he, _⟩
      exact ⟨e, he⟩
    · rcases h.ofReadable k hk with ⟨e, he, _⟩
      exact ⟨e, he⟩

theorem congr_entry (h : Layout cache i bound estimates readable cells)
    (hent : forall k, cache'.entry k i = cache.entry k i) :
    Layout cache' i bound estimates readable cells where
  ofEstimate := by simpa [hent] using h.ofEstimate
  ofReadable := by simpa [hent] using h.ofReadable
  absent := by simpa [hent] using h.absent

theorem congr_keys (h : Layout cache i bound estimates readable cells)
    (hestimates : forall k, estimates' k <-> estimates k)
    (hreadable : forall k, readable' k <-> readable k)
    (hcells : forall k cell, readable k -> cells k cell -> cells' k cell) :
    Layout cache i bound estimates' readable' cells' where
  ofEstimate := fun k hk => h.ofEstimate k ((hestimates k).mp hk)
  ofReadable := by
    intro k hk
    rcases h.ofReadable k ((hreadable k).mp hk) with ⟨e, he, hflag, hcell⟩
    exact ⟨e, he, hflag, hcells k e.cell ((hreadable k).mp hk) hcell⟩
  absent := by
    intro k hest hread
    rw [hestimates k] at hest
    rw [hreadable k] at hread
    exact h.absent k hest hread

variable [dk : DecidableEq key]

theorem put (h : Layout cache i bound estimates readable cells) {cell}
    (hent : forall k', cache'.entry k' i = if k' = k then some { flag := .done, cell := cell } else
      cache.entry k' i)
    (hcell : cells' k cell) (hcells : forall k' cell, cells k' cell -> cells' k' cell) :
    Layout cache' i bound (fun k' => k' ≠ k ∧ estimates k')
      (fun k' => k' = k ∨ readable k') cells' where
  ofEstimate := by
    intro k' hk'
    rw [hent k', if_neg hk'.left]
    exact h.ofEstimate k' hk'.right
  ofReadable := by
    intro k' hk'
    rw [hent k']
    by_cases hk : k' = k
    · subst hk
      rw [if_pos rfl]
      exact ⟨_, rfl, rfl, hcell⟩
    · rw [if_neg hk]
      rcases h.ofReadable k' (hk'.resolve_left hk) with ⟨e, he, hflag, hold⟩
      exact ⟨e, he, hflag, hcells k' e.cell hold⟩
  absent := by
    intro k' hest hread
    rw [not_or] at hread
    rw [hent k', if_neg hread.left]
    exact h.absent k' (fun hk' => hest ⟨hread.left, hk'⟩) hread.right

theorem remove (h : Layout cache i bound estimates readable cells) (hk : estimates k)
    (hent : forall k', cache'.entry k' i = if k' = k then none else cache.entry k' i) :
    Layout cache' i bound (fun k' => k' ≠ k ∧ estimates k') readable cells where
  ofEstimate := by
    intro k' hk'
    rw [hent k', if_neg hk'.left]
    exact h.ofEstimate k' hk'.right
  ofReadable := by
    intro k' hk'
    have hne : k' ≠ k := fun heq => h.disjoint hk (heq ▸ hk')
    rw [hent k', if_neg hne]
    exact h.ofReadable k' hk'
  absent := by
    intro k' hest hread
    rw [hent k']
    split
    · rfl
    · next hne => exact h.absent k' (fun hk' => hest ⟨hne, hk'⟩) hread

theorem mark (h : Layout cache i bound estimates readable cells) {e : Entry value}
    (hbef : e.cell.Before bound)
    (hent : forall k', cache'.entry k' i =
      if k' = k then some e.markEstimate else cache.entry k' i) :
    Layout cache' i bound (fun k' => k' = k ∨ estimates k')
      (fun k' => k' ≠ k ∧ readable k') cells where
  ofEstimate := by
    intro k' hk'
    rw [hent k']
    by_cases hk : k' = k
    · rw [if_pos hk]
      exact ⟨_, rfl, rfl, hbef⟩
    · rw [if_neg hk]
      exact h.ofEstimate k' (hk'.resolve_left hk)
  ofReadable := by
    intro k' hk'
    rw [hent k', if_neg hk'.left]
    exact h.ofReadable k' hk'.right
  absent := by
    intro k' hest hread
    rw [not_or] at hest
    rw [hent k', if_neg hest.left]
    exact h.absent k' hest.right (fun hk' => hread ⟨hest.left, hk'⟩)

end Layout

/-!
# Phases of a transaction
-/

variable {key value path output error : Type} [dk : DecidableEq key]
  [tx : TransactionOutput output key value] {result : Task.ExecutionStatus output (Error error)}
  {k : key} {m : Memory key value path output error} {version : Version} {inc : Incarnation}
  {writes : List (key × value)} {deltas : List (key × DeltaOp)} {cell : EntryCell value}

theorem mem_resultKeys : k ∈ TxnLastInputOutput.resultKeys result <->
    k ∈ (resultWrites result).map Prod.fst ∨ k ∈ (resultDeltas result).map Prod.fst := by
  cases result with
  | success | skipRest =>
    simp [TxnLastInputOutput.resultKeys, outputKeys, resultWrites, resultDeltas]
  | abort => simp [TxnLastInputOutput.resultKeys, resultWrites, resultDeltas]

theorem resultKeys_nodup (result : Task.ExecutionStatus output (Error error)) :
    (TxnLastInputOutput.resultKeys result).Nodup := by
  cases result with
  | success | skipRest => exact nodup_dedup _
  | abort => exact nodup_nil

theorem modifiedKeys_of_outputs {record : TxnLastInputOutput key path output error} {i : TxnIndex}
    (h : record.outputs i = some result) :
    record.modifiedKeys i = TxnLastInputOutput.resultKeys result := by
  rw [TxnLastInputOutput.modifiedKeys, h]

theorem modifiedKeys_nodup (record : TxnLastInputOutput key path output error) (i : TxnIndex) :
    (record.modifiedKeys i).Nodup := by
  unfold TxnLastInputOutput.modifiedKeys
  split
  · exact nodup_nil
  · exact resultKeys_nodup _

def Estimated (m : Memory key value path output error) (i : TxnIndex) (inc : Incarnation) : Prop :=
  Layout m.cache i inc (fun k => k ∈ m.lastInputOutput.modifiedKeys i)
    (fun _ => False) (fun _ _ => True)

/-- A worker applies the updates of a version; `writes` and `deltas` are still
to be applied, and `prev` holds the keys with leftovers. -/
structure Applying (cache : MVHashMap key value) (version : Version)
    (result : Task.ExecutionStatus output (Error error)) (prev : List key)
    (writes : List (key × value)) (deltas : List (key × DeltaOp)) :
    Prop where
  nodup : prev.Nodup
  applied : exists writes' deltas', resultWrites result = writes' ++ writes ∧
    resultDeltas result = deltas' ++ deltas ∧
    (writes'.map Prod.fst).Nodup ∧ (writes ≠ [] -> deltas' = []) ∧
    Layout cache version.1 version.2 (fun k => k ∈ prev)
      (fun k => k ∈ writes'.map Prod.fst ∨ k ∈ deltas'.map Prod.fst)
      (CellOf version.2 writes' deltas')

structure Written (m : Memory key value path output error)
    (version : Version) (reads : List (ReadDescriptor key))
    (result : Task.ExecutionStatus output (Error error)) : Prop where
  inputs : m.lastInputOutput.inputs version.1 = some reads
  outputs : m.lastInputOutput.outputs version.1 = some result
  nodup : ((resultWrites result).map Prod.fst).Nodup
  layout : Layout m.cache version.1 0 (fun _ => False)
    (fun k => k ∈ TxnLastInputOutput.resultKeys result)
    (CellOf version.2 (resultWrites result) (resultDeltas result))

/-- A worker flags the entries of an aborted version; `keys` are left. -/
structure Marking (m : Memory key value path output error)
    (version : Version) (keys : List key) : Prop where
  nodup : keys.Nodup
  subset : forall k, k ∈ keys -> k ∈ m.lastInputOutput.modifiedKeys version.1
  layout : Layout m.cache version.1 (version.2 + 1)
    (fun k => k ∈ m.lastInputOutput.modifiedKeys version.1 ∧ k ∉ keys)
    (fun k => k ∈ keys) (fun _ cell => cell.Before (version.2 + 1))

/-!
# From phase to phase
-/

theorem Estimated.applying (h : Estimated m version.1 version.2)
    (status : Task.ExecutionStatus output error) : Applying m.cache version (recordedResult status)
      (m.lastInputOutput.modifiedKeys version.1) (resultWrites status) (resultDeltas status) where
  nodup := modifiedKeys_nodup m.lastInputOutput version.1
  applied := by
    refine ⟨[], [], by simp, by simp, nodup_nil, fun _ => rfl, ?_⟩
    exact h.congr_keys (fun _ => Iff.rfl) (by simp) (fun _ _ hreadable _ => hreadable.elim)

omit dk in
theorem CellOf.mono {writes'} {deltas'} (hwrs : forall x, x ∈ writes -> x ∈ writes')
    (hdels : forall x, x ∈ deltas -> x ∈ deltas') (h : CellOf inc writes deltas k cell) :
    CellOf inc writes' deltas' k cell := by
  cases cell with
  | write => exact ⟨h.left, hwrs _ h.right⟩
  | delta => exact hdels _ h

variable {prev : List key}

theorem Applying.write {cache : MVHashMap key value} {version : Version}
    {result : Task.ExecutionStatus output (Error error)} {k : key} {v : value}
    {writes : List (key × value)} {deltas : List (key × DeltaOp)}
    (h : Applying cache version result prev ((k, v) :: writes) deltas)
    (hasserts : (cache.addWrite k version v).2 = true) :
    Applying (cache.addWrite k version v).1 version result (prev.erase k) writes deltas := by
  rcases h.applied with ⟨writes', _, hwrs, hdels, hnodup, hnil, hlay⟩
  cases hnil (cons_ne_nil _ _)
  have hfirst : k ∉ writes'.map Prod.fst := by
    intro hmem
    rcases hlay.ofReadable k (.inl hmem) with ⟨⟨flag, cell⟩, he, _, hcell⟩
    cases cell with
    | write inc v' =>
      have hlt := (cache.addWrite_asserts_iff k version v).mp hasserts flag inc v' he
      exact lt_irrefl _ (hcell.left ▸ hlt)
    | delta => cases hcell
  refine ⟨h.nodup.erase k, writes' ++ [(k, v)], [], by simp [hwrs], hdels, ?_, fun _ => rfl, ?_⟩
  · rw [map_append]
    refine nodup_append.mpr ⟨hnodup, nodup_singleton k, ?_⟩
    intro _ ha _ hb hab
    cases mem_singleton.mp hb
    rw [hab] at ha
    exact hfirst ha
  · have hent (k' : key) : (cache.addWrite k version v).1.entry k' version.1 =
          if k' = k then some
            { flag := .done, cell := .write version.2 v }
          else cache.entry k' version.1 := by
      rw [cache.entry_addWrite]
      simp
    have hcell : CellOf version.2 (writes' ++ [(k, v)]) [] k (.write version.2 v) := ⟨rfl, by simp⟩
    have hcells (k' : key) (cell : EntryCell value) (h : CellOf version.2 writes' [] k' cell) :
      CellOf version.2 (writes' ++ [(k, v)]) [] k' cell :=
      h.mono (fun _ hx => mem_append_left _ hx) (fun _ hx => hx)
    refine (hlay.put hent hcell hcells).congr_keys
      (fun k' => h.nodup.mem_erase_iff) ?_ (fun _ _ _ hcell => hcell)
    intro _
    simp [or_comm]

theorem Applying.delta {cache : MVHashMap key value} {version : Version}
    {result : Task.ExecutionStatus output (Error error)} {k : key} {op : DeltaOp}
    {deltas : List (key × DeltaOp)}
    (h : Applying cache version result prev [] ((k, op) :: deltas)) :
    Applying (cache.addDelta k version.1 op) version result (prev.erase k) [] deltas := by
  rcases h.applied with ⟨writes', deltas', hwrs, hdels, hnodup, _, hlay⟩
  refine ⟨h.nodup.erase k, writes', deltas' ++ [(k, op)], hwrs,
    by simp [hdels], hnodup, fun hne => (hne rfl).elim, ?_⟩
  have hent (k' : key) : (cache.addDelta k version.1 op).entry k' version.1 =
      if k' = k then some { flag := .done, cell := .delta op }
      else cache.entry k' version.1 := by
    rw [cache.entry_addDelta]
    simp
  have hcell : CellOf version.2 writes' (deltas' ++ [(k, op)]) k
    (.delta op) :=
    mem_append_right deltas' (mem_singleton.mpr rfl)
  have hcells (k' : key) (cell : EntryCell value) (h : CellOf version.2 writes' deltas' k' cell) :
    CellOf version.2 writes' (deltas' ++ [(k, op)]) k' cell :=
    h.mono (fun _ hx => hx) (fun _ hx => mem_append_left _ hx)
  refine (hlay.put hent hcell hcells).congr_keys
    (fun k' => h.nodup.mem_erase_iff) ?_ (fun _ _ _ hcell => hcell)
  intro _
  simp only [map_append, mem_append, map_singleton, mem_singleton]
  tauto

variable {keys : List key} {pick : Nat}

omit tx in
theorem eraseIdx_eq_erase (hnodup : keys.Nodup) (hpick : keys[pick]? = some k) :
    keys.eraseIdx pick = keys.erase k := by
  rcases List.getElem?_eq_some_iff.mp hpick with ⟨_, hk⟩
  rw [← hk, hnodup.erase_getElem]

theorem Applying.delete {cache cache' : MVHashMap key value} {version : Version}
    {result : Task.ExecutionStatus output (Error error)} {k : key}
    (h : Applying cache version result prev [] []) (hpick : prev[pick]? = some k)
    (hdele : cache.delete k version.1 = .ok cache') :
    Applying cache' version result (prev.eraseIdx pick) [] [] := by
  rcases h.applied with ⟨writes', deltas', hwrs, hdels, hnodup, hnil, hlay⟩
  cases MVHashMap.delete_eq_ok hdele
  have hprev := eraseIdx_eq_erase h.nodup hpick
  refine ⟨hprev ▸ h.nodup.erase k, writes', deltas', hwrs, hdels, hnodup, hnil, ?_⟩
  refine (hlay.remove (mem_of_getElem? hpick) (fun k' => ?_)).congr_keys
    ?_ (fun _ => Iff.rfl) (fun _ _ _ hcell => hcell)
  · rw [cache.entry_setEntry]
    simp
  · intro _
    rw [hprev]
    exact h.nodup.mem_erase_iff

theorem Applying.written [DecidableEq path] [ModulePath key path]
    (h : Applying m.cache version result [] [] []) (reads : List (ReadDescriptor key)) :
    Written { m with
      lastInputOutput := m.lastInputOutput.record version.1 reads result }
      version reads result := by
  rcases h.applied with ⟨_, _, hwrs, hdels, hnodup, _, hlay⟩
  rw [append_nil] at hwrs hdels
  refine ⟨by simp, by simp, by rw [hwrs]; exact hnodup, ?_⟩
  constructor
  · exact fun k hk => hk.elim
  · intro k hk
    rw [mem_resultKeys, hwrs, hdels] at hk
    rw [hwrs, hdels]
    exact hlay.ofReadable k hk
  · intro k _ hk
    rw [mem_resultKeys, hwrs, hdels] at hk
    exact hlay.absent k not_mem_nil hk

omit dk in
theorem CellOf.before (h : CellOf inc writes deltas k cell) : cell.Before (inc + 1) := by
  intro _ _ hcell
  rw [hcell] at h
  exact Nat.lt_succ_of_le (le_of_eq h.left)

theorem Written.marking {reads : List (ReadDescriptor key)} (h : Written m version reads result) :
    Marking m version (m.lastInputOutput.modifiedKeys version.1) where
  nodup := modifiedKeys_nodup m.lastInputOutput version.1
  subset := fun _ hk => hk
  layout := by
    rw [modifiedKeys_of_outputs h.outputs]
    constructor
    · exact fun k hk => (hk.right hk.left).elim
    · intro k hk
      rcases h.layout.ofReadable k hk with ⟨e, he, hflag, hcell⟩
      exact ⟨e, he, hflag, hcell.before⟩
    · exact fun k _ hk => h.layout.absent k id hk

theorem Marking.mark {cache' : MVHashMap key value} (h : Marking m version keys)
    (hpick : keys[pick]? = some k) (hmark : m.cache.markEstimate k version.1 = .ok cache') :
    Marking { m with cache := cache' } version (keys.eraseIdx pick) := by
  have hk := mem_of_getElem? hpick
  have hmem (k' : key) : k' ∈ keys.eraseIdx pick <-> k' ≠ k ∧ k' ∈ keys := by
    rw [eraseIdx_eq_erase h.nodup hpick]
    exact h.nodup.mem_erase_iff
  rcases MVHashMap.markEstimate_eq_ok hmark with ⟨e, he, hcache⟩
  rcases h.layout.ofReadable k hk with ⟨_, he', _, hbef⟩
  cases he.symm.trans he'
  subst hcache
  refine ⟨h.nodup.eraseIdx pick, ?_, ?_⟩
  · exact fun k' hk' => h.subset k' ((hmem k').mp hk').right
  · have hent (k' : key) : (m.cache.setEntry k version.1 (some e.markEstimate)).entry k' version.1 =
          if k' = k then some e.markEstimate
          else m.cache.entry k' version.1 := by
      rw [m.cache.entry_setEntry]
      simp
    refine (h.layout.mark hbef hent).congr_keys ?_ hmem (fun _ _ _ hcell => hcell)
    intro k'
    by_cases hk' : k' = k
    · subst hk'
      simp [hmem, h.subset k' hk]
    · simp [hmem, hk']

theorem Marking.estimated (h : Marking m version []) : Estimated m version.1 (version.2 + 1) :=
  h.layout.congr_keys (by simp) (by simp) (fun _ _ _ _ => trivial)

end OpenLibra.BlockExecutor
