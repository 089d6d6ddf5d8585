import OpenLibra.BlockExecutor.Serializability

/-!
# Early termination

An output that skips the rest ends the block: both executors return skipped outputs for the
transactions above it, as long as no transaction leaves a delta in the map and no module is both
published and read.
-/

namespace OpenLibra.BlockExecutor

open Transition Rust Aggregation TransactionOutput List Function

variable {worker txn key value path output error : Type} [dw : DecidableEq worker]
  [dk : DecidableEq key] [dp : DecidableEq path] [tw : TransactionWrite value]
  [mk : ModulePath key path] [tx : TransactionOutput output key value]
  {ctx : BlockContext txn key output error} {s s' : State worker key value path output error}
  {w : worker} {events : List (Event key output error)}

/-!
# The marker of a finished run
-/

/-- Every key the program can ask for is of the given kind. -/
def Program.Reads (kind : key -> Prop) : Program key output error -> Prop
  | .done _ => True
  | .read k next => kind k ∧ forall answer, Program.Reads kind (next answer)

omit dk in
theorem Program.Reads.after {p q : Program key output error} {kind : key -> Prop}
    {trace : List (key × ViewResult)} (h : p.Reads kind) (hafter : p.After trace q) :
    q.Reads kind ∧ forall x, x ∈ trace -> kind x.1 := by
  induction hafter with
  | nil => exact ⟨h, fun x hx => (not_mem_nil hx).elim⟩
  | snoc _ answer ih =>
    refine ⟨ih.left.right answer, fun x hx => ?_⟩
    rcases mem_append.mp hx with hx | hx
    · exact ih.right x hx
    · cases mem_singleton.mp hx
      exact ih.left.left

namespace TxnLastInputOutput

variable {self : TxnLastInputOutput key path output error} {published kind : path -> Prop}

structure Apart (lastInputOutput : TxnLastInputOutput key path output error)
    (published : path -> Prop) : Prop where
  reads : forall p, p ∈ lastInputOutput.moduleReads -> ¬ published p
  writes : forall p, p ∈ lastInputOutput.moduleWrites -> published p
  noRace : lastInputOutput.modulePublishingMayRace = false

theorem appendAndCheck_of_apart {paths setToAppend setToCheck : List path}
    (hpaths : forall p, p ∈ paths -> kind p) (happend : forall p, p ∈ setToAppend -> kind p)
    (hcheck : forall p, p ∈ setToCheck -> ¬ kind p) :
    (appendAndCheck paths setToAppend setToCheck).2 = false ∧
      forall p, p ∈ (appendAndCheck paths setToAppend setToCheck).1 -> kind p := by
  induction paths generalizing setToAppend with
  | nil => exact ⟨rfl, happend⟩
  | cons p paths ih =>
    rw [forall_mem_cons] at hpaths
    rw [appendAndCheck, if_neg fun hp => hcheck p hp hpaths.left]
    refine ih hpaths.right fun p' hp' => ?_
    rcases mem_insert_iff.mp hp' with rfl | hp'
    · exact hpaths.left
    · exact happend p' hp'

omit dk mk in
theorem Apart.recordModules (h : self.Apart published) {readModules writtenModules : List path}
    (hreads : forall p, p ∈ readModules -> ¬ published p)
    (hwrites : forall p, p ∈ writtenModules -> published p) :
    (self.recordModules readModules writtenModules).Apart published := by
  have hread := appendAndCheck_of_apart hreads h.reads fun p hp hnot => hnot (h.writes p hp)
  rcases hafter : appendAndCheck readModules self.moduleReads self.moduleWrites with
    ⟨moduleReads, _⟩
  rw [hafter] at hread
  rcases hread with ⟨rfl, hread⟩
  have hwrite := appendAndCheck_of_apart hwrites h.writes hread
  have hrace : self.moduleReadWriteIntersection = false := h.noRace
  rw [TxnLastInputOutput.recordModules, hrace, hafter]
  exact ⟨hread, hwrite.right, hwrite.left⟩

omit dk tw in
theorem Apart.record (h : self.Apart published) {i : TxnIndex} {reads : List (ReadDescriptor key)}
    {result : Task.ExecutionStatus output (Error error)}
    (hreads : forall r, r ∈ reads -> forall p,
      ModulePath.modulePath r.accessPath = some p -> ¬ published p)
    (hwrites : forall k, k ∈ (resultWrites result).map Prod.fst -> forall p,
      ModulePath.modulePath k = some p -> published p) :
    (self.record i reads result).Apart published := by
  have hwritten (p : path) (hp : p ∈ writtenModules result) : published p := by
    cases result with
    | success out | skipRest out =>
      rcases mem_filterMap.mp hp with ⟨write, hmem, hpath⟩
      exact hwrites write.1 (mem_map_of_mem hmem) p hpath
    | abort e => cases hp
  have hread (p : path) (hp : p ∈ reads.filterMap fun desc =>
      ModulePath.modulePath desc.accessPath) : ¬ published p := by
    rcases mem_filterMap.mp hp with ⟨r, hmem, hpath⟩
    exact hreads r hmem p hpath
  have hafter := h.recordModules hread hwritten
  exact ⟨hafter.reads, hafter.writes, hafter.noRace⟩

end TxnLastInputOutput

variable {k : TxnIndex}

/-- Transaction `k` is the first whose final status is to skip the rest, and
those below it have succeeded. -/
structure SkipsRest (s : State worker key value path output error)
    (k : TxnIndex) : Prop where
  below : forall i, i < k -> exists out, s.lastInputOutput.outputs i = some (.success out)
  skip : exists out, s.lastInputOutput.outputs k = some (.skipRest out)

omit dw dk dp tw mk tx in
theorem takeOutputs_append {indices rest}
    (hbelow : forall i, i ∈ indices ->
      exists out, s.lastInputOutput.outputs i = some (.success out))
    (hskip : exists out, s.lastInputOutput.outputs k = some (.skipRest out)) :
    exists outs, takeOutputs s.lastInputOutput.outputs (indices ++ k :: rest) =
      .ok outs ∧ outs.length = indices.length + 1 := by
  induction indices with
  | nil =>
    rcases hskip with ⟨out, hout⟩
    refine ⟨[out], ?_, rfl⟩
    rw [nil_append, takeOutputs, hout]
  | cons idx indices ih =>
    rw [forall_mem_cons] at hbelow
    rcases hbelow.left with ⟨out, hout⟩
    rcases ih hbelow.right with ⟨outs, houts, hlen⟩
    refine ⟨out :: outs, ?_, congrArg Nat.succ hlen⟩
    rw [cons_append, takeOutputs, hout]
    simp only [houts]
    rfl

omit dw dk dp tw mk tx in
theorem SkipsRest.takeOutputs (h : SkipsRest s k) {numTxns : Nat} (hk : k < numTxns) :
    exists outs, takeOutputs s.lastInputOutput.outputs (range numTxns) =
      .ok outs ∧ outs.length = k + 1 := by
  have hrange : range numTxns = range k ++ k :: (range (numTxns - (k + 1))).map (k + 1 + ·) := by
    rw [← singleton_append, ← append_assoc, ← range_succ, ← range_add, Nat.add_sub_cancel' hk]
  rcases takeOutputs_append (fun i hi => h.below i (mem_range.mp hi)) h.skip with
    ⟨outs, houts, hlen⟩
  exact ⟨outs, hrange ▸ houts, hlen.trans (by rw [length_range])⟩

namespace Halt

def context (stored : Option Bytes) (second : Chain.Txn) :
    BlockContext Chain.Txn Chain.Key Chain.Output Unit :=
  BlockContext.ofPrograms ValueCodec.littleEndian (fun _ => .ok stored)
    [.done (.skipRest skipOutput), second]

def final (stored : Option Bytes) (second : Chain.Txn) :
    Option (State Bool Chain.Key WriteOp Nat Chain.Output Unit ×
      List (Event Chain.Key Chain.Output Unit)) :=
  runSchedule (context stored second) (Chain.schedule [(false, 51), (true, 4)]) (State.initial 2)

end Halt

end OpenLibra.BlockExecutor
