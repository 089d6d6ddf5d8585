import OpenLibra.BlockExecutor.CommitSoundness

/-!
# Parallel execution is serializable

A version stands for one value per key as long as it is current, so by induction over the block
the sequential executor finds the same values.
-/

namespace OpenLibra.BlockExecutor

open Rust Aggregation TransactionOutput List Function

/-!
# Maps that hold writes only
-/

section

variable {key value output error : Type}

def latestWrite (entries : TxnIndex -> Option (Entry value)) : TxnIndex -> Option value
  | 0 => none
  | idx + 1 =>
    match entries idx with
    | some { cell := .write _ v, .. } => some v
    | _ => latestWrite entries idx

def ReadableWrites (entries : TxnIndex -> Option (Entry value)) (i : TxnIndex) : Prop :=
  forall j e, j < i -> entries j = some e -> e.flag = .done ∧ exists inc v, e.cell = .write inc v

theorem scan_of_readableWrites [TransactionWrite value] (codec : ValueCodec)
    {entries : TxnIndex -> Option (Entry value)} {i : TxnIndex} (h : ReadableWrites entries i) :
    (latestWrite entries i = none ∧ scan codec entries i none = .err .notFound) ∨
    exists j inc v, j < i ∧ latestWrite entries i = some v ∧ scan codec entries i none =
        .ok (.version (j, inc) v) := by
  induction i with
  | zero => exact .inl ⟨rfl, rfl⟩
  | succ idx ih =>
    rw [latestWrite, scan]
    rcases hent : entries idx with _ | e
    · refine (ih fun j e hj => h j e (Nat.lt_succ_of_lt hj)).imp_right ?_
      rintro ⟨j, inc, v, hj, hfound⟩
      exact ⟨j, inc, v, Nat.lt_succ_of_lt hj, hfound⟩
    · rcases h idx e (Nat.lt_succ_self idx) hent with ⟨hflag, inc, v, hcell⟩
      rcases e with ⟨_, _⟩
      subst hflag hcell
      exact .inr ⟨idx, inc, v, Nat.lt_succ_self idx, rfl, rfl⟩

variable [dk : DecidableEq key] {map : key -> Option value} {writes : List (key × value)} {k : key}
  {version : Version} {reads : List (ReadDescriptor key)}

theorem insertWrites_of_not_mem (h : k ∉ writes.map Prod.fst) :
    insertWrites map writes k = map k := by
  induction writes generalizing map with
  | nil => rfl
  | cons write writes ih =>
    rw [map_cons, mem_cons, not_or] at h
    rw [insertWrites, ih h.right, update_of_ne h.left]

theorem insertWrites_of_mem {v : value} (hnodup : (writes.map Prod.fst).Nodup)
    (h : (k, v) ∈ writes) : insertWrites map writes k = some v := by
  induction writes generalizing map with
  | nil => cases h
  | cons write writes ih =>
    rw [map_cons, nodup_cons] at hnodup
    rw [insertWrites]
    rcases mem_cons.mp h with hwrite | hmem
    · subst hwrite
      rw [insertWrites_of_not_mem hnodup.left, update_self]
    · exact ih hnodup.right hmem

variable [tx : TransactionOutput output key value] {path : Type}
  {m : Memory key value path output error} {result : Task.ExecutionStatus output (Error error)}

theorem Written.entry (h : Written m version reads result) (hdels : resultDeltas result = [])
    {e : Entry value} (hent : m.cache.entry k version.1 = some e) :
    e.flag = .done ∧ exists v, e.cell = .write version.2 v ∧ (k, v) ∈ resultWrites result := by
  rcases (h.layout.entry_iff k).mp ⟨e, hent⟩ with hk | hk
  · exact hk.elim
  · rcases h.layout.ofReadable k hk with ⟨_, hent', hflag, hcell⟩
    cases hent.symm.trans hent'
    refine ⟨hflag, ?_⟩
    rcases e with ⟨_, ⟨_, v⟩ | op⟩
    · rcases hcell with ⟨hinc, hmem⟩
      subst hinc
      exact ⟨v, rfl, hmem⟩
    · have hmem : (k, op) ∈ resultDeltas result := hcell
      rw [hdels] at hmem
      cases hmem

theorem insertWrites_latestWrite (h : Written m version reads result)
    (hdels : resultDeltas result = []) :
    insertWrites (fun k => latestWrite (m.cache.entry k) version.1) (resultWrites result) =
      fun k => latestWrite (m.cache.entry k) (version.1 + 1) := by
  funext k
  rw [latestWrite]
  rcases hent : m.cache.entry k version.1 with _ | ⟨_, _⟩
  · refine insertWrites_of_not_mem fun hk => ?_
    rcases h.layout.ofReadable k (mem_resultKeys.mpr (.inl hk)) with ⟨_, he, _⟩
    cases hent.symm.trans he
  · rcases h.entry hdels hent with ⟨_, _, hcell, hmem⟩
    subst hcell
    exact insertWrites_of_mem h.nodup hmem

end

theorem Program.run_of_after {p q : Program key output error} {view : key -> ViewResult}
    {trace : List (key × ViewResult)} (hafter : p.After trace q)
    (htrace : forall x, x ∈ trace -> x.2 = view x.1) : p.run view = q.run view := by
  induction hafter with
  | nil => rfl
  | snoc _ answer ih =>
    rw [ih fun x hx => htrace x (mem_append_left _ hx)]
    rw [Program.run, ← htrace _ (mem_append_right _ mem_cons_self)]

theorem Program.Always.run {p : Program key output error} (view : key -> ViewResult)
    {kind : Task.ExecutionStatus output error -> Prop} (h : p.Always kind) : kind (p.run view) := by
  induction p with
  | done status => exact h
  | read k next ih => exact ih (view k) (h (view k))

theorem Program.Always.mono {p : Program key output error}
    {kind kind' : Task.ExecutionStatus output error -> Prop}
    (hmono : forall status, kind status -> kind' status) (h : p.Always kind) :
    p.Always kind' := by
  induction p with
  | done status => exact hmono status h
  | read k next ih => exact fun answer => ih answer (h answer)

section

variable {worker txn key value path output error : Type} [dw : DecidableEq worker]
  [dk : DecidableEq key] [dp : DecidableEq path] [tw : TransactionWrite value]
  [mk : ModulePath key path] [tx : TransactionOutput output key value]

/-- Whatever a transaction of the block reads, it returns no delta. -/
def BlockContext.NoDeltas (ctx : BlockContext txn key output error) : Prop :=
  forall i program, ctx.program i false = some program ->
    program.Always fun status => resultDeltas status = []

def BlockContext.WritesOnly (ctx : BlockContext txn key output error) : Prop :=
  forall i program, ctx.program i false = some program -> program.Always fun status =>
      exists out, status = .success out ∧ getDeltas out = []

omit dk tw in
theorem BlockContext.WritesOnly.noDeltas {ctx : BlockContext txn key output error}
    (h : ctx.WritesOnly) : ctx.NoDeltas := by
  refine fun i program hprog => (h i program hprog).mono ?_
  rintro _ ⟨out, rfl, hdels⟩
  exact hdels

/-!
# Versions and values
-/

variable (s : State worker key value path output error)

def Stuck (j : TxnIndex) : Prop :=
  exists w, s.panicked w ≠ none ∧ (s.pc w).touches = some j

def Wrote (k : key) (version : Version) (v : value) : Prop :=
  version.2 < (s.scheduler.executionStatus version.1).incarnation ∨ Stuck s version.1 ∨
    exists e, s.cache.entry k version.1 = some e ∧ e.cell = .write version.2 v

variable {ctx : BlockContext txn key output error} {s s' : State worker key value path output error}
  {w : worker} {events : List (Event key output error)} {pc : Pc key value output error}
  {panic : Option Panic}

theorem stuck_step (hacc : Accessed ctx s w events s' pc panic) {j : TxnIndex} (h : Stuck s j) :
    Stuck s' j := by
  rcases h with ⟨w', hpan, htouches⟩
  have hw : w' ≠ w := fun heq => hpan (heq ▸ hacc.alive)
  refine ⟨w', ?_, ?_⟩
  · rw [hacc.panicked, update_of_ne hw]
    exact hpan
  · rw [hacc.pc, update_of_ne hw]
    exact htouches

variable {version : Version} {i : TxnIndex} {inc : Incarnation} {k : key} {v : value}

theorem no_deltas (hdel : ctx.NoDeltas)
    (hs : (parallelExecution worker value path ctx).Reachable s) (halive : s.panicked w = none)
    {result} {reads} {prev : List key} {outside : Bool} {writes} {deltas}
    (hpc : s.pc w = .applyUpdates version result reads prev outside writes deltas) :
    deltas = [] := by
  have htraces := traces_of_reachable (fun _ _ _ => True)
    (fun _ _ _ _ _ _ _ _ _ => trivial) (fun _ _ _ _ _ _ _ _ => trivial) hs
  rcases htraces.applying w version result reads prev outside writes deltas
    hpc with ⟨status, hres, program, trace, hprog, hafter, _⟩
  have hdels : resultDeltas status = [] := (hdel version.1 program hprog).after hafter
  have hphase := (mapLayout_of_reachable hs).phase w
  rw [hpc] at hphase
  rcases (hphase halive).applied with ⟨_, deltas', _, happ, _⟩
  rw [hres, resultDeltas_recordedResult, hdels] at happ
  exact (append_eq_nil_iff.mp happ.symm).right

omit dk dp tw mk tx dw in
theorem incarnation_of_executing (hinv : Protocol.Invariant s.protocol)
    {outside : Bool} (hrole : (s.pc w).role = .executing i inc outside) :
    (s.scheduler.executionStatus i).incarnation = inc :=
  ExecutionStatus.incarnation_of_stage (.inl (stage_of_executing hinv hrole))

theorem wrote_access {recorded} {memory} (hdel : ctx.NoDeltas)
    (hs : (parallelExecution worker value path ctx).Reachable s) (halive : s.panicked w = none)
    (hacc : Access ctx s w recorded memory pc panic) {e} (hent : s.cache.entry k version.1 = some e)
    (hcell : e.cell = .write version.2 v) :
    version.2 < (s.scheduler.executionStatus version.1).incarnation ∨
      (panic ≠ none ∧ pc.touches = some version.1) ∨
      exists e', memory.cache.entry k version.1 = some e' ∧ e'.cell = .write version.2 v := by
  have hinv := protocol_invariant hs
  have hphase := (mapLayout_of_reachable hs).phase w
  cases hacc with
  | @write version' _ _ _ _ k' v' _ _ hpc =>
    by_cases hsame : k = k' ∧ version.1 = version'.1
    · rcases hsame with ⟨hk, hidx⟩
      subst hk
      have hinc := incarnation_of_executing hinv (w := w) (i := version.1) (by rw [hpc, hidx]; rfl)
      by_cases hasserts : (s.cache.addWrite k version' v').2 = true
      · refine .inl ?_
        rw [hinc]
        refine (s.cache.addWrite_asserts_iff k version' v').mp hasserts e.flag version.2 v ?_
        rw [← hidx, hent, ← hcell]
      · refine .inr (.inl ⟨?_, congrArg some hidx.symm⟩)
        rw [if_neg hasserts]
        simp
    · refine .inr (.inr ⟨e, ?_, hcell⟩)
      exact (s.cache.entry_addWrite k' k version' v' version.1).trans ((if_neg hsame).trans hent)
  | delta hpc => cases no_deltas hdel hs halive hpc
  | @delete version' _ _ prev _ k' _ _ hpc hpick hdele =>
    cases MVHashMap.delete_eq_ok hdele
    by_cases hsame : k = k' ∧ version.1 = version'.1
    · rcases hsame with ⟨hk, hidx⟩
      subst hk
      have hinc := incarnation_of_executing hinv (w := w) (i := version.1) (by rw [hpc, hidx]; rfl)
      refine .inl ?_
      rw [hinc]
      rw [hpc] at hphase
      rcases (hphase halive).applied with ⟨_, _, _, _, _, _, hlay⟩
      rcases hlay.ofEstimate k (mem_of_getElem? hpick) with ⟨e', hent', _, hbef⟩
      rw [← hidx] at hent'
      cases hent.symm.trans hent'
      exact hbef version.2 v hcell
    · refine .inr (.inr ⟨e, ?_, hcell⟩)
      exact (s.cache.entry_setEntry k' k version'.1 version.1 none).trans
        ((if_neg hsame).trans hent)
  | @markEstimate version' _ k' _ _ hpc _ hmark =>
    rcases MVHashMap.markEstimate_eq_ok hmark with ⟨e', hent', hcache⟩
    subst hcache
    have hafter := s.cache.entry_setEntry k' k version'.1 version.1 (some e'.markEstimate)
    by_cases hsame : k = k' ∧ version.1 = version'.1
    · rw [if_pos hsame] at hafter
      rw [← hsame.left, ← hsame.right, hent] at hent'
      cases hent'
      exact .inr (.inr ⟨e.markEstimate, hafter, hcell⟩)
    · rw [if_neg hsame] at hafter
      exact .inr (.inr ⟨e, hafter.trans hent, hcell⟩)
  | _ => exact .inr (.inr ⟨e, hent, hcell⟩)

theorem wrote_step (hdel : ctx.NoDeltas)
    (hs : (parallelExecution worker value path ctx).Reachable s) (href : Refines s events s')
    (hacc : Accessed ctx s w events s' pc panic) (h : Wrote s k version v) :
    Wrote s' k version v := by
  have hmono := incarnation_refines href version.1
  rcases h with hlt | hstuck | ⟨_, hent, hcell⟩
  · exact .inl (lt_of_lt_of_le hlt hmono)
  · exact .inr (.inl (stuck_step hacc hstuck))
  · rcases wrote_access hdel hs hacc.alive hacc.access hent hcell
      with hlt | ⟨hpanic, htouches⟩ | hafter
    · exact .inl (lt_of_lt_of_le hlt hmono)
    · refine .inr (.inl ⟨w, ?_, ?_⟩)
      · rw [hacc.panicked, update_self]
        exact hpanic
      · rw [hacc.pc, update_self]
        exact htouches
    · exact .inr (.inr hafter)

/-- The answer to a read goes with the descriptor that was captured for it. -/
def Justified (ctx : BlockContext txn key output error)
    (s : State worker key value path output error) (x : key × ViewResult) (r : ReadDescriptor key) :
    Prop :=
  r.accessPath = x.1 ∧
    match r.kind with
    | .storage => x.2 = LatestView.fromBase (ctx.baseView x.1)
    | .version j inc => exists v : value,
        x.2 = .ok (TransactionWrite.extractRawBytes v) ∧ Wrote s x.1 (j, inc) v
    | _ => True

omit dw dk dp mk tx in
theorem justified_capture {descriptor} {result} {answer}
    (hcapt : capture k (s.cache.read ctx.codec k i) = .captured descriptor result)
    (hans : viewAnswer (LatestView.getStateValueMv ctx.codec ctx.baseView k result) = some answer) :
    Justified ctx s (k, answer) descriptor := by
  rcases hread : s.cache.read ctx.codec k i with (v | ⟨⟨j, inc⟩, v⟩) | e | _
  · rw [hread] at hcapt
    cases hcapt
    exact ⟨rfl, trivial⟩
  · rw [hread] at hcapt
    cases hcapt
    cases hans
    exact ⟨rfl, v, rfl, .inr (.inr (MVHashMap.read_eq_version ctx.codec hread))⟩
  · rw [hread] at hcapt
    cases e with
    | notFound =>
      cases hcapt
      refine ⟨rfl, ?_⟩
      rw [LatestView.getStateValueMv] at hans
      show answer = LatestView.fromBase (ctx.baseView k)
      cases hbase : ctx.baseView k with
      | ok | error =>
        rw [hbase] at hans
        cases hans
        rfl
    | unresolved | deltaApplicationFailure =>
      cases hcapt
      exact ⟨rfl, trivial⟩
    | dependency => cases hcapt
  · rw [hread] at hcapt
    cases hcapt

theorem justified_step (hdel : ctx.NoDeltas)
    (hs : (parallelExecution worker value path ctx).Reachable s)
    (hstep : (parallelExecution worker value path ctx).step s events s') (x : key × ViewResult)
    (r : ReadDescriptor key) (h : Justified ctx s x r) : Justified ctx s' x r := by
  rcases hstep with ⟨_, _, hstep⟩
  rcases access_of_step hstep with ⟨_, _, hacc⟩
  refine ⟨h.left, ?_⟩
  have hkind := h.right
  cases hr : r.kind with
  | version =>
    rw [hr] at hkind
    rcases hkind with ⟨v, hans, hwrote⟩
    exact ⟨v, hans, wrote_step hdel hs (refines_of_reachable hs hstep) hacc hwrote⟩
  | storage =>
    rw [hr] at hkind
    exact hkind
  | resolved | unresolved | deltaApplicationFailure => trivial

theorem justified_of_reachable (hdel : ctx.NoDeltas)
    (hs : (parallelExecution worker value path ctx).Reachable s) : Traces ctx (Justified ctx s) s :=
  traces_of_reachable (Justified ctx)
    (fun _ _ _ _ _ _ _ hcapt hans =>
      justified_capture hcapt hans)
    (fun _ _ _ hs hstep => justified_step hdel hs hstep) hs

/-!
# Committed transactions
-/

omit dk dp tw mk tx dw in
theorem exists_committed (hinv : Protocol.Invariant s.protocol) (hi : i < s.scheduler.commitIdx) :
    exists inc, s.scheduler.executionStatus i = .committed inc := by
  have hcomm := (hinv.commits.committed i).mp hi
  unfold ExecutionStatus.isCommitted at hcomm
  split at hcomm
  · next inc hst => exact ⟨inc, hst⟩
  · cases hcomm

theorem committed_written (hdel : ctx.NoDeltas)
    (hs : (parallelExecution worker value path ctx).Reachable s)
    (hst : s.scheduler.executionStatus i = .committed inc) :
    exists reads status, resultDeltas status = [] ∧
      Written s.memory (i, inc) reads (recordedResult status) ∧
      Ran ctx (Justified ctx s) i reads (.done status) := by
  rcases (mapLayout_of_reachable hs).written i inc
    (ExecutionStatus.stage_of_finished (.inr hst)) with
    ⟨reads, result, hwr⟩
  rcases (justified_of_reachable hdel hs).recorded i reads result
    hwr.inputs hwr.outputs with ⟨status, hres, hran⟩
  rcases hran with ⟨program, trace, hprog, hafter, htrace⟩
  subst hres
  exact ⟨reads, status, (hdel i program hprog).after hafter, hwr, program, trace, hprog, hafter,
    htrace⟩

theorem readableWrites_of_committed (hdel : ctx.NoDeltas)
    (hs : (parallelExecution worker value path ctx).Reachable s)
    (hi : i ≤ s.scheduler.commitIdx) (k : key) : ReadableWrites (s.cache.entry k) i := by
  intro _ _ hj hent
  rcases exists_committed (protocol_invariant hs) (lt_of_lt_of_le hj hi) with ⟨inc, hst⟩
  rcases committed_written hdel hs hst with ⟨_, _, hdels, hwr, _⟩
  rw [← resultDeltas_recordedResult] at hdels
  rcases hwr.entry hdels hent with ⟨hflag, v, hcell, _⟩
  exact ⟨hflag, inc, v, hcell⟩

theorem wrote_committed (hdel : ctx.NoDeltas)
    (hs : (parallelExecution worker value path ctx).Reachable s) {j : TxnIndex} {v' : value}
    {e : Entry value} (hj : j < s.scheduler.commitIdx) (hent : s.cache.entry k j = some e)
    (hcell : e.cell = .write inc v) (h : Wrote s k (j, inc) v') : v' = v := by
  have hinv := protocol_invariant hs
  rcases exists_committed hinv hj with ⟨_, hst⟩
  have hstage := ExecutionStatus.stage_of_finished (.inr hst)
  rcases h with hlt | ⟨w, _, htouches⟩ | ⟨e', hent', hcell'⟩
  · rcases committed_written hdel hs hst with ⟨_, _, hdels, hwr, _⟩
    rw [← resultDeltas_recordedResult] at hdels
    rcases hwr.entry hdels hent with ⟨_, _, hcell', _⟩
    cases hcell.symm.trans hcell'
    rw [hst] at hlt
    exact (lt_irrefl _ hlt).elim
  · exact (not_touches_of_written hinv hstage w htouches).elim
  · cases hent.symm.trans hent'
    cases hcell.symm.trans hcell'
    rfl

theorem answer_of_valid (hdel : ctx.NoDeltas)
    (hs : (parallelExecution worker value path ctx).Reachable s) (hi : i ≤ s.scheduler.commitIdx)
    {x : key × ViewResult} {r : ReadDescriptor key} (h : Justified ctx s x r)
    (hvalid : Valid ctx.codec s.cache i r) : x.2 = LatestView.getStateValueBTree ctx.baseView
      (fun k => latestWrite (s.cache.entry k) i) x.1 := by
  rcases x with ⟨_, _⟩
  rcases r with ⟨accessPath, _⟩
  rcases h with ⟨hpath, hkind⟩
  subst hpath
  have hread := (ReadDescriptor.validate_iff _ _).mp hvalid
  rw [MVHashMap.read_eq_scan] at hread
  rw [LatestView.getStateValueBTree]
  rcases scan_of_readableWrites ctx.codec (readableWrites_of_committed hdel hs hi accessPath) with
    ⟨hlatest, hscan⟩ | ⟨j, inc, v, hj, hlatest, hscan⟩
  · rw [hscan] at hread
    cases hread
    rw [hlatest]
    exact hkind
  · rw [hscan] at hread
    cases hread
    rcases hkind with ⟨_, hans, hwrote⟩
    rcases scan_eq_version ctx.codec hscan with ⟨_, hent, hcell⟩
    cases wrote_committed hdel hs (lt_of_lt_of_le hj hi) hent hcell hwrote
    rw [hlatest]
    exact hans

theorem run_of_committed (hdel : ctx.NoDeltas)
    (hs : (parallelExecution worker value path ctx).Reachable s) (hi : i < s.scheduler.commitIdx) :
    exists program status, ctx.program i false = some program ∧
      program.run (LatestView.getStateValueBTree ctx.baseView
        (fun k => latestWrite (s.cache.entry k) i)) = status ∧
      s.lastInputOutput.outputs i = some (recordedResult status) ∧
      insertWrites (fun k => latestWrite (s.cache.entry k) i) (resultWrites status) =
          fun k => latestWrite (s.cache.entry k) (i + 1) := by
  rcases exists_committed (protocol_invariant hs) hi with ⟨inc, hst⟩
  rcases committed_written hdel hs hst with
    ⟨reads, status, hdels, hwr, program, _, hprog, hafter, htrace⟩
  rcases (validity_of_reachable hs).committed i inc hst with ⟨_, _, hins, hvalid⟩
  rw [append_nil] at hins
  cases hwr.inputs.symm.trans hins
  rw [← resultDeltas_recordedResult] at hdels
  have hinsert := insertWrites_latestWrite hwr hdels
  rw [resultWrites_recordedResult] at hinsert
  refine ⟨program, status, hprog, ?_, hwr.outputs, hinsert⟩
  refine Program.run_of_after hafter fun x hx => ?_
  rcases mem_iff_get.mp hx with ⟨⟨n, hn⟩, hget⟩
  have hn' : n < reads.length := htrace.length_eq ▸ hn
  have hjustified := htrace.get hn hn'
  rw [hget] at hjustified
  exact answer_of_valid hdel hs (le_of_lt hi) hjustified
    (hvalid _ (get_mem reads ⟨n, hn'⟩))

/-- Over a committed suffix the sequential executor goes through the recorded outputs. -/
theorem sequentialOutputs_of_committed (hdel : ctx.NoDeltas)
    (hflag : forall txn idx, ctx.executeTransaction txn idx true =
      ctx.executeTransaction txn idx false)
    (hs : (parallelExecution worker value path ctx).Reachable s)
    (hcomm : s.scheduler.commitIdx = ctx.block.length) (rest : List txn)
    (i : TxnIndex) (hrest : ctx.block.drop i = rest) :
    sequentialOutputs ctx i rest (fun k => latestWrite (s.cache.entry k) i) =
      takeOutputs s.lastInputOutput.outputs (range' i rest.length) := by
  induction rest generalizing i with
  | nil => rfl
  | cons txn rest ih =>
    have hblock : ctx.block[i]? = some txn := by
      rw [← List.head?_drop, hrest]
      rfl
    have hi : i < s.scheduler.commitIdx := by
      rw [hcomm]
      exact (List.getElem?_eq_some_iff.mp hblock).choose
    rcases run_of_committed hdel hs hi with ⟨program, status, hprog, hrun, houtput, hinsert⟩
    have hdels : resultDeltas status = [] := hrun ▸ (hdel i program hprog).run _
    have hnext : ctx.block.drop (i + 1) = rest := by
      rw [← tail_drop, hrest]
      rfl
    have ih := ih (i + 1) hnext
    rw [BlockContext.program, hblock] at hprog
    cases hprog
    rw [sequentialOutputs, hflag, hrun, length_cons, range'_succ, takeOutputs, houtput]
    cases status with
    | success out =>
      have hdels : getDeltas out = [] := hdels
      simp only [recordedResult, hdels, length_nil, if_true]
      rw [← ih, ← hinsert]
      rfl
    | skipRest out =>
      have hdels : getDeltas out = [] := hdels
      simp only [recordedResult, hdels, length_nil, if_true]
    | abort e => rfl

/-- When the marker is set, the sequential executor goes through the recorded outputs. -/
theorem sequentialOutputs_of_done (hdel : ctx.NoDeltas)
    (hflag : forall txn idx, ctx.executeTransaction txn idx true =
      ctx.executeTransaction txn idx false)
    (hs : (parallelExecution worker value path ctx).Reachable s)
    (hdone : s.scheduler.doneMarker = true) :
    sequentialOutputs ctx 0 ctx.block (fun _ => none) =
      takeOutputs s.lastInputOutput.outputs (range ctx.block.length) := by
  rw [range_eq_range']
  exact sequentialOutputs_of_committed hdel hflag hs (commitIdx_of_done hs hdone) ctx.block 0 rfl

theorem exists_takeOutputs
    {outputs : TxnIndex -> Option (Task.ExecutionStatus output (Error error))}
    {count : Nat} {i : TxnIndex}
    (h : forall j, j < count -> exists out, outputs (i + j) = some (.success out)) :
    exists outs, takeOutputs outputs (range' i count) = .ok outs ∧ outs.length = count ∧
      forall j, j < count -> outputs (i + j) = (outs[j]?).map .success := by
  induction count generalizing i with
  | zero => exact ⟨[], rfl, rfl, fun j hj => (Nat.not_lt_zero j hj).elim⟩
  | succ count ih =>
    rcases h 0 (Nat.succ_pos count) with ⟨out, hout⟩
    have hnext (j : Nat) : i + 1 + j = i + (j + 1) :=
      Nat.succ_add_eq_add_succ i j
    rcases @ih (i + 1) (fun j hj => hnext j ▸ h (j + 1) (Nat.succ_lt_succ hj)) with
      ⟨outs, houts, hlen, houtputs⟩
    refine ⟨out :: outs, ?_, congrArg Nat.succ hlen, ?_⟩
    · rw [range'_succ, takeOutputs, ← Nat.add_zero i, hout]
      simp only [Nat.add_zero, houts]
      rfl
    · intro j hj
      cases j with
      | zero => exact hout
      | succ j =>
        rw [← hnext]
        exact houtputs j (Nat.lt_of_succ_lt_succ hj)

/-- When the marker is set, the recorded outputs are those that the sequential
executor computes. -/
theorem parallel_serializable (hwrites : ctx.WritesOnly)
    (hflag : forall txn idx, ctx.executeTransaction txn idx true =
      ctx.executeTransaction txn idx false)
    (hs : (parallelExecution worker value path ctx).Reachable s)
    (hdone : s.scheduler.doneMarker = true) :
    exists outs : List output, executeTransactionsSequential ctx =
        Outcome.ok (outs.map fun out => (out, [])) ∧
      outs.length = ctx.block.length ∧
      forall i, i < ctx.block.length -> s.lastInputOutput.outputs i =
        (outs[i]?).map Task.ExecutionStatus.success := by
  have hsuccess (i : TxnIndex) (hi : i < ctx.block.length) :
      exists out, s.lastInputOutput.outputs (0 + i) = some (.success out) := by
    rw [← commitIdx_of_done hs hdone] at hi
    rcases run_of_committed hwrites.noDeltas hs hi with ⟨program, _, hprog, hrun, houtput, _⟩
    rcases (hwrites i program hprog).run _ with ⟨out, hout, _⟩
    rw [Nat.zero_add, houtput, ← hrun, hout]
    exact ⟨out, rfl⟩
  rcases exists_takeOutputs hsuccess with ⟨outs, houts, hlength, houtputs⟩
  refine ⟨outs, ?_, hlength, fun i hi => ?_⟩
  · rw [executeTransactionsSequential, sequentialOutputs_of_done hwrites.noDeltas hflag hs hdone,
      range_eq_range', houts]
    show Outcome.ok _ = .ok _
    rw [resizeWith_of_length hlength]
  · rw [← houtputs i hi, Nat.zero_add]

end

theorem Chain.writesOnly : Chain.context.WritesOnly := by
  intro _ _ hprog
  refine Chain.always_of_program (fun k bytes => ?_) hprog
  exact ⟨_, rfl, rfl⟩

theorem parallel_serializable_chain : exists s : State Bool Chain.Key WriteOp Nat Chain.Output Unit,
    (parallelExecution Bool WriteOp Nat Chain.context).Reachable s ∧
    s.scheduler.doneMarker = true ∧
    exists outs : List Chain.Output, executeTransactionsSequential Chain.context =
        Outcome.ok (outs.map fun out => (out, [])) ∧
      outs.length = 3 ∧
      forall i, i < 3 -> s.lastInputOutput.outputs i =
        (outs[i]?).map Task.ExecutionStatus.success := by
  have hs := (Chain.execution_after Chain.finishes).reachable
  have hdone : ((Chain.after Chain.untilFinished).get
    Chain.finishes).1.scheduler.doneMarker = true := by
    decide +kernel
  exact ⟨_, hs, hdone, parallel_serializable Chain.writesOnly (fun _ _ => rfl) hs hdone⟩

end OpenLibra.BlockExecutor
