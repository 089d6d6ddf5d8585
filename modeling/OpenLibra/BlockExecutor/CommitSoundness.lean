import OpenLibra.BlockExecutor.Recordings

/-!
# Commits are sound

A read that has passed stays valid, unless a transaction below is being aborted or has written a
new key; then the validation is in doubt.
-/

namespace OpenLibra.BlockExecutor

open Aggregation Transition List Function

def Valid [TransactionWrite value] (codec : ValueCodec)
    (cache : MVHashMap key value) (i : TxnIndex) (r : ReadDescriptor key) :
    Prop :=
  r.validate (cache.read codec r.accessPath i) = true

section

variable {key value : Type} [tw : TransactionWrite value] {codec : ValueCodec}
  {cache cache' : MVHashMap key value} {i : TxnIndex} {r : ReadDescriptor key}

theorem Valid.not_dependency (h : Valid codec cache i r) (d : TxnIndex) :
    cache.read codec r.accessPath i ≠ .err (.dependency d) := by
  intro hread
  rw [Valid, hread] at h
  cases h

theorem Valid.congr (h : Valid codec cache i r)
    (hread : cache'.read codec r.accessPath i = cache.read codec r.accessPath i) :
    Valid codec cache' i r := by
  rw [Valid, hread]
  exact h

theorem Valid.update [DecidableEq key] {k : key} {j : TxnIndex} {e'} (h : Valid codec cache i r)
    (hent : forall k' j', cache'.entry k' j' = if k' = k ∧ j' = j then e' else cache.entry k' j')
    (hsafe : i ≤ j ∨ exists e, cache.entry k j = some e ∧ e.flag = .estimate) :
    Valid codec cache' i r := by
  refine h.congr ?_
  by_cases hk : r.accessPath = k
  · subst hk
    rcases hsafe with hle | ⟨_, he, hflag⟩
    · refine MVHashMap.read_congr codec (fun j' hj' => ?_)
      rw [hent, if_neg]
      exact fun h => Nat.not_le_of_lt hj' (h.right ▸ hle)
    · have hother (j' : TxnIndex) : cache'.entry r.accessPath j' =
          if j' = j then e' else cache.entry r.accessPath j' := by
        rw [hent]
        simp
      exact MVHashMap.read_update_estimate codec he hflag hother h.not_dependency
  · refine MVHashMap.read_congr codec (fun j' _ => ?_)
    rw [hent, if_neg]
    exact fun h => hk h.left

end

/-!
# Accesses and valid reads
-/

section

variable {worker txn key value path output error : Type} [dk : DecidableEq key]
  [dp : DecidableEq path] [tw : TransactionWrite value] [mk : ModulePath key path]
  [tx : TransactionOutput output key value] {ctx : BlockContext txn key output error}
  {s : State worker key value path output error} {w : worker}
  {recorded : List (Record key output error)} {memory : Memory key value path output error}
  {pc : Pc key value output error} {panic : Option Panic} {cache : MVHashMap key value}
  {version : Version} {result : Task.ExecutionStatus output (Error error)}
  {writes : List (key × value)} {deltas : List (key × DeltaOp)} {i : TxnIndex}
  {r : ReadDescriptor key}

omit dk dp tw mk in
theorem Applying.estimate {prev : List key} {k : key}
    (h : Applying cache version result prev writes deltas) (hk : k ∈ prev) :
    exists e, cache.entry k version.1 = some e ∧ e.flag = .estimate := by
  rcases h.applied with ⟨_, _, _, _, _, _, hlay⟩
  rcases hlay.ofEstimate k hk with ⟨e, he, hflag, _⟩
  exact ⟨e, he, hflag⟩

theorem Valid.put {cache'} {prev : List key} {k : key} {e'} {codec} (h : Valid codec cache i r)
    (happlying : Applying cache version result prev writes deltas) (hent : forall k' j,
      cache'.entry k' j = if k' = k ∧ j = version.1 then e' else cache.entry k' j) :
    Valid codec cache' i r ∨ (version.1 < i ∧ k ∉ prev) := by
  by_cases hle : i ≤ version.1
  · exact .inl (h.update hent (.inl hle))
  · by_cases hk : k ∈ prev
    · exact .inl (h.update hent (.inr (happlying.estimate hk)))
    · exact .inr ⟨Nat.lt_of_not_le hle, hk⟩

theorem valid_access (hlay : MapLayout s) (halive : s.panicked w = none)
    (hacc : Access ctx s w recorded memory pc panic) (h : Valid ctx.codec s.cache i r) :
    Valid ctx.codec memory.cache i r ∨ (exists j, j < i ∧ pc.role.wroteOutside = some j) ∨
      exists j inc, j < i ∧ pc.role = .aborting j inc := by
  have hphase := hlay.phase w
  cases hacc with
  | @write version _ _ _ _ k v _ _ hpc =>
    rw [hpc] at hphase
    rcases h.put (hphase halive)
      (fun k' j => s.cache.entry_addWrite k k' version v j) with
      hvalid | ⟨hlt, hk⟩
    · exact .inl hvalid
    · refine .inr (.inl ⟨version.1, hlt, ?_⟩)
      simp [hk, Pc.role, Role.wroteOutside]
  | @delta version _ _ _ _ k op _ hpc =>
    rw [hpc] at hphase
    rcases h.put (hphase halive)
      (fun k' j => s.cache.entry_addDelta k k' version.1 j op) with
      hvalid | ⟨hlt, hk⟩
    · exact .inl hvalid
    · refine .inr (.inl ⟨version.1, hlt, ?_⟩)
      simp [hk, Pc.role, Role.wroteOutside]
  | @delete version _ _ _ _ k _ _ hpc hpick hdele =>
    rw [hpc] at hphase
    cases MVHashMap.delete_eq_ok hdele
    exact .inl (h.update (fun k' j => s.cache.entry_setEntry k k' version.1 j none)
      (.inr ((hphase halive).estimate (mem_of_getElem? hpick))))
  | @markEstimate version _ k _ _ hpc _ hmark =>
    rcases MVHashMap.markEstimate_eq_ok hmark with ⟨_, _, hcache⟩
    subst hcache
    by_cases hle : i ≤ version.1
    · exact .inl (h.update (fun k' j => s.cache.entry_setEntry k k' version.1 j _) (.inl hle))
    · exact .inr (.inr ⟨version.1, version.2, Nat.lt_of_not_le hle, rfl⟩)
  | _ => exact .inl h

theorem validate_access (hacc : Access ctx s w recorded memory pc panic) {wave : Wave} {remaining}
    (hpc : pc = .validate version wave remaining) :
    s.pc w = .validate version wave remaining ∨ (s.pc w = .loadReadSet version wave ∧
        s.lastInputOutput.readSet version.1 = some remaining) ∨
      (exists r, s.pc w = .validate version wave (r :: remaining) ∧
        Valid ctx.codec s.cache version.1 r) ∨
      (s.pc w = .tryAbort version wave ∧ remaining = [] ∧ s.scheduler.executionStatus version.1 ≠
          .executed version.2) := by
  cases hacc with
  | plain _ hplain =>
    rw [hpc] at hplain
    cases hplain
  | stay | panic => exact .inl hpc
  | loadReadSet hbef hreads =>
    cases hpc
    exact .inr (.inl ⟨hbef, hreads⟩)
  | pass hbef hvalid =>
    cases hpc
    exact .inr (.inr (.inl ⟨_, hbef, hvalid⟩))
  | loseAbort hbef hst =>
    cases hpc
    exact .inr (.inr (.inr ⟨hbef, rfl, hst⟩))
  | _ => cases hpc

theorem validated_access (hacc : Access ctx s w recorded memory pc panic)
    {wave : Wave} (h : memory.validated i = some wave) :
    s.memory.validated i = some wave ∨ exists inc, s.pc w = .validate (i, inc) wave [] := by
  cases hacc with
  | @finishValidation version wave' hpc =>
    by_cases hi : i = version.1
    · subst hi
      dsimp only at h
      rw [update_self] at h
      rcases ValidationStatus.validated_eq_some h with hbef | hwave
      · exact .inl hbef
      · subst hwave
        exact .inr ⟨version.2, hpc⟩
    · dsimp only at h
      rw [update_of_ne hi] at h
      exact .inl h
  | _ => exact .inl h

end

section

variable {worker txn key value path output error : Type} [dw : DecidableEq worker]
  [dk : DecidableEq key] [dp : DecidableEq path] [tw : TransactionWrite value]
  [mk : ModulePath key path] [tx : TransactionOutput output key value]

def Passed (ctx : BlockContext txn key output error) (s : State worker key value path output error)
    (version : Version) (remaining : List (ReadDescriptor key)) : Prop :=
  (s.scheduler.executionStatus version.1).finished version.2 ∧
    exists passed, s.lastInputOutput.inputs version.1 = some (passed ++ remaining) ∧
      forall r, r ∈ passed -> Valid ctx.codec s.cache version.1 r

structure Validity (ctx : BlockContext txn key output error)
    (s : State worker key value path output error) : Prop where
  validating : forall w version wave remaining, s.pc w = .validate version wave remaining ->
    s.protocol.Doubt version.1 wave ∨ Passed ctx s version remaining
  validated : forall i wave, s.memory.validated i = some wave ->
    s.protocol.Doubt i wave ∨ exists inc, Passed ctx s (i, inc) []
  committed : forall i inc, s.scheduler.executionStatus i = .committed inc ->
    Passed ctx s (i, inc) []

variable {ctx : BlockContext txn key output error} {s s' : State worker key value path output error}
  {w : worker} {events : List (Event key output error)} {pc : Pc key value output error}
  {panic : Option Panic}

omit dw dk dp mk tx in
theorem validity_initial (numTxns : Nat) : Validity ctx
    (State.initial numTxns : State worker key value path output error) where
  validating := by simp [State.initial]
  validated := by simp [State.initial, State.memory, Scheduler.new, ValidationStatus.new]
  committed := by simp [State.initial, Scheduler.new]

/-!
# Preservation
-/

variable {i : TxnIndex} {wave : Wave} {inc : Incarnation} {version : Version}
  {remaining reads : List (ReadDescriptor key)} {labels : List (Event key output error)}
  {result : Task.ExecutionStatus output (Error error)}

omit dk dp tw mk tx in
theorem doubt_refines (hinv : Protocol.Invariant s.protocol) (href : Refines s events s')
    (hevid : s.protocol.Evidence i wave) (h : s.protocol.Doubt i wave) :
    s'.protocol.Doubt i wave := by
  rcases href with hstep | ⟨hsame, _⟩
  · exact Protocol.doubt_step hinv.waves hstep hevid h
  · rw [hsame]
    exact h

omit dk dp tw mk tx in
theorem finished_refines (href : Refines s events s')
    (h : (s.scheduler.executionStatus i).finished inc) :
    (s'.scheduler.executionStatus i).finished inc ∨ s'.protocol.AbortPending i := by
  rcases href with hstep | ⟨hsame, _⟩
  · exact Protocol.finished_step hstep h
  · refine .inl ?_
    show (s'.protocol.scheduler.executionStatus i).finished inc
    rw [hsame]
    exact h

def Unsettled (s : State worker key value path output error) (i : TxnIndex) : Prop :=
  (exists j, j ≤ i ∧ s.protocol.AbortPending j) ∨ exists j, j < i ∧ s.protocol.WritesPending j

theorem passed_step (hinv : Protocol.Invariant s.protocol) (hinv' : Protocol.Invariant s'.protocol)
    (hlay : MapLayout s) (href : Refines s events s') (hacc : Accessed ctx s w events s' pc panic)
    (h : Passed ctx s version remaining) :
    Unsettled s' version.1 ∨ Passed ctx s' version remaining := by
  rcases h with ⟨hfin, passed, hins, hvalid⟩
  by_cases hunset : Unsettled s' version.1
  · exact .inl hunset
  · refine .inr ⟨?_, passed, ?_, fun r hr => ?_⟩
    · rcases finished_refines href hfin with hfin | hpend
      · exact hfin
      · exact (hunset (.inl ⟨_, le_refl _, hpend⟩)).elim
    · have huntouched := not_touches_of_written hinv (ExecutionStatus.stage_of_finished hfin) w
      exact (sameAt_access hacc.access huntouched).inputs.trans hins
    · have hrole : s'.protocol.role w = pc.role :=
        State.protocol_role (by rw [hacc.pc, update_self])
      rcases valid_access hlay hacc.alive hacc.access
        (hvalid r hr) with hvalid | ⟨j, hj, hwrote⟩ | ⟨j, inc, hj, habort⟩
      · exact hvalid
      · exact (hunset (.inr ⟨j, hj, w, by rw [hrole]; exact hwrote⟩)).elim
      · have hst := hinv'.owners.aborting w j inc (hrole.trans habort)
        exact (hunset (.inl ⟨j, le_of_lt hj, .inl ⟨inc, hst⟩⟩)).elim

omit dk dp tw mk tx dw in
theorem Unsettled.doubt (h : Unsettled s i) (wave : Wave) : s.protocol.Doubt i wave :=
  .inr h

omit dk dp tw mk tx dw in
theorem settled_of_committed (hinv : Protocol.Invariant s.protocol)
    (hi : (s.scheduler.executionStatus i).isCommitted = true) : ¬ Unsettled s i := by
  have hbelow {j : TxnIndex} (hj : j ≤ i) :
    (s.protocol.scheduler.executionStatus j).isCommitted = true :=
    (hinv.commits.committed j).mp (lt_of_le_of_lt hj ((hinv.commits.committed i).mpr hi))
  rintro (⟨j, hj, hpend⟩ | ⟨j, hj, hpend⟩)
  · exact Protocol.not_abortPending_of_committed hinv.owners (hbelow hj) hpend
  · exact Protocol.not_writesPending_of_committed hinv.owners (hbelow (le_of_lt hj)) hpend

theorem doubt_or_passed_step (hinv : Protocol.Invariant s.protocol)
    (hinv' : Protocol.Invariant s'.protocol) (hlay : MapLayout s) (href : Refines s events s')
    (hacc : Accessed ctx s w events s' pc panic) (hevid : s.protocol.Evidence version.1 wave)
    (h : s.protocol.Doubt version.1 wave ∨ Passed ctx s version remaining) :
    s'.protocol.Doubt version.1 wave ∨ Passed ctx s' version remaining := by
  rcases h with hdoubt | hpassed
  · exact .inl (doubt_refines hinv href hevid hdoubt)
  · exact (passed_step hinv hinv' hlay href hacc hpassed).imp_left (fun hunset => hunset.doubt wave)

theorem validating_before (hvalidations : Protocol.Validations s.protocol) (h : Validity ctx s)
    (hacc : Accessed ctx s w events s' pc panic) (hpc : pc = .validate version wave remaining) :
    s.protocol.Evidence version.1 wave ∧ (s.protocol.Doubt version.1 wave ∨
        Passed ctx s version remaining) := by
  have hevid {pc : Pc key value output error} (hpc : s.pc w = pc)
    (hrole : pc.role = .validating version.1 version.2 wave) :
    s.protocol.Evidence version.1 wave :=
    .validating ((State.protocol_role hpc).trans hrole)
  have hcur {pc : Pc key value output error} (hpc : s.pc w = pc)
    (hrole : pc.role = .validating version.1 version.2 wave) :=
    hvalidations.current w version.1 version.2 wave ((State.protocol_role hpc).trans hrole)
  rcases validate_access hacc.access hpc with hbef |
    ⟨hbef, hreads⟩ | ⟨r, hbef, hvalid⟩ | ⟨hbef, hnil, hst⟩
  · exact ⟨hevid hbef rfl, h.validating w version wave remaining hbef⟩
  · refine ⟨hevid hbef rfl, (hcur hbef rfl).imp_right fun hfin => ?_⟩
    exact ⟨hfin, [], hreads, fun r hr => (not_mem_nil hr).elim⟩
  · refine ⟨hevid hbef rfl, (h.validating w version wave _ hbef).imp_right ?_⟩
    rintro ⟨hfin, passed, hins, hpassed⟩
    refine ⟨hfin, passed ++ [r], by simpa using hins, ?_⟩
    intro r' hr'
    rcases mem_append.mp hr' with hr' | hr'
    · exact hpassed r' hr'
    · rw [mem_singleton.mp hr']
      exact hvalid
  · subst hnil
    refine ⟨hevid hbef rfl, (hcur hbef rfl).imp_right ?_⟩
    rintro (hexec | hcomm)
    · exact (hst hexec).elim
    · exact h.committed version.1 version.2 hcomm

theorem validity_validating_step (hinv : Protocol.Invariant s.protocol)
    (hinv' : Protocol.Invariant s'.protocol) (hvalidations : Protocol.Validations s.protocol)
    (hlay : MapLayout s) (h : Validity ctx s) (href : Refines s events s')
    (hacc : Accessed ctx s w events s' pc panic) (w' : worker) (version : Version) (wave : Wave)
    (remaining : List (ReadDescriptor key)) (hpc : s'.pc w' = .validate version wave remaining) :
    s'.protocol.Doubt version.1 wave ∨ Passed ctx s' version remaining := by
  rw [hacc.pc] at hpc
  by_cases hw : w' = w
  · subst hw
    rw [update_self] at hpc
    rcases validating_before hvalidations h hacc hpc with ⟨hevid, hbef⟩
    exact doubt_or_passed_step hinv hinv' hlay href hacc hevid hbef
  · rw [update_of_ne hw] at hpc
    exact doubt_or_passed_step hinv hinv' hlay href hacc (.validating (State.protocol_role hpc))
      (h.validating w' version wave remaining hpc)

theorem validity_validated_step (hinv : Protocol.Invariant s.protocol)
    (hinv' : Protocol.Invariant s'.protocol) (hlay : MapLayout s) (h : Validity ctx s)
    (href : Refines s events s') (hacc : Accessed ctx s w events s' pc panic) (i : TxnIndex)
    (wave : Wave) (hwave : s'.memory.validated i = some wave) :
    s'.protocol.Doubt i wave ∨ exists inc, Passed ctx s' (i, inc) [] := by
  have hbef : s.protocol.Evidence i wave ∧
    (s.protocol.Doubt i wave ∨ exists inc, Passed ctx s (i, inc) []) := by
    rcases validated_access hacc.access hwave with hwave | ⟨inc, hpc⟩
    · exact ⟨.validated hwave, h.validated i wave hwave⟩
    · exact ⟨.validating (State.protocol_role hpc),
        (h.validating w (i, inc) wave [] hpc).imp_right fun hpassed =>
          ⟨inc, hpassed⟩⟩
  rcases hbef with ⟨hevid, hdoubt | ⟨inc, hpassed⟩⟩
  · exact .inl (doubt_refines hinv href hevid hdoubt)
  · refine (passed_step hinv hinv' hlay href hacc hpassed).imp (fun hunset => hunset.doubt wave) ?_
    exact fun hpassed => ⟨inc, hpassed⟩

omit dk dp mk tx in
theorem passed_of_commit (hinv : Protocol.Invariant s.protocol) (h : Validity ctx s) {labels}
    (hstep : Protocol.Step s.protocol labels s'.protocol)
    (hbef : (s.scheduler.executionStatus i).isCommitted = false)
    (hafter : (s'.scheduler.executionStatus i).isCommitted = true) :
    exists inc, Passed ctx s (i, inc) [] := by
  rcases Protocol.commit_of_step hstep hbef hafter with
    ⟨hidx, hlock, _, wave, hst, hwave, hcommit, htrig, _⟩
  subst hidx
  rcases h.validated _ wave hwave with hdoubt | hpassed
  · exact (Protocol.not_doubt_of_commit hinv.locks hinv.owners hinv.commits
      hlock hst hcommit htrig hdoubt).elim
  · exact hpassed

theorem validity_committed_step (hinv : Protocol.Invariant s.protocol)
    (hinv' : Protocol.Invariant s'.protocol) (hlay : MapLayout s) (h : Validity ctx s)
    (href : Refines s events s') (hacc : Accessed ctx s w events s' pc panic) (i : TxnIndex)
    (inc : Incarnation) (hst : s'.scheduler.executionStatus i = .committed inc) :
    Passed ctx s' (i, inc) [] := by
  have hcomm : (s'.scheduler.executionStatus i).isCommitted = true := by
    rw [hst]
    rfl
  have hbef : exists inc, Passed ctx s (i, inc) [] := by
    cases hi : (s.scheduler.executionStatus i).isCommitted with
    | true =>
      unfold ExecutionStatus.isCommitted at hi
      split at hi
      · next inc' hst' => exact ⟨inc', h.committed i inc' hst'⟩
      · cases hi
    | false =>
      rcases href with hstep | ⟨hsame, _⟩
      · exact passed_of_commit hinv h hstep hi hcomm
      · have hst' : s'.scheduler.executionStatus i = s.scheduler.executionStatus i :=
          congrArg (fun p => p.scheduler.executionStatus i) hsame
        rw [hst', hi] at hcomm
        cases hcomm
  rcases hbef with ⟨_, hpassed⟩
  rcases passed_step hinv hinv' hlay href hacc hpassed with
    hunset | hpassed
  · exact (settled_of_committed hinv' hcomm hunset).elim
  · rcases hpassed.left with h | h
    · cases hst.symm.trans h
    · cases hst.symm.trans h
      exact hpassed

theorem validity_of_reachable (hs : (parallelExecution worker value path ctx).Reachable s) :
    Validity ctx s := by
  refine TransitionSystem.Reachable.invariant ?_ ?_ hs
  · intro s hinit
    rw [hinit]
    exact validity_initial _
  · intro _ _ s' hs h hnext
    have hs' : (parallelExecution worker value path ctx).Reachable s' := by
      rcases hs with ⟨_, hs⟩
      exact (hs.step hnext).reachable
    rcases hnext with ⟨_, _, hstep⟩
    rcases access_of_step hstep with ⟨_, _, hacc⟩
    have hinv := protocol_invariant hs
    have hinv' := protocol_invariant hs'
    have hlay := mapLayout_of_reachable hs
    have href := refines_of_reachable hs hstep
    exact ⟨validity_validating_step hinv hinv' (protocol_validations hs) hlay h href hacc,
      validity_validated_step hinv hinv' hlay h href hacc,
      validity_committed_step hinv hinv' hlay h href hacc⟩

/-!
# The moment of a commit
-/

structure CommitSound (ctx : BlockContext txn key output error)
    (labels : List (Event key output error))
    (s : State worker key value path output error) (version : Version) :
    Prop where
  below : forall j, j < version.1 -> (s.scheduler.executionStatus j).isCommitted = true
  recorded : exists reads result, .recorded version reads result ∈ labels
  valid : forall reads result, .recorded version reads result ∈ labels ->
    forall r, r ∈ reads -> readKind (s.cache.read ctx.codec r.accessPath version.1) = some r.kind
  wave : exists wave, (s.scheduler.validationStatus version.1).maybeMaxValidatedWave = some wave ∧
    (s.scheduler.validationStatus version.1).requiredWave ≤ wave ∧
    forall j, j ≤ version.1 -> (s.scheduler.validationStatus j).maxTriggeredWave ≤ wave

omit dw dk dp tw mk tx in
theorem mem_records : ⟨version, reads, result⟩ ∈ records labels <->
    .recorded version reads result ∈ labels := by
  constructor
  · intro hmem
    rcases mem_filterMap.mp hmem with ⟨event, hevent, hrecording⟩
    cases event with
    | recorded =>
      cases hrecording
      exact hevent
    | _ => cases hrecording
  · intro hevent
    exact mem_filterMap.mpr ⟨_, hevent, rfl⟩

theorem inputs_of_recorded (hs : (parallelExecution worker value path ctx).Execution labels s)
    (hst : s.scheduler.executionStatus i = .executed inc)
    (hrec : .recorded (i, inc) reads result ∈ labels) :
    s.lastInputOutput.inputs i = some reads := by
  rcases (recordings_of_execution hs).past _ (mem_records.mpr hrec) with
    hlt | ⟨_, hins, _⟩
  · rw [hst] at hlt
    exact (lt_irrefl _ hlt).elim
  · exact hins

/-- A version is committed only after everything below it, and only if all its
reads are valid at that moment. -/
theorem commit_sound {labels events : List (Event key output error)}
    (hs : (parallelExecution worker value path ctx).Execution labels s)
    (hstep : (parallelExecution worker value path ctx).step s events s') {i : TxnIndex}
    {inc : Incarnation} (hbefore : s.scheduler.executionStatus i = ExecutionStatus.executed inc)
    (hafter : s'.scheduler.executionStatus i = ExecutionStatus.committed inc) :
    CommitSound ctx labels s (i, inc) := by
  have hinv := protocol_invariant hs.reachable
  rcases hstep with ⟨_, _, hstep⟩
  rcases refines_of_reachable hs.reachable hstep with hstep | ⟨hsame, _⟩
  · have hbefore' : (s.scheduler.executionStatus i).isCommitted = false := by
      rw [hbefore]
      rfl
    have hafter' : (s'.scheduler.executionStatus i).isCommitted = true := by
      rw [hafter]
      rfl
    rcases Protocol.commit_of_step hstep hbefore' hafter' with
      ⟨hidx, _, _, wave, hstatus, hwave, hcommit, htriggered, hrequired⟩
    constructor
    · intro j hj
      exact (hinv.commits.committed j).mp (hidx ▸ hj)
    · rcases (recordings_of_execution hs).present i inc
        (Or.inl (congrArg ExecutionStatus.stage hbefore)) with
        ⟨⟨version, reads, result⟩, hrecord, hversion⟩
      cases hversion
      exact ⟨reads, result, mem_records.mp hrecord⟩
    · intro _ _ hrecord r hr
      have hinputs := inputs_of_recorded hs hbefore hrecord
      rcases passed_of_commit hinv (validity_of_reachable hs.reachable) hstep
        hbefore' hafter' with ⟨_, _, passed, hpassed, hvalid⟩
      rw [List.append_nil] at hpassed
      cases hinputs.symm.trans hpassed
      exact (r.validate_iff _).mp (hvalid r hr)
    · refine ⟨wave, hwave, hrequired, fun j hj => ?_⟩
      rcases Nat.lt_or_eq_of_le hj with hj | hj
      · exact Nat.le_trans (hinv.commits.swept j (hidx ▸ hj)) hcommit
      · rw [hj]
        exact htriggered
  · have hstatus : s'.scheduler.executionStatus i = s.scheduler.executionStatus i :=
      congrArg (fun p => p.scheduler.executionStatus i) hsame
    rw [hstatus, hbefore] at hafter
    cases hafter

/-- Once a transaction is committed, no interleaving changes what it has recorded and written, and
its reads stay valid. -/
theorem committed_final {past} (hs : (parallelExecution worker value path ctx).Execution past s)
    (hi : s.scheduler.executionStatus i = ExecutionStatus.committed inc)
    (hrun : (parallelExecution worker value path ctx).Run s labels s') :
    SameAt s.memory s'.memory i ∧ Passed ctx s' (i, inc) [] := by
  have hcomm {more t} (h : (parallelExecution worker value path ctx).Run s more t) :
    t.scheduler.executionStatus i = .committed inc :=
    (Protocol.committed_run ((refinement worker value path ctx).run hs.reachable h)
      (congrArg ExecutionStatus.isCommitted hi)).1.trans hi
  refine ⟨?_, (validity_of_reachable (hs.run hrun).reachable).committed i inc (hcomm hrun)⟩
  induction hrun with
  | refl => exact ⟨fun _ => rfl, rfl, rfl⟩
  | snoc run step ih =>
    rcases step with ⟨w, _, hstep⟩
    rcases access_of_step hstep with ⟨_, _, hacc⟩
    have hstage := congrArg ExecutionStatus.stage (hcomm run)
    -- No worker touches a committed transaction.
    have hsame := sameAt_access hacc.access
      (not_touches_of_written (protocol_invariant (hs.run run).reachable) hstage w)
    exact ⟨fun k => (hsame.entry k).trans (ih.entry k), hsame.inputs.trans ih.inputs,
      hsame.outputs.trans ih.outputs⟩

end

theorem Chain.commits : (step Chain.context false ⟨true, 0⟩
    ((Chain.after Chain.untilRevalidated).get Chain.revalidates).1).isSome = true := by
  decide +kernel

theorem commit_sound_chain : exists labels,
    exists s : State Bool Chain.Key WriteOp Nat Chain.Output Unit,
      (parallelExecution Bool WriteOp Nat Chain.context).Execution labels s ∧
      s.lastInputOutput.readSet 1 =
        some [{ accessPath := ⟨0, false⟩, kind := ReadKind.version 0 0 }] ∧
      CommitSound Chain.context labels s (1, 1) := by
  have hs := Chain.execution_after Chain.revalidates
  refine ⟨_, _, hs, by decide +kernel, ?_⟩
  exact commit_sound hs (step_of_isSome Chain.context Chain.commits)
    (by decide +kernel) (by decide +kernel)

/-- The first transaction is committed when the second one is about to be. -/
theorem committed_final_chain : exists past labels,
    exists s s' : State Bool Chain.Key WriteOp Nat Chain.Output Unit,
      (parallelExecution Bool WriteOp Nat Chain.context).Execution past s ∧
      s.scheduler.executionStatus 0 = ExecutionStatus.committed 0 ∧
      (parallelExecution Bool WriteOp Nat Chain.context).Run s labels s' ∧
      SameAt s.memory s'.memory 0 ∧ Passed Chain.context s' (0, 0) [] := by
  have hs := Chain.execution_after Chain.revalidates
  have hcommitted : ((Chain.after Chain.untilRevalidated).get
      Chain.revalidates).1.scheduler.executionStatus 0 = .committed 0 := by
    decide +kernel
  have hrun := TransitionSystem.Run.snoc (.refl _) (step_of_isSome Chain.context Chain.commits)
  exact ⟨_, _, _, _, hs, hcommitted, hrun, committed_final hs hcommitted hrun⟩

end OpenLibra.BlockExecutor
