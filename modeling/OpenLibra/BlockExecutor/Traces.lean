import OpenLibra.BlockExecutor.Accesses

/-!
# Traces of executions

A relation between answers and captured descriptors that holds when a read is made, and is
stable afterwards, holds along the whole trace.
-/

namespace OpenLibra.BlockExecutor

open Transition Function

inductive Program.After (p : Program key output error) :
    List (key × ViewResult) -> Program key output error -> Prop where
  | nil : After p [] p
  | snoc {trace : List (key × ViewResult)} {k : key}
      {next : ViewResult -> Program key output error}
      (h : After p trace (.read k next)) (answer : ViewResult) :
      After p (trace ++ [(k, answer)]) (next answer)

theorem Program.Always.after {p q : Program key output error}
    {kind : Task.ExecutionStatus output error -> Prop} {trace : List (key × ViewResult)}
    (h : p.Always kind) (hafter : p.After trace q) : q.Always kind := by
  induction hafter with
  | nil => exact h
  | snoc _ answer ih => exact ih answer

/-- Transaction `i` has got to a program by the given reads. -/
def Ran (ctx : BlockContext txn key output error)
    (justified : key × ViewResult -> ReadDescriptor key -> Prop) (i : TxnIndex)
    (reads : List (ReadDescriptor key)) (program : Program key output error) : Prop :=
  exists p trace, ctx.program i false = some p ∧ p.After trace program ∧
    List.Forall₂ justified trace reads

section

variable {txn key output error : Type}
variable {ctx : BlockContext txn key output error}
variable {justified justified' : key × ViewResult -> ReadDescriptor key -> Prop}
variable {i : TxnIndex} {reads : List (ReadDescriptor key)} {program : Program key output error}

theorem Ran.start (h : ctx.program i false = some program) : Ran ctx justified i [] program :=
  ⟨program, [], h, .nil, List.Forall₂.nil⟩

theorem Ran.mono (hmono : forall x r, justified x r -> justified' x r)
    (h : Ran ctx justified i reads program) : Ran ctx justified' i reads program := by
  rcases h with ⟨p, trace, hp, hafter, hreads⟩
  exact ⟨p, trace, hp, hafter, hreads.imp hmono⟩

theorem Ran.read {k : key} {next} {answer} {descriptor}
    (h : Ran ctx justified i reads (.read k next)) (hans : justified (k, answer) descriptor) :
    Ran ctx justified i (reads ++ [descriptor]) (next answer) := by
  rcases h with ⟨p, trace, hp, hafter, hreads⟩
  refine ⟨p, trace ++ [(k, answer)], hp, .snoc hafter answer, ?_⟩
  exact List.rel_append hreads (List.Forall₂.cons hans List.Forall₂.nil)

def Recorded (ctx : BlockContext txn key output error)
    (justified : key × ViewResult -> ReadDescriptor key -> Prop) (i : TxnIndex)
    (reads : List (ReadDescriptor key)) (result : Task.ExecutionStatus output (Error error)) :
    Prop :=
  exists status, result = recordedResult status ∧ Ran ctx justified i reads (.done status)

theorem Recorded.mono {result} (hmono : forall x r, justified x r -> justified' x r)
    (h : Recorded ctx justified i reads result) : Recorded ctx justified' i reads result := by
  rcases h with ⟨status, hres, hran⟩
  exact ⟨status, hres, hran.mono hmono⟩

end

section

variable {worker txn key value path output error : Type} [dk : DecidableEq key]
  [dp : DecidableEq path] [tw : TransactionWrite value] [mk : ModulePath key path]
  [tx : TransactionOutput output key value] {ctx : BlockContext txn key output error}
  {s : State worker key value path output error} {w : worker}
  {recorded : List (Record key output error)} {memory : Memory key value path output error}
  {pc : Pc key value output error} {panic : Option Panic}

omit dk dp tw mk tx in
theorem Pc.interrupted_of_plain (h : pc.plain = true) : pc.interrupted = none := by
  cases pc <;> first | rfl | cases h

variable {version : Version} {reads : List (ReadDescriptor key)}

theorem interrupted_access (hacc : Access ctx s w recorded memory pc panic) {program}
    (hpc : pc.interrupted = some (version, program, reads)) :
    (s.pc w).interrupted = some (version, program, reads) ∨
      (ctx.program version.1 false = some program ∧ reads = []) ∨
      exists k next before descriptor answer, exists result : ReadResult value,
        (s.pc w).interrupted = some (version, .read k next, before) ∧
        capture k (s.cache.read ctx.codec k version.1) = .captured descriptor result ∧
        viewAnswer (LatestView.getStateValueMv ctx.codec ctx.baseView k result) = some answer ∧
        program = next answer ∧ reads = before ++ [descriptor] := by
  cases hacc with
  | plain _ hpc' =>
    rw [Pc.interrupted_of_plain hpc'] at hpc
    cases hpc
  | stay | panic => exact .inl hpc
  | start hpc' hprog =>
    cases hpc
    exact .inr (Or.inl ⟨hprog, rfl⟩)
  | read hpc' hcapt hans =>
    cases hpc
    exact .inr (Or.inr ⟨_, _, _, _, _, _, by rw [hpc']; rfl, hcapt, hans, rfl, rfl⟩)
  | depend hpc' | lock hpc' | suspend hpc' =>
    cases hpc
    exact .inl (by rw [hpc']; rfl)
  | retry hpc' =>
    cases hpc
    exact .inl hpc'
  | _ => cases hpc

theorem applying_access (hacc : Access ctx s w recorded memory pc panic) {result} {prev : List key}
    {outside : Bool} {writes} {deltas}
    (hpc : pc = .applyUpdates version result reads prev outside writes deltas) :
    (exists status, result = recordedResult status ∧
      s.pc w = .running version (.done status) reads) ∨
      exists prev outside writes deltas, s.pc w =
        .applyUpdates version result reads prev outside writes deltas := by
  cases hacc with
  | plain _ hpc' =>
    rw [hpc] at hpc'
    cases hpc'
  | stay | panic => exact .inr ⟨_, _, _, _, hpc⟩
  | finish hpc' =>
    cases hpc
    exact .inl ⟨_, rfl, hpc'⟩
  | write hpc' | delta hpc' | delete hpc' =>
    cases hpc
    exact .inr ⟨_, _, _, _, hpc'⟩
  | _ => cases hpc

theorem lastInputOutput_access (hacc : Access ctx s w recorded memory pc panic) (i : TxnIndex) :
    (memory.lastInputOutput.inputs i = s.lastInputOutput.inputs i ∧
      memory.lastInputOutput.outputs i = s.lastInputOutput.outputs i) ∨
      exists version result reads outside, version.1 = i ∧
        s.pc w = .applyUpdates version result reads [] outside [] [] ∧
        memory.lastInputOutput.inputs i = some reads ∧
        memory.lastInputOutput.outputs i = some result := by
  cases hacc with
  | @record version result reads outside hpc =>
    dsimp only
    rw [TxnLastInputOutput.record_inputs, TxnLastInputOutput.record_outputs]
    by_cases hi : i = version.1
    · subst hi
      exact .inr ⟨version, result, reads, outside, rfl, hpc, update_self _ _ _, update_self _ _ _⟩
    · exact .inl ⟨update_of_ne hi _ _, update_of_ne hi _ _⟩
  | _ => exact .inl ⟨rfl, rfl⟩

end

/-!
# Traces in reachable states
-/

variable {worker txn key value path output error : Type} [dw : DecidableEq worker]
  [dk : DecidableEq key] [dp : DecidableEq path] [tw : TransactionWrite value]
  [mk : ModulePath key path] [tx : TransactionOutput output key value]

structure Traces (ctx : BlockContext txn key output error)
    (justified : key × ViewResult -> ReadDescriptor key -> Prop)
    (s : State worker key value path output error) : Prop where
  interrupted : forall w version program reads,
    (s.pc w).interrupted = some (version, program, reads) ->
    Ran ctx justified version.1 reads program
  applying : forall w version result reads prev outside writes deltas,
    s.pc w = .applyUpdates version result reads prev outside writes deltas ->
    Recorded ctx justified version.1 reads result
  recorded : forall i reads result, s.lastInputOutput.inputs i = some reads ->
    s.lastInputOutput.outputs i = some result ->
    Recorded ctx justified i reads result

variable {ctx : BlockContext txn key output error}

omit dw dk dp tw mk tx in
theorem traces_initial (justified : key × ViewResult -> ReadDescriptor key -> Prop)
    (numTxns : Nat) : Traces ctx justified
      (State.initial numTxns : State worker key value path output error) where
  interrupted := by simp [State.initial, Pc.interrupted]
  applying := by simp [State.initial]
  recorded := by simp [State.initial, TxnLastInputOutput.new]

variable {s : State worker key value path output error}
  {justified : key × ViewResult -> ReadDescriptor key -> Prop}

omit dw dk dp tw mk tx in
theorem Traces.mono {justified'} (hmono : forall x r, justified x r -> justified' x r)
    (h : Traces ctx justified s) : Traces ctx justified' s where
  interrupted := fun w version program reads hpc =>
    (h.interrupted w version program reads hpc).mono hmono
  applying := fun w version result reads prev outside writes deltas hpc =>
    (h.applying w version result reads prev outside writes deltas hpc).mono hmono
  recorded := fun i reads result hins houts =>
    (h.recorded i reads result hins houts).mono hmono

theorem traces_step {s'} {events}
    (hcapt : forall k i descriptor (result : ReadResult value) answer, capture k (s.cache.read
      ctx.codec k i) = .captured descriptor result -> viewAnswer (LatestView.getStateValueMv
      ctx.codec ctx.baseView k result) = some answer -> justified (k, answer) descriptor)
    (h : Traces ctx justified s)
    (hstep : (parallelExecution worker value path ctx).step s events s') :
    Traces ctx justified s' := by
  rcases hstep with ⟨w, _, hstep⟩
  rcases access_of_step hstep with ⟨_, _, hacc⟩
  constructor
  · intro w' version program reads hpc
    rw [hacc.pc] at hpc
    by_cases hw : w' = w
    · subst hw
      rw [update_self] at hpc
      rcases interrupted_access hacc.access hpc with hsame |
        ⟨hprog, hreads⟩ | ⟨k, next, before, descriptor, answer, result,
          hbef, hread, hans, hprog, hreads⟩
      · exact h.interrupted w' version program reads hsame
      · subst hreads
        exact Ran.start hprog
      · subst hprog hreads
        exact (h.interrupted w' version _ before hbef).read
          (hcapt k version.1 descriptor result answer hread hans)
    · rw [update_of_ne hw] at hpc
      exact h.interrupted w' version program reads hpc
  · intro w' version result reads prev outside writes deltas hpc
    rw [hacc.pc] at hpc
    by_cases hw : w' = w
    · subst hw
      rw [update_self] at hpc
      rcases applying_access hacc.access hpc with ⟨status, hres, hbef⟩ | ⟨_, _, _, _, hbef⟩
      · exact ⟨status, hres, h.interrupted w' version _ reads (by rw [hbef]; rfl)⟩
      · exact h.applying w' version result reads _ _ _ _ hbef
    · rw [update_of_ne hw] at hpc
      exact h.applying w' version result reads prev outside writes deltas hpc
  · intro i reads result hins houts
    rcases lastInputOutput_access hacc.access i with
      ⟨hins', houts'⟩ | ⟨version, result', reads', outside, hi, hpc, hins', houts'⟩
    · exact h.recorded i reads result (hins'.symm.trans hins) (houts'.symm.trans houts)
    · cases hins'.symm.trans hins
      cases houts'.symm.trans houts
      subst hi
      exact h.applying w version result reads [] outside [] [] hpc

theorem traces_of_reachable
    (justified : State worker key value path output error -> key × ViewResult -> ReadDescriptor key
      -> Prop)
    (hcapt : forall s k i descriptor (result : ReadResult value) answer, (parallelExecution worker
      value path ctx).Reachable s -> capture k (s.cache.read ctx.codec k i) = .captured descriptor
      result -> viewAnswer (LatestView.getStateValueMv ctx.codec ctx.baseView k result) =
        some answer
      -> justified s (k, answer) descriptor)
    (hstable : forall s events s', (parallelExecution worker value path ctx).Reachable s ->
      (parallelExecution worker value path ctx).step s events s' -> forall x r, justified s x r ->
      justified s' x r) (hs : (parallelExecution worker value path ctx).Reachable s) :
    Traces ctx (justified s) s := by
  refine @TransitionSystem.Reachable.invariant _ _ _
    (fun s => Traces ctx (justified s) s) ?_ ?_ s hs
  · intro s hinit
    rw [hinit]
    exact traces_initial _ _
  · intro s events s' hs h hstep
    have hstep' := traces_step
      (fun k i descriptor result answer hread hans =>
        hcapt s k i descriptor result answer hs hread hans) h hstep
    exact hstep'.mono (hstable s events s' hs hstep)

end OpenLibra.BlockExecutor
