import Mathlib.Logic.Relation
import OpenLibra.BlockExecutor.TxnLastInputOutput
import OpenLibra.Transition.ShowThenLook
import OpenLibra.Transition.System

/-!
# Races with module publishing

Calls of `record` run concurrently; here they are taken apart into their accesses to shared
memory, interleaved in any way.
-/

namespace OpenLibra.BlockExecutor

open Transition Function List

/-- The arguments of a call of `record`. -/
structure RecordCall (key output error : Type) where
  txnIdx : TxnIndex
  input : List (ReadDescriptor key)
  result : Task.ExecutionStatus output (Error error)

/-- Where a call is.  The two runs of `append_and_check` have a side and a
position in the list of paths. -/
inductive RecordPhase (path : Type) where
  | load
  | insert (side : Side) (position : Nat)
  | check (side : Side) (position : Nat) (p : path)
  | storeFlag
  | storeInput
  | storeOutput
  | finished
deriving DecidableEq, Repr

variable {key path value output error : Type}

namespace TxnLastInputOutput

def modulesOn (self : TxnLastInputOutput key path output error) : Side -> List path
  | .left => self.moduleReads
  | .right => self.moduleWrites

variable [dp : DecidableEq path]

def insertModule (self : TxnLastInputOutput key path output error) (side : Side) (p : path) :
    TxnLastInputOutput key path output error :=
  match side with
  | .left => { self with moduleReads := self.moduleReads.insert p }
  | .right => { self with moduleWrites := self.moduleWrites.insert p }

theorem mem_insertModule {self : TxnLastInputOutput key path output error}
    {side side' : Side} {p q : path} : q ∈ (self.insertModule side p).modulesOn side' <->
      q ∈ self.modulesOn side' ∨ side' = side ∧ q = p := by
  cases side with
  | left =>
    cases side' with
    | left => simp [insertModule, modulesOn, or_comm]
    | right => simp [insertModule, modulesOn]
  | right =>
    cases side' with
    | left => simp [insertModule, modulesOn]
    | right => simp [insertModule, modulesOn, or_comm]

end TxnLastInputOutput

namespace RecordCall

variable [ModulePath key path] [TransactionOutput output key value]

def modules (call : RecordCall key output error) : Side -> List path
  | .left => call.input.filterMap fun desc => ModulePath.modulePath desc.accessPath
  | .right => TxnLastInputOutput.writtenModules call.result

variable [dp : DecidableEq path]

/-- The next access to shared memory.  `seen` is the value that the load of the
flag returns. -/
def advance (call : RecordCall key output error)
    (memory : TxnLastInputOutput key path output error) (seen : Bool) :
    RecordPhase path -> RecordPhase path × TxnLastInputOutput key path output error
  | .load =>
    (if seen then .storeInput
      else .insert .left 0, memory)
  | .insert side position =>
    match (call.modules side)[position]?, side with
    | some p, side => (.check side position p, memory.insertModule side p)
    | none, .left => (.insert .right 0, memory)
    | none, .right => (.storeInput, memory)
  | .check side position p =>
    (if p ∈ memory.modulesOn side.other then .storeFlag
      else .insert side (position + 1), memory)
  | .storeFlag =>
    (.storeInput,
      { memory with moduleReadWriteIntersection := true })
  | .storeInput =>
    (.storeOutput,
      { memory with
        inputs := update memory.inputs call.txnIdx (some call.input) })
  | .storeOutput =>
    (.finished,
      { memory with
        outputs := update memory.outputs call.txnIdx (some call.result) })
  | .finished => (.finished, memory)

end RecordCall

structure RecordState (thread key path output error : Type) where
  memory : TxnLastInputOutput key path output error
  phase : thread -> RecordPhase path

variable {thread : Type} [DecidableEq thread] [dp : DecidableEq path] [ModulePath key path]
  [TransactionOutput output key value]

def RecordState.step (s : RecordState thread key path output error)
    (calls : thread -> RecordCall key output error) (t : thread) (seen : Bool) :
    RecordState thread key path output error :=
  let next := (calls t).advance s.memory seen (s.phase t)
  { memory := next.2
    phase := update s.phase t next.1 }

def recording (calls : thread -> RecordCall key output error) :
    TransitionSystem (RecordState thread key path output error) Empty where
  initial s := s.memory = TxnLastInputOutput.new ∧ forall t, s.phase t = .load
  step s labels s' := labels = [] ∧ exists t seen, s.phase t ≠ .finished ∧
    (seen = true -> s.memory.moduleReadWriteIntersection = true) ∧
    s' = s.step calls t seen

/-!
# What one access does
-/

namespace RecordCall

variable {call : RecordCall key output error} {memory : TxnLastInputOutput key path output error}
  {seen : Bool}

def missedAt (call : RecordCall key output error) (side : Side) : RecordPhase path -> List path
  | .load | .storeFlag => []
  | .insert .left position
  | .check .left position _ =>
    match side with
    | .left => (call.modules side).take position
    | .right => []
  | .insert .right position
  | .check .right position _ =>
    match side with
    | .left => call.modules side
    | .right => (call.modules side).take position
  | .storeInput | .storeOutput
  | .finished => call.modules side

def CheckShown (call : RecordCall key output error)
    (memory : TxnLastInputOutput key path output error) (phase : RecordPhase path) : Prop :=
  forall side position p, phase = .check side position p ->
    (call.modules side)[position]? = some p ∧ p ∈ memory.modulesOn side

variable {phase : RecordPhase path} {side : Side} {p : path}

theorem advance_insert_some {position : Nat} (h : (call.modules side)[position]? = some p) :
    call.advance memory seen (.insert side position) =
      (.check side position p, memory.insertModule side p) := by
  cases side <;> simp only [advance, h]

theorem advance_insert_none {position : Nat} (h : (call.modules side)[position]? = none) :
    call.advance memory seen (.insert side position) =
      (match side with
          | .left => .insert .right 0
          | .right => .storeInput, memory) := by
  cases side <;> simp only [advance, h]

theorem modulesOn_advance (call : RecordCall key output error)
    (memory : TxnLastInputOutput key path output error) (seen : Bool) (phase : RecordPhase path) :
    (call.advance memory seen phase).2.modulesOn = memory.modulesOn ∨
      exists side position p, phase = .insert side position ∧
        (call.modules side)[position]? = some p ∧
        (call.advance memory seen phase).2 = memory.insertModule side p := by
  cases phase with
  | insert side position =>
    cases hget : (call.modules side)[position]? with
    | some p =>
      rw [advance_insert_some hget]
      exact .inr ⟨side, position, p, rfl, hget, rfl⟩
    | none =>
      rw [advance_insert_none hget]
      exact .inl rfl
  | load | check | finished => exact .inl rfl
  | storeFlag | storeInput | storeOutput => exact .inl (funext fun side => by cases side <;> rfl)

theorem mem_advance_of_mem (h : p ∈ memory.modulesOn side) :
    p ∈ (call.advance memory seen phase).2.modulesOn side := by
  rcases modulesOn_advance call memory seen phase with hsame | ⟨_, _, _, _, _, hinsert⟩
  · rw [hsame]
    exact h
  · rw [hinsert]
    exact TxnLastInputOutput.mem_insertModule.mpr (.inl h)

theorem mem_of_mem_advance (h : p ∈ (call.advance memory seen phase).2.modulesOn side) :
    p ∈ memory.modulesOn side ∨ p ∈ call.modules side := by
  rcases modulesOn_advance call memory seen phase with hsame | ⟨_, _, _, _, hget, hinsert⟩
  · rw [hsame] at h
    exact .inl h
  · rw [hinsert] at h
    rcases TxnLastInputOutput.mem_insertModule.mp h with hold | ⟨rfl, rfl⟩
    · exact .inl hold
    · exact .inr (mem_of_getElem? hget)

theorem flag_advance (h : memory.moduleReadWriteIntersection = true) :
    (call.advance memory seen phase).2.moduleReadWriteIntersection = true := by
  cases phase with
  | insert side position =>
    cases hget : (call.modules side)[position]? with
    | some =>
      rw [advance_insert_some hget]
      cases side <;> exact h
    | none =>
      rw [advance_insert_none hget]
      exact h
  | load | check | storeInput | storeOutput | finished => exact h
  | storeFlag => rfl

theorem flag_of_advance
    (h : (call.advance memory seen phase).2.moduleReadWriteIntersection = true) :
    memory.moduleReadWriteIntersection = true ∨ phase = .storeFlag := by
  cases phase with
  | insert side position =>
    cases hget : (call.modules side)[position]? with
    | some =>
      rw [advance_insert_some hget] at h
      cases side <;> exact .inl h
    | none =>
      rw [advance_insert_none hget] at h
      exact .inl h
  | load | check | storeInput | storeOutput | finished => exact .inl h
  | storeFlag => exact .inr rfl

theorem checkShown_advance (call : RecordCall key output error)
    (memory : TxnLastInputOutput key path output error) (seen : Bool) (phase : RecordPhase path) :
    call.CheckShown (call.advance memory seen phase).2 (call.advance memory seen phase).1 := by
  intro _ _ _ h
  cases phase with
  | insert side' position' =>
    cases hget : (call.modules side')[position']? with
    | some =>
      rw [advance_insert_some hget] at h ⊢
      cases h
      refine ⟨hget, ?_⟩
      exact TxnLastInputOutput.mem_insertModule.mpr (.inr ⟨rfl, rfl⟩)
    | none =>
      rw [advance_insert_none hget] at h
      cases side' <;> cases h
  | load =>
    unfold advance at h
    cases seen <;> cases h
  | check side' position' q =>
    by_cases hfound : q ∈ memory.modulesOn side'.other
    · simp only [advance, if_pos hfound] at h
      cases h
    · simp only [advance, if_neg hfound] at h
      cases h
  | storeFlag | storeInput | storeOutput | finished => cases h

theorem found_of_advance (hcheck : call.CheckShown memory phase)
    (h : (call.advance memory seen phase).1 = .storeFlag) :
    exists side p, p ∈ call.modules side ∧ p ∈ memory.modulesOn side.other := by
  cases phase with
  | insert side position =>
    cases hget : (call.modules side)[position]? with
    | some =>
      rw [advance_insert_some hget] at h
      cases h
    | none =>
      rw [advance_insert_none hget] at h
      cases side <;> cases h
  | load =>
    unfold advance at h
    cases seen <;> cases h
  | check side position p =>
    by_cases hfound : p ∈ memory.modulesOn side.other
    · have hget := (hcheck side position p rfl).1
      exact ⟨side, p, mem_of_getElem? hget, hfound⟩
    · simp only [advance, if_neg hfound] at h
      cases h
  | storeFlag | storeInput | storeOutput | finished => cases h

omit dp in
theorem take_of_getElem?_eq_none {position : Nat}
    (h : (call.modules side : List path)[position]? = none) :
    (call.modules side : List path).take position = call.modules side :=
  take_of_length_le (List.getElem?_eq_none_iff.mp h)

theorem missedAt_advance (hcheck : call.CheckShown memory phase)
    (hseen : seen = true -> memory.moduleReadWriteIntersection = true)
    (hflag : (call.advance memory seen phase).2.moduleReadWriteIntersection = false)
    (h : p ∈ call.missedAt side (call.advance memory seen phase).1) :
    p ∈ call.missedAt side phase ∨ p ∈ memory.modulesOn side ∧ p ∉ memory.modulesOn side.other := by
  cases phase with
  | load =>
    cases seen with
    | true =>
      rw [flag_advance (hseen rfl)] at hflag
      cases hflag
    | false =>
      cases side with
      | left =>
        change p ∈ (call.modules .left).take 0 at h
        rw [take_zero] at h
        cases h
      | right => cases h
  | insert side' position =>
    cases hget : (call.modules side')[position]? with
    | some =>
      rw [advance_insert_some hget] at h
      left
      cases side' <;> exact h
    | none =>
      rw [advance_insert_none hget] at h
      left
      cases side' with
      | left =>
        cases side with
        | left =>
          change p ∈ (call.modules .left).take position
          rw [take_of_getElem?_eq_none hget]
          exact h
        | right =>
          change p ∈ (call.modules .right).take 0 at h
          rw [take_zero] at h
          cases h
      | right =>
        cases side with
        | left => exact h
        | right =>
          change p ∈ (call.modules .right).take position
          rw [take_of_getElem?_eq_none hget]
          exact h
  | check side' position q =>
    by_cases hfound : q ∈ memory.modulesOn side'.other
    · simp only [advance, if_pos hfound] at h
      cases h
    · simp only [advance, if_neg hfound] at h
      rcases hcheck side' position q rfl with ⟨hget, hshown⟩
      have hnew : (call.modules side').take (position + 1) =
        (call.modules side').take position ++ [q] := by
        rw [take_add_one, hget]
        rfl
      by_cases hside : side = side'
      · subst hside
        have hmem : p ∈ (call.modules side).take (position + 1) := by cases side <;> exact h
        rw [hnew, mem_append, mem_singleton] at hmem
        rcases hmem with hold | rfl
        · left
          cases side <;> exact hold
        · exact .inr ⟨hshown, hfound⟩
      · left
        cases side <;> cases side' <;>
          first
            | exact absurd rfl hside
            | exact h
  | storeFlag => cases hflag
  | storeInput | storeOutput | finished => exact .inl h

end RecordCall

/-!
# Invariants of all interleavings
-/

namespace RecordState

variable {calls : thread -> RecordCall key output error}
  {s s' : RecordState thread key path output error}

def sightings (s : RecordState thread key path output error)
    (calls : thread -> RecordCall key output error) :
    Sightings thread path where
  shown side p := p ∈ s.memory.modulesOn side
  missed side t p := p ∈ (calls t).missedAt side (s.phase t)

structure Consistent (s : RecordState thread key path output error)
    (calls : thread -> RecordCall key output error) : Prop where
  checkShown : forall t, (calls t).CheckShown s.memory (s.phase t)
  /-- Modules in the sets are those of calls. -/
  recorded : forall side p, p ∈ s.memory.modulesOn side -> exists t, p ∈ (calls t).modules side
  /-- The flag is raised only over a path that is read and written. -/
  races : (s.memory.moduleReadWriteIntersection = true ∨
      exists t, s.phase t = .storeFlag) ->
    exists p t t', p ∈ (calls t).modules .left ∧ p ∈ (calls t').modules .right
  exclusive : s.memory.moduleReadWriteIntersection = false -> (s.sightings calls).Exclusive

theorem consistent_initial (h : (recording calls).initial s) : s.Consistent calls := by
  rcases h with ⟨hmemory, hphase⟩
  have hempty : forall side, s.memory.modulesOn side = [] := by
    intro side
    rw [hmemory]
    cases side <;> rfl
  have hmissed : forall side t,
    (calls t).missedAt side (s.phase t) = [] := by
    intro side t
    rw [hphase t]
    rfl
  constructor
  · intro t side _ p h
    rw [hphase t] at h
    cases h
  · intro side p hp
    rw [hempty] at hp
    cases hp
  · rintro (hflag | ⟨t, ht⟩)
    · rw [hmemory] at hflag
      cases hflag
    · rw [hphase t] at ht
      cases ht
  · intro _
    constructor
    · intro side t p h
      change p ∈ (calls t).missedAt side (s.phase t) at h
      rw [hmissed] at h
      cases h
    · intro side t _ p h
      change p ∈ (calls t).missedAt side (s.phase t) at h
      rw [hmissed] at h
      cases h

theorem phase_step (t : thread) (seen : Bool) (t' : thread) : (s.step calls t seen).phase t' =
    if t' = t then ((calls t).advance s.memory seen (s.phase t)).1
    else s.phase t' :=
  update_apply s.phase t _ t'

theorem consistent_step (hs : s.Consistent calls) (t : thread) (seen : Bool)
    (hseen : seen = true -> s.memory.moduleReadWriteIntersection = true) :
    (s.step calls t seen).Consistent calls := by
  have hmemory : (s.step calls t seen).memory =
    ((calls t).advance s.memory seen (s.phase t)).2 := rfl
  have hrecd : forall side p, p ∈ (s.step calls t seen).memory.modulesOn side ->
      exists t, p ∈ (calls t).modules side := by
    intro side p hp
    rcases RecordCall.mem_of_mem_advance hp with hold | hnew
    · exact hs.recorded side p hold
    · exact ⟨t, hnew⟩
  constructor
  · intro t' side position p h
    rw [phase_step] at h
    by_cases ht : t' = t
    · subst ht
      rw [if_pos rfl] at h
      exact RecordCall.checkShown_advance _ _ _ _ side position p h
    · rw [if_neg ht] at h
      rcases hs.checkShown t' side position p h with ⟨hget, hshown⟩
      exact ⟨hget, RecordCall.mem_advance_of_mem hshown⟩
  · exact hrecd
  · rintro (hflag | ⟨t', ht'⟩)
    · rcases RecordCall.flag_of_advance hflag with hbef | hphase
      · exact hs.races (.inl hbef)
      · exact hs.races (.inr ⟨t, hphase⟩)
    · rw [phase_step] at ht'
      by_cases ht : t' = t
      · rw [if_pos ht] at ht'
        rcases RecordCall.found_of_advance (hs.checkShown t) ht' with ⟨side, p, hown, hother⟩
        rcases hs.recorded side.other p hother with ⟨t'', hrecd⟩
        cases side with
        | left => exact ⟨p, t, t'', hown, hrecd⟩
        | right => exact ⟨p, t'', t, hrecd, hown⟩
      · rw [if_neg ht] at ht'
        exact hs.races (.inr ⟨t', ht'⟩)
  · intro hflag
    have hbef : s.memory.moduleReadWriteIntersection = false := by
      rw [← Bool.not_eq_true]
      intro htrue
      rw [hmemory, RecordCall.flag_advance htrue] at hflag
      cases hflag
    apply (hs.exclusive hbef).step
    · intro side p hp
      exact RecordCall.mem_advance_of_mem hp
    · intro side t' p hp
      change p ∈ (calls t').missedAt side ((s.step calls t seen).phase t')
        at hp
      rw [phase_step] at hp
      by_cases ht : t' = t
      · subst ht
        rw [if_pos rfl] at hp
        exact RecordCall.missedAt_advance (hs.checkShown t') hseen hflag hp
      · rw [if_neg ht] at hp
        exact .inl hp

theorem consistent_of_reachable (h : (recording calls).Reachable s) : s.Consistent calls := by
  refine h.invariant (fun _ => consistent_initial) ?_
  rintro _ _ _ _ hs ⟨_, t, seen, _, hseen, rfl⟩
  exact consistent_step hs t seen hseen

end RecordState

/-- When all calls have finished, the flag is raised exactly if some module has
been read by a call and written by a call. -/
theorem mayRace_iff_read_and_written (calls : thread -> RecordCall key output error)
    (s : RecordState thread key path output error) (hs : (recording calls).Reachable s)
    (hfinished : forall t, s.phase t = RecordPhase.finished) :
    s.memory.modulePublishingMayRace = true <-> exists p t t', p ∈ (calls t).modules Side.left ∧
        p ∈ (calls t').modules Side.right := by
  have hconsistent := RecordState.consistent_of_reachable hs
  constructor
  · intro hflag
    exact hconsistent.races (Or.inl hflag)
  · rintro ⟨p, t, t', hread, hwritten⟩
    rw [← Bool.not_eq_false]
    intro hflag
    -- Both calls have looked for the path in vain.
    have hmissed : forall side t, p ∈ (calls t).modules side ->
      (s.sightings calls).missed side t p := by
      intro side t hp
      change p ∈ (calls t).missedAt side (s.phase t)
      rw [hfinished t]
      exact hp
    exact (hconsistent.exclusive hflag).exclusive .left t t' p
      (hmissed .left t hread) (hmissed .right t' hwritten)

/-!
# A call that is not interrupted
-/

section

def Alone (call : RecordCall key output error) :
    RecordPhase path × TxnLastInputOutput key path output error ->
      RecordPhase path × TxnLastInputOutput key path output error -> Prop :=
  Relation.ReflTransGen fun x y => x.1 ≠ .finished ∧
    exists seen, (seen = true -> x.2.moduleReadWriteIntersection = true) ∧
      y = call.advance x.2 seen x.1

variable {call : RecordCall key output error} {memory : TxnLastInputOutput key path output error}

theorem run_of_alone {calls : thread -> RecordCall key output error}
    {s : RecordState thread key path output error} {t : thread}
    {y : RecordPhase path × TxnLastInputOutput key path output error}
    (h : Alone (calls t) (s.phase t, s.memory) y) : TransitionSystem.Run (recording calls) s []
      { memory := y.2, phase := update s.phase t y.1 } := by
  induction h with
  | refl =>
    rw [update_eq_self]
    exact .refl s
  | tail _ hstep ih =>
    rename_i x y _
    rcases hstep with ⟨hrunning, seen, hseen, rfl⟩
    refine .snoc ih ⟨rfl, t, seen, ?_, hseen, ?_⟩
    · change update s.phase t x.1 t ≠ .finished
      rw [update_self]
      exact hrunning
    · unfold RecordState.step
      simp only [update_self, update_idem]

theorem alone_advance {phase} (hphase : phase ≠ .finished) :
    Alone call (phase, memory) (call.advance memory false phase) := by
  refine Relation.ReflTransGen.single ⟨hphase, false, ?_, rfl⟩
  intro h
  cases h

def withModules (memory : TxnLastInputOutput key path output error)
    (side : Side) (paths : List path) :
    TxnLastInputOutput key path output error :=
  match side with
  | .left => { memory with moduleReads := paths }
  | .right => { memory with moduleWrites := paths }

def afterChecks : Side -> RecordPhase path
  | .left => .insert .right 0
  | .right => .storeInput

theorem alone_appendAndCheck (side : Side) (rest : List path) (position : Nat)
    (hrest : (call.modules side).drop position = rest) : Alone call (.insert side position, memory)
      (if (TxnLastInputOutput.appendAndCheck rest (memory.modulesOn side)
          (memory.modulesOn side.other)).2 then .storeFlag
        else afterChecks side,
        withModules memory side (TxnLastInputOutput.appendAndCheck rest
          (memory.modulesOn side) (memory.modulesOn side.other)).1) := by
  induction rest generalizing position memory with
  | nil =>
    have hnone : (call.modules side : List path)[position]? = none :=
      List.getElem?_eq_none_iff.mpr (drop_eq_nil_iff.mp hrest)
    have hstep : Alone call (.insert side position, memory) _ := alone_advance (by simp)
    rw [RecordCall.advance_insert_none hnone] at hstep
    cases side <;> exact hstep
  | cons p rest ih =>
    have hsome : (call.modules side)[position]? = some p := by
      have hhead := congrArg List.head? hrest
      rw [List.head?_drop] at hhead
      exact hhead
    have htail : (call.modules side).drop (position + 1) = rest := by
      rw [← drop_drop, hrest]
      rfl
    have hinsert : Alone call (.insert side position, memory) _ := alone_advance (by simp)
    rw [RecordCall.advance_insert_some hsome] at hinsert
    have hcheck : Alone call (.check side position p,
      memory.insertModule side p) _ := alone_advance (by simp)
    have hother : (memory.insertModule side p).modulesOn side.other =
      memory.modulesOn side.other := by
      cases side <;> rfl
    have hown : (memory.insertModule side p).modulesOn side = (memory.modulesOn side).insert p := by
      cases side <;> rfl
    refine hinsert.trans (hcheck.trans ?_)
    unfold TxnLastInputOutput.appendAndCheck
    by_cases hfound : p ∈ memory.modulesOn side.other
    · simp only [RecordCall.advance, hother, if_pos hfound]
      cases side <;> exact Relation.ReflTransGen.refl
    · simp only [RecordCall.advance, hother, if_neg hfound]
      have hrec := @ih (memory.insertModule side p) (position + 1) htail
      rw [hother, hown] at hrec
      cases side <;> exact hrec

theorem alone_checks {side : Side} {paths} {found : Bool}
    (h : TxnLastInputOutput.appendAndCheck (call.modules side)
      (memory.modulesOn side) (memory.modulesOn side.other) = (paths, found)) :
    Alone call (.insert side 0, memory) (if found then .storeFlag else afterChecks side,
        withModules memory side paths) := by
  have hloop := @alone_appendAndCheck _ _ _ _ _ _ _ _ call memory side (call.modules side) 0 rfl
  rw [h] at hloop
  exact hloop

theorem alone_store : Alone call (.storeInput, memory) (.finished,
      { memory with
        inputs := update memory.inputs call.txnIdx (some call.input)
        outputs := update memory.outputs call.txnIdx
          (some call.result) }) := by
  have hinput : Alone call (.storeInput, memory) _ := alone_advance (by simp)
  exact hinput.trans (alone_advance (by simp))

theorem alone_storeFlag (call : RecordCall key output error)
    (memory : TxnLastInputOutput key path output error) :
    Alone call (.storeFlag, memory) (.storeInput,
        { memory with moduleReadWriteIntersection := true }) :=
  alone_advance (by simp)

theorem alone_recordModules (call : RecordCall key output error)
    (memory : TxnLastInputOutput key path output error) :
    Alone call (.load, memory) (.storeInput, memory.recordModules
        (call.modules .left) (call.modules .right)) := by
  unfold TxnLastInputOutput.recordModules
  cases hflag : memory.moduleReadWriteIntersection with
  | true =>
    exact Relation.ReflTransGen.single
      ⟨by simp, true, fun _ => hflag, rfl⟩
  | false =>
    have hload : Alone call (.load, memory) (.insert .left 0, memory) := alone_advance (by simp)
    refine hload.trans ?_
    rcases hfirst : TxnLastInputOutput.appendAndCheck
      (call.modules .left) memory.moduleReads memory.moduleWrites with
      ⟨moduleReads, found⟩
    have hreads := @alone_checks _ _ _ _ _ _ _ _ call memory .left _ _ hfirst
    refine hreads.trans ?_
    cases found with
    | true => exact alone_storeFlag call _
    | false =>
      rcases hsnd : TxnLastInputOutput.appendAndCheck
        (call.modules .right) memory.moduleWrites moduleReads with
        ⟨moduleWrites, found⟩
      have hwrs := @alone_checks _ _ _ _ _ _ _ _ call
        (withModules memory .left moduleReads) .right _ _ hsnd
      refine hwrs.trans ?_
      simp only [hsnd]
      cases found with
      | true => exact alone_storeFlag call _
      | false =>
        have hsame : withModules (withModules memory .left moduleReads) .right moduleWrites =
            { memory with
              moduleReads := moduleReads
              moduleWrites := moduleWrites
              moduleReadWriteIntersection := false } := by
          rw [← hflag]
          rfl
        rw [hsame]
        exact Relation.ReflTransGen.refl

theorem alone_record (call : RecordCall key output error)
    (memory : TxnLastInputOutput key path output error) :
    Alone call (.load, memory) (.finished, memory.record call.txnIdx call.input call.result) :=
  (alone_recordModules call memory).trans alone_store

theorem run_record (calls : thread -> RecordCall key output error)
    (s : RecordState thread key path output error) (t : thread) (hload : s.phase t = .load) :
    TransitionSystem.Run (recording calls) s []
      { memory := s.memory.record (calls t).txnIdx (calls t).input
          (calls t).result
        phase := update s.phase t .finished } := by
  have halone := alone_record (calls t) s.memory
  rw [← hload] at halone
  exact run_of_alone halone

end

def readerAndWriter : Bool -> RecordCall (KeyType Nat) (TransactionOutputExt (KeyType Nat)) Unit
  | false =>
    { txnIdx := 0
      input :=
        [{ accessPath := { key := 7, isModule := true }
           kind := .storage }]
      result := .abort (.userError ()) }
  | true =>
    { txnIdx := 1
      input := []
      result := .success
        { writeSet := [({ key := 7, isModule := true }, .creation [])]
          deltaChangeSet := [] } }

def afterReader : RecordState Bool (KeyType Nat) Nat
    (TransactionOutputExt (KeyType Nat)) Unit :=
  { memory := TxnLastInputOutput.new.record (readerAndWriter false).txnIdx
      (readerAndWriter false).input (readerAndWriter false).result
    phase := update (fun _ => .load) false .finished }

theorem mayRace_readerAndWriter :
    exists s : RecordState Bool (KeyType Nat) Nat (TransactionOutputExt (KeyType Nat)) Unit,
      (recording readerAndWriter).Reachable s ∧ (forall t, s.phase t = RecordPhase.finished) ∧
        s.memory.modulePublishingMayRace = true := by
  have hfirst := run_record readerAndWriter
    { memory := TxnLastInputOutput.new
      phase := fun _ => .load } false rfl
  have hsecond := run_record readerAndWriter afterReader true rfl
  have hreader : (recording readerAndWriter).Execution [] afterReader :=
    ⟨_, ⟨rfl, fun _ => rfl⟩, hfirst⟩
  have hreachable := (hreader.run hsecond).reachable
  have hfinished : forall t, update afterReader.phase true
    .finished t = .finished := by
    decide
  refine ⟨_, hreachable, hfinished, ?_⟩
  exact (mayRace_iff_read_and_written readerAndWriter _ hreachable
    hfinished).mpr ⟨7, false, true, by decide, by decide⟩

end OpenLibra.BlockExecutor
