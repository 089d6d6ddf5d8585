import OpenLibra.Noise.Handshake
import OpenLibra.Transition.System

/-!
# Two sessions and an adversary

The adversary hands any bytes to either side, but a text that opens has been sealed.
-/

namespace OpenLibra.Noise

open Rust Transition Function List

inductive Side where
  | initiator
  | responder
deriving DecidableEq

def Side.other : Side -> Side
  | initiator => responder
  | responder => initiator

namespace Channel

structure SealedText where
  key : Bytes 32
  nonce : List UInt8
  aad : List UInt8
  plaintext : List UInt8
  text : List UInt8

structure State where
  session : Side -> NoiseSession
  sealed : List SealedText

inductive Event where
  | write (side : Side) (message : List UInt8) (result : Except NoiseError (List UInt8))
  | read (side : Side) (text : List UInt8) (result : Except NoiseError (List UInt8))

namespace Event

def side : Event -> Side
  | write side _ _ => side
  | read side _ _ => side

def result : Event -> Except NoiseError (List UInt8)
  | write _ _ result => result
  | read _ _ result => result

end Event

/-!
# Steps
-/

def State.setSession (s : State) (side : Side) (session : NoiseSession) : State :=
  { s with session := update s.session side session }

def sealedBy (aead : Aead) (message : List UInt8) (written : Written) : List SealedText :=
  match written.sealedUnder with
  | none => []
  | some (key, nonce) =>
    match aead.sealAppendTag key nonce [] message with
    | none => []
    | some text => [{ key, nonce, aad := [], plaintext := message, text }]

def Explained (aead : Aead) (s : State) (side : Side) (text : List UInt8) : Prop :=
  forall plaintext, aead.openInPlace (s.session side).readKey
        (sessionNonce (s.session side).readNonce) [] text = some plaintext ->
      exists entry, entry ∈ s.sealed ∧ entry.key = (s.session side).readKey ∧
        entry.nonce = sessionNonce (s.session side).readNonce ∧
        entry.aad = [] ∧ entry.text = text

inductive Step (aead : Aead) : State -> List Event -> State -> Prop where
  | write (s : State) (side : Side) (message : List UInt8) (written : Written)
      (call : (s.session side).writeMessageInPlace aead message = written) :
      Step aead s [.write side message written.result]
        { s.setSession side written.session with
          sealed := s.sealed ++ sealedBy aead message written }
  | read (s : State) (side : Side) (text : List UInt8) (out : ReadOut)
      (call : (s.session side).readMessageInPlace aead text = out)
      (explained : Explained aead s side text) :
      Step aead s [.read side text out.result] (s.setSession side out.session)

def channel (aead : Aead) (keys : Side -> Bytes 32) : TransitionSystem State Event :=
  { initial := fun s => s.sealed = [] ∧ forall side, exists remote,
      s.session side = NoiseSession.new (keys side) (keys side.other) remote
    step := Step aead }

/-!
# What was sent and received
-/

variable (side : Side)

def sent (events : List Event) : List (List UInt8) :=
  events.filterMap fun event => match event with
    | .write writer message (.ok _) =>
      if writer = side then some message else none
    | _ => none

def received (events : List Event) : List (List UInt8) :=
  events.filterMap fun event => match event with
    | .read reader _ (.ok plaintext) =>
      if reader = side then some plaintext else none
    | _ => none

def ReadFailed (events : List Event) : Prop :=
  exists text e, .read side text (.error e) ∈ events

theorem sent_append (events more : List Event) :
    sent side (events ++ more) = sent side events ++ sent side more :=
  filterMap_append

theorem received_append (events more : List Event) : received side (events ++ more) =
    received side events ++ received side more :=
  filterMap_append

@[simp] theorem sent_write_ok (message tag : List UInt8) :
    sent side [.write side message (.ok tag)] = [message] := by
  simp [sent]

@[simp] theorem sent_read (side reader : Side) (text : List UInt8)
    (result : Except NoiseError (List UInt8)) : sent side [.read reader text result] = [] := rfl

@[simp] theorem received_write (side writer : Side) (message : List UInt8)
    (result : Except NoiseError (List UInt8)) :
    received side [.write writer message result] = [] := rfl

@[simp] theorem received_read_ok (text plaintext : List UInt8) :
    received side [.read side text (.ok plaintext)] = [plaintext] := by
  simp [received]

theorem sent_write_other {side writer : Side} (h : writer ≠ side)
    (message : List UInt8) (result : Except NoiseError (List UInt8)) :
    sent side [.write writer message result] = [] := by
  cases result with
  | error => rfl
  | ok => simp [sent, h]

theorem received_read_other {side reader : Side} (h : reader ≠ side)
    (text : List UInt8) (result : Except NoiseError (List UInt8)) :
    received side [.read reader text result] = [] := by
  cases result with
  | error => rfl
  | ok => simp [received, h]

/-!
# The invariant
-/

section

variable {aead : Aead} {keys : Side -> Bytes 32}

def Accounted (aead : Aead) (keys : Side -> Bytes 32) (events : List Event) (entry : SealedText) :
    Prop :=
  exists side place, entry.key = keys side ∧ entry.nonce = sessionNonce (UInt64.ofNat place) ∧
    (sent side events)[place]? = some entry.plaintext ∧
    aead.openInPlace entry.key entry.nonce entry.aad entry.text = some entry.plaintext

structure Ordered (aead : Aead) (keys : Side -> Bytes 32)
    (events : List Event) (s : State) : Prop where
  writeKey : forall side, (s.session side).writeKey = keys side
  readKey : forall side, (s.session side).readKey = keys side.other
  writeNonce : forall side, (s.session side).writeNonce.toNat = (sent side events).length
  accounted : forall entry, entry ∈ s.sealed -> Accounted aead keys events entry
  readNonce : forall side, (s.session side).readNonce.toNat ≤ (sent side.other events).length
  received_eq : forall side, received side events =
    (sent side.other events).take (s.session side).readNonce.toNat
  closed : forall side, ReadFailed side events -> (s.session side).valid = false

def Bounded (events : List Event) : Prop := forall side, (sent side events).length < u64Bound - 1

variable {events more : List Event} {s s' : State} {side : Side}
  {text plaintext message : List UInt8}

theorem Bounded.of_append (h : Bounded (events ++ more)) : Bounded events := by
  intro side
  have hside := h side
  rw [sent_append, length_append] at hside
  exact lt_of_le_of_lt (Nat.le_add_right _ _) hside

theorem Accounted.append {entry} (h : Accounted aead keys events entry) (more : List Event) :
    Accounted aead keys (events ++ more) entry := by
  rcases h with ⟨side, place, hkey, hnonce, hsent, hopen⟩
  refine ⟨side, place, hkey, hnonce, ?_, hopen⟩
  have hlt := (List.getElem?_eq_some_iff.mp hsent).1
  rw [sent_append, getElem?_append_left hlt]
  exact hsent

theorem Ordered.sent_of_open (hkeys : Function.Injective keys) (h : Ordered aead keys events s)
    (hbound : Bounded events) (hexplained : Explained aead s side text)
    (hopen : aead.openInPlace (s.session side).readKey (sessionNonce (s.session side).readNonce) []
      text = some plaintext) :
    (sent side.other events)[(s.session side).readNonce.toNat]? = some plaintext := by
  rcases hexplained plaintext hopen with ⟨entry, hent, hkey, hnonce, haad, htext⟩
  rcases h.accounted entry hent with ⟨writer, place, hwriter, hplace, hsent, hentOpen⟩
  have hwriterEq : writer = side.other := by
    apply hkeys
    rw [← hwriter, hkey, h.readKey]
  have hlt : place < u64Bound := by
    have hle := (List.getElem?_eq_some_iff.mp hsent).1
    have hwriterBound := hbound writer
    omega
  have hcnt : (s.session side).readNonce.toNat = place := by
    have hsame : UInt64.ofNat place = (s.session side).readNonce :=
      sessionNonce_injective (hplace.symm.trans hnonce)
    rw [← hsame, UInt64.toNat_ofNat']
    exact Nat.mod_eq_of_lt hlt
  rw [hkey, hnonce, haad, htext, hopen] at hentOpen
  rw [hcnt, ← hwriterEq, hsent, hentOpen]

theorem readFailed_append : ReadFailed side (events ++ more) <->
    ReadFailed side events ∨ ReadFailed side more := by
  simp only [ReadFailed, mem_append, exists_or]

theorem not_readFailed_of_ok {reader : Side} :
    ¬ ReadFailed side [.read reader text (.ok plaintext)] := by
  simp [ReadFailed]

theorem not_readFailed_write {writer : Side} {result} :
    ¬ ReadFailed side [.write writer message result] := by
  simp [ReadFailed]

theorem Ordered.of_quiet (h : Ordered aead keys events s) (hsent : forall side, sent side more = [])
    (hreceived : forall side, received side more = []) (hsealed : s'.sealed = s.sealed)
    (hsess : forall side, s'.session side =
      { s.session side with valid := (s'.session side).valid })
    (hclosed : forall side, ReadFailed side (events ++ more) -> (s'.session side).valid = false) :
    Ordered aead keys (events ++ more) s' where
  writeKey side := by
    rw [hsess]
    exact h.writeKey side
  readKey side := by
    rw [hsess]
    exact h.readKey side
  writeNonce side := by
    rw [hsess, sent_append, hsent, append_nil]
    exact h.writeNonce side
  accounted entry hent := by
    rw [hsealed] at hent
    exact (h.accounted entry hent).append more
  readNonce side := by
    rw [hsess, sent_append, hsent, append_nil]
    exact h.readNonce side
  received_eq side := by
    rw [hsess, sent_append, hsent, append_nil, received_append, hreceived, append_nil]
    exact h.received_eq side
  closed := hclosed

theorem session_of_update {session} (h : s'.session = update s.session side session) :
    s'.session side = session ∧ forall side', side' ≠ side ->
      s'.session side' = s.session side' := by
  rw [h]
  constructor
  · exact update_self _ _ _
  · intro _ hne
    exact update_of_ne hne _ _

theorem Ordered.of_write (h : Ordered aead keys events s) (side : Side) {tag}
    (hlt : (s.session side).writeNonce.toNat + 1 < u64Bound)
    (hopen : aead.openInPlace (s.session side).writeKey (sessionNonce (s.session side).writeNonce)
      [] text = some message)
    (hsess : s'.session = update s.session side { s.session side with writeNonce := (s.session
      side).writeNonce + 1 })
    (hsealed : s'.sealed = s.sealed ++ [{
      key := (s.session side).writeKey
      nonce := sessionNonce (s.session side).writeNonce
      aad := []
      plaintext := message
      text := text }]) :
    Ordered aead keys
      (events ++ [.write side message (.ok tag)]) s' := by
  rcases session_of_update hsess with ⟨hself, hother⟩
  have hkeep : forall side', exists counter, s'.session side' =
    { s.session side' with writeNonce := counter } := by
    intro side'
    by_cases hside : side' = side
    · subst hside
      exact ⟨_, hself⟩
    · exact ⟨_, hother side' hside⟩
  constructor
  · intro side'
    rcases hkeep side' with ⟨counter, hcnt⟩
    rw [hcnt]
    exact h.writeKey side'
  · intro side'
    rcases hkeep side' with ⟨counter, hcnt⟩
    rw [hcnt]
    exact h.readKey side'
  · intro side'
    by_cases hside : side' = side
    · subst hside
      rw [hself, sent_append, sent_write_ok, length_append, ← h.writeNonce side']
      exact toNat_add_one hlt
    · rw [hother side' hside, sent_append, sent_write_other (Ne.symm hside), append_nil]
      exact h.writeNonce side'
  · intro entry hent
    rw [hsealed, mem_append, mem_singleton] at hent
    rcases hent with hold | rfl
    · exact (h.accounted entry hold).append _
    · refine ⟨side, (s.session side).writeNonce.toNat, h.writeKey side, ?_, ?_, hopen⟩
      · rw [UInt64.ofNat_toNat]
      · rw [sent_append, sent_write_ok, h.writeNonce side, getElem?_concat_length]
  · intro side'
    rcases hkeep side' with ⟨counter, hcnt⟩
    rw [hcnt, sent_append, length_append]
    exact Nat.le_trans (h.readNonce side') (Nat.le_add_right _ _)
  · intro side'
    rcases hkeep side' with ⟨counter, hcnt⟩
    rw [hcnt, received_append, received_write, append_nil,
      sent_append, take_append_of_le_length (h.readNonce side')]
    exact h.received_eq side'
  · intro side' hfailed
    rcases hkeep side' with ⟨_, hcnt⟩
    rcases readFailed_append.mp hfailed with hbef | hnow
    · rw [hcnt]
      exact h.closed side' hbef
    · exact absurd hnow not_readFailed_write

theorem Ordered.of_read (h : Ordered aead keys events s) (side : Side)
    (hlt : (s.session side).readNonce.toNat + 1 < u64Bound)
    (hsent : (sent side.other events)[(s.session side).readNonce.toNat]? = some plaintext)
    (hsess : s'.session = update s.session side { s.session side with readNonce := (s.session
      side).readNonce + 1 })
    (hsealed : s'.sealed = s.sealed) :
    Ordered aead keys
      (events ++ [.read side text (.ok plaintext)]) s' := by
  rcases session_of_update hsess with ⟨hself, hother⟩
  have hkeep : forall side', exists counter, s'.session side' =
    { s.session side' with readNonce := counter } := by
    intro side'
    by_cases hside : side' = side
    · subst hside
      exact ⟨_, hself⟩
    · exact ⟨_, hother side' hside⟩
  have hsame : forall side', sent side' (events ++ [.read side text (.ok plaintext)]) =
      sent side' events := by
    intro side'
    rw [sent_append, sent_read, append_nil]
  constructor
  · intro side'
    rcases hkeep side' with ⟨counter, hcnt⟩
    rw [hcnt]
    exact h.writeKey side'
  · intro side'
    rcases hkeep side' with ⟨counter, hcnt⟩
    rw [hcnt]
    exact h.readKey side'
  · intro side'
    rcases hkeep side' with ⟨counter, hcnt⟩
    rw [hcnt, hsame]
    exact h.writeNonce side'
  · intro entry hent
    rw [hsealed] at hent
    exact (h.accounted entry hent).append _
  · intro side'
    rw [hsame]
    by_cases hside : side' = side
    · subst hside
      rw [hself]
      exact Nat.le_trans (le_of_eq (toNat_add_one hlt)) (List.getElem?_eq_some_iff.mp hsent).1
    · rw [hother side' hside]
      exact h.readNonce side'
  · intro side'
    rw [hsame, received_append]
    by_cases hside : side' = side
    · subst hside
      rw [hself, received_read_ok, h.received_eq side']
      simp only [toNat_add_one hlt]
      rw [take_add_one, hsent]
      rfl
    · rw [hother side' hside, received_read_other (Ne.symm hside), append_nil]
      exact h.received_eq side'
  · intro side' hfailed
    rcases hkeep side' with ⟨_, hcnt⟩
    rcases readFailed_append.mp hfailed with hbef | hnow
    · rw [hcnt]
      exact h.closed side' hbef
    · exact absurd hnow not_readFailed_of_ok

theorem ordered_initial (h : (channel aead keys).initial s) : Ordered aead keys [] s := by
  rcases h with ⟨hsealed, hsess⟩
  constructor
  · intro side
    rcases hsess side with ⟨remote, hremote⟩
    rw [hremote]
    rfl
  · intro side
    rcases hsess side with ⟨remote, hremote⟩
    rw [hremote]
    rfl
  · intro side
    rcases hsess side with ⟨remote, hremote⟩
    rw [hremote]
    rfl
  · intro _ hent
    rw [hsealed] at hent
    cases hent
  · intro side
    rcases hsess side with ⟨remote, hremote⟩
    rw [hremote]
    exact Nat.zero_le _
  · intro side
    rcases hsess side with ⟨_, hremote⟩
    rw [hremote]
    rfl
  · intro _ hfailed
    rcases hfailed with ⟨_, _, hmem⟩
    cases hmem

theorem Ordered.of_failed_read (h : Ordered aead keys events s) (side : Side)
    (text : List UInt8) (e : NoiseError) :
    Ordered aead keys (events ++ [.read side text (.error e)])
      (s.setSession side { s.session side with valid := false }) := by
  have hsess : forall side', (s.setSession side { s.session side with valid := false }).session
        side' = { s.session side' with
          valid := if side' = side then false
            else (s.session side').valid } := by
    intro side'
    unfold State.setSession
    by_cases hside : side' = side
    · subst hside
      simp
    · simp [hside]
  refine h.of_quiet (fun _ => rfl) (fun _ => rfl) rfl ?_ ?_
  · intro side'
    rw [hsess side']
  · intro side' hfailed
    rw [hsess side']
    by_cases hside : side' = side
    · simp [hside]
    · rcases readFailed_append.mp hfailed with hbef | ⟨_, _, hnow⟩
      · simp [hside, h.closed side' hbef]
      · rw [mem_singleton] at hnow
        cases hnow
        exact absurd rfl hside

theorem ordered_step (haead : aead.Lawful) (hkeys : Function.Injective keys)
    (h : Ordered aead keys events s) (hbound : Bounded events) (hstep : Step aead s more s') :
    Ordered aead keys (events ++ more) s' := by
  cases hstep with
  | write side message written call =>
    subst call
    rcases NoiseSession.write_cases aead (s.session side) message with
      ⟨e, hwrite⟩ | ⟨ciphertext, tag, hseal, ⟨hlt, hwrite⟩ | ⟨hend, _⟩⟩
    · rw [hwrite]
      apply h.of_quiet (fun _ => rfl) (fun _ => rfl)
      · exact append_nil _
      · intro side'
        simp [State.setSession, update_eq_self]
      · intro side' hfailed
        rcases readFailed_append.mp hfailed with hbef | hnow
        · simpa [State.setSession, update_eq_self] using h.closed side' hbef
        · exact absurd hnow not_readFailed_write
    · have hsealed : aead.sealAppendTag (s.session side).writeKey
          (sessionNonce (s.session side).writeNonce) [] message = some (ciphertext ++ tag) := by
        simp [Aead.sealAppendTag, hseal]
      rw [hwrite]
      apply h.of_write side hlt (haead.open_seal hseal) rfl
      simp only [sealedBy, hsealed]
    · -- The counter is not at its end.
      have hcount := h.writeNonce side
      have hside := hbound side
      omega
  | read side text out call explained =>
    subst call
    rcases NoiseSession.read_cases aead (s.session side) text with
      ⟨e, hread⟩ | ⟨plaintext, hopen, ⟨hlt, hread⟩ | ⟨hend, _⟩⟩
    · rw [hread]
      exact h.of_failed_read side text e
    · rw [hread]
      exact h.of_read side hlt (h.sent_of_open hkeys hbound explained hopen) rfl rfl
    · have hsent := h.sent_of_open hkeys hbound explained hopen
      have hplace := (List.getElem?_eq_some_iff.mp hsent).1
      have hside := hbound side.other
      omega

theorem ordered_execution (haead : aead.Lawful) (hkeys : Function.Injective keys)
    (hs : (channel aead keys).Execution events s) (hbound : Bounded events) :
    Ordered aead keys events s := by
  refine @TransitionSystem.Execution.invariant _ _ (channel aead keys)
    (fun events s => Bounded events -> Ordered aead keys events s)
    ?_ ?_ events s hs hbound
  · intro _ hstart _
    exact ordered_initial hstart
  · intro _ _ _ _ _ ih hstep hbound
    exact ordered_step haead hkeys (ih hbound.of_append) hbound.of_append hstep

theorem closed_step (hclosed : (s.session side).valid = false) (hstep : Step aead s more s') :
    s'.session side = s.session side ∧ forall event, event ∈ more -> event.side = side ->
        event.result = .error .sessionClosed := by
  cases hstep with
  | write writer message written call =>
    subst call
    by_cases hside : writer = side
    · subst hside
      have hwrite := NoiseSession.write_closed aead hclosed message
      constructor
      · exact (update_self _ _ _).trans hwrite.2
      · intro event hevent _
        rw [mem_singleton.mp hevent]
        exact hwrite.1
    · constructor
      · exact update_of_ne (Ne.symm hside) _ _
      · intro event hevent heq
        rw [mem_singleton.mp hevent] at heq
        exact absurd heq hside
  | read reader text out call =>
    subst call
    by_cases hside : reader = side
    · subst hside
      have hread := NoiseSession.read_closed aead hclosed text
      constructor
      · exact (update_self _ _ _).trans hread.2
      · intro event hevent _
        rw [mem_singleton.mp hevent]
        exact hread.1
    · constructor
      · exact update_of_ne (Ne.symm hside) _ _
      · intro _ hevent heq
        rw [mem_singleton.mp hevent] at heq
        exact absurd heq hside

theorem closed_run (hclosed : (s.session side).valid = false)
    (hrun : TransitionSystem.Run (channel aead keys) s more s') :
    s'.session side = s.session side ∧ forall event, event ∈ more -> event.side = side ->
        event.result = .error .sessionClosed := by
  induction hrun with
  | refl =>
    constructor
    · rfl
    · intro event hevent
      cases hevent
  | @snoc middle _ _ _ run step ih =>
    have hmid : (middle.session side).valid = false := by
      rw [ih.1]
      exact hclosed
    have hstep := closed_step hmid step
    constructor
    · rw [hstep.1]
      exact ih.1
    · intro event hevent hside
      rcases mem_append.mp hevent with hbef | hnow
      · exact ih.2 event hbef hside
      · exact hstep.2 event hnow hside

/-- With distinct keys each side receives, in order, a first part of what the
other has sent, and a side whose read has failed stays closed. -/
theorem delivers_in_order (haead : aead.Lawful) (hkeys : keys Side.initiator ≠ keys Side.responder)
    {events : List Event} {s : State} (hs : (channel aead keys).Execution events s)
    (hbound : forall side, (sent side events).length < 2 ^ 64 - 1) :
    (forall side, received side events <+: sent side.other events) ∧
      forall side, ReadFailed side events -> forall more s',
        TransitionSystem.Run (channel aead keys) s more s' -> s'.session side = s.session side ∧
          forall event, event ∈ more -> event.side = side ->
            event.result = Except.error NoiseError.sessionClosed := by
  have hinjective : Function.Injective keys := by
    intro side side' hsame
    cases side <;> cases side' <;>
      first | rfl | exact absurd hsame hkeys | exact absurd hsame.symm hkeys
  have hordered := ordered_execution haead hinjective hs hbound
  constructor
  · intro side
    rw [hordered.received_eq side]
    exact take_prefix _ _
  · intro side hfailed _ _ hrun
    exact closed_run (hordered.closed side hfailed) hrun

end

/-!
# Executions of the toy cipher
-/

open NoiseConfig NoiseSession

variable (keys : Side -> Bytes 32)

def freshState : State :=
  { session := fun side =>
      NoiseSession.new (keys side) (keys side.other) zeroKey
    sealed := [] }

def zeroTag : List UInt8 := replicate 16 0

def toyKeys : Side -> Bytes 32
  | .initiator => zeroKey
  | .responder => ⟨replicate 32 1, rfl⟩

/-- The state after `writer` has sealed the message `[1]`. -/
def wroteState (writer : Side) : State :=
  { session := update (freshState keys).session writer
      { (freshState keys).session writer with writeNonce := 1 }
    sealed := [{
      key := keys writer
      nonce := sessionNonce 0
      aad := []
      plaintext := [1]
      text := [1] ++ zeroTag }] }

theorem wroteState_execution (writer : Side) : (channel checksumAead keys).Execution
    [.write writer [1] (.ok zeroTag)] (wroteState keys writer) := by
  have hinitial : (channel checksumAead keys).initial (freshState keys) :=
    ⟨rfl, fun side => ⟨zeroKey, rfl⟩⟩
  have hstep : Step checksumAead (freshState keys) [.write writer [1] (.ok zeroTag)]
    (wroteState keys writer) :=
    .write (freshState keys) writer [1]
      { result := .ok zeroTag
        session := { (freshState keys).session writer with writeNonce := 1 }
        buffer := [1]
        sealedUnder := some (keys writer, sessionNonce 0) } rfl
  exact ⟨freshState keys, hinitial, .snoc (.refl _) hstep⟩

theorem wroteState_read (writer reader : Side) (h : keys writer = keys reader.other) :
    Step checksumAead (wroteState keys writer) [.read reader ([1] ++ zeroTag) (.ok [1])]
      ((wroteState keys writer).setSession reader
        { (wroteState keys writer).session reader with readNonce := 1 }) := by
  refine .read _ reader ([1] ++ zeroTag)
    { result := .ok [1]
      session := { (wroteState keys writer).session reader with
        readNonce := 1 } } ?_ ?_
  · cases writer <;> cases reader <;> rfl
  · intro _ _
    refine ⟨_, mem_singleton.mpr rfl, ?_, ?_, rfl, rfl⟩
    · rw [h]
      cases writer <;> cases reader <;> rfl
    · cases writer <;> cases reader <;> rfl

def toyEvents : List Event :=
  [.write .initiator [1] (.ok zeroTag), .read .responder ([1] ++ zeroTag) (.ok [1]),
    .read .responder [] (.error .responseBufferTooSmall)]

theorem toyEvents_execution : exists s, (channel checksumAead toyKeys).Execution toyEvents s := by
  have hread := (wroteState_execution toyKeys .initiator).step
    (wroteState_read toyKeys .initiator .responder rfl)
  refine ⟨_, hread.step (.read _ .responder [] ⟨.error .responseBufferTooSmall, _⟩ rfl ?_)⟩
  intro _ hopen
  cases hopen

theorem delivers_in_order_toy : exists s, (channel checksumAead toyKeys).Execution toyEvents s ∧
    received Side.responder toyEvents = [[1]] ∧
    received Side.responder toyEvents <+: sent Side.initiator toyEvents ∧
    forall more s', TransitionSystem.Run (channel checksumAead toyKeys) s more s' ->
      s'.session Side.responder = s.session Side.responder ∧
      forall event, event ∈ more -> event.side = Side.responder ->
        event.result = Except.error NoiseError.sessionClosed := by
  rcases toyEvents_execution with ⟨s, hs⟩
  have hdelivers := delivers_in_order checksumAead_lawful (by decide) hs
    (by intro side; cases side <;> decide)
  have hfailed : ReadFailed .responder toyEvents :=
    ⟨[], .responseBufferTooSmall, by simp [toyEvents]⟩
  exact ⟨s, hs, rfl, hdelivers.1 .responder, hdelivers.2 .responder hfailed⟩

/-- With one key for both directions a side reads its own message back. -/
theorem reflected_message_delivered : exists events s,
    (channel checksumAead fun _ => zeroKey).Execution events s ∧
    (forall side, (sent side events).length < 2 ^ 64 - 1) ∧
    ¬ received Side.initiator events <+:
      sent Side.initiator.other events := by
  have hread := (wroteState_execution (fun _ => zeroKey)
    .initiator).step (wroteState_read (fun _ => zeroKey) .initiator .initiator rfl)
  refine ⟨_, _, hread, ?_, ?_⟩
  · intro side
    cases side <;> decide
  · decide

end Channel

end OpenLibra.Noise
