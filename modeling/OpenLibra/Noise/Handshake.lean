import OpenLibra.Noise.Session

/-!
# The Noise IK handshake

Both sides mix every byte and every shared secret into a rolling hash and a chaining key.
-/

namespace OpenLibra.Noise

open Rust List

variable {privateKey : Type}

/-!
# Cursors
-/

structure Cursor where
  inner : List UInt8
  position : Nat

namespace Cursor

/-- `Write::write` on a slice writes what fits and does not fail. -/
def write (cursor : Cursor) (data : List UInt8) : Cursor :=
  let amount := min data.length (cursor.inner.length - cursor.position)
  { inner := cursor.inner.take cursor.position ++ data.take amount ++
      cursor.inner.drop (cursor.position + amount)
    position := cursor.position + amount }

/-- `Read::read_exact` of an array. -/
def readExact (cursor : Cursor) (length : Nat) : Outcome NoiseError (Bytes length × Cursor) :=
  let bytes := (cursor.inner.drop cursor.position).take length
  if h : bytes.length = length then
    .ok (⟨bytes, h⟩,
      { cursor with position := cursor.position + length })
  else .err .msgTooShort

def between (done rest : List UInt8) : Cursor :=
  { inner := done ++ rest, position := done.length }

theorem remaining_between (done rest : List UInt8) :
    (between done rest).inner.drop (between done rest).position = rest :=
  drop_left

theorem write_between {data rest} (h : data.length ≤ rest.length) (done : List UInt8) :
    (between done rest).write data = between (done ++ data) (rest.drop data.length) := by
  have hamt : min data.length
    ((done ++ rest).length - done.length) = data.length := by
    rw [length_append, Nat.add_sub_cancel_left]
    exact min_eq_left h
  simp only [write, between, hamt]
  rw [take_left, take_length, ← drop_drop, drop_left, length_append]

theorem foldl_write_between (parts : List (List UInt8)) :
    forall (done : List UInt8) {rest : List UInt8}, parts.flatten.length ≤ rest.length ->
        parts.foldl write (between done rest) = between (done ++ parts.flatten)
            (rest.drop parts.flatten.length) := by
  induction parts with
  | nil =>
    intro done rest _
    simp
  | cons data parts ih =>
    intro done rest h
    rw [flatten_cons, length_append] at h
    have hdata : data.length ≤ rest.length := le_trans (Nat.le_add_right _ _) h
    have hparts : parts.flatten.length ≤ (rest.drop data.length).length := by
      rw [length_drop]
      omega
    rw [foldl_cons, write_between hdata, ih _ hparts, flatten_cons, length_append, drop_drop,
      append_assoc]

theorem inner_foldl_write {parts : List (List UInt8)}
    {buffer : List UInt8} (h : parts.flatten.length ≤ buffer.length) :
    (parts.foldl write ⟨buffer, 0⟩).inner = parts.flatten ++ buffer.drop parts.flatten.length :=
  congrArg inner (foldl_write_between parts [] h)

theorem readExact_between {length : Nat} (data : Bytes length) (done rest : List UInt8) :
    (between done (data.val ++ rest)).readExact length =
      .ok (data, between (done ++ data.val) rest) := by
  have hbytes : ((done ++ (data.val ++ rest)).drop done.length).take
    length = data.val := by
    rw [drop_left]
    exact take_left' data.property
  simp only [readExact, between, hbytes, data.property, dif_pos, append_assoc, length_append]
  rfl

end Cursor

/-!
# States
-/

structure NoiseConfig (C : NoiseCrypto privateKey) where
  secret : privateKey
  publicKey : Bytes 32
  publicKey_eq : publicKey = C.publicKeyOf secret

structure InitiatorHandshakeState (privateKey : Type) where
  h : List UInt8
  ck : List UInt8
  e : privateKey
  rs : Bytes 32

structure ResponderHandshakeState where
  h : List UInt8
  ck : List UInt8
  rs : Bytes 32
  re : Bytes 32

def zeroNonce : List UInt8 := replicate aesNonceSize 0

def sealField (C : NoiseCrypto privateKey) (k : Bytes 32) (h plaintext : List UInt8) :
    Outcome NoiseError (List UInt8) :=
  match C.aead.sealAppendTag k zeroNonce h plaintext with
  | none => .err .encrypt
  | some text => .ok text

def openField (C : NoiseCrypto privateKey) (k : Bytes 32) (h text : List UInt8) :
    Outcome NoiseError (List UInt8) :=
  match C.aead.openInPlace k zeroNonce h text with
  | none => .err .decrypt
  | some plaintext => .ok plaintext

/-- `x25519::PublicKey::try_from`. -/
def publicKeyTryFrom (bytes : List UInt8) : Outcome NoiseError (Bytes 32) :=
  if h : bytes.length = 32 then .ok ⟨bytes, h⟩
  else .err .wrongPublicKeyReceived

namespace NoiseConfig

variable {C : NoiseCrypto privateKey}

def new (C : NoiseCrypto privateKey) (secret : privateKey) : NoiseConfig C :=
  { secret := secret
    publicKey := C.publicKeyOf secret
    publicKey_eq := rfl }

variable (self : NoiseConfig C)

/-- The first message is written to the front of the response buffer; the
ephemeral key `e` is the one drawn from the random number generator. -/
def initiateConnection (e : privateKey) (prologue : List UInt8)
    (remotePublic : Bytes 32) (payload : Option (List UInt8)) (responseBuffer : List UInt8) :
    Outcome NoiseError
      (InitiatorHandshakeState privateKey × List UInt8) := do
  let payloadLen := (payload.map length).getD 0
  let bufferSizeRequired := handshakeInitMsgLen payloadLen
  ensure (¬ maxSizeNoiseMsg < bufferSizeRequired) .payloadTooLarge
  ensure (¬ responseBuffer.length < bufferSizeRequired) .responseBufferTooSmall
  let rs := remotePublic
  let h := mixHash C protocolName prologue
  let h := mixHash C h rs.val
  -- -> e
  let ePub := C.publicKeyOf e
  let h := mixHash C h ePub.val
  let buffer := (Cursor.mk responseBuffer 0).write ePub.val
  -- -> es
  let (ck, k) <- mixKey C protocolName (C.diffieHellman e rs)
  -- -> s
  let encryptedStatic <- sealField C k h self.publicKey.val
  let h := mixHash C h encryptedStatic
  let buffer := buffer.write encryptedStatic
  -- -> ss
  let (ck, k) <- mixKey C ck (C.diffieHellman self.secret rs)
  -- -> payload
  let encryptedPayload <- sealField C k h (payload.getD [])
  let h := mixHash C h encryptedPayload
  let buffer := buffer.write encryptedPayload
  return ({ h := h, ck := ck, e := e, rs := rs }, buffer.inner)

def finalizeConnection (state : InitiatorHandshakeState privateKey) (receivedMessage : List UInt8) :
    Outcome NoiseError (List UInt8 × NoiseSession) := do
  ensure (¬ maxSizeNoiseMsg < receivedMessage.length) .receivedMsgTooLarge
  -- <- e
  let (re, cursor) <-
    (Cursor.mk receivedMessage 0).readExact publicKeySize
  let h := mixHash C state.h re.val
  -- <- ee
  let (ck, _) <- mixKey C state.ck (C.diffieHellman state.e re)
  -- <- se
  let (ck, k) <- mixKey C ck (C.diffieHellman self.secret re)
  -- <- payload
  let plaintext <- openField C k h (cursor.inner.drop cursor.position)
  let (k1, k2) <- hkdf C ck none
  return (plaintext, NoiseSession.new k1 k2 state.rs)

def parseClientInitMessage (prologue : List UInt8) (receivedMessage : List UInt8) :
    Outcome NoiseError
      (Bytes 32 × ResponderHandshakeState × List UInt8) := do
  ensure (¬ maxSizeNoiseMsg < receivedMessage.length) .receivedMsgTooLarge
  let h := mixHash C protocolName prologue
  let h := mixHash C h self.publicKey.val
  -- <- e
  let (re, cursor) <-
    (Cursor.mk receivedMessage 0).readExact publicKeySize
  let h := mixHash C h re.val
  -- <- es
  let (ck, k) <- mixKey C protocolName (C.diffieHellman self.secret re)
  -- <- s
  let (encryptedRemoteStatic, cursor) <-
    cursor.readExact (publicKeySize + aesGcmTaglen)
  let rs <- openField C k h encryptedRemoteStatic.val
  let rs <- publicKeyTryFrom rs
  let h := mixHash C h encryptedRemoteStatic.val
  -- <- ss
  let (ck, k) <- mixKey C ck (C.diffieHellman self.secret rs)
  -- <- payload
  let receivedEncryptedPayload := cursor.inner.drop cursor.position
  let receivedPayload <- openField C k h receivedEncryptedPayload
  let h := mixHash C h receivedEncryptedPayload
  return (rs, { h := h, ck := ck, rs := rs, re := re }, receivedPayload)

def respondToClient (_self : NoiseConfig C) (e : privateKey) (state : ResponderHandshakeState)
    (payload : Option (List UInt8)) (responseBuffer : List UInt8) :
    Outcome NoiseError (NoiseSession × List UInt8) := do
  let payloadLen := (payload.map length).getD 0
  let bufferSizeRequired := handshakeRespMsgLen payloadLen
  ensure (¬ maxSizeNoiseMsg < bufferSizeRequired) .payloadTooLarge
  ensure (¬ responseBuffer.length < bufferSizeRequired) .responseBufferTooSmall
  -- -> e
  let ePub := C.publicKeyOf e
  let h := mixHash C state.h ePub.val
  let buffer := (Cursor.mk responseBuffer 0).write ePub.val
  -- -> ee
  let (ck, _) <- mixKey C state.ck (C.diffieHellman e state.re)
  -- -> se
  let (ck, k) <- mixKey C ck (C.diffieHellman e state.rs)
  -- -> payload
  let encryptedPayload <- sealField C k h (payload.getD [])
  let buffer := buffer.write encryptedPayload
  let (k1, k2) <- hkdf C ck none
  return (NoiseSession.new k2 k1 state.rs, buffer.inner)

/-!
# What the messages hold
-/

structure Seals (C : NoiseCrypto privateKey) (k : Bytes 32)
    (h plaintext text : List UInt8) : Prop where
  seal_eq : C.aead.sealAppendTag k zeroNonce h plaintext = some text
  length_eq : text.length = encryptedLen plaintext.length
  open_eq : C.aead.openInPlace k zeroNonce h text = some plaintext

variable {plaintext text encryptedPayload prologue payload other : List UInt8} {re : Bytes 32}

theorem exists_seals (haead : C.aead.Lawful) (k : Bytes 32) (h : List UInt8)
    (hlen : plaintext.length ≤ maxSizeNoiseMsg) : exists text, Seals C k h plaintext text := by
  rcases haead.exists_sealAppendTag k zeroNonce h hlen with ⟨text, hseal, htext, hopen⟩
  exact ⟨text, hseal, htext, hopen⟩

theorem Seals.sealField_eq {k : Bytes 32} {h} (hseals : Seals C k h plaintext text) :
    sealField C k h plaintext = .ok text := by
  simp [sealField, hseals.seal_eq]

theorem Seals.openField_eq {k : Bytes 32} {h} (hseals : Seals C k h plaintext text) :
    openField C k h text = .ok plaintext := by
  simp [openField, hseals.open_eq]

theorem publicKeyTryFrom_val (key : Bytes 32) : publicKeyTryFrom key.val = .ok key :=
  dif_pos key.property

def initTranscript (C : NoiseCrypto privateKey) (prologue : List UInt8)
    (responderStatic ephemeral : Bytes 32) : List UInt8 :=
  mixHash C (mixHash C (mixHash C protocolName prologue) responderStatic.val) ephemeral.val

/-- The encrypted fields of the first message, for the shared secrets `es` and
`ss`. -/
structure InitFields (C : NoiseCrypto privateKey) (transcript : List UInt8)
    (es ss static : Bytes 32) (payload : List UInt8) where
  encryptedStatic : List UInt8
  encryptedPayload : List UInt8
  seals_static : Seals C (derived C protocolName es).2 transcript static.val encryptedStatic
  seals_payload : Seals C (derived C (derived C protocolName es).1.val ss).2
    (mixHash C transcript encryptedStatic) payload encryptedPayload

namespace InitFields

variable {transcript payload : List UInt8} {es ss static : Bytes 32}
  (fields : InitFields C transcript es ss static payload)

def bytes : List UInt8 :=
  fields.encryptedStatic ++ fields.encryptedPayload

def finalHash : List UInt8 :=
  mixHash C (mixHash C transcript fields.encryptedStatic) fields.encryptedPayload

theorem length_encryptedStatic : fields.encryptedStatic.length = publicKeySize + aesGcmTaglen := by
  rw [fields.seals_static.length_eq, static.property]
  rfl

theorem length_message (ephemeral : Bytes 32) :
    (ephemeral.val ++ fields.bytes).length = handshakeInitMsgLen payload.length := by
  rw [bytes, length_append, length_append, ephemeral.property, fields.length_encryptedStatic,
    fields.seals_payload.length_eq, ← add_assoc]
  rfl

end InitFields

/-!
# The four calls on unmodified messages
-/

theorem length_getD_payload (payload : Option (List UInt8)) :
    (payload.map length).getD 0 = (payload.getD []).length := by
  cases payload <;> rfl

def initChainingKey (C : NoiseCrypto privateKey) (es ss : Bytes 32) : List UInt8 :=
  (derived C (derived C protocolName es).1.val ss).1.val

theorem initiateConnection_eq_ok (haead : C.aead.Lawful) (self : NoiseConfig C) (e : privateKey)
    (prologue : List UInt8) (rs : Bytes 32) (payload : Option (List UInt8)) (buffer : List UInt8)
    (hsize : handshakeInitMsgLen (payload.getD []).length ≤ maxSizeNoiseMsg)
    (hbuffer : handshakeInitMsgLen (payload.getD []).length ≤ buffer.length) :
    exists fields : InitFields C (initTranscript C prologue rs (C.publicKeyOf e))
        (C.diffieHellman e rs) (C.diffieHellman self.secret rs)
        self.publicKey (payload.getD []),
      self.initiateConnection e prologue rs payload buffer = .ok
          ({ h := fields.finalHash
             ck := initChainingKey C (C.diffieHellman e rs) (C.diffieHellman self.secret rs)
             e := e
             rs := rs },
            (C.publicKeyOf e).val ++ fields.bytes ++ buffer.drop
                (handshakeInitMsgLen (payload.getD []).length)) := by
  have hstatic : self.publicKey.val.length ≤ maxSizeNoiseMsg := by
    rw [self.publicKey.property]
    decide
  have hpay : (payload.getD []).length ≤ maxSizeNoiseMsg :=
    le_trans (by unfold handshakeInitMsgLen encryptedLen; omega) hsize
  rcases exists_seals haead (derived C protocolName (C.diffieHellman e rs)).2
      (initTranscript C prologue rs (C.publicKeyOf e)) hstatic with
    ⟨encryptedStatic, hsealsStatic⟩
  rcases exists_seals haead (derived C (derived C protocolName (C.diffieHellman e rs)).1.val
        (C.diffieHellman self.secret rs)).2
      (mixHash C (initTranscript C prologue rs (C.publicKeyOf e)) encryptedStatic) hpay with
    ⟨encryptedPayload, hsealsPay⟩
  let fields : InitFields C (initTranscript C prologue rs (C.publicKeyOf e))
      (C.diffieHellman e rs) (C.diffieHellman self.secret rs)
      self.publicKey (payload.getD []) :=
    ⟨encryptedStatic, encryptedPayload, hsealsStatic, hsealsPay⟩
  refine ⟨fields, ?_⟩
  have hlen : [(C.publicKeyOf e).val, encryptedStatic, encryptedPayload].flatten.length =
      handshakeInitMsgLen (payload.getD []).length := by
    rw [← fields.length_message (C.publicKeyOf e)]
    simp [InitFields.bytes, fields]
  have hwr := Cursor.inner_foldl_write (le_trans (le_of_eq hlen) hbuffer)
  rw [hlen] at hwr
  have hstaticField := hsealsStatic.sealField_eq
  have hpayField := hsealsPay.sealField_eq
  unfold initTranscript at hstaticField hpayField
  simp only [initiateConnection, length_getD_payload, ensure, not_lt.mpr hsize, not_lt.mpr
    hbuffer, not_false_eq_true, if_true, ok_bind, mixKey_eq, hstaticField, hpayField, pure_eq]
  refine congrArg Outcome.ok (Prod.ext rfl ?_)
  simpa [InitFields.bytes, fields] using hwr

theorem parseClientInitMessage_append (prologue : List UInt8) (re : Bytes 32)
    (encryptedStatic : Bytes (publicKeySize + aesGcmTaglen))
    (hlen : (re.val ++ (encryptedStatic.val ++ encryptedPayload)).length ≤ maxSizeNoiseMsg) :
    self.parseClientInitMessage prologue (re.val ++ (encryptedStatic.val ++ encryptedPayload)) =
      (do
          let transcript := initTranscript C prologue self.publicKey re
          let es := C.diffieHellman self.secret re
          let rs <- openField C (derived C protocolName es).2 transcript encryptedStatic.val
          let rs <- publicKeyTryFrom rs
          let ss := C.diffieHellman self.secret rs
          let h := mixHash C transcript encryptedStatic.val
          let payload <- openField C (derived C (derived C protocolName es).1.val ss).2 h
            encryptedPayload
          return (rs,
            { h := mixHash C h encryptedPayload
              ck := initChainingKey C es ss
              rs := rs
              re := re },
            payload)) := by
  have hstart : Cursor.mk (re.val ++ (encryptedStatic.val ++ encryptedPayload)) 0 =
      Cursor.between [] (re.val ++ (encryptedStatic.val ++ encryptedPayload)) := rfl
  have hephemeral : (Cursor.between [] (re.val ++
    (encryptedStatic.val ++ encryptedPayload))).readExact publicKeySize =
      .ok (re, Cursor.between ([] ++ re.val) (encryptedStatic.val ++ encryptedPayload)) :=
    Cursor.readExact_between re [] _
  simp only [parseClientInitMessage, ensure, not_lt.mpr hlen, not_false_eq_true, if_true,
    ok_bind, hstart, hephemeral, mixKey_eq, Cursor.readExact_between, Cursor.remaining_between]
  rfl

theorem parseClientInitMessage_eq_ok {rs : Bytes 32}
    (fields : InitFields C (initTranscript C prologue self.publicKey re)
      (C.diffieHellman self.secret re) (C.diffieHellman self.secret rs) rs payload)
    (hsize : handshakeInitMsgLen payload.length ≤ maxSizeNoiseMsg) :
    self.parseClientInitMessage prologue (re.val ++ fields.bytes) = .ok (rs,
        { h := fields.finalHash
          ck := initChainingKey C (C.diffieHellman self.secret re) (C.diffieHellman self.secret rs)
          rs := rs
          re := re },
        payload) := by
  have hparse := self.parseClientInitMessage_append prologue re
    ⟨fields.encryptedStatic, fields.length_encryptedStatic⟩
    (le_trans (le_of_eq (fields.length_message re)) hsize)
  rw [InitFields.bytes, hparse]
  simp only [fields.seals_static.openField_eq, ok_bind,
    publicKeyTryFrom_val, fields.seals_payload.openField_eq]
  rfl

theorem parseClientInitMessage_eq_decrypt {transcript} {ss static : Bytes 32}
    (fields : InitFields C transcript (C.diffieHellman self.secret re) ss static payload)
    (hsize : handshakeInitMsgLen payload.length ≤ maxSizeNoiseMsg)
    (hother : initTranscript C prologue self.publicKey re ≠ transcript)
    (hrejects : C.aead.RejectsOtherAad transcript (initTranscript C prologue self.publicKey re)) :
    self.parseClientInitMessage prologue (re.val ++ fields.bytes) = .err .decrypt := by
  have hparse := self.parseClientInitMessage_append prologue re
    ⟨fields.encryptedStatic, fields.length_encryptedStatic⟩
    (le_trans (le_of_eq (fields.length_message re)) hsize)
  have hopen := hrejects.open_eq_none hother fields.seals_static.seal_eq
  rw [InitFields.bytes, hparse]
  simp only [openField, hopen, err_bind]

def respKeys (C : NoiseCrypto privateKey) (ck : List UInt8) (ee se : Bytes 32) :
    Bytes 32 × Bytes 32 :=
  derived C (derived C ck ee).1.val se

def sessionKeys (C : NoiseCrypto privateKey) (ck : Bytes 32) : Bytes 32 × Bytes 32 :=
  splitKeys (C.hkdfExpand (C.hkdfExtract ck.val []))

theorem hkdf_none (ck : Bytes 32) : hkdf C ck.val none = .ok (sessionKeys C ck) := rfl

theorem respondToClient_eq_ok (haead : C.aead.Lawful) (self : NoiseConfig C) (e : privateKey)
    (state : ResponderHandshakeState) (payload : Option (List UInt8)) (buffer : List UInt8)
    (hsize : handshakeRespMsgLen (payload.getD []).length ≤ maxSizeNoiseMsg)
    (hbuffer : handshakeRespMsgLen (payload.getD []).length ≤ buffer.length) :
    exists encryptedPayload, Seals C (respKeys C state.ck (C.diffieHellman e state.re)
            (C.diffieHellman e state.rs)).2 (mixHash C state.h (C.publicKeyOf e).val)
          (payload.getD []) encryptedPayload ∧
        self.respondToClient e state payload buffer = .ok (NoiseSession.new
              (sessionKeys C (respKeys C state.ck (C.diffieHellman e state.re)
                (C.diffieHellman e state.rs)).1).2
              (sessionKeys C (respKeys C state.ck (C.diffieHellman e state.re)
                (C.diffieHellman e state.rs)).1).1 state.rs,
            (C.publicKeyOf e).val ++ encryptedPayload ++ buffer.drop
                (handshakeRespMsgLen (payload.getD []).length)) := by
  have hpay : (payload.getD []).length ≤ maxSizeNoiseMsg :=
    le_trans (by unfold handshakeRespMsgLen encryptedLen; omega) hsize
  rcases exists_seals haead (respKeys C state.ck (C.diffieHellman e state.re)
        (C.diffieHellman e state.rs)).2
      (mixHash C state.h (C.publicKeyOf e).val) hpay with
    ⟨encryptedPayload, hseals⟩
  refine ⟨encryptedPayload, hseals, ?_⟩
  have hlen : [(C.publicKeyOf e).val, encryptedPayload].flatten.length =
    handshakeRespMsgLen (payload.getD []).length := by
    simp [(C.publicKeyOf e).property, hseals.length_eq, handshakeRespMsgLen, publicKeySize]
  have hwr := Cursor.inner_foldl_write (le_trans (le_of_eq hlen) hbuffer)
  rw [hlen] at hwr
  have hpayField := hseals.sealField_eq
  unfold respKeys at hpayField
  simp only [respondToClient, length_getD_payload, ensure, not_lt.mpr hsize, not_lt.mpr
    hbuffer, not_false_eq_true, if_true, ok_bind, mixKey_eq, hpayField, hkdf_none, pure_eq]
  refine congrArg Outcome.ok (Prod.ext rfl ?_)
  simpa using hwr

theorem finalizeConnection_eq_ok (state : InitiatorHandshakeState privateKey)
    (hseals : Seals C (respKeys C state.ck (C.diffieHellman state.e re) (C.diffieHellman self.secret
      re)).2 (mixHash C state.h re.val) payload encryptedPayload)
    (hsize : handshakeRespMsgLen payload.length ≤ maxSizeNoiseMsg) :
    self.finalizeConnection state (re.val ++ encryptedPayload) = .ok (payload,
        NoiseSession.new (sessionKeys C (respKeys C state.ck (C.diffieHellman state.e re)
            (C.diffieHellman self.secret re)).1).1
          (sessionKeys C (respKeys C state.ck (C.diffieHellman state.e re)
            (C.diffieHellman self.secret re)).1).2 state.rs) := by
  have hlen : ¬ maxSizeNoiseMsg < (re.val ++ encryptedPayload).length := by
    rw [length_append, re.property, hseals.length_eq]
    exact not_lt.mpr hsize
  have hstart : Cursor.mk (re.val ++ encryptedPayload) 0 =
    Cursor.between [] (re.val ++ encryptedPayload) := rfl
  have hephemeral : (Cursor.between [] (re.val ++ encryptedPayload)).readExact publicKeySize =
      .ok (re, Cursor.between ([] ++ re.val) encryptedPayload) :=
    Cursor.readExact_between re [] _
  have hpayField := hseals.openField_eq
  unfold respKeys at hpayField
  simp only [finalizeConnection, ensure, hlen, not_false_eq_true, if_true, ok_bind, hstart,
    hephemeral, mixKey_eq, Cursor.remaining_between, hpayField, hkdf_none]
  rfl

theorem initTranscript_injective (hsha : Function.Injective C.sha256)
    {responderStatic ephemeral : Bytes 32}
    (h : initTranscript C prologue responderStatic ephemeral =
      initTranscript C other responderStatic ephemeral) : prologue = other := by
  unfold initTranscript mixHash at h
  have hstatic := append_cancel_right (hsha h)
  have hprol := append_cancel_right (hsha hstatic)
  exact append_cancel_left (hsha hprol)

/-- The sessions of the two sides of a handshake: crossed keys, counters at
zero, and each other's static key. -/
structure Paired (initiator responder : NoiseConfig C)
    (ours theirs : NoiseSession) : Prop where
  valid : ours.valid = true ∧ theirs.valid = true
  write_read : ours.writeKey = theirs.readKey
  read_write : ours.readKey = theirs.writeKey
  writeNonce : ours.writeNonce = 0 ∧ theirs.writeNonce = 0
  readNonce : ours.readNonce = 0 ∧ theirs.readNonce = 0
  initiatorRemote : ours.getRemoteStatic = responder.publicKey
  responderRemote : theirs.getRemoteStatic = initiator.publicKey

/-- On unmodified messages both sides finish with each other's payload and
paired sessions.  A responder with another prologue rejects the first
message. -/
theorem handshake_agreement
    (hdh : forall a b, C.diffieHellman a (C.publicKeyOf b) = C.diffieHellman b (C.publicKeyOf a))
    (haead : C.aead.Lawful) (initiator responder : NoiseConfig C)
    (ephemeral responderEphemeral : privateKey) (prologue : List UInt8)
    (payload response : Option (List UInt8)) (buffer responseBuffer : List UInt8)
    (hsize : handshakeInitMsgLen (payload.getD []).length ≤ maxSizeNoiseMsg)
    (hbuffer : handshakeInitMsgLen (payload.getD []).length ≤ buffer.length)
    (hresponseSize : handshakeRespMsgLen (response.getD []).length ≤ maxSizeNoiseMsg)
    (hresponseBuffer : handshakeRespMsgLen (response.getD []).length ≤ responseBuffer.length) :
    exists initiatorState written responderState answer ours theirs,
      initiator.initiateConnection ephemeral prologue responder.publicKey
          payload buffer = Outcome.ok (initiatorState, written) ∧
      responder.parseClientInitMessage prologue
          (written.take (handshakeInitMsgLen (payload.getD []).length)) =
        Outcome.ok (initiator.publicKey, responderState, payload.getD []) ∧
      responder.respondToClient responderEphemeral responderState response
          responseBuffer = Outcome.ok (theirs, answer) ∧
      initiator.finalizeConnection initiatorState
          (answer.take (handshakeRespMsgLen (response.getD []).length)) =
        Outcome.ok (response.getD [], ours) ∧
      Paired initiator responder ours theirs ∧
      forall other, other ≠ prologue -> Function.Injective C.sha256 -> C.aead.RejectsOtherAad
          (initTranscript C prologue responder.publicKey (C.publicKeyOf ephemeral))
          (initTranscript C other responder.publicKey (C.publicKeyOf ephemeral)) ->
        responder.parseClientInitMessage other
            (written.take (handshakeInitMsgLen (payload.getD []).length)) =
          Outcome.err NoiseError.decrypt := by
  -- Both sides compute the shared secrets from opposite ends.
  have hes : C.diffieHellman ephemeral responder.publicKey =
    C.diffieHellman responder.secret (C.publicKeyOf ephemeral) := by
    rw [responder.publicKey_eq]
    exact hdh _ _
  have hss : C.diffieHellman initiator.secret responder.publicKey =
    C.diffieHellman responder.secret initiator.publicKey := by
    rw [responder.publicKey_eq, initiator.publicKey_eq]
    exact hdh _ _
  have hse : C.diffieHellman responderEphemeral initiator.publicKey =
    C.diffieHellman initiator.secret
      (C.publicKeyOf responderEphemeral) := by
    rw [initiator.publicKey_eq]
    exact hdh _ _
  have hinitiate := initiator.initiateConnection_eq_ok haead ephemeral
    prologue responder.publicKey payload buffer hsize hbuffer
  rw [hes, hss] at hinitiate
  rcases hinitiate with ⟨fields, hinitiate⟩
  have hmessage : ((C.publicKeyOf ephemeral).val ++ fields.bytes ++
    buffer.drop (handshakeInitMsgLen (payload.getD []).length)).take
      (handshakeInitMsgLen (payload.getD []).length) =
    (C.publicKeyOf ephemeral).val ++ fields.bytes :=
    take_left' (fields.length_message (C.publicKeyOf ephemeral))
  have hparse := responder.parseClientInitMessage_eq_ok fields hsize
  rcases responder.respondToClient_eq_ok haead responderEphemeral
      { h := fields.finalHash
        ck := initChainingKey C (C.diffieHellman responder.secret (C.publicKeyOf ephemeral))
          (C.diffieHellman responder.secret initiator.publicKey)
        rs := initiator.publicKey
        re := C.publicKeyOf ephemeral }
      response responseBuffer hresponseSize hresponseBuffer with
    ⟨encryptedPayload, hseals, hrespond⟩
  rw [hdh responderEphemeral ephemeral, hse] at hseals
  have hanswer : ((C.publicKeyOf responderEphemeral).val ++ encryptedPayload ++ responseBuffer.drop
      (handshakeRespMsgLen (response.getD []).length)).take
      (handshakeRespMsgLen (response.getD []).length) =
    (C.publicKeyOf responderEphemeral).val ++ encryptedPayload := by
    apply take_left'
    rw [length_append, (C.publicKeyOf responderEphemeral).property, hseals.length_eq]
    rfl
  have hfinalize := initiator.finalizeConnection_eq_ok
    { h := fields.finalHash
      ck := initChainingKey C (C.diffieHellman responder.secret (C.publicKeyOf ephemeral))
        (C.diffieHellman responder.secret initiator.publicKey)
      e := ephemeral
      rs := responder.publicKey }
    hseals hresponseSize
  rw [← hmessage] at hparse
  rw [← hanswer] at hfinalize
  refine ⟨_, _, _, _, _, _, hinitiate, hparse, hrespond, hfinalize, ?_, ?_⟩
  · rw [hdh responderEphemeral ephemeral, hse]
    exact ⟨⟨rfl, rfl⟩, rfl, rfl, ⟨rfl, rfl⟩, ⟨rfl, rfl⟩, rfl, rfl⟩
  · intro _ hother hsha hrejects
    rw [hmessage]
    apply responder.parseClientInitMessage_eq_decrypt fields hsize _ hrejects
    intro htranscript
    exact hother (initTranscript_injective hsha htranscript)

/-!
# A toy instance
-/

def checksum (bytes : List UInt8) : UInt8 := bytes.foldl (fun total byte => total + byte) 0

def checksumAead : Aead :=
  { sealSeparateTag := fun _ _ aad plaintext =>
      some (plaintext, replicate 16 (checksum aad))
    openInPlace := fun _ _ aad text =>
      if text.drop (text.length - 16) = replicate 16 (checksum aad) then
        some (text.take (text.length - 16))
      else none }

theorem checksumAead_lawful : checksumAead.Lawful where
  exists_seal _ _ _ _ _ := ⟨_, rfl⟩
  length_ciphertext := by
    intro key nonce aad plaintext sealed h
    cases h
    rfl
  length_tag := by
    intro key nonce aad plaintext sealed h
    cases h
    rfl
  open_seal := by
    intro _ _ _ _ _ h
    cases h
    simp [checksumAead]

theorem checksumAead_rejectsOtherAad {aad} (h : checksum other ≠ checksum aad) :
    checksumAead.RejectsOtherAad aad other := by
  intro _ _ _ _ _ hsealed
  cases hsealed
  simp [checksumAead, Ne.symm h]

def toyCrypto : NoiseCrypto UInt8 :=
  { publicKeyOf := fun secret => ⟨replicate 32 secret, rfl⟩
    diffieHellman := fun secret key =>
      ⟨replicate 32 (secret * key.val.headD 0), rfl⟩
    sha256 := id
    hkdfExtract := fun salt ikm => salt ++ ikm
    hkdfExpand := fun prk =>
      ⟨(prk ++ replicate 64 0).take 64, by simp⟩
    aead := checksumAead }

theorem toyCrypto_diffieHellman (a b : UInt8) :
    toyCrypto.diffieHellman a (toyCrypto.publicKeyOf b) =
      toyCrypto.diffieHellman b (toyCrypto.publicKeyOf a) := by
  apply Subtype.ext
  exact congrArg (replicate 32) (UInt8.mul_comm a b)

/-- A run of the toy instance with a payload in each direction, and the same
message at a responder with another prologue. -/
theorem handshake_agreement_toy : exists initiatorState written responderState answer ours theirs,
    (new toyCrypto 3).initiateConnection 7 [1]
        (new toyCrypto 5).publicKey (some [42]) (List.replicate 200 0) =
      Outcome.ok (initiatorState, written) ∧
    (new toyCrypto 5).parseClientInitMessage [1] (written.take 97) =
      Outcome.ok ((new toyCrypto 3).publicKey, responderState, [42]) ∧
    (new toyCrypto 5).respondToClient 11 responderState none
        (List.replicate 48 0) = Outcome.ok (theirs, answer) ∧
    (new toyCrypto 3).finalizeConnection initiatorState (answer.take 48) = Outcome.ok ([], ours) ∧
    Paired (new toyCrypto 3) (new toyCrypto 5) ours theirs ∧
    (new toyCrypto 5).parseClientInitMessage [2] (written.take 97) =
      Outcome.err NoiseError.decrypt := by
  rcases handshake_agreement toyCrypto_diffieHellman checksumAead_lawful
      (new toyCrypto 3) (new toyCrypto 5) 7 11 [1] (some [42]) none
      (replicate 200 0) (replicate 48 0) (by decide)
      (by rw [length_replicate]; decide) (by decide)
      (by rw [length_replicate]; decide) with
    ⟨initiatorState, written, responderState, answer, ours, theirs,
      hinitiate, hparse, hrespond, hfinalize, hpaired, hother⟩
  exact ⟨initiatorState, written, responderState, answer, ours, theirs,
    hinitiate, hparse, hrespond, hfinalize, hpaired,
    hother [2] (by decide) Function.injective_id
      (checksumAead_rejectsOtherAad (by decide +kernel))⟩

end NoiseConfig

end OpenLibra.Noise
