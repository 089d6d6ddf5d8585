import Mathlib.Data.List.Nodup
import OpenLibra.Noise.Primitives

/-!
# Noise sessions

After the handshake each side seals its messages under a counter and opens the
other side's under another one.  A session is closed by a read that fails.
-/

namespace OpenLibra.Noise

open Rust List

/-!
# Nonces
-/

/-- `u64::to_be_bytes`. -/
def toBeBytes (n : UInt64) : List UInt8 :=
  [UInt8.ofNat (n.toNat / 256 ^ 7), UInt8.ofNat (n.toNat / 256 ^ 6),
    UInt8.ofNat (n.toNat / 256 ^ 5), UInt8.ofNat (n.toNat / 256 ^ 4),
    UInt8.ofNat (n.toNat / 256 ^ 3), UInt8.ofNat (n.toNat / 256 ^ 2),
    UInt8.ofNat (n.toNat / 256), UInt8.ofNat n.toNat]

def sessionNonce (counter : UInt64) : List UInt8 := replicate 4 0 ++ toBeBytes counter

/-- `u64::checked_add(1)`. -/
def checkedSucc (counter : UInt64) : Option UInt64 :=
  if counter.toNat + 1 < u64Bound then some (counter + 1) else none

theorem toBeBytes_injective {a b : UInt64} (h : toBeBytes a = toBeBytes b) : a = b := by
  have ha := a.toNat_lt
  have hb := b.toNat_lt
  apply UInt64.toNat_inj.mp
  simp only [toBeBytes, cons.injEq, ← UInt8.toNat_inj, UInt8.toNat_ofNat'] at h
  omega

theorem sessionNonce_injective {a b : UInt64} (h : sessionNonce a = sessionNonce b) : a = b :=
  toBeBytes_injective (append_cancel_left h)

theorem toNat_add_one {counter : UInt64} (h : counter.toNat + 1 < u64Bound) :
    (counter + 1).toNat = counter.toNat + 1 := by
  unfold u64Bound at h
  rw [UInt64.toNat_add]
  exact Nat.mod_eq_of_lt h

/-!
# Sessions
-/

structure NoiseSession where
  valid : Bool
  remotePublicKey : Bytes 32
  writeKey : Bytes 32
  writeNonce : UInt64
  readKey : Bytes 32
  readNonce : UInt64
deriving DecidableEq

structure Written where
  result : Except NoiseError (List UInt8)
  session : NoiseSession
  buffer : List UInt8
  sealedUnder : Option (Bytes 32 × List UInt8)

structure ReadOut where
  result : Except NoiseError (List UInt8)
  session : NoiseSession

namespace NoiseSession

def new (writeKey readKey remotePublicKey : Bytes 32) : NoiseSession :=
  { valid := true
    remotePublicKey := remotePublicKey
    writeKey := writeKey
    writeNonce := 0
    readKey := readKey
    readNonce := 0 }

def getRemoteStatic (self : NoiseSession) : Bytes 32 := self.remotePublicKey

variable (aead : Aead) (self : NoiseSession) (message : List UInt8)

def writeMessageInPlace : Written :=
  if self.valid = false then
    { result := .error .sessionClosed
      session := self
      buffer := message
      sealedUnder := none }
  else if maxSizeNoiseMsg - aesGcmTaglen < message.length then
    { result := .error .payloadTooLarge
      session := self
      buffer := message
      sealedUnder := none }
  else
    let nonce := sessionNonce self.writeNonce
    match aead.sealSeparateTag self.writeKey nonce [] message with
    | none =>
      { result := .error .encrypt
        session := self
        buffer := message
        sealedUnder := none }
    | some (ciphertext, tag) =>
      match checkedSucc self.writeNonce with
      | none =>
        { result := .error .nonceOverflow
          session := self
          buffer := ciphertext
          sealedUnder := some (self.writeKey, nonce) }
      | some next =>
        { result := .ok tag
          session := { self with writeNonce := next }
          buffer := ciphertext
          sealedUnder := some (self.writeKey, nonce) }

def readMessageInPlace : ReadOut :=
  if self.valid = false then
    { result := .error .sessionClosed
      session := self }
  else if maxSizeNoiseMsg < message.length then
    { result := .error .receivedMsgTooLarge
      session := { self with valid := false } }
  else if message.length < aesGcmTaglen then
    { result := .error .responseBufferTooSmall
      session := { self with valid := false } }
  else
    match aead.openInPlace self.readKey (sessionNonce self.readNonce) []
        message with
    | none =>
      { result := .error .decrypt
        session := { self with valid := false } }
    | some plaintext =>
      match checkedSucc self.readNonce with
      | none =>
        { result := .error .nonceOverflow
          session := self }
      | some next =>
        { result := .ok plaintext
          session := { self with readNonce := next } }

theorem write_closed (aead : Aead) {self : NoiseSession}
    (h : self.valid = false) (message : List UInt8) :
    (self.writeMessageInPlace aead message).result = .error .sessionClosed ∧
      (self.writeMessageInPlace aead message).session = self := by
  simp [writeMessageInPlace, h]

theorem read_closed (aead : Aead) {self : NoiseSession}
    (h : self.valid = false) (message : List UInt8) :
    (self.readMessageInPlace aead message).result = .error .sessionClosed ∧
      (self.readMessageInPlace aead message).session = self := by
  simp [readMessageInPlace, h]

theorem write_cases :
    (exists e, self.writeMessageInPlace aead message =
        { result := .error e
          session := self
          buffer := message
          sealedUnder := none }) ∨
    exists ciphertext tag, aead.sealSeparateTag self.writeKey (sessionNonce self.writeNonce) []
          message = some (ciphertext, tag) ∧
      ((self.writeNonce.toNat + 1 < u64Bound ∧ self.writeMessageInPlace aead message =
          { result := .ok tag
            session := { self with writeNonce := self.writeNonce + 1 }
            buffer := ciphertext
            sealedUnder := some (self.writeKey, sessionNonce self.writeNonce) }) ∨
      (u64Bound ≤ self.writeNonce.toNat + 1 ∧ self.writeMessageInPlace aead message =
          { result := .error .nonceOverflow
            session := self
            buffer := ciphertext
            sealedUnder :=
                some (self.writeKey, sessionNonce self.writeNonce) })) := by
  unfold writeMessageInPlace
  split
  · exact .inl ⟨_, rfl⟩
  · split
    · exact .inl ⟨_, rfl⟩
    · cases hseal : aead.sealSeparateTag self.writeKey
          (sessionNonce self.writeNonce) [] message with
      | none => exact .inl ⟨.encrypt, by simp only [hseal]⟩
      | some sealed =>
        refine .inr ⟨sealed.1, sealed.2, rfl, ?_⟩
        by_cases hlt : self.writeNonce.toNat + 1 < u64Bound
        · exact .inl ⟨hlt, by simp [hseal, checkedSucc, hlt]⟩
        · exact .inr ⟨not_lt.mp hlt, by
            simp [hseal, checkedSucc, hlt]⟩

theorem read_cases :
    (exists e, self.readMessageInPlace aead message =
        { result := .error e
          session := { self with valid := false } }) ∨
    exists plaintext, aead.openInPlace self.readKey (sessionNonce self.readNonce) [] message =
        some plaintext ∧
      ((self.readNonce.toNat + 1 < u64Bound ∧ self.readMessageInPlace aead message =
          { result := .ok plaintext
            session := { self with readNonce := self.readNonce + 1 } }) ∨
      (u64Bound ≤ self.readNonce.toNat + 1 ∧ self.readMessageInPlace aead message =
          { result := .error .nonceOverflow
            session := self })) := by
  unfold readMessageInPlace
  split
  · next hclosed =>
      refine .inl ⟨.sessionClosed, ?_⟩
      rw [← hclosed]
  · split
    · exact .inl ⟨_, rfl⟩
    · split
      · exact .inl ⟨_, rfl⟩
      · cases hopen : aead.openInPlace self.readKey
            (sessionNonce self.readNonce) [] message with
        | none => exact .inl ⟨_, rfl⟩
        | some plaintext =>
          refine .inr ⟨plaintext, rfl, ?_⟩
          by_cases hlt : self.readNonce.toNat + 1 < u64Bound
          · exact .inl ⟨hlt, by simp [checkedSucc, hlt]⟩
          · exact .inr ⟨not_lt.mp hlt, by simp [checkedSucc, hlt]⟩

/-!
# Nonces of a sequence of writes
-/

def sealedAlong (aead : Aead) : NoiseSession -> List (List UInt8) -> List (Bytes 32 × List UInt8)
  | _, [] => []
  | self, message :: rest =>
    let written := self.writeMessageInPlace aead message
    written.sealedUnder.toList ++ sealedAlong aead written.session rest

def nonceAt (place : Nat) : List UInt8 := sessionNonce (UInt64.ofNat (min place (u64Bound - 1)))

theorem nonceAt_toNat (counter : UInt64) : nonceAt counter.toNat = sessionNonce counter := by
  have hlt := counter.toNat_lt
  unfold nonceAt u64Bound
  rw [min_eq_left (by omega), UInt64.ofNat_toNat]

theorem nonceAt_of_le {place : Nat} (h : u64Bound - 1 ≤ place) :
    nonceAt place = nonceAt (u64Bound - 1) := by
  unfold nonceAt
  rw [min_eq_right h, Nat.min_self]

theorem nonceAt_injOn {a b : Nat} (ha : a < u64Bound) (hb : b < u64Bound)
    (h : nonceAt a = nonceAt b) : a = b := by
  have hcnt := congrArg UInt64.toNat (sessionNonce_injective h)
  rw [UInt64.toNat_ofNat', UInt64.toNat_ofNat'] at hcnt
  unfold u64Bound at *
  omega

/-- A message within the size limit of `write_message_in_place`. -/
def sealable (message : List UInt8) : Bool := message.length ≤ maxSizeNoiseMsg - aesGcmTaglen

theorem sealedUnder_isSome {aead : Aead} (haead : aead.Lawful) (self : NoiseSession)
    (message : List UInt8) :
    (self.writeMessageInPlace aead message).sealedUnder.isSome =
      (self.valid && sealable message) := by
  unfold writeMessageInPlace
  by_cases hvalid : self.valid = false
  · rw [if_pos hvalid, hvalid]
    rfl
  · rw [if_neg hvalid, (Bool.not_eq_false _).mp hvalid]
    by_cases hlong : maxSizeNoiseMsg - aesGcmTaglen < message.length
    · simp [hlong, sealable]
    · have hfits : sealable message = true := decide_eq_true (not_lt.mp hlong)
      rcases haead.exists_seal self.writeKey (sessionNonce self.writeNonce) [] message
        (Nat.le_trans (not_lt.mp hlong) (Nat.sub_le _ _)) with ⟨sealed, hsealed⟩
      simp only [if_neg hlong, hfits, hsealed]
      cases checkedSucc self.writeNonce <;> rfl

theorem sealedAlong_eq {aead : Aead} (haead : aead.Lawful) (self : NoiseSession)
    (messages : List (List UInt8)) :
    self.sealedAlong aead messages =
      (range' self.writeNonce.toNat
        (messages.countP fun message => self.valid && sealable message)).map
          fun place => (self.writeKey, nonceAt place) := by
  induction messages generalizing self with
  | nil => rfl
  | cons message rest ih =>
    have hsealed := sealedUnder_isSome haead self message
    unfold sealedAlong
    rcases write_cases aead self message with
      ⟨e, hwrite⟩ | ⟨ciphertext, tag, _, ⟨hlt, hwrite⟩ | ⟨hend, hwrite⟩⟩
    · rw [countP_cons, ← hsealed, hwrite]
      exact ih self
    · rw [countP_cons, if_pos (hsealed.symm.trans (by rw [hwrite]; rfl)), hwrite, range'_succ,
        map_cons, nonceAt_toNat]
      simp only [Option.toList_some, singleton_append, ih, toNat_add_one hlt]
    · -- The counter stays at its end, and so does the nonce.
      rw [countP_cons, if_pos (hsealed.symm.trans (by rw [hwrite]; rfl)), hwrite, range'_succ,
        map_cons, nonceAt_toNat]
      simp only [Option.toList_some, singleton_append, ih]
      congr 1
      rw [range'_eq_map_range, range'_eq_map_range, map_map, map_map]
      apply map_congr_left
      intro place _
      have hthis : nonceAt (self.writeNonce.toNat + place) =
          nonceAt (u64Bound - 1) := nonceAt_of_le (by omega)
      have hnext : nonceAt (self.writeNonce.toNat + 1 + place) =
          nonceAt (u64Bound - 1) := nonceAt_of_le (by omega)
      simp only [Function.comp_apply, hthis, hnext]

/-- No nonce is used twice exactly as long as the session is closed or the counter has a value
for each message within the size limit. -/
theorem sealed_nonces_nodup_iff {aead : Aead} (haead : aead.Lawful) (self : NoiseSession)
    (messages : List (List UInt8)) :
    (self.sealedAlong aead messages).Nodup <->
      self.valid = false ∨
        self.writeNonce.toNat + (messages.filter sealable).length ≤ u64Bound := by
  have hstart : self.writeNonce.toNat < u64Bound := self.writeNonce.toNat_lt
  rw [sealedAlong_eq haead]
  cases self.valid with
  | false => simp
  | true =>
    simp only [Bool.true_and, Bool.true_eq_false, false_or, ← countP_eq_length_filter]
    generalize messages.countP sealable = count
    constructor
    · intro hnodup
      by_contra hgt
      -- The last counter value serves two places.
      have hlast : u64Bound - 1 ∈ range' self.writeNonce.toNat count := by
        rw [mem_range'_1]
        omega
      have hnext : u64Bound ∈ range' self.writeNonce.toNat count := by
        rw [mem_range'_1]
        omega
      have hsame : nonceAt u64Bound = nonceAt (u64Bound - 1) := nonceAt_of_le (Nat.sub_le _ _)
      have heq := inj_on_of_nodup_map hnodup hnext hlast (by rw [hsame])
      unfold u64Bound at heq
      omega
    · intro hle
      apply List.Nodup.map_on _ nodup_range'
      intro a ha b hb hab
      rw [mem_range'_1] at ha hb
      exact nonceAt_injOn (by omega) (by omega) (Prod.mk.inj hab).2

def plainAead : Aead :=
  { sealSeparateTag := fun _ _ _ plaintext =>
      some (plaintext, replicate 16 0)
    openInPlace := fun _ _ _ text => some (text.take (text.length - 16)) }

def zeroKey : Bytes 32 := ⟨replicate 32 0, rfl⟩

theorem plainAead_lawful : plainAead.Lawful := by
  refine ⟨fun _ _ _ _ _ => ⟨_, rfl⟩, ?_, ?_, ?_⟩ <;> intro key nonce aad plaintext sealed h <;>
    cases h <;> simp [plainAead, aesGcmTaglen]

/-- Of these messages the two within the limit take the last two values of the counter. -/
theorem sealed_nonces_nodup_last : plainAead.Lawful ∧
    (({ NoiseSession.new zeroKey zeroKey zeroKey with
        writeNonce := UInt64.ofNat (u64Bound - 2) } : NoiseSession).sealedAlong plainAead
          [[1], replicate maxSizeNoiseMsg 0, [2]]).Nodup := by
  refine ⟨plainAead_lawful, (sealed_nonces_nodup_iff plainAead_lawful _ _).mpr (.inr ?_)⟩
  have hlong : sealable (replicate maxSizeNoiseMsg 0) = false := by
    rw [sealable, length_replicate]
    decide
  rw [filter_cons, if_pos (by decide), filter_cons, hlong]
  decide

/-- At the end of the counter two writes seal under the same nonce. -/
theorem sealed_nonce_reused :
    ¬ (({ NoiseSession.new zeroKey zeroKey zeroKey with
        writeNonce := UInt64.ofNat (u64Bound - 1) } :
          NoiseSession).sealedAlong plainAead [[1], [2]]).Nodup := by
  decide

end NoiseSession

end OpenLibra.Noise
