import OpenLibra.Crypto.MultiEd25519

/-!
# Threshold soundness of multi-key signatures

The verification panics when the signatures outnumber the set positions of the bitmap, and
accepts when they are fewer.
-/

namespace OpenLibra.Crypto

open Rust Accumulator List

variable {publicKey signature : Type} {error alpha : Type} {result : Except error alpha}

theorem ofExcept_eq_ok_iff {value : alpha} :
    ofExcept result = .ok value <-> result = .ok value := by
  cases result with
  | ok | error => simp [ofExcept]

theorem ofExcept_ne_panic : ofExcept result ≠ .panic := by
  cases result with
  | ok | error => simp [ofExcept]

/-!
# The loop as a walk along the set positions
-/

namespace Bitmap

def positions (bitmap : Bitmap) : List Nat := Bits.ones bitmap.val

theorem length_positions (bitmap : Bitmap) : bitmap.positions.length = bitmap.countOnes :=
  Bits.length_ones bitmap.val

variable {bitmap : Bitmap} {index : Nat}

theorem lt_of_bucket : index / 8 < bitmapNumOfBytes <-> index < 8 * bitmap.val.length := by
  rw [bitmap.property]
  unfold bitmapNumOfBytes
  omega

theorem getBit_eq {error : Type} (h : index < maxNumOfKeys) :
    (bitmap.getBit index : Outcome error Bool) = .ok (Bits.getBit bitmap.val index) := by
  apply if_pos
  unfold maxNumOfKeys at h
  unfold bitmapNumOfBytes
  omega

theorem exists_setBit_eq_ok {error : Type} (h : index < maxNumOfKeys)
    (hclear : Bits.getBit bitmap.val index = false) :
    exists marked, (bitmap.setBit index : Outcome error Bitmap) = .ok marked ∧
        marked.positions.Perm (index :: bitmap.positions) := by
  have hbucket : index / 8 < bitmapNumOfBytes := by
    unfold maxNumOfKeys at h
    unfold bitmapNumOfBytes
    omega
  refine ⟨_, if_pos hbucket, ?_⟩
  exact Bits.ones_setBit_perm (lt_of_bucket.mp hbucket) hclear

theorem positions_zero : zero.positions = [] := by decide +kernel

end Bitmap

namespace MultiEd25519Signature

theorem skipClearBits_eq (bitmap : Bitmap) (index : Nat) : skipClearBits bitmap index =
    expect (Bits.onesFrom bitmap.val index).head? := by
  fun_induction skipClearBits bitmap index with
  | case1 index hlt hset =>
    rw [Bits.onesFrom_of_set hset]
    rfl
  | case2 index hlt hclear ih =>
    rw [ih, Bits.onesFrom_of_clear (Bitmap.lt_of_bucket.mp hlt) (by simpa using hclear)]
  | case3 index hge =>
    rw [Bits.onesFrom_of_le (not_lt.mp fun h => hge (Bitmap.lt_of_bucket.mpr h))]
    rfl

def verifyAlong (E : Ed25519 publicKey signature)
    (key : MultiEd25519PublicKey publicKey) (message : List UInt8) :
    List signature -> List Nat -> Outcome AnyhowError Unit
  | [], _ => return ()
  | _ :: _, [] => .panic
  | sig :: rest, position :: positions => do
    let publicKey <- expect key.publicKeys[position]?
    ofExcept (E.verifyArbitraryMsg sig message publicKey)
    verifyAlong E key message rest positions

variable {bytes message : List UInt8} {E : Ed25519 publicKey signature}
  {key : MultiEd25519PublicKey publicKey} {signatures : List signature} {positions : List Nat}
  {self : MultiEd25519Signature signature}

theorem onesFrom_cons {index position : Nat} {rest : List Nat}
    (h : Bits.onesFrom bytes index = position :: rest) :
    Bits.onesFrom bytes (position + 1) = rest := by
  -- Induction on the distance to the end of the bitmap.
  induction hn : 8 * bytes.length - index generalizing index with
  | zero =>
    rw [Bits.onesFrom_of_le (by omega)] at h
    cases h
  | succ n ih =>
    cases hbit : Bits.getBit bytes index with
    | true =>
      rw [Bits.onesFrom_of_set hbit] at h
      cases h
      rfl
    | false =>
      rw [Bits.onesFrom_of_clear (by omega) hbit] at h
      exact ih h (by omega)

theorem verifyLoop_eq (E : Ed25519 publicKey signature) (key : MultiEd25519PublicKey publicKey)
    (message : List UInt8) (bitmap : Bitmap) (signatures : List signature) (index : Nat) :
    verifyLoop E key message bitmap signatures index = verifyAlong E key message signatures
        (Bits.onesFrom bitmap.val index) := by
  induction signatures generalizing index with
  | nil => rfl
  | cons sig rest ih =>
    rw [verifyLoop, skipClearBits_eq]
    cases hones : Bits.onesFrom bitmap.val index with
    | nil => rfl
    | cons => simp only [head?_cons, expect_some, ok_bind, ih, onesFrom_cons hones, verifyAlong]

def VerifiesAt (E : Ed25519 publicKey signature) (key : MultiEd25519PublicKey publicKey)
    (message : List UInt8) (sig : signature) (position : Nat) : Prop :=
  exists publicKey, key.publicKeys[position]? = some publicKey ∧
    E.verifyArbitraryMsg sig message publicKey = .ok ()

/-- As far as both lists go, signatures verify at their positions. -/
def PairsVerify (E : Ed25519 publicKey signature) (key : MultiEd25519PublicKey publicKey)
    (message : List UInt8) (signatures : List signature) (positions : List Nat) : Prop :=
  forall pair, pair ∈ signatures.zip positions -> VerifiesAt E key message pair.1 pair.2

theorem verifyAlong_eq_ok_iff : verifyAlong E key message signatures positions = .ok () <->
    signatures.length ≤ positions.length ∧ PairsVerify E key message signatures positions := by
  unfold PairsVerify
  induction signatures generalizing positions with
  | nil => simp [verifyAlong]
  | cons sig rest ih =>
    cases positions with
    | nil => simp [verifyAlong]
    | cons position =>
      rw [verifyAlong, zip_cons_cons, forall_mem_cons,
        length_cons, length_cons, Nat.add_le_add_iff_right]
      cases hkey : key.publicKeys[position]? with
      | none => simp [VerifiesAt, hkey]
      | some =>
        simp only [expect_some, ok_bind, check_bind_eq_ok_iff, ofExcept_eq_ok_iff, ih,
          VerifiesAt, hkey, Option.some.injEq, exists_eq_left']
        exact and_left_comm

theorem verifyAlong_eq_panic_iff
    (hposs : forall position, position ∈ positions -> position < key.publicKeys.length) :
    verifyAlong E key message signatures positions = .panic <->
      positions.length < signatures.length ∧
        PairsVerify E key message signatures positions := by
  unfold PairsVerify
  induction signatures generalizing positions with
  | nil => simp [verifyAlong]
  | cons sig rest ih =>
    cases positions with
    | nil => simp [verifyAlong]
    | cons position =>
      have hkey := getElem?_eq_getElem (hposs position mem_cons_self)
      have hrest := ih
        (fun p hp => hposs p (mem_cons_of_mem position hp))
      rw [verifyAlong, zip_cons_cons, forall_mem_cons, length_cons, length_cons,
        Nat.add_lt_add_iff_right, hkey, expect_some, ok_bind, bind_eq_panic_iff]
      simp only [ofExcept_ne_panic, false_or, ofExcept_eq_ok_iff, hrest,
        VerifiesAt, hkey, Option.some.injEq, exists_eq_left']
      constructor
      · intro h
        rcases h with ⟨_, hvfy, hlt, hall⟩
        exact ⟨hlt, hvfy, hall⟩
      · intro h
        exact ⟨(), h.2.1, h.1, h.2.2⟩

/-!
# Verification
-/

/-- The checks in front of the loop: every position is that of a key, and there
are at least as many as the threshold. -/
def BitmapFits (key : MultiEd25519PublicKey publicKey) (self : MultiEd25519Signature signature) :
    Prop :=
  self.bitmap.positions ≠ [] ∧ (forall position, position ∈ self.bitmap.positions ->
      position < key.publicKeys.length) ∧
    key.threshold.toNat ≤ self.bitmap.countOnes

theorem bitmapFits_iff : BitmapFits key self <-> (exists last, self.bitmap.lastSetBit = some last ∧
      last < key.publicKeys.length) ∧ key.threshold.toNat ≤ self.bitmap.countOnes := by
  unfold BitmapFits Bitmap.positions Bitmap.lastSetBit
  rw [Bits.forall_mem_ones_lt_iff, ← and_assoc]
  apply and_congr_left
  intro _
  rw [Bits.lastSetBit_eq_getLast?]
  cases hlast : (Bits.ones self.bitmap.val).getLast? with
  | none =>
    rw [getLast?_eq_none_iff] at hlast
    simp [hlast]
  | some =>
    have hne : Bits.ones self.bitmap.val ≠ [] := ne_nil_of_mem (mem_of_getLast? hlast)
    simp [hne]

theorem verifyArbitraryMsg_of_bitmapFits (h : BitmapFits key self) :
    self.verifyArbitraryMsg E message key =
      verifyAlong E key message self.signatures self.bitmap.positions := by
  rcases bitmapFits_iff.mp h with ⟨⟨_, hlast, hlt⟩, hcount⟩
  unfold verifyArbitraryMsg
  rw [verifyLoop_eq, Bits.onesFrom_zero]
  simp [hlast, hlt, hcount, ensure, Bitmap.positions]

theorem exists_err_of_not_bitmapFits (E : Ed25519 publicKey signature)
    (message : List UInt8) (h : ¬ BitmapFits key self) :
    exists e, self.verifyArbitraryMsg E message key = .err e := by
  rw [bitmapFits_iff] at h
  unfold verifyArbitraryMsg
  cases hlast : self.bitmap.lastSetBit with
  | none => exact ⟨_, rfl⟩
  | some last =>
    by_cases hlt : last < key.publicKeys.length
    · have hcount : self.bitmap.countOnes < key.threshold.toNat := by
        apply Nat.lt_of_not_le
        intro hle
        exact h ⟨⟨last, hlast, hlt⟩, hle⟩
      simp [hlt, hcount, ensure]
    · simp [hlt, ensure]

theorem verifyArbitraryMsg_eq_ok_iff : self.verifyArbitraryMsg E message key = .ok () <->
    BitmapFits key self ∧ self.signatures.length ≤ self.bitmap.countOnes ∧
      PairsVerify E key message self.signatures self.bitmap.positions := by
  by_cases hfits : BitmapFits key self
  · rw [verifyArbitraryMsg_of_bitmapFits hfits, verifyAlong_eq_ok_iff, Bitmap.length_positions]
    simp [hfits]
  · rcases exists_err_of_not_bitmapFits E message hfits with ⟨_, he⟩
    simp [he, hfits]

theorem verifyArbitraryMsg_eq_panic_iff : self.verifyArbitraryMsg E message key = .panic <->
    BitmapFits key self ∧ self.bitmap.countOnes < self.signatures.length ∧
      PairsVerify E key message self.signatures self.bitmap.positions := by
  by_cases hfits : BitmapFits key self
  · rw [verifyArbitraryMsg_of_bitmapFits hfits,
      verifyAlong_eq_panic_iff hfits.2.1, Bitmap.length_positions]
    simp [hfits]
  · rcases exists_err_of_not_bitmapFits E message hfits with ⟨_, he⟩
    simp [he, hfits]

def ThresholdMet (E : Ed25519 publicKey signature) (key : MultiEd25519PublicKey publicKey)
    (message : List UInt8) (self : MultiEd25519Signature signature) : Prop :=
  exists counted : List (Nat × Nat), key.threshold.toNat ≤ counted.length ∧
    (counted.map Prod.fst).Nodup ∧
    (counted.map Prod.snd).Nodup ∧
    forall position place, (position, place) ∈ counted ->
      exists sig, self.signatures[place]? = some sig ∧
        self.bitmap.positions[place]? = some position ∧
        VerifiesAt E key message sig position

theorem le_length_of_thresholdMet (h : ThresholdMet E key message self) :
    key.threshold.toNat ≤ self.signatures.length := by
  rcases h with ⟨counted, hcount, _, hnodup, hcounted⟩
  have hsubset : counted.map Prod.snd ⊆ range self.signatures.length := by
    intro _ hplace
    rcases mem_map.mp hplace with ⟨⟨position, found⟩, hmem, rfl⟩
    rcases hcounted position found hmem with ⟨_, hsig, _⟩
    exact List.mem_range.mpr (List.getElem?_eq_some_iff.mp hsig).1
  have hle := (subperm_of_subset hnodup hsubset).length_le
  rw [length_map, length_range] at hle
  exact le_trans hcount hle

theorem thresholdMet_of_le (hle : key.threshold.toNat ≤ self.signatures.length)
    (hfit : self.signatures.length ≤ self.bitmap.countOnes)
    (hpairs : PairsVerify E key message self.signatures self.bitmap.positions) :
    ThresholdMet E key message self := by
  have hlen : (self.bitmap.positions.take self.signatures.length).length =
    self.signatures.length := by
    rw [length_take, Bitmap.length_positions]
    exact Nat.min_eq_left hfit
  refine ⟨(self.bitmap.positions.take self.signatures.length).zipIdx, ?_, ?_, ?_, ?_⟩
  · rw [length_zipIdx, hlen]
    exact hle
  · rw [zipIdx_map_fst]
    exact (Bits.nodup_ones _).sublist (take_sublist _ _)
  · rw [zipIdx_map_snd]
    exact nodup_range'
  · intro position place hmem
    have hfound := mem_zipIdx_iff_getElem?.mp hmem
    have hplace : place < self.signatures.length := by
      rw [← hlen]
      exact (List.getElem?_eq_some_iff.mp hfound).1
    have hposn : self.bitmap.positions[place]? = some position := by
      rw [getElem?_take_of_lt hplace] at hfound
      exact hfound
    have hsig := getElem?_eq_getElem hplace
    refine ⟨_, hsig, hposn, hpairs (_, position) ?_⟩
    apply mem_of_getElem? (i := place)
    rw [getElem?_zip_eq_some]
    exact ⟨hsig, hposn⟩

theorem markIndexes_eq_ok {bitmap marked : Bitmap} {indexes}
    (h : markIndexes bitmap indexes = .ok marked) : marked.positions.Perm
      (indexes.map UInt8.toNat ++ bitmap.positions) := by
  induction indexes generalizing bitmap with
  | nil =>
    cases h
    exact List.Perm.refl _
  | cons index rest ih =>
    rw [markIndexes] at h
    split at h
    · next hrange =>
        rw [Bitmap.getBit_eq hrange, ok_bind] at h
        cases hbit : Bits.getBit bitmap.val index.toNat with
        | true =>
          rw [hbit] at h
          cases h
        | false =>
          rcases Bitmap.exists_setBit_eq_ok hrange hbit with ⟨next, hnext, hperm⟩
          rw [hbit, if_neg Bool.false_ne_true, hnext, ok_bind] at h
          calc marked.positions.Perm
                (rest.map UInt8.toNat ++ next.positions) := ih h
            List.Perm _ (rest.map UInt8.toNat ++ index.toNat :: bitmap.positions) :=
              hperm.append_left _
            List.Perm _
                ((index :: rest).map UInt8.toNat ++ bitmap.positions) :=
              perm_middle
    · cases h

theorem new_eq_ok {signatures} (h : new signatures = .ok self) :
    exists ordered : List (signature × UInt8), ordered.Perm signatures ∧
      self.signatures = ordered.map Prod.fst ∧
      self.bitmap.positions = ordered.map fun entry => entry.2.toNat := by
  rcases of_check h with ⟨_, h⟩
  rcases of_bind h with ⟨bitmap, hbitmap, h⟩
  cases h
  refine ⟨_, mergeSort_perm signatures _, rfl, ?_⟩
  have hperm := markIndexes_eq_ok hbitmap
  rw [Bitmap.positions_zero, append_nil, map_map] at hperm
  have hsorted : (signatures.mergeSort fun a b => decide (a.2.toNat ≤ b.2.toNat)).Pairwise
    (fun a b => decide (a.2.toNat ≤ b.2.toNat) = true) := by
    apply pairwise_mergeSort
    · intro a b c
      simp only [decide_eq_true_eq]
      exact le_trans
    · intro a b
      simp only [Bool.or_eq_true, decide_eq_true_eq]
      exact le_total _ _
  have hordered : ((signatures.mergeSort fun a b => decide (a.2.toNat ≤ b.2.toNat)).map
      fun entry => entry.2.toNat).Pairwise (fun a b => a ≤ b) :=
    pairwise_map.mpr (hsorted.imp of_decide_eq_true)
  have hposs : bitmap.positions.Pairwise (fun a b => a ≤ b) :=
    (Bits.pairwise_ones _).imp le_of_lt
  exact List.Perm.eq_of_pairwise (fun _ _ _ _ => le_antisymm) hposs hordered hperm

theorem length_eq_countOnes_of_new {signatures} (h : new signatures = .ok self) :
    self.signatures.length = self.bitmap.countOnes := by
  rcases new_eq_ok h with ⟨_, _, hsigs, hposs⟩
  rw [← Bitmap.length_positions, hsigs, hposs, length_map, length_map]

theorem length_eq_countOnes_of_tryFrom (h : tryFrom E bytes = .ok self) :
    self.signatures.length = self.bitmap.countOnes := by
  rcases of_check h with ⟨_, h⟩
  split at h
  · rcases of_check h with ⟨hcount, h⟩
    rcases of_bind h with ⟨_, hsigs, h⟩
    cases h
    rw [ensure_eq_ok_iff.mp hcount, Outcome.length_of_tryMap_eq_ok hsigs]
    simp [chunksExact]
  · cases h

/-!
# Soundness
-/

def ThresholdSound (E : Ed25519 publicKey signature) (key : MultiEd25519PublicKey publicKey)
    (message : List UInt8) (self : MultiEd25519Signature signature) : Prop :=
  self.verifyArbitraryMsg E message key ≠ .panic ∧
    (self.verifyArbitraryMsg E message key = .ok () -> ThresholdMet E key message self)

theorem thresholdSound_iff : ThresholdSound E key message self <-> (BitmapFits key self ->
      PairsVerify E key message self.signatures self.bitmap.positions ->
        key.threshold.toNat ≤ self.signatures.length ∧
          self.signatures.length ≤ self.bitmap.countOnes) := by
  unfold ThresholdSound
  rw [Ne, verifyArbitraryMsg_eq_panic_iff, verifyArbitraryMsg_eq_ok_iff]
  constructor
  · intro h hfits hpairs
    have hfit : self.signatures.length ≤ self.bitmap.countOnes := by
      apply Nat.le_of_not_lt
      intro hlt
      exact h.1 ⟨hfits, hlt, hpairs⟩
    exact ⟨le_length_of_thresholdMet (h.2 ⟨hfits, hfit, hpairs⟩), hfit⟩
  · intro h
    constructor
    · intro hpanic
      rcases hpanic with ⟨hfits, hlt, hpairs⟩
      exact absurd hlt (not_lt.mpr (h hfits hpairs).2)
    · intro hok
      rcases hok with ⟨hfits, hfit, hpairs⟩
      exact thresholdMet_of_le (h hfits hpairs).1 hfit hpairs

/-- The threshold is sound exactly for signatures whose number, if all of them
verify, lies between the threshold and the set bits.  The checked constructors
give as many signatures as set bits. -/
theorem threshold_sound_iff (E : Ed25519 publicKey signature)
    (key : MultiEd25519PublicKey publicKey) (message : List UInt8)
    (self : MultiEd25519Signature signature) :
    (ThresholdSound E key message self <-> (BitmapFits key self ->
        PairsVerify E key message self.signatures self.bitmap.positions ->
          key.threshold.toNat ≤ self.signatures.length ∧
            self.signatures.length ≤ self.bitmap.countOnes)) ∧
    ((exists signatures, new signatures = Outcome.ok self) ∨
        (exists bytes, tryFrom E bytes = Outcome.ok self) ->
      ThresholdSound E key message self) := by
  constructor
  · exact thresholdSound_iff
  · intro h
    have hlength : self.signatures.length = self.bitmap.countOnes := by
      rcases h with ⟨_, hnew⟩ | ⟨bytes, hbytes⟩
      · exact length_eq_countOnes_of_new hnew
      · exact length_eq_countOnes_of_tryFrom hbytes
    apply thresholdSound_iff.mpr
    intro hfits _
    rw [hlength]
    exact ⟨hfits.2.2, Nat.le_refl _⟩

def acceptingEd25519 : Ed25519 Unit Unit :=
  { signatureTryFrom := fun _ => .ok ()
    verifyArbitraryMsg := fun _ _ _ => .ok () }

def singleKey : MultiEd25519PublicKey Unit := MultiEd25519PublicKey.fromSingle ()

/-- Two signatures read from bytes, by the first and the last of three keys. -/
theorem threshold_sound_two_of_three :
    ThresholdSound acceptingEd25519 { publicKeys := [(), (), ()], threshold := 2 } []
      { signatures := [(), ()], bitmap := ⟨[0b10100000, 0, 0, 0], rfl⟩ } :=
  (threshold_sound_iff acceptingEd25519 { publicKeys := [(), (), ()], threshold := 2 } []
    { signatures := [(), ()], bitmap := ⟨[0b10100000, 0, 0, 0], rfl⟩ }).2
    (Or.inr ⟨List.replicate 128 0 ++ [0b10100000, 0, 0, 0], by decide +kernel⟩)

/-- No signature at all is accepted for a threshold of one, and a second
signature for one set bit is a panic. -/
theorem threshold_unsound : ((newWithSignaturesAndBitmap [] ⟨[0b10000000, 0, 0, 0], rfl⟩ :
        MultiEd25519Signature Unit).verifyArbitraryMsg acceptingEd25519 []
        singleKey = Outcome.ok () ∧
      ¬ ThresholdMet acceptingEd25519 singleKey []
        (newWithSignaturesAndBitmap [] ⟨[0b10000000, 0, 0, 0], rfl⟩)) ∧
    (newWithSignaturesAndBitmap [(), ()] ⟨[0b10000000, 0, 0, 0], rfl⟩ :
        MultiEd25519Signature Unit).verifyArbitraryMsg acceptingEd25519 []
        singleKey = Outcome.panic := by
  refine ⟨⟨by decide +kernel, ?_⟩, by decide +kernel⟩
  intro h
  have hle := le_length_of_thresholdMet h
  revert hle
  decide

end MultiEd25519Signature

end OpenLibra.Crypto
