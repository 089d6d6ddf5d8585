import OpenLibra.Bits.Bitmap
import OpenLibra.Move.Address
import OpenLibra.Move.Vector

/-!
# Feature flags

The features are a bitset in bytes, least significant bit first, that the Move
module grows and writes and the Rust side reads.
-/

namespace OpenLibra.MoveStd.Features

open Rust Move

def std : Address := Address.ofNat 0x1

def eFrameworkSignerNeeded : Nat := 1

/-- `1 << ((feature % 8) as u8)`. -/
def bitMask (feature : Nat) : UInt8 := 1 <<< UInt8.ofNat (feature % 8)

def grow (features : List UInt8) (byteIndex : Nat) : List UInt8 :=
  if features.length ≤ byteIndex then grow (features ++ [0]) byteIndex else features
termination_by byteIndex + 1 - features.length
decreasing_by
  rw [List.length_append, List.length_singleton]
  omega

def updated (entry mask : UInt8) (included : Bool) : UInt8 :=
  if included then entry ||| mask else entry &&& (0xff ^^^ mask)

/-- An absent index aborts, as `borrow_mut` does. -/
def set (features : List UInt8) (feature : Nat) (included : Bool) : MoveResult (List UInt8) := do
  let features := grow features (feature / 8)
  let entry <- Vector.borrow features (feature / 8)
  return features.set (feature / 8) (updated entry (bitMask feature) included)

def contains (features : List UInt8) (feature : Nat) : Bool :=
  if h :
  feature / 8 < features.length then features[feature / 8] &&& bitMask feature != 0 else false

structure Call where
  enable : List Nat
  disable : List Nat
deriving DecidableEq, Repr

/-- The resource `Features` of `@std`, if there is one. -/
def changeFeatureFlags (framework : Address) (resource : Option (List UInt8)) (call : Call) :
    MoveResult (Option (List UInt8)) := do
  ensure (framework = std) (permissionDenied eFrameworkSignerNeeded)
  let features <- tryFold (set · · true) (resource.getD []) call.enable
  return some (<- tryFold (set · · false) features call.disable)

def isEnabled (resource : Option (List UInt8)) (feature : Nat) : Bool :=
  match resource with
  | some features => contains features feature
  | none => false

/-!
# The Rust side
-/

inductive FeatureFlag where
  | codeDependencyCheck | treatFriendAsPrivate | sha512AndRipemd160Natives | stdChainIdNatives
  | vmBinaryFormatV6 | collectAndDistributeGasFees | multiEd25519PkValidateV2Natives
  | blake2b256Native | resourceGroups
deriving DecidableEq, Repr

def FeatureFlag.val : FeatureFlag -> Nat
  | codeDependencyCheck => 1
  | treatFriendAsPrivate => 2
  | sha512AndRipemd160Natives => 3
  | stdChainIdNatives => 4
  | vmBinaryFormatV6 => 5
  | collectAndDistributeGasFees => 6
  | multiEd25519PkValidateV2Natives => 7
  | blake2b256Native => 8
  | resourceGroups => 9

def isFlagEnabled (features : List UInt8) (flag : FeatureFlag) : Bool :=
  let byteIndex := flag.val / 8
  let mask : UInt8 := 1 <<< UInt8.ofNat (flag.val % 8)
  match features[byteIndex]? with
  | some byte => byte &&& mask != 0
  | none => false

/-!
# Writes
-/

variable {features : List UInt8} {feature other : Nat}

theorem bitMask_eq (feature : Nat) : bitMask feature = Bits.mask (7 - feature % 8) := by
  have hlt : feature % 8 < 8 := Nat.mod_lt _ (by decide)
  unfold bitMask
  generalize feature % 8 = k at hlt
  interval_cases k <;> rfl

theorem contains_eq (features : List UInt8) (feature : Nat) :
    contains features feature = (features[feature / 8]?.getD 0).toNat.testBit (feature % 8) := by
  have hsub : 7 - (7 - feature % 8) = feature % 8 := by omega
  rw [contains, bitMask_eq]
  split
  · rename_i h
    rw [Bits.and_mask_bne_zero _ (by omega), hsub, List.getElem?_eq_getElem h, Option.getD_some]
  · rename_i h
    rw [List.getElem?_eq_none (by omega)]
    exact (Nat.zero_testBit _).symm

theorem testBit_updated (entry : UInt8) (included : Bool) :
    (updated entry (bitMask feature) included).toNat.testBit (other % 8) =
      if other % 8 = feature % 8 then included else entry.toNat.testBit (other % 8) := by
  have hmask : (bitMask feature).toNat = 2 ^ (feature % 8) := by
    rw [bitMask_eq, Bits.toNat_mask (by omega)]
    congr 1
    omega
  have hones : (0xff : UInt8).toNat.testBit (other % 8) = true := by
    have hall : forall k, k < 8 -> (255 : Nat).testBit k = true := by decide
    exact hall _ (Nat.mod_lt _ (by decide))
  cases included with
  | true =>
    rw [updated, if_pos rfl, UInt8.toNat_or, hmask, Nat.testBit_or, Nat.testBit_two_pow]
    grind
  | false =>
    rw [updated, if_neg (by decide), UInt8.toNat_and, UInt8.toNat_xor, hmask, Nat.testBit_and,
      Nat.testBit_xor, hones, Nat.testBit_two_pow]
    grind

theorem lt_length_grow (features : List UInt8) (byteIndex : Nat) :
    byteIndex < (grow features byteIndex).length := by
  fun_induction grow features byteIndex with
  | case1 features _ ih => exact ih
  | case2 features h => omega

theorem getD_grow (features : List UInt8) (byteIndex j : Nat) :
    (grow features byteIndex)[j]?.getD 0 = features[j]?.getD 0 := by
  fun_induction grow features byteIndex with
  | case1 features _ ih =>
    rw [ih]
    grind
  | case2 => rfl

theorem exists_set (features : List UInt8) (feature : Nat) (included : Bool) :
    exists next, set features feature included = .ok next ∧ forall other,
      contains next other = if other = feature then included else contains features other := by
  have hlt := lt_length_grow features (feature / 8)
  have hent := getD_grow features (feature / 8)
  rcases Vector.exists_borrow hlt with ⟨entry, hborrow, hfound⟩
  refine ⟨_, by rw [set, hborrow]; rfl, fun other => ?_⟩
  rw [contains_eq, contains_eq, List.getElem?_set, ← hent]
  split
  · rename_i hidx
    rw [Option.getD_some, testBit_updated, ← hidx, hfound, Option.getD_some]
    grind
  · rw [if_neg (by grind)]

theorem exists_setAll (features : List UInt8) (flags : List Nat) (included : Bool) :
    exists next, tryFold (set · · included) features flags = .ok next ∧ forall feature,
      contains next feature = if feature ∈ flags then included else contains features feature := by
  induction flags generalizing features with
  | nil => exact ⟨features, rfl, fun _ => by simp⟩
  | cons flag flags ih =>
    rcases exists_set features flag included with ⟨next, hset, hnext⟩
    rcases ih next with ⟨last, hrest, hlast⟩
    refine ⟨last, by rw [tryFold, hset]; exact hrest, fun feature => ?_⟩
    rw [hlast, hnext]
    grind

/-!
# Sequences of calls
-/

def Call.mentions (feature : Nat) (call : Call) : Bool :=
  feature ∈ call.enable ∨ feature ∈ call.disable

def lastMention (feature : Nat) (calls : List Call) : Option Call :=
  calls.reverse.find? (Call.mentions feature)

theorem exists_changeFeatureFlags (resource : Option (List UInt8)) (call : Call) :
    exists next, changeFeatureFlags std resource call = .ok next ∧ forall feature,
      isEnabled next feature = if call.mentions feature then
        decide (feature ∈ call.enable ∧ feature ∉ call.disable)
        else isEnabled resource feature := by
  -- Flags are disabled after others were enabled, so a flag in both lists ends up disabled.
  rcases exists_setAll (resource.getD []) call.enable true with ⟨enabled, henable, henabled⟩
  rcases exists_setAll enabled call.disable false with ⟨disabled, hdisable, hdisabled⟩
  refine ⟨some disabled, ?_, fun feature => ?_⟩
  · simp [changeFeatureFlags, ensure, henable, hdisable]
  · have hinitial : contains (resource.getD []) feature = isEnabled resource feature := by
      cases resource <;> rfl
    rw [isEnabled, hdisabled, henabled, hinitial]
    grind [Call.mentions]

/-- After any calls a flag is as its last mention left it, and as it was without one.  The Rust
side reads the same flags, a write changes no other flag, and no other signer may call. -/
theorem changeFeatureFlags_exact (resource : Option (List UInt8)) (calls : List Call) :
    (exists final, tryFold (changeFeatureFlags std) resource calls = .ok final ∧ forall feature,
      isEnabled final feature =
        match lastMention feature calls with
          | none => isEnabled resource feature
          | some call => decide (feature ∈ call.enable ∧ feature ∉ call.disable)) ∧
      (forall features flag, isFlagEnabled features flag = contains features flag.val) ∧
      (forall features feature included, exists next, set features feature included = .ok next ∧
        forall other, contains next other =
          if other = feature then included else contains features other) ∧
      forall framework call, framework ≠ std -> changeFeatureFlags framework resource call =
          .err (permissionDenied eFrameworkSignerNeeded) := by
  refine ⟨?_, fun features flag => ?_, exists_set, fun framework call hne => ?_⟩
  · induction calls generalizing resource with
    | nil => exact ⟨resource, rfl, fun _ => rfl⟩
    | cons call calls ih =>
      rcases exists_changeFeatureFlags resource call with ⟨next, hcall, hnext⟩
      rcases ih next with ⟨final, hrest, hfinal⟩
      refine ⟨final, by rw [tryFold, hcall]; exact hrest, fun feature => ?_⟩
      rw [hfinal, hnext]
      simp only [lastMention, List.reverse_cons, List.find?_append, List.find?_singleton]
      cases calls.reverse.find? (Call.mentions feature) with
      | some => rfl
      | none => cases call.mentions feature <;> rfl
  · unfold isFlagEnabled contains bitMask
    grind
  · simp [changeFeatureFlags, ensure, hne]

end OpenLibra.MoveStd.Features
