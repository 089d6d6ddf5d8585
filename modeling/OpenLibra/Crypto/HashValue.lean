import Mathlib.Data.Nat.Bitwise

/-!
# Hash values

Keys of the state tree are hash values of 32 bytes.  The tree reads them bit by
bit, most significant bit of the first byte first.
-/

namespace OpenLibra.Crypto

structure HashValue where
  bytes : Vector UInt8 32
deriving DecidableEq, Repr

namespace HashValue

def lengthInBits : Nat := 256

/-- The `index`-th bit in the bytes. -/
def bit (self : HashValue) (index : Fin lengthInBits) : Bool :=
  let pos : Fin 32 := ⟨index.val / 8, by
    have hlt := index.isLt
    unfold lengthInBits at hlt
    omega⟩
  let bit := 7 - index.val % 8
  (self.bytes.get pos >>> UInt8.ofNat bit) &&& 1 != 0

def iterBits (self : HashValue) : List Bool := (List.finRange lengthInBits).map self.bit

def commonPrefixBitsLen (self other : HashValue) : Nat :=
  ((self.iterBits.zip other.iterBits).takeWhile fun pair => pair.1 == pair.2).length

/-- `{:x}`: two digits for each byte. -/
def toHex (self : HashValue) : String :=
  String.ofList (self.bytes.toList.flatMap fun byte =>
    [Nat.digitChar (byte.toNat / 16), Nat.digitChar (byte.toNat % 16)])

instance : ToString HashValue := ⟨toHex⟩

/-!
# Bits determine the hash value
-/

@[simp] theorem length_iterBits (self : HashValue) : self.iterBits.length = lengthInBits := by
  simp [iterBits]

theorem shiftRight_and_one (byte : UInt8) {k : Nat} (hk : k < 8) :
    ((byte >>> UInt8.ofNat k) &&& 1 != 0) = byte.toNat.testBit k := by
  have hne : ((byte >>> UInt8.ofNat k) &&& 1 = 0) <-> byte.toNat >>> k &&& 1 = 0 := by
    rw [← UInt8.toNat_inj, UInt8.toNat_and, UInt8.toNat_shiftRight,
      UInt8.toNat_ofNat', Nat.mod_eq_of_lt (show k < 2 ^ 8 by omega),
      Nat.mod_eq_of_lt hk]
    rfl
  rw [Nat.testBit, Nat.and_comm 1]
  by_cases hzero : byte.toNat >>> k &&& 1 = 0
  · rw [hzero, hne.mpr hzero]
    rfl
  · rw [bne_iff_ne.mpr hzero, bne_iff_ne.mpr (mt hne.mp hzero)]

theorem byte_ext {a b : UInt8} (h : forall k, k < 8 -> a.toNat.testBit k = b.toNat.testBit k) :
    a = b := by
  apply UInt8.toNat_inj.mp
  apply Nat.eq_of_testBit_eq
  intro k
  by_cases hk : k < 8
  · exact h k hk
  · have hpow : 2 ^ 8 ≤ 2 ^ k := Nat.pow_le_pow_right (by omega) (by omega)
    rw [Nat.testBit_lt_two_pow (Nat.lt_of_lt_of_le a.toNat_lt hpow),
      Nat.testBit_lt_two_pow (Nat.lt_of_lt_of_le b.toNat_lt hpow)]

theorem iterBits_injective {a b : HashValue} (h : a.iterBits = b.iterBits) : a = b := by
  have hbit (index : Fin lengthInBits) : a.bit index = b.bit index :=
    List.map_eq_map_iff.mp h index (List.mem_finRange index)
  rcases a with ⟨a⟩
  rcases b with ⟨b⟩
  rw [mk.injEq]
  apply Vector.ext
  intro i hi
  apply byte_ext
  intro k hk
  have hidx : 8 * i + (7 - k) < lengthInBits := by
    unfold lengthInBits
    omega
  have heq := hbit ⟨8 * i + (7 - k), hidx⟩
  unfold bit at heq
  dsimp only at heq
  rw [shiftRight_and_one _ (by omega), shiftRight_and_one _ (by omega),
    show 7 - (8 * i + (7 - k)) % 8 = k by omega] at heq
  simp only [show (8 * i + (7 - k)) / 8 = i by omega] at heq
  exact heq

theorem beq_of_mem_zip {bits : List Bool} {pair : Bool × Bool} (h : pair ∈ bits.zip bits) :
    (pair.1 == pair.2) = true := by
  induction bits with
  | nil => simp at h
  | cons bit bits ih =>
    rw [List.zip_cons_cons, List.mem_cons] at h
    rcases h with rfl | h
    · exact beq_self_eq_true bit
    · exact ih h

theorem le_commonPrefixBitsLen {a b : HashValue} {n : Nat} (hn : n ≤ lengthInBits)
    (h : a.iterBits.take n = b.iterBits.take n) : n ≤ a.commonPrefixBitsLen b := by
  have hlen : (a.iterBits.take n).length = n := by
    rw [List.length_take, length_iterBits, Nat.min_eq_left hn]
  unfold commonPrefixBitsLen
  rw [← List.take_append_drop n a.iterBits,
    ← List.take_append_drop n b.iterBits, ← h, List.zip_append rfl,
    List.takeWhile_append_of_pos (fun _ => beq_of_mem_zip),
    List.length_append, List.length_zip,
    hlen, Nat.min_self]
  exact Nat.le_add_right _ _

end HashValue

end OpenLibra.Crypto
