import OpenLibra.Move.Semantics

/-!
# Addresses

An address is an array of 32 bytes, and its canonical serialization is these
bytes.
-/

namespace OpenLibra.Move

open Rust

structure Address where
  bytes : Vector UInt8 32
deriving DecidableEq, Repr

namespace Address

/-- `bcs::to_bytes`. -/
def toBytes (self : Address) : List UInt8 := self.bytes.toList

/-- The abort code of `from_bytes` for bytes that are not a value. -/
def eFromBytes : Nat := 0x010001

/-- `from_bcs::to_address`. -/
def fromBytes (bytes : List UInt8) : MoveResult Address :=
  if h : bytes.length = 32 then
    .ok { bytes := ⟨bytes.toArray, h⟩ }
  else .err (.code eFromBytes)

/-- A literal such as `@0x1`: the most significant byte comes first. -/
def ofNat (n : Nat) : Address :=
  { bytes := Vector.ofFn fun i => (n / 256 ^ (31 - i.val) % 256).toUInt8 }

/-- `{:x}`: two digits for each byte. -/
def toHex (self : Address) : String :=
  String.ofList (self.bytes.toList.flatMap fun byte =>
    [Nat.digitChar (byte.toNat / 16), Nat.digitChar (byte.toNat % 16)])

@[simp] theorem length_toBytes (self : Address) : self.toBytes.length = 32 := by
  simp [toBytes]

theorem toBytes_injective : Function.Injective toBytes := by
  intro a b h
  cases a
  cases b
  rw [mk.injEq]
  exact Vector.toList_inj.mp h

theorem fromBytes_eq_ok_iff {bytes} {a : Address} :
    fromBytes bytes = .ok a <-> bytes = a.toBytes := by
  unfold fromBytes
  constructor
  · intro h
    split at h
    · cases h
      simp [toBytes]
    · cases h
  · intro h
    subst h
    rw [dif_pos (length_toBytes a), Outcome.ok.injEq]
    apply toBytes_injective
    simp [toBytes]

end Address

end OpenLibra.Move
