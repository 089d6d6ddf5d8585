import OpenLibra.Rust.Outcome

/-!
# Storage form of state keys

A tag byte stands before the access path, the table item or the raw key.
-/

namespace OpenLibra.StateStore

open Rust

/-- BCS of a type: decoding inverts encoding and refuses trailing bytes. -/
structure Bcs (error value : Type) where
  toBytes : value -> List UInt8
  fromBytes : List UInt8 -> Outcome error value
  fromBytes_eq_ok_iff : forall bytes x, fromBytes bytes = .ok x <-> bytes = toBytes x

def handleSize : Nat := 32

structure HandleBcs (error handle : Type) extends Bcs error handle where
  length_toBytes : forall handle, (toBytes handle).length = handleSize

inductive StateKey (accessPath handle : Type) where
  | accessPath (path : accessPath)
  | tableItem (handle : handle) (key : List UInt8)
  | raw (key : List UInt8)
deriving DecidableEq, Repr

inductive StateKeyTag where
  | accessPath | tableItem | raw
deriving DecidableEq, Repr

namespace StateKeyTag

def toU8 : StateKeyTag -> UInt8
  | accessPath => 0
  | tableItem => 1
  | raw => 255

def fromU8 (tag : UInt8) : Option StateKeyTag :=
  if tag = 0 then some accessPath
  else if tag = 1 then some tableItem
  else if tag = 255 then some raw
  else none

theorem fromU8_eq_some_iff {byte tag} : fromU8 byte = some tag <-> byte = tag.toU8 := by
  unfold fromU8
  cases tag <;> grind [toU8]

end StateKeyTag

inductive StateKeyDecodeErr (error : Type) where
  | emptyInput
  | unknownTag (unknownTag : UInt8)
  | notEnoughBytes (tag : UInt8) (numBytes : Nat)
  | bcsError (e : error)
deriving DecidableEq, Repr

namespace StateKey

variable {error accessPath handle : Type} (bcs : Bcs error accessPath)
  (handles : HandleBcs error handle)

def tag : StateKey accessPath handle -> StateKeyTag
  | .accessPath _ => .accessPath
  | .tableItem .. => .tableItem
  | .raw _ => .raw

/-- The bytes behind the tag. -/
def rawKey : StateKey accessPath handle -> List UInt8
  | .accessPath path => bcs.toBytes path
  | .tableItem handle key => handles.toBytes handle ++ key
  | .raw key => key

def encode (key : StateKey accessPath handle) : List UInt8 :=
  key.tag.toU8 :: key.rawKey bcs handles

def decodeRawKey (tag : UInt8) (val : List UInt8) :
    StateKeyTag -> Outcome (StateKeyDecodeErr error) (StateKey accessPath handle)
  | .accessPath => do
    let path <- (bcs.fromBytes val).mapErr .bcsError
    return .accessPath path
  | .tableItem => do
    ensure (handleSize ≤ val.length) (.notEnoughBytes tag (val.length + 1))
    let handle <- (handles.fromBytes (val.take handleSize)).mapErr .bcsError
    return .tableItem handle (val.drop handleSize)
  | .raw => return .raw val

def decode : List UInt8 -> Outcome (StateKeyDecodeErr error) (StateKey accessPath handle)
  | [] => .err .emptyInput
  | tag :: val =>
    match StateKeyTag.fromU8 tag with
    | none => .err (.unknownTag tag)
    | some stateKeyTag => decodeRawKey bcs handles tag val stateKeyTag

/-- The state tree is keyed by the digest of the storage form. -/
def hash (digest : List UInt8 -> List UInt8) (key : StateKey accessPath handle) : List UInt8 :=
  digest (key.encode bcs handles)

theorem decodeRawKey_eq_ok_iff {byte val stateKeyTag} {key : StateKey accessPath handle} :
    decodeRawKey bcs handles byte val stateKeyTag = .ok key <->
      stateKeyTag = key.tag ∧ val = key.rawKey bcs handles := by
  cases stateKeyTag with
  | accessPath =>
    simp only [decodeRawKey, bind_eq_ok_iff, mapErr_eq_ok_iff, bcs.fromBytes_eq_ok_iff]
    cases key <;> simp [tag, rawKey, pure_eq]
  | tableItem =>
    rw [decodeRawKey, Outcome.ensure_bind_eq_ok_iff]
    simp only [bind_eq_ok_iff, mapErr_eq_ok_iff, handles.fromBytes_eq_ok_iff, pure_eq,
      Outcome.ok.injEq]
    cases key with
    | tableItem handle key =>
      constructor
      · rintro ⟨_, first, hhandle, hkey⟩
        cases hkey
        rw [rawKey, ← hhandle, List.take_append_drop]
        exact ⟨rfl, rfl⟩
      · rintro ⟨_, rfl⟩
        rw [rawKey, ← handles.length_toBytes handle, List.take_left, List.drop_left]
        simp
    | accessPath | raw => simp [tag]
  | raw => cases key <;> simp [decodeRawKey, tag, rawKey, pure_eq]

theorem decode_eq_ok_iff {bytes} {key : StateKey accessPath handle} :
    decode bcs handles bytes = .ok key <-> bytes = key.encode bcs handles := by
  cases bytes with
  | nil => simp [decode, encode]
  | cons byte val =>
    rw [encode, List.cons.injEq, ← StateKeyTag.fromU8_eq_some_iff, decode]
    cases StateKeyTag.fromU8 byte with
    | none => simp
    | some stateKeyTag => simp [decodeRawKey_eq_ok_iff]

/-- Every state key has one storage form, and no other key has it. -/
theorem storage_form (digest : List UInt8 -> List UInt8) (key other : StateKey accessPath handle)
    (bytes : List UInt8) :
    decode bcs handles (key.encode bcs handles) = .ok key ∧
    (key.encode bcs handles = other.encode bcs handles -> key = other) ∧
    (decode bcs handles bytes = .ok key -> key.encode bcs handles = bytes) ∧
    (key.hash bcs handles digest = other.hash bcs handles digest -> key = other ∨
      exists x y, x ≠ y ∧ digest x = digest y) := by
  have hinj : key.encode bcs handles = other.encode bcs handles -> key = other := by
    intro h
    have hdecoded := (decode_eq_ok_iff bcs handles).mpr h
    rw [(decode_eq_ok_iff bcs handles).mpr rfl] at hdecoded
    injection hdecoded
  refine ⟨(decode_eq_ok_iff bcs handles).mpr rfl, hinj,
    fun h => ((decode_eq_ok_iff bcs handles).mp h).symm, fun h => ?_⟩
  rcases Classical.em (key.encode bcs handles = other.encode bcs handles) with hsame | hne
  · exact Or.inl (hinj hsame)
  · exact Or.inr ⟨_, _, hne, h⟩

/-- Paths are bytes already. -/
def pathBcs : Bcs Unit (List UInt8) where
  toBytes := id
  fromBytes := .ok
  fromBytes_eq_ok_iff _ _ := by rw [Outcome.ok.injEq, id]

/-- A handle is written as its 32 bytes. -/
def handleBcs : HandleBcs Unit (Vector UInt8 handleSize) where
  toBytes handle := handle.toList
  fromBytes bytes := if h : bytes.length = handleSize then .ok ⟨bytes.toArray, h⟩ else .err ()
  fromBytes_eq_ok_iff bytes handle := by
    constructor
    · intro h
      split at h
      · cases h
        rfl
      · cases h
    · rintro rfl
      simp only [Vector.length_toList, dite_true, Outcome.ok.injEq]
      exact Vector.toList_inj.mp (by simp)
  length_toBytes handle := handle.length_toList

def firstItem : StateKey (List UInt8) (Vector UInt8 handleSize) :=
  .tableItem (Vector.replicate handleSize 3) [7, 8]

theorem firstItem_storage_form :
    decode pathBcs handleBcs (firstItem.encode pathBcs handleBcs) = .ok firstItem ∧
      firstItem.encode pathBcs handleBcs ≠ encode pathBcs handleBcs (.raw [7, 8]) := by
  have hform := storage_form pathBcs handleBcs id firstItem (.raw [7, 8]) []
  exact ⟨hform.1, fun h => absurd (hform.2.1 h) nofun⟩

end StateKey
end OpenLibra.StateStore
