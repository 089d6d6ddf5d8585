import OpenLibra.Gas.Meter

/-!
# Abstract sizes of values

A visitor sums up the size of a value.  To look through a reference, another visitor is put in
front of it and hands on the calls, but not those for vectors of the newer integer types.
-/

namespace OpenLibra.Gas

open Rust Move GasAlgebra

/-!
# Values and visitors
-/

/-- The types of which vectors are packed. -/
inductive Packed where
  | u8
  | u16
  | u32
  | u64
  | u128
  | u256
  | bool
  | address
deriving DecidableEq, Repr

/-- A value without references, as a visitor sees it.  No visitor here reads the bits. -/
inductive Value where
  | packed (ty : Packed)
  | packedVec (ty : Packed) (len : U64)
  | struct (fields : List Value)
  | vec (elements : List Value)

/-- A value or a reference to one. -/
inductive View where
  | value (v : Value)
  | ref (isGlobal : Bool) (v : Value)

/-- The methods of the trait.  `visitPacked` stands for `visit_u8`, `visit_u16` and so on, and
`visitPackedVec` for `visit_vec_u8` and so on; the first number is the depth. -/
structure ValueVisitor (visitor : Type) where
  visitPacked : Packed -> Nat -> visitor -> Outcome Unit visitor
  visitPackedVec : Packed -> Nat -> U64 -> visitor -> Outcome Unit visitor
  visitStruct : Nat -> Nat -> visitor -> Outcome Unit (Bool × visitor)
  visitVec : Nat -> Nat -> visitor -> Outcome Unit (Bool × visitor)
  visitRef : Nat -> Bool -> visitor -> Outcome Unit (Bool × visitor)

/-- What another crate defines: the default of `visit_vec_u8` and so on for a visitor with these
`visit_vec` and `visit_u8`, and the walk along a value. -/
structure Views where
  defaultVec : forall {visitor : Type}, (Nat -> Nat -> visitor -> Outcome Unit (Bool × visitor)) ->
    (Nat -> visitor -> Outcome Unit visitor) -> Nat -> U64 -> visitor -> Outcome Unit visitor
  visit : forall {visitor : Type}, ValueVisitor visitor -> Nat -> Value -> visitor ->
    Outcome Unit visitor
  visitView : forall {visitor : Type}, ValueVisitor visitor -> View -> visitor ->
    Outcome Unit visitor

/-- What is inside is visited if the visitor asks for it. -/
def visitInside {visitor : Type} (visit : Value -> visitor -> Outcome Unit visitor)
    (values : List Value) : Bool × visitor -> Outcome Unit visitor
  | (true, self) => tryFold (fun self v => visit v self) self values
  | (false, self) => .ok self

/-- The default calls `visit_vec` and visits each element, and the walk calls the method for the
value and goes on one level deeper. -/
structure Views.Lawful (views : Views) : Prop where
  defaultVec : forall {visitor : Type} visitVec visitElement depth len (self : visitor),
    views.defaultVec visitVec visitElement depth len self = do
      let (_, self) <- visitVec depth len.toNat self
      tryFold (fun self _ => visitElement (depth + 1) self) self (List.range len.toNat)
  packed : forall {visitor : Type} (V : ValueVisitor visitor) depth ty self,
    views.visit V depth (.packed ty) self = V.visitPacked ty depth self
  packedVec : forall {visitor : Type} (V : ValueVisitor visitor) depth ty len self,
    views.visit V depth (.packedVec ty len) self = V.visitPackedVec ty depth len self
  struct : forall {visitor : Type} (V : ValueVisitor visitor) depth fields self,
    views.visit V depth (.struct fields) self =
      V.visitStruct depth fields.length self >>= visitInside (views.visit V (depth + 1)) fields
  vec : forall {visitor : Type} (V : ValueVisitor visitor) depth elements self,
    views.visit V depth (.vec elements) self =
      V.visitVec depth elements.length self >>= visitInside (views.visit V (depth + 1)) elements
  value : forall {visitor : Type} (V : ValueVisitor visitor) v self,
    views.visitView V (.value v) self = views.visit V 0 v self
  ref : forall {visitor : Type} (V : ValueVisitor visitor) isGlobal v self,
    views.visitView V (.ref isGlobal v) self =
      V.visitRef 0 isGlobal self >>= visitInside (views.visit V 1) [v]

/-!
# The visitor that looks through a reference
-/

structure DerefVisitor (visitor : Type) where
  inner : visitor
  offset : Nat

/-- `depth - self.offset`. -/
def DerefVisitor.depth {visitor : Type} (self : DerefVisitor visitor) (depth : Nat) :
    Outcome Unit Nat :=
  if self.offset ≤ depth then .ok (depth - self.offset) else .panic

def DerefVisitor.delegate {visitor : Type} (self : DerefVisitor visitor) (depth : Nat)
    (call : Nat -> visitor -> Outcome Unit visitor) : Outcome Unit (DerefVisitor visitor) := do
  let inner <- call (<- self.depth depth) self.inner
  return { self with inner := inner }

def DerefVisitor.delegateInside {visitor : Type} (self : DerefVisitor visitor) (depth : Nat)
    (call : Nat -> visitor -> Outcome Unit (Bool × visitor)) :
    Outcome Unit (Bool × DerefVisitor visitor) := do
  let (inside, inner) <- call (<- self.depth depth) self.inner
  return (inside, { self with inner := inner })

section

variable {visitor : Type} {inner : visitor} {offset depth : Nat} (hle : offset ≤ depth)
include hle

theorem DerefVisitor.delegate_of_le (call : Nat -> visitor -> Outcome Unit visitor) :
    DerefVisitor.delegate ⟨inner, offset⟩ depth call = do
      let inner <- call (depth - offset) inner
      return ⟨inner, offset⟩ := by
  rw [DerefVisitor.delegate, DerefVisitor.depth, if_pos hle]
  rfl

theorem DerefVisitor.delegateInside_of_le
    (call : Nat -> visitor -> Outcome Unit (Bool × visitor)) :
    DerefVisitor.delegateInside ⟨inner, offset⟩ depth call = do
      let (inside, inner) <- call (depth - offset) inner
      return (inside, ⟨inner, offset⟩) := by
  rw [DerefVisitor.delegateInside, DerefVisitor.depth, if_pos hle]
  rfl

end

/-- `visit_vec_u16`, `visit_vec_u32` and `visit_vec_u256` are left to the default. -/
def derefVisitor {visitor : Type} (views : Views) (V : ValueVisitor visitor) :
    ValueVisitor (DerefVisitor visitor) where
  visitPacked ty depth self := self.delegate depth (V.visitPacked ty)
  visitPackedVec ty depth len self :=
    match ty with
    | .u16 | .u32 | .u256 =>
      views.defaultVec (fun depth len self => self.delegateInside depth (V.visitVec · len))
        (fun depth self => self.delegate depth (V.visitPacked ty)) depth len self
    | _ => self.delegate depth (V.visitPackedVec ty · len)
  visitStruct depth len self := self.delegateInside depth (V.visitStruct · len)
  visitVec depth len self := self.delegateInside depth (V.visitVec · len)
  visitRef depth _ self :=
    if depth = 0 then .ok (true, { self with offset := 1 }) else .panic

/-!
# The visitor that sums up sizes
-/

/-- `packed` are the fields `u8`, `u16` and so on, and `perPacked` the fields `per_u8_packed`,
`per_u16_packed` and so on. -/
structure AbstractValueSizeGasParameters where
  packed : Packed -> U64
  struct : U64
  vector : U64
  reference : U64
  perPacked : Packed -> U64

def AbstractValueSizeGasParameters.initial : AbstractValueSizeGasParameters where
  packed _ := 40
  struct := 40
  vector := 40
  reference := 40
  perPacked
    | .u8 | .bool => 1
    | .u16 => 2
    | .u32 => 4
    | .u64 => 8
    | .u128 => 16
    | .u256 | .address => 32

section

variable [GasAlgebra] (params : AbstractValueSizeGasParameters) (featureVersion : Nat)

/-- The state is the field `size`. -/
def abstractValueSizeVisitor : ValueVisitor U64 where
  visitPacked ty _ size := .ok (plus size (params.packed ty))
  visitPackedVec ty _ len size :=
    let packed := times (params.perPacked ty) len
    match ty with
    | .u16 | .u32 | .u256 => .ok (plus size (plus params.vector packed))
    | _ => .ok (plus size (if featureVersion ≥ 3 then plus packed params.vector else packed))
  visitStruct _ _ size := .ok (true, plus size params.struct)
  visitVec _ _ size := .ok (true, plus size params.vector)
  visitRef _ _ size := .ok (false, plus size params.reference)

def abstractValueSize (views : Views) (val : View) : Outcome Unit U64 :=
  views.visitView (abstractValueSizeVisitor params featureVersion) val 0

def abstractValueSizeDereferenced (views : Views) (val : View) : Outcome Unit U64 := do
  let visitor <- views.visitView
    (derefVisitor views (abstractValueSizeVisitor params featureVersion)) val ⟨0, 0⟩
  return visitor.inner

end

/-!
# Values without vectors of the newer integer types
-/

def Packed.isNewer : Packed -> Bool
  | .u16 | .u32 | .u256 => true
  | _ => false

/-- Vectors of `u16`, `u32` and `u256` are empty. -/
inductive Value.Older : Value -> Prop where
  | packed (ty : Packed) : Older (.packed ty)
  | packedVec {ty : Packed} {len : U64} (h : ty.isNewer = true -> len = 0) :
      Older (.packedVec ty len)
  | struct {fields : List Value} (h : forall v, v ∈ fields -> Older v) : Older (.struct fields)
  | vec {elements : List Value} (h : forall v, v ∈ elements -> Older v) : Older (.vec elements)

theorem Value.induction {P : Value -> Prop} (packed : forall ty, P (.packed ty))
    (packedVec : forall ty len, P (.packedVec ty len))
    (struct : forall fields, (forall v, v ∈ fields -> P v) -> P (.struct fields))
    (vec : forall elements, (forall v, v ∈ elements -> P v) -> P (.vec elements)) (v : Value) :
    P v := by
  refine @Value.rec P (fun values => forall v, v ∈ values -> P v) packed packedVec struct vec
    ?_ ?_ v
  · exact fun v hv => (List.not_mem_nil hv).elim
  · intro head tail hhead htail v hv
    rcases List.mem_cons.mp hv with rfl | hv
    · exact hhead
    · exact htail v hv

/-- Only the elements of packed vectors of the newer integer types have a size. -/
def newerOnly : AbstractValueSizeGasParameters where
  packed _ := 0
  struct := 0
  vector := 0
  reference := 0
  perPacked ty := if ty.isNewer then 1 else 0

/-!
# Loops and sums
-/

theorem older_fold {values : List Value} {visit : Value -> U64 -> Outcome Unit U64}
    (h : forall v, v ∈ values -> forall size, visit v size = .ok 0 -> size = 0 ∧ v.Older)
    {size : U64} (hfold : tryFold (fun size v => visit v size) size values = .ok 0) :
    size = 0 ∧ forall v, v ∈ values -> v.Older := by
  induction values generalizing size with
  | nil =>
    cases hfold
    exact ⟨rfl, fun v hv => (List.not_mem_nil hv).elim⟩
  | cons v values ih =>
    rw [List.forall_mem_cons] at h ⊢
    rw [tryFold, bind_eq_ok_iff] at hfold
    rcases hfold with ⟨middle, hvisit, hfold⟩
    rcases ih h.right hfold with ⟨rfl, holder⟩
    exact ⟨(h.left size hvisit).left, (h.left size hvisit).right, holder⟩

/-- Sums and products saturate. -/
structure GasAlgebra.Saturates [GasAlgebra] : Prop where
  toNat_plus : forall a b : U64, (plus a b).toNat = min (a.toNat + b.toNat) (u64Bound - 1)
  toNat_times : forall a b : U64, (times a b).toNat = min (a.toNat * b.toNat) (u64Bound - 1)

section

variable [GasAlgebra] (hsum : GasAlgebra.Saturates) {a b : U64}
include hsum

theorem plus_zero (a : U64) : plus a 0#64 = a := by
  apply BitVec.eq_of_toNat_eq
  rw [hsum.toNat_plus]
  simpa [u64Bound] using Nat.le_sub_one_of_lt a.isLt

theorem plus_eq_zero (h : plus a b = 0) : a = 0 ∧ b = 0 := by
  have hnat := hsum.toNat_plus a b
  rw [h] at hnat
  simp only [u64Bound, BitVec.toNat_ofNat, BitVec.ofNat_eq_ofNat, Nat.zero_mod] at hnat
  have hzero : a.toNat = 0 ∧ b.toNat = 0 := by omega
  exact ⟨BitVec.eq_of_toNat_eq hzero.left, BitVec.eq_of_toNat_eq hzero.right⟩

theorem times_zero (a : U64) : times a 0#64 = 0#64 := by
  apply BitVec.eq_of_toNat_eq
  rw [hsum.toNat_times]
  simp

theorem zero_times (a : U64) : times 0#64 a = 0#64 := by
  apply BitVec.eq_of_toNat_eq
  rw [hsum.toNat_times]
  simp

theorem one_times (a : U64) : times 1#64 a = a := by
  apply BitVec.eq_of_toNat_eq
  rw [hsum.toNat_times]
  simpa [u64Bound] using Nat.le_sub_one_of_lt a.isLt

end

/-!
# Both visitors agree
-/

section

variable [GasAlgebra] {views : Views} {params : AbstractValueSizeGasParameters}
  {featureVersion : Nat}

/-- From any depth that is not above the reference, both visitors add the same. -/
def Agree (views : Views) (params : AbstractValueSizeGasParameters) (featureVersion : Nat)
    (v : Value) : Prop :=
  forall depth depth' offset size, offset ≤ depth ->
    exists size', views.visit (abstractValueSizeVisitor params featureVersion) depth' v size =
        .ok size' ∧
      views.visit (derefVisitor views (abstractValueSizeVisitor params featureVersion)) depth v
        ⟨size, offset⟩ = .ok ⟨size', offset⟩

theorem agree_fold {values : List Value}
    (h : forall v, v ∈ values -> Agree views params featureVersion v) {depth offset : Nat}
    (hle : offset ≤ depth) (depth' : Nat) (size : U64) :
    exists size', tryFold (fun size v =>
        views.visit (abstractValueSizeVisitor params featureVersion) depth' v size) size values =
          .ok size' ∧
      tryFold (fun self v =>
        views.visit (derefVisitor views (abstractValueSizeVisitor params featureVersion)) depth v
          self) ⟨size, offset⟩ values = .ok ⟨size', offset⟩ := by
  induction values generalizing size with
  | nil => exact ⟨size, rfl, rfl⟩
  | cons v values ih =>
    rw [List.forall_mem_cons] at h
    rcases h.left depth depth' offset size hle with ⟨middle, hplain, hderef⟩
    rcases ih h.right middle with ⟨size', hplain', hderef'⟩
    refine ⟨size', ?_, ?_⟩
    · rw [tryFold, hplain]
      exact hplain'
    · rw [tryFold, hderef]
      exact hderef'

variable (hsum : GasAlgebra.Saturates) (hviews : views.Lawful)
include hsum hviews

theorem agree_of_older {v : Value} (h : v.Older) : Agree views params featureVersion v := by
  induction h with
  | packed ty =>
    intro depth depth' offset size hle
    rw [hviews.packed, hviews.packed]
    exact ⟨_, rfl, DerefVisitor.delegate_of_le hle _⟩
  | @packedVec ty len h =>
    intro depth depth' offset size hle
    rw [hviews.packedVec, hviews.packedVec]
    by_cases hnewer : ty.isNewer = true
    · -- The default visits no element of an empty vector.
      refine ⟨plus size params.vector, ?_, ?_⟩ <;> cases ty <;> cases hnewer <;> cases h rfl <;>
        simp [abstractValueSizeVisitor, derefVisitor, hviews.defaultVec, times_zero hsum,
          plus_zero hsum, DerefVisitor.delegateInside_of_le hle, tryFold]
    · cases ty <;> first
        | exact absurd rfl hnewer
        | exact ⟨_, rfl, DerefVisitor.delegate_of_le hle _⟩
  | @struct fields _ ih =>
    intro depth depth' offset size hle
    rcases agree_fold ih (Nat.le_succ_of_le hle) (depth' + 1) (plus size params.struct)
      with ⟨size', hplain, hderef⟩
    rw [hviews.struct, hviews.struct]
    refine ⟨size', hplain, ?_⟩
    change DerefVisitor.delegateInside _ _ _ >>= _ = _
    rw [DerefVisitor.delegateInside_of_le hle]
    exact hderef
  | @vec elements _ ih =>
    intro depth depth' offset size hle
    rcases agree_fold ih (Nat.le_succ_of_le hle) (depth' + 1) (plus size params.vector)
      with ⟨size', hplain, hderef⟩
    rw [hviews.vec, hviews.vec]
    refine ⟨size', hplain, ?_⟩
    change DerefVisitor.delegateInside _ _ _ >>= _ = _
    rw [DerefVisitor.delegateInside_of_le hle]
    exact hderef

/-!
# Where the visitors differ
-/

omit hviews in
theorem visitElements_newerOnly {depth offset : Nat} (hle : offset ≤ depth) (ty : Packed)
    (n : Nat) :
    tryFold (fun (self : DerefVisitor U64) (_ : Nat) => self.delegate (depth + 1)
      ((abstractValueSizeVisitor newerOnly featureVersion).visitPacked ty)) ⟨0, offset⟩
        (List.range n) = .ok ⟨0, offset⟩ := by
  apply tryFold_fixed
  intro _ _
  rw [DerefVisitor.delegate_of_le (Nat.le_succ_of_le hle)]
  simp [abstractValueSizeVisitor, newerOnly, plus_zero hsum]

theorem deref_newerOnly (v : Value) : forall depth offset, offset ≤ depth ->
    views.visit (derefVisitor views (abstractValueSizeVisitor newerOnly featureVersion)) depth v
      ⟨0, offset⟩ = .ok ⟨0, offset⟩ := by
  have hzero := plus_zero hsum 0#64
  induction v using Value.induction with
  | packed ty =>
    intro depth offset hle
    rw [hviews.packed]
    simp [derefVisitor, abstractValueSizeVisitor, newerOnly, hzero,
      DerefVisitor.delegate_of_le hle]
  | packedVec ty len =>
    intro depth offset hle
    have helements := @visitElements_newerOnly _ featureVersion hsum depth offset hle ty len.toNat
    rw [hviews.packedVec]
    cases ty <;>
      simp [derefVisitor, hviews.defaultVec, DerefVisitor.delegateInside_of_le hle,
        DerefVisitor.delegate_of_le hle, abstractValueSizeVisitor, newerOnly, hzero,
        zero_times hsum, Packed.isNewer] at helements ⊢ <;>
      exact helements
  | struct fields ih =>
    intro depth offset hle
    have hself : (derefVisitor views
        (abstractValueSizeVisitor newerOnly featureVersion)).visitStruct depth fields.length
          ⟨0, offset⟩ = .ok (true, ⟨0, offset⟩) := by
      simp [derefVisitor, abstractValueSizeVisitor, newerOnly, hzero,
        DerefVisitor.delegateInside_of_le hle]
    rw [hviews.struct, hself]
    exact tryFold_fixed (fun v hv => ih v hv (depth + 1) offset (Nat.le_succ_of_le hle))
  | vec elements ih =>
    intro depth offset hle
    have hself : (derefVisitor views
        (abstractValueSizeVisitor newerOnly featureVersion)).visitVec depth elements.length
          ⟨0, offset⟩ = .ok (true, ⟨0, offset⟩) := by
      simp [derefVisitor, abstractValueSizeVisitor, newerOnly, hzero,
        DerefVisitor.delegateInside_of_le hle]
    rw [hviews.vec, hself]
    exact tryFold_fixed (fun v hv => ih v hv (depth + 1) offset (Nat.le_succ_of_le hle))

theorem older_of_newerOnly (v : Value) : forall depth size,
    views.visit (abstractValueSizeVisitor newerOnly featureVersion) depth v size = .ok 0 ->
      size = 0 ∧ v.Older := by
  induction v using Value.induction with
  | packed ty =>
    intro depth size h
    rw [hviews.packed] at h
    exact ⟨(plus_eq_zero hsum (Outcome.ok.inj h)).left, .packed ty⟩
  | packedVec ty len =>
    intro depth size h
    rw [hviews.packedVec] at h
    cases ty <;> rcases plus_eq_zero hsum (Outcome.ok.inj h) with ⟨hsize, hvec⟩ <;>
      refine ⟨hsize, .packedVec fun hnewer => ?_⟩ <;> first
        | exact (one_times hsum len).symm.trans (plus_eq_zero hsum hvec).right
        | cases hnewer
  | struct fields ih =>
    intro depth size h
    rw [hviews.struct] at h
    rcases older_fold (fun v hv size => ih v hv (depth + 1) size) h with ⟨hsize, holder⟩
    exact ⟨(plus_eq_zero hsum hsize).left, .struct holder⟩
  | vec elements ih =>
    intro depth size h
    rw [hviews.vec] at h
    rcases older_fold (fun v hv size => ih v hv (depth + 1) size) h with ⟨hsize, holder⟩
    exact ⟨(plus_eq_zero hsum hsize).left, .vec holder⟩

/-- The size behind a reference is that of the value for all parameters exactly if its vectors of
`u16`, `u32` and `u256` are empty. -/
theorem dereferenced_eq_iff (v : Value) :
    (forall params featureVersion, exists size,
      abstractValueSize params featureVersion views (.value v) = Outcome.ok size ∧
      abstractValueSizeDereferenced params featureVersion views (.value v) = Outcome.ok size ∧
      forall isGlobal, abstractValueSizeDereferenced params featureVersion views
        (.ref isGlobal v) = Outcome.ok size) <-> v.Older := by
  constructor
  · intro h
    rcases h newerOnly 0 with ⟨size, hplain, hderef, _⟩
    rw [abstractValueSize, hviews.value] at hplain
    rw [abstractValueSizeDereferenced, hviews.value,
      deref_newerOnly hsum hviews v 0 0 (Nat.le_refl 0)] at hderef
    cases hderef
    exact (older_of_newerOnly hsum hviews v 0 0 hplain).right
  · intro h params featureVersion
    have hagree := @agree_of_older _ views params featureVersion hsum hviews v h
    rcases hagree 0 0 0 0 (Nat.le_refl 0) with ⟨size, hplain, hderef⟩
    refine ⟨size, ?_, ?_, fun isGlobal => ?_⟩
    · rw [abstractValueSize, hviews.value, hplain]
    · rw [abstractValueSizeDereferenced, hviews.value, hderef]
      rfl
    · rcases hagree 1 0 1 0 (Nat.le_refl 1) with ⟨size', hplain', hderef'⟩
      cases hplain.symm.trans hplain'
      rw [abstractValueSizeDereferenced, hviews.ref]
      simp [derefVisitor, visitInside, tryFold] at hderef' ⊢
      rw [hderef']
      rfl

end

/-!
# A walk
-/

section

variable {visitor : Type} (V : ValueVisitor visitor)

mutual

def walk (depth : Nat) : Value -> visitor -> Outcome Unit visitor
  | .packed ty, self => V.visitPacked ty depth self
  | .packedVec ty len, self => V.visitPackedVec ty depth len self
  | .struct fields, self => V.visitStruct depth fields.length self >>= walkInside depth fields
  | .vec elements, self => V.visitVec depth elements.length self >>= walkInside depth elements

def walkInside (depth : Nat) : List Value -> Bool × visitor -> Outcome Unit visitor
  | _, (false, self) => .ok self
  | [], (true, self) => .ok self
  | v :: values, (true, self) => do
    let self <- walk (depth + 1) v self
    walkInside depth values (true, self)

end

theorem walkInside_eq (depth : Nat) (values : List Value) :
    walkInside V depth values = visitInside (walk V (depth + 1)) values := by
  funext ⟨inside, self⟩
  cases inside with
  | false => cases values <;> rfl
  | true =>
    induction values generalizing self with
    | nil => rfl
    | cons v values ih =>
      rw [walkInside, visitInside, tryFold]
      exact congrArg _ (funext ih)

end

def walks : Views where
  defaultVec visitVec visitElement depth len self := do
    let (_, self) <- visitVec depth len.toNat self
    tryFold (fun self _ => visitElement (depth + 1) self) self (List.range len.toNat)
  visit V depth v self := walk V depth v self
  visitView V
    | .value v, self => walk V 0 v self
    | .ref isGlobal v, self => V.visitRef 0 isGlobal self >>= walkInside V 0 [v]

theorem walks_lawful : walks.Lawful where
  defaultVec _ _ _ _ _ := rfl
  packed _ _ _ _ := rfl
  packedVec _ _ _ _ _ := rfl
  struct V depth fields self := by
    change walk V depth (.struct fields) self = _
    rw [walk, walkInside_eq]
    rfl
  vec V depth elements self := by
    change walk V depth (.vec elements) self = _
    rw [walk, walkInside_eq]
    rfl
  value _ _ _ := rfl
  ref V isGlobal v self := by
    change V.visitRef 0 isGlobal self >>= walkInside V 0 [v] = _
    rw [walkInside_eq]
    rfl

theorem saturating_saturates : @GasAlgebra.Saturates OLGasMeter.saturating where
  toNat_plus _ _ := OLGasMeter.toNat_saturated _
  toNat_times _ _ := OLGasMeter.toNat_saturated _

/-- A struct with a `u16` and a vector of bytes. -/
def bytesValue : Value := .struct [.packed .u16, .packedVec .u8 5]

theorem dereferenced_eq_bytes :
    bytesValue.Older ∧ exists size,
      abstractValueSize .initial 5 walks (.value bytesValue) = Outcome.ok size ∧
      abstractValueSizeDereferenced .initial 5 walks (.value bytesValue) = Outcome.ok size ∧
      forall isGlobal,
        abstractValueSizeDereferenced .initial 5 walks (.ref isGlobal bytesValue) =
          Outcome.ok size := by
  have holder : bytesValue.Older := by
    refine .struct fun v hv => ?_
    simp only [List.mem_cons, List.not_mem_nil, or_false] at hv
    rcases hv with rfl | rfl
    · exact .packed .u16
    · exact .packedVec fun h => nomatch h
  exact ⟨holder, (dereferenced_eq_iff saturating_saturates walks_lawful bytesValue).mpr holder _ 5⟩

theorem dereferenced_u16_vector :
    walks.Lawful ∧
      abstractValueSize .initial 5 walks (.value (.packedVec .u16 3)) = Outcome.ok 46 ∧
      abstractValueSizeDereferenced .initial 5 walks (.value (.packedVec .u16 3)) =
        Outcome.ok 160 ∧
      abstractValueSizeDereferenced .initial 5 walks (.ref false (.packedVec .u16 3)) =
        Outcome.ok 160 := by
  exact ⟨walks_lawful, by decide, by decide, by decide⟩

end OpenLibra.Gas
