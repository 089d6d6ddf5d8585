import Mathlib.Algebra.BigOperators.Group.List.Basic
import Mathlib.Algebra.GroupWithZero.Nat
import Mathlib.Data.List.Nodup
import OpenLibra.Move.Vector

/-!
# Simple maps

A map is a vector of elements with different keys.  A removed element is replaced by the last
one, so all is stated up to permutation.
-/

namespace OpenLibra.Move

open List
namespace Vector

variable {element : Type}

theorem perm_of_swapRemove {elements rest} {i : Nat} {found : element}
    (h : swapRemove elements i = .ok (found, rest)) : elements.Perm (found :: rest) := by
  cases hfound : elements[i]? with
  | none =>
    unfold swapRemove at h
    rw [hfound] at h
    split at h <;> cases h
  | some =>
    rcases exists_swapRemove hfound with ⟨_, hremove, hperm⟩
    cases h.symm.trans hremove
    exact hperm

end Vector

def eKeyAlreadyExists : Nat := 1

def eKeyNotFound : Nat := 2

structure SimpleMap (key value : Type) where
  data : List (key × value)
  keys_nodup : (data.map Prod.fst).Nodup

namespace SimpleMap

variable {key value : Type}

def create : SimpleMap key value where
  data := []
  keys_nodup := nodup_nil

theorem keys_nodup_of_perm {data data' : List (key × value)}
    (hnodup : (data.map Prod.fst).Nodup) (h : data.Perm data') : (data'.map Prod.fst).Nodup :=
  (h.map Prod.fst).nodup_iff.mp hnodup

theorem perm_set {data : List (key × value)} {i : Nat}
    {old : key × value} (h : data[i]? = some old) (new : key × value) :
    data.Perm (old :: data.eraseIdx i) ∧ (data.set i new).Perm (new :: data.eraseIdx i) :=
  ⟨Vector.perm_cons_eraseIdx h, List.set_perm_cons_eraseIdx (List.getElem?_eq_some_iff.mp h).1 new⟩

variable [dk : DecidableEq key]

/-!
# Search
-/

def find (map : SimpleMap key value) (k : key) : Option Nat :=
  map.data.findIdx? fun element => element.1 = k

variable {map : SimpleMap key value} {k : key} {v : value}

theorem find_eq_some {i : Nat} (h : map.find k = some i) :
    exists v, map.data[i]? = some (k, v) := by
  rcases findIdx?_eq_some_iff_getElem.mp h with ⟨hlt, hfound, _⟩
  refine ⟨map.data[i].2, ?_⟩
  rw [getElem?_eq_getElem hlt, ← of_decide_eq_true hfound]

theorem find_eq_none (h : map.find k = none) : k ∉ map.data.map Prod.fst := by
  intro hmem
  rcases mem_map.mp hmem with ⟨element, helem, hkey⟩
  have hne := findIdx?_eq_none_iff.mp h element helem
  exact of_decide_eq_false hne hkey

def lookup (map : SimpleMap key value) (k : key) : Option value :=
  (map.find k).bind fun i => map.data[i]?.map Prod.snd

theorem lookup_eq_some_iff : map.lookup k = some v <-> (k, v) ∈ map.data := by
  unfold lookup
  cases hfind : map.find k with
  | none =>
    have hnot := find_eq_none hfind
    constructor
    · intro h
      cases h
    · intro h
      exact absurd (mem_map_of_mem h) hnot
  | some =>
    rcases find_eq_some hfind with ⟨_, hfound⟩
    have hmem := mem_of_getElem? hfound
    rw [Option.bind_some, hfound, Option.map_some, Option.some.injEq]
    constructor
    · intro h
      subst h
      exact hmem
    · intro h
      have hsame := inj_on_of_nodup_map map.keys_nodup hmem h rfl
      exact (Prod.mk.inj hsame).right

theorem lookup_eq_none_iff : map.lookup k = none <-> map.find k = none := by
  unfold lookup
  cases hfind : map.find k with
  | none => simp
  | some =>
    rcases find_eq_some hfind with ⟨_, hfound⟩
    simp [hfound]

theorem find_of_lookup (h : map.lookup k = some v) :
    exists i, map.find k = some i ∧ map.data[i]? = some (k, v) := by
  cases hfind : map.find k with
  | none =>
    rw [lookup_eq_none_iff.mpr hfind] at h
    cases h
  | some i =>
    rcases find_eq_some hfind with ⟨_, hfound⟩
    rw [lookup, hfind, Option.bind_some, hfound] at h
    cases h
    exact ⟨i, rfl, hfound⟩

theorem lookup_congr {map' : SimpleMap key value}
    (h : forall v, (k, v) ∈ map.data <-> (k, v) ∈ map'.data) : map.lookup k = map'.lookup k := by
  apply Option.ext
  intro v
  rw [lookup_eq_some_iff, lookup_eq_some_iff, h v]

def containsKey (map : SimpleMap key value) (k : key) : Bool := (map.find k).isSome

theorem containsKey_eq (map : SimpleMap key value) (k : key) :
    map.containsKey k = (map.lookup k).isSome := by
  unfold containsKey
  cases hfind : map.find k with
  | none => rw [lookup_eq_none_iff.mpr hfind]; rfl
  | some =>
    cases hlook : map.lookup k with
    | none =>
      rw [lookup_eq_none_iff.mp hlook] at hfind
      cases hfind
    | some => rfl

/-!
# Operations
-/

def borrow (map : SimpleMap key value) (k : key) : MoveResult value :=
  match map.find k with
  | none => .err (invalidArgument eKeyNotFound)
  | some i => do
    let element <- Vector.borrow map.data i
    return element.2

/-- Assignment through `borrow_mut`. -/
def assign (map : SimpleMap key value) (k : key) (new : value) : MoveResult (SimpleMap key value) :=
  match hfind : map.find k with
  | none => .err (invalidArgument eKeyNotFound)
  | some i =>
    .ok
      { data := map.data.set i (k, new)
        keys_nodup := by
          rcases find_eq_some hfind with ⟨old, hold⟩
          rcases perm_set hold (k, new) with ⟨hdata, hset⟩
          have hkeys := keys_nodup_of_perm map.keys_nodup hdata
          exact @keys_nodup_of_perm _ _ ((k, new) :: _) _ hkeys hset.symm }

def add (map : SimpleMap key value) (k : key) (v : value) : MoveResult (SimpleMap key value) :=
  match hfind : map.find k with
  | some _ => .err (invalidArgument eKeyAlreadyExists)
  | none =>
    .ok
      { data := map.data ++ [(k, v)]
        keys_nodup := by
          have hkeys : (((k, v) :: map.data).map Prod.fst).Nodup :=
            nodup_cons.mpr ⟨find_eq_none hfind, map.keys_nodup⟩
          exact keys_nodup_of_perm hkeys (perm_append_singleton _ _).symm }

def remove (map : SimpleMap key value) (k : key) :
    MoveResult ((key × value) × SimpleMap key value) :=
  match map.find k with
  | none => .err (invalidArgument eKeyNotFound)
  | some i =>
    match hremove : Vector.swapRemove map.data i with
    | .ok (element, rest) =>
      .ok (element,
          { data := rest
            keys_nodup := by
              have hkeys := keys_nodup_of_perm map.keys_nodup (Vector.perm_of_swapRemove hremove)
              exact (nodup_cons.mp hkeys).right })
    | .err e => .err e
    | .panic => .panic

theorem borrow_eq_ok (h : map.lookup k = some v) : map.borrow k = .ok v := by
  rcases find_of_lookup h with ⟨_, hfind, hdata⟩
  simp [borrow, hfind, Vector.borrow_eq_ok_iff.mpr hdata]

/-!
# Effects
-/

def elementsAt (k : key) (v : Option value) : List (key × value) := (v.map fun v => (k, v)).toList

structure Replaced (map map' : SimpleMap key value) (k : key)
    (old new : Option value) (rest : List (key × value)) : Prop where
  before : map.data.Perm (elementsAt k old ++ rest)
  after : map'.data.Perm (elementsAt k new ++ rest)
  fresh : k ∉ rest.map Prod.fst

section

variable {map map' : SimpleMap key value} {k : key} {old new : Option value}
  {rest : List (key × value)}

omit dk in
theorem mem_elementsAt {k k' : key} {v : value} :
    (k', v) ∈ elementsAt k new <-> k' = k ∧ new = some v := by
  cases new with
  | none => simp [elementsAt]
  | some => simp [elementsAt, eq_comm]

theorem Replaced.lookup_self (h : Replaced map map' k old new rest) : map'.lookup k = new := by
  apply Option.ext
  intro _
  rw [lookup_eq_some_iff, h.after.mem_iff, mem_append, mem_elementsAt]
  constructor
  · intro hmem
    rcases hmem with ⟨_, hnew⟩ | hrest
    · exact hnew
    · exact absurd (mem_map_of_mem hrest) h.fresh
  · intro hnew
    exact .inl ⟨rfl, hnew⟩

theorem Replaced.lookup_of_ne (h : Replaced map map' k old new rest) {k' : key} (hne : k' ≠ k) :
    map'.lookup k' = map.lookup k' := by
  apply lookup_congr
  intro _
  rw [h.after.mem_iff, h.before.mem_iff, mem_append, mem_append, mem_elementsAt, mem_elementsAt]
  simp [hne]

omit dk in
theorem Replaced.sum_eq (h : Replaced map map' k old new rest) (weight : value -> Nat) :
    (map'.data.map fun element => weight element.2).sum + (old.map weight).getD 0 =
      (map.data.map fun element => weight element.2).sum + (new.map weight).getD 0 := by
  have hsum (v : Option value) : ((elementsAt k v).map fun element => weight element.2).sum =
      (v.map weight).getD 0 := by
    cases v <;> simp [elementsAt]
  rw [(h.after.map _).sum_eq, (h.before.map _).sum_eq, map_append,
    map_append, sum_append, sum_append, hsum, hsum]
  omega

omit dk in
theorem Replaced.trans {map''} {newer} {rest'} (h : Replaced map map' k old new rest)
    (h' : Replaced map' map'' k new newer rest') : Replaced map map'' k old newer rest where
  before := h.before
  after := by
    have hrest := (perm_append_left_iff _).mp (h'.before.symm.trans h.after)
    exact h'.after.trans (hrest.append_left _)
  fresh := h.fresh

omit dk in
theorem Replaced.forall_after (h : Replaced map map' k old new rest)
    {property : key × value -> Prop} (hall : forall element, element ∈ map.data -> property element)
    (hnew : forall v, new = some v -> property (k, v)) {element : key × value}
    (helem : element ∈ map'.data) : property element := by
  rw [h.after.mem_iff, mem_append] at helem
  rcases helem with hself | hrest
  · rcases mem_elementsAt.mp hself with ⟨hkey, hval⟩
    have hproperty := hnew _ hval
    rw [← hkey] at hproperty
    exact hproperty
  · exact hall element (h.before.mem_iff.mpr (mem_append.mpr (Or.inr hrest)))

omit dk in
theorem Replaced.keys_perm (h : Replaced map map' k old new rest) {keys keys' : List key}
    (hkeys : keys.Perm (map.data.map Prod.fst))
    (hchg : ((elementsAt k old).map Prod.fst ++ keys').Perm
      ((elementsAt k new).map Prod.fst ++ keys)) : keys'.Perm (map'.data.map Prod.fst) := by
  have hbef := h.before.map Prod.fst
  have hafter := h.after.map Prod.fst
  rw [map_append] at hbef hafter
  apply (perm_append_left_iff ((elementsAt k old).map Prod.fst)).mp
  calc _ ~ (elementsAt k new).map Prod.fst ++ keys := hchg
    _ ~ (elementsAt k new).map Prod.fst ++
        ((elementsAt k old).map Prod.fst ++ rest.map Prod.fst) :=
      (hkeys.trans hbef).append_left _
    _ ~ (elementsAt k old).map Prod.fst ++
        ((elementsAt k new).map Prod.fst ++ rest.map Prod.fst) := by
      rw [← append_assoc, ← append_assoc]
      exact perm_append_comm.append_right _
    _ ~ (elementsAt k old).map Prod.fst ++ map'.data.map Prod.fst := hafter.symm.append_left _

end

theorem exists_assign {old : value} (h : map.lookup k = some old) (new : value) :
    exists map' rest, map.assign k new = .ok map' ∧
      Replaced map map' k (some old) (some new) rest := by
  rcases find_of_lookup h with ⟨_, hfind, hdata⟩
  rcases perm_set hdata (k, new) with ⟨hbef, hafter⟩
  have hkeys := keys_nodup_of_perm map.keys_nodup hbef
  unfold assign
  split
  · next hnone =>
      rw [hnone] at hfind
      cases hfind
  · next j hj =>
      rw [hj] at hfind
      cases hfind
      exact ⟨_, _, rfl, hbef, hafter, (nodup_cons.mp hkeys).left⟩

theorem exists_add (h : map.lookup k = none) (v : value) :
    exists map' rest, map.add k v = .ok map' ∧ Replaced map map' k none (some v) rest := by
  have hfind := lookup_eq_none_iff.mp h
  unfold add
  split
  · next i hsome =>
      rw [hsome] at hfind
      cases hfind
  · exact ⟨_, map.data, rfl, List.Perm.refl _, perm_append_singleton _ _, find_eq_none hfind⟩

theorem exists_remove (h : map.lookup k = some v) :
    exists map' rest, map.remove k = .ok ((k, v), map') ∧
      Replaced map map' k (some v) none rest := by
  rcases find_of_lookup h with ⟨_, hfind, hdata⟩
  rcases Vector.exists_swapRemove hdata with ⟨rest, hremove, hperm⟩
  have hkeys := keys_nodup_of_perm map.keys_nodup hperm
  unfold remove
  rw [hfind]
  simp only
  split
  · next element rest' hok =>
      cases hremove.symm.trans hok
      exact ⟨_, rest, rfl, hperm, List.Perm.refl _, (nodup_cons.mp hkeys).left⟩
  · next e he => cases hremove.symm.trans he
  · next hpanic => cases hremove.symm.trans hpanic

end SimpleMap

end OpenLibra.Move
