import Mathlib.Data.List.Nodup

/-!
# Assignments stored on both sides

Members are assigned to owners.  An owner lists its members, and a member knows its owner.
-/

namespace OpenLibra.Tables

structure Assignments (owner member : Type) where
  members : owner -> List member
  ownerOf : member -> Option owner

namespace Assignments

open Function List

variable {owner member : Type}

structure Consistent (x : Assignments owner member) : Prop where
  mem_iff : forall a m, m ∈ x.members a <-> x.ownerOf m = some a
  nodup : forall a, (x.members a).Nodup

variable {x : Assignments owner member}

theorem Consistent.not_mem (hx : x.Consistent) {m : member}
    (hfree : x.ownerOf m = none) (a : owner) : m ∉ x.members a := by
  intro hm
  have howner := (hx.mem_iff a m).mp hm
  rw [hfree] at howner
  cases howner

variable [DecidableEq owner] [DecidableEq member]

def assign (x : Assignments owner member) (a : owner) (m : member) : Assignments owner member :=
  { members := update x.members a (x.members a ++ [m])
    ownerOf := update x.ownerOf m (some a) }

def release (x : Assignments owner member) (a : owner) (m : member) : Assignments owner member :=
  { members := update x.members a ((x.members a).erase m)
    ownerOf := update x.ownerOf m none }

theorem Consistent.assign (hx : x.Consistent) (a : owner) {m : member}
    (hfree : x.ownerOf m = none) : (x.assign a m).Consistent := by
  have hnew : forall b, m ∉ x.members b := hx.not_mem hfree
  constructor
  · intro b m'
    change m' ∈ update x.members a (x.members a ++ [m]) b <->
      update x.ownerOf m (some a) m' = some b
    by_cases hb : b = a
    · subst hb
      rw [update_self, mem_append, mem_singleton, hx.mem_iff]
      by_cases hm : m' = m
      · simp [hm]
      · simp [hm]
    · rw [update_of_ne hb, hx.mem_iff]
      by_cases hm : m' = m
      · subst hm
        rw [hfree, update_self, Option.some.injEq]
        constructor
        · intro h
          cases h
        · intro h
          exact absurd h.symm hb
      · rw [update_of_ne hm]
  · intro b
    change (update x.members a (x.members a ++ [m]) b).Nodup
    by_cases hb : b = a
    · subst hb
      rw [update_self, ← concat_eq_append]
      exact (hx.nodup b).concat (hnew b)
    · rw [update_of_ne hb]
      exact hx.nodup b

theorem Consistent.release_iff (hx : x.Consistent) {a a' : owner} {m : member}
    (howner : x.ownerOf m = some a') : (x.release a m).Consistent <-> a' = a := by
  constructor
  · intro hafter
    by_contra hne
    have hm : m ∈ (x.release a m).members a' := by
      change m ∈ update x.members a ((x.members a).erase m) a'
      rw [update_of_ne hne]
      exact (hx.mem_iff a' m).mpr howner
    have hnone : (x.release a m).ownerOf m = none := by
      change update x.ownerOf m none m = none
      rw [update_self]
    exact hafter.not_mem hnone a' hm
  · intro hsame
    subst hsame
    constructor
    · intro b m'
      change m' ∈ update x.members a' ((x.members a').erase m) b <->
        update x.ownerOf m none m' = some b
      by_cases hm : m' = m
      · -- The member was on no other list.
        subst hm
        rw [update_self]
        constructor
        · intro hmem
          by_cases hb : b = a'
          · subst hb
            rw [update_self] at hmem
            exact absurd hmem (hx.nodup b).not_mem_erase
          · rw [update_of_ne hb, hx.mem_iff, howner] at hmem
            exact absurd (Option.some.inj hmem).symm hb
        · intro h
          cases h
      · rw [update_of_ne hm, ← hx.mem_iff]
        by_cases hb : b = a'
        · subst hb
          rw [update_self, mem_erase_of_ne hm]
        · rw [update_of_ne hb]
    · intro b
      change (update x.members a' ((x.members a').erase m) b).Nodup
      by_cases hb : b = a'
      · subst hb
        rw [update_self]
        exact (hx.nodup b).erase m
      · rw [update_of_ne hb]
        exact hx.nodup b

end Assignments

end OpenLibra.Tables
