import Mathlib.Algebra.BigOperators.Group.List.Basic
import Mathlib.Algebra.GroupWithZero.Nat
import Mathlib.Data.List.AList

/-!
# Totals of finite tables

The sum of a weight over the values of a table, and how it moves when one entry
is written.
-/

namespace OpenLibra.Tables

open List

universe u v

variable {key : Type u} {value : Type v}

def weightAt [DecidableEq key] (weight : value -> Nat)
    (table : AList fun _ : key => value) (k : key) : Nat :=
  ((table.lookup k).map weight).getD 0

def total (weight : value -> Nat) (table : AList fun _ : key => value) : Nat :=
  (table.entries.map fun entry => weight entry.2).sum

section

variable [DecidableEq key]

theorem sum_kerase (weight : value -> Nat) (k : key) (entries : List (Sigma fun _ : key => value)) :
    ((entries.kerase k).map fun entry => weight entry.2).sum +
        ((entries.dlookup k).map weight).getD 0 =
          (entries.map fun entry => weight entry.2).sum := by
  induction entries with
  | nil => rfl
  | cons entry rest ih =>
    rcases entry with ⟨k', found⟩
    by_cases hkey : k = k'
    · subst hkey
      have herase : List.kerase k (⟨k, found⟩ :: rest) = rest := kerase_cons_eq rfl
      rw [herase, dlookup_cons_eq, map_cons, sum_cons]
      exact add_comm _ _
    · rw [kerase_cons_ne hkey, dlookup_cons_ne _ _ hkey,
        map_cons, map_cons, sum_cons, sum_cons, ← ih]
      exact add_assoc _ _ _

theorem total_insert (weight : value -> Nat) (k : key) (new : value)
    (table : AList fun _ : key => value) :
    total weight (table.insert k new) + weightAt weight table k =
      total weight table + weight new := by
  have herase := sum_kerase weight k table.entries
  unfold total weightAt AList.lookup
  simp only [AList.entries_insert, map_cons, sum_cons]
  omega

variable {weight : value -> Nat} {k : key} {table : AList fun _ : key => value}

theorem weightAt_of_lookup {found : value} (h : table.lookup k = some found) :
    weightAt weight table k = weight found := by
  simp [weightAt, h]

theorem weightAt_of_notMem (h : table.lookup k = none) : weightAt weight table k = 0 := by
  simp [weightAt, h]

theorem weightAt_insert_self (weight : value -> Nat) (k : key) (new : value)
    (table : AList fun _ : key => value) : weightAt weight (table.insert k new) k = weight new := by
  simp [weightAt]

theorem weightAt_insert_of_ne (weight : value -> Nat) {other : key}
    (h : other ≠ k) (new : value) (table : AList fun _ : key => value) :
    weightAt weight (table.insert k new) other = weightAt weight table other := by
  simp [weightAt, AList.lookup_insert_ne h]

theorem weightAt_le_total (weight : value -> Nat) (k : key) (table : AList fun _ : key => value) :
    weightAt weight table k ≤ total weight table := by
  have herase := sum_kerase weight k table.entries
  unfold weightAt total AList.lookup
  exact le_trans (Nat.le_add_left _ _) (le_of_eq herase)

end

theorem sum_eraseIdx (weight : value -> Nat) {elements : List value}
    {index : Nat} {found : value} (h : elements[index]? = some found) :
    (elements.map weight).sum = weight found + ((elements.eraseIdx index).map weight).sum := by
  rcases List.getElem?_eq_some_iff.mp h with ⟨hlt, hfound⟩
  have hperm := (getElem_cons_eraseIdx_perm hlt).map weight
  rw [hfound] at hperm
  rw [← hperm.sum_eq, map_cons, sum_cons]

end OpenLibra.Tables
