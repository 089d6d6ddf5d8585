import Mathlib.Data.List.Perm.Basic
import OpenLibra.Move.Semantics

/-!
# Vectors of Move

A vector is a list, and its indices are natural numbers: no vector is as long as
the integers of the language allow.  An index out of bounds aborts.
-/

namespace OpenLibra.Move
namespace Vector

open List

variable {element : Type}

def operationError : Abort := Abort.vmError (some "VECTOR_OPERATION_ERROR")

def eIndexOutOfBounds : Nat := 0x20000

def borrow (elements : List element) (i : Nat) : MoveResult element :=
  match elements[i]? with
  | some found => .ok found
  | none => .err operationError

variable {elements : List element} {i : Nat} {found : element}

theorem borrow_eq_ok_iff : borrow elements i = .ok found <-> elements[i]? = some found := by
  unfold borrow
  cases elements[i]? <;> simp

theorem exists_borrow (h : i < elements.length) : exists found, borrow elements i = .ok found ∧
    elements[i]? = some found := by
  have hfound := List.getElem?_eq_getElem h
  exact ⟨elements[i], borrow_eq_ok_iff.mpr hfound, hfound⟩

/-!
# Removal
-/

def remove (elements : List element) (i : Nat) : MoveResult (element × List element) :=
  match elements[i]? with
  | some found => .ok (found, elements.eraseIdx i)
  | none => .err (.code eIndexOutOfBounds)

def swapRemove (elements : List element) (i : Nat) : MoveResult (element × List element) :=
  match elements.getLast? with
  | none => .err (.code eIndexOutOfBounds)
  | some last =>
    match elements[i]? with
    | some found => .ok (found, (elements.set i last).dropLast)
    | none => .err operationError

theorem remove_eq_ok (h : elements[i]? = some found) :
    remove elements i = .ok (found, elements.eraseIdx i) := by
  simp [remove, h]

theorem perm_cons_eraseIdx (h : elements[i]? = some found) :
    elements.Perm (found :: elements.eraseIdx i) := by
  rcases List.getElem?_eq_some_iff.mp h with ⟨hlt, rfl⟩
  exact (getElem_cons_eraseIdx_perm hlt).symm

theorem exists_swapRemove (h : elements[i]? = some found) :
    exists rest, swapRemove elements i = .ok (found, rest) ∧ elements.Perm (found :: rest) := by
  rcases eq_nil_or_concat elements with hempty | ⟨front, last, heq⟩
  · rw [hempty] at h
    cases h
  rw [concat_eq_append] at heq
  subst heq
  refine ⟨((front ++ [last]).set i last).dropLast, ?_, ?_⟩
  · simp [swapRemove, h]
  have hbound := (List.getElem?_eq_some_iff.mp h).1
  rw [length_append, length_singleton] at hbound
  rcases Nat.eq_or_lt_of_le (Nat.le_of_lt_succ hbound) with hlast | hfront
  · -- The last element itself is removed.
    subst hlast
    rw [List.getElem?_concat_length] at h
    cases h
    simp
  · rw [set_append_left _ _ hfront, dropLast_concat]
    have herase := perm_cons_eraseIdx h
    rw [eraseIdx_append_of_lt_length hfront] at herase
    refine herase.trans (List.Perm.cons _ ?_)
    exact (perm_append_singleton _ _).trans (set_perm_cons_eraseIdx hfront last).symm

def indexSub (a b : Nat) : MoveResult Nat := if b ≤ a then .ok (a - b) else .err .arithmeticError

theorem indexSub_eq_ok {a b : Nat} (h : b ≤ a) : indexSub a b = .ok (a - b) :=
  if_pos h

variable [DecidableEq element]

def contains (elements : List element) (e : element) : Bool := elements.contains e

def indexOf (elements : List element) (e : element) : Bool × Nat :=
  match elements.findIdx? fun found => found = e with
  | some i => (true, i)
  | none => (false, 0)

variable {elements : List element}

theorem indexOf_of_mem {e : element} (h : e ∈ elements) :
    exists i, indexOf elements e = (true, i) ∧ elements[i]? = some e := by
  unfold indexOf
  cases hfind : elements.findIdx? fun found => found = e with
  | none =>
    have hne := List.findIdx?_eq_none_iff.mp hfind e h
    simp at hne
  | some i =>
    rcases List.findIdx?_eq_some_iff_getElem.mp hfind with ⟨hlt, hfound, _⟩
    refine ⟨i, rfl, ?_⟩
    rw [List.getElem?_eq_getElem hlt, of_decide_eq_true hfound]

end Vector
end OpenLibra.Move
