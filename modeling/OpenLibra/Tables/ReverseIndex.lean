import Mathlib.Logic.Relation
import Mathlib.Tactic.Common

/-!
# Reverse indices of keys

Owners have keys, and an index leads from a key back to its owner.  The keys of some owners may
change without the index being told.
-/

namespace OpenLibra.Tables

structure KeyIndex (owner index key : Type) where
  keyOf : owner -> Option key
  ownerOf : index -> Option owner

namespace KeyIndex

variable {owner index key : Type}

def Correct (encode : index -> key) (x : KeyIndex owner index key) : Prop :=
  forall i a, x.ownerOf i = some a -> x.keyOf a = some (encode i)

def withKey [DecidableEq owner] (x : KeyIndex owner index key) (a : owner) (k : key) :
    KeyIndex owner index key :=
  { x with keyOf := Function.update x.keyOf a (some k) }

def withEntry [DecidableEq index] (x : KeyIndex owner index key) (current new : index) (a : owner) :
    KeyIndex owner index key :=
  { x with
    ownerOf := Function.update (Function.update x.ownerOf current none) new (some a) }

/-- Writes, where only `mayRotate` owners get a key behind the back of the
index, and the index changes only if `mayIndex`. -/
inductive Step [DecidableEq owner] [DecidableEq index] (encode : index -> key)
    (mayRotate : owner -> Prop) (mayIndex : Prop) :
    KeyIndex owner index key -> KeyIndex owner index key -> Prop where
  | created {x : KeyIndex owner index key} {a : owner} (absent : x.keyOf a = none) (k : key) :
      Step encode mayRotate mayIndex x (x.withKey a k)
  | rotated (x : KeyIndex owner index key) {a : owner} (right : mayRotate a)
      (k : key) : Step encode mayRotate mayIndex x (x.withKey a k)
  | indexed {x : KeyIndex owner index key} {a : owner} {current : index}
      (right : mayIndex) (present : x.keyOf a = some (encode current))
      (new : index) :
      Step encode mayRotate mayIndex x ((x.withKey a (encode new)).withEntry current new a)
  | cleared (x : KeyIndex owner index key) (right : mayIndex) :
      Step encode mayRotate mayIndex x { x with ownerOf := fun _ => none }

variable [DecidableEq owner] {encode : index -> key} {mayRotate : owner -> Prop} {mayIndex : Prop}
  {x x' : KeyIndex owner index key}

open Relation Function

theorem Correct.created (hx : x.Correct encode) {a : owner} (habs : x.keyOf a = none) (k : key) :
    (x.withKey a k).Correct encode := by
  intro i b hb
  have hkey := hx i b hb
  have hne : b ≠ a := by
    intro h
    rw [h, habs] at hkey
    cases hkey
  change Function.update x.keyOf a (some k) b = some (encode i)
  rw [update_of_ne hne]
  exact hkey

variable [DecidableEq index]

theorem Correct.indexed (hinj : Function.Injective encode) (hx : x.Correct encode) {a : owner}
    {current : index} (hpresent : x.keyOf a = some (encode current)) (new : index) :
    ((x.withKey a (encode new)).withEntry current new a).Correct encode := by
  intro i b hb
  change Function.update (Function.update x.ownerOf current none) new (some a) i = some b at hb
  change update x.keyOf a (some (encode new)) b = some (encode i)
  by_cases hi : i = new
  · subst hi
    rw [update_self] at hb
    cases hb
    exact update_self a (some (encode i)) x.keyOf
  · rw [update_of_ne hi] at hb
    by_cases hcur : i = current
    · rw [hcur, update_self] at hb
      cases hb
    · rw [update_of_ne hcur] at hb
      have hkey := hx i b hb
      have hne : b ≠ a := by
        intro h
        rw [h, hpresent] at hkey
        exact hcur (hinj (Option.some.inj hkey)).symm
      rw [update_of_ne hne]
      exact hkey

theorem Correct.steps (hinj : Function.Injective encode) (hnone : forall a, ¬ mayRotate a)
    (hx : x.Correct encode) (h : ReflTransGen (Step encode mayRotate mayIndex) x x') :
    x'.Correct encode := by
  induction h with
  | refl => exact hx
  | tail _ hstep ih =>
    cases hstep with
    | created absent k => exact ih.created absent k
    | rotated right => exact absurd right (hnone _)
    | indexed right present new => exact ih.indexed hinj present new
    | cleared =>
      intro i a ha
      cases ha

theorem ownerOf_steps (hnone : ¬ mayIndex)
    (h : ReflTransGen (Step encode mayRotate mayIndex) x x') : x'.ownerOf = x.ownerOf := by
  induction h with
  | refl => rfl
  | tail _ hstep ih =>
    cases hstep with
    | created | rotated => exact ih
    | indexed right | cleared right => exact absurd right hnone

theorem keyOf_steps (hnone : ¬ mayIndex) {a : owner} (ha : ¬ mayRotate a) {k : key}
    (hk : x.keyOf a = some k) (h : ReflTransGen (Step encode mayRotate mayIndex) x x') :
    x'.keyOf a = some k := by
  induction h with
  | refl => exact hk
  | tail _ hstep ih =>
    cases hstep with
    | created absent =>
      refine (Function.update_of_ne ?_ _ _).trans ih
      intro hsame
      rw [← hsame, ih] at absent
      cases absent
    | rotated right =>
      refine (Function.update_of_ne ?_ _ _).trans ih
      intro hsame
      rw [← hsame] at right
      exact ha right
    | indexed right | cleared right => exact absurd right hnone

theorem Correct.of_rotated (hnone : ¬ mayIndex) (hx : x.Correct encode)
    (hkept : forall i a, mayRotate a -> x.ownerOf i = some a -> x'.keyOf a = some (encode i))
    (h : ReflTransGen (Step encode mayRotate mayIndex) x x') : x'.Correct encode := by
  intro i a ha
  rw [ownerOf_steps hnone h] at ha
  by_cases hmay : mayRotate a
  · exact hkept i a hmay ha
  · exact keyOf_steps hnone hmay (hx i a ha) h

end KeyIndex

end OpenLibra.Tables
