import Mathlib.Data.List.Nodup
import Mathlib.Data.List.Range

/-!
# Identifiers from counters

Counters may be closed and opened again, and identifiers are unique exactly if at most one
counter is ever opened at each place.
-/

namespace OpenLibra.Tables

structure Counters (slot place : Type) where
  next : slot -> Option Nat
  issued : List (place × Nat)
  opened : List place

namespace Counters

open List Function

variable {slot place : Type}

def empty : Counters slot place :=
  { next := fun _ => none
    issued := []
    opened := [] }

/-- A counter issues the numbers from `0` to `last` when it is opened. -/
def withOpened [DecidableEq slot] (placeOf : slot -> place)
    (c : Counters slot place) (i : slot) (last : Nat) : Counters slot place :=
  { next := update c.next i (some (last + 1))
    issued := ((range (last + 1)).reverse.map fun m => (placeOf i, m)) ++ c.issued
    opened := placeOf i :: c.opened }

def withIssued [DecidableEq slot] (placeOf : slot -> place)
    (c : Counters slot place) (i : slot) (n : Nat) : Counters slot place :=
  { c with
    next := update c.next i (some (n + 1))
    issued := (placeOf i, n) :: c.issued }

def withClosed [DecidableEq slot] (c : Counters slot place) (i : slot) : Counters slot place :=
  { c with next := update c.next i none }

inductive Step [DecidableEq slot] (placeOf : slot -> place) :
    Counters slot place -> Counters slot place -> Prop where
  | opening {c : Counters slot place} {i : slot} (absent : c.next i = none)
      (last : Nat) : Step placeOf c (c.withOpened placeOf i last)
  | issue {c : Counters slot place} {i : slot} {n : Nat}
      (present : c.next i = some n) : Step placeOf c (c.withIssued placeOf i n)
  | close (c : Counters slot place) (i : slot) : Step placeOf c (c.withClosed i)

structure Coherent (placeOf : slot -> place) (c : Counters slot place) : Prop where
  zeros : (c.issued.filter fun x => x.2 = 0).map Prod.fst = c.opened
  positive : forall i n, c.next i = some n -> 0 < n
  next_mem : forall i n, c.next i = some n -> placeOf i ∈ c.opened
  issued_mem : forall x, x ∈ c.issued -> x.1 ∈ c.opened
  shared : forall i j n m, c.next i = some n -> c.next j = some m ->
    i ≠ j -> placeOf i = placeOf j -> ¬ c.opened.Nodup
  nodup : c.opened.Nodup -> c.issued.Nodup
  below : c.opened.Nodup -> forall i n m, c.next i = some n -> (placeOf i, m) ∈ c.issued -> m < n

theorem coherent_empty (placeOf : slot -> place) :
    (empty : Counters slot place).Coherent placeOf where
  zeros := rfl
  positive := by intro i n h; cases h
  next_mem := by intro i n h; cases h
  issued_mem := by intro x h; cases h
  shared := by intro i j n m h; cases h
  nodup := fun _ => nodup_nil
  below := by intro _ i n m h; cases h

variable {placeOf : slot -> place} {c c' : Counters slot place} {i : slot}

theorem Coherent.issued_nodup_iff (hc : c.Coherent placeOf) :
    c.issued.Nodup <-> c.opened.Nodup := by
  constructor
  · intro hnodup
    rw [← hc.zeros]
    apply List.Nodup.map_on
    · rintro ⟨_, n⟩ hn ⟨_, m⟩ hm hpq
      have hn : n = 0 := by simpa using (mem_filter.mp hn).2
      have hm : m = 0 := by simpa using (mem_filter.mp hm).2
      exact Prod.ext hpq (hn.trans hm.symm)
    · exact hnodup.filter _
  · exact hc.nodup

/-!
# Steps keep it
-/

variable [DecidableEq slot]

theorem update_eq_some_cases {next} {value}
    {j : slot} {n : Nat} (h : update next i value j = some n) :
    (j = i ∧ value = some n) ∨ (j ≠ i ∧ next j = some n) := by
  by_cases hj : j = i
  · rw [hj, update_self] at h
    exact .inl ⟨hj, h⟩
  · rw [update_of_ne hj] at h
    exact .inr ⟨hj, h⟩

theorem zeros_range (p : place) (last : Nat) :
    ((((range (last + 1)).reverse.map fun m => (p, m)).filter
      fun x => x.2 = 0).map Prod.fst) = [p] := by
  induction last with
  | zero => rfl
  | succ last ih =>
    rw [range_succ, reverse_append, map_append, filter_append, map_append, ih]
    rfl

theorem nodup_range (p : place) (last : Nat) :
    ((range (last + 1)).reverse.map fun m => (p, m)).Nodup := by
  apply List.Nodup.map
  · intro _ _ h
    exact (Prod.mk.inj h).2
  · exact List.nodup_reverse.mpr List.nodup_range

theorem mem_range_iff {p q : place} {last m : Nat} :
    (q, m) ∈ ((range (last + 1)).reverse.map fun m => (p, m)) <-> q = p ∧ m < last + 1 := by
  simp only [mem_map, mem_reverse, mem_range, Prod.mk.injEq]
  constructor
  · rintro ⟨_, hlt, rfl, rfl⟩
    exact ⟨rfl, hlt⟩
  · rintro ⟨rfl, hlt⟩
    exact ⟨m, hlt, rfl, rfl⟩

theorem Coherent.opening (hc : c.Coherent placeOf) (last : Nat) :
    (c.withOpened placeOf i last).Coherent placeOf where
  zeros := by
    unfold withOpened
    rw [filter_append, map_append, zeros_range, hc.zeros]
    rfl
  positive := by
    intro j n h
    rcases update_eq_some_cases h with ⟨_, hn⟩ | ⟨_, hn⟩
    · cases hn
      exact Nat.succ_pos last
    · exact hc.positive j n hn
  next_mem := by
    intro j n h
    rcases update_eq_some_cases h with ⟨rfl, _⟩ | ⟨_, hn⟩
    · exact mem_cons_self
    · exact mem_cons_of_mem _ (hc.next_mem j n hn)
  issued_mem := by
    rintro ⟨p, m⟩ h
    rcases mem_append.mp h with hnew | hold
    · rw [(mem_range_iff.mp hnew).1]
      exact mem_cons_self
    · exact mem_cons_of_mem _ (hc.issued_mem _ hold)
  shared := by
    intro j k n m hj hk hne hplace hnodup
    rcases nodup_cons.mp hnodup with ⟨hfresh, hnodup⟩
    rcases update_eq_some_cases hj with ⟨rfl, _⟩ | ⟨_, hjold⟩
    · rcases update_eq_some_cases hk with ⟨rfl, _⟩ | ⟨_, hkold⟩
      · exact hne rfl
      · rw [hplace] at hfresh
        exact hfresh (hc.next_mem k m hkold)
    · rcases update_eq_some_cases hk with ⟨rfl, _⟩ | ⟨_, hkold⟩
      · rw [← hplace] at hfresh
        exact hfresh (hc.next_mem j n hjold)
      · exact hc.shared j k n m hjold hkold hne hplace hnodup
  nodup := by
    intro hnodup
    rcases nodup_cons.mp hnodup with ⟨hfresh, hnodup⟩
    refine nodup_append.mpr ⟨nodup_range _ last, hc.nodup hnodup, ?_⟩
    rintro ⟨_, m⟩ hnew _ hold rfl
    rw [← (mem_range_iff.mp hnew).1] at hfresh
    exact hfresh (hc.issued_mem _ hold)
  below := by
    intro hnodup j n m hj hm
    rcases nodup_cons.mp hnodup with ⟨hfresh, hnodup⟩
    rcases update_eq_some_cases hj with ⟨rfl, hn⟩ | ⟨_, hj⟩
    · cases hn
      rcases mem_append.mp hm with hnew | hold
      · exact (mem_range_iff.mp hnew).2
      · exact absurd (hc.issued_mem _ hold) hfresh
    · rcases mem_append.mp hm with hnew | hold
      · rw [← (mem_range_iff.mp hnew).1] at hfresh
        exact absurd (hc.next_mem j n hj) hfresh
      · exact hc.below hnodup j n m hj hold

theorem Coherent.issue (hc : c.Coherent placeOf) {n : Nat} (hn : c.next i = some n) :
    (c.withIssued placeOf i n).Coherent placeOf where
  zeros := by
    have hpos := hc.positive i n hn
    unfold withIssued
    rw [filter_cons_of_neg (by simpa using Nat.ne_of_gt hpos), hc.zeros]
  positive := by
    intro j m h
    rcases update_eq_some_cases h with ⟨_, hm⟩ | ⟨_, hm⟩
    · cases hm
      exact Nat.succ_pos n
    · exact hc.positive j m hm
  next_mem := by
    intro j m h
    rcases update_eq_some_cases h with ⟨rfl, _⟩ | ⟨_, hm⟩
    · exact hc.next_mem j n hn
    · exact hc.next_mem j m hm
  issued_mem := by
    intro x hx
    rcases mem_cons.mp hx with rfl | hx
    · exact hc.next_mem i n hn
    · exact hc.issued_mem x hx
  shared := by
    intro j k m m' hj hk hne hplace
    rcases update_eq_some_cases hj with ⟨rfl, _⟩ | ⟨_, hjold⟩
    · rcases update_eq_some_cases hk with ⟨rfl, _⟩ | ⟨_, hkold⟩
      · exact absurd rfl hne
      · exact hc.shared j k n m' hn hkold hne hplace
    · rcases update_eq_some_cases hk with ⟨rfl, _⟩ | ⟨_, hkold⟩
      · exact hc.shared j k m n hjold hn hne hplace
      · exact hc.shared j k m m' hjold hkold hne hplace
  nodup := by
    intro hnodup
    refine nodup_cons.mpr ⟨?_, hc.nodup hnodup⟩
    intro hmem
    exact Nat.lt_irrefl n (hc.below hnodup i n n hn hmem)
  below := by
    intro hnodup j m k hj hk
    rcases update_eq_some_cases hj with ⟨rfl, hm⟩ | ⟨hne, hj⟩
    · cases hm
      rcases mem_cons.mp hk with heq | hold
      · cases heq
        exact Nat.lt_succ_self n
      · exact Nat.lt_succ_of_lt (hc.below hnodup j n k hn hold)
    · rcases mem_cons.mp hk with heq | hold
      · -- Another counter at the place of this one.
        exact absurd hnodup (hc.shared j i m n hj hn hne (Prod.mk.inj heq).1)
      · exact hc.below hnodup j m k hj hold

theorem Coherent.close (hc : c.Coherent placeOf) (i : slot) :
    (c.withClosed i).Coherent placeOf := by
  have hnext : forall j n, (c.withClosed i).next j = some n -> c.next j = some n := by
    intro j n h
    rcases update_eq_some_cases h with ⟨_, hn⟩ | ⟨_, hn⟩
    · cases hn
    · exact hn
  exact { hc with
      positive := fun j n h => hc.positive j n (hnext j n h)
      next_mem := fun j n h => hc.next_mem j n (hnext j n h)
      shared := fun j k n m hj hk => hc.shared j k n m (hnext j n hj) (hnext k m hk)
      below := fun hnodup j n m hj => hc.below hnodup j n m (hnext j n hj) }

theorem Coherent.step (hc : c.Coherent placeOf) (h : Step placeOf c c') : c'.Coherent placeOf := by
  cases h with
  | opening absent last => exact hc.opening last
  | issue present => exact hc.issue present
  | close i => exact hc.close i

theorem Coherent.steps (hc : c.Coherent placeOf) (h : Relation.ReflTransGen (Step placeOf) c c') :
    c'.Coherent placeOf := by
  induction h with
  | refl => exact hc
  | tail _ hstep ih => exact ih.step hstep

end Counters

end OpenLibra.Tables
