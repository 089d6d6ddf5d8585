import Mathlib.Data.List.AList
import OpenLibra.Rust.Outcome

/-!
# Loops over the entries of a table

A loop of steps that each touch the cell of their own key does to every key what the step for
its entry does, in any order.
-/

namespace OpenLibra.Tables

open Rust List

/-!
# Local steps
-/

section

variable {state key cell entry error : Type}

structure LocalStep (view : state -> key -> cell) (keyOf : entry -> key)
    (ready : entry -> cell -> Prop) (change : entry -> cell -> cell -> Prop)
    (step : state -> entry -> Outcome error state) : Prop where
  returns : forall {s e}, ready e (view s (keyOf e)) -> exists s', step s e = .ok s'
  changes : forall {s s' e}, step s e = .ok s' -> change e (view s (keyOf e)) (view s' (keyOf e))
  frame : forall {s s' e}, step s e = .ok s' -> forall k, k ≠ keyOf e -> view s' k = view s k

variable {view : state -> key -> cell} {keyOf : entry -> key} {ready : entry -> cell -> Prop}
  {change : entry -> cell -> cell -> Prop} {step : state -> entry -> Outcome error state}
  {entries : List entry} {s s' : state}

theorem LocalStep.fold_view (hlocal : LocalStep view keyOf ready change step)
    (hnodup : (entries.map keyOf).Nodup) (h : tryFold step s entries = .ok s') :
    (forall e, e ∈ entries -> change e (view s (keyOf e)) (view s' (keyOf e))) ∧
      forall k, k ∉ entries.map keyOf -> view s' k = view s k := by
  induction entries generalizing s with
  | nil =>
    cases h
    exact ⟨fun e he => absurd he not_mem_nil, fun _ _ => rfl⟩
  | cons e entries ih =>
    rw [map_cons, nodup_cons] at hnodup
    rcases of_bind h with ⟨_, hstep, hrest⟩
    rcases ih hnodup.2 hrest with ⟨hchgs, hframe⟩
    refine ⟨?_, ?_⟩
    · intro e' he'
      rcases mem_cons.mp he' with rfl | hmem
      · rw [hframe _ hnodup.1]
        exact hlocal.changes hstep
      · have hne : keyOf e' ≠ keyOf e := fun heq =>
          hnodup.1 (heq ▸ mem_map_of_mem hmem)
        rw [← hlocal.frame hstep _ hne]
        exact hchgs e' hmem
    · intro k hk
      rw [map_cons, mem_cons, not_or] at hk
      rw [hframe k hk.2, hlocal.frame hstep k hk.1]

theorem LocalStep.fold_returns (hlocal : LocalStep view keyOf ready change step)
    (hnodup : (entries.map keyOf).Nodup) (h : forall e, e ∈ entries -> ready e (view s (keyOf e))) :
    exists s', tryFold step s entries = .ok s' := by
  induction entries generalizing s with
  | nil => exact ⟨s, rfl⟩
  | cons e entries ih =>
    rw [map_cons, nodup_cons] at hnodup
    rcases hlocal.returns (h e mem_cons_self) with ⟨middle, hstep⟩
    have hrest : forall e', e' ∈ entries -> ready e' (view middle (keyOf e')) := by
      intro e' hmem
      have hne : keyOf e' ≠ keyOf e := fun heq =>
        hnodup.1 (heq ▸ mem_map_of_mem hmem)
      rw [hlocal.frame hstep _ hne]
      exact h e' (mem_cons_of_mem e hmem)
    rcases ih hnodup.2 hrest with ⟨s', hs'⟩
    exact ⟨s', bind_eq_ok_iff.mpr ⟨middle, hstep, hs'⟩⟩

variable {name op : Type} [dn : DecidableEq name] {table : AList fun _ : name => op}
  {f : name -> key} {ready : (Sigma fun _ : name => op) -> cell -> Prop}
  {change : (Sigma fun _ : name => op) -> cell -> cell -> Prop}
  {step : state -> (Sigma fun _ : name => op) -> Outcome error state}

omit dn in
theorem nodup_map_keys (hf : Function.Injective f) : (table.entries.map fun e => f e.1).Nodup := by
  have hnodup := (nodup_map_iff hf).mpr table.nodupKeys
  rwa [List.keys, map_map] at hnodup

theorem LocalStep.fold_table (hlocal : LocalStep view (fun e => f e.1) ready change step)
    (hf : Function.Injective f) (h : tryFold step s table.entries = .ok s') :
    (forall x v, table.lookup x = some v -> change ⟨x, v⟩ (view s (f x)) (view s' (f x))) ∧
      forall k, (forall x v, table.lookup x = some v -> f x ≠ k) -> view s' k = view s k := by
  rcases hlocal.fold_view (nodup_map_keys hf) h with ⟨hchgs, hframe⟩
  refine ⟨fun x v hx => hchgs ⟨x, v⟩ (AList.mem_lookup_iff.mp hx), ?_⟩
  intro k hk
  refine hframe k fun hmem => ?_
  rcases mem_map.mp hmem with ⟨⟨x, v⟩, he, hkey⟩
  exact hk x v (AList.mem_lookup_iff.mpr he) hkey

theorem LocalStep.fold_table_returns (hlocal : LocalStep view (fun e => f e.1) ready change step)
    (hf : Function.Injective f)
    (h : forall x v, table.lookup x = some v -> ready ⟨x, v⟩ (view s (f x))) :
    exists s', tryFold step s table.entries = .ok s' :=
  hlocal.fold_returns (nodup_map_keys hf) fun e he =>
    h e.1 e.2 (AList.mem_lookup_iff.mpr he)

end

/-!
# Cells that are read and written back
-/

structure Cells (state key cell : Type) [DecidableEq key] where
  view : state -> key -> cell
  put : state -> key -> cell -> state
  view_put : forall s k c k', view (put s k c) k' = if k' = k then c else view s k'

namespace Cells

section

variable {state key cell op error : Type} [DecidableEq key] (cells : Cells state key cell)

def update (change : cell -> Outcome error cell) (s : state) (k : key) :
    Outcome error state := do
  let c <- change (cells.view s k)
  pure (cells.put s k c)

/-- The loop `for (key, op) in table`. -/
def updateFrom (change : op -> cell -> Outcome error cell) (s : state)
    (table : AList fun _ : key => op) : Outcome error state :=
  tryFold (fun s e => cells.update (change e.2) s e.1) s table.entries

def after (change : op -> cell -> Outcome error cell) : Option op -> cell -> Outcome error cell
  | none, c => .ok c
  | some w, c => change w c

variable {cells} {s s' : state} {change : cell -> Outcome error cell} {k : key}

theorem update_view (h : cells.update change s k = .ok s') :
    change (cells.view s k) = .ok (cells.view s' k) ∧
      forall k', k' ≠ k -> cells.view s' k' = cells.view s k' := by
  rcases of_bind h with ⟨_, hc, hput⟩
  cases hput
  refine ⟨?_, fun k' hk' => ?_⟩
  · rw [cells.view_put, if_pos rfl, hc]
  · rw [cells.view_put, if_neg hk']

theorem update_returns {c : cell} (h : change (cells.view s k) = .ok c) :
    exists s', cells.update change s k = .ok s' :=
  ⟨_, bind_eq_ok_iff.mpr ⟨c, h, rfl⟩⟩

variable {change : op -> cell -> Outcome error cell} {table : AList fun _ : key => op}

theorem localStep_update : LocalStep cells.view (fun e => id e.1)
    (fun e c => exists c', change e.2 c = .ok c') (fun e c c' => change e.2 c = .ok c')
    (fun s (e : Sigma fun _ : key => op) => cells.update (change e.2) s e.1) where
  returns := fun ⟨_, h⟩ => update_returns h
  changes h := (update_view h).1
  frame h := (update_view h).2

theorem updateFrom_view (h : cells.updateFrom change s table = .ok s') (k : key) :
    after change (table.lookup k) (cells.view s k) = .ok (cells.view s' k) := by
  rcases localStep_update.fold_table Function.injective_id h with ⟨hchanged, hframe⟩
  cases hlook : table.lookup k with
  | none =>
    refine congrArg Outcome.ok (hframe k ?_).symm
    rintro _ _ hx rfl
    cases hlook.symm.trans hx
  | some w => exact hchanged k w hlook

theorem updateFrom_returns
    (h : forall k, exists c, after change (table.lookup k) (cells.view s k) = .ok c) :
    exists s', cells.updateFrom change s table = .ok s' := by
  refine localStep_update.fold_table_returns Function.injective_id ?_
  intro k _ hk
  have hafter := h k
  rw [hk] at hafter
  exact hafter

end

/-!
# Tables and pairs of tables
-/

variable {key value state left right : Type} [DecidableEq key]

def table : Cells (AList fun _ : key => value) key (Option value) where
  view self k := self.lookup k
  put self k
    | some v => self.insert k v
    | none => self.erase k
  view_put self k c k' := by
    by_cases hk : k' = k
    · subst hk
      cases c <;> simp
    · cases c <;> simp [hk]

def prod {state' : Type} (first : Cells state key left) (second : Cells state' key right) :
    Cells (state × state') key (left × right) where
  view self k := (first.view self.1 k, second.view self.2 k)
  put self k c := (first.put self.1 k c.1, second.put self.2 k c.2)
  view_put self k c k' := by
    rw [first.view_put, second.view_put]
    split <;> rfl

end Cells

/-!
# Loops of insertions
-/

variable {key value : Type} [DecidableEq key] (table : AList fun _ : key => value)
  (entries : List (key × value))

def insertAll : AList fun _ : key => value :=
  entries.foldl (fun table entry => table.insert entry.1 entry.2) table

end OpenLibra.Tables
