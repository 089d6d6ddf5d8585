import Mathlib.Data.List.Basic

/-!
# Catalogues

A catalogue is a list of entries that are compatible with each other.
-/

namespace OpenLibra.Tables

variable {entry : Type}

/-- `new` is added as a first version, or replaces an older entry.  In both
cases it is compatible with the entries that stay. -/
inductive Updated (compatible : entry -> entry -> Prop)
    (initial : entry -> Prop) (replaces : entry -> entry -> Prop)
    (new : entry) : List entry -> List entry -> Prop where
  | added {entries : List entry} (first : initial new)
      (fits : forall e, e ∈ entries -> compatible e new) :
      Updated compatible initial replaces new entries (entries ++ [new])
  | replaced {before after : List entry} {old : entry} (older : replaces new old)
      (fits : forall e, e ∈ before ++ after -> compatible e new) :
      Updated compatible initial replaces new (before ++ old :: after) (before ++ new :: after)

namespace Updated

open List

variable {compatible : entry -> entry -> Prop} {initial : entry -> Prop}
  {replaces : entry -> entry -> Prop} {new : entry} {entries entries' : List entry}

theorem mem (h : Updated compatible initial replaces new entries entries') : new ∈ entries' := by
  cases h with
  | added | replaced => simp

theorem mem_cases (h : Updated compatible initial replaces new entries entries')
    {e : entry} (he : e ∈ entries') : e = new ∨ e ∈ entries ∧ compatible e new := by
  cases h with
  | added first fits =>
    rcases mem_append.mp he with hold | hnew
    · exact .inr ⟨hold, fits e hold⟩
    · exact .inl (mem_singleton.mp hnew)
  | @replaced before after old older fits =>
    rcases mem_append.mp he with hbef | hrest
    · exact .inr ⟨mem_append_left _ hbef, fits e (mem_append_left _ hbef)⟩
    · rcases mem_cons.mp hrest with hnew | hafter
      · exact .inl hnew
      · exact .inr ⟨mem_append_right _ (mem_cons_of_mem _ hafter),
          fits e (mem_append_right _ hafter)⟩

theorem kept_or_replaced (h : Updated compatible initial replaces new entries entries')
    {e : entry} (he : e ∈ entries) : e ∈ entries' ∧ compatible e new ∨ replaces new e := by
  cases h with
  | added first fits => exact .inl ⟨mem_append_left _ he, fits e he⟩
  | @replaced before after old older fits =>
    rcases mem_append.mp he with hbef | hrest
    · exact .inl ⟨mem_append_left _ hbef, fits e (mem_append_left _ hbef)⟩
    · rcases mem_cons.mp hrest with hold | hafter
      · subst hold
        exact .inr older
      · exact .inl ⟨mem_append_right _ (mem_cons_of_mem _ hafter),
          fits e (mem_append_right _ hafter)⟩

theorem first_or_successor (h : Updated compatible initial replaces new entries entries') :
    initial new ∧ (forall e, e ∈ entries -> compatible e new) ∨
      exists old, old ∈ entries ∧ replaces new old := by
  cases h with
  | added first fits => exact .inl ⟨first, fits⟩
  | @replaced before after old older => exact .inr ⟨old, by simp, older⟩

theorem pairwise [Std.Symm compatible]
    (h : Updated compatible initial replaces new entries entries')
    (hents : entries.Pairwise compatible) : entries'.Pairwise compatible := by
  cases h with
  | added first fits =>
    rw [pairwise_append]
    refine ⟨hents, pairwise_singleton _ _, ?_⟩
    intro e he e' he'
    rw [mem_singleton.mp he']
    exact fits e he
  | @replaced before after old older fits =>
    rw [pairwise_append, pairwise_cons] at hents ⊢
    rcases hents with ⟨hbef, ⟨_, hafter⟩, hcross⟩
    refine ⟨hbef, ⟨?_, hafter⟩, ?_⟩
    · intro e he
      exact Std.Symm.symm e new (fits e (mem_append_right _ he))
    · intro e he e' he'
      rcases mem_cons.mp he' with hnew | hmem
      · rw [hnew]
        exact fits e (mem_append_left _ he)
      · exact hcross e he e' (mem_cons_of_mem _ hmem)

end Updated

end OpenLibra.Tables
