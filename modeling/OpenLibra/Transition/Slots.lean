import Mathlib.Data.List.Nodup

/-!
# Items spread over slots

Items wait in lists, each item in at most one list and at most once.
-/

namespace OpenLibra.Transition

variable {slot item : Type}

structure Spread (lists : slot -> List item) : Prop where
  nodup : forall a, (lists a).Nodup
  unique : forall a b x, x ∈ lists a -> x ∈ lists b -> a = b

def Waits (lists : slot -> List item) (x : item) : Prop := exists a, x ∈ lists a

namespace Spread

open Function List

variable [DecidableEq slot] {lists : slot -> List item} {a : slot} {x : item}

theorem push (h : Spread lists) (hfresh : ¬ Waits lists x) :
    Spread (update lists a (lists a ++ [x])) where
  nodup := by
    intro b
    by_cases hb : b = a
    · subst hb
      rw [update_self]
      refine nodup_append.mpr ⟨h.nodup b, nodup_singleton x, ?_⟩
      intro y hy z hz hyz
      rw [mem_singleton] at hz
      exact hfresh ⟨b, hz ▸ hyz ▸ hy⟩
    · rw [update_of_ne hb]
      exact h.nodup b
  unique := by
    have hmem {b : slot} {y : item} (hy : y ∈ update lists a (lists a ++ [x]) b) :
      y ∈ lists b ∨ (b = a ∧ y = x) := by
      by_cases hb : b = a
      · subst hb
        simpa using hy
      · rw [update_of_ne hb] at hy
        exact .inl hy
    intro b c y hb hc
    rcases hmem hb with hb | ⟨hba, hyx⟩
    · rcases hmem hc with hc | ⟨_, hyx⟩
      · exact h.unique b c y hb hc
      · exact (hfresh ⟨b, hyx ▸ hb⟩).elim
    · rcases hmem hc with hc | ⟨hca, _⟩
      · exact (hfresh ⟨c, hyx ▸ hc⟩).elim
      · rw [hba, hca]

theorem waits_push (a : slot) (x y : item) : Waits (update lists a (lists a ++ [x])) y <->
    Waits lists y ∨ y = x := by
  constructor
  · rintro ⟨b, hb⟩
    by_cases hba : b = a
    · subst hba
      rw [update_self, mem_append, mem_singleton] at hb
      exact hb.imp (fun hy => ⟨b, hy⟩) id
    · rw [update_of_ne hba] at hb
      exact .inl ⟨b, hb⟩
  · rintro (⟨b, hb⟩ | rfl)
    · by_cases hba : b = a
      · subst hba
        exact ⟨b, by simp [hb]⟩
      · exact ⟨b, by rwa [update_of_ne hba]⟩
    · exact ⟨a, by simp⟩

variable {b : slot}

theorem mem_move (hne : a ≠ b) (hempty : lists b = []) (c : slot) (x : item) :
    x ∈ update (update lists a []) b (lists a) c <->
      (c = b ∧ x ∈ lists a) ∨ (c ≠ a ∧ x ∈ lists c) := by
  by_cases hcb : c = b
  · subst hcb
    simp [hempty]
  · by_cases hca : c = a
    · subst hca
      simp [hcb]
    · simp [hcb, hca]

theorem move (h : Spread lists) (hne : a ≠ b) (hempty : lists b = []) :
    Spread (update (update lists a []) b (lists a)) where
  nodup := by
    intro c
    by_cases hcb : c = b
    · subst hcb
      rw [update_self]
      exact h.nodup a
    · rw [update_of_ne hcb]
      by_cases hca : c = a
      · subst hca
        simp
      · rw [update_of_ne hca]
        exact h.nodup c
  unique := by
    intro c d x hc hd
    rw [mem_move hne hempty] at hc hd
    rcases hc with ⟨hcb, hxa⟩ | ⟨hca, hxc⟩
    · rcases hd with ⟨hdb, _⟩ | ⟨hda, hxd⟩
      · rw [hcb, hdb]
      · exact (hda (h.unique d a x hxd hxa)).elim
    · rcases hd with ⟨_, hxa⟩ | ⟨_, hxd⟩
      · exact (hca (h.unique c a x hxc hxa)).elim
      · exact h.unique c d x hxc hxd

theorem waits_move (hne : a ≠ b) (hempty : lists b = []) (x : item) :
    Waits (update (update lists a []) b (lists a)) x <-> Waits lists x := by
  constructor
  · rintro ⟨c, hc⟩
    rcases (mem_move hne hempty c x).mp hc with ⟨_, hx⟩ | ⟨_, hx⟩
    · exact ⟨a, hx⟩
    · exact ⟨c, hx⟩
  · rintro ⟨c, hc⟩
    by_cases hca : c = a
    · subst hca
      exact ⟨b, (mem_move hne hempty b x).mpr (.inl ⟨rfl, hc⟩)⟩
    · exact ⟨c, (mem_move hne hempty c x).mpr (.inr ⟨hca, hc⟩)⟩

variable {rest : List item}

theorem pop (h : Spread lists) (ha : lists a = x :: rest) : Spread (update lists a rest) where
  nodup := by
    intro b
    by_cases hb : b = a
    · subst hb
      rw [update_self]
      have hnodup := h.nodup b
      rw [ha] at hnodup
      exact (nodup_cons.mp hnodup).right
    · rw [update_of_ne hb]
      exact h.nodup b
  unique := by
    have hmem {b : slot} {y : item}
      (hy : y ∈ update lists a rest b) : y ∈ lists b := by
      by_cases hb : b = a
      · subst hb
        rw [update_self] at hy
        rw [ha]
        exact mem_cons_of_mem x hy
      · rwa [update_of_ne hb] at hy
    intro b c y hb hc
    exact h.unique b c y (hmem hb) (hmem hc)

theorem waits_pop (h : Spread lists) (ha : lists a = x :: rest) (y : item) :
    Waits (update lists a rest) y <-> Waits lists y ∧ y ≠ x := by
  have hx : x ∈ lists a := by
    rw [ha]
    exact mem_cons_self
  have hnotin : x ∉ rest := by
    have hnodup := h.nodup a
    rw [ha] at hnodup
    exact (nodup_cons.mp hnodup).left
  constructor
  · rintro ⟨b, hb⟩
    by_cases hba : b = a
    · subst hba
      rw [update_self] at hb
      exact ⟨⟨b, by rw [ha]; exact mem_cons_of_mem x hb⟩, fun hyx => hnotin (hyx ▸ hb)⟩
    · rw [update_of_ne hba] at hb
      exact ⟨⟨b, hb⟩, fun hyx => hba (h.unique b a x (hyx ▸ hb) hx)⟩
  · rintro ⟨⟨b, hb⟩, hyx⟩
    by_cases hba : b = a
    · subst hba
      rw [ha] at hb
      refine ⟨b, ?_⟩
      rw [update_self]
      exact (mem_cons.mp hb).resolve_left hyx
    · exact ⟨b, by rwa [update_of_ne hba]⟩

end Spread

end OpenLibra.Transition
