import Mathlib.Data.List.Chain

/-!
# Interpolation along polylines

A line through nodes with natural coordinates is read off by linear interpolation, rounded down.
-/

namespace OpenLibra.Numeric

structure Node where
  x : Nat
  y : Nat
deriving DecidableEq, Repr

/-!
# One segment
-/

def interpolate (left right : Node) (x : Nat) : Nat :=
  left.y + (x - left.x) * (right.y - left.y) / (right.x - left.x)

section

variable {left right : Node}

theorem interpolate_left : interpolate left right left.x = left.y := by simp [interpolate]

theorem interpolate_right (hx : left.x < right.x) (hy : left.y ≤ right.y) :
    interpolate left right right.x = right.y := by
  rw [interpolate, Nat.mul_div_cancel_left _ (Nat.sub_pos_of_lt hx)]
  exact Nat.add_sub_cancel' hy

theorem le_interpolate (x : Nat) : left.y ≤ interpolate left right x := Nat.le_add_right _ _

theorem interpolate_mono {x x' : Nat} (h : x ≤ x') :
    interpolate left right x ≤ interpolate left right x' := by
  apply Nat.add_le_add_left
  apply Nat.div_le_div_right
  exact Nat.mul_le_mul_right _ (Nat.sub_le_sub_right h _)

theorem interpolate_le (hx : left.x < right.x) (hy : left.y ≤ right.y) {x : Nat} (h : x ≤ right.x) :
    interpolate left right x ≤ right.y := by
  rw [← interpolate_right hx hy]
  exact interpolate_mono h

end

/-!
# Lines
-/

def Rises (left right : Node) : Prop := left.x < right.x ∧ left.y ≤ right.y

instance : Trans Rises Rises Rises where
  trans h h' := ⟨lt_trans h.left h'.left, le_trans h.right h'.right⟩

structure Polyline where
  nodes : List Node
  rises : nodes.IsChain Rises

namespace Polyline

/-- A position is on the segment with this number: its range is half-open, but
that of the last segment is closed. -/
structure Covers (line : Polyline) (x index : Nat) (left right : Node) : Prop where
  left_node : line.nodes[index]? = some left
  right_node : line.nodes[index + 1]? = some right
  left_le : left.x ≤ x
  right_ge : x < right.x ∨ (index + 2 = line.nodes.length ∧ x = right.x)

variable {line : Polyline} {i j x x' n : Nat} {left right left' right' last : Node}

theorem rises_of_lt (hleft : line.nodes[i]? = some left)
    (hright : line.nodes[j]? = some right) (hij : i < j) : Rises left right := by
  rcases List.getElem?_eq_some_iff.mp hleft with ⟨hi, rfl⟩
  rcases List.getElem?_eq_some_iff.mp hright with ⟨hj, rfl⟩
  exact List.pairwise_iff_getElem.mp line.rises.pairwise i j hi hj hij

theorem Covers.rises (h : line.Covers x i left right) : Rises left right :=
  rises_of_lt h.left_node h.right_node (Nat.lt_succ_self i)

theorem Covers.le_right (h : line.Covers x i left right) : x ≤ right.x := by
  rcases h.right_ge with hlt | ⟨_, heq⟩
  · exact le_of_lt hlt
  · exact le_of_eq heq

theorem Covers.right_le_left (h : line.Covers x i left right)
    (h' : line.Covers x' j left' right') (hij : i < j) : right.x ≤ left'.x ∧ right.y ≤ left'.y := by
  rcases eq_or_lt_of_le (Nat.succ_le_of_lt hij) with heq | hlt
  · subst heq
    have hsame := h.right_node.symm.trans h'.left_node
    cases hsame
    exact ⟨le_refl _, le_refl _⟩
  · have hrises := rises_of_lt h.right_node h'.left_node hlt
    exact ⟨le_of_lt hrises.left, hrises.right⟩

theorem Covers.index_le (h : line.Covers x i left right)
    (h' : line.Covers x' j left' right') (hx : x ≤ x') : i ≤ j := by
  apply Nat.le_of_not_lt
  intro hji
  have horder := (h'.right_le_left h hji).left
  have hleft := h.left_le
  rcases h'.right_ge with hlt | ⟨hlast, _⟩
  · omega
  · -- The last segment has no segment behind it.
    have hbound := (List.getElem?_eq_some_iff.mp h.right_node).1
    omega

theorem Covers.unique (h : line.Covers x i left right) (h' : line.Covers x j left' right') :
    j = i ∧ left' = left ∧ right' = right := by
  have hidx : j = i := le_antisymm (h'.index_le h (le_refl x))
    (h.index_le h' (le_refl x))
  subst hidx
  exact ⟨rfl, Option.some.inj (h'.left_node.symm.trans h.left_node),
    Option.some.inj (h'.right_node.symm.trans h.right_node)⟩

theorem Covers.interpolate_mono (h : line.Covers x i left right)
    (h' : line.Covers x' j left' right') (hx : x ≤ x') :
    interpolate left right x ≤ interpolate left' right' x' := by
  rcases eq_or_lt_of_le (h.index_le h' hx) with heq | hlt
  · subst heq
    cases h.left_node.symm.trans h'.left_node
    cases h.right_node.symm.trans h'.right_node
    exact Numeric.interpolate_mono hx
  · calc interpolate left right x ≤ right.y := interpolate_le h.rises.left h.rises.right h.le_right
      _ ≤ left'.y := (h.right_le_left h' hlt).right
      _ ≤ interpolate left' right' x' := le_interpolate x'

theorem Covers.interpolate_first {first : Node} (h : line.Covers x i left right)
    (hfirst : line.nodes[0]? = some first) (hx : x = first.x) :
    interpolate left right x = first.y := by
  rcases Nat.eq_zero_or_pos i with hzero | hpos
  · subst hzero
    cases h.left_node.symm.trans hfirst
    rw [hx, interpolate_left]
  · have hrises := rises_of_lt hfirst h.left_node hpos
    have hleft := h.left_le
    have hless := hrises.left
    omega

theorem Covers.right_last (h : line.Covers x i left right)
    (hlast : line.nodes[n]? = some last) (hn : n + 1 = line.nodes.length) :
    right = last ∨ Rises right last := by
  have hbound := (List.getElem?_eq_some_iff.mp h.right_node).1
  have hright := h.right_node
  rcases eq_or_lt_of_le (show i + 1 ≤ n by omega) with heq | hlt
  · rw [heq] at hright
    exact .inl (Option.some.inj (hright.symm.trans hlast))
  · exact .inr (rises_of_lt h.right_node hlast hlt)

theorem Covers.interpolate_le_last (h : line.Covers x i left right)
    (hlast : line.nodes[n]? = some last) (hn : n + 1 = line.nodes.length) :
    interpolate left right x ≤ last.y := by
  have hle := interpolate_le h.rises.left h.rises.right h.le_right
  rcases h.right_last hlast hn with heq | hrises
  · rw [← heq]
    exact hle
  · exact le_trans hle hrises.right

theorem Covers.interpolate_last (h : line.Covers x i left right)
    (hlast : line.nodes[n]? = some last) (hn : n + 1 = line.nodes.length) (hx : x = last.x) :
    interpolate left right x = last.y := by
  rcases h.right_last hlast hn with heq | hrises
  · rw [hx, ← heq, interpolate_right h.rises.left h.rises.right]
  · have hle := h.le_right
    have hless := hrises.left
    omega

end Polyline

end OpenLibra.Numeric
