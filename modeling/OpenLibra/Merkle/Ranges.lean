import OpenLibra.Merkle.Levels

/-!
# Climbing from a run of nodes

A verifier holds neighbouring nodes of one level and climbs to the root.
-/

namespace OpenLibra.Merkle

open List

section

variable {hash : Type} (node : hash -> hash -> hash) (filler : hash)

/-- One round up from neighbouring nodes of which the first is number `i`. -/
structure Lifts (i : Nat) (run left right above : List hash) : Prop where
  length_left : left.length = i % 2
  length_right : right.length = (i + run.length) % 2
  above_eq : above = parents node filler (left ++ run ++ right)

inductive Climbs : Nat -> Nat -> List hash -> List hash -> List hash -> hash -> Prop
  | done (i : Nat) (root : hash) : Climbs 0 i [root] [] [] root
  | round {n i : Nat} {run left right above lefts rights : List hash}
      {root : hash} (hlift : Lifts node filler i run left right above)
      (hrest : Climbs n (i / 2) above lefts rights root) :
      Climbs (n + 1) i run (left ++ lefts) (right ++ rights) root

/-- The nodes of a run stand in a level from number `j` on. -/
def RunAt (nodes : List hash) (j : Nat) (run : List hash) : Prop :=
  forall t x, run[t]? = some x -> nodes[j + t]? = some x

end

variable {hash : Type} {node : hash -> hash -> hash} {filler : hash} {leaf : hash -> Prop}
  {nodes run left right above xs : List hash} {j n i : Nat} {root : hash}

theorem RunAt.length_le (h : RunAt nodes j run) (hne : run ≠ []) :
    j + run.length ≤ nodes.length := by
  have hpos := length_pos_iff.mpr hne
  have hlast := h (run.length - 1) (run.get ⟨run.length - 1, by omega⟩)
    (getElem?_eq_getElem (by omega))
  have hlt := (List.getElem?_eq_some_iff.mp hlast).choose
  omega

theorem RunAt.take_drop (h : RunAt nodes j run) : (nodes.drop j).take run.length = run := by
  apply ext_getElem?
  intro t
  rw [getElem?_take, getElem?_drop]
  by_cases ht : t < run.length
  · rw [if_pos ht, getElem?_eq_getElem ht]
    exact h t _ (getElem?_eq_getElem ht)
  · rw [if_neg ht, getElem?_eq_none (by omega)]

theorem RunAt.take_append (h : RunAt nodes j run) (hlow : j ≤ n) (hhigh : n - j ≤ run.length) :
    nodes.take j ++ run.take (n - j) = nodes.take n := by
  rw [← h.take_drop, take_take, min_eq_left hhigh, ← take_add, Nat.add_sub_of_le hlow]

theorem Lifts.even (h : Lifts node filler i run left right above) :
    (left ++ run ++ right).length % 2 = 0 := by
  rw [length_append, length_append, h.length_left, h.length_right]
  omega

theorem Lifts.ne_nil (h : Lifts node filler i run left right above) (hne : run ≠ []) :
    above ≠ [] := by
  have hpos := length_pos_iff.mpr hne
  apply length_pos_iff.mp
  rw [h.above_eq, length_parents, length_append, length_append]
  omega

theorem children_of_parents (hsep : Separated node filler leaf)
    {children} (heven : children.length % 2 = 0)
    (h : RunAt (parents node filler nodes) j (parents node filler children)) {t : Nat} {x : hash}
    (hx : children[t]? = some x) (hfiller : t % 2 = 0 ∨ x ≠ filler) :
    nodes[2 * j + t]? = some x := by
  have ht := (List.getElem?_eq_some_iff.mp hx).choose
  have hpair : exists l r, children[2 * (t / 2)]? = some l ∧ children[2 * (t / 2) + 1]? = some r :=
    ⟨_, _, getElem?_eq_getElem (by omega), getElem?_eq_getElem (by omega)⟩
  rcases hpair with ⟨l, r, hleft, hright⟩
  have hpar := h (t / 2) _ (by
    rw [getElem?_parents, hleft, hright]
    rfl)
  rw [getElem?_parents, Option.map_eq_some_iff] at hpar
  rcases hpar with ⟨a, ha, hnode⟩
  rcases hsep.injective _ _ _ _ hnode with ⟨haleft, haright⟩
  rcases Nat.mod_two_eq_zero_or_one t with hmod | hmod
  · rw [show 2 * (t / 2) = t by omega, hx] at hleft
    rw [show 2 * j + t = 2 * (j + t / 2) by omega, ha, haleft]
    exact hleft.symm
  · rw [show 2 * (t / 2) + 1 = t by omega, hx] at hright
    rw [Option.getD_some, ← Option.some.inj hright,
      show 2 * (j + t / 2) + 1 = 2 * j + t by omega] at haright
    cases hnodes : nodes[2 * j + t]? with
    | none =>
      rw [hnodes, Option.getD_none] at haright
      exact absurd haright.symm (hfiller.resolve_left (by omega))
    | some =>
      rw [hnodes, Option.getD_some] at haright
      rw [haright]

theorem Lifts.lower (hsep : Separated node filler leaf)
    (h : Lifts node filler i run left right above) (hrun : forall x, x ∈ run -> x ≠ filler)
    (habove : RunAt (parents node filler nodes) j above) :
    RunAt nodes (2 * j + i % 2) run ∧ RunAt nodes (2 * j) left := by
  have hparents := habove
  rw [h.above_eq] at hparents
  constructor
  · intro t x hx
    rw [add_assoc, ← h.length_left]
    apply children_of_parents hsep h.even hparents
    · rw [append_assoc, getElem?_append_right (by omega),
        Nat.add_sub_cancel_left, getElem?_append_left]
      · exact hx
      · exact (List.getElem?_eq_some_iff.mp hx).choose
    · exact .inr (hrun x (mem_of_getElem? hx))
  · intro t x hx
    have ht := (List.getElem?_eq_some_iff.mp hx).choose
    have hleft := h.length_left
    apply children_of_parents hsep h.even hparents
    · rw [append_assoc, getElem?_append_left ht]
      exact hx
    · left
      omega

theorem Climbs.sound (hsep : Separated node filler leaf) (hxs : forall x, x ∈ xs -> leaf x)
    (h : Climbs node filler n i run left right root) (hne : run ≠ [])
    (hrun : forall x, x ∈ run -> x ≠ filler) {depth : Nat}
    (hroot : (level node filler depth xs)[j]? = some root) :
    exists k, depth = k + n ∧ RunAt (level node filler k xs) (j * 2 ^ n + i % 2 ^ n) run := by
  induction h with
  | done =>
    refine ⟨depth, rfl, ?_⟩
    intro t x hx
    cases t with
    | zero =>
      cases hx
      simpa [Nat.mod_one] using hroot
    | succ => simp at hx
  | @round n i run left right above lefts rights root hlift _ ih =>
    have habove : forall x, x ∈ above -> exists a b, x = node a b := by
      intro x hx
      rw [hlift.above_eq] at hx
      rcases mem_parents hx with ⟨a, b, hab, _⟩
      exact ⟨a, b, hab⟩
    have hnefiller : forall x, x ∈ above -> x ≠ filler := by
      intro x hx
      rcases habove x hx with ⟨a, b, hab⟩
      rw [hab]
      exact hsep.node_ne_filler a b
    rcases ih (hlift.ne_nil hne) hnefiller hroot with ⟨k, hdepth, hat⟩
    cases k with
    | zero =>
      -- The parents would be leaves of the tree.
      rcases exists_mem_of_ne_nil _ (hlift.ne_nil hne) with ⟨x, hx⟩
      rcases mem_iff_getElem?.mp hx with ⟨t, ht⟩
      have hmem := mem_of_getElem? (hat t x ht)
      rcases habove x hx with ⟨a, b, hab⟩
      exact absurd hab (hsep.leaf_ne_node x a b (hxs x hmem))
    | succ k =>
      refine ⟨k, by omega, ?_⟩
      rw [level_succ] at hat
      have hlower := (hlift.lower hsep hrun hat).left
      have hidx : 2 * (j * 2 ^ n + i / 2 % 2 ^ n) + i % 2 = j * 2 ^ (n + 1) + i % 2 ^ (n + 1) := by
        rw [Nat.pow_succ', Nat.mod_mul]
        ring
      rwa [hidx] at hlower

theorem Climbs.rounds (hsep : Separated node filler leaf) (hxs : forall x, x ∈ xs -> leaf x)
    (h : Climbs node filler n i run left right root) (hne : run ≠ [])
    (hrun : forall x, x ∈ run -> leaf x) {depth : Nat}
    (hroot : (level node filler depth xs)[j]? = some root) :
    depth = n ∧ RunAt xs (j * 2 ^ n + i % 2 ^ n) run := by
  have hfiller : forall x, x ∈ run -> x ≠ filler := by
    intro x hx
    exact hsep.leaf_ne_filler x (hrun x hx)
  rcases h.sound hsep hxs hne hfiller hroot with ⟨k, hdepth, hat⟩
  rcases exists_mem_of_ne_nil _ hne with ⟨x, hx⟩
  rcases mem_iff_getElem?.mp hx with ⟨t, ht⟩
  have hspine := spine_of_mem_level hxs (mem_of_getElem? (hat t x ht))
  have hzero : k = 0 := hspine.unique hsep (show Spine node leaf 0 x from hrun x hx)
  subst hzero
  exact ⟨by omega, hat⟩

theorem Climbs.root_ne_filler (hsep : Separated node filler leaf)
    (h : Climbs node filler n i run left right root) (hrun : forall x, x ∈ run -> x ≠ filler) :
    root ≠ filler := by
  induction h with
  | done i root => exact hrun root (by simp)
  | round hlift _ ih =>
    apply ih
    intro x hx
    rw [hlift.above_eq] at hx
    rcases mem_parents hx with ⟨a, b, hab, _⟩
    rw [hab]
    exact hsep.node_ne_filler a b

theorem Climbs.of_root (hsep : Separated node filler leaf) (hxs : forall x, x ∈ xs -> leaf x)
    (h : Climbs node filler n i run left right (levelRoot node filler xs))
    (hne : run ≠ []) (hrun : forall x, x ∈ run -> leaf x) :
    xs.length ≤ 2 ^ n ∧ RunAt xs (i % 2 ^ n) run ∧
      level node filler n xs = [levelRoot node filler xs] := by
  have hfiller : forall x, x ∈ run -> x ≠ filler := by
    intro x hx
    exact hsep.leaf_ne_filler x (hrun x hx)
  have hxsne : xs ≠ [] := by
    rintro rfl
    exact h.root_ne_filler hsep hfiller (levelRoot_nil node filler)
  rcases exists_level_eq_root node filler hxsne with ⟨depth, hdepth⟩
  have hroot : (level node filler depth xs)[0]? = some (levelRoot node filler xs) := by
    rw [hdepth]
    rfl
  rcases h.rounds hsep hxs hne hrun hroot with ⟨rfl, hat⟩
  rw [zero_mul, zero_add] at hat
  have hlen := length_le_level node filler depth xs
  rw [hdepth, length_singleton, one_mul] at hlen
  exact ⟨hlen, hat, hdepth⟩

theorem Climbs.length_left (h : Climbs node filler n i run left right root) :
    left.length = countOnes (i % 2 ^ n) := by
  induction h with
  | done => simp [Nat.mod_one, countOnes_zero]
  | @round n i run left right above lefts rights root hlift _ ih =>
    have hmod : i % 2 ^ (n + 1) = i % 2 + 2 * (i / 2 % 2 ^ n) := by rw [Nat.pow_succ', Nat.mod_mul]
    rw [length_append, hlift.length_left, ih, countOnes_eq (i % 2 ^ (n + 1)),
      show i % 2 ^ (n + 1) % 2 = i % 2 by omega,
      show i % 2 ^ (n + 1) / 2 = i / 2 % 2 ^ n by omega]

theorem Climbs.lt_of_length_left (h : Climbs node filler n i run left right root)
    (hleft : left.length = countOnes i) : i < 2 ^ n := by
  have hlen := h.length_left
  rw [hleft, countOnes_split i n] at hlen
  by_contra hge
  have hpos : 0 < i / 2 ^ n := Nat.div_pos (by omega) (Nat.two_pow_pos n)
  have hones := countOnes_pos hpos
  omega

theorem Climbs.left_eq (hsep : Separated node filler leaf) {xs} (hxs : forall x, x ∈ xs -> leaf x)
    {n i : Nat} {run left right} {root : hash} (h : Climbs node filler n i run left right root)
    (hne : run ≠ []) (hrun : forall x, x ∈ run -> x ≠ filler) (hi : i < 2 ^ n) {k : Nat}
    (hroot : (level node filler (k + n) xs)[0]? = some root) : left = mountains node filler 0 i
      ((level node filler k xs).take i) := by
  induction h generalizing k with
  | done i =>
    rw [pow_zero] at hi
    rw [show i = 0 by omega]
    simp
  | @round n i run left right above lefts rights root hlift hrest ih =>
    have hnefiller : forall x, x ∈ above -> x ≠ filler := by
      intro x hx
      rw [hlift.above_eq] at hx
      rcases mem_parents hx with ⟨a, b, hab, _⟩
      rw [hab]
      exact hsep.node_ne_filler a b
    have hhalf : i / 2 < 2 ^ n := by
      rw [pow_succ] at hi
      omega
    rw [show k + (n + 1) = k + 1 + n by omega] at hroot
    have hlefts := ih (hlift.ne_nil hne) hnefiller hhalf hroot
    rcases hrest.sound hsep hxs (hlift.ne_nil hne) hnefiller hroot with ⟨k', hdepth, hat⟩
    rw [show k' = k + 1 by omega, zero_mul, zero_add,
      Nat.mod_eq_of_lt hhalf, level_succ] at hat
    rcases hlift.lower hsep hrun hat with ⟨hrunAt, hleftAt⟩
    have hlen := hrunAt.length_le hne
    rw [show 2 * (i / 2) + i % 2 = i by omega] at hlen
    rw [level_succ, parents_take node filler _ (by omega)] at hlefts
    generalize level node filler k xs = nodes at *
    have htake : (nodes.take (2 * (i / 2))).length = i / 2 * 2 ^ 1 := by
      rw [length_take]
      omega
    rw [← mountains_parents node filler htake] at hlefts
    have hsize := hlift.length_left
    rcases Nat.mod_two_eq_zero_or_one i with hmod | hmod
    · rw [hmod] at hsize
      rw [length_eq_zero_iff.mp hsize, nil_append, hlefts,
        ← mountains_double, show 2 * (i / 2) = i by omega]
    · rw [hmod] at hsize
      rcases length_eq_one_iff.mp hsize with ⟨s, rfl⟩
      have hs : nodes[2 * (i / 2)]? = some s := hleftAt 0 s rfl
      have hcut := mountains_double_succ node filler 0 (i / 2) (nodes.take i)
      rw [show 2 * (i / 2) + 1 = i by omega, zero_add, pow_one,
        mul_comm (i / 2) 2, take_take,
        min_eq_left (by omega)] at hcut
      have hhead : subtreeRoot node filler 0
        ((nodes.take i).drop (2 * (i / 2))) = s := by
        rw [drop_take, show i - 2 * (i / 2) = 1 by omega,
          drop_eq_getElem_cons (by omega)]
        rw [getElem?_eq_getElem (by omega)] at hs
        exact Option.some.inj hs
      rw [hcut, hhead, hlefts]
      rfl

end OpenLibra.Merkle
