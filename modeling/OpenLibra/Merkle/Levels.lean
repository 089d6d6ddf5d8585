import Mathlib.Data.Nat.BitIndices
import OpenLibra.Merkle.MountainRange

/-!
# Merkle trees level by level

A level is a list of hashes.  Pairing neighbours gives the level above; a last hash alone is
paired with a filler.
-/

namespace OpenLibra.Merkle

open List

section

variable {hash : Type} (node : hash -> hash -> hash) (filler : hash)

/-!
# One level up
-/

def parents : List hash -> List hash
  | [] => []
  | [x] => [node x filler]
  | x :: y :: rest => node x y :: parents rest

theorem length_parents (xs : List hash) :
    (parents node filler xs).length = (xs.length + 1) / 2 := by
  induction xs using parents.induct with
  | case1 | case2 => simp [parents]
  | case3 x y rest ih =>
    rw [parents, length_cons, ih, length_cons, length_cons]
    omega

theorem getElem?_parents (xs : List hash) (i : Nat) : (parents node filler xs)[i]? =
    (xs[2 * i]?).map fun x => node x ((xs[2 * i + 1]?).getD filler) := by
  induction xs using parents.induct generalizing i with
  | case1 => simp [parents]
  | case2 =>
    cases i with
    | zero => rfl
    | succ => simp [parents]
  | case3 x y rest ih =>
    cases i with
    | zero => rfl
    | succ i =>
      rw [parents, getElem?_cons_succ, ih, show 2 * (i + 1) = 2 * i + 1 + 1 by omega,
        getElem?_cons_succ, getElem?_cons_succ,
        getElem?_cons_succ, getElem?_cons_succ]

variable {xs leaves : List hash} {k n : Nat}

theorem parents_append (h : xs.length % 2 = 0) (ys : List hash) : parents node filler (xs ++ ys) =
    parents node filler xs ++ parents node filler ys := by
  induction xs using parents.induct with
  | case1 => rfl
  | case2 => simp at h
  | case3 x y rest ih =>
    rw [length_cons, length_cons] at h
    rw [cons_append, cons_append, parents, parents, cons_append, ih (by omega)]

theorem parents_append_filler (h : xs.length % 2 = 1) :
    parents node filler (xs ++ [filler]) = parents node filler xs := by
  induction xs using parents.induct with
  | case1 => simp at h
  | case2 => rfl
  | case3 x y rest ih =>
    rw [length_cons, length_cons] at h
    rw [cons_append, cons_append, parents, parents, ih (by omega)]

theorem parents_split (xs : List hash) {m : Nat} (h : 2 * m ≤ xs.length) :
    (parents node filler (xs.take (2 * m))).length = m ∧ parents node filler xs =
        parents node filler (xs.take (2 * m)) ++ parents node filler (xs.drop (2 * m)) := by
  have hlen : (xs.take (2 * m)).length = 2 * m := length_take_of_le h
  refine ⟨?_, ?_⟩
  · rw [length_parents, hlen]
    omega
  · rw [← parents_append node filler (by omega), take_append_drop]

theorem parents_take (xs : List hash) {m : Nat} (h : 2 * m ≤ xs.length) :
    (parents node filler xs).take m = parents node filler (xs.take (2 * m)) := by
  rcases parents_split node filler xs h with ⟨hlen, hsplit⟩
  rw [hsplit, take_left' hlen]

theorem parents_drop (xs : List hash) {m : Nat} (h : 2 * m ≤ xs.length) :
    (parents node filler xs).drop m = parents node filler (xs.drop (2 * m)) := by
  rcases parents_split node filler xs h with ⟨hlen, hsplit⟩
  rw [hsplit, drop_left' hlen]

def level : Nat -> List hash -> List hash
  | 0, xs => xs
  | k + 1, xs => level k (parents node filler xs)

theorem level_succ (k : Nat) (xs : List hash) : level node filler (k + 1) xs =
    parents node filler (level node filler k xs) := by
  induction k generalizing xs with
  | zero => rfl
  | succ k ih =>
    rw [level, ih]
    rfl

theorem length_le_level (k : Nat) (xs : List hash) :
    xs.length ≤ (level node filler k xs).length * 2 ^ k := by
  induction k generalizing xs with
  | zero => simp [level]
  | succ k ih =>
    have hparents := ih (parents node filler xs)
    rw [length_parents] at hparents
    rw [level, pow_succ, ← mul_assoc]
    omega

/-!
# The root
-/

def levelRoot : List hash -> hash
  | [] => filler
  | [x] => x
  | x :: y :: rest => levelRoot (parents node filler (x :: y :: rest))
termination_by xs => xs.length
decreasing_by
  rw [length_parents]
  simp only [length_cons]
  omega

@[simp] theorem levelRoot_nil : levelRoot node filler [] = filler := by rw [levelRoot]

@[simp] theorem levelRoot_singleton (x : hash) : levelRoot node filler [x] = x := by
  rw [levelRoot]

theorem levelRoot_parents (h : 2 ≤ xs.length) : levelRoot node filler (parents node filler xs) =
    levelRoot node filler xs := by
  match xs with
  | [] => simp at h
  | [x] => simp at h
  | x :: y :: rest => rw [← levelRoot]

theorem levelRoot_level (h : 2 ^ k < 2 * xs.length) :
    levelRoot node filler (level node filler k xs) = levelRoot node filler xs := by
  induction k generalizing xs with
  | zero => rfl
  | succ k ih =>
    rw [pow_succ] at h
    have hpow := Nat.two_pow_pos k
    rw [level, ih (by rw [length_parents]; omega), levelRoot_parents node filler (by omega)]

theorem exists_level_eq_root (hxs : xs ≠ []) :
    exists k, level node filler k xs = [levelRoot node filler xs] := by
  induction xs using levelRoot.induct node filler with
  | case1 => exact absurd rfl hxs
  | case2 => exact ⟨0, by simp [level]⟩
  | case3 x y rest ih =>
    rcases ih (by simp [parents]) with ⟨k, hk⟩
    exact ⟨k + 1, by rw [level, hk, levelRoot]⟩

/-!
# Mountains and levels
-/

theorem subtreeRoot_parents (h : xs.length = 2 ^ (k + 1)) : subtreeRoot node filler (k + 1) xs =
    subtreeRoot node filler k (parents node filler xs) := by
  induction k generalizing xs with
  | zero =>
    match xs with
    | [x, y] => rfl
    | [] => simp at h
    | [x] => simp at h
    | _ :: _ :: _ :: _ => simp at h
  | succ k ih =>
    have hhalf : xs.length = 2 * 2 ^ (k + 1) := by
      rw [h]
      ring
    have hcut : 2 ^ (k + 1) = 2 * 2 ^ k := by ring
    rw [subtreeRoot, ih (by rw [length_take]; omega),
      ih (by rw [length_drop]; omega), subtreeRoot, hcut,
      parents_take node filler xs (by omega),
      parents_drop node filler xs (by omega)]

theorem mountains_parents (h : leaves.length = n * 2 ^ (k + 1)) :
    mountains node filler (k + 1) n leaves =
      mountains node filler k n (parents node filler leaves) := by
  induction n using binary_induction generalizing k leaves with
  | zero => simp
  | double n _ ih =>
    rw [mountains_double, mountains_double, ih]
    rw [h]
    ring
  | double_succ n ih =>
    have hcut : n * 2 ^ (k + 1 + 1) = 2 * (n * 2 ^ (k + 1)) := by ring
    have hlen : leaves.length = 2 * (n * 2 ^ (k + 1)) + 2 ^ (k + 1) := by
      rw [h]
      ring
    have hpow := Nat.two_pow_pos (k + 1)
    rw [mountains_double_succ, mountains_double_succ, ih (by rw [length_take]; omega),
      subtreeRoot_parents node filler (by rw [length_drop]; omega),
      hcut, parents_take node filler leaves (by omega),
      parents_drop node filler leaves (by omega)]

theorem mountains_level (h : leaves.length = n * 2 ^ k) : mountains node filler k n leaves =
    mountains node filler 0 n (level node filler k leaves) := by
  induction k generalizing leaves with
  | zero => rfl
  | succ k ih =>
    have hdouble : leaves.length = 2 * (n * 2 ^ k) := by
      rw [h]
      ring
    rw [mountains_parents node filler h, level, ih (by rw [length_parents]; omega)]

theorem length_level_mul (n : Nat) (h : xs.length = n * 2 ^ k) :
    (level node filler k xs).length = n := by
  induction k generalizing xs with
  | zero => simpa [level] using h
  | succ k ih =>
    have hdouble : xs.length = 2 * (n * 2 ^ k) := by
      rw [h]
      ring
    rw [level, ih (by rw [length_parents]; omega)]

theorem level_perfect (h : xs.length = 2 ^ k) :
    level node filler k xs = [subtreeRoot node filler k xs] := by
  induction k generalizing xs with
  | zero =>
    rcases length_eq_one_iff.mp h with ⟨x, rfl⟩
    rfl
  | succ k ih =>
    rw [level, subtreeRoot_parents node filler h, ih]
    rw [length_parents, h, pow_succ]
    omega

theorem getElem?_level {a : Nat} (h : (a + 1) * 2 ^ k ≤ xs.length) :
    (level node filler k xs)[a]? = some (subtreeRoot node filler k
      ((xs.drop (a * 2 ^ k)).take (2 ^ k))) := by
  induction k generalizing xs with
  | zero =>
    have hlt : a < xs.length := by omega
    rw [level, pow_zero, mul_one, drop_eq_getElem_cons hlt, getElem?_eq_getElem hlt]
    rfl
  | succ k ih =>
    have hstart : a * 2 ^ (k + 1) = 2 * (a * 2 ^ k) := by ring
    have hsize : (a + 1) * 2 ^ (k + 1) = 2 * ((a + 1) * 2 ^ k) := by ring
    have hblock : (a + 1) * 2 ^ k = a * 2 ^ k + 2 ^ k := by ring
    have hdrop : 2 * 2 ^ k ≤ (xs.drop (2 * (a * 2 ^ k))).length := by
      rw [length_drop]
      omega
    rw [level, ih (by rw [length_parents]; omega), parents_drop node filler xs (by omega),
      parents_take node filler _ hdrop, hstart, Nat.pow_succ',
      ← subtreeRoot_parents node filler]
    rw [length_take, min_eq_left hdrop, Nat.pow_succ']

theorem fold_mountains {full} (h : full.length = n) (current : hash) :
    fold node filler n (mountains node filler 0 n full) current =
      some (levelRoot node filler (full ++ [current])) := by
  induction n using binary_induction generalizing full current with
  | zero =>
    rw [length_eq_zero_iff.mp h]
    simp
  | double n hn ih =>
    have htwo : 2 ≤ (full ++ [current]).length := by
      rw [length_append, length_singleton]
      omega
    rw [mountains_double, mountains_parents node filler (by omega),
      fold_double node filler hn, ih (by rw [length_parents]; omega),
      ← levelRoot_parents node filler htwo,
      parents_append node filler (by omega)]
    rfl
  | double_succ n ih =>
    have htake : (full.take (2 * n)).length = 2 * n := by
      rw [length_take]
      omega
    have hlast : exists last, full.drop (2 * n) = [last] := by
      apply length_eq_one_iff.mp
      rw [length_drop]
      omega
    rcases hlast with ⟨last, hlast⟩
    have hfull : full ++ [current] = full.take (2 * n) ++ [last, current] := by
      conv_lhs => rw [← take_append_drop (2 * n) full, hlast]
      simp
    have htwo : 2 ≤ (full.take (2 * n) ++ [last, current]).length := by simp
    rw [mountains_double_succ, zero_add, pow_one, mul_comm n 2,
      hlast, mountains_parents node filler (by omega),
      fold_double_succ_cons, ih (by rw [length_parents]; omega),
      hfull, ← levelRoot_parents node filler htwo,
      parents_append node filler (by omega)]
    rfl

def perfectRoots : List Nat -> List hash -> List hash
  | [], _ => []
  | k :: heights, leaves =>
    subtreeRoot node filler k (leaves.take (2 ^ k)) :: perfectRoots heights (leaves.drop (2 ^ k))

theorem perfectRoots_concat (heights : List Nat) (k : Nat) (leaves : List hash) :
    perfectRoots node filler (heights ++ [k]) leaves = perfectRoots node filler heights leaves ++
        [subtreeRoot node filler k ((leaves.drop (heights.map (2 ^ ·)).sum).take (2 ^ k))] := by
  induction heights generalizing leaves with
  | nil => simp [perfectRoots]
  | cons height heights ih =>
    rw [cons_append, perfectRoots, perfectRoots, ih, drop_drop, map_cons, sum_cons]
    rfl

theorem perfectRoots_take (heights : List Nat) (leaves : List hash) :
    perfectRoots node filler heights (leaves.take (heights.map (2 ^ ·)).sum) =
      perfectRoots node filler heights leaves := by
  induction heights generalizing leaves with
  | nil => rfl
  | cons height heights ih =>
    rw [map_cons, sum_cons, perfectRoots, perfectRoots,
      take_take, min_eq_left (by omega), drop_take,
      Nat.add_sub_cancel_left, ih]

theorem mountains_reverse (h : leaves.length = n * 2 ^ k) :
    (mountains node filler k n leaves).reverse =
      perfectRoots node filler (n.bitIndices.map (· + k)).reverse leaves := by
  induction n using binary_induction generalizing k leaves with
  | zero => simp [perfectRoots]
  | double n _ ih =>
    rw [mountains_double, ih (by rw [h]; ring), Nat.bitIndices_two_mul, map_map]
    congr 2
    apply map_congr_left
    intro i _
    simp only [Function.comp]
    omega
  | double_succ n ih =>
    have hpow := Nat.two_pow_pos k
    have hlen : leaves.length = n * 2 ^ (k + 1) + 2 ^ k := by
      rw [h]
      ring
    have hmap : (n.bitIndices.map (· + 1)).map (· + k) = n.bitIndices.map (· + (k + 1)) := by
      rw [map_map]
      apply map_congr_left
      intro i _
      simp only [Function.comp]
      omega
    have hsum : ((n.bitIndices.map (· + (k + 1))).reverse.map (2 ^ ·)).sum = n * 2 ^ (k + 1) := by
      rw [map_reverse, sum_reverse, map_map]
      have hpoint : (fun i => 2 ^ i) ∘ (· + (k + 1)) = fun i => 2 ^ i * 2 ^ (k + 1) := by
        funext i
        simp only [Function.comp, pow_add]
      rw [hpoint, sum_map_mul_right, Nat.sum_map_two_pow_bitIndices]
    have hlast : (leaves.drop (n * 2 ^ (k + 1))).take (2 ^ k) = leaves.drop (n * 2 ^ (k + 1)) := by
      apply take_of_length_le
      rw [length_drop]
      omega
    have hcut := perfectRoots_take node filler (n.bitIndices.map (· + (k + 1))).reverse leaves
    rw [hsum] at hcut
    rw [mountains_double_succ, reverse_cons,
      ih (by rw [length_take]; omega), Nat.bitIndices_two_mul_add_one,
      map_cons, reverse_cons, hmap, zero_add,
      perfectRoots_concat, hsum, hlast, hcut]

end

/-!
# Separated hashes
-/

structure Separated {hash : Type} (node : hash -> hash -> hash)
    (filler : hash) (leaf : hash -> Prop) : Prop where
  injective : NodeInjective node
  node_ne_filler : forall a b, node a b ≠ filler
  leaf_ne_filler : forall x, leaf x -> x ≠ filler
  leaf_ne_node : forall x a b, leaf x -> x ≠ node a b

def Spine {hash : Type} (node : hash -> hash -> hash) (leaf : hash -> Prop) : Nat -> hash -> Prop
  | 0, x => leaf x
  | k + 1, x => exists left right, x = node left right ∧ Spine node leaf k left

variable {hash : Type} {node : hash -> hash -> hash} {filler : hash} {leaf : hash -> Prop} {k : Nat}
  {x : hash} {xs ys : List hash}

theorem Spine.unique (hsep : Separated node filler leaf) {j : Nat}
    (hj : Spine node leaf j x) (hk : Spine node leaf k x) : j = k := by
  induction j generalizing k x with
  | zero =>
    cases k with
    | zero => rfl
    | succ =>
      rcases hk with ⟨left, right, hx, _⟩
      exact absurd hx (hsep.leaf_ne_node x left right hj)
  | succ j ih =>
    rcases hj with ⟨left, right, hx, hleft⟩
    cases k with
    | zero => exact absurd hx (hsep.leaf_ne_node x left right hk)
    | succ =>
      rcases hk with ⟨_, _, hx', hleft'⟩
      rw [hx] at hx'
      rw [← (hsep.injective _ _ _ _ hx').left] at hleft'
      rw [ih hleft hleft']

theorem Spine.ne_filler (hsep : Separated node filler leaf) (h : Spine node leaf k x) :
    x ≠ filler := by
  cases k with
  | zero => exact hsep.leaf_ne_filler x h
  | succ =>
    rcases h with ⟨left, right, hx, _⟩
    rw [hx]
    exact hsep.node_ne_filler left right

theorem mem_parents (h : x ∈ parents node filler xs) :
    exists left right, x = node left right ∧ left ∈ xs := by
  induction xs using parents.induct with
  | case1 => simp [parents] at h
  | case2 y =>
    refine ⟨y, filler, ?_, by simp⟩
    simpa [parents] using h
  | case3 y z rest ih =>
    rw [parents, mem_cons] at h
    rcases h with hx | hrest
    · exact ⟨y, z, hx, by simp⟩
    · rcases ih hrest with ⟨left, right, hx, hleft⟩
      exact ⟨left, right, hx, by simp [hleft]⟩

theorem spine_of_mem_level (hxs : forall x, x ∈ xs -> leaf x) (h : x ∈ level node filler k xs) :
    Spine node leaf k x := by
  induction k generalizing x with
  | zero => exact hxs x h
  | succ k ih =>
    rw [level_succ] at h
    rcases mem_parents h with ⟨left, right, hx, hleft⟩
    exact ⟨left, right, hx, ih hleft⟩

theorem parents_injective (hsep : Separated node filler leaf) (hxs : forall x, x ∈ xs -> x ≠ filler)
    (hys : forall y, y ∈ ys -> y ≠ filler) (h : parents node filler xs = parents node filler ys) :
    xs = ys := by
  induction xs using parents.induct generalizing ys with
  | case1 =>
    match ys with
    | [] => rfl
    | [_] => simp [parents] at h
    | _ :: _ :: _ => simp [parents] at h
  | case2 =>
    match ys with
    | [] => simp [parents] at h
    | [y] =>
      rw [parents, parents, cons.injEq] at h
      rw [(hsep.injective _ _ _ _ h.left).left]
    | y :: z :: rest =>
      rw [parents, parents, cons.injEq] at h
      exact absurd (hsep.injective _ _ _ _ h.left).right.symm (hys z (by simp))
  | case3 x x' rest ih =>
    match ys with
    | [] => simp [parents] at h
    | [y] =>
      rw [parents, parents, cons.injEq] at h
      exact absurd (hsep.injective _ _ _ _ h.left).right (hxs x' (by simp))
    | y :: y' :: rest' =>
      rw [parents, parents, cons.injEq] at h
      rcases hsep.injective _ _ _ _ h.left with ⟨hx, hx'⟩
      have hrest := ih (fun a ha => hxs a (by simp [ha]))
        (fun a ha => hys a (by simp [ha])) h.right
      rw [hx, hx', hrest]

theorem level_injective (hsep : Separated node filler leaf) (hxs : forall x, x ∈ xs -> leaf x)
    (hys : forall y, y ∈ ys -> leaf y) (h : level node filler k xs = level node filler k ys) :
    xs = ys := by
  induction k with
  | zero => exact h
  | succ k ih =>
    rw [level_succ, level_succ] at h
    apply ih
    apply parents_injective hsep _ _ h
    · intro _ hx
      exact (spine_of_mem_level hxs hx).ne_filler hsep
    · intro _ hy
      exact (spine_of_mem_level hys hy).ne_filler hsep

theorem exists_spine_levelRoot {xs} (hxs : forall x, x ∈ xs -> leaf x) (hne : xs ≠ []) :
    exists k, level node filler k xs = [levelRoot node filler xs] ∧
      Spine node leaf k (levelRoot node filler xs) := by
  rcases exists_level_eq_root node filler hne with ⟨k, hk⟩
  exact ⟨k, hk, spine_of_mem_level hxs (by rw [hk]; simp)⟩

theorem levelRoot_injective (hsep : Separated node filler leaf) (hxs : forall x, x ∈ xs -> leaf x)
    (hys : forall y, y ∈ ys -> leaf y) (h : levelRoot node filler xs = levelRoot node filler ys) :
    xs = ys := by
  by_cases hx : xs = []
  · by_cases hy : ys = []
    · rw [hx, hy]
    · have hroot := @exists_spine_levelRoot _ node filler _ _ hys hy
      rcases hroot with ⟨k, _, hspine⟩
      rw [← h, hx, levelRoot_nil] at hspine
      exact absurd rfl (hspine.ne_filler hsep)
  · have hroot := @exists_spine_levelRoot _ node filler _ _ hxs hx
    rcases hroot with ⟨_, hj, hspine⟩
    by_cases hy : ys = []
    · rw [h, hy, levelRoot_nil] at hspine
      exact absurd rfl (hspine.ne_filler hsep)
    · have hroot := @exists_spine_levelRoot _ node filler _ _ hys hy
      rcases hroot with ⟨_, hk, hspine'⟩
      rw [h] at hspine hj
      rw [hspine.unique hsep hspine', ← hk] at hj
      exact level_injective hsep hxs hys hj

end OpenLibra.Merkle
