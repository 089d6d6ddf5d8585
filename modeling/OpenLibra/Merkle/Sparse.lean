import Mathlib.Data.List.Nodup

/-!
# Sparse trees

An empty subtree has a fixed hash, a subtree with one entry is its leaf, and every other subtree
is a node over its two halves.
-/

namespace OpenLibra.Merkle

open List

/-!
# Entries and their branches
-/

section

variable {label : Type}

def branch (side : Bool) (entries : List (List Bool × label)) : List (List Bool × label) :=
  entries.filterMap fun entry =>
    match entry.1 with
    | [] => none
    | bit :: bits => if bit = side then some (bits, entry.2) else none

def descend : List Bool -> List (List Bool × label) -> List (List Bool × label)
  | [], entries => entries
  | side :: sides, entries => descend sides (branch side entries)

/-- Entries with the same number of bits left, no two with the same bits. -/
structure WellFormed (depth : Nat) (entries : List (List Bool × label)) : Prop where
  length : forall entry, entry ∈ entries -> entry.1.length = depth
  nodup : (entries.map Prod.fst).Nodup

variable {entries : List (List Bool × label)} {sides : List Bool} {bits : List Bool} {a : label}

theorem mem_branch {side : Bool} :
    (bits, a) ∈ branch side entries <-> (side :: bits, a) ∈ entries := by
  unfold branch
  rw [mem_filterMap]
  constructor
  · rintro ⟨⟨entryBits, _⟩, hmem, h⟩
    cases entryBits with
    | nil => cases h
    | cons =>
      dsimp only at h
      split at h
      · next hbit =>
          cases h
          rw [← hbit]
          exact hmem
      · cases h
  · intro hmem
    exact ⟨(side :: bits, a), hmem, by simp⟩

theorem mem_descend : (bits, a) ∈ descend sides entries <-> (sides ++ bits, a) ∈ entries := by
  induction sides generalizing entries with
  | nil => rfl
  | cons side sides ih =>
    rw [descend, ih, mem_branch]
    rfl

theorem WellFormed.branch {depth : Nat} (h : WellFormed (depth + 1) entries) (side : Bool) :
    WellFormed depth (branch side entries) where
  length := by
    rintro ⟨bits, a⟩ hmem
    have hlen := h.length _ (mem_branch.mp hmem)
    simpa using hlen
  nodup := by
    have hmap : (Merkle.branch side entries).map Prod.fst =
      (entries.map Prod.fst).filterMap fun bits =>
          match bits with
          | [] => none
          | bit :: rest => if bit = side then some rest else none := by
      unfold Merkle.branch
      rw [map_filterMap, filterMap_map]
      congr 1
      funext entry
      rcases entry with ⟨bits, _⟩
      cases bits with
      | nil => rfl
      | cons bit =>
        by_cases hbit : bit = side
        · simp [hbit]
        · simp [hbit]
    rw [hmap]
    apply List.Nodup.filterMap _ h.nodup
    intro left right _ hleft hright
    cases left with
    | nil => cases hleft
    | cons bit =>
      cases right with
      | nil => cases hright
      | cons bit' =>
        by_cases hbit : bit = side
        · by_cases hbit' : bit' = side
          · simp [hbit] at hleft
            simp [hbit'] at hright
            rw [hbit, hbit', hleft, hright]
          · simp [hbit'] at hright
        · simp [hbit] at hleft

theorem WellFormed.descend {depth : Nat} (h : WellFormed (sides.length + depth) entries) :
    WellFormed depth (descend sides entries) := by
  induction sides generalizing entries with
  | nil => simpa [Merkle.descend] using h
  | cons side sides ih =>
    rw [length_cons, Nat.add_right_comm] at h
    exact ih (h.branch side)

theorem WellFormed.length_le_one (h : WellFormed 0 entries) : entries.length ≤ 1 := by
  match entries with
  | [] => simp
  | [_] => simp
  | x :: y :: rest =>
    have hx := length_eq_zero_iff.mp (h.length x (by simp))
    have hy := length_eq_zero_iff.mp (h.length y (by simp))
    have hnodup := h.nodup
    rw [map_cons, map_cons, hx, hy, nodup_cons] at hnodup
    exact absurd (by simp) hnodup.left

end

/-!
# The canonical tree
-/

variable {label hash : Type} (node : hash -> hash -> hash) (empty : hash) (leaf : label -> hash)

/-- The root over entries with `depth` bits left. -/
def sparseRoot : Nat -> List (List Bool × label) -> hash
  | _, [] => empty
  | _, [entry] => leaf entry.2
  | 0, _ => empty
  | depth + 1, entries =>
    node (sparseRoot depth (branch false entries)) (sparseRoot depth (branch true entries))

def pathHash (bits : List Bool) (siblings : List hash) (bottom : hash) : hash :=
  (siblings.zip bits).foldr
    (fun step below =>
      if step.2 then node step.1 below else node below step.1) bottom

def sparsePath : Nat -> List Bool -> List (List Bool × label) -> Option label × List hash
  | _, _, [] => (none, [])
  | _, _, [entry] => (some entry.2, [])
  | depth + 1, bit :: bits, entries =>
    let path := sparsePath depth bits (branch bit entries)
    (path.1, sparseRoot node empty leaf depth (branch (!bit) entries) :: path.2)
  | _, _, _ => (none, [])

theorem sparseRoot_split (depth : Nat) (x y : List Bool × label)
    (entries : List (List Bool × label)) :
    sparseRoot node empty leaf (depth + 1) (x :: y :: entries) =
      node (sparseRoot node empty leaf depth (branch false (x :: y :: entries)))
        (sparseRoot node empty leaf depth (branch true (x :: y :: entries))) := rfl

theorem sparsePath_node (depth : Nat) (bit : Bool) (bits : List Bool)
    (x y : List Bool × label) (entries : List (List Bool × label)) :
    sparsePath node empty leaf (depth + 1) (bit :: bits) (x :: y :: entries) =
      ((sparsePath node empty leaf depth bits (branch bit (x :: y :: entries))).1, sparseRoot node
        empty leaf depth (branch (!bit) (x :: y :: entries)) :: (sparsePath node empty leaf depth
        bits (branch bit (x :: y :: entries))).2) := rfl

omit empty leaf in
theorem pathHash_cons (bit : Bool) (bits : List Bool) (sibling : hash)
    (siblings : List hash) (bottom : hash) :
    pathHash node (bit :: bits) (sibling :: siblings) bottom =
      if bit then
        node sibling (pathHash node bits siblings bottom)
      else
        node (pathHash node bits siblings bottom) sibling := rfl

def endHash (found : Option label) : hash := found.elim empty leaf

/-- Leaves, nodes and the empty hash are told apart, and determine what they
were made of. -/
structure SparseSeparated : Prop where
  node_injective : forall a b c d, node a b = node c d -> a = c ∧ b = d
  leaf_injective : forall a b, leaf a = leaf b -> a = b
  node_ne_empty : forall a b, node a b ≠ empty
  leaf_ne_empty : forall a, leaf a ≠ empty
  leaf_ne_node : forall a b c, leaf a ≠ node b c

variable {node empty leaf} {depth : Nat} {entries : List (List Bool × label)} {siblings : List hash}
  {found : Option label}

theorem sparseRoot_node (hsep : SparseSeparated node empty leaf) {a b : hash}
    (h : node a b = sparseRoot node empty leaf depth entries) :
    exists rest, depth = rest + 1 ∧ a = sparseRoot node empty leaf rest (branch false entries) ∧
      b = sparseRoot node empty leaf rest (branch true entries) := by
  match depth, entries with
  | _, [] =>
    rw [sparseRoot] at h
    exact absurd h (hsep.node_ne_empty a b)
  | _, [entry] =>
    rw [sparseRoot] at h
    exact absurd h.symm (hsep.leaf_ne_node _ _ _)
  | 0, _ :: _ :: _ => exact absurd h (hsep.node_ne_empty a b)
  | rest + 1, x :: y :: entries =>
    rcases hsep.node_injective _ _ _ _ h with ⟨ha, hb⟩
    exact ⟨rest, rfl, ha, hb⟩

variable {bits : List Bool}

theorem sparseRoot_of_pathHash (hsep : SparseSeparated node empty leaf)
    {bottom : hash} (hbits : siblings.length ≤ bits.length)
    (h : pathHash node bits siblings bottom = sparseRoot node empty leaf depth entries) :
    exists rest, depth = siblings.length + rest ∧ bottom = sparseRoot node empty leaf rest
        (descend (bits.take siblings.length) entries) := by
  induction siblings generalizing bits depth entries with
  | nil => exact ⟨depth, by simp, h⟩
  | cons sibling siblings ih =>
    cases bits with
    | nil => simp at hbits
    | cons bit bits =>
      have hbits' : siblings.length ≤ bits.length := by simpa using hbits
      cases bit with
      | false =>
        rcases sparseRoot_node hsep h with ⟨rest, rfl, hbelow, _⟩
        rcases ih hbits' hbelow with ⟨last, rfl, hbottom⟩
        refine ⟨last, ?_, hbottom⟩
        rw [length_cons]
        omega
      | true =>
        rcases sparseRoot_node hsep h with ⟨rest, rfl, _, hbelow⟩
        rcases ih hbits' hbelow with ⟨last, rfl, hbottom⟩
        refine ⟨last, ?_, hbottom⟩
        rw [length_cons]
        omega

theorem sparseRoot_eq_endHash (hsep : SparseSeparated node empty leaf)
    (hents : WellFormed depth entries)
    (h : endHash empty leaf found = sparseRoot node empty leaf depth entries) :
    entries.map Prod.snd = found.toList := by
  match depth, entries, found with
  | _, [], none => rfl
  | _, [], some a =>
    rw [sparseRoot] at h
    exact absurd h (hsep.leaf_ne_empty a)
  | _, [entry], none =>
    rw [sparseRoot] at h
    exact absurd h.symm (hsep.leaf_ne_empty _)
  | _, [entry], some a =>
    rw [sparseRoot] at h
    rw [hsep.leaf_injective _ _ h]
    rfl
  | 0, _ :: _ :: _, _ =>
    have hlen := hents.length_le_one
    simp at hlen
  | _ + 1, _ :: _ :: _, none => exact absurd h.symm (hsep.node_ne_empty _ _)
  | _ + 1, _ :: _ :: _, some a => exact absurd h (hsep.leaf_ne_node a _ _)

theorem descend_of_pathHash (hsep : SparseSeparated node empty leaf)
    (hents : WellFormed depth entries) (hbits : siblings.length ≤ bits.length)
    (h : pathHash node bits siblings (endHash empty leaf found) = sparseRoot node empty leaf depth
      entries) : (descend (bits.take siblings.length) entries).map Prod.snd = found.toList := by
  rcases sparseRoot_of_pathHash hsep hbits h with ⟨_, rfl, hbottom⟩
  refine sparseRoot_eq_endHash hsep ?_ hbottom
  apply WellFormed.descend
  rwa [length_take, Nat.min_eq_left hbits]

theorem sparsePath_spec {depth : Nat} {entries} (hents : WellFormed depth entries)
    (hbits : bits.length = depth) :
    (sparsePath node empty leaf depth bits entries).2.length ≤ depth ∧
      pathHash node bits (sparsePath node empty leaf depth bits entries).2 (endHash empty leaf
            (sparsePath node empty leaf depth bits entries).1) =
        sparseRoot node empty leaf depth entries ∧
      (descend (bits.take (sparsePath node empty leaf depth bits entries).2.length)
          entries).map Prod.snd = (sparsePath node empty leaf depth bits entries).1.toList := by
  induction depth generalizing bits entries with
  | zero =>
    have hlen := hents.length_le_one
    match entries with
    | [] => simp [sparsePath, pathHash, endHash, sparseRoot, descend]
    | [entry] => simp [sparsePath, pathHash, endHash, sparseRoot, descend]
    | _ :: _ :: _ => simp at hlen
  | succ depth ih =>
    match entries, bits with
    | [], _ => simp [sparsePath, pathHash, endHash, sparseRoot, descend]
    | [entry], _ => simp [sparsePath, pathHash, endHash, sparseRoot, descend]
    | _ :: _ :: _, [] => simp at hbits
    | x :: y :: entries, bit :: bits =>
      rcases ih (hents.branch bit) (by simpa using hbits) with ⟨hlen, hhash, hdescend⟩
      rw [sparsePath_node]
      refine ⟨?_, ?_, ?_⟩
      · rw [length_cons]
        omega
      · rw [pathHash_cons, hhash, sparseRoot_split]
        cases bit <;> rfl
      · rw [length_cons, take_succ_cons, descend]
        exact hdescend

end OpenLibra.Merkle
