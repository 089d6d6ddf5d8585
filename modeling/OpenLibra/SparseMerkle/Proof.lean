import Mathlib.Data.List.AList
import OpenLibra.Merkle.Sparse
import OpenLibra.Crypto.HashValue
import OpenLibra.Accumulator.Proof

/-!
# Sparse Merkle proofs

The state is a finite map from keys to hashes of values.
-/

namespace OpenLibra.SparseMerkle

open Rust Merkle Crypto Accumulator

/-- The hashes of the sparse Merkle tree. -/
structure SparseHasher (digest : Type) where
  internalNode : digest -> digest -> digest
  leafNode : HashValue -> digest -> digest
  placeholder : digest

structure SparseMerkleLeafNode (digest : Type) where
  key : HashValue
  valueHash : digest
deriving DecidableEq, Repr

structure SparseMerkleProof (digest : Type) where
  leaf : Option (SparseMerkleLeafNode digest)
  siblings : List digest
deriving DecidableEq, Repr

variable {digest : Type} (H : SparseHasher digest)

def SparseMerkleLeafNode.hash (self : SparseMerkleLeafNode digest) : digest :=
  H.leafNode self.key self.valueHash

namespace SparseMerkleProof

section Verify

variable [DecidableEq digest] [ToString digest]

def checkLeaf (self : SparseMerkleProof digest) (elementKey : HashValue)
    (elementHash : Option digest) : Outcome AnyhowError Unit :=
  match elementHash, self.leaf with
  | some valueHash, some leaf => do
    ensure (elementKey = leaf.key) ["Keys do not match. Key in proof: " ++ toString leaf.key ++
        ". Expected key: " ++ toString elementKey ++ ". Element hash: " ++
        toString valueHash ++ ". Value hash in proof " ++
        toString leaf.valueHash]
    ensure (valueHash = leaf.valueHash)
      ["Value hashes do not match for key " ++ toString elementKey ++
        ". Value hash in proof: " ++ toString leaf.valueHash ++
        ". Expected value hash: " ++ toString valueHash ++ ". "]
  | some valueHash, none =>
    Outcome.err ["Expected inclusion proof, value hash: " ++ toString valueHash ++
        ". Found non-inclusion proof."]
  | none, some leaf => do
    ensure (elementKey ≠ leaf.key)
      ["Expected non-inclusion proof, but key exists in proof. Key: " ++
        toString elementKey ++ ". Key in proof: " ++ toString leaf.key ++
        "."]
    ensure (self.siblings.length ≤ elementKey.commonPrefixBitsLen leaf.key)
      ["Key would not have ended up in the subtree where the provided key " ++
        "in proof is the only existing key, if it existed. So this is not " ++
        "a valid non-inclusion proof. Key: " ++ toString elementKey ++
        ". Key in proof: " ++ toString leaf.key ++ "."]
  | none, none => .ok ()

def foldStep (below : digest) (step : digest × Bool) : digest :=
  if step.2 then
    H.internalNode step.1 below
  else
    H.internalNode below step.1

def verifyByHash (self : SparseMerkleProof digest) (expectedRootHash : digest)
    (elementKey : HashValue) (elementHash : Option digest) :
    Outcome AnyhowError Unit := do
  ensure (self.siblings.length ≤ HashValue.lengthInBits)
    ["Sparse Merkle Tree proof has more than " ++ toString HashValue.lengthInBits ++ " (" ++
      toString self.siblings.length ++ ") siblings."]
  self.checkLeaf elementKey elementHash
  let currentHash := self.leaf.elim H.placeholder (SparseMerkleLeafNode.hash H)
  let skipped <- u64Sub HashValue.lengthInBits self.siblings.length
  let actualRootHash :=
    (self.siblings.zip (elementKey.iterBits.reverse.drop skipped)).foldl (foldStep H) currentHash
  ensureRootHash "SparseMerkleProof" actualRootHash expectedRootHash

end Verify

end SparseMerkleProof

/-!
# The canonical tree of a state
-/

/-- A finite map from keys to hashes of values. -/
abbrev StateMap (digest : Type) := AList fun _ : HashValue => digest

def leafNodeOf (entry : Sigma fun _ : HashValue => digest) : SparseMerkleLeafNode digest :=
  ⟨entry.1, entry.2⟩

variable (state : StateMap digest)

def entriesOf : List (List Bool × SparseMerkleLeafNode digest) :=
  state.entries.map fun entry => (entry.1.iterBits, leafNodeOf entry)

def rootOf : digest :=
  sparseRoot H.internalNode H.placeholder (SparseMerkleLeafNode.hash H)
    HashValue.lengthInBits (entriesOf state)

def proofOf (key : HashValue) : SparseMerkleProof digest :=
  let path := sparsePath H.internalNode H.placeholder
    (SparseMerkleLeafNode.hash H) HashValue.lengthInBits key.iterBits
    (entriesOf state)
  { leaf := path.1
    siblings := path.2.reverse }

variable {state : StateMap digest} {leaf : SparseMerkleLeafNode digest}

theorem mem_entriesOf {bits} : (bits, leaf) ∈ entriesOf state <-> bits = leaf.key.iterBits ∧
      AList.lookup leaf.key state = some leaf.valueHash := by
  unfold entriesOf
  rw [List.mem_map]
  constructor
  · rintro ⟨⟨_, _⟩, hmem, h⟩
    cases h
    exact ⟨rfl, AList.mem_lookup_iff.mpr hmem⟩
  · rintro ⟨rfl, hlook⟩
    exact ⟨⟨leaf.key, leaf.valueHash⟩, AList.mem_lookup_iff.mp hlook, rfl⟩

theorem wellFormed_entriesOf (state : StateMap digest) :
    WellFormed HashValue.lengthInBits (entriesOf state) where
  length := by
    rintro ⟨_, _⟩ hmem
    rw [(mem_entriesOf.mp hmem).left]
    exact HashValue.length_iterBits _
  nodup := by
    have hmap : (entriesOf state).map Prod.fst = state.keys.map HashValue.iterBits := by
      simp [entriesOf, AList.keys, List.keys, Function.comp_def]
    rw [hmap]
    exact state.nodupKeys.map fun _ _ => HashValue.iterBits_injective

theorem mem_descend_of_lookup {key} {value : digest}
    (h : AList.lookup key state = some value) (n : Nat) : SparseMerkleLeafNode.mk key value ∈
      (descend (key.iterBits.take n) (entriesOf state)).map Prod.snd := by
  apply List.mem_map.mpr
  refine ⟨(key.iterBits.drop n, ⟨key, value⟩), ?_, rfl⟩
  rw [mem_descend, List.take_append_drop]
  exact mem_entriesOf.mpr ⟨rfl, h⟩

theorem lookup_of_mem_descend {sides} (h : leaf ∈ (descend sides (entriesOf state)).map Prod.snd) :
    AList.lookup leaf.key state = some leaf.valueHash ∧
      leaf.key.iterBits.take sides.length = sides := by
  rcases List.mem_map.mp h with ⟨⟨_, _⟩, hmem, rfl⟩
  rcases mem_entriesOf.mp (mem_descend.mp hmem) with ⟨hbits, hlook⟩
  exact ⟨hlook, by rw [← hbits, List.take_left' rfl]⟩

namespace SparseMerkleProof

theorem foldl_eq_pathHash {siblings : List digest} {bits : List Bool}
    (h : siblings.length ≤ bits.length) (bottom : digest) :
    (siblings.zip (bits.reverse.drop (bits.length - siblings.length))).foldl (foldStep H) bottom =
      pathHash H.internalNode bits siblings.reverse bottom := by
  have hcut : bits.reverse.drop (bits.length - siblings.length) =
    (bits.take siblings.length).reverse := by
    rw [List.drop_reverse, Nat.sub_sub_self h]
  have hlen : siblings.length = (bits.take siblings.length).reverse.length := by
    rw [List.length_reverse, List.length_take, Nat.min_eq_left h]
  have hzip : siblings.reverse.zip bits = siblings.reverse.zip (bits.take siblings.length) := by
    rw [List.zip_eq_zip_take_min, List.length_reverse, Nat.min_eq_left h,
      List.take_of_length_le (by rw [List.length_reverse])]
  unfold pathHash
  rw [hcut, List.foldl_eq_foldr_reverse, List.zip_eq_zipWith, List.reverse_zipWith hlen,
    List.reverse_reverse, ← List.zip_eq_zipWith, hzip]
  rfl

variable [DecidableEq digest] [ToString digest]

def LeafMatches (self : SparseMerkleProof digest) (elementKey : HashValue)
    (elementHash : Option digest) : Prop :=
  match elementHash, self.leaf with
  | some valueHash, some leaf => elementKey = leaf.key ∧ valueHash = leaf.valueHash
  | some _, none => False
  | none, some leaf =>
    elementKey ≠ leaf.key ∧ self.siblings.length ≤ elementKey.commonPrefixBitsLen leaf.key
  | none, none => True

variable {self : SparseMerkleProof digest} {elementKey : HashValue} {elementHash : Option digest}

theorem checkLeaf_eq_ok_iff : self.checkLeaf elementKey elementHash = .ok () <->
    self.LeafMatches elementKey elementHash := by
  have hpair {left right : Prop} [Decidable left] [Decidable right]
    {e e' : AnyhowError} :
    (ensure left e >>= fun _ => ensure right e') = .ok () <-> left ∧ right := by
    rw [bind_eq_ok_iff]
    constructor
    · rintro ⟨_, hleft, hright⟩
      exact ⟨ensure_eq_ok_iff.mp hleft, ensure_eq_ok_iff.mp hright⟩
    · rintro ⟨hleft, hright⟩
      exact ⟨(), ensure_eq_ok_iff.mpr hleft, ensure_eq_ok_iff.mpr hright⟩
  unfold checkLeaf LeafMatches
  rcases self with ⟨leaf, _⟩
  cases elementHash with
  | some | none =>
    cases leaf with
    | some => exact hpair
    | none => simp

theorem verifyByHash_eq_ok_iff {expectedRootHash : digest} :
    self.verifyByHash H expectedRootHash elementKey elementHash = .ok () <->
      self.siblings.length ≤ HashValue.lengthInBits ∧ self.LeafMatches elementKey elementHash ∧
        pathHash H.internalNode elementKey.iterBits self.siblings.reverse
          (endHash H.placeholder (SparseMerkleLeafNode.hash H) self.leaf) = expectedRootHash := by
  unfold verifyByHash
  constructor
  · intro h
    rcases of_bind h with ⟨_, hlen, h⟩
    have hle := ensure_eq_ok_iff.mp hlen
    rcases of_bind h with ⟨_, hleaf, h⟩
    dsimp only at h
    rw [u64Sub_eq_ok hle, ok_bind, ← HashValue.length_iterBits elementKey, foldl_eq_pathHash H
        (by rw [HashValue.length_iterBits]; exact hle)] at h
    exact ⟨hle, checkLeaf_eq_ok_iff.mp hleaf, ensure_eq_ok_iff.mp h⟩
  · rintro ⟨hle, hleaf, hroot⟩
    rw [ensure_eq_ok_iff.mpr hle, ok_bind, checkLeaf_eq_ok_iff.mpr hleaf, ok_bind]
    dsimp only
    rw [u64Sub_eq_ok hle, ok_bind, ← HashValue.length_iterBits elementKey, foldl_eq_pathHash H
        (by rw [HashValue.length_iterBits]; exact hle)]
    exact ensure_eq_ok_iff.mpr hroot

theorem lookup_of_verifyByHash
    (hsep : SparseSeparated H.internalNode H.placeholder (SparseMerkleLeafNode.hash H))
    {state} {key} {value} (h : self.verifyByHash H (rootOf H state) key value = .ok ()) :
    AList.lookup key state = value := by
  rcases (verifyByHash_eq_ok_iff H).mp h with ⟨hle, hleaf, hroot⟩
  have hbelow := descend_of_pathHash hsep (wellFormed_entriesOf state)
    (by rw [List.length_reverse, HashValue.length_iterBits]; exact hle) hroot
  rw [List.length_reverse] at hbelow
  have hkey {found : digest} (hfound : AList.lookup key state = some found) :
    self.leaf = some ⟨key, found⟩ := by
    have hmem := mem_descend_of_lookup hfound self.siblings.length
    rw [hbelow, Option.mem_toList] at hmem
    exact hmem
  rcases self with ⟨leaf, siblings⟩
  cases leaf with
  | some leaf =>
    have hmem : leaf ∈ (descend (key.iterBits.take siblings.length)
      (entriesOf state)).map Prod.snd := by
      rw [hbelow]
      simp
    have hlook := (lookup_of_mem_descend hmem).left
    cases value with
    | some =>
      rcases hleaf with ⟨rfl, rfl⟩
      exact hlook
    | none =>
      cases hfound : AList.lookup key state with
      | none => rfl
      | some =>
        have hsame := hkey hfound
        cases hsame
        exact absurd rfl hleaf.left
  | none =>
    cases value with
    | some => exact hleaf.elim
    | none =>
      cases hfound : AList.lookup key state with
      | none => rfl
      | some =>
        have hsame := hkey hfound
        cases hsame

theorem verifyByHash_proofOf (state : StateMap digest) (key : HashValue) :
    (proofOf H state key).verifyByHash H (rootOf H state) key (AList.lookup key state) =
      .ok () := by
  have hspec := @sparsePath_spec _ _ H.internalNode H.placeholder
    (SparseMerkleLeafNode.hash H) _ _ _ (wellFormed_entriesOf state)
    (HashValue.length_iterBits key)
  rcases hspec with ⟨hlen, hhash, hbelow⟩
  rw [verifyByHash_eq_ok_iff]
  unfold proofOf
  dsimp only
  generalize sparsePath H.internalNode H.placeholder
    (SparseMerkleLeafNode.hash H) HashValue.lengthInBits key.iterBits
    (entriesOf state) = path at *
  rcases path with ⟨leaf, siblings⟩
  dsimp only at *
  refine ⟨by rw [List.length_reverse]; exact hlen, ?_, ?_⟩
  · cases hfound : AList.lookup key state with
    | some =>
      have hmem := mem_descend_of_lookup hfound siblings.length
      rw [hbelow, Option.mem_toList] at hmem
      cases hmem
      exact ⟨rfl, rfl⟩
    | none =>
      cases leaf with
      | none => trivial
      | some leaf =>
        have hmem : leaf ∈ (descend (key.iterBits.take siblings.length)
          (entriesOf state)).map Prod.snd := by
          rw [hbelow]
          simp
        rcases lookup_of_mem_descend hmem with ⟨hlook, hbits⟩
        rw [List.length_take, HashValue.length_iterBits, Nat.min_eq_left hlen] at hbits
        constructor
        · rintro rfl
          rw [hfound] at hlook
          cases hlook
        · dsimp only
          rw [List.length_reverse]
          exact HashValue.le_commonPrefixBitsLen hlen hbits.symm
  · rw [List.reverse_reverse]
    exact hhash

/-- A proof is accepted for a key only with the value the state has for it, and
the proof read off the canonical tree is accepted. -/
theorem verifyByHash_sound_complete
    (hsep : SparseSeparated H.internalNode H.placeholder (SparseMerkleLeafNode.hash H))
    (state : StateMap digest) (key : HashValue) :
    (forall (value : Option digest) (proof : SparseMerkleProof digest),
        proof.verifyByHash H (rootOf H state) key value = Outcome.ok () ->
          AList.lookup key state = value) ∧
      (proofOf H state key).verifyByHash H (rootOf H state) key
        (AList.lookup key state) = Outcome.ok () := by
  constructor
  · intro _ _ h
    exact lookup_of_verifyByHash H hsep h
  · exact verifyByHash_proofOf H state key

end SparseMerkleProof

/-!
# Free hashes
-/

inductive FreeDigest where
  | value (n : Nat)
  | placeholder
  | leafNode (key : HashValue) (valueHash : FreeDigest)
  | node (left right : FreeDigest)
deriving DecidableEq, Repr

instance : ToString FreeDigest := ⟨fun digest => toString (repr digest)⟩

def freeSparseHasher : SparseHasher FreeDigest where
  internalNode := .node
  leafNode := .leafNode
  placeholder := .placeholder

theorem freeSparseHasher_separated :
    SparseSeparated freeSparseHasher.internalNode freeSparseHasher.placeholder
      (SparseMerkleLeafNode.hash freeSparseHasher) where
  node_injective := by
    intro _ _ _ _ h
    exact FreeDigest.node.inj h
  leaf_injective := by
    rintro ⟨_, _⟩ ⟨_, _⟩ h
    rcases FreeDigest.leafNode.inj h with ⟨rfl, rfl⟩
    rfl
  node_ne_empty := by
    intro _ _ h
    cases h
  leaf_ne_empty := by
    intro _ h
    cases h
  leaf_ne_node := by
    intro _ _ _ h
    cases h

def firstByteKey (byte : UInt8) : HashValue := ⟨Vector.ofFn fun i => if i = 0 then byte else 0⟩

def freeState : StateMap FreeDigest :=
  (AList.insert (firstByteKey 0) (.value 0) ∅).insert (firstByteKey 64) (.value 1)

theorem verifyByHash_sound_complete_freeState : (forall (value : Option FreeDigest)
      (proof : SparseMerkleProof FreeDigest),
      proof.verifyByHash freeSparseHasher
          (rootOf freeSparseHasher freeState) (firstByteKey 96) value =
        Outcome.ok () ->
      AList.lookup (firstByteKey 96) freeState = value) ∧
    (proofOf freeSparseHasher freeState (firstByteKey 96)).verifyByHash
      freeSparseHasher (rootOf freeSparseHasher freeState)
      (firstByteKey 96) (AList.lookup (firstByteKey 96) freeState) = Outcome.ok () :=
  SparseMerkleProof.verifyByHash_sound_complete freeSparseHasher
    freeSparseHasher_separated freeState (firstByteKey 96)

end OpenLibra.SparseMerkle
