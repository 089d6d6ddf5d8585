import OpenLibra.Accumulator.Position
import OpenLibra.Accumulator.Proof

/-!
# Proofs for a range of leaves

The verifier reduces the list of hashes level by level and tracks only the position of the first
one.
-/

namespace OpenLibra.Accumulator

open Rust Merkle List

structure AccumulatorRangeProof (hash : Type) where
  leftSiblings : List hash
  rightSiblings : List hash
deriving DecidableEq, Repr

namespace AccumulatorRangeProof

variable {hash : Type} (H : TreeHasher hash)

structure Reduction (hash : Type) where
  currentHashes : List hash
  leftSiblings : List hash
  rightSiblings : List hash
  firstPos : Position

variable (state : Reduction hash)

def Reduction.pending : Bool :=
  decide (1 < state.currentHashes.length) || !state.leftSiblings.isEmpty ||
    !state.rightSiblings.isEmpty

def joinFirst : Outcome AnyhowError (List hash × List hash × List hash) := do
  let isRight <- state.firstPos.isRightChild
  if isRight then
    match state.leftSiblings, state.currentHashes with
    | [], _ => .err ["First child is a right child, but missing sibling on the left."]
    | _ :: _, [] => .panic
    | leftHash :: leftSiblings, rightHash :: children =>
      .ok ([H.internalNode leftHash rightHash], children, leftSiblings)
  else
    .ok ([], state.currentHashes, state.leftSiblings)

def joinPairs : List hash -> List hash -> Outcome AnyhowError (List hash × List hash)
  | leftHash :: rightHash :: children, rightSiblings => do
    let (parents, rightSiblings) <- joinPairs children rightSiblings
    return (H.internalNode leftHash rightHash :: parents, rightSiblings)
  | [], rightSiblings => .ok ([], rightSiblings)
  | [leftHash], rightHash :: rightSiblings =>
    .ok ([H.internalNode leftHash rightHash], rightSiblings)
  | [_], [] => .err ["Last child is a left child, but missing sibling on the right."]

def reduceOnce : Outcome AnyhowError (Reduction hash) := do
  let (firstParents, children, leftSiblings) <- joinFirst H state
  let (otherParents, rightSiblings) <-
    joinPairs H children state.rightSiblings
  let firstPos <- state.firstPos.parent
  return {
    currentHashes := firstParents ++ otherParents
    leftSiblings := leftSiblings
    rightSiblings := rightSiblings
    firstPos := firstPos }

/-!
# One round
-/

theorem joinPairs_eq (children rightSiblings : List hash) : joinPairs H children rightSiblings =
    if rightSiblings.length < children.length % 2 then
      .err ["Last child is a left child, but missing sibling on the right."]
    else
      .ok (parents H.internalNode H.placeholder
          (children ++ rightSiblings.take (children.length % 2)),
        rightSiblings.drop (children.length % 2)) := by
  induction children using parents.induct with
  | case1 => simp [joinPairs, parents]
  | case2 =>
    cases rightSiblings with
    | nil => simp [joinPairs]
    | cons => simp [joinPairs, parents]
  | case3 x y rest ih =>
    have hmod : (x :: y :: rest).length % 2 = rest.length % 2 := by
      simp only [length_cons]
      omega
    rw [joinPairs, ih, hmod]
    split
    · rfl
    · simp [parents]

def takenLeft (isRight : Bool) : Nat := if isRight then 1 else 0

variable {state : Reduction hash} {k a firstLeafIndex levels first last numLeft numRight : Nat}
  {self : AccumulatorRangeProof hash} {leafHashes : List hash}

theorem joinFirst_eq {isRight : Bool} (hne : state.currentHashes ≠ [])
    (hpos : state.firstPos.isRightChild = .ok isRight) : joinFirst H state =
      if state.leftSiblings.length < takenLeft isRight then
        .err ["First child is a right child, but missing sibling on the left."]
      else
        .ok (parents H.internalNode H.placeholder (state.leftSiblings.take (takenLeft isRight) ++
              state.currentHashes.take (takenLeft isRight)),
          state.currentHashes.drop (takenLeft isRight),
          state.leftSiblings.drop (takenLeft isRight)) := by
  rcases state with ⟨currentHashes, leftSiblings, _, _⟩
  unfold joinFirst takenLeft
  dsimp only at hne hpos ⊢
  rw [hpos, ok_bind]
  cases isRight with
  | false => simp [parents]
  | true =>
    cases leftSiblings with
    | nil => simp
    | cons =>
      cases currentHashes with
      | nil => exact absurd rfl hne
      | cons => simp [parents]

/-- What a round leaves: the siblings it needs are taken in front and behind. -/
def Reduction.reduced (state : Reduction hash) (isRight : Bool) (firstPos : Position) :
    Reduction hash :=
  let takenRight := (takenLeft isRight + state.currentHashes.length) % 2
  { currentHashes := parents H.internalNode H.placeholder
      (state.leftSiblings.take (takenLeft isRight) ++ state.currentHashes ++
        state.rightSiblings.take takenRight)
    leftSiblings := state.leftSiblings.drop (takenLeft isRight)
    rightSiblings := state.rightSiblings.drop takenRight
    firstPos := firstPos }

theorem reduceOnce_eq {isRight : Bool} {firstPos : Position} (hne : state.currentHashes ≠ [])
    (hpos : state.firstPos.isRightChild = .ok isRight)
    (hpar : state.firstPos.parent = .ok firstPos) :
    reduceOnce H state =
      if state.leftSiblings.length < takenLeft isRight then
        .err ["First child is a right child, but missing sibling on the left."]
      else if state.rightSiblings.length < (takenLeft isRight + state.currentHashes.length) % 2 then
        .err ["Last child is a left child, but missing sibling on the right."]
      else
        .ok (state.reduced H isRight firstPos) := by
  have hlen := length_pos_iff.mpr hne
  have htaken : takenLeft isRight ≤ 1 := by cases isRight <;> decide
  unfold reduceOnce
  rw [joinFirst_eq H hne hpos]
  by_cases hleft : state.leftSiblings.length < takenLeft isRight
  · rw [if_pos hleft, if_pos hleft]
    rfl
  · rw [if_neg hleft, if_neg hleft]
    have hmod : (state.currentHashes.drop (takenLeft isRight)).length % 2 =
      (takenLeft isRight + state.currentHashes.length) % 2 := by
      rw [length_drop]
      omega
    simp only [ok_bind]
    rw [joinPairs_eq, hmod]
    by_cases hright : state.rightSiblings.length <
        (takenLeft isRight + state.currentHashes.length) % 2
    · rw [if_pos hright, if_pos hright]
      rfl
    · have hpair : (state.leftSiblings.take (takenLeft isRight) ++
          state.currentHashes.take (takenLeft isRight)).length % 2 = 0 := by
        rw [length_append, length_take, length_take]
        omega
      rw [if_neg hright, if_neg hright]
      simp only [ok_bind, hpar, pure_eq, Reduction.reduced]
      rw [← parents_append H.internalNode H.placeholder hpair, ← append_assoc, append_assoc _ _
        (drop _ _), take_append_drop]

theorem reduceOnce_eq_ok {next} (hne : state.currentHashes ≠ [])
    (h : reduceOnce H state = .ok next) :
    exists isRight firstPos, state.firstPos.isRightChild = .ok isRight ∧
      state.firstPos.parent = .ok firstPos ∧ takenLeft isRight ≤ state.leftSiblings.length ∧
      (takenLeft isRight + state.currentHashes.length) % 2 ≤ state.rightSiblings.length ∧
      next = state.reduced H isRight firstPos := by
  have hfirst := h
  rcases of_bind hfirst with ⟨_, hjoin, hfirst⟩
  rcases of_bind hjoin with ⟨isRight, hpos, _⟩
  rcases of_bind hfirst with ⟨_, _, hfirst⟩
  rcases of_bind hfirst with ⟨firstPos, hpar, _⟩
  rw [reduceOnce_eq H hne hpos hpar] at h
  split at h
  · cases h
  · split at h
    · cases h
    · cases h
      exact ⟨isRight, firstPos, hpos, hpar, by omega, by omega, rfl⟩

def Reduction.size (state : Reduction hash) : Nat :=
  state.currentHashes.length + state.leftSiblings.length + state.rightSiblings.length

theorem reduceOnce_ne_nil {next} (hne : state.currentHashes ≠ [])
    (h : reduceOnce H state = .ok next) : next.currentHashes ≠ [] := by
  have hlen := length_pos_iff.mpr hne
  rcases reduceOnce_eq_ok H hne h with ⟨isRight, firstPos, _, _, _, _, rfl⟩
  apply length_pos_iff.mp
  simp only [Reduction.reduced, length_parents, length_append]
  omega

theorem reduceOnce_size {next} (hne : state.currentHashes ≠ [])
    (h : reduceOnce H state = .ok next) : next.size < state.size := by
  have hlen := length_pos_iff.mpr hne
  rcases reduceOnce_eq_ok H hne h with ⟨isRight, firstPos, _, _, hleft, hright, rfl⟩
  have htaken : takenLeft isRight ≤ 1 := by cases isRight <;> decide
  simp only [Reduction.size, Reduction.reduced, length_parents, length_append, length_take,
    length_drop]
  omega

def reduceLoop (state : Reduction hash) (hne : state.currentHashes ≠ []) :
    Outcome AnyhowError hash :=
  if state.pending then
    match h : reduceOnce H state with
    | .ok next => reduceLoop next (reduceOnce_ne_nil H hne h)
    | .err e => .err e
    | .panic => .panic
  else
    expect state.currentHashes.head?
termination_by state.size
decreasing_by exact reduceOnce_size H hne h

def verify [DecidableEq hash] [ToString hash] (self : AccumulatorRangeProof hash)
    (expectedRootHash : hash) (firstLeafIndex : Option Nat) (leafHashes : List hash) :
    Outcome AnyhowError Unit :=
  match firstLeafIndex with
  | none => do
    ensure (leafHashes.isEmpty)
      ["first_leaf_index indicated empty list while leaf_hashes is not " ++ "empty."]
    ensure (self.leftSiblings.isEmpty && self.rightSiblings.isEmpty) ["No siblings are needed."]
  | some firstLeafIndex => do
    ensure (self.leftSiblings.length ≤ maxAccumulatorProofDepth)
      ["Proof has more than " ++ toString maxAccumulatorProofDepth ++
        " (" ++ toString self.leftSiblings.length ++ ") left siblings."]
    ensure (self.rightSiblings.length ≤ maxAccumulatorProofDepth)
      ["Proof has more than " ++ toString maxAccumulatorProofDepth ++
        " (" ++ toString self.rightSiblings.length ++ ") right siblings."]
    if hne : leafHashes = [] then
      .err ["leaf_hashes is empty while first_leaf_index indicated " ++ "non-empty list."]
    else do
      let firstPos <- Position.fromLeafIndex firstLeafIndex
      let actualRootHash <- reduceLoop H
        { currentHashes := leafHashes
          leftSiblings := self.leftSiblings
          rightSiblings := self.rightSiblings
          firstPos := firstPos } hne
      ensureRootHash "AccumulatorRangeProof" actualRootHash expectedRootHash

/-!
# The positions of a run
-/

def OnPath (k a : Nat) : Prop := Position.InRange k a ∨ (k = 64 ∧ a = 0)

def Navigable (k a : Nat) : Prop := Position.InRange k a ∧ (0 < k ∨ a + 1 < maxAccumulatorLeaves)

theorem OnPath.navigable_or_panic (h : OnPath k a) : Navigable k a ∨
    (Position.inorder k a).isRightChild = .panic := by
  rcases h with hrange | ⟨rfl, rfl⟩
  · by_cases hlast : 0 < k ∨ a + 1 < maxAccumulatorLeaves
    · exact .inl ⟨hrange, hlast⟩
    · right
      have hlt := hrange.right
      rw [not_or] at hlast
      have hk : k = 0 := by omega
      subst hk
      have ha : a = 2 ^ 63 - 1 := by
        unfold maxAccumulatorLeaves maxAccumulatorProofDepth at hlast
        omega
      rw [ha]
      decide +kernel
  · right
    decide +kernel

theorem Navigable.next (h : Navigable k a) : OnPath (k + 1) (a / 2) := by
  have hk := h.left.left
  by_cases htop : k = 63
  · have hlt := h.left.right
    rw [htop] at hlt
    right
    omega
  · exact .inl (h.left.parent (by omega))

theorem takenLeft_decide (a : Nat) : takenLeft (decide (a % 2 = 1)) = a % 2 := by
  rcases Nat.mod_two_eq_zero_or_one a with hmod | hmod
  · simp [takenLeft, hmod]
  · simp [takenLeft, hmod]

theorem reduceOnce_inorder (hne : state.currentHashes ≠ [])
    (hpos : state.firstPos = Position.inorder k a) (hnav : Navigable k a) :
    reduceOnce H state =
      if state.leftSiblings.length < a % 2 then
        .err ["First child is a right child, but missing sibling on the left."]
      else if state.rightSiblings.length < (a + state.currentHashes.length) % 2 then
        .err ["Last child is a left child, but missing sibling on the right."]
      else
        .ok
          { currentHashes := parents H.internalNode H.placeholder
              (state.leftSiblings.take (a % 2) ++ state.currentHashes ++ state.rightSiblings.take
                  ((a + state.currentHashes.length) % 2))
            leftSiblings := state.leftSiblings.drop (a % 2)
            rightSiblings := state.rightSiblings.drop ((a + state.currentHashes.length) % 2)
            firstPos := Position.inorder (k + 1) (a / 2) } := by
  have hright := Position.isRightChild_inorder hnav.left hnav.right
  have hpar := Position.parent_inorder hnav.left hnav.right
  rw [← hpos] at hright hpar
  have hmod : (a % 2 + state.currentHashes.length) % 2 = (a + state.currentHashes.length) % 2 := by
    omega
  rw [reduceOnce_eq H hne hright hpar, Reduction.reduced, takenLeft_decide, hmod]

theorem reduceLoop_of_ok {next} (hne : state.currentHashes ≠ []) (hpend : state.pending = true)
    (h : reduceOnce H state = .ok next) :
    reduceLoop H state hne = reduceLoop H next (reduceOnce_ne_nil H hne h) := by
  rw [reduceLoop, if_pos hpend]
  split
  · next hnext =>
      rw [h] at hnext
      cases hnext
      rfl
  · next hnext =>
      rw [h] at hnext
      cases hnext
  · next hnext =>
      rw [h] at hnext
      cases hnext

theorem reduceLoop_of_failure (hne : state.currentHashes ≠ []) (hpend : state.pending = true)
    (h : forall result, reduceOnce H state ≠ .ok result)
    (rest : Reduction hash -> Outcome AnyhowError hash) :
    reduceLoop H state hne = reduceOnce H state >>= rest := by
  rw [reduceLoop, if_pos hpend]
  split
  · next hnext => exact absurd hnext (h _)
  · next hnext =>
      rw [hnext]
      rfl
  · next hnext =>
      rw [hnext]
      rfl

theorem reduceLoop_of_err {e} (hne : state.currentHashes ≠ [])
    (hpend : state.pending = true) (h : reduceOnce H state = .err e) :
    reduceLoop H state hne = .err e := by
  rw [reduceLoop_of_failure H hne hpend (by simp [h]) (fun _ => .panic), h]
  rfl

theorem reduceLoop_of_panic (hne : state.currentHashes ≠ []) (hpend : state.pending = true)
    (h : state.firstPos.isRightChild = .panic) : reduceLoop H state hne = .panic := by
  have honce : reduceOnce H state = .panic := by
    unfold reduceOnce joinFirst
    rw [h]
    rfl
  rw [reduceLoop_of_failure H hne hpend (by simp [honce]) (fun _ => .panic), honce]
  rfl

theorem pending_iff : state.pending = true <-> 1 < state.currentHashes.length ∨
    0 < state.leftSiblings.length ∨ 0 < state.rightSiblings.length := by
  unfold Reduction.pending
  simp only [Bool.or_eq_true, decide_eq_true_eq, Bool.not_eq_true',
    isEmpty_eq_false_iff, length_pos_iff, or_assoc]

theorem not_pending (hne : state.currentHashes ≠ []) (h : ¬ state.pending = true) :
    exists x, state.currentHashes = [x] ∧ state.leftSiblings = [] ∧
      state.rightSiblings = [] ∧ reduceLoop H state hne = .ok x := by
  have hlen := length_pos_iff.mpr hne
  have hnone := mt pending_iff.mpr h
  have hone : state.currentHashes.length = 1 := by omega
  rcases length_eq_one_iff.mp hone with ⟨x, hx⟩
  refine ⟨x, hx, length_eq_zero_iff.mp (by omega), length_eq_zero_iff.mp (by omega), ?_⟩
  rw [reduceLoop, if_neg h, hx]
  rfl

theorem climbs_of_reduceLoop {hne} {root : hash} (hpos : state.firstPos = Position.inorder k a)
    (hpath : OnPath k a) (h : reduceLoop H state hne = .ok root) :
    exists n, Climbs H.internalNode H.placeholder n a state.currentHashes
      state.leftSiblings state.rightSiblings root := by
  induction hsize : state.size using Nat.strong_induction_on
    generalizing state k a with
  | _ size ih =>
    by_cases hpend : state.pending = true
    · rcases hpath.navigable_or_panic with hnav | hpanic
      · have honce := reduceOnce_inorder H hne hpos hnav
        split at honce
        · rw [reduceLoop_of_err H hne hpend honce] at h
          cases h
        · next hleft =>
            split at honce
            · rw [reduceLoop_of_err H hne hpend honce] at h
              cases h
            · next hright =>
                rw [reduceLoop_of_ok H hne hpend honce] at h
                have hlt := reduceOnce_size H hne honce
                rcases ih _ (by omega) rfl hnav.next h rfl with ⟨n, hn⟩
                have hlift : Lifts H.internalNode H.placeholder a
                  state.currentHashes (state.leftSiblings.take (a % 2))
                  (state.rightSiblings.take ((a + state.currentHashes.length) % 2)) _ :=
                  { length_left := by
                      rw [length_take]
                      omega
                    length_right := by
                      rw [length_take]
                      omega
                    above_eq := rfl }
                have hround := Climbs.round hlift hn
                rw [take_append_drop, take_append_drop] at hround
                exact ⟨n + 1, hround⟩
      · rw [← hpos] at hpanic
        rw [reduceLoop_of_panic H hne hpend hpanic] at h
        cases h
    · rcases not_pending H hne hpend with ⟨_, hx, hleft, hright, hloop⟩
      rw [hloop] at h
      cases h
      rw [hx, hleft, hright]
      exact ⟨0, .done a root⟩

theorem verify_eq_ok [DecidableEq hash] [ToString hash] {expectedRootHash : hash}
    (h : self.verify H expectedRootHash (some firstLeafIndex) leafHashes = .ok ()) :
    leafHashes ≠ [] ∧
      exists n, Climbs H.internalNode H.placeholder n
        (firstLeafIndex % maxAccumulatorLeaves) leafHashes self.leftSiblings
        self.rightSiblings expectedRootHash := by
  unfold verify at h
  dsimp only at h
  rcases of_bind h with ⟨_, _, h⟩
  rcases of_bind h with ⟨_, _, h⟩
  split at h
  · cases h
  · next hne =>
      rw [Position.fromLeafIndex_eq, ok_bind] at h
      rcases of_bind h with ⟨root, hloop, h⟩
      have hroot : root = expectedRootHash := ensure_eq_ok_iff.mp h
      rw [hroot] at hloop
      have hrange : OnPath 0 (firstLeafIndex % maxAccumulatorLeaves) :=
        .inl ⟨by omega, Nat.mod_lt _ (by decide)⟩
      exact ⟨hne, climbs_of_reduceLoop H rfl hrange hloop⟩

theorem runAt_of_verify [DecidableEq hash] [ToString hash] {leaf}
    (hsep : Separated H.internalNode H.placeholder leaf) {xs} (hxs : forall x, x ∈ xs -> leaf x)
    (hlvs : forall x, x ∈ leafHashes -> leaf x)
    (h : self.verify H (levelRoot H.internalNode H.placeholder xs) (some firstLeafIndex)
      leafHashes = .ok ()) : leafHashes ≠ [] ∧ exists n, xs.length ≤ 2 ^ n ∧
      RunAt xs (firstLeafIndex % maxAccumulatorLeaves % 2 ^ n) leafHashes := by
  rcases verify_eq_ok H h with ⟨hne, n, hclimb⟩
  rcases hclimb.of_root hsep hxs hne hlvs with ⟨hlen, hat, _⟩
  exact ⟨hne, n, hlen, hat⟩

/-!
# Panics
-/

def zeroBits : Nat -> Nat -> Nat
  | 0, _ => 0
  | width + 1, n => 1 - n % 2 + zeroBits width (n / 2)

def Outlasts (levels first last numLeft numRight : Nat) : Prop :=
  countOnes first ≤ numLeft ∧ zeroBits levels last ≤ numRight ∧
    (countOnes first < numLeft ∨ zeroBits levels last < numRight ∨ 2 ^ levels ≤ last)

theorem outlasts_succ_iff (hleft : first % 2 ≤ numLeft) (hright : 1 - last % 2 ≤ numRight) :
    Outlasts (levels + 1) first last numLeft numRight <->
      Outlasts levels (first / 2) (last / 2) (numLeft - first % 2) (numRight - (1 - last % 2)) := by
  have hpow : 2 ^ (levels + 1) ≤ last <-> 2 ^ levels ≤ last / 2 := by
    rw [pow_succ, Nat.le_div_iff_mul_le (by omega)]
  unfold Outlasts
  rw [countOnes_eq first, zeroBits, hpow]
  omega

theorem not_outlasts_left (h : numLeft < first % 2) :
    ¬ Outlasts levels first last numLeft numRight := by
  unfold Outlasts
  rw [countOnes_eq first]
  omega

theorem not_outlasts_right (h : numRight < 1 - last % 2) :
    ¬ Outlasts (levels + 1) first last numLeft numRight := by
  unfold Outlasts
  rw [zeroBits]
  omega

theorem not_outlasts_done (levels a : Nat) : ¬ Outlasts levels a a 0 0 := by
  rintro ⟨hleft, hright, hover⟩
  have ha : a = 0 := by
    by_contra hne
    have hpos := countOnes_pos (Nat.pos_of_ne_zero hne)
    omega
  subst ha
  cases levels with
  | zero => omega
  | succ =>
    rw [zeroBits] at hright
    omega

theorem reduceLoop_eq_panic_iff_above {hne} (hpos : state.firstPos = Position.inorder 64 0) :
    reduceLoop H state hne = .panic <-> Outlasts 0 0 (0 + state.currentHashes.length - 1)
        state.leftSiblings.length state.rightSiblings.length := by
  have hpanic : state.firstPos.isRightChild = .panic := by
    rw [hpos]
    decide +kernel
  by_cases hpend : state.pending = true
  · have hsome := pending_iff.mp hpend
    rw [reduceLoop_of_panic H hne hpend hpanic]
    refine ⟨fun _ => ?_, fun _ => rfl⟩
    unfold Outlasts
    rw [countOnes_zero, zeroBits]
    omega
  · rcases not_pending H hne hpend with ⟨_, hx, hleft, hright, hloop⟩
    rw [hloop, hx, hleft, hright]
    simpa using not_outlasts_done 0 0

theorem last_of_round {numHashes : Nat} (hpos : 0 < numHashes)
    (hleft : a % 2 ≤ numLeft) (hright : (a + numHashes) % 2 ≤ numRight) :
    a / 2 + (min (a % 2) numLeft + numHashes + min ((a + numHashes) % 2) numRight + 1) / 2 - 1 =
      (a + numHashes - 1) / 2 := by
  omega

theorem reduceLoop_eq_panic_iff {hne}
    (hlevels : levels + k = 64) (hpos : state.firstPos = Position.inorder k a)
    (hpath : OnPath k a) (hlast : 0 < k ∨ a + 1 < maxAccumulatorLeaves) :
    reduceLoop H state hne = .panic <-> Outlasts levels a (a + state.currentHashes.length - 1)
        state.leftSiblings.length state.rightSiblings.length := by
  induction levels generalizing state k a with
  | zero =>
    rcases hpath with hrange | ⟨rfl, rfl⟩
    · have hle := hrange.left
      omega
    · exact reduceLoop_eq_panic_iff_above H hpos
  | succ levels ih =>
    have hrange : Position.InRange k a := by
      rcases hpath with hrange | ⟨hk, _⟩
      · exact hrange
      · omega
    by_cases hpend : state.pending = true
    · have hlen := length_pos_iff.mpr hne
      have hnav : Navigable k a := ⟨hrange, hlast⟩
      have honce := reduceOnce_inorder H hne hpos hnav
      split at honce
      · next hleft =>
          rw [reduceLoop_of_err H hne hpend honce]
          simpa using not_outlasts_left hleft
      · next hleft =>
          split at honce
          · next hright =>
              rw [reduceLoop_of_err H hne hpend honce]
              simpa using not_outlasts_right (show state.rightSiblings.length < 1 -
                  (a + state.currentHashes.length - 1) % 2 by omega)
          · next hright =>
              have hnext := @ih _ (k + 1) (a / 2)
                (reduceOnce_ne_nil H hne honce) (by omega) rfl hnav.next
                (.inl (by omega))
              rw [reduceLoop_of_ok H hne hpend honce, hnext,
                outlasts_succ_iff (by omega) (by omega)]
              dsimp only
              rw [length_parents]
              simp only [length_append, length_take, length_drop]
              rw [last_of_round hlen (by omega) (by omega),
                show (a + state.currentHashes.length) % 2 =
                  1 - (a + state.currentHashes.length - 1) % 2 by omega]
    · rcases not_pending H hne hpend with ⟨_, hx, hleft, hright, hloop⟩
      rw [hloop, hx, hleft, hright]
      simpa using not_outlasts_done (levels + 1) a

/-- The counts of leaves and siblings for which the loop leaves the tree.  The
last leaf of the tree already has a position that is refused. -/
def Overruns (first numLeaves numLeft numRight : Nat) : Prop :=
  (first + 1 = maxAccumulatorLeaves ∧ (1 < numLeaves ∨ 0 < numLeft ∨ 0 < numRight)) ∨
    Outlasts 64 first (first + numLeaves - 1) numLeft numRight

theorem reduceLoop_eq_panic_iff_overruns {hne} (hfirst : first < maxAccumulatorLeaves)
    (hpos : state.firstPos = Position.inorder 0 first) : reduceLoop H state hne = .panic <->
      Overruns first state.currentHashes.length state.leftSiblings.length
        state.rightSiblings.length := by
  have hpath : OnPath 0 first := .inl ⟨by omega, hfirst⟩
  unfold Overruns
  by_cases hlast : first + 1 < maxAccumulatorLeaves
  · rw [reduceLoop_eq_panic_iff H rfl hpos hpath (.inr hlast)]
    constructor
    · exact .inr
    · intro h
      exact h.resolve_left (by omega)
  · have hmax : first + 1 = maxAccumulatorLeaves := by omega
    by_cases hpend : state.pending = true
    · have hpanic : state.firstPos.isRightChild = .panic := by
        rcases hpath.navigable_or_panic with hnav | hpanic
        · have hnever := hnav.right
          omega
        · rw [hpos]
          exact hpanic
      rw [reduceLoop_of_panic H hne hpend hpanic]
      exact ⟨fun _ => .inl ⟨hmax, pending_iff.mp hpend⟩, fun _ => rfl⟩
    · have hnone := mt pending_iff.mpr hpend
      rcases not_pending H hne hpend with ⟨_, hx, hleft, hright, hloop⟩
      rw [hloop]
      constructor
      · intro h
        cases h
      · rintro (⟨_, hsome⟩ | houtlasts)
        · exact absurd hsome hnone
        · rw [hx, hleft, hright] at houtlasts
          exact absurd houtlasts (not_outlasts_done 64 first)

theorem verify_eq_panic_iff [DecidableEq hash] [ToString hash] (self : AccumulatorRangeProof hash)
    (expectedRootHash : hash) (firstLeafIndex : Option Nat) (leafHashes : List hash) :
    self.verify H expectedRootHash firstLeafIndex leafHashes = .panic <->
      exists first, firstLeafIndex = some first ∧
        self.leftSiblings.length ≤ maxAccumulatorProofDepth ∧
        self.rightSiblings.length ≤ maxAccumulatorProofDepth ∧ leafHashes ≠ [] ∧
        Overruns (first % maxAccumulatorLeaves) leafHashes.length
          self.leftSiblings.length self.rightSiblings.length := by
  cases firstLeafIndex with
  | none =>
    constructor
    · intro hpanic
      rcases bind_eq_panic_iff.mp hpanic with h | ⟨_, _, h⟩
      · exact absurd h ensure_ne_panic
      · exact absurd h ensure_ne_panic
    · rintro ⟨first, hfirst, _⟩
      cases hfirst
  | some first =>
    have hlt : first % maxAccumulatorLeaves < maxAccumulatorLeaves := Nat.mod_lt _ (by decide)
    constructor
    · intro hpanic
      rcases bind_eq_panic_iff.mp hpanic with h | ⟨_, hleft, h⟩
      · exact absurd h ensure_ne_panic
      · rcases bind_eq_panic_iff.mp h with h | ⟨_, hright, h⟩
        · exact absurd h ensure_ne_panic
        · split at h
          · cases h
          · next hne =>
              rw [Position.fromLeafIndex_eq, ok_bind] at h
              rcases bind_eq_panic_iff.mp h with hloop | ⟨_, _, h⟩
              · exact ⟨first, rfl, ensure_eq_ok_iff.mp hleft, ensure_eq_ok_iff.mp hright, hne,
                  (reduceLoop_eq_panic_iff_overruns H hlt rfl).mp hloop⟩
              · exact absurd h ensure_ne_panic
    · rintro ⟨_, hfirst, hleft, hright, hne, hover⟩
      cases hfirst
      unfold verify
      dsimp only
      rw [ensure_eq_ok_iff.mpr hleft, ok_bind, ensure_eq_ok_iff.mpr hright, ok_bind, dif_neg hne,
        Position.fromLeafIndex_eq, ok_bind, (reduceLoop_eq_panic_iff_overruns H hlt rfl).mpr hover]
      rfl

end AccumulatorRangeProof

end OpenLibra.Accumulator
