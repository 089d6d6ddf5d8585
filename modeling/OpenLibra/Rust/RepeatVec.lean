import Mathlib.Data.List.Destutter
import OpenLibra.Rust.Outcome

/-!
# Vectors of repeated items

A `RepeatVec` stores a run of copies once, with the position at which it starts.  It refines the
list of the copies.
-/

namespace OpenLibra.Rust

open List

structure RepeatVec (item : Type) where
  items : List (Nat × item)
  len : Nat

namespace RepeatVec

variable {item : Type}

def new : RepeatVec item := { items := [], len := 0 }

def extend (self : RepeatVec item) (elem : item) (size : Nat) :
    Outcome Empty (RepeatVec item) := do
  if 0 < size then
    let len <- u64Add self.len size
    return { items := self.items ++ [(self.len, elem)], len := len }
  else return self

/-- `binary_search_by_key` on increasing starts: the index of the start, or where to insert it. -/
def binarySearch (loc : Nat) : Nat -> List (Nat × item) -> Except Nat Nat
  | idx, [] => .error idx
  | idx, (start, _) :: rest =>
    if start < loc then binarySearch loc (idx + 1) rest
    else if start = loc then .ok idx else .error idx

/-- The start of the first run, or the length. -/
def next (len : Nat) (items : List (Nat × item)) : Nat := (items.head?.map Prod.fst).getD len

/-- The loop of `remove_all_impl`.  Its inner loop passes the indexes below the next start. -/
def removeLoop (len : Nat) (indexes : List Nat) :
    List (Nat × item) -> Nat -> Outcome Empty (List (Nat × item) × Nat)
  | [], decrease => return ([], decrease)
  | (start, elem) :: rest, decrease => do
    let startNew <- u64Sub start decrease
    let decrease := decrease + ((indexes.drop decrease).takeWhile (· < next len rest)).length
    let nextNew <- u64Sub (next len rest) decrease
    if startNew ≤ nextNew then
      let (newItems, decrease) <- removeLoop len indexes rest decrease
      return (if startNew < nextNew then (startNew, elem) :: newItems else newItems, decrease)
    else .panic

/-- The index of the run that has the position. -/
def runAt (self : RepeatVec item) (loc : Nat) : Outcome Empty Nat :=
  match binarySearch loc 0 self.items with
  | .ok exactIdx => .ok exactIdx
  | .error startIdx => u64Sub startIdx 1

def removeAllImpl (self : RepeatVec item) (indexes : List Nat) :
    Outcome Empty (RepeatVec item) := do
  match indexes with
  | [] => return self
  | first :: _ =>
    if self.len ≤ first then return self
    else
      let firstIdx <- self.runAt first
      let (newItems, decrease) <- removeLoop self.len indexes (self.items.drop firstIdx) 0
      let len <- u64Sub self.len decrease
      return { items := self.items.take firstIdx ++ newItems, len := len }

/-- The indexes are sorted, and `Vec::dedup` drops those equal to the one before. -/
def removeAll (self : RepeatVec item) (indexes : List Nat) : Outcome Empty (RepeatVec item) :=
  self.removeAllImpl ((indexes.mergeSort fun a b => a ≤ b).destutter (· ≠ ·))

def get (self : RepeatVec item) (loc : Nat) : Outcome Empty (Option (item × Nat)) := do
  if self.len ≤ loc then return none
  else
    match binarySearch loc 0 self.items with
    | .ok exactIdx =>
      let run <- expect self.items[exactIdx]?
      return some (run.2, 0)
    | .error startIdx =>
      let before <- u64Sub startIdx 1
      let run <- expect self.items[before]?
      let offset <- u64Sub loc run.1
      return some (run.2, offset)

inductive Call (item : Type) where
  | extend (elem : item) (size : Nat)
  | removeAll (indexes : List Nat)

def step (self : RepeatVec item) : Call item -> Outcome Empty (RepeatVec item)
  | .extend elem size => self.extend elem size
  | .removeAll indexes => self.removeAll indexes

/-!
# The list of the copies
-/

def expand (len : Nat) : List (Nat × item) -> List item
  | [] => []
  | (start, elem) :: rest => replicate (next len rest - start) elem ++ expand len rest

/-- The copies with the number of those before them in the run. -/
def copies (len : Nat) : List (Nat × item) -> List (item × Nat)
  | [] => []
  | (start, elem) :: rest => (range (next len rest - start)).map (elem, ·) ++ copies len rest

def listStep (list : List item) : Call item -> Outcome Empty (List item)
  | .extend elem size => do
    let _ <- u64Add list.length size
    return list ++ replicate size elem
  | .removeAll indexes => return (list.zipIdx.filter (·.2 ∉ indexes)).map Prod.fst

/-- Every run starts below the next one, and the last one below the length. -/
def Ordered (len : Nat) : List (Nat × item) -> Prop
  | [] => True
  | (start, _) :: rest => start < next len rest ∧ Ordered len rest

/-- The starts increase strictly from zero and stay below the length. -/
structure Valid (vec : RepeatVec item) : Prop where
  zero : next vec.len vec.items = 0
  ordered : Ordered vec.len vec.items
  fits : vec.len < u64Bound

variable {len loc : Nat} {items front back : List (Nat × item)} {indexes : List Nat}

theorem next_append : next len (front ++ back) = next (next len back) front := by
  cases front <;> rfl

theorem expand_append :
    expand len (front ++ back) = expand (next len back) front ++ expand len back := by
  induction front with
  | nil => rfl
  | cons run front ih => simp [expand, next_append, ih]

theorem ordered_append :
    Ordered len (front ++ back) <-> Ordered (next len back) front ∧ Ordered len back := by
  induction front with
  | nil => simp [Ordered]
  | cons run front ih => simp [Ordered, next_append, ih, and_assoc]

theorem map_fst_copies : (copies len items).map Prod.fst = expand len items := by
  induction items with
  | nil => rfl
  | cons run items ih => simp [copies, expand, ih, Function.comp_def, map_const']

theorem length_expand (h : Ordered len items) :
    next len items + (expand len items).length = len := by
  induction items with
  | nil => rfl
  | cons run items ih =>
    have hlen := ih h.2
    have hlt := h.1
    simp only [expand, length_append, length_replicate]
    change run.1 + _ = _
    omega

/-- The search finds the run of a position, which has the copy at this position. -/
theorem exists_run (h : Ordered len items) (hle : next len items ≤ loc) (hlt : loc < len)
    (idx : Nat) :
    exists front start elem back, items = front ++ (start, elem) :: back ∧ start ≤ loc ∧
      binarySearch loc idx items = (if start = loc then .ok (idx + front.length)
        else .error (idx + front.length + 1)) ∧
      (copies len items)[loc - next len items]? = some (elem, loc - start) := by
  induction items generalizing idx with
  | nil => exact absurd hlt (not_lt.mpr hle)
  | cons run rest ih =>
    rcases run with ⟨first, elem⟩
    have hfirst : first < next len rest := h.1
    change first ≤ loc at hle
    -- The position is in the first run, or the search goes on behind it.
    by_cases hrun : loc < next len rest
    · refine ⟨[], first, elem, rest, rfl, hle, ?_, ?_⟩
      · have hstop : binarySearch loc (idx + 1) rest = .error (idx + 1) := by
          cases rest with
          | nil => rfl
          | cons run =>
            have hrun : loc < run.1 := hrun
            simp [binarySearch, not_lt.mpr (le_of_lt hrun), ne_of_gt hrun]
        rw [binarySearch, hstop]
        grind
      · change (copies len ((first, elem) :: rest))[loc - first]? = _
        rw [copies, getElem?_append_left (by simp; omega), getElem?_map, getElem?_range (by omega)]
        rfl
    · rcases ih h.2 (not_lt.mp hrun) (idx + 1) with
        ⟨front, start, last, back, rfl, hstart, hfind, hcopy⟩
      refine ⟨(first, elem) :: front, start, last, back, rfl, hstart, ?_, ?_⟩
      · rw [binarySearch, if_pos (by omega), hfind]
        simp only [length_cons]
        grind
      · change (copies len (_ :: _))[loc - first]? = _
        rw [copies, getElem?_append_right (by simp; omega), length_map, length_range, ← hcopy]
        congr 1
        omega

theorem length_copies {self : RepeatVec item} (h : self.Valid) :
    (copies self.len self.items).length = self.len := by
  have hlen := length_expand h.ordered
  rw [← map_fst_copies, length_map, h.zero] at hlen
  omega

theorem get_eq {self : RepeatVec item} (h : self.Valid) (loc : Nat) :
    self.get loc = .ok (copies self.len self.items)[loc]? := by
  have hlen := length_copies h
  unfold get
  split
  · rw [getElem?_eq_none (by omega)]
    rfl
  · next hlt =>
    rcases exists_run h.ordered (by rw [h.zero]; exact Nat.zero_le loc) (not_le.mp hlt) 0 with
      ⟨front, start, elem, back, hitems, hstart, hfind, hcopy⟩
    rw [h.zero, Nat.sub_zero] at hcopy
    rw [hfind, hcopy, hitems]
    by_cases heq : start = loc
    · simp [heq]
    · simp [heq, u64Sub, hstart]

/-!
# Removal
-/

/-- The number of positions below `n` that are kept. -/
def kept (indexes : List Nat) (n : Nat) : Nat := (range n).countP (· ∉ indexes)

/-- The cursor behind the indexes below `n`. -/
def cursor (indexes : List Nat) (n : Nat) : Nat := (indexes.takeWhile (· < n)).length

theorem kept_succ (n : Nat) :
    kept indexes (n + 1) = kept indexes n + if n ∈ indexes then 0 else 1 := by
  simp [kept, range_succ, countP_append, countP_singleton]

theorem kept_mono (indexes : List Nat) {m n : Nat} (h : m ≤ n) : kept indexes m ≤ kept indexes n :=
  (range_sublist.mpr h).countP_le

theorem cursor_add_kept (h : indexes.Pairwise (· < ·)) (n : Nat) :
    cursor indexes n + kept indexes n = n := by
  have htaken : indexes.takeWhile (· < n) = indexes.filter (· < n) := by
    induction indexes with
    | nil => rfl
    | cons first rest ih =>
      rw [pairwise_cons] at h
      by_cases hfirst : first < n
      · simp [hfirst, ih h.2]
      · have hrest : forall i, i ∈ rest -> n ≤ i := by
          intro i hi
          have hlt := h.1 i hi
          omega
        simpa [hfirst] using hrest
  have hperm : (indexes.filter (· < n)).Perm ((range n).filter (· ∈ indexes)) := by
    rw [perm_ext_iff_of_nodup ((h.imp ne_of_lt).filter _) (nodup_range.filter _)]
    simp [and_comm]
  have hsplit := length_eq_countP_add_countP (· ∈ indexes) (l := range n)
  rw [length_range, countP_eq_length_filter, ← hperm.length_eq, ← htaken] at hsplit
  simpa [kept, cursor] using hsplit.symm

theorem cursor_mono {m n : Nat} (h : m ≤ n) : cursor indexes m ≤ cursor indexes n := by
  unfold cursor
  induction indexes with
  | nil => exact le_refl _
  | cons first rest ih =>
    by_cases hfirst : first < m
    · simpa [hfirst, lt_of_lt_of_le hfirst h] using ih
    · simp [hfirst]

theorem cursor_advance {k n : Nat} (h : k ≤ cursor indexes n) :
    k + ((indexes.drop k).takeWhile (· < n)).length = cursor indexes n := by
  unfold cursor at *
  induction indexes generalizing k with
  | nil => simpa using h
  | cons first rest ih =>
    by_cases hfirst : first < n
    · cases k with
      | zero => simp
      | succ k =>
        have hrest := ih (by simpa [hfirst] using h)
        simp [hfirst]
        omega
    · have hzero : k = 0 := by simpa [hfirst] using h
      subst hzero
      simp

theorem kept_eq_self (hsorted : indexes.Pairwise (· < ·)) {n : Nat}
    (h : forall i, i ∈ indexes -> n ≤ i) : cursor indexes n = 0 ∧ kept indexes n = n := by
  have hsum := cursor_add_kept hsorted n
  have hzero : cursor indexes n = 0 := by
    cases indexes with
    | nil => rfl
    | cons first => simp [cursor, h first mem_cons_self]
  omega

/-- The runs with their new starts, without those that became empty. -/
def renumber (indexes : List Nat) (len : Nat) : List (Nat × item) -> List (Nat × item)
  | [] => []
  | (start, elem) :: rest =>
    if kept indexes start < kept indexes (next len rest) then
      (kept indexes start, elem) :: renumber indexes len rest
    else renumber indexes len rest

theorem next_renumber (h : Ordered len items) :
    next (kept indexes len) (renumber indexes len items) = kept indexes (next len items) := by
  induction items with
  | nil => rfl
  | cons run rest ih =>
    have hle := kept_mono indexes (le_of_lt h.1)
    rw [renumber]
    split
    · rfl
    · rw [ih h.2]
      change _ = kept indexes run.1
      omega

theorem ordered_renumber (h : Ordered len items) :
    Ordered (kept indexes len) (renumber indexes len items) := by
  induction items with
  | nil => trivial
  | cons run rest ih =>
    rw [renumber]
    split
    · next hlt =>
      rw [Ordered, next_renumber h.2]
      exact ⟨hlt, ih h.2⟩
    · exact ih h.2

theorem removeLoop_eq (hsorted : indexes.Pairwise (· < ·)) (h : Ordered len items) :
    removeLoop len indexes items (cursor indexes (next len items)) =
      .ok (renumber indexes len items, cursor indexes len) := by
  have hsum := cursor_add_kept hsorted
  induction items with
  | nil => rfl
  | cons run rest ih =>
    -- A start minus the removals so far is the number of positions kept below it.
    have hstart := hsum run.1
    have hnext := hsum (next len rest)
    have hle := kept_mono indexes (le_of_lt h.1)
    have hnewStart : run.1 - cursor indexes run.1 = kept indexes run.1 := by omega
    have hnewNext : next len rest - cursor indexes (next len rest) =
      kept indexes (next len rest) := by omega
    change removeLoop len indexes (run :: rest) (cursor indexes run.1) = _
    rw [removeLoop, u64Sub_eq_ok (by omega), ok_bind, hnewStart]
    dsimp only
    rw [cursor_advance (cursor_mono (le_of_lt h.1)), u64Sub_eq_ok (by omega), ok_bind,
      hnewNext, if_pos hle, ih h.2]
    rfl

/-- Nothing changes below the indexes. -/
theorem renumber_append (hsorted : indexes.Pairwise (· < ·)) (h : Ordered len (front ++ back))
    (hback : forall i, i ∈ indexes -> next len back ≤ i) :
    renumber indexes len (front ++ back) = front ++ renumber indexes len back := by
  induction front with
  | nil => rfl
  | cons run front ih =>
    have hlen := length_expand (ordered_append.mp h.2).1
    have hlt : run.1 < next len (front ++ back) := h.1
    rw [next_append] at hlt
    have hsame {n : Nat} (hn : n ≤ next len back) : kept indexes n = n :=
      (kept_eq_self hsorted fun i hi => le_trans hn (hback i hi)).2
    rw [cons_append, renumber, next_append, hsame (by omega), hsame (by omega), if_pos hlt, ih h.2]
    rfl

theorem removeAllImpl_eq {self : RepeatVec item} (h : self.Valid)
    (hsorted : indexes.Pairwise (· < ·)) : self.removeAllImpl indexes =
      .ok { items := renumber indexes self.len self.items, len := kept indexes self.len } := by
  have hsame (hlen : forall i, i ∈ indexes -> self.len ≤ i) :
    self = { items := renumber indexes self.len self.items, len := kept indexes self.len } := by
    have hitems := @renumber_append _ self.len self.items [] indexes hsorted
      (by simpa using h.ordered) hlen
    rw [append_nil] at hitems
    rw [hitems, (kept_eq_self hsorted hlen).2, renumber, append_nil]
  unfold removeAllImpl
  cases indexes with
  | nil => exact congrArg Outcome.ok (hsame nofun)
  | cons first others =>
    have hfirst : forall i, i ∈ first :: others -> first ≤ i := by
      intro i hi
      rcases mem_cons.mp hi with rfl | hi
      · exact le_refl i
      · exact le_of_lt ((pairwise_cons.mp hsorted).1 i hi)
    dsimp only
    split
    · next hle => exact congrArg Outcome.ok (hsame fun i hi => le_trans hle (hfirst i hi))
    · next hlt =>
      rcases exists_run h.ordered (by rw [h.zero]; exact Nat.zero_le first) (not_le.mp hlt) 0 with
        ⟨front, start, elem, back, hitems, hstart, hfind, _⟩
      have hordered := h.ordered
      rw [hitems] at hordered
      have hback : forall i, i ∈ first :: others -> start ≤ i :=
        fun i hi => le_trans hstart (hfirst i hi)
      have hlen := cursor_add_kept hsorted self.len
      have hloop := removeLoop_eq hsorted (ordered_append.mp hordered).2
      rw [show cursor _ (next _ _) = 0 from (kept_eq_self hsorted hback).1] at hloop
      have hidx : self.runAt first = .ok front.length := by
        rw [runAt, hfind]
        by_cases heq : start = first <;> simp [heq, u64Sub]
      rw [hidx, ok_bind, hitems, drop_left, hloop, ok_bind, u64Sub_eq_ok (by dsimp only; omega),
        ok_bind, take_left, renumber_append hsorted hordered hback]
      simp only [pure_eq, Outcome.ok.injEq, mk.injEq, true_and]
      omega

theorem filter_replicate (size start : Nat) (elem : item) :
    (((replicate size elem).zipIdx start).filter (·.2 ∉ indexes)).map Prod.fst =
      replicate (kept indexes (start + size) - kept indexes start) elem := by
  induction size with
  | zero => simp
  | succ size ih =>
    have hle := kept_mono indexes (Nat.le_add_right start size)
    rw [replicate_succ', zipIdx_append, filter_append, map_append, ih, ← Nat.add_assoc, kept_succ,
      length_replicate]
    by_cases hmem : start + size ∈ indexes
    · simp [hmem]
    · simp [hmem, Nat.sub_add_comm hle, replicate_succ']

theorem expand_renumber (h : Ordered len items) :
    expand (kept indexes len) (renumber indexes len items) =
      (((expand len items).zipIdx (next len items)).filter (·.2 ∉ indexes)).map Prod.fst := by
  induction items with
  | nil => rfl
  | cons run rest ih =>
    have hlt := h.1
    have hle := kept_mono indexes (le_of_lt hlt)
    change _ = (((expand len (run :: rest)).zipIdx run.1).filter (·.2 ∉ indexes)).map Prod.fst
    rw [expand, zipIdx_append, filter_append, map_append, filter_replicate, length_replicate,
      Nat.add_sub_cancel' (le_of_lt hlt), ← ih h.2, renumber]
    split
    · rw [expand, next_renumber h.2]
    · rw [Nat.sub_eq_zero_of_le (by omega)]
      rfl

/-!
# Runs of calls
-/

def toList (self : RepeatVec item) : List item := expand self.len self.items

/-- A call does to the vector what it does to the list. -/
theorem step_refines {self : RepeatVec item} (h : self.Valid) (call : Call item) :
    (listStep self.toList call = .panic ∧ self.step call = .panic) ∨
      exists vec, self.step call = .ok vec ∧ vec.Valid ∧
        listStep self.toList call = .ok vec.toList := by
  have hlen := length_expand h.ordered
  have hfits := h.fits
  rw [h.zero, Nat.zero_add] at hlen
  cases call with
  | extend elem size =>
    simp only [listStep, step, extend, toList, hlen, u64Add]
    by_cases hsize : 0 < size
    · by_cases hadd : self.len + size < u64Bound
      · right
        refine ⟨{ items := self.items ++ [(self.len, elem)], len := self.len + size }, ?_, ?_, ?_⟩
        · simp [hsize, hadd]
        · refine ⟨?_, ordered_append.mpr ⟨h.ordered, ?_⟩, hadd⟩
          · rw [next_append]
            exact h.zero
          · exact ⟨Nat.lt_add_of_pos_right hsize, trivial⟩
        · simp only [hadd, if_true, ok_bind, pure_eq, expand_append]
          simp [expand, next]
      · left
        simp [hsize, hadd]
    · right
      have hzero : size = 0 := by omega
      exact ⟨self, by simp [hsize], h, by simp [hzero, hfits]⟩
  | removeAll removed =>
    right
    have hle : (removed.mergeSort fun a b => a ≤ b).Pairwise (· ≤ ·) :=
      (@pairwise_mergeSort _ (fun a b : Nat => a ≤ b) (by grind) (by grind) removed).imp (by simp)
    have hdedup := hle.destutter_eq_dedup
    have hsorted : ((removed.mergeSort fun a b => a ≤ b).destutter (· ≠ ·)).Pairwise (· < ·) := by
      rw [hdedup]
      exact ((hle.sublist (dedup_sublist _)).and (nodup_dedup _)).imp fun h =>
        lt_of_le_of_ne h.1 h.2
    refine ⟨_, removeAllImpl_eq h hsorted, ⟨?_, ordered_renumber h.ordered, ?_⟩, ?_⟩
    · dsimp only
      rw [next_renumber h.ordered, h.zero]
      rfl
    · have := cursor_add_kept hsorted self.len
      dsimp only
      omega
    · rw [listStep, toList, toList, expand_renumber h.ordered, h.zero, hdedup]
      simp

/-- Calls with any sizes and indexes: the vector panics only where the length of the list does not
fit, and otherwise has its items at its positions, with the copies before them in the run. -/
theorem refines_list (calls : List (Call item)) :
    (tryFold listStep [] calls = .panic ∧ tryFold step new calls = .panic) ∨
      exists vec, tryFold step new calls = .ok vec ∧ tryFold listStep [] calls = .ok vec.toList ∧
        vec.Valid ∧ (forall i, vec.get i = .ok (copies vec.len vec.items)[i]? ∧
          (vec.get i = .ok none <-> vec.len ≤ i)) ∧
        (copies vec.len vec.items).map Prod.fst = vec.toList := by
  have hrun : forall self : RepeatVec item, self.Valid ->
    (tryFold listStep self.toList calls = .panic ∧ tryFold step self calls = .panic) ∨
      exists vec, tryFold step self calls = .ok vec ∧ vec.Valid ∧
        tryFold listStep self.toList calls = .ok vec.toList := by
    induction calls with
    | nil => exact fun self h => .inr ⟨self, rfl, h, rfl⟩
    | cons call calls ih =>
      intro self h
      rw [tryFold, tryFold]
      rcases step_refines h call with ⟨hlist, hstep⟩ | ⟨vec, hstep, hvec, hlist⟩
      · exact .inl (by rw [hlist, hstep]; exact ⟨rfl, rfl⟩)
      · rw [hlist, hstep]
        exact ih vec hvec
  rcases hrun new ⟨rfl, trivial, Nat.two_pow_pos 64⟩ with hpanic | ⟨vec, hstep, hvec, hlist⟩
  · exact .inl hpanic
  · refine .inr ⟨vec, hstep, hlist, hvec, fun i => ⟨get_eq hvec i, ?_⟩, map_fst_copies⟩
    rw [get_eq hvec, Outcome.ok.injEq, getElem?_eq_none_iff, length_copies hvec]

theorem extend_overflows :
    tryFold step new [.extend () (u64Bound - 1), .extend () 1] = .panic := by
  simp [tryFold, step, extend, u64Add, new, u64Bound]

end RepeatVec

end OpenLibra.Rust
