import Mathlib.Data.List.Induction
import OpenLibra.Move.Vector

/-!
# Loops of the vector module

The loops over `swap`, `push_back` and `pop_back` are compared with functions on lists.
Closures may abort and change captured variables.
-/

namespace OpenLibra.MoveStd.Vectors

open Rust Move List

variable {element result state : Type}

/-- A computation that may abort and may change captured variables. -/
abbrev Closure (state result : Type) := StateT state MoveResult result

variable (v : List element)

def swap (i j : Nat) : MoveResult (List element) :=
  match v[i]?, v[j]? with
  | some a, some b => .ok ((v.set i b).set j a)
  | _, _ => .err Move.Vector.operationError

def popBack : MoveResult (element × List element) :=
  match v.getLast? with
  | some last => .ok (last, v.dropLast)
  | none => .err Move.Vector.operationError

def isEmpty : Bool := v.length == 0

def reverseLoop (v : List element) (frontIndex backIndex : Nat) : MoveResult (List element) :=
  if frontIndex < backIndex then do
    let v <- swap v frontIndex backIndex
    reverseLoop v (frontIndex + 1) (backIndex - 1)
  else return v
termination_by backIndex - frontIndex

def reverse : MoveResult (List element) :=
  if v.length = 0 then return v else reverseLoop v 0 (v.length - 1)

/-- `while (!is_empty(&v)) f(pop_back(&mut v))`. -/
def consume (f : element -> state -> MoveResult state) (v : List element) (s : state) :
    MoveResult state :=
  if h : v ≠ [] then do
    let s <- f (v.getLast h) s
    consume f v.dropLast s
  else return s
termination_by v.length
decreasing_by
  have hpos := length_pos_iff.mpr h
  rw [length_dropLast]
  omega

def append (lhs other : List element) : MoveResult (List element) := do
  consume (fun e lhs => return lhs ++ [e]) (<- reverse other) lhs

/-- The loop of `contains` and `index_of`. -/
def findFrom [DecidableEq element] (v : List element) (e : element) (i : Nat) : Option Nat :=
  if h : i < v.length then if v[i] = e then some i else findFrom v e (i + 1) else none
termination_by v.length - i

def contains [DecidableEq element] (v : List element) (e : element) : Bool :=
  (findFrom v e 0).isSome

def indexOf [DecidableEq element] (v : List element) (e : element) : Bool × Nat :=
  match findFrom v e 0 with
  | some i => (true, i)
  | none => (false, 0)

def removeLoop (v : List element) (i last : Nat) : MoveResult (List element) :=
  if i < last then do
    let v <- swap v i (i + 1)
    removeLoop v (i + 1) last
  else return v
termination_by last - i

def remove (i : Nat) : MoveResult (element × List element) := do
  ensure (i < v.length) (.code Move.Vector.eIndexOutOfBounds)
  popBack (<- removeLoop v i (v.length - 1))

def swapRemove (i : Nat) : MoveResult (element × List element) := do
  ensure (isEmpty v = false) (.code Move.Vector.eIndexOutOfBounds)
  popBack (<- swap v i (v.length - 1))

def forEach (f : element -> state -> MoveResult state) (s : state) : MoveResult state := do
  consume f (<- reverse v) s

def fold (init : result) (f : result -> element -> Closure state result) :
    Closure state result := fun s => forEach v (fun e accu => f accu.fst e accu.snd) (init, s)

def pushMapped (f : element -> Closure state result) (e : element) (vars : List result × state) :
    MoveResult (List result × state) := do
  let mapped <- f e vars.snd
  return (vars.fst ++ [mapped.fst], mapped.snd)

def map (f : element -> Closure state result) : Closure state (List result) :=
  fun s => forEach v (pushMapped f) ([], s)

variable (p : element -> Closure state Bool)

def pushKept (e : element) (vars : List element × state) : MoveResult (List element × state) := do
  let kept <- p e vars.snd
  return (if kept.fst then vars.fst ++ [e] else vars.fst, kept.snd)

def filter : Closure state (List element) :=
  fun s => forEach v (pushKept p) ([], s)

/-- The loop of `any` and `all`, which ends at the first answer `stop`. -/
def search (stop : Bool) (v : List element) (p : element -> Closure state Bool) (i : Nat)
    (answer : Bool) : Closure state Bool :=
  if h : i < v.length then do
    let answer <- p v[i]
    if answer = stop then return answer else search stop v p (i + 1) answer
  else return answer
termination_by v.length - i

def any : Closure state Bool :=
  search true v p 0 false

def all : Closure state Bool :=
  search false v p 0 true

/-!
# Order of the elements
-/

variable {v : List element} {i j : Nat}

theorem exists_swap (hi : i < v.length) (hj : j < v.length) :
    exists next, swap v i j = .ok next ∧ next.length = v.length ∧
      forall k, next[k]? = if k = j then v[i]? else if k = i then v[j]? else v[k]? := by
  refine ⟨(v.set i v[j]).set j v[i], by simp [swap, hi, hj], by simp, fun k => ?_⟩
  grind

/-- The elements between the two indices are still to be reversed. -/
theorem exists_reverseLoop {front back : Nat} (h : front + back + 1 = v.length) :
    exists reversed, reverseLoop v front back = .ok reversed ∧ forall k, reversed[k]? =
      if front ≤ k ∧ k ≤ back then v[front + back - k]? else v[k]? := by
  fun_induction reverseLoop v front back with
  | case1 v front back hlt ih =>
    have hfront : front < v.length := by omega
    have hback : back < v.length := by omega
    rcases exists_swap hfront hback with ⟨next, hswap, hlen, hnext⟩
    rcases ih next (by omega) with ⟨reversed, hrest, hreversed⟩
    rw [hswap, ok_bind]
    refine ⟨reversed, hrest, fun k => ?_⟩
    rw [hreversed, hnext, hnext, show front + 1 + (back - 1) = front + back by omega]
    grind
  | case2 v front back hle =>
    refine ⟨v, rfl, fun k => ?_⟩
    grind

theorem reverse_eq (v : List element) : reverse v = .ok v.reverse := by
  unfold reverse
  split
  · rename_i hempty
    rw [length_eq_zero_iff.mp hempty]
    rfl
  · rcases exists_reverseLoop (v := v) (show 0 + (v.length - 1) + 1 = v.length by omega)
      with ⟨reversed, hloop, hreversed⟩
    rw [hloop]
    congr 1
    apply ext_getElem?
    intro k
    grind

theorem consume_eq (f : element -> state -> MoveResult state) (v : List element) (s : state) :
    consume f v s = tryFold (fun s e => f e s) s v.reverse := by
  induction v using List.reverseRecOn generalizing s with
  | nil => simp [consume, tryFold]
  | append_singleton v e ih =>
    rw [consume, dif_pos (by simp), reverse_append, reverse_singleton]
    simp [tryFold, ih]

theorem forEach_eq (v : List element) (f : element -> state -> MoveResult state) (s : state) :
    forEach v f s = tryFold (fun s e => f e s) s v := by
  rw [forEach, reverse_eq, ok_bind, consume_eq, reverse_reverse]

theorem append_eq (lhs other : List element) : append lhs other = .ok (lhs ++ other) := by
  rw [append, reverse_eq, ok_bind, consume_eq, reverse_reverse]
  induction other generalizing lhs with
  | nil => simp [tryFold]
  | cons e other ih => simpa [tryFold] using ih (lhs ++ [e])

theorem popBack_append (v : List element) (e : element) : popBack (v ++ [e]) = .ok (e, v) := by
  simp [popBack]

/-- The loop carries the removed element to the end. -/
theorem removeLoop_eq {last : Nat} {found : element} (hlast : last + 1 = v.length)
    (hi : i ≤ last) (hfound : v[i]? = some found) :
    removeLoop v i last = .ok (v.eraseIdx i ++ [found]) := by
  fun_induction removeLoop v i last with
  | case1 v i hlt ih =>
    have hfirst : i < v.length := by omega
    have hsnd : i + 1 < v.length := by omega
    rcases exists_swap hfirst hsnd with ⟨next, hswap, hlen, hnext⟩
    rw [hswap, ok_bind, ih next (by omega) hlt (by rw [hnext, if_pos rfl, hfound])]
    congr 2
    apply ext_getElem?
    intro k
    rw [List.getElem?_eraseIdx, List.getElem?_eraseIdx, hnext, hnext]
    grind
  | case2 v i hle =>
    have hend : i = last := by omega
    subst hend
    congr 1
    apply ext_getElem?
    intro k
    grind

theorem remove_eq (v : List element) (i : Nat) : remove v i = Move.Vector.remove v i := by
  unfold remove
  cases hfound : v[i]? with
  | none =>
    have hge := List.getElem?_eq_none_iff.mp hfound
    simp [Move.Vector.remove, ensure, not_lt.mpr hge]
  | some found =>
    have hlt := (List.getElem?_eq_some_iff.mp hfound).choose
    have hloop : removeLoop v i (v.length - 1) = .ok (v.eraseIdx i ++ [found]) :=
      removeLoop_eq (by omega) (by omega) hfound
    simp [Move.Vector.remove_eq_ok hfound, ensure, hlt, hloop, popBack_append]

theorem swapRemove_eq (v : List element) (i : Nat) :
    swapRemove v i = Move.Vector.swapRemove v i := by
  rcases eq_nil_or_concat v with rfl | ⟨front, last, hv⟩
  · rfl
  · rw [concat_eq_append] at hv
    subst hv
    have hlast : (front ++ [last])[front.length]? = some last := by simp
    cases hfound : (front ++ [last])[i]? with
    | none => simp [swapRemove, Move.Vector.swapRemove, isEmpty, ensure, swap, hfound]
    | some found =>
      have hset : ((front ++ [last]).set i last).set front.length found =
        ((front ++ [last]).set i last).dropLast ++ [found] := by
        apply ext_getElem?
        intro k
        grind
      simp [swapRemove, Move.Vector.swapRemove, isEmpty, ensure, swap, hfound, hset, popBack_append]

/-!
# Searches
-/

theorem findFrom_eq [DecidableEq element] (e : element) :
    findFrom v e i = ((v.drop i).findIdx? fun found => found = e).map (· + i) := by
  fun_induction findFrom v e i with
  | case1 i h hfound => simp [drop_eq_getElem_cons h, List.findIdx?_cons, hfound]
  | case2 i h hne ih =>
    rw [ih, drop_eq_getElem_cons h, List.findIdx?_cons]
    simp [hne, Function.comp_def, add_assoc, add_comm 1]
  | case3 i h => simp [drop_eq_nil_of_le (Nat.le_of_not_lt h)]

theorem contains_eq [DecidableEq element] (v : List element) (e : element) :
    contains v e = Move.Vector.contains v e := by
  rw [contains, findFrom_eq, Move.Vector.contains, Bool.eq_iff_iff]
  simp [List.findIdx?_isSome]

theorem indexOf_eq [DecidableEq element] (v : List element) (e : element) :
    indexOf v e = Move.Vector.indexOf v e := by
  rw [indexOf, findFrom_eq, Move.Vector.indexOf, drop_zero]
  cases v.findIdx? fun found => found = e <;> rfl

theorem search_eq (stop : Bool) (v : List element) (p : element -> Closure state Bool) (i : Nat) :
    search stop v p i (!stop) =
      match stop with
        | true => (v.drop i).anyM p
        | false => (v.drop i).allM p := by
  induction hleft : v.length - i generalizing i with
  | zero =>
    rw [search, dif_neg (by omega), drop_eq_nil_of_le (by omega)]
    cases stop <;> rfl
  | succ left ih =>
    have hi : i < v.length := by omega
    have hnext := ih (i + 1) (by omega)
    rw [search, dif_pos hi, drop_eq_getElem_cons hi]
    cases stop with
    | true =>
      rw [List.anyM]
      congr 1
      funext answer
      cases answer with
      | true => rfl
      | false => exact hnext
    | false =>
      rw [List.allM]
      congr 1
      funext answer
      cases answer with
      | true => exact hnext
      | false => rfl

/-!
# Closures

`mapM` and `filterM` collect in reverse order.
-/

theorem tryFold_accumulator (f : result -> element -> Closure state result) (v : List element)
    (accu : result) (s : state) :
    tryFold (fun accu e => f accu.fst e accu.snd) (accu, s) v = v.foldlM f accu s := by
  induction v generalizing accu s with
  | nil => rfl
  | cons e v ih =>
    rw [tryFold, foldlM_cons]
    change _ = f accu e s >>= fun next => v.foldlM f next.fst next.snd
    cases f accu e s with
    | ok next => exact ih next.fst next.snd
    | err | panic => rfl

theorem tryFold_pushMapped (f : element -> Closure state result) (v : List element)
    (done : List result) (s : state) :
    tryFold (fun vars e => pushMapped f e vars) (done.reverse, s) v =
      List.mapM.loop f v done s := by
  induction v generalizing done s with
  | nil => rfl
  | cons e v ih =>
    rw [tryFold, pushMapped, List.mapM.loop]
    change _ = f e s >>= fun mapped => List.mapM.loop f v (mapped.fst :: done) mapped.snd
    cases f e s with
    | ok mapped => simp [← ih]
    | err | panic => rfl

theorem tryFold_pushKept (p : element -> Closure state Bool) (v done : List element) (s : state) :
    tryFold (fun vars e => pushKept p e vars) (done.reverse, s) v = (do
        let kept <- List.filterAuxM p v done s
        return (kept.fst.reverse, kept.snd)) := by
  induction v generalizing done s with
  | nil => rfl
  | cons e v ih =>
    rw [tryFold, pushKept, List.filterAuxM]
    change _ = (p e s >>= fun kept => List.filterAuxM p v (cond kept.fst (e :: done) done) kept.snd)
      >>= _
    cases p e s with
    | ok kept =>
      rcases kept with ⟨keep, s⟩
      cases keep with
      | true => simpa using ih (e :: done) s
      | false => simpa using ih done s
    | err | panic => rfl

/-- The loops compute the functions on lists, and only the removals abort: for an index that is
out of bounds. -/
theorem vector_functions_exact [DecidableEq element] (v other : List element) (e : element)
    (i : Nat) (init : result) (step : element -> state -> MoveResult state)
    (combine : result -> element -> Closure state result) (f : element -> Closure state result)
    (p : element -> Closure state Bool) (s : state) :
    reverse v = .ok v.reverse ∧ append v other = .ok (v ++ other) ∧ isEmpty v = v.isEmpty ∧
    contains v e = Move.Vector.contains v e ∧ indexOf v e = Move.Vector.indexOf v e ∧
    remove v i = Move.Vector.remove v i ∧ swapRemove v i = Move.Vector.swapRemove v i ∧
    forEach v step s = tryFold (fun s e => step e s) s v ∧
    fold v init combine s = v.foldlM combine init s ∧
    map v f = v.mapM f ∧ filter v p = v.filterM p ∧ any v p = v.anyM p ∧ all v p = v.allM p := by
  have hfilter : filter v p = v.filterM p := by
    funext s
    exact (forEach_eq v (pushKept p) ([], s)).trans (tryFold_pushKept p v [] s)
  have hmap : map v f = v.mapM f := by
    funext s
    exact (forEach_eq v (pushMapped f) ([], s)).trans (tryFold_pushMapped f v [] s)
  refine ⟨reverse_eq v, append_eq v other, ?_, contains_eq v e, indexOf_eq v e, remove_eq v i,
    swapRemove_eq v i, forEach_eq v step s, ?_, hmap, hfilter, search_eq true v p 0,
    search_eq false v p 0⟩
  · cases v <;> rfl
  · exact (forEach_eq ..).trans (tryFold_accumulator combine v init s)

end OpenLibra.MoveStd.Vectors
