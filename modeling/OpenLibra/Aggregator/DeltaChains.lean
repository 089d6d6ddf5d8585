import OpenLibra.Aggregator.DeltaOp

/-!
# Chains of deltas

Deltas are applied one after another, the oldest first.
-/

namespace OpenLibra.Aggregation
namespace DeltaOp

open Rust

variable (deltas : List DeltaOp)

def applyAll (base : U128) : PartialVMResult U128 :=
  tryFold (fun value delta => delta.applyTo value) base deltas

@[simp] theorem applyAll_nil (base : U128) : applyAll [] base = .ok base := rfl

theorem applyAll_cons (delta : DeltaOp) (deltas : List DeltaOp) (base : U128) :
    applyAll (delta :: deltas) base = (delta.applyTo base >>= applyAll deltas) := rfl

theorem applyAll_singleton (delta : DeltaOp) (base : U128) :
    applyAll [delta] base = delta.applyTo base := by
  rw [applyAll_cons]
  cases delta.applyTo base <;> rfl

theorem applyAll_concat (delta : DeltaOp) (base : U128) :
    applyAll (deltas ++ [delta]) base = (applyAll deltas base >>= delta.applyTo) := by
  induction deltas generalizing base with
  | nil =>
    rw [List.nil_append, applyAll_singleton]
    rfl
  | cons first deltas ih =>
    rw [List.cons_append, applyAll_cons, applyAll_cons]
    cases first.applyTo base with
    | ok value => exact ih value
    | err | panic => rfl

theorem applyAll_ne_panic (base : U128) : applyAll deltas base ≠ .panic := by
  induction deltas generalizing base with
  | nil => simp
  | cons delta deltas ih =>
    intro h
    rcases bind_eq_panic_iff.mp h with h | ⟨value, _, h⟩
    · exact applyTo_ne_panic delta base h
    · exact ih value h

theorem applyAll_fails_iff {deltas} {base : U128} : (exists e, applyAll deltas base = .err e) <->
    forall r, applyAll deltas base ≠ .ok r := by
  constructor
  · rintro ⟨_, he⟩ _ hr
    rw [he] at hr
    cases hr
  · intro h
    exact exists_err_of_ne (applyAll_ne_panic deltas base) h

/-!
# Merged chains
-/

def Within (limit : U128) (delta : DeltaOp) : Prop := delta.WellFormed ∧ delta.limit = limit

def Composes (limit : U128) (deltas : List DeltaOp) : Option DeltaOp -> Prop
  | some merged => merged.Within limit ∧ forall base r, merged.applyTo base = .ok r <->
        applyAll deltas base = .ok r
  | none => forall base r, applyAll deltas base ≠ .ok r

variable {limit : U128} {deltas : List DeltaOp} {delta merged : DeltaOp}

theorem composes_singleton (h : delta.Within limit) : Composes limit [delta] (some delta) := by
  refine ⟨h, ?_⟩
  intro _ _
  rw [applyAll_singleton]

theorem composes_cons_none (h : Composes limit deltas none) :
    Composes limit (delta :: deltas) none := by
  intro _ r hr
  rcases of_bind hr with ⟨value, _, hval⟩
  exact h value r hval

theorem composes_mergeOnto (h : Composes limit deltas (some merged)) (hdel : delta.Within limit)
    {result : DeltaOp} (hmerge : merged.mergeOnto delta = .ok result) :
    Composes limit (delta :: deltas) (some result) := by
  rcases h with ⟨⟨hwf, hlim⟩, hsame⟩
  refine ⟨⟨mergeOnto_wellFormed hdel.1 hwf hmerge, ?_⟩, ?_⟩
  · exact (mergeOnto_ok hmerge).1.trans hlim
  · intro _ _
    have hlimits := hdel.2.trans hlim.symm
    rw [mergeOnto_applyTo_iff hdel.1 hwf hlimits hmerge, applyAll_cons, bind_eq_ok_iff]
    simp only [hsame]

theorem composes_mergeOnto_fails (h : Composes limit deltas (some merged))
    (hdel : delta.Within limit) (hmerge : forall result, merged.mergeOnto delta ≠ .ok result) :
    Composes limit (delta :: deltas) none := by
  rcases h with ⟨⟨hwf, hlim⟩, hsame⟩
  intro base r hr
  rcases of_bind hr with ⟨value, hval, hrest⟩
  have hfails := mergeOnto_fails hwf hmerge
  have hfirst := (applyTo_eq_ok_iff hdel.1).mp hval
  have hsnd := (applyTo_eq_ok_iff hwf).mp ((hsame value r).mpr hrest)
  rw [hdel.2] at hfirst
  rw [hlim] at hfails hsnd
  omega

theorem exists_mergeOnto {next : DeltaOp} (hdel : delta.Within limit) (hnext : next.Within limit)
    {base value r : U128} (hval : delta.applyTo base = .ok value)
    (hr : next.applyTo value = .ok r) :
    exists result, next.mergeOnto delta = .ok result ∧ result.applyTo base = .ok r := by
  have hboth : applyAll [delta, next] base = .ok r := by
    rw [applyAll_cons, hval, ok_bind, applyAll_singleton, hr]
  have hsingle := composes_singleton hnext
  by_cases hmerge : exists result, next.mergeOnto delta = .ok result
  · rcases hmerge with ⟨result, hmerge⟩
    have hcomposes := composes_mergeOnto hsingle hdel hmerge
    exact ⟨result, hmerge, (hcomposes.2 base r).mpr hboth⟩
  · rw [not_exists] at hmerge
    exact absurd hboth (composes_mergeOnto_fails hsingle hdel hmerge base r)

end DeltaOp
end OpenLibra.Aggregation
