import OpenLibra.Packages.Registry

/-!
# Invariants of the package registry

Upgrades keep names and never weaken a policy, so what was checked when a package was published
stays true.
-/

namespace OpenLibra.Packages

open Move List Function

/-!
# Calls one after another
-/

/-- Calls of `publish_package`.  Between them, the request is taken by the VM or
dropped with the session. -/
inductive Operation where
  | publishPackage (dependencyCheck : Bool) (owner : Address)
      (pack : PackageMetadata) (code : List (List UInt8))
  | takeRequest

namespace CodeStorage

variable (s : CodeStorage)

def step : Operation -> MoveResult CodeStorage
  | .publishPackage dependencyCheck owner pack code =>
    s.publishPackage dependencyCheck owner pack code
  | .takeRequest => .ok s.withoutRequest

def attempt (op : Operation) : CodeStorage :=
  match s.step op with
  | .ok s' => s'
  | _ => s

def run (ops : List Operation) : CodeStorage := ops.foldl attempt s

def published (op : Operation) : List (Address × String) :=
  match op, s.step op with
  | .publishPackage _ owner pack _, .ok _ => [(owner, pack.name)]
  | _, _ => []

def publications : CodeStorage -> List Operation -> List (Address × String)
  | _, [] => []
  | s, op :: ops => s.published op ++ (s.attempt op).publications ops

end CodeStorage

/-!
# Invariants
-/

structure Consistent (packagesAt : Address -> List PackageMetadata) : Prop where
  coexist : forall addr, (packagesAt addr).Pairwise Coexist
  satisfied : forall addr pack, pack ∈ packagesAt addr ->
    forall dep, dep ∈ pack.deps -> Satisfied packagesAt pack dep

/-- How a package may have changed after so many replacements. -/
structure Grown (pack pack' : PackageMetadata) (replacements : Nat) : Prop where
  name : pack'.name = pack.name
  modules : pack.getModuleNames ⊆ pack'.getModuleNames
  policy : pack.upgradePolicy.policy.toNat ≤ pack'.upgradePolicy.policy.toNat
  number : pack'.upgradeNumber.toNat = pack.upgradeNumber.toNat + replacements
  unchanged : replacements = 0 -> pack' = pack
  immutable : upgradePolicyImmutable.policy.toNat ≤
    pack.upgradePolicy.policy.toNat -> replacements = 0

structure Counted (history : List (Address × String))
    (packagesAt : Address -> List PackageMetadata) : Prop where
  registered : forall addr pack, pack ∈ packagesAt addr ->
    history.count (addr, pack.name) = pack.upgradeNumber.toNat + 1
  absent : forall addr name, (forall pack, pack ∈ packagesAt addr -> pack.name ≠ name) ->
      history.count (addr, name) = 0

theorem Grown.refl (pack : PackageMetadata) : Grown pack pack 0 where
  name := rfl
  modules := List.Subset.refl _
  policy := le_refl _
  number := rfl
  unchanged := fun _ => rfl
  immutable := fun _ => rfl

theorem Grown.trans {pack pack' pack''} {n m : Nat}
    (h : Grown pack pack' n) (h' : Grown pack' pack'' m) : Grown pack pack'' (n + m) where
  name := h'.name.trans h.name
  modules := List.Subset.trans h.modules h'.modules
  policy := le_trans h.policy h'.policy
  number := by rw [h'.number, h.number, add_assoc]
  unchanged := by
    intro hzero
    rw [h'.unchanged (by omega), h.unchanged (by omega)]
  immutable := by
    intro himmutable
    rw [h.immutable himmutable, h'.immutable (le_trans himmutable h.policy)]

theorem Upgrades.grown {new old} (h : Upgrades new old) : Grown old new 1 where
  name := h.name.symm
  modules := h.modules
  policy := h.policy
  number := h.number
  unchanged := by
    intro hzero
    cases hzero
  immutable := by
    intro himmutable
    exact absurd h.mutable (Nat.not_lt_of_le himmutable)

/-!
# One publication
-/

section

variable {s s' : CodeStorage} {dependencyCheck : Bool} {owner : Address}
  {registered : PackageMetadata} {request : PublishRequest} {addr : Address}

theorem count_eq_zero_of_other {name other : String} (h : addr = owner -> other ≠ name) :
    [(owner, name)].count (addr, other) = 0 := by
  apply count_eq_zero_of_not_mem
  intro hmem
  have hsame := Prod.mk.injEq .. ▸ mem_singleton.mp hmem
  exact h hsame.1 hsame.2

variable {pack : PackageMetadata}

theorem Published.grown (h : Published s dependencyCheck owner registered request s')
    (hpack : pack ∈ s.packagesAt addr) : exists pack', pack' ∈ s'.packagesAt addr ∧ Grown pack pack'
        ([(owner, registered.name)].count (addr, pack.name)) := by
  rcases h.updated with ⟨_, hupdated, hafter⟩
  rw [hafter]
  by_cases haddr : addr = owner
  · subst haddr
    rw [update_self]
    rcases hupdated.kept_or_replaced hpack with ⟨hkept, hcoexist⟩ | hupgrades
    · refine ⟨pack, hkept, ?_⟩
      rw [count_eq_zero_of_other fun _ => hcoexist.1]
      exact Grown.refl pack
    · refine ⟨registered, hupdated.mem, ?_⟩
      rw [hupgrades.name, count_singleton_self]
      exact hupgrades.grown
  · rw [update_of_ne haddr]
    refine ⟨pack, hpack, ?_⟩
    rw [count_eq_zero_of_other fun hsame => absurd hsame haddr]
    exact Grown.refl pack

theorem Published.coexist (h : Published s dependencyCheck owner registered request s')
    (hs : forall addr, (s.packagesAt addr).Pairwise Coexist) (addr : Address) :
    (s'.packagesAt addr).Pairwise Coexist := by
  rcases h.updated with ⟨_, hupdated, hafter⟩
  rw [hafter]
  by_cases haddr : addr = owner
  · subst haddr
    rw [update_self]
    exact hupdated.pairwise (hs addr)
  · rw [update_of_ne haddr]
    exact hs addr

theorem Published.mem_cases (h : Published s dependencyCheck owner registered request s')
    (hpack : pack ∈ s'.packagesAt addr) : addr = owner ∧ pack = registered ∨
      pack ∈ s.packagesAt addr ∧ (addr = owner -> Coexist pack registered) := by
  rcases h.updated with ⟨_, hupdated, hafter⟩
  rw [hafter] at hpack
  by_cases haddr : addr = owner
  · subst haddr
    rw [update_self] at hpack
    rcases hupdated.mem_cases hpack with hnew | ⟨hold, hcoexist⟩
    · exact .inl ⟨rfl, hnew⟩
    · exact .inr ⟨hold, fun _ => hcoexist⟩
  · rw [update_of_ne haddr] at hpack
    exact .inr ⟨hpack, fun hsame => absurd hsame haddr⟩

theorem Published.mem (h : Published s dependencyCheck owner registered request s') :
    registered ∈ s'.packagesAt owner := by
  rcases h.updated with ⟨_, hupdated, hafter⟩
  rw [hafter, update_self]
  exact hupdated.mem

theorem Satisfied.published {dep} (hdep : Satisfied s.packagesAt pack dep)
    (h : Published s dependencyCheck owner registered request s') :
    Satisfied s'.packagesAt pack dep := by
  intro hexempted
  rcases hdep hexempted with ⟨_, hmem, hname, hpolicy⟩
  rcases h.grown hmem with ⟨depPack', hmem', hgrown⟩
  exact ⟨depPack', hmem', hgrown.name.trans hname, le_trans hpolicy hgrown.policy⟩

theorem Consistent.published (hs : Consistent s.packagesAt)
    (h : Published s dependencyCheck owner registered request s') : Consistent s'.packagesAt where
  coexist := h.coexist hs.coexist
  satisfied := by
    intro addr pack hpack dep hdep
    have hbef : Satisfied s.packagesAt pack dep := by
      rcases h.mem_cases hpack with ⟨_, rfl⟩ | ⟨hold, _⟩
      · exact h.satisfied dep hdep
      · exact hs.satisfied addr pack hold dep hdep
    exact hbef.published h

theorem Counted.published {history} (hs : Counted history s.packagesAt)
    (h : Published s dependencyCheck owner registered request s') :
    Counted (history ++ [(owner, registered.name)]) s'.packagesAt := by
  constructor
  · intro addr pack hpack
    rw [count_append]
    rcases h.mem_cases hpack with ⟨rfl, rfl⟩ | ⟨hold, hcoexist⟩
    · rw [count_singleton_self]
      rcases h.updated with ⟨_, hupdated, _⟩
      rcases hupdated.first_or_successor with ⟨hfirst, hall⟩ | ⟨old, hold, hupgrades⟩
      · rw [hs.absent addr pack.name fun p hp => (hall p hp).1, hfirst]
        rfl
      · rw [← hupgrades.name, hs.registered addr old hold, hupgrades.number]
    · rw [hs.registered addr pack hold, count_eq_zero_of_other fun haddr => (hcoexist haddr).1]
  · intro addr name habs
    have hother : addr = owner -> name ≠ registered.name := by
      rintro rfl rfl
      exact habs registered h.mem rfl
    rw [count_append, count_eq_zero_of_other hother, add_zero]
    apply hs.absent
    intro _ hpack
    -- A package of the name would still be there.
    rcases h.grown hpack with ⟨pack', hpack', hgrown⟩
    rw [← hgrown.name]
    exact habs pack' hpack'

end

/-!
# Runs
-/

namespace CodeStorage

variable {s : CodeStorage}

theorem attempt_cases (hs : Consistent s.packagesAt) (op : Operation) :
    (s.published op = [] ∧ (s.attempt op).packagesAt = s.packagesAt) ∨
      exists dependencyCheck owner registered request, s.published op = [(owner, registered.name)] ∧
        Published s dependencyCheck owner registered request (s.attempt op) := by
  unfold published attempt
  cases op with
  | publishPackage dependencyCheck owner pack code =>
    cases hstep : s.step
        (.publishPackage dependencyCheck owner pack code) with
    | ok s' =>
      right
      rcases published_of_publishPackage (hs.coexist owner) hstep with ⟨number, request, hpub⟩
      exact ⟨dependencyCheck, owner, { pack with upgradeNumber := number }, request, rfl, hpub⟩
    | err e => exact .inl ⟨rfl, rfl⟩
    | panic => exact .inl ⟨rfl, rfl⟩
  | takeRequest => exact .inl ⟨rfl, rfl⟩

theorem run_append (ops more : List Operation) : s.run (ops ++ more) = (s.run ops).run more :=
  foldl_append

theorem consistent_run (hs : Consistent s.packagesAt) (ops : List Operation) :
    Consistent (s.run ops).packagesAt := by
  induction ops generalizing s with
  | nil => exact hs
  | cons op ops ih =>
    apply ih
    rcases attempt_cases hs op with ⟨_, hsame⟩ | ⟨_, _, _, _, _, hpub⟩
    · rw [hsame]
      exact hs
    · exact hs.published hpub

theorem counted_run {history} (hs : Consistent s.packagesAt)
    (hcounted : Counted history s.packagesAt) (ops : List Operation) :
    Counted (history ++ s.publications ops) (s.run ops).packagesAt := by
  induction ops generalizing s history with
  | nil =>
    rw [publications, append_nil]
    exact hcounted
  | cons op ops ih =>
    rw [publications, ← append_assoc]
    rcases attempt_cases hs op with ⟨hnone, hsame⟩ | ⟨_, _, _, _, hone, hpub⟩
    · rw [hnone, append_nil]
      rw [← hsame] at hs hcounted
      exact ih hs hcounted
    · rw [hone]
      exact ih (hs.published hpub) (hcounted.published hpub)

theorem grown_run (hs : Consistent s.packagesAt) (ops : List Operation) {addr : Address} {pack}
    (hpack : pack ∈ s.packagesAt addr) : exists pack', pack' ∈ (s.run ops).packagesAt addr ∧
      Grown pack pack' ((s.publications ops).count (addr, pack.name)) := by
  induction ops generalizing s pack with
  | nil => exact ⟨pack, hpack, Grown.refl pack⟩
  | cons op ops ih =>
    rw [publications, count_append]
    rcases attempt_cases hs op with ⟨hnone, hsame⟩ | ⟨_, _, _, _, hone, hpub⟩
    · rw [hnone, count_nil, zero_add]
      rw [← hsame] at hs hpack
      exact ih hs hpack
    · rw [hone]
      rcases hpub.grown hpack with ⟨_, hnext, hgrown⟩
      rcases ih (hs.published hpub) hnext with ⟨pack', hpack', hgrown'⟩
      rw [hgrown.name] at hgrown'
      exact ⟨pack', hpack', hgrown.trans hgrown'⟩

end CodeStorage

/-!
# From empty registries
-/

/-- After any operations, the registries are consistent and upgrade numbers
count replacements; after any more, each package is still there and has
grown. -/
theorem registries_consistent_and_grown {start : CodeStorage}
    (hstart : forall addr, start.packagesAt addr = []) (ops more : List Operation) :
    Consistent (start.run ops).packagesAt ∧
      forall addr pack, pack ∈ (start.run ops).packagesAt addr ->
        (start.publications ops).count (addr, pack.name) = pack.upgradeNumber.toNat + 1 ∧
        exists pack', pack' ∈ (start.run (ops ++ more)).packagesAt addr ∧ Grown pack pack'
            (((start.run ops).publications more).count
              (addr, pack.name)) := by
  have hconsistent : Consistent start.packagesAt := by
    constructor
    · intro addr
      rw [hstart]
      exact List.Pairwise.nil
    · intro addr pack hpack
      rw [hstart] at hpack
      cases hpack
  have hcounted : Counted [] start.packagesAt := by
    constructor
    · intro addr pack hpack
      rw [hstart] at hpack
      cases hpack
    · intro addr _ _
      exact List.count_nil
  have hrun := CodeStorage.consistent_run hconsistent ops
  refine ⟨hrun, ?_⟩
  intro addr pack hpack
  constructor
  · exact (CodeStorage.counted_run hconsistent hcounted ops).registered addr pack hpack
  · rw [CodeStorage.run_append]
    exact CodeStorage.grown_run hrun more hpack

def CodeStorage.empty : CodeStorage :=
  { registries := fun _ => none
    requestedModuleBundle := none }

def libraryPackage (moduleNames : List String) (policy : U8) : PackageMetadata :=
  { name := "library"
    upgradePolicy := { policy := policy }
    upgradeNumber := 0
    modules := moduleNames.map ModuleMetadata.mk
    deps := [] }

def libraryOwner : Address := Address.ofNat 16

def publishLibrary (moduleNames : List String) (policy : U8) : List Operation :=
  [.publishPackage true libraryOwner (libraryPackage moduleNames policy) [], .takeRequest]

/-- The package becomes immutable with its first upgrade, and a second one
aborts. -/
theorem publishLibrary_grown : libraryPackage ["base"] 1 ∈ (CodeStorage.empty.run
      (publishLibrary ["base"] 1)).packagesAt libraryOwner ∧
    exists pack', pack' ∈ (CodeStorage.empty.run (publishLibrary ["base"] 1 ++
          (publishLibrary ["base", "extra"] 2 ++ publishLibrary ["base", "extra"] 2))).packagesAt
          libraryOwner ∧
      Grown (libraryPackage ["base"] 1) pack' 1 := by
  have hmem : libraryPackage ["base"] 1 ∈ (CodeStorage.empty.run
    (publishLibrary ["base"] 1)).packagesAt libraryOwner := by
    decide +kernel
  have hcount : ((CodeStorage.empty.run (publishLibrary ["base"] 1)).publications
      (publishLibrary ["base", "extra"] 2 ++ publishLibrary ["base", "extra"] 2)).count
          (libraryOwner, "library") = 1 := by
    decide +kernel
  rcases (registries_consistent_and_grown (fun _ => rfl) (publishLibrary ["base"] 1)
    (publishLibrary ["base", "extra"] 2 ++
      publishLibrary ["base", "extra"] 2)).2 libraryOwner _ hmem with
    ⟨_, pack', hpack', hgrown⟩
  refine ⟨hmem, pack', hpack', ?_⟩
  rw [← hcount]
  exact hgrown

end OpenLibra.Packages
