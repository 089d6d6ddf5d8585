import OpenLibra.Move.Address
import OpenLibra.Tables.Catalogue
import Mathlib.Data.Finset.Basic
import Mathlib.Data.Finset.Lattice.Lemmas
import Mathlib.Data.List.AList

/-!
# The package registry

Publishing checks a package against the registered ones, registers it and asks the VM to publish
its code.  The VM remembers one request.
-/

namespace OpenLibra.Packages

open Rust Move Tables List Function

def eModuleNameClash : Nat := 0x1

def eUpgradeImmutable : Nat := 0x2

def eUpgradeWeakerPolicy : Nat := 0x3

def eModuleMissing : Nat := 0x4

def ePackageDepMissing : Nat := 0x5

def eDepWeakerPolicy : Nat := 0x6

def eDepArbitraryNotSameAddress : Nat := 0x7

def eIncompatiblePolicyDisabled : Nat := 0x8

def eAlreadyRequested : Nat := 0x030000

/-!
# Metadata of packages
-/

structure UpgradePolicy where
  policy : U8
deriving DecidableEq, Repr

def upgradePolicyArbitrary : UpgradePolicy := { policy := 0 }

def upgradePolicyCompat : UpgradePolicy := { policy := 1 }

def upgradePolicyImmutable : UpgradePolicy := { policy := 2 }

def canChangeUpgradePolicyTo (old new : UpgradePolicy) : Bool := old.policy.toNat ≤ new.policy.toNat

structure PackageDep where
  account : Address
  packageName : String
deriving DecidableEq, Repr

structure ModuleMetadata where
  name : String
deriving DecidableEq, Repr

structure PackageMetadata where
  name : String
  upgradePolicy : UpgradePolicy
  upgradeNumber : U64
  modules : List ModuleMetadata
  deps : List PackageDep
deriving DecidableEq, Repr

structure AllowedDep where
  account : Address
  moduleName : String
deriving DecidableEq, Repr

def PackageMetadata.getModuleNames (pack : PackageMetadata) : List String :=
  pack.modules.map ModuleMetadata.name

/-!
# Requests to the VM
-/

abbrev AllowedDeps := AList fun _ : Address => Finset String

structure PublishRequest where
  destination : Address
  bundle : List (List UInt8)
  expectedModules : Finset String
  allowedDeps : Option AllowedDeps
  checkCompat : Bool

structure CodeStorage where
  registries : Address -> Option (List PackageMetadata)
  requestedModuleBundle : Option PublishRequest

namespace AllowedDeps

/-- `allowed.entry(account).or_default().extend(names)`. -/
def extend (allowed : AllowedDeps) (account : Address) (names : Finset String) : AllowedDeps :=
  allowed.insert account ((allowed.lookup account).getD ∅ ∪ names)

def ofList (deps : List AllowedDep) : AllowedDeps :=
  deps.foldl (fun allowed dep => allowed.extend dep.account {dep.moduleName}) ∅

def Allows (allowed : AllowedDeps) (account : Address) (name : String) : Prop :=
  exists names, allowed.lookup account = some names ∧ name ∈ names

variable {addr : Address} {name : String}

theorem allows_extend_iff {allowed : AllowedDeps} {account : Address} {names : Finset String} :
    (allowed.extend account names).Allows addr name <->
      allowed.Allows addr name ∨ addr = account ∧ name ∈ names := by
  unfold Allows extend
  by_cases haddr : addr = account
  · subst haddr
    rw [AList.lookup_insert]
    cases hlook : allowed.lookup addr with
    | none | some => simp
  · rw [AList.lookup_insert_ne haddr]
    simp [haddr]

theorem mem_of_allows_ofList {deps : List AllowedDep} (h : (ofList deps).Allows addr name) :
    { account := addr, moduleName := name } ∈ deps := by
  unfold ofList at h
  induction deps using reverseRecOn with
  | nil =>
    rcases h with ⟨_, hnames, _⟩
    cases hnames
  | append_singleton deps dep ih =>
    rw [foldl_append] at h
    rcases allows_extend_iff.mp h with hold | ⟨haddr, hname⟩
    · exact mem_append_left _ (ih hold)
    · apply mem_append_right
      rw [haddr, Finset.mem_singleton.mp hname]
      exact mem_singleton_self dep

end AllowedDeps

namespace CodeStorage

variable (s : CodeStorage) (addr : Address)

def packagesAt : List PackageMetadata :=
  (s.registries addr).getD []

def setRegistry (packages : List PackageMetadata) : CodeStorage :=
  { s with registries := update s.registries addr (some packages) }

theorem packagesAt_setRegistry (packages : List PackageMetadata) :
    (s.setRegistry addr packages).packagesAt = update s.packagesAt addr packages := by
  funext other
  unfold packagesAt setRegistry
  by_cases hother : other = addr
  · subst hother
    simp
  · simp [update_of_ne hother]

theorem packagesAt_setRegistry_self :
    (s.setRegistry addr (s.packagesAt addr)).packagesAt = s.packagesAt := by
  rw [packagesAt_setRegistry, update_eq_self]

def publishRequest (destination : Address) (expectedModules : List String)
    (allowedDeps : Option (List AllowedDep)) (code : List (List UInt8)) (policy : U8) :
    PublishRequest :=
  { destination := destination
    bundle := code
    expectedModules := expectedModules.toFinset
    -- A module may depend on the modules of its own package.
    allowedDeps := allowedDeps.map fun deps =>
      (AllowedDeps.ofList deps).extend destination expectedModules.toFinset
    checkCompat := policy != upgradePolicyArbitrary.policy }

/-- `request_publish` without and `request_publish_with_allowed_deps` with
allowed dependencies. -/
def nativeRequestPublish (s : CodeStorage) (destination : Address) (expectedModules : List String)
    (allowedDeps : Option (List AllowedDep)) (code : List (List UInt8)) (policy : U8) :
    MoveResult CodeStorage := do
  ensure (s.requestedModuleBundle.isNone = true) (.code eAlreadyRequested)
  return { s with
    requestedModuleBundle := some
      (publishRequest destination expectedModules allowedDeps code policy) }

/-- `NativeCodeContext::requested_module_bundle` is taken or dropped. -/
def withoutRequest (s : CodeStorage) : CodeStorage :=
  { s with requestedModuleBundle := none }

end CodeStorage

/-!
# Checks
-/

def isPolicyExemptedAddress (addr : Address) : Bool :=
  [Address.ofNat 1, Address.ofNat 2, Address.ofNat 3, Address.ofNat 4,
    Address.ofNat 5, Address.ofNat 6, Address.ofNat 7, Address.ofNat 8,
    Address.ofNat 9, Address.ofNat 10].contains addr

def checkUpgradability (oldPack newPack : PackageMetadata) (newModules : List String) :
    MoveResult Unit := do
  ensure (oldPack.upgradePolicy.policy.toNat < upgradePolicyImmutable.policy.toNat)
    (invalidArgument eUpgradeImmutable)
  ensure (canChangeUpgradePolicyTo oldPack.upgradePolicy newPack.upgradePolicy = true)
    (invalidArgument eUpgradeWeakerPolicy)
  tryForEach
    (fun oldModule =>
      ensure (oldModule ∈ newModules) (.code eModuleMissing))
    oldPack.getModuleNames

def checkCoexistence (oldPack : PackageMetadata) (newModules : List String) : MoveResult Unit :=
  tryForEach
    (fun oldModule =>
      tryForEach
        (fun name =>
          ensure (oldModule.name ≠ name) (alreadyExists eModuleNameClash))
        newModules)
    oldPack.modules

def findDependency (publishAddress : Address) (pack : PackageMetadata) (dep : PackageDep) :
    List PackageMetadata -> MoveResult (List AllowedDep)
  | [] => .err (notFound ePackageDepMissing)
  | depPack :: rest =>
    if depPack.name = dep.packageName then do
      ensure (pack.upgradePolicy.policy.toNat ≤ depPack.upgradePolicy.policy.toNat)
        (invalidArgument eDepWeakerPolicy)
      ensure (depPack.upgradePolicy = upgradePolicyArbitrary -> dep.account = publishAddress)
        (invalidArgument eDepArbitraryNotSameAddress)
      return depPack.modules.map fun dependency =>
        { account := dep.account
          moduleName := dependency.name }
    else findDependency publishAddress pack dep rest

/-- The loop over the packages of the owner.  `index` is the place where the
name was found last, and `upgradeNumber` belongs to it. -/
def scanPackages (pack : PackageMetadata) (moduleNames : List String) :
    List PackageMetadata -> Nat -> Nat -> U64 -> MoveResult (Nat × U64)
  | [], _, index, upgradeNumber => .ok (index, upgradeNumber)
  | old :: rest, i, index, upgradeNumber =>
    if old.name = pack.name then do
      let upgradeNumber <- Move.add old.upgradeNumber 1
      checkUpgradability old pack moduleNames
      scanPackages pack moduleNames rest (i + 1) i upgradeNumber
    else do
      checkCoexistence old moduleNames
      scanPackages pack moduleNames rest (i + 1) index upgradeNumber

namespace CodeStorage

def checkDependency (s : CodeStorage) (publishAddress : Address)
    (pack : PackageMetadata) (dep : PackageDep) :
    MoveResult (List AllowedDep) := do
  ensure ((s.registries dep.account).isSome = true) (notFound ePackageDepMissing)
  if isPolicyExemptedAddress dep.account then
    return [{ account := dep.account, moduleName := "" }]
  else do
    let packages <- borrowGlobal (s.registries dep.account)
    findDependency publishAddress pack dep packages

def checkDependencies (s : CodeStorage) (publishAddress : Address) (pack : PackageMetadata) :
    List PackageDep -> MoveResult (List AllowedDep)
  | [] => .ok []
  | dep :: deps => do
    let allowed <- s.checkDependency publishAddress pack dep
    let rest <- s.checkDependencies publishAddress pack deps
    return allowed ++ rest

/-- `dependencyCheck` is `features::code_dependency_check_enabled()`. -/
def publishPackage (s : CodeStorage) (dependencyCheck : Bool)
    (owner : Address) (pack : PackageMetadata) (code : List (List UInt8)) :
    MoveResult CodeStorage := do
  ensure (upgradePolicyArbitrary.policy.toNat < pack.upgradePolicy.policy.toNat)
    (invalidArgument eIncompatiblePolicyDisabled)
  -- The registry is published if it is missing.
  let packages := s.packagesAt owner
  let s := s.setRegistry owner packages
  let allowedDeps <- s.checkDependencies owner pack pack.deps
  let moduleNames := pack.getModuleNames
  let (index, upgradeNumber) <-
    scanPackages pack moduleNames packages 0 packages.length 0
  let pack := { pack with upgradeNumber := upgradeNumber }
  let s := s.setRegistry owner (if index < packages.length then packages.set index pack
      else packages ++ [pack])
  s.nativeRequestPublish owner moduleNames (if dependencyCheck then some allowedDeps else none) code
    pack.upgradePolicy.policy

end CodeStorage

/-!
# What the checks have established
-/

def Coexist (p q : PackageMetadata) : Prop :=
  p.name ≠ q.name ∧ p.getModuleNames.Disjoint q.getModuleNames

instance : Std.Symm Coexist where
  symm _ _ h := ⟨h.1.symm, h.2.symm⟩

def IsFirst (pack : PackageMetadata) : Prop := pack.upgradeNumber = 0

/-- `new` is an upgrade of `old`. -/
structure Upgrades (new old : PackageMetadata) : Prop where
  name : old.name = new.name
  mutable : old.upgradePolicy.policy.toNat < upgradePolicyImmutable.policy.toNat
  policy : old.upgradePolicy.policy.toNat ≤ new.upgradePolicy.policy.toNat
  modules : old.getModuleNames ⊆ new.getModuleNames
  number : new.upgradeNumber.toNat = old.upgradeNumber.toNat + 1

variable {pack old : PackageMetadata} {moduleNames : List String}

theorem checkUpgradability_eq_ok (h : checkUpgradability old pack moduleNames = .ok ()) :
    old.upgradePolicy.policy.toNat < upgradePolicyImmutable.policy.toNat ∧
      old.upgradePolicy.policy.toNat ≤ pack.upgradePolicy.policy.toNat ∧
      old.getModuleNames ⊆ moduleNames := by
  rcases of_ensure h with ⟨hmutable, h⟩
  rcases of_ensure h with ⟨hpolicy, h⟩
  refine ⟨hmutable, of_decide_eq_true hpolicy, ?_⟩
  intro _ hname
  exact ensure_eq_ok_iff.mp (tryForEach_eq_ok h hname)

theorem checkCoexistence_eq_ok (h : checkCoexistence old moduleNames = .ok ()) :
    old.getModuleNames.Disjoint moduleNames := by
  intro _ hold hnew
  rcases mem_map.mp hold with ⟨_, hmem, rfl⟩
  have hinner := tryForEach_eq_ok h hmem
  exact ensure_eq_ok_iff.mp (tryForEach_eq_ok hinner hnew) rfl

/-!
# Dependencies
-/

variable {publishAddress : Address} {dep : PackageDep} {allowed : List AllowedDep}
  {s s' : CodeStorage}

def Provides (packages : List PackageMetadata) (pack : PackageMetadata)
    (dep : PackageDep) (depPack : PackageMetadata) : Prop :=
  depPack ∈ packages ∧ depPack.name = dep.packageName ∧
    pack.upgradePolicy.policy.toNat ≤ depPack.upgradePolicy.policy.toNat

variable {packages : List PackageMetadata}

theorem findDependency_eq_ok (h : findDependency publishAddress pack dep packages = .ok allowed) :
    exists depPack, Provides packages pack dep depPack ∧ forall a, a ∈ allowed ->
        a.account = dep.account ∧ a.moduleName ∈ depPack.getModuleNames := by
  induction packages with
  | nil => cases h
  | cons depPack rest ih =>
    unfold findDependency at h
    split at h
    · next hname =>
        rcases of_ensure h with ⟨hpolicy, h⟩
        rcases of_ensure h with ⟨_, h⟩
        cases h
        refine ⟨depPack, ⟨mem_cons_self, hname, hpolicy⟩, ?_⟩
        intro _ ha
        rcases mem_map.mp ha with ⟨_, hmem, rfl⟩
        exact ⟨rfl, mem_map_of_mem hmem⟩
    · rcases ih h with ⟨found, ⟨hmem, hfound⟩, hallowed⟩
      exact ⟨found, ⟨mem_cons_of_mem _ hmem, hfound⟩, hallowed⟩

inductive AllowedBy (packagesAt : Address -> List PackageMetadata)
    (dep : PackageDep) (addr : Address) (moduleName : String) : Prop where
  | exempted (account : addr = dep.account) (exempted : isPolicyExemptedAddress addr = true)
  | provided {depPack : PackageMetadata} (account : addr = dep.account)
      (registered : depPack ∈ packagesAt addr)
      (name : depPack.name = dep.packageName)
      (moduleName : moduleName ∈ depPack.getModuleNames)

def Satisfied (packagesAt : Address -> List PackageMetadata)
    (pack : PackageMetadata) (dep : PackageDep) : Prop :=
  isPolicyExemptedAddress dep.account = false ->
    exists depPack, Provides (packagesAt dep.account) pack dep depPack

theorem checkDependency_eq_ok (h : s.checkDependency publishAddress pack dep = .ok allowed) :
    Satisfied s.packagesAt pack dep ∧ forall a, a ∈ allowed ->
        AllowedBy s.packagesAt dep a.account a.moduleName := by
  rcases of_ensure h with ⟨_, h⟩
  split at h
  · next hexempted =>
      cases h
      constructor
      · intro hnot
        rw [hexempted] at hnot
        cases hnot
      · intro a ha
        rw [mem_singleton.mp ha]
        exact .exempted rfl hexempted
  · rcases of_bind h with ⟨packages, hpackages, h⟩
    have hregistry : s.packagesAt dep.account = packages := by
      rw [CodeStorage.packagesAt, borrowGlobal_eq_ok_iff.mp hpackages]
      rfl
    subst hregistry
    rcases findDependency_eq_ok h with ⟨depPack, hprovides, hallowed⟩
    constructor
    · intro _
      exact ⟨depPack, hprovides⟩
    · intro a ha
      rcases hallowed a ha with ⟨hacct, hname⟩
      have hmem := hprovides.1
      rw [← hacct] at hmem
      exact .provided hacct hmem hprovides.2.1 hname

theorem checkDependencies_eq_ok {deps}
    (h : s.checkDependencies publishAddress pack deps = .ok allowed) :
    (forall dep, dep ∈ deps -> Satisfied s.packagesAt pack dep) ∧ forall a, a ∈ allowed ->
        exists dep, dep ∈ deps ∧ AllowedBy s.packagesAt dep a.account a.moduleName := by
  induction deps generalizing allowed with
  | nil =>
    cases h
    exact ⟨fun dep hdep => absurd hdep not_mem_nil, fun a ha => absurd ha not_mem_nil⟩
  | cons first deps ih =>
    rcases of_bind h with ⟨_, hfirst, h⟩
    rcases of_bind h with ⟨_, hrest, h⟩
    cases h
    rcases checkDependency_eq_ok hfirst with ⟨hsat, hallowed⟩
    rcases ih hrest with ⟨hsatRest, hallowedRest⟩
    constructor
    · intro dep hdep
      rcases mem_cons.mp hdep with rfl | hmem
      · exact hsat
      · exact hsatRest dep hmem
    · intro a ha
      rcases mem_append.mp ha with hleft | hright
      · exact ⟨first, mem_cons_self, hallowed a hleft⟩
      · rcases hallowedRest a hright with ⟨dep, hmem, hby⟩
        exact ⟨dep, mem_cons_of_mem _ hmem, hby⟩

def Fits (pack old : PackageMetadata) : Prop :=
  old.name ≠ pack.name ∧ old.getModuleNames.Disjoint pack.getModuleNames ∨
  old.name = pack.name ∧ old.upgradePolicy.policy.toNat < upgradePolicyImmutable.policy.toNat ∧
    old.upgradePolicy.policy.toNat ≤ pack.upgradePolicy.policy.toNat ∧
    old.getModuleNames ⊆ pack.getModuleNames

variable {index : Nat} {number : U64}

theorem scanPackages_eq_ok {i index' : Nat} {number' : U64}
    (h : scanPackages pack pack.getModuleNames packages i index number = .ok (index', number')) :
    (forall old, old ∈ packages -> Fits pack old) ∧ (index' = index ∧ number' = number ∧
          (forall old, old ∈ packages -> old.name ≠ pack.name) ∨
        exists before old after, packages = before ++ old :: after ∧
          old.name = pack.name ∧ index' = i + before.length ∧
          number'.toNat = old.upgradeNumber.toNat + 1) := by
  induction packages generalizing i index number with
  | nil =>
    cases h
    exact ⟨fun old hold => absurd hold not_mem_nil,
      Or.inl ⟨rfl, rfl, fun old hold => absurd hold not_mem_nil⟩⟩
  | cons first rest ih =>
    unfold scanPackages at h
    split at h
    · next hname =>
        rcases of_bind h with ⟨next, hnext, h⟩
        rcases of_check h with ⟨hcheck, h⟩
        rcases ih h with ⟨hfits, hplace⟩
        constructor
        · intro old hold
          rcases mem_cons.mp hold with rfl | hmem
          · exact .inr ⟨hname, checkUpgradability_eq_ok hcheck⟩
          · exact hfits old hmem
        · right
          rcases hplace with ⟨rfl, rfl, _⟩ | ⟨before, old, after, rfl, hold, rfl, hnum⟩
          · exact ⟨[], first, rest, rfl, hname, rfl, Move.add_eq_ok_iff.mp hnext⟩
          · refine ⟨first :: before, old, after, rfl, hold, ?_, hnum⟩
            rw [length_cons]
            omega
    · next hname =>
        rcases of_check h with ⟨hcheck, h⟩
        rcases ih h with ⟨hfits, hplace⟩
        constructor
        · intro old hold
          rcases mem_cons.mp hold with rfl | hmem
          · exact .inl ⟨hname, checkCoexistence_eq_ok hcheck⟩
          · exact hfits old hmem
        · rcases hplace with ⟨hidx, hnum, hnames⟩ | ⟨before, old, after, rfl, hold, rfl, hnum⟩
          · refine .inl ⟨hidx, hnum, ?_⟩
            intro old hold
            rcases mem_cons.mp hold with rfl | hmem
            · exact hname
            · exact hnames old hmem
          · refine .inr ⟨first :: before, old, after, rfl, hold, ?_, hnum⟩
            rw [length_cons]
            omega

theorem updated_of_scanPackages (hpackages : packages.Pairwise Coexist)
    (h : scanPackages pack pack.getModuleNames packages 0 packages.length 0 = .ok (index, number)) :
    Updated Coexist IsFirst Upgrades { pack with upgradeNumber := number } packages
      (if index < packages.length then
          packages.set index { pack with upgradeNumber := number }
        else packages ++ [{ pack with upgradeNumber := number }]) := by
  rcases scanPackages_eq_ok h with ⟨hfits, hplace⟩
  -- A package of another name coexists with the new one.
  have hcoexist : forall old, old ∈ packages -> old.name ≠ pack.name ->
    Coexist old { pack with upgradeNumber := number } := by
    intro old hold hne
    rcases hfits old hold with hother | ⟨hsame, _⟩
    · exact hother
    · exact absurd hsame hne
  rcases hplace with ⟨rfl, rfl, hnames⟩ | ⟨before, old, after, rfl, hname, rfl, hnum⟩
  · rw [if_neg (lt_irrefl _)]
    exact .added rfl fun e he => hcoexist e he (hnames e he)
  · have hlt : 0 + before.length < (before ++ old :: after).length := by
      rw [length_append, length_cons]
      omega
    rw [if_pos hlt, zero_add, set_append_right _ _ (le_refl _), Nat.sub_self, set_cons_zero]
    rw [pairwise_append, pairwise_cons] at hpackages
    rcases hpackages with ⟨_, ⟨hafter, _⟩, hbef⟩
    apply Updated.replaced
    · rcases hfits old (by simp) with ⟨hne, _⟩ | ⟨_, hmutable, hpolicy, hmods⟩
      · exact absurd hname hne
      · exact ⟨hname, hmutable, hpolicy, hmods, hnum⟩
    · intro e he
      rcases mem_append.mp he with hleft | hright
      · apply hcoexist e (mem_append_left _ hleft)
        rw [← hname]
        exact (hbef e hleft old mem_cons_self).1
      · apply hcoexist e (mem_append_right _ (mem_cons_of_mem _ hright))
        rw [← hname]
        exact (hafter e hright).1.symm

/-- A successful call of `publishPackage`, which registers the package under a
number of its own. -/
structure Published (s : CodeStorage) (dependencyCheck : Bool)
    (owner : Address) (registered : PackageMetadata)
    (request : PublishRequest) (s' : CodeStorage) : Prop where
  free : s.requestedModuleBundle = none
  satisfied : forall dep, dep ∈ registered.deps -> Satisfied s.packagesAt registered dep
  updated : exists packages', Updated Coexist IsFirst Upgrades registered
      (s.packagesAt owner) packages' ∧
    s'.packagesAt = update s.packagesAt owner packages'
  requested : s'.requestedModuleBundle = some request
  destination : request.destination = owner
  expected : request.expectedModules = registered.getModuleNames.toFinset
  allowed : dependencyCheck = true -> exists allowedDeps, request.allowedDeps = some allowedDeps ∧
      forall addr name, allowedDeps.Allows addr name ->
        addr = owner ∧ name ∈ registered.getModuleNames ∨
        exists dep, dep ∈ registered.deps ∧ AllowedBy s.packagesAt dep addr name

theorem published_of_publishPackage {dependencyCheck : Bool} {owner : Address}
    {code : List (List UInt8)} (hpackages : (s.packagesAt owner).Pairwise Coexist)
    (h : s.publishPackage dependencyCheck owner pack code = .ok s') :
    exists number request, Published s dependencyCheck owner
      { pack with upgradeNumber := number } request s' := by
  rcases of_ensure h with ⟨_, h⟩
  rcases of_bind h with ⟨allowed, hallowed, h⟩
  rcases of_bind h with ⟨⟨_, number⟩, hscan, h⟩
  rcases of_ensure h with ⟨hfree, h⟩
  cases h
  rcases checkDependencies_eq_ok hallowed with ⟨hsat, hby⟩
  rw [CodeStorage.packagesAt_setRegistry_self] at hsat hby
  refine ⟨number, CodeStorage.publishRequest owner pack.getModuleNames
    (if dependencyCheck then some allowed else none) code
    pack.upgradePolicy.policy, ?_⟩
  exact
    { free := Option.isNone_iff_eq_none.mp hfree
      satisfied := hsat
      updated := by
        refine ⟨_, updated_of_scanPackages hpackages hscan, ?_⟩
        have hafter := CodeStorage.packagesAt_setRegistry
          (s.setRegistry owner (s.packagesAt owner)) owner
        rw [CodeStorage.packagesAt_setRegistry_self] at hafter
        exact hafter _
      requested := rfl
      destination := rfl
      expected := rfl
      allowed := by
        intro hcheck
        refine ⟨(AllowedDeps.ofList allowed).extend owner
          pack.getModuleNames.toFinset, by rw [if_pos hcheck]; rfl, ?_⟩
        intro _ _ hallows
        rcases AllowedDeps.allows_extend_iff.mp hallows with hdep | hown
        · exact .inr (hby _ (AllowedDeps.mem_of_allows_ofList hdep))
        · exact .inl ⟨hown.1, mem_toFinset.mp hown.2⟩ }

theorem bundle_of_publishPackage {dependencyCheck : Bool} {owner : Address}
    {code : List (List UInt8)} (h : s.publishPackage dependencyCheck owner pack code = .ok s') :
    forall request, s'.requestedModuleBundle = some request -> request.bundle = code := by
  rcases of_ensure h with ⟨_, h⟩
  rcases of_bind h with ⟨_, _, h⟩
  rcases of_bind h with ⟨⟨_, _⟩, _, h⟩
  rcases of_ensure h with ⟨_, h⟩
  cases h
  intro request hrequest
  cases hrequest
  rfl

end OpenLibra.Packages
