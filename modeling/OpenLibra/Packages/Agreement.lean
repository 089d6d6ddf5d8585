import OpenLibra.Packages.Publishing
import OpenLibra.Transition.System

/-!
# The registry and the code

A pending request makes up for code that is not there yet; but a request that an initializer
leaves behind is never taken.
-/

namespace OpenLibra.Packages

open Rust Move List

/-!
# Agreement
-/

section

variable (packagesAt : Address -> List PackageMetadata)

def Declared (addr : Address) (pack : PackageMetadata) (dep : ModuleId) : Prop :=
  dep.address = addr ∧ dep.name.asStr ∈ pack.getModuleNames ∨
  isPolicyExemptedAddress dep.address = true ∨
  exists declared depPack, declared ∈ pack.deps ∧
    declared.account = dep.address ∧ depPack ∈ packagesAt dep.address ∧
    depPack.name = declared.packageName ∧
    dep.name.asStr ∈ depPack.getModuleNames

def PackageAgrees (dependencyCheck : Bool) (modules : Modules)
    (addr : Address) (pack : PackageMetadata) : Prop :=
  forall name, name ∈ pack.getModuleNames -> exists moduleId module, moduleId.address = addr ∧
      moduleId.name.asStr = name ∧ modules moduleId = some module ∧
      (dependencyCheck = true -> forall dep, dep ∈ module.immediateDependencies ->
          Declared packagesAt addr pack dep)

def Agrees (dependencyCheck : Bool) (modules : Modules) : Prop :=
  forall addr pack, pack ∈ packagesAt addr ->
    PackageAgrees packagesAt dependencyCheck modules addr pack

end

section

variable {packagesAt : Address -> List PackageMetadata} {dependencyCheck : Bool}
  {modules modules' : Modules} {addr : Address} {pack : PackageMetadata}

theorem PackageAgrees.code (h : PackageAgrees packagesAt dependencyCheck modules addr pack)
    (hsame : forall moduleId, moduleId.address = addr ->
      moduleId.name.asStr ∈ pack.getModuleNames ->
      (modules moduleId).isSome = true -> modules' moduleId = modules moduleId) :
    PackageAgrees packagesAt dependencyCheck modules' addr pack := by
  intro name hname
  rcases h name hname with ⟨moduleId, module, haddr, rfl, hmod, hdeps⟩
  refine ⟨moduleId, module, haddr, rfl, ?_, hdeps⟩
  rw [hsame moduleId haddr hname (by rw [hmod]; rfl)]
  exact hmod

variable {s s' : CodeStorage} {owner : Address} {registered : PackageMetadata}
  {request : PublishRequest}

theorem Declared.published {dep : ModuleId} (hdep : Declared s.packagesAt addr pack dep)
    (h : Published s dependencyCheck owner registered request s') :
    Declared s'.packagesAt addr pack dep := by
  rcases hdep with hown | hexempted | ⟨declared, _, hdeclared, hacct, hmem, hname, hmod⟩
  · exact .inl hown
  · exact .inr (.inl hexempted)
  · rcases h.grown hmem with ⟨depPack', hmem', hgrown⟩
    exact .inr (.inr ⟨declared, depPack', hdeclared, hacct, hmem',
      hgrown.name.trans hname, hgrown.modules hmod⟩)

theorem PackageAgrees.published {check : Bool}
    (hpack : PackageAgrees s.packagesAt check modules addr pack)
    (h : Published s dependencyCheck owner registered request s') :
    PackageAgrees s'.packagesAt check modules addr pack := by
  intro name hname
  rcases hpack name hname with ⟨moduleId, module, haddr, hmodName, hmod, hdeps⟩
  refine ⟨moduleId, module, haddr, hmodName, hmod, ?_⟩
  intro hcheck dep hdep
  exact (hdeps hcheck dep hdep).published h

theorem Agrees.empty_not_mem (h : Agrees packagesAt dependencyCheck modules)
    (hpack : pack ∈ packagesAt addr) : "" ∉ pack.getModuleNames := by
  intro hempty
  rcases h addr pack hpack "" hempty with ⟨moduleId, _, _, hname, _⟩
  exact moduleId.name.nonempty hname

end

section

structure Pending (dependencyCheck : Bool) (s : CodeStorage)
    (request : PublishRequest) (pack : PackageMetadata) : Prop where
  registered : pack ∈ s.packagesAt request.destination
  expected : request.expectedModules = pack.getModuleNames.toFinset
  declared : dependencyCheck = true -> exists allowedDeps, request.allowedDeps = some allowedDeps ∧
      forall dep, allowedDeps.permits dep = true ->
        Declared s.packagesAt request.destination pack dep ∨ "" ∈ pack.getModuleNames

structure AgreesButPending (dependencyCheck : Bool) (s : Session) : Prop where
  free : s.code.requestedModuleBundle = none -> Agrees s.code.packagesAt dependencyCheck s.modules
  pending : forall request, s.code.requestedModuleBundle = some request ->
      exists pack, Pending dependencyCheck s.code request pack ∧
        forall addr other, other ∈ s.code.packagesAt addr ->
          addr = request.destination ∧ other = pack ∨
          PackageAgrees s.code.packagesAt dependencyCheck s.modules addr other

variable {dependencyCheck : Bool} {s : CodeStorage} {modules : Modules}

theorem pending_of_published {s'} {owner : Address} {registered} {request}
    (hs : Agrees s.packagesAt dependencyCheck modules)
    (h : Published s dependencyCheck owner registered request s') :
    Pending dependencyCheck s' request registered := by
  constructor
  · rw [h.destination]
    exact h.mem
  · exact h.expected
  · intro hcheck
    rcases h.allowed hcheck with ⟨allowedDeps, hallowed, hall⟩
    refine ⟨allowedDeps, hallowed, ?_⟩
    intro _ hpermits
    rw [h.destination]
    rcases AllowedDeps.allows_of_permits hpermits with hwildcard | hname
    · rcases hall _ _ hwildcard with ⟨_, hown⟩ | ⟨declared, _, hby⟩
      · exact .inr hown
      · cases hby with
        | exempted account exempted => exact .inl (.inr (.inl exempted))
        | provided account registered name moduleName =>
          exact absurd moduleName (hs.empty_not_mem registered)
    · left
      rcases hall _ _ hname with hown | ⟨declared, hdeclared, hby⟩
      · exact .inl hown
      · cases hby with
        | exempted account exempted => exact .inr (.inl exempted)
        | provided account registered name moduleName =>
          rcases h.grown registered with ⟨depPack', hmem', hgrown⟩
          exact .inr (.inr ⟨declared, depPack', hdeclared, account.symm, hmem', hgrown.name.trans
            name, hgrown.modules moduleName⟩)

end

namespace PublishingVm

variable {typeTag : Type} {vm : PublishingVm typeTag} {s s' : Session} {call : PublishCall}
  {sender : Address} {bundle : List CompiledModule} {allowedDeps : Option AllowedDeps}
  {expected : Finset String}

theorem callPublishPackage_eq_ok (h : vm.callPublishPackage s call = .ok s') :
    exists registered request, Published s.code
        vm.codeDependencyCheckEnabled call.owner registered request s'.code ∧
      s'.modules = s.modules := by
  unfold callPublishPackage at h
  split at h
  · next code hcode =>
      cases h
      rcases published_of_publishPackage (s.coexist call.owner) hcode with ⟨_, request, hpub⟩
      exact ⟨_, request, hpub, rfl⟩
  · cases h
  · cases h

theorem agreesButPending_callPublishPackage (hs : AgreesButPending vm.codeDependencyCheckEnabled s)
    (h : vm.callPublishPackage s call = .ok s') :
    AgreesButPending vm.codeDependencyCheckEnabled s' := by
  rcases callPublishPackage_eq_ok h with ⟨registered, _, hpub, hmods⟩
  have hagr := hs.free hpub.free
  constructor
  · intro hnone
    rw [hpub.requested] at hnone
    cases hnone
  · intro _ hfound
    rw [hpub.requested] at hfound
    cases hfound
    refine ⟨registered, pending_of_published hagr hpub, ?_⟩
    intro addr other hother
    rcases hpub.mem_cases hother with ⟨rfl, rfl⟩ | ⟨hold, _⟩
    · exact .inl ⟨hpub.destination.symm, rfl⟩
    · right
      rw [hmods]
      exact (hagr addr other hold).published hpub

theorem agreesButPending_runProgram {program : Program}
    (hs : AgreesButPending vm.codeDependencyCheckEnabled s) (h : vm.runProgram s program = .ok s') :
    AgreesButPending vm.codeDependencyCheckEnabled s' := by
  rcases of_bind h with ⟨_, _, hcalls⟩
  exact tryFold_invariant (fun _ s => AgreesButPending vm.codeDependencyCheckEnabled s)
    (fun _ _ _ _ hs hstep => agreesButPending_callPublishPackage hs hstep)
    hs hcalls

theorem agreesButPending_initialization {existing : Modules}
    (hs : AgreesButPending vm.codeDependencyCheckEnabled s)
    (h : tryFold (vm.executeModuleInitialization existing sender) s bundle = .ok s') :
    AgreesButPending vm.codeDependencyCheckEnabled s' := by
  refine tryFold_invariant (fun _ s => AgreesButPending vm.codeDependencyCheckEnabled s) ?_ hs h
  intro _ _ _ _ hs hstep
  unfold executeModuleInitialization at hstep
  split at hstep
  · cases hstep
    exact hs
  · split at hstep
    · cases hstep
      exact hs
    · rcases of_ensure hstep with ⟨_, hstep⟩
      exact agreesButPending_runProgram hs hstep

/-!
# Validated requests
-/

theorem publishModuleBundle_eq_ok (h : vm.publishModuleBundle s bundle sender = .ok s') :
    (forall module, module ∈ bundle -> module.selfId.address = sender) ∧
      s'.code = s.code ∧ s'.modules = s.modules.publish bundle := by
  rcases of_check h with ⟨haddrs, h⟩
  split at h
  · cases h
  · cases h
    refine ⟨?_, rfl, rfl⟩
    intro _ hmod
    exact ensure_eq_ok_iff.mp (tryForEach_eq_ok haddrs hmod)

theorem agreesButPending_executeModules {modules}
    (hs : Agrees s.code.packagesAt vm.codeDependencyCheckEnabled s.modules)
    (hfree : s.code.requestedModuleBundle = none)
    (h : vm.executeModules s sender modules = .ok s') :
    AgreesButPending vm.codeDependencyCheckEnabled s' := by
  rcases of_ensure h with ⟨_, h⟩
  rcases of_bind h with ⟨_, _, h⟩
  rcases of_check h with ⟨hnew, h⟩
  rcases of_bind h with ⟨_, hpub, h⟩
  rcases publishModuleBundle_eq_ok hpub with ⟨_, hcode, hmods⟩
  refine agreesButPending_initialization ?_ h
  constructor
  · intro _
    rw [hcode, hmods]
    intro addr pack hpack
    apply (hs addr pack hpack).code
    intro _ _ _ hexists
    apply Modules.publish_of_not_mem
    intro hmem
    rcases mem_map.mp hmem with ⟨_, hmod, rfl⟩
    have hnone := ensure_eq_ok_iff.mp (tryForEach_eq_ok hnew hmod)
    rw [Option.isNone_iff_eq_none.mp hnone] at hexists
    cases hexists
  · intro _ hfound
    rw [hcode, hfree] at hfound
    cases hfound

/-- The initializer of the module calls `publish_package` in no state. -/
def InitializesQuietly (vm : PublishingVm typeTag) (module : CompiledModule) : Prop :=
  forall init, vm.initModule module = some init ->
    forall signer s calls, init signer s = .ok calls -> calls = []

theorem initialization_quiet {existing : Modules}
    (hquiet : forall module, module ∈ bundle -> existing module.selfId = none ->
      vm.InitializesQuietly module)
    (h : tryFold (vm.executeModuleInitialization existing sender) s bundle = .ok s') : s' = s := by
  induction bundle generalizing s with
  | nil =>
    cases h
    rfl
  | cons module rest ih =>
    rcases of_bind h with ⟨middle, hfirst, h⟩
    have hrest := ih (fun other hother => hquiet other (mem_cons_of_mem _ hother)) h
    refine hrest.trans ?_
    unfold executeModuleInitialization at hfirst
    split at hfirst
    · cases hfirst
      rfl
    · next hnew =>
      split at hfirst
      · cases hfirst
        rfl
      · next init hinit =>
        rcases of_ensure hfirst with ⟨_, hfirst⟩
        rcases of_bind hfirst with ⟨calls, hcalls, hfirst⟩
        rw [hquiet module mem_cons_self (Option.not_isSome_iff_eq_none.mp hnew) init hinit sender s
          calls hcalls] at hfirst
        cases hfirst
        rfl

theorem exists_deserialize_of_mem {blobs : List (List UInt8)} {module : CompiledModule}
    (h : vm.deserializeModuleBundle blobs = .ok bundle) (hmodule : module ∈ bundle) :
    exists blob, blob ∈ blobs ∧ vm.deserialize blob = some module := by
  rcases Outcome.exists_of_mem_tryMap h hmodule with ⟨blob, hblob, hdeserialize⟩
  refine ⟨blob, hblob, ?_⟩
  split at hdeserialize
  · next hfound =>
    cases hdeserialize
    exact hfound
  · cases hdeserialize

/-- The request that a program leaves carries the code of one of its calls. -/
theorem runProgram_requested {program : Program} (hfree : s.code.requestedModuleBundle = none)
    (h : vm.runProgram s program = .ok s') :
    s'.modules = s.modules ∧ exists calls, program s = .ok calls ∧
      forall request, s'.code.requestedModuleBundle = some request ->
        exists call, call ∈ calls ∧ request.bundle = call.code := by
  rcases of_bind h with ⟨calls, hprogram, hcalls⟩
  have hinv := tryFold_invariant (fun seen t => t.modules = s.modules ∧
      forall request, t.code.requestedModuleBundle = some request ->
        exists call, call ∈ seen ∧ request.bundle = call.code) ?_ ⟨rfl, ?_⟩ hcalls
  · exact ⟨hinv.1, calls, hprogram, hinv.2⟩
  · rintro seen t call t' ⟨hmodules, _⟩ hstep
    rcases callPublishPackage_eq_ok hstep with ⟨_, _, _, hsame⟩
    refine ⟨hsame.trans hmodules, ?_⟩
    intro request hrequest
    refine ⟨call, mem_append_right _ mem_cons_self, ?_⟩
    unfold callPublishPackage at hstep
    split at hstep
    · next hcode =>
      cases hstep
      exact bundle_of_publishPackage hcode request hrequest
    · cases hstep
    · cases hstep
  · intro request hrequest
    rw [hfree] at hrequest
    cases hrequest

def bundleNames (bundle : List CompiledModule) : List String :=
  bundle.map fun module => module.selfId.name.asStr

structure Matched (allowedDeps : Option AllowedDeps)
    (expected : Finset String) (seen : List CompiledModule)
    (left : Finset String) : Prop where
  distinct : (bundleNames seen).Nodup
  names : forall name, name ∈ expected <-> name ∈ left ∨ name ∈ bundleNames seen
  disjoint : forall name, name ∈ left -> name ∉ bundleNames seen
  permitted : forall allowed, allowedDeps = some allowed -> forall module, module ∈ seen ->
      forall dep, dep ∈ module.immediateDependencies -> allowed.permits dep = true

theorem Matched.validateModule {left left'} {seen} {module}
    (hseen : Matched allowedDeps expected seen left)
    (h : vm.validateModule allowedDeps left module = .ok left') :
    Matched allowedDeps expected (seen ++ [module]) left' := by
  rcases of_ensure h with ⟨hexpd, h⟩
  rcases of_check h with ⟨hdeps, h⟩
  rcases of_check h with ⟨_, h⟩
  cases h
  have hnames : bundleNames (seen ++ [module]) =
    bundleNames seen ++ [module.selfId.name.asStr] := map_append
  constructor
  · rw [hnames, nodup_append]
    refine ⟨hseen.distinct, nodup_singleton _, ?_⟩
    intro name hname other hother hsame
    rw [hsame, mem_singleton.mp hother] at hname
    exact hseen.disjoint _ hexpd hname
  · intro name
    rw [hseen.names name, hnames, mem_append, mem_singleton, Finset.mem_erase]
    constructor
    · rintro (hleft | hold)
      · by_cases hsame : name = module.selfId.name.asStr
        · exact .inr (.inr hsame)
        · exact .inl ⟨hsame, hleft⟩
      · exact .inr (.inl hold)
    · rintro (⟨_, hleft⟩ | hold | hsame)
      · exact .inl hleft
      · exact .inr hold
      · rw [hsame]
        exact .inl hexpd
  · intro name hname
    rcases Finset.mem_erase.mp hname with ⟨hne, hleft⟩
    rw [hnames, mem_append, not_or, mem_singleton]
    exact ⟨hseen.disjoint name hleft, hne⟩
  · intro allowed hallowed other hother dep hdep
    rcases mem_append.mp hother with hold | hlast
    · exact hseen.permitted allowed hallowed other hold dep hdep
    · rw [mem_singleton.mp hlast] at hdep
      subst hallowed
      exact ensure_eq_ok_iff.mp (tryForEach_eq_ok hdeps hdep)

variable [DecidableEq typeTag]

theorem matched_of_validatePublishRequest {published : Modules}
    (h : vm.validatePublishRequest published bundle expected allowedDeps = .ok ()) :
    Matched allowedDeps expected bundle ∅ := by
  rcases of_bind h with ⟨left, hleft, h⟩
  rcases of_check h with ⟨_, h⟩
  rw [← ensure_eq_ok_iff.mp h]
  refine tryFold_invariant (Matched allowedDeps expected) ?_ ?_ hleft
  · intro _ _ module _ hseen hstep
    exact hseen.validateModule hstep
  · constructor
    · exact nodup_nil
    · intro name
      exact ⟨.inl, fun h => h.resolve_right not_mem_nil⟩
    · intro _ _
      exact not_mem_nil
    · intro _ _ _ hmod
      cases hmod

/-- The modules of an accepted bundle have distinct names, which are the
expected ones. -/
def BundleMatches (vm : PublishingVm typeTag) : Prop :=
  forall published bundle expected allowedDeps,
    vm.validatePublishRequest published bundle expected allowedDeps = .ok () ->
      (bundleNames bundle).Nodup ∧ forall name, name ∈ bundleNames bundle <-> name ∈ expected

theorem bundleMatches (vm : PublishingVm typeTag) : vm.BundleMatches := by
  intro _ _ _ _ h
  have hmatched := matched_of_validatePublishRequest h
  refine ⟨hmatched.distinct, ?_⟩
  intro name
  rw [hmatched.names name]
  exact ⟨.inr, fun h => h.resolve_left (Finset.notMem_empty name)⟩

theorem agrees_publish {dependencyCheck : Bool} {s : Session} {request} {pack}
    (hpend : Pending dependencyCheck s.code request pack)
    (hothers : forall addr other, other ∈ s.code.packagesAt addr -> addr = request.destination ∧
      other = pack ∨ PackageAgrees s.code.packagesAt dependencyCheck s.modules addr other)
    (hmatched : Matched request.allowedDeps request.expectedModules bundle ∅)
    (haddrs : forall module, module ∈ bundle -> module.selfId.address = request.destination) :
    Agrees s.code.packagesAt dependencyCheck (s.modules.publish bundle) := by
  have hnames : forall name, name ∈ bundleNames bundle <-> name ∈ pack.getModuleNames := by
    intro name
    have hexpd := hmatched.names name
    rw [hpend.expected, mem_toFinset] at hexpd
    rw [hexpd]
    exact ⟨.inr, fun h => h.resolve_left (Finset.notMem_empty name)⟩
  have hdist : (bundle.map CompiledModule.selfId).Nodup := by
    apply List.Nodup.of_map fun moduleId : ModuleId => moduleId.name.asStr
    rw [map_map]
    exact hmatched.distinct
  have hown : PackageAgrees s.code.packagesAt dependencyCheck
    (s.modules.publish bundle) request.destination pack := by
    intro name hname
    rcases mem_map.mp ((hnames name).mpr hname) with ⟨module, hmod, rfl⟩
    refine ⟨module.selfId, module, haddrs module hmod, rfl, Modules.publish_of_mem hdist hmod, ?_⟩
    intro hcheck dep hdep
    rcases hpend.declared hcheck with ⟨allowed, hallowed, hdeclared⟩
    rcases hdeclared dep (hmatched.permitted allowed hallowed module hmod dep hdep) with
      hdep | hempty
    · exact hdep
    · -- A module of the empty name would have been published.
      rcases mem_map.mp ((hnames "").mpr hempty) with ⟨other, _, hother⟩
      exact absurd hother other.selfId.name.nonempty
  intro addr other hother
  by_cases hsame : addr = request.destination ∧ other = pack
  · rw [hsame.1, hsame.2]
    exact hown
  · have hagr := (hothers addr other hother).resolve_left hsame
    apply hagr.code
    intro _ haddr hname _
    apply Modules.publish_of_not_mem
    intro hmem
    rcases mem_map.mp hmem with ⟨module, hmod, rfl⟩
    have hdestination : addr = request.destination := haddr.symm.trans (haddrs module hmod)
    subst hdestination
    -- The names of the two packages are disjoint.
    have hne : other ≠ pack := fun h => hsame ⟨rfl, h⟩
    have hcoexist : Coexist other pack :=
      (s.coexist request.destination).forall hother hpend.registered hne
    exact hcoexist.2 hname ((hnames _).mp (mem_map_of_mem hmod))

theorem agreesButPending_resolvePendingCodePublish
    (hs : AgreesButPending vm.codeDependencyCheckEnabled s)
    (h : vm.resolvePendingCodePublish s = .ok s') :
    AgreesButPending vm.codeDependencyCheckEnabled s' := by
  unfold resolvePendingCodePublish at h
  split at h
  · cases h
    exact hs
  · next request hrqst =>
      rcases of_bind h with ⟨_, _, h⟩
      rcases of_check h with ⟨hvalid, h⟩
      rcases of_bind h with ⟨published, hpub, h⟩
      rcases publishModuleBundle_eq_ok hpub with ⟨haddrs, hcode, hmods⟩
      rcases hs.pending request hrqst with ⟨_, hpend, hothers⟩
      have hagr := agrees_publish hpend hothers (matched_of_validatePublishRequest hvalid) haddrs
      -- The request is taken, so that nothing is pending.
      have hfree : AgreesButPending vm.codeDependencyCheckEnabled
        published := by
        constructor
        · intro _
          rw [hcode, hmods]
          exact hagr
        · intro _ hfound
          rw [hcode] at hfound
          cases hfound
      exact agreesButPending_initialization hfree h

theorem agreesButPending_executePayload {payload : Payload}
    (hs : Agrees s.code.packagesAt vm.codeDependencyCheckEnabled s.modules)
    (hfree : s.code.requestedModuleBundle = none) (h : vm.executePayload s payload = .ok s') :
    AgreesButPending vm.codeDependencyCheckEnabled s' := by
  cases payload with
  | script =>
    rcases of_bind h with ⟨_, hprog, h⟩
    have hstart : AgreesButPending vm.codeDependencyCheckEnabled s := by
      constructor
      · intro _
        exact hs
      · intro _ hrqst
        rw [hfree] at hrqst
        cases hrqst
    exact agreesButPending_resolvePendingCodePublish (agreesButPending_runProgram hstart hprog) h
  | moduleBundle => exact agreesButPending_executeModules hs hfree h

end PublishingVm

/-- The code that a payload brings when it starts in `s`. -/
def Payload.bundles (s : Session) : Payload -> List (List UInt8)
  | script program =>
    match program s with
    | .ok calls => calls.flatMap PublishCall.code
    | _ => []
  | moduleBundle _ modules => modules

namespace PublishingVm

variable {typeTag : Type} {vm : PublishingVm typeTag} [DecidableEq typeTag] {s s' : Session}
  {payload : Payload}

/-- No new module of the payload has an initializer that calls `publish_package`. -/
def Quiet (vm : PublishingVm typeTag) (s : Session) (payload : Payload) : Prop :=
  forall blob module, blob ∈ payload.bundles s -> vm.deserialize blob = some module ->
    s.modules module.selfId = none -> vm.InitializesQuietly module

theorem free_of_quiet (hfree : s.code.requestedModuleBundle = none)
    (hquiet : vm.Quiet s payload) (h : vm.executePayload s payload = .ok s') :
    s'.code.requestedModuleBundle = none := by
  cases payload with
  | script program =>
    rcases of_bind h with ⟨ran, hprogram, h⟩
    rcases runProgram_requested hfree hprogram with ⟨hmodules, calls, hcalls, hbundle⟩
    unfold resolvePendingCodePublish at h
    split at h
    · next hnone =>
      cases h
      exact hnone
    · next request hrequest =>
      rcases of_bind h with ⟨bundle, hdeserialized, h⟩
      rcases of_check h with ⟨_, h⟩
      rcases of_bind h with ⟨published, hpub, h⟩
      rcases publishModuleBundle_eq_ok hpub with ⟨_, hcode, _⟩
      rcases hbundle request hrequest with ⟨call, hcall, hsame⟩
      have hsame' := initialization_quiet (fun module hmodule hnew => by
        rcases exists_deserialize_of_mem hdeserialized hmodule with ⟨blob, hblob, hfound⟩
        refine hquiet blob module ?_ hfound (by rw [← hmodules]; exact hnew)
        rw [Payload.bundles, hcalls]
        exact mem_flatMap.mpr ⟨call, hcall, hsame ▸ hblob⟩) h
      rw [hsame', hcode]
      rfl
  | moduleBundle sender modules =>
    rcases of_ensure h with ⟨_, h⟩
    rcases of_bind h with ⟨bundle, hdeserialized, h⟩
    rcases of_check h with ⟨hnew, h⟩
    rcases of_bind h with ⟨_, hpub, h⟩
    rcases publishModuleBundle_eq_ok hpub with ⟨_, hcode, _⟩
    have hsame := initialization_quiet (fun module hmodule _ => by
      rcases exists_deserialize_of_mem hdeserialized hmodule with ⟨blob, hblob, hfound⟩
      exact hquiet blob module hblob hfound (Option.isNone_iff_eq_none.mp
        (ensure_eq_ok_iff.mp (tryForEach_eq_ok hnew hmodule)))) h
    rw [hsame, hcode]
    exact hfree

end PublishingVm

/-!
# Transactions one after another
-/

structure Chain where
  registries : Address -> Option (List PackageMetadata)
  modules : Modules
  coexist : forall addr, ((registries addr).getD []).Pairwise Coexist

namespace Chain

def session (chain : Chain) : Session :=
  { code :=
      { registries := chain.registries
        requestedModuleBundle := none }
    modules := chain.modules
    coexist := chain.coexist }

def finish (s : Session) : Chain :=
  { registries := s.code.registries
    modules := s.modules
    coexist := s.coexist }

def Agrees (dependencyCheck : Bool) (chain : Chain) : Prop :=
  Packages.Agrees chain.session.code.packagesAt dependencyCheck chain.modules

variable {typeTag : Type} [DecidableEq typeTag] (vm : PublishingVm typeTag) (chain : Chain)

def execute (payload : Payload) : Chain :=
  match vm.executePayload chain.session payload with
  | .ok s => finish s
  | _ => chain

def run (payloads : List Payload) : Chain := payloads.foldl (execute vm) chain

theorem agrees_execute (chain : Chain) (payload : Payload)
    (hchain : chain.Agrees vm.codeDependencyCheckEnabled)
    (hquiet : vm.Quiet chain.session payload) :
    (chain.execute vm payload).Agrees vm.codeDependencyCheckEnabled := by
  unfold execute
  cases hres : vm.executePayload chain.session payload with
  | ok s =>
    exact (PublishingVm.agreesButPending_executePayload hchain rfl hres).free
      (PublishingVm.free_of_quiet rfl hquiet hres)
  | err | panic => exact hchain

/-- Every accepted bundle matches its metadata.  The registries agree with the
code after each transaction of a history in which no initializer calls `publish_package`. -/
theorem agrees_along_of_quiet (payloads : List Payload)
    (hchain : chain.Agrees vm.codeDependencyCheckEnabled)
    (hquiet : forall before payload after, payloads = before ++ payload :: after ->
      vm.Quiet (chain.run vm before).session payload) :
    vm.BundleMatches ∧ forall before after, payloads = before ++ after ->
      (chain.run vm before).Agrees vm.codeDependencyCheckEnabled :=
  ⟨vm.bundleMatches, Transition.along_of_step (agrees_execute vm) hchain hquiet⟩

end Chain

/-!
# A package without code
-/

def Chain.empty : Chain :=
  { registries := fun _ => none
    modules := fun _ => none
    coexist := fun _ => List.Pairwise.nil }

theorem Chain.empty_agrees (dependencyCheck : Bool) : Chain.empty.Agrees dependencyCheck := by
  intro _ _ hpack
  cases hpack

def vaultOwner : Address := Address.ofNat 16

def vaultModule : CompiledModule :=
  { version := 6
    selfId :=
      { address := vaultOwner
        name := { asStr := "vault", nonempty := by decide } }
    immediateDependencies := []
    metadata := []
    structDefs := []
    functionDefs := [] }

def packageOf (name : String) : PackageMetadata :=
  { name := name
    upgradePolicy := upgradePolicyCompat
    upgradeNumber := 0
    modules := [{ name := name }]
    deps := [] }

def vaultVm (initModule : CompiledModule -> Option (Address -> Program)) : PublishingVm Unit :=
  { codec :=
      { decodeV1 := fun _ => none
        decodesV0 := fun _ => false
        parseStructTag := fun _ => none }
    resourceGroupsEnabled := true
    codeDependencyCheckEnabled := true
    moduleBundleDisallowed := true
    deserialize := fun bytes => if bytes = [1] then some vaultModule else none
    bundleError := fun _ _ _ => none
    initModule := initModule
    verifyModuleInitFunction := fun _ => true
    convertAbort := fun _ =>
      { status := .other 0
        message := "" } }

def publishVault : Payload :=
  .script fun _ => .ok
    [{ owner := vaultOwner
       pack := packageOf "vault"
       code := [[1]] }]

def registerGhost : CompiledModule -> Option (Address -> Program) :=
  fun _ => some fun signer _ => .ok
    [{ owner := signer
       pack := packageOf "ghost"
       code := [] }]

/-- An initializer that runs and calls nothing. -/
def initializeQuietly : CompiledModule -> Option (Address -> Program) :=
  fun _ => some fun _ _ => .ok []

theorem publishVault_agrees :
    (Chain.empty.run (vaultVm initializeQuietly) [publishVault]).Agrees true := by
  have hquiet : forall before payload after, [publishVault] = before ++ payload :: after ->
      (vaultVm initializeQuietly).Quiet
        (Chain.empty.run (vaultVm initializeQuietly) before).session payload := by
    intro _ _ _ _ _ _ _ _ _ init hinit _ _ calls hcalls
    cases hinit
    cases hcalls
    rfl
  exact (Chain.agrees_along_of_quiet (vaultVm initializeQuietly) Chain.empty [publishVault]
    (Chain.empty_agrees true) hquiet).2 [publishVault] [] rfl

theorem registerGhost_not_agrees : Chain.empty.Agrees true ∧
    ¬ (Chain.empty.run (vaultVm registerGhost) [publishVault]).Agrees
      true := by
  refine ⟨Chain.empty_agrees true, ?_⟩
  intro hagrees
  have hregistered : packageOf "ghost" ∈ (Chain.empty.run
    (vaultVm registerGhost) [publishVault]).session.code.packagesAt
      vaultOwner := by
    decide +kernel
  rcases hagrees vaultOwner (packageOf "ghost") hregistered "ghost"
    (by decide) with ⟨⟨address, name, nonempty⟩, module, haddr, hname, hmodule, _⟩
  change address = vaultOwner at haddr
  change name = "ghost" at hname
  subst haddr hname
  have hmissing : (Chain.empty.run (vaultVm registerGhost) [publishVault]).modules
      { address := vaultOwner
        name := { asStr := "ghost", nonempty := by decide } } = none := by
    decide +kernel
  rw [hmissing] at hmodule
  cases hmodule

end OpenLibra.Packages
