import OpenLibra.Packages.GroupStability
import OpenLibra.Packages.RegistryInvariants

/-!
# Publishing of code by the VM

After a script the VM takes the request it has left, publishes the bundle and runs the
initializers of new modules.
-/

namespace OpenLibra.Packages

open Rust Move

/-!
# Sessions
-/

structure Session where
  code : CodeStorage
  modules : Modules
  coexist : forall addr, (code.packagesAt addr).Pairwise Coexist

/-- A call of `publish_package`. -/
structure PublishCall where
  owner : Address
  pack : PackageMetadata
  code : List (List UInt8)

abbrev Program := Session -> VmResult (List PublishCall)

structure PublishingVm (typeTag : Type) where
  codec : MetadataCodec typeTag
  resourceGroupsEnabled : Bool
  codeDependencyCheckEnabled : Bool
  moduleBundleDisallowed : Bool
  deserialize : List UInt8 -> Option CompiledModule
  bundleError : Modules -> Address -> List CompiledModule -> Option VmError
  initModule : CompiledModule -> Option (Address -> Program)
  verifyModuleInitFunction : CompiledModule -> Bool
  convertAbort : Abort -> VmError

/-- Transactions that run a script or an entry function, and those that bring
modules without a package. -/
inductive Payload where
  | script (program : Program)
  | moduleBundle (sender : Address) (modules : List (List UInt8))

namespace AllowedDeps

def permits (allowed : AllowedDeps) (dep : ModuleId) : Bool :=
  ((allowed.lookup dep.address).map fun modules =>
    decide ("" ∈ modules) || decide (dep.name.asStr ∈ modules)).getD false

theorem allows_of_permits {allowed : AllowedDeps} {dep : ModuleId}
    (h : allowed.permits dep = true) : allowed.Allows dep.address "" ∨
      allowed.Allows dep.address dep.name.asStr := by
  unfold permits at h
  cases hnames : allowed.lookup dep.address with
  | none =>
    rw [hnames] at h
    cases h
  | some names =>
    rw [hnames, Option.map_some, Option.getD_some, Bool.or_eq_true,
      decide_eq_true_eq, decide_eq_true_eq] at h
    rcases h with hall | hone
    · exact .inl ⟨names, hnames, hall⟩
    · exact .inr ⟨names, hnames, hone⟩

end AllowedDeps

namespace PublishingVm

variable {typeTag : Type} (vm : PublishingVm typeTag) (s : Session)

def callPublishPackage (call : PublishCall) : VmResult Session :=
  match h : s.code.publishPackage vm.codeDependencyCheckEnabled call.owner
      call.pack call.code with
  | .ok code => .ok
      { s with
        code := code
        coexist := by
          rcases published_of_publishPackage (s.coexist call.owner) h with ⟨_, _, hpub⟩
          exact hpub.coexist s.coexist }
  | .err e => .err (vm.convertAbort e)
  | .panic => .panic

def runProgram (program : Program) : VmResult Session := do
  let calls <- program s
  tryFold vm.callPublishPackage s calls

/-!
# Modules
-/

def deserializeModuleBundle (bundle : List (List UInt8)) : VmResult (List CompiledModule) :=
  tryMap
    (fun moduleBlob =>
      match vm.deserialize moduleBlob with
      | some module => .ok module
      | none => .err
          { status := .codeDeserializationError
            message := "" })
    bundle

def publishModuleBundle (bundle : List CompiledModule) (sender : Address) : VmResult Session := do
  tryForEach
    (fun module =>
      ensure (module.selfId.address = sender)
        { status := .moduleAddressDoesNotMatchSender
          message := "" })
    bundle
  match vm.bundleError s.modules sender bundle with
  | some e => .err e
  | none => .ok { s with modules := s.modules.publish bundle }

/-- The initializers of the modules that are not in `existing`. -/
def executeModuleInitialization (existing : Modules) (sender : Address)
    (s : Session) (module : CompiledModule) : VmResult Session :=
  if (existing module.selfId).isSome then .ok s
  else
    match vm.initModule module with
    | none => .ok s
    | some initFunction => do
      ensure (vm.verifyModuleInitFunction module = true)
        { status := .constraintNotSatisfied
          message := "" }
      vm.runProgram s (initFunction sender)

def verifyModuleBundle (modules : List CompiledModule) : VmResult Unit :=
  tryForEach
    (fun module =>
      ensure ((s.modules module.selfId).isNone = true)
        { status := .duplicateModuleName
          message := "" })
    modules

def executeModules (sender : Address) (modules : List (List UInt8)) : VmResult Session := do
  ensure (vm.moduleBundleDisallowed = false)
    { status := .featureUnderGating
      message := "" }
  let modules <- vm.deserializeModuleBundle modules
  verifyModuleBundle s modules
  let published <- vm.publishModuleBundle s modules sender
  tryFold (vm.executeModuleInitialization (fun _ => none) sender) published modules

def checkModuleDependencies (allowedDeps : Option AllowedDeps) (module : CompiledModule) :
    VmResult Unit :=
  match allowedDeps with
  | some allowed =>
    tryForEach
      (fun dep =>
        ensure (allowed.permits dep = true) (metadataValidationError
            ("unregistered dependency: '" ++ dep.toString ++ "'")))
      module.immediateDependencies
  | none => .ok ()

def validateModule (allowedDeps : Option AllowedDeps)
    (expectedModules : Finset String) (module : CompiledModule) :
    VmResult (Finset String) := do
  ensure (module.selfId.name.asStr ∈ expectedModules) (metadataValidationError
      ("unregistered module: '" ++ module.selfId.name.asStr ++ "'"))
  checkModuleDependencies allowedDeps module
  (verifyModuleMetadata vm.codec vm.resourceGroupsEnabled module).mapErr
    fun e => metadataValidationError e.toString
  return expectedModules.erase module.selfId.name.asStr

variable [DecidableEq typeTag]

def validatePublishRequest (published : Modules) (modules : List CompiledModule)
    (expectedModules : Finset String) (allowedDeps : Option AllowedDeps) : VmResult Unit := do
  let unpublished <- tryFold (vm.validateModule allowedDeps) expectedModules modules
  validateResourceGroups vm.codec published modules
  ensure (unpublished = ∅) (metadataValidationError "not all registered modules published")

def resolvePendingCodePublish (s : Session) : VmResult Session :=
  match s.code.requestedModuleBundle with
  | none => .ok s
  | some request => do
    let s := { s with code := s.code.withoutRequest }
    let modules <- vm.deserializeModuleBundle request.bundle
    vm.validatePublishRequest s.modules modules request.expectedModules request.allowedDeps
    let published <- vm.publishModuleBundle s modules request.destination
    tryFold (vm.executeModuleInitialization s.modules request.destination) published modules

def executePayload (s : Session) : Payload -> VmResult Session
  | .script program => do
    let s <- vm.runProgram s program
    vm.resolvePendingCodePublish s
  | .moduleBundle sender modules => vm.executeModules s sender modules

end PublishingVm

end OpenLibra.Packages
