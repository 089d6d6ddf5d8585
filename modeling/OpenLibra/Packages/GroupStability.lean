import OpenLibra.Packages.ResourceGroups
import OpenLibra.Transition.System

/-!
# Resource groups under upgrades

Accepted bundles keep members and groups, but an upgrade can put a published struct into a
group.
-/

namespace OpenLibra.Packages

open Rust Move List Function

def Modules.publish (modules : Modules) (bundle : List CompiledModule) : Modules :=
  bundle.foldl
    (fun modules module =>
      update modules module.selfId (some module))
    modules

section

variable {modules : Modules} {bundle : List CompiledModule}

theorem Modules.publish_of_not_mem {moduleId : ModuleId}
    (h : moduleId ∉ bundle.map CompiledModule.selfId) :
    modules.publish bundle moduleId = modules moduleId := by
  unfold Modules.publish
  induction bundle generalizing modules with
  | nil => rfl
  | cons first rest ih =>
    rw [map_cons, mem_cons, not_or] at h
    rw [foldl_cons, ih h.2, update_of_ne h.1]

theorem Modules.publish_of_mem {module} (hdist : (bundle.map CompiledModule.selfId).Nodup)
    (h : module ∈ bundle) : modules.publish bundle module.selfId = some module := by
  induction bundle generalizing modules with
  | nil => cases h
  | cons first rest ih =>
    rw [map_cons, nodup_cons] at hdist
    rcases mem_cons.mp h with rfl | hmem
    · change Modules.publish (update modules module.selfId (some module)) rest
        module.selfId = some module
      rw [publish_of_not_mem hdist.1, update_self]
    · exact ih hdist.2 hmem

end

/-!
# The validation of a bundle
-/

section

variable {typeTag : Type} {codec : MetadataCodec typeTag} {modules : Modules}
  {bundle : List CompiledModule}

def Admits (read : CompiledModule -> Option RuntimeModuleMetadataV1) (modules : Modules)
    (moduleId : ModuleId) (tag : StructTag typeTag) : Prop :=
  exists scope, scopeOf read (modules tag.moduleId) tag.name.asStr = some scope ∧
      scope.areEqualModuleIds moduleId tag.moduleId = true

structure GroupsLoaded (codec : MetadataCodec typeTag) (modules : Modules)
    (bundle : List CompiledModule)
    (groups : AList fun _ : ModuleId => Groups) : Prop where
  inBundle : forall module, module ∈ bundle -> (groups.lookup module.selfId).isSome = true
  contents : forall moduleId inner, groups.lookup moduleId = some inner ->
    forall name, inner.lookup name =
      scopeOf (getModuleMetadata codec) (modules.publish bundle moduleId) name

variable {groups groups' : AList fun _ : ModuleId => Groups}

theorem GroupsLoaded.loadGroups
    {moduleId : ModuleId} (hgrps : GroupsLoaded codec modules bundle groups)
    (h : loadGroups codec modules groups moduleId = .ok groups') :
    GroupsLoaded codec modules bundle groups' := by
  unfold Packages.loadGroups at h
  split at h
  · cases h
    exact hgrps
  · next hmissing =>
      rcases of_bind h with ⟨_, hinner, h⟩
      cases h
      have houtside : moduleId ∉ bundle.map CompiledModule.selfId := by
        intro hmem
        rcases mem_map.mp hmem with ⟨module, hmod, rfl⟩
        exact hmissing (hgrps.inBundle module hmod)
      constructor
      · intro module hmod
        rw [AList.lookup_insert_ne]
        · exact hgrps.inBundle module hmod
        · intro hsame
          exact houtside (mem_map.mpr ⟨module, hmod, hsame⟩)
      · intro other found hfound name
        by_cases hother : other = moduleId
        · subst hother
          rw [AList.lookup_insert] at hfound
          cases hfound
          rw [Modules.publish_of_not_mem houtside]
          exact (lookup_of_extractFromMetadata hinner name).1
        · rw [AList.lookup_insert_ne hother] at hfound
          exact hgrps.contents other found hfound name

variable {member : ModuleId × StructTag typeTag}

theorem GroupsLoaded.validateMember (hgrps : GroupsLoaded codec modules bundle groups)
    (h : validateMember codec modules groups member = .ok groups') :
    GroupsLoaded codec modules bundle groups' ∧
      Admits (getModuleMetadata codec) (modules.publish bundle) member.1 member.2 := by
  rcases of_bind h with ⟨_, hloaded, h⟩
  rcases of_bind h with ⟨inner, hinner, h⟩
  rcases of_bind h with ⟨scope, hscope, h⟩
  rcases of_ensure h with ⟨hadmits, h⟩
  cases h
  have hall := hgrps.loadGroups hloaded
  refine ⟨hall, scope, ?_, hadmits⟩
  rw [← hall.contents _ inner (okOrElse_eq_ok_iff.mp hinner)]
  exact okOrElse_eq_ok_iff.mp hscope

structure Collected (codec : MetadataCodec typeTag) (modules : Modules)
    (seen : List CompiledModule) (data : BundleMetadata typeTag) :
    Prop where
  replaces : (seen.map CompiledModule.selfId).Nodup -> forall module, module ∈ seen ->
      exists new, Replaces codec modules module new ∧
        data.groups.lookup module.selfId = some new.groups ∧
        data.members.lookup module.selfId = some new.members
  missing : forall moduleId, moduleId ∉ seen.map CompiledModule.selfId ->
    data.groups.lookup moduleId = none

variable {data : BundleMetadata typeTag}

variable [DecidableEq typeTag] {module : CompiledModule}

theorem Collected.collectModule {seen} {data'} (hdata : Collected codec modules seen data)
    (h : collectModule codec modules data module = .ok data') :
    Collected codec modules (seen ++ [module]) data' := by
  rcases of_bind h with ⟨new, hnew, h⟩
  cases h
  constructor
  · intro hdist other hother
    rw [map_append, nodup_append] at hdist
    rcases hdist with ⟨hseen, _, hcross⟩
    rcases mem_append.mp hother with hold | hlast
    · have hne : other.selfId ≠ module.selfId :=
        hcross _ (mem_map_of_mem hold) _ (mem_singleton_self _)
      rcases hdata.replaces hseen other hold with ⟨found, hrepl, hgrps, hmembers⟩
      refine ⟨found, hrepl, ?_, ?_⟩
      · rw [AList.lookup_insert_ne hne]
        exact hgrps
      · rw [AList.lookup_insert_ne hne]
        exact hmembers
    · rw [mem_singleton.mp hlast]
      exact ⟨new, replaces_of_validateModule hnew, AList.lookup_insert _, AList.lookup_insert _⟩
  · intro moduleId hmissing
    rw [map_append, mem_append, not_or] at hmissing
    have hne : moduleId ≠ module.selfId := by
      intro hsame
      exact hmissing.2 (mem_singleton.mpr hsame)
    rw [AList.lookup_insert_ne hne]
    exact hdata.missing moduleId hmissing.1

end

section

variable {typeTag : Type} (codec : MetadataCodec typeTag)
  (read : CompiledModule -> Option RuntimeModuleMetadataV1) (modules modules' : Modules)

end

/-!
# Accepted bundles
-/

section

variable {typeTag : Type} [DecidableEq typeTag]

variable {codec : MetadataCodec typeTag} {enabled : Bool} {modules : Modules} {bundle : Bundle}

end

/-!
# A struct that is put into a group
-/

end OpenLibra.Packages
