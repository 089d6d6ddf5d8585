import OpenLibra.Packages.CompiledModules

/-!
# Validation of resource groups

A bundle is compared with the modules it replaces.  Members and groups must stay, and a group may
only become more permissive.
-/

namespace OpenLibra.Packages

open Rust List

/-!
# Errors of the VM
-/

inductive StatusCode where
  | constraintNotSatisfied
  | codeDeserializationError
  | duplicateModuleName
  | moduleAddressDoesNotMatchSender
  | featureUnderGating
  | other (code : Nat)
deriving DecidableEq, Repr

structure VmError where
  status : StatusCode
  message : String
deriving DecidableEq, Repr

abbrev VmResult (alpha : Type) := Outcome VmError alpha

def metadataValidationError (msg : String) : VmError :=
  { status := .constraintNotSatisfied
    message := "metadata and code bundle mismatch: " ++ msg }

/-- `Option::ok_or_else` with such an error. -/
def okOrElse {alpha : Type} (value : Option alpha) (msg : String) : VmResult alpha :=
  match value with
  | some value => .ok value
  | none => .err (metadataValidationError msg)

theorem okOrElse_eq_ok_iff {alpha : Type} {value} {msg : String} {result : alpha} :
    okOrElse value msg = .ok result <-> value = some result := by
  cases value with
  | none | some => simp [okOrElse]

/-!
# Groups and members of a module
-/

abbrev Groups := AList fun _ : String => ResourceGroupScope

abbrev Members (typeTag : Type) := AList fun _ : String => StructTag typeTag

structure GroupMetadata (typeTag : Type) where
  groups : Groups
  members : Members typeTag

def GroupMetadata.empty {typeTag : Type} : GroupMetadata typeTag :=
  { groups := ∅
    members := ∅ }

abbrev Modules := ModuleId -> Option CompiledModule

def RuntimeModuleMetadataV1.structPairs (metadata : RuntimeModuleMetadataV1) :
    List (String × KnownAttribute) :=
  metadata.structAttributes.entries.flatMap fun entry =>
    entry.2.map fun attr => (entry.1, attr)

section

variable {typeTag : Type} (codec : MetadataCodec typeTag)

def extractAttribute (data : GroupMetadata typeTag) (pair : String × KnownAttribute) :
    VmResult (GroupMetadata typeTag) :=
  if pair.2.isResourceGroup then do
    let group <- okOrElse pair.2.getResourceGroup "Invalid resource_group attribute"
    ensure ((data.groups.lookup pair.1).isNone = true)
      (metadataValidationError "Found duplicate resource_group attribute")
    return { data with groups := data.groups.insert pair.1 group }
  else if pair.2.isResourceGroupMember then do
    let member <- okOrElse (pair.2.getResourceGroupMember codec)
      "Invalid resource_group_member attribute"
    ensure ((data.members.lookup pair.1).isNone = true) (metadataValidationError
        "Found duplicate resource_group_member attribute")
    return { data with members := data.members.insert pair.1 member }
  else .ok data

def extractResourceGroupMetadata (metadata : RuntimeModuleMetadataV1) :
    VmResult (GroupMetadata typeTag) :=
  tryFold (extractAttribute codec) GroupMetadata.empty metadata.structPairs

def extractFromMetadata (metadata : Option RuntimeModuleMetadataV1) :
    VmResult (GroupMetadata typeTag) :=
  match metadata with
  | some metadata => extractResourceGroupMetadata codec metadata
  | none => .ok GroupMetadata.empty

def extractResourceGroupMetadataFromModule (modules : Modules) (moduleId : ModuleId) :
    VmResult (GroupMetadata typeTag) :=
  extractFromMetadata codec ((modules moduleId).bind (getModuleMetadata codec))

structure BundleMetadata (typeTag : Type) where
  groups : AList fun _ : ModuleId => Groups
  members : AList fun _ : ModuleId => Members typeTag

variable (modules : Modules) (groups : AList fun _ : ModuleId => Groups)

def loadGroups (moduleId : ModuleId) : VmResult (AList fun _ : ModuleId => Groups) :=
  if (groups.lookup moduleId).isSome then .ok groups
  else do
    let inner <- extractResourceGroupMetadataFromModule codec modules moduleId
    return groups.insert moduleId inner.groups

def validateMember (member : ModuleId × StructTag typeTag) :
    VmResult (AList fun _ : ModuleId => Groups) := do
  let groups <- loadGroups codec modules groups member.2.moduleId
  let innerGroup <- okOrElse (groups.lookup member.2.moduleId) "No such resource_group"
  let scope <- okOrElse (innerGroup.lookup member.2.name.asStr) "Invalid resource_group attribute"
  ensure (scope.areEqualModuleIds member.1 member.2.moduleId = true)
    (metadataValidationError "Scope mismatch")
  return groups

def BundleMetadata.memberPairs (data : BundleMetadata typeTag) :
    List (ModuleId × StructTag typeTag) :=
  data.members.entries.flatMap fun entry =>
    entry.2.entries.map fun member => (entry.1, member.2)

variable [DecidableEq typeTag]

def removeOriginalMember (newMembers : Members typeTag)
    (original : (_ : String) × StructTag typeTag) :
    VmResult (Members typeTag) := do
  ensure (newMembers.lookup original.1 = some original.2)
    (metadataValidationError "Invalid change in resource_group_member")
  return newMembers.erase original.1

def checkOriginalGroup (newGroups : Groups) (original : (_ : String) × ResourceGroupScope) :
    VmResult Unit := do
  let newValue <- okOrElse (newGroups.lookup original.1) "Invalid change in resource_group"
  ensure (¬ original.2.isLessStrict newValue = true)
    (metadataValidationError "Invalid change in resource_group")

def validateModuleAndExtractNewEntries (modules : Modules) (module : CompiledModule) :
    VmResult (GroupMetadata typeTag) := do
  let new <- extractFromMetadata codec (getModuleMetadata codec module)
  let original <- extractResourceGroupMetadataFromModule codec modules module.selfId
  let newMembers <- tryFold removeOriginalMember new.members original.members.entries
  tryForEach (checkOriginalGroup new.groups) original.groups.entries
  return { new with members := newMembers }

def collectModule (modules : Modules) (data : BundleMetadata typeTag) (module : CompiledModule) :
    VmResult (BundleMetadata typeTag) := do
  let new <- validateModuleAndExtractNewEntries codec modules module
  return {
    groups := data.groups.insert module.selfId new.groups
    members := data.members.insert module.selfId new.members }

def validateResourceGroups (modules : Modules) (bundle : List CompiledModule) : VmResult Unit := do
  let data <- tryFold (collectModule codec modules)
    { groups := ∅
      members := ∅ } bundle
  let _ <- tryFold (validateMember codec modules) data.groups data.memberPairs
  return ()

end

/-!
# What is extracted
-/

section

variable {beta typeTag : Type} {codec : MetadataCodec typeTag}
  {read : KnownAttribute -> Option beta} {pairs : List (String × KnownAttribute)}
  {map : AList fun _ : String => beta}

def Reads (read : KnownAttribute -> Option beta) (pairs : List (String × KnownAttribute))
    (map : AList fun _ : String => beta) : Prop :=
  forall name value, map.lookup name = some value <->
    exists attr, (name, attr) ∈ pairs ∧ read attr = some value

theorem reads_nil (read : KnownAttribute -> Option beta) : Reads read [] ∅ := by
  intro _ _
  simp

variable {pair : String × KnownAttribute} {metadata : RuntimeModuleMetadataV1}
  {data : GroupMetadata typeTag}

theorem Reads.skip (h : Reads read pairs map) (hpair : read pair.2 = none) :
    Reads read (pairs ++ [pair]) map := by
  intro name value
  rw [h name value]
  constructor
  · rintro ⟨attr, hmem, hread⟩
    exact ⟨attr, mem_append_left _ hmem, hread⟩
  · rintro ⟨attr, hmem, hread⟩
    rcases mem_append.mp hmem with hold | hnew
    · exact ⟨attr, hold, hread⟩
    · rw [← mem_singleton.mp hnew, hread] at hpair
      cases hpair

theorem Reads.insert (h : Reads read pairs map) {new : beta}
    (hfree : map.lookup pair.1 = none) (hpair : read pair.2 = some new) :
    Reads read (pairs ++ [pair]) (map.insert pair.1 new) := by
  intro name value
  by_cases hname : name = pair.1
  · subst hname
    rw [AList.lookup_insert]
    constructor
    · intro hval
      cases hval
      exact ⟨pair.2, mem_append_right _ (mem_singleton_self _), hpair⟩
    · rintro ⟨attr, hmem, hread⟩
      rcases mem_append.mp hmem with hold | hnew
      · rw [(h pair.1 value).mpr ⟨attr, hold, hread⟩] at hfree
        cases hfree
      · rw [← mem_singleton.mp hnew] at hpair
        exact hpair.symm.trans hread
  · rw [AList.lookup_insert_ne hname, h name value]
    constructor
    · rintro ⟨attr, hmem, hread⟩
      exact ⟨attr, mem_append_left _ hmem, hread⟩
    · rintro ⟨attr, hmem, hread⟩
      rcases mem_append.mp hmem with hold | hnew
      · exact ⟨attr, hold, hread⟩
      · rw [← mem_singleton.mp hnew] at hname
        exact absurd rfl hname

theorem mem_structPairs_iff {name : String} {attr} : (name, attr) ∈ metadata.structPairs <->
    exists attrs, metadata.structAttributes.lookup name = some attrs ∧ attr ∈ attrs := by
  unfold RuntimeModuleMetadataV1.structPairs
  rw [mem_flatMap]
  constructor
  · rintro ⟨⟨_, attrs⟩, hent, hpair⟩
    rcases mem_map.mp hpair with ⟨_, hfound, hsame⟩
    cases hsame
    exact ⟨attrs, AList.mem_lookup_iff.mpr hent, hfound⟩
  · rintro ⟨attrs, hlook, hattr⟩
    exact ⟨⟨name, attrs⟩, AList.mem_lookup_iff.mp hlook, mem_map_of_mem hattr⟩

theorem Reads.lookup_eq (h : Reads read metadata.structPairs map) (name : String) :
    map.lookup name = metadata.readStruct read name := by
  have hread : forall value, metadata.readStruct read name = some value ->
    map.lookup name = some value := by
    intro value hval
    rcases Option.bind_eq_some_iff.mp hval with ⟨attrs, hattrs, hfound⟩
    rcases exists_of_findSome?_eq_some hfound with ⟨attr, hattr, hattrRead⟩
    exact (h name value).mpr ⟨attr, mem_structPairs_iff.mpr ⟨attrs, hattrs, hattr⟩, hattrRead⟩
  cases hlook : map.lookup name with
  | none =>
    cases hstruct : metadata.readStruct read name with
    | none => rfl
    | some value =>
      rw [hread value hstruct] at hlook
      cases hlook
  | some value =>
    rcases (h name value).mp hlook with ⟨attr, hmem, hattrRead⟩
    rcases mem_structPairs_iff.mp hmem with ⟨_, hattrs, hattr⟩
    have hsome : (metadata.readStruct read name).isSome = true := by
      unfold RuntimeModuleMetadataV1.readStruct
      rw [hattrs, Option.bind_some, List.findSome?_isSome_iff]
      exact ⟨attr, hattr, by rw [hattrRead]; rfl⟩
    rcases Option.isSome_iff_exists.mp hsome with ⟨found, hfound⟩
    rw [hfound, ← hread found hfound, hlook]

structure Extracted (codec : MetadataCodec typeTag)
    (pairs : List (String × KnownAttribute)) (data : GroupMetadata typeTag) :
    Prop where
  groups : Reads KnownAttribute.getResourceGroup pairs data.groups
  members : Reads (KnownAttribute.getResourceGroupMember codec) pairs data.members

theorem Extracted.attribute {data'} (h : Extracted codec pairs data)
    (hstep : extractAttribute codec data pair = .ok data') :
    Extracted codec (pairs ++ [pair]) data' := by
  unfold extractAttribute at hstep
  split at hstep
  · next hgroup =>
      rcases of_bind hstep with ⟨_, hscope, hstep⟩
      rcases of_ensure hstep with ⟨hfree, hstep⟩
      cases hstep
      have hmemb : pair.2.getResourceGroupMember codec = none := by
        unfold KnownAttribute.getResourceGroupMember
        rw [KnownAttribute.not_member_of_isResourceGroup hgroup]
        rfl
      exact ⟨h.groups.insert (Option.isNone_iff_eq_none.mp hfree)
        (okOrElse_eq_ok_iff.mp hscope), h.members.skip hmemb⟩
  · next hgroup =>
      have hscope : pair.2.getResourceGroup = none := if_neg hgroup
      split at hstep
      · rcases of_bind hstep with ⟨_, htag, hstep⟩
        rcases of_ensure hstep with ⟨hfree, hstep⟩
        cases hstep
        exact ⟨h.groups.skip hscope, h.members.insert
          (Option.isNone_iff_eq_none.mp hfree) (okOrElse_eq_ok_iff.mp htag)⟩
      · next hmemb =>
          cases hstep
          exact ⟨h.groups.skip hscope, h.members.skip (if_neg hmemb)⟩

theorem extracted_of_extractResourceGroupMetadata
    (h : extractResourceGroupMetadata codec metadata = .ok data) :
    Extracted codec metadata.structPairs data := by
  refine tryFold_invariant (Extracted codec) ?_ ?_ h
  · intro _ _ _ _ hdata hstep
    exact hdata.attribute hstep
  · exact ⟨reads_nil _, reads_nil _⟩

section

variable (codec : MetadataCodec typeTag)
  (read : CompiledModule -> Option RuntimeModuleMetadataV1) (module : Option CompiledModule)
  (name : String)

/-- The group of a struct by what `read` finds in its module. -/
def memberOf : Option (StructTag typeTag) :=
  getResourceGroupFromMetadata codec name (module.bind read)

def scopeOf : Option ResourceGroupScope :=
  (module.bind read).bind fun metadata =>
    metadata.readStruct KnownAttribute.getResourceGroup name

end

theorem lookup_of_extractFromMetadata {module}
    (h : extractFromMetadata codec (module.bind (getModuleMetadata codec)) = .ok data)
    (name : String) : data.groups.lookup name = scopeOf (getModuleMetadata codec) module name ∧
      data.members.lookup name = memberOf codec (getModuleMetadata codec) module name := by
  unfold scopeOf memberOf getResourceGroupFromMetadata
  cases hmetadata : module.bind (getModuleMetadata codec) with
  | none =>
    rw [hmetadata] at h
    cases h
    exact ⟨rfl, rfl⟩
  | some =>
    rw [hmetadata] at h
    have hextracted := extracted_of_extractResourceGroupMetadata h
    exact ⟨hextracted.groups.lookup_eq name, hextracted.members.lookup_eq name⟩

end

/-!
# What validation has established
-/

variable {typeTag : Type} {codec : MetadataCodec typeTag} {modules : Modules}
  {module : CompiledModule}

theorem checkOriginalGroup_eq_ok {newGroups : Groups} {original}
    (h : checkOriginalGroup newGroups original = .ok ()) :
    exists scope, newGroups.lookup original.1 = some scope ∧
      ¬ original.2.isLessStrict scope = true := by
  rcases of_bind h with ⟨scope, hscope, h⟩
  exact ⟨scope, okOrElse_eq_ok_iff.mp hscope, ensure_eq_ok_iff.mp h⟩

variable {new rest rest' original : Members typeTag}
  {seen : List ((_ : String) × StructTag typeTag)}

structure Removed (new : Members typeTag) (seen : List ((_ : String) × StructTag typeTag))
    (rest : Members typeTag) : Prop where
  kept : forall entry, entry ∈ seen -> new.lookup entry.1 = some entry.2
  gone : forall name, name ∈ seen.map Sigma.fst -> rest.lookup name = none
  left : forall name, name ∉ seen.map Sigma.fst -> rest.lookup name = new.lookup name

variable [DecidableEq typeTag]

theorem Removed.step {entry} (h : Removed new seen rest)
    (hstep : removeOriginalMember rest entry = .ok rest') :
    Removed new (seen ++ [entry]) rest' := by
  rcases of_ensure hstep with ⟨hent, hstep⟩
  cases hstep
  -- A member that was seen is not found a second time.
  have hunseen : entry.1 ∉ seen.map Sigma.fst := by
    intro hmem
    rw [h.gone entry.1 hmem] at hent
    cases hent
  constructor
  · intro other hother
    rcases mem_append.mp hother with hold | hnew
    · exact h.kept other hold
    · rw [mem_singleton.mp hnew, ← h.left entry.1 hunseen]
      exact hent
  · intro name hname
    by_cases hsame : name = entry.1
    · subst hsame
      exact AList.lookup_erase _ _
    · rw [AList.lookup_erase_ne hsame]
      rw [map_append, mem_append] at hname
      rcases hname with hold | hnew
      · exact h.gone name hold
      · exact absurd (mem_singleton.mp hnew) hsame
  · intro name hname
    rw [map_append, mem_append, not_or] at hname
    have hne : name ≠ entry.1 := by
      intro hsame
      exact hname.2 (mem_singleton.mpr hsame)
    rw [AList.lookup_erase_ne hne]
    exact h.left name hname.1

theorem removeOriginalMembers_eq_ok
    (h : tryFold removeOriginalMember new original.entries = .ok rest) :
    (forall name tag, original.lookup name = some tag -> new.lookup name = some tag) ∧
      forall name, original.lookup name = none -> rest.lookup name = new.lookup name := by
  have hremoved : Removed new original.entries rest := by
    refine tryFold_invariant (Removed new) ?_ ?_ h
    · intro _ _ _ _ hrest hstep
      exact hrest.step hstep
    · exact ⟨fun _ hmem => absurd hmem not_mem_nil,
        fun _ hmem => absurd hmem not_mem_nil, fun _ _ => rfl⟩
  constructor
  · intro name tag htag
    exact hremoved.kept ⟨name, tag⟩ (AList.mem_lookup_iff.mp htag)
  · intro name hname
    exact hremoved.left name (AList.lookup_eq_none.mp hname)

/-- A module is a valid replacement of the one that is published, and `new` has
all of its groups and its new members. -/
structure Replaces (codec : MetadataCodec typeTag) (modules : Modules)
    (module : CompiledModule) (new : GroupMetadata typeTag) : Prop where
  groups : forall name,
    new.groups.lookup name = scopeOf (getModuleMetadata codec) (some module) name
  members : forall name,
    memberOf codec (getModuleMetadata codec) (modules module.selfId) name = none ->
    new.members.lookup name = memberOf codec (getModuleMetadata codec) (some module) name
  membersKept : forall name tag,
    memberOf codec (getModuleMetadata codec) (modules module.selfId) name = some tag ->
      memberOf codec (getModuleMetadata codec) (some module) name = some tag
  groupsKept : forall name scope,
    scopeOf (getModuleMetadata codec) (modules module.selfId) name = some scope ->
      exists scope', scopeOf (getModuleMetadata codec) (some module) name = some scope' ∧
        ¬ scope.isLessStrict scope' = true

theorem replaces_of_validateModule {new}
    (h : validateModuleAndExtractNewEntries codec modules module = .ok new) :
    Replaces codec modules module new := by
  rcases of_bind h with ⟨all, hall, h⟩
  rcases of_bind h with ⟨original, horiginal, h⟩
  rcases of_bind h with ⟨_, hrest, h⟩
  rcases of_check h with ⟨hgrps, h⟩
  cases h
  have hnow : forall name,
      all.groups.lookup name = scopeOf (getModuleMetadata codec) (some module) name ∧
      all.members.lookup name = memberOf codec (getModuleMetadata codec) (some module) name :=
    fun name => lookup_of_extractFromMetadata hall name
  have hbef := lookup_of_extractFromMetadata horiginal
  rcases removeOriginalMembers_eq_ok hrest with ⟨hkept, hleft⟩
  constructor
  · intro name
    exact (hnow name).1
  · intro name hname
    rw [← (hbef name).2] at hname
    rw [← (hnow name).2]
    exact hleft name hname
  · intro name tag htag
    rw [← (hbef name).2] at htag
    rw [← (hnow name).2]
    exact hkept name tag htag
  · intro name scope hscope
    rw [← (hbef name).1] at hscope
    have hmem : (⟨name, scope⟩ : (_ : String) × ResourceGroupScope) ∈
      original.groups.entries := AList.mem_lookup_iff.mp hscope
    rcases checkOriginalGroup_eq_ok (tryForEach_eq_ok hgrps hmem) with ⟨scope', hscope', hstrict⟩
    exact ⟨scope', by rw [← (hnow name).1]; exact hscope', hstrict⟩

end OpenLibra.Packages
