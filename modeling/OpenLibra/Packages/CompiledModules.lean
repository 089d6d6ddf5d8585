import OpenLibra.Move.Address
import Mathlib.Data.List.AList

/-!
# Compiled modules and their metadata

A compiled module carries metadata under two keys: the attributes of its structs and functions
are in the newer format only.
-/

namespace OpenLibra.Packages

open Rust Move

/-!
# Modules
-/

structure Identifier where
  asStr : String
  nonempty : asStr ≠ ""
deriving DecidableEq, Repr

structure ModuleId where
  address : Address
  name : Identifier
deriving DecidableEq, Repr

def ModuleId.toString (self : ModuleId) : String := self.address.toHex ++ "::" ++ self.name.asStr

structure StructTag (typeTag : Type) where
  address : Address
  module : Identifier
  name : Identifier
  typeParams : List typeTag
deriving DecidableEq, Repr

def StructTag.moduleId {typeTag : Type} (self : StructTag typeTag) : ModuleId :=
  { address := self.address
    name := self.module }

structure AbilitySet where
  copy : Bool
  drop : Bool
  store : Bool
  key : Bool
deriving DecidableEq, Repr

def AbilitySet.empty : AbilitySet :=
  { copy := false
    drop := false
    store := false
    key := false }

structure StructDef where
  name : String
  abilities : AbilitySet
  typeParameters : Nat
  fields : Nat
deriving DecidableEq, Repr

structure FunctionDef where
  name : String
  returns : Nat
deriving DecidableEq, Repr

structure Metadata where
  key : List UInt8
  value : List UInt8
deriving DecidableEq, Repr

structure CompiledModule where
  version : Nat
  selfId : ModuleId
  immediateDependencies : List ModuleId
  metadata : List Metadata
  structDefs : List StructDef
  functionDefs : List FunctionDef
deriving DecidableEq, Repr

namespace CompiledModule

def findStruct (self : CompiledModule) (name : String) : Option StructDef :=
  self.structDefs.reverse.find? fun definition => definition.name = name

def findFunction (self : CompiledModule) (name : String) : Option FunctionDef :=
  self.functionDefs.reverse.find? fun definition => definition.name = name

end CompiledModule

/-!
# Scopes of resource groups
-/

inductive ResourceGroupScope where
  | global
  | address
  | module
deriving DecidableEq, Repr

namespace ResourceGroupScope

def isLessStrict : ResourceGroupScope -> ResourceGroupScope -> Bool
  | global, other => other != global
  | address, other => other == module
  | module, _ => false

def areEqualModuleIds (self : ResourceGroupScope) (resource group : ModuleId) : Bool :=
  match self with
  | global => true
  | address => resource.address == group.address
  | module => resource == group

def fromStr : String -> Option ResourceGroupScope
  | "global" => some global
  | "address" => some address
  | "module_" => some module
  | _ => none

end ResourceGroupScope

/-!
# Attributes
-/

inductive KnownAttributeKind where
  | legacyViewFunction
  | viewFunction
  | resourceGroup
  | resourceGroupMember
deriving DecidableEq, Repr

def KnownAttributeKind.toByte : KnownAttributeKind -> UInt8
  | legacyViewFunction => 0
  | viewFunction => 1
  | resourceGroup => 2
  | resourceGroupMember => 3

structure KnownAttribute where
  kind : UInt8
  args : List String
deriving DecidableEq, Repr

structure RuntimeModuleMetadataV1 where
  structAttributes : AList fun _ : String => List KnownAttribute
  funAttributes : AList fun _ : String => List KnownAttribute

def RuntimeModuleMetadataV1.empty : RuntimeModuleMetadataV1 :=
  { structAttributes := ∅
    funAttributes := ∅ }

structure MetadataCodec (typeTag : Type) where
  decodeV1 : List UInt8 -> Option RuntimeModuleMetadataV1
  decodesV0 : List UInt8 -> Bool
  parseStructTag : String -> Option (StructTag typeTag)

namespace KnownAttribute

variable {typeTag : Type} (self : KnownAttribute)

def isViewFunction : Bool :=
  self.kind == KnownAttributeKind.legacyViewFunction.toByte ||
    self.kind == KnownAttributeKind.viewFunction.toByte

def isResourceGroup : Bool :=
  self.kind == KnownAttributeKind.resourceGroup.toByte

def getResourceGroup : Option ResourceGroupScope :=
  if self.isResourceGroup then
    self.args.head?.bind ResourceGroupScope.fromStr
  else none

def isResourceGroupMember : Bool :=
  self.kind == KnownAttributeKind.resourceGroupMember.toByte

def getResourceGroupMember (codec : MetadataCodec typeTag) (self : KnownAttribute) :
    Option (StructTag typeTag) :=
  if self.isResourceGroupMember then
    self.args.head?.bind codec.parseStructTag
  else none

theorem not_member_of_isResourceGroup {self : KnownAttribute} (h : self.isResourceGroup = true) :
    self.isResourceGroupMember = false := by
  unfold isResourceGroupMember
  rw [eq_of_beq h]
  rfl

end KnownAttribute

/-!
# Reading metadata
-/

/-- The bytes of `ol::metadata_v0`. -/
def olMetadataKey : List UInt8 := "ol::metadata_v0".toUTF8.toList

/-- The bytes of `ol::metadata_v1`. -/
def olMetadataKeyV1 : List UInt8 := "ol::metadata_v1".toUTF8.toList

section

variable {typeTag : Type} (codec : MetadataCodec typeTag)

def findMetadata (module : CompiledModule) (key : List UInt8) : Option Metadata :=
  module.metadata.find? fun data => data.key = key

def getModuleMetadata (module : CompiledModule) : Option RuntimeModuleMetadataV1 :=
  match findMetadata module olMetadataKeyV1 with
  | some data =>
    (codec.decodeV1 data.value).map fun metadata =>
      if module.version = 5 then RuntimeModuleMetadataV1.empty else metadata
  | none =>
    match findMetadata module olMetadataKey with
    | some data =>
      if codec.decodesV0 data.value then
        some RuntimeModuleMetadataV1.empty
      else none
    | none => none

def RuntimeModuleMetadataV1.readStruct {beta : Type} (metadata : RuntimeModuleMetadataV1)
    (read : KnownAttribute -> Option beta) (name : String) : Option beta :=
  (metadata.structAttributes.lookup name).bind fun attrs =>
    attrs.findSome? read

/-- `get_resource_group_from_metadata`: the group in which the VM stores the
resources of a struct. -/
def getResourceGroupFromMetadata (name : String) (metadata : Option RuntimeModuleMetadataV1) :
    Option (StructTag typeTag) :=
  metadata.bind fun metadata =>
    metadata.readStruct (KnownAttribute.getResourceGroupMember codec) name

end

/-!
# Verification of attributes
-/

structure MetadataValidationError where
  key : String
  attributeKind : UInt8
deriving DecidableEq, Repr

def MetadataValidationError.toString (self : MetadataValidationError) : String :=
  "Unknown attribute (" ++ ToString.toString self.attributeKind ++ ") for key: " ++ self.key

variable {typeTag : Type} (codec : MetadataCodec typeTag)

def checkDefinition {definition : Type} (found : Option definition)
    (valid : definition -> Bool) (name : String) :
    Outcome MetadataValidationError Unit :=
  ensure ((found.any valid) = true)
    { key := name
      attributeKind := KnownAttributeKind.viewFunction.toByte }

variable (module : CompiledModule)

def isValidViewFunction (fun_ : String) : Outcome MetadataValidationError Unit :=
  checkDefinition (module.findFunction fun_) (fun definition => definition.returns != 0) fun_

def isValidResourceGroup (struct_ : String) : Outcome MetadataValidationError Unit :=
  checkDefinition (module.findStruct struct_)
    (fun definition =>
      definition.abilities == AbilitySet.empty &&
        definition.typeParameters == 0 && definition.fields == 1)
    struct_

def isValidResourceGroupMember (struct_ : String) : Outcome MetadataValidationError Unit :=
  checkDefinition (module.findStruct struct_) (fun definition => definition.abilities.key) struct_

def verifyFunAttribute (fun_ : String) (attr : KnownAttribute) :
    Outcome MetadataValidationError Unit :=
  if attr.isViewFunction then isValidViewFunction module fun_
  else .err { key := fun_, attributeKind := attr.kind }

def verifyStructAttribute (resourceGroupsEnabled : Bool)
    (module : CompiledModule) (struct_ : String) (attr : KnownAttribute) :
    Outcome MetadataValidationError Unit :=
  if resourceGroupsEnabled && attr.isResourceGroup &&
      attr.getResourceGroup.isSome then
    isValidResourceGroup module struct_
  else if resourceGroupsEnabled && attr.isResourceGroupMember &&
      (attr.getResourceGroupMember codec).isSome then
    isValidResourceGroupMember module struct_
  else .err { key := struct_, attributeKind := attr.kind }

def verifyModuleMetadata (resourceGroupsEnabled : Bool) (module : CompiledModule) :
    Outcome MetadataValidationError Unit :=
  match getModuleMetadata codec module with
  | none => .ok ()
  | some metadata => do
    tryForEach
      (fun entry =>
        tryForEach (verifyFunAttribute module entry.1) entry.2)
      metadata.funAttributes.entries
    tryForEach
      (fun entry =>
        tryForEach (verifyStructAttribute codec resourceGroupsEnabled module entry.1) entry.2)
      metadata.structAttributes.entries

end OpenLibra.Packages
