import OpenLibra.Gas.Meter

/-!
# The memory of the arguments of natives

The meter knows the module of a native from a flag that the call before it leaves, and only
generic calls set the flag.
-/

namespace OpenLibra.Gas

open Rust Move Packages GasAlgebra

/-- `CORE_CODE_ADDRESS`. -/
def coreCodeAddress : Address := .ofNat 0x1

namespace OLGasMeter

variable {value : Type}

def releaseHeapMemory [GasAlgebra] (self : OLGasMeter) (amount : U64) : OLGasMeter :=
  if self.featureVersion ≥ 3 then
    { self with memoryQuota := plus self.memoryQuota amount }
  else self

def leaksMemory (featureVersion : Nat) (moduleId : ModuleId) : Bool :=
  (moduleId.address = coreCodeAddress && moduleId.name.asStr = "table") ||
    (featureVersion ≥ 4 && moduleId.address = coreCodeAddress && moduleId.name.asStr = "event")

def chargeCall [GasAlgebra] (self : OLGasMeter) (_moduleId : ModuleId) (args : List value)
    (numLocals : U64) : Outcome StatusCode Unit × OLGasMeter :=
  let cost := plus self.instr.callBase (times self.instr.callPerArg (.ofNat 64 args.length))
  let cost := if self.featureVersion ≥ 3 then plus cost (times self.instr.callPerLocal numLocals)
    else cost
  self.charge cost

def chargeCallGeneric [GasAlgebra] (self : OLGasMeter) (moduleId : ModuleId) (tyArgs : Nat)
    (args : List value) (numLocals : U64) : Outcome StatusCode Unit × OLGasMeter :=
  let self := { self with
    shouldLeakMemoryForNative := leaksMemory self.featureVersion moduleId }
  let cost := plus (plus self.instr.callGenericBase
      (times self.instr.callGenericPerTyArg (.ofNat 64 tyArgs)))
    (times self.instr.callGenericPerArg (.ofNat 64 args.length))
  let cost := if self.featureVersion ≥ 3 then
      plus cost (times self.instr.callGenericPerLocal numLocals)
    else cost
  self.charge cost

section

-- The heap size of a value under the feature version.
variable [GasAlgebra] (abstractHeapSize : value -> Nat -> U64) (self : OLGasMeter)

/-- The heap size of the arguments of a native. -/
def heapSize (featureVersion : Nat) (args : List value) : U64 :=
  args.foldl (fun acc val => plus acc (abstractHeapSize val featureVersion)) 0

def chargeNativeFunctionBeforeExecution (args : List value) :
    Outcome StatusCode Unit × OLGasMeter :=
  if self.shouldLeakMemoryForNative then (.ok (), self)
  else (.ok (), self.releaseHeapMemory (heapSize abstractHeapSize self.featureVersion args))

/-- The other methods assign the balance and the quota at most. -/
inductive Call (value : Type) where
  | call (moduleId : ModuleId) (args : List value) (numLocals : U64)
  | callGeneric (moduleId : ModuleId) (tyArgs : Nat) (args : List value) (numLocals : U64)
  | nativeFunctionBeforeExecution (args : List value)
  | other (balance quota : U64)

def step : Call value -> OLGasMeter
  | .call moduleId args numLocals => (self.chargeCall moduleId args numLocals).snd
  | .callGeneric moduleId tyArgs args numLocals =>
      (self.chargeCallGeneric moduleId tyArgs args numLocals).snd
  | .nativeFunctionBeforeExecution args =>
      (self.chargeNativeFunctionBeforeExecution abstractHeapSize args).snd
  | .other balance quota => { self with internalBalance := balance, memoryQuota := quota }

def run (calls : List (Call value)) : OLGasMeter :=
  calls.foldl (step abstractHeapSize) self

end

end OLGasMeter

end OpenLibra.Gas
