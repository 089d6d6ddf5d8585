import OpenLibra.Accumulator.Summary

/-!
# Trusted states of a light client

A light client checks the ledger infos of a response and ratchets its state forward.  Natural
numbers stand for `u64`, as they are only compared.
-/

namespace OpenLibra.LightClient

open Rust Accumulator

/-!
# Ledger infos
-/

structure EpochState (validators : Type) where
  epoch : Nat
  verifier : validators
deriving DecidableEq, Repr

structure BlockInfo (hash validators : Type) where
  epoch : Nat
  round : Nat
  id : hash
  executedStateId : hash
  version : Nat
  timestampUsecs : Nat
  nextEpochState : Option (EpochState validators)
deriving DecidableEq, Repr

def BlockInfo.nextBlockEpoch {hash validators : Type} (info : BlockInfo hash validators) : Nat :=
  info.nextEpochState.elim info.epoch fun e => e.epoch

structure LedgerInfo (hash validators : Type) where
  commitInfo : BlockInfo hash validators
  consensusDataHash : hash
deriving DecidableEq, Repr

namespace LedgerInfo

variable {hash validators : Type}

def epoch (info : LedgerInfo hash validators) : Nat := info.commitInfo.epoch

def nextBlockEpoch (info : LedgerInfo hash validators) : Nat := info.commitInfo.nextBlockEpoch

def transactionAccumulatorHash (info : LedgerInfo hash validators) : hash :=
  info.commitInfo.executedStateId

def version (info : LedgerInfo hash validators) : Nat := info.commitInfo.version

def timestampUsecs (info : LedgerInfo hash validators) : Nat := info.commitInfo.timestampUsecs

def nextEpochState (info : LedgerInfo hash validators) : Option (EpochState validators) :=
  info.commitInfo.nextEpochState

def endsEpoch (info : LedgerInfo hash validators) : Bool := info.nextEpochState.isSome

theorem nextBlockEpoch_of_some {info : LedgerInfo hash validators}
    {state : EpochState validators} (h : info.nextEpochState = some state) :
    info.nextBlockEpoch = state.epoch := by
  have hcommit : info.commitInfo.nextEpochState = some state := h
  simp [nextBlockEpoch, BlockInfo.nextBlockEpoch, hcommit]

theorem nextBlockEpoch_of_not_endsEpoch {info : LedgerInfo hash validators}
    (h : info.endsEpoch = false) : info.nextBlockEpoch = info.epoch := by
  have hcommit : info.commitInfo.nextEpochState = none := by
    simpa [endsEpoch, nextEpochState] using h
  simp [nextBlockEpoch, BlockInfo.nextBlockEpoch, hcommit, epoch]

end LedgerInfo

/-- The only variant of the versioned wrapper. -/
structure LedgerInfoWithSignatures (hash validators signature : Type) where
  ledgerInfo : LedgerInfo hash validators
  signatures : signature
deriving DecidableEq, Repr

structure Ledger2WaypointConverter (hash validators : Type) where
  epoch : Nat
  rootHash : hash
  version : Nat
  timestampUsecs : Nat
  nextEpochState : Option (EpochState validators)
deriving DecidableEq, Repr

def Ledger2WaypointConverter.new {hash validators : Type} (info : LedgerInfo hash validators) :
    Ledger2WaypointConverter hash validators :=
  { epoch := info.epoch
    rootHash := info.transactionAccumulatorHash
    version := info.version
    timestampUsecs := info.timestampUsecs
    nextEpochState := info.nextEpochState }

/-- The cryptography a light client calls: the hash of a waypoint's contents,
and the verification of the signatures on a ledger info by a validator set. -/
structure Scheme (hash validators signature : Type) where
  hashConverter : Ledger2WaypointConverter hash validators -> hash
  verifySignatures : validators -> LedgerInfo hash validators -> signature ->
    Outcome AnyhowError Unit

variable {hash validators signature : Type} [DecidableEq hash] [ToString hash]

/-!
# Verifiers
-/

structure Verifier (hash validators signature : Type) where
  verify : LedgerInfoWithSignatures hash validators signature -> Outcome AnyhowError Unit
  epochChangeVerificationRequired : Nat -> Bool
  isLedgerInfoStale : LedgerInfo hash validators -> Bool

structure Waypoint (hash : Type) where
  version : Nat
  value : hash
deriving DecidableEq, Repr

namespace Waypoint

variable (S : Scheme hash validators signature)

def newAny (info : LedgerInfo hash validators) : Waypoint hash :=
  { version := info.version
    value := S.hashConverter (Ledger2WaypointConverter.new info) }

def verify (waypoint : Waypoint hash)
    (info : LedgerInfo hash validators) : Outcome AnyhowError Unit := do
  ensure (info.version = waypoint.version) ["Waypoint version mismatch: waypoint version = " ++
      toString waypoint.version ++ ", given version = " ++
      toString info.version]
  let value := S.hashConverter (Ledger2WaypointConverter.new info)
  ensure (value = waypoint.value) ["Waypoint value mismatch: waypoint value = " ++
      toString waypoint.value ++ ", given value = " ++ toString value]

def verifier (waypoint : Waypoint hash) : Verifier hash validators signature :=
  { verify := fun li => waypoint.verify S li.ledgerInfo
    epochChangeVerificationRequired := fun _ => true
    isLedgerInfoStale := fun info => decide (info.version < waypoint.version) }

end Waypoint

namespace EpochState

variable (S : Scheme hash validators signature) (state : EpochState validators)

def verify (li : LedgerInfoWithSignatures hash validators signature) :
    Outcome AnyhowError Unit := do
  ensure (state.epoch = li.ledgerInfo.epoch)
    ["LedgerInfo has unexpected epoch " ++ toString li.ledgerInfo.epoch ++
      ", expected " ++ toString state.epoch]
  S.verifySignatures state.verifier li.ledgerInfo li.signatures

def toVerifier : Verifier hash validators signature :=
  { verify := state.verify S
    epochChangeVerificationRequired := fun epoch => decide (state.epoch < epoch)
    isLedgerInfoStale := fun info => decide (info.epoch < state.epoch) }

end EpochState

structure EpochChangeProof (hash validators signature : Type) where
  ledgerInfoWithSigs : List (LedgerInfoWithSignatures hash validators signature)
  more : Bool
deriving DecidableEq, Repr

namespace EpochChangeProof

/-- The loop of `verify`: each ledger info is checked by the current verifier
and hands over to the validator set it carries. -/
def verifyJumps (S : Scheme hash validators signature)
    (verifier : Verifier hash validators signature) :
    List (LedgerInfoWithSignatures hash validators signature) -> Outcome AnyhowError Unit
  | [] => return ()
  | li :: rest => do
    verifier.verify li
    match li.ledgerInfo.nextEpochState with
    | none => .err ["LedgerInfo doesn't carry a ValidatorSet"]
    | some state => verifyJumps S (state.toVerifier S) rest

def verify (S : Scheme hash validators signature)
    (proof : EpochChangeProof hash validators signature)
    (verifier : Verifier hash validators signature) :
    Outcome AnyhowError
      (LedgerInfoWithSignatures hash validators signature) := do
  ensure (proof.ledgerInfoWithSigs ≠ []) ["The EpochChangeProof is empty"]
  let last <- expect proof.ledgerInfoWithSigs.getLast?
  ensure (verifier.isLedgerInfoStale last.ledgerInfo = false)
    ["The EpochChangeProof is stale as our verifier is already ahead " ++
      "of the entire EpochChangeProof"]
  verifyJumps S verifier (proof.ledgerInfoWithSigs.dropWhile
      fun li => verifier.isLedgerInfoStale li.ledgerInfo)
  expect proof.ledgerInfoWithSigs.getLast?

end EpochChangeProof

/-!
# Trusted states
-/

inductive TrustedState (hash validators : Type) where
  | epochWaypoint (waypoint : Waypoint hash)
  | epochState (waypoint : Waypoint hash) (epochState : EpochState validators)
deriving DecidableEq, Repr

inductive TrustedStateChange (hash validators signature : Type) where
  | version (newState : TrustedState hash validators)
  | epoch (newState : TrustedState hash validators) (latestEpochChangeLi :
        LedgerInfoWithSignatures hash validators signature)
  | noChange
deriving DecidableEq, Repr

def TrustedStateChange.newState? : TrustedStateChange hash validators signature ->
    Option (TrustedState hash validators)
  | version newState => some newState
  | epoch newState _ => some newState
  | noChange => none

namespace TrustedState

def waypoint : TrustedState hash validators -> Waypoint hash
  | epochWaypoint waypoint => waypoint
  | epochState waypoint _ => waypoint

def version (state : TrustedState hash validators) : Nat := state.waypoint.version

def verifier (S : Scheme hash validators signature) :
    TrustedState hash validators -> Verifier hash validators signature
  | epochWaypoint waypoint => waypoint.verifier S
  | epochState _ state => state.toVerifier S

variable [DecidableEq validators] [DecidableEq signature]

def verifiedLedgerInfo (S : Scheme hash validators signature)
    (latestLi epochChangeLi : LedgerInfoWithSignatures hash validators signature)
    (newEpochState : EpochState validators) (more : Bool) :
    Outcome AnyhowError
      (LedgerInfoWithSignatures hash validators signature) :=
  if epochChangeLi = latestLi then
    .ok latestLi
  else if latestLi.ledgerInfo.epoch = newEpochState.epoch then do
    newEpochState.verify S latestLi
    return latestLi
  else if newEpochState.epoch < latestLi.ledgerInfo.epoch ∧ more = true then
    .ok epochChangeLi
  else
    .err ["Inconsistent epoch change proof and latest ledger info"]

variable (S : Scheme hash validators signature) (self : TrustedState hash validators)
  (latestLi : LedgerInfoWithSignatures hash validators signature)
  (proof : EpochChangeProof hash validators signature)

/-- The branch of `verifyAndRatchetInner` for a latest ledger info that leaves
the epoch of the trusted state. -/
def ratchetEpoch : Outcome AnyhowError (TrustedStateChange hash validators signature) := do
  let epochChangeLi <- proof.verify S (self.verifier S)
  match epochChangeLi.ledgerInfo.nextEpochState with
  | none =>
    .err ["A valid EpochChangeProof will never return a non-epoch change " ++ "ledger info"]
  | some newEpochState => do
    let verified <-
      verifiedLedgerInfo S latestLi epochChangeLi newEpochState proof.more
    return .epoch (epochState (Waypoint.newAny S verified.ledgerInfo) newEpochState) epochChangeLi

def ratchetVersion (S : Scheme hash validators signature) : TrustedState hash validators ->
    LedgerInfoWithSignatures hash validators signature ->
    Outcome AnyhowError (TrustedStateChange hash validators signature)
  | epochWaypoint _, _ => .err ["EpochWaypoint can only verify an epoch change ledger info"]
  | epochState currWaypoint currEpochState, latestLi =>
    let newWaypoint := Waypoint.newAny S latestLi.ledgerInfo
    if newWaypoint.version = currWaypoint.version then do
      ensure (newWaypoint = currWaypoint) ["LedgerInfo doesn't match verified state"]
      return .noChange
    else do
      currEpochState.verify S latestLi
      return .version (epochState newWaypoint currEpochState)

def verifyAndRatchetInner : Outcome AnyhowError (TrustedStateChange hash validators signature) := do
  let currVersion := self.version
  let targetVersion := latestLi.ledgerInfo.version
  ensure (currVersion ≤ targetVersion) ["The target latest ledger info version is stale (" ++
      toString targetVersion ++ ") and behind our current trusted version (" ++
      toString currVersion ++ ")"]
  if (self.verifier S).epochChangeVerificationRequired latestLi.ledgerInfo.nextBlockEpoch then
    ratchetEpoch S self latestLi proof
  else
    ratchetVersion S self latestLi

end TrustedState

structure Response (hash validators signature : Type) where
  latestLi : LedgerInfoWithSignatures hash validators signature
  proof : EpochChangeProof hash validators signature
deriving DecidableEq, Repr

namespace TrustedState

variable [DecidableEq validators] [DecidableEq signature] (S : Scheme hash validators signature)
  (self : TrustedState hash validators)

def ratchet (response : Response hash validators signature) : TrustedState hash validators :=
  match self.verifyAndRatchetInner S response.latestLi response.proof with
  | .ok change => change.newState?.getD self
  | .err _ => self
  | .panic => self

def ratchetAll (responses : List (Response hash validators signature)) :
    TrustedState hash validators :=
  responses.foldl (ratchet S) self

end TrustedState

end OpenLibra.LightClient
