import Mathlib.Algebra.Order.BigOperators.Group.Finset
import OpenLibra.Validators.OlBitVec

/-!
# Multi-signatures of a validator set

A validator set accepts a message when validators with a quorum of the voting power have signed
it.
-/

namespace OpenLibra.Validators

open Rust List

/-!
# The verifier
-/

inductive VerifyError where
  | unknownAuthor
  | tooLittleVotingPower (votingPower expectedVotingPower : Nat)
  | emptySignature
  | invalidMultiSignature
  | invalidAggregatedSignature
  | inconsistentBlockInfo
  | failedToAggregatePubKey
  | failedToAggregateSignature
  | failedToVerifyMultiSignature
  | invalidBitVec
  | failedToVerifyAggregatedSignature
deriving DecidableEq, Repr

structure ValidatorConsensusInfo (address publicKey : Type) where
  address : address
  publicKey : publicKey
  votingPower : UInt64
deriving DecidableEq, Repr

/-- The calls into BLS12-381. -/
structure Bls (publicKey signature message : Type) where
  aggregateSignatures : List signature -> Option signature
  aggregatePublicKeys : List publicKey -> Option publicKey
  verify : signature -> message -> publicKey -> Bool

structure AggregateSignature (signature : Type) where
  validatorBitmask : OlBitVec
  sig : Option signature
deriving DecidableEq, Repr

/-- Signatures by author, in the order of the map. -/
structure PartialSignatures (address signature : Type) where
  signatures : List (address × signature)
  nodup : (signatures.map Prod.fst).Nodup

variable {address publicKey signature message : Type}

def indexOfAddresses (validatorInfos : List (ValidatorConsensusInfo address publicKey)) :
    List (address × Nat) :=
  (validatorInfos.zipIdx.map fun entry => (entry.1.address, entry.2)).reverse

/-- The index is built from the validators and never changed. -/
structure ValidatorVerifier (address publicKey : Type) where
  validatorInfos : List (ValidatorConsensusInfo address publicKey)
  quorumVotingPower : Nat
  totalVotingPower : Nat
  addressToValidatorIndex : List (address × Nat)
  index_eq : addressToValidatorIndex = indexOfAddresses validatorInfos
deriving DecidableEq

variable (infos : List (ValidatorConsensusInfo address publicKey))

/-- The sum of the voting powers; it panics beyond `u128`. -/
def sumVotingPower : Outcome VerifyError Nat :=
  infos.foldlM (fun sum info => u128Add sum info.votingPower.toNat) 0

namespace ValidatorVerifier

variable (validatorInfos : List (ValidatorConsensusInfo address publicKey))

def buildIndex (quorumVotingPower totalVotingPower : Nat) : ValidatorVerifier address publicKey :=
  { validatorInfos := validatorInfos
    quorumVotingPower := quorumVotingPower
    totalVotingPower := totalVotingPower
    addressToValidatorIndex := indexOfAddresses validatorInfos
    index_eq := rfl }

def new : Outcome VerifyError (ValidatorVerifier address publicKey) := do
  let totalVotingPower <- sumVotingPower validatorInfos
  let quorumVotingPower <-
    if validatorInfos.isEmpty then pure 0
    else do
      let double <- u128Mul totalVotingPower 2
      u128Add (double / 3) 1
  return buildIndex validatorInfos quorumVotingPower totalVotingPower

def len (self : ValidatorVerifier address publicKey) : Nat := self.validatorInfos.length

section

variable [DecidableEq address] (self : ValidatorVerifier address publicKey)

def getVotingPower (author : address) : Outcome VerifyError (Option UInt64) :=
  match self.addressToValidatorIndex.lookup author with
  | none => .ok none
  | some index => do
    let info <- expect self.validatorInfos[index]?
    return some info.votingPower

/-- The loop of `checkVotingPower`. -/
def addVotingPower (self : ValidatorVerifier address publicKey) :
    Nat -> List address -> Outcome VerifyError Nat
  | aggregated, [] => return aggregated
  | aggregated, author :: rest => do
    match <- self.getVotingPower author with
    | none => .err VerifyError.unknownAuthor
    | some votingPower => do
      let sum <- u128Add aggregated votingPower.toNat
      addVotingPower self sum rest

def checkVotingPower (authors : List address) : Outcome VerifyError Unit := do
  let aggregatedVotingPower <- self.addVotingPower 0 authors
  ensure (¬ aggregatedVotingPower < self.quorumVotingPower)
    (VerifyError.tooLittleVotingPower aggregatedVotingPower self.quorumVotingPower)

def checkNumOfVoters (numValidators : Nat) (bitvec : OlBitVec) :
    Outcome VerifyError Unit := do
  ensure (bitvec.numBuckets = OlBitVec.requiredBuckets numValidators) VerifyError.invalidBitVec
  match bitvec.lastSetBit with
  | none => return ()
  | some lastBit => ensure (¬ numValidators ≤ lastBit) VerifyError.invalidBitVec

def validatorsAt (self : ValidatorVerifier address publicKey) : List Nat ->
    Outcome VerifyError (List (ValidatorConsensusInfo address publicKey))
  | [] => return []
  | index :: rest =>
    match self.validatorInfos[index]? with
    | none => .err VerifyError.unknownAuthor
    | some validator => do
      let validators <- validatorsAt self rest
      return validator :: validators

def checkVoters (aggregate : AggregateSignature signature) :
    Outcome VerifyError
      (List (ValidatorConsensusInfo address publicKey) × signature) := do
  checkNumOfVoters (asU16 self.len) aggregate.validatorBitmask
  let voters <- self.validatorsAt aggregate.validatorBitmask.iterOnes
  self.checkVotingPower (voters.map fun voter => voter.address)
  match aggregate.sig with
  | none => .err VerifyError.emptySignature
  | some sig => return (voters, sig)

def verifyMultiSignatures (bls : Bls publicKey signature message)
    (self : ValidatorVerifier address publicKey) (content : message)
    (multiSignature : AggregateSignature signature) :
    Outcome VerifyError Unit := do
  let (voters, multiSig) <- self.checkVoters multiSignature
  match bls.aggregatePublicKeys (voters.map fun voter => voter.publicKey) with
  | none => .err VerifyError.failedToAggregatePubKey
  | some aggregatedKey =>
    ensure (bls.verify multiSig content aggregatedKey = true) VerifyError.invalidMultiSignature

/-- The loop of `aggregateSignatures`. -/
def collectSignatures (self : ValidatorVerifier address publicKey) :
    OlBitVec -> List signature -> List (address × signature) ->
      Outcome VerifyError (OlBitVec × List signature)
  | masks, sigs, [] => return (masks, sigs)
  | masks, sigs, (author, sig) :: rest =>
    match self.addressToValidatorIndex.lookup author with
    | none => .err VerifyError.unknownAuthor
    | some index => collectSignatures self (masks.set (asU16 index)) (sigs ++ [sig]) rest

def aggregateSignatures (bls : Bls publicKey signature message)
    (self : ValidatorVerifier address publicKey)
    (partialSignatures : PartialSignatures address signature) :
    Outcome VerifyError (AggregateSignature signature) := do
  let (masks, sigs) <-
    self.collectSignatures (OlBitVec.withNumBits (asU16 self.len)) [] partialSignatures.signatures
  match bls.aggregateSignatures sigs with
  | none => .err VerifyError.failedToAggregateSignature
  | some aggregatedSig => return { validatorBitmask := masks, sig := some aggregatedSig }

end

/-!
# Voting power
-/

end ValidatorVerifier

def votingPowerAt (index : Nat) : Nat :=
  infos[index]?.elim 0 fun info => info.votingPower.toNat

def totalPower : Nat :=
  (infos.map fun info => info.votingPower.toNat).sum

theorem sum_votingPowerAt :
    ∑ index ∈ Finset.range infos.length, votingPowerAt infos index = totalPower infos := by
  induction infos with
  | nil => rfl
  | cons info rest ih =>
    rw [length_cons, Finset.sum_range_succ']
    simp only [votingPowerAt, getElem?_cons_succ, getElem?_cons_zero, Option.elim_some]
    rw [show totalPower (info :: rest) =
      info.votingPower.toNat + totalPower rest from rfl, ← ih, add_comm]
    rfl

theorem totalPower_le : totalPower infos ≤ infos.length * 2 ^ 64 := by
  induction infos with
  | nil => exact Nat.zero_le _
  | cons info rest =>
    have hlt := info.votingPower.toNat_lt
    rw [show totalPower (info :: rest) =
      info.votingPower.toNat + totalPower rest from rfl, length_cons,
      add_mul]
    omega

theorem foldlM_votingPower {start : Nat} (h : start + totalPower infos < u128Bound) :
    infos.foldlM (fun sum info => u128Add sum info.votingPower.toNat) start =
      (.ok (start + totalPower infos) : Outcome VerifyError Nat) := by
  induction infos generalizing start with
  | nil => rfl
  | cons info rest ih =>
    rw [show totalPower (info :: rest) = info.votingPower.toNat + totalPower rest from rfl,
      ← add_assoc] at h ⊢
    rw [foldlM_cons, u128Add_eq_ok_iff.mpr ⟨Nat.lt_of_le_of_lt (Nat.le_add_right _ _) h, rfl⟩]
    exact ih h

namespace ValidatorVerifier

theorem exists_new_eq_ok {infos : List (ValidatorConsensusInfo address publicKey)}
    (hne : infos ≠ []) (hlen : infos.length ≤ 65535) :
    exists verifier, new infos = .ok verifier ∧ verifier.validatorInfos = infos ∧
      verifier.totalVotingPower = totalPower infos ∧
      verifier.quorumVotingPower = totalPower infos * 2 / 3 + 1 := by
  have htot : totalPower infos * 2 + 1 < u128Bound := by
    have hle := totalPower_le infos
    unfold u128Bound
    omega
  have hsum : sumVotingPower infos = .ok (totalPower infos) := by
    have hbound : 0 + totalPower infos < u128Bound := by omega
    have hfold := foldlM_votingPower infos hbound
    rw [Nat.zero_add] at hfold
    exact hfold
  have hdouble : (u128Mul (totalPower infos) 2 : Outcome VerifyError Nat) =
    .ok (totalPower infos * 2) :=
    u128Mul_eq_ok_iff.mpr ⟨by omega, rfl⟩
  have hquorum : (u128Add (totalPower infos * 2 / 3) 1 :
    Outcome VerifyError Nat) = .ok (totalPower infos * 2 / 3 + 1) :=
    u128Add_eq_ok_iff.mpr ⟨by omega, rfl⟩
  refine ⟨buildIndex infos (totalPower infos * 2 / 3 + 1) (totalPower infos), ?_, rfl, rfl, rfl⟩
  simp [new, hsum, hne, hdouble, hquorum]

end ValidatorVerifier

/-!
# Finding validators by address
-/

variable {infos : List (ValidatorConsensusInfo address publicKey)}

theorem mem_indexOfAddresses {author : address} {index : Nat} :
    (author, index) ∈ indexOfAddresses infos <->
      exists info, infos[index]? = some info ∧ info.address = author := by
  unfold indexOfAddresses
  rw [mem_reverse, mem_map]
  constructor
  · intro h
    rcases h with ⟨⟨info, _⟩, hmem, heq⟩
    cases heq
    exact ⟨info, mem_zipIdx_iff_getElem?.mp hmem, rfl⟩
  · intro h
    rcases h with ⟨info, hinfo, rfl⟩
    exact ⟨(info, index), mem_zipIdx_iff_getElem?.mpr hinfo, rfl⟩

theorem nodup_indexOfAddresses (hnodup : (infos.map fun info => info.address).Nodup) :
    ((indexOfAddresses infos).map Prod.fst).Nodup := by
  unfold indexOfAddresses
  rw [map_reverse, nodup_reverse, map_map]
  have hfst : (Prod.fst ∘ fun entry : ValidatorConsensusInfo address publicKey × Nat =>
        (entry.1.address, entry.2)) =
      (fun info => info.address) ∘ Prod.fst := rfl
  rw [hfst, ← map_map, zipIdx_map_fst]
  exact hnodup

section

variable [DecidableEq address]

theorem lookup_eq_some_of_mem {entries : List (address × Nat)} {author : address} {index : Nat}
    (hnodup : (entries.map Prod.fst).Nodup) (h : (author, index) ∈ entries) :
    entries.lookup author = some index := by
  rcases append_of_mem h with ⟨before, after, rfl⟩
  apply lookup_eq_some_iff.mpr
  refine ⟨before, after, rfl, ?_⟩
  intro entry hent
  rw [map_append, map_cons, nodup_append] at hnodup
  have hne := hnodup.2.2 entry.1 (mem_map_of_mem hent) author mem_cons_self
  simpa using hne.symm

end

namespace ValidatorVerifier

variable {self : ValidatorVerifier address publicKey}

theorem validatorsAt_eq_ok_iff {indices : List Nat} {voters} :
    self.validatorsAt indices = .ok voters <->
      indices.map (fun index => self.validatorInfos[index]?) = voters.map some := by
  induction indices generalizing voters with
  | nil =>
    cases voters with
    | nil | cons => simp [validatorsAt]
  | cons index rest ih =>
    rw [validatorsAt, map_cons]
    cases hinfo : self.validatorInfos[index]? with
    | none =>
      cases voters with
      | nil | cons => simp
    | some =>
      rw [bind_eq_ok_iff]
      cases voters with
      | nil => simp
      | cons voter voters =>
        simp only [ih, pure_eq, Outcome.ok.injEq, cons.injEq, map_cons, Option.some.injEq]
        constructor
        · intro h
          rcases h with ⟨_, hfound, hinfo, rfl⟩
          exact ⟨hinfo, hfound⟩
        · intro h
          exact ⟨voters, h.2, h.1, rfl⟩

theorem checkNumOfVoters_eq_ok_iff {numValidators : Nat} {bitvec : OlBitVec}
    (hnum : numValidators < 2 ^ 16) : checkNumOfVoters numValidators bitvec = .ok () <->
      bitvec.numBuckets = OlBitVec.requiredBuckets numValidators ∧
        forall index, index ∈ bitvec.iterOnes -> index < numValidators := by
  unfold checkNumOfVoters
  rw [check_bind_eq_ok_iff, ensure_eq_ok_iff]
  apply and_congr_right
  intro hbuckets
  have hmax : bitvec.numBuckets ≤ OlBitVec.maxBuckets := by
    rw [hbuckets]
    exact OlBitVec.requiredBuckets_le hnum
  rw [OlBitVec.iterOnes_eq hmax, Bits.forall_mem_ones_lt_iff, ← OlBitVec.lastSetBit_eq hmax]
  cases hlast : bitvec.lastSetBit with
  | none => simp
  | some => simp [ensure_eq_ok_iff]

variable [DecidableEq address] {info : ValidatorConsensusInfo address publicKey}

theorem lookup_address (hnodup : (self.validatorInfos.map fun info => info.address).Nodup)
    {index : Nat} (hinfo : self.validatorInfos[index]? = some info) :
    self.addressToValidatorIndex.lookup info.address = some index := by
  rw [self.index_eq]
  apply lookup_eq_some_of_mem (nodup_indexOfAddresses hnodup)
  exact mem_indexOfAddresses.mpr ⟨info, hinfo, rfl⟩

theorem getVotingPower_eq (hnodup : (self.validatorInfos.map fun info => info.address).Nodup)
    (hinfo : info ∈ self.validatorInfos) :
    self.getVotingPower info.address = .ok (some info.votingPower) := by
  rcases mem_iff_getElem?.mp hinfo with ⟨_, hidx⟩
  simp [getVotingPower, lookup_address hnodup hidx, hidx]

theorem addVotingPower_eq_ok (hnodup : (self.validatorInfos.map fun info => info.address).Nodup)
    {voters} (hvoters : forall voter, voter ∈ voters -> voter ∈ self.validatorInfos)
    {start power : Nat}
    (h : self.addVotingPower start (voters.map fun voter => voter.address) = .ok power) :
    power = start + totalPower voters := by
  induction voters generalizing start with
  | nil =>
    cases h
    rfl
  | cons voter rest ih =>
    rw [map_cons, addVotingPower, getVotingPower_eq hnodup (hvoters voter mem_cons_self),
      ok_bind] at h
    rcases of_bind h with ⟨_, hsum, h⟩
    have hrest := ih
      (fun v hv => hvoters v (mem_cons_of_mem voter hv)) h
    rw [hrest, ← (u128Add_eq_ok_iff.mp hsum).2, add_assoc]
    rfl

end ValidatorVerifier

end OpenLibra.Validators
