import OpenLibra.Validators.ValidatorVerifier

/-!
# Quorum certificates

The voters of an accepted multi-signature are a quorum of the validators, and
aggregating signatures of known authors marks exactly these authors.  A quorum has more than two
thirds of the weight, so two quorums share more than one third of it.
-/

namespace OpenLibra.Validators

open Rust List

/-!
# Weighted quorums
-/

section

variable {member : Type} [DecidableEq member] {weight : member -> Nat}
  {all a b : Finset member}

structure IsQuorum (weight : member -> Nat) (all voters : Finset member) : Prop where
  subset : voters ⊆ all
  heavy : 2 * ∑ m ∈ all, weight m < 3 * ∑ m ∈ voters, weight m

theorem IsQuorum.lt_inter (ha : IsQuorum weight all a) (hb : IsQuorum weight all b) :
    ∑ m ∈ all, weight m < 3 * ∑ m ∈ a ∩ b, weight m := by
  have hunion : ∑ m ∈ a ∪ b, weight m ≤ ∑ m ∈ all, weight m :=
    Finset.sum_le_sum_of_subset (Finset.union_subset ha.subset hb.subset)
  have hsplit : ∑ m ∈ a ∪ b, weight m + ∑ m ∈ a ∩ b, weight m =
    ∑ m ∈ a, weight m + ∑ m ∈ b, weight m :=
    Finset.sum_union_inter
  have hheavyA := ha.heavy
  have hheavyB := hb.heavy
  omega

end

variable {address publicKey signature message : Type} [da : DecidableEq address]

/-!
# Voters of an accepted signature
-/

/-- The set bits are positions of validators, each listed once. -/
structure VotersKnown (infos : List (ValidatorConsensusInfo address publicKey))
    (bits : OlBitVec) : Prop where
  nodup : bits.iterOnes.Nodup
  mem_iff : forall index, index ∈ bits.iterOnes <-> bits.isSet index = true
  lt_length : forall index, index ∈ bits.iterOnes -> index < infos.length

namespace ValidatorVerifier

variable {self : ValidatorVerifier address publicKey}

omit da in
theorem votersKnown_of_checkNumOfVoters {bits : OlBitVec} (hlength : self.len < 2 ^ 16)
    (h : checkNumOfVoters (asU16 self.len) bits = .ok ()) :
    VotersKnown self.validatorInfos bits := by
  rw [OlBitVec.asU16_eq hlength, checkNumOfVoters_eq_ok_iff hlength] at h
  have hmax : bits.numBuckets ≤ OlBitVec.maxBuckets := by
    rw [h.1]
    exact OlBitVec.requiredBuckets_le hlength
  exact
    { nodup := OlBitVec.nodup_iterOnes hmax
      mem_iff := fun _ => OlBitVec.mem_iterOnes hmax
      lt_length := h.2 }

variable {indices : List Nat} {voters : List (ValidatorConsensusInfo address publicKey)}

omit da in
theorem totalPower_validatorsAt (h : self.validatorsAt indices = .ok voters)
    (hnodup : indices.Nodup) :
    totalPower voters = ∑ index ∈ indices.toFinset, votingPowerAt self.validatorInfos index := by
  rw [sum_toFinset _ hnodup]
  have hpowers := congrArg
    (List.map fun info : Option (ValidatorConsensusInfo address publicKey) =>
      info.elim 0 fun info => info.votingPower.toNat)
    (validatorsAt_eq_ok_iff.mp h)
  rw [map_map, map_map] at hpowers
  exact (congrArg List.sum hpowers).symm

omit da in
theorem mem_validatorInfos_of_validatorsAt (h : self.validatorsAt indices = .ok voters)
    (voter : ValidatorConsensusInfo address publicKey) (hvoter : voter ∈ voters) :
    voter ∈ self.validatorInfos := by
  have hmem : some voter ∈
    indices.map fun index => self.validatorInfos[index]? := by
    rw [validatorsAt_eq_ok_iff.mp h]
    exact mem_map_of_mem hvoter
  rcases mem_map.mp hmem with ⟨_, _, hidx⟩
  exact mem_of_getElem? hidx

theorem isQuorum_of_checkVoters {aggregate : AggregateSignature signature}
    {found : List (ValidatorConsensusInfo address publicKey) × signature}
    (hnodup : (self.validatorInfos.map fun info => info.address).Nodup)
    (hlength : self.len < 2 ^ 16)
    (hquorum : self.quorumVotingPower = totalPower self.validatorInfos * 2 / 3 + 1)
    (h : self.checkVoters aggregate = .ok found) :
    VotersKnown self.validatorInfos aggregate.validatorBitmask ∧
      IsQuorum (votingPowerAt self.validatorInfos) (Finset.range self.validatorInfos.length)
        aggregate.validatorBitmask.iterOnes.toFinset := by
  rcases of_check h with ⟨hnum, h⟩
  rcases of_bind h with ⟨voters, hvoters, h⟩
  rcases of_check h with ⟨hpower, _⟩
  rcases of_bind hpower with ⟨power, hsum, henough⟩
  have hknown := votersKnown_of_checkNumOfVoters hlength hnum
  have hvotes := addVotingPower_eq_ok hnodup (mem_validatorInfos_of_validatorsAt hvoters) hsum
  rw [totalPower_validatorsAt hvoters hknown.nodup, zero_add] at hvotes
  have hheavy := ensure_eq_ok_iff.mp henough
  refine ⟨hknown, ?_, ?_⟩
  · intro index hidx
    exact Finset.mem_range.mpr (hknown.lt_length index (mem_toFinset.mp hidx))
  · rw [sum_votingPowerAt]
    omega

theorem isQuorum_of_verifyMultiSignatures {bls : Bls publicKey signature message}
    {infos : List (ValidatorConsensusInfo address publicKey)} (hne : infos ≠ [])
    (hnodup : (infos.map fun info => info.address).Nodup) (hlength : infos.length ≤ 65535)
    (hnew : new infos = .ok self) {content : message}
    {multiSignature : AggregateSignature signature}
    (h : self.verifyMultiSignatures bls content multiSignature = .ok ()) :
    VotersKnown infos multiSignature.validatorBitmask ∧
      IsQuorum (votingPowerAt infos) (Finset.range infos.length)
        multiSignature.validatorBitmask.iterOnes.toFinset := by
  rcases exists_new_eq_ok hne hlength with ⟨verifier, hok, rfl, _, hquorum⟩
  cases Outcome.ok.inj (hnew.symm.trans hok)
  rcases of_bind h with ⟨found, hfound, _⟩
  have hlen : self.len < 2 ^ 16 := by
    unfold len
    omega
  exact isQuorum_of_checkVoters hnodup hlen hquorum hfound

theorem exists_collectSignatures_eq_ok
    (hnodup : (self.validatorInfos.map fun info => info.address).Nodup)
    (hlength : self.len < 2 ^ 16)
    {entries}
    (hknown : forall author, author ∈ entries.map Prod.fst -> author ∈ self.validatorInfos.map fun
      info => info.address)
    {masks : OlBitVec} (hbuckets : self.len ≤ 8 * masks.numBuckets) (sigs : List signature) :
    exists marked, self.collectSignatures masks sigs entries =
        .ok (marked, sigs ++ entries.map Prod.snd) ∧ marked.numBuckets = masks.numBuckets ∧
      forall index, marked.isSet index = true <-> masks.isSet index = true ∨
          exists info, self.validatorInfos[index]? = some info ∧
            info.address ∈ entries.map Prod.fst := by
  induction entries generalizing masks sigs with
  | nil =>
    refine ⟨masks, by simp [collectSignatures], rfl, ?_⟩
    simp
  | cons entry rest ih =>
    rcases entry with ⟨author, sig⟩
    rcases mem_map.mp (hknown author (by simp)) with ⟨info, hinfo, rfl⟩
    rcases mem_iff_getElem?.mp hinfo with ⟨position, hposn⟩
    have hlook := lookup_address hnodup hposn
    have hlt : position < self.len := (List.getElem?_eq_some_iff.mp hposn).1
    have hcast : asU16 position = position := OlBitVec.asU16_eq (lt_trans hlt hlength)
    have hin : position < 8 * masks.numBuckets := lt_of_lt_of_le hlt hbuckets
    have hset : (masks.set position).numBuckets = masks.numBuckets := by
      rw [OlBitVec.numBuckets_set]
      omega
    have hsetBuckets : self.len ≤ 8 * (masks.set position).numBuckets := by
      rw [hset]
      exact hbuckets
    rcases ih (fun a ha => hknown a (mem_cons_of_mem _ ha)) hsetBuckets
        (sigs ++ [sig]) with ⟨marked, hmarked, hsize, hbits⟩
    refine ⟨marked, ?_, hsize.trans hset, ?_⟩
    · rw [collectSignatures, hlook]
      simp only [hcast, hmarked, map_cons, append_assoc, singleton_append]
    · intro _
      rw [hbits, OlBitVec.isSet_set]
      simp only [Bool.or_eq_true, decide_eq_true_eq, map_cons, mem_cons]
      constructor
      · intro h
        rcases h with (hold | rfl) | ⟨found, hfound, hmem⟩
        · exact .inl hold
        · exact .inr ⟨info, hposn, .inl rfl⟩
        · exact .inr ⟨found, hfound, .inr hmem⟩
      · intro h
        rcases h with hold | ⟨found, hfound, hsame | hmem⟩
        · exact .inl (.inl hold)
        · -- Distinct addresses: the same address is at the same position.
          have hother := lookup_address hnodup hfound
          rw [hsame, hlook] at hother
          exact .inl (.inr (Option.some.inj hother).symm)
        · exact .inr ⟨found, hfound, hmem⟩

theorem exists_aggregateSignatures_eq (bls : Bls publicKey signature message)
    (hnodup : (self.validatorInfos.map fun info => info.address).Nodup)
    (hlength : self.len < 2 ^ 16)
    (partials : PartialSignatures address signature)
    (hknown : forall author, author ∈ partials.signatures.map Prod.fst -> author ∈
      self.validatorInfos.map fun info => info.address) :
    exists masks, (forall index, index ∈ masks.iterOnes <->
        exists info, self.validatorInfos[index]? = some info ∧
          info.address ∈ partials.signatures.map Prod.fst) ∧
      checkNumOfVoters (asU16 self.len) masks = .ok () ∧
      self.aggregateSignatures bls partials =
        match bls.aggregateSignatures (partials.signatures.map Prod.snd) with
          | none => .err VerifyError.failedToAggregateSignature
          | some sig => .ok ⟨masks, some sig⟩ := by
  have hstart : self.len ≤ 8 *
    (OlBitVec.withNumBits (asU16 self.len)).numBuckets := by
    rw [OlBitVec.asU16_eq hlength, OlBitVec.numBuckets_withNumBits]
    exact OlBitVec.le_eight_mul_requiredBuckets self.len
  rcases exists_collectSignatures_eq_ok hnodup hlength hknown hstart [] with
    ⟨masks, hmasks, hsize, hbits⟩
  rw [OlBitVec.asU16_eq hlength, OlBitVec.numBuckets_withNumBits] at hsize
  have hmax : masks.numBuckets ≤ OlBitVec.maxBuckets := by
    rw [hsize]
    exact OlBitVec.requiredBuckets_le hlength
  have hones : forall index, index ∈ masks.iterOnes <->
    exists info, self.validatorInfos[index]? = some info ∧
      info.address ∈ partials.signatures.map Prod.fst := by
    intro index
    rw [OlBitVec.mem_iterOnes hmax, hbits]
    simp
  refine ⟨masks, hones, ?_, ?_⟩
  · rw [OlBitVec.asU16_eq hlength, checkNumOfVoters_eq_ok_iff hlength]
    refine ⟨hsize, ?_⟩
    intro index hidx
    rcases (hones index).mp hidx with ⟨_, hinfo, _⟩
    exact (List.getElem?_eq_some_iff.mp hinfo).1
  · unfold aggregateSignatures
    rw [hmasks, ok_bind, nil_append]
    cases hsig : bls.aggregateSignatures
        (partials.signatures.map Prod.snd) with
    | none => simp only [hsig]
    | some sig => simp only [hsig, pure_eq]

end ValidatorVerifier

/-- Two accepted signatures share voters with more than a third of the voting
power, and aggregating signatures of known authors gives an acceptable bit
vector of these authors. -/
theorem certificates_intersect (bls : Bls publicKey signature message)
    (infos : List (ValidatorConsensusInfo address publicKey)) (hne : infos ≠ [])
    (hnodup : (infos.map fun info => info.address).Nodup) (hlength : infos.length ≤ 65535) :
    exists verifier, ValidatorVerifier.new infos = Outcome.ok verifier ∧
      (forall (contentA contentB : message) (first second : AggregateSignature signature),
        verifier.verifyMultiSignatures bls contentA first = Outcome.ok () ->
        verifier.verifyMultiSignatures bls contentB second = Outcome.ok () ->
          VotersKnown infos first.validatorBitmask ∧
          VotersKnown infos second.validatorBitmask ∧
          verifier.totalVotingPower < 3 * ∑ index ∈ first.validatorBitmask.iterOnes.toFinset ∩
                second.validatorBitmask.iterOnes.toFinset,
              votingPowerAt infos index) ∧
      forall partials : PartialSignatures address signature,
        (forall author, author ∈ partials.signatures.map Prod.fst ->
          author ∈ infos.map fun info => info.address) ->
        exists masks, (forall index, index ∈ masks.iterOnes <->
            exists info, infos[index]? = some info ∧
              info.address ∈ partials.signatures.map Prod.fst) ∧
          ValidatorVerifier.checkNumOfVoters (asU16 verifier.len) masks = Outcome.ok () ∧
          verifier.aggregateSignatures bls partials =
            match bls.aggregateSignatures
              (partials.signatures.map Prod.snd) with
              | none => Outcome.err VerifyError.failedToAggregateSignature
              | some sig => Outcome.ok ⟨masks, some sig⟩ := by
  rcases ValidatorVerifier.exists_new_eq_ok hne hlength with ⟨verifier, hnew, rfl, htotal, _⟩
  have hlen : verifier.len < 2 ^ 16 := by
    unfold ValidatorVerifier.len
    omega
  refine ⟨verifier, hnew, ?_, ?_⟩
  · intro _ _ _ _ hfirst hsecond
    rcases ValidatorVerifier.isQuorum_of_verifyMultiSignatures hne hnodup
      hlength hnew hfirst with ⟨hknownFirst, hquorumFirst⟩
    rcases ValidatorVerifier.isQuorum_of_verifyMultiSignatures hne hnodup
      hlength hnew hsecond with ⟨hknownSecond, hquorumSecond⟩
    refine ⟨hknownFirst, hknownSecond, ?_⟩
    have hinter := hquorumFirst.lt_inter hquorumSecond
    rw [sum_votingPowerAt, ← htotal] at hinter
    exact hinter
  · intro partials hknown
    exact ValidatorVerifier.exists_aggregateSignatures_eq bls hnodup hlen partials hknown

def fourValidators : List (ValidatorConsensusInfo Nat Unit) :=
  (List.range 4).map fun address => ⟨address, (), 1⟩

def fourVerifier : ValidatorVerifier Nat Unit := ValidatorVerifier.buildIndex fourValidators 3 4

def acceptingBls : Bls Unit Unit Unit :=
  { aggregateSignatures := fun sigs => sigs.head?
    aggregatePublicKeys := fun keys => keys.head?
    verify := fun _ _ _ => true }

theorem certificates_intersect_four_validators :
    4 < 3 * ∑ index ∈ (OlBitVec.mk [0b11100000]).iterOnes.toFinset ∩
        (OlBitVec.mk [0b01110000]).iterOnes.toFinset,
      votingPowerAt fourValidators index := by
  rcases certificates_intersect acceptingBls fourValidators (by decide)
    (by decide) (by decide) with ⟨verifier, hnew, hinter, _⟩
  have hverifier : verifier = fourVerifier := Outcome.ok.inj (hnew.symm.trans (by decide))
  subst hverifier
  exact (hinter () () ⟨⟨[0b11100000]⟩, some ()⟩ ⟨⟨[0b01110000]⟩, some ()⟩
    (by decide +kernel) (by decide +kernel)).2.2

end OpenLibra.Validators
