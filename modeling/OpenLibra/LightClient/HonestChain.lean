import Mathlib.Data.List.Nodup
import OpenLibra.LightClient.Ratchet

/-!
# Concurrent responses about one honest chain

On an honest chain responses can be applied in any order: each moves the client or is older than
what it has seen.
-/

namespace OpenLibra.LightClient

open List

variable {hash validators signature : Type}

structure HonestChain (S : Scheme hash validators signature) where
  OnChain : LedgerInfoWithSignatures hash validators signature -> Prop
  epochStateOf : Nat -> EpochState validators
  firstSignedEpoch : Nat
  epoch_epochStateOf : forall epoch, (epochStateOf epoch).epoch = epoch
  ledgerInfo_eq : forall {a b}, OnChain a -> OnChain b ->
    a.ledgerInfo.version = b.ledgerInfo.version -> a.ledgerInfo = b.ledgerInfo
  epoch_le : forall {a b}, OnChain a -> OnChain b -> a.ledgerInfo.version < b.ledgerInfo.version ->
      a.ledgerInfo.nextBlockEpoch ≤ b.ledgerInfo.epoch
  nextEpochState_eq : forall {a}, OnChain a -> a.ledgerInfo.endsEpoch = true ->
      a.ledgerInfo.nextEpochState = some (epochStateOf (a.ledgerInfo.epoch + 1))
  accepts_iff : forall {epoch a}, firstSignedEpoch ≤ epoch ->
    ((epochStateOf epoch).verify S a = .ok () <-> OnChain a ∧ a.ledgerInfo.epoch = epoch)

namespace HonestChain

variable {S : Scheme hash validators signature}

/-!
# Chains given as lists
-/

section

variable {lis : List (LedgerInfoWithSignatures hash validators signature)}

def Follows (li next : LedgerInfoWithSignatures hash validators signature) : Prop :=
  li.ledgerInfo.version < next.ledgerInfo.version ∧
    next.ledgerInfo.epoch = li.ledgerInfo.nextBlockEpoch

instance (li next : LedgerInfoWithSignatures hash validators signature) :
    Decidable (Follows li next) :=
  inferInstanceAs (Decidable (_ ∧ _))

/-- One ledger info is somewhere before the other. -/
def Precedes (li later : LedgerInfoWithSignatures hash validators signature) : Prop :=
  li.ledgerInfo.version < later.ledgerInfo.version ∧
    li.ledgerInfo.nextBlockEpoch ≤ later.ledgerInfo.epoch

theorem pairwise_precedes (hchain : List.IsChain Follows lis)
    (hepoch : forall li, li ∈ lis -> li.ledgerInfo.epoch ≤ li.ledgerInfo.nextBlockEpoch) :
    lis.Pairwise Precedes := by
  induction lis with
  | nil => exact List.Pairwise.nil
  | cons li rest ih =>
    have hrest := ih hchain.tail
      (fun x hx => hepoch x (mem_cons_of_mem li hx))
    apply pairwise_cons.mpr
    refine ⟨?_, hrest⟩
    intro later hlater
    cases rest with
    | nil => cases hlater
    | cons next =>
      have hnext := (isChain_cons_cons.mp hchain).1
      have hle := hepoch next (by simp)
      rcases mem_cons.mp hlater with rfl | hlater
      · exact ⟨hnext.1, le_of_eq hnext.2.symm⟩
      · have hfar := (pairwise_cons.mp hrest).1 later hlater
        constructor
        · exact lt_trans hnext.1 hfar.1
        · rw [← hnext.2]
          exact le_trans hle hfar.2

variable {a b : LedgerInfoWithSignatures hash validators signature}

theorem precedes_or_precedes (hpair : lis.Pairwise Precedes) (ha : a ∈ lis)
    (hb : b ∈ lis) (hne : a ≠ b) : Precedes a b ∨ Precedes b a := by
  induction hpair with
  | nil => cases ha
  | cons hhead _ ih =>
    rcases mem_cons.mp ha with hfirst | haRest
    · rcases mem_cons.mp hb with hsnd | hbRest
      · exact absurd (hfirst.trans hsnd.symm) hne
      · exact .inl (hfirst ▸ hhead b hbRest)
    · rcases mem_cons.mp hb with hsnd | hbRest
      · exact .inr (hsnd ▸ hhead a haRest)
      · exact ih haRest hbRest

def ofList (lis : List (LedgerInfoWithSignatures hash validators signature))
    (epochStateOf : Nat -> EpochState validators) (firstSignedEpoch : Nat)
    (hstates : forall epoch, (epochStateOf epoch).epoch = epoch) (hchain : List.IsChain Follows lis)
    (hnext : forall li, li ∈ lis -> li.ledgerInfo.endsEpoch = true -> li.ledgerInfo.nextEpochState =
      some (epochStateOf (li.ledgerInfo.epoch + 1)))
    (haccepts : forall {epoch li}, firstSignedEpoch ≤ epoch -> ((epochStateOf epoch).verify S li =
      .ok () <-> li ∈ lis ∧ li.ledgerInfo.epoch = epoch)) :
    HonestChain S :=
  have hepoch : forall li, li ∈ lis -> li.ledgerInfo.epoch ≤ li.ledgerInfo.nextBlockEpoch := by
    intro li hli
    cases hends : li.ledgerInfo.endsEpoch with
    | true =>
      rw [LedgerInfo.nextBlockEpoch_of_some (hnext li hli hends), hstates]
      exact Nat.le_succ _
    | false => rw [LedgerInfo.nextBlockEpoch_of_not_endsEpoch hends]
  have hpair := pairwise_precedes hchain hepoch
  { OnChain := fun li => li ∈ lis
    epochStateOf := epochStateOf
    firstSignedEpoch := firstSignedEpoch
    epoch_epochStateOf := hstates
    ledgerInfo_eq := by
      intro a b ha hb hver
      by_contra hne
      rcases precedes_or_precedes hpair ha hb (fun hab => hne (congrArg _ hab)) with h | h
      · exact Nat.ne_of_lt h.1 hver
      · exact Nat.ne_of_gt h.1 hver
    epoch_le := by
      intro a b ha hb hver
      rcases precedes_or_precedes hpair ha hb (fun hab => lt_irrefl _ (hab ▸ hver)) with h | h
      · exact h.2
      · exact absurd h.1 (not_lt.mpr (le_of_lt hver))
    nextEpochState_eq := fun hli hends => hnext _ hli hends
    accepts_iff := haccepts }

end

/-!
# Clients of a chain
-/

def stateOf (chain : HonestChain S) (li : LedgerInfoWithSignatures hash validators signature) :
    TrustedState hash validators :=
  .epochState (Waypoint.newAny S li.ledgerInfo) (chain.epochStateOf li.ledgerInfo.nextBlockEpoch)

/-- A complete response for a client that started in the given epoch: the epoch
changes from some epoch at or before that one up to the latest ledger info. -/
structure Complete (chain : HonestChain S) (start : Nat)
    (response : Response hash validators signature) : Prop where
  latest_onChain : chain.OnChain response.latestLi
  not_more : response.proof.more = false
  onChain : forall li, li ∈ response.proof.ledgerInfoWithSigs ->
    chain.OnChain li ∧ li.ledgerInfo.endsEpoch = true
  consecutive : exists first, first ≤ start ∧
    response.proof.ledgerInfoWithSigs.map (fun li => li.ledgerInfo.epoch) = range' first
        (response.latestLi.ledgerInfo.nextBlockEpoch - first) ∧
    (response.latestLi.ledgerInfo.endsEpoch = true -> first ≤ response.latestLi.ledgerInfo.epoch ->
        response.latestLi ∈ response.proof.ledgerInfoWithSigs)

variable {li a b current : LedgerInfoWithSignatures hash validators signature} {epoch start : Nat}
  {chain : HonestChain S} {response : Response hash validators signature}
  {changes : List (LedgerInfoWithSignatures hash validators signature)}

theorem nextBlockEpoch_eq (chain : HonestChain S) (hli : chain.OnChain li) :
    li.ledgerInfo.nextBlockEpoch = if li.ledgerInfo.endsEpoch then li.ledgerInfo.epoch + 1
      else li.ledgerInfo.epoch := by
  cases hends : li.ledgerInfo.endsEpoch with
  | true =>
    have hnext := chain.nextEpochState_eq hli hends
    rw [LedgerInfo.nextBlockEpoch_of_some hnext, if_pos rfl]
    exact chain.epoch_epochStateOf _
  | false => exact LedgerInfo.nextBlockEpoch_of_not_endsEpoch hends

theorem signedBy_iff (chain : HonestChain S) (hepoch : chain.firstSignedEpoch ≤ epoch) :
    SignedBy S (chain.epochStateOf epoch) li <-> chain.OnChain li ∧
      li.ledgerInfo.epoch = epoch := by
  rw [← EpochState.verify_eq_ok_iff]
  exact chain.accepts_iff hepoch

theorem stateOf_eq (chain : HonestChain S) (ha : chain.OnChain a) (hb : chain.OnChain b)
    (hver : a.ledgerInfo.version = b.ledgerInfo.version) : chain.stateOf a = chain.stateOf b := by
  unfold stateOf
  rw [chain.ledgerInfo_eq ha hb hver]

def newer (a b : LedgerInfoWithSignatures hash validators signature) :
    LedgerInfoWithSignatures hash validators signature :=
  if a.ledgerInfo.version < b.ledgerInfo.version then b else a

theorem le_nextBlockEpoch_newer (chain : HonestChain S) (ha : chain.OnChain a)
    (hb : chain.OnChain b) (hle : epoch ≤ a.ledgerInfo.nextBlockEpoch) :
    epoch ≤ (newer a b).ledgerInfo.nextBlockEpoch := by
  unfold newer
  split
  · next hlt =>
      have hepoch := chain.epoch_le ha hb hlt
      have hnext := chain.nextBlockEpoch_eq hb
      split at hnext <;> omega
  · exact hle

theorem onChain_newer (chain : HonestChain S) (ha : chain.OnChain a) (hb : chain.OnChain b) :
    chain.OnChain (newer a b) := by
  unfold newer
  split
  · exact hb
  · exact ha

theorem Complete.eq_of_epoch_eq (hresp : chain.Complete start response)
    (ha : a ∈ response.proof.ledgerInfoWithSigs) (hb : b ∈ response.proof.ledgerInfoWithSigs)
    (hepoch : a.ledgerInfo.epoch = b.ledgerInfo.epoch) : a = b := by
  rcases hresp.consecutive with ⟨_, _, heps, _⟩
  have hnodup : (response.proof.ledgerInfoWithSigs.map (fun li => li.ledgerInfo.epoch)).Nodup := by
    rw [heps]
    exact nodup_range'
  exact inj_on_of_nodup_map hnodup ha hb hepoch

theorem Complete.eq_or_signedBy (hresp : chain.Complete start response)
    (hsigned : chain.firstSignedEpoch ≤ response.latestLi.ledgerInfo.epoch)
    (hstart : start ≤ response.latestLi.ledgerInfo.epoch) {last}
    (hlast : last ∈ response.proof.ledgerInfoWithSigs)
    (hlastEpoch : last.ledgerInfo.epoch + 1 = response.latestLi.ledgerInfo.nextBlockEpoch) :
    last = response.latestLi ∨ SignedBy S (chain.epochStateOf
        response.latestLi.ledgerInfo.nextBlockEpoch) response.latestLi := by
  have hlatest := hresp.latest_onChain
  have hnext := chain.nextBlockEpoch_eq hlatest
  cases hends : response.latestLi.ledgerInfo.endsEpoch with
  | true =>
    rw [hends, if_pos rfl] at hnext
    rcases hresp.consecutive with ⟨first, hfirst, _, hincluded⟩
    have hin := hincluded hends (le_trans hfirst hstart)
    exact .inl (hresp.eq_of_epoch_eq hlast hin (by omega))
  | false =>
    rw [hends] at hnext
    rw [hnext]
    exact .inr ((chain.signedBy_iff hsigned).mpr ⟨hlatest, rfl⟩)

theorem isChain_linked (chain : HonestChain S) {count : Nat}
    (hepoch : chain.firstSignedEpoch ≤ epoch)
    (hon : forall li, li ∈ changes -> chain.OnChain li ∧ li.ledgerInfo.endsEpoch = true)
    (heps : changes.map (fun li => li.ledgerInfo.epoch) = range' epoch count) :
    List.IsChain (Linked S) changes := by
  induction changes generalizing epoch count with
  | nil => exact isChain_nil
  | cons li rest ih =>
    cases count with
    | zero => cases heps
    | succ count =>
      rw [map_cons, range'_succ, cons.injEq] at heps
      have hli := hon li mem_cons_self
      have hrest := fun x hx => hon x (mem_cons_of_mem li hx)
      have hchain : List.IsChain (Linked S) rest := ih (Nat.le_succ_of_le hepoch) hrest heps.2
      cases rest with
      | nil => exact isChain_singleton li
      | cons next =>
        cases count with
        | zero => cases heps.2
        | succ =>
          have hnext : next.ledgerInfo.epoch = epoch + 1 := by
            have htail := heps.2
            rw [map_cons, range'_succ, cons.injEq] at htail
            exact htail.1
          apply isChain_cons_cons.mpr
          constructor
          · refine ⟨_, chain.nextEpochState_eq hli.1 hli.2, ?_⟩
            rw [heps.1]
            apply (chain.signedBy_iff (Nat.le_succ_of_le hepoch)).mpr
            exact ⟨(hrest next mem_cons_self).1, hnext⟩
          · exact hchain

theorem map_epoch_dropWhile {first count : Nat} (hle : first ≤ epoch)
    (hcount : epoch < first + count)
    (heps : changes.map (fun li => li.ledgerInfo.epoch) = range' first count) :
    (changes.dropWhile fun li => decide (li.ledgerInfo.epoch < epoch)).map
        (fun li => li.ledgerInfo.epoch) = range' epoch (first + count - epoch) := by
  induction changes generalizing first count with
  | nil =>
    cases count with
    | zero => omega
    | succ => cases heps
  | cons li rest ih =>
    cases count with
    | zero => cases heps
    | succ count =>
      rw [map_cons, range'_succ, cons.injEq] at heps
      rcases Nat.lt_or_eq_of_le hle with hlt | rfl
      · rw [dropWhile_cons_of_pos (by simp [heps.1, hlt])]
        have hshift : first + (count + 1) = first + 1 + count := by omega
        rw [hshift]
        exact ih hlt (by omega) heps.2
      · rw [dropWhile_cons_of_neg (by simp [heps.1])]
        rw [map_cons, heps.1, heps.2, ← range'_succ]
        congr 1
        omega

variable [DecidableEq hash] [ToString hash]

theorem exists_verify_eq_ok (chain : HonestChain S) {first target : Nat}
    {proof : EpochChangeProof hash validators signature} (waypoint : Waypoint hash)
    (hsigned : chain.firstSignedEpoch ≤ epoch) (hfirst : first ≤ epoch) (htgt : epoch < target)
    (hon : forall li, li ∈ proof.ledgerInfoWithSigs -> chain.OnChain li ∧ li.ledgerInfo.endsEpoch =
      true)
    (heps : proof.ledgerInfoWithSigs.map (fun li => li.ledgerInfo.epoch) = range' first (target -
      first)) : exists last, last ∈ proof.ledgerInfoWithSigs ∧ last.ledgerInfo.epoch + 1 = target ∧
      proof.verify S ((TrustedState.epochState waypoint
          (chain.epochStateOf epoch)).verifier S) = .ok last := by
  have hne : target - first ≠ 0 := by omega
  have hlastEpoch : proof.ledgerInfoWithSigs.getLast?.map (fun li => li.ledgerInfo.epoch) =
      some (first + (target - first) - 1) := by
    rw [← getLast?_map, heps, getLast?_range', if_neg hne]
  rcases Option.map_eq_some_iff.mp hlastEpoch with ⟨last, hlast, hepoch⟩
  have hstale : (fun li : LedgerInfoWithSignatures hash validators signature =>
      (((TrustedState.epochState waypoint (chain.epochStateOf epoch)).verifier S).isLedgerInfoStale
          li.ledgerInfo)) =
      fun li => decide (li.ledgerInfo.epoch < epoch) := by
    funext li
    simp [TrustedState.verifier, EpochState.toVerifier, chain.epoch_epochStateOf]
  have hfresh : decide (last.ledgerInfo.epoch < epoch) = false := by
    simp only [decide_eq_false_iff_not]
    omega
  have hrest := map_epoch_dropWhile hfirst (by omega) heps
  rcases exists_dropWhile_of_getLast
      (fun li : LedgerInfoWithSignatures hash validators signature =>
        decide (li.ledgerInfo.epoch < epoch))
      hlast hfresh with ⟨head, rest, hdrop, _⟩
  have hon' : forall li, li ∈ head :: rest ->
    chain.OnChain li ∧ li.ledgerInfo.endsEpoch = true := by
    intro li hli
    rw [← hdrop] at hli
    exact hon li ((dropWhile_sublist _).subset hli)
  rw [hdrop] at hrest
  have hhead : head.ledgerInfo.epoch = epoch := by
    rw [map_cons, eq_comm, range'_eq_cons_iff] at hrest
    exact hrest.1.symm
  refine ⟨last, mem_of_getLast? hlast, by omega, ?_⟩
  apply EpochChangeProof.verify_eq_ok_iff.mpr
  refine ⟨hlast, ?_, ?_⟩
  · exact (congrFun hstale last).trans hfresh
  · rw [hstale, hdrop, verifyJumps_cons_eq_ok_iff]
    refine ⟨?_, chain.isChain_linked hsigned hon' hrest, fun li hli => (hon' li hli).2⟩
    apply EpochState.verify_eq_ok_iff.mpr
    apply (chain.signedBy_iff hsigned).mpr
    exact ⟨(hon' head mem_cons_self).1, hhead⟩

theorem required_stateOf (chain : HonestChain S) :
    ((chain.stateOf li).verifier S).epochChangeVerificationRequired epoch =
      decide (li.ledgerInfo.nextBlockEpoch < epoch) := by
  simp [stateOf, TrustedState.verifier, EpochState.toVerifier, chain.epoch_epochStateOf]

variable [DecidableEq validators] [DecidableEq signature]

theorem exists_verifyAndRatchetInner_eq_ok (chain : HonestChain S) (hcur : chain.OnChain current)
    (hsigned : chain.firstSignedEpoch ≤ current.ledgerInfo.nextBlockEpoch)
    (hstart : start ≤ current.ledgerInfo.nextBlockEpoch) (hresp : chain.Complete start response)
    (hnewer : current.ledgerInfo.version < response.latestLi.ledgerInfo.version) :
    exists change, (chain.stateOf current).verifyAndRatchetInner S response.latestLi
        response.proof = .ok change ∧
          change.newState? = some (chain.stateOf response.latestLi) := by
  have hlatest := hresp.latest_onChain
  have hle := chain.epoch_le hcur hlatest hnewer
  have hnext := chain.nextBlockEpoch_eq hlatest
  have hver : (chain.stateOf current).version ≤
    response.latestLi.ledgerInfo.version := le_of_lt hnewer
  rcases hresp.consecutive with ⟨first, hfirst, heps, _⟩
  cases hreq : decide (current.ledgerInfo.nextBlockEpoch <
      response.latestLi.ledgerInfo.nextBlockEpoch) with
  | false =>
    -- The latest ledger info is in the client's epoch and does not end it.
    have hsame : response.latestLi.ledgerInfo.epoch = current.ledgerInfo.nextBlockEpoch := by
      simp only [decide_eq_false_iff_not] at hreq
      split at hnext <;> omega
    have hsameNext : response.latestLi.ledgerInfo.nextBlockEpoch =
      current.ledgerInfo.nextBlockEpoch := by
      simp only [decide_eq_false_iff_not] at hreq
      split at hnext <;> omega
    have hlatestSigned := (chain.signedBy_iff hsigned).mpr ⟨hlatest, hsame⟩
    refine ⟨_, TrustedState.verifyAndRatchetInner_eq_ok_iff.mpr ⟨hver, Or.inr ⟨?_,
      TrustedState.ratchetVersion_eq_ok_iff.mpr ⟨_, _, rfl, Or.inr ⟨Nat.ne_of_gt hnewer,
      hlatestSigned, rfl⟩⟩⟩⟩, ?_⟩
    · rw [chain.required_stateOf]
      exact hreq
    · unfold stateOf
      rw [hsameNext]
      rfl
  | true =>
    -- The epoch changes lead to the epoch the latest ledger info opens.
    have hlt := of_decide_eq_true hreq
    rcases chain.exists_verify_eq_ok (Waypoint.newAny S current.ledgerInfo) hsigned
        (le_trans hfirst hstart) hlt hresp.onChain heps with
      ⟨last, hlast, hlastEpoch, hproof⟩
    have hlastOn := hresp.onChain last hlast
    have hlastNext := chain.nextEpochState_eq hlastOn.1 hlastOn.2
    rw [hlastEpoch] at hlastNext
    have hvfd : TrustedState.verifiedLedgerInfo S response.latestLi last
      (chain.epochStateOf response.latestLi.ledgerInfo.nextBlockEpoch)
      response.proof.more = .ok response.latestLi := by
      apply TrustedState.verifiedLedgerInfo_eq_ok_iff.mpr
      exact .inl ⟨rfl, hresp.eq_or_signedBy (le_trans hsigned hle)
        (le_trans hstart hle) hlast hlastEpoch⟩
    refine ⟨_, TrustedState.verifyAndRatchetInner_eq_ok_iff.mpr ⟨hver, Or.inl ⟨?_,
      TrustedState.ratchetEpoch_eq_ok_iff.mpr ⟨last, _, _, hproof, hlastNext, hvfd, rfl⟩⟩⟩, rfl⟩
    rw [chain.required_stateOf]
    exact hreq

theorem ratchet_stateOf (chain : HonestChain S) (hcur : chain.OnChain current)
    (hsigned : chain.firstSignedEpoch ≤ current.ledgerInfo.nextBlockEpoch)
    (hstart : start ≤ current.ledgerInfo.nextBlockEpoch) (hresp : chain.Complete start response) :
    (chain.stateOf current).ratchet S response =
      chain.stateOf (newer current response.latestLi) := by
  unfold newer
  by_cases hnewer : current.ledgerInfo.version < response.latestLi.ledgerInfo.version
  · rcases chain.exists_verifyAndRatchetInner_eq_ok hcur hsigned hstart
      hresp hnewer with ⟨change, hchg, hnew⟩
    simp [TrustedState.ratchet, hchg, hnew, hnewer]
  · rw [if_neg hnewer]
    unfold TrustedState.ratchet
    cases h : (chain.stateOf current).verifyAndRatchetInner S response.latestLi
        response.proof with
    | err _ => rfl
    | panic => rfl
    | ok change =>
      -- Accepted but not newer: the version is the trusted one.
      have hver : current.ledgerInfo.version = response.latestLi.ledgerInfo.version :=
        le_antisymm (TrustedState.verifyAndRatchetInner_eq_ok_iff.mp h).1
          (Nat.le_of_not_lt hnewer)
      have hsame := chain.ledgerInfo_eq hcur hresp.latest_onChain hver
      rcases TrustedState.verifyAndRatchetInner_eq_ok_iff.mp h with ⟨_, ⟨hreq, _⟩ | ⟨_, h⟩⟩
      · rw [chain.required_stateOf, hsame] at hreq
        simp at hreq
      · rcases TrustedState.ratchetVersion_eq_ok_iff.mp h with ⟨_, _, hstate, ⟨_, rfl⟩ | ⟨hne, _⟩⟩
        · rfl
        · cases hstate
          exact absurd hver.symm hne

theorem exists_ratchetAll_eq (chain : HonestChain S) {responses} (hcur : chain.OnChain current)
    (hsigned : chain.firstSignedEpoch ≤ current.ledgerInfo.nextBlockEpoch)
    (hstart : start ≤ current.ledgerInfo.nextBlockEpoch)
    (hresponses : forall response, response ∈ responses -> chain.Complete start response) :
    exists newest, chain.OnChain newest ∧
      newest ∈ current :: responses.map (fun response => response.latestLi) ∧ (forall li,
        li ∈ current :: responses.map (fun response => response.latestLi) ->
          li.ledgerInfo.version ≤ newest.ledgerInfo.version) ∧
      (chain.stateOf current).ratchetAll S responses = chain.stateOf newest := by
  induction responses generalizing current with
  | nil =>
    refine ⟨current, hcur, mem_cons_self, ?_, rfl⟩
    intro li hli
    rw [map_nil, mem_singleton] at hli
    rw [hli]
  | cons response rest ih =>
    have hresp := hresponses response mem_cons_self
    have hlatest := hresp.latest_onChain
    rcases ih (chain.onChain_newer hcur hlatest)
        (chain.le_nextBlockEpoch_newer hcur hlatest hsigned)
        (chain.le_nextBlockEpoch_newer hcur hlatest hstart)
        (fun r hr => hresponses r (mem_cons_of_mem response hr)) with
      ⟨newest, hon, hmem, hmax, hstate⟩
    have hnewer := hmax _ mem_cons_self
    refine ⟨newest, hon, ?_, ?_, ?_⟩
    · rcases mem_cons.mp hmem with rfl | hrest
      · unfold newer
        split <;> simp
      · simp only [map_cons, mem_cons]
        exact .inr (Or.inr hrest)
    · intro li hli
      simp only [map_cons, mem_cons] at hli
      rcases hli with rfl | rfl | hrest
      · unfold newer at hnewer
        split at hnewer <;> omega
      · unfold newer at hnewer
        split at hnewer <;> omega
      · exact hmax li (mem_cons_of_mem _ hrest)
    · rw [TrustedState.ratchetAll, foldl_cons, chain.ratchet_stateOf hcur hsigned hstart hresp]
      exact hstate

/-- Complete responses commute: whatever their order, the client ends in the
state of the newest ledger info it started from or was told of. -/
theorem ratchetAll_order_independent (chain : HonestChain S)
    (origin : LedgerInfoWithSignatures hash validators signature)
    (responses : List (Response hash validators signature)) (horigin : chain.OnChain origin)
    (hsigned : chain.firstSignedEpoch ≤ origin.ledgerInfo.nextBlockEpoch)
    (hresponses : forall response, response ∈ responses -> chain.Complete
      origin.ledgerInfo.nextBlockEpoch response) :
    exists newest,
      newest ∈ origin :: responses.map (fun response => response.latestLi) ∧
      (forall li,
        li ∈ origin :: responses.map (fun response => response.latestLi) ->
          li.ledgerInfo.version ≤ newest.ledgerInfo.version) ∧
      forall order : List (Response hash validators signature), order.Perm responses ->
          (chain.stateOf origin).ratchetAll S order = chain.stateOf newest := by
  rcases chain.exists_ratchetAll_eq horigin hsigned (Nat.le_refl _)
    hresponses with ⟨newest, hon, hmem, hmax, _⟩
  refine ⟨newest, hmem, hmax, ?_⟩
  intro order horder
  rcases chain.exists_ratchetAll_eq horigin hsigned (Nat.le_refl _)
    (fun response h => hresponses response (horder.mem_iff.mp h)) with
    ⟨other, honOther, hmemOther, hmaxOther, hstate⟩
  rw [hstate]
  have hmems : forall li,
    li ∈ origin :: order.map (fun response => response.latestLi) <->
      li ∈ origin :: responses.map (fun response => response.latestLi) :=
    fun li => ((horder.map _).cons origin).mem_iff
  apply chain.stateOf_eq honOther hon
  apply Nat.le_antisymm
  · exact hmax other ((hmems other).mp hmemOther)
  · exact hmaxOther newest ((hmems newest).mpr hmem)

/-!
# An example chain
-/

def listScheme (lis : List (LedgerInfoWithSignatures Nat Nat Nat)) : Scheme Nat Nat Nat :=
  { hashConverter := fun converter => converter.version
    verifySignatures := fun set info signed =>
      if ⟨info, signed⟩ ∈ lis ∧ info.epoch = set then .ok ()
      else .err [] }

def threeEpochs : List (LedgerInfoWithSignatures Nat Nat Nat) :=
  [namedLedgerInfo 5 100 false, namedLedgerInfo 5 110 true, namedLedgerInfo 6 115 false,
    namedLedgerInfo 6 120 true, namedLedgerInfo 7 130 false]

def threeEpochsChain : HonestChain (listScheme threeEpochs) :=
  ofList threeEpochs (fun epoch => ⟨epoch, epoch⟩) 0 (fun _ => rfl) (by decide) (by decide)
    (by
      intro epoch li _
      rw [EpochState.verify_eq_ok_iff]
      simp only [SignedBy, listScheme]
      by_cases hmem : li ∈ threeEpochs
      · simp [hmem]
      · simp [hmem])

def twoResponses : List (Response Nat Nat Nat) :=
  [⟨namedLedgerInfo 7 130 false, ⟨[namedLedgerInfo 5 110 true, namedLedgerInfo 6 120 true], false⟩⟩,
    ⟨namedLedgerInfo 6 115 false, ⟨[namedLedgerInfo 5 110 true], false⟩⟩]

theorem complete_twoResponses (response : Response Nat Nat Nat) (h : response ∈ twoResponses) :
    threeEpochsChain.Complete 5 response := by
  rcases mem_cons.mp h with rfl | h
  · exact
      { latest_onChain := show _ ∈ threeEpochs by decide
        not_more := rfl
        onChain := show forall li, li ∈ _ -> li ∈ threeEpochs ∧ _ by decide
        consecutive := ⟨5, by decide⟩ }
  · rw [mem_singleton] at h
    subst h
    exact
      { latest_onChain := show _ ∈ threeEpochs by decide
        not_more := rfl
        onChain := show forall li, li ∈ _ -> li ∈ threeEpochs ∧ _ by decide
        consecutive := ⟨5, by decide⟩ }

theorem ratchetAll_order_independent_two_responses :
    exists newest, newest ∈ namedLedgerInfo 5 100 false ::
        twoResponses.map (fun response => response.latestLi) ∧
      (forall li, li ∈ namedLedgerInfo 5 100 false ::
            twoResponses.map (fun response => response.latestLi) ->
          li.ledgerInfo.version ≤ newest.ledgerInfo.version) ∧
      forall order : List (Response Nat Nat Nat), order.Perm twoResponses ->
        (threeEpochsChain.stateOf (namedLedgerInfo 5 100 false)).ratchetAll
            (listScheme threeEpochs) order =
          threeEpochsChain.stateOf newest :=
  ratchetAll_order_independent threeEpochsChain (namedLedgerInfo 5 100 false)
    twoResponses (show _ ∈ threeEpochs by decide) (Nat.zero_le _)
    complete_twoResponses

end HonestChain

end OpenLibra.LightClient
