import Mathlib.Data.List.Chain
import OpenLibra.LightClient.TrustedState

/-!
# Soundness of the ratchet

Trust is a derivation: a ledger info is verified when the trusted state accepts it, or when it
is signed for the epoch state that a verified ledger info carries.
-/

namespace OpenLibra.LightClient

open Rust List

variable {hash validators signature : Type}

/-!
# What the checks establish
-/

variable (S : Scheme hash validators signature)

def SignedBy (state : EpochState validators)
    (li : LedgerInfoWithSignatures hash validators signature) : Prop :=
  li.ledgerInfo.epoch = state.epoch ∧
    S.verifySignatures state.verifier li.ledgerInfo li.signatures = .ok ()

def Accepts : TrustedState hash validators ->
    LedgerInfoWithSignatures hash validators signature -> Prop
  | .epochWaypoint waypoint, li => Waypoint.newAny S li.ledgerInfo = waypoint
  | .epochState _ state, li => SignedBy S state li

def Linked (li next : LedgerInfoWithSignatures hash validators signature) : Prop :=
  exists state, li.ledgerInfo.nextEpochState = some state ∧ SignedBy S state next

/-- Ledger infos a client with this trusted state may rely on. -/
inductive Verified (S : Scheme hash validators signature) (origin : TrustedState hash validators) :
    LedgerInfoWithSignatures hash validators signature -> Prop where
  | accepted {li : LedgerInfoWithSignatures hash validators signature} :
      Accepts S origin li -> Verified S origin li
  | linked {li next : LedgerInfoWithSignatures hash validators signature} :
      Verified S origin li -> Linked S li next -> Verified S origin next

variable {S : Scheme hash validators signature}
  {li last : LedgerInfoWithSignatures hash validators signature}
  {verifier : Verifier hash validators signature}

theorem EpochState.verify_eq_ok_iff {state} :
    state.verify S li = .ok () <-> SignedBy S state li := by
  unfold EpochState.verify SignedBy
  rw [check_bind_eq_ok_iff, ensure_eq_ok_iff]
  constructor
  · intro h
    exact ⟨h.1.symm, h.2⟩
  · intro h
    exact ⟨h.1.symm, h.2⟩

theorem verified_of_isChain {origin} {chain} (hchain : List.IsChain (Linked S) (li :: chain))
    (hli : Verified S origin li) (hlast : (li :: chain).getLast? = some last) :
    Verified S origin last := by
  induction chain generalizing li with
  | nil =>
    cases hlast
    exact hli
  | cons next rest ih =>
    rw [isChain_cons_cons] at hchain
    rw [List.getLast?_cons_cons] at hlast
    exact ih hchain.2 (.linked hli hchain.1) hlast

theorem verifyJumps_cons_eq_ok_iff {rest} :
    EpochChangeProof.verifyJumps S verifier (li :: rest) = .ok () <->
      verifier.verify li = .ok () ∧ List.IsChain (Linked S) (li :: rest) ∧
        forall x, x ∈ li :: rest -> x.ledgerInfo.endsEpoch = true := by
  induction rest generalizing verifier li with
  | nil =>
    cases hnext : li.ledgerInfo.nextEpochState with
    | none | some =>
      simp [EpochChangeProof.verifyJumps, hnext, check_bind_eq_ok_iff, LedgerInfo.endsEpoch]
  | cons next rest ih =>
    rw [EpochChangeProof.verifyJumps, check_bind_eq_ok_iff, isChain_cons_cons, forall_mem_cons]
    cases hnext : li.ledgerInfo.nextEpochState with
    | none => simp [hnext, LedgerInfo.endsEpoch]
    | some state =>
      have hlinked : Linked S li next <-> SignedBy S state next := by simp [Linked, hnext]
      have hvfy : (state.toVerifier S).verify next = .ok () <-> SignedBy S state next :=
        EpochState.verify_eq_ok_iff
      have hends : li.ledgerInfo.endsEpoch = true := by simp [LedgerInfo.endsEpoch, hnext]
      simp only [ih, hvfy, hlinked, hends]
      constructor
      · intro h
        rcases h with ⟨hli, hsigned, hchain, hall⟩
        exact ⟨hli, ⟨hsigned, hchain⟩, trivial, hall⟩
      · intro h
        rcases h with ⟨hli, ⟨hsigned, hchain⟩, _, hall⟩
        exact ⟨hli, hsigned, hchain, hall⟩

theorem EpochChangeProof.verify_eq_ok_iff {proof : EpochChangeProof hash validators signature} :
    proof.verify S verifier = .ok last <-> proof.ledgerInfoWithSigs.getLast? = some last ∧
        verifier.isLedgerInfoStale last.ledgerInfo = false ∧
        verifyJumps S verifier (proof.ledgerInfoWithSigs.dropWhile
            fun li => verifier.isLedgerInfoStale li.ledgerInfo) = .ok () := by
  unfold EpochChangeProof.verify
  cases hlast : proof.ledgerInfoWithSigs.getLast? with
  | none => simp [check_bind_eq_ok_iff]
  | some =>
    have hne : proof.ledgerInfoWithSigs ≠ [] := by
      intro hnil
      simp [hnil] at hlast
    simp only [expect_some, ok_bind, check_bind_eq_ok_iff, ensure_eq_ok_iff,
      Option.some.injEq, Outcome.ok.injEq]
    constructor
    · intro h
      rcases h with ⟨_, hfresh, hjumps, rfl⟩
      exact ⟨rfl, hfresh, hjumps⟩
    · intro h
      rcases h with ⟨rfl, hfresh, hjumps⟩
      exact ⟨hne, hfresh, hjumps, rfl⟩

theorem exists_dropWhile_of_getLast {alpha : Type} (stale : alpha -> Bool) {xs : List alpha}
    {last : alpha} (hlast : xs.getLast? = some last) (hfresh : stale last = false) :
    exists first rest, xs.dropWhile stale = first :: rest ∧
      (first :: rest).getLast? = some last := by
  induction xs with
  | nil => cases hlast
  | cons x xs ih =>
    cases hx : stale x with
    | false => exact ⟨x, xs, by simp [hx], hlast⟩
    | true =>
      cases xs with
      | nil =>
        rw [List.getLast?_singleton, Option.some.injEq] at hlast
        rw [← hlast, hx] at hfresh
        cases hfresh
      | cons =>
        rw [List.getLast?_cons_cons] at hlast
        rw [dropWhile_cons_of_pos hx]
        exact ih hlast

/-!
# The branches of the ratchet
-/

theorem Waypoint.newAny_eq_iff {info} {waypoint} :
    Waypoint.newAny S info = waypoint <-> info.version = waypoint.version ∧
        S.hashConverter (Ledger2WaypointConverter.new info) = waypoint.value := by
  cases waypoint
  simp [Waypoint.newAny]

variable [dh : DecidableEq hash] [th : ToString hash]

theorem TrustedState.verify_eq_ok_iff {state} :
    (state.verifier S).verify li = .ok () <-> Accepts S state li := by
  cases state with
  | epochWaypoint =>
    simp [TrustedState.verifier, Waypoint.verifier, Waypoint.verify, Accepts,
      Waypoint.newAny_eq_iff, check_bind_eq_ok_iff, ensure_eq_ok_iff]
  | epochState => exact EpochState.verify_eq_ok_iff

namespace TrustedState

variable [dv : DecidableEq validators] [ds : DecidableEq signature]
  {S : Scheme hash validators signature}
  {latestLi : LedgerInfoWithSignatures hash validators signature}
  {self origin state : TrustedState hash validators}
  {proof : EpochChangeProof hash validators signature}
  {change : TrustedStateChange hash validators signature}

omit th in
theorem verifiedLedgerInfo_eq_ok_iff {epochChangeLi verified} {newEpochState} {more : Bool} :
    verifiedLedgerInfo S latestLi epochChangeLi newEpochState more = .ok verified <->
      (verified = latestLi ∧ (epochChangeLi = latestLi ∨ SignedBy S newEpochState latestLi)) ∨
      (verified = epochChangeLi ∧ epochChangeLi ≠ latestLi ∧ more = true ∧
        newEpochState.epoch < latestLi.ledgerInfo.epoch) := by
  unfold verifiedLedgerInfo
  by_cases hsame : epochChangeLi = latestLi
  · simp [hsame, eq_comm]
  · rw [if_neg hsame]
    by_cases hepoch : latestLi.ledgerInfo.epoch = newEpochState.epoch
    · simp [hsame, hepoch, check_bind_eq_ok_iff,
        EpochState.verify_eq_ok_iff, and_comm, eq_comm (a := verified)]
    · have hnot : ¬ SignedBy S newEpochState latestLi := fun h => hepoch h.1
      by_cases hlater : newEpochState.epoch < latestLi.ledgerInfo.epoch ∧ more = true
      · simp [hsame, hepoch, hnot, hlater, eq_comm]
      · rw [if_neg hepoch, if_neg hlater]
        simp only [hsame, hnot, reduceCtorEq, false_iff]
        intro h
        rcases h with h | h
        · exact h.2.elim id id
        · exact hlater ⟨h.2.2.2, h.2.2.1⟩

theorem ratchetEpoch_eq_ok_iff : ratchetEpoch S self latestLi proof = .ok change <->
    exists epochChangeLi newEpochState verified,
      proof.verify S (self.verifier S) = .ok epochChangeLi ∧
      epochChangeLi.ledgerInfo.nextEpochState = some newEpochState ∧
      verifiedLedgerInfo S latestLi epochChangeLi newEpochState proof.more = .ok verified ∧
      change = .epoch (epochState (Waypoint.newAny S verified.ledgerInfo) newEpochState)
        epochChangeLi := by
  unfold ratchetEpoch
  rw [bind_eq_ok_iff]
  constructor
  · intro h
    rcases h with ⟨epochChangeLi, hproof, h⟩
    cases hnext : epochChangeLi.ledgerInfo.nextEpochState with
    | none =>
      rw [hnext] at h
      cases h
    | some newEpochState =>
      rw [hnext] at h
      rcases of_bind h with ⟨verified, hvfd, hchg⟩
      cases hchg
      exact ⟨epochChangeLi, newEpochState, verified, hproof, hnext, hvfd, rfl⟩
  · intro h
    rcases h with ⟨epochChangeLi, _, verified, hproof, hnext, hvfd, rfl⟩
    refine ⟨epochChangeLi, hproof, ?_⟩
    rw [hnext]
    exact bind_eq_ok_iff.mpr ⟨verified, hvfd, rfl⟩

omit th dv ds in
theorem ratchetVersion_eq_ok_iff : ratchetVersion S self latestLi = .ok change <->
    exists waypoint state, self = epochState waypoint state ∧
      ((Waypoint.newAny S latestLi.ledgerInfo = waypoint ∧ change = .noChange) ∨
        (latestLi.ledgerInfo.version ≠ waypoint.version ∧ SignedBy S state latestLi ∧
          change = .version (epochState (Waypoint.newAny S latestLi.ledgerInfo) state))) := by
  cases self with
  | epochWaypoint => simp [ratchetVersion]
  | epochState waypoint =>
    unfold ratchetVersion
    by_cases hver : (Waypoint.newAny S latestLi.ledgerInfo).version = waypoint.version
    · have hsame : latestLi.ledgerInfo.version = waypoint.version := hver
      simp [hver, hsame, check_bind_eq_ok_iff, ensure_eq_ok_iff, eq_comm (a := change)]
    · have hother : latestLi.ledgerInfo.version ≠ waypoint.version := hver
      have hne : Waypoint.newAny S latestLi.ledgerInfo ≠ waypoint := by
        intro h
        exact hver (congrArg Waypoint.version h)
      simp [hver, hother, hne, check_bind_eq_ok_iff,
        EpochState.verify_eq_ok_iff, eq_comm (a := change)]

theorem verifyAndRatchetInner_eq_ok_iff :
    verifyAndRatchetInner S self latestLi proof = .ok change <->
      self.version ≤ latestLi.ledgerInfo.version ∧
        (((self.verifier S).epochChangeVerificationRequired
              latestLi.ledgerInfo.nextBlockEpoch = true ∧
            ratchetEpoch S self latestLi proof = .ok change) ∨
          ((self.verifier S).epochChangeVerificationRequired
              latestLi.ledgerInfo.nextBlockEpoch = false ∧
            ratchetVersion S self latestLi = .ok change)) := by
  unfold verifyAndRatchetInner
  rw [check_bind_eq_ok_iff, ensure_eq_ok_iff]
  cases (self.verifier S).epochChangeVerificationRequired
      latestLi.ledgerInfo.nextBlockEpoch with
  | false => simp
  | true => simp

/-!
# Soundness
-/

def Justified (S : Scheme hash validators signature) (self : TrustedState hash validators)
    (latestLi : LedgerInfoWithSignatures hash validators signature)
    (proof : EpochChangeProof hash validators signature) :
    TrustedStateChange hash validators signature -> Prop
  | .version newState =>
    exists waypoint state, self = epochState waypoint state ∧ newState =
        epochState (Waypoint.newAny S latestLi.ledgerInfo) state ∧
      SignedBy S state latestLi
  | .epoch newState last =>
    exists first rest waypoint state, (proof.ledgerInfoWithSigs.dropWhile
        fun li => (self.verifier S).isLedgerInfoStale li.ledgerInfo) =
        first :: rest ∧
      Accepts S self first ∧
      List.IsChain (Linked S) (first :: rest) ∧
      (first :: rest).getLast? = some last ∧
      last.ledgerInfo.nextEpochState = some state ∧
      newState = epochState waypoint state ∧
      ((waypoint = Waypoint.newAny S latestLi.ledgerInfo ∧
          (latestLi = last ∨ SignedBy S state latestLi)) ∨
        (waypoint = Waypoint.newAny S last.ledgerInfo ∧
          proof.more = true ∧ state.epoch < latestLi.ledgerInfo.epoch))
  | .noChange => Waypoint.newAny S latestLi.ledgerInfo = self.waypoint

theorem justified_of_eq_ok (h : verifyAndRatchetInner S self latestLi proof = .ok change) :
    Justified S self latestLi proof change := by
  rcases verifyAndRatchetInner_eq_ok_iff.mp h with ⟨_, ⟨_, h⟩ | ⟨_, h⟩⟩
  · rcases ratchetEpoch_eq_ok_iff.mp h with ⟨_, state, verified, hproof, hnext, hvfd, rfl⟩
    rcases EpochChangeProof.verify_eq_ok_iff.mp hproof with ⟨hlast, hfresh, hjumps⟩
    rcases exists_dropWhile_of_getLast (fun li => (self.verifier S).isLedgerInfoStale li.ledgerInfo)
        hlast hfresh with ⟨first, rest, hdrop, hlast⟩
    rw [hdrop, verifyJumps_cons_eq_ok_iff] at hjumps
    refine ⟨first, rest, Waypoint.newAny S verified.ledgerInfo, state, hdrop,
      TrustedState.verify_eq_ok_iff.mp hjumps.1, hjumps.2.1, hlast, hnext, rfl, ?_⟩
    rcases verifiedLedgerInfo_eq_ok_iff.mp hvfd with ⟨rfl, hlatest⟩ | ⟨rfl, _, hmore, hlater⟩
    · exact .inl ⟨rfl, hlatest.imp Eq.symm id⟩
    · exact .inr ⟨rfl, hmore, hlater⟩
  · rcases ratchetVersion_eq_ok_iff.mp h with
      ⟨waypoint, state, rfl, ⟨hsame, rfl⟩ | ⟨_, hsigned, rfl⟩⟩
    · exact hsame
    · exact ⟨waypoint, state, rfl, rfl, hsigned⟩

omit dv ds in
theorem verified_of_justified {newState} (h : Justified S self latestLi proof change)
    (hnew : change.newState? = some newState) :
    (exists li, Verified S self li ∧ newState.waypoint = Waypoint.newAny S li.ledgerInfo) ∧
      forall li, Accepts S newState li -> Verified S self li := by
  cases change with
  | version =>
    cases hnew
    rcases h with ⟨waypoint, state, rfl, rfl, hsigned⟩
    constructor
    · exact ⟨latestLi, .accepted hsigned, rfl⟩
    · intro li hli
      exact .accepted hli
  | epoch state' last =>
    cases hnew
    rcases h with ⟨_, _, _, state, _, hfirst, hchain, hlast, hnext, rfl, hwaypoint⟩
    have hvfd : Verified S self last := verified_of_isChain hchain (.accepted hfirst) hlast
    constructor
    · rcases hwaypoint with ⟨rfl, rfl | hsigned⟩ | ⟨rfl, _⟩
      · exact ⟨latestLi, hvfd, rfl⟩
      · exact ⟨latestLi, .linked hvfd ⟨state, hnext, hsigned⟩, rfl⟩
      · exact ⟨last, hvfd, rfl⟩
    · intro _ hli
      exact .linked hvfd ⟨state, hnext, hli⟩
  | noChange => cases hnew

def TrustedFrom (S : Scheme hash validators signature)
    (origin state : TrustedState hash validators) : Prop :=
  (state.waypoint = origin.waypoint ∨
    exists li, Verified S origin li ∧ state.waypoint = Waypoint.newAny S li.ledgerInfo) ∧
  forall li, Accepts S state li -> Verified S origin li

omit dh th dv ds in
theorem TrustedFrom.verified (htrusted : TrustedFrom S origin state) {li}
    (hli : Verified S state li) : Verified S origin li := by
  induction hli with
  | accepted haccepts => exact htrusted.2 _ haccepts
  | linked _ hlinked ih => exact .linked ih hlinked

theorem TrustedFrom.ratchet (htrusted : TrustedFrom S origin state)
    (response : Response hash validators signature) :
    TrustedFrom S origin (state.ratchet S response) := by
  unfold TrustedState.ratchet
  cases h : state.verifyAndRatchetInner S response.latestLi response.proof with
  | err | panic => exact htrusted
  | ok change =>
    cases hnew : change.newState? with
    | none => simpa [hnew] using htrusted
    | some =>
      rcases verified_of_justified (justified_of_eq_ok h) hnew with ⟨⟨li, hli, hwaypoint⟩, haccepts⟩
      simp only [hnew, Option.getD_some]
      constructor
      · exact .inr ⟨li, htrusted.verified hli, hwaypoint⟩
      · intro next hnext
        exact htrusted.verified (haccepts next hnext)

theorem TrustedFrom.ratchetAll (htrusted : TrustedFrom S origin state)
    (responses : List (Response hash validators signature)) :
    TrustedFrom S origin (state.ratchetAll S responses) := by
  induction responses generalizing state with
  | nil => exact htrusted
  | cons response rest ih => exact ih (htrusted.ratchet response)

/-- Every change is justified by its checks, and no unverified ledger info
becomes the trusted waypoint, whatever responses arrive. -/
theorem verifyAndRatchetInner_sound (S : Scheme hash validators signature)
    (self : TrustedState hash validators) :
    (forall latestLi proof change, verifyAndRatchetInner S self latestLi proof =
      Outcome.ok change ->
        Justified S self latestLi proof change ∧
          forall newState, change.newState? = some newState ->
            exists li, Verified S self li ∧ newState.waypoint = Waypoint.newAny S li.ledgerInfo) ∧
    forall responses, (self.ratchetAll S responses).waypoint = self.waypoint ∨
        exists li, Verified S self li ∧ (self.ratchetAll S responses).waypoint =
            Waypoint.newAny S li.ledgerInfo := by
  constructor
  · intro _ _ _ h
    have hjustified := justified_of_eq_ok h
    constructor
    · exact hjustified
    · intro _ hnew
      exact (verified_of_justified hjustified hnew).1
  · intro responses
    have horigin : TrustedFrom S self self := ⟨Or.inl rfl, fun _ haccepts => .accepted haccepts⟩
    exact (horigin.ratchetAll responses).1

end TrustedState

def namedScheme : Scheme Nat Nat Nat :=
  { hashConverter := fun converter => converter.version
    verifySignatures := fun set _ signed =>
      if set = signed then .ok () else .err [] }

def namedLedgerInfo (epoch version : Nat) (ends : Bool) : LedgerInfoWithSignatures Nat Nat Nat :=
  { ledgerInfo :=
      { commitInfo :=
          { epoch := epoch
            round := 0
            id := 0
            executedStateId := 0
            version := version
            timestampUsecs := 0
            nextEpochState := if ends then some ⟨epoch + 1, epoch + 1⟩ else none }
        consensusDataHash := 0 }
    signatures := epoch }

def namedState (epoch version : Nat) : TrustedState Nat Nat :=
  .epochState ⟨version, version⟩ ⟨epoch, epoch⟩

namespace TrustedState

theorem verifyAndRatchetInner_sound_two_epochs :
    Justified namedScheme (namedState 5 100) (namedLedgerInfo 7 130 false)
      ⟨[namedLedgerInfo 4 90 true, namedLedgerInfo 5 110 true, namedLedgerInfo 6 120 true], false⟩
      (TrustedStateChange.epoch (namedState 7 130) (namedLedgerInfo 6 120 true)) :=
  ((verifyAndRatchetInner_sound namedScheme (namedState 5 100)).1 _ _ _ (by decide)).1

/-!
# Versions
-/

variable [dv : DecidableEq validators] [ds : DecidableEq signature]

def FallsBack (S : Scheme hash validators signature) (self : TrustedState hash validators)
    (latestLi : LedgerInfoWithSignatures hash validators signature)
    (proof : EpochChangeProof hash validators signature)
    (last : LedgerInfoWithSignatures hash validators signature) : Prop :=
  (self.verifier S).epochChangeVerificationRequired latestLi.ledgerInfo.nextBlockEpoch = true ∧
    proof.ledgerInfoWithSigs.getLast? = some last ∧
    last ≠ latestLi ∧
    latestLi.ledgerInfo.epoch ≠ last.ledgerInfo.nextBlockEpoch

/-- Where an accepted response makes the ratchet fall back, the epoch change is
not behind the trusted version. -/
def FallbackFresh (S : Scheme hash validators signature) (self : TrustedState hash validators)
    (response : Response hash validators signature) : Prop :=
  forall change last, self.verifyAndRatchetInner S response.latestLi response.proof = .ok change ->
    FallsBack S self response.latestLi response.proof last -> self.version ≤ last.ledgerInfo.version

variable {S : Scheme hash validators signature} {self : TrustedState hash validators}

theorem version_le_iff_of_eq_ok {latestLi : LedgerInfoWithSignatures hash validators signature}
    {proof : EpochChangeProof hash validators signature}
    {change : TrustedStateChange hash validators signature}
    (h : verifyAndRatchetInner S self latestLi proof = .ok change) :
    self.version ≤ (change.newState?.getD self).version <->
      forall last, FallsBack S self latestLi proof last ->
        self.version ≤ last.ledgerInfo.version := by
  rcases verifyAndRatchetInner_eq_ok_iff.mp h with ⟨hver, ⟨hreq, h⟩ | ⟨hreq, h⟩⟩
  · rcases ratchetEpoch_eq_ok_iff.mp h with ⟨last, state, verified, hproof, hnext, hvfd, rfl⟩
    have hlast := (EpochChangeProof.verify_eq_ok_iff.mp hproof).1
    have hepoch := LedgerInfo.nextBlockEpoch_of_some hnext
    have hfalls : FallsBack S self latestLi proof last <->
      last ≠ latestLi ∧ latestLi.ledgerInfo.epoch ≠ state.epoch := by
      simp [FallsBack, hreq, hlast, hepoch]
    rcases verifiedLedgerInfo_eq_ok_iff.mp hvfd with ⟨rfl, hlatest⟩ | ⟨rfl, hne, _, hlater⟩
    · -- The latest ledger info is taken: no fall back, and it is not stale.
      apply iff_of_true hver
      intro other hother
      have hsame : other = last := by
        have hfound := hother.2.1
        rw [hlast] at hfound
        exact (Option.some.inj hfound).symm
      rw [hsame] at hother
      rcases hlatest with rfl | hsigned
      · exact absurd rfl (hfalls.mp hother).1
      · exact absurd hsigned.1 (hfalls.mp hother).2
    · constructor
      · intro hle _ hother
        have hfound := hother.2.1
        rw [hlast] at hfound
        rw [← Option.some.inj hfound]
        exact hle
      · intro hall
        exact hall verified (hfalls.mpr ⟨hne, ne_of_gt hlater⟩)
  · have hnone : forall last, ¬ FallsBack S self latestLi proof last := by
      intro last hlast
      rw [hlast.1] at hreq
      cases hreq
    apply iff_of_true
    · rcases ratchetVersion_eq_ok_iff.mp h with ⟨_, _, rfl, ⟨_, rfl⟩ | ⟨_, _, rfl⟩⟩
      · exact le_refl _
      · exact hver
    · intro last hlast
      exact absurd hlast (hnone last)

theorem version_le_ratchet_iff {response} : self.version ≤ (self.ratchet S response).version <->
    FallbackFresh S self response := by
  unfold ratchet FallbackFresh
  cases h : self.verifyAndRatchetInner S response.latestLi response.proof with
  | err | panic => simp
  | ok change =>
    rw [version_le_iff_of_eq_ok h]
    constructor
    · intro hall _ last _ hlast
      exact hall last hlast
    · intro hall last hlast
      exact hall change last rfl hlast

theorem isChain_scanl_ratchet_iff {responses} :
    List.IsChain (fun state next => state.version ≤ next.version)
        (responses.scanl (ratchet S) self) <->
      forall earlier response later, responses = earlier ++ response :: later ->
          FallbackFresh S (self.ratchetAll S earlier) response := by
  induction responses generalizing self with
  | nil => simp
  | cons first rest ih =>
    rw [scanl_cons, isChain_cons, ih, List.head?_scanl]
    simp only [Option.mem_def, Option.some.injEq, forall_eq', version_le_ratchet_iff]
    constructor
    · intro h earlier response later heq
      cases earlier with
      | nil =>
        cases heq
        exact h.1
      | cons head earlier =>
        cases heq
        exact h.2 earlier response later rfl
    · intro h
      constructor
      · exact h [] first rest rfl
      · intro earlier response later heq
        exact h (first :: earlier) response later (by rw [heq]; rfl)

/-- The trusted version goes back exactly where the ratchet falls back to an
epoch change behind it: at one response, and along a sequence of them. -/
theorem trusted_version_monotone_iff (S : Scheme hash validators signature)
    (self : TrustedState hash validators) :
    (forall latestLi proof change newState,
      verifyAndRatchetInner S self latestLi proof = Outcome.ok change ->
      change.newState? = some newState -> (self.version ≤ newState.version <->
          forall last, FallsBack S self latestLi proof last ->
            self.version ≤ last.ledgerInfo.version)) ∧
    forall responses, (responses.scanl (ratchet S) self).Pairwise
          (fun state next => state.version ≤ next.version) <->
        forall earlier response later, responses = earlier ++ response :: later ->
            FallbackFresh S (self.ratchetAll S earlier) response := by
  constructor
  · intro _ _ _ _ h hnew
    have hstep := version_le_iff_of_eq_ok h
    rw [hnew, Option.getD_some] at hstep
    exact hstep
  · intro _
    have : IsTrans (TrustedState hash validators)
      (fun state next => state.version ≤ next.version) :=
      ⟨fun _ _ _ => Nat.le_trans⟩
    rw [← List.isChain_iff_pairwise, isChain_scanl_ratchet_iff]

/-- More epoch changes are to come, and the last one of the proof is at version 110. -/
theorem trusted_version_monotone_fallback :
    verifyAndRatchetInner namedScheme (namedState 5 100) (namedLedgerInfo 7 130 false)
        ⟨[namedLedgerInfo 5 110 true], true⟩ =
      Outcome.ok (TrustedStateChange.epoch (namedState 6 110) (namedLedgerInfo 5 110 true)) ∧
    (namedState 5 100).version ≤ (namedState 6 110).version := by
  have hratchet : verifyAndRatchetInner namedScheme (namedState 5 100)
      (namedLedgerInfo 7 130 false) ⟨[namedLedgerInfo 5 110 true], true⟩ =
      .ok (.epoch (namedState 6 110) (namedLedgerInfo 5 110 true)) := by
    decide
  refine ⟨hratchet, ((trusted_version_monotone_iff namedScheme (namedState 5 100)).1 _ _ _ _
    hratchet rfl).mpr fun last hfalls => ?_⟩
  cases hfalls.2.1
  decide

/-- An epoch ended at version 50 takes a client at version 100 back. -/
theorem trusted_version_goes_back : verifyAndRatchetInner namedScheme (namedState 5 100)
        (namedLedgerInfo 7 130 false) ⟨[namedLedgerInfo 5 50 true], true⟩ =
      Outcome.ok (TrustedStateChange.epoch (namedState 6 50) (namedLedgerInfo 5 50 true)) ∧
    (namedState 6 50).version < (namedState 5 100).version := by
  decide

end TrustedState

end OpenLibra.LightClient
