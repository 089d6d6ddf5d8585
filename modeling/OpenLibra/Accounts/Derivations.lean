import OpenLibra.Accounts.Object
import OpenLibra.Crypto.MultiEd25519

/-!
# Derived addresses and authentication keys

Addresses of objects and resource accounts and authentication keys are hashes.  The last byte
hashed is to keep the kinds apart.
-/

namespace OpenLibra.Accounts

open Move Crypto

abbrev Ed25519PublicKey := Vector UInt8 32

/-- `MultiEd25519PublicKey::to_bytes`: the keys and the threshold. -/
def multiEd25519ToBytes (publicKey : MultiEd25519PublicKey Ed25519PublicKey) : List UInt8 :=
  publicKey.publicKeys.flatMap Vector.toList ++ [publicKey.threshold]

inductive Derivation where
  | namedObject (creator : Address) (seed : List UInt8)
  | guidObject (guid : Guid)
  | resourceAccount (source : Address) (seed : List UInt8)
  | ed25519Key (publicKey : Ed25519PublicKey)
  | multiEd25519Key (publicKey : MultiEd25519PublicKey Ed25519PublicKey)
deriving DecidableEq

namespace Derivation

def derive (env : Environment) : Derivation -> List UInt8
  | namedObject creator seed => (createObjectId env creator seed).toBytes
  | guidObject guid => (objectIdFromGuid env guid).toBytes
  | resourceAccount source seed => (Store.createResourceAddress env source seed).toBytes
  | ed25519Key publicKey => Scheme.ed25519.authenticationKey env publicKey.toList
  | multiEd25519Key publicKey =>
    Scheme.multiEd25519.authenticationKey env (multiEd25519ToBytes publicKey)

/-!
# Preimages
-/

def body : Derivation -> List UInt8
  | namedObject creator seed => creator.toBytes ++ seed
  | guidObject guid => guid.toBytes
  | resourceAccount source seed => source.toBytes ++ seed
  | ed25519Key publicKey => publicKey.toList
  | multiEd25519Key publicKey => multiEd25519ToBytes publicKey

def tag : Derivation -> UInt8
  | namedObject _ _ => objectAddressScheme
  | guidObject _ => objectAddressScheme
  | resourceAccount _ _ => deriveResourceAccountScheme
  | ed25519Key _ => Scheme.ed25519.signatureSchemeId
  | multiEd25519Key _ => Scheme.multiEd25519.signatureSchemeId

def preimage (d : Derivation) : List UInt8 := d.body ++ [d.tag]

theorem derive_eq (env : Environment) (d : Derivation) :
    d.derive env = (env.sha3 d.preimage).bytes.toList := by
  cases d <;> rfl

variable {d d' : Derivation}

theorem preimage_eq_iff : d.preimage = d'.preimage <-> d.body = d'.body ∧ d.tag = d'.tag :=
  List.append_singleton_inj

theorem derive_eq_iff {env} (hhash : Set.InjOn env.sha3 {d.preimage, d'.preimage}) :
    d.derive env = d'.derive env <-> d.preimage = d'.preimage := by
  rw [derive_eq, derive_eq]
  constructor
  · intro h
    apply hhash (by simp) (by simp)
    cases hleft : env.sha3 d.preimage
    cases hright : env.sha3 d'.preimage
    rw [hleft, hright] at h
    rw [HashValue.mk.injEq]
    exact Vector.toList_inj.mp h
  · intro h
    rw [h]

end Derivation

theorem Guid.toBytes_injective : Function.Injective Guid.toBytes := by
  intro guid guid' h
  rcases List.append_inj h (by
    rw [Aggregation.length_leBytes, Aggregation.length_leBytes]) with
    ⟨hnum, haddr⟩
  have hlt : forall num : U64, num.toNat < 256 ^ 8 := by
    intro num
    have := num.isLt
    omega
  have hval := congrArg Aggregation.leValue hnum
  rw [Aggregation.leValue_leBytes, Aggregation.leValue_leBytes, Nat.mod_eq_of_lt (hlt
    guid.creationNum), Nat.mod_eq_of_lt (hlt guid'.creationNum)] at hval
  cases guid
  cases guid'
  rw [Guid.mk.injEq]
  exact ⟨BitVec.eq_of_toNat_eq hval, Address.toBytes_injective haddr⟩

theorem toBytes_append_inj {source source' : Address} {seed seed'}
    (h : source.toBytes ++ seed = source'.toBytes ++ seed') : source = source' ∧ seed = seed' := by
  rcases List.append_inj h (by simp) with ⟨hsource, hseed⟩
  exact ⟨Address.toBytes_injective hsource, hseed⟩

theorem flatMap_toList_injective : Function.Injective fun keys : List Ed25519PublicKey =>
      keys.flatMap Vector.toList := by
  intro keys
  induction keys with
  | nil =>
    intro keys' h
    cases keys' with
    | nil => rfl
    | cons =>
      have hlen := congrArg List.length h
      simp at hlen
      omega
  | cons key keys ih =>
    intro keys' h
    cases keys' with
    | nil =>
      have hlen := congrArg List.length h
      simp at hlen
    | cons =>
      rcases List.append_inj h (by simp) with ⟨hkey, hkeys⟩
      rw [Vector.toList_inj.mp hkey, ih hkeys]

theorem multiEd25519ToBytes_injective : Function.Injective multiEd25519ToBytes := by
  intro publicKey publicKey' h
  rcases List.append_singleton_inj.mp h with ⟨hkeys, hthr⟩
  cases publicKey
  cases publicKey'
  rw [MultiEd25519PublicKey.mk.injEq]
  exact ⟨flatMap_toList_injective hkeys, hthr⟩

namespace Derivation

/-!
# Both kinds of objects
-/

inductive Overlap : Derivation -> Derivation -> Prop where
  | named (creator : Address) (seed : List UInt8) (guid : Guid)
      (h : creator.toBytes ++ seed = guid.toBytes) :
      Overlap (namedObject creator seed) (guidObject guid)
  | guid (creator : Address) (seed : List UInt8) (guid : Guid)
      (h : creator.toBytes ++ seed = guid.toBytes) :
      Overlap (guidObject guid) (namedObject creator seed)

variable {d d' : Derivation}

theorem Overlap.preimage_eq (h : Overlap d d') : d.preimage = d'.preimage := by
  cases h with
  | named creator seed guid h => exact preimage_eq_iff.mpr ⟨h, rfl⟩
  | guid creator seed guid h => exact preimage_eq_iff.mpr ⟨h.symm, rfl⟩

theorem Overlap.ne (h : Overlap d d') : d ≠ d' := by
  cases h with
  | named | guid =>
    intro heq
    cases heq

theorem eq_or_overlap_of_preimage_eq (h : d.preimage = d'.preimage) : d = d' ∨ Overlap d d' := by
  rcases preimage_eq_iff.mp h with ⟨hbody, htag⟩
  cases d with
  | namedObject creator seed =>
    cases d' with
    | namedObject =>
      rcases toBytes_append_inj hbody with ⟨rfl, rfl⟩
      exact .inl rfl
    | guidObject guid => exact .inr (.named creator seed guid hbody)
    | _ => cases htag
  | guidObject guid =>
    cases d' with
    | namedObject creator seed => exact .inr (.guid creator seed guid hbody.symm)
    | guidObject =>
      rw [Guid.toBytes_injective hbody]
      exact .inl rfl
    | _ => cases htag
  | resourceAccount =>
    cases d' with
    | resourceAccount =>
      rcases toBytes_append_inj hbody with ⟨rfl, rfl⟩
      exact .inl rfl
    | _ => cases htag
  | ed25519Key =>
    cases d' with
    | ed25519Key =>
      rw [Vector.toList_inj.mp hbody]
      exact .inl rfl
    | _ => cases htag
  | multiEd25519Key =>
    cases d' with
    | multiEd25519Key =>
      rw [multiEd25519ToBytes_injective hbody]
      exact .inl rfl
    | _ => cases htag

/-- Where the hash does not collide, two derivations give the same bytes only
if they are the same, unless a named object and an object with a GUID
overlap. -/
theorem derive_injective_iff (env : Environment) (d d' : Derivation)
    (hhash : Set.InjOn env.sha3 {d.preimage, d'.preimage}) :
    (d.derive env = d'.derive env -> d = d') <-> ¬ Overlap d d' := by
  rw [derive_eq_iff hhash]
  constructor
  · intro h hoverlap
    exact hoverlap.ne (h hoverlap.preimage_eq)
  · intro h hpreimage
    rcases eq_or_overlap_of_preimage_eq hpreimage with heq | hoverlap
    · exact heq
    · exact absurd hoverlap h

theorem derive_named_ne_resource : (namedObject (Address.ofNat 16) []).derive lastBytesEnvironment ≠
    (resourceAccount (Address.ofNat 16) []).derive lastBytesEnvironment := by
  intro h
  have hsame : namedObject (Address.ofNat 16) [] = resourceAccount (Address.ofNat 16) [] := by
    refine (derive_injective_iff lastBytesEnvironment _ _ ?_).mpr ?_ h
    · rw [Set.injOn_pair]
      intro hhash
      exact absurd hhash (by decide +kernel)
    · intro hoverlap
      cases hoverlap
  cases hsame

/-- The third identifier of an account and a seed of eight bytes: the object
that the account creates next has the address of a named object of another
creator. -/
theorem named_object_at_guid_object : (forall env : Environment,
    (namedObject (Address.ofNat (2 * 256 ^ 31)) [0, 0, 0, 0, 0x0A, 0x55, 0x0C, 0x18]).derive env =
      (guidObject
        { creationNum := 2, addr := Address.ofNat 0xA550C18 }).derive env) ∧
    namedObject (Address.ofNat (2 * 256 ^ 31)) [0, 0, 0, 0, 0x0A, 0x55, 0x0C, 0x18] ≠
      guidObject { creationNum := 2, addr := Address.ofNat 0xA550C18 } := by
  have hoverlap : Overlap (namedObject (Address.ofNat (2 * 256 ^ 31))
      [0, 0, 0, 0, 0x0A, 0x55, 0x0C, 0x18])
    (guidObject { creationNum := 2, addr := Address.ofNat 0xA550C18 }) :=
    .named _ _ _ (by decide +kernel)
  refine ⟨?_, hoverlap.ne⟩
  intro _
  rw [derive_eq, derive_eq, hoverlap.preimage_eq]

end Derivation

end OpenLibra.Accounts
