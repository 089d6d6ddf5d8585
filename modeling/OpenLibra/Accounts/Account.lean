import OpenLibra.Accounts.Storage
import OpenLibra.Crypto.HashValue

/-!
# The account module

Signers are the addresses they stand for.  Hashing and the verification of
signatures are arbitrary.
-/

namespace OpenLibra.Accounts

open Rust Move Crypto

def eAccountAlreadyExists : Nat := 1

def eAccountDoesNotExist : Nat := 2

def eSequenceNumberTooBig : Nat := 3

def eMalformedAuthenticationKey : Nat := 4

def eCannotReservedAddress : Nat := 5

def eWrongCurrentPublicKey : Nat := 7

def eInvalidProofOfKnowledge : Nat := 8

def eNoValidOpenLibraReservedAddress : Nat := 11

def eInvalidScheme : Nat := 12

def eInvalidOriginatingAddress : Nat := 13

def eNoSuchSignerCapability : Nat := 14

def eResourceAccountExists : Nat := 15

def eAccountAlreadyUsed : Nat := 16

def eOffererAddressDoesNotExist : Nat := 17

def eNoSuchRotationCapabilityOffer : Nat := 18

/-- Codes of `ed25519` and of `multi_ed25519`. -/
def eWrongPubkeySize : Nat := 1

def eWrongSignatureSize : Nat := 2

/-- The abort code of `option::extract`. -/
def eOptionNotSet : Nat := 0x40001

/-- Code of `system_addresses`. -/
def eNotOpenLibraAddress : Nat := 3

def maxU64 : Nat := 18446744073709551615

def zeroAuthKey : List UInt8 := List.replicate 32 0

def deriveResourceAccountScheme : UInt8 := 255

/-!
# Signatures
-/

inductive Challenge where
  | rotationProof (sequenceNumber : U64)
      (originator currentAuthKey : Address) (newPublicKey : List UInt8)
  | rotationCapabilityOffer (chainId : U8) (sequenceNumber : U64)
      (sourceAddress recipientAddress : Address)
  | signerCapabilityOffer (sequenceNumber : U64) (sourceAddress recipientAddress : Address)
deriving DecidableEq

inductive Scheme where
  | ed25519
  | multiEd25519
deriving DecidableEq

/-- Verification takes a scheme, a signature, a public key and what was
signed. -/
structure Environment where
  sha3 : List UInt8 -> HashValue
  signatureVerifyStrict : Scheme -> List UInt8 -> List UInt8 -> Challenge -> Bool
  chainId : U8

namespace Environment

/-- `from_bcs::to_address(hash::sha3_256(bytes))`. -/
def hashToAddress (env : Environment) (bytes : List UInt8) : Address :=
  { bytes := (env.sha3 bytes).bytes }

end Environment

def lastBytesEnvironment : Environment :=
  { sha3 := fun bytes =>
      { bytes := Vector.ofFn fun i => bytes.reverse.getD i 0 }
    signatureVerifyStrict := fun _ _ _ _ => true
    chainId := 4 }

namespace Scheme

def ofByte (scheme : UInt8) : MoveResult Scheme :=
  if scheme = 0 then .ok ed25519
  else if scheme = 1 then .ok multiEd25519
  else .err (invalidArgument eInvalidScheme)

def signatureSchemeId : Scheme -> UInt8
  | ed25519 => 0
  | multiEd25519 => 1

def newUnvalidatedPublicKeyFromBytes (self : Scheme) (bytes : List UInt8) :
    MoveResult (List UInt8) :=
  match self with
  | ed25519 => do
    ensure (bytes.length = 32) (invalidArgument eWrongPubkeySize)
    return bytes
  | multiEd25519 => do
    ensure (bytes.length / 32 ≤ 32) (invalidArgument eWrongPubkeySize)
    ensure (bytes.length % 32 = 1) (invalidArgument eWrongPubkeySize)
    return bytes

def newSignatureFromBytes (self : Scheme) (bytes : List UInt8) : MoveResult (List UInt8) :=
  match self with
  | ed25519 => do
    ensure (bytes.length = 64) (invalidArgument eWrongSignatureSize)
    return bytes
  | multiEd25519 => do
    ensure (bytes.length % 64 = 4) (invalidArgument eWrongSignatureSize)
    return bytes

/-- `unvalidated_public_key_to_authentication_key`. -/
def authenticationKey (self : Scheme) (env : Environment) (publicKey : List UInt8) : List UInt8 :=
  (env.hashToAddress (publicKey ++ [self.signatureSchemeId])).toBytes

end Scheme

/-- `assert_valid_rotation_proof_signature_and_get_auth_key`. -/
def assertValidRotationProofSignatureAndGetAuthKey (env : Environment) (scheme : UInt8)
    (publicKeyBytes signature : List UInt8) (challenge : Challenge) : MoveResult (List UInt8) := do
  let scheme <- Scheme.ofByte scheme
  let pk <- scheme.newUnvalidatedPublicKeyFromBytes publicKeyBytes
  let sig <- scheme.newSignatureFromBytes signature
  ensure (env.signatureVerifyStrict scheme sig pk challenge = true)
    (invalidArgument eInvalidProofOfKnowledge)
  return scheme.authenticationKey env pk

namespace Store

variable (s : Store)

/-- `initialize`. -/
def initializeOriginatingAddress (account : Address) : MoveResult Store := do
  ensure (account = openLibra) (permissionDenied eNotOpenLibraAddress)
  ensure (s.originatingAddress = none) .resourceAlreadyExists
  return s.setOriginatingAddress ∅

def createAccountUnchecked (newAddress : Address) : MoveResult Store := do
  let authenticationKey := newAddress.toBytes
  ensure (authenticationKey.length = 32) (invalidArgument eMalformedAuthenticationKey)
  let (guidForCoin, guidCreationNum, s) <- s.guidCreate newAddress 0
  let (guidForRotation, guidCreationNum, s) <-
    s.guidCreate newAddress guidCreationNum
  s.publishAccount newAddress
    { authenticationKey := authenticationKey
      sequenceNumber := 0
      guidCreationNum := guidCreationNum
      coinRegisterEvents := EventHandle.new guidForCoin
      keyRotationEvents := EventHandle.new guidForRotation
      rotationCapabilityOffer := none
      signerCapabilityOffer := none }

def createAccount (newAddress : Address) : MoveResult Store := do
  ensure (s.existsAt newAddress = false) (alreadyExists eAccountAlreadyExists)
  ensure (newAddress ≠ vmReserved ∧ newAddress ≠ openLibra) (invalidArgument eCannotReservedAddress)
  s.createAccountUnchecked newAddress

variable (addr : Address)

/-- The reserved addresses are `@0x1` to `@0xa`. -/
def createFrameworkReservedAccount : MoveResult (SignerCapability × Store) := do
  ensure (addr ∈ (List.range 10).map fun i => Address.ofNat (i + 1))
    (permissionDenied eNoValidOpenLibraReservedAddress)
  let s <- s.createAccountUnchecked addr
  return ({ account := addr }, s)

/-!
# Sequence numbers and keys
-/

def incrementSequenceNumber : MoveResult Store := do
  let account <- s.borrowAccount addr
  ensure (account.sequenceNumber.toNat < maxU64) (outOfRange eSequenceNumberTooBig)
  let next <- Move.add account.sequenceNumber 1
  return (s.setAccount addr
    { account with sequenceNumber := next }).record (.transactionSent addr)

def rotateAuthenticationKeyInternal (newAuthKey : List UInt8) : MoveResult Store := do
  ensure (s.existsAt addr = true) (notFound eAccountDoesNotExist)
  ensure (newAuthKey.length = 32) (invalidArgument eMalformedAuthenticationKey)
  let account <- s.borrowAccount addr
  return s.setAccount addr { account with authenticationKey := newAuthKey }

/-- The current key is either unmapped or mapped to the originating address,
and `table::add` aborts inside its native function. -/
def updateAuthKeyAndOriginatingAddressTable (originatingAddr : Address)
    (account : Account) (newAuthKeyVector : List UInt8) : MoveResult Store := do
  let addressMap <- borrowGlobal s.originatingAddress
  let currAuthKey <- Address.fromBytes account.authenticationKey
  ensure (addressMap.lookup currAuthKey = none ∨
      addressMap.lookup currAuthKey = some originatingAddr)
    (notFound eInvalidOriginatingAddress)
  let addressMap := addressMap.erase currAuthKey
  let newAuthKey <- Address.fromBytes newAuthKeyVector
  ensure (addressMap.lookup newAuthKey = none) (.vmError none)
  let addressMap := addressMap.insert newAuthKey originatingAddr
  let keyRotationEvents <- account.keyRotationEvents.emit
  return (s.setAccount originatingAddr
    { account with
      keyRotationEvents := keyRotationEvents
      authenticationKey := newAuthKeyVector }).setOriginatingAddress addressMap

variable (env : Environment)

def rotateAuthenticationKey (addr : Address)
    (fromScheme : UInt8) (fromPublicKeyBytes : List UInt8) (toScheme : UInt8)
    (toPublicKeyBytes capRotateKey capUpdateTable : List UInt8) :
    MoveResult Store := do
  ensure (s.existsAt addr = true) (notFound eAccountDoesNotExist)
  let account <- s.borrowAccount addr
  let scheme <- Scheme.ofByte fromScheme
  let fromPk <- scheme.newUnvalidatedPublicKeyFromBytes fromPublicKeyBytes
  ensure (account.authenticationKey = scheme.authenticationKey env fromPk)
    (unauthenticated eWrongCurrentPublicKey)
  let currAuthKeyAsAddress <- Address.fromBytes account.authenticationKey
  let challenge := .rotationProof account.sequenceNumber addr currAuthKeyAsAddress toPublicKeyBytes
  let _ <- assertValidRotationProofSignatureAndGetAuthKey env fromScheme
    fromPublicKeyBytes capRotateKey challenge
  let newAuthKey <- assertValidRotationProofSignatureAndGetAuthKey env toScheme
    toPublicKeyBytes capUpdateTable challenge
  s.updateAuthKeyAndOriginatingAddressTable addr account newAuthKey

def rotateAuthenticationKeyWithRotationCapability
    (delegateAddress rotationCapOffererAddress : Address) (newScheme : UInt8)
    (newPublicKeyBytes capUpdateTable : List UInt8) : MoveResult Store := do
  ensure (s.existsAt rotationCapOffererAddress = true) (notFound eOffererAddressDoesNotExist)
  let offerer <- s.borrowAccount rotationCapOffererAddress
  ensure (offerer.rotationCapabilityOffer = some delegateAddress)
    (notFound eNoSuchRotationCapabilityOffer)
  let currAuthKey <- Address.fromBytes offerer.authenticationKey
  let delegate <- s.borrowAccount delegateAddress
  let challenge := .rotationProof delegate.sequenceNumber
    rotationCapOffererAddress currAuthKey newPublicKeyBytes
  let newAuthKey <- assertValidRotationProofSignatureAndGetAuthKey env
    newScheme newPublicKeyBytes capUpdateTable challenge
  s.updateAuthKeyAndOriginatingAddressTable rotationCapOffererAddress offerer newAuthKey

/-!
# Offers of capabilities
-/

def assertOfferIsSigned (account : Account) (accountScheme : UInt8)
    (accountPublicKeyBytes sigBytes : List UInt8) (challenge : Challenge) : MoveResult Unit := do
  let scheme <- Scheme.ofByte accountScheme
  let pubkey <- scheme.newUnvalidatedPublicKeyFromBytes accountPublicKeyBytes
  ensure (account.authenticationKey = scheme.authenticationKey env pubkey)
    (invalidArgument eWrongCurrentPublicKey)
  let sig <- scheme.newSignatureFromBytes sigBytes
  ensure (env.signatureVerifyStrict scheme sig pubkey challenge = true)
    (invalidArgument eInvalidProofOfKnowledge)

def offerRotationCapability (addr : Address)
    (rotationCapabilitySigBytes : List UInt8) (accountScheme : UInt8)
    (accountPublicKeyBytes : List UInt8) (recipientAddress : Address) :
    MoveResult Store := do
  ensure (s.existsAt recipientAddress = true) (notFound eAccountDoesNotExist)
  let account <- s.borrowAccount addr
  assertOfferIsSigned env account accountScheme accountPublicKeyBytes rotationCapabilitySigBytes
    (.rotationCapabilityOffer env.chainId account.sequenceNumber addr recipientAddress)
  return s.setAccount addr
    { account with rotationCapabilityOffer := some recipientAddress }

def revokeAnyRotationCapability : MoveResult Store := do
  let account <- s.borrowAccount addr
  ensure (account.rotationCapabilityOffer ≠ none) (.code eOptionNotSet)
  return s.setAccount addr { account with rotationCapabilityOffer := none }

def revokeRotationCapability (addr toBeRevokedAddress : Address) : MoveResult Store := do
  ensure (s.existsAt toBeRevokedAddress = true) (notFound eAccountDoesNotExist)
  let account <- s.borrowAccount addr
  ensure (account.rotationCapabilityOffer = some toBeRevokedAddress)
    (notFound eNoSuchRotationCapabilityOffer)
  s.revokeAnyRotationCapability addr

def offerSignerCapability (sourceAddress : Address)
    (signerCapabilitySigBytes : List UInt8) (accountScheme : UInt8)
    (accountPublicKeyBytes : List UInt8) (recipientAddress : Address) : MoveResult Store := do
  ensure (s.existsAt recipientAddress = true) (notFound eAccountDoesNotExist)
  let account <- s.borrowAccount sourceAddress
  assertOfferIsSigned env account accountScheme accountPublicKeyBytes signerCapabilitySigBytes
    (.signerCapabilityOffer account.sequenceNumber sourceAddress recipientAddress)
  return s.setAccount sourceAddress
    { account with signerCapabilityOffer := some recipientAddress }

def revokeAnySignerCapability : MoveResult Store := do
  let account <- s.borrowAccount addr
  ensure (account.signerCapabilityOffer ≠ none) (.code eOptionNotSet)
  return (s.setAccount addr
    { account with signerCapabilityOffer := none }).record (.signerOfferRevoked addr)

def revokeSignerCapability (addr toBeRevokedAddress : Address) : MoveResult Store := do
  ensure (s.existsAt toBeRevokedAddress = true) (notFound eAccountDoesNotExist)
  let account <- s.borrowAccount addr
  ensure (account.signerCapabilityOffer = some toBeRevokedAddress)
    (notFound eNoSuchSignerCapability)
  s.revokeAnySignerCapability addr

def createAuthorizedSigner (account offererAddress : Address) : MoveResult Address := do
  ensure (s.existsAt offererAddress = true) (notFound eOffererAddressDoesNotExist)
  let offerer <- s.borrowAccount offererAddress
  ensure (offerer.signerCapabilityOffer = some account) (notFound eNoSuchSignerCapability)
  return offererAddress

def createResourceAddress (source : Address) (seed : List UInt8) : Address :=
  env.hashToAddress (source.toBytes ++ seed ++ [deriveResourceAccountScheme])

def claimResourceAddress (resourceAddr : Address) : MoveResult Store :=
  if s.existsAt resourceAddr then do
    let account <- s.borrowAccount resourceAddr
    ensure (account.signerCapabilityOffer = none) (alreadyExists eResourceAccountExists)
    ensure (account.sequenceNumber = 0) (invalidState eAccountAlreadyUsed)
    return s
  else s.createAccountUnchecked resourceAddr

def createResourceAccount (source : Address) (seed : List UInt8) :
    MoveResult (SignerCapability × Store) := do
  let resourceAddr := createResourceAddress env source seed
  let s <- s.claimResourceAddress resourceAddr
  let s <- s.rotateAuthenticationKeyInternal resourceAddr zeroAuthKey
  let account <- s.borrowAccount resourceAddr
  let s := s.setAccount resourceAddr
    { account with signerCapabilityOffer := some resourceAddr }
  return ({ account := resourceAddr }, s.record (.resourceAccountCreated resourceAddr))

def createGuid : MoveResult (Guid × Store) := do
  let account <- s.borrowAccount addr
  let (guid, guidCreationNum, s) <- s.guidCreate addr account.guidCreationNum
  return (guid, s.setAccount addr
    { account with guidCreationNum := guidCreationNum })

def newEventHandle : MoveResult (EventHandle × Store) := do
  let (guid, s) <- s.createGuid addr
  return (EventHandle.new guid, s)

def registerCoin (accountAddr : Address) : MoveResult Store := do
  let account <- s.borrowAccount accountAddr
  let coinRegisterEvents <- account.coinRegisterEvents.emit
  return s.setAccount accountAddr
    { account with coinRegisterEvents := coinRegisterEvents }

end Store

end OpenLibra.Accounts
