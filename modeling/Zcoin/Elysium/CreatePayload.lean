/-
  Zcoin.Elysium.CreatePayload — building payloads (`elysium/createpayload.cpp`).

  One constructor of `PayloadRequest` for each `CreatePayload_*` function, with the arguments of
  the function; `interpretation` is the transaction that carries the same values.
-/
import Zcoin.Elysium.Packet

namespace Zcoin.Elysium

open Lib Lib.Except Lib.BigEndian Lib.Stream

/-! ## §1. Arguments. -/

/-- A string without NUL. -/
def CText := { s : Bytes // 0 ∉ s }

/-- An address of the chain. -/
def ChainAddress {G : Type} (env : PacketEnv G) :=
  { a : Address // (a.version = env.pubkeyAddress ∨ a.version = env.scriptAddress) ∧
    a.hash160.length = 20 }

/-- The byte of a `SigmaStatus`. -/
def SigmaStatus.code : SigmaStatus → UInt8
  | .softDisabled => 0
  | .softEnabled => 1
  | .hardDisabled => 2
  | .hardEnabled => 3

/-- The strings of a property creation. -/
structure PropertyTexts where
  category : CText
  subcategory : CText
  name : CText
  url : CText
  data : CText

/-- The other values that all property creations start with. -/
structure PropertyHeader where
  ecosystem : UInt8
  propertyType : UInt16
  previousPropertyId : UInt32
  texts : PropertyTexts

/-- The values that all spends start with. -/
structure SpendHeader where
  propertyId : UInt32
  denomination : UInt8
  group : UInt32
  groupSize : UInt16

/-- **A call of a `CreatePayload_*` function.** -/
inductive PayloadRequest {G : Type} (env : PacketEnv G) where
  | simpleSend (propertyId : UInt32) (amount : UInt64)
  | sendAll (ecosystem : UInt8)
  | dexSell (propertyId : UInt32) (amountForSale amountDesired : UInt64) (timeLimit : UInt8)
      (minFee : UInt64) (subAction : UInt8)
  | dexAccept (propertyId : UInt32) (amount : UInt64)
  | sendToOwners (propertyId : UInt32) (amount : UInt64) (distributionProperty : UInt32)
  | issuanceFixed (header : PropertyHeader) (amount : UInt64) (sigmaStatus : Option SigmaStatus)
  | issuanceVariable (header : PropertyHeader) (propertyIdDesired : UInt32)
      (amountPerUnit deadline : UInt64) (earlyBonus issuerPercentage : UInt8)
  | issuanceManaged (header : PropertyHeader) (sigmaStatus : Option SigmaStatus)
  | closeCrowdsale (propertyId : UInt32)
  | grant (propertyId : UInt32) (amount : UInt64) (memo : CText)
  | revoke (propertyId : UInt32) (amount : UInt64) (memo : CText)
  | changeIssuer (propertyId : UInt32)
  | enableFreezing (propertyId : UInt32)
  | disableFreezing (propertyId : UInt32)
  | freezeTokens (propertyId : UInt32) (amount : UInt64) (address : ChainAddress env)
  | unfreezeTokens (propertyId : UInt32) (amount : UInt64) (address : ChainAddress env)
  | metaDExTrade (propertyIdForSale : UInt32) (amountForSale : UInt64)
      (propertyIdDesired : UInt32) (amountDesired : UInt64)
  | metaDExCancelPrice (propertyIdForSale : UInt32) (amountForSale : UInt64)
      (propertyIdDesired : UInt32) (amountDesired : UInt64)
  | metaDExCancelPair (propertyIdForSale propertyIdDesired : UInt32)
  | metaDExCancelEcosystem (ecosystem : UInt8)
  | deactivateFeature (featureId : UInt16)
  | activateFeature (featureId : UInt16) (activationBlock minClientVersion : UInt32)
  | elysiumAlert (alertType : UInt16) (expiryValue : UInt32) (alertMessage : CText)
  | createDenomination (propertyId : UInt32) (value : UInt64)
  | simpleMint (propertyId : UInt32) (mints : List (UInt8 × G))
  | simpleSpendV0 (header : SpendHeader) (proof : SigmaProof G) (serial : Scalar)
  | simpleSpendV1 (header : SpendHeader) (proof : SigmaProof G) (signature : ECDSASignature)
      (pubkey : Bytes)

/-! ## §2. Payloads. -/

/-- `PUSH_BACK_BYTES` of a number in network byte order. -/
def push8 (x : UInt8) : Bytes := [x]
def push16 (x : UInt16) : Bytes := bigEndian 2 x.toNat
def push32 (x : UInt32) : Bytes := bigEndian 4 x.toNat
def push64 (x : UInt64) : Bytes := bigEndian 8 x.toNat

/-- The version and the type. -/
def pushType (messageVer : UInt16) (messageType : TransactionType) : Bytes :=
  push16 messageVer ++ bigEndian 2 messageType.code

/-- `if (s.size() > 255) s = s.substr(0,255)`. -/
def CText.truncated (s : CText) : Bytes := s.val.take 255

/-- A string and its terminator. -/
def pushText (s : Bytes) : Bytes := s ++ [0]

/-- What the property creations push before their own fields. -/
def pushProperty (header : PropertyHeader) : Bytes :=
  push8 header.ecosystem ++ (push16 header.propertyType ++ (push32 header.previousPropertyId ++
    (pushText header.texts.category.truncated ++ (pushText header.texts.subcategory.truncated ++
      (pushText header.texts.name.truncated ++ (pushText header.texts.url.truncated ++
        pushText header.texts.data.truncated))))))

/-- The byte of the status, if one is given. -/
def pushStatus (sigmaStatus : Option SigmaStatus) : Bytes :=
  match sigmaStatus with
  | none => []
  | some status => push8 status.code

/-- The version that goes with the status. -/
def statusVersion (sigmaStatus : Option SigmaStatus) : UInt16 :=
  match sigmaStatus with
  | none => 0
  | some _ => 1

/-- `AddressToBytes` of an address of the chain. -/
def addressToBytes (a : Address) : Bytes := a.version :: a.hash160

/-- What the spends push before their stream. -/
def pushSpend (header : SpendHeader) : Bytes :=
  push32 header.propertyId ++ (push8 header.denomination ++ (push32 header.group ++
    push16 header.groupSize))

/-- `ELYSIUM_MAX_SIMPLE_MINTS`. -/
def ELYSIUM_MAX_SIMPLE_MINTS : Nat := 255

/-- A mint in the stream. -/
def writeMint {G : Type} (env : PacketEnv G) (mint : UInt8 × G) : Bytes :=
  push8 mint.1 ++ env.wire.serialize mint.2

/-- **The `CreatePayload_*` functions.** -/
def createPayload {G : Type} (env : PacketEnv G) : PayloadRequest env → Except Abort Bytes
  | .simpleSend propertyId amount =>
    .ok (pushType 0 .simpleSend ++ (push32 propertyId ++ push64 amount))
  | .sendAll ecosystem => .ok (pushType 0 .sendAll ++ push8 ecosystem)
  | .dexSell propertyId amountForSale amountDesired timeLimit minFee subAction =>
    .ok (pushType 1 .tradeOffer ++ (push32 propertyId ++ (push64 amountForSale ++
      (push64 amountDesired ++ (push8 timeLimit ++ (push64 minFee ++ push8 subAction))))))
  | .dexAccept propertyId amount =>
    .ok (pushType 0 .acceptOfferBTC ++ (push32 propertyId ++ push64 amount))
  | .sendToOwners propertyId amount distributionProperty =>
    if propertyId = distributionProperty then
      .ok (pushType 0 .sendToOwners ++ (push32 propertyId ++ push64 amount))
    else
      .ok (pushType 1 .sendToOwners ++ (push32 propertyId ++ (push64 amount ++
        push32 distributionProperty)))
  | .issuanceFixed header amount sigmaStatus =>
    .ok (pushType (statusVersion sigmaStatus) .createPropertyFixed ++ (pushProperty header ++
      (push64 amount ++ pushStatus sigmaStatus)))
  | .issuanceVariable header propertyIdDesired amountPerUnit deadline earlyBonus
      issuerPercentage =>
      .ok (pushType 0 .createPropertyVariable ++ (pushProperty header ++
        (push32 propertyIdDesired ++ (push64 amountPerUnit ++ (push64 deadline ++
          (push8 earlyBonus ++ push8 issuerPercentage))))))
  | .issuanceManaged header sigmaStatus =>
    .ok (pushType (statusVersion sigmaStatus) .createPropertyManual ++ (pushProperty header ++
      pushStatus sigmaStatus))
  | .closeCrowdsale propertyId => .ok (pushType 0 .closeCrowdsale ++ push32 propertyId)
  | .grant propertyId amount memo =>
    .ok (pushType 0 .grantPropertyTokens ++ (push32 propertyId ++ (push64 amount ++
      pushText memo.truncated)))
  | .revoke propertyId amount memo =>
    .ok (pushType 0 .revokePropertyTokens ++ (push32 propertyId ++ (push64 amount ++
      pushText memo.truncated)))
  | .changeIssuer propertyId => .ok (pushType 0 .changeIssuerAddress ++ push32 propertyId)
  | .enableFreezing propertyId => .ok (pushType 0 .enableFreezing ++ push32 propertyId)
  | .disableFreezing propertyId => .ok (pushType 0 .disableFreezing ++ push32 propertyId)
  | .freezeTokens propertyId amount address =>
    .ok (pushType 0 .freezePropertyTokens ++ (push32 propertyId ++ (push64 amount ++
      addressToBytes address.val)))
  | .unfreezeTokens propertyId amount address =>
    .ok (pushType 0 .unfreezePropertyTokens ++ (push32 propertyId ++ (push64 amount ++
      addressToBytes address.val)))
  | .metaDExTrade propertyIdForSale amountForSale propertyIdDesired amountDesired =>
    .ok (pushType 0 .metadexTrade ++ (push32 propertyIdForSale ++ (push64 amountForSale ++
      (push32 propertyIdDesired ++ push64 amountDesired))))
  | .metaDExCancelPrice propertyIdForSale amountForSale propertyIdDesired amountDesired =>
    .ok (pushType 0 .metadexCancelPrice ++ (push32 propertyIdForSale ++
      (push64 amountForSale ++ (push32 propertyIdDesired ++ push64 amountDesired))))
  | .metaDExCancelPair propertyIdForSale propertyIdDesired =>
    .ok (pushType 0 .metadexCancelPair ++ (push32 propertyIdForSale ++
      push32 propertyIdDesired))
  | .metaDExCancelEcosystem ecosystem =>
    .ok (pushType 0 .metadexCancelEcosystem ++ push8 ecosystem)
  | .deactivateFeature featureId => .ok (pushType 65535 .deactivation ++ push16 featureId)
  | .activateFeature featureId activationBlock minClientVersion =>
    .ok (pushType 65535 .activation ++ (push16 featureId ++ (push32 activationBlock ++
      push32 minClientVersion)))
  | .elysiumAlert alertType expiryValue alertMessage =>
    .ok (pushType 65535 .alert ++ (push16 alertType ++ (push32 expiryValue ++
      pushText alertMessage.val)))
  | .createDenomination propertyId value =>
    .ok (pushType 0 .createDenomination ++ (push32 propertyId ++ push64 value))
  | .simpleMint propertyId mints =>
    if mints.length > ELYSIUM_MAX_SIMPLE_MINTS then
      .error (.threw (.invalidArgument "amount of mints exceeded limit"))
    else if mints.length = 0 then .error (.threw (.invalidArgument "no mints provided"))
    else
      .ok (pushType 0 .simpleMint ++ (push32 propertyId ++
        (push8 (UInt8.ofNat mints.length) ++ mints.flatMap (writeMint env))))
  | .simpleSpendV0 header proof serial =>
    .ok (pushType 0 .simpleSpend ++ (pushSpend header ++
      (writeScalar serial ++ writeProof env.wire proof)))
  | .simpleSpendV1 header proof signature pubkey =>
    if (compressedKey pubkey).length ≠ COMPRESSED_PUBLIC_KEY_SIZE then
      .error (.threw (.invalidArgument "Publickey size is invalid"))
    else
      .ok (pushType 1 .simpleSpend ++ (pushSpend header ++
        (pubkey ++ (writeProof env.wire proof ++ writeSignature signature))))

/-! ## §3. What is to be read back. -/

/-- A transaction with the version and the type. -/
def ofType {G : Type} (version : UInt16) (t : TransactionType) : CMPTransaction G :=
  { version, type := t.code }

/-- With the header of a property creation; its strings are cut to 255 bytes. -/
def CMPTransaction.withProperty {G : Type} (tx : CMPTransaction G) (header : PropertyHeader) :
    CMPTransaction G :=
  { tx with
    ecosystem := header.ecosystem
    propType := header.propertyType
    prevPropId := header.previousPropertyId
    category := header.texts.category.truncated
    subcategory := header.texts.subcategory.truncated
    name := header.texts.name.truncated
    url := header.texts.url.truncated
    data := header.texts.data.truncated }

/-- With the header of a spend. -/
def CMPTransaction.withSpend {G : Type} (tx : CMPTransaction G) (header : SpendHeader) :
    CMPTransaction G :=
  { tx with
    property := header.propertyId
    denomination := header.denomination
    group := header.group
    groupSize := header.groupSize }

/-- With a property and a value. -/
def CMPTransaction.withValue {G : Type} (tx : CMPTransaction G) (property : UInt32)
    (nValue : UInt64) : CMPTransaction G :=
  { tx with property, nValue, nNewValue := nValue }

/-- **The transaction with the values of the call.**  The memo of a grant is not interpreted;
version 0 of a distribution names no distribution property, which then is the property
itself. -/
def PayloadRequest.interpretation {G : Type} {env : PacketEnv G} :
    PayloadRequest env → CMPTransaction G
  | .simpleSend propertyId amount => (ofType 0 .simpleSend).withValue propertyId amount
  | .sendAll ecosystem =>
    { ofType 0 .sendAll with ecosystem, property := ecosystem.toUInt32 }
  | .dexSell propertyId amountForSale amountDesired timeLimit minFee subAction =>
    { (ofType 1 .tradeOffer).withValue propertyId amountForSale with
      amountDesired, blocktimelimit := timeLimit, minFee, subaction := subAction }
  | .dexAccept propertyId amount => (ofType 0 .acceptOfferBTC).withValue propertyId amount
  | .sendToOwners propertyId amount distributionProperty =>
    if propertyId = distributionProperty then
      (ofType 0 .sendToOwners).withValue propertyId amount
    else { (ofType 1 .sendToOwners).withValue propertyId amount with distributionProperty }
  | .issuanceFixed header amount sigmaStatus =>
    { (ofType (statusVersion sigmaStatus) .createPropertyFixed).withProperty header with
      nValue := amount
      nNewValue := amount
      sigmaStatus := (sigmaStatus.getD .softDisabled).code }
  | .issuanceVariable header propertyIdDesired amountPerUnit deadline earlyBonus
      issuerPercentage =>
      { (ofType 0 .createPropertyVariable).withProperty header with
        property := propertyIdDesired
        nValue := amountPerUnit
        nNewValue := amountPerUnit
        deadline
        earlyBird := earlyBonus
        percentage := issuerPercentage }
  | .issuanceManaged header sigmaStatus =>
    { (ofType (statusVersion sigmaStatus) .createPropertyManual).withProperty header with
      sigmaStatus := (sigmaStatus.getD .softDisabled).code }
  | .closeCrowdsale propertyId => { ofType 0 .closeCrowdsale with property := propertyId }
  | .grant propertyId amount _ => (ofType 0 .grantPropertyTokens).withValue propertyId amount
  | .revoke propertyId amount _ => (ofType 0 .revokePropertyTokens).withValue propertyId amount
  | .changeIssuer propertyId => { ofType 0 .changeIssuerAddress with property := propertyId }
  | .enableFreezing propertyId => { ofType 0 .enableFreezing with property := propertyId }
  | .disableFreezing propertyId => { ofType 0 .disableFreezing with property := propertyId }
  | .freezeTokens propertyId amount address =>
    { (ofType 0 .freezePropertyTokens).withValue propertyId amount with
      receiver := some address.val }
  | .unfreezeTokens propertyId amount address =>
    { (ofType 0 .unfreezePropertyTokens).withValue propertyId amount with
      receiver := some address.val }
  | .metaDExTrade propertyIdForSale amountForSale propertyIdDesired amountDesired =>
    { (ofType 0 .metadexTrade).withValue propertyIdForSale amountForSale with
      desiredProperty := propertyIdDesired, desiredValue := amountDesired, action := .add }
  | .metaDExCancelPrice propertyIdForSale amountForSale propertyIdDesired amountDesired =>
    { (ofType 0 .metadexCancelPrice).withValue propertyIdForSale amountForSale with
      desiredProperty := propertyIdDesired
      desiredValue := amountDesired
      action := .cancelAtPrice }
  | .metaDExCancelPair propertyIdForSale propertyIdDesired =>
    { ofType 0 .metadexCancelPair with
      property := propertyIdForSale
      desiredProperty := propertyIdDesired
      action := .cancelAllForPair }
  | .metaDExCancelEcosystem ecosystem =>
    { ofType 0 .metadexCancelEcosystem with
      ecosystem
      property := ecosystem.toUInt32
      desiredProperty := ecosystem.toUInt32
      action := .cancelEverything }
  | .deactivateFeature featureId => { ofType 65535 .deactivation with featureId }
  | .activateFeature featureId activationBlock minClientVersion =>
    { ofType 65535 .activation with featureId, activationBlock, minClientVersion }
  | .elysiumAlert alertType expiryValue alertMessage =>
    { ofType 65535 .alert with
      alertType, alertExpiry := expiryValue, alertText := alertMessage.truncated }
  | .createDenomination propertyId value =>
    { ofType 0 .createDenomination with property := propertyId, nValue := value }
  | .simpleMint propertyId mints => { ofType 0 .simpleMint with property := propertyId, mints }
  | .simpleSpendV0 header proof serial =>
    { (ofType 0 .simpleSpend).withSpend header with serial := some serial, spend := some proof }
  | .simpleSpendV1 header proof signature pubkey =>
    { (ofType 1 .simpleSpend).withSpend header with
      spend := some proof
      ecdsaPubkey := pubkey
      ecdsaSignature := some signature
      serial := (memberFromSeed env (env.sha256 pubkey)).toOption }

end Zcoin.Elysium
