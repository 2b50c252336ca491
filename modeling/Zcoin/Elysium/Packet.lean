/-
  Zcoin.Elysium.Packet — interpreting a payload (`elysium/tx.h`, `elysium/tx.cpp`).

  `CMPTransaction::interpret_Transaction` reads the version and the type of the payload `raw`
  and hands it to the interpreter of the type.  Every `memcpy` from `raw` is a read that fails
  with `outOfRange` when a byte lies outside; `none` stands for `return false`.  Log lines are
  left out.
-/
import Zcoin.Elysium.SigmaWire

namespace Zcoin.Elysium

open Lib Lib.Except Lib.BigEndian Lib.Stream

/-! ## §1. The transaction. -/

/-- `TransactionType`, as far as `interpret_Transaction` has a case for it. -/
inductive TransactionType where
  | simpleSend | sendToOwners | sendAll | tradeOffer | acceptOfferBTC
  | metadexTrade | metadexCancelPrice | metadexCancelPair | metadexCancelEcosystem
  | createPropertyFixed | createPropertyVariable | closeCrowdsale | createPropertyManual
  | grantPropertyTokens | revokePropertyTokens | changeIssuerAddress
  | enableFreezing | disableFreezing | freezePropertyTokens | unfreezePropertyTokens
  | simpleSpend | createDenomination | simpleMint
  | deactivation | activation | alert
  deriving DecidableEq, Repr

/-- The number of a type. -/
def TransactionType.code : TransactionType → Nat
  | simpleSend => 0 | sendToOwners => 3 | sendAll => 4 | tradeOffer => 20 | acceptOfferBTC => 22
  | metadexTrade => 25 | metadexCancelPrice => 26 | metadexCancelPair => 27
  | metadexCancelEcosystem => 28
  | createPropertyFixed => 50 | createPropertyVariable => 51 | closeCrowdsale => 53
  | createPropertyManual => 54
  | grantPropertyTokens => 55 | revokePropertyTokens => 56 | changeIssuerAddress => 70
  | enableFreezing => 71 | disableFreezing => 72 | freezePropertyTokens => 185
  | unfreezePropertyTokens => 186
  | simpleSpend => 1024 | createDenomination => 1025 | simpleMint => 1026
  | deactivation => 65533 | activation => 65534 | alert => 65535

/-- Every type, in the order of the `switch`. -/
def TransactionType.all : List TransactionType :=
  [simpleSend, sendToOwners, sendAll, tradeOffer, acceptOfferBTC,
    metadexTrade, metadexCancelPrice, metadexCancelPair, metadexCancelEcosystem,
    createPropertyFixed, createPropertyVariable, closeCrowdsale, createPropertyManual,
    grantPropertyTokens, revokePropertyTokens, changeIssuerAddress,
    enableFreezing, disableFreezing, freezePropertyTokens, unfreezePropertyTokens,
    createDenomination, simpleMint, simpleSpend, deactivation, activation, alert]

/-- The `switch` on the type. -/
def TransactionType.ofCode (code : Nat) : Option TransactionType :=
  TransactionType.all.find? fun t => t.code = code

/-- `MP_TX_PKT_V0` and `MP_TX_PKT_V1`. -/
def MP_TX_PKT_V0 : UInt16 := 0
def MP_TX_PKT_V1 : UInt16 := 1

/-- `SP_STRING_FIELD_LEN`. -/
def SP_STRING_FIELD_LEN : Nat := 256

/-- `ActionTypes` of the MetaDEx. -/
inductive ActionTypes where
  | invalid
  | add
  | cancelAtPrice
  | cancelAllForPair
  | cancelEverything
  deriving DecidableEq, Repr

/-- An address: the version byte and the hash that `HashToAddress` encodes. -/
structure Address where
  version : UInt8
  hash160 : Bytes
  deriving DecidableEq, Repr

/-- The fields of `CMPTransaction` that are interpreted, with the values of `SetNull`. -/
structure CMPTransaction (G : Type) where
  receiver : Option Address := none
  type : Nat := 0
  version : UInt16 := 0
  nValue : UInt64 := 0
  nNewValue : UInt64 := 0
  property : UInt32 := 0
  distributionProperty : UInt32 := 0
  ecosystem : UInt8 := 0
  propType : UInt16 := 0
  prevPropId : UInt32 := 0
  category : Bytes := []
  subcategory : Bytes := []
  name : Bytes := []
  url : Bytes := []
  data : Bytes := []
  deadline : UInt64 := 0
  earlyBird : UInt8 := 0
  percentage : UInt8 := 0
  desiredProperty : UInt32 := 0
  desiredValue : UInt64 := 0
  action : ActionTypes := .invalid
  amountDesired : UInt64 := 0
  blocktimelimit : UInt8 := 0
  minFee : UInt64 := 0
  subaction : UInt8 := 0
  alertType : UInt16 := 0
  alertExpiry : UInt32 := 0
  alertText : Bytes := []
  featureId : UInt16 := 0
  activationBlock : UInt32 := 0
  minClientVersion : UInt32 := 0
  sigmaStatus : UInt8 := 0
  mints : List (UInt8 × G) := []
  denomination : UInt8 := 0
  group : UInt32 := 0
  groupSize : UInt16 := 0
  serial : Option Scalar := none
  spend : Option (SigmaProof G) := none
  ecdsaPubkey : Bytes := []
  ecdsaSignature : Option ECDSASignature := none
  deriving DecidableEq

/-- What the interpreters use from elsewhere: the bytes of group elements, the version bytes
of the chain's addresses, the hash and the settings of the log. -/
structure PacketEnv (G : Type) where
  wire : GroupWire G
  pubkeyAddress : UInt8
  scriptAddress : UInt8
  sha256 : Bytes → Bytes
  /-- whether the logic of the transaction is not unlocked -/
  rpcOnly : Bool
  /-- `elysium_debug_packets` and `elysium_debug_packets_readonly` -/
  debugPackets : Bool
  debugPacketsReadonly : Bool

/-- Whether an interpreter logs what it has read. -/
def PacketEnv.logs {G : Type} (env : PacketEnv G) : Bool :=
  (!env.rpcOnly && env.debugPackets) || env.debugPacketsReadonly

/-- The first second of the year 1400 and the last one of 9999, between which a date is formatted. -/
def FIRST_DATE : Int := -17987443200
def LAST_DATE : Int := 253402300799

/-- `DateTimeStrFormat` in the log; the microseconds of a time are an `int64_t`. -/
def dateTimeStrFormat (nTime : Int) : Except Abort Unit :=
  if FIRST_DATE ≤ nTime ∧ nTime ≤ LAST_DATE then .ok ()
  else if -2 ^ 63 ≤ nTime * 1000000 ∧ nTime * 1000000 < 2 ^ 63 then
    .error (.threw (.outOfRange "Year is out of valid range: 1400..9999"))
  else .error .overflow

/-! ## §2. Reading from `raw`. -/

variable (raw : Bytes)

/-- `memcpy(.., &raw[pos], n)`. -/
def copyRaw (pos n : Nat) : Except Abort Bytes :=
  if pos + n ≤ raw.length then .ok ((raw.drop pos).take n) else .error .outOfRange

/-- The number in `n` bytes of `raw`. -/
def field (pos n : Nat) : Nat := readBigEndian ((raw.drop pos).take n)

/-- `memcpy` of one, two, four and eight bytes and `swapByteOrder`. -/
def raw8 (pos : Nat) : Except Abort UInt8 := do
  let bytes ← copyRaw raw pos 1
  return UInt8.ofNat (readBigEndian bytes)

@[inherit_doc raw8]
def raw16 (pos : Nat) : Except Abort UInt16 := do
  let bytes ← copyRaw raw pos 2
  return UInt16.ofNat (readBigEndian bytes)

@[inherit_doc raw8]
def raw32 (pos : Nat) : Except Abort UInt32 := do
  let bytes ← copyRaw raw pos 4
  return UInt32.ofNat (readBigEndian bytes)

@[inherit_doc raw8]
def raw64 (pos : Nat) : Except Abort UInt64 := do
  let bytes ← copyRaw raw pos 8
  return UInt64.ofNat (readBigEndian bytes)

/-- `std::find(p, end, 0)` and the string before it: the string and the place behind the
terminator. -/
def readString (p : Nat) : Option (Bytes × Nat) :=
  if (raw.drop p).takeWhile (· ≠ 0) = raw.drop p then none
  else some ((raw.drop p).takeWhile (· ≠ 0), p + ((raw.drop p).takeWhile (· ≠ 0)).length + 1)

/-- The loop over the strings. -/
def readStrings (raw : Bytes) : Nat → Nat → Option (List Bytes × Nat)
  | 0, p => some ([], p)
  | n + 1, p =>
    match readString raw p with
    | none => none
    | some (s, p) =>
      match readStrings raw n p with
      | none => none
      | some (ss, p) => some (s :: ss, p)

/-- `memcpy(buffer, s.c_str(), std::min(s.length(), sizeof(buffer)-1))`: what the buffer holds
behind the copied bytes stays. -/
def copyString (buffer s : Bytes) : Bytes :=
  s.take (SP_STRING_FIELD_LEN - 1) ++ buffer.drop (min s.length (SP_STRING_FIELD_LEN - 1))

/-- `isOverrun`. -/
def isOverrun (p : Nat) : Bool := raw.length < p

/-! ## §3. The interpreters. -/

section Interpreters

variable {G : Type}

/-- What an interpreter returns: the transaction, or `none` for `return false`. -/
abbrev Interpreted (G : Type) := Option (CMPTransaction G)

variable (tx : CMPTransaction G) (raw : Bytes)

/-- A property and a value; types 0, 22, 55 and 56. -/
def interpretPropertyValue : Except Abort (Interpreted G) := do
  if raw.length < 16 then return none
  else
    let property ← raw32 raw 4
    let nValue ← raw64 raw 8
    return some { tx with property, nValue, nNewValue := nValue }

/-- A property; types 53, 70, 71 and 72. -/
def interpretProperty : Except Abort (Interpreted G) := do
  if raw.length < 8 then return none
  else
    let property ← raw32 raw 4
    return some { tx with property }

/-- `interpret_SimpleSend` (Tx 1). -/
def interpretSimpleSend : Except Abort (Interpreted G) :=
  interpretPropertyValue tx raw

/-- `interpret_SendToOwners` (Tx 3). -/
def interpretSendToOwners : Except Abort (Interpreted G) := do
  let expectedSize := if tx.version = MP_TX_PKT_V0 then 16 else 20
  if raw.length < expectedSize then return none
  else
    let property ← raw32 raw 4
    let nValue ← raw64 raw 8
    if tx.version > MP_TX_PKT_V0 then
      let distributionProperty ← raw32 raw 16
      return some { tx with property, nValue, nNewValue := nValue, distributionProperty }
    else return some { tx with property, nValue, nNewValue := nValue }

/-- `interpret_SendAll` (Tx 4). -/
def interpretSendAll : Except Abort (Interpreted G) := do
  if raw.length < 5 then return none
  else
    let ecosystem ← raw8 raw 4
    return some { tx with ecosystem, property := ecosystem.toUInt32 }

/-- `interpret_TradeOffer` (Tx 20). -/
def interpretTradeOffer : Except Abort (Interpreted G) := do
  let expectedSize := if tx.version = MP_TX_PKT_V0 then 33 else 34
  if raw.length < expectedSize then return none
  else
    let property ← raw32 raw 4
    let nValue ← raw64 raw 8
    let amountDesired ← raw64 raw 16
    let blocktimelimit ← raw8 raw 24
    let minFee ← raw64 raw 25
    if tx.version > MP_TX_PKT_V0 then
      let subaction ← raw8 raw 33
      return some { tx with
        property, nValue, nNewValue := nValue, amountDesired, blocktimelimit, minFee, subaction }
    else
      return some { tx with
        property, nValue, nNewValue := nValue, amountDesired, blocktimelimit, minFee }

/-- `interpret_AcceptOfferBTC` (Tx 22). -/
def interpretAcceptOfferBTC : Except Abort (Interpreted G) :=
  interpretPropertyValue tx raw

/-- Two properties with their values; types 25 and 26. -/
def interpretTrade (action : ActionTypes) (tx : CMPTransaction G) (raw : Bytes) :
    Except Abort (Interpreted G) := do
  if raw.length < 28 then return none
  else
    let property ← raw32 raw 4
    let nValue ← raw64 raw 8
    let desiredProperty ← raw32 raw 16
    let desiredValue ← raw64 raw 20
    return some { tx with
      property, nValue, nNewValue := nValue, desiredProperty, desiredValue, action }

/-- `interpret_MetaDExTrade` (Tx 25). -/
def interpretMetaDExTrade : Except Abort (Interpreted G) :=
  interpretTrade .add tx raw

/-- `interpret_MetaDExCancelPrice` (Tx 26). -/
def interpretMetaDExCancelPrice : Except Abort (Interpreted G) :=
  interpretTrade .cancelAtPrice tx raw

/-- `interpret_MetaDExCancelPair` (Tx 27). -/
def interpretMetaDExCancelPair : Except Abort (Interpreted G) := do
  if raw.length < 12 then return none
  else
    let property ← raw32 raw 4
    let desiredProperty ← raw32 raw 8
    return some { tx with
      property, desiredProperty, nValue := 0, nNewValue := 0, desiredValue := 0
      action := .cancelAllForPair }

/-- `interpret_MetaDExCancelEcosystem` (Tx 28). -/
def interpretMetaDExCancelEcosystem : Except Abort (Interpreted G) := do
  if raw.length < 5 then return none
  else
    let ecosystem ← raw8 raw 4
    return some { tx with
      ecosystem, property := ecosystem.toUInt32, desiredProperty := ecosystem.toUInt32
      nValue := 0, nNewValue := 0, desiredValue := 0, action := .cancelEverything }

/-- What the three property creations have in common: the header and the five strings.  The
second component is the pointer behind the strings. -/
def interpretIssuance : Except Abort (Option (CMPTransaction G × Nat)) := do
  let ecosystem ← raw8 raw 4
  let propType ← raw16 raw 5
  let prevPropId ← raw32 raw 7
  match readStrings raw 5 11 with
  | some ([category, subcategory, name, url, data], p) =>
    return some ({ tx with
      ecosystem, propType, prevPropId
      category := copyString tx.category category
      subcategory := copyString tx.subcategory subcategory
      name := copyString tx.name name
      url := copyString tx.url url
      data := copyString tx.data data }, p)
  | _ => return none

/-- The size a creation is checked for before it is read, by version. -/
def creationSize (v0 v1 : Nat) (version : UInt16) : Option Nat :=
  if version = 0 then some v0 else if version = 1 then some v1 else none

/-- `interpret_CreatePropertyFixed` (Tx 50). -/
def interpretCreatePropertyFixed : Except Abort (Interpreted G) :=
  match creationSize 25 26 tx.version with
  | none => .ok none
  | some size => do
    if raw.length < size then return none
    else
      let issued ← interpretIssuance tx raw
      match issued with
      | none => return none
      | some (tx, p) =>
        let nValue ← raw64 raw p
        if tx.version = 1 then
          let sigmaStatus ← raw8 raw (p + 8)
          if isOverrun raw (p + 9) then return none
          else return some { tx with nValue, nNewValue := nValue, sigmaStatus }
        else if isOverrun raw (p + 8) then return none
        else return some { tx with nValue, nNewValue := nValue }

/-- The log of a deadline, which is converted to `int64_t`. -/
def logDeadline (env : PacketEnv G) (deadline : UInt64) : Except Abort Unit :=
  if env.logs then dateTimeStrFormat deadline.toBitVec.toInt else .ok ()

/-- `interpret_CreatePropertyVariable` (Tx 51). -/
def interpretCreatePropertyVariable (env : PacketEnv G) (tx : CMPTransaction G) (raw : Bytes) :
    Except Abort (Interpreted G) := do
  if raw.length < 39 then return none
  else
    let issued ← interpretIssuance tx raw
    match issued with
    | none => return none
    | some (tx, p) =>
      let property ← raw32 raw p
      let nValue ← raw64 raw (p + 4)
      let deadline ← raw64 raw (p + 12)
      let earlyBird ← raw8 raw (p + 20)
      let percentage ← raw8 raw (p + 21)
      logDeadline env deadline
      if isOverrun raw (p + 22) then return none
      else return some { tx with
        property, nValue, nNewValue := nValue, deadline, earlyBird, percentage }

/-- `interpret_CloseCrowdsale` (Tx 53). -/
def interpretCloseCrowdsale : Except Abort (Interpreted G) :=
  interpretProperty tx raw

/-- `interpret_CreatePropertyManaged` (Tx 54). -/
def interpretCreatePropertyManaged : Except Abort (Interpreted G) :=
  match creationSize 17 18 tx.version with
  | none => .ok none
  | some size => do
    if raw.length < size then return none
    else
      let issued ← interpretIssuance tx raw
      match issued with
      | none => return none
      | some (tx, p) =>
        if tx.version = 1 then
          let sigmaStatus ← raw8 raw p
          if isOverrun raw (p + 1) then return none
          else return some { tx with sigmaStatus }
        else if isOverrun raw p then return none
        else return some tx

/-- `interpret_GrantTokens` (Tx 55). -/
def interpretGrantTokens : Except Abort (Interpreted G) :=
  interpretPropertyValue tx raw

/-- `interpret_RevokeTokens` (Tx 56). -/
def interpretRevokeTokens : Except Abort (Interpreted G) :=
  interpretPropertyValue tx raw

/-- `interpret_ChangeIssuer` (Tx 70). -/
def interpretChangeIssuer : Except Abort (Interpreted G) :=
  interpretProperty tx raw

/-- `interpret_EnableFreezing` (Tx 71). -/
def interpretEnableFreezing : Except Abort (Interpreted G) :=
  interpretProperty tx raw

/-- `interpret_DisableFreezing` (Tx 72). -/
def interpretDisableFreezing : Except Abort (Interpreted G) :=
  interpretProperty tx raw

variable (env : PacketEnv G)

/-- `HashToAddress`; `none` is the empty string. -/
def hashToAddress (version : UInt8) (hash160 : Bytes) : Option Address :=
  if version = env.pubkeyAddress ∨ version = env.scriptAddress then some ⟨version, hash160⟩
  else none

/-- A property, a value and the receiver as a virtual reference; types 185 and 186.  An
address that `HashToAddress` gives is valid. -/
def interpretReference (tx : CMPTransaction G) (raw : Bytes) : Except Abort (Interpreted G) := do
  if raw.length < 37 then return none
  else
    let property ← raw32 raw 4
    let nValue ← raw64 raw 8
    let version ← raw8 raw 16
    let hash160 ← copyRaw raw 17 20
    match hashToAddress env version hash160 with
    | none => return none
    | some receiver => return some { tx with property, nValue, nNewValue := nValue, receiver }

/-- `interpret_FreezeTokens` (Tx 185). -/
def interpretFreezeTokens (tx : CMPTransaction G) (raw : Bytes) :
    Except Abort (Interpreted G) := interpretReference env tx raw

/-- `interpret_UnfreezeTokens` (Tx 186). -/
def interpretUnfreezeTokens (tx : CMPTransaction G) (raw : Bytes) :
    Except Abort (Interpreted G) := interpretReference env tx raw

/-- `CPubKey::Set` on 33 bytes: the key, which is empty unless the header is that of a
compressed one. -/
def compressedKey (bytes : Bytes) : Bytes :=
  if bytes.head? = some 2 ∨ bytes.head? = some 3 then bytes else []

/-- `Scalar::memberFromSeed`: the seed has to be a scalar, whose bytes are those of the seed again,
and so has its hash. -/
def memberFromSeed (seed : Bytes) : Except Abort Scalar := do
  let _ ← parseScalar seed
  if h : readBigEndian (env.sha256 seed) < groupOrder then
    return ⟨readBigEndian (env.sha256 seed), h⟩
  else .error (.threw (.text "Scalar: hashing overflowed"))

/-- The serial of version 1, calculated from the public key. -/
def calculateSerial (tx : CMPTransaction G) : Except Abort (CMPTransaction G) := do
  if tx.version = MP_TX_PKT_V1 then
    let serial ← memberFromSeed env (env.sha256 tx.ecdsaPubkey)
    return { tx with serial }
  else return tx

/-- The stream behind the fields of a spend. -/
def readSpend (tx : CMPTransaction G) : CDataStream (CMPTransaction G) :=
  if tx.version = MP_TX_PKT_V1 then do
    let pubkeyBuffer ← readBytes endOfData COMPRESSED_PUBLIC_KEY_SIZE
    let spend ← readProof env.wire
    let ecdsaSignature ← readSignature
    return { tx with ecdsaPubkey := compressedKey pubkeyBuffer, spend, ecdsaSignature }
  else do
    let serial ← readScalar
    let spend ← readProof env.wire
    return { tx with serial, spend }

/-- `interpret_SimpleSpend` (Tx 1024). -/
def interpretSimpleSpend (tx : CMPTransaction G) (raw : Bytes) : Except Abort (Interpreted G) := do
  if raw.length < 15 then return none
  else
    let property ← raw32 raw 4
    let denomination ← raw8 raw 8
    let group ← raw32 raw 9
    let groupSize ← raw16 raw 13
    match readSpend env { tx with property, denomination, group, groupSize } (raw.drop 15) with
    | .ok (tx, rest) =>
      let tx ← calculateSerial env tx
      if rest.isEmpty then return some tx else return none
    | .error e =>
      -- only `std::ios_base::failure` is caught
      if e = endOfData then return none else .error e

/-- `interpret_CreateDenomination` (Tx 1025): `nNewValue` is not set. -/
def interpretCreateDenomination : Except Abort (Interpreted G) := do
  if raw.length < 16 then return none
  else
    let property ← raw32 raw 4
    let nValue ← raw64 raw 8
    return some { tx with property, nValue }

/-- A pair of a denomination and a `SigmaPublicKey`. -/
def readMint : CDataStream (UInt8 × G) := do
  let denomination ← readBytes endOfData 1
  let pubKey ← readGroupElement env.wire
  return (UInt8.ofNat (readBigEndian denomination), pubKey)

/-- `elysiumMintSize`. -/
def elysiumMintSize : Nat := 35

/-- `interpret_SimpleMint` (Tx 1026). -/
def interpretSimpleMint (tx : CMPTransaction G) (raw : Bytes) : Except Abort (Interpreted G) := do
  if raw.length < 9 + elysiumMintSize then return none
  else
    let property ← raw32 raw 4
    let mintAmount ← raw8 raw 8
    if raw.length ≠ 9 + elysiumMintSize * mintAmount.toNat then return none
    else
      let (mints, _) ← readTimes (readMint env) mintAmount.toNat (raw.drop 9)
      return some { tx with property, mints }

/-- `interpret_Deactivation` (Tx 65533). -/
def interpretDeactivation : Except Abort (Interpreted G) := do
  if raw.length < 6 then return none
  else
    let featureId ← raw16 raw 4
    return some { tx with featureId }

/-- `interpret_Activation` (Tx 65534). -/
def interpretActivation : Except Abort (Interpreted G) := do
  if raw.length < 14 then return none
  else
    let featureId ← raw16 raw 4
    let activationBlock ← raw32 raw 6
    let minClientVersion ← raw32 raw 10
    return some { tx with featureId, activationBlock, minClientVersion }

/-- `interpret_Alert` (Tx 65535): the pointer that is tested stands before the text. -/
def interpretAlert : Except Abort (Interpreted G) := do
  if raw.length < 11 then return none
  else
    let alertType ← raw16 raw 4
    let alertExpiry ← raw32 raw 6
    match readString raw 10 with
    | none => return none
    | some (text, _) =>
      if isOverrun raw 10 then return none
      else return some { tx with
        alertType, alertExpiry, alertText := copyString tx.alertText text }

/-- `interpret_TransactionType`. -/
def interpretTransactionType : Except Abort (Interpreted G) := do
  if raw.length < 4 then return none
  else
    let version ← raw16 raw 0
    let type ← raw16 raw 2
    return some { tx with version, type := type.toNat }

/-- The case of the `switch` for a type. -/
def interpretType (tx : CMPTransaction G) (raw : Bytes) : TransactionType → Except Abort
    (Interpreted G)
  | .simpleSend => interpretSimpleSend tx raw
  | .sendToOwners => interpretSendToOwners tx raw
  | .sendAll => interpretSendAll tx raw
  | .tradeOffer => interpretTradeOffer tx raw
  | .acceptOfferBTC => interpretAcceptOfferBTC tx raw
  | .metadexTrade => interpretMetaDExTrade tx raw
  | .metadexCancelPrice => interpretMetaDExCancelPrice tx raw
  | .metadexCancelPair => interpretMetaDExCancelPair tx raw
  | .metadexCancelEcosystem => interpretMetaDExCancelEcosystem tx raw
  | .createPropertyFixed => interpretCreatePropertyFixed tx raw
  | .createPropertyVariable => interpretCreatePropertyVariable env tx raw
  | .closeCrowdsale => interpretCloseCrowdsale tx raw
  | .createPropertyManual => interpretCreatePropertyManaged tx raw
  | .grantPropertyTokens => interpretGrantTokens tx raw
  | .revokePropertyTokens => interpretRevokeTokens tx raw
  | .changeIssuerAddress => interpretChangeIssuer tx raw
  | .enableFreezing => interpretEnableFreezing tx raw
  | .disableFreezing => interpretDisableFreezing tx raw
  | .freezePropertyTokens => interpretFreezeTokens env tx raw
  | .unfreezePropertyTokens => interpretUnfreezeTokens env tx raw
  | .createDenomination => interpretCreateDenomination tx raw
  | .simpleMint => interpretSimpleMint env tx raw
  | .simpleSpend => interpretSimpleSpend env tx raw
  | .deactivation => interpretDeactivation tx raw
  | .activation => interpretActivation tx raw
  | .alert => interpretAlert tx raw

/-- `interpret_Transaction`. -/
def interpretTransaction (tx : CMPTransaction G) (raw : Bytes) : Except Abort (Interpreted G) := do
  let typed ← interpretTransactionType tx raw
  match typed with
  | none => return none
  | some tx =>
    match TransactionType.ofCode tx.type with
    | none => return none
    | some t => interpretType env tx raw t

end Interpreters

/-! ## §4. What the reads give. -/

section Reads

variable {raw : Bytes} {pos : Nat}

theorem copyRaw_ok {n : Nat} (h : pos + n ≤ raw.length) :
    copyRaw raw pos n = .ok ((raw.drop pos).take n) := if_pos h

theorem raw8_ok (h : pos + 1 ≤ raw.length) :
    raw8 raw pos = .ok (UInt8.ofNat (field raw pos 1)) := by
  unfold raw8
  rw [copyRaw_ok h]
  rfl

theorem raw16_ok (h : pos + 2 ≤ raw.length) :
    raw16 raw pos = .ok (UInt16.ofNat (field raw pos 2)) := by
  unfold raw16
  rw [copyRaw_ok h]
  rfl

theorem raw32_ok (h : pos + 4 ≤ raw.length) :
    raw32 raw pos = .ok (UInt32.ofNat (field raw pos 4)) := by
  unfold raw32
  rw [copyRaw_ok h]
  rfl

theorem raw64_ok (h : pos + 8 ≤ raw.length) :
    raw64 raw pos = .ok (UInt64.ofNat (field raw pos 8)) := by
  unfold raw64
  rw [copyRaw_ok h]
  rfl

theorem isOverrun_eq_false (h : pos ≤ raw.length) : isOverrun raw pos = false :=
  decide_eq_false (by omega)

theorem readString_le {s : Bytes} {p q : Nat} (h : readString raw p = some (s, q)) :
    p < q ∧ q ≤ raw.length := by
  unfold readString at h
  split at h
  · cases h
  · next hne =>
    cases h
    have hbegins : (raw.drop p).takeWhile (· ≠ 0) <+: raw.drop p := List.takeWhile_prefix _
    have hlen := hbegins.length_le
    have hshort : ((raw.drop p).takeWhile (· ≠ 0)).length ≠ (raw.drop p).length :=
      fun heq => hne (hbegins.eq_of_length heq)
    rw [List.length_drop] at hlen hshort
    omega

theorem readStrings_le {n p q : Nat} {ss : List Bytes} (h : readStrings raw n p = some (ss, q))
    (hp : p ≤ raw.length) : ss.length = n ∧ p + n ≤ q ∧ q ≤ raw.length := by
  induction n generalizing p ss with
  | zero =>
    cases h
    exact ⟨rfl, le_rfl, hp⟩
  | succ n ih =>
    unfold readStrings at h
    cases hfirst : readString raw p with
    | none =>
      rw [hfirst] at h
      cases h
    | some first =>
      obtain ⟨s, p'⟩ := first
      rw [hfirst] at h
      cases hrest : readStrings raw n p' with
      | none =>
        simp only [hrest] at h
        cases h
      | some rest =>
        obtain ⟨ss', q'⟩ := rest
        simp only [hrest] at h
        cases h
        obtain ⟨hlt, hle⟩ := readString_le hfirst
        obtain ⟨hlen, hfrom, hupto⟩ := ih hrest hle
        refine ⟨?_, by omega, hupto⟩
        rw [List.length_cons, hlen]

end Reads

/-! ## §5. What the interpreters give.

One equation for each interpreter that goes on behind its numbers, and each payload that is
long enough; `field raw pos n` are the numbers of the payload. -/

variable {G : Type} {env : PacketEnv G} {tx : CMPTransaction G} {raw : Bytes}

/-- The transaction with the header and the strings of a property creation. -/
def issued (tx : CMPTransaction G) (raw : Bytes) (category subcategory name url data : Bytes) :
    CMPTransaction G :=
  { tx with
    ecosystem := UInt8.ofNat (field raw 4 1)
    propType := UInt16.ofNat (field raw 5 2)
    prevPropId := UInt32.ofNat (field raw 7 4)
    category := copyString tx.category category
    subcategory := copyString tx.subcategory subcategory
    name := copyString tx.name name
    url := copyString tx.url url
    data := copyString tx.data data }

/-- **The header and the strings**: the strings end inside the payload, or one of them is not
terminated. -/
theorem interpretIssuance_cases (h : 11 ≤ raw.length) :
    (readStrings raw 5 11 = none ∧ interpretIssuance tx raw = .ok none) ∨
    ∃ category subcategory name url data p, p ≤ raw.length ∧ 16 ≤ p ∧
      readStrings raw 5 11 = some ([category, subcategory, name, url, data], p) ∧
      interpretIssuance tx raw =
        .ok (some (issued tx raw category subcategory name url data, p)) := by
  unfold interpretIssuance
  rw [raw8_ok (by omega), ok_bind, raw16_ok (by omega), ok_bind, raw32_ok (by omega), ok_bind]
  cases hstrings : readStrings raw 5 11 with
  | none => exact .inl ⟨rfl, rfl⟩
  | some found =>
    obtain ⟨ss, p⟩ := found
    obtain ⟨hlen, hfrom, hupto⟩ := readStrings_le hstrings h
    obtain ⟨a, b, c, d, e, rfl⟩ : ∃ a b c d e, ss = [a, b, c, d, e] := by
      match ss, hlen with
      | [a, b, c, d, e], _ => exact ⟨a, b, c, d, e, rfl⟩
    exact .inr ⟨a, b, c, d, e, p, hupto, by omega, rfl, rfl⟩

theorem interpretReference_eq (h : 37 ≤ raw.length) :
    interpretReference env tx raw = .ok
      ((hashToAddress env (UInt8.ofNat (field raw 16 1)) ((raw.drop 17).take 20)).map
        fun receiver => { tx with
          property := UInt32.ofNat (field raw 4 4)
          nValue := UInt64.ofNat (field raw 8 8)
          nNewValue := UInt64.ofNat (field raw 8 8)
          receiver }) := by
  unfold interpretReference
  rw [if_neg (by omega), raw32_ok (by omega), ok_bind, raw64_ok (by omega), ok_bind,
    raw8_ok (by omega), ok_bind, copyRaw_ok (by omega), ok_bind]
  cases hashToAddress env (UInt8.ofNat (field raw 16 1)) ((raw.drop 17).take 20) with
  | none => rfl
  | some receiver => rfl

theorem interpretAlert_eq (h : 11 ≤ raw.length) :
    interpretAlert tx raw = .ok ((readString raw 10).map fun found => { tx with
      alertType := UInt16.ofNat (field raw 4 2)
      alertExpiry := UInt32.ofNat (field raw 6 4)
      alertText := copyString tx.alertText found.1 }) := by
  unfold interpretAlert
  rw [if_neg (by omega), raw16_ok (by omega), ok_bind, raw32_ok (by omega), ok_bind]
  cases readString raw 10 with
  | none => rfl
  | some found =>
    show (if isOverrun raw 10 = true then _ else _) = _
    rw [isOverrun_eq_false (by omega)]
    rfl

/-- A spend up to its stream. -/
def spendHeader (tx : CMPTransaction G) (raw : Bytes) : CMPTransaction G :=
  { tx with
    property := UInt32.ofNat (field raw 4 4)
    denomination := UInt8.ofNat (field raw 8 1)
    group := UInt32.ofNat (field raw 9 4)
    groupSize := UInt16.ofNat (field raw 13 2) }

theorem interpretSimpleSpend_eq (h : 15 ≤ raw.length) :
    interpretSimpleSpend env tx raw =
      match readSpend env (spendHeader tx raw) (raw.drop 15) with
      | .ok (tx, rest) => calculateSerial env tx >>= fun tx =>
        if rest.isEmpty then .ok (some tx) else .ok none
      | .error e => if e = endOfData then .ok none else .error e := by
  unfold interpretSimpleSpend
  rw [if_neg (by omega), raw32_ok (by omega), ok_bind, raw8_ok (by omega), ok_bind,
    raw32_ok (by omega), ok_bind, raw16_ok (by omega), ok_bind]
  rfl

/-- **A deadline that can be logged**, or is not. -/
def Loggable (env : PacketEnv G) (deadline : UInt64) : Prop :=
  env.logs = true → FIRST_DATE ≤ deadline.toBitVec.toInt ∧ deadline.toBitVec.toInt ≤ LAST_DATE

theorem logDeadline_ok {deadline : UInt64} (h : Loggable env deadline) :
    logDeadline env deadline = .ok () := by
  unfold logDeadline dateTimeStrFormat
  split
  · next hlogs => exact if_pos (h hlogs)
  · rfl

theorem logDeadline_error {deadline : UInt64} (h : ¬ Loggable env deadline) :
    ∃ e, logDeadline env deadline = .error e := by
  unfold Loggable at h
  push Not at h
  unfold logDeadline dateTimeStrFormat
  rw [if_pos h.1, if_neg fun hrange => absurd hrange.2 (not_le.mpr (h.2 hrange.1))]
  split <;> exact ⟨_, rfl⟩

/-- **A public key that has a serial**: its hash and the hash of that are below the group order. -/
def HasSerial (env : PacketEnv G) (pubkey : Bytes) : Prop :=
  readBigEndian (env.sha256 pubkey) < groupOrder ∧
    readBigEndian (env.sha256 (env.sha256 pubkey)) < groupOrder

theorem memberFromSeed_ok_iff {pubkey : Bytes} :
    (∃ serial, memberFromSeed env (env.sha256 pubkey) = .ok serial) ↔ HasSerial env pubkey := by
  unfold memberFromSeed parseScalar HasSerial
  by_cases hseed : readBigEndian (env.sha256 pubkey) < groupOrder
  · rw [dif_pos hseed, ok_bind, and_iff_right hseed]
    split
    · next hhash => exact iff_of_true ⟨_, rfl⟩ hhash
    · next hhash => exact iff_of_false (fun ⟨_, h⟩ => nomatch h) hhash
  · rw [dif_neg hseed]
    exact iff_of_false (fun ⟨_, h⟩ => nomatch h) (fun h => hseed h.1)

theorem calculateSerial_ok_iff :
    (∃ tx', calculateSerial env tx = .ok tx') ↔
      (tx.version = MP_TX_PKT_V1 → HasSerial env tx.ecdsaPubkey) := by
  unfold calculateSerial
  split
  · next hv =>
    rw [← memberFromSeed_ok_iff]
    constructor
    · rintro ⟨tx', h⟩ -
      obtain ⟨serial, hserial, -⟩ := bind_eq_ok.mp h
      exact ⟨serial, hserial⟩
    · intro h
      obtain ⟨serial, hserial⟩ := h hv
      exact ⟨_, bind_eq_ok.mpr ⟨serial, hserial, rfl⟩⟩
  · next hv => exact iff_of_true ⟨_, rfl⟩ (fun h => absurd h hv)

theorem readSpend_key {tx' : CMPTransaction G} {s rest : Bytes}
    (h : readSpend env tx s = .ok (tx', rest)) :
    tx'.version = tx.version ∧ (tx.version = MP_TX_PKT_V1 →
      tx'.ecdsaPubkey = compressedKey (s.take COMPRESSED_PUBLIC_KEY_SIZE)) := by
  unfold readSpend at h
  split at h
  · obtain ⟨buffer, s', hbuffer, h⟩ := exists_of_bind_ok h
    obtain ⟨proof, s'', -, h⟩ := exists_of_bind_ok h
    obtain ⟨signature, s₃, -, h⟩ := exists_of_bind_ok h
    cases h
    unfold readBytes at hbuffer
    split at hbuffer
    · cases hbuffer
      exact ⟨rfl, fun _ => rfl⟩
    · cases hbuffer
  · next hv =>
    obtain ⟨serial, s', -, h⟩ := exists_of_bind_ok h
    obtain ⟨proof, s'', -, h⟩ := exists_of_bind_ok h
    cases h
    exact ⟨rfl, fun h => absurd h hv⟩

theorem interpretSimpleMint_eq (h : 9 + elysiumMintSize ≤ raw.length) :
    interpretSimpleMint env tx raw =
      if raw.length ≠ 9 + elysiumMintSize * (UInt8.ofNat (field raw 8 1)).toNat then .ok none
      else do
        let (mints, _) ← readTimes (readMint env) (UInt8.ofNat (field raw 8 1)).toNat (raw.drop 9)
        return some { tx with property := UInt32.ofNat (field raw 4 4), mints } := by
  unfold elysiumMintSize at h
  unfold interpretSimpleMint
  rw [if_neg (by unfold elysiumMintSize; omega), raw32_ok (by omega), ok_bind,
    raw8_ok (by omega), ok_bind]
  rfl

/-- The version and the type of a payload. -/
def payloadVersion (raw : Bytes) : UInt16 := UInt16.ofNat (field raw 0 2)

@[inherit_doc payloadVersion]
def payloadType (raw : Bytes) : Option TransactionType :=
  TransactionType.ofCode (UInt16.ofNat (field raw 2 2)).toNat

theorem interpretTransaction_eq (h : 4 ≤ raw.length) :
    interpretTransaction env tx raw =
      match payloadType raw with
      | none => .ok none
      | some t => interpretType env { tx with
          version := payloadVersion raw
          type := (UInt16.ofNat (field raw 2 2)).toNat } raw t := by
  unfold interpretTransaction interpretTransactionType
  rw [if_neg (by omega), raw16_ok (by omega), ok_bind, raw16_ok (by omega), ok_bind]
  rfl

theorem interpretTransaction_short (h : raw.length < 4) :
    interpretTransaction env tx raw = .ok none := by
  unfold interpretTransaction interpretTransactionType
  rw [if_pos h]
  rfl

end Zcoin.Elysium
