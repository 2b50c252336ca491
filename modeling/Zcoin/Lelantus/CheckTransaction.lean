/-
  Zcoin.Lelantus.CheckTransaction — the checks of a single transaction
  (`CheckLelantusMintTransaction`, `CheckLelantusJMintTransaction`,
  `CheckLelantusJoinSplitTransaction`, `CheckLelantusTransaction`, `lelantus.cpp`).

  `ConnectBlock` runs `CheckLelantusTransaction` on one transaction after the other
  with the two collectors of the block; what a transaction mints and spends is
  written into them on the way.  A transaction that is rejected takes its block with
  it, so what it had written by then is not kept here.  `JoinSplit::Verify` is an
  arbitrary predicate.
-/
import Zcoin.Lelantus.AnonymitySet
import Zcoin.Sigma.Connect

namespace Zcoin.Lelantus

open Chain LibLelantus Lib Std

variable {F G : Type} [DecidableEq F] [DecidableEq G]

/-! ## §1. Collectors and scripts. -/

/-- What the transaction checks leave to other components. -/
structure TxExternals (F G : Type) extends Externals F G where
  /-- `PublicCoin::validate` -/
  validate : G → Bool
  /-- `VerifyMintSchnorrProof`, before and after the fixes -/
  verifyMintSchnorrProof : Bool → UInt64 → G → SchnorrProof F G → Bool
  /-- `DecryptMintAmount` of the wallet; 0 where it fails or there is no wallet -/
  decryptMintAmount : List UInt8 → G → UInt64
  /-- the hash of a transaction with the script of its first input cleared -/
  metadataHash : CTransaction → Uint256
  /-- `JoinSplit::Verify` on sets, set hashes, `Cout`, `Vout`, metadata hash and
  `fSkipVerification` -/
  verifyJoinSplit : JoinSplit F G → ExtTreeMap UInt32 (List G) → List (List UInt8) → List G →
    UInt64 → Uint256 → Bool → Bool
  /-- `BatchProofContainer::fCollectProofs` -/
  fCollectProofs : Bool
  /-- what an uninitialised `CoinDenomination` holds -/
  unsetDenomination : Sigma.CoinDenomination

/-- The two collectors of a block; a null pointer is `none`. -/
structure TxInfos (F G : Type) where
  sigma : Option (CSigmaTxInfo F G)
  lelantus : Option (CLelantusTxInfo F G)

/-- `lelantusTxInfo && !lelantusTxInfo->fInfoIsComplete`. -/
def lelantusOpen (info : Option (CLelantusTxInfo F G)) : Bool :=
  info.any fun info => !info.fInfoIsComplete

/-- `sigmaTxInfo && !sigmaTxInfo->fInfoIsComplete`. -/
def sigmaOpen (info : Option (CSigmaTxInfo F G)) : Bool :=
  info.any fun info => !info.fInfoIsComplete

/-- A write to the collector that happens only while it is open. -/
def writeOpen (write : CLelantusTxInfo F G → CLelantusTxInfo F G)
    (info : Option (CLelantusTxInfo F G)) : Option (CLelantusTxInfo F G) :=
  if lelantusOpen info then info.map write else info

/-- `GroupElement::memoryRequired`, `SchnorrProof::memoryRequired` and the size of an
encrypted mint value. -/
def pubcoinSize : Nat := 34
def schnorrProofSize : Nat := 98
def encryptedValueSize : Nat := 16

/-- `ParseLelantusMintScript`. -/
def parseLelantusMintScript (env : Externals F G) (script : CScript) :
    Except Exn (G × SchnorrProof F G × Uint256) :=
  let serialized := script.tail
  if script.length < 1 ∨ serialized.length < pubcoinSize + schnorrProofSize then
    .error (.invalidArgument "Script is not a valid Lelantus mint")
  else do
    let (schnorrProof, stream) ← env.readSchnorrProof (serialized.drop pubcoinSize)
    let pubcoin := env.deserialize (serialized.take pubcoinSize)
    if serialized.length = pubcoinSize + schnorrProofSize then return (pubcoin, schnorrProof, 0)
    else
      let mintTag ← env.readUint256 stream
      return (pubcoin, schnorrProof, mintTag)

/-- `ParseLelantusJMintScript`. -/
def parseLelantusJMintScript (env : Externals F G) (script : CScript) :
    Except Exn (G × List UInt8 × Uint256) :=
  let serialized := script.tail
  if script.length < 1 ∨ serialized.length < pubcoinSize + encryptedValueSize then
    .error (.invalidArgument "Script is not a valid Lelantus jMint")
  else do
    let pubcoin := env.deserialize (serialized.take pubcoinSize)
    let encryptedValue := serialized.drop pubcoinSize
    if serialized.length = pubcoinSize + encryptedValueSize then return (pubcoin, encryptedValue, 0)
    else
      let mintTag ← env.readUint256 (serialized.drop (pubcoinSize + encryptedValueSize))
      return (pubcoin, encryptedValue, mintTag)

/-! ## §2. Mints. -/

/-- `state.DoS(100, false, PUBCOIN_NOT_VALIDATE, reason)`. -/
def invalidMint (reason : String) : Stop :=
  .rejected (some { level := 100, code := PUBCOIN_NOT_VALIDATE, reason })

/-- The `try` around the parsing of a mint: only an `invalid_argument` is caught. -/
def mintParsed {α : Type} : Except Exn α → Except Stop α
  | .ok a => .ok a
  | .error (.invalidArgument _) =>
    .error (invalidMint "CTransaction::CheckTransaction() : Mint parsing failure.")
  | .error e => .error (.aborted (.threw e))

/-- `hasCoin`: the coin is in the state or among the mints collected so far. -/
def knownCoin (s : CLelantusState F G) (info : Option (CLelantusTxInfo F G)) (pubCoin : G) : Bool :=
  s.hasCoin pubCoin || info.any fun info =>
    !info.fInfoIsComplete && decide (pubCoin ∈ info.mints.map Prod.fst)

/-- `mints.push_back(..)` and `zcTransactions.insert(hashTx)`. -/
def recordMint (hashTx : Uint256) (mint : G × UInt64 × Uint256) (info : CLelantusTxInfo F G) :
    CLelantusTxInfo F G :=
  { info with mints := info.mints ++ [mint], zcTransactions := insert hashTx info.zcTransactions }

variable (params : ConsensusParams G) (env : TxExternals F G) (s : CLelantusState F G)
  (chain : CChain F G) (hashTx : Uint256) (fStatefulSigmaCheck : Bool)
  (info : Option (CLelantusTxInfo F G))

/-- `CheckLelantusMintTransaction`. -/
def checkLelantusMintTransaction (txout : CTxOut) : Except Stop (Option (CLelantusTxInfo F G)) :=
  if txout.nValue > params.nMaxValueLelantusMint then
    .error (.rejected (some { level := 100, code := REJECT_INVALID
                              reason := "CTransaction::CheckTransaction() : Mint is out of limit." }))
  else do
    let (pubCoin, schnorrProof, mintTag) ←
      mintParsed (parseLelantusMintScript env.toExternals txout.scriptPubKey)
    let afterFixes := decide (height chain ≥ params.nLelantusFixesStartBlock)
    if !env.verifyMintSchnorrProof afterFixes (UInt64.ofInt txout.nValue) pubCoin schnorrProof ||
        !env.validate pubCoin then
      .error (invalidMint "CheckLelantusMintTransaction : PubCoin validation failed")
    else if knownCoin s info pubCoin && fStatefulSigmaCheck then
      .error (invalidMint "CheckLelantusMintTransaction: double mint")
    else
      return writeOpen (recordMint hashTx (pubCoin, UInt64.ofInt txout.nValue, mintTag)) info

/-- `CheckLelantusJMintTransaction`, with the coin it pushes to `Cout`. -/
def checkLelantusJMintTransaction (txout : CTxOut) :
    Except Stop (Option (CLelantusTxInfo F G) × G) := do
  let (pubCoin, encryptedValue, mintTag) ←
    mintParsed (parseLelantusJMintScript env.toExternals txout.scriptPubKey)
  if !env.validate pubCoin then
    .error (invalidMint "CheckLelantusMintTransaction : PubCoin validation failed")
  else if knownCoin s info pubCoin && fStatefulSigmaCheck then
    .error (invalidMint "CheckLelantusMintTransaction: double mint")
  else
    let amount := env.decryptMintAmount encryptedValue pubCoin
    return (writeOpen (recordMint hashTx (pubCoin, amount, mintTag)) info, pubCoin)

/-! ## §3. Joinsplits. -/

/-- The `try` around `ParseLelantusJoinSplit`: only a `CBadTxIn` is caught. -/
def joinSplitParsed (env : Externals F G) (onBadTxIn : Rejection) (txin : CTxIn) :
    Except Stop (JoinSplit F G) :=
  match parseLelantusJoinSplit env txin with
  | .ok joinsplit => .ok joinsplit
  | .error .badTxIn => .error (.rejected (some onBadTxIn))
  | .error e => .error (.aborted (.threw e))

/-- The one input a joinsplit transaction may have. -/
def joinSplitInput (env : Externals F G) (tx : CTransaction) : Except Stop (JoinSplit F G) :=
  match tx.vin with
  | [txin] =>
    if CScript.isLelantusJoinSplit txin.scriptSig then
      joinSplitParsed env { level := 100, code := REJECT_MALFORMED
                            reason := "CheckLelantusJoinSplitTransaction: invalid joinsplit " ++
                              "transaction" } txin
    else .error mixed
  | _ => .error mixed
where
  mixed : Stop := .rejected (some
    { level := 100, code := REJECT_MALFORMED
      reason := "CheckLelantusJoinSplitTransaction: can't mix lelantus spend input with other tx " ++
        "types or have more than one spend" })

/-- The versions a joinsplit may have at height `nHeight`. -/
def badVersion (isVerifyDB : Bool) (nHeight version : Nat) : Bool :=
  decide (version < LELANTUS_TX_VERSION_4) ||
    (!isVerifyDB && decide (nHeight ≥ params.nLelantusFixesStartBlock) &&
      decide (version ≠ LELANTUS_TX_VERSION_4_5) &&
      decide (version ≠ SIGMA_TO_LELANTUS_JOINSPLIT_FIXED))

/-- What the loop over the outputs accumulates. -/
structure Outputs (F G : Type) where
  info : Option (CLelantusTxInfo F G)
  Cout : List G := []
  Vout : UInt64 := 0

/-- One pass through the loop over `tx.vout`. -/
def checkOutput (acc : Outputs F G) (txout : CTxOut) : Except Stop (Outputs F G) :=
  if CScript.isLelantusJMint txout.scriptPubKey then do
    let (info, pubCoin) ←
      checkLelantusJMintTransaction env s hashTx fStatefulSigmaCheck acc.info txout
    return { acc with info, Cout := acc.Cout ++ [pubCoin] }
  else if CScript.isLelantusMint txout.scriptPubKey then
    -- putting regular mints at JoinSplit transactions is not allowed
    .error (.rejected none)
  else .ok { acc with Vout := acc.Vout + UInt64.ofInt txout.nValue }

/-- An exact copy of the transaction was seen in this block before. -/
def seenBefore (infos : TxInfos F G) (hashTx : Uint256) : Bool :=
  (infos.sigma.any fun info => decide (hashTx ∈ info.zcTransactions)) ||
    infos.lelantus.any fun info => decide (hashTx ∈ info.zcTransactions)

/-- The loop that checks the serials against the collectors. -/
def checkSerials (sigmaState : Sigma.CSigmaState F G) (s : CLelantusState F G)
    (infos : TxInfos F G) (nHeight : Nat) : List F → Except Stop Unit
  | [] => .ok ()
  | serial :: serials =>
    match Sigma.checkSigmaSpendSerial sigmaState infos.sigma serial nHeight false with
    | .rejected r => .error (.rejected r)
    | .accepted =>
      match checkLelantusSpendSerial s infos.lelantus serial nHeight false with
      | .rejected r => .error (.rejected r)
      | .accepted => checkSerials sigmaState s infos nHeight serials

/-- `lelantusTxInfo->spentSerials.insert({serial, id})`. -/
def fileLelantus (infos : TxInfos F G) (spend : F × UInt32) : TxInfos F G :=
  { infos with
    lelantus := infos.lelantus.map fun info => { info with
      spentSerials := insertSerial info.spentSerials (spend.1, groupIdInt spend.2) } }

/-- `sigmaTxInfo->spentSerials.insert({serial, {denomination, coinGroupId}})`. -/
def fileSigma (infos : TxInfos F G) (denomination : Sigma.CoinDenomination)
    (spend : F × UInt32) : TxInfos F G :=
  { infos with
    sigma := infos.sigma.map fun info => { info with
      spentSerials := insertSerial info.spentSerials
        (spend.1, ⟨denomination, packedGroupId spend.2⟩) } }

/-- A spend of a Sigma-to-Lelantus joinsplit goes to one of the two collectors. -/
def fileSigmaToLelantus (infos : TxInfos F G) (spend : F × UInt32) : TxInfos F G :=
  match Sigma.integerToDenomination (packedDenomination spend.2) with
  | some denomination => fileSigma infos denomination spend
  | none =>
    if lelantusOpen infos.lelantus then fileLelantus infos spend
    else fileSigma infos env.unsetDenomination spend

/-- `add spend information to the index`. -/
def recordSpends (joinsplit : JoinSplit F G) (infos : TxInfos F G) : TxInfos F G :=
  let spends := joinsplit.serialNumbers.zip joinsplit.groupIds
  if joinsplit.isSigmaToLelantus then
    if sigmaOpen infos.sigma then spends.foldl (fileSigmaToLelantus env) infos else infos
  else if lelantusOpen infos.lelantus then spends.foldl fileLelantus infos
  else infos

/-- `zcTransactions.insert(hashTx)`. -/
def recordTransaction (infos : TxInfos F G) : TxInfos F G :=
  { infos with
    lelantus := writeOpen (fun info => { info with
      zcTransactions := insert hashTx info.zcTransactions }) infos.lelantus }

/-- `state.DoS(100, error(text))`. -/
def loggedReject (text : String) : Stop := .rejected (some { level := 100, logged := text })

variable (sigmaState : Sigma.CSigmaState F G)

/-- The serials are compared with the collectors, unless an exact copy of the
transaction was seen in this block before. -/
def checkDuplicates (s : CLelantusState F G) (infos : TxInfos F G) (hashTx : Uint256)
    (nHeight : Nat) (serials : List F) : Except Stop Unit :=
  if seenBefore infos hashTx then .ok () else checkSerials sigmaState s infos nHeight serials

/-- What follows a verified proof: the serials are checked and collected. -/
def collectSpends (s : CLelantusState F G) (hashTx : Uint256) (isVerifyDB : Bool) (nHeight : Nat)
    (isCheckWallet : Bool) (joinsplit : JoinSplit F G) (infos : TxInfos F G) :
    Except Stop (TxInfos F G) := do
  checkDuplicates sigmaState s infos hashTx nHeight joinsplit.serialNumbers
  if ¬ joinsplit.serialNumbers.Nodup then
    .error (loggedReject ("CheckLelantusJoinSplitTransaction: two or more spends with same serial " ++
      "in the same transaction"))
  else if isVerifyDB || isCheckWallet then return infos
  else if joinsplit.serialNumbers.length ≠ joinsplit.groupIds.length then
    .error (loggedReject ("CheckLelantusJoinSplitTransaction: sized of serials and group ids " ++
      "don't match."))
  else return recordTransaction hashTx (recordSpends env joinsplit infos)

/-- `CheckLelantusJoinSplitTransaction` while `chain` is the active chain. -/
def checkLelantusJoinSplitTransaction [AddCommGroup G] (params : ConsensusParams G)
    (env : TxExternals F G) (sigmaState : Sigma.CSigmaState F G) (s : CLelantusState F G)
    (chain : CChain F G) (tx : CTransaction) (hashTx : Uint256) (isVerifyDB : Bool)
    (nHeight : Nat) (isCheckWallet fStatefulSigmaCheck : Bool) (infos : TxInfos F G) :
    Except Stop (TxInfos F G) := do
  let joinsplit ← joinSplitInput env.toExternals tx
  if badVersion params isVerifyDB nHeight joinsplit.version then
    .error (.rejected (some
      { level := 100, code := NSEQUENCE_INCORRECT
        reason := "CTransaction::CheckLelantusJoinSplitTransaction() : Error: incorrect joinsplit " ++
          "transaction verion" }))
  else if ¬ fStatefulSigmaCheck then return infos
  else
    let outputs ← tx.vout.foldlM (checkOutput env s hashTx fStatefulSigmaCheck)
      { info := infos.lelantus }
    let sets ← rebuildAnonymitySets params env.toExternals sigmaState s chain
      joinsplit.isSigmaToLelantus nHeight joinsplit.coinGroupIdAndBlockHash
    let useBatching := env.fCollectProofs && !isVerifyDB && !isCheckWallet &&
      lelantusOpen outputs.info
    if env.verifyJoinSplit joinsplit sets.sets sets.hashes outputs.Cout outputs.Vout
        (env.metadataHash tx) useBatching then
      collectSpends env sigmaState s hashTx isVerifyDB nHeight isCheckWallet joinsplit
        { infos with lelantus := outputs.info }
    else .error (.rejected none)

/-! ## §4. Transactions and blocks. -/

/-- `state.DoS(100, false, REJECT_INVALID, reason)`. -/
def invalidTx (reason : String) : Stop :=
  .rejected (some { level := 100, code := REJECT_INVALID, reason })

/-- The joinsplit is parsed for its fee, which is not used any further. -/
def readFee (env : Externals F G) (tx : CTransaction) : Except Stop Unit :=
  match tx.vin with
  | txin :: _ =>
    if tx.isLelantusJoinSplit then do
      let _ ← joinSplitParsed env
        { level := 0, code := REJECT_INVALID, reason := "unable to parse joinsplit" } txin
      return ()
    else .ok ()
  | [] => .ok ()

/-- One pass through the loop that checks the mints of a transaction. -/
def checkMint (txout : CTxOut) : Except Stop (Option (CLelantusTxInfo F G)) :=
  if CScript.isLelantusMint txout.scriptPubKey then
    checkLelantusMintTransaction params env s chain hashTx fStatefulSigmaCheck info txout
  else .ok info

/-- The mints of a transaction, checked from `nLelantusStartBlock` on. -/
def checkMints (tx : CTransaction) (hashTx : Uint256) (fStatefulSigmaCheck active : Bool)
    (info : Option (CLelantusTxInfo F G)) : Except Stop (Option (CLelantusTxInfo F G)) :=
  if active then tx.vout.foldlM (checkMint params env s chain hashTx fStatefulSigmaCheck) info
  else .ok info

/-- The limits of a joinsplit transaction. -/
def checkLimits (env : Externals F G) (tx : CTransaction) : Except Stop Unit := do
  let spendInputs ← (getSpendInputs env tx).mapError fun e => Stop.aborted (.threw e)
  if spendInputs > params.nMaxLelantusInputPerTransaction then
    .error (invalidTx "bad-txns-spend-invalid")
  else if getSpendTransparentAmount tx > params.nMaxValueLelantusSpendPerTransaction then
    .error (invalidTx "bad-txns-spend-invalid")
  else .ok ()

/-- `allowLelantus`; `INT_MAX` stands for the height of the active chain. -/
def allowLelantus (nHeight : Nat) : Bool :=
  decide ((if nHeight = INT_MAX then height chain else (nHeight : Int))
    ≥ params.nLelantusStartBlock)

/-- `CheckLelantusTransaction` while `chain` is the active chain. -/
def checkLelantusTransaction [AddCommGroup G] (params : ConsensusParams G) (env : TxExternals F G)
    (sigmaState : Sigma.CSigmaState F G) (s : CLelantusState F G)
    (chain : CChain F G) (tx : CTransaction) (hashTx : Uint256) (isVerifyDB : Bool)
    (nHeight : Nat) (isCheckWallet fStatefulSigmaCheck : Bool) (infos : TxInfos F G) :
    Except Stop (TxInfos F G) := do
  readFee env.toExternals tx
  if !isVerifyDB && !isCheckWallet && allowLelantus params chain nHeight &&
      s.containers.surgeCondition then
    .error (invalidTx "Lelantus surge protection is ON.")
  else
    let info ← checkMints params env s chain tx hashTx fStatefulSigmaCheck
      (allowLelantus params chain nHeight && !isVerifyDB) infos.lelantus
    let infos := { infos with lelantus := info }
    if tx.isLelantusJoinSplit then
      checkLimits params env.toExternals tx
      if isVerifyDB then return infos
      else
        checkLelantusJoinSplitTransaction params env sigmaState s chain tx hashTx isVerifyDB
          nHeight isCheckWallet fStatefulSigmaCheck infos
    else return infos

/-- The checks of `ConnectBlock` for a block on top of `chain`: every transaction, in
order, with the two fresh collectors of the block. -/
def checkBlockTransactions [AddCommGroup G] (params : ConsensusParams G) (env : TxExternals F G)
    (sigmaState : Sigma.CSigmaState F G) (s : CLelantusState F G)
    (chain : CChain F G) (vtx : List CTransaction) : Except Stop (TxInfos F G) :=
  vtx.foldlM (fun infos tx => checkLelantusTransaction params env sigmaState s chain tx tx.hash false
    chain.length false true infos) ⟨some {}, some {}⟩

/-- The bytes of `n`, least significant first. -/
def littleEndian (size : Nat) (n : Nat) : List UInt8 :=
  (List.range size).map fun i => UInt8.ofNat (n / 256 ^ i)

/-- `ds << mint`. -/
def serializeMint (env : Externals F G) (mint : G × UInt64 × Uint256) : List UInt8 :=
  env.serialize mint.1 ++ littleEndian 8 mint.2.1.toNat ++ littleEndian 32 mint.2.2.toNat

/-- `CLelantusTxInfo::Complete`. -/
def complete (env : Externals F G) (info : CLelantusTxInfo F G) :
    CLelantusTxInfo F G :=
  { info with
    mints := info.mints.mergeSort fun m₁ m₂ => serializeMint env m₁ ≤ serializeMint env m₂
    fInfoIsComplete := true }

end Zcoin.Lelantus
