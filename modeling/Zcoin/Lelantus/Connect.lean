/-
  Zcoin.Lelantus.Connect — connecting a block to the Lelantus state
  (`CheckLelantusBlock`, `CheckLelantusSpendSerial`, `GetAnonymitySetHash`,
  `GetAnonymitySet`, `ConnectBlockLelantus` of `lelantus.cpp`).

  `connectBlockLelantus` returns its verdict TOGETHER WITH the state and the
  block index it leaves behind, because the source mutates both while it is
  still checking serials: a `false` does not mean that nothing was written.
-/
import Zcoin.Lelantus.State
import Zcoin.Chain.Transaction
import Zcoin.LibLelantus.Proof

namespace Zcoin.Lelantus

open Chain LibLelantus Std

variable {F G : Type} [DecidableEq F] [DecidableEq G]

/-! ## §1. What stays abstract. -/

/-- Serialisation, hashing and proof checking, as the validation code sees
them. -/
structure Externals (F G : Type) where
  /-- `GroupElement::serialize` (34 bytes) -/
  serialize : G → List UInt8
  /-- `GroupElement::deserialize` -/
  deserialize : List UInt8 → G
  /-- `CHash256` from `Write`s to `Finalize` -/
  hash256 : List UInt8 → List UInt8
  /-- `stream >> schnorrProof` -/
  readSchnorrProof : List UInt8 → Except Exn (SchnorrProof F G × List UInt8)
  /-- `stream >> mintTag` -/
  readUint256 : List UInt8 → Except Exn Uint256
  /-- `JoinSplit(params, stream)` -/
  readJoinSplit : List UInt8 → Except Exn (JoinSplit F G)
  /-- `lelantus::Params::get_default()->get_h1()` -/
  h1 : G

/-! ## §2. Spends of a transaction. -/

variable (env : Externals F G)

/-- `ParseLelantusJoinSplit`. -/
def parseLelantusJoinSplit (txin : CTxIn) : Except Exn (JoinSplit F G) :=
  if txin.scriptSig.length < 1 then .error .badTxIn
  else env.readJoinSplit txin.scriptSig.tail

/-- `GetLelantusJoinSplitSerialNumbers`: an `ios_base::failure` reads as "no
serials", any other exception goes up. -/
def getLelantusJoinSplitSerialNumbers (tx : CTransaction) (txin : CTxIn) : Except Exn (List F) :=
  if ¬ tx.isLelantusJoinSplit then .ok []
  else match parseLelantusJoinSplit env txin with
    | .ok joinsplit => .ok joinsplit.serialNumbers
    | .error .iosFailure => .ok []
    | .error e => .error e

/-- `GetSpendInputs(tx, in)` summed over the inputs (`GetSpendInputs(tx)`). -/
def getSpendInputs (tx : CTransaction) : Except Exn Nat :=
  tx.vin.foldlM (fun sum txin =>
    if txin.isLelantusJoinSplit then do
      let serials ← getLelantusJoinSplitSerialNumbers env tx txin
      return sum + serials.length
    else return sum) 0

/-- `GetSpendTransparentAmount`. -/
def getSpendTransparentAmount (tx : CTransaction) : CAmount :=
  if ¬ tx.isLelantusJoinSplit then 0
  else tx.vout.foldl (fun result txout => result + txout.nValue) 0

/-! ## §3. Block-level checks. -/

/-- The rejection every limit of `CheckLelantusBlock` shares. -/
def badLelantusSpend : Rejection :=
  { level := 100, code := REJECT_INVALID, reason := "bad-txns-lelantus-spend-invalid" }

/-- The loop of `CheckLelantusBlock` with its two accumulators, and the two
block limits after it. -/
def checkLelantusBlockLoop (params : ConsensusParams G) (env : Externals F G) :
    List CTransaction → Nat → CAmount → Except Exn Verdict
  | [], blockSpendsAmount, blockSpendsValue =>
    if blockSpendsAmount > params.nMaxLelantusInputPerBlock then
      .ok (.dos badLelantusSpend)
    else if blockSpendsValue > params.nMaxValueLelantusSpendPerBlock then
      .ok (.dos badLelantusSpend)
    else .ok .accepted
  | tx :: vtx, blockSpendsAmount, blockSpendsValue => do
    let txSpendsValue := getSpendTransparentAmount tx
    let txSpendNumber ← getSpendInputs env tx
    if txSpendNumber > params.nMaxLelantusInputPerTransaction then
      return .dos badLelantusSpend
    else if txSpendsValue > params.nMaxValueLelantusSpendPerTransaction then
      return .dos badLelantusSpend
    else
      checkLelantusBlockLoop params env vtx (blockSpendsAmount + txSpendNumber)
        (blockSpendsValue + txSpendsValue)

variable (params : ConsensusParams G) (env : Externals F G)

/-- `CheckLelantusBlock`. -/
def checkLelantusBlock (vtx : List CTransaction) : Except Exn Verdict :=
  checkLelantusBlockLoop params env vtx 0 0

variable (s : CLelantusState F G)

/-- `CheckLelantusSpendSerial`.  The collector is consulted only while it is
still being filled, the state only in the mempool or when connecting. -/
def checkLelantusSpendSerial (lelantusTxInfo : Option (CLelantusTxInfo F G)) (serial : F)
    (nHeight : Nat) (fConnectTip : Bool) : Verdict :=
  if lelantusTxInfo.any (fun info =>
      !info.fInfoIsComplete && decide (serial ∈ info.spentSerials.map Prod.fst)) then
    .dos { level := 0, logged := "CTransaction::CheckTransaction() : two or more joinsplits " ++
      "with same serial in the same block" }
  else if s.isUsedCoinSerial serial && (decide (nHeight = INT_MAX) || fConnectTip) then
    .dos { level := 0, logged := "CTransaction::CheckTransaction() : The lelantus JoinSplit " ++
      "serial has been used" }
  else .accepted

/-! ## §4. Anonymity sets and their hashes. -/

/-- The `while` of `GetAnonymitySetHash`; the list starts at `index`.  The
group's first block itself is never looked at. -/
def anonymitySetHashLoop (groupId : Int) (firstBlock : Option Nat) :
    CChain F G → Except Abort (List UInt8)
  | [] => if firstBlock.isNone then .ok [] else .error .nullPointer
  | index :: rest =>
    if some rest.length = firstBlock then .ok []
    else match index.anonymitySetHash[groupId]? with
      | some hash => .ok hash
      | none => anonymitySetHashLoop groupId firstBlock rest

variable (chain : CChain F G)

/-- `GetAnonymitySetHash` from the block at the head of `chain`. -/
def getAnonymitySetHash (groupId : Int) (generation : Bool) : Except Abort (List UInt8) :=
  match s.getCoinGroupInfo groupId with
  | none => .ok []
  | some coinGroup =>
    if (coinGroup.firstBlock = coinGroup.lastBlock ∧ generation) ∨ coinGroup.nCoins = 0 then .ok []
    else anonymitySetHashLoop groupId coinGroup.firstBlock chain

/-- The group whose coins `GetCoinSetForSpend` and `GetAnonymitySet` take from a
block: the group itself, else its predecessor, else none (`0`). -/
def spendGroupInBlock (coinGroupID : Int) (block : CBlockIndex F G) : Int :=
  if countCoinInBlock block coinGroupID ≠ 0 then coinGroupID
  else if countCoinInBlock block (coinGroupID - 1) ≠ 0 then coinGroupID - 1
  else 0

/-- The coins of one group in one block, without the skipped ones. -/
def coinsInBlock (block : CBlockIndex F G) (id : Int) (skip : G → Bool) : List G :=
  match block.lelantusMintedPubCoins[id]? with
  | some coins => (coins.map Prod.fst).filter (fun coin => !skip coin)
  | none => []

/-- The loop of `GetAnonymitySet`; the list starts at the group's last block. -/
def anonymitySetLoop (coinGroupID maxHeight : Int) (firstBlock : Option Nat) (skip : G → Bool) :
    CChain F G → List G → Except Abort (List G)
  | [], _ => .error .nullPointer
  | block :: rest, coins =>
    if (rest.length : Int) > maxHeight then
      anonymitySetLoop coinGroupID maxHeight firstBlock skip rest coins
    else
      let id := spendGroupInBlock coinGroupID block
      let coins := if id ≠ 0 then coins ++ coinsInBlock block id skip else coins
      if some rest.length = firstBlock then .ok coins
      else anonymitySetLoop coinGroupID maxHeight firstBlock skip rest coins

/-- `firo_params.h`: confirmations a mint needs before it is spent. -/
def ZC_MINT_CONFIRMATIONS : Int := 2

/-- `CLelantusState::GetAnonymitySet` while `chain` is the active chain. -/
def getAnonymitySet (coinGroupID : Int) (fStartLelantusBlacklist : Bool) : Except Abort (List G) :=
  match s.coinGroups[coinGroupID]? with
  | none => .ok []
  | some coinGroup =>
    let maxHeight : Int :=
      if fStartLelantusBlacklist then height chain - (ZC_MINT_CONFIRMATIONS - 1)
      else params.nLelantusFixesStartBlock - 1
    let skip := fun coin => fStartLelantusBlacklist &&
      decide (height chain ≥ params.nLelantusFixesStartBlock) && params.lelantusBlacklist coin
    anonymitySetLoop coinGroupID maxHeight coinGroup.firstBlock skip
      (behind chain coinGroup.lastBlock) []

/-! ## §5. `ConnectBlockLelantus`. -/

/-- What `ConnectBlockLelantus` leaves behind. -/
structure Connected (F G : Type) where
  verdict : Verdict
  state : CLelantusState F G
  index : CBlockIndex F G

/-- The loop over `lelantusTxInfo->spentSerials`: each serial is checked against
the state and then added to it, before the next one is looked at. -/
def connectSpends (info : CLelantusTxInfo F G) (nHeight : Nat) (fJustCheck : Bool) :
    List (F × Int) → CLelantusState F G → CBlockIndex F G → Except Abort (Connected F G)
  | [], s, index => .ok ⟨.accepted, s, index⟩
  | serial :: serials, s, index =>
    match checkLelantusSpendSerial s (some info) serial.1 nHeight true with
    | .rejected r => .ok ⟨.rejected r, s, index⟩
    | .accepted =>
      if fJustCheck then connectSpends info nHeight fJustCheck serials s index
      else do
        let index := { index with
          lelantusSpentSerials := insertSerial index.lelantusSpentSerials serial }
        let s ← s.addSpend serial.1 serial.2
        connectSpends info nHeight fJustCheck serials s index

/-- The bytes written to the hasher at the hard-fork block: the whole of group 1. -/
def hashedAtFork : Except Abort (List UInt8) :=
  if chain.length = params.nLelantusFixesStartBlock then do
    let coins ← getAnonymitySet params s chain 1 false
    return coins.flatMap env.serialize
  else return []

/-- `GetAnonymitySetHash(pprev, latestCoinId, true)`, written to the hasher past
the fork block only. -/
def hashedPrevious : Except Abort (List UInt8) :=
  if chain.length > params.nLelantusFixesStartBlock then do
    let prevHash ← getAnonymitySetHash s chain s.latestCoinId true
    return prevHash.take 32
  else return []

/-- The mints of a block enter its set hash from the fork block on. -/
def hashesMints (mints : List (G × Uint256)) : Bool :=
  !mints.isEmpty && decide (chain.length ≥ params.nLelantusFixesStartBlock)

/-- The bytes written for the block's own mints: the previous set hash, then the
coins the block minted under the latest id. -/
def hashedMints (mints : List (G × Uint256)) (s : CLelantusState F G) (index : CBlockIndex F G) :
    Except Abort (List UInt8) :=
  if hashesMints params chain mints then do
    let prevHash ← hashedPrevious params s chain
    let coins := index.lelantusMintedPubCoins.getD s.latestCoinId []
    return prevHash ++ (coins.map Prod.fst).flatMap env.serialize
  else return []

/-- The mints of a block, if it has any, enter the state and the block index. -/
def enterMints (mints : List (G × Uint256)) (s : CLelantusState F G) (index : CBlockIndex F G) :
    Except Abort (CLelantusState F G × CBlockIndex F G) :=
  if mints.isEmpty then .ok (s, index) else s.addMintsToStateAndBlockIndex chain index mints

/-- `pindexNew->anonymitySetHash[latestCoinId] = hash`. -/
def setAnonymitySetHash (index : CBlockIndex F G) (id : Int) (hash : List UInt8) :
    CBlockIndex F G :=
  { index with anonymitySetHash := index.anonymitySetHash.insert id hash }

/-- The part of `ConnectBlockLelantus` after the serials: mints enter the state
and the block index, and the set hash of the latest group is updated. -/
def connectMints (mints : List (G × Uint256)) (s : CLelantusState F G) (index : CBlockIndex F G) :
    Except Abort (Connected F G) := do
  let forkBytes ← hashedAtFork params env s chain
  let entered ← enterMints chain mints s index
  let mintBytes ← hashedMints params env chain mints entered.1 entered.2
  let updateHash :=
    hashesMints params chain mints || decide (chain.length = params.nLelantusFixesStartBlock)
  return ⟨.accepted, entered.1,
    if updateHash then
      setAnonymitySetHash entered.2 entered.1.latestCoinId (env.hash256 (forkBytes ++ mintBytes))
    else entered.2⟩

/-- `pindexNew` with its Lelantus fields cleared. -/
def clearLelantus (index : CBlockIndex F G) : CBlockIndex F G :=
  { index with lelantusMintedPubCoins := ∅, lelantusSpentSerials := [], anonymitySetHash := ∅ }

/-- `ConnectBlockLelantus` for the block `pblock` with index `index`, whose
`pprev` is the tip of `chain`. -/
def connectBlockLelantus (index : CBlockIndex F G) (pblock : CBlock F G) (fJustCheck : Bool) :
    Except Abort (Connected F G) :=
  match pblock.lelantusTxInfo with
  | some info => do
    let index := if fJustCheck then index else clearLelantus index
    let blockVerdict ← (checkLelantusBlock params env pblock.vtx).mapError .threw
    if blockVerdict ≠ .accepted then
      return ⟨blockVerdict, s, index⟩
    let spent ← connectSpends info chain.length fJustCheck info.spentSerials s index
    if spent.verdict ≠ .accepted ∨ fJustCheck then
      return spent
    let mints := info.mints.map fun mint => (mint.1, mint.2.2)
    connectMints params env chain mints spent.state spent.index
  | none =>
    if fJustCheck then .ok ⟨.accepted, s, index⟩
    else do
      let s ← s.addBlock chain index
      return ⟨.accepted, s, index⟩

end Zcoin.Lelantus
