/-
  Zcoin.Mempool.Pool — the memory pool and its index of privacy spends
  (`txmempool.cpp`, `CLelantusMempoolState` of `lelantus.cpp`, the mempool part of
  `CSigmaState`, `AcceptToMemoryPoolWorker` and
  `RemoveConflictingPrivacyTransactionsFromMempool` of `validation.cpp`).

  A pool entry is a transaction under its txid.  The two halves of `mapLinks`
  (parents and children) are converses of each other and change together; only the
  children are kept.  Fees, sizes, priorities and the provider-transaction indexes
  play no part in what is removed here.
-/
import Zcoin.Lib.Paths
import Zcoin.Lelantus.CheckTransaction

namespace Zcoin.Mempool

open Std
open Chain Lib Lelantus

variable {F G : Type} [DecidableEq F] [DecidableEq G]

/-! ## §1. Serials and mints known to the pool. -/

/-- `CLelantusMempoolState`. -/
structure CLelantusMempoolState (F G : Type) where
  mempoolCoinSerials : F → Option Uint256 := fun _ => none
  mempoolMints : G → Bool := fun _ => false

namespace CLelantusMempoolState

variable (s : CLelantusMempoolState F G) (coinSerial : F)

def hasCoinSerial : Bool :=
  (s.mempoolCoinSerials coinSerial).isSome

def hasMint (pubCoin : G) : Bool := s.mempoolMints pubCoin

/-- `mempoolCoinSerials.insert`: an entry that is there stays. -/
def addSpendToMempool (txHash : Uint256) (s : CLelantusMempoolState F G) (coinSerial : F) :
    CLelantusMempoolState F G :=
  if s.hasCoinSerial coinSerial then s
  else { s with
    mempoolCoinSerials := Function.update s.mempoolCoinSerials coinSerial (some txHash) }

def removeSpendFromMempool : CLelantusMempoolState F G :=
  { s with mempoolCoinSerials := Function.update s.mempoolCoinSerials coinSerial none }

def addMintToMempool (pubCoin : G) : CLelantusMempoolState F G :=
  { s with mempoolMints := Function.update s.mempoolMints pubCoin true }

def removeMintFromMempool (pubCoin : G) : CLelantusMempoolState F G :=
  { s with mempoolMints := Function.update s.mempoolMints pubCoin false }

/-- `GetMempoolConflictingTxHash`: the null hash when the serial is not known. -/
def getMempoolConflictingTxHash : Uint256 :=
  (s.mempoolCoinSerials coinSerial).getD 0

end CLelantusMempoolState

/-! ## §2. Entries and their removal. -/

/-- `CTxMemPool`. -/
structure CTxMemPool (F G : Type) where
  mapTx : ExtTreeMap Uint256 CTransaction := ∅
  /-- the children of an entry -/
  mapLinks : Uint256 → List Uint256 := fun _ => []
  lelantusState : CLelantusMempoolState F G := {}

variable (env : Externals F G)

/-- `GetLelantusJoinSplitSerialNumbers(tx, tx.vin[0])` with its `try`.  A joinsplit
that got into the pool or into a connected block has been parsed by
`CheckLelantusJoinSplitTransaction` before. -/
def joinSplitSerials (tx : CTransaction) : List F :=
  match tx.vin.head? with
  | some txin => ((getLelantusJoinSplitSerialNumbers env tx txin).toOption).getD []
  | none => []

/-- `ParseLelantusMintScript(script, pubcoin)`, which reads both kinds of mint. -/
def parseMintScript (script : CScript) : Option G :=
  if CScript.isLelantusMint script then
    ((parseLelantusMintScript env script).toOption).map (·.1)
  else ((parseLelantusJMintScript env script).toOption).map (·.1)

def isMintOutput (txout : CTxOut) : Bool :=
  CScript.isLelantusMint txout.scriptPubKey || CScript.isLelantusJMint txout.scriptPubKey

/-- The types with a branch of their own in `removeUnchecked`; the branch for
Lelantus transactions is the last `else if` after them. -/
def hasTypedBranch (tx : CTransaction) : Bool :=
  match tx.nType with
  | .providerRegister | .providerUpdateService | .providerUpdateRegistrar
  | .providerUpdateRevoke | .spork => true
  | _ => false

/-- The Lelantus branch of `removeUnchecked`. -/
def forgetSpendsAndMints (tx : CTransaction) (s : CLelantusMempoolState F G) :
    CLelantusMempoolState F G :=
  let s := if tx.isLelantusJoinSplit then
      (joinSplitSerials env tx).foldl CLelantusMempoolState.removeSpendFromMempool s
    else s
  ((tx.vout.filter isMintOutput).filterMap fun txout => parseMintScript env txout.scriptPubKey).foldl
    CLelantusMempoolState.removeMintFromMempool s

variable (pool : CTxMemPool F G)

/-- `removeUnchecked`. -/
def removeUnchecked (it : Uint256) : CTxMemPool F G :=
  match pool.mapTx[it]? with
  | none => pool
  | some tx =>
    { mapTx := pool.mapTx.erase it
      mapLinks := Function.update pool.mapLinks it []
      lelantusState :=
        if hasTypedBranch tx then pool.lelantusState
        else if tx.isLelantusTransaction then forgetSpendsAndMints env tx pool.lelantusState
        else pool.lelantusState }

/-- `RemoveStaged`: `UpdateForRemoveFromMempool` takes the staged entries out of the
children of their parents, then they are removed. -/
def removeStaged (stage : List Uint256) : CTxMemPool F G :=
  stage.foldl (removeUnchecked env)
    { pool with mapLinks := fun it => (pool.mapLinks it).filter (· ∉ stage) }

/-- `CalculateDescendants` from one entry with nothing collected before.  The source
works its stage off in the order of txids, which does not matter for the set it
ends with. -/
def calculateDescendants (entryit : Uint256) : List Uint256 :=
  worklist pool.mapLinks pool.mapTx.size [entryit] []

/-- `removeRecursive` of a transaction that is in the pool. -/
def removeRecursive (hash : Uint256) : CTxMemPool F G :=
  if hash ∈ pool.mapTx then removeStaged env pool (calculateDescendants pool hash) else pool

/-! ## §3. Acceptance. -/

/-- What the acceptance and the clean-up after a block leave to other components. -/
structure PoolExternals (F G : Type) extends Externals F G where
  /-- `sigma::GetSigmaSpendSerialNumber` -/
  getSigmaSpendSerialNumber : CTransaction → CTxIn → F
  /-- `sigma::ParseSigmaMintScript` -/
  parseSigmaMintScript : CScript → Option G
  /-- the `GroupElement` a failed parse leaves -/
  defaultElement : G
  /-- `Scalar::isMember`, and not zero -/
  isSerial : F → Bool

/-- The pool together with the serials and mints `CSigmaState` holds for it. -/
structure PoolState (F G : Type) where
  mempool : CTxMemPool F G := {}
  sigmaSerials : F → Option Uint256 := fun _ => none
  sigmaMints : G → Bool := fun _ => false

/-- Whether a transaction spends coins of a privacy pool: such a transaction has no
parents in the pool. -/
def isPrivacySpend (tx : CTransaction) : Bool := tx.isSigmaSpend || tx.isLelantusJoinSplit

/-- The parents of a transaction that `addUnchecked` finds in the pool. -/
def parentsInPool (tx : CTransaction) : List Uint256 :=
  if isPrivacySpend tx then []
  else (tx.vin.map fun txin => txin.prevout.hash).filter (· ∈ pool.mapTx)

/-- `addUnchecked`, without the eviction a spork transaction causes. -/
def addUnchecked (tx : CTransaction) : CTxMemPool F G :=
  { pool with
    mapTx := pool.mapTx.insertIfNew tx.hash tx
    mapLinks := fun it =>
      if it = tx.hash then []
      else if it ∈ parentsInPool pool tx then tx.hash :: pool.mapLinks it
      else pool.mapLinks it }

/-- The choices acceptance takes from elsewhere: the entries a replacement evicts, those
a spork transaction evicts and those `LimitMempoolSize` trims, each with its
descendants; the verdict of the checks that do not concern serials; and whether the
size limit is overridden. -/
structure AcceptChoices where
  otherChecks : Bool := true
  replaced : List Uint256 := []
  disallowed : List Uint256 := []
  fOverrideMempoolLimit : Bool := false
  trimmed : List Uint256 := []

section Accept

variable (env : PoolExternals F G) (pool : CTxMemPool F G)

def evict (hashes : List Uint256) : CTxMemPool F G :=
  hashes.foldl (removeRecursive env.toExternals) pool

variable (usedLelantus usedSigma : F → Bool)

/-- The serials a joinsplit is about to spend, none of them known; `none` is a
rejection. -/
def freshSerials (st : PoolState F G) (tx : CTransaction) : Option (List F) :=
  if tx.vin.length = 1 then
    match tx.vin.head? with
    | none => none
    | some txin =>
      ((getLelantusJoinSplitSerialNumbers env.toExternals tx txin).toOption).filter fun serials =>
        serials.all fun serial =>
          env.isSerial serial && !(usedLelantus serial) &&
            !(st.mempool.lelantusState.hasCoinSerial serial) &&
            !(usedSigma serial) && (st.sigmaSerials serial).isNone
  else none

/-- The coins of the Lelantus mint outputs; `none` when one does not parse or is
known. -/
def freshMints (hasCoin : G → Bool) (st : PoolState F G) (tx : CTransaction) : Option (List G) :=
  (tx.vout.filter isMintOutput).mapM fun txout =>
    (parseMintScript env.toExternals txout.scriptPubKey).filter fun pubCoin =>
      !(hasCoin pubCoin) && !(st.mempool.lelantusState.hasMint pubCoin)

/-- The pool after the transaction and what had to make room for it. -/
def storeEntry (tx : CTransaction) (choices : AcceptChoices) : CTxMemPool F G :=
  let pool := addUnchecked (evict env pool choices.replaced) tx
  let pool := if tx.nType = .spork then evict env pool choices.disallowed else pool
  if choices.fOverrideMempoolLimit then pool else evict env pool choices.trimmed

/-- The serials and mints of an accepted transaction become known. -/
def markSpendsAndMints (txHash : Uint256) (serials : List F) (mints : List G) : CTxMemPool F G :=
  let spent := serials.foldl (CLelantusMempoolState.addSpendToMempool txHash) pool.lelantusState
  { pool with lelantusState := mints.foldl CLelantusMempoolState.addMintToMempool spent }

/-- `AcceptToMemoryPoolWorker` on the main pool for a transaction that is no Sigma
spend: those are not accepted any more once Lelantus transactions are. -/
def acceptToMemoryPool (hasCoin : G → Bool) (st : PoolState F G) (tx : CTransaction)
    (choices : AcceptChoices) : PoolState F G :=
  if tx.isSigmaSpend then st
  else
    match (if tx.isLelantusJoinSplit then freshSerials env usedLelantus usedSigma st tx
        else some []), freshMints env hasCoin st tx with
    | some serials, some mints =>
      if choices.otherChecks = false ∨ tx.hash ∈ st.mempool.mapTx then st
      else
        let pool := storeEntry env st.mempool tx choices
        if choices.fOverrideMempoolLimit = false ∧ tx.hash ∉ pool.mapTx then
          { st with mempool := pool }
        else
          { st with mempool := markSpendsAndMints pool tx.hash serials mints }
    | _, _ => st

end Accept

/-! ## §4. After a block has been connected. -/

variable (env : PoolExternals F G)

/-- One input of a Sigma spend of the block. -/
def removeConflictingSpend (tx : CTransaction) (st : PoolState F G) (txin : CTxIn) :
    PoolState F G :=
  let zcSpendSerial := env.getSigmaSpendSerialNumber tx txin
  let conflictingTxHash := (st.sigmaSerials zcSpendSerial).getD 0
  { st with
    mempool :=
      if conflictingTxHash ≠ 0 ∧ conflictingTxHash ≠ tx.hash then
        removeRecursive env.toExternals st.mempool conflictingTxHash
      else st.mempool
    sigmaSerials := Function.update st.sigmaSerials zcSpendSerial none }

variable (pool : CTxMemPool F G)

/-- The hash the loop over the serials of a joinsplit stops with: the first one that is
not null. -/
def firstConflict (serials : List F) : Uint256 :=
  ((serials.map pool.lelantusState.getMempoolConflictingTxHash).find? (· ≠ 0)).getD 0

/-- A joinsplit of the block. -/
def removeConflictingJoinSplit (tx : CTransaction) : CTxMemPool F G :=
  let serials := joinSplitSerials env.toExternals tx
  let conflictingTxHash := firstConflict pool serials
  let pool :=
    if conflictingTxHash ≠ 0 ∧ conflictingTxHash ≠ tx.hash then
      removeRecursive env.toExternals pool conflictingTxHash
    else pool
  -- in any case the serials leave the mempool set
  { pool with
    lelantusState :=
      serials.foldl CLelantusMempoolState.removeSpendFromMempool pool.lelantusState }

variable (st : PoolState F G)

/-- One output of a transaction of the block. -/
def removeMinedMint (txout : CTxOut) : PoolState F G :=
  let st :=
    if CScript.isSigmaMint txout.scriptPubKey then
      let pubCoinValue := (env.parseSigmaMintScript txout.scriptPubKey).getD env.defaultElement
      { st with sigmaMints := Function.update st.sigmaMints pubCoinValue false }
    else st
  if isMintOutput txout then
    let lelantusState := st.mempool.lelantusState.removeMintFromMempool
      ((parseMintScript env.toExternals txout.scriptPubKey).getD env.defaultElement)
    { st with mempool := { st.mempool with lelantusState } }
  else st

/-- One transaction of the block. -/
def removeConflictingWith (tx : CTransaction) : PoolState F G :=
  let st :=
    if tx.isSigmaSpend then tx.vin.foldl (removeConflictingSpend env tx) st
    else if tx.isLelantusJoinSplit then
      { st with mempool := removeConflictingJoinSplit env st.mempool tx }
    else st
  tx.vout.foldl (removeMinedMint env) st

/-- `RemoveConflictingPrivacyTransactionsFromMempool`. -/
def removeConflictingPrivacyTransactionsFromMempool (vtx : List CTransaction) : PoolState F G :=
  vtx.foldl (removeConflictingWith env) st

/-- `CTxMemPool::removeForBlock`; `conflicts` are the entries that `removeConflicts` and
`removeProTxConflicts` find for a transaction. -/
def removeForBlock (conflicts : CTransaction → List Uint256) (pool : CTxMemPool F G)
    (vtx : List CTransaction) : CTxMemPool F G :=
  vtx.foldl (fun pool tx =>
    evict env (if tx.hash ∈ pool.mapTx then removeStaged env.toExternals pool [tx.hash] else pool)
      (conflicts tx)) pool

/-- `UpdateTransactionsFromBlock`: entries that come back from a disconnected block get
the children that are in the pool, other than those that came back with them.
`mapNextTx` holds the inputs of the entries that are no privacy spends. -/
def updateTransactionsFromBlock (vHashesToUpdate : List Uint256) : CTxMemPool F G :=
  { pool with
    mapLinks := fun it =>
      if it ∈ vHashesToUpdate ∧ it ∈ pool.mapTx then
        (pool.mapTx.toList.filter fun entry =>
          !(isPrivacySpend entry.2) && entry.1 ∉ vHashesToUpdate &&
            entry.2.vin.any fun txin => txin.prevout.hash = it).map Prod.fst ∪ pool.mapLinks it
      else pool.mapLinks it }

end Zcoin.Mempool
