/-
  Zcoin.Evo.BuildList — the masternode list after a block
  (`CDeterministicMNManager::BuildNewListFromBlock`, `HandleQuorumCommitment` and
  `DecreasePoSePenalties`, `evo/deterministicmns.cpp`).

  The list of the previous block is confirmed and relieved of penalties, then the
  special transactions are applied, the masternodes whose collateral is spent are
  removed, and the payee of the previous list is marked as paid.
-/
import Zcoin.Evo.Masternode

namespace Zcoin.Evo

open Std
open Chain Lib

/-! ## §1. Payloads. -/

/-- The fields of `CProRegTx` the list is built from. -/
structure CProRegTx where
  collateralOutpoint : COutPoint
  addr : CService
  keyIDOwner : CKeyID
  pubKeyOperator : CBLSPublicKey
  keyIDVoting : CKeyID
  nOperatorReward : UInt16
  scriptPayout : CScript
  deriving DecidableEq, Repr

/-- The fields of `CProUpServTx` the list is built from. -/
structure CProUpServTx where
  proTxHash : Uint256
  addr : CService
  scriptOperatorPayout : CScript
  deriving DecidableEq, Repr

/-- The fields of `CProUpRegTx` the list is built from. -/
structure CProUpRegTx where
  proTxHash : Uint256
  pubKeyOperator : CBLSPublicKey
  keyIDVoting : CKeyID
  scriptPayout : CScript
  deriving DecidableEq, Repr

/-- The fields of `CProUpRevTx` the list is built from. -/
structure CProUpRevTx where
  proTxHash : Uint256
  nReason : UInt16
  deriving DecidableEq, Repr

/-- The fields of a `CFinalCommitmentTxPayload` the list is built from. -/
structure CFinalCommitmentTxPayload where
  nHeight : Nat
  llmqType : Nat
  quorumHash : Uint256
  isNull : Bool
  validMembers : List Bool
  deriving DecidableEq, Repr

/-- Hashes, `GetTxPayload` for each kind of payload, and the one consensus parameter. -/
structure EvoExternals (η : Type) where
  serializeHash : UniqueProperty → η
  sha256 : Uint256 → Uint256 → Uint256
  proRegTx : CTransaction → Option CProRegTx
  proUpServTx : CTransaction → Option CProUpServTx
  proUpRegTx : CTransaction → Option CProUpRegTx
  proUpRevTx : CTransaction → Option CProUpRevTx
  finalCommitment : CTransaction → Option CFinalCommitmentTxPayload
  nEvoZnodeMinimumConfirmations : Int

/-- What the chain below a block provides: its tip, `GetUTXOCoin` and the members of the
quorum of a commitment (`none` when its quorum block is not found there). -/
structure BlockContext where
  pindexPrevHeight : Nat
  pindexPrevHash : Uint256
  getUTXOCoin : COutPoint → Option CAmount
  quorumMembers : CFinalCommitmentTxPayload → Option (List Uint256)

/-- `nHeight = pindexPrev->nHeight + 1`. -/
def BlockContext.nHeight (ctx : BlockContext) : Int := ctx.pindexPrevHeight + 1

/-! ## §2. Rejections. -/

def REJECT_DUPLICATE : Nat := 0x12

def rejectProTx (code : Nat) (reason : String) : Stop :=
  .rejected (some { level := 100, code, reason })

/-- A list operation inside the validation of a block. -/
def orAbort {α : Type} : Except Abort α → Except Stop α
  | .ok a => .ok a
  | .error e => .error (.aborted e)

/-- The pointer `GetUniquePropertyMN` returns, dereferenced. -/
def deref {α : Type} : Option α → Except Stop α
  | some a => .ok a
  | none => .error (.aborted .nullPointer)

variable {η : Type} [DecidableEq η] (env : EvoExternals η) (ctx : BlockContext)

open CDeterministicMNList

/-! ## §3. What every block does. -/

variable (newList : CDeterministicMNList η)

/-- The callback that confirms masternodes of the old list in the new one. -/
def confirmMN (dmn : CDeterministicMN) : Except Abort (CDeterministicMNList η) :=
  if dmn.pdmnState.confirmedHash ≠ 0 then .ok newList
  else if (ctx.pindexPrevHeight : Int) - dmn.pdmnState.nRegisteredHeight ≥
      env.nEvoZnodeMinimumConfirmations then
    newList.updateMNByHash env.serializeHash dmn.proTxHash
      (dmn.pdmnState.updateConfirmedHash env.sha256 dmn.proTxHash ctx.pindexPrevHash)
  else .ok newList

/-- `DecreasePoSePenalties`. -/
def decreasePoSePenalties (mnList : CDeterministicMNList η) :
    Except Abort (CDeterministicMNList η) :=
  let toDecrease := (mnList.forEachMN true).filter fun dmn =>
    dmn.pdmnState.nPoSePenalty > 0 && dmn.pdmnState.nPoSeBanHeight = -1
  (toDecrease.map (·.proTxHash)).foldlM (poSeDecrease env.serializeHash) mnList

/-! ## §4. The special transactions. -/

/-- The collateral of a `ProRegTx`: an external one, or an output of its own. -/
def collateralOf (tx : CTransaction) (proTx : CProRegTx) : COutPoint :=
  if proTx.collateralOutpoint.hash = 0 then ⟨tx.hash, proTx.collateralOutpoint.n⟩
  else proTx.collateralOutpoint

/-- A masternode with the same collateral is removed, unless it is of this block. -/
def removeReplaced (collateralOutpoint : COutPoint) : Except Stop (CDeterministicMNList η) :=
  match newList.getMNByCollateral env.serializeHash collateralOutpoint with
  | none => .ok newList
  | some replacedDmn =>
    if replacedDmn.pdmnState.nRegisteredHeight = ctx.nHeight then
      .error (rejectProTx REJECT_CONFLICT "protx-dup")
    else orAbort (newList.removeMN env.serializeHash replacedDmn.proTxHash)

/-- The state a masternode starts with. -/
def registeredState (proTx : CProRegTx) : CDeterministicMNState :=
  { keyIDOwner := proTx.keyIDOwner
    pubKeyOperator := proTx.pubKeyOperator
    keyIDVoting := proTx.keyIDVoting
    addr := proTx.addr
    scriptPayout := proTx.scriptPayout
    nRegisteredHeight := ctx.nHeight
    -- without an address it waits for a ProUpServTx
    nPoSeBanHeight := if proTx.addr = 0 then ctx.nHeight else -1 }

/-- The masternode a `ProRegTx` adds. -/
def registeredMN (internalId : Nat) (tx : CTransaction) (proTx : CProRegTx) : CDeterministicMN :=
  { proTxHash := tx.hash
    internalId
    collateralOutpoint := collateralOf tx proTx
    nOperatorReward := proTx.nOperatorReward
    pdmnState := registeredState ctx proTx }

/-- The duplicate checks, then `AddMN`. -/
def addRegistered (proTx : CProRegTx) (dmn : CDeterministicMN) :
    Except Stop (CDeterministicMNList η) :=
  if newList.hasUniqueProperty env.serializeHash (.service proTx.addr) then
    .error (rejectProTx REJECT_CONFLICT "bad-protx-dup-addr")
  else if newList.hasUniqueProperty env.serializeHash (.keyID proTx.keyIDOwner) ||
      newList.hasUniqueProperty env.serializeHash (.operatorKey proTx.pubKeyOperator) then
    .error (rejectProTx REJECT_CONFLICT "bad-protx-dup-key")
  else orAbort (newList.addMN env.serializeHash dmn)

/-- `TRANSACTION_PROVIDER_REGISTER`. -/
def registerTx (tx : CTransaction) : Except Stop (CDeterministicMNList η) := do
  let proTx ← orAbort (assertSome (env.proRegTx tx))
  let dmn := registeredMN ctx newList.nTotalRegisteredCount tx proTx
  let counted := { newList with nTotalRegisteredCount := newList.nTotalRegisteredCount + 1 }
  if proTx.collateralOutpoint.hash ≠ 0 ∧
      ctx.getUTXOCoin dmn.collateralOutpoint ≠ some (1000 * COIN) then
    .error (rejectProTx REJECT_INVALID "bad-protx-collateral")
  else do
    let remaining ← removeReplaced env ctx counted dmn.collateralOutpoint
    addRegistered env remaining proTx dmn

/-- A property somebody else has is rejected. -/
def rejectForeign (v : UniqueProperty) (proTxHash : Uint256) (stop : Stop) : Except Stop Unit :=
  if newList.hasUniqueProperty env.serializeHash v then do
    let other ← deref (newList.getUniquePropertyMN env.serializeHash v)
    if other.proTxHash ≠ proTxHash then .error stop else .ok ()
  else .ok ()

/-- The masternode an update refers to. -/
def referredMN (proTxHash : Uint256) : Except Stop CDeterministicMN :=
  match newList.getMN proTxHash with
  | none => .error (rejectProTx REJECT_INVALID "bad-protx-hash")
  | some dmn => .ok dmn

variable (s : CDeterministicMNState)

/-- The state after a `ProUpServTx`. -/
def servedState (proTx : CProUpServTx) : CDeterministicMNState :=
  let newState := { s with addr := proTx.addr, scriptOperatorPayout := proTx.scriptOperatorPayout }
  if newState.nPoSeBanHeight ≠ -1 then
    -- only revived when all keys are set
    if CBLSPublicKey.isValid newState.pubKeyOperator ∧ newState.keyIDVoting ≠ 0 ∧
        newState.keyIDOwner ≠ 0 then
      { newState with
        nPoSePenalty := 0
        nPoSeBanHeight := -1
        nPoSeRevivedHeight := ctx.nHeight }
    else newState
  else newState

/-- `TRANSACTION_PROVIDER_UPDATE_SERVICE`. -/
def updateServiceTx (tx : CTransaction) : Except Stop (CDeterministicMNList η) := do
  let proTx ← orAbort (assertSome (env.proUpServTx tx))
  rejectForeign env newList (.service proTx.addr) proTx.proTxHash
    (rejectProTx REJECT_CONFLICT "bad-protx-dup-addr")
  let dmn ← referredMN newList proTx.proTxHash
  orAbort (newList.updateMNByHash env.serializeHash proTx.proTxHash
    (servedState ctx dmn.pdmnState proTx))

/-- The state after a `ProUpRegTx`: a new operator key resets what the operator had set. -/
def reregisteredState (proTx : CProUpRegTx) : CDeterministicMNState :=
  let newState :=
    if s.pubKeyOperator ≠ proTx.pubKeyOperator then
      s.resetOperatorFields.banIfNotBanned ctx.nHeight
    else s
  { newState with
    pubKeyOperator := proTx.pubKeyOperator
    keyIDVoting := proTx.keyIDVoting
    scriptPayout := proTx.scriptPayout }

/-- `TRANSACTION_PROVIDER_UPDATE_REGISTRAR`. -/
def updateRegistrarTx (tx : CTransaction) : Except Stop (CDeterministicMNList η) := do
  let proTx ← orAbort (assertSome (env.proUpRegTx tx))
  let dmn ← referredMN newList proTx.proTxHash
  rejectForeign env newList (.operatorKey proTx.pubKeyOperator) proTx.proTxHash
    (rejectProTx REJECT_DUPLICATE "bad-protx-dup-key")
  orAbort (newList.updateMNByHash env.serializeHash proTx.proTxHash
    (reregisteredState ctx dmn.pdmnState proTx))

/-- The state after a `ProUpRevTx`. -/
def revokedState (proTx : CProUpRevTx) : CDeterministicMNState :=
  { s.resetOperatorFields.banIfNotBanned ctx.nHeight with nRevocationReason := proTx.nReason }

/-- `TRANSACTION_PROVIDER_UPDATE_REVOKE`. -/
def updateRevokeTx (tx : CTransaction) : Except Stop (CDeterministicMNList η) := do
  let proTx ← orAbort (assertSome (env.proUpRevTx tx))
  let dmn ← referredMN newList proTx.proTxHash
  orAbort (newList.updateMNByHash env.serializeHash proTx.proTxHash
    (revokedState ctx dmn.pdmnState proTx))

/-- One member of a quorum; `valid` is its flag in `validMembers`. -/
def punishMember (mnList : CDeterministicMNList η) (member : Uint256 × Option Bool) :
    Except Abort (CDeterministicMNList η) :=
  if !mnList.hasMN member.1 then .ok mnList
  else
    match member.2 with
    | none => .error .outOfRange
    | some true => .ok mnList
    | some false => do
      let penalty ← mnList.calcPenalty 66
      mnList.poSePunish env.serializeHash member.1 penalty

/-- `HandleQuorumCommitment`. -/
def handleQuorumCommitment (qc : CFinalCommitmentTxPayload) (members : List Uint256)
    (mnList : CDeterministicMNList η) : Except Abort (CDeterministicMNList η) :=
  (members.zipIdx.map fun m => (m.1, qc.validMembers[m.2]?)).foldlM (punishMember env) mnList

/-- `TRANSACTION_QUORUM_COMMITMENT`. -/
def commitmentTx (tx : CTransaction) : Except Stop (CDeterministicMNList η) := do
  let qc ← orAbort (assertSome (env.finalCommitment tx))
  if qc.isNull then return newList
  else
    match ctx.quorumMembers qc with
    | none => .error (rejectProTx REJECT_INVALID "bad-qc-quorum-hash")
    | some members => orAbort (handleQuorumCommitment env qc members newList)

/-- The body of the first loop over the transactions. -/
def applySpecialTx (tx : CTransaction) : Except Stop (CDeterministicMNList η) :=
  if tx.nVersion ≠ 3 then .ok newList
  else
    match tx.nType with
    | .providerRegister => registerTx env ctx newList tx
    | .providerUpdateService => updateServiceTx env ctx newList tx
    | .providerUpdateRegistrar => updateRegistrarTx env ctx newList tx
    | .providerUpdateRevoke => updateRevokeTx env ctx newList tx
    | .quorumCommitment => commitmentTx env ctx newList tx
    | _ => .ok newList

/-! ## §5. Spent collaterals and the payee. -/

/-- One input of the second loop. -/
def spendCollateral (prevout : COutPoint) : Except Abort (CDeterministicMNList η) :=
  match newList.getMNByCollateral env.serializeHash prevout with
  | none => .ok newList
  | some dmn =>
    if dmn.collateralOutpoint = prevout then newList.removeMN env.serializeHash dmn.proTxHash
    else .ok newList

/-- The payee of the old list, if it is still listed. -/
def payMN (payee : Option CDeterministicMN) (newList : CDeterministicMNList η) :
    Except Abort (CDeterministicMNList η) :=
  match payee with
  | none => .ok newList
  | some payee =>
    match newList.getMN payee.proTxHash with
    | none => .ok newList
    | some dmn =>
      newList.updateMNByHash env.serializeHash payee.proTxHash
        { dmn.pdmnState with nLastPaidHeight := ctx.nHeight }

/-- `BuildNewListFromBlock` from the list of the previous block. -/
def buildNewListFromBlock (oldList : CDeterministicMNList η) (vtx : List CTransaction) :
    Except Stop (CDeterministicMNList η) := do
  let start := { oldList with blockHash := 0, nHeight := ctx.nHeight }
  let confirmed ← orAbort ((oldList.forEachMN false).foldlM (confirmMN env ctx) start)
  let relieved ← orAbort (decreasePoSePenalties env confirmed)
  let updated ← vtx.tail.foldlM (applySpecialTx env ctx) relieved
  let prevouts := vtx.tail.flatMap fun tx => tx.vin.map (·.prevout)
  let remaining ← orAbort (prevouts.foldlM (spendCollateral env) updated)
  orAbort (payMN env ctx oldList.getMNPayee remaining)

end Zcoin.Evo
