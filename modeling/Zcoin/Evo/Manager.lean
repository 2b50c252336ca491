/-
  Zcoin.Evo.Manager — where the masternode lists of blocks are kept
  (`CDeterministicMNManager`, `evo/deterministicmns.cpp`).

  On disk each processed block has the difference to its predecessor and sometimes a
  snapshot; lists that were asked for are cached.  A `CBlockIndex*` is the list of the
  block hashes from the block down to the genesis block, so the tail is `pprev` and its
  length the height.
-/
import Zcoin.Evo.BuildList
import Zcoin.Evo.ListDiff

namespace Zcoin.Evo

open Std
open Chain Lib

/-! ## §1. Snapshots in the stream. -/

/-- Header and masternodes of a list. -/
def snapshotCodec : Codec Token (Uint256 × Int × Nat × List CDeterministicMN) :=
  Token.hashCodec.pair (Token.intCodec.pair (Token.sizeCodec.pair
    (Codec.counted Token.sizeCodec masternodeCodec)))

namespace CDeterministicMNList

variable {η : Type} [DecidableEq η] (serializeHash : UniqueProperty → η)

/-- `Serialize`: the masternodes only, the other maps are made of them again. -/
def serialize (list : CDeterministicMNList η) : List Token :=
  snapshotCodec.encode
    (list.blockHash, list.nHeight, list.nTotalRegisteredCount, list.forEachMN false)

/-- `Unserialize`: `AddMN` for each masternode. -/
def unserialize (p : Uint256 × Int × Nat × List CDeterministicMN) :
    Except Abort (CDeterministicMNList η) :=
  p.2.2.2.foldlM (addMN serializeHash)
    { blockHash := p.1, nHeight := p.2.1, nTotalRegisteredCount := p.2.2.1 }

end CDeterministicMNList

/-! ## §2. The manager. -/

/-- `CDeterministicMNManager` with what `evoDb` holds for it. -/
structure CDeterministicMNManager (η : Type) where
  /-- `DB_LIST_DIFF` -/
  listDiffs : Uint256 → Option (List Token) := fun _ => none
  /-- `DB_LIST_SNAPSHOT` -/
  snapshots : Uint256 → Option (List Token) := fun _ => none
  mnListsCache : Uint256 → Option (CDeterministicMNList η) := fun _ => none

def SNAPSHOT_LIST_PERIOD : Nat := 576
def LISTS_CACHE_SIZE : Int := 576

/-- The consensus parameters `ProcessBlock` reads. -/
structure EvoParams where
  DIP0003Height : Nat
  DIP0003EnforcementHeight : Nat
  DIP0003EnforcementHash : Uint256

/-- A block, with what the chain state and the quorums say when it is processed. -/
structure EvoBlock where
  vtx : List CTransaction
  getUTXOCoin : COutPoint → Option CAmount
  quorumMembers : CFinalCommitmentTxPayload → Option (List Uint256)

/-- What is below a block whose predecessor is `pprev`. -/
def EvoBlock.context (block : EvoBlock) (pprev : List Uint256) : BlockContext where
  pindexPrevHeight := pprev.length - 1
  pindexPrevHash := pprev.headD 0
  getUTXOCoin := block.getUTXOCoin
  quorumMembers := block.quorumMembers

namespace CDeterministicMNManager

variable {η : Type} [DecidableEq η] (env : EvoExternals η) (m : CDeterministicMNManager η)

/-- `mnListsCache.emplace`. -/
def emplace (h : Uint256) (list : CDeterministicMNList η) : CDeterministicMNManager η :=
  match m.mnListsCache h with
  | some _ => m
  | none => { m with mnListsCache := Function.update m.mnListsCache h (some list) }

/-- `evoDb.Read` of a difference. -/
def readDiff (h : Uint256) : Option CDeterministicMNListDiff :=
  ((m.listDiffs h).bind CDeterministicMNListDiff.codec.decode).map Prod.fst

/-- `evoDb.Read` of a snapshot. -/
def readSnapshot (h : Uint256) : Except Abort (Option (CDeterministicMNList η)) :=
  match (m.snapshots h).bind snapshotCodec.decode with
  | none => .ok none
  | some p => (CDeterministicMNList.unserialize env.serializeHash p.1).map some

/-- `CDeterministicMNList(pindex->GetBlockHash(), -1, 0)`, the answer without a difference. -/
def noDiff (h : Uint256) : CDeterministicMNList η := { blockHash := h }

/-- One difference on the way forward. -/
def forward (h : Uint256) (nHeight : Nat) (diff : CDeterministicMNListDiff)
    (list : CDeterministicMNList η) : Except Abort (CDeterministicMNList η) :=
  if diff.hasChanges then list.applyDiff env.serializeHash h nHeight diff
  else .ok { list with blockHash := h, nHeight := nHeight }

/-- `GetListForBlock`.  The differences met on the way back to a list that is known are
applied on the way forward, which here is the return from the recursion. -/
def getListForBlock : CDeterministicMNManager η → List Uint256 →
    Except Abort (CDeterministicMNList η × CDeterministicMNManager η)
  | _, [] => .error .nullPointer
  | m, h :: pprev =>
    match m.mnListsCache h with
    | some list => .ok (list, m)
    | none => do
      let snapshot ← m.readSnapshot env h
      match snapshot with
      | some list => return (list, m.emplace h list)
      | none =>
        match m.readDiff h with
        | none => return (noDiff h, m.emplace h (noDiff h))
        | some diff => do
          let base ← getListForBlock m pprev
          let list ← forward env h pprev.length diff base.1
          return (list, base.2.emplace h list)

/-- `CleanupCache`. -/
def cleanupCache (nHeight : Int) : CDeterministicMNManager η :=
  { m with mnListsCache := fun h => (m.mnListsCache h).filter fun list =>
      !(list.nHeight + LISTS_CACHE_SIZE < nHeight) }

/-- What `ProcessBlock` writes for a new list. -/
def writeList (h : Uint256) (nHeight : Nat) (oldList newList : CDeterministicMNList η) :
    CDeterministicMNManager η :=
  let stored := { m with
    listDiffs := Function.update m.listDiffs h
      (some (CDeterministicMNListDiff.codec.encode (oldList.buildDiff newList))) }
  if nHeight % SNAPSHOT_LIST_PERIOD = 0 ∨ oldList.nHeight = -1 then
    { stored with snapshots := Function.update m.snapshots h (some newList.serialize) }
  else stored

/-- The part of `ProcessBlock` after the list was built. -/
def storeBlock (params : EvoParams) (m : CDeterministicMNManager η) (h : Uint256)
    (pprev : List Uint256) (newList : CDeterministicMNList η) :
    Except Abort (CDeterministicMNManager η × Verdict) := do
  let nHeight := pprev.length
  let heighted :=
    if newList.nHeight = -1 then { newList with nHeight := (nHeight : Int) } else newList
  let old ← getListForBlock env m pprev
  let written := old.2.writeList h nHeight old.1 { heighted with blockHash := h }
  if nHeight = params.DIP0003EnforcementHeight ∧ params.DIP0003EnforcementHash ≠ 0 ∧
      params.DIP0003EnforcementHash ≠ h then
    return (written, .dos { level := 100, code := REJECT_INVALID, reason := "bad-dip3-enf-block" })
  else return (written.cleanupCache nHeight, .accepted)

/-- `ProcessBlock` for the block of hash `h` on top of `pprev`. -/
def processBlock (params : EvoParams) (m : CDeterministicMNManager η) (h : Uint256)
    (pprev : List Uint256) (block : EvoBlock) (fJustCheck : Bool) :
    Except Abort (CDeterministicMNManager η × Verdict) :=
  if pprev.length < params.DIP0003Height then .ok (m, .accepted)
  else do
    let old ← getListForBlock env m pprev
    match buildNewListFromBlock env (block.context pprev) old.1 block.vtx with
    | .error (.aborted a) => .error a
    | .error (.rejected r) => return (old.2, .rejected r)
    | .ok newList =>
      if fJustCheck then return (old.2, .accepted)
      else storeBlock env params old.2 h pprev newList

/-- The lists `UndoBlock` asks for, to report the change. -/
def askForBoth (h : Uint256) (pprev : List Uint256) : Except Abort (CDeterministicMNManager η) := do
  let cur ← getListForBlock env m (h :: pprev)
  let prev ← getListForBlock env cur.2 pprev
  return prev.2

/-- What `UndoBlock` erases. -/
def eraseBlock (h : Uint256) : CDeterministicMNManager η where
  listDiffs := Function.update m.listDiffs h none
  snapshots := Function.update m.snapshots h none
  mnListsCache := Function.update m.mnListsCache h none

/-- `UndoBlock`. -/
def undoBlock (h : Uint256) (pprev : List Uint256) : Except Abort (CDeterministicMNManager η) :=
  if ((m.readDiff h).getD {}).hasChanges then do
    let asked ← askForBoth env m h pprev
    return asked.eraseBlock h
  else .ok (m.eraseBlock h)

end CDeterministicMNManager

end Zcoin.Evo
