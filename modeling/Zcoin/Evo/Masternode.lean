/-
  Zcoin.Evo.Masternode — the deterministic masternode list
  (`evo/deterministicmns.h/.cpp`): its entries, the three maps that make it up, and the
  operations that keep them in step.

  `immer::map` is an immutable hash map.  The two maps that are walked through are
  ordered maps here (no result depends on the order); the map of unique properties is
  only looked up and is a partial function.  Its keys, the values of `SerializeHash`,
  form an arbitrary type: no injective hash into 256 bits exists.  A failed `assert`
  is `Abort.assertion`.
-/
import Zcoin.Lib.OrderedMap
import Zcoin.Lib.OwnerIndex
import Zcoin.Lib.Except
import Zcoin.Chain.Transaction

namespace Zcoin.Evo

open Std
open Chain Lib

/-! ## §1. Entries. -/

/-- `CKeyID`; the null id is `0`. -/
abbrev CKeyID := BitVec 160

/-- `CService`, address and port; `CService()` is `0`. -/
abbrev CService := BitVec 144

/-- `CBLSPublicKey`.  A buffer that is no key is reset, so every key but the null key,
which is `0`, is valid. -/
abbrev CBLSPublicKey := BitVec 384

def CBLSPublicKey.isValid (key : CBLSPublicKey) : Bool := key ≠ 0

/-- `CDeterministicMNState`. -/
structure CDeterministicMNState where
  nRegisteredHeight : Int := -1
  nLastPaidHeight : Int := 0
  nPoSePenalty : Int := 0
  nPoSeRevivedHeight : Int := -1
  nPoSeBanHeight : Int := -1
  nRevocationReason : UInt16 := 0
  confirmedHash : Uint256 := 0
  confirmedHashWithProRegTxHash : Uint256 := 0
  keyIDOwner : CKeyID := 0
  pubKeyOperator : CBLSPublicKey := 0
  keyIDVoting : CKeyID := 0
  addr : CService := 0
  scriptPayout : CScript := []
  scriptOperatorPayout : CScript := []
  deriving DecidableEq, Repr

namespace CDeterministicMNState

def resetOperatorFields (s : CDeterministicMNState) : CDeterministicMNState :=
  { s with pubKeyOperator := 0, addr := 0, scriptOperatorPayout := [], nRevocationReason := 0 }

def banIfNotBanned (s : CDeterministicMNState) (height : Int) : CDeterministicMNState :=
  if s.nPoSeBanHeight = -1 then { s with nPoSeBanHeight := height } else s

/-- `UpdateConfirmedHash`; `sha256` is the single SHA-256 over both hashes. -/
def updateConfirmedHash (sha256 : Uint256 → Uint256 → Uint256) (s : CDeterministicMNState)
    (proTxHash confirmedHash : Uint256) : CDeterministicMNState :=
  { s with
    confirmedHash
    confirmedHashWithProRegTxHash := sha256 proTxHash confirmedHash }

end CDeterministicMNState

/-- `CDeterministicMN`. -/
structure CDeterministicMN where
  proTxHash : Uint256
  internalId : Nat
  collateralOutpoint : COutPoint
  nOperatorReward : UInt16
  pdmnState : CDeterministicMNState
  deriving DecidableEq, Repr

/-! ## §2. Unique properties. -/

/-- The values that no two masternodes may share.  They are serialised with different
lengths, so values of two kinds never have the same bytes. -/
inductive UniqueProperty where
  | collateral (outpoint : COutPoint)
  | service (addr : CService)
  | keyID (key : CKeyID)
  | operatorKey (key : CBLSPublicKey)
  deriving DecidableEq, Repr

/-- `v == nullValue`. -/
def UniqueProperty.isNull : UniqueProperty → Bool
  | .collateral outpoint => outpoint.isNull
  | .service addr => addr = 0
  | .keyID key => key = 0
  | .operatorKey key => key = 0

/-- What `AddMN` and `RemoveMN` enter for a masternode, in their order. -/
def CDeterministicMN.uniqueProperties (dmn : CDeterministicMN) : List UniqueProperty :=
  [.collateral dmn.collateralOutpoint] ++
    (if dmn.pdmnState.addr ≠ 0 then [.service dmn.pdmnState.addr] else []) ++
    [.keyID dmn.pdmnState.keyIDOwner] ++
    if CBLSPublicKey.isValid dmn.pdmnState.pubKeyOperator then
      [.operatorKey dmn.pdmnState.pubKeyOperator]
    else []

/-- The `assert` around a lookup. -/
def assertSome {α : Type} : Option α → Except Abort α
  | some a => .ok a
  | none => .error .assertion

section Properties

variable {η : Type} [DecidableEq η] (serializeHash : UniqueProperty → η)

/-- `AddUniqueProperty`. -/
def addUniqueProperty (dmn : CDeterministicMN) (properties : OwnerIndex η Uint256)
    (v : UniqueProperty) : Except Abort (OwnerIndex η Uint256) := do
  assertThat (!v.isNull)
  assertSome (OwnerIndex.add dmn.proTxHash properties (serializeHash v))

/-- `DeleteUniqueProperty`. -/
def deleteUniqueProperty (dmn : CDeterministicMN) (properties : OwnerIndex η Uint256)
    (oldValue : UniqueProperty) : Except Abort (OwnerIndex η Uint256) := do
  assertThat (!oldValue.isNull)
  assertSome (OwnerIndex.delete dmn.proTxHash properties (serializeHash oldValue))

/-- `UpdateUniqueProperty`. -/
def updateUniqueProperty (dmn : CDeterministicMN) (properties : OwnerIndex η Uint256)
    (change : UniqueProperty × UniqueProperty) : Except Abort (OwnerIndex η Uint256) :=
  if change.1 = change.2 then .ok properties
  else
    (if change.1.isNull then .ok properties
      else deleteUniqueProperty serializeHash dmn properties change.1) >>= fun properties =>
    if change.2.isNull then .ok properties
      else addUniqueProperty serializeHash dmn properties change.2

end Properties

/-! ## §3. The list. -/

/-- `CDeterministicMNList`. -/
structure CDeterministicMNList (η : Type) where
  blockHash : Uint256 := 0
  nHeight : Int := -1
  nTotalRegisteredCount : Nat := 0
  mnMap : ExtTreeMap Uint256 CDeterministicMN := ∅
  mnInternalIdMap : ExtTreeMap Nat Uint256 := ∅
  mnUniquePropertyMap : OwnerIndex η Uint256 := fun _ => none

namespace CDeterministicMNList

variable {η : Type} [DecidableEq η] (serializeHash : UniqueProperty → η)

def isMNPoSeBanned (dmn : CDeterministicMN) : Bool := dmn.pdmnState.nPoSeBanHeight ≠ -1

def isMNValid (dmn : CDeterministicMN) : Bool := !isMNPoSeBanned dmn

variable (list : CDeterministicMNList η)

def getAllMNsCount : Nat := list.mnMap.size

/-- What `ForEachMN` walks through. -/
def forEachMN (onlyValid : Bool) : List CDeterministicMN :=
  (list.mnMap.toList.map Prod.snd).filter fun dmn => !onlyValid || isMNValid dmn

def getValidMNsCount : Nat := (list.forEachMN true).length

def getMN (proTxHash : Uint256) : Option CDeterministicMN :=
  list.mnMap[proTxHash]?

def hasMN (proTxHash : Uint256) : Bool :=
  (list.getMN proTxHash).isSome

def hasUniqueProperty (v : UniqueProperty) : Bool :=
  (list.mnUniquePropertyMap (serializeHash v)).isSome

def getUniquePropertyMN (v : UniqueProperty) : Option CDeterministicMN :=
  (list.mnUniquePropertyMap (serializeHash v)).bind fun p => list.getMN p.1

def getMNByCollateral (collateralOutpoint : COutPoint) : Option CDeterministicMN :=
  list.getUniquePropertyMN serializeHash (.collateral collateralOutpoint)

def getMNByInternalId (internalId : Nat) : Option CDeterministicMN :=
  list.mnInternalIdMap[internalId]?.bind list.getMN

/-- `AddMN`. -/
def addMN (dmn : CDeterministicMN) : Except Abort (CDeterministicMNList η) := do
  assertThat (dmn.proTxHash ∉ list.mnMap)
  let properties ← dmn.uniqueProperties.foldlM (addUniqueProperty serializeHash dmn)
    list.mnUniquePropertyMap
  return { list with
    mnMap := list.mnMap.insert dmn.proTxHash dmn
    mnInternalIdMap := list.mnInternalIdMap.insert dmn.internalId dmn.proTxHash
    mnUniquePropertyMap := properties }

/-- `UpdateMN` with the old entry at hand. -/
def updateMN (oldDmn : CDeterministicMN) (pdmnState : CDeterministicMNState) : Except Abort
    (CDeterministicMNList η) := do
  let properties ←
    [(.service oldDmn.pdmnState.addr, .service pdmnState.addr),
      (.keyID oldDmn.pdmnState.keyIDOwner, .keyID pdmnState.keyIDOwner),
      (.operatorKey oldDmn.pdmnState.pubKeyOperator, .operatorKey pdmnState.pubKeyOperator)].foldlM
      (updateUniqueProperty serializeHash { oldDmn with pdmnState }) list.mnUniquePropertyMap
  return { list with
    mnMap := list.mnMap.insert oldDmn.proTxHash { oldDmn with pdmnState }
    mnUniquePropertyMap := properties }

/-- `UpdateMN` by hash. -/
def updateMNByHash (proTxHash : Uint256) (pdmnState : CDeterministicMNState) : Except Abort
    (CDeterministicMNList η) := do
  let oldDmn ← assertSome list.mnMap[proTxHash]?
  list.updateMN serializeHash oldDmn pdmnState

/-- `RemoveMN`. -/
def removeMN (proTxHash : Uint256) : Except Abort (CDeterministicMNList η) := do
  let dmn ← assertSome (list.getMN proTxHash)
  let properties ← dmn.uniqueProperties.foldlM (deleteUniqueProperty serializeHash dmn)
    list.mnUniquePropertyMap
  return { list with
    mnMap := list.mnMap.erase proTxHash
    mnInternalIdMap := list.mnInternalIdMap.erase dmn.internalId
    mnUniquePropertyMap := properties }

/-! ### Proof of service. -/

def calcMaxPoSePenalty : Int := max 100 (list.getAllMNsCount : Int)

def calcPenalty (percent : Int) : Except Abort Int := do
  assertThat (percent > 0)
  return list.calcMaxPoSePenalty * percent / 100

/-- The state after `PoSePunish`. -/
def punished (s : CDeterministicMNState) (penalty : Int) : CDeterministicMNState :=
  let nPoSePenalty := min list.calcMaxPoSePenalty (s.nPoSePenalty + penalty)
  { s with
    nPoSePenalty
    nPoSeBanHeight :=
      if nPoSePenalty ≥ list.calcMaxPoSePenalty ∧ s.nPoSeBanHeight = -1 then list.nHeight
      else s.nPoSeBanHeight }

def poSePunish (proTxHash : Uint256) (penalty : Int) : Except Abort (CDeterministicMNList η) := do
  assertThat (penalty > 0)
  let dmn ← assertSome (list.getMN proTxHash)
  list.updateMNByHash serializeHash proTxHash (list.punished dmn.pdmnState penalty)

def poSeDecrease (proTxHash : Uint256) : Except Abort (CDeterministicMNList η) := do
  let dmn ← assertSome (list.getMN proTxHash)
  assertThat (dmn.pdmnState.nPoSePenalty > 0 && dmn.pdmnState.nPoSeBanHeight = -1)
  list.updateMNByHash serializeHash proTxHash
    { dmn.pdmnState with nPoSePenalty := dmn.pdmnState.nPoSePenalty - 1 }

end CDeterministicMNList

/-! ## §4. The payment order. -/

/-- The bytes of a `uint256` in memory, lowest first. -/
def bytesOf (h : Uint256) : List Nat := (List.range 32).map fun i => (h.extractLsb' (8 * i) 8).toNat

/-- `base_blob::operator<`, a `memcmp`. -/
def uint256Less (a b : Uint256) : Bool := decide (bytesOf a < bytesOf b)

/-- `CompareByLastPaid_GetHeight`. -/
def compareByLastPaidGetHeight (dmn : CDeterministicMN) : Int :=
  let height := dmn.pdmnState.nLastPaidHeight
  if dmn.pdmnState.nPoSeRevivedHeight ≠ -1 ∧ dmn.pdmnState.nPoSeRevivedHeight > height then
    dmn.pdmnState.nPoSeRevivedHeight
  else if height = 0 then dmn.pdmnState.nRegisteredHeight
  else height

/-- `CompareByLastPaid`. -/
def compareByLastPaid (a b : CDeterministicMN) : Bool :=
  let ah := compareByLastPaidGetHeight a
  let bh := compareByLastPaidGetHeight b
  if ah = bh then uint256Less a.proTxHash b.proTxHash else ah < bh

namespace CDeterministicMNList

variable {η : Type} [DecidableEq η]

/-- The body of the loop in `GetMNPayee`. -/
def betterPayee (best : Option CDeterministicMN) (dmn : CDeterministicMN) :
    Option CDeterministicMN :=
  match best with
  | none => some dmn
  | some b => if compareByLastPaid dmn b then some dmn else some b

variable (list : CDeterministicMNList η)

/-- `GetMNPayee`; the loop over an empty map leaves `none` as well. -/
def getMNPayee : Option CDeterministicMN :=
  (list.forEachMN true).foldl betterPayee none

/-- `GetProjectedMNPayees`, for a count that is not negative.  `std::sort` of elements that
are pairwise comparable. -/
def getProjectedMNPayees (nCount : Nat) : List CDeterministicMN :=
  ((list.forEachMN true).mergeSort fun a b => !(compareByLastPaid b a)).take
    (min nCount list.getValidMNsCount)

end CDeterministicMNList

end Zcoin.Evo
