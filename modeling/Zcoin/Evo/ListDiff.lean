/-
  Zcoin.Evo.ListDiff — differences of masternode lists
  (`CDeterministicMNStateDiff` and `CDeterministicMNListDiff`,
  `evo/deterministicmns.h`; `BuildDiff` and `ApplyDiff`, `evo/deterministicmns.cpp`).

  The stream is one of tokens: each value of a primitive type is one token, and the
  bytes inside it are left out.
-/
import Zcoin.Evo.Masternode
import Zcoin.Lib.FieldDiff

namespace Zcoin.Evo

open Std
open Chain Lib Lib.OrderedMap

/-! ## §1. The stream. -/

/-- What `<<` writes for a value of a primitive type; `size` stands for the two
variable-length formats. -/
inductive Token where
  | int (v : Int)
  | size (v : Nat)
  | uint16 (v : UInt16)
  | uint32 (v : UInt32)
  | hash (v : Uint256)
  | keyID (v : CKeyID)
  | publicKey (v : CBLSPublicKey)
  | service (v : CService)
  | script (v : CScript)
  | mask (v : BitVec 32)
  deriving DecidableEq, Repr

namespace Token

def intCodec : Codec Token Int :=
  .atom .int (fun t => match t with | .int v => some v | _ => none) fun _ => rfl
def sizeCodec : Codec Token Nat :=
  .atom .size (fun t => match t with | .size v => some v | _ => none) fun _ => rfl
def uint16Codec : Codec Token UInt16 :=
  .atom .uint16 (fun t => match t with | .uint16 v => some v | _ => none) fun _ => rfl
def uint32Codec : Codec Token UInt32 :=
  .atom .uint32 (fun t => match t with | .uint32 v => some v | _ => none) fun _ => rfl
def hashCodec : Codec Token Uint256 :=
  .atom .hash (fun t => match t with | .hash v => some v | _ => none) fun _ => rfl
def keyIDCodec : Codec Token CKeyID :=
  .atom .keyID (fun t => match t with | .keyID v => some v | _ => none) fun _ => rfl
def publicKeyCodec : Codec Token CBLSPublicKey :=
  .atom .publicKey (fun t => match t with | .publicKey v => some v | _ => none) fun _ => rfl
def serviceCodec : Codec Token CService :=
  .atom .service (fun t => match t with | .service v => some v | _ => none) fun _ => rfl
def scriptCodec : Codec Token CScript :=
  .atom .script (fun t => match t with | .script v => some v | _ => none) fun _ => rfl
def maskCodec : Codec Token (BitVec 32) :=
  .atom .mask (fun t => match t with | .mask v => some v | _ => none) fun _ => rfl

end Token

/-! ## §2. States, field by field. -/

/-- One `DMN_STATE_DIFF_LINE`. -/
def stateLine {α : Type} [deq : DecidableEq α] (codec : Codec Token α)
    (get : CDeterministicMNState → α)
    (set : α → CDeterministicMNState → CDeterministicMNState) (bit : BitVec 32) :
    Field CDeterministicMNState Token 32 := ⟨α, deq, codec, get, set, bit⟩

open Token in
/-- `DMN_STATE_DIFF_ALL_FIELDS`, with the values of the enumeration `Field`. -/
def stateFields : List (Field CDeterministicMNState Token 32) :=
  [stateLine intCodec (·.nRegisteredHeight) (fun v s => { s with nRegisteredHeight := v }) 0x0001#32,
    stateLine intCodec (·.nLastPaidHeight) (fun v s => { s with nLastPaidHeight := v }) 0x0002#32,
    stateLine intCodec (·.nPoSePenalty) (fun v s => { s with nPoSePenalty := v }) 0x0004#32,
    stateLine intCodec (·.nPoSeRevivedHeight)
      (fun v s => { s with nPoSeRevivedHeight := v }) 0x0008#32,
    stateLine intCodec (·.nPoSeBanHeight) (fun v s => { s with nPoSeBanHeight := v }) 0x0010#32,
    stateLine uint16Codec (·.nRevocationReason)
      (fun v s => { s with nRevocationReason := v }) 0x0020#32,
    stateLine hashCodec (·.confirmedHash) (fun v s => { s with confirmedHash := v }) 0x0040#32,
    stateLine hashCodec (·.confirmedHashWithProRegTxHash)
      (fun v s => { s with confirmedHashWithProRegTxHash := v }) 0x0080#32,
    stateLine keyIDCodec (·.keyIDOwner) (fun v s => { s with keyIDOwner := v }) 0x0100#32,
    stateLine publicKeyCodec (·.pubKeyOperator)
      (fun v s => { s with pubKeyOperator := v }) 0x0200#32,
    stateLine keyIDCodec (·.keyIDVoting) (fun v s => { s with keyIDVoting := v }) 0x0400#32,
    stateLine serviceCodec (·.addr) (fun v s => { s with addr := v }) 0x0800#32,
    stateLine scriptCodec (·.scriptPayout) (fun v s => { s with scriptPayout := v }) 0x1000#32,
    stateLine scriptCodec (·.scriptOperatorPayout)
      (fun v s => { s with scriptOperatorPayout := v }) 0x2000#32]

/-- The fields make up the state. -/
def stateLayout : Layout CDeterministicMNState Token 32 where
  fields := stateFields
  get_set := by
    unfold stateFields stateLine
    simp
  frame := by
    unfold stateFields stateLine
    simp only [List.pairwise_cons, List.forall_mem_cons]
    simp
  bits := by
    unfold stateFields stateLine
    simp only [List.pairwise_cons, List.forall_mem_cons]
    simp
  bit_ne := by
    unfold stateFields stateLine
    simp only [List.forall_mem_cons]
    simp
  dom := by
    intro f hf v
    unfold stateFields at hf
    simp only [List.mem_cons, List.not_mem_nil, or_false] at hf
    rcases hf with h | h | h | h | h | h | h | h | h | h | h | h | h | h <;> subst h <;>
      exact trivial
  ext := by
    intro s s' h
    unfold stateFields stateLine at h
    simp only [List.forall_mem_cons] at h
    obtain ⟨h1, h2, h3, h4, h5, h6, h7, h8, h9, h10, h11, h12, h13, h14, -⟩ := h
    cases s
    cases s'
    simp_all

/-- `CDeterministicMNStateDiff`. -/
abbrev CDeterministicMNStateDiff := FieldDiff CDeterministicMNState 32

namespace CDeterministicMNStateDiff

/-- The constructor from two states. -/
def ofStates (a b : CDeterministicMNState) : CDeterministicMNStateDiff := stateLayout.between {} a b

def applyToState (d : CDeterministicMNStateDiff) (target : CDeterministicMNState) :
    CDeterministicMNState := stateLayout.applyTo d target

/-- `SerializationOp`. -/
def codec : Codec Token CDeterministicMNStateDiff := stateLayout.diffCodec Token.maskCodec {}

end CDeterministicMNStateDiff

/-! ## §3. The difference of two lists. -/

/-- `SerializationOp` of `COutPoint`. -/
def outPointCodec : Codec Token COutPoint :=
  (Token.hashCodec.pair Token.uint32Codec).via (fun p => ⟨p.1, p.2⟩) (fun o => (o.hash, o.n))
    fun _ => rfl

/-- `SerializationOp` of `CDeterministicMN`, in the new format. -/
def masternodeCodec : Codec Token CDeterministicMN :=
  (Token.hashCodec.pair (Token.sizeCodec.pair (outPointCodec.pair
    (Token.uint16Codec.pair (stateLayout.recordCodec {}))))).via
    (fun p => ⟨p.1, p.2.1, p.2.2.1, p.2.2.2.1, p.2.2.2.2⟩)
    (fun d => (d.proTxHash, d.internalId, d.collateralOutpoint, d.nOperatorReward, d.pdmnState))
    fun _ => rfl

/-- `CDeterministicMNListDiff`; the set `removedMns` is a map without values. -/
structure CDeterministicMNListDiff where
  addedMNs : List CDeterministicMN := []
  updatedMNs : ExtTreeMap Nat CDeterministicMNStateDiff := ∅
  removedMns : ExtTreeMap Nat Unit := ∅

namespace CDeterministicMNListDiff

def hasChanges (diff : CDeterministicMNListDiff) : Bool :=
  !diff.addedMNs.isEmpty || !diff.updatedMNs.isEmpty || !diff.removedMns.isEmpty

/-- The three sections of the stream; each map is filled again with `emplace`. -/
def codec : Codec Token CDeterministicMNListDiff :=
  ((Codec.counted Token.sizeCodec masternodeCodec).pair
    ((Codec.counted Token.sizeCodec (Token.sizeCodec.pair CDeterministicMNStateDiff.codec)).pair
      (Codec.counted Token.sizeCodec Token.sizeCodec))).via
    (fun p =>
      { addedMNs := p.1
        updatedMNs := emplaceAll p.2.1
        removedMns := emplaceAll (p.2.2.map fun id => (id, ())) })
    (fun diff => (diff.addedMNs, diff.updatedMNs.toList, diff.removedMns.keys))
    (by
      intro diff
      have hunit : diff.removedMns.keys.map (fun id => (id, ())) = diff.removedMns.toList := by
        rw [← ExtTreeMap.map_fst_toList_eq_keys, List.map_map]
        exact List.map_id _
      rw [hunit, emplaceAll_toList, emplaceAll_toList])

end CDeterministicMNListDiff

namespace CDeterministicMNList

variable {η : Type} [DecidableEq η] (serializeHash : UniqueProperty → η)

/-- The entry of `updatedMNs` for a masternode of the new list, if it has one. -/
def updatedEntry (list : CDeterministicMNList η) (toPtr : CDeterministicMN) :
    Option (Nat × CDeterministicMNStateDiff) :=
  match list.getMN toPtr.proTxHash with
  | none => none
  | some fromPtr =>
    let stateDiff := CDeterministicMNStateDiff.ofStates fromPtr.pdmnState toPtr.pdmnState
    if stateDiff.fields ≠ 0 then some (toPtr.internalId, stateDiff) else none

/-- `BuildDiff`.  Where it compares pointers first, equal ones have an empty difference. -/
def buildDiff (list newList : CDeterministicMNList η) : CDeterministicMNListDiff where
  addedMNs := ((newList.forEachMN false).filter fun toPtr =>
    (list.getMN toPtr.proTxHash).isNone).mergeSort fun a b => a.internalId ≤ b.internalId
  updatedMNs := emplaceAll ((newList.forEachMN false).filterMap list.updatedEntry)
  removedMns := emplaceAll (((list.forEachMN false).filter fun fromPtr =>
    (newList.getMN fromPtr.proTxHash).isNone).map fun fromPtr => (fromPtr.internalId, ()))

variable (result : CDeterministicMNList η)

/-- The first loop of `ApplyDiff`. -/
def removeById (id : Nat) : Except Abort (CDeterministicMNList η) := do
  let dmn ← assertSome (result.getMNByInternalId id)
  result.removeMN serializeHash dmn.proTxHash

/-- The second loop. -/
def addCounted (dmn : CDeterministicMN) : Except Abort (CDeterministicMNList η) := do
  assertThat (dmn.internalId = result.nTotalRegisteredCount)
  let added ← result.addMN serializeHash dmn
  return { added with nTotalRegisteredCount := added.nTotalRegisteredCount + 1 }

/-- The third loop, with `UpdateMN` by difference. -/
def updateById (p : Nat × CDeterministicMNStateDiff) : Except Abort (CDeterministicMNList η) := do
  let oldDmn ← assertSome (result.getMNByInternalId p.1)
  result.updateMN serializeHash oldDmn
    (CDeterministicMNStateDiff.applyToState p.2 oldDmn.pdmnState)

/-- `ApplyDiff`, for a block of this hash and height. -/
def applyDiff (list : CDeterministicMNList η) (blockHash : Uint256) (nHeight : Int)
    (diff : CDeterministicMNListDiff) : Except Abort (CDeterministicMNList η) := do
  let removed ← diff.removedMns.keys.foldlM (removeById serializeHash)
    { list with blockHash, nHeight }
  let added ← diff.addedMNs.foldlM (addCounted serializeHash) removed
  diff.updatedMNs.toList.foldlM (updateById serializeHash) added

end CDeterministicMNList

end Zcoin.Evo
