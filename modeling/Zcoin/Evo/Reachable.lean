/-
  Zcoin.Evo.Reachable — the lists along a chain of accepted blocks.

  Every list that is built from the empty one is consistent, so no block aborts on it
  and its map of unique properties lists each property of each masternode once.
-/
import Zcoin.Evo.BuildSpec

namespace Zcoin.Evo

open Std
open Chain Lib Lib.Except
open CDeterministicMNList

variable {η : Type} [DecidableEq η] {env : EvoExternals η} {collateralAt : Uint256 → COutPoint}

/-! ## §1. Runs. -/

/-- The lists that blocks which passed `CheckSpecialTx` make of the empty list.  The block
hash is filled in once it is known. -/
inductive ListReachable (env : EvoExternals η) (collateralAt : Uint256 → COutPoint) :
    CDeterministicMNList η → Prop
  | empty (blockHash : Uint256) (nHeight : Int) : ListReachable env collateralAt
      { blockHash, nHeight }
  | block {oldList newList : CDeterministicMNList η} {ctx : BlockContext}
      {vtx : List CTransaction} (blockHash : Uint256)
      (hold : ListReachable env collateralAt oldList)
      (htxs : ∀ tx ∈ vtx.tail, CheckedTx env ctx collateralAt tx)
      (hbuild : buildNewListFromBlock env ctx oldList vtx = .ok newList) :
      ListReachable env collateralAt { newList with blockHash }

/-- **Run invariant**: consistent, with the collaterals the hashes stand for. -/
theorem ListReachable.invariant (hinj : Function.Injective env.serializeHash)
    {list : CDeterministicMNList η} (hreach : ListReachable env collateralAt list) :
    Consistent env.serializeHash list ∧ Collaterals collateralAt list := by
  induction hreach with
  | empty blockHash nHeight =>
    refine ⟨consistent_empty blockHash nHeight, ?_⟩
    intro h d hget
    simp at hget
  | block blockHash hold htxs hbuild ih =>
    have hbuilt := (ensures_buildNewListFromBlock hinj ih.1 ih.2 htxs).of_ok hbuild
    exact ⟨hbuilt.consistent.withHeader blockHash _ (Nat.le_refl _), hbuilt.collaterals⟩

/-! ## §2. Unique properties. -/

/-- **The index is exact.**  On a list a chain of accepted blocks has led to, the next
block fails no assertion, and the map of unique properties has the hashes of each
masternode's collateral, address, owner key and operator key, where they are set, each
with one reference, and nothing else; so no two masternodes share one of them. -/
theorem uniqueProperties_exact (hinj : Function.Injective env.serializeHash)
    {list : CDeterministicMNList η} (hreach : ListReachable env collateralAt list) :
    (∀ ctx vtx, (∀ tx ∈ vtx.tail, CheckedTx env ctx collateralAt tx) →
      ∀ a, buildNewListFromBlock env ctx list vtx ≠ .error (.aborted a)) ∧
    (∀ x h n, list.mnUniquePropertyMap x = some (h, n) ↔
      n = 1 ∧ ∃ dmn, list.mnMap[h]? = some dmn ∧
        (x = env.serializeHash (.collateral dmn.collateralOutpoint) ∨
          dmn.pdmnState.addr ≠ 0 ∧ x = env.serializeHash (.service dmn.pdmnState.addr) ∨
          x = env.serializeHash (.keyID dmn.pdmnState.keyIDOwner) ∨
          CBLSPublicKey.isValid dmn.pdmnState.pubKeyOperator = true ∧
            x = env.serializeHash (.operatorKey dmn.pdmnState.pubKeyOperator))) ∧
    (∀ (h h' : Uint256) dmn dmn', list.mnMap[h]? = some dmn → list.mnMap[h']? = some dmn' →
      h ≠ h' →
      dmn.collateralOutpoint ≠ dmn'.collateralOutpoint ∧
      (dmn.pdmnState.addr ≠ 0 → dmn.pdmnState.addr ≠ dmn'.pdmnState.addr) ∧
      dmn.pdmnState.keyIDOwner ≠ dmn'.pdmnState.keyIDOwner ∧
      (CBLSPublicKey.isValid dmn.pdmnState.pubKeyOperator = true →
        dmn.pdmnState.pubKeyOperator ≠ dmn'.pdmnState.pubKeyOperator)) := by
  obtain ⟨hc, hcoll⟩ := hreach.invariant hinj
  -- the hashes of an entry, spelled out
  have hhashes : ∀ (dmn : CDeterministicMN) x,
      (∃ p ∈ dmn.uniqueProperties, env.serializeHash p = x) ↔
        (x = env.serializeHash (.collateral dmn.collateralOutpoint) ∨
          dmn.pdmnState.addr ≠ 0 ∧ x = env.serializeHash (.service dmn.pdmnState.addr) ∨
          x = env.serializeHash (.keyID dmn.pdmnState.keyIDOwner) ∨
          CBLSPublicKey.isValid dmn.pdmnState.pubKeyOperator = true ∧
            x = env.serializeHash (.operatorKey dmn.pdmnState.pubKeyOperator)) := by
    intro dmn x
    unfold CDeterministicMN.uniqueProperties
    simp only [List.mem_append, List.mem_cons, List.not_mem_nil, or_false,
      List.mem_ite_nil_right, or_and_right, exists_or, exists_eq_left, and_assoc,
      exists_and_left, or_assoc, eq_comm]
  refine ⟨?_, ?_, ?_⟩
  · intro ctx vtx htxs a habort
    exact (ensures_buildNewListFromBlock hinj hc hcoll htxs).of_error habort
  · intro x h n
    rw [hc.properties]
    unfold Owns
    simp only [hhashes]
  · intro h h' dmn dmn' hget hget' hne
    -- one hash of both would have two owners
    have hshared : ∀ x, (∃ p ∈ dmn.uniqueProperties, env.serializeHash p = x) →
        ¬ ∃ p ∈ dmn'.uniqueProperties, env.serializeHash p = x := by
      intro x hx hx'
      exact hne (hc.owns_unique ⟨dmn, hget, hx⟩ ⟨dmn', hget', hx'⟩)
    simp only [hhashes] at hshared
    refine ⟨?_, ?_, ?_, ?_⟩
    · intro heq
      exact hshared _ (.inl rfl) (.inl (by rw [heq]))
    · intro hset heq
      exact hshared _ (.inr (.inl ⟨hset, rfl⟩)) (.inr (.inl ⟨heq ▸ hset, by rw [heq]⟩))
    · intro heq
      exact hshared _ (.inr (.inr (.inl rfl))) (.inr (.inr (.inl (by rw [heq]))))
    · intro hset heq
      exact hshared _ (.inr (.inr (.inr ⟨hset, rfl⟩)))
        (.inr (.inr (.inr ⟨heq ▸ hset, by rw [heq]⟩)))

/-! ## §3. A chain of two blocks. -/

/-- Payloads read off the transaction: the id gives a registration its keys, the extra
payload names the masternode of an update and its new address. -/
def sampleEnv : EvoExternals UniqueProperty where
  serializeHash := id
  sha256 := fun a b => a ^^^ b
  proRegTx := fun tx => some
    { collateralOutpoint := ⟨0, 0⟩
      addr := tx.hash.setWidth 144
      keyIDOwner := tx.hash.setWidth 160
      pubKeyOperator := tx.hash.setWidth 384
      keyIDVoting := tx.hash.setWidth 160
      nOperatorReward := 0
      scriptPayout := [] }
  proUpServTx := fun tx =>
    match tx.vExtraPayload with
    | [h, a] => some
        { proTxHash := BitVec.ofNat 256 h.toNat
          addr := BitVec.ofNat 144 a.toNat
          scriptOperatorPayout := [] }
    | _ => none
  proUpRegTx := fun _ => none
  proUpRevTx := fun _ => none
  finalCommitment := fun _ => none
  nEvoZnodeMinimumConfirmations := 15

def sampleCtx (height : Nat) : BlockContext where
  pindexPrevHeight := height
  pindexPrevHash := BitVec.ofNat 256 height
  getUTXOCoin := fun _ => none
  quorumMembers := fun _ => none

def sampleCoinbase : CTransaction := { hash := 100, vin := [], vout := [], nType := .coinbase }

def sampleRegisterTx (hash : Uint256) : CTransaction :=
  { hash, vin := [], vout := [], nVersion := 3, nType := .providerRegister }

/-- The collateral of `sampleRegisterTx`. -/
def sampleCollateralAt (h : Uint256) : COutPoint := ⟨h, 0⟩

theorem sampleRegisterTx_checked (ctx : BlockContext) {hash : Uint256}
    (howner : hash.setWidth 160 ≠ 0) :
    CheckedTx sampleEnv ctx sampleCollateralAt (sampleRegisterTx hash) := by
  intro _
  refine ⟨_, rfl, howner, ?_, rfl⟩
  show (hash = 0 && (0 : UInt32) = 0xffffffff) = false
  simp

theorem sampleRegisterTxs_checked (ctx : BlockContext) (hashes : List Uint256)
    (howner : hashes.all (·.setWidth 160 ≠ 0) = true) :
    ∀ tx ∈ (sampleCoinbase :: hashes.map sampleRegisterTx).tail,
      CheckedTx sampleEnv ctx sampleCollateralAt tx := by
  intro tx htx
  obtain ⟨hash, hhash, rfl⟩ := List.mem_map.mp htx
  exact sampleRegisterTx_checked ctx (of_decide_eq_true (List.all_eq_true.mp howner hash hhash))

/-- Moves masternode `7` to address `9`. -/
def sampleUpdateTx : CTransaction where
  hash := 102
  vin := []
  vout := []
  nVersion := 3
  nType := .providerUpdateService
  vExtraPayload := [7, 9]

theorem sampleUpdateTx_checked (ctx : BlockContext) :
    CheckedTx sampleEnv ctx sampleCollateralAt sampleUpdateTx := fun _ => rfl

/-- Two masternodes are registered and one of them moves. -/
theorem exists_moved :
    ∃ list, ListReachable sampleEnv sampleCollateralAt list ∧
      list.mnUniquePropertyMap (.service 7) = none ∧
      ∃ dmn ∈ list.mnMap[(7 : Uint256)]?, dmn.pdmnState.addr = 9 := by
  obtain ⟨oldList, hold, newList, hbuild, hmoved⟩ : ∃ oldList,
      buildNewListFromBlock sampleEnv (sampleCtx 0) { nHeight := 0 }
        (sampleCoinbase :: [5, 7].map sampleRegisterTx) = .ok oldList ∧ ∃ newList,
      buildNewListFromBlock sampleEnv (sampleCtx 1) { oldList with blockHash := 1 }
        [sampleCoinbase, sampleUpdateTx] = .ok newList ∧
      newList.mnUniquePropertyMap (.service 7) = none ∧
      ∃ dmn ∈ newList.mnMap[(7 : Uint256)]?, dmn.pdmnState.addr = 9 := by
    decide +kernel
  have hreach₁ := ListReachable.block 1 (.empty 0 0)
    (sampleRegisterTxs_checked (sampleCtx 0) [5, 7] (by decide)) hold
  have hchecked : ∀ tx ∈ [sampleCoinbase, sampleUpdateTx].tail,
      CheckedTx sampleEnv (sampleCtx 1) sampleCollateralAt tx :=
    List.forall_mem_singleton.mpr (sampleUpdateTx_checked _)
  exact ⟨_, .block 2 hreach₁ hchecked hbuild, hmoved⟩

/-- The new address of a masternode that has moved is indexed, and the old one is free. -/
theorem uniqueProperties_exact_moved :
    ∃ list, ListReachable sampleEnv sampleCollateralAt list ∧
      list.mnUniquePropertyMap (.service 9) = some (7, 1) ∧
      list.mnUniquePropertyMap (.service 7) = none := by
  obtain ⟨list, hreach, hfree, dmn, hget, haddr⟩ := exists_moved
  refine ⟨list, hreach, ?_, hfree⟩
  have hexact := (uniqueProperties_exact Function.injective_id hreach).2.1
  refine (hexact _ 7 1).mpr ⟨rfl, dmn, hget, .inr (.inl ⟨?_, ?_⟩)⟩
  · rw [haddr]
    decide
  · rw [haddr]
    rfl

end Zcoin.Evo
