/-
  Zcoin.Evo.BlockDiff — the difference a block leaves on disk.

  The list of a block is stored as the difference to the list before it.  Applied to that
  list, also after a trip through the stream, it gives the list of the block, unless the
  block registers a masternode it removes again, registers a listed transaction once
  more, or hands a property over against the order of the updates.
-/
import Zcoin.Evo.DiffSpec
import Zcoin.Evo.Reachable

namespace Zcoin.Evo

open Std List
open Chain Lib Lib.Except
open CDeterministicMNList

variable {η : Type} [DecidableEq η] {env : EvoExternals η} {collateralAt : Uint256 → COutPoint}
  {oldList newList : CDeterministicMNList η} {ctx : BlockContext} {vtx : List CTransaction}

/-! ## §1. The stream. -/

omit [DecidableEq η] in
theorem buildDiff_decode (hc' : Consistent env.serializeHash newList) :
    CDeterministicMNListDiff.codec.decode
        (CDeterministicMNListDiff.codec.encode (oldList.buildDiff newList)) =
      some (oldList.buildDiff newList, []) := by
  have hdom : CDeterministicMNListDiff.codec.dom (oldList.buildDiff newList) := by
    refine ⟨⟨trivial, ?_⟩, ⟨trivial, ?_⟩, trivial, ?_⟩
    · intro d _
      exact ⟨trivial, trivial, ⟨trivial, trivial⟩, trivial, trivial⟩
    · intro e he
      obtain ⟨X, X', -, -, -, heq⟩ := (mem_updatedMNs hc').mp he
      rw [heq]
      exact ⟨trivial, stateLayout.diffCodec_dom _ _ _ _ trivial⟩
    · intro i _
      exact trivial
  have hround := CDeterministicMNListDiff.codec.decode_encode _ hdom []
  rw [append_nil] at hround
  exact hround

/-! ## §2. Identity and gaps in terms of the block. -/

omit [DecidableEq η] in
/-- The ids a block leaves unused, and the masternodes it registers anew. -/
theorem sameIdentity_noGaps_iff (hc : Consistent env.serializeHash oldList)
    (hbuilt : Built env ctx collateralAt oldList vtx newList) :
    SameIdentity oldList newList ∧ NoGaps oldList newList ↔
      ∀ tx ∈ vtx.tail, isProRegTx tx = true →
        tx.hash ∉ oldList.mnMap ∧ collateralAt tx.hash ∉ spentOutputs vtx := by
  constructor
  · intro hcond tx htx hprereg
    obtain ⟨hsame, hgaps⟩ := hcond
    obtain ⟨k, hk⟩ := getElem?_of_mem (mem_filter.mpr ⟨htx, hprereg⟩)
    have hlt : k < (vtx.tail.filter isProRegTx).length := (List.getElem?_eq_some_iff.mp hk).1
    -- its id is in use, so it is still listed
    obtain ⟨h, hh⟩ := hgaps (oldList.nTotalRegisteredCount + k) (Nat.le_add_right _ _) (by
      rw [hbuilt.total]
      omega)
    obtain ⟨d, hd, hdi⟩ := (hbuilt.consistent.ids _ h).mp hh
    obtain ⟨horigin, hunspent⟩ := hbuilt.origin h d hd
    have hhash : tx.hash = h := by
      rcases horigin with hreg | hold
      · obtain ⟨k', tx', hk', htx', hid', -⟩ := hreg
        have hkk : k' = k := by omega
        rw [hkk, hk] at hk'
        cases hk'
        exact htx'
      · obtain ⟨⟨d₀, hd₀, s, hd', -, -⟩, -⟩ := hold
        have hbound := hc.bound h d₀ hd₀
        rw [hd'] at hdi
        replace hdi : d₀.internalId = _ := hdi
        omega
    rw [hhash]
    refine ⟨?_, hunspent⟩
    intro hmem
    obtain ⟨X, hX⟩ := OrderedMap.mem_iff_exists.mp hmem
    have hbound := hc.bound h X hX
    rw [hsame h X d hX hd] at hdi
    replace hdi : X.internalId = _ := hdi
    omega
  · intro hcond
    refine ⟨?_, ?_⟩
    · intro h X X' hX hX'
      rcases (hbuilt.origin h X' hX').1 with hreg | hold
      · obtain ⟨k, tx, hk, htx, -, -⟩ := hreg
        obtain ⟨htail, hprereg⟩ := mem_filter.mp (mem_of_getElem? hk)
        exfalso
        apply (hcond tx htail hprereg).1
        rw [htx]
        exact OrderedMap.mem_iff_exists.mpr ⟨X, hX⟩
      · obtain ⟨⟨d₀, hd₀, s, hd', -, -⟩, -⟩ := hold
        rw [hX] at hd₀
        cases hd₀
        rw [hd']
    · intro i hlow hhigh
      rw [hbuilt.total] at hhigh
      have hlt : i - oldList.nTotalRegisteredCount < (vtx.tail.filter isProRegTx).length := by
        omega
      have hk := getElem?_eq_getElem hlt
      obtain ⟨htail, hprereg⟩ := mem_filter.mp (mem_of_getElem? hk)
      obtain ⟨d, hd, hid⟩ := hbuilt.present _ _ hk (hcond _ htail hprereg).2
      exact ⟨_, (hbuilt.consistent.ids i _).mpr ⟨d, hd, by omega⟩⟩

omit [DecidableEq η] in
theorem new_ids (hbuilt : Built env ctx collateralAt oldList vtx newList) (h : Uint256)
    (d : CDeterministicMN) (hget : newList.mnMap[h]? = some d) (hnone : oldList.mnMap[h]? = none) :
    oldList.nTotalRegisteredCount ≤ d.internalId := by
  rcases (hbuilt.origin h d hget).1 with hreg | hold
  · omega
  · obtain ⟨⟨d₀, hd₀, -⟩, -⟩ := hold
    rw [hnone] at hd₀
    cases hd₀

/-! ## §3. The difference of a block. -/

section Block

variable (hinj : Function.Injective env.serializeHash)
  (hreach : ListReachable env collateralAt oldList)
  (htxs : ∀ tx ∈ vtx.tail, CheckedTx env ctx collateralAt tx)
  (hbuild : buildNewListFromBlock env ctx oldList vtx = .ok newList)
  (blockHash : Uint256) (nHeight : Int)
include hinj hreach htxs hbuild

theorem blockDiff_iff :
    oldList.applyDiff env.serializeHash blockHash nHeight (oldList.buildDiff newList) =
        .ok { newList with blockHash, nHeight } ↔
      (∀ tx ∈ vtx.tail, isProRegTx tx = true →
        tx.hash ∉ oldList.mnMap ∧ collateralAt tx.hash ∉ spentOutputs vtx) ∧
      ¬ HandsOver oldList newList := by
  obtain ⟨hc, hcoll⟩ := hreach.invariant hinj
  have hbuilt := (ensures_buildNewListFromBlock hinj hc hcoll htxs).of_ok hbuild
  have htotal : oldList.nTotalRegisteredCount ≤ newList.nTotalRegisteredCount := by
    rw [hbuilt.total]
    omega
  rw [applyDiff_buildDiff_iff hinj hc hbuilt.consistent htotal (new_ids hbuilt) blockHash nHeight,
    ← and_assoc, sameIdentity_noGaps_iff hc hbuilt]

/-- **The difference of a block reapplies** to the list before it and gives the list of the
block exactly when no masternode it registers was listed before or has its collateral
spent in the block, and no property is handed over against the order of the updates.  What
is read back from the stream is the difference that was written. -/
theorem blockDiff_reapplies_iff :
    CDeterministicMNListDiff.codec.decode
        (CDeterministicMNListDiff.codec.encode (oldList.buildDiff newList)) =
      some (oldList.buildDiff newList, []) ∧
    (oldList.applyDiff env.serializeHash blockHash nHeight (oldList.buildDiff newList) =
        .ok { newList with blockHash, nHeight } ↔
      (∀ tx ∈ vtx.tail, isProRegTx tx = true →
        tx.hash ∉ oldList.mnMap ∧ collateralAt tx.hash ∉ spentOutputs vtx) ∧
      ¬ HandsOver oldList newList) := by
  obtain ⟨hc, hcoll⟩ := hreach.invariant hinj
  have hbuilt := (ensures_buildNewListFromBlock hinj hc hcoll htxs).of_ok hbuild
  exact ⟨buildDiff_decode hbuilt.consistent,
    blockDiff_iff hinj hreach htxs hbuild blockHash nHeight⟩

end Block

/-- A block that moves masternode `7` to another address and registers masternode `8`. -/
theorem blockDiff_reapplies_moved :
    ∃ oldList newList : CDeterministicMNList UniqueProperty,
      ListReachable sampleEnv sampleCollateralAt oldList ∧
      buildNewListFromBlock sampleEnv (sampleCtx 1) oldList
        [sampleCoinbase, sampleUpdateTx, sampleRegisterTx 8] = .ok newList ∧
      oldList.applyDiff id 2 2 (oldList.buildDiff newList) =
        .ok { newList with blockHash := 2, nHeight := 2 } := by
  obtain ⟨oldList, hold, newList, hbuild, hnew, hkeys⟩ : ∃ oldList,
      buildNewListFromBlock sampleEnv (sampleCtx 0) { nHeight := 0 }
        (sampleCoinbase :: [5, 7].map sampleRegisterTx) = .ok oldList ∧ ∃ newList,
      buildNewListFromBlock sampleEnv (sampleCtx 1) { oldList with blockHash := 1 }
        [sampleCoinbase, sampleUpdateTx, sampleRegisterTx 8] = .ok newList ∧
      8 ∉ oldList.mnMap ∧
      ∀ e ∈ oldList.mnMap.toList, ∀ e' ∈ newList.mnMap.toList, e.1 ≠ e'.1 →
        ∀ p ∈ e.2.pdmnState.keys, p.isNull = false → p ∉ e'.2.pdmnState.keys := by
    decide +kernel
  have hreach := ListReachable.block 1 (.empty 0 0)
    (sampleRegisterTxs_checked (sampleCtx 0) [5, 7] (by decide)) hold
  have hchecked : ∀ tx ∈ [sampleCoinbase, sampleUpdateTx, sampleRegisterTx 8].tail,
      CheckedTx sampleEnv (sampleCtx 1) sampleCollateralAt tx := by
    rw [List.tail_cons, List.forall_mem_cons, List.forall_mem_singleton]
    exact ⟨sampleUpdateTx_checked _, sampleRegisterTx_checked _ (by decide)⟩
  refine ⟨_, newList, hreach, hbuild, (blockDiff_reapplies_iff Function.injective_id hreach hchecked
    hbuild 2 2).2.mpr ⟨?_, ?_⟩⟩
  · rw [List.tail_cons, List.forall_mem_cons, List.forall_mem_singleton]
    exact ⟨fun hregister => absurd hregister (by decide), fun _ => ⟨hnew, by decide⟩⟩
  · intro hhand
    obtain ⟨hX, hY, X, X', Y', hXold, -, hYnew, hne, -, p, hp, hnull, hpY⟩ := hhand
    exact hkeys (hX, X) (ExtTreeMap.mem_toList_iff_getElem?_eq_some.mpr hXold) (hY, Y')
      (ExtTreeMap.mem_toList_iff_getElem?_eq_some.mpr hYnew) hne p hp hnull hpY

/-- A transaction that spends the collateral of masternode `7`. -/
def sampleSpendTx : CTransaction :=
  { hash := 101, vin := [⟨⟨7, 0⟩, []⟩], vout := [] }

/-- A block registers masternodes `7` and `8` and spends the collateral of the first: the
difference of the accepted block cannot be applied. -/
theorem blockDiff_asserts :
    ∃ oldList newList : CDeterministicMNList UniqueProperty,
      ListReachable sampleEnv sampleCollateralAt oldList ∧
      (∀ tx ∈ [sampleCoinbase, sampleRegisterTx 7, sampleRegisterTx 8, sampleSpendTx].tail,
        CheckedTx sampleEnv (sampleCtx 0) sampleCollateralAt tx) ∧
      buildNewListFromBlock sampleEnv (sampleCtx 0) oldList
        [sampleCoinbase, sampleRegisterTx 7, sampleRegisterTx 8, sampleSpendTx] = .ok newList ∧
      oldList.applyDiff id 1 1 (oldList.buildDiff newList) = .error .assertion := by
  obtain ⟨newList, hbuild, happly⟩ : ∃ newList, buildNewListFromBlock sampleEnv (sampleCtx 0)
        { nHeight := 0 } [sampleCoinbase, sampleRegisterTx 7, sampleRegisterTx 8, sampleSpendTx]
        = .ok newList ∧
      applyDiff id { nHeight := 0 } 1 1 (buildDiff { nHeight := 0 } newList)
        = .error .assertion := by
    decide +kernel
  refine ⟨{ nHeight := 0 }, newList, .empty 0 0, ?_, hbuild, happly⟩
  intro tx htx
  simp only [List.tail_cons, List.mem_cons, List.not_mem_nil, or_false] at htx
  rcases htx with htx | htx | htx
  · rw [htx]
    exact sampleRegisterTx_checked _ (by decide)
  · rw [htx]
    exact sampleRegisterTx_checked _ (by decide)
  · rw [htx]
    intro hversion
    exact absurd hversion (by decide)

end Zcoin.Evo
