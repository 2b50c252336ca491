/-
  Zcoin.Evo.Payment — who is paid over the next blocks.

  `GetMNPayee` picks the least masternode of an order by height and hash, and the block
  that pays it moves it behind all others.  As long as nothing else happens to the list,
  the payees are the ones `GetProjectedMNPayees` announced, in its order.
-/
import Zcoin.Evo.Reachable
import Zcoin.Lib.Sorting

namespace Zcoin.Evo

open Std Function List
open Chain Lib Lib.Except
open CDeterministicMNList

/-! ## §1. The order of payments. -/

theorem bytesOf_injective : Injective bytesOf := by
  intro a b hab
  apply BitVec.eq_of_getLsbD_eq
  intro i hi
  have hbyte : (a.extractLsb' (8 * (i / 8)) 8).toNat = (b.extractLsb' (8 * (i / 8)) 8).toNat :=
    map_inj_left.mp hab (i / 8) (mem_range.mpr (by omega))
  have hbit := congrArg (fun v : BitVec 8 => v.getLsbD (i % 8)) (BitVec.eq_of_toNat_eq hbyte)
  simp only [BitVec.getLsbD_extractLsb'] at hbit
  have hlt : i % 8 < 8 := Nat.mod_lt i (by omega)
  have hsplit : 8 * (i / 8) + i % 8 = i := Nat.div_add_mod i 8
  simpa [hlt, hsplit] using hbit

/-- Height first, then the bytes of the hash. -/
def payRank (d : CDeterministicMN) : ℤ ×ₗ List ℕ :=
  toLex (compareByLastPaidGetHeight d, bytesOf d.proTxHash)

theorem compareByLastPaid_eq (a b : CDeterministicMN) :
    compareByLastPaid a b = decide (payRank a < payRank b) := by
  unfold compareByLastPaid payRank uint256Less
  rw [Bool.eq_iff_iff, decide_eq_true_iff, Prod.Lex.toLex_lt_toLex]
  by_cases hheight : compareByLastPaidGetHeight a = compareByLastPaidGetHeight b
  · simp [hheight]
  · simp [hheight]

theorem payRank_injective {a b : CDeterministicMN} (h : payRank a = payRank b) :
    a.proTxHash = b.proTxHash :=
  bytesOf_injective (congrArg (fun r => (ofLex r).2) h)

section Lists

variable {η : Type} {serializeHash : UniqueProperty → η}

theorem getMNPayee_eq (list : CDeterministicMNList η) :
    list.getMNPayee = (list.forEachMN true).foldl (Ranking.better payRank) none := by
  unfold getMNPayee
  congr 1
  funext best d
  unfold betterPayee Ranking.better
  cases best with
  | none => rfl
  | some b =>
    simp only [compareByLastPaid_eq, decide_eq_true_eq]

/-- The valid masternodes in the order of their payments. -/
def payOrder (list : CDeterministicMNList η) : List CDeterministicMN :=
  (list.forEachMN true).mergeSort fun a b => decide (payRank a ≤ payRank b)

theorem getProjectedMNPayees_eq (list : CDeterministicMNList η) {n : Nat}
    (hn : n ≤ list.getValidMNsCount) : list.getProjectedMNPayees n = (payOrder list).take n := by
  have hle : (fun a b => !(compareByLastPaid b a)) =
      fun a b => decide (payRank a ≤ payRank b) := by
    funext a b
    rw [compareByLastPaid_eq, Bool.eq_iff_iff]
    simp
  unfold getProjectedMNPayees payOrder
  rw [hle, Nat.min_eq_left hn]

variable {list : CDeterministicMNList η}

theorem mem_payOrder (hc : Consistent serializeHash list) {d : CDeterministicMN} :
    d ∈ payOrder list ↔ list.mnMap[d.proTxHash]? = some d ∧ isMNValid d = true := by
  unfold payOrder
  rw [mem_mergeSort, mem_forEachMN hc]
  simp

theorem length_payOrder (list : CDeterministicMNList η) :
    (payOrder list).length = list.getValidMNsCount := length_mergeSort _

theorem payOrder_nodup (hc : Consistent serializeHash list) :
    ((payOrder list).map (·.proTxHash)).Nodup := by
  have hnodup := hashes_nodup hc (fun _ => true) true
  rw [filter_eq_self.mpr fun _ _ => rfl] at hnodup
  exact ((mergeSort_perm _ _).map _).nodup_iff.mpr hnodup

theorem payOrder_sorted (hc : Consistent serializeHash list) :
    (payOrder list).Pairwise fun a b => payRank a < payRank b := by
  have hnodup := ((mergeSort_perm _ _).map _).nodup_iff.mp (payOrder_nodup hc)
  exact Ranking.pairwise_mergeSort_lt hnodup.of_map fun a ha b hb hrank =>
    inj_on_of_nodup_map hnodup ha hb (payRank_injective hrank)

end Lists

/-! ## §2. Blocks that only pay. -/

/-- A transaction that changes the list. -/
def isListTx (tx : CTransaction) : Bool :=
  tx.nVersion = 3 &&
    match tx.nType with
    | .providerRegister | .providerUpdateService | .providerUpdateRegistrar
    | .providerUpdateRevoke | .quorumCommitment => true
    | _ => false

/-- No provider or commitment transaction, and no collateral of the list is spent. -/
structure QuietBlock {η : Type} (list : CDeterministicMNList η) (vtx : List CTransaction) :
    Prop where
  txs : ∀ tx ∈ vtx.tail, isListTx tx = false
  spends : ∀ (h : Uint256) d, list.mnMap[h]? = some d → d.collateralOutpoint ∉ spentOutputs vtx

section Quiet

variable {η : Type} [DecidableEq η] {env : EvoExternals η} {ctx : BlockContext}

theorem applySpecialTx_quiet {tx : CTransaction} (htx : isListTx tx = false)
    (list : CDeterministicMNList η) : applySpecialTx env ctx list tx = .ok list := by
  unfold isListTx at htx
  unfold applySpecialTx
  by_cases hversion : tx.nVersion ≠ 3
  · rw [if_pos hversion]
  · rw [if_neg hversion]
    rw [decide_eq_true (not_not.mp hversion), Bool.true_and] at htx
    revert htx
    cases tx.nType <;> intro htx <;> first | rfl | cases htx

variable {list : CDeterministicMNList η}

theorem spendCollaterals_quiet (hinj : Injective env.serializeHash)
    (hc : Consistent env.serializeHash list) {prevouts : List COutPoint}
    (hspends : ∀ (h : Uint256) d, list.mnMap[h]? = some d → d.collateralOutpoint ∉ prevouts) :
    prevouts.foldlM (spendCollateral env) list = .ok list := by
  refine foldlM_eq_self fun prevout hprevout => ?_
  have hnone : list.getMNByCollateral env.serializeHash prevout = none := by
    refine Option.eq_none_iff_forall_ne_some.mpr fun d hd => ?_
    obtain ⟨hget, heq⟩ := (hc.getMNByCollateral_eq_some_iff hinj).mp hd
    exact hspends _ d hget (heq ▸ hprevout)
  unfold spendCollateral
  rw [hnone]

/-- **A quiet block** confirms, relieves and pays. -/
theorem build_quiet (ctx : BlockContext) (hinj : Injective env.serializeHash)
    (hc : Consistent env.serializeHash list) {vtx : List CTransaction}
    (hquiet : QuietBlock list vtx) :
    ∃ relieved, Updates env.serializeHash Relieved
        { list with blockHash := 0, nHeight := ctx.nHeight } relieved ∧
      buildNewListFromBlock env ctx list vtx =
        orAbort (payMN env ctx list.getMNPayee relieved) := by
  obtain ⟨confirmed, relieved, hconfirmrun, hrelievedrun, hrelieved⟩ := exists_relieved ctx hinj hc
  refine ⟨relieved, hrelieved, ?_⟩
  have hspends : ∀ (h : Uint256) d, relieved.mnMap[h]? = some d →
      d.collateralOutpoint ∉ spentOutputs vtx := by
    intro h d hget
    obtain ⟨d₀, hget₀, a, b, c, hd⟩ := hrelieved.of_new hget
    subst hd
    exact hquiet.spends h d₀ hget₀
  have hspendrun : (vtx.tail.flatMap fun tx => tx.vin.map (·.prevout)).foldlM
      (spendCollateral env) relieved = .ok relieved :=
    spendCollaterals_quiet hinj hrelieved.consistent hspends
  show (orAbort ((list.forEachMN false).foldlM (confirmMN env ctx)
    { list with blockHash := 0, nHeight := ctx.nHeight }) >>= _) = _
  rw [hconfirmrun]
  show (orAbort (decreasePoSePenalties env confirmed) >>= _) = _
  rw [hrelievedrun]
  show (vtx.tail.foldlM (applySpecialTx env ctx) relieved >>= _) = _
  rw [foldlM_eq_self fun tx htx => applySpecialTx_quiet (hquiet.txs tx htx) relieved]
  show (orAbort ((vtx.tail.flatMap fun tx => tx.vin.map (·.prevout)).foldlM
    (spendCollateral env) relieved) >>= _) = _
  rw [hspendrun]
  rfl

end Quiet

/-! ## §3. The rotation. -/

/-- A masternode some blocks later: paid past `H` if it is among `paid`, otherwise last
paid when it was. -/
def Turn (H : Nat) (paid : List Uint256) (d d' : CDeterministicMN) : Prop :=
  ∃ confirmedHash confirmedHashWithProRegTxHash nPoSePenalty nLastPaidHeight,
    d' = { d with pdmnState := { d.pdmnState with
      confirmedHash, confirmedHashWithProRegTxHash, nPoSePenalty, nLastPaidHeight } } ∧
    if d.proTxHash ∈ paid then (H : Int) < nLastPaidHeight
    else nLastPaidHeight = d.pdmnState.nLastPaidHeight

/-- No recorded height is past `H`. -/
structure HeightsUpTo (H : Nat) (d : CDeterministicMN) : Prop where
  registered : d.pdmnState.nRegisteredHeight ≤ H
  lastPaid : d.pdmnState.nLastPaidHeight ≤ H
  revived : d.pdmnState.nPoSeRevivedHeight ≤ H

theorem HeightsUpTo.key_le {H : Nat} {d : CDeterministicMN} (hd : HeightsUpTo H d) :
    compareByLastPaidGetHeight d ≤ H := by
  obtain ⟨hreg, hpaid, hrevived⟩ := hd
  unfold compareByLastPaidGetHeight
  dsimp only
  split
  · exact hrevived
  · omega

namespace Turn

variable {H : Nat} {paid : List Uint256} {d d' : CDeterministicMN} (h : Turn H paid d d')
include h

theorem proTxHash : d'.proTxHash = d.proTxHash := by
  obtain ⟨a, b, c, n, hd, -⟩ := h
  rw [hd]

theorem collateralOutpoint : d'.collateralOutpoint = d.collateralOutpoint := by
  obtain ⟨a, b, c, n, hd, -⟩ := h
  rw [hd]

theorem isMNValid_eq : isMNValid d' = isMNValid d := by
  obtain ⟨a, b, c, n, hd, -⟩ := h
  rw [hd]
  rfl

theorem payRank_eq (hpaid : d.proTxHash ∉ paid) : payRank d' = payRank d := by
  obtain ⟨a, b, c, n, hd, hn⟩ := h
  rw [if_neg hpaid] at hn
  subst hn
  rw [hd]
  rfl

theorem lt_key (hpaid : d.proTxHash ∈ paid) (hd : HeightsUpTo H d) :
    (H : Int) < compareByLastPaidGetHeight d' := by
  obtain ⟨a, b, c, n, heq, hn⟩ := h
  rw [if_pos hpaid] at hn
  have hrevived := hd.revived
  subst heq
  show (H : Int) < if d.pdmnState.nPoSeRevivedHeight ≠ -1 ∧ d.pdmnState.nPoSeRevivedHeight > n
    then d.pdmnState.nPoSeRevivedHeight
    else if n = 0 then d.pdmnState.nRegisteredHeight else n
  rw [if_neg (by omega), if_neg (by omega)]
  exact hn

end Turn

section Rotation

variable {η : Type} [DecidableEq η] {env : EvoExternals η}

/-- The list after the masternodes in `paid` have been paid once. -/
structure Rotated (env : EvoExternals η) (H : Nat) (start : CDeterministicMNList η)
    (paid : List Uint256) (list : CDeterministicMNList η) : Prop where
  consistent : Consistent env.serializeHash list
  entries : ∀ h : Uint256, Option.Rel (Turn H paid) start.mnMap[h]? list.mnMap[h]?

namespace Rotated

variable {H : Nat} {start list : CDeterministicMNList η} {paid : List Uint256}

omit [DecidableEq η] in
theorem of_start (hrot : Rotated env H start paid list) {h : Uint256} {d : CDeterministicMN}
    (hget : start.mnMap[h]? = some d) : ∃ d', list.mnMap[h]? = some d' ∧ Turn H paid d d' := by
  exact OrderedMap.exists_right (hrot.entries h) hget

omit [DecidableEq η] in
theorem of_list (hrot : Rotated env H start paid list) {h : Uint256} {d' : CDeterministicMN}
    (hget : list.mnMap[h]? = some d') : ∃ d, start.mnMap[h]? = some d ∧ Turn H paid d d' := by
  exact OrderedMap.exists_left (hrot.entries h) hget

end Rotated

variable {H : Nat} {start list : CDeterministicMNList η}

omit [DecidableEq η] in
theorem rotated_start (hc : Consistent env.serializeHash start) :
    Rotated env H start [] start where
  consistent := hc
  entries := by
    intro h
    cases start.mnMap[h]? with
    | none => exact .none
    | some d => exact .some ⟨_, _, _, _, rfl, by rw [if_neg not_mem_nil]⟩

variable {next : CDeterministicMN}

omit [DecidableEq η] in
/-- **The next payee** is the first of the order that has not been paid. -/
theorem getMNPayee_rotated (hc : Consistent env.serializeHash start)
    (hheights : ∀ (h : Uint256) d, start.mnMap[h]? = some d → HeightsUpTo H d)
    {pre rest : List CDeterministicMN} (horder : payOrder start = pre ++ next :: rest)
    (hrot : Rotated env H start (pre.map (·.proTxHash)) list) :
    ∃ d, list.getMNPayee = some d ∧ d.proTxHash = next.proTxHash ∧
      list.mnMap[next.proTxHash]? = some d := by
  have hsorted := payOrder_sorted hc
  rw [horder] at hsorted
  obtain ⟨-, hrest, -⟩ := pairwise_append.mp hsorted
  -- a different place in the order is a different hash
  have hunpaid : ∀ d ∈ next :: rest, d.proTxHash ∉ pre.map (·.proTxHash) := by
    have hnodup := payOrder_nodup hc
    rw [horder, map_append, nodup_append] at hnodup
    exact fun d hd hin => hnodup.2.2 _ hin _ (mem_map_of_mem hd) rfl
  have hnextmem : next ∈ payOrder start :=
    horder ▸ mem_append_right pre mem_cons_self
  obtain ⟨hnext, hvalid⟩ := (mem_payOrder hc).mp hnextmem
  obtain ⟨d, hget, hturn⟩ := hrot.of_start hnext
  have hrank := hturn.payRank_eq (hunpaid next mem_cons_self)
  refine ⟨d, ?_, hturn.proTxHash, hget⟩
  rw [getMNPayee_eq]
  refine Ranking.foldl_better_eq ?_ ?_
  · refine (mem_forEachMN hrot.consistent).mpr ⟨by rw [hturn.proTxHash]; exact hget, fun _ => ?_⟩
    rw [hturn.isMNValid_eq]
    exact hvalid
  · intro b' hb' hne
    obtain ⟨hgetb', hvalidb'⟩ := (mem_forEachMN hrot.consistent).mp hb'
    obtain ⟨b, hgetb, hturnb⟩ := hrot.of_list hgetb'
    have hbhash := (hc.sound _ b hgetb).keyed
    have hbmem : b ∈ payOrder start := by
      refine (mem_payOrder hc).mpr ⟨by rw [hbhash]; exact hgetb, ?_⟩
      rw [← hturnb.isMNValid_eq]
      exact hvalidb' rfl
    rw [hrank]
    rw [horder] at hbmem
    rcases mem_append.mp hbmem with hin | hin
    · -- already paid: past every height of the start
      have hkey := (hheights _ next hnext).key_le
      have hpast := hturnb.lt_key (mem_map_of_mem hin) (hheights _ b hgetb)
      show toLex _ < toLex _
      rw [Prod.Lex.toLex_lt_toLex]
      exact .inl (Int.lt_of_le_of_lt hkey hpast)
    · rw [hturnb.payRank_eq (hunpaid b hin)]
      rcases mem_cons.mp hin with heq | hin
      · exfalso
        apply hne
        rw [← hbhash, heq, hget] at hgetb'
        exact (Option.some.inj hgetb').symm
      · exact (pairwise_cons.mp hrest).1 b hin

/-- **A quiet block pays** the next masternode of the order. -/
theorem build_rotated (hinj : Injective env.serializeHash)
    (hc : Consistent env.serializeHash start)
    (hheights : ∀ (h : Uint256) d, start.mnMap[h]? = some d → HeightsUpTo H d)
    {pre rest : List CDeterministicMN} (horder : payOrder start = pre ++ next :: rest)
    (hrot : Rotated env H start (pre.map (·.proTxHash)) list) {ctx : BlockContext}
    (hctx : H ≤ ctx.pindexPrevHeight) {vtx : List CTransaction} (hquiet : QuietBlock start vtx)
    (blockHash : Uint256) :
    ∃ newList, buildNewListFromBlock env ctx list vtx = .ok newList ∧
      Rotated env H start ((pre ++ [next]).map (·.proTxHash)) { newList with blockHash } := by
  obtain ⟨payee, hpayee, hhash, hget⟩ := getMNPayee_rotated hc hheights horder hrot
  have hquiet' : QuietBlock list vtx := by
    refine ⟨hquiet.txs, ?_⟩
    intro h d hget
    obtain ⟨d₀, hget₀, hturn⟩ := hrot.of_list hget
    rw [hturn.collateralOutpoint]
    exact hquiet.spends h d₀ hget₀
  obtain ⟨relieved, hupd, hbuild⟩ := build_quiet ctx hinj hrot.consistent hquiet'
  obtain ⟨d, hgetd, hrelieved⟩ := hupd.of_old hget
  have hpay : payMN env ctx list.getMNPayee relieved =
      relieved.updateMNByHash env.serializeHash next.proTxHash
        { d.pdmnState with nLastPaidHeight := ctx.nHeight } := by
    rw [hpayee]
    unfold payMN getMN
    simp only [hhash, hgetd]
  obtain ⟨newList, hrun, hnew, hmap⟩ := (ensures_updateMNByHash hinj SameMN.refl hupd.consistent
    hgetd (s := { d.pdmnState with nLastPaidHeight := ctx.nHeight })
    rfl ⟨_, rfl, rfl, rfl⟩ (fun p hp _ => .inl hp)).exists_ok
  refine ⟨newList, ?_, ?_, ?_⟩
  · rw [hbuild, hpay, hrun]
    rfl
  · exact hnew.consistent.withHeader blockHash _ (Nat.le_refl _)
  · intro h
    show Option.Rel _ start.mnMap[h]? newList.mnMap[h]?
    rw [hmap, OrderedMap.getElem?_insert]
    by_cases hh : h = next.proTxHash
    · -- the payee
      obtain ⟨d₀, hget₀, hturn⟩ := hrot.of_list hget
      rw [if_pos hh, hh, hget₀]
      have hd₀ : d₀.proTxHash = next.proTxHash := (hc.sound _ d₀ hget₀).keyed
      obtain ⟨a, b, c, n, hpayeeq, -⟩ := hturn
      obtain ⟨a', b', c', hdeq⟩ := hrelieved
      subst hpayeeq
      subst hdeq
      refine .some ⟨a', b', c', ctx.nHeight, rfl, ?_⟩
      rw [if_pos (by rw [hd₀]; simp)]
      show (H : Int) < ctx.pindexPrevHeight + 1
      omega
    · rw [if_neg hh]
      refine OrderedMap.rel_comp (hrot.entries h) (hupd.entries h)
        fun d₀ d₁ d₂ hget₀ hturn hkeep => ?_
      obtain ⟨a₁, b₁, c₁, n, heq, hn⟩ := hturn
      obtain ⟨a₂, b₂, c₂, heq'⟩ := hkeep
      subst heq
      subst heq'
      refine ⟨a₂, b₂, c₂, n, rfl, ?_⟩
      have hne : d₀.proTxHash ≠ next.proTxHash := (hc.sound h d₀ hget₀).keyed ▸ hh
      simpa [hne] using hn

/-! ## §4. The payees of the next blocks. -/

/-- A block to come: what is below it, its hash and its transactions. -/
structure NextBlock where
  ctx : BlockContext
  blockHash : Uint256
  vtx : List CTransaction

/-- The payee of each block, along the lists the blocks make. -/
def payeesAlong (env : EvoExternals η) :
    CDeterministicMNList η → List NextBlock → Except Stop (List (Option CDeterministicMN))
  | _, [] => .ok []
  | list, block :: blocks => do
    let newList ← buildNewListFromBlock env block.ctx list block.vtx
    let payees ← payeesAlong env { newList with blockHash := block.blockHash } blocks
    return list.getMNPayee :: payees

theorem payeesAlong_rotated (hinj : Injective env.serializeHash)
    (hc : Consistent env.serializeHash start)
    (hheights : ∀ (h : Uint256) d, start.mnMap[h]? = some d → HeightsUpTo H d)
    {blocks : List NextBlock} (hctx : ∀ b ∈ blocks, H ≤ b.ctx.pindexPrevHeight)
    (hquiet : ∀ b ∈ blocks, QuietBlock start b.vtx) {pre rest : List CDeterministicMN}
    (horder : payOrder start = pre ++ rest) (hlength : blocks.length ≤ rest.length)
    (hrot : Rotated env H start (pre.map (·.proTxHash)) list) :
    ∃ payees, payeesAlong env list blocks = .ok payees ∧
      payees.map (Option.map (·.proTxHash)) =
        (rest.take blocks.length).map fun d => some d.proTxHash := by
  -- each block moves one masternode from `rest` to `pre`
  induction blocks generalizing list pre rest with
  | nil => exact ⟨[], rfl, by simp⟩
  | cons b blocks ih =>
    cases rest with
    | nil => simp at hlength
    | cons next rest =>
      obtain ⟨payee, hpayee, hhash, -⟩ := getMNPayee_rotated hc hheights horder hrot
      obtain ⟨newList, hbuild, hrot'⟩ := build_rotated hinj hc hheights horder hrot
        (hctx b mem_cons_self) (hquiet b mem_cons_self) b.blockHash
      have horder' : payOrder start = (pre ++ [next]) ++ rest := by
        rw [horder, append_assoc]
        rfl
      obtain ⟨payees, hrun, hmap⟩ := ih
        (fun b' hb' => hctx b' (mem_cons_of_mem b hb'))
        (fun b' hb' => hquiet b' (mem_cons_of_mem b hb')) horder'
        (by simpa using hlength) hrot'
      refine ⟨list.getMNPayee :: payees, ?_, ?_⟩
      · unfold payeesAlong
        rw [hbuild]
        show (payeesAlong env { newList with blockHash := b.blockHash } blocks >>= _) = _
        rw [hrun]
        rfl
      · rw [map_cons, hmap, hpayee, length_cons, take_succ_cons, map_cons,
          Option.map_some, hhash]

/-- **The projected payees are the payees.**  From a list at height `H` without later
heights, over quiet blocks at `H + 1`, `H + 2`, … and no more of them than there are
valid masternodes, the masternodes `GetMNPayee` picks are the ones
`GetProjectedMNPayees` announces, in that order; in a full cycle each valid masternode is
picked once. -/
theorem payees_eq_projected (hinj : Function.Injective env.serializeHash)
    (hc : Consistent env.serializeHash list) (hH : list.nHeight = H)
    (hheights : ∀ (h : Uint256) d, list.mnMap[h]? = some d → HeightsUpTo H d)
    {blocks : List NextBlock}
    (hctx : ∀ (k : Nat) b, blocks[k]? = some b → (b.ctx.pindexPrevHeight : Int) = list.nHeight + k)
    (hquiet : ∀ b ∈ blocks, QuietBlock list b.vtx)
    (hcount : blocks.length ≤ list.getValidMNsCount) :
    ∃ payees, payeesAlong env list blocks = .ok payees ∧
      payees.map (Option.map (·.proTxHash)) =
        (list.getProjectedMNPayees blocks.length).map (fun d => some d.proTxHash) ∧
      (blocks.length = list.getValidMNsCount → ∀ d ∈ list.forEachMN true,
        (payees.map (Option.map (·.proTxHash))).count (some d.proTxHash) = 1) := by
  have hctx' : ∀ b ∈ blocks, H ≤ b.ctx.pindexPrevHeight := by
    intro b hb
    obtain ⟨k, hk⟩ := List.getElem?_of_mem hb
    have hheight := hctx k b hk
    omega
  have horder : payOrder list = [] ++ payOrder list := rfl
  obtain ⟨payees, hrun, hmap⟩ := payeesAlong_rotated hinj hc hheights hctx' hquiet horder
    (by rw [length_payOrder]; exact hcount) (rotated_start hc)
  refine ⟨payees, hrun, ?_, ?_⟩
  · rw [hmap, getProjectedMNPayees_eq list hcount]
  · intro hfull d hd
    have hmem : d ∈ payOrder list := List.mem_mergeSort.mpr hd
    have hall : (payOrder list).take blocks.length = payOrder list := by
      rw [hfull, ← length_payOrder]
      exact List.take_length
    rw [hmap, hall]
    refine List.count_eq_one_of_mem ?_ (List.mem_map_of_mem hmem)
    have hnodup := (payOrder_nodup hc).map (Option.some_injective _)
    rwa [List.map_map] at hnodup

end Rotation

/-- A block at height `n + 1` with nothing but its coinbase. -/
def sampleNextBlock (n : Nat) : NextBlock :=
  ⟨sampleCtx n, BitVec.ofNat 256 (n + 1), [sampleCoinbase]⟩

/-- Masternodes `8` and `7`, registered in block `1`, are paid in blocks `2` and `3`, in
the projected order. -/
theorem payees_eq_projected_cycle :
    ∃ list payees, buildNewListFromBlock sampleEnv (sampleCtx 0) { nHeight := 0 }
        [sampleCoinbase, sampleRegisterTx 8, sampleRegisterTx 7] = .ok list ∧
      payeesAlong sampleEnv list [sampleNextBlock 1, sampleNextBlock 2] = .ok payees ∧
      payees.map (Option.map (·.proTxHash)) =
        (list.getProjectedMNPayees 2).map (fun d => some d.proTxHash) ∧
      (payees.map (Option.map (·.proTxHash))).count (some 7) = 1 := by
  obtain ⟨list, hbuild, hlisted, hvalid, hheights⟩ : ∃ list,
      buildNewListFromBlock sampleEnv (sampleCtx 0) { nHeight := 0 }
        [sampleCoinbase, sampleRegisterTx 8, sampleRegisterTx 7] = .ok list ∧
      (list.forEachMN true).map (·.proTxHash) = [7, 8] ∧ list.getValidMNsCount = 2 ∧
      ∀ e ∈ list.mnMap.toList, e.2.pdmnState.nRegisteredHeight ≤ 1 ∧
        e.2.pdmnState.nLastPaidHeight ≤ 1 ∧ e.2.pdmnState.nPoSeRevivedHeight ≤ 1 := by
    decide +kernel
  have hchecked := sampleRegisterTxs_checked (sampleCtx 0) [8, 7] (by decide)
  have hbuilt := (ensures_buildNewListFromBlock Function.injective_id (consistent_empty 0 0)
    (fun h d hget => by simp at hget) hchecked).of_ok hbuild
  have hblocks : ∀ (k : Nat) b, [sampleNextBlock 1, sampleNextBlock 2][k]? = some b →
      (b.ctx.pindexPrevHeight : Int) = list.nHeight + k := by
    intro k b hb
    rw [hbuilt.nHeight]
    match k, hb with
    | 0, hb =>
      cases hb
      rfl
    | 1, hb =>
      cases hb
      rfl
  have hentries : ∀ (h : Uint256) d, list.mnMap[h]? = some d → HeightsUpTo 1 d := by
    intro h d hget
    obtain ⟨hreg, hpaid, hrevived⟩ := hheights (h, d)
      (ExtTreeMap.mem_toList_iff_getElem?_eq_some.mpr hget)
    exact ⟨hreg, hpaid, hrevived⟩
  have hquiet : ∀ b ∈ [sampleNextBlock 1, sampleNextBlock 2], QuietBlock list b.vtx := by
    intro b hb
    have hvtx : b.vtx = [sampleCoinbase] := by
      simp only [List.mem_cons, List.not_mem_nil, or_false] at hb
      rcases hb with hb | hb
      · rw [hb]
        rfl
      · rw [hb]
        rfl
    rw [hvtx]
    refine ⟨?_, fun h d _ => List.not_mem_nil⟩
    intro tx htx
    cases htx
  obtain ⟨payees, hpayees, hmap, hcycle⟩ := payees_eq_projected Function.injective_id
    hbuilt.consistent hbuilt.nHeight hentries hblocks hquiet
    (by rw [hvalid]; exact Nat.le_refl 2)
  have hseven : (7 : Uint256) ∈ (list.forEachMN true).map (·.proTxHash) := by
    rw [hlisted]
    exact List.mem_cons_self
  obtain ⟨d, hd, hhash⟩ := List.mem_map.mp hseven
  exact ⟨list, payees, hbuild, hpayees, hmap, hhash ▸ hcycle hvalid.symm d hd⟩

end Zcoin.Evo
