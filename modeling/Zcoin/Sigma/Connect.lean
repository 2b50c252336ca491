/-
  Zcoin.Sigma.Connect — connecting a block to the Sigma state
  (`GetSpendAmount`, `CheckSigmaBlock`, `CheckSigmaSpendSerial`,
  `ConnectBlockSigma` of `sigma.cpp`).

  As in the Lelantus counterpart the verdict comes together with the state that
  is left behind, since serials are added while later ones are still unchecked.
-/
import Zcoin.Sigma.State
import Zcoin.Lib.Except
import Zcoin.Lib.OrderedMap

namespace Zcoin.Sigma

open Chain Lib Std Lib.Except List

/-! ## §1. What stays abstract. -/

/-- Deserialisation, and the walk order of the one unordered map. -/
structure Externals where
  /-- `CoinSpend(params, stream)`, as its `getIntDenomination()` -/
  readCoinSpend : List UInt8 → Except Exn CAmount
  /-- the order in which `blockDenomMints` is walked -/
  denominationOrder : List CoinDenomination
  mem_denominationOrder : ∀ d, d ∈ denominationOrder

variable {F G : Type} [DecidableEq F] [DecidableEq G]

/-! ## §2. Block-level checks. -/

variable (env : Externals)

/-- `ParseSigmaSpend`, as the denomination of the spend. -/
def parseSigmaSpend (txin : CTxIn) : Except Exn CAmount :=
  if txin.prevout.n < 1 ∨ txin.prevout.n.toNat ≥ INT_MAX ∨ txin.scriptSig.length < 1 then
    .error .badTxIn
  else env.readCoinSpend txin.scriptSig.tail

/-- `GetSpendAmount(in)`: an `ios_base::failure` and a `CBadTxIn` read as 0. -/
def getSpendAmountIn (txin : CTxIn) : Except Exn CAmount :=
  if txin.isSigmaSpend then
    match parseSigmaSpend env txin with
    | .ok intDenomination => .ok intDenomination
    | .error .iosFailure => .ok 0
    | .error .badTxIn => .ok 0
    | .error e => .error e
  else .ok 0

/-- `GetSpendAmount(tx)`. -/
def getSpendAmount (tx : CTransaction) : Except Exn CAmount :=
  tx.vin.foldlM (fun sum txin => do
    let amount ← getSpendAmountIn env txin
    return sum + amount) 0

/-- The rejection every limit of `CheckSigmaBlock` shares. -/
def badSigmaSpend : Rejection :=
  { level := 100, code := REJECT_INVALID, reason := "bad-txns-spend-invalid" }

/-- `tx->IsZerocoinRemint() ? 0 : GetSpendAmount(*tx)`. -/
def txSpendsValue (tx : CTransaction) : Except Exn CAmount :=
  if tx.isZerocoinRemint then .ok 0 else getSpendAmount env tx

/-- The loop of `CheckSigmaBlock` with its two accumulators, and the two block
limits after it. -/
def checkSigmaBlockLoop (params : ConsensusParams G) (env : Externals) :
    List CTransaction → Nat → CAmount → Except Exn Verdict
  | [], blockSpendsAmount, blockSpendsValue =>
    if blockSpendsAmount > params.nMaxSigmaInputPerBlock then .ok (.dos badSigmaSpend)
    else if blockSpendsValue > params.nMaxValueSigmaSpendPerBlock then .ok (.dos badSigmaSpend)
    else .ok .accepted
  | tx :: vtx, blockSpendsAmount, blockSpendsValue => do
    let value ← txSpendsValue env tx
    let txSpendsAmount := tx.vin.countP fun txin => txin.isSigmaSpend || txin.isZerocoinRemint
    if txSpendsAmount > params.nMaxSigmaInputPerTransaction then
      return .dos badSigmaSpend
    else if value > params.nMaxValueSigmaSpendPerTransaction then
      return .dos badSigmaSpend
    else
      checkSigmaBlockLoop params env vtx (blockSpendsAmount + txSpendsAmount)
        (blockSpendsValue + value)

/-- `CheckSigmaBlock`. -/
def checkSigmaBlock (params : ConsensusParams G) (env : Externals) (vtx : List CTransaction) :
    Except Exn Verdict :=
  checkSigmaBlockLoop params env vtx 0 0

/-- `CheckSigmaSpendSerial`.  The collector is consulted only while it is still
being filled, the state only in the mempool or when connecting. -/
def checkSigmaSpendSerial (s : CSigmaState F G) (sigmaTxInfo : Option (CSigmaTxInfo F G))
    (serial : F) (nHeight : Nat) (fConnectTip : Bool) : Verdict :=
  if sigmaTxInfo.any (fun info =>
      !info.fInfoIsComplete && decide (serial ∈ info.spentSerials.map Prod.fst)) then
    .dos { level := 0, logged := "CTransaction::CheckTransaction() : two or more spends " ++
      "with same serial in the same block" }
  else if s.isUsedCoinSerial serial && (decide (nHeight = INT_MAX) || fConnectTip) then
    .dos { level := 0, logged := "CTransaction::CheckTransaction() : The sigma CoinSpend " ++
      "serial has been used" }
  else .accepted

/-! ## §3. `ConnectBlockSigma`. -/

/-- What `ConnectBlockSigma` leaves behind. -/
structure Connected (F G : Type) where
  verdict : Verdict
  state : CSigmaState F G
  index : CBlockIndex F G

/-- The loop over `sigmaTxInfo->spentSerials`. -/
def connectSpends (info : CSigmaTxInfo F G) (nHeight : Nat) (fJustCheck : Bool) :
    List (F × CSpendCoinInfo) → CSigmaState F G → CBlockIndex F G → Connected F G
  | [], s, index => ⟨.accepted, s, index⟩
  | serial :: serials, s, index =>
    match checkSigmaSpendSerial s (some info) serial.1 nHeight true with
    | .rejected r => ⟨.rejected r, s, index⟩
    | .accepted =>
      if fJustCheck then connectSpends info nHeight fJustCheck serials s index
      else connectSpends info nHeight fJustCheck serials (s.addSpend serial.1 serial.2)
        { index with sigmaSpentSerials := insertSerial index.sigmaSpentSerials serial }

/-- `pindexNew` with its Sigma fields cleared. -/
def clearSigma (index : CBlockIndex F G) : CBlockIndex F G :=
  { index with sigmaMintedPubCoins := fun _ => ∅, sigmaSpentSerials := [] }

/-- `ConnectBlockSigma` for the block `pblock` with index `index` at height
`nHeight`. -/
def connectBlockSigma (params : ConsensusParams G) (env : Externals) (s : CSigmaState F G)
    (nHeight : Nat) (index : CBlockIndex F G) (pblock : CBlock F G) (fJustCheck : Bool) :
    Except Abort (Connected F G) :=
  match pblock.sigmaTxInfo with
  | some info => do
    let index := if fJustCheck then index else clearSigma index
    let blockVerdict ← (checkSigmaBlock params env pblock.vtx).mapError .threw
    if blockVerdict ≠ .accepted then
      return ⟨blockVerdict, s, index⟩
    let spent := connectSpends info nHeight fJustCheck info.spentSerials s index
    if spent.verdict ≠ .accepted ∨ fJustCheck then
      return spent
    let entered ← spent.state.addMintsToStateAndBlockIndex env.denominationOrder nHeight
      spent.index info.mints
    return ⟨.accepted, entered.1, entered.2⟩
  | none =>
    if fJustCheck then .ok ⟨.accepted, s, index⟩
    else .ok ⟨.accepted, s.addBlock nHeight index, index⟩

/-! ## §4. Serials stay, and counts only grow. -/

theorem MetaInfo.count_bump (metaInfo : MetaInfo) (groupId k : Int) (denom d : CoinDenomination) :
    (metaInfo.bump groupId denom).count k d
      = metaInfo.count k d + if k = groupId ∧ d = denom then 1 else 0 := by
  unfold MetaInfo.count MetaInfo.bump
  rw [Function.update_apply]
  by_cases hd : d = denom
  · subst hd
    rw [if_pos rfl, OrderedMap.getD_insert]
    by_cases hk : k = groupId
    · subst hk
      simp [MetaInfo.count]
    · simp [hk]
  · simp [hd]

section Counts

variable {s : CSigmaState F G} {info : CSigmaTxInfo F G} {nHeight : Nat}

omit [DecidableEq G] in
theorem connectSpends_keeps (serials : List (F × CSpendCoinInfo)) (index : CBlockIndex F G)
    {serial : F} (hused : s.isUsedCoinSerial serial = true) :
    (connectSpends info nHeight false serials s index).state.isUsedCoinSerial serial = true := by
  induction serials generalizing s index with
  | nil => exact hused
  | cons e serials ih =>
    unfold connectSpends
    split
    · exact hused
    · apply ih
      show (Function.update s.containers.usedCoinSerials e.1 _ serial).isSome = true
      rw [Function.update_apply]
      split
      · rfl
      · exact hused

omit [DecidableEq F] in
theorem foldl_addMint_count (coins : List G) (c : Containers F G) (coinInfo : CMintedCoinInfo) :
    (coins.foldl (fun c coin => c.addMint coin coinInfo) c).usedCoinSerials = c.usedCoinSerials ∧
      ∀ k d, (coins.foldl (fun c coin => c.addMint coin coinInfo) c).mintMetaInfo.count k d
        = c.mintMetaInfo.count k d
          + if k = coinInfo.coinGroupId ∧ d = coinInfo.denomination then coins.length else 0 := by
  induction coins generalizing c with
  | nil => simp
  | cons coin coins ih =>
    obtain ⟨hspend, hmint⟩ := ih (c.addMint coin coinInfo)
    refine ⟨hspend, ?_⟩
    intro k d
    rw [foldl_cons, hmint]
    show (MetaInfo.bump c.mintMetaInfo coinInfo.coinGroupId coinInfo.denomination).count k d + _
      = _
    rw [MetaInfo.count_bump, length_cons]
    split <;> omega

omit [DecidableEq F] [DecidableEq G] in
theorem assignGroup_containers {denomination : CoinDenomination} {nMints : Nat}
    {r : CSigmaState F G × Int} (hrun : s.assignGroup nHeight denomination nMints = .ok r) :
    r.1.containers = s.containers := by
  unfold CSigmaState.assignGroup at hrun
  dsimp only at hrun
  split at hrun
  · split at hrun
    · obtain ⟨-, -, hrun⟩ := bind_eq_ok.mp hrun
      obtain ⟨-, -, hrun⟩ := bind_eq_ok.mp hrun
      cases hrun
      rfl
    · obtain ⟨-, -, hrun⟩ := bind_eq_ok.mp hrun
      obtain ⟨-, -, hrun⟩ := bind_eq_ok.mp hrun
      obtain ⟨-, -, hrun⟩ := bind_eq_ok.mp hrun
      cases hrun
      rfl
  · cases hrun
    rfl

omit [DecidableEq F] in
/-- Mints leave the serials alone, never lower a mint count, and raise one
as soon as one denomination has a coin. -/
theorem addMints_count (entries : List (CoinDenomination × List G))
    (st st' : CSigmaState F G × CBlockIndex F G)
    (hrun : entries.foldlM (CSigmaState.addDenomMints nHeight) st = .ok st') :
    st'.1.containers.usedCoinSerials = st.1.containers.usedCoinSerials ∧
      (∀ k d, st.1.containers.mintMetaInfo.count k d ≤ st'.1.containers.mintMetaInfo.count k d) ∧
      ((∃ entry ∈ entries, entry.2 ≠ []) →
        ∃ k d, st.1.containers.mintMetaInfo.count k d
          < st'.1.containers.mintMetaInfo.count k d) := by
  refine foldlM_prefix_ok (fun pre (cur : CSigmaState F G × CBlockIndex F G) =>
    cur.1.containers.usedCoinSerials = st.1.containers.usedCoinSerials ∧
      (∀ k d, st.1.containers.mintMetaInfo.count k d ≤ cur.1.containers.mintMetaInfo.count k d) ∧
      ((∃ entry ∈ pre, entry.2 ≠ []) → ∃ k d, st.1.containers.mintMetaInfo.count k d
        < cur.1.containers.mintMetaInfo.count k d)) ?_ ⟨rfl, fun _ _ => Nat.le_refl _, by simp⟩ hrun
  intro pre entry rest _ cur cur' ⟨hspend, hle, hlt⟩ hstep
  unfold CSigmaState.addDenomMints at hstep
  by_cases hempty : entry.2 = []
  · -- a denomination without mints is skipped
    simp only [hempty, isEmpty_nil, if_true, Except.ok.injEq] at hstep
    subst hstep
    refine ⟨hspend, hle, fun hsome => hlt ?_⟩
    simpa [hempty, or_and_right, exists_or] using hsome
  · have hnotEmpty : entry.2.isEmpty = false := by simp [hempty]
    simp only [hnotEmpty, Bool.false_eq_true, if_false] at hstep
    obtain ⟨⟨s₁, id⟩, hassign, hcur'⟩ := bind_eq_ok.mp hstep
    cases hcur'
    obtain ⟨hspend₁, hmint₁⟩ := foldl_addMint_count entry.2 s₁.containers ⟨entry.1, id, nHeight⟩
    rw [assignGroup_containers hassign] at hspend₁ hmint₁ ⊢
    simp only [hspend₁, hmint₁]
    have hpos : 0 < entry.2.length := length_pos_iff.mpr hempty
    refine ⟨hspend, fun k d => le_add_right (hle k d), fun _ => ⟨id, entry.1, ?_⟩⟩
    have := hle id entry.1
    rw [if_pos ⟨rfl, rfl⟩]
    omega

end Counts

/-! ## §5. When a block leaves no trace. -/

variable {params : ConsensusParams G} {env : Externals} {s : CSigmaState F G} {nHeight : Nat}
  {index : CBlockIndex F G} {pblock : CBlock F G} {info : CSigmaTxInfo F G}
  {r : Connected F G}

omit [DecidableEq G] in
theorem checkSigmaSpendSerial_complete (nHeight : Nat) (hinfo : info.fInfoIsComplete = true)
    (serial : F) :
    checkSigmaSpendSerial s (some info) serial nHeight true = .accepted ↔
      s.isUsedCoinSerial serial = false := by
  unfold checkSigmaSpendSerial
  simp only [Option.any_some, hinfo, Bool.not_true, Bool.false_and, Bool.false_eq_true, if_false,
    Bool.or_true, Bool.and_true]
  cases s.isUsedCoinSerial serial with
  | false => simp
  | true => simp [Verdict.dos]

/-- **What connecting a block does**: it stops at a limit, it stops at a serial, or the mints
enter after all serials. -/
theorem connectBlockSigma_cases (hinfo : pblock.sigmaTxInfo = some info)
    (hrun : connectBlockSigma params env s nHeight index pblock false = .ok r) :
    (checkSigmaBlock params env pblock.vtx ≠ .ok .accepted ∧ r.verdict ≠ .accepted ∧
      r.state = s) ∨
    checkSigmaBlock params env pblock.vtx = .ok .accepted ∧ ∃ spent,
      connectSpends info nHeight false info.spentSerials s (clearSigma index) = spent ∧
      (spent.verdict ≠ .accepted ∧ r = spent ∨ spent.verdict = .accepted ∧ ∃ entered,
        spent.state.addMintsToStateAndBlockIndex env.denominationOrder nHeight spent.index
          info.mints = .ok entered ∧ r = ⟨.accepted, entered.1, entered.2⟩) := by
  unfold connectBlockSigma at hrun
  rw [hinfo] at hrun
  simp only [Bool.false_eq_true, if_false, or_false] at hrun
  obtain ⟨blockVerdict, hblock, hrun⟩ := bind_eq_ok.mp hrun
  rw [mapError_eq_ok] at hblock
  rw [hblock]
  by_cases hlimits : blockVerdict ≠ .accepted
  · rw [if_pos hlimits] at hrun
    cases hrun
    exact .inl ⟨fun hok => hlimits (Except.ok.inj hok), hlimits, rfl⟩
  rw [if_neg hlimits] at hrun
  rw [not_not] at hlimits
  refine .inr ⟨congrArg _ hlimits, _, rfl, ?_⟩
  split at hrun
  · next hrej =>
    cases hrun
    exact .inl ⟨hrej, rfl⟩
  · next hpass =>
    obtain ⟨entered, hmints, hr⟩ := bind_eq_ok.mp hrun
    cases hr
    exact .inr ⟨not_not.mp hpass, entered, hmints, rfl⟩

omit [DecidableEq G] in
/-- **The loop** passes exactly when the serials are different and unused. -/
theorem connectSpends_accepted_iff (nHeight : Nat) (hcomplete : info.fInfoIsComplete = true)
    (serials : List (F × CSpendCoinInfo)) (s : CSigmaState F G) (index : CBlockIndex F G) :
    (connectSpends info nHeight false serials s index).verdict = .accepted ↔
      FreshSpends s.containers.usedCoinSerials serials := by
  induction serials generalizing s index with
  | nil => exact iff_of_true rfl ⟨nodup_nil, nofun⟩
  | cons e serials ih =>
    have hcheck := checkSigmaSpendSerial_complete (s := s) nHeight hcomplete e.1
    rw [freshSpends_cons, ← Option.isNone_iff_eq_none, ← Option.isSome_eq_false_iff]
    unfold connectSpends
    cases hverdict : checkSigmaSpendSerial s (some info) e.1 nHeight true with
    | rejected rej =>
      refine iff_of_false (fun h => nomatch h) fun hfresh => ?_
      rw [hcheck.mpr hfresh.1] at hverdict
      cases hverdict
    | accepted => exact (ih _ _).trans (and_iff_right (hcheck.mp hverdict)).symm

omit [DecidableEq G] in
theorem connectSpends_sporks (info : CSigmaTxInfo F G) (nHeight : Nat)
    (serials : List (F × CSpendCoinInfo)) (s : CSigmaState F G) (index : CBlockIndex F G) :
    (connectSpends info nHeight false serials s index).index.activeDisablingSporks
      = index.activeDisablingSporks := by
  induction serials generalizing s index with
  | nil => rfl
  | cons e serials ih =>
    unfold connectSpends
    split
    · rfl
    · exact ih _ _

omit [DecidableEq G] in
theorem connectSpends_used {e : F × CSpendCoinInfo} {serials : List (F × CSpendCoinInfo)}
    {spent : Connected F G} (hcomplete : info.fInfoIsComplete = true)
    (hused : s.isUsedCoinSerial e.1 = true)
    (hspent : connectSpends info nHeight false (e :: serials) s index = spent) :
    spent.state = s ∧ spent.verdict ≠ .accepted := by
  subst hspent
  unfold connectSpends
  cases hpass : checkSigmaSpendSerial s (some info) e.1 nHeight true with
  | accepted =>
    rw [checkSigmaSpendSerial_complete nHeight hcomplete, hused] at hpass
    cases hpass
  | rejected rej => exact ⟨rfl, by simp⟩

variable (hinfo : pblock.sigmaTxInfo = some info) (hcomplete : info.fInfoIsComplete = true)
  (hrun : connectBlockSigma params env s nHeight index pblock false = .ok r)
include hinfo hcomplete hrun

/-- **A block that leaves the Sigma state as it was**: it is over a limit, or the
first serial is already used, or it has neither serials nor mints. -/
theorem connectBlockSigma_unchanged_iff :
    r.state = s ↔ checkSigmaBlock params env pblock.vtx ≠ .ok .accepted ∨
      (∃ e serials, info.spentSerials = e :: serials ∧ s.isUsedCoinSerial e.1 = true) ∨
      (info.spentSerials = [] ∧ info.mints = []) := by
  rcases connectBlockSigma_cases hinfo hrun with ⟨hlimit, -, hsame⟩ | ⟨hacc, spent, hspent, hrest⟩
  · exact iff_of_true hsame (.inl hlimit)
  rw [or_iff_right (not_not.mpr hacc)]
  cases hserials : info.spentSerials with
  | cons e serials =>
    rw [hserials] at hspent
    cases hused : s.isUsedCoinSerial e.1 with
    | true =>
      obtain ⟨hstate, hrej⟩ := connectSpends_used hcomplete hused hspent
      rcases hrest with ⟨-, rfl⟩ | ⟨hpass, -⟩
      · exact iff_of_true hstate (.inl ⟨e, serials, rfl, hused⟩)
      · exact absurd hpass hrej
    | false =>
      -- the first serial is in, and the mints do not take it out
      have hin : spent.state.isUsedCoinSerial e.1 = true := by
        rw [← hspent, connectSpends, (checkSigmaSpendSerial_complete nHeight hcomplete e.1).mpr hused]
        apply connectSpends_keeps
        show (Function.update s.containers.usedCoinSerials e.1 _ e.1).isSome = true
        rw [Function.update_self]
        rfl
      have hkept : r.state.containers.usedCoinSerials = spent.state.containers.usedCoinSerials := by
        rcases hrest with ⟨-, rfl⟩ | ⟨-, entered, hmints, rfl⟩
        · rfl
        · exact (addMints_count _ _ _ hmints).1
      refine iff_of_false (fun hsame => ?_) (by simp [hused])
      unfold CSigmaState.isUsedCoinSerial at hin hused
      rw [← hkept, hsame, hused] at hin
      cases hin
  | nil =>
    rw [hserials] at hspent
    subst hspent
    rcases hrest with ⟨hrej, -⟩ | ⟨-, entered, hmints, rfl⟩
    · exact absurd rfl hrej
    obtain ⟨-, -, hlt⟩ := addMints_count _ _ _ hmints
    cases hempty : info.mints with
    | nil =>
      -- every denomination is skipped
      refine iff_of_true ?_ (.inr ⟨rfl, rfl⟩)
      rw [hempty] at hmints
      have hall : (env.denominationOrder.map fun d => (d, ([] : List G))).foldlM
          (CSigmaState.addDenomMints nHeight) (s, clearSigma index) = .ok (s, clearSigma index) :=
        foldlM_eq_self (forall_mem_map.mpr fun _ _ => rfl)
      unfold CSigmaState.addMintsToStateAndBlockIndex at hmints
      simp only [filter_nil, map_nil, connectSpends] at hmints
      rw [hall, Except.ok.injEq] at hmints
      rw [← hmints]
    | cons mint mints =>
      refine iff_of_false (fun hsame => ?_) ?_
      · obtain ⟨k, d, hkd⟩ := hlt ⟨_, mem_map.mpr
          ⟨mint.2, env.mem_denominationOrder mint.2, rfl⟩, by simp [hempty]⟩
        dsimp only [connectSpends] at hsame hkd
        rw [hsame] at hkd
        omega
      · simp

/-- **An accepted block** is within the limits, and its serials are different and unused. -/
theorem connectBlockSigma_accepted_iff :
    r.verdict = .accepted ↔ checkSigmaBlock params env pblock.vtx = .ok .accepted ∧
      FreshSpends s.containers.usedCoinSerials info.spentSerials := by
  rcases connectBlockSigma_cases hinfo hrun with ⟨hlimit, hrej, -⟩ | ⟨hcheck, spent, rfl, hrest⟩
  · exact iff_of_false hrej fun h => hlimit h.1
  rw [and_iff_right hcheck, ← connectSpends_accepted_iff nHeight hcomplete info.spentSerials s
    (clearSigma index)]
  rcases hrest with ⟨-, rfl⟩ | ⟨hpass, entered, -, rfl⟩
  · exact Iff.rfl
  · exact iff_of_true rfl hpass

omit hcomplete in
theorem connectBlockSigma_sporks :
    r.index.activeDisablingSporks = index.activeDisablingSporks := by
  unfold connectBlockSigma at hrun
  rw [hinfo] at hrun
  simp only [Bool.false_eq_true, if_false, or_false] at hrun
  obtain ⟨blockVerdict, -, hrun⟩ := bind_eq_ok.mp hrun
  have hspent := connectSpends_sporks info nHeight info.spentSerials s (clearSigma index)
  split at hrun
  · cases hrun
    rfl
  split at hrun
  · cases hrun
    exact hspent
  · obtain ⟨entered, hmints, hr⟩ := bind_eq_ok.mp hrun
    cases hr
    refine foldlM_invariant (fun st : CSigmaState F G × CBlockIndex F G =>
      st.2.activeDisablingSporks = index.activeDisablingSporks) ?_ hspent hmints
    intro st entry _ st' hst hstep
    unfold CSigmaState.addDenomMints at hstep
    split at hstep
    · cases hstep
      exact hst
    · obtain ⟨_, -, hstep⟩ := bind_eq_ok.mp hstep
      cases hstep
      exact hst

end Zcoin.Sigma
