/-
  Zcoin.Validation.ConnectBlock — the tail of `ConnectBlock` (`validation.cpp`)
  and `CSporkManager::IsBlockAllowed` (`evo/spork.cpp`).

  The tail connects the block to the Sigma state, then to the Lelantus state, and
  only then asks the spork manager.  None of the three undoes what an earlier one
  has written, and inside the first two a serial is written before the next one is
  checked.

  **MAIN RESULT**: `rejected_unchanged_iff`.
-/
import Zcoin.Lelantus.Reorg
import Zcoin.Sigma.Connect

namespace Zcoin.Validation

open Chain Lib Lelantus Std Lib.Except

variable {F G : Type} [DecidableEq F] [DecidableEq G]

/-! ## §1. `CSporkManager::IsBlockAllowed`. -/

/-- `CSporkAction::featureLelantusTransparentLimit`. -/
def featureLelantusTransparentLimit : String := "lelantustransparentlimit"

/-- `CSporkManager::IsBlockAllowed`. -/
def isBlockAllowed (vtx : List CTransaction) (index : CBlockIndex F G) : Verdict :=
  match index.activeDisablingSporks featureLelantusTransparentLimit with
  | some spork =>
    let totalTransparentOutput := (vtx.filter CTransaction.isLelantusJoinSplit).foldl
      (fun total tx => total + getSpendTransparentAmount tx) 0
    if totalTransparentOutput ≤ spork.2 then .accepted
    else .dos
      { level := 100, code := REJECT_CONFLICT, reason := "txn-lelantus-disabled"
        logged := "Block is over the transparent output limit because of existing spork" }
  | none => .accepted

/-! ## §2. The tail of `ConnectBlock`. -/

/-- What the tail leaves behind. -/
structure Tail (F G : Type) where
  verdict : Verdict
  sigmaState : Sigma.CSigmaState F G
  lelantusState : CLelantusState F G
  index : CBlockIndex F G

/-- The tail of `ConnectBlock`: `ConnectBlockSigma`, `ConnectBlockLelantus`,
`IsBlockAllowed`, for the block `block` with index `pindex` on top of `chain`. -/
def connectBlockTail (params : ConsensusParams G) (sigmaEnv : Sigma.Externals)
    (env : Lelantus.Externals F G) (sigmaState : Sigma.CSigmaState F G)
    (lelantusState : CLelantusState F G) (chain : CChain F G)
    (pindex : CBlockIndex F G) (block : CBlock F G) (fJustCheck : Bool) :
    Except Abort (Tail F G) := do
  let sigma ← Sigma.connectBlockSigma params sigmaEnv sigmaState chain.length pindex block
    fJustCheck
  if sigma.verdict ≠ .accepted then
    return ⟨sigma.verdict, sigma.state, lelantusState, sigma.index⟩
  let lelantus ← connectBlockLelantus params env lelantusState chain sigma.index block fJustCheck
  if lelantus.verdict ≠ .accepted then
    return ⟨lelantus.verdict, sigma.state, lelantus.state, lelantus.index⟩
  return ⟨isBlockAllowed block.vtx lelantus.index, sigma.state, lelantus.state, lelantus.index⟩

/-! ## §3. Lelantus serials stay, and counts only grow. -/

section Counts

variable {info : CLelantusTxInfo F G} {nHeight : Nat} {s s' : CLelantusState F G}

omit [DecidableEq G] in
theorem addSpend_usedCoinSerials {serial : F} {id : Int} (hrun : s.addSpend serial id = .ok s') :
    s'.containers.usedCoinSerials =
      Function.update s.containers.usedCoinSerials serial (some id) := by
  obtain ⟨c, hc, hs'⟩ := bind_eq_ok.mp hrun
  obtain ⟨-, rfl⟩ := Containers.addSpend_eq_ok_iff.mp hc
  cases hs'
  rfl

variable {r : Connected F G} {index : CBlockIndex F G}

omit [DecidableEq G] in
theorem connectSpends_keeps {serials : List (F × Int)} {serial : F}
    (hrun : connectSpends info nHeight false serials s index = .ok r)
    (hused : s.isUsedCoinSerial serial = true) : r.state.isUsedCoinSerial serial = true := by
  induction serials generalizing s index with
  | nil =>
    cases hrun
    exact hused
  | cons e serials ih =>
    unfold connectSpends at hrun
    split at hrun
    · cases hrun
      exact hused
    · simp only [Bool.false_eq_true, if_false] at hrun
      obtain ⟨s₁, hadd, hrest⟩ := bind_eq_ok.mp hrun
      refine ih hrest ?_
      unfold CLelantusState.isUsedCoinSerial
      rw [addSpend_usedCoinSerials hadd, Function.update_apply]
      split
      · rfl
      · exact hused

omit [DecidableEq F] in
theorem foldl_addMint_count (coins : List (G × Uint256)) (c : Containers F G)
    (coinInfo : CMintedCoinInfo) :
    (coins.foldl (fun c coin => c.addMint coin.1 coinInfo coin.2) c).usedCoinSerials
        = c.usedCoinSerials ∧
      (coins.foldl (fun c coin => c.addMint coin.1 coinInfo coin.2) c).mintMetaInfo.getD
          coinInfo.coinGroupId 0
        = c.mintMetaInfo.getD coinInfo.coinGroupId 0 + coins.length := by
  induction coins generalizing c with
  | nil => exact ⟨rfl, rfl⟩
  | cons coin coins ih =>
    obtain ⟨hspend, hmint⟩ := ih (c.addMint coin.1 coinInfo coin.2)
    refine ⟨hspend, ?_⟩
    rw [List.foldl_cons, hmint]
    show (c.mintMetaInfo.insert coinInfo.coinGroupId _).getD _ 0 + _ = _
    rw [OrderedMap.getD_insert, if_pos rfl, List.length_cons]
    omega

variable {chain : CChain F G}

omit [DecidableEq F] [DecidableEq G] in
theorem assignGroup_counts {n : Nat} (hrun : s.assignGroup chain nHeight n = .ok s') :
    s'.containers.usedCoinSerials = s.containers.usedCoinSerials ∧
      s'.containers.mintMetaInfo = s.containers.mintMetaInfo := by
  unfold CLelantusState.assignGroup at hrun
  dsimp only at hrun
  split at hrun
  · split at hrun
    · obtain ⟨-, -, hrun⟩ := bind_eq_ok.mp hrun
      obtain ⟨-, -, hrun⟩ := bind_eq_ok.mp hrun
      cases hrun
      exact ⟨rfl, rfl⟩
    · obtain ⟨-, -, hrun⟩ := bind_eq_ok.mp hrun
      obtain ⟨-, -, hrun⟩ := bind_eq_ok.mp hrun
      obtain ⟨-, -, hrun⟩ := bind_eq_ok.mp hrun
      cases hrun
      exact ⟨rfl, rfl⟩
  · cases hrun
    exact ⟨rfl, rfl⟩

omit [DecidableEq F] in
/-- Mints leave the serials alone; with none the state stays, with some a
mint count grows. -/
theorem connectMints_counts {params : ConsensusParams G} {env : Lelantus.Externals F G}
    {mints : List (G × Uint256)} (hrun : connectMints params env chain mints s index = .ok r) :
    r.state.containers.usedCoinSerials = s.containers.usedCoinSerials ∧
      (mints = [] → r.state = s) ∧
      (mints ≠ [] → ∃ k, s.containers.mintMetaInfo.getD k 0
        < r.state.containers.mintMetaInfo.getD k 0) := by
  obtain ⟨entered, henter, hstate, -⟩ := connectMints_fields hrun
  rw [hstate]
  unfold enterMints at henter
  by_cases hempty : mints = []
  · rw [hempty] at henter
    simp only [List.isEmpty_nil, if_true, Except.ok.injEq] at henter
    subst henter
    exact ⟨rfl, fun _ => rfl, fun hne => absurd hempty hne⟩
  · have hnotEmpty : mints.isEmpty = false := by simp [hempty]
    have hpos : 0 < mints.length := List.length_pos_iff.mpr hempty
    rw [hnotEmpty] at henter
    simp only [Bool.false_eq_true, if_false] at henter
    obtain ⟨s₁, hassign, hentered⟩ := bind_eq_ok.mp henter
    obtain ⟨hspend, hmint⟩ := assignGroup_counts hassign
    cases hentered
    obtain ⟨hspend₁, hmint₁⟩ :=
      foldl_addMint_count mints s₁.containers ⟨s₁.latestCoinId, chain.length⟩
    refine ⟨hspend₁.trans hspend, fun h => absurd h hempty, fun _ => ⟨s₁.latestCoinId, ?_⟩⟩
    dsimp only at hmint₁ ⊢
    rw [hmint₁, hmint]
    omega

end Counts

/-! ## §4. When a block leaves no trace. -/

section Trace

variable {params : ConsensusParams G} {env : Lelantus.Externals F G} {s : CLelantusState F G}
  {chain : CChain F G} {index : CBlockIndex F G} {pblock : CBlock F G}
  {info : CLelantusTxInfo F G} {r : Connected F G}

omit [DecidableEq G] in
theorem checkLelantusSpendSerial_complete (nHeight : Nat) (hinfo : info.fInfoIsComplete = true)
    (serial : F) :
    checkLelantusSpendSerial s (some info) serial nHeight true = .accepted ↔
      s.isUsedCoinSerial serial = false := by
  unfold checkLelantusSpendSerial
  simp only [Option.any_some, hinfo, Bool.not_true, Bool.false_and, Bool.false_eq_true, if_false,
    Bool.or_true, Bool.and_true]
  cases s.isUsedCoinSerial serial with
  | false => simp
  | true => simp [Verdict.dos]

/-- **A block that leaves the Lelantus state as it was**: it is over a limit, or
the first serial is already used, or it has neither serials nor mints. -/
theorem connectBlockLelantus_unchanged_iff (hinfo : pblock.lelantusTxInfo = some info)
    (hcomplete : info.fInfoIsComplete = true)
    (hrun : connectBlockLelantus params env s chain index pblock false = .ok r) :
    r.state = s ↔ checkLelantusBlock params env pblock.vtx ≠ .ok .accepted ∨
      (∃ e serials, info.spentSerials = e :: serials ∧ s.isUsedCoinSerial e.1 = true) ∨
      (info.spentSerials = [] ∧ info.mints = []) := by
  rcases connectBlockLelantus_cases hinfo hrun with ⟨hlimit, -, hsame⟩ | ⟨hacc, spent, hspent, hrest⟩
  · exact iff_of_true hsame (.inl hlimit)
  rw [or_iff_right (not_not.mpr hacc)]
  cases hserials : info.spentSerials with
  | cons e serials =>
    rw [hserials] at hspent
    cases hused : s.isUsedCoinSerial e.1 with
    | true =>
      -- the loop stops at the first serial
      unfold connectSpends at hspent
      cases hpass : checkLelantusSpendSerial s (some info) e.1 chain.length true with
      | accepted =>
        rw [checkLelantusSpendSerial_complete chain.length hcomplete, hused] at hpass
        cases hpass
      | rejected rej =>
        rw [hpass] at hspent
        cases hspent
        rcases hrest with ⟨-, rfl⟩ | ⟨hacc, -⟩
        · exact iff_of_true rfl (.inl ⟨e, serials, rfl, hused⟩)
        · cases hacc
    | false =>
      -- the first serial is in, and the mints do not take it out
      have hin : spent.state.isUsedCoinSerial e.1 = true := by
        rw [connectSpends, (checkLelantusSpendSerial_complete chain.length hcomplete e.1).mpr hused]
          at hspent
        simp only [Bool.false_eq_true, if_false] at hspent
        obtain ⟨s₁, hadd, hspent⟩ := bind_eq_ok.mp hspent
        refine connectSpends_keeps hspent ?_
        unfold CLelantusState.isUsedCoinSerial
        rw [addSpend_usedCoinSerials hadd, Function.update_self]
        rfl
      have hkept : r.state.containers.usedCoinSerials = spent.state.containers.usedCoinSerials := by
        rcases hrest with ⟨-, rfl⟩ | ⟨-, hmints⟩
        · rfl
        · exact (connectMints_counts hmints).1
      refine iff_of_false (fun hsame => ?_) (by simp [hused])
      unfold CLelantusState.isUsedCoinSerial at hin hused
      rw [← hkept, hsame, hused] at hin
      cases hin
  | nil =>
    rw [hserials] at hspent
    cases hspent
    obtain ⟨hrej, -⟩ | ⟨-, hrun⟩ := hrest
    · exact absurd rfl hrej
    obtain ⟨-, hnone, hsome⟩ := connectMints_counts hrun
    cases hmints : info.mints with
    | nil =>
      refine iff_of_true (hnone ?_) (.inr ⟨rfl, rfl⟩)
      rw [blockMints, hmints]
      rfl
    | cons mint mints =>
      refine iff_of_false (fun hsame => ?_) (by simp)
      obtain ⟨k, hk⟩ := hsome (by rw [blockMints, hmints]; simp)
      rw [hsame] at hk
      dsimp only at hk
      omega

omit [DecidableEq G] in
theorem connectSpends_accepted_iff (hcomplete : info.fInfoIsComplete = true) {nHeight : Nat}
    {serials : List (F × Int)} (hrun : connectSpends info nHeight false serials s index = .ok r) :
    r.verdict = .accepted ↔ FreshSpends s.containers.usedCoinSerials serials := by
  induction serials generalizing s index with
  | nil =>
    cases hrun
    exact iff_of_true rfl ⟨List.nodup_nil, List.forall_mem_nil _⟩
  | cons e serials ih =>
    have hcheck := checkLelantusSpendSerial_complete (s := s) nHeight hcomplete e.1
    rw [freshSpends_cons, ← Option.isNone_iff_eq_none, ← Option.isSome_eq_false_iff]
    unfold connectSpends at hrun
    cases hverdict : checkLelantusSpendSerial s (some info) e.1 nHeight true with
    | rejected rej =>
      rw [hverdict] at hrun
      cases hrun
      refine iff_of_false (fun h => by cases h) fun hfresh => ?_
      rw [hcheck.mpr hfresh.1] at hverdict
      cases hverdict
    | accepted =>
      rw [hverdict] at hrun
      simp only [Bool.false_eq_true, if_false] at hrun
      obtain ⟨s₁, hadd, hrest⟩ := bind_eq_ok.mp hrun
      rw [ih hrest, addSpend_usedCoinSerials hadd]
      exact (and_iff_right (hcheck.mp hverdict)).symm

theorem connectBlockLelantus_accepted_iff (hinfo : pblock.lelantusTxInfo = some info)
    (hcomplete : info.fInfoIsComplete = true)
    (hrun : connectBlockLelantus params env s chain index pblock false = .ok r) :
    r.verdict = .accepted ↔ checkLelantusBlock params env pblock.vtx = .ok .accepted ∧
      FreshSpends s.containers.usedCoinSerials info.spentSerials := by
  rcases connectBlockLelantus_cases hinfo hrun with
    ⟨hlimit, hrej, -⟩ | ⟨hcheck, spent, hspent, hrest⟩
  · exact iff_of_false hrej fun h => hlimit h.1
  rw [and_iff_right hcheck, ← connectSpends_accepted_iff hcomplete hspent]
  rcases hrest with ⟨-, rfl⟩ | ⟨hpass, hmints⟩
  · exact Iff.rfl
  · obtain ⟨_, _, _, -, -, -, rfl⟩ := connectMints_ok hmints
    exact iff_of_true rfl hpass

omit [DecidableEq G] in
theorem connectSpends_sporks {nHeight : Nat} {serials : List (F × Int)}
    (hrun : connectSpends info nHeight false serials s index = .ok r) :
    r.index.activeDisablingSporks = index.activeDisablingSporks := by
  induction serials generalizing s index with
  | nil =>
    cases hrun
    rfl
  | cons e serials ih =>
    unfold connectSpends at hrun
    split at hrun
    · cases hrun
      rfl
    · simp only [Bool.false_eq_true, if_false] at hrun
      obtain ⟨s₁, -, hrest⟩ := bind_eq_ok.mp hrun
      exact (ih hrest).trans rfl

theorem connectBlockLelantus_sporks (hinfo : pblock.lelantusTxInfo = some info)
    (hrun : connectBlockLelantus params env s chain index pblock false = .ok r)
    (hacc : r.verdict = .accepted) :
    r.index.activeDisablingSporks = index.activeDisablingSporks := by
  rcases connectBlockLelantus_cases hinfo hrun with
    ⟨-, hrej, -⟩ | ⟨-, spent, hspent, ⟨hrej, rfl⟩ | ⟨-, hmints⟩⟩
  · exact absurd hacc hrej
  · exact absurd hacc hrej
  · obtain ⟨entered, _, _, henter, -, -, rfl⟩ := connectMints_ok hmints
    have hentered : entered.2.activeDisablingSporks = spent.index.activeDisablingSporks := by
      unfold enterMints at henter
      split at henter
      · cases henter
        rfl
      · obtain ⟨_, -, henter⟩ := bind_eq_ok.mp henter
        cases henter
        rfl
    have hspentIndex := connectSpends_sporks hspent
    refine Eq.trans ?_ (hentered.trans hspentIndex)
    dsimp only
    split
    · rfl
    · rfl

end Trace

/-- **Nothing is written**, in terms of the block and the states before it: the
block stops at a Sigma limit or at its first Sigma serial, or it has nothing for
the Sigma state and stops at a Lelantus limit or its first Lelantus serial, or it
has nothing for either state. -/
def NothingWritten (params : ConsensusParams G) (sigmaEnv : Sigma.Externals)
    (env : Lelantus.Externals F G) (sigmaState : Sigma.CSigmaState F G)
    (lelantusState : CLelantusState F G) (vtx : List CTransaction) (sigmaInfo : CSigmaTxInfo F G)
    (lelantusInfo : CLelantusTxInfo F G) : Prop :=
  Sigma.checkSigmaBlock params sigmaEnv vtx ≠ .ok .accepted ∨
  (∃ e serials, sigmaInfo.spentSerials = e :: serials ∧
    sigmaState.isUsedCoinSerial e.1 = true) ∨
  ((sigmaInfo.spentSerials = [] ∧ sigmaInfo.mints = []) ∧
    (checkLelantusBlock params env vtx ≠ .ok .accepted ∨
      (∃ e serials, lelantusInfo.spentSerials = e :: serials ∧
        lelantusState.isUsedCoinSerial e.1 = true) ∨
      (lelantusInfo.spentSerials = [] ∧ lelantusInfo.mints = [])))

/-- **The block passes**, in terms of the block and the states before it: it is within
the limits, its serials are different and unused, and no spork forbids it. -/
structure Passes (params : ConsensusParams G) (sigmaEnv : Sigma.Externals)
    (env : Lelantus.Externals F G) (sigmaState : Sigma.CSigmaState F G)
    (lelantusState : CLelantusState F G) (pindex : CBlockIndex F G) (vtx : List CTransaction)
    (sigmaInfo : CSigmaTxInfo F G) (lelantusInfo : CLelantusTxInfo F G) : Prop where
  sigmaLimits : Sigma.checkSigmaBlock params sigmaEnv vtx = .ok .accepted
  sigmaSerials : FreshSpends sigmaState.containers.usedCoinSerials sigmaInfo.spentSerials
  lelantusLimits : checkLelantusBlock params env vtx = .ok .accepted
  lelantusSerials : FreshSpends lelantusState.containers.usedCoinSerials lelantusInfo.spentSerials
  allowed : isBlockAllowed vtx pindex = .accepted

section Tail

-- `ConnectBlock` has filled and completed both collectors by the time it reaches its tail
variable {params : ConsensusParams G} {sigmaEnv : Sigma.Externals}
  {env : Lelantus.Externals F G} {sigmaState : Sigma.CSigmaState F G}
  {lelantusState : CLelantusState F G} {chain : CChain F G}
  {pindex : CBlockIndex F G} {block : CBlock F G} {sigmaInfo : CSigmaTxInfo F G}
  {lelantusInfo : CLelantusTxInfo F G} {r : Tail F G}
  (hsigma : block.sigmaTxInfo = some sigmaInfo) (hsigmaDone : sigmaInfo.fInfoIsComplete = true)
  (hlelantus : block.lelantusTxInfo = some lelantusInfo)
  (hlelantusDone : lelantusInfo.fInfoIsComplete = true)
  (hrun : connectBlockTail params sigmaEnv env sigmaState lelantusState chain pindex block false
    = .ok r)
include hsigma hsigmaDone hlelantus hlelantusDone hrun

/-- **The states are as before**, in every field, exactly when nothing was written. -/
theorem connectBlockTail_unchanged_iff :
    (r.sigmaState = sigmaState ∧ r.lelantusState = lelantusState) ↔
      NothingWritten params sigmaEnv env sigmaState lelantusState block.vtx sigmaInfo
        lelantusInfo := by
  unfold connectBlockTail at hrun
  obtain ⟨c, hc, hrun⟩ := bind_eq_ok.mp hrun
  have hunchanged := Sigma.connectBlockSigma_unchanged_iff hsigma hsigmaDone hc
  have haccepted := Sigma.connectBlockSigma_accepted_iff hsigma hsigmaDone hc
  unfold NothingWritten
  by_cases hverdict : c.verdict ≠ .accepted
  · -- the Sigma side rejected, so the Lelantus state was not reached
    rw [if_pos hverdict] at hrun
    cases hrun
    dsimp only
    rw [hunchanged]
    constructor
    · rintro ⟨hlimit | hused | ⟨hserials, hmints⟩, -⟩
      · exact .inl hlimit
      · exact .inr (.inl hused)
      · refine .inl fun hlimit => hverdict (haccepted.mpr ⟨hlimit, ?_⟩)
        rw [hserials]
        exact ⟨List.nodup_nil, nofun⟩
    · intro hnothing
      exact ⟨hnothing.imp_right (Or.imp_right And.left), rfl⟩
  · -- the Sigma side accepted: it wrote unless it had nothing to write
    rw [if_neg hverdict] at hrun
    simp only [not_not] at hverdict
    obtain ⟨hlimit, hfresh⟩ := haccepted.mp hverdict
    obtain ⟨l, hl, hrun⟩ := bind_eq_ok.mp hrun
    have hstates : r.sigmaState = c.state ∧ r.lelantusState = l.state := by
      split at hrun
      all_goals
        cases hrun
        exact ⟨rfl, rfl⟩
    rw [hstates.1, hstates.2, hunchanged,
      connectBlockLelantus_unchanged_iff hlelantus hlelantusDone hl]
    have hunused : ¬ ∃ e serials, sigmaInfo.spentSerials = e :: serials ∧
        sigmaState.isUsedCoinSerial e.1 = true := by
      rintro ⟨e, serials, heq, hused⟩
      unfold Sigma.CSigmaState.isUsedCoinSerial at hused
      rw [hfresh.unused e (heq ▸ List.mem_cons_self)] at hused
      cases hused
    simp only [hlimit, hunused, ne_eq, not_true_eq_false, false_or]

/-- **The tail accepts** exactly the blocks that pass. -/
theorem connectBlockTail_accepted_iff :
    r.verdict = .accepted ↔ Passes params sigmaEnv env sigmaState lelantusState pindex block.vtx
      sigmaInfo lelantusInfo := by
  unfold connectBlockTail at hrun
  obtain ⟨c, hc, hrun⟩ := bind_eq_ok.mp hrun
  have haccepted := Sigma.connectBlockSigma_accepted_iff hsigma hsigmaDone hc
  split at hrun
  · next hrej =>
    cases hrun
    exact iff_of_false hrej fun h => hrej (haccepted.mpr ⟨h.sigmaLimits, h.sigmaSerials⟩)
  next hpass =>
  obtain ⟨hlimits, hserials⟩ := haccepted.mp (not_not.mp hpass)
  obtain ⟨l, hl, hrun⟩ := bind_eq_ok.mp hrun
  have haccepted := connectBlockLelantus_accepted_iff hlelantus hlelantusDone hl
  split at hrun
  · next hrej =>
    cases hrun
    exact iff_of_false hrej fun h => hrej (haccepted.mpr ⟨h.lelantusLimits, h.lelantusSerials⟩)
  next hpass =>
  obtain ⟨hlimits', hserials'⟩ := haccepted.mp (not_not.mp hpass)
  cases hrun
  have hsporks : isBlockAllowed block.vtx l.index = isBlockAllowed block.vtx pindex := by
    unfold isBlockAllowed
    rw [connectBlockLelantus_sporks hlelantus hl (not_not.mp hpass),
      Sigma.connectBlockSigma_sporks hsigma hc]
  dsimp only
  rw [hsporks]
  exact ⟨fun hallowed => ⟨hlimits, hserials, hlimits', hserials', hallowed⟩, Passes.allowed⟩

/-- **A rejection leaves both states as they were**, so that a later block is judged as if the
rejected one had never been seen, exactly when nothing was written or the block passes. -/
theorem rejected_unchanged_iff :
    (r.verdict ≠ .accepted → r.sigmaState = sigmaState ∧ r.lelantusState = lelantusState) ↔
      NothingWritten params sigmaEnv env sigmaState lelantusState block.vtx sigmaInfo
        lelantusInfo ∨
      Passes params sigmaEnv env sigmaState lelantusState pindex block.vtx sigmaInfo
        lelantusInfo := by
  rw [connectBlockTail_unchanged_iff hsigma hsigmaDone hlelantus hlelantusDone hrun,
    ← connectBlockTail_accepted_iff hsigma hsigmaDone hlelantus hlelantusDone hrun]
  constructor
  · intro hunchanged
    by_cases hacc : r.verdict = .accepted
    · exact .inr hacc
    · exact .inl (hunchanged hacc)
  · rintro (hnothing | hacc) hrej
    · exact hnothing
    · exact absurd hacc hrej

end Tail

/-! ## §5. A rejected block that leaves traces. -/

/-- Sigma side of concrete runs in which no spend is parsed. -/
def sampleSigmaExternals : Sigma.Externals where
  readCoinSpend := fun _ => .error .iosFailure
  denominationOrder := Sigma.CoinDenomination.all
  mem_denominationOrder := Sigma.CoinDenomination.mem_all

/-- A block with nothing for the Sigma state. -/
def sampleLelantusBlock (coins : List Int) (serials : List (Nat × Int)) : CBlock Nat Int :=
  { sampleBlock coins serials with sigmaTxInfo := some { fInfoIsComplete := true } }

/-- The index of a block under a spork that allows no transparent output. -/
def sampleLimitedIndex : CBlockIndex Nat Int :=
  { hash := 9
    activeDisablingSporks := fun feature =>
      if feature = featureLelantusTransparentLimit then some (0, -1) else none }

/-- After a block that minted coins 1 and 2 and one that spent serial 8, a block with a mint and
the serials 8 and 7 is rejected at 8, before anything is written. -/
theorem rejected_unchanged_first_serial :
    ∃ s chain, Reachable sampleParams sampleExternals 3 2 s chain ∧
      ∃ r, connectBlockTail sampleParams sampleSigmaExternals sampleExternals {} s chain
          { hash := 9 } (sampleLelantusBlock [3] [(8, 1), (7, 1)]) false = .ok r ∧
        r.verdict ≠ .accepted ∧ r.sigmaState = {} ∧ r.lelantusState = s := by
  obtain ⟨⟨s, chain⟩, hreached, hused, htail⟩ : ∃ p ∈ sampleRun sampleParams 3 2
      [([], [(8, 1)]), ([1, 2], [])], p.1.isUsedCoinSerial 8 = true ∧
        ∃ r ∈ (connectBlockTail sampleParams sampleSigmaExternals sampleExternals {} p.1 p.2
          { hash := 9 } (sampleLelantusBlock [3] [(8, 1), (7, 1)]) false).toOption,
            r.verdict ≠ .accepted := by
    decide +kernel
  obtain ⟨r, hr, hrej⟩ := htail
  have hrun := eq_ok_of_toOption hr
  exact ⟨s, chain, reachable_of_sampleRun hreached, r, hrun, hrej,
    (rejected_unchanged_iff rfl rfl rfl rfl hrun).mpr
      (.inl (.inr (.inr ⟨⟨rfl, rfl⟩, .inr (.inl ⟨_, _, rfl, hused⟩)⟩))) hrej⟩

/-- The tail rejects the block, and serial 7 or coin 3 is in the state afterwards. -/
def sampleTrace (index : CBlockIndex Nat Int) (block : CBlock Nat Int)
    (p : CLelantusState Nat Int × CChain Nat Int) : Bool :=
  match connectBlockTail sampleParams sampleSigmaExternals sampleExternals {} p.1 p.2 index block
    false with
  | .ok r => decide (r.verdict ≠ .accepted) &&
    (!p.1.isUsedCoinSerial 7 && r.lelantusState.isUsedCoinSerial 7 ||
      !p.1.hasCoin 3 && r.lelantusState.hasCoin 3)
  | .error _ => false

theorem sampleTrace_unpack {index : CBlockIndex Nat Int} {block : CBlock Nat Int}
    {p : CLelantusState Nat Int × CChain Nat Int}
    (htest : sampleTrace index block p = true) :
    ∃ r, connectBlockTail sampleParams sampleSigmaExternals sampleExternals {} p.1 p.2 index block
        false = .ok r ∧ r.verdict ≠ .accepted ∧ r.lelantusState ≠ p.1 := by
  unfold sampleTrace at htest
  split at htest
  · next r hr =>
    rw [Bool.and_eq_true, decide_eq_true_eq] at htest
    refine ⟨r, hr, htest.1, ?_⟩
    intro hsame
    rw [hsame] at htest
    simp at htest
  · cases htest

/-- **Two rejected blocks that leave traces**, after a block that minted coins 1
and 2 and one that spent serial 8.  The first block spends serials 7 and 8 and is
rejected at 8, with 7 already written; the second mints coin 3 and is rejected by
a spork that is asked last. -/
theorem rejected_block_leaves_traces :
    ∃ s chain, Reachable sampleParams sampleExternals 3 2 s chain ∧
      (∃ r, connectBlockTail sampleParams sampleSigmaExternals sampleExternals {} s chain
          { hash := 9 } (sampleLelantusBlock [] [(7, 1), (8, 1)]) false = .ok r ∧
        r.verdict ≠ .accepted ∧ r.lelantusState ≠ s) ∧
      ∃ r, connectBlockTail sampleParams sampleSigmaExternals sampleExternals {} s chain
          sampleLimitedIndex (sampleLelantusBlock [3] []) false = .ok r ∧
        r.verdict ≠ .accepted ∧ r.lelantusState ≠ s := by
  obtain ⟨⟨s, chain⟩, hrun, hspends, hmints⟩ : ∃ p ∈ sampleRun sampleParams 3 2
      [([], [(8, 1)]), ([1, 2], [])],
      sampleTrace { hash := 9 } (sampleLelantusBlock [] [(7, 1), (8, 1)]) p = true ∧
        sampleTrace sampleLimitedIndex (sampleLelantusBlock [3] []) p = true := by
    decide +kernel
  exact ⟨s, chain, reachable_of_sampleRun hrun, sampleTrace_unpack hspends,
    sampleTrace_unpack hmints⟩

end Zcoin.Validation
