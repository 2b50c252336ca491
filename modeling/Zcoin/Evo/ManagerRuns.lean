/-
  Zcoin.Evo.ManagerRuns — what the manager answers over whole runs.

  Blocks are connected to and taken from a tip in a tree of block indexes while lists
  are asked for anywhere in the tree.  A list that is cached for a block before it is
  connected stays there, so the answer for the connected block is the empty list until
  the clean-up reaches it.
-/
import Zcoin.Evo.ManagerSpec

namespace Zcoin.Evo

open Std Function List
open Chain Lib Lib.Except
open CDeterministicMNList CDeterministicMNManager

variable {η : Type} [DecidableEq η] {env : EvoExternals η} {collateralAt : Uint256 → COutPoint}
  {params : EvoParams} {tree : BlockTree}

/-! ## §1. Runs. -/

/-- The manager with the tip of the chain.  `built` records the list that was built for each
connected block. -/
structure ChainState (η : Type) where
  manager : CDeterministicMNManager η
  tip : List Uint256
  built : List Uint256 → Option (CDeterministicMNList η)

/-- One call.  `Meets` is asked of every block that is connected with a list. -/
inductive ManagerStep (env : EvoExternals η) (params : EvoParams) (tree : BlockTree)
    (collateralAt : Uint256 → COutPoint)
    (Meets : ChainState η → Uint256 → EvoBlock → CDeterministicMNList η → Prop) :
    ChainState η → ChainState η → Prop
  /-- `GetListForBlock`, on any block index -/
  | query {s : ChainState η} {q : List Uint256} (hq : tree.mem q)
      {list : CDeterministicMNList η} {m' : CDeterministicMNManager η}
      (hrun : getListForBlock env s.manager q = .ok (list, m')) :
      ManagerStep env params tree collateralAt Meets s { s with manager := m' }
  /-- `ProcessBlock` with `fJustCheck` -/
  | check {s : ChainState η} {h : Uint256} {block : EvoBlock}
      {m' : CDeterministicMNManager η} {verdict : Verdict}
      (hrun : processBlock env params s.manager h s.tip block true = .ok (m', verdict)) :
      ManagerStep env params tree collateralAt Meets s { s with manager := m' }
  /-- `ProcessBlock` that fails; the transaction on `evoDb` is rolled back -/
  | reject {s : ChainState η} {h : Uint256} {block : EvoBlock}
      {m' : CDeterministicMNManager η} {r : Option Rejection}
      (hrun : processBlock env params s.manager h s.tip block false = .ok (m', .rejected r)) :
      ManagerStep env params tree collateralAt Meets s
        { s with manager :=
            { m' with listDiffs := s.manager.listDiffs, snapshots := s.manager.snapshots } }
  /-- `ProcessBlock` below the activation height -/
  | early {s : ChainState η} {h : Uint256} {block : EvoBlock} (hmem : tree.mem (h :: s.tip))
      (hearly : s.tip.length < params.DIP0003Height) {m' : CDeterministicMNManager η}
      (hrun : processBlock env params s.manager h s.tip block false = .ok (m', .accepted)) :
      ManagerStep env params tree collateralAt Meets s
        { s with manager := m', tip := h :: s.tip }
  /-- `ProcessBlock` that connects a block with its list -/
  | connect {s : ChainState η} {h : Uint256} {block : EvoBlock} (hmem : tree.mem (h :: s.tip))
      (hactive : ¬ s.tip.length < params.DIP0003Height)
      (htxs : ∀ tx ∈ block.vtx.tail, CheckedTx env (block.context s.tip) collateralAt tx)
      {oldList newList : CDeterministicMNList η} {m₁ m' : CDeterministicMNManager η}
      (hold : getListForBlock env s.manager s.tip = .ok (oldList, m₁))
      (hbuild : buildNewListFromBlock env (block.context s.tip) oldList block.vtx = .ok newList)
      (hrun : processBlock env params s.manager h s.tip block false = .ok (m', .accepted))
      (hmeets : Meets s h block newList) :
      ManagerStep env params tree collateralAt Meets s
        { manager := m'
          tip := h :: s.tip
          built := Function.update s.built (h :: s.tip)
            (some { newList with blockHash := h, nHeight := s.tip.length }) }
  /-- `UndoBlock` of the tip -/
  | undo {s : ChainState η} {h : Uint256} {p : List Uint256} (htip : s.tip = h :: p)
      (hp : p ≠ []) {m' : CDeterministicMNManager η}
      (hrun : undoBlock env s.manager h p = .ok m') :
      ManagerStep env params tree collateralAt Meets s
        { manager := m', tip := p, built := Function.update s.built (h :: p) none }

/-- Runs from a new manager, with a tip below the activation height or the genesis block. -/
inductive ManagerReachable (env : EvoExternals η) (params : EvoParams) (tree : BlockTree)
    (collateralAt : Uint256 → COutPoint)
    (Meets : ChainState η → Uint256 → EvoBlock → CDeterministicMNList η → Prop) :
    ChainState η → Prop
  | start {tip : List Uint256} (hmem : tree.mem tip)
      (hlow : tip.length ≤ max 1 params.DIP0003Height) :
      ManagerReachable env params tree collateralAt Meets ⟨{}, tip, fun _ => none⟩
  | step {s s' : ChainState η} (hreach : ManagerReachable env params tree collateralAt Meets s)
      (hstep : ManagerStep env params tree collateralAt Meets s s') :
      ManagerReachable env params tree collateralAt Meets s'

/-- **What connecting a block needs**: nothing is cached for it, unless the clean-up at its
height removes it; and a snapshot is written or the difference of the block reapplies. -/
def FreshlyConnected (collateralAt : Uint256 → COutPoint) (s : ChainState η) (h : Uint256)
    (block : EvoBlock) (newList : CDeterministicMNList η) : Prop :=
  (s.manager.mnListsCache h = none ∨ 575 < s.tip.length) ∧
  (s.tip.length % SNAPSHOT_LIST_PERIOD = 0 ∨ s.built s.tip = none ∨
    (∀ tx ∈ block.vtx.tail, isProRegTx tx = true →
      tx.hash ∉ (served s.built s.tip).mnMap ∧ collateralAt tx.hash ∉ spentOutputs block.vtx) ∧
    ¬ HandsOver (served s.built s.tip) newList)

/-! ## §2. The invariant. -/

/-- The lists are those of blocks up to the tip, and the manager is faithful to them. -/
structure ChainInv (env : EvoExternals η) (tree : BlockTree) (collateralAt : Uint256 → COutPoint)
    (s : ChainState η) : Prop where
  tip : tree.mem s.tip
  onChain : ∀ q list, s.built q = some list → tree.mem q ∧ q <:+ s.tip
  faithful : Faithful env collateralAt tree s.manager s.built

variable {s : ChainState η}

theorem ChainInv.above (hinv : ChainInv env tree collateralAt s)
    {q : List Uint256} (hlen : s.tip.length < q.length) : s.built q = none := by
  refine Option.eq_none_iff_forall_ne_some.mpr ?_
  intro list hlist
  have hle := (hinv.onChain q list hlist).2.length_le
  omega

theorem ChainInv.tip_ne_nil (hinv : ChainInv env tree collateralAt s) : s.tip ≠ [] := by
  intro hnil
  exact tree.not_mem_nil (hnil ▸ hinv.tip)

variable {m' : CDeterministicMNManager η}

theorem ChainInv.withManager (hinv : ChainInv env tree collateralAt s)
    (hf : Faithful env collateralAt tree m' s.built) :
    ChainInv env tree collateralAt { s with manager := m' } :=
  ⟨hinv.tip, hinv.onChain, hf⟩

theorem ChainInv.ask (hinj : Injective env.serializeHash) {m : CDeterministicMNManager η}
    {built : List Uint256 → Option (CDeterministicMNList η)}
    (hf : Faithful env collateralAt tree m built) {q : List Uint256} (hq : tree.mem q)
    {list : CDeterministicMNList η} (hrun : getListForBlock env m q = .ok (list, m')) :
    list = served built q ∧ Asked env collateralAt tree built q m m' := by
  obtain ⟨m₁, hserved, hasked⟩ := getListForBlock_served hinj hf hq
  rw [hserved] at hrun
  cases hrun
  exact ⟨rfl, hasked⟩

/-- `ProcessBlock` that connects nothing leaves right answers in the cache. -/
theorem ChainInv.processBlock_cache (hinj : Injective env.serializeHash)
    (hinv : ChainInv env tree collateralAt s) {h : Uint256} {block : EvoBlock} {fJustCheck : Bool}
    {verdict : Verdict}
    (hrun : processBlock env params s.manager h s.tip block fJustCheck = .ok (m', verdict))
    (hnot : fJustCheck = true ∨ ∃ r, verdict = .rejected r) :
    ∃ m₁, Asked env collateralAt tree s.built s.tip s.manager m₁ ∧
      m'.mnListsCache = m₁.mnListsCache ∧ (fJustCheck = true → SameDisk s.manager m') := by
  by_cases hactive : s.tip.length < params.DIP0003Height
  · unfold processBlock at hrun
    rw [if_pos hactive] at hrun
    cases hrun
    exact ⟨s.manager, ⟨hinv.faithful, ⟨rfl, rfl⟩, fun _ _ => rfl⟩, rfl, fun _ => ⟨rfl, rfl⟩⟩
  · obtain ⟨oldList, m₁, hold, hend⟩ := processBlock_cases hactive hrun
    obtain ⟨-, hasked⟩ := ChainInv.ask hinj hinv.faithful hinv.tip hold
    rcases hend with ⟨heq, -⟩ | ⟨hfalse, newList, -, hstore⟩
    · subst heq
      exact ⟨m', hasked, rfl, fun _ => hasked.disk⟩
    · obtain ⟨oldList', m₂, hold', hend⟩ := storeBlock_cases hstore
      obtain ⟨-, hasked'⟩ := ChainInv.ask hinj hasked.faithful hinv.tip hold'
      have hboth : Asked env collateralAt tree s.built s.tip s.manager m₂ :=
        ⟨hasked'.faithful, hasked.disk.trans hasked'.disk,
          fun k hk => (hasked'.frame k hk).trans (hasked.frame k hk)⟩
      rcases hend with ⟨haccepted, -⟩ | ⟨-, hcache⟩
      · -- accepted and not only checked: excluded
        exfalso
        rcases hnot with htrue | ⟨r, hrejected⟩
        · rw [hfalse] at htrue
          cases htrue
        · rw [haccepted] at hrejected
          cases hrejected
      · refine ⟨m₂, hboth, hcache, ?_⟩
        intro htrue
        rw [hfalse] at htrue
        cases htrue

theorem context_nHeight (block : EvoBlock) {p : List Uint256} (hp : p ≠ []) :
    (block.context p).nHeight = p.length := by
  have hpos := length_pos_of_ne_nil hp
  show ((p.length - 1 : Nat) : Int) + 1 = p.length
  omega

variable (hinj : Injective env.serializeHash)
include hinj

/-- **Connecting a block** under its condition. -/
theorem ChainInv.connect
    (hinv : ChainInv env tree collateralAt s) {h : Uint256} {block : EvoBlock}
    (hmem : tree.mem (h :: s.tip)) (hactive : ¬ s.tip.length < params.DIP0003Height)
    (htxs : ∀ tx ∈ block.vtx.tail, CheckedTx env (block.context s.tip) collateralAt tx)
    {oldList newList : CDeterministicMNList η} {m₁ : CDeterministicMNManager η}
    (hold : getListForBlock env s.manager s.tip = .ok (oldList, m₁))
    (hbuild : buildNewListFromBlock env (block.context s.tip) oldList block.vtx = .ok newList)
    (hrun : processBlock env params s.manager h s.tip block false = .ok (m', .accepted))
    (hmeets : FreshlyConnected collateralAt s h block newList) :
    Faithful env collateralAt tree m' (update s.built (h :: s.tip)
      (some { newList with blockHash := h, nHeight := s.tip.length })) := by
  obtain ⟨hlist, hasked⟩ := ChainInv.ask hinj hinv.faithful hinv.tip hold
  subst hlist
  have hreach := hinv.faithful.reachable hinv.tip
  obtain ⟨hc, hcoll⟩ := hreach.invariant hinj
  have hbuilt := (ensures_buildNewListFromBlock hinj hc hcoll htxs).of_ok hbuild
  have hheight : newList.nHeight = s.tip.length := by
    rw [hbuilt.nHeight, context_nHeight block hinv.tip_ne_nil]
  -- the list of the block is reachable, its height being the one it was built with
  have hnew : ListReachable env collateralAt
      { newList with blockHash := h, nHeight := (s.tip.length : Int) } := by
    rw [← hheight]
    exact .block h hreach htxs hbuild
  obtain ⟨oldList', m₁', hold', hend⟩ := processBlock_cases hactive hrun
  rw [hold] at hold'
  cases hold'
  rcases hend with ⟨-, hfalse | ⟨r, hrejected⟩⟩ | ⟨-, newList', hbuild', hstore⟩
  · cases hfalse
  · cases hrejected
  rw [hbuild] at hbuild'
  cases hbuild'
  obtain ⟨oldList₂, m₂, hold₂, hend⟩ := storeBlock_cases hstore
  obtain ⟨hlist₂, hasked₂⟩ := ChainInv.ask hinj hasked.faithful hinv.tip hold₂
  subst hlist₂
  rcases hend with ⟨-, hwritten⟩ | ⟨⟨r, hrejected⟩, -⟩
  · rw [hwritten hheight]
    have hdue : (s.tip.length % SNAPSHOT_LIST_PERIOD = 0 ∨ (served s.built s.tip).nHeight = -1) ∨
        (served s.built s.tip).applyDiff env.serializeHash h s.tip.length
          ((served s.built s.tip).buildDiff
            { newList with blockHash := h, nHeight := (s.tip.length : Int) }) =
          .ok { newList with blockHash := h, nHeight := (s.tip.length : Int) } := by
      rcases hmeets.2 with hperiod | hfirst | hreapplies
      · exact .inl (.inl hperiod)
      · refine .inl (.inr ?_)
        unfold served
        rw [hfirst]
        rfl
      · exact .inr ((blockDiff_iff hinj hreach htxs hbuild h s.tip.length).mpr hreapplies)
    refine hasked₂.faithful.connect hmem hinv.tip_ne_nil ?_ ?_ hnew hdue ?_
    · exact hinv.above (by simp)
    · intro k
      exact hinv.above (by simp only [length_cons]; omega)
    · -- asking for the list below does not touch the block
      have hout := BlockTree.not_mem_below hmem
      rw [hasked₂.frame h hout, hasked.frame h hout]
      exact hmeets.1
  · cases hrejected

theorem ChainInv.step {s' : ChainState η} (hinv : ChainInv env tree collateralAt s)
    (hstep : ManagerStep env params tree collateralAt (FreshlyConnected collateralAt) s s') :
    ChainInv env tree collateralAt s' := by
  cases hstep with
  | query hq hrun =>
    exact hinv.withManager (ChainInv.ask hinj hinv.faithful hq hrun).2.faithful
  | check hrun =>
    obtain ⟨m₁, hasked, hcache, hdisk⟩ := hinv.processBlock_cache hinj hrun (.inl rfl)
    refine hinv.withManager (hinv.faithful.congr (hdisk rfl) ?_)
    rw [hcache]
    exact hasked.faithful.cache
  | reject hrun =>
    obtain ⟨m₁, hasked, hcache, -⟩ := hinv.processBlock_cache hinj hrun (.inr ⟨_, rfl⟩)
    refine hinv.withManager (hinv.faithful.congr ⟨rfl, rfl⟩ ?_)
    show ∀ h p list, tree.mem (h :: p) → (_ : CDeterministicMNManager η).mnListsCache h = _ → _
    rw [hcache]
    exact hasked.faithful.cache
  | early hmem hearly hrun =>
    unfold processBlock at hrun
    rw [if_pos hearly] at hrun
    cases hrun
    refine ⟨hmem, ?_, hinv.faithful⟩
    intro q list hlist
    obtain ⟨hq, hsuffix⟩ := hinv.onChain q list hlist
    exact ⟨hq, hsuffix.trans (suffix_cons _ _)⟩
  | @connect h _ hmem hactive htxs _ _ _ _ hold hbuild hrun hmeets =>
    refine ⟨hmem, ?_, hinv.connect hinj hmem hactive htxs hold hbuild hrun hmeets⟩
    intro q list hlist
    dsimp only at hlist ⊢
    by_cases hq : q = h :: s.tip
    · rw [hq]
      exact ⟨hmem, suffix_rfl⟩
    · rw [update_of_ne hq] at hlist
      obtain ⟨hq, hsuffix⟩ := hinv.onChain q list hlist
      exact ⟨hq, hsuffix.trans (suffix_cons _ _)⟩
  | @undo h p htip hp m' hrun =>
    have hmem : tree.mem (h :: p) := htip ▸ hinv.tip
    -- nothing was built on top of the block
    have htop : ∀ k, s.built (k :: h :: p) = none := by
      intro k
      exact hinv.above (by rw [htip]; simp)
    refine ⟨tree.tail_mem hmem hp, ?_, ?_⟩
    · intro q list hlist
      dsimp only at hlist ⊢
      by_cases hq : q = h :: p
      · rw [hq, update_self] at hlist
        cases hlist
      · rw [update_of_ne hq] at hlist
        obtain ⟨hmem', hsuffix⟩ := hinv.onChain q list hlist
        rw [htip] at hsuffix
        exact ⟨hmem', (suffix_cons_iff.mp hsuffix).resolve_left hq⟩
    · rcases undoBlock_cases hrun with heq | ⟨cur, m₁, prev, m₂, hcur, hprev, heq⟩
      · rw [heq]
        exact hinv.faithful.erase hmem htop
      · rw [heq]
        have hf₁ := (ChainInv.ask hinj hinv.faithful hmem hcur).2.faithful
        have hf₂ := (ChainInv.ask hinj hf₁ (tree.tail_mem hmem hp) hprev).2.faithful
        exact hf₂.erase hmem htop

theorem ManagerReachable.invariant (hreach : ManagerReachable env params tree collateralAt
      (FreshlyConnected collateralAt) s) : ChainInv env tree collateralAt s := by
  induction hreach with
  | start hmem _ =>
    refine ⟨hmem, ?_, ⟨?_, ?_, ?_, ?_⟩⟩
    · simp
    · simp
    · simp
    · simp
    · simp
  | step _ hstep ih => exact ih.step hinj hstep

omit hinj

/-! ## §3. The list of a connected block. -/

/-- **The list that was built is served.**  In every run whose blocks are connected under
their condition, `GetListForBlock` on a connected block returns the list that
`BuildNewListFromBlock` made for it, with its hash and height, until it is undone. -/
theorem getListForBlock_built (hinj : Function.Injective env.serializeHash) {s : ChainState η}
    (hreach : ManagerReachable env params tree collateralAt (FreshlyConnected collateralAt) s)
    {q : List Uint256} {list : CDeterministicMNList η} (hbuilt : s.built q = some list) :
    ∃ m', getListForBlock env s.manager q = .ok (list, m') := by
  have hinv := hreach.invariant hinj
  have hmem := (hinv.onChain q list hbuilt).1
  obtain ⟨m', hrun, -⟩ := getListForBlock_served hinj hinv.faithful hmem
  have hserved : served s.built q = list := by
    unfold served
    rw [hbuilt]
    rfl
  exact ⟨m', hserved ▸ hrun⟩

/-- The blocks `1` to `n`, newest first. -/
def sampleChain : Nat → List Uint256
  | 0 => []
  | n + 1 => BitVec.ofNat 256 (n + 1) :: sampleChain n

theorem sampleChain_length (n : Nat) : (sampleChain n).length = n := by
  induction n with
  | zero => rfl
  | succ n ih => exact congrArg (· + 1) ih

/-- A chain of 501 blocks. -/
def sampleTree : BlockTree where
  mem := fun q => ∃ n ≤ 500, q = sampleChain (n + 1)
  not_mem_nil := nofun
  tail_mem := by
    rintro h p ⟨n, hn, hchain⟩ hne
    obtain ⟨-, rfl⟩ := List.cons.inj hchain
    cases n with
    | zero => exact absurd rfl hne
    | succ n => exact ⟨n, by omega, rfl⟩
  hash_inj := by
    rintro h p p' ⟨n, hn, hchain⟩ ⟨n', hn', hchain'⟩
    obtain ⟨rfl, rfl⟩ := List.cons.inj hchain
    obtain ⟨hhash, rfl⟩ := List.cons.inj hchain'
    have hnat := congrArg BitVec.toNat hhash
    simp only [BitVec.toNat_ofNat] at hnat
    rw [show n = n' by omega]

/-- The chain below block `501`. -/
@[irreducible]
def sampleTip : List Uint256 := sampleChain 500

theorem sampleTip_length : sampleTip.length = 500 := by
  unfold sampleTip
  exact sampleChain_length 500

theorem sampleTree_tip : sampleTree.mem sampleTip := by
  unfold sampleTip
  exact ⟨499, by decide, rfl⟩

theorem sampleTree_block : sampleTree.mem (501 :: sampleTip) := by
  unfold sampleTip
  exact ⟨500, by decide, rfl⟩

/-- The heights of regtest. -/
def sampleParams : EvoParams where
  DIP0003Height := 500
  DIP0003EnforcementHeight := 550
  DIP0003EnforcementHash := 0

theorem sampleTip_start : sampleTip.length ≤ max 1 sampleParams.DIP0003Height :=
  sampleTip_length.le

/-- Registers masternode `7`. -/
def sampleBlock : EvoBlock where
  vtx := [sampleCoinbase, sampleRegisterTx 7]
  getUTXOCoin := fun _ => none
  quorumMembers := fun _ => none

theorem sampleBlock_checked (p : List Uint256) : ∀ tx ∈ sampleBlock.vtx.tail,
    CheckedTx sampleEnv (sampleBlock.context p) sampleCollateralAt tx :=
  sampleRegisterTxs_checked _ [7] (by decide)

/-- `ProcessBlock` of `sampleBlock` by a manager that has cached `cache`, with the list it
builds and the answer for the block afterwards. -/
def sampleConnect (cache : Uint256 → Option (CDeterministicMNList UniqueProperty)) :
    Option (CDeterministicMNList UniqueProperty × CDeterministicMNManager UniqueProperty ×
      CDeterministicMNList UniqueProperty) := do
  let old ← (getListForBlock sampleEnv { mnListsCache := cache } sampleTip).toOption
  let newList ← (buildNewListFromBlock sampleEnv (sampleBlock.context sampleTip) old.1
    sampleBlock.vtx).toOption
  let done ← (processBlock sampleEnv sampleParams { mnListsCache := cache } 501 sampleTip
    sampleBlock false).toOption
  guard (done.2 = .accepted)
  let answer ← (getListForBlock sampleEnv done.1 (501 :: sampleTip)).toOption
  return (newList, done.1, answer.1)

/-- The record after `sampleBlock` was connected. -/
def sampleBuilt (newList : CDeterministicMNList UniqueProperty) :
    List Uint256 → Option (CDeterministicMNList UniqueProperty) :=
  Function.update (fun _ => none) (501 :: sampleTip)
    (some { newList with blockHash := 501, nHeight := sampleTip.length })

theorem sampleBuilt_block (newList : CDeterministicMNList UniqueProperty) :
    sampleBuilt newList (501 :: sampleTip) =
      some { newList with blockHash := 501, nHeight := sampleTip.length } :=
  Function.update_self _ _ _

/-- The step that connects `sampleBlock`, from any caches that a run may have left. -/
theorem sampleConnect_step (Meets : ChainState UniqueProperty → Uint256 → EvoBlock →
      CDeterministicMNList UniqueProperty → Prop)
    {cache : Uint256 → Option (CDeterministicMNList UniqueProperty)}
    {newList answer : CDeterministicMNList UniqueProperty}
    {m' : CDeterministicMNManager UniqueProperty}
    (hrun : sampleConnect cache = some (newList, m', answer))
    (hmeets : Meets ⟨{ mnListsCache := cache }, sampleTip, fun _ => none⟩ 501 sampleBlock newList) :
    ManagerStep sampleEnv sampleParams sampleTree sampleCollateralAt Meets
        ⟨{ mnListsCache := cache }, sampleTip, fun _ => none⟩
        ⟨m', 501 :: sampleTip, sampleBuilt newList⟩ ∧
      ∃ m'', getListForBlock sampleEnv m' (501 :: sampleTip) = .ok (answer, m'') := by
  unfold sampleConnect at hrun
  simp only [Option.bind_eq_bind, Option.bind_eq_some_iff] at hrun
  obtain ⟨old, hold, built, hbuild, done, hdone, _, hguard, asked, hasked, hresult⟩ := hrun
  obtain ⟨done, verdict⟩ := done
  have haccepted : verdict = .accepted := by
    by_contra hne
    rw [guard, if_neg hne] at hguard
    cases hguard
  subst haccepted
  cases hresult
  have hactive : ¬ sampleTip.length < sampleParams.DIP0003Height := by
    rw [sampleTip_length]
    decide
  refine ⟨?_, asked.2, eq_ok_of_toOption hasked⟩
  exact ManagerStep.connect (s := ⟨{ mnListsCache := cache }, sampleTip, fun _ => none⟩)
    sampleTree_block hactive (sampleBlock_checked sampleTip) (eq_ok_of_toOption hold)
    (eq_ok_of_toOption hbuild) (eq_ok_of_toOption hdone) hmeets

/-- Connected without being asked for before, block `501` has its masternode. -/
theorem getListForBlock_built_registered :
    ∃ s : ChainState UniqueProperty,
      ManagerReachable sampleEnv sampleParams sampleTree sampleCollateralAt
        (FreshlyConnected sampleCollateralAt) s ∧
      ∃ list m', list.hasMN 7 = true ∧
        getListForBlock sampleEnv s.manager (501 :: sampleTip) = .ok (list, m') := by
  have hsample : ((sampleConnect fun _ => none).map fun r => r.1.hasMN 7) = some true := by
    decide +kernel
  obtain ⟨⟨newList, m', answer⟩, hrun, hlisted⟩ := Option.map_eq_some_iff.mp hsample
  obtain ⟨hstep, -⟩ := sampleConnect_step (FreshlyConnected sampleCollateralAt) hrun
    ⟨.inl rfl, .inr (.inl rfl)⟩
  have hreach := ManagerReachable.step (.start sampleTree_tip sampleTip_start) hstep
  obtain ⟨m'', hanswer⟩ := getListForBlock_built Function.injective_id hreach
    (q := 501 :: sampleTip) (sampleBuilt_block newList)
  refine ⟨_, hreach, _, m'', ?_, hanswer⟩
  exact hlisted

/-- Asked for before it is connected, block `501` stays without its masternode. -/
theorem getListForBlock_stale :
    ∃ s : ChainState UniqueProperty,
      ManagerReachable sampleEnv sampleParams sampleTree sampleCollateralAt
        (fun _ _ _ _ => True) s ∧
      ∃ list answer m', s.built (501 :: sampleTip) = some list ∧
        getListForBlock sampleEnv s.manager (501 :: sampleTip) = .ok (answer, m') ∧
        list.hasMN 7 = true ∧ answer.hasMN 7 = false := by
  have hsample : ((sampleConnect (Function.update (fun _ => none) 501 (some (noDiff 501)))).map
      fun r => (r.1.hasMN 7, r.2.2.hasMN 7)) = some (true, false) := by decide +kernel
  obtain ⟨⟨newList, m', answer⟩, hrun, hlisted⟩ := Option.map_eq_some_iff.mp hsample
  obtain ⟨hstep, m'', hanswer⟩ := sampleConnect_step (fun _ _ _ _ => True) hrun trivial
  -- the query caches that there is no list
  have hquery : ManagerStep sampleEnv sampleParams sampleTree sampleCollateralAt
      (fun _ _ _ _ => True) ⟨{}, sampleTip, fun _ => none⟩
      ⟨{ mnListsCache := Function.update (fun _ => none) 501 (some (noDiff 501)) }, sampleTip,
        fun _ => none⟩ :=
    .query sampleTree_block rfl
  refine ⟨_, .step (.step (.start sampleTree_tip sampleTip_start) hquery) hstep, _, answer, m'',
    sampleBuilt_block newList, hanswer, ?_, ?_⟩
  · exact (Prod.mk.inj hlisted).1
  · exact (Prod.mk.inj hlisted).2

end Zcoin.Evo
