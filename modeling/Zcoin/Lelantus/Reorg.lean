/-
  Zcoin.Lelantus.Reorg — connecting a block and taking it off again.

  `Reachable` are the states a node can be in: blocks with new coins are
  connected by `ConnectBlockLelantus`, the tip is removed by `RemoveBlock`, in any
  order, from the freshly constructed state.  `Inv` holds in all of them.

  **MAIN RESULT**: `removeBlock_restores_iff`.
-/
import Zcoin.Lelantus.Disconnect
import Zcoin.Lelantus.Surge

namespace Zcoin.Lelantus

open Chain LibLelantus Lib Std Lib.Except Ledger List Option

variable {F G : Type} [DecidableEq F] [DecidableEq G]

/-! ## §1. Reachable states. -/

/-- **The states of a running node**, each with its active chain.  That a block's
mints are new is what `CheckLelantusMintTransaction` and
`CheckLelantusJMintTransaction` have checked before the block is connected. -/
inductive Reachable (params : ConsensusParams G) (env : Externals F G) (maxCoin start : Nat) :
    CLelantusState F G → CChain F G → Prop
  | init : Reachable params env maxCoin start (.init maxCoin start) []
  | connect (index : CBlockIndex F G) (pblock : CBlock F G) {s : CLelantusState F G}
      {chain : CChain F G} {info : CLelantusTxInfo F G} {r : Connected F G}
      (hreach : Reachable params env maxCoin start s chain)
      (hinfo : pblock.lelantusTxInfo = some info)
      (hfresh : Fresh s.containers.mintedPubCoins (blockMints info))
      (hrun : connectBlockLelantus params env s chain index pblock false = .ok r)
      (hacc : r.verdict = .accepted) :
      Reachable params env maxCoin start r.state (r.index :: chain)
  | disconnect {s s' : CLelantusState F G} {chain : CChain F G}
      {index : CBlockIndex F G} (hreach : Reachable params env maxCoin start s (index :: chain))
      (hrun : s.removeBlock chain index = .ok s') : Reachable params env maxCoin start s' chain

section Run

variable {params : ConsensusParams G} {env : Externals F G} {maxCoin start : Nat}
  {s : CLelantusState F G} {chain : CChain F G}

/-- A tip that came off was one `RemoveBlock` recognises. -/
theorem disconnected_of_removeBlock {s' : CLelantusState F G} {index : CBlockIndex F G}
    (h : Inv s (index :: chain)) (hrun : s.removeBlock chain index = .ok s') :
    Disconnected s s' chain := by
  by_cases hrem : ∀ id coins, Mints index id coins →
      Removable s.startGroupSize chain (replay s.startGroupSize chain) id
  · obtain ⟨s₁, hrun₁, hdis⟩ := removeBlock_of_removable h hrem
    rw [hrun, Except.ok.injEq] at hrun₁
    exact hrun₁ ▸ hdis
  · push Not at hrem
    obtain ⟨id, coins, hm, hnot⟩ := hrem
    rw [removeBlock_of_not_removable h hm hnot] at hrun
    cases hrun

/-- **Every reachable state is in step with its chain.** -/
theorem inv_reachable (h : Reachable params env maxCoin start s chain) :
    Inv s chain ∧ s.maxCoinInGroup = maxCoin ∧ s.startGroupSize = start := by
  induction h with
  | init => exact ⟨inv_init _ _, rfl, rfl⟩
  | connect index pblock _ hinfo hfresh hrun hacc ih =>
    have hjoin := inv_connect ih.1 hinfo hfresh hrun hacc
    exact ⟨hjoin.inv, hjoin.maxCoin.trans ih.2.1, hjoin.start.trans ih.2.2⟩
  | disconnect _ hrun ih =>
    have hdis := disconnected_of_removeBlock ih.1 hrun
    exact ⟨hdis.inv, hdis.maxCoin.trans ih.2.1, hdis.start.trans ih.2.2⟩

end Run

/-! ## §2. Connecting never asserts. -/

section NoAssert

variable {params : ConsensusParams G} {env : Externals F G} {s : CLelantusState F G}
  {chain : CChain F G} {info : CLelantusTxInfo F G}

omit [DecidableEq G] in
theorem connectSpends_ne_assertion {nHeight : Nat}
    (serials : List (F × Int)) (s : CLelantusState F G) (index : CBlockIndex F G) :
    connectSpends info nHeight false serials s index ≠ .error .assertion := by
  induction serials generalizing s index with
  | nil => simp [connectSpends]
  | cons e serials ih =>
    simp only [connectSpends]
    split
    · simp
    · simp only [Bool.false_eq_true, if_false]
      refine bind_ne_error ?_ fun s₁ _ => ih _ _
      unfold CLelantusState.addSpend Containers.addSpend
      split
      · simp
      · simp

variable {firstBlock : Option Nat}

section

omit [DecidableEq F] [DecidableEq G]

theorem anonymitySetLoop_ne_assertion {coinGroupID maxHeight : Int}
    {skip : G → Bool} (blocks : CChain F G) (coins : List G) :
    anonymitySetLoop coinGroupID maxHeight firstBlock skip blocks coins ≠ .error .assertion := by
  induction blocks generalizing coins with
  | nil => simp [anonymitySetLoop]
  | cons block blocks ih =>
    unfold anonymitySetLoop
    split
    · exact ih _
    · dsimp only
      split
      · simp
      · exact ih _

theorem anonymitySetHashLoop_ne_assertion {groupId : Int} (blocks : CChain F G) :
    anonymitySetHashLoop groupId firstBlock blocks ≠ .error .assertion := by
  induction blocks with
  | nil =>
    unfold anonymitySetHashLoop
    split <;> simp
  | cons block blocks ih =>
    unfold anonymitySetHashLoop
    split
    · simp
    · split
      · simp
      · exact ih

/-- Building the set hash can only follow a null pointer, never assert. -/
theorem hashed_ne_assertion (mints : List (G × Uint256)) (index : CBlockIndex F G)
    (s : CLelantusState F G) :
    hashedAtFork params env s chain ≠ .error .assertion ∧
      hashedMints params env chain mints s index ≠ .error .assertion := by
  constructor
  · unfold hashedAtFork
    split
    · refine bind_ne_error ?_ (by simp)
      unfold getAnonymitySet
      split
      · simp
      · exact anonymitySetLoop_ne_assertion _ _
    · simp
  · unfold hashedMints
    split
    · refine bind_ne_error ?_ (by simp)
      unfold hashedPrevious
      split
      · refine bind_ne_error ?_ (by simp)
        unfold getAnonymitySetHash
        split
        · simp
        · split
          · simp
          · exact anonymitySetHashLoop_ne_assertion _
      · simp
    · simp

end

/-- **Connecting never asserts** from a state in step with its chain. -/
theorem connectBlockLelantus_ne_assertion {index : CBlockIndex F G} {pblock : CBlock F G}
    (h : Inv s chain) (hinfo : pblock.lelantusTxInfo = some info)
    (hfresh : Fresh s.containers.mintedPubCoins (blockMints info)) :
    connectBlockLelantus params env s chain index pblock false ≠ .error .assertion := by
  unfold connectBlockLelantus
  rw [hinfo]
  simp only [Bool.false_eq_true, if_false]
  refine bind_ne_error ?_ fun blockVerdict _ => ?_
  · cases hcheck : checkLelantusBlock params env pblock.vtx with
    | ok v => simp [Except.mapError]
    | error e => simp [Except.mapError]
  split
  · simp
  refine bind_ne_error (connectSpends_ne_assertion _ _ _) fun spent hspent => ?_
  split
  · simp
  next hok =>
  have hv : spent.verdict = .accepted := by
    simp only [not_or, not_not] at hok
    exact hok.1
  obtain ⟨c, hfold, hstate, hidx, -⟩ := connectSpends_accepted hspent hv (by simp [clearLelantus])
  obtain ⟨-, hf, -, -, hminted, -⟩ := h.addSpends hfold
  rw [hstate, hidx]
  unfold connectMints
  refine bind_ne_error (hashed_ne_assertion [] index _).1 fun _ _ => ?_
  refine bind_ne_error ?_ fun _ _ => bind_ne_error (hashed_ne_assertion _ _ _).2 (by simp)
  -- the mints themselves always enter
  unfold enterMints
  split
  · simp
  · next hne =>
    obtain ⟨s', hadd, -⟩ := addMints_spec
      { clearLelantus index with
        lelantusSpentSerials := (clearLelantus index).lelantusSpentSerials ++ info.spentSerials }
      hf (hminted ▸ hfresh) (by simpa [blockMints] using hne) rfl
    rw [show info.mints.map (fun mint => (mint.1, mint.2.2)) = blockMints info from rfl, hadd]
    simp

end NoAssert

/-! ## §3. The blocks a new group is seeded from. -/

/-- The coins of `gid` block by block, newest block first, blocks without any
left out. -/
def groupCounts (gid : Int) (chain : CChain F G) : List Nat :=
  (chain.map (countCoinInBlock · gid)).filter (· ≠ 0)

/-- Whole blocks, newest first, until `required` coins are together. -/
def seedBlocks : Nat → List Nat → List Nat
  | _, [] => []
  | required, n :: counts =>
    if required = 0 then [] else n :: seedBlocks (required - n) counts

/-- **The mints a block may bring so that it can be taken off again**: none, or
as many as still fit into the latest group, or any number when the blocks that
seed the next group hold fewer than `startGroupSize` coins without the newest. -/
def Recognised (s : CLelantusState F G) (chain : CChain F G) (nMints : Nat) : Prop :=
  nMints = 0 ∨
  (s.coinGroups.getD (max 1 s.latestCoinId) {}).nCoins + nMints ≤ s.maxCoinInGroup ∨
  (groupCounts (max 1 s.latestCoinId) chain ≠ [] ∧
    (seedBlocks s.startGroupSize (groupCounts (max 1 s.latestCoinId) chain)).tail.sum
      < s.startGroupSize)

section Seed

variable {gid : Int} {chain : CChain F G}

omit [DecidableEq F] [DecidableEq G] in
theorem groupCounts_cons (index : CBlockIndex F G) :
    groupCounts gid (index :: chain)
      = if countCoinInBlock index gid ≠ 0 then
          countCoinInBlock index gid :: groupCounts gid chain
        else groupCounts gid chain := by
  unfold groupCounts
  rw [map_cons, filter_cons]
  by_cases h : countCoinInBlock index gid = 0
  · simp [h]
  · simp [h]

theorem seedBlocks_zero (counts : List Nat) : seedBlocks 0 counts = [] := by
  cases counts with
  | nil => rfl
  | cons n counts => rfl

section

omit [DecidableEq F] [DecidableEq G]

/-- `CountLastNCoins` counts the blocks of `seedBlocks`. -/
theorem countLastNCoinsLoop_eq_sum (required count : Nat) (first : Option Nat) :
    (countLastNCoinsLoop gid required chain count first).1
      = count + (seedBlocks (required - count) (groupCounts gid chain)).sum := by
  induction chain generalizing count first with
  | nil => rfl
  | cons index chain ih =>
    rw [groupCounts_cons]
    simp only [countLastNCoinsLoop]
    by_cases hlt : count < required
    · rw [if_pos hlt]
      by_cases hzero : countCoinInBlock index gid = 0
      · simp only [hzero, ne_eq, not_true_eq_false, if_false]
        exact ih count first
      · -- the block counts, and what is still required shrinks by its coins
        have hreq : required - count ≠ 0 := by omega
        simp only [hzero, ne_eq, not_false_eq_true, if_true, seedBlocks, hreq, if_false,
          sum_cons]
        rw [ih, Nat.sub_sub]
        omega
    · have hreq : required - count = 0 := by omega
      rw [if_neg hlt, hreq, seedBlocks_zero]
      rfl

theorem newestCount_eq_headD : newestCount gid chain = (groupCounts gid chain).headD 0 := by
  induction chain with
  | nil => rfl
  | cons index chain ih =>
    rw [groupCounts_cons]
    unfold newestCount
    split
    · rfl
    · exact ih

/-- The seed without its newest block. -/
theorem seed_sub_newestCount {start : Nat} (hstart : 1 ≤ start) :
    (seed start chain (gid + 1)).1 - newestCount gid chain
      = (seedBlocks start (groupCounts gid chain)).tail.sum := by
  unfold seed
  rw [Int.add_sub_cancel, countLastNCoinsLoop_eq_sum, newestCount_eq_headD]
  cases groupCounts gid chain with
  | nil => rfl
  | cons n counts =>
    have hne : start ≠ 0 := by omega
    simp only [Nat.sub_zero, seedBlocks, hne, if_false, sum_cons, headD_cons,
      tail_cons]
    omega

end

end Seed

variable {chain : CChain F G}

/-- What `RemoveBlock` recognises is what `Recognised` says of the ledger before
the block. -/
theorem removable_iff_recognised {s : CLelantusState F G}
    (h : Inv s chain) (hstart : 1 ≤ s.startGroupSize) {n : Nat} (hn : n ≠ 0) :
    Removable s.startGroupSize chain s.ledger (s.ledger.nextGroup s.maxCoinInGroup n)
      ↔ Recognised s chain n := by
  have hf := h.facts
  have hlat : s.ledger.latestCoinId = s.latestCoinId := rfl
  unfold Removable Recognised
  rcases nextGroup_cases hf s.maxCoinInGroup n with
    ⟨hl, hnext, hfits⟩ | ⟨hl, hnext, hfull⟩ | ⟨hl, hnext, hfits⟩ | ⟨hl, hnext, hfull⟩
  · -- the latest group grew
    rw [hlat] at hl hnext
    have hmax : max 1 s.latestCoinId = s.latestCoinId := max_eq_right hl
    have hfits' : (s.coinGroups.getD s.latestCoinId {}).nCoins + n ≤ s.maxCoinInGroup := hfits
    rw [hmax]
    exact ⟨fun _ => .inr (.inl hfits'), fun _ => .inl hnext⟩
  · -- the next group was opened on top of an existing one
    rw [hlat] at hl hnext
    have hmax : max 1 s.latestCoinId = s.latestCoinId := max_eq_right hl
    have hfull' : s.maxCoinInGroup < (s.coinGroups.getD s.latestCoinId {}).nCoins + n := hfull
    obtain ⟨p, suf, coins, f, m, hskip, hp, -⟩ := hf.latest_group hl
    have hnonempty : groupCounts s.latestCoinId chain ≠ [] := by
      intro hnil
      have hpos := (prevGroupCount_next hskip hp).2
      rw [hlat, newestCount_eq_headD, hnil] at hpos
      exact absurd hpos (Nat.lt_irrefl 0)
    rw [hmax, hnext, hlat, seed_sub_newestCount hstart]
    constructor
    · rintro (hid | ⟨hzero, -⟩ | ⟨-, hsum⟩)
      · omega
      · omega
      · exact .inr (.inr ⟨hnonempty, hsum⟩)
    · omega
  · -- group 1 was opened
    rw [hlat] at hl
    obtain ⟨hmax, -, hempty⟩ := firstGroup_empty hf hl
    rw [hmax, hempty]
    refine ⟨fun _ => .inr (.inl ?_), fun _ => .inr (.inl ⟨hl, hnext⟩)⟩
    show 0 + n ≤ s.maxCoinInGroup
    omega
  · -- group 2 was opened over an empty group 1
    rw [hlat] at hl
    obtain ⟨hmax, -, hempty⟩ := firstGroup_empty hf hl
    have hnone : groupCounts 1 chain = [] := by
      unfold groupCounts
      rw [filter_eq_nil_iff]
      intro c hc
      obtain ⟨p, hp, rfl⟩ := mem_map.mp hc
      have hcount := hf.count_eq_zero (k := 1) (by rw [hlat]; omega) p hp
      simp [hcount]
    rw [hmax, hempty, hnext, hlat, hnone]
    constructor
    · omega
    · rintro (hzero | hfit | ⟨hne, -⟩)
      · exact absurd hzero hn
      · omega
      · exact absurd rfl hne

/-! ## §4. Connect, then remove. -/

/-- **`s'` is `s` to every reader**: the per-group mint and spend counts are read
with default 0, everything else is the same. -/
structure Agrees (s s' : CLelantusState F G) : Prop where
  coinGroups : s'.coinGroups = s.coinGroups
  latestCoinId : s'.latestCoinId = s.latestCoinId
  mintedPubCoins : s'.containers.mintedPubCoins = s.containers.mintedPubCoins
  usedCoinSerials : s'.containers.usedCoinSerials = s.containers.usedCoinSerials
  tagToPublicCoin : s'.containers.tagToPublicCoin = s.containers.tagToPublicCoin
  extendedMintMetaInfo : s'.containers.extendedMintMetaInfo = s.containers.extendedMintMetaInfo
  mintMetaInfo : ∀ id, s'.containers.mintMetaInfo.getD id 0 = s.containers.mintMetaInfo.getD id 0
  spendMetaInfo : ∀ id,
    s'.containers.spendMetaInfo.getD id 0 = s.containers.spendMetaInfo.getD id 0
  surgeCondition : s'.containers.surgeCondition = s.containers.surgeCondition

omit [DecidableEq F] [DecidableEq G] in
theorem agrees_of_ledger {s s' : CLelantusState F G} (hledger : s'.ledger = s.ledger)
    (hsurge : s'.containers.surgeCondition = s.containers.surgeCondition) : Agrees s s' where
  coinGroups := congrArg coinGroups hledger
  latestCoinId := congrArg latestCoinId hledger
  mintedPubCoins := congrArg (·.book.minted) hledger
  usedCoinSerials := congrArg (·.book.used) hledger
  tagToPublicCoin := congrArg (·.book.tags) hledger
  extendedMintMetaInfo := congrArg (·.book.extended) hledger
  mintMetaInfo := congrFun (congrArg (·.book.mintCount) hledger)
  spendMetaInfo := congrFun (congrArg (·.book.spendCount) hledger)
  surgeCondition := hsurge

/-- A group id above the latest one that is no key has no keys above it either,
so it may be added to the keys without changing the surge flag. -/
theorem surge_of_new_key {s s' : CLelantusState F G} {id : Int} (h : Inv s chain)
    (hledger : s'.ledger = s.ledger) (hid : s.latestCoinId ≤ id) (hid₁ : 1 ≤ id)
    (hkeys : ∀ k, k ∈ s'.containers.mintMetaInfo ↔ k = id ∨ k ∈ s.containers.mintMetaInfo) :
    s'.containers.surge = s.containers.surge := by
  have hbook : s'.containers.book = s.containers.book := congrArg Ledger.book hledger
  have hmint : ∀ k, s'.containers.mintMetaInfo.getD k 0 = s.containers.mintMetaInfo.getD k 0 :=
    congrFun (congrArg Book.mintCount hbook)
  have hspend : ∀ k, s'.containers.spendMetaInfo.getD k 0 = s.containers.spendMetaInfo.getD k 0 :=
    congrFun (congrArg Book.spendCount hbook)
  have hext : ∀ k, s'.containers.extendedMintMetaInfo.getD k 0
      = s.containers.extendedMintMetaInfo.getD k 0 := by
    intro k
    have hsame : s'.containers.extendedMintMetaInfo = s.containers.extendedMintMetaInfo :=
      congrArg Book.extended hbook
    rw [hsame]
  by_cases hmem : id ∈ s.containers.mintMetaInfo
  · refine surge_congr_keys hmint hspend hext ?_
    intro k
    rw [hkeys, or_iff_right_of_imp]
    exact fun heq => heq ▸ hmem
  · -- every key is below `id`: what lies above was neither minted nor spent
    have hlt : s.latestCoinId < id := by
      rcases Int.lt_or_eq_of_le hid with hlt | heq
      · exact hlt
      · exfalso
        refine hmem (heq ▸ h.key_of_minted _ ?_)
        exact h.facts.mintCount_latest (show 1 ≤ s.latestCoinId by omega)
    have habove : ∀ k, id - 1 < k → k ∉ s.containers.mintMetaInfo := by
      intro k hk hkmem
      exact hmem (h.key_below k hkmem id hlt (by omega))
    refine surge_congr (id - 1) hmint hspend hext ?_ ?_
    · intro k hk
      rw [hkeys, or_iff_right (by omega)]
    · intro k hk
      rw [hmint, hspend]
      constructor
      · by_contra hne
        exact habove k hk (h.key_of_minted k hne)
      · by_contra hne
        exact habove k hk (h.key_of_spent k hne)

section Main

variable {params : ConsensusParams G} {env : Externals F G} {maxCoin start : Nat}
  {s : CLelantusState F G} {chain : CChain F G} {index : CBlockIndex F G}
  {pblock : CBlock F G} {info : CLelantusTxInfo F G}

/-- A block that came off cleanly leaves nothing behind. -/
theorem agrees_of_disconnected {r : Connected F G} {s' : CLelantusState F G} (h : Inv s chain)
    (hjoin : Joined s chain info r) (hdis : Disconnected r.state s' chain) : Agrees s s' := by
  have hledger : s'.ledger = s.ledger := by
    rw [hdis.inv.ledger, hdis.start, hjoin.start, h.ledger]
  refine agrees_of_ledger hledger ?_
  rw [hdis.inv.current, h.current]
  rcases hjoin.mints with ⟨hempty, -⟩ | hm
  · -- no mints, no new key
    refine surge_congr_keys (congrFun (congrArg (·.book.mintCount) hledger))
      (congrFun (congrArg (·.book.spendCount) hledger)) ?_ ?_
    · intro k
      have hsame : s'.containers.extendedMintMetaInfo = s.containers.extendedMintMetaInfo :=
        congrArg (·.book.extended) hledger
      rw [hsame]
    · intro k
      rw [hdis.keys, hjoin.keys]
      simp [hempty]
  · have hle := latest_le_nextGroup h.facts s.maxCoinInGroup (blockMints info).length
    have hlatest : r.state.latestCoinId
        = s.ledger.nextGroup s.maxCoinInGroup (blockMints info).length := by
      have hlat : r.state.ledger.latestCoinId = _ := congrArg latestCoinId hjoin.inv.ledger
      show r.state.ledger.latestCoinId = _
      rw [hlat]
      show (Ledger.connect _ chain _ r.index).latestCoinId = _
      rw [connect_of_mints _ _ hm, mintGroup_latestCoinId]
    refine surge_of_new_key h hledger hle.2 hle.1 ?_
    intro k
    rw [hdis.keys, hjoin.keys, hlatest]
    simp [hm.ne_nil]

/-- **Connect, then remove.**  From every reachable state connecting never
asserts, and removing the accepted block again restores the state exactly when
the number of its mints is `Recognised`. -/
theorem removeBlock_restores_iff (index : CBlockIndex F G) (pblock : CBlock F G)
    (hstart : 1 ≤ start) (hreach : Reachable params env maxCoin start s chain)
    (hinfo : pblock.lelantusTxInfo = some info)
    (hfresh : Fresh s.containers.mintedPubCoins (blockMints info)) :
    connectBlockLelantus params env s chain index pblock false ≠ .error .assertion ∧
    ∀ r, connectBlockLelantus params env s chain index pblock false = .ok r →
      r.verdict = .accepted →
      ((∃ s', r.state.removeBlock chain r.index = .ok s' ∧ Agrees s s') ↔
        Recognised s chain (blockMints info).length) := by
  obtain ⟨h, -, hlimit⟩ := inv_reachable hreach
  refine ⟨connectBlockLelantus_ne_assertion h hinfo hfresh, ?_⟩
  intro r hrun hacc
  have hjoin := inv_connect h hinfo hfresh hrun hacc
  have hreplay : replay r.state.startGroupSize chain = s.ledger := by
    rw [hjoin.start, h.ledger]
  have hclean : (∀ id coins, Mints r.index id coins →
      Removable r.state.startGroupSize chain (replay r.state.startGroupSize chain) id) →
      ∃ s', r.state.removeBlock chain r.index = .ok s' ∧ Agrees s s' := by
    intro hrem
    obtain ⟨s', hs', hdis⟩ := removeBlock_of_removable hjoin.inv hrem
    exact ⟨s', hs', agrees_of_disconnected h hjoin hdis⟩
  rcases hjoin.mints with ⟨hempty, hno⟩ | hm
  · -- without mints there is nothing to recognise
    refine ⟨fun _ => .inl (by rw [hempty]; rfl), fun _ => hclean ?_⟩
    intro id coins hm
    exact absurd hno.count hm.count_ne_zero
  · have hn : (blockMints info).length ≠ 0 := by
      have := hm.length_pos
      omega
    have hiff := removable_iff_recognised h (hlimit ▸ hstart) hn
    constructor
    · rintro ⟨s', hs', -⟩
      by_contra hnot
      rw [← hiff, ← hreplay, ← hjoin.start] at hnot
      rw [removeBlock_of_not_removable hjoin.inv (hreplay ▸ hm) hnot] at hs'
      cases hs'
    · intro hrec
      refine hclean ?_
      intro id coins hm'
      have hid : id = s.ledger.nextGroup s.maxCoinInGroup (blockMints info).length := by
        have hlist := hm'.toList.symm.trans hm.toList
        simp only [List.cons.injEq, Prod.mk.injEq, and_true] at hlist
        exact hlist.1
      rw [hreplay, hjoin.start, hid]
      exact hiff.mpr hrec

end Main

/-! ## §5. A tip that cannot be taken off. -/

instance (minted : G → Option CMintedCoinInfo) (coins : List (G × Uint256)) :
    Decidable (Fresh minted coins) :=
  decidable_of_iff ((coins.map Prod.fst).Nodup ∧ ∀ coin ∈ coins, minted coin.1 = none)
    ⟨fun h => ⟨h.1, h.2⟩, fun h => ⟨h.1, h.2⟩⟩

/-- Parameters for concrete runs before the fork block. -/
def sampleParams : ConsensusParams Int where
  nLelantusStartBlock := 0
  nLelantusFixesStartBlock := 100
  lelantusBlacklist := fun _ => false
  sigmaBlacklist := fun _ => false
  nStartSigmaBlacklist := 100
  nMaxSigmaInputPerBlock := 10
  nMaxValueSigmaSpendPerBlock := 10
  nMaxSigmaInputPerTransaction := 10
  nMaxValueSigmaSpendPerTransaction := 10
  nMaxLelantusInputPerBlock := 10
  nMaxValueLelantusSpendPerBlock := 10
  nMaxLelantusInputPerTransaction := 10
  nMaxValueLelantusSpendPerTransaction := 10
  nMaxValueLelantusMint := 10

/-- Serialisation for concrete runs in which no script is parsed. -/
def sampleExternals : Externals Nat Int where
  serialize := fun coin => [UInt8.ofNat coin.toNat]
  deserialize := fun bytes => (bytes.headD 0).toNat
  hash256 := fun bytes => bytes
  readSchnorrProof := fun _ => .error .iosFailure
  readUint256 := fun _ => .error .iosFailure
  readJoinSplit := fun _ => .error .iosFailure
  h1 := 1000

/-- The collector of a block that minted `coins` and spent `serials`. -/
def sampleInfo (coins : List Int) (serials : List (Nat × Int)) : CLelantusTxInfo Nat Int :=
  { mints := coins.map fun coin => (coin, 0, BitVec.ofInt 256 coin)
    spentSerials := serials
    fInfoIsComplete := true }

/-- A block with that collector. -/
def sampleBlock (coins : List Int) (serials : List (Nat × Int)) : CBlock Nat Int :=
  { vtx := [], lelantusTxInfo := some (sampleInfo coins serials) }

/-- Connecting `(coins, serials)` blocks one after the other, oldest last. -/
def sampleRun (params : ConsensusParams Int) (maxCoin start : Nat) :
    List (List Int × List (Nat × Int)) → Option (CLelantusState Nat Int × CChain Nat Int)
  | [] => some (.init maxCoin start, [])
  | (coins, serials) :: blocks => do
    let (s, chain) ← sampleRun params maxCoin start blocks
    if Fresh s.containers.mintedPubCoins (blockMints (sampleInfo coins serials)) then
      match connectBlockLelantus params sampleExternals s chain
        { hash := BitVec.ofNat 256 chain.length } (sampleBlock coins serials) false with
      | .ok r => if r.verdict = .accepted then some (r.state, r.index :: chain) else none
      | .error _ => none
    else none

theorem reachable_of_sampleRun {params : ConsensusParams Int} {maxCoin start : Nat}
    {blocks : List (List Int × List (Nat × Int))} {s : CLelantusState Nat Int}
    {chain : CChain Nat Int}
    (hrun : sampleRun params maxCoin start blocks = some (s, chain)) :
    Reachable params sampleExternals maxCoin start s chain := by
  induction blocks generalizing s chain with
  | nil =>
    simp only [sampleRun, some.injEq, Prod.mk.injEq] at hrun
    obtain ⟨rfl, rfl⟩ := hrun
    exact .init
  | cons block blocks ih =>
    obtain ⟨coins, serials⟩ := block
    simp only [sampleRun, bind_eq_bind, bind_eq_some_iff] at hrun
    obtain ⟨⟨s₀, chain₀⟩, hbelow, hrun⟩ := hrun
    split at hrun
    · next hfresh =>
      split at hrun
      · next r hconnect =>
        split at hrun
        · next hacc =>
          simp only [some.injEq, Prod.mk.injEq] at hrun
          obtain ⟨rfl, rfl⟩ := hrun
          exact .connect _ _ (ih hbelow) rfl hfresh hconnect hacc
        · cases hrun
      · cases hrun
    · cases hrun

/-- A third block spends a coin of group 1 and opens group 2, and comes off again. -/
theorem removeBlock_restores_opened :
    ∃ s chain r s', Reachable sampleParams sampleExternals 3 2 s chain ∧
      connectBlockLelantus sampleParams sampleExternals s chain { hash := 3 }
        (sampleBlock [4, 5] [(7, 1)]) false = .ok r ∧ r.verdict = .accepted ∧
      r.state.removeBlock chain r.index = .ok s' ∧ Agrees s s' := by
  obtain ⟨⟨s, chain⟩, hrun, hfresh, hseed, hverdict⟩ :
      ∃ p ∈ sampleRun sampleParams 3 2 [([2, 3], []), ([1], [])],
        Fresh p.1.containers.mintedPubCoins (blockMints (sampleInfo [4, 5] [(7, 1)])) ∧
        (groupCounts (max 1 p.1.latestCoinId) p.2 ≠ [] ∧
          (seedBlocks p.1.startGroupSize (groupCounts (max 1 p.1.latestCoinId) p.2)).tail.sum <
            p.1.startGroupSize) ∧
        (connectBlockLelantus sampleParams sampleExternals p.1 p.2 { hash := 3 }
          (sampleBlock [4, 5] [(7, 1)]) false).toOption.map (·.verdict) = some .accepted := by
    decide +kernel
  obtain ⟨r, hr, hacc⟩ := map_eq_some_iff.mp hverdict
  have hreach := reachable_of_sampleRun hrun
  have hconnect := eq_ok_of_toOption hr
  obtain ⟨s', hs', hagrees⟩ := ((removeBlock_restores_iff { hash := 3 }
    (sampleBlock [4, 5] [(7, 1)]) (by decide) hreach rfl hfresh).2 r hconnect hacc).mpr
      (.inr (.inr hseed))
  exact ⟨s, chain, r, s', hreach, hconnect, hacc, hs', hagrees⟩

/-- The next block of mints is accepted, and taking it off again asserts. -/
def sampleTipAsserts (coins : List Int)
    (p : CLelantusState Nat Int × CChain Nat Int) : Bool :=
  decide (Fresh p.1.containers.mintedPubCoins (blockMints (sampleInfo coins []))) &&
    match connectBlockLelantus sampleParams sampleExternals p.1 p.2 { hash := 3 }
      (sampleBlock coins []) false with
    | .ok r => decide (r.verdict = .accepted) &&
      match r.state.removeBlock p.2 r.index with
      | .error .assertion => true
      | _ => false
    | .error _ => false

/-- **The edge that is missed.**  Groups of at most 3 coins, seeds of at least 2:
blocks with 2, 1 and 1 mints.  The third block opens group 2, seeded with 3 coins;
without the newest block 2 are left, which is not below `startGroupSize`, so removing
the third block asserts. -/
theorem removeBlock_edge_assertion :
    ∃ s chain r, Reachable sampleParams sampleExternals 3 2 s chain ∧
      Fresh s.containers.mintedPubCoins (blockMints (sampleInfo [4] [])) ∧
      connectBlockLelantus sampleParams sampleExternals s chain { hash := 3 }
        (sampleBlock [4] []) false = .ok r ∧ r.verdict = .accepted ∧
      r.state.removeBlock chain r.index = .error .assertion := by
  obtain ⟨⟨s, chain⟩, hrun, htip⟩ : ∃ p ∈ sampleRun sampleParams 3 2 [([3], []), ([1, 2], [])],
      sampleTipAsserts [4] p = true := by
    decide +kernel
  unfold sampleTipAsserts at htip
  rw [Bool.and_eq_true, decide_eq_true_eq] at htip
  obtain ⟨hfresh, htip⟩ := htip
  split at htip
  · next r hconnect =>
    rw [Bool.and_eq_true, decide_eq_true_eq] at htip
    obtain ⟨hacc, htip⟩ := htip
    split at htip
    · next hassert =>
      exact ⟨s, chain, r, reachable_of_sampleRun hrun, hfresh, hconnect, hacc, hassert⟩
    · cases htip
  · cases htip

end Zcoin.Lelantus
