/-
  Zcoin.Lelantus.Rebuild — the state rebuilt from the block index.

  `BuildLelantusStateFromIndex` runs `AddBlock` over the active chain on a state
  that was `Reset`.  `AddBlock` enters the mints of a block before its serials and
  derives group boundaries from the index; the live path does it the other way
  round.  Both are compared with `replay`.

  A call of `ConnectBlockLelantus` that rejects its block may leave serials behind, which
  are on no chain; one that stops at a limit or at the first serial does not.

  **MAIN RESULT**: `rebuild_agrees_iff`.
-/
import Zcoin.Lelantus.Reorg

namespace Zcoin.Lelantus

open List hiding getElem?_insert
open Chain LibLelantus Lib Std Lib.Except Lib.OrderedMap Function Ledger Option CLelantusState

variable {F G : Type}

/-! ## §1. The index, read for the comparison. -/

/-- The mints of a block. -/
def mintsInBlock (index : CBlockIndex F G) : Nat :=
  (index.lelantusMintedPubCoins.toList.map (·.2.length)).sum

/-- The mints of the oldest block that has any. -/
def oldestMints : CChain F G → Nat
  | [] => 0
  | index :: chain => if oldestMints chain ≠ 0 then oldestMints chain else mintsInBlock index

/-- **Every serial was spent from a group that had been minted** at or below the
block that spent it. -/
def SpendsBacked : CChain F G → Prop
  | [] => True
  | index :: chain =>
    (∀ e ∈ index.lelantusSpentSerials, ∃ p ∈ index :: chain, countCoinInBlock p e.2 ≠ 0) ∧
      SpendsBacked chain

instance : (chain : CChain F G) → Decidable (SpendsBacked chain)
  | [] => .isTrue trivial
  | _ :: chain =>
    have : Decidable (SpendsBacked chain) := instDecidableSpendsBacked chain
    inferInstanceAs (Decidable (_ ∧ SpendsBacked chain))

variable {index : CBlockIndex F G}

theorem NoMints.mintsInBlock (h : NoMints index) : mintsInBlock index = 0 := by
  unfold Lelantus.mintsInBlock
  rw [h.toList]
  rfl

theorem Mints.mintsInBlock {id : Int} {coins : List (G × Uint256)}
    (h : Mints index id coins) : mintsInBlock index = coins.length := by
  unfold Lelantus.mintsInBlock
  rw [h.toList]
  simp

/-! ## §2. What the rebuilt state keeps in step with. -/

/-- **The rebuilt state `b` stands for the ledger `L`.**  `left` is what the
extended-mint counts were before the rebuild. -/
structure Rebuilt (left : ExtTreeMap Int Nat) (L : Ledger F G) (b : CLelantusState F G) :
    Prop where
  latest : b.latestCoinId = L.latestCoinId
  groups : ∀ k, b.coinGroups[k]? = if L.book.mintCount k ≠ 0 then L.coinGroups[k]? else none
  book : b.containers.book
    = { L.book with extended := b.containers.extendedMintMetaInfo }
  extended : ∀ k, b.containers.extendedMintMetaInfo[k]?
    = if k ∈ L.book.extended then L.book.extended[k]? else left[k]?
  keys : ∀ k, k ∈ b.containers.mintMetaInfo ↔ L.book.mintCount k ≠ 0
  current : b.containers.Current

theorem rebuilt_reset (r : CLelantusState F G) :
    Rebuilt r.containers.extendedMintMetaInfo ({} : Ledger F G) r.reset where
  latest := rfl
  groups := by simp [reset]
  book := by
    show Containers.book r.containers.reset = _
    unfold Containers.reset Containers.book
    simp
    rfl
  extended := by
    intro k
    show r.containers.extendedMintMetaInfo[k]? = _
    simp
  keys := by simp [reset, Containers.reset]
  current := by
    show false = surgeLoop _ _ (∅ : ExtTreeMap Int Nat).toList 0 0
    rw [toList_empty]
    rfl

section Step

variable {left : ExtTreeMap Int Nat} {L : Ledger F G} {b : CLelantusState F G}
  {chain : CChain F G} {index : CBlockIndex F G} {id : Int} {coins : List (G × Uint256)}
  (h : Rebuilt left L b) (hf : Facts chain L)
include h hf

theorem Rebuilt.latest_group (hlatest : 1 ≤ L.latestCoinId) :
    b.coinGroups[L.latestCoinId]? = L.coinGroups[L.latestCoinId]? := by
  rw [h.groups, if_pos (hf.mintCount_latest hlatest)]

theorem Rebuilt.no_group (hid : ¬ (1 ≤ id ∧ id ≤ L.latestCoinId)) : b.coinGroups[id]? = none := by
  have hzero := hf.mintCount_eq_zero hid
  rw [h.groups, hzero]
  simp

theorem Rebuilt.seed (hid : id = L.latestCoinId + 1 ∨ (L.latestCoinId = 0 ∧ id = 2)) :
    b.countLastNCoins chain (id - 1) b.startGroupSize = seed b.startGroupSize chain id := by
  have hnonneg := hf.latest_nonneg
  by_cases hlatest : 1 ≤ L.latestCoinId
  · have hid' : id = L.latestCoinId + 1 := by omega
    rw [hid', Int.add_sub_cancel]
    exact countLastNCoins_latest hf hlatest _ (h.latest_group hf hlatest)
  · -- no group below: nothing is counted on either side
    have hzero : L.latestCoinId = 0 := by omega
    have hnone : b.coinGroups[id - 1]? = none := h.no_group hf (by omega)
    rw [seed_of_empty hf hzero]
    unfold countLastNCoins
    rw [hnone]

omit h hf

variable [DecidableEq G]

/-- **The mints of one entry** enter a state that agrees with the ledger but for the group. -/
theorem Rebuilt.mints (chain : CChain F G) {L' : Ledger F G} {c : Containers F G}
    {groups : ExtTreeMap Int LelantusCoinGroupInfo}
    (hbook : c.book = { L.book with extended := c.extendedMintMetaInfo })
    (hkeys : ∀ k, k ∈ c.mintMetaInfo ↔ L.book.mintCount k ≠ 0) (hcur : c.Current)
    (hne : coins ≠ []) (hfresh : Fresh L.book.minted coins)
    (hL' : L'.book = ({ L.book with extended := L'.book.extended } : Book F G).addMints
      ⟨id, chain.length⟩ coins) (hlatest : id = L'.latestCoinId)
    (hgroups : ∀ k, groups[k]? =
      if k = id ∨ L.book.mintCount k ≠ 0 then L'.coinGroups[k]? else none)
    (hextended : ∀ k, c.extendedMintMetaInfo[k]? =
      if k ∈ L'.book.extended then L'.book.extended[k]? else left[k]?) :
    Rebuilt left L' { b with
      coinGroups := groups
      latestCoinId := id
      containers := coins.foldl
        (fun c coin => c.addMint coin.1 ⟨id, chain.length⟩ coin.2) c } := by
  have hfresh' : Fresh c.mintedPubCoins coins := by
    have hminted : c.mintedPubCoins = L.book.minted := congrArg Book.minted hbook
    rw [hminted]
    exact hfresh
  have hbook' : (coins.foldl (fun c coin => c.addMint coin.1 ⟨id, chain.length⟩ coin.2) c).book
      = c.book.addMints ⟨id, chain.length⟩ coins := Containers.book_foldl_addMint hfresh'
  have hext : (coins.foldl (fun c coin => c.addMint coin.1 ⟨id, chain.length⟩ coin.2)
      c).extendedMintMetaInfo = c.extendedMintMetaInfo := congrArg Book.extended hbook'
  have hcount : ∀ k, L'.book.mintCount k ≠ 0 ↔ k = id ∨ L.book.mintCount k ≠ 0 := by
    intro k
    have hpos : 0 < coins.length := length_pos_iff.mpr hne
    rw [hL']
    show update L.book.mintCount id (L.book.mintCount id + coins.length) k ≠ 0 ↔ _
    rw [update_apply]
    split
    · next hk =>
      simp only [hk, true_or, iff_true]
      omega
    · next hk => simp [hk]
  refine ⟨hlatest, ?_, ?_, ?_, ?_, Containers.foldl_addMint_current hcur⟩
  · exact fun k => (hgroups k).trans (if_congr (hcount k).symm rfl rfl)
  · show (coins.foldl _ c).book = ({ L'.book with extended := _ } : Book F G)
    rw [hext, hbook', hbook, hL']
    rfl
  · intro k
    exact (congrArg (·[k]?) hext).trans (hextended k)
  · intro k
    rw [Containers.mem_foldl_addMint, hkeys, hcount, and_iff_right hne]

theorem addBlockGroup_extend (h : Rebuilt left L b) (hf : Facts chain L)
    (hlatest : 1 ≤ L.latestCoinId) (hne : coins ≠ []) (hfresh : Fresh L.book.minted coins) :
    Rebuilt left (L.extendGroup chain L.latestCoinId coins)
      (addBlockGroup chain b (L.latestCoinId, coins)) := by
  obtain ⟨p, suf, coins₀, f, n, -, -, -, -, -, hgroup⟩ := hf.latest_group hlatest
  have hgroup' := (h.latest_group hf hlatest).trans hgroup
  have hgetD : b.coinGroups.getD L.latestCoinId {} = ⟨some f, some suf.length, n⟩ :=
    getD_of_getElem? hgroup'
  have hnotEmpty : coins.isEmpty = false := by simp [hne]
  -- the group has a first block, so nothing is seeded
  simp only [addBlockGroup, hnotEmpty, Bool.false_eq_true, if_false, hgetD, isNone_some]
  refine Rebuilt.mints chain h.book h.keys h.current hne hfresh rfl rfl ?_ h.extended
  intro k
  have hgroups : (L.extendGroup chain L.latestCoinId coins).coinGroups
      = L.coinGroups.insert L.latestCoinId ⟨some f, some chain.length, n + coins.length⟩ := by
    simp only [extendGroup, getD_of_getElem? hgroup]
  rw [hgroups]
  simp only [getElem?_insert]
  by_cases hk : k = L.latestCoinId
  · simp [hk]
  · simp [hk, h.groups]

theorem addBlockGroup_open (h : Rebuilt left L b) (hf : Facts chain L)
    (hid : id = L.latestCoinId + 1 ∨ (L.latestCoinId = 0 ∧ id = 2)) (hne : coins ≠ [])
    (hfresh : Fresh L.book.minted coins) :
    Rebuilt left (L.openGroup b.startGroupSize chain id coins)
      (addBlockGroup chain b (id, coins)) := by
  have hnonneg := hf.latest_nonneg
  have hnone : b.coinGroups[id]? = none := h.no_group hf (by omega)
  have hgetD : b.coinGroups.getD id {} = {} := by
    rw [ExtTreeMap.getD_eq_getD_getElem?, hnone]
    rfl
  have hnotEmpty : coins.isEmpty = false := by simp [hne]
  have hgroups : ∀ first n k, (b.coinGroups.insert id ⟨some first, some chain.length, n⟩)[k]? =
      if k = id ∨ L.book.mintCount k ≠ 0 then ((if id > 1 then L.coinGroups.insertIfNew (id - 1) {}
        else L.coinGroups).insert id ⟨some first, some chain.length, n⟩)[k]? else none := by
    intro first n k
    simp only [getElem?_insert]
    by_cases hk : k = id
    · simp [hk]
    · simp only [hk, if_false, h.groups, false_or]
      by_cases hzero : L.book.mintCount k = 0
      · simp [hzero]
      · -- a group with coins was there before, so its entry is not replaced
        have hmem : k ∈ L.coinGroups := by
          rw [hf.mem_groups]
          by_contra hk'
          exact hzero (hf.mintCount_eq_zero hk')
        simp only [hzero, ne_eq, not_false_eq_true, if_true]
        split
        · rw [getElem?_insertIfNew]
          split
          · next hcond =>
            obtain ⟨rfl, hnot⟩ := hcond
            exact absurd hmem hnot
          · rfl
        · rfl
  by_cases hgt : id > 1
  · -- the seed enters the containers before the coins themselves
    simp only [addBlockGroup, hnotEmpty, Bool.false_eq_true, if_false, hgetD, isNone_none, if_true,
      hgt, h.seed hf hid]
    refine Rebuilt.mints chain ?_ h.keys rfl hne hfresh rfl rfl (hgroups _ _) ?_
    · show ({ b.containers.book with extended := _ } : Book F G) = _
      rw [h.book]
    · intro k
      show (b.containers.extendedMintMetaInfo.insert id _)[k]? =
        if k ∈ (if id > 1 then L.book.extended.insert id _ else L.book.extended) then
          (if id > 1 then L.book.extended.insert id _ else L.book.extended)[k]? else left[k]?
      simp only [if_pos hgt, getElem?_insert, mem_insert]
      by_cases hk : k = id
      · simp [hk]
      · simp only [hk, if_false, false_or]
        exact h.extended k
  · -- group 1 inherits nothing
    simp only [addBlockGroup, hnotEmpty, Bool.false_eq_true, if_false, hgetD, isNone_none, if_true,
      hgt]
    refine Rebuilt.mints chain h.book h.keys h.current hne hfresh rfl rfl ?_ ?_
    · simp only [openGroup, seed_of_empty hf (show L.latestCoinId = 0 by omega)]
      exact hgroups _ _
    · intro k
      show _ = if k ∈ (if id > 1 then _ else L.book.extended) then
        (if id > 1 then _ else L.book.extended)[k]? else left[k]?
      rw [if_neg hgt]
      exact h.extended k

theorem addBlockGroup_startGroupSize (chain : CChain F G) (b : CLelantusState F G)
    (entry : Int × List (G × Uint256)) :
    (addBlockGroup chain b entry).startGroupSize = b.startGroupSize := by
  unfold addBlockGroup
  split
  dsimp only
  split
  · rfl
  · split
    · split
      · rfl
      · rfl
    · rfl

/-- **One entry of the index enters the rebuilt state as it entered the ledger.** -/
theorem addBlockGroup_spec {maxCoin : Nat} (h : Rebuilt left L b) (hf : Facts chain L)
    (hid : id = L.nextGroup maxCoin coins.length) (hne : coins ≠ [])
    (hfresh : Fresh L.book.minted coins) :
    Rebuilt left (mintGroup b.startGroupSize chain L (id, coins))
      (addBlockGroup chain b (id, coins)) := by
  by_cases heq : id = L.latestCoinId
  · have hlatest : 1 ≤ L.latestCoinId := by
      rcases nextGroup_cases hf maxCoin coins.length with hc | hc | hc | hc <;> omega
    rw [mintGroup_of_eq coins heq, heq]
    exact addBlockGroup_extend h hf hlatest hne hfresh
  · have hopen : id = L.latestCoinId + 1 ∨ (L.latestCoinId = 0 ∧ id = 2) := by
      rcases nextGroup_cases hf maxCoin coins.length with hc | hc | hc | hc <;> omega
    rw [mintGroup_of_ne coins heq]
    exact addBlockGroup_open h hf hopen hne hfresh

end Step

/-! ## §3. Mints before serials, serials before mints. -/

variable [DecidableEq F] [DecidableEq G]

/-- The two orders in which a block enters a ledger give the same. -/
theorem mintGroup_addSpends (start : Nat) (chain : CChain F G) (L : Ledger F G)
    (serials : List (F × Int)) (entry : Int × List (G × Uint256)) :
    mintGroup start chain (L.addSpends serials) entry
      = (mintGroup start chain L entry).addSpends serials := by
  obtain ⟨id, coins⟩ := entry
  by_cases heq : id = L.latestCoinId
  · rw [mintGroup_of_eq coins heq]
    exact mintGroup_of_eq coins heq
  · rw [mintGroup_of_ne coins heq]
    exact mintGroup_of_ne coins heq

omit [DecidableEq G] in
theorem foldlM_addSpend_state (serials : List (F × Int)) (s : CLelantusState F G) :
    serials.foldlM (fun s e => s.addSpend e.1 e.2) s = (do
      let c ← serials.foldlM (fun c e => c.addSpend e.1 e.2) s.containers
      return { s with containers := c }) := by
  induction serials generalizing s with
  | nil => rfl
  | cons e serials ih =>
    rw [foldlM_cons, foldlM_cons]
    unfold addSpend
    cases s.containers.addSpend e.1 e.2 with
    | error err => rfl
    | ok c => exact ih { s with containers := c }

section Block

variable {left : ExtTreeMap Int Nat} {L : Ledger F G} {b b' : CLelantusState F G}
  {chain : CChain F G} {index : CBlockIndex F G}

omit [DecidableEq G] in
theorem Rebuilt.addSpends (h : Rebuilt left L b) {serials : List (F × Int)} {c : Containers F G}
    (hc : serials.foldlM (fun c e => c.addSpend e.1 e.2) b.containers = .ok c) :
    Rebuilt left (L.addSpends serials) { b with containers := c } := by
  obtain ⟨hbook, hkeys, hcur, -⟩ := Containers.foldlM_addSpend_spec hc
  have hext : c.extendedMintMetaInfo = b.containers.extendedMintMetaInfo :=
    congrArg Book.extended hbook
  refine ⟨h.latest, h.groups, ?_, ?_, ?_, hcur h.current⟩
  · show c.book = { (L.book.addSpends serials) with extended := c.extendedMintMetaInfo }
    rw [hbook, h.book, hext]
    rfl
  · intro k
    show c.extendedMintMetaInfo[k]? = _
    rw [hext]
    exact h.extended k
  · intro k
    show k ∈ c.mintMetaInfo ↔ _
    rw [hkeys]
    exact h.keys k

omit [DecidableEq F] in
theorem addBlock_mints {maxCoin start : Nat} (h : Rebuilt left L b)
    (hstart : b.startGroupSize = start) (hf : Facts chain L) (hok : BlockOK maxCoin L index) :
    Rebuilt left (index.lelantusMintedPubCoins.toList.foldl (mintGroup start chain) L)
        (index.lelantusMintedPubCoins.toList.foldl (addBlockGroup chain) b) ∧
      (index.lelantusMintedPubCoins.toList.foldl (addBlockGroup chain)
        b).startGroupSize = start := by
  rcases hok.mints with hno | ⟨coins, hm, hfresh⟩
  · rw [hno.toList]
    exact ⟨h, hstart⟩
  · rw [hm.toList]
    simp only [foldl_cons, foldl_nil]
    refine ⟨?_, (addBlockGroup_startGroupSize _ _ _).trans hstart⟩
    rw [← hstart]
    exact addBlockGroup_spec h hf rfl hm.ne_nil hfresh

theorem connect_eq_mints_first {maxCoin start : Nat} (hok : BlockOK maxCoin L index) :
    L.connect start chain index
      = (index.lelantusMintedPubCoins.toList.foldl (mintGroup start chain) L).addSpends
          index.lelantusSpentSerials := by
  unfold Ledger.connect
  rcases hok.mints with hno | ⟨coins, hm, -⟩
  · rw [hno.toList]
    rfl
  · rw [hm.toList]
    simp only [foldl_cons, foldl_nil]
    exact mintGroup_addSpends _ _ _ _ _

end Block

variable {chain : CChain F G}

/-- **The walk of `BuildLelantusStateFromIndex`.**  It succeeds exactly when every
serial was spent from a minted group, and then it ends in `replay`. -/
theorem build_spec {maxCoin start : Nat} (hchain : ChainOK maxCoin start chain)
    (r : CLelantusState F G) (hstart : r.startGroupSize = start) :
    (∀ b, buildLelantusStateFromIndex r.reset chain = .ok b →
      Rebuilt r.containers.extendedMintMetaInfo (replay start chain) b ∧
        b.startGroupSize = start ∧ SpendsBacked chain) ∧
    (SpendsBacked chain → ∃ b, buildLelantusStateFromIndex r.reset chain = .ok b) := by
  induction hchain with
  | nil =>
    refine ⟨?_, fun _ => ⟨_, rfl⟩⟩
    intro b hb
    simp only [buildLelantusStateFromIndex, Except.ok.injEq] at hb
    subst hb
    exact ⟨rebuilt_reset r, hstart, trivial⟩
  | @cons index chain hchain hindex ih =>
    have hf := facts hchain
    have hf' := facts (ChainOK.cons hchain hindex)
    have hreplay : replay start (index :: chain) = _ := connect_eq_mints_first hindex
    -- a group is a key of the rebuilt counts once a block at or below minted under it
    have hkey : ∀ {b₁ : CLelantusState F G} (id : Int),
        Rebuilt r.containers.extendedMintMetaInfo
          (index.lelantusMintedPubCoins.toList.foldl (mintGroup start chain)
            (replay start chain)) b₁ →
        (id ∈ b₁.containers.mintMetaInfo ↔ ∃ p ∈ index :: chain, countCoinInBlock p id ≠ 0) := by
      intro b₁ id hb₁
      have hcount := hf'.mintCount_ne_zero_iff (k := id)
      rw [hreplay] at hcount
      rw [hb₁.keys]
      exact hcount
    constructor
    · intro b' hb'
      obtain ⟨b, hb, hadd⟩ := bind_eq_ok.mp hb'
      obtain ⟨hbelow, hbstart, hbacked⟩ := ih.1 b hb
      obtain ⟨hmints, hmstart⟩ := addBlock_mints hbelow hbstart hf hindex
      obtain ⟨c, hc, hs⟩ := bind_eq_ok.mp ((foldlM_addSpend_state _ _).symm.trans hadd)
      cases hs
      obtain ⟨-, -, -, hall⟩ := Containers.foldlM_addSpend_spec hc
      refine ⟨?_, hmstart, ?_, hbacked⟩
      · rw [hreplay]
        exact hmints.addSpends hc
      · intro e he
        exact (hkey e.2 hmints).mp (hall e he)
    · intro ⟨hspends, hbacked⟩
      obtain ⟨b, hb⟩ := ih.2 hbacked
      obtain ⟨hbelow, hbstart, -⟩ := ih.1 b hb
      obtain ⟨hmints, -⟩ := addBlock_mints hbelow hbstart hf hindex
      obtain ⟨c, hc⟩ := Containers.foldlM_addSpend_ok
        (fun e he => (hkey e.2 hmints).mpr (hspends e he))
      exact ⟨_, bind_eq_ok.mpr ⟨b, hb, 
        (foldlM_addSpend_state _ _).trans (bind_eq_ok.mpr ⟨c, hc, rfl⟩)⟩⟩

/-! ## §4. Groups that hold no coin. -/

/-- What a chain says about groups without coins of their own: only group 1 can
be one, namely when the first mints did not fit into it. -/
structure Populated (maxCoin : Nat) (chain : CChain F G) (L : Ledger F G) : Prop where
  oldest : oldestMints chain ≠ 0 ↔ 1 ≤ L.latestCoinId
  above : ∀ k, 2 ≤ k → k ≤ L.latestCoinId → L.book.mintCount k ≠ 0
  first : 1 ≤ L.latestCoinId → (L.book.mintCount 1 ≠ 0 ↔ oldestMints chain ≤ maxCoin)

section

omit [DecidableEq F] [DecidableEq G]

theorem oldestMints_cons_of_ne (index : CBlockIndex F G)
    (h : oldestMints chain ≠ 0) : oldestMints (index :: chain) = oldestMints chain := if_pos h

theorem oldestMints_cons_of_eq (index : CBlockIndex F G)
    (h : oldestMints chain = 0) : oldestMints (index :: chain) = mintsInBlock index := by
  unfold oldestMints
  simp [h]

end

theorem populated {maxCoin start : Nat}
    (hchain : ChainOK maxCoin start chain) : Populated maxCoin chain (replay start chain) := by
  induction hchain with
  | nil =>
    refine ⟨?_, ?_, ?_⟩
    · simp [oldestMints, replay]
    · intro k hk hle
      have hle' : k ≤ 0 := hle
      omega
    · intro hle
      have hle' : (1 : Int) ≤ 0 := hle
      omega
  | @cons index chain hchain hindex ih =>
    have hf := facts hchain
    have hnonneg := hf.latest_nonneg
    rcases hindex.mints with hno | ⟨coins, hm, -⟩
    · -- nothing minted, nothing changes
      have hold : oldestMints (index :: chain) = oldestMints chain := by
        by_cases hz : oldestMints chain = 0
        · rw [oldestMints_cons_of_eq index hz, hno.mintsInBlock, hz]
        · exact oldestMints_cons_of_ne index hz
      have hrep : replay start (index :: chain)
          = (replay start chain).addSpends index.lelantusSpentSerials :=
        connect_of_noMints _ _ hno
      rw [hrep]
      refine ⟨?_, ih.above, ?_⟩
      · rw [hold]
        exact ih.oldest
      · rw [hold]
        exact ih.first
    · have hpos := hm.length_pos
      have hrep : replay start (index :: chain) = _ := connect_of_mints start _ hm
      have hlatest : (replay start (index :: chain)).latestCoinId
          = (replay start chain).nextGroup maxCoin coins.length := by
        rw [hrep, mintGroup_latestCoinId]
      have hcount : ∀ k, (replay start (index :: chain)).book.mintCount k =
          (replay start chain).book.mintCount k +
            if k = nextGroup maxCoin (replay start chain) coins.length then coins.length else 0 := by
        intro k
        rw [hrep, mintGroup_mintCount, update_apply]
        split
        · next hk => rw [hk]; rfl
        · rfl
      -- the oldest mints are those of the block where there was no group before
      have hold : oldestMints (index :: chain) =
          if 1 ≤ (replay start chain).latestCoinId then oldestMints chain else coins.length := by
        have holdest := ih.oldest
        split
        · next hl => exact oldestMints_cons_of_ne index (holdest.mpr hl)
        · rw [oldestMints_cons_of_eq index (by omega), hm.mintsInBlock]
      have hnext := nextGroup_cases hf maxCoin coins.length
      refine ⟨?_, ?_, ?_⟩
      · have holdest := ih.oldest
        rw [hold, hlatest]
        split <;> omega
      · intro k hk hle
        have habove := ih.above k hk
        rw [hlatest] at hle
        rw [hcount]
        split <;> omega
      · intro _
        have hfirst := ih.first
        rw [hold, hcount]
        rcases hnext with ⟨hl, hnext, -⟩ | ⟨hl, hnext, -⟩ | ⟨hl, hnext, hfits⟩ | ⟨hl, hnext, hfull⟩
        · -- the latest group grew; if it is group 1 it had coins before
          have hlast := hf.mintCount_latest hl
          rw [if_pos hl, ← hfirst hl, hnext]
          split
          · next hone =>
            rw [← hone] at hlast
            omega
          · exact Iff.rfl
        · rw [if_pos hl, if_neg (by omega)]
          exact hfirst hl
        · rw [if_pos hnext.symm, if_neg (by omega)]
          omega
        · have hzero : (replay start chain).book.mintCount 1 = 0 :=
            hf.mintCount_eq_zero (by omega)
          rw [if_neg (by omega), if_neg (by omega), hzero]
          omega

omit [DecidableEq F] [DecidableEq G] in
theorem Populated.all_iff {maxCoin : Nat} {L : Ledger F G}
    (h : Populated maxCoin chain L) (hf : Facts chain L) :
    (∀ k, k ∈ L.coinGroups → L.book.mintCount k ≠ 0) ↔ oldestMints chain ≤ maxCoin := by
  have hnonneg := hf.latest_nonneg
  by_cases hl : 1 ≤ L.latestCoinId
  · rw [← h.first hl]
    constructor
    · intro hall
      exact hall 1 ((hf.mem_groups 1).mpr ⟨Int.le_refl 1, hl⟩)
    · intro hone k hk
      have hrange := (hf.mem_groups k).mp hk
      by_cases hk₁ : k = 1
      · exact hk₁ ▸ hone
      · exact h.above k (by omega) hrange.2
  · have hz : oldestMints chain = 0 := by
      by_contra hne
      exact hl (h.oldest.mp hne)
    rw [hz]
    constructor
    · omega
    · intro _ k hk
      have hrange := (hf.mem_groups k).mp hk
      omega

/-! ## §5. The rebuilt state and the live one. -/

section Main

variable {params : ConsensusParams G} {env : Externals F G} {maxCoin start : Nat}
  {s b : CLelantusState F G} {chain : CChain F G} {left : ExtTreeMap Int Nat}

theorem mintCount_of_spendCount {L : Ledger F G} (hchain : ChainOK maxCoin start chain)
    (hL : L = replay start chain) (hbacked : SpendsBacked chain) {k : Int}
    (hk : L.book.spendCount k ≠ 0) : L.book.mintCount k ≠ 0 := by
  subst hL
  induction hchain with
  | nil => exact absurd rfl hk
  | @cons index chain hchain hindex ih =>
    obtain ⟨hspends, hbacked⟩ := hbacked
    rw [(facts (ChainOK.cons hchain hindex)).mintCount_ne_zero_iff]
    have hcount : (replay start (index :: chain)).book.spendCount k = _ :=
      connect_spendCount start (replay start chain) index k
    -- the serials of the tip and the serials below it
    by_cases hbelow : (replay start chain).book.spendCount k = 0
    · obtain ⟨e, he, hek⟩ := countP_pos_iff.mp
        (show 0 < index.lelantusSpentSerials.countP (·.2 = k) by omega)
      exact of_decide_eq_true hek ▸ hspends e he
    · obtain ⟨p, hp, hne⟩ := (facts hchain).mintCount_ne_zero_iff.mp (ih hbacked hbelow)
      exact ⟨p, mem_cons_of_mem index hp, hne⟩

/-- A rebuilt state is the live one as soon as every group holds a coin and no
extended-mint count was left over. -/
theorem Rebuilt.agrees (hinv : Inv s chain) (hb : Rebuilt left (replay s.startGroupSize chain) b)
    (hleft : ∀ id, id ∈ left → id ∈ s.containers.extendedMintMetaInfo)
    (hpop : ∀ k, k ∈ s.coinGroups → s.containers.book.mintCount k ≠ 0)
    (hbacked : SpendsBacked chain) : Agrees s b := by
  have hf := hinv.facts
  rw [← hinv.ledger] at hb
  have hgroups : b.coinGroups = s.coinGroups := by
    refine ExtTreeMap.ext_getElem? ?_
    intro k
    rw [hb.groups]
    split
    · rfl
    · next hzero =>
      have hnot : k ∉ s.coinGroups := fun hk => hzero (hpop k hk)
      exact (ExtTreeMap.getElem?_eq_none hnot).symm
  have hextended : b.containers.extendedMintMetaInfo = s.containers.extendedMintMetaInfo := by
    refine ExtTreeMap.ext_getElem? ?_
    intro k
    rw [hb.extended]
    by_cases hk : k ∈ s.containers.extendedMintMetaInfo
    · exact if_pos hk
    · have hk' : k ∉ left := fun h => hk (hleft k h)
      have hknone : s.containers.extendedMintMetaInfo[k]? = none := ExtTreeMap.getElem?_eq_none hk
      rw [hknone]
      refine (if_neg hk).trans ?_
      exact ExtTreeMap.getElem?_eq_none hk'
  have hbook : b.containers.book = s.containers.book := by
    rw [hb.book, hextended]
    rfl
  have hledger : b.ledger = s.ledger := by
    show Ledger.mk _ _ _ = Ledger.mk _ _ _
    rw [hgroups, hb.latest, hbook]
    rfl
  refine agrees_of_ledger hledger ?_
  rw [hb.current, hinv.current]
  -- above the latest group nothing was minted or spent; below it every group is a key
  refine surge_congr s.latestCoinId (congrFun (congrArg Book.mintCount hbook))
    (congrFun (congrArg Book.spendCount hbook)) (fun k => by rw [hextended]) ?_ ?_
  · intro k hk
    rw [hb.keys]
    constructor
    · exact hinv.key_of_minted k
    · intro hkey
      exact hpop k ((hf.mem_groups k).mpr ⟨hinv.key_pos k hkey, hk⟩)
  · intro k hk
    have hzero : s.containers.book.mintCount k = 0 :=
      hf.mintCount_eq_zero (show ¬ (1 ≤ k ∧ k ≤ s.latestCoinId) by omega)
    have hspend : s.containers.book.spendCount k = 0 := by
      by_contra hne
      exact mintCount_of_spendCount hinv.chainOK hinv.ledger hbacked hne hzero
    exact ⟨(congrFun (congrArg Book.mintCount hbook) k).trans hzero,
      (congrFun (congrArg Book.spendCount hbook) k).trans hspend⟩

/-- **A call that writes nothing when it rejects**: the block is over a limit, or its first
serial is used. -/
def StopsEarly (params : ConsensusParams G) (env : Externals F G) (s : CLelantusState F G)
    (pblock : CBlock F G) (info : CLelantusTxInfo F G) : Prop :=
  checkLelantusBlock params env pblock.vtx ≠ .ok .accepted ∨
    ∃ e serials, info.spentSerials = e :: serials ∧ s.isUsedCoinSerial e.1 = true

/-- **Runs of calls**, accepted and rejected, with the active chain; the rejected ones meet a
condition on the state before and the block. -/
inductive CallRun (params : ConsensusParams G) (env : Externals F G) (maxCoin start : Nat)
    (Meets : CLelantusState F G → CBlock F G → CLelantusTxInfo F G → Prop) :
    CLelantusState F G → CChain F G → Prop
  | init : CallRun params env maxCoin start Meets (.init maxCoin start) []
  | accept (index : CBlockIndex F G) (pblock : CBlock F G) {s : CLelantusState F G}
      {chain : CChain F G} {info : CLelantusTxInfo F G} {r : Connected F G}
      (hcalls : CallRun params env maxCoin start Meets s chain)
      (hinfo : pblock.lelantusTxInfo = some info)
      (hfresh : Fresh s.containers.mintedPubCoins (blockMints info))
      (hrun : connectBlockLelantus params env s chain index pblock false = .ok r)
      (hacc : r.verdict = .accepted) :
      CallRun params env maxCoin start Meets r.state (r.index :: chain)
  | reject (index : CBlockIndex F G) (pblock : CBlock F G) {s : CLelantusState F G}
      {chain : CChain F G} {info : CLelantusTxInfo F G} {r : Connected F G}
      (hcalls : CallRun params env maxCoin start Meets s chain)
      (hinfo : pblock.lelantusTxInfo = some info) (hmeets : Meets s pblock info)
      (hrun : connectBlockLelantus params env s chain index pblock false = .ok r)
      (hrej : r.verdict ≠ .accepted) : CallRun params env maxCoin start Meets r.state chain
  | disconnect {s s' : CLelantusState F G} {chain : CChain F G}
      {index : CBlockIndex F G} (hcalls : CallRun params env maxCoin start Meets s (index :: chain))
      (hrun : s.removeBlock chain index = .ok s') : CallRun params env maxCoin start Meets s' chain

theorem StopsEarly.state_eq {index : CBlockIndex F G} {pblock : CBlock F G}
    {info : CLelantusTxInfo F G} {r : Connected F G} (h : StopsEarly params env s pblock info)
    (hinfo : pblock.lelantusTxInfo = some info)
    (hrun : connectBlockLelantus params env s chain index pblock false = .ok r) : r.state = s := by
  rcases connectBlockLelantus_cases hinfo hrun with ⟨-, -, hsame⟩ | ⟨hacc, spent, hspent, hrest⟩
  · exact hsame
  obtain ⟨e, serials, hserials, hused⟩ := h.resolve_left (not_not.mpr hacc)
  rw [hserials, connectSpends] at hspent
  -- a serial that is used is not accepted
  cases hcheck : checkLelantusSpendSerial s (some info) e.1 chain.length true with
  | accepted =>
    unfold isUsedCoinSerial at hused
    rw [checkLelantusSpendSerial_unused hcheck] at hused
    cases hused
  | rejected rej =>
    rw [hcheck] at hspent
    cases hspent
    rcases hrest with ⟨-, rfl⟩ | ⟨hpass, -⟩
    · rfl
    · cases hpass

theorem CallRun.reachable
    (h : CallRun params env maxCoin start (StopsEarly params env) s chain) :
    Reachable params env maxCoin start s chain := by
  induction h with
  | init => exact .init
  | accept index pblock _ hinfo hfresh hrun hacc ih =>
    exact .connect index pblock ih hinfo hfresh hrun hacc
  | reject index pblock _ hinfo hmeets hrun _ ih =>
    rw [hmeets.state_eq hinfo hrun]
    exact ih
  | disconnect _ hrun ih => exact .disconnect ih hrun

theorem Reachable.callRun {Meets : CLelantusState F G → CBlock F G → CLelantusTxInfo F G → Prop}
    (h : Reachable params env maxCoin start s chain) :
    CallRun params env maxCoin start Meets s chain := by
  induction h with
  | init => exact .init
  | connect index pblock _ hinfo hfresh hrun hacc ih =>
    exact .accept index pblock ih hinfo hfresh hrun hacc
  | disconnect _ hrun ih => exact .disconnect ih hrun

end Main

/-- A block with the serials `serials` is rejected. -/
def sampleRejected (serials : List (Nat × Int))
    (p : CLelantusState Nat Int × CChain Nat Int) : Option (Connected Nat Int) :=
  (connectBlockLelantus sampleParams sampleExternals p.1 p.2 { hash := 9 }
    (sampleBlock [] serials) false).toOption.filter fun r => r.verdict ≠ .accepted

theorem callRun_of_sampleRejected {serials : List (Nat × Int)} {s : CLelantusState Nat Int}
    {chain : CChain Nat Int} {r : Connected Nat Int}
    {Meets : CLelantusState Nat Int → CBlock Nat Int → CLelantusTxInfo Nat Int → Prop}
    (hreach : Reachable sampleParams sampleExternals 3 2 s chain)
    (h : sampleRejected serials (s, chain) = some r)
    (hmeets : Meets s (sampleBlock [] serials) (sampleInfo [] serials)) :
    CallRun sampleParams sampleExternals 3 2 Meets r.state chain := by
  obtain ⟨hrun, hrej⟩ := Option.filter_eq_some_iff.mp h
  exact .reject _ _ hreach.callRun rfl hmeets (eq_ok_of_toOption hrun) (of_decide_eq_true hrej)

end Zcoin.Lelantus
