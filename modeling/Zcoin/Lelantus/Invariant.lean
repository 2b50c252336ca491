/-
  Zcoin.Lelantus.Invariant — connecting a block keeps the state in step with
  its chain.

  **`Inv s chain`** ties a `CLelantusState` to the active chain: the index is
  that of an accepted chain, the content of the state is `replay` of it, the
  cached surge flag is up to date, and the keys of `mintMetaInfo` are the groups
  of the chain plus an unbroken run of emptied groups above the latest one.
-/
import Zcoin.Lelantus.ConnectSpec
import Zcoin.Lelantus.Replay

namespace Zcoin.Lelantus

open Chain LibLelantus Lib Std Lib.Except Lib.OrderedMap Ledger Option CLelantusState

variable {F G : Type} [DecidableEq F] [DecidableEq G]

/-! ## §1. The invariant. -/

/-- **The state is in step with the chain.** -/
structure Inv (s : CLelantusState F G) (chain : CChain F G) : Prop where
  chainOK : ChainOK s.maxCoinInGroup s.startGroupSize chain
  ledger : s.ledger = replay s.startGroupSize chain
  current : s.containers.Current
  key_of_minted : ∀ k, s.containers.book.mintCount k ≠ 0 → k ∈ s.containers.mintMetaInfo
  key_of_spent : ∀ k, s.containers.book.spendCount k ≠ 0 → k ∈ s.containers.mintMetaInfo
  key_pos : ∀ k, k ∈ s.containers.mintMetaInfo → 1 ≤ k
  key_below : ∀ k, k ∈ s.containers.mintMetaInfo → ∀ j, s.latestCoinId < j → j ≤ k →
    j ∈ s.containers.mintMetaInfo

variable {chain : CChain F G} {s : CLelantusState F G}

theorem Inv.facts (h : Inv s chain) : Facts chain s.ledger := by
  rw [h.ledger]
  exact Lelantus.facts h.chainOK

/-- The freshly constructed state. -/
def CLelantusState.init (maxCoinInGroup startGroupSize : Nat) : CLelantusState F G :=
  { maxCoinInGroup, startGroupSize }

theorem inv_init (maxCoinInGroup startGroupSize : Nat) :
    Inv (init maxCoinInGroup startGroupSize : CLelantusState F G) [] where
  chainOK := .nil
  ledger := by
    unfold init ledger Containers.book replay
    simp
  current := by
    show false = surgeLoop _ _ (∅ : ExtTreeMap Int Nat).toList 0 0
    rw [toList_empty]
    rfl
  key_of_minted := by simp [init, Containers.book]
  key_of_spent := by simp [init, Containers.book]
  key_pos := by simp [init]
  key_below := by simp [init]

/-! ## §2. The group bookkeeping. -/

section Assign

variable {s : CLelantusState F G} {chain : CChain F G}

omit [DecidableEq F] [DecidableEq G] in
/-- `CountLastNCoins` on the latest group is the seed of the next one. -/
theorem countLastNCoins_latest {L : Ledger F G} (hf : Facts chain L)
    (hlatest : 1 ≤ L.latestCoinId) (start : Nat)
    (hsame : s.coinGroups[L.latestCoinId]? = L.coinGroups[L.latestCoinId]?) :
    s.countLastNCoins chain L.latestCoinId start = seed start chain (L.latestCoinId + 1) := by
  obtain ⟨p, suf, coins, f, n, hskip, -, -, -, -, hgroup⟩ := hf.latest_group hlatest
  have hup : upTo chain suf.length = p :: suf :=
    upTo_of_suffix (hskip ▸ skipEmpty_suffix chain)
  unfold countLastNCoins
  rw [hsame, hgroup]
  show countLastNCoinsLoop L.latestCoinId start (upTo chain suf.length) 0 none = _
  rw [hup, ← hskip, countLastNCoinsLoop_skipEmpty]
  unfold seed
  rw [Int.add_sub_cancel]

omit [DecidableEq F] [DecidableEq G] in
theorem seed_of_empty {L : Ledger F G} {start : Nat} (hf : Facts chain L)
    (hlatest : L.latestCoinId = 0) (id : Int) : seed start chain id = (0, none) := by
  refine countLastNCoinsLoop_of_none 0 none (hf.count_eq_zero ?_)
  omega

/-- What `assignGroup` leaves behind for `n` mints. -/
structure Assigned (s s' : CLelantusState F G) (chain : CChain F G) (n : Nat) :
    Prop where
  maxCoin : s'.maxCoinInGroup = s.maxCoinInGroup
  start : s'.startGroupSize = s.startGroupSize
  latest : s'.latestCoinId = s.ledger.nextGroup s.maxCoinInGroup n
  keys : s'.containers.mintMetaInfo = s.containers.mintMetaInfo
  minted : s'.containers.mintedPubCoins = s.containers.mintedPubCoins
  current : s.containers.Current → s'.containers.Current
  ledger : ∀ coins : List (G × Uint256), coins.length = n →
    { s'.ledger with book := s'.containers.book.addMints ⟨s'.latestCoinId, chain.length⟩ coins }
      = Ledger.mintGroup s.startGroupSize chain s.ledger (s'.latestCoinId, coins)

variable {n : Nat} (hf : Facts chain s.ledger)
include hf

omit [DecidableEq F] in
theorem assignGroup_extend (hlatest : 1 ≤ s.latestCoinId)
    (hnext : s.ledger.nextGroup s.maxCoinInGroup n = s.latestCoinId)
    (hfits : (s.coinGroups.getD s.latestCoinId {}).nCoins + n ≤ s.maxCoinInGroup) :
    ∃ s', s.assignGroup chain chain.length n = .ok s' ∧ Assigned s s' chain n := by
  obtain ⟨p, suf, coins₀, f, gn, -, hp, -, hgn, hlt, hgroup⟩ := hf.latest_group hlatest
  have hgetD : s.coinGroups.getD s.latestCoinId {} = ⟨some f, some suf.length, gn⟩ :=
    getD_of_getElem? hgroup
  have hmax : max 1 s.latestCoinId = s.latestCoinId := max_eq_right hlatest
  have hpos := hp.length_pos
  rw [hgetD] at hfits
  have hgn₀ : gn ≠ 0 := by omega
  refine ⟨{ s with
    coinGroups := s.coinGroups.insert s.latestCoinId ⟨some f, some chain.length, gn + n⟩ },
    ?_, rfl, rfl, hnext.symm, rfl, rfl, fun h => h, ?_⟩
  · -- the group has coins, so the `else` of the first-group test runs; its asserts hold
    simp only [assignGroup, hmax, hgetD, hfits, if_true, hgn₀, if_false,
      isSome_some, assertThat_true, ok_bind, any_some, Nat.le_of_lt hlt,
      decide_true, pure_eq_ok]
  · rintro coins rfl
    have hlat : s.latestCoinId = s.ledger.latestCoinId := rfl
    show _ = mintGroup s.startGroupSize chain s.ledger (s.latestCoinId, coins)
    rw [mintGroup_of_eq coins hlat]
    unfold extendGroup
    have hgetD' : s.ledger.coinGroups.getD s.latestCoinId {} = ⟨some f, some suf.length, gn⟩ :=
      hgetD
    rw [hgetD']
    rfl

variable (hlatest : s.latestCoinId = 0)
include hlatest

omit [DecidableEq F] [DecidableEq G] in
theorem firstGroup_empty : max 1 s.latestCoinId = 1 ∧ (1 : Int) ∉ s.coinGroups ∧
    s.coinGroups.getD 1 {} = {} := by
  have hnotMem : (1 : Int) ∉ s.coinGroups := by
    intro hmem
    have hle : (1 : Int) ≤ s.latestCoinId := ((hf.mem_groups 1).mp hmem).2
    omega
  exact ⟨by rw [hlatest]; rfl, hnotMem, ExtTreeMap.getD_eq_fallback hnotMem⟩

omit [DecidableEq F] in
theorem assignGroup_first
    (hnext : s.ledger.nextGroup s.maxCoinInGroup n = 1) (hfits : n ≤ s.maxCoinInGroup) :
    ∃ s', s.assignGroup chain chain.length n = .ok s' ∧ Assigned s s' chain n := by
  obtain ⟨hmax, -, hempty⟩ := firstGroup_empty hf hlatest
  refine ⟨{ s with
    latestCoinId := 1
    coinGroups := s.coinGroups.insert 1 ⟨some chain.length, some chain.length, 0 + n⟩ },
    ?_, rfl, rfl, hnext.symm, rfl, rfl, fun h => h, ?_⟩
  · simp only [assignGroup, hmax, hempty, Nat.zero_add, hfits, if_true,
      isNone_none, assertThat_true, ok_bind, pure_eq_ok]
  · rintro coins rfl
    have hne : (1 : Int) ≠ s.ledger.latestCoinId := by
      show (1 : Int) ≠ s.latestCoinId
      omega
    show _ = mintGroup s.startGroupSize chain s.ledger (1, coins)
    rw [mintGroup_of_ne coins hne]
    simp only [openGroup, seed_of_empty hf hlatest]
    rfl

omit hlatest

omit [DecidableEq F] in
/-- The mints do not fit: the next group is opened and seeded.  Reading the group
they do not fit into leaves a default group behind where there was none. -/
theorem assignGroup_open {k : Int} (hk : max 1 s.latestCoinId = k)
    (hnext : s.ledger.nextGroup s.maxCoinInGroup n = k + 1)
    (hfull : s.maxCoinInGroup < (s.coinGroups.getD k {}).nCoins + n) :
    ∃ s', s.assignGroup chain chain.length n = .ok s' ∧ Assigned s s' chain n := by
  have hread : s.coinGroups.insert k (s.coinGroups.getD k {}) = s.coinGroups.insertIfNew k {} :=
    ExtTreeMap.ext_getElem? fun a => by grind [ExtTreeMap.getD_eq_getD_getElem?]
  have hcount : countLastNCoins { s with coinGroups := s.coinGroups.insertIfNew k {} } chain k
      s.startGroupSize = seed s.startGroupSize chain (k + 1) := by
    by_cases hlatest : 1 ≤ s.latestCoinId
    · obtain rfl : s.latestCoinId = k := by omega
      have hmem : s.latestCoinId ∈ s.coinGroups :=
        (hf.mem_groups _).mpr ⟨hlatest, Int.le_refl _⟩
      rw [insertIfNew_of_mem hmem]
      exact countLastNCoins_latest hf hlatest _ rfl
    · have hzero : s.latestCoinId = 0 := Int.le_antisymm (by omega) hf.latest_nonneg
      obtain rfl : 1 = k := by omega
      obtain ⟨-, hnotMem, -⟩ := firstGroup_empty hf hzero
      rw [seed_of_empty hf hzero]
      unfold countLastNCoins
      simp only [getElem?_insertIfNew, hnotMem, not_false_eq_true, and_self, if_true]
      rfl
  refine ⟨{ s with
    latestCoinId := k + 1
    coinGroups := (s.coinGroups.insertIfNew k {}).insert (k + 1)
      ⟨some ((seed s.startGroupSize chain (k + 1)).2.getD chain.length), some chain.length,
        (seed s.startGroupSize chain (k + 1)).1 + n⟩
    containers := s.containers.addExtendedMints (k + 1) (seed s.startGroupSize chain (k + 1)).1 },
    ?_, rfl, rfl, hnext.symm, rfl, rfl, fun _ => rfl, ?_⟩
  · simp only [assignGroup, hk, Nat.not_le.mpr hfull, if_false, hread, Int.add_sub_cancel, hcount,
      pure_eq_ok]
  · rintro coins rfl
    have hne : k + 1 ≠ s.latestCoinId := by omega
    have hgt : k + 1 > 1 := by omega
    show _ = mintGroup s.startGroupSize chain s.ledger (k + 1, coins)
    rw [mintGroup_of_ne coins (by exact hne)]
    simp only [openGroup, if_pos hgt, Int.add_sub_cancel]
    rfl

omit [DecidableEq F] in
/-- **The group bookkeeping never asserts**, and its result is `Ledger.mintGroup`. -/
theorem assignGroup_spec (n : Nat) :
    ∃ s', s.assignGroup chain chain.length n = .ok s' ∧ Assigned s s' chain n := by
  rcases nextGroup_cases hf s.maxCoinInGroup n with
    ⟨hl, hnext, hfits⟩ | ⟨hl, hnext, hfull⟩ | ⟨hl, hnext, hfits⟩ | ⟨hl, hnext, hfull⟩
  · exact assignGroup_extend hf hl hnext hfits
  · exact assignGroup_open hf (max_eq_right hl) hnext hfull
  · exact assignGroup_first hf hl hnext hfits
  · obtain ⟨hmax, -, hempty⟩ := firstGroup_empty hf hl
    refine assignGroup_open hf hmax hnext ?_
    rw [hempty]
    omega

end Assign

/-! ## §3. Mints enter the state. -/

/-- What a block with mints leaves behind: the state `s'` and the index `index'`. -/
structure Entered (s s' : CLelantusState F G) (chain : CChain F G)
    (mints : List (G × Uint256)) : Prop where
  maxCoin : s'.maxCoinInGroup = s.maxCoinInGroup
  start : s'.startGroupSize = s.startGroupSize
  latest : s'.latestCoinId = s.ledger.nextGroup s.maxCoinInGroup mints.length
  keys : ∀ k, k ∈ s'.containers.mintMetaInfo ↔
    k = s'.latestCoinId ∨ k ∈ s.containers.mintMetaInfo
  current : s.containers.Current → s'.containers.Current
  ledger : s'.ledger = Ledger.mintGroup s.startGroupSize chain s.ledger (s'.latestCoinId, mints)

omit [DecidableEq F] in
/-- **New mints always enter**, under one id of the index. -/
theorem addMints_spec (index : CBlockIndex F G) {mints : List (G × Uint256)}
    (hf : Facts chain s.ledger) (hfresh : Fresh s.containers.mintedPubCoins mints)
    (hne : mints ≠ []) (hindex : index.lelantusMintedPubCoins = ∅) :
    ∃ s', s.addMintsToStateAndBlockIndex chain index mints
        = .ok (s', { index with
            lelantusMintedPubCoins := (∅ : ExtTreeMap Int _).insert s'.latestCoinId mints }) ∧
      Entered s s' chain mints := by
  obtain ⟨s₁, hassign, h₁⟩ := assignGroup_spec hf mints.length
  have hfresh₁ : Fresh s₁.containers.mintedPubCoins mints := h₁.minted ▸ hfresh
  refine ⟨{ s₁ with
    containers := mints.foldl
      (fun c mint => c.addMint mint.1 ⟨s₁.latestCoinId, chain.length⟩ mint.2) s₁.containers },
    ?_, h₁.maxCoin, h₁.start, h₁.latest, ?_, ?_, ?_⟩
  · unfold addMintsToStateAndBlockIndex
    rw [hassign, ok_bind, hindex, foldl_pushMinted hne]
    rfl
  · intro k
    show k ∈ (mints.foldl _ s₁.containers).mintMetaInfo ↔ _
    rw [Containers.mem_foldl_addMint, h₁.keys]
    simp only [hne, ne_eq, not_false_eq_true, true_and]
  · intro hcur
    exact Containers.foldl_addMint_current (h₁.current hcur)
  · rw [← h₁.ledger mints rfl]
    show Ledger.mk s₁.coinGroups s₁.latestCoinId (Containers.book _) = _
    rw [Containers.book_foldl_addMint hfresh₁]
    rfl

/-! ## §4. A block is connected. -/

/-- What connecting a block with the collector `info` leaves behind. -/
structure Joined (s : CLelantusState F G) (chain : CChain F G)
    (info : CLelantusTxInfo F G) (r : Connected F G) : Prop where
  inv : Inv r.state (r.index :: chain)
  maxCoin : r.state.maxCoinInGroup = s.maxCoinInGroup
  start : r.state.startGroupSize = s.startGroupSize
  keys : ∀ k, k ∈ r.state.containers.mintMetaInfo ↔
    (blockMints info ≠ [] ∧ k = r.state.latestCoinId) ∨ k ∈ s.containers.mintMetaInfo
  spent : r.index.lelantusSpentSerials = info.spentSerials
  spentKeys : ∀ e ∈ info.spentSerials, e.2 ∈ s.containers.mintMetaInfo
  mints : (blockMints info = [] ∧ NoMints r.index) ∨
    Mints r.index (s.ledger.nextGroup s.maxCoinInGroup (blockMints info).length) (blockMints info)

theorem Inv.addSpends (h : Inv s chain) {serials : List (F × Int)} {c : Containers F G}
    (hfold : serials.foldlM (fun c e => c.addSpend e.1 e.2) s.containers = .ok c) :
    ({ s with containers := c } : CLelantusState F G).ledger = s.ledger.addSpends serials ∧
      Facts chain ({ s with containers := c } : CLelantusState F G).ledger ∧ c.Current ∧
      c.mintMetaInfo = s.containers.mintMetaInfo ∧
      c.mintedPubCoins = s.containers.mintedPubCoins ∧
      ∀ e ∈ serials, e.2 ∈ s.containers.mintMetaInfo := by
  obtain ⟨hbook, hkeys, hcur, hall⟩ := Containers.foldlM_addSpend_spec hfold
  have hledger : ({ s with containers := c } : CLelantusState F G).ledger
      = s.ledger.addSpends serials := by
    show Ledger.mk _ _ c.book = _
    rw [hbook]
    rfl
  exact ⟨hledger, hledger ▸ h.facts.addSpends serials, hcur h.current, hkeys,
    congrArg Book.minted hbook, hall⟩

omit [DecidableEq F] [DecidableEq G] in
theorem latest_le_nextGroup {L : Ledger F G} (hf : Facts chain L) (maxCoin n : Nat) :
    1 ≤ L.nextGroup maxCoin n ∧ L.latestCoinId ≤ L.nextGroup maxCoin n := by
  rcases nextGroup_cases hf maxCoin n with hc | hc | hc | hc <;> omega

/-- **A state with the content of the longer chain**: its keys are those from before and the
group of the block, from whose groups the block spends. -/
theorem Inv.join (h : Inv s chain) {block : CBlockIndex F G} {s' : CLelantusState F G}
    (hok : BlockOK s.maxCoinInGroup s.ledger block)
    (hmaxCoin : s'.maxCoinInGroup = s.maxCoinInGroup)
    (hstart : s'.startGroupSize = s.startGroupSize)
    (hledger : s'.ledger = s.ledger.connect s.startGroupSize chain block)
    (hcur : s'.containers.Current)
    (hkeys : ∀ k, k ∈ s'.containers.mintMetaInfo ↔
      countCoinInBlock block k ≠ 0 ∨ k ∈ s.containers.mintMetaInfo)
    (hspent : ∀ e ∈ block.lelantusSpentSerials, e.2 ∈ s.containers.mintMetaInfo) :
    Inv s' (block :: chain) := by
  have hf : Facts (block :: chain) s'.ledger := hledger ▸ h.facts.connect hok
  have hrange := hf.range block List.mem_cons_self
  refine ⟨?_, ?_, hcur, ?_, ?_, ?_, ?_⟩
  · rw [hmaxCoin, hstart]
    exact .cons h.chainOK (h.ledger ▸ hok)
  · rw [hledger, hstart, h.ledger]
    rfl
  · intro k hk
    rw [hkeys]
    obtain ⟨p, hp, hcount⟩ := hf.mintCount_ne_zero_iff.mp hk
    rcases List.mem_cons.mp hp with rfl | hp
    · exact .inl hcount
    · exact .inr (h.key_of_minted k (h.facts.mintCount_ne_zero_iff.mpr ⟨p, hp, hcount⟩))
  · intro k hk
    have hcount : s'.containers.book.spendCount k = s.containers.book.spendCount k + _ :=
      (congrArg (·.book.spendCount k) hledger).trans (connect_spendCount _ _ block k)
    refine (hkeys k).mpr (.inr ?_)
    by_cases hold : s.containers.book.spendCount k = 0
    · -- the group was first spent from in this block
      obtain ⟨e, he, hek⟩ := List.countP_pos_iff.mp
        (show 0 < block.lelantusSpentSerials.countP (·.2 = k) by omega)
      exact of_decide_eq_true hek ▸ hspent e he
    · exact h.key_of_spent k hold
  · intro k hk
    rcases (hkeys k).mp hk with hcount | hk
    · exact (hrange k hcount).1
    · exact h.key_pos k hk
  · intro k hk j (hj : s'.ledger.latestCoinId < j) hjk
    rcases (hkeys k).mp hk with hcount | hk
    · have hle := (hrange k hcount).2
      omega
    · refine (hkeys j).mpr (.inr (h.key_below k hk j ?_ hjk))
      -- the latest id does not fall
      show s.ledger.latestCoinId < j
      rcases hok.mints with hno | ⟨coins, hm, -⟩
      · rw [hledger, connect_of_noMints _ _ hno] at hj
        exact hj
      · have hle := latest_le_nextGroup h.facts s.maxCoinInGroup coins.length
        rw [hledger, connect_of_mints _ _ hm, mintGroup_latestCoinId] at hj
        omega

/-- **An accepted block keeps the state in step with its chain.** -/
theorem inv_connect {params : ConsensusParams G} {env : Externals F G} {index : CBlockIndex F G}
    {pblock : CBlock F G} {info : CLelantusTxInfo F G} {r : Connected F G} (h : Inv s chain)
    (hinfo : pblock.lelantusTxInfo = some info)
    (hfresh : Fresh s.containers.mintedPubCoins (blockMints info))
    (hrun : connectBlockLelantus params env s chain index pblock false = .ok r)
    (hacc : r.verdict = .accepted) : Joined s chain info r := by
  obtain ⟨c, hfold, hspends, hmints⟩ := connectBlockLelantus_accepted hinfo hrun hacc
  obtain ⟨hledger, hf, hcur, hkeys, hminted, hall⟩ := h.addSpends hfold
  obtain ⟨entered, henter, hstate, hidxM, hidxS, -⟩ := connectMints_fields hmints
  obtain ⟨verdict, state, block⟩ := r
  have hfresh₁ : Fresh c.mintedPubCoins (blockMints info) := hminted ▸ hfresh
  unfold enterMints at henter
  by_cases hempty : blockMints info = []
  · -- no mints: only the serials entered
    rw [hempty] at henter
    simp only [List.isEmpty_nil, if_true, Except.ok.injEq] at henter
    subst henter
    have hno : NoMints block := hidxM
    have hspent : block.lelantusSpentSerials = info.spentSerials := hidxS
    obtain rfl : state = { s with containers := c } := hstate
    refine ⟨h.join ⟨.inl hno, hspent ▸ hspends⟩ rfl rfl ?_ hcur ?_ (hspent ▸ hall), rfl, rfl, ?_,
      hspent, hall, .inl ⟨hempty, hno⟩⟩
    · rw [hledger, connect_of_noMints _ _ hno, hspent]
    · simp [hno.count, hkeys]
    · simp [hempty, hkeys]
  · -- the mints went to the group the rule gives on the ledger before the block
    have hnotEmpty : (blockMints info).isEmpty = false := by simp [hempty]
    rw [hnotEmpty] at henter
    simp only [Bool.false_eq_true, if_false] at henter
    obtain ⟨s', hadd, hent⟩ := addMints_spec
      { clearLelantus index with lelantusSpentSerials := info.spentSerials } hf hfresh₁ hempty rfl
    rw [hadd, Except.ok.injEq] at henter
    subst henter
    obtain rfl : state = s' := hstate
    have hlatest : state.latestCoinId
        = s.ledger.nextGroup s.maxCoinInGroup (blockMints info).length := by
      rw [hent.latest, hledger]
      rfl
    have hm : Mints block (s.ledger.nextGroup s.maxCoinInGroup (blockMints info).length)
        (blockMints info) := ⟨hlatest ▸ hidxM, hempty⟩
    have hspent : block.lelantusSpentSerials = info.spentSerials := hidxS
    have hledger' : state.ledger = s.ledger.connect s.startGroupSize chain block := by
      rw [connect_of_mints _ _ hm, hent.ledger, hledger, hlatest, hspent]
    have hkeys' : ∀ k, k ∈ state.containers.mintMetaInfo ↔
        k = state.latestCoinId ∨ k ∈ s.containers.mintMetaInfo := by
      intro k
      rw [hent.keys]
      show _ ∨ k ∈ c.mintMetaInfo ↔ _
      rw [hkeys]
    refine ⟨h.join ⟨.inr ⟨_, hm, hfresh⟩, hspent ▸ hspends⟩ hent.maxCoin hent.start hledger'
      (hent.current hcur) ?_ (hspent ▸ hall), hent.maxCoin, hent.start, ?_, hspent, hall, .inr hm⟩
    · intro k
      rw [hkeys', hm.count, hlatest]
      simp [hempty]
    · simp [hkeys', hempty]

end Zcoin.Lelantus
