/-
  Zcoin.Lelantus.Disconnect — removing the tip from the Lelantus state.

  `RemoveBlock` has to find out from counts alone whether the tip opened its
  group ("edged block").  `Removable` states when its test succeeds, in terms of
  the ledger BELOW the tip: always if the tip extended the latest group or opened
  group 1; if it opened group `g + 1` over group `g`, iff the seed, without the coins
  of the NEWEST block of group `g`, stays below `startGroupSize`.  The source subtracts
  the newest block where the seed was completed by the OLDEST one.
-/
import Zcoin.Lelantus.Invariant

namespace Zcoin.Lelantus

open List hiding getElem?_insert
open Chain Lib Std Lib.Except Lib.OrderedMap Function Ledger

variable {F G : Type} [DecidableEq F] [DecidableEq G]

/-! ## §1. The walks of `RemoveBlock`. -/

/-- The coins of `gid` in the newest block that has any. -/
def newestCount (gid : Int) : CChain F G → Nat
  | [] => 0
  | index :: chain =>
    if countCoinInBlock index gid ≠ 0 then countCoinInBlock index gid else newestCount gid chain

section Walks

variable {chain : CChain F G} {index p : CBlockIndex F G}
  {suf : CChain F G} {id gid : Int} {coins : List (G × Uint256)}

section

omit [DecidableEq F] [DecidableEq G]

theorem Mints.contains (h : Mints index gid coins) :
    index.lelantusMintedPubCoins.contains id = true ↔ id = gid := by
  rw [h.minted, ExtTreeMap.contains_iff_mem, mem_insert]
  simp

theorem NoMints.contains (h : NoMints index) :
    index.lelantusMintedPubCoins.contains id = false := by
  rw [h]
  simp

end

theorem ChainOK.shape {maxCoin start : Nat} (h : ChainOK maxCoin start chain) :
    ∀ p ∈ chain, NoMints p ∨ ∃ gid coins, Mints p gid coins := by
  induction h with
  | nil => simp
  | cons _ hindex ih =>
    refine forall_mem_cons.mpr ⟨?_, ih⟩
    rcases hindex.mints with hno | ⟨coins, hmints, -⟩
    · exact .inl hno
    · exact .inr ⟨_, coins, hmints⟩

theorem ChainOK.contains_iff {maxCoin start : Nat} (h : ChainOK maxCoin start chain)
    (hp : p ∈ chain) : p.lelantusMintedPubCoins.contains id = true ↔ countCoinInBlock p id ≠ 0 := by
  rcases h.shape p hp with hno | ⟨gid, coins, hmints⟩
  · rw [hno.contains, hno.count]
    simp
  · rw [hmints.contains, hmints.count]
    have hpos := hmints.length_pos
    by_cases hid : id = gid
    · rw [if_pos hid]
      simp only [hid, true_iff]
      omega
    · rw [if_neg hid]
      simp [hid]

section

omit [DecidableEq F] [DecidableEq G]

theorem prevGroupCount_skipEmpty :
    prevGroupCount id (skipEmpty chain) = prevGroupCount id chain := by
  refine walk_skipEmpty (prevGroupCount id) fun index chain hno => ?_
  simp only [prevGroupCount, hno.count, if_true]

theorem newestCount_skipEmpty : newestCount gid (skipEmpty chain) = newestCount gid chain := by
  refine walk_skipEmpty (newestCount gid) fun index chain hno => ?_
  simp only [newestCount, hno.count, ne_eq, not_true_eq_false, if_false]

theorem prevGroupCount_same (hskip : skipEmpty chain = p :: suf) (hp : Mints p id coins) :
    prevGroupCount id chain = 0 := by
  rw [← prevGroupCount_skipEmpty, hskip]
  unfold prevGroupCount
  rw [if_neg hp.count_ne_zero]

theorem prevGroupCount_next (hskip : skipEmpty chain = p :: suf) (hp : Mints p gid coins) :
    prevGroupCount (gid + 1) chain = newestCount gid chain ∧ 0 < newestCount gid chain := by
  have hnext : countCoinInBlock p (gid + 1) = 0 := by
    have hne : gid + 1 ≠ gid := by omega
    rw [hp.count, if_neg hne]
  have hself := hp.count_ne_zero
  rw [← prevGroupCount_skipEmpty, ← newestCount_skipEmpty, hskip]
  unfold prevGroupCount newestCount
  rw [Int.add_sub_cancel, if_pos hnext, if_neg hself, if_pos hself]
  exact ⟨rfl, by omega⟩

theorem prevGroupCount_none (hnone : ∀ p ∈ chain, ∀ k, countCoinInBlock p k = 0) :
    prevGroupCount id chain = 0 := by
  induction chain with
  | nil => rfl
  | cons index chain ih =>
    have hindex := hnone index mem_cons_self
    simp only [prevGroupCount, hindex, if_true]
    exact ih (fun p hp => hnone p (mem_cons_of_mem _ hp))

theorem le_countLastNCoinsLoop {required : Nat} (count : Nat) (first : Option Nat) :
    count ≤ (countLastNCoinsLoop gid required chain count first).1 := by
  induction chain generalizing count first with
  | nil => exact Nat.le_refl _
  | cons index chain ih =>
    simp only [countLastNCoinsLoop]
    split
    · split
      · exact Nat.le_trans (Nat.le_add_right _ _) (ih _ _)
      · exact ih _ _
    · exact Nat.le_refl _

theorem newestCount_le_seed {start : Nat} (hstart : 0 < start) :
    newestCount gid chain ≤ (seed start chain (gid + 1)).1 := by
  unfold seed
  rw [Int.add_sub_cancel]
  induction chain with
  | nil => exact Nat.le_refl _
  | cons index chain ih =>
    simp only [newestCount, countLastNCoinsLoop, if_pos hstart]
    split
    · rw [Nat.zero_add]
      exact le_countLastNCoinsLoop _ _
    · exact ih

theorem rollBackLastBlock_ok {f : Nat} (hskip : skipEmpty chain = p :: suf)
    (hp : p.lelantusMintedPubCoins.contains id = true) (hf : f ≤ suf.length) :
    rollBackLastBlock id (some f) (index :: chain) = .ok suf.length := by
  induction chain generalizing index with
  | nil => simp [skipEmpty] at hskip
  | cons prev chain ih =>
    have hlen : suf.length < (prev :: chain).length := by
      have := (skipEmpty_suffix (prev :: chain)).length_le
      rw [hskip] at this
      exact this
    have hne : ¬ some (prev :: chain).length = some f := by
      simp only [Option.some.injEq]
      omega
    unfold rollBackLastBlock
    rw [if_neg hne]
    show (if prev.lelantusMintedPubCoins.contains id = true then _ else _) = _
    by_cases hempty : prev.lelantusMintedPubCoins.isEmpty = true
    · -- nothing minted there: one block further down
      have hno : NoMints prev := ExtTreeMap.isEmpty_iff.mp hempty
      rw [hno.contains, if_neg (by simp)]
      exact ih (hno.skipEmpty ▸ hskip)
    · have hhere : skipEmpty (prev :: chain) = prev :: chain := by
        unfold skipEmpty
        rw [dropWhile_cons, if_neg hempty]
      rw [hhere] at hskip
      obtain ⟨rfl, rfl⟩ := cons.inj hskip
      rw [if_pos hp]

/-- Without an earlier block of the group the roll-back reaches the first block
and its assertion fails. -/
theorem rollBackLastBlock_assert {f : Nat} (hf : f ≤ chain.length)
    (hnone : ∀ p ∈ chain, p.lelantusMintedPubCoins.contains id = false) :
    rollBackLastBlock id (some f) (index :: chain) = .error .assertion := by
  induction chain generalizing index with
  | nil =>
    have hf₀ : f = 0 := by simpa using hf
    simp [rollBackLastBlock, hf₀]
  | cons prev chain ih =>
    unfold rollBackLastBlock
    by_cases heq : some (prev :: chain).length = some f
    · rw [if_pos heq]
    · rw [if_neg heq]
      have hlt : f ≤ chain.length := by
        simp only [Option.some.injEq, length_cons] at heq hf
        omega
      show (if prev.lelantusMintedPubCoins.contains id = true then _ else _) = _
      rw [hnone prev mem_cons_self, if_neg (by simp)]
      exact ih hlt (fun p hp => hnone p (mem_cons_of_mem _ hp))

end

end Walks

/-! ## §2. The group stage. -/

/-- **When `RemoveBlock` recognises what the tip did to the groups**, in terms of
the ledger `L` below the tip and the id of its mints. -/
def Removable (start : Nat) (chain : CChain F G) (L : Ledger F G) (id : Int) : Prop :=
  id = L.latestCoinId ∨ (L.latestCoinId = 0 ∧ id = 1) ∨
    (1 ≤ L.latestCoinId ∧
      (Ledger.seed start chain id).1 - newestCount L.latestCoinId chain < start)

section GroupStage

variable {s : CLelantusState F G} {chain : CChain F G} {index : CBlockIndex F G}
  {L : Ledger F G} {id : Int} {coins : List (G × Uint256)}

/-- **The edged-block test** of `RemoveBlock` on a group that was just opened. -/
def Edged (start : Nat) (chain : CChain F G) (id : Int) : Prop :=
  let prevCount := if id > 1 then prevGroupCount id chain else 0
  (¬ id > 1 ∧ (seed start chain id).1 = 0) ∨
    (id > 1 ∧ prevCount > 0 ∧ sizeSub (seed start chain id).1 prevCount < start)

omit [DecidableEq F] [DecidableEq G] in
/-- On the id of a new group the test of the source is `Removable`. -/
theorem edged_iff_removable {start maxCoin n : Nat} (hf : Facts chain L)
    (hid : id = L.nextGroup maxCoin n) (hnew : id ≠ L.latestCoinId) :
    Edged start chain id ↔ Removable start chain L id := by
  unfold Edged Removable
  rcases nextGroup_cases hf maxCoin n with
    ⟨hl, hnext, -⟩ | ⟨hl, hnext, -⟩ | ⟨hl, hnext, -⟩ | ⟨hl, hnext, -⟩
  · exact absurd (hid.trans hnext) hnew
  · -- over an existing group the walk finds the newest block of that group
    obtain ⟨p, suf, coins₀, f, m, hskip, hp, -⟩ := hf.latest_group hl
    obtain ⟨hprev, hpos⟩ := prevGroupCount_next hskip hp
    have hgt : L.latestCoinId + 1 > 1 := by omega
    rw [hid, hnext]
    simp only [if_pos hgt, hprev]
    by_cases hstart : 0 < start
    · rw [sizeSub_of_le (newestCount_le_seed hstart)]
      omega
    · omega
  · rw [hid, hnext, seed_of_empty hf hl]
    simp [hl]
  · -- an oversize first block is never recognised
    have hprev : prevGroupCount 2 chain = 0 :=
      prevGroupCount_none fun p hp k => hf.count_eq_zero (by omega) p hp
    rw [hid, hnext]
    simp only [hprev, ite_self]
    omega

/-- What the group stage leaves behind when it succeeds: the groups of `L`, with
the block's mints still in the book. -/
structure GroupsUndone (s s' : CLelantusState F G) (chain : CChain F G)
    (L : Ledger F G) (id : Int) (coins : List (G × Uint256)) : Prop where
  maxCoin : s'.maxCoinInGroup = s.maxCoinInGroup
  start : s'.startGroupSize = s.startGroupSize
  coinGroups : s'.coinGroups = L.coinGroups
  latest : s'.latestCoinId = L.latestCoinId
  book : s'.containers.book = L.book.addMints ⟨id, chain.length⟩ coins
  keys : s'.containers.mintMetaInfo = s.containers.mintMetaInfo
  current : s.containers.Current → s'.containers.Current

section

omit [DecidableEq F]

/-- The tip extended the latest group: `lastBlock` and `nCoins` go back. -/
theorem removeBlockGroup_extend (hf : Facts chain L) (hlatest : 1 ≤ L.latestCoinId)
    (hne : coins ≠ []) (hs : s.ledger = L.extendGroup chain L.latestCoinId coins) :
    ∃ s', CLelantusState.removeBlockGroup chain index s (L.latestCoinId, coins) = .ok s' ∧
      GroupsUndone s s' chain L L.latestCoinId coins := by
  obtain ⟨p, suf, coins₀, f, n, hskip, hp, hfle, hn, hlt, hgroup⟩ := hf.latest_group hlatest
  have hpos := hp.length_pos
  have hlen : coins.length ≠ 0 := fun h => hne (length_eq_zero_iff.mp h)
  have hgroups : s.coinGroups = L.coinGroups.insert L.latestCoinId
      ⟨some f, some chain.length, n + coins.length⟩ := by
    have h := congrArg coinGroups hs
    simp only [extendGroup, getD_of_getElem? hgroup] at h
    exact h
  have hget : s.coinGroups[L.latestCoinId]?
      = some ⟨some f, some chain.length, n + coins.length⟩ := by
    rw [hgroups, getElem?_insert, if_pos rfl]
  have hprev : (if L.latestCoinId > 1 then prevGroupCount L.latestCoinId chain else 0) = 0 := by
    split
    · exact prevGroupCount_same hskip hp
    · rfl
  have hroll : rollBackLastBlock L.latestCoinId (some f) (index :: chain) = .ok suf.length :=
    rollBackLastBlock_ok hskip (hp.contains.mpr rfl) hfle
  have hcond : ¬ ((¬ L.latestCoinId > 1 ∧ n = 0) ∨
      (L.latestCoinId > 1 ∧ (0 : Nat) > 0 ∧ sizeSub n 0 < s.startGroupSize)) := by
    omega
  refine ⟨{ s with
    coinGroups := s.coinGroups.insert L.latestCoinId ⟨some f, some suf.length, n⟩ },
    ?_, rfl, rfl, ?_, ?_, ?_, rfl, fun h => h⟩
  · simp only [CLelantusState.removeBlockGroup, hget, hlen, if_false, Nat.le_add_left, decide_true,
      assertThat_true, ok_bind, Nat.add_sub_cancel, hprev, hcond, hroll, pure_eq_ok]
  · rw [hgroups, insert_insert_self, insert_of_getElem? hgroup]
  · exact congrArg latestCoinId hs
  · exact congrArg Ledger.book hs

theorem openGroup_state {start : Nat} (hs : s.ledger = L.openGroup start chain id coins) :
    s.coinGroups[id]? = some ⟨some ((seed start chain id).2.getD chain.length),
      some chain.length, (seed start chain id).1 + coins.length⟩ := by
  have hgroups : s.coinGroups = _ := congrArg coinGroups hs
  rw [hgroups]
  simp only [openGroup, getElem?_insert, if_true]

theorem removeBlockGroup_opened (hf : Facts chain L) (hid : id = L.latestCoinId + 1)
    (hne : coins ≠ []) (hedged : Edged s.startGroupSize chain id)
    (hs : s.ledger = L.openGroup s.startGroupSize chain id coins) :
    ∃ s', CLelantusState.removeBlockGroup chain index s (id, coins) = .ok s' ∧
      GroupsUndone s s' chain L id coins := by
  have hlen : coins.length ≠ 0 := fun h => hne (length_eq_zero_iff.mp h)
  refine ⟨{ s with
    coinGroups := s.coinGroups.erase id
    latestCoinId := s.latestCoinId - 1
    containers := s.containers.removeExtendedMints id },
    ?_, rfl, rfl, ?_, ?_, ?_, rfl, fun _ => rfl⟩
  · simp only [CLelantusState.removeBlockGroup, openGroup_state hs, hlen, if_false,
      Nat.le_add_left, decide_true, assertThat_true, ok_bind, Nat.add_sub_cancel]
    exact if_pos hedged
  · have hgroups : s.coinGroups = _ := congrArg coinGroups hs
    have hbelow : (if id > 1 then L.coinGroups.insertIfNew (id - 1) {} else L.coinGroups)
        = L.coinGroups := by
      split
      · exact insertIfNew_of_mem ((hf.mem_groups _).mpr (by omega))
      · rfl
    have hfresh : id ∉ L.coinGroups := by
      rw [hf.mem_groups]
      omega
    show s.coinGroups.erase _ = _
    rw [hgroups]
    simp only [openGroup, hbelow]
    exact erase_insert_self hfresh
  · have hlat : s.latestCoinId = id := congrArg latestCoinId hs
    show s.latestCoinId - 1 = L.latestCoinId
    omega
  · have hbook : s.containers.book = _ := congrArg Ledger.book hs
    have hnotExt : id ∉ L.book.extended := by
      rw [hf.mem_extended]
      omega
    show (s.containers.removeExtendedMints _).book = _
    rw [Containers.removeExtendedMints_book, hbook]
    by_cases hgt : id > 1
    · simp only [openGroup, if_pos hgt, Book.addMints, erase_insert_self hnotExt]
    · simp only [openGroup, if_neg hgt, Book.addMints, erase_of_not_mem hnotExt]

end

/-- **An opened group that is not recognised**: the block is taken for one that
extended the group, and rolling `lastBlock` back runs into the first block. -/
theorem removeBlockGroup_assert {maxCoin start : Nat} (hok : ChainOK maxCoin start chain)
    (hf : Facts chain L) (hne : coins ≠ []) (hid : L.latestCoinId < id)
    (hedged : ¬ Edged s.startGroupSize chain id)
    (hs : s.ledger = L.openGroup s.startGroupSize chain id coins) :
    CLelantusState.removeBlockGroup chain index s (id, coins) = .error .assertion := by
  have hlen : coins.length ≠ 0 := fun h => hne (length_eq_zero_iff.mp h)
  have hnone : ∀ p ∈ chain, p.lelantusMintedPubCoins.contains id = false := by
    intro p hp
    have hcount := hf.count_eq_zero (by omega : ¬ (1 ≤ id ∧ id ≤ L.latestCoinId)) p hp
    rw [← Bool.not_eq_true, hok.contains_iff hp]
    omega
  have hroll : rollBackLastBlock id
      (some ((seed s.startGroupSize chain id).2.getD chain.length)) (index :: chain)
        = .error .assertion := rollBackLastBlock_assert (seed_le _ chain id) hnone
  simp only [CLelantusState.removeBlockGroup, openGroup_state hs, hlen, if_false, Nat.le_add_left,
    decide_true, assertThat_true, ok_bind, Nat.add_sub_cancel, hroll, error_bind]
  exact if_neg hedged

end GroupStage

/-! ## §3. The whole block. -/

variable {s : CLelantusState F G} {chain : CChain F G} {index : CBlockIndex F G}
  {id : Int} {coins : List (G × Uint256)}

/-- What a removed tip leaves behind. -/
structure Disconnected (s s' : CLelantusState F G) (chain : CChain F G) : Prop where
  inv : Inv s' chain
  maxCoin : s'.maxCoinInGroup = s.maxCoinInGroup
  start : s'.startGroupSize = s.startGroupSize
  keys : ∀ k, k ∈ s'.containers.mintMetaInfo ↔ k ∈ s.containers.mintMetaInfo

omit [DecidableEq G] in
theorem spends_undone {c : Containers F G} {b : Book F G} {serials : List (F × Int)}
    (hbook : c.book = b.addSpends serials) (hfresh : FreshSpends b.used serials)
    (hcur : c.Current) :
    (serials.foldl (fun c e => c.removeSpend e.1) c).book = b ∧
      (serials.foldl (fun c e => c.removeSpend e.1) c).mintMetaInfo = c.mintMetaInfo ∧
      (serials.foldl (fun c e => c.removeSpend e.1) c).Current := by
  have hused : ∀ e ∈ serials, c.usedCoinSerials e.1 = some e.2 := by
    intro e he
    show c.book.used e.1 = some e.2
    rw [hbook]
    exact Book.foldl_update_of_mem hfresh.nodup he
  have hcount : ∀ k, serials.countP (·.2 = k) ≤ c.book.spendCount k := by
    intro k
    rw [hbook]
    exact Nat.le_add_left _ _
  obtain ⟨hb, hkeys, hc⟩ := Containers.foldl_removeSpend_spec hfresh.nodup hused hcount hcur
  refine ⟨?_, hkeys, hc⟩
  rw [hb, hbook, Book.removeSpends_addSpends hfresh]

theorem removeBlock_rest {s₁ : CLelantusState F G} {L : Ledger F G} (hm : Mints index id coins)
    (hgroups : CLelantusState.removeBlockGroup chain index s (id, coins) = .ok s₁)
    (hundone : GroupsUndone s s₁ chain (L.addSpends index.lelantusSpentSerials) id coins)
    (htags : L.book.TagsOK) (hfresh : Fresh L.book.minted coins)
    (hspends : FreshSpends L.book.used index.lelantusSpentSerials) (hcur : s.containers.Current) :
    ∃ c, s.removeBlock chain index = .ok { s₁ with containers := c } ∧ c.book = L.book ∧
      c.Current ∧ ∀ k, k ∈ c.mintMetaInfo ↔ k = id ∨ k ∈ s.containers.mintMetaInfo := by
  have hbook₁ := hundone.book
  have htags₀ : (L.addSpends index.lelantusSpentSerials).book.TagsOK := ⟨htags.minted, htags.inj⟩
  have hminted : ∀ coin ∈ coins, ∃ info, s₁.containers.mintedPubCoins coin.1 = some info ∧
      info.coinGroupId = id := by
    intro coin hcoin
    refine ⟨⟨id, chain.length⟩, ?_, rfl⟩
    show s₁.containers.book.minted coin.1 = _
    rw [hbook₁]
    show (if coin.1 ∈ coins.map Prod.fst then _ else _) = _
    rw [if_pos (mem_map_of_mem hcoin)]
  have hcount : coins.length ≤ s₁.containers.book.mintCount id := by
    rw [hbook₁]
    simp only [Book.addMints, update_self]
    exact Nat.le_add_left _ _
  have htags₁ : s₁.containers.book.TagsOK := hbook₁ ▸ Book.addMints_tagsOK htags₀ hfresh
  obtain ⟨c₂, hrun, hbook₂, hcur₂, hkeys₂⟩ :=
    Containers.foldlM_removeBlockMint hfresh.nodup hminted hcount htags₁
  have hback : c₂.book = L.book.addSpends index.lelantusSpentSerials := by
    rw [hbook₂, hbook₁]
    exact Book.removeMints_addMints ⟨id, chain.length⟩ htags₀ hfresh
  obtain ⟨hbook₃, hkeys₃, hcur₃⟩ := spends_undone hback hspends (hcur₂ (hundone.current hcur))
  refine ⟨_, ?_, hbook₃, hcur₃, ?_⟩
  · unfold CLelantusState.removeBlock
    rw [hm.toList]
    simp only [foldlM_cons, foldlM_nil, hgroups, ok_bind, pure_eq_ok, hrun]
  · intro k
    rw [hkeys₃, hkeys₂, hundone.keys]
    simp [hm.ne_nil]

theorem inv_below {s' : CLelantusState F G} (h : Inv s (index :: chain))
    (hlatest : s.latestCoinId ≤ s'.latestCoinId + 1)
    (hmaxCoin : s'.maxCoinInGroup = s.maxCoinInGroup)
    (hstart : s'.startGroupSize = s.startGroupSize)
    (hledger : s'.ledger = replay s.startGroupSize chain) (hcur : s'.containers.Current)
    (hkeys : ∀ k, k ∈ s'.containers.mintMetaInfo ↔ k ∈ s.containers.mintMetaInfo) :
    Disconnected s s' chain := by
  cases h.chainOK with
  | cons hchain hblock =>
    have hf := Lelantus.facts hchain
    refine ⟨⟨?_, ?_, hcur, ?_, ?_, ?_, ?_⟩, hmaxCoin, hstart, hkeys⟩
    · rw [hmaxCoin, hstart]
      exact hchain
    · rw [hstart]
      exact hledger
    · intro k hk
      rw [hkeys]
      apply h.key_of_minted
      have hold : (replay s.startGroupSize chain).book.mintCount k ≠ 0 := hledger ▸ hk
      obtain ⟨p, hp, hcount⟩ := hf.mintCount_ne_zero_iff.mp hold
      exact h.facts.mintCount_ne_zero_iff.mpr ⟨p, mem_cons_of_mem index hp, hcount⟩
    · intro k hk
      rw [hkeys]
      apply h.key_of_spent
      have hold : (replay s.startGroupSize chain).book.spendCount k ≠ 0 := hledger ▸ hk
      have hnew : s.containers.book.spendCount k = _ :=
        (congrArg (·.book.spendCount k) h.ledger).trans (connect_spendCount _ _ index k)
      omega
    · intro k hk
      exact h.key_pos k ((hkeys k).mp hk)
    · intro k hk j hj hjk
      rw [hkeys]
      by_cases hjs : s.latestCoinId < j
      · exact h.key_below k ((hkeys k).mp hk) j hjs hjk
      · -- only the id of the tip's own group is new, and that one has coins
        have hj₀ : j = s.latestCoinId := by omega
        apply h.key_of_minted
        have hpos : 1 ≤ s.ledger.latestCoinId := by
          have hnonneg : 0 ≤ s'.latestCoinId := by
            have := hf.latest_nonneg
            rw [← hledger] at this
            exact this
          show 1 ≤ s.latestCoinId
          omega
        exact hj₀ ▸ h.facts.mintCount_latest hpos

omit [DecidableEq F] in
theorem groups_undone {L : Ledger F G} {maxCoin : Nat} (hf : Facts chain L)
    (hid : id = L.nextGroup maxCoin coins.length) (hne : coins ≠ [])
    (hs : s.ledger = mintGroup s.startGroupSize chain L (id, coins))
    (hrem : Removable s.startGroupSize chain L id) :
    (∃ s₁, CLelantusState.removeBlockGroup chain index s (id, coins) = .ok s₁ ∧
      GroupsUndone s s₁ chain L id coins) ∧ id ≤ L.latestCoinId + 1 := by
  have hcases := nextGroup_cases hf maxCoin coins.length
  by_cases hold : id = L.latestCoinId
  · rw [mintGroup_of_eq coins hold] at hs
    subst hold
    exact ⟨removeBlockGroup_extend hf (by omega) hne hs, by omega⟩
  · rw [mintGroup_of_ne coins hold] at hs
    have hedged := (edged_iff_removable hf hid hold).mpr hrem
    have hsucc : id = L.latestCoinId + 1 := by
      unfold Removable at hrem
      omega
    exact ⟨removeBlockGroup_opened hf hsucc hne hedged hs, by omega⟩

/-- **A tip whose groups are recognised comes off cleanly**: the state is in step
with the chain below again. -/
theorem removeBlock_of_removable (h : Inv s (index :: chain))
    (hrem : ∀ id coins, Mints index id coins →
      Removable s.startGroupSize chain (replay s.startGroupSize chain) id) :
    ∃ s', s.removeBlock chain index = .ok s' ∧ Disconnected s s' chain := by
  cases h.chainOK with
  | cons hchain hblock =>
    have hf := Lelantus.facts hchain
    have hledger : s.ledger
        = (replay s.startGroupSize chain).connect s.startGroupSize chain index := h.ledger
    rcases hblock.mints with hno | ⟨coins, hm, hfresh⟩
    · -- only serials to take back
      rw [connect_of_noMints _ _ hno] at hledger
      have hbook : s.containers.book = _ := congrArg Ledger.book hledger
      obtain ⟨hb, hkeys, hcur⟩ := spends_undone hbook hblock.spends h.current
      refine ⟨{ s with
        containers := index.lelantusSpentSerials.foldl (fun c serial => c.removeSpend serial.1)
          s.containers }, ?_, ?_⟩
      · unfold CLelantusState.removeBlock
        rw [hno.toList]
        rfl
      · refine inv_below h (by show s.latestCoinId ≤ s.latestCoinId + 1; omega) rfl rfl ?_ hcur ?_
        · have hg : s.coinGroups = _ := congrArg coinGroups hledger
          have hl : s.latestCoinId = _ := congrArg latestCoinId hledger
          show Ledger.mk s.coinGroups s.latestCoinId (Containers.book _) = _
          rw [hb, hg, hl]
          rfl
        · intro k
          show k ∈ Containers.mintMetaInfo _ ↔ _
          rw [hkeys]
    · -- groups first, then mints, then serials
      rw [connect_of_mints _ _ hm] at hledger
      obtain ⟨⟨s₁, hgroups, hundone⟩, hle⟩ :=
        groups_undone (hf.addSpends index.lelantusSpentSerials) rfl hm.ne_nil hledger
          (hrem _ _ hm)
      obtain ⟨c, hrun, hb, hcur, hkeys⟩ :=
        removeBlock_rest hm hgroups hundone hf.tags hfresh hblock.spends h.current
      have hlat : s.latestCoinId = _ := congrArg latestCoinId hledger
      have hcount : s.containers.book.mintCount = _ := congrArg (·.book.mintCount) hledger
      rw [mintGroup_latestCoinId] at hlat
      rw [mintGroup_mintCount] at hcount
      refine ⟨_, hrun, inv_below h ?_ hundone.maxCoin hundone.start ?_ hcur ?_⟩
      · show s.latestCoinId ≤ s₁.latestCoinId + 1
        rw [hundone.latest, hlat]
        exact hle
      · show Ledger.mk s₁.coinGroups s₁.latestCoinId c.book = _
        rw [hundone.coinGroups, hundone.latest, hb]
        rfl
      · intro k
        rw [hkeys, or_iff_right_of_imp]
        rintro rfl
        apply h.key_of_minted
        rw [hcount, update_self]
        have := hm.length_pos
        omega

/-- **A tip whose groups are not recognised**: `RemoveBlock` asserts. -/
theorem removeBlock_of_not_removable (h : Inv s (index :: chain)) (hm : Mints index id coins)
    (hrem : ¬ Removable s.startGroupSize chain (replay s.startGroupSize chain) id) :
    s.removeBlock chain index = .error .assertion := by
  cases h.chainOK with
  | cons hchain hblock =>
    have hf := Lelantus.facts hchain
    have hledger : s.ledger
        = (replay s.startGroupSize chain).connect s.startGroupSize chain index := h.ledger
    have hstage : CLelantusState.removeBlockGroup chain index s (id, coins)
        = .error .assertion := by
      rcases hblock.mints with hno | ⟨coins', hm', -⟩
      · exact absurd hno.count hm.count_ne_zero
      · -- the recorded entry is the one the group rule gave
        have hentry := hm.toList.symm.trans hm'.toList
        simp only [cons.injEq, Prod.mk.injEq, and_true] at hentry
        obtain ⟨hid, rfl⟩ := hentry
        rw [connect_of_mints _ _ hm] at hledger
        have hcases := nextGroup_cases hf s.maxCoinInGroup coins.length
        have hold : id ≠ (replay s.startGroupSize chain).latestCoinId := fun h => hrem (.inl h)
        rw [mintGroup_of_ne coins (by exact hold)] at hledger
        refine removeBlockGroup_assert hchain (hf.addSpends index.lelantusSpentSerials)
          hm.ne_nil ?_ (mt (edged_iff_removable hf hid hold).mp hrem) hledger
        show (replay s.startGroupSize chain).latestCoinId < id
        omega
    unfold CLelantusState.removeBlock
    rw [hm.toList]
    simp only [foldlM_cons, hstage, error_bind]

end Zcoin.Lelantus
