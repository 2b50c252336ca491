/-
  Zcoin.Lelantus.Replay — the ledger a chain stands for.

  `replay` reads the abstract content of the Lelantus state off a chain of block
  indexes: groups, latest id and book.  The three routines of the code that move a
  block in or out of the state are proved against it, never against each other.

  `ChainOK` says what the index of an accepted chain looks like: a block's mints
  sit under ONE id, the id the group rule gives on the ledger below it, its coins
  are new and so are its serials.  `facts` collects, by one induction over such a
  chain, everything the later proofs need to know about `replay`.
-/
import Zcoin.Lelantus.Ledger

namespace Zcoin.Lelantus

open List hiding getElem?_insert
open Chain Lib Std Lib.OrderedMap Function Option Nat

variable {F G : Type}

/-! ## §1. Ledgers. -/

/-- The content of `CLelantusState`. -/
@[ext] structure Ledger (F G : Type) where
  coinGroups : ExtTreeMap Int LelantusCoinGroupInfo := ∅
  latestCoinId : Int := 0
  book : Book F G := {}

/-- What a reader of the state sees (the surge flag apart). -/
def CLelantusState.ledger (s : CLelantusState F G) : Ledger F G :=
  ⟨s.coinGroups, s.latestCoinId, s.containers.book⟩

namespace Ledger

variable [DecidableEq F] [DecidableEq G]

/-- The coins a group `id` inherits from its predecessor when it is opened on
top of `chain`, and the oldest block they come from. -/
def seed (start : Nat) (chain : CChain F G) (id : Int) : Nat × Option Nat :=
  countLastNCoinsLoop (id - 1) start chain 0 none

/-- The serials of a block enter the ledger. -/
def addSpends (L : Ledger F G) (serials : List (F × Int)) : Ledger F G :=
  { L with book := L.book.addSpends serials }

/-- The latest group grows by `coins`, minted in the block on top of `chain`. -/
def extendGroup (chain : CChain F G) (L : Ledger F G) (id : Int)
    (coins : List (G × Uint256)) : Ledger F G :=
  let group := L.coinGroups.getD id {}
  { L with
    coinGroups := L.coinGroups.insert id
      { group with lastBlock := some chain.length, nCoins := group.nCoins + coins.length }
    book := L.book.addMints ⟨id, chain.length⟩ coins }

/-- A new group is opened with `coins`, seeded from its predecessor. -/
def openGroup (start : Nat) (chain : CChain F G) (L : Ledger F G) (id : Int)
    (coins : List (G × Uint256)) : Ledger F G :=
  let inherited := seed start chain id
  { coinGroups :=
      (if id > 1 then L.coinGroups.insertIfNew (id - 1) {} else L.coinGroups).insert id
        ⟨some (inherited.2.getD chain.length), some chain.length, inherited.1 + coins.length⟩
    latestCoinId := id
    book :=
      ({ L.book with
          extended := if id > 1 then L.book.extended.insert id inherited.1
            else L.book.extended } : Book F G).addMints ⟨id, chain.length⟩ coins }

/-- One entry of `lelantusMintedPubCoins` enters the ledger. -/
def mintGroup (start : Nat) (chain : CChain F G) (L : Ledger F G)
    (entry : Int × List (G × Uint256)) : Ledger F G :=
  if entry.1 = L.latestCoinId then L.extendGroup chain entry.1 entry.2
  else L.openGroup start chain entry.1 entry.2

variable {chain : CChain F G}

section

omit [DecidableEq F]

theorem mintGroup_of_eq {start : Nat} {L : Ledger F G} {id : Int}
    (coins : List (G × Uint256)) (h : id = L.latestCoinId) :
    mintGroup start chain L (id, coins) = L.extendGroup chain id coins := if_pos h

theorem mintGroup_of_ne {start : Nat} {L : Ledger F G} {id : Int}
    (coins : List (G × Uint256)) (h : id ≠ L.latestCoinId) :
    mintGroup start chain L (id, coins) = L.openGroup start chain id coins := if_neg h

theorem mintGroup_latestCoinId (start : Nat) (chain : CChain F G) (L : Ledger F G)
    (id : Int) (coins : List (G × Uint256)) :
    (mintGroup start chain L (id, coins)).latestCoinId = id := by
  by_cases h : id = L.latestCoinId
  · rw [mintGroup_of_eq coins h, h]
    rfl
  · rw [mintGroup_of_ne coins h]
    rfl

theorem mintGroup_mintCount (start : Nat) (chain : CChain F G) (L : Ledger F G)
    (id : Int) (coins : List (G × Uint256)) :
    (mintGroup start chain L (id, coins)).book.mintCount
      = update L.book.mintCount id (L.book.mintCount id + coins.length) := by
  unfold mintGroup
  split
  · rfl
  · rfl

end

/-- **The block `index` on top of `chain` enters the ledger.** -/
def connect (start : Nat) (chain : CChain F G) (L : Ledger F G)
    (index : CBlockIndex F G) : Ledger F G :=
  index.lelantusMintedPubCoins.toList.foldl (mintGroup start chain)
    (L.addSpends index.lelantusSpentSerials)

/-- The id `AddMintsToStateAndBlockIndex` gives `nMints` new mints. -/
def nextGroup (maxCoin : Nat) (L : Ledger F G) (nMints : Nat) : Int :=
  if (L.coinGroups.getD (max 1 L.latestCoinId) {}).nCoins + nMints ≤ maxCoin then
    max 1 L.latestCoinId
  else max 1 L.latestCoinId + 1

end Ledger

/-- **The ledger a chain stands for.** -/
def replay [DecidableEq F] [DecidableEq G] (start : Nat) : CChain F G → Ledger F G
  | [] => {}
  | index :: chain => (replay start chain).connect start chain index

/-! ## §2. The index of an accepted chain. -/

/-- The block minted nothing. -/
def NoMints (index : CBlockIndex F G) : Prop := index.lelantusMintedPubCoins = ∅

/-- The block minted `coins`, all under `id`. -/
structure Mints (index : CBlockIndex F G) (id : Int) (coins : List (G × Uint256)) : Prop where
  minted : index.lelantusMintedPubCoins = (∅ : ExtTreeMap Int _).insert id coins
  ne_nil : coins ≠ []

/-- What an accepted block records on top of the ledger `L`. -/
structure BlockOK (maxCoin : Nat) (L : Ledger F G) (index : CBlockIndex F G) : Prop where
  mints : NoMints index ∨ ∃ coins, Mints index (L.nextGroup maxCoin coins.length) coins ∧
    Fresh L.book.minted coins
  spends : FreshSpends L.book.used index.lelantusSpentSerials

/-- Every block of the chain is as an accepted block records itself. -/
inductive ChainOK [DecidableEq F] [DecidableEq G] (maxCoin start : Nat) : CChain F G → Prop
  | nil : ChainOK maxCoin start []
  | cons {index : CBlockIndex F G} {chain : CChain F G}
      (hchain : ChainOK maxCoin start chain)
      (hindex : BlockOK maxCoin (replay start chain) index) : ChainOK maxCoin start (index :: chain)

/-- The part of a chain from its newest block with mints downwards. -/
def skipEmpty (chain : CChain F G) : CChain F G :=
  chain.dropWhile (fun index => index.lelantusMintedPubCoins.isEmpty)

section Shape

variable {index : CBlockIndex F G} {chain : CChain F G} {id k : Int}
  {coins : List (G × Uint256)}

theorem NoMints.count (h : NoMints index) : countCoinInBlock index k = 0 := by
  unfold countCoinInBlock
  rw [h]
  simp

variable (h : Mints index id coins)
include h

theorem Mints.count : countCoinInBlock index k = if k = id then coins.length else 0 := by
  unfold countCoinInBlock
  rw [h.minted, getElem?_insert]
  by_cases hk : k = id
  · simp [hk]
  · simp [hk]

theorem Mints.count_self : countCoinInBlock index id = coins.length := by
  rw [h.count, if_pos rfl]

theorem Mints.length_pos : 0 < coins.length :=
  length_pos_iff.mpr h.ne_nil

theorem Mints.count_ne_zero : countCoinInBlock index id ≠ 0 := by
  rw [h.count_self]
  exact ne_of_gt h.length_pos

theorem Mints.toList : index.lelantusMintedPubCoins.toList = [(id, coins)] := by
  rw [h.minted, toList_singleton]

omit h

theorem NoMints.toList (h : NoMints index) : index.lelantusMintedPubCoins.toList = [] := by
  rw [h, toList_empty]

theorem NoMints.skipEmpty (h : NoMints index) : skipEmpty (index :: chain) = skipEmpty chain := by
  unfold Lelantus.skipEmpty
  rw [dropWhile_cons, h]
  simp

theorem Mints.skipEmpty (h : Mints index id coins) :
    skipEmpty (index :: chain) = index :: chain := by
  unfold Lelantus.skipEmpty
  rw [dropWhile_cons, h.minted]
  simp

variable [DecidableEq F] [DecidableEq G]

theorem connect_of_noMints (start : Nat) (L : Ledger F G) (h : NoMints index) :
    L.connect start chain index = L.addSpends index.lelantusSpentSerials := by
  unfold Ledger.connect
  rw [h.toList, foldl_nil]

theorem connect_of_mints (start : Nat) (L : Ledger F G) (h : Mints index id coins) :
    L.connect start chain index
      = Ledger.mintGroup start chain (L.addSpends index.lelantusSpentSerials) (id, coins) := by
  unfold Ledger.connect
  rw [h.toList, foldl_cons, foldl_nil]

theorem connect_keeps {β : Type} {f : Book F G → β} (hf : ∀ (b : Book F G) extended tag coins,
      f (({ b with extended } : Book F G).addMints tag coins) = f b)
    (start : Nat) (L : Ledger F G) (index : CBlockIndex F G) :
    f (L.connect start chain index).book = f (L.book.addSpends index.lelantusSpentSerials) := by
  refine foldlRecOn (motive := fun (L' : Ledger F G) => f L'.book = _) _ _ rfl
    fun L' hL' _ _ => ?_
  rw [← hL']
  unfold Ledger.mintGroup
  split
  · exact hf _ _ _ _
  · exact hf _ _ _ _

theorem connect_spendCount (start : Nat) (L : Ledger F G) (index : CBlockIndex F G) (k : Int) :
    (L.connect start chain index).book.spendCount k =
      L.book.spendCount k + index.lelantusSpentSerials.countP (·.2 = k) :=
  congrFun (connect_keeps (f := Book.spendCount) (fun _ _ _ _ => rfl) start L index) k

end Shape

/-! ## §3. The counting walk. -/

section CountLast

variable {gid : Int} {required : Nat} {chain : CChain F G}

theorem countLastNCoinsLoop_of_none (coins : Nat) (first : Option Nat)
    (hnone : ∀ index ∈ chain, countCoinInBlock index gid = 0) :
    countLastNCoinsLoop gid required chain coins first = (coins, first) := by
  induction chain with
  | nil => rfl
  | cons index chain ih =>
    have hindex := hnone index mem_cons_self
    simp only [countLastNCoinsLoop, hindex, ne_eq, not_true_eq_false, if_false]
    split
    · exact ih (fun p hp => hnone p (mem_cons_of_mem _ hp))
    · rfl

theorem walk_skipEmpty {β : Type} (walk : CChain F G → β)
    (hpass : ∀ index chain, NoMints index → walk (index :: chain) = walk chain) :
    walk (skipEmpty chain) = walk chain := by
  induction chain with
  | nil => rfl
  | cons index chain ih =>
    unfold skipEmpty
    rw [dropWhile_cons]
    split
    · next hempty =>
      rw [hpass index chain (ExtTreeMap.isEmpty_iff.mp hempty)]
      exact ih
    · rfl

theorem countLastNCoinsLoop_skipEmpty (coins : Nat) (first : Option Nat) :
    countLastNCoinsLoop gid required (skipEmpty chain) coins first
      = countLastNCoinsLoop gid required chain coins first := by
  refine walk_skipEmpty (countLastNCoinsLoop gid required · coins first) ?_
  intro index chain hno
  simp only [countLastNCoinsLoop, hno.count, ne_eq, not_true_eq_false, if_false]
  split
  · rfl
  · next hdone =>
    cases chain with
    | nil => rfl
    | cons p suf => simp only [countLastNCoinsLoop, hdone, if_false]

theorem exists_block_cons {h : Nat} {P : CBlockIndex F G → Prop} (index : CBlockIndex F G)
    (hex : ∃ p suf, (p :: suf) <:+ chain ∧ suf.length = h ∧ P p) :
    ∃ p suf, (p :: suf) <:+ index :: chain ∧ suf.length = h ∧ P p := by
  obtain ⟨p, suf, hsuf, hlen, hp⟩ := hex
  exact ⟨p, suf, hsuf.trans (suffix_cons _ _), hlen, hp⟩

theorem countLastNCoinsLoop_first {coins : Nat} {first : Option Nat} {h : Nat}
    (hres : (countLastNCoinsLoop gid required chain coins first).2 = some h) :
    first = some h ∨ ∃ p suf, (p :: suf) <:+ chain ∧ suf.length = h ∧
      countCoinInBlock p gid ≠ 0 := by
  induction chain generalizing coins first with
  | nil => exact .inl hres
  | cons index chain ih =>
    simp only [countLastNCoinsLoop] at hres
    split at hres
    · split at hres
      · next hcount =>
        rcases ih hres with hfirst | hbelow
        · have hh : chain.length = h := by simpa using hfirst
          exact .inr ⟨index, chain, suffix_refl _, hh, hcount⟩
        · exact .inr (exists_block_cons index hbelow)
      · exact (ih hres).imp_right (exists_block_cons index)
    · exact .inl hres

end CountLast

/-! ## §4. What holds of every replayed chain. -/

/-- **A group and the blocks it stands for.**  Either the entry was only
default-constructed and no block minted under the id, or it spans from
`firstBlock` to `lastBlock`: the blocks with its coins lie in between, the last
one has some, and the first one has some of the group or of its predecessor. -/
inductive GroupOK (chain : CChain F G) (id : Int) : LelantusCoinGroupInfo → Prop
  | unused (hnone : ∀ p ∈ chain, countCoinInBlock p id = 0) : GroupOK chain id {}
  | spans {f l n : Nat} (hle : f ≤ l) (hlt : l < chain.length)
      (hblocks : ∀ p suf, (p :: suf) <:+ chain → countCoinInBlock p id ≠ 0 →
        f ≤ suf.length ∧ suf.length ≤ l)
      (hlast : ∃ p suf, (p :: suf) <:+ chain ∧ suf.length = l ∧ countCoinInBlock p id ≠ 0)
      (hfirst : ∃ p suf, (p :: suf) <:+ chain ∧ suf.length = f ∧
        (countCoinInBlock p id ≠ 0 ∨ countCoinInBlock p (id - 1) ≠ 0)) :
      GroupOK chain id ⟨some f, some l, n⟩

variable (chain : CChain F G)

/-- The newest block with mints has coins of the latest group and is its last
block; without such a block there is no group. -/
def NewestOK (L : Ledger F G) : Prop :=
  match skipEmpty chain with
  | [] => L.latestCoinId = 0
  | p :: suf => ∃ coins f n, Mints p L.latestCoinId coins ∧ f ≤ suf.length ∧
      coins.length ≤ n ∧ L.coinGroups[L.latestCoinId]? = some ⟨some f, some suf.length, n⟩

/-- Everything the proofs about the code use of a replayed chain. -/
structure Facts (L : Ledger F G) : Prop where
  latest_nonneg : 0 ≤ L.latestCoinId
  mem_groups : ∀ k, k ∈ L.coinGroups ↔ 1 ≤ k ∧ k ≤ L.latestCoinId
  mem_extended : ∀ k, k ∈ L.book.extended ↔ 2 ≤ k ∧ k ≤ L.latestCoinId
  tags : L.book.TagsOK
  mintCount : ∀ k, L.book.mintCount k = (chain.map (countCoinInBlock · k)).sum
  range : ∀ p ∈ chain, ∀ k, countCoinInBlock p k ≠ 0 → 1 ≤ k ∧ k ≤ L.latestCoinId
  newest : NewestOK chain L
  nCoins : ∀ k g, L.coinGroups[k]? = some g →
    g.nCoins = L.book.extended.getD k 0 + L.book.mintCount k
  groups : ∀ k g, L.coinGroups[k]? = some g → GroupOK chain k g

section Facts

variable {index : CBlockIndex F G} {chain : CChain F G} {L : Ledger F G} {k : Int}
  {coins : List (G × Uint256)}

theorem facts_nil : Facts ([] : CChain F G) ({} : Ledger F G) where
  latest_nonneg := Int.le_refl 0
  mem_groups := by
    intro k
    simp only [ExtTreeMap.not_mem_empty, false_iff]
    omega
  mem_extended := by
    intro k
    simp only [ExtTreeMap.not_mem_empty, false_iff]
    omega
  tags := Book.tagsOK_empty
  mintCount := fun k => rfl
  range := by simp
  newest := rfl
  nCoins := by simp
  groups := by simp

variable {g : LelantusCoinGroupInfo}

theorem GroupOK.cons (hg : GroupOK chain k g)
    (hcount : countCoinInBlock index k = 0) : GroupOK (index :: chain) k g := by
  cases hg with
  | unused hnone =>
    exact .unused (forall_mem_cons.mpr ⟨hcount, hnone⟩)
  | spans hle hlt hblocks hlast hfirst =>
    refine .spans hle (lt_succ_of_lt hlt) ?_ (exists_block_cons index hlast)
      (exists_block_cons index hfirst)
    intro p suf hsuf hp
    rcases suffix_cons_iff.mp hsuf with heq | hsuf
    · obtain ⟨rfl, rfl⟩ := cons.inj heq
      exact absurd hcount hp
    · exact hblocks p suf hsuf hp

variable (h : Facts chain L)
include h

theorem Facts.addSpends [DecidableEq F] (serials : List (F × Int)) : Facts chain (L.addSpends serials) :=
  ⟨h.latest_nonneg, h.mem_groups, h.mem_extended, ⟨h.tags.minted, h.tags.inj⟩, h.mintCount,
    h.range, h.newest, h.nCoins, h.groups⟩

theorem Facts.noMints (hno : NoMints index) : Facts (index :: chain) L where
  latest_nonneg := h.latest_nonneg
  mem_groups := h.mem_groups
  mem_extended := h.mem_extended
  tags := h.tags
  mintCount := by
    intro k
    rw [h.mintCount, map_cons, sum_cons, hno.count, zero_add]
  range := forall_mem_cons.mpr ⟨fun _ hcount => absurd hno.count hcount, h.range⟩
  newest := by
    unfold NewestOK
    rw [hno.skipEmpty]
    exact h.newest
  nCoins := h.nCoins
  groups := fun k g hg => (h.groups k g hg).cons hno.count

theorem Facts.mintCount_ne_zero_iff :
    L.book.mintCount k ≠ 0 ↔ ∃ p ∈ chain, countCoinInBlock p k ≠ 0 := by
  rw [h.mintCount, ne_eq, sum_eq_zero_iff]
  simp

variable (hk : ¬ (1 ≤ k ∧ k ≤ L.latestCoinId))
include hk

theorem Facts.count_eq_zero : ∀ p ∈ chain, countCoinInBlock p k = 0 := by
  intro p hp
  by_contra hcount
  exact hk (h.range p hp k hcount)

theorem Facts.mintCount_eq_zero : L.book.mintCount k = 0 := by
  by_contra hne
  obtain ⟨p, hp, hcount⟩ := h.mintCount_ne_zero_iff.mp hne
  exact hk (h.range p hp k hcount)

omit hk

variable {id : Int}

/-- The per-id totals after a block that minted under `id`. -/
theorem Facts.mintCount_cons [DecidableEq G] (hmints : Mints index id coins) :
    ∀ k, (L.book.addMints ⟨id, chain.length⟩ coins).mintCount k
      = ((index :: chain).map (countCoinInBlock · k)).sum := by
  intro k
  rw [map_cons, sum_cons, ← h.mintCount, hmints.count]
  simp only [Book.addMints, update_apply]
  split
  · next hk =>
    rw [hk]
    omega
  · omega

theorem Facts.range_cons {latest : Int} (hmints : Mints index id coins)
    (hle : L.latestCoinId ≤ latest) (hid : 1 ≤ id ∧ id ≤ latest) :
    ∀ p ∈ index :: chain, ∀ k, countCoinInBlock p k ≠ 0 → 1 ≤ k ∧ k ≤ latest := by
  intro p hp k hcount
  rcases mem_cons.mp hp with rfl | hp
  · rw [hmints.count] at hcount
    have hk : k = id := by
      by_contra hk
      simp [hk] at hcount
    omega
  · have := h.range p hp k hcount
    omega

omit h

theorem skipEmpty_suffix (chain : CChain F G) : skipEmpty chain <:+ chain :=
  dropWhile_suffix _

theorem Facts.latest_group (h : Facts chain L) (hlatest : 1 ≤ L.latestCoinId) :
    ∃ p suf coins f n, skipEmpty chain = p :: suf ∧ Mints p L.latestCoinId coins ∧
      f ≤ suf.length ∧ coins.length ≤ n ∧ suf.length < chain.length ∧
      L.coinGroups[L.latestCoinId]? = some ⟨some f, some suf.length, n⟩ := by
  have hnewest := h.newest
  unfold NewestOK at hnewest
  cases hskip : skipEmpty chain with
  | nil =>
    rw [hskip] at hnewest
    dsimp only at hnewest
    omega
  | cons p suf =>
    rw [hskip] at hnewest
    obtain ⟨coins, f, n, hmints, hf, hn, hgroup⟩ := hnewest
    have hlen : (p :: suf).length ≤ chain.length := by
      rw [← hskip]
      exact (skipEmpty_suffix chain).length_le
    exact ⟨p, suf, coins, f, n, rfl, hmints, hf, hn, hlen, hgroup⟩

theorem Facts.mintCount_latest (h : Facts chain L) (hlatest : 1 ≤ L.latestCoinId) :
    L.book.mintCount L.latestCoinId ≠ 0 := by
  obtain ⟨p, suf, coins, f, n, hskip, hp, -⟩ := h.latest_group hlatest
  exact h.mintCount_ne_zero_iff.mpr
    ⟨p, (hskip ▸ skipEmpty_suffix chain).subset mem_cons_self, hp.count_ne_zero⟩

theorem getD_of_getElem? {m : ExtTreeMap Int LelantusCoinGroupInfo}
    (h : m[k]? = some g) : m.getD k {} = g := by
  rw [ExtTreeMap.getD_eq_getD_getElem?, h, getD_some]

theorem seed_first (start : Nat) (chain : CChain F G) (id : Int) :
    (Ledger.seed start chain id).2.getD chain.length = chain.length ∨
      ∃ p suf, (p :: suf) <:+ chain ∧
        suf.length = (Ledger.seed start chain id).2.getD chain.length ∧
        countCoinInBlock p (id - 1) ≠ 0 := by
  cases hseed : (Ledger.seed start chain id).2 with
  | none => exact .inl rfl
  | some f =>
    rcases countLastNCoinsLoop_first hseed with h | h
    · simp at h
    · exact .inr h

theorem seed_le (start : Nat) (chain : CChain F G) (id : Int) :
    (Ledger.seed start chain id).2.getD chain.length ≤ chain.length := by
  rcases seed_first start chain id with h | ⟨p, suf, hsuf, hlen, -⟩
  · exact h.le
  · rw [← hlen]
    exact Nat.le_of_lt hsuf.length_le

variable [DecidableEq G]

/-- **The latest group grows.** -/
theorem Facts.extend (h : Facts chain L) (hlatest : 1 ≤ L.latestCoinId)
    (hmints : Mints index L.latestCoinId coins) (hfresh : Fresh L.book.minted coins) :
    Facts (index :: chain) (L.extendGroup chain L.latestCoinId coins) := by
  obtain ⟨p, suf, coins₀, f, n, hskip, -, hf, -, hsuf, hgroup⟩ := h.latest_group hlatest
  have hgetD := getD_of_getElem? hgroup
  have hgroups : (L.extendGroup chain L.latestCoinId coins).coinGroups
      = L.coinGroups.insert L.latestCoinId ⟨some f, some chain.length, n + coins.length⟩ := by
    simp only [Ledger.extendGroup, hgetD]
  refine ⟨h.latest_nonneg, ?_, h.mem_extended, Book.addMints_tagsOK h.tags hfresh,
    h.mintCount_cons hmints, h.range_cons hmints (Int.le_refl _) ⟨hlatest, Int.le_refl _⟩,
    ?_, ?_, ?_⟩
  · intro k
    rw [hgroups, mem_insert, h.mem_groups]
    show _ ↔ 1 ≤ k ∧ k ≤ L.latestCoinId
    omega
  · unfold NewestOK
    rw [hmints.skipEmpty]
    refine ⟨coins, f, n + coins.length, hmints, by omega, by omega, ?_⟩
    rw [hgroups]
    show (L.coinGroups.insert L.latestCoinId _)[L.latestCoinId]? = _
    rw [getElem?_insert, if_pos rfl]
  · intro k g hg
    rw [hgroups, getElem?_insert] at hg
    simp only [Ledger.extendGroup, Book.addMints, update_apply]
    by_cases hk : k = L.latestCoinId
    · rw [if_pos hk] at hg ⊢
      have hn : n = _ := h.nCoins _ _ hgroup
      obtain rfl := some.inj hg
      simp only
      rw [hk]
      omega
    · rw [if_neg hk] at hg ⊢
      exact h.nCoins k g hg
  · intro k g hg
    rw [hgroups, getElem?_insert] at hg
    by_cases hk : k = L.latestCoinId
    · rw [if_pos hk] at hg
      obtain rfl := some.inj hg
      subst hk
      cases h.groups _ _ hgroup with
      | spans hle hlt hblocks hlast hfirst =>
        refine .spans (by omega) (by simp) ?_
          ⟨index, chain, suffix_refl _, rfl, hmints.count_ne_zero⟩ (exists_block_cons index hfirst)
        intro p' suf' hsuf' hp'
        rcases suffix_cons_iff.mp hsuf' with heq | hsuf'
        · obtain ⟨rfl, rfl⟩ := cons.inj heq
          omega
        · have := hblocks p' suf' hsuf' hp'
          omega
    · rw [if_neg hk] at hg
      refine (h.groups k g hg).cons ?_
      rw [hmints.count, if_neg hk]

variable {start : Nat}

theorem openGroup_getElem? (h : Facts chain L)
    (hg : (L.openGroup start chain id coins).coinGroups[k]? = some g) :
    (k = id ∧ g = ⟨some ((Ledger.seed start chain id).2.getD chain.length), some chain.length,
        (Ledger.seed start chain id).1 + coins.length⟩) ∨
      (k ≠ id ∧ L.coinGroups[k]? = some g) ∨
      (k ≠ id ∧ g = {} ∧ ¬ (1 ≤ k ∧ k ≤ L.latestCoinId)) := by
  simp only [Ledger.openGroup] at hg
  rw [getElem?_insert] at hg
  by_cases hk : k = id
  · rw [if_pos hk] at hg
    exact .inl ⟨hk, (some.inj hg).symm⟩
  · rw [if_neg hk] at hg
    split at hg
    · rw [getElem?_insertIfNew] at hg
      split at hg
      · next hnew =>
        refine .inr (.inr ⟨hk, (some.inj hg).symm, ?_⟩)
        rw [← h.mem_groups, hnew.1]
        exact hnew.2
      · exact .inr (.inl ⟨hk, hg⟩)
    · exact .inr (.inl ⟨hk, hg⟩)

/-- **A new group is opened**, with the next id, or with id 2 on an empty ledger. -/
theorem Facts.openGroup (h : Facts chain L)
    (hid : id = L.latestCoinId + 1 ∨ (L.latestCoinId = 0 ∧ id = 2))
    (hmints : Mints index id coins) (hfresh : Fresh L.book.minted coins) :
    Facts (index :: chain) (L.openGroup start chain id coins) := by
  have hlatest := h.latest_nonneg
  have hnone : ∀ p ∈ chain, countCoinInBlock p id = 0 := h.count_eq_zero (by omega)
  have hpos := hmints.length_pos
  refine ⟨by show 0 ≤ id; omega, ?_, ?_, ?_, ?_, ?_, ?_, ?_, ?_⟩
  · intro k
    show k ∈ ExtTreeMap.insert _ _ _ ↔ 1 ≤ k ∧ k ≤ id
    rw [mem_insert]
    split
    · rw [ExtTreeMap.mem_insertIfNew, compare_eq_iff, h.mem_groups]
      omega
    · rw [h.mem_groups]
      omega
  · intro k
    show k ∈ (if id > 1 then _ else _) ↔ 2 ≤ k ∧ k ≤ id
    split
    · rw [mem_insert, h.mem_extended]
      omega
    · rw [h.mem_extended]
      omega
  · exact Book.addMints_tagsOK ⟨h.tags.minted, h.tags.inj⟩ hfresh
  · exact h.mintCount_cons hmints
  · exact h.range_cons hmints (by show L.latestCoinId ≤ id; omega) ⟨by omega, Int.le_refl _⟩
  · unfold NewestOK
    rw [hmints.skipEmpty]
    refine ⟨coins, _, (Ledger.seed start chain id).1 + coins.length, hmints,
      seed_le start chain id, by omega, ?_⟩
    show (ExtTreeMap.insert _ _ _)[id]? = _
    rw [getElem?_insert, if_pos rfl]
  · intro k g hg
    simp only [Ledger.openGroup, Book.addMints, update_apply]
    rcases openGroup_getElem? h hg with ⟨rfl, rfl⟩ | ⟨hk, hg⟩ | ⟨hk, rfl, hrange⟩
    · rw [if_pos rfl, h.mintCount_eq_zero (by omega)]
      split
      · simp
      · next hle =>
        -- the first group inherits nothing: there is no group 0
        have hseed : Ledger.seed start chain k = (0, none) :=
          countLastNCoinsLoop_of_none 0 none (h.count_eq_zero (by omega))
        have hext : k ∉ L.book.extended := by
          rw [h.mem_extended]
          omega
        rw [hseed, ExtTreeMap.getD_eq_fallback hext]
        dsimp only
        omega
    · rw [if_neg hk, h.nCoins k g hg]
      split
      · rw [getD_insert, if_neg hk]
      · rfl
    · have hext : k ∉ L.book.extended := by
        rw [h.mem_extended]
        omega
      rw [if_neg hk, h.mintCount_eq_zero hrange]
      split
      · rw [getD_insert, if_neg hk, ExtTreeMap.getD_eq_fallback hext]
      · rw [ExtTreeMap.getD_eq_fallback hext]
  · intro k g hg
    rcases openGroup_getElem? h hg with ⟨rfl, rfl⟩ | ⟨hk, hg⟩ | ⟨hk, rfl, hrange⟩
    · have hself := hmints.count_ne_zero
      refine .spans (seed_le start chain k) (by simp) ?_ ⟨index, chain, suffix_refl _, rfl, hself⟩ ?_
      · intro p suf hsuf hp
        rcases suffix_cons_iff.mp hsuf with heq | hsuf
        · rw [(cons.inj heq).2]
          exact ⟨seed_le start chain k, Nat.le_refl _⟩
        · exact absurd (hnone p (hsuf.subset mem_cons_self)) hp
      · rcases seed_first start chain k with hfirst | hfirst
        · exact ⟨index, chain, suffix_refl _, hfirst.symm, .inl hself⟩
        · obtain ⟨p, suf, hsuf, hlen, hp⟩ := exists_block_cons index hfirst
          exact ⟨p, suf, hsuf, hlen, .inr hp⟩
    · refine (h.groups k g hg).cons ?_
      rw [hmints.count, if_neg hk]
    · refine GroupOK.cons (.unused (h.count_eq_zero hrange)) ?_
      rw [hmints.count, if_neg hk]

end Facts

/-! ## §5. The group rule. -/

section Rule

variable {maxCoin : Nat} {chain : CChain F G} {L : Ledger F G} {n : Nat}

/-- **Where the next mints go.**  They fill up the latest group, or open the next
one; on an empty ledger they open group 1 if they fit, and group 2 if they do
not. -/
theorem nextGroup_cases (h : Facts chain L) (maxCoin n : Nat) :
    (1 ≤ L.latestCoinId ∧ L.nextGroup maxCoin n = L.latestCoinId ∧
        (L.coinGroups.getD L.latestCoinId {}).nCoins + n ≤ maxCoin) ∨
      (1 ≤ L.latestCoinId ∧ L.nextGroup maxCoin n = L.latestCoinId + 1 ∧
        maxCoin < (L.coinGroups.getD L.latestCoinId {}).nCoins + n) ∨
      (L.latestCoinId = 0 ∧ L.nextGroup maxCoin n = 1 ∧ n ≤ maxCoin) ∨
      (L.latestCoinId = 0 ∧ L.nextGroup maxCoin n = 2 ∧ maxCoin < n) := by
  have hnonneg := h.latest_nonneg
  by_cases hlatest : 1 ≤ L.latestCoinId
  · have hmax : max 1 L.latestCoinId = L.latestCoinId := max_eq_right hlatest
    unfold Ledger.nextGroup
    rw [hmax]
    split
    · next hfits => exact .inl ⟨hlatest, rfl, hfits⟩
    · next hfull => exact .inr (.inl ⟨hlatest, rfl, Nat.not_le.mp hfull⟩)
  · have hzero : L.latestCoinId = 0 := by omega
    have hmax : max 1 L.latestCoinId = 1 := by
      rw [hzero]
      rfl
    have hempty : L.coinGroups.getD 1 {} = {} := by
      refine ExtTreeMap.getD_eq_fallback ?_
      rw [h.mem_groups]
      omega
    unfold Ledger.nextGroup
    rw [hmax, hempty, zero_add]
    split
    · next hfits => exact .inr (.inr (.inl ⟨hzero, rfl, hfits⟩))
    · next hfull => exact .inr (.inr (.inr ⟨hzero, rfl, Nat.not_le.mp hfull⟩))

end Rule

variable [DecidableEq F] [DecidableEq G] {chain : CChain F G}

/-- **One block keeps the facts.** -/
theorem Facts.connect {maxCoin start : Nat} {index : CBlockIndex F G} {L : Ledger F G}
    (h : Facts chain L) (hindex : BlockOK maxCoin L index) :
    Facts (index :: chain) (L.connect start chain index) := by
  have hL := h.addSpends index.lelantusSpentSerials
  rcases hindex.mints with hno | ⟨coins, hmints, hfresh⟩
  · rw [connect_of_noMints start L hno]
    exact hL.noMints hno
  · rw [connect_of_mints start L hmints]
    by_cases heq : L.nextGroup maxCoin coins.length = L.latestCoinId
    · rw [Ledger.mintGroup_of_eq coins (by exact heq)]
      rw [heq] at hmints ⊢
      have hlatest : 1 ≤ L.latestCoinId := by
        rcases nextGroup_cases h maxCoin coins.length with hc | hc | hc | hc <;> omega
      exact hL.extend hlatest hmints hfresh
    · rw [Ledger.mintGroup_of_ne coins (by exact heq)]
      refine hL.openGroup ?_ hmints hfresh
      show _ = L.latestCoinId + 1 ∨ (L.latestCoinId = 0 ∧ _)
      rcases nextGroup_cases h maxCoin coins.length with hc | hc | hc | hc <;> omega

/-- **The facts hold of every accepted chain.** -/
theorem facts {maxCoin start : Nat}
    (h : ChainOK maxCoin start chain) : Facts chain (replay start chain) := by
  induction h with
  | nil => exact facts_nil
  | cons _ hindex ih => exact ih.connect hindex

/-! ## §6. Where a coin was minted. -/

variable {maxCoin start : Nat} {chain suf : CChain F G}

theorem ChainOK.suffix (h : ChainOK maxCoin start chain) (hsuf : suf <:+ chain) :
    ChainOK maxCoin start suf := by
  induction h with
  | nil =>
    rw [suffix_nil.mp hsuf]
    exact .nil
  | cons hchain hindex ih =>
    rcases suffix_cons_iff.mp hsuf with rfl | hsuf
    · exact .cons hchain hindex
    · exact ih hsuf

/-- **Group ids never fall along a chain.** -/
theorem ChainOK.group_le {p q : CBlockIndex F G} {r : CChain F G} {j k : Int}
    (h : ChainOK maxCoin start chain) (hp : (p :: suf) <:+ chain) (hq : (q :: r) <:+ suf)
    (hk : countCoinInBlock p k ≠ 0) (hj : countCoinInBlock q j ≠ 0) : j ≤ k := by
  cases h.suffix hp with
  | cons hsuf hindex =>
    have hf := facts hsuf
    have hrange := hf.range q (hq.subset mem_cons_self) j hj
    rcases hindex.mints with hno | ⟨coins, hmints, -⟩
    · exact absurd hno.count hk
    · have hid : k = (replay start suf).nextGroup maxCoin coins.length := by
        by_contra hne
        rw [hmints.count, if_neg hne] at hk
        exact hk rfl
      rcases nextGroup_cases hf maxCoin coins.length with hc | hc | hc | hc <;> omega

omit [DecidableEq F] in
theorem mintGroup_minted (start : Nat) (chain : CChain F G) (L : Ledger F G) (id : Int)
    (coins : List (G × Uint256)) (g : G) :
    (Ledger.mintGroup start chain L (id, coins)).book.minted g
      = if g ∈ coins.map Prod.fst then some ⟨id, chain.length⟩ else L.book.minted g := by
  unfold Ledger.mintGroup
  split
  · rfl
  · rfl

/-- **A coin of the ledger lies in a block of the chain**, at the height and under
the id the ledger has for it. -/
theorem ChainOK.minted {g : G} {info : CMintedCoinInfo} (h : ChainOK maxCoin start chain)
    (hg : (replay start chain).book.minted g = some info) :
    ∃ p suf, (p :: suf) <:+ chain ∧ suf.length = info.nHeight ∧
      countCoinInBlock p info.coinGroupId ≠ 0 := by
  induction h with
  | nil => cases hg
  | @cons index chain hchain hindex ih =>
    rcases hindex.mints with hno | ⟨coins, hmints, -⟩
    · simp only [replay, connect_of_noMints start _ hno] at hg
      exact exists_block_cons index (ih hg)
    · simp only [replay, connect_of_mints start _ hmints, mintGroup_minted] at hg
      split at hg
      · obtain rfl := some.inj hg
        exact ⟨index, chain, suffix_refl _, rfl, hmints.count_ne_zero⟩
      · exact exists_block_cons index (ih hg)

end Zcoin.Lelantus
