/-
  Zcoin.Lelantus.AnonymitySet — the coins a spend hides among, seen from both
  sides (`GetCoinSetForSpend` and the reconstruction loop of
  `CheckLelantusJoinSplitTransaction`, `lelantus.cpp`).

  The spender walks from the last block of a group to its first one and takes from
  each block the coins of the group or, where there are none, those of its
  PREDECESSOR.  The validator starts at the block the spend names and takes the
  coins of the group only.

  **MAIN RESULTS**: `coinSets_agree_iff`, `coinSet_exact_iff`.
-/
import Zcoin.Lelantus.Reorg
import Zcoin.Sigma.State

namespace Zcoin.Lelantus

open List hiding set
open Chain LibLelantus Lib Std Lib.Except

variable {F G : Type} [DecidableEq F] [DecidableEq G]

/-! ## §1. The validator. -/

/-- A `uint32_t` id passed where an `int` is expected. -/
def groupIdInt (id : UInt32) : Int := id.toBitVec.toInt

/-- `idAndHash.first % (CENT / 1000)`: the group id of a packed Sigma id. -/
def packedGroupId (id : UInt32) : Int := (id.toNat : Int) % (CENT / 1000)

/-- `(idAndHash.first - coinGroupId) * 1000`: the denomination of a packed Sigma id. -/
def packedDenomination (id : UInt32) : Int := ((id.toNat : Int) - packedGroupId id) * 1000

/-- `find index for block with hash … or set index to the coinGroup.firstBlock if
not found`; the list starts at the group's last block. -/
def findBlock (hash : Uint256) (firstBlock : Option Nat) :
    CChain F G → Except Abort (CChain F G)
  | [] => if firstBlock.isNone then .ok [] else .error .nullPointer
  | index :: rest =>
    if some rest.length = firstBlock ∨ index.hash = hash then .ok (index :: rest)
    else findBlock hash firstBlock rest

/-- The `while (true)` that appends the coins of each block down to the group's
first one. -/
def collectCoins (coinsAt : CBlockIndex F G → List G) (firstBlock : Option Nat) :
    CChain F G → List G → Except Abort (List G)
  | [], _ => .error .nullPointer
  | index :: rest, anonymitySet =>
    if some rest.length = firstBlock then .ok (anonymitySet ++ coinsAt index)
    else collectCoins coinsAt firstBlock rest (anonymitySet ++ coinsAt index)

variable (params : ConsensusParams G)

/-- Blacklisted coins are skipped once the active chain has reached the fork. -/
def skipsCoin (chain : CChain F G) (coin : G) : Bool :=
  decide (height chain ≥ params.nLelantusFixesStartBlock) && params.lelantusBlacklist coin

/-- The Sigma coins of a block as Lelantus coins of value `intDenom`. -/
def sigmaCoinsInBlock [AddCommGroup G] (params : ConsensusParams G) (env : Externals F G)
    (denomination : Sigma.CoinDenomination) (coinGroupId intDenom : Int)
    (index : CBlockIndex F G) : List G :=
  match (index.sigmaMintedPubCoins denomination)[coinGroupId]? with
  | some coins =>
    (coins.filter fun coin => !params.sigmaBlacklist coin).map (· + intDenom • env.h1)
  | none => []

/-- The denomination under which the validator reads a packed id, if it does. -/
def readsAsSigma (isSigmaToLelantus : Bool) (id : UInt32) : Option Sigma.CoinDenomination :=
  if isSigmaToLelantus then Sigma.integerToDenomination (packedDenomination id) else none

/-- What `CheckLelantusJoinSplitTransaction` logs for a group it does not know. -/
def noCoinsMinted (routine : String) : Stop :=
  .rejected (some
    { level := 100, code := NO_MINT_ZEROCOIN
      reason := routine ++ ": Error: no coins were minted with such parameters" })

variable (s : CLelantusState F G)

/-- The set hash from the referenced block, used in the challenge past the fork. -/
def referencedSetHash (blocks : CChain F G) (id : Int) (nHeight : Nat) :
    Except Abort (List (List UInt8)) :=
  if nHeight ≥ params.nLelantusFixesStartBlock then do
    let setHash ← getAnonymitySetHash s blocks id false
    return if setHash.isEmpty then [] else [setHash]
  else return []

/-- One iteration of the reconstruction loop: the coins of the group `id` from the
block with hash `blockHash` downwards are appended to `anonymitySet`; next to it
the set hash, if one was pushed. -/
def appendAnonymitySet [AddCommGroup G] (params : ConsensusParams G) (env : Externals F G)
    (sigmaState : Sigma.CSigmaState F G) (s : CLelantusState F G)
    (chain : CChain F G) (isSigmaToLelantus : Bool) (nHeight : Nat) (id : UInt32)
    (blockHash : Uint256) (anonymitySet : List G) : Except Stop (List G × List (List UInt8)) :=
  match readsAsSigma isSigmaToLelantus id with
  | some denomination =>
    match sigmaState.getCoinGroupInfo denomination (packedGroupId id) with
    | none => .error (noCoinsMinted "CheckSigmaSpendTransaction")
    | some coinGroup => Except.mapError .aborted do
      let blocks ← findBlock blockHash coinGroup.firstBlock (behind chain coinGroup.lastBlock)
      let coins ← collectCoins
        (sigmaCoinsInBlock params env denomination (packedGroupId id) (packedDenomination id))
        coinGroup.firstBlock blocks anonymitySet
      return (coins, [])
  | none =>
    match s.getCoinGroupInfo (groupIdInt id) with
    | none => .error (noCoinsMinted "CheckLelantusJoinSplitTransaction")
    | some coinGroup => Except.mapError .aborted do
      let blocks ← findBlock blockHash coinGroup.firstBlock (behind chain coinGroup.lastBlock)
      let setHash ← referencedSetHash params s blocks (groupIdInt id) nHeight
      let coins ← collectCoins (fun index => coinsInBlock index (groupIdInt id)
        (skipsCoin params chain)) coinGroup.firstBlock blocks anonymitySet
      return (coins, setHash)

/-- `anonymity_sets` and `anonymity_set_hashes`. -/
structure AnonymitySets (G : Type) where
  sets : ExtTreeMap UInt32 (List G) := ∅
  hashes : List (List UInt8) := []

/-- One pass through the loop over `joinsplit->getIdAndBlockHashes()`.  The set of an
id is taken by reference and appended to, so an id that comes twice accumulates. -/
def addReferencedSet [AddCommGroup G] (params : ConsensusParams G) (env : Externals F G)
    (sigmaState : Sigma.CSigmaState F G) (s : CLelantusState F G)
    (chain : CChain F G) (isSigmaToLelantus : Bool) (nHeight : Nat)
    (acc : AnonymitySets G) (idAndHash : UInt32 × Uint256) : Except Stop (AnonymitySets G) := do
  let (coins, setHash) ← appendAnonymitySet params env sigmaState s chain isSigmaToLelantus
    nHeight idAndHash.1 idAndHash.2 (acc.sets.getD idAndHash.1 [])
  return ⟨acc.sets.insert idAndHash.1 coins, acc.hashes ++ setHash⟩

/-- The loop over `joinsplit->getIdAndBlockHashes()`. -/
def rebuildAnonymitySets [AddCommGroup G] (params : ConsensusParams G) (env : Externals F G)
    (sigmaState : Sigma.CSigmaState F G) (s : CLelantusState F G)
    (chain : CChain F G) (isSigmaToLelantus : Bool) (nHeight : Nat)
    (idAndHashes : List (UInt32 × Uint256)) : Except Stop (AnonymitySets G) :=
  idAndHashes.foldlM
    (addReferencedSet params env sigmaState s chain isSigmaToLelantus nHeight) {}

/-! ## §2. The spender. -/

/-- What `GetCoinSetForSpend` returns and writes to its out-parameters. -/
structure CoinSet (G : Type) where
  numberOfCoins : Nat := 0
  blockHash : Uint256 := 0
  coins : List G := []
  setHash : List UInt8 := []

/-- The body of the loop of `GetCoinSetForSpend` for the block `block`, given the
group `id` it contributes. -/
def takeBlock (skip : G → Bool) (id : Int) (block : CBlockIndex F G)
    (rest : CChain F G) (out : CoinSet G) : Except Abort (CoinSet G) :=
  if id = 0 then .ok out
  else if out.numberOfCoins = 0 then do
    -- latest block satisfying given conditions: remember block hash and set hash
    let setHash ← getAnonymitySetHash s (block :: rest) id false
    return ⟨out.numberOfCoins + countCoinInBlock block id, block.hash,
      out.coins ++ coinsInBlock block id skip, setHash⟩
  else .ok { out with
    numberOfCoins := out.numberOfCoins + countCoinInBlock block id
    coins := out.coins ++ coinsInBlock block id skip }

/-- The loop of `GetCoinSetForSpend`; the list starts at the group's last block. -/
def coinSetLoop (s : CLelantusState F G) (coinGroupID maxHeight : Int) (firstBlock : Option Nat)
    (skip : G → Bool) : CChain F G → CoinSet G → Except Abort (CoinSet G)
  | [], _ => .error .nullPointer
  | block :: rest, out =>
    if (rest.length : Int) > maxHeight then
      coinSetLoop s coinGroupID maxHeight firstBlock skip rest out
    else do
      let out ← takeBlock s skip (spendGroupInBlock coinGroupID block) block rest out
      if some rest.length = firstBlock then .ok out
      else coinSetLoop s coinGroupID maxHeight firstBlock skip rest out

/-- `CLelantusState::GetCoinSetForSpend` while `chain` is the active chain. -/
def getCoinSetForSpend (chain : CChain F G) (maxHeight coinGroupID : Int) :
    Except Abort (CoinSet G) :=
  match s.coinGroups[coinGroupID]? with
  | none => .ok {}
  | some coinGroup =>
    coinSetLoop s coinGroupID maxHeight coinGroup.firstBlock (skipsCoin params chain)
      (behind chain coinGroup.lastBlock) {}

/-! ## §3. The validator's walks. -/

section Walks

variable {blocks : CChain F G} {f : Nat} {p : CBlockIndex F G}
  {suf : CChain F G}

omit [DecidableEq F] [DecidableEq G] in
/-- **The referenced block is found** when hashes do not repeat. -/
theorem findBlock_of_suffix (hnodup : (blocks.map (·.hash)).Nodup) (hsuf : (p :: suf) <:+ blocks)
    (hf : f ≤ suf.length) : findBlock p.hash (some f) blocks = .ok (p :: suf) := by
  induction blocks with
  | nil => exact absurd (suffix_nil.mp hsuf) (by simp)
  | cons index rest ih =>
    unfold findBlock
    rcases suffix_cons_iff.mp hsuf with heq | hsuf'
    · obtain ⟨rfl, rfl⟩ := cons.inj heq
      rw [if_pos (.inr rfl)]
    · -- the block lies further down, so this one is neither it nor the first one
      have hlen : (p :: suf).length ≤ rest.length := hsuf'.length_le
      rw [length_cons] at hlen
      obtain ⟨hnot, hnodup'⟩ := nodup_cons.mp hnodup
      have hhash : index.hash ≠ p.hash := by
        intro h
        apply hnot
        exact mem_map.mpr ⟨p, hsuf'.subset mem_cons_self, h.symm⟩
      have hfirst : rest.length ≠ f := by omega
      rw [if_neg (by simp [hhash, hfirst])]
      exact ih hnodup' hsuf'

/-- The blocks from the head of a list down to height `f`. -/
def downTo {α : Type} (f : Nat) (blocks : List α) : List α := blocks.take (blocks.length - f)

theorem downTo_cons {α : Type} {b : α} {rest : List α} (h : f ≤ rest.length) :
    downTo f (b :: rest) = b :: downTo f rest := by
  unfold downTo
  rw [length_cons, Nat.succ_sub h, take_succ_cons]

theorem downTo_of_le {α : Type} {l : List α} (h : l.length ≤ f) : downTo f l = [] := by
  unfold downTo
  rw [Nat.sub_eq_zero_of_le h, take_zero]

/-- A block lies between the head and height `f` exactly when it is the head of a
suffix that is at least that high. -/
theorem mem_downTo {α : Type} {b : α} {l : List α} :
    b ∈ downTo f l ↔ ∃ rest, (b :: rest) <:+ l ∧ f ≤ rest.length := by
  induction l with
  | nil => simp [downTo]
  | cons c l ih =>
    by_cases hf : f ≤ l.length
    · rw [downTo_cons hf, mem_cons, ih]
      simp only [suffix_cons_iff, cons.injEq, or_and_right, exists_or]
      simp [hf]
    · rw [downTo_of_le (Nat.lt_of_not_le hf)]
      refine iff_of_false not_mem_nil ?_
      rintro ⟨rest, hsuf, hle⟩
      have hlen := hsuf.length_le
      simp only [length_cons] at hlen
      omega

omit [DecidableEq F] [DecidableEq G] in
/-- **The collecting walk** appends the coins of every block down to the first. -/
theorem collectCoins_eq (coinsAt : CBlockIndex F G → List G) (blocks : CChain F G)
    (coins : List G) (hf : f < blocks.length) :
    collectCoins coinsAt (some f) blocks coins
      = .ok (coins ++ (downTo f blocks).flatMap coinsAt) := by
  induction blocks generalizing coins with
  | nil => simp at hf
  | cons index rest ih =>
    rw [length_cons] at hf
    unfold collectCoins
    rw [downTo_cons (by omega), flatMap_cons, ← append_assoc]
    by_cases hlast : rest.length = f
    · rw [if_pos (by rw [hlast]), downTo_of_le hlast.le, flatMap_nil, append_nil]
    · rw [if_neg (by simp [hlast]), ih _ (by omega)]

end Walks

/-! ## §4. The spender's walk. -/

/-- The coins `GetCoinSetForSpend` takes from a block. -/
def spendCoinsInBlock (coinGroupID : Int) (skip : G → Bool) (block : CBlockIndex F G) : List G :=
  if spendGroupInBlock coinGroupID block = 0 then []
  else coinsInBlock block (spendGroupInBlock coinGroupID block) skip

section Blocks

variable {block : CBlockIndex F G} {id : Int} {skip : G → Bool}

section

omit [DecidableEq F] [DecidableEq G]

theorem coinsInBlock_of_count (h : countCoinInBlock block id = 0) :
    coinsInBlock block id skip = [] := by
  unfold countCoinInBlock at h
  unfold coinsInBlock
  cases hcoins : block.lelantusMintedPubCoins[id]? with
  | none => rfl
  | some coins =>
    rw [hcoins] at h
    dsimp only at h ⊢
    rw [length_eq_zero_iff.mp h]
    rfl

theorem length_coinsInBlock (block : CBlockIndex F G) (id : Int) :
    (coinsInBlock block id fun _ => false).length = countCoinInBlock block id := by
  unfold coinsInBlock countCoinInBlock
  cases block.lelantusMintedPubCoins[id]? with
  | none => rfl
  | some coins => simp

theorem spendCoinsInBlock_filter (id : Int) (skip : G → Bool) (block : CBlockIndex F G) :
    spendCoinsInBlock id skip block =
      (spendCoinsInBlock id (fun _ => false) block).filter (fun coin => !skip coin) := by
  unfold spendCoinsInBlock coinsInBlock
  split
  · rfl
  · split <;> simp

theorem count_spendGroup (h : spendGroupInBlock id block ≠ 0) :
    countCoinInBlock block (spendGroupInBlock id block) ≠ 0 := by
  unfold spendGroupInBlock at h ⊢
  split
  · next hself => exact hself
  · next hself =>
    rw [if_neg hself] at h
    split
    · next hprev => exact hprev
    · omega

end

end Blocks

section Spender

variable {s : CLelantusState F G} {chain blocks : CChain F G} {id maxHeight : Int}
  {skip : G → Bool} {f : Nat}

omit [DecidableEq F] [DecidableEq G] in
theorem anonymitySetHashLoop_ok (hf : f < blocks.length) :
    ∃ hash, anonymitySetHashLoop id (some f) blocks = .ok hash := by
  induction blocks with
  | nil => simp at hf
  | cons index rest ih =>
    rw [length_cons] at hf
    unfold anonymitySetHashLoop
    split
    · exact ⟨_, rfl⟩
    · next hfirst =>
      split
      · exact ⟨_, rfl⟩
      · have hne : rest.length ≠ f := by
          intro h
          exact hfirst (by rw [h])
        exact ih (by omega)

/-- From a block that is not below the group's first one the set hash is found
without leaving the chain. -/
theorem getAnonymitySetHash_ok (hinv : Inv s chain) (p : CBlockIndex F G)
    (suf : CChain F G) (id : Int)
    (hfirst : ∀ g f, s.coinGroups[id]? = some g → g.firstBlock = some f → f ≤ suf.length)
    (generation : Bool) : ∃ hash, getAnonymitySetHash s (p :: suf) id generation = .ok hash := by
  unfold getAnonymitySetHash CLelantusState.getCoinGroupInfo
  cases hg : s.coinGroups[id]? with
  | none => exact ⟨_, rfl⟩
  | some g =>
    dsimp only
    split
    · exact ⟨_, rfl⟩
    · next hlive =>
      cases hinv.facts.groups id g hg with
      | unused hnone => exact absurd (.inr rfl) hlive
      | @spans f l n hle hlt hblocks hlast hfirst' =>
        have hf := hfirst _ f hg rfl
        exact anonymitySetHashLoop_ok (by rw [length_cons]; omega)

section

omit [DecidableEq F] [DecidableEq G]

theorem coinSetLoop_counting (s : CLelantusState F G) (id : Int) (skip : G → Bool)
    (hf : f ≤ blocks.length) (hmax : (blocks.length : Int) ≤ maxHeight)
    (out : CoinSet G) (hn : out.numberOfCoins ≠ 0) :
    (if some blocks.length = some f then .ok out
      else coinSetLoop s id maxHeight (some f) skip blocks out)
      = .ok ⟨out.numberOfCoins + ((downTo f blocks).flatMap
            (spendCoinsInBlock id fun _ => false)).length, out.blockHash,
          out.coins ++ (downTo f blocks).flatMap (spendCoinsInBlock id skip), out.setHash⟩ := by
  induction blocks generalizing out with
  | nil => simp [downTo, Nat.le_zero.mp hf]
  | cons block rest ih =>
    by_cases hlast : (block :: rest).length = f
    · rw [if_pos (by rw [hlast]), downTo_of_le hlast.le]
      simp
    rw [length_cons] at hf hmax hlast
    -- what this block adds
    have htake : takeBlock s skip (spendGroupInBlock id block) block rest out
        = .ok ⟨out.numberOfCoins + (spendCoinsInBlock id (fun _ => false) block).length,
          out.blockHash, out.coins ++ spendCoinsInBlock id skip block, out.setHash⟩ := by
      unfold takeBlock
      by_cases hzero : spendGroupInBlock id block = 0
      · rw [if_pos hzero]
        simp [spendCoinsInBlock, hzero]
      · rw [if_neg hzero, if_neg hn]
        simp [spendCoinsInBlock, hzero, length_coinsInBlock]
    rw [if_neg (by simpa using hlast), coinSetLoop, if_neg (by omega), htake, ok_bind,
      ih (by omega) (by omega) _ (by dsimp only; omega), downTo_cons (by omega), flatMap_cons,
      flatMap_cons, length_append, append_assoc, Nat.add_assoc]

/-- **The search**: blocks above the height limit and blocks that contribute nothing are passed
over, down to the newest block that contributes. -/
theorem coinSetLoop_search (s : CLelantusState F G) (skip : G → Bool) (hmax : (f : Int) ≤ maxHeight)
    (hfirst : ∃ q r, (q :: r) <:+ blocks ∧ r.length = f ∧ spendGroupInBlock id q ≠ 0) :
    ∃ p suf, (p :: suf) <:+ blocks ∧ f ≤ suf.length ∧ (suf.length : Int) ≤ maxHeight ∧
      spendGroupInBlock id p ≠ 0 ∧
      (∀ q r, (q :: r) <:+ blocks → suf.length < r.length → (r.length : Int) ≤ maxHeight →
        spendGroupInBlock id q = 0) ∧
      coinSetLoop s id maxHeight (some f) skip blocks {}
        = coinSetLoop s id maxHeight (some f) skip (p :: suf) {} := by
  obtain ⟨q, r, hq, hr, hqne⟩ := hfirst
  induction blocks with
  | nil => simp at hq
  | cons block rest ih =>
    by_cases hhere : (rest.length : Int) ≤ maxHeight ∧ spendGroupInBlock id block ≠ 0
    · have hlen := hq.length_le
      simp only [length_cons] at hlen
      refine ⟨block, rest, suffix_refl _, by omega, hhere.1, hhere.2, ?_, rfl⟩
      intro q' r' hq' hlt
      have := hq'.length_le
      simp only [length_cons] at this
      omega
    · -- not the first block of the group, which contributes
      have hq' : (q :: r) <:+ rest := by
        rcases suffix_cons_iff.mp hq with heq | h
        · obtain ⟨rfl, rfl⟩ := cons.inj heq
          exact absurd ⟨by omega, hqne⟩ hhere
        · exact h
      have hlen := hq'.length_le
      rw [length_cons] at hlen
      have hne : some rest.length ≠ some f := by
        simp only [ne_eq, Option.some.injEq]
        omega
      obtain ⟨p, suf, hp, hle, hpmax, hpne, habove, hloop⟩ := ih hq'
      refine ⟨p, suf, hp.trans (suffix_cons _ _), hle, hpmax, hpne, ?_, ?_⟩
      · intro q'' r'' hq'' hlt hmax''
        rcases suffix_cons_iff.mp hq'' with heq | h
        · obtain ⟨rfl, rfl⟩ := cons.inj heq
          by_contra hne
          exact hhere ⟨hmax'', hne⟩
        · exact habove q'' r'' h hlt hmax''
      · rw [← hloop]
        conv_lhs => unfold coinSetLoop
        split
        · rfl
        · have hzero : spendGroupInBlock id block = 0 := by
            by_contra hne
            exact hhere ⟨by omega, hne⟩
          unfold takeBlock
          rw [if_pos hzero, ok_bind]

end

/-- **The spender's set**: the newest contributing block at or below the height
limit is the one referenced, and from it downwards every block contributes. -/
theorem getCoinSetForSpend_spec (params : ConsensusParams G) (hinv : Inv s chain) {l n : Nat}
    (hgroup : s.coinGroups[id]? = some ⟨some f, some l, n⟩) (hmax : (f : Int) ≤ maxHeight) :
    ∃ p suf out, (p :: suf) <:+ chain ∧ f ≤ suf.length ∧ suf.length ≤ l ∧
      (suf.length : Int) ≤ maxHeight ∧ spendGroupInBlock id p ≠ 0 ∧
      (∀ q r, (q :: r) <:+ chain → suf.length < r.length → r.length ≤ l →
        (r.length : Int) ≤ maxHeight → spendGroupInBlock id q = 0) ∧
      getCoinSetForSpend params s chain maxHeight id = .ok out ∧ out.blockHash = p.hash ∧
      (out.coins
          = (downTo f (p :: suf)).flatMap (spendCoinsInBlock id (skipsCoin params chain)) ∧
        out.numberOfCoins
          = ((downTo f (p :: suf)).flatMap (spendCoinsInBlock id fun _ => false)).length) ∧
      getAnonymitySetHash s (p :: suf) (spendGroupInBlock id p) false = .ok out.setHash := by
  have hf := hinv.facts
  have hid : 1 ≤ id := ((hf.mem_groups id).mp (OrderedMap.mem_iff_exists.mpr ⟨_, hgroup⟩)).1
  cases hf.groups id _ hgroup with
  | spans hle hlt hblocks hlast hfirst =>
    -- the group's first block is among the blocks walked, and it contributes
    have hfirst' : ∃ q r, (q :: r) <:+ upTo chain l ∧ r.length = f ∧
        spendGroupInBlock id q ≠ 0 := by
      obtain ⟨q, r, hq, hr, hcoins⟩ := hfirst
      refine ⟨q, r, suffix_upTo hq (by omega) hlt, hr, ?_⟩
      unfold spendGroupInBlock
      split
      · omega
      · next hself =>
        have hprev : countCoinInBlock q (id - 1) ≠ 0 := hcoins.resolve_left hself
        rw [if_pos hprev]
        have := hf.range q (hq.subset mem_cons_self) (id - 1) hprev
        omega
    obtain ⟨p, suf, hp, hple, hpmax, hpne, habove, hloop⟩ :=
      coinSetLoop_search s (skipsCoin params chain) hmax hfirst'
    have hpchain := hp.trans (upTo_suffix chain l)
    have hplen := hp.length_le
    rw [length_cons, length_upTo hlt] at hplen
    obtain ⟨hash, hhash⟩ : ∃ hash,
        getAnonymitySetHash s (p :: suf) (spendGroupInBlock id p) false = .ok hash := by
      refine getAnonymitySetHash_ok hinv p suf _ ?_ false
      intro g f' hg hf'
      cases hf.groups _ g hg with
      | unused hnone => cases hf'
      | spans hle' hlt' hblocks' hlast' hfirst'' =>
        cases hf'
        exact (hblocks' p suf hpchain (count_spendGroup hpne)).1
    have htake : takeBlock s (skipsCoin params chain) (spendGroupInBlock id p) p suf {}
        = .ok ⟨(spendCoinsInBlock id (fun _ => false) p).length, p.hash,
            spendCoinsInBlock id (skipsCoin params chain) p, hash⟩ := by
      unfold takeBlock
      rw [if_neg hpne, if_pos rfl, hhash, ok_bind]
      simp [spendCoinsInBlock, hpne, length_coinsInBlock, pure_eq_ok]
    refine ⟨p, suf, ⟨_, p.hash, _, hash⟩, hpchain, hple, by omega, hpmax, hpne, ?_, ?_, rfl,
      ⟨rfl, rfl⟩, hhash⟩
    · intro q r hq hgt hrl hrmax
      exact habove q r (suffix_upTo hq hrl hlt) hgt hrmax
    · unfold getCoinSetForSpend
      rw [hgroup]
      show coinSetLoop s id maxHeight (some f) (skipsCoin params chain) (upTo chain l) {} = _
      rw [hloop]
      unfold coinSetLoop
      rw [if_neg (by omega), htake, ok_bind, coinSetLoop_counting s id _ hple hpmax,
        downTo_cons hple, flatMap_cons, length_append]
      · rfl
      · dsimp only [spendCoinsInBlock]
        rw [if_neg hpne, length_coinsInBlock]
        exact count_spendGroup hpne

end Spender

/-! ## §5. The two sets compared. -/

/-- Concatenations of longer and of shorter pieces are equal only piece by piece. -/
theorem flatMap_append_eq_iff {α β : Type} {u v : α → List β} (l : List α) :
    (l.flatMap fun b => u b ++ v b) = l.flatMap u ↔ ∀ b ∈ l, v b = [] := by
  constructor
  · intro h
    have hlen := congrArg length h
    simp only [length_flatMap, length_append, sum_map_add, Nat.add_eq_left] at hlen
    simpa [sum_eq_zero_iff] using hlen
  · intro h
    refine flatMap_congr fun b hb => ?_
    rw [h b hb, append_nil]

section Compare

variable {params : ConsensusParams G} {env : Externals F G} {maxCoin start : Nat}
  {s : CLelantusState F G} {chain : CChain F G}

theorem spendCoinsInBlock_eq (hinv : Inv s chain) {q : CBlockIndex F G} (hq : q ∈ chain) {id : Int}
    (hid : 1 ≤ id) (skip : G → Bool) :
    spendCoinsInBlock id skip q = coinsInBlock q id skip ++ coinsInBlock q (id - 1) skip := by
  unfold spendCoinsInBlock spendGroupInBlock
  by_cases hself : countCoinInBlock q id ≠ 0
  · -- a block of the group itself has no coins of any other group
    have hne : id ≠ 0 := by omega
    have hprev : countCoinInBlock q (id - 1) = 0 := by
      rcases hinv.chainOK.shape q hq with hno | ⟨gid, coins, hm⟩
      · exact hno.count
      · rw [hm.count] at hself ⊢
        split at hself
        · next hgid => rw [if_neg (by omega)]
        · exact absurd rfl hself
    simp [if_pos hself, hne, coinsInBlock_of_count hprev]
  · simp only [ne_eq, not_not] at hself
    by_cases hprev : countCoinInBlock q (id - 1) = 0
    · simp [hself, hprev, coinsInBlock_of_count]
    · have hrange := hinv.facts.range q hq (id - 1) hprev
      have hne : id - 1 ≠ 0 := by omega
      simp [hself, hprev, hne, coinsInBlock_of_count hself]

/-- **The validator's set** for a referenced block between the first and the last
block of the group, and the set hash it pushes. -/
theorem appendAnonymitySet_spec [AddCommGroup G] (params : ConsensusParams G)
    (env : Externals F G) (hinv : Inv s chain) (hnodup : (chain.map (·.hash)).Nodup)
    (sigmaState : Sigma.CSigmaState F G) {isSigmaToLelantus : Bool} (nHeight : Nat) {id : UInt32}
    (hread : readsAsSigma isSigmaToLelantus id = none) {f l n : Nat}
    (hgroup : s.coinGroups[groupIdInt id]? = some ⟨some f, some l, n⟩) {p : CBlockIndex F G}
    {suf : CChain F G} (hp : (p :: suf) <:+ chain) (hf : f ≤ suf.length)
    (hl : suf.length ≤ l) (coins : List G) :
    ∃ hash, getAnonymitySetHash s (p :: suf) (groupIdInt id) false = .ok hash ∧
      appendAnonymitySet params env sigmaState s chain isSigmaToLelantus nHeight id p.hash coins
        = .ok (coins ++ (downTo f (p :: suf)).flatMap
            (fun index => coinsInBlock index (groupIdInt id) (skipsCoin params chain)),
          if nHeight ≥ params.nLelantusFixesStartBlock ∧ hash ≠ [] then [hash] else []) := by
  have hpup : (p :: suf) <:+ upTo chain l := by
    cases hinv.facts.groups _ _ hgroup with
    | spans hle hlt hblocks hlast hfirst => exact suffix_upTo hp hl hlt
  have hfind : findBlock p.hash (some f) (upTo chain l) = .ok (p :: suf) := by
    refine findBlock_of_suffix ?_ hpup hf
    exact hnodup.sublist ((upTo_suffix chain l).sublist.map _)
  obtain ⟨hash, hhash⟩ := getAnonymitySetHash_ok hinv p suf (groupIdInt id)
    (fun g f' hg hf' => by
      rw [hgroup] at hg
      cases hg
      cases hf'
      exact hf) false
  have hset : referencedSetHash params s (p :: suf) (groupIdInt id) nHeight
      = .ok (if nHeight ≥ params.nLelantusFixesStartBlock ∧ hash ≠ [] then [hash] else []) := by
    unfold referencedSetHash
    by_cases hfork : nHeight ≥ params.nLelantusFixesStartBlock
    · rw [if_pos hfork, hhash, ok_bind]
      cases hash with
      | nil => simp
      | cons byte bytes => simp [hfork]
    · rw [if_neg hfork, if_neg (fun h => hfork h.1)]
      rfl
  have hcollect := collectCoins_eq
    (fun index => coinsInBlock index (groupIdInt id) (skipsCoin params chain)) (p :: suf) coins
    (show f < (p :: suf).length by rw [length_cons]; omega)
  refine ⟨hash, hhash, ?_⟩
  unfold appendAnonymitySet CLelantusState.getCoinGroupInfo
  rw [hread, hgroup]
  show Except.mapError Stop.aborted (findBlock p.hash (some f) (upTo chain l) >>= _) = _
  rw [hfind, ok_bind, hset, ok_bind, hcollect, ok_bind]
  rfl

/-- **Spender and validator.**  For every run, every group with a first block and
every height limit at or above it, the spender gets a set and a block hash, the
validator rebuilds a set from them, and the two are the same list exactly when no
block between the first and the last block of the group, up to the height limit,
holds a coin of the preceding group that is not skipped. -/
theorem coinSets_agree_iff [AddCommGroup G] (hreach : Reachable params env maxCoin start s chain)
    (hnodup : (chain.map (·.hash)).Nodup) (sigmaState : Sigma.CSigmaState F G)
    (isSigmaToLelantus : Bool) (nHeight : Nat) (id : UInt32)
    (hread : readsAsSigma isSigmaToLelantus id = none) {g : LelantusCoinGroupInfo} {f l : Nat}
    (hgroup : s.coinGroups[groupIdInt id]? = some g) (hfirst : g.firstBlock = some f)
    (hlast : g.lastBlock = some l) {maxHeight : Int} (hmax : (f : Int) ≤ maxHeight) :
    ∃ out set setHash,
      getCoinSetForSpend params s chain maxHeight (groupIdInt id) = .ok out ∧
      appendAnonymitySet params env sigmaState s chain isSigmaToLelantus nHeight id out.blockHash []
        = .ok (set, setHash) ∧
      (out.coins = set ↔
        ∀ q r, (q :: r) <:+ chain → f ≤ r.length → r.length ≤ l → (r.length : Int) ≤ maxHeight →
          coinsInBlock q (groupIdInt id - 1) (skipsCoin params chain) = []) := by
  obtain ⟨hinv, -, -⟩ := inv_reachable hreach
  obtain ⟨gf, gl, n⟩ := g
  dsimp only at hfirst hlast
  subst hfirst hlast
  have hid : 1 ≤ groupIdInt id :=
    ((hinv.facts.mem_groups _).mp (OrderedMap.mem_iff_exists.mpr ⟨_, hgroup⟩)).1
  obtain ⟨p, suf, out, hp, hfle, hlle, hmle, hpne, habove, hget, hhash, ⟨hcoins, -⟩, -⟩ :=
    getCoinSetForSpend_spec params hinv hgroup hmax
  -- the validator finds the same block
  obtain ⟨hash, -, happend⟩ := appendAnonymitySet_spec params env hinv hnodup sigmaState nHeight
    hread hgroup hp hfle hlle []
  refine ⟨out, _, _, hget, hhash ▸ happend, ?_⟩
  have hpieces : (downTo f (p :: suf)).flatMap
      (spendCoinsInBlock (groupIdInt id) (skipsCoin params chain)) = _ :=
    flatMap_congr fun b hb => by
      obtain ⟨rest, hsuf, -⟩ := mem_downTo.mp hb
      exact spendCoinsInBlock_eq hinv ((hsuf.trans hp).subset List.mem_cons_self) hid _
  rw [hcoins, List.nil_append, hpieces, flatMap_append_eq_iff]
  constructor
  · intro h q r hq hfr hrl hrmax
    by_cases hhigh : suf.length < r.length
    · -- above the referenced block nothing contributes
      have hspend := spendCoinsInBlock_eq hinv (hq.subset List.mem_cons_self) hid
        (skipsCoin params chain)
      unfold spendCoinsInBlock at hspend
      rw [if_pos (habove q r hq hhigh hrl hrmax)] at hspend
      exact (append_eq_nil_iff.mp hspend.symm).2
    · have hqp : (q :: r) <:+ (p :: suf) := by
        refine List.suffix_of_suffix_length_le hq hp ?_
        rw [List.length_cons, List.length_cons]
        omega
      exact h q (mem_downTo.mpr ⟨r, hqp, hfr⟩)
  · intro h b hb
    obtain ⟨r, hsuf, hfr⟩ := mem_downTo.mp hb
    have hlen := hsuf.length_le
    rw [List.length_cons, List.length_cons] at hlen
    exact h b r (hsuf.trans hp) hfr (by omega) (by omega)

end Compare

/-- Three blocks with two groups and a spend. -/
def sampleGroups : List (List Int × List (Nat × Int)) :=
  [([4, 5], [(7, 1)]), ([3], []), ([1, 2], [])]

theorem coinSets_agree_first_group :
    ∃ s chain out set setHash, sampleRun sampleParams 3 2 sampleGroups = some (s, chain) ∧
      getCoinSetForSpend sampleParams s chain 2 (groupIdInt 1) = .ok out ∧
      appendAnonymitySet sampleParams sampleExternals {} s chain false 3 1 out.blockHash []
        = .ok (set, setHash) ∧ out.coins = set := by
  obtain ⟨⟨s, chain⟩, hrun, hnodup, hgroup, hnone⟩ : ∃ p ∈ sampleRun sampleParams 3 2 sampleGroups,
      (p.2.map (·.hash)).Nodup ∧
      p.1.coinGroups[groupIdInt 1]? = some ⟨some 0, some 1, 3⟩ ∧
      ∀ q ∈ p.2, coinsInBlock q (groupIdInt 1 - 1) (skipsCoin sampleParams p.2) = [] := by
    decide +kernel
  obtain ⟨out, set, setHash, hout, hset, hiff⟩ := coinSets_agree_iff (reachable_of_sampleRun hrun)
    hnodup {} false 3 1 rfl hgroup rfl rfl (show (0 : Int) ≤ 2 by decide)
  refine ⟨s, chain, out, set, setHash, hrun, hout, hset, hiff.mpr ?_⟩
  intro q r hq _ _ _
  exact hnone q (hq.subset List.mem_cons_self)

/-! ## §6. Inherited coins. -/

/-- The two sets of group 2 differ: the spender has the inherited coins 3, 1, 2. -/
def sampleSetsDiffer (p : CLelantusState Nat Int × CChain Nat Int) : Bool :=
  decide ((p.2.map (·.hash)).Nodup) &&
  match getCoinSetForSpend sampleParams p.1 p.2 2 (groupIdInt 2) with
  | .error _ => false
  | .ok out => decide (out.coins = [4, 3, 1, 2]) &&
    match appendAnonymitySet sampleParams sampleExternals {} p.1 p.2 false 3 2 out.blockHash [] with
    | .error _ => false
    | .ok (set, _) => decide (set = [4])

/-- **The validator misses inherited coins.**  Blocks with 2, 1 and 1 mints under
groups of at most 3 coins: group 2 starts with the first block, and the set a
spender hides in has three coins the validator does not rebuild. -/
theorem coinSets_differ :
    ∃ s chain out set setHash, Reachable sampleParams sampleExternals 3 2 s chain ∧
      (chain.map (·.hash)).Nodup ∧
      getCoinSetForSpend sampleParams s chain 2 (groupIdInt 2) = .ok out ∧
      appendAnonymitySet sampleParams sampleExternals {} s chain false 3 2 out.blockHash []
        = .ok (set, setHash) ∧
      out.coins = [4, 3, 1, 2] ∧ set = [4] := by
  have htest : (sampleRun sampleParams 3 2 [([4], []), ([3], []), ([1, 2], [])]).any
      sampleSetsDiffer = true := by
    decide +kernel
  obtain ⟨⟨s, chain⟩, hrun, hp⟩ := (Option.any_eq_true _ _).mp htest
  unfold sampleSetsDiffer at hp
  rw [Bool.and_eq_true, decide_eq_true_eq] at hp
  obtain ⟨hnodup, hp⟩ := hp
  split at hp
  · cases hp
  · next out hout =>
    rw [Bool.and_eq_true, decide_eq_true_eq] at hp
    obtain ⟨hcoins, hp⟩ := hp
    split at hp
    · cases hp
    · next set setHash hset =>
      exact ⟨s, chain, out, set, setHash, reachable_of_sampleRun hrun, hnodup, hout, hset, hcoins,
        of_decide_eq_true hp⟩

/-! ## §7. The coins up to a height. -/

variable {params : ConsensusParams G} {env : Externals F G} {maxCoin start : Nat}
  {s : CLelantusState F G} {chain : CChain F G}

/-- **The coins of a group**, own and inherited, up to a height, newest block first. -/
def coinsOfGroup (s : CLelantusState F G) (chain : CChain F G) (maxHeight id : Int) :
    List G :=
  match s.coinGroups[id]? with
  | some ⟨some f, some l, _⟩ =>
    if maxHeight < f then []
    else (downTo f (upTo chain (min l maxHeight.toNat))).flatMap fun block =>
      coinsInBlock block id (fun _ => false) ++ coinsInBlock block (id - 1) fun _ => false
  | _ => []

/-- The spender gets the coins of the group that are not blacklisted, and their number. -/
def ServesGroup (params : ConsensusParams G) (s : CLelantusState F G)
    (chain : CChain F G) (maxHeight id : Int) : Prop :=
  ∃ out, getCoinSetForSpend params s chain maxHeight id = .ok out ∧
    out.coins = (coinsOfGroup s chain maxHeight id).filter
      (fun coin => !params.lelantusBlacklist coin) ∧
    out.numberOfCoins = out.coins.length

omit [DecidableEq F] [DecidableEq G] in
theorem coinSetLoop_below {blocks : CChain F G} {id maxHeight : Int} {f : Nat}
    {skip : G → Bool} (hmax : maxHeight < f) (out out' : CoinSet G) :
    coinSetLoop s id maxHeight (some f) skip blocks out ≠ .ok out' := by
  induction blocks generalizing out with
  | nil => exact fun h => nomatch h
  | cons block rest ih =>
    unfold coinSetLoop
    split
    · exact ih out
    · intro h
      obtain ⟨out₁, -, h⟩ := bind_eq_ok.mp h
      rw [if_neg (by simp only [Option.some.injEq]; omega)] at h
      exact ih out₁ h

theorem flatMap_downTo {α β : Type} {u : α → List β} {f : Nat} {p : α} {suf blocks : List α}
    (hsuf : (p :: suf) <:+ blocks) (hf : f ≤ suf.length)
    (hnone : ∀ q r, (q :: r) <:+ blocks → suf.length < r.length → u q = []) :
    (downTo f blocks).flatMap u = (downTo f (p :: suf)).flatMap u := by
  induction blocks with
  | nil => simp at hsuf
  | cons b rest ih =>
    rcases suffix_cons_iff.mp hsuf with heq | hsuf'
    · rw [heq]
    · have hlen := hsuf'.length_le
      rw [length_cons] at hlen
      rw [downTo_cons (by omega), flatMap_cons, hnone b rest (suffix_refl _) (by omega),
        nil_append]
      exact ih hsuf' fun q r hq => hnone q r (hq.trans (suffix_cons _ _))

/-- **The set of the spender is exact** if and only if the group, when it exists, has a first
block that is not above the height limit, and none of its coins up to the limit is
blacklisted. -/
theorem coinSet_exact_iff (hreach : Reachable params env maxCoin start s chain)
    (maxHeight id : Int) :
    ServesGroup params s chain maxHeight id ↔
      ∀ g, s.coinGroups[id]? = some g → (∃ f, g.firstBlock = some f ∧ (f : Int) ≤ maxHeight) ∧
        ∀ coin ∈ coinsOfGroup s chain maxHeight id, params.lelantusBlacklist coin = false := by
  obtain ⟨hinv, -, -⟩ := inv_reachable hreach
  unfold ServesGroup
  cases hgroup : s.coinGroups[id]? with
  | none => simp [getCoinSetForSpend, coinsOfGroup, hgroup]
  | some g =>
    have hid := ((hinv.facts.mem_groups id).mp (OrderedMap.mem_iff_exists.mpr ⟨_, hgroup⟩)).1
    cases hinv.facts.groups id g hgroup with
    | unused _ => simp [getCoinSetForSpend, hgroup, behind, coinSetLoop]
    | @spans f l n hle hlt hblocks hlast hfirst =>
      rcases lt_or_ge maxHeight f with hbelow | hmax
      · -- the walk does not stop at the first block
        refine ⟨?_, fun h => ?_⟩
        · rintro ⟨out, hout, -⟩
          unfold getCoinSetForSpend at hout
          rw [hgroup] at hout
          exact absurd hout (coinSetLoop_below hbelow {} out)
        · obtain ⟨⟨f', hf', hle'⟩, -⟩ := h _ rfl
          cases hf'
          omega
      · obtain ⟨p, suf, out, hp, hfp, hpl, hpmax, -, habove, hout, -, ⟨hcoins, hnumber⟩, -⟩ :=
          getCoinSetForSpend_spec params hinv hgroup hmax
        -- the blocks above the referenced one have no coins of the group
        have hall : (downTo f (p :: suf)).flatMap (spendCoinsInBlock id fun _ => false) =
            coinsOfGroup s chain maxHeight id := by
          have hk : min l maxHeight.toNat < chain.length := by omega
          unfold coinsOfGroup
          rw [hgroup]
          dsimp only
          rw [if_neg (by omega), ← flatMap_downTo (suffix_upTo hp (by omega) hk) hfp]
          · refine flatMap_congr fun b hb => ?_
            obtain ⟨rest, hb, -⟩ := mem_downTo.mp hb
            exact spendCoinsInBlock_eq hinv ((hb.trans (upTo_suffix _ _)).subset mem_cons_self)
              hid _
          · intro q r hq hgt
            have hlen := hq.length_le
            rw [length_upTo hk, length_cons] at hlen
            exact if_pos (habove q r (hq.trans (upTo_suffix _ _)) hgt (by omega) (by omega))
        have hskip : out.coins = (coinsOfGroup s chain maxHeight id).filter
            (fun coin => !skipsCoin params chain coin) := by
          rw [hcoins, ← hall, filter_flatMap]
          exact flatMap_congr fun b _ => spendCoinsInBlock_filter id _ b
        rw [hall] at hnumber
        constructor
        · rintro ⟨out', hout', hset, hlen⟩ g hg
          cases hout.symm.trans hout'
          cases hg
          refine ⟨⟨f, rfl, hmax⟩, ?_⟩
          rw [hnumber, hskip] at hlen
          rw [hskip, filter_sublist.eq_of_length hlen.symm] at hset
          simpa using filter_eq_self.mp hset.symm
        · intro h
          obtain ⟨-, hclean⟩ := h _ rfl
          have hkept : ∀ coin ∈ coinsOfGroup s chain maxHeight id,
              (!skipsCoin params chain coin) = true := by
            intro coin hcoin
            simp [skipsCoin, hclean coin hcoin]
          rw [filter_eq_self.mpr hkept] at hskip
          refine ⟨out, hout, ?_, ?_⟩
          · rw [hskip, filter_eq_self.mpr (by simpa using hclean)]
          · rw [hnumber, hskip]

/-- Group 2, with the three coins it inherits. -/
theorem coinSet_exact_second_group :
    ∃ s chain, sampleRun sampleParams 3 2 sampleGroups = some (s, chain) ∧
      s.coinGroups[(2 : Int)]? = some ⟨some 0, some 2, 5⟩ ∧
      ServesGroup sampleParams s chain 2 2 := by
  obtain ⟨⟨s, chain⟩, hrun, hgroup⟩ : ∃ p ∈ sampleRun sampleParams 3 2 sampleGroups,
      p.1.coinGroups[(2 : Int)]? = some ⟨some 0, some 2, 5⟩ := by
    decide +kernel
  refine ⟨s, chain, hrun, hgroup, (coinSet_exact_iff (reachable_of_sampleRun hrun) 2 2).mpr ?_⟩
  intro g hg
  cases hgroup.symm.trans hg
  exact ⟨⟨0, rfl, by decide⟩, fun _ _ => rfl⟩

/-- **A limit below the first block**: group 1 starts at height 1, and the walk for height 0 runs
past the genesis block. -/
theorem coinSet_limit_below :
    ∃ s chain, Reachable sampleParams sampleExternals 3 2 s chain ∧
      (getCoinSetForSpend sampleParams s chain 0 1).map (fun _ => ()) = .error .nullPointer := by
  obtain ⟨⟨s, chain⟩, hrun, herror⟩ : ∃ p ∈ sampleRun sampleParams 3 2 [([1, 2], []), ([], [])],
      (getCoinSetForSpend sampleParams p.1 p.2 0 1).map (fun _ => ()) = .error .nullPointer := by
    decide +kernel
  exact ⟨s, chain, reachable_of_sampleRun hrun, herror⟩

end Zcoin.Lelantus
