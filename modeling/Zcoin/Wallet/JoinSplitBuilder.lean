/-
  Zcoin.Wallet.JoinSplitBuilder — what a wallet hands to the joinsplit prover
  (`LelantusJoinSplitBuilder::CreateJoinSplit`, `wallet/lelantusjoinsplitbuilder.cpp`;
  `SpendMetaData`, `liblelantus/spend_metadata.cpp`).

  The builder pushes the set hash of a group when it first MEETS a coin of that
  group; the joinsplit carries the groups in KEY ORDER, and in that order the
  validator pushes the hashes again.  Both lists enter the challenge.

  **MAIN RESULT**: `setHashes_agree_iff`.
-/
import Zcoin.Lelantus.AnonymitySet

namespace Zcoin.Wallet

open List hiding mem_keys
open Chain LibLelantus Lelantus Lib Std Lib.Except Lib.OrderedMap Std.ExtTreeMap

variable {F G : Type} [DecidableEq F] [DecidableEq G]

/-! ## §1. The builder. -/

/-- `CLelantusEntry`, as far as the builder reads it. -/
structure CLelantusEntry (F G : Type) where
  value : G
  amount : Int
  serialNumber : F
  randomness : F
  ecdsaSecretKey : List UInt8

/-- `CSigmaEntry`, as far as the builder reads it. -/
structure CSigmaEntry (F G : Type) where
  value : G
  denomination : Sigma.CoinDenomination
  serialNumber : F
  randomness : F
  ecdsaSecretKey : List UInt8

/-- What `CreateJoinSplit` collects for the constructor of `JoinSplit`. -/
structure JoinSplitInputs (F G : Type) where
  coins : List (PrivateCoin F G × UInt32) := []
  anonymitySets : ExtTreeMap UInt32 (List G) := ∅
  groupBlockHashes : ExtTreeMap UInt32 Uint256 := ∅
  anonymitySetHashes : List (List UInt8) := []

/-- The version of the joinsplit, from the builder's mode and the active chain. -/
def joinSplitVersion (params : ConsensusParams G) (chain : CChain F G)
    (isSigmaToLelantusJoinSplit : Bool) : Nat :=
  if ¬ isSigmaToLelantusJoinSplit then
    if height chain ≥ params.nLelantusFixesStartBlock then LELANTUS_TX_VERSION_4_5
    else LELANTUS_TX_VERSION_4
  else
    if height chain ≥ params.nLelantusFixesStartBlock then SIGMA_TO_LELANTUS_JOINSPLIT_FIXED
    else SIGMA_TO_LELANTUS_JOINSPLIT

/-- The private part of a mint; `setEcdsaSeckey` insists on 32 bytes. -/
def privateCoin (version : Nat) (amount : Int) (serialNumber randomness : F)
    (ecdsaSecretKey : List UInt8) (publicCoin : G) : Except Abort (PrivateCoin F G) :=
  if ecdsaSecretKey.length = 32 then
    .ok ⟨publicCoin, serialNumber, UInt64.ofInt amount, randomness, version, ecdsaSecretKey⟩
  else .error (.threw (.invalidArgument "EcdsaSeckey size does not match."))

/-- The height up to which mints have the confirmations a spend needs. -/
def confirmedHeight (chain : CChain F G) : Int :=
  height chain - (ZC_MINT_CONFIRMATIONS - 1)

/-- What a set with fewer than two coins throws. -/
def tooFewCoins : Abort :=
  .threw (.runtimeError ("Has to have at least two mint coins with at least 2 confirmation " ++
    "in order to spend a coin"))

/-- One pass through the loop over `spendCoins`. -/
def addLelantusSpend (params : ConsensusParams G) (s : CLelantusState F G)
    (chain : CChain F G) (version : Nat) (acc : JoinSplitInputs F G)
    (spend : CLelantusEntry F G) : Except Abort (JoinSplitInputs F G) := do
  let priv ← privateCoin version spend.amount spend.serialNumber spend.randomness
    spend.ecdsaSecretKey spend.value
  let groupId := (s.getMintedCoinHeightAndId spend.value).2
  if groupId < 0 then
    .error (.threw (.runtimeError "One of the lelantus coins has not been found in the chain!"))
  else
    let coins := acc.coins ++ [(priv, UInt32.ofInt groupId)]
    if acc.anonymitySets.contains (UInt32.ofInt groupId) then
      return { acc with coins }
    else
      let out ← getCoinSetForSpend params s chain (confirmedHeight chain) groupId
      if out.numberOfCoins < 2 then .error tooFewCoins
      else return {
        coins
        anonymitySets := acc.anonymitySets.insert (UInt32.ofInt groupId) out.coins
        groupBlockHashes := acc.groupBlockHashes.insert (UInt32.ofInt groupId) out.blockHash
        anonymitySetHashes := acc.anonymitySetHashes ++
          if out.setHash.isEmpty then [] else [out.setHash] }

/-- One pass through the loop over `sigmaSpendCoins`: denomination and group id are
packed into one key, and no set hash is pushed. -/
def addSigmaSpend [AddCommGroup G] (params : ConsensusParams G) (env : Externals F G)
    (sigmaState : Sigma.CSigmaState F G) (chain : CChain F G) (version : Nat)
    (acc : JoinSplitInputs F G) (spend : CSigmaEntry F G) :
    Except Abort (JoinSplitInputs F G) := do
  let denom := Sigma.denominationToInteger spend.denomination
  let priv ← privateCoin version denom spend.serialNumber spend.randomness spend.ecdsaSecretKey
    (spend.value + denom • env.h1)
  let groupId := (sigmaState.getMintedCoinHeightAndId spend.value).2
  if groupId < 0 then
    .error (.threw (.runtimeError "One of the sigma coins has not been found in the chain!"))
  else
    let key := UInt32.ofInt (denom / 1000 + groupId)
    let coins := acc.coins ++ [(priv, key)]
    if acc.anonymitySets.contains key then
      return { acc with coins }
    else
      let out ← sigmaState.getCoinSetForSpend params chain (confirmedHeight chain)
        spend.denomination groupId
      if out.numberOfCoins < 2 then .error tooFewCoins
      else return { acc with
        coins
        anonymitySets := acc.anonymitySets.insert key (out.coins.map (· + denom • env.h1))
        groupBlockHashes := acc.groupBlockHashes.insert key out.blockHash }

/-- `CreateJoinSplit` up to the constructor of `JoinSplit`.  `CoinCompare` looks at
the ids only; coins of one id stay in the order they came here. -/
def createJoinSplit [AddCommGroup G] (params : ConsensusParams G) (env : Externals F G)
    (sigmaState : Sigma.CSigmaState F G) (s : CLelantusState F G) (chain : CChain F G)
    (isSigmaToLelantusJoinSplit : Bool) (spendCoins : List (CLelantusEntry F G))
    (sigmaSpendCoins : List (CSigmaEntry F G)) : Except Abort (JoinSplitInputs F G) := do
  let version := joinSplitVersion params chain isSigmaToLelantusJoinSplit
  let acc ← spendCoins.foldlM (addLelantusSpend params s chain version) {}
  let acc ← sigmaSpendCoins.foldlM (addSigmaSpend params env sigmaState chain version) acc
  return { acc with coins := acc.coins.mergeSort fun left right => left.2 ≤ right.2 }

/-- `SpendMetaData::coinGroupIdAndBlockHash`: the block hashes in the order of the
map's keys. -/
def coinGroupIdAndBlockHash (inputs : JoinSplitInputs F G) : List (UInt32 × Uint256) :=
  inputs.groupBlockHashes.toList

/-! ## §2. The block a spend references. -/

variable (s : CLelantusState F G)

/-- The id under which the builder files a coin. -/
def groupKey (spend : CLelantusEntry F G) : UInt32 :=
  UInt32.ofInt (s.getMintedCoinHeightAndId spend.value).2

variable (chain : CChain F G)

/-- A minted coin with the confirmations a spend needs. -/
def Spendable (spend : CLelantusEntry F G) : Prop :=
  ∃ info, s.containers.mintedPubCoins spend.value = some info ∧
    (info.nHeight : Int) ≤ confirmedHeight chain

instance (s : CLelantusState F G) (chain : CChain F G) (spend : CLelantusEntry F G) :
    Decidable (Spendable s chain spend) :=
  decidable_of_iff ((s.containers.mintedPubCoins spend.value).any
      (fun info => decide ((info.nHeight : Int) ≤ confirmedHeight chain)) = true)
    (by simp [Spendable, Option.any_eq_true])

/-- The chain from its newest confirmed block with coins of `id` downwards: the tip
does not count yet. -/
def confirmed (id : Int) : CChain F G :=
  chain.tail.dropWhile fun block => decide (countCoinInBlock block id = 0)

/-- **The set hash of a group**, as recorded from its newest confirmed block down. -/
def confirmedSetHash (id : Int) : List UInt8 :=
  match getAnonymitySetHash s (confirmed chain id) id false with
  | .ok setHash => setHash
  | .error _ => []

/-- `p` is the newest confirmed block with coins of the group `id`, between the
group's first and last block. -/
structure Confirmed (id : Int) (p : CBlockIndex F G) (suf : CChain F G) : Prop where
  eq : confirmed chain id = p :: suf
  suffix : (p :: suf) <:+ chain
  group : ∃ f l n, s.coinGroups[id]? = some ⟨some f, some l, n⟩ ∧ f ≤ suf.length ∧ suf.length ≤ l

/-- `dropWhile` stops at the first element that does not satisfy the test. -/
theorem dropWhile_eq_of_suffix {α : Type} {test : α → Bool} {l suf : List α} {p : α}
    (hsuf : (p :: suf) <:+ l) (hp : test p = false)
    (habove : ∀ q r, (q :: r) <:+ l → suf.length < r.length → test q = true) :
    l.dropWhile test = p :: suf := by
  induction l with
  | nil => exact absurd (suffix_nil.mp hsuf) (by simp)
  | cons a l ih =>
    rcases suffix_cons_iff.mp hsuf with heq | hsuf'
    · obtain ⟨rfl, rfl⟩ := cons.inj heq
      rw [dropWhile_cons_of_neg (by simp [hp])]
    · have hlen := hsuf'.length_le
      rw [length_cons] at hlen
      rw [dropWhile_cons_of_pos (habove a l (suffix_refl _) (by omega))]
      exact ih hsuf' (fun q r hq => habove q r (hq.trans (suffix_cons _ _)))

theorem groupIdInt_ofInt {k : Int} (hnonneg : 0 ≤ k) (hle : k ≤ INT_MAX) :
    groupIdInt (UInt32.ofInt k) = k := by
  unfold INT_MAX at hle
  have hmod : k % 2 ^ 32 = k := Int.emod_eq_of_lt hnonneg (by omega)
  have hnat : (UInt32.ofInt k).toBitVec.toNat = k.toNat := by
    show (UInt32.ofNat (k % 2 ^ 32).toNat).toNat = k.toNat
    rw [hmod, UInt32.toNat_ofNat_of_lt' (by show k.toNat < 2 ^ 32; omega)]
  unfold groupIdInt
  rw [BitVec.toInt_eq_toNat_of_lt (by rw [hnat]; omega), hnat]
  omega

section Referenced

variable {s : CLelantusState F G} {chain : CChain F G}

/-- **What the builder references for a spendable coin.**  Ids never fall along a
chain, so above a block with coins of the group no confirmed block has coins of its
predecessor only. -/
theorem confirmed_of_spendable (params : ConsensusParams G) (hinv : Inv s chain) {g : G}
    {info : CMintedCoinInfo} (hg : s.containers.mintedPubCoins g = some info)
    (hconf : (info.nHeight : Int) ≤ confirmedHeight chain) :
    ∃ p suf out, Confirmed s chain info.coinGroupId p suf ∧
      getCoinSetForSpend params s chain (confirmedHeight chain) info.coinGroupId = .ok out ∧
      out.blockHash = p.hash ∧ out.setHash = confirmedSetHash s chain info.coinGroupId := by
  have hf := hinv.facts
  -- the block with the coin
  have hreplay : (replay s.startGroupSize chain).book.minted g = some info := by
    rw [← hinv.ledger]
    exact hg
  obtain ⟨q, r, hq, hr, hcount⟩ := hinv.chainOK.minted hreplay
  have hqmem : q ∈ chain := hq.subset mem_cons_self
  have hid := hf.range q hqmem _ hcount
  obtain ⟨group, hgroup⟩ : ∃ group, s.coinGroups[info.coinGroupId]? = some group := by
    exact mem_iff_exists.mp ((hf.mem_groups _).mpr hid)
  cases hf.groups _ group hgroup with
  | unused hnone => exact absurd (hnone q hqmem) hcount
  | @spans f l n hle hlt hblocks hlast hfirst =>
    obtain ⟨hfr, hrl⟩ := hblocks q r hq hcount
    obtain ⟨p, suf, out, hp, hfp, hpl, hpmax, hpne, habove, hget, hhash, -, hset⟩ :=
      getCoinSetForSpend_spec params hinv hgroup
        (show (f : Int) ≤ confirmedHeight chain by omega)
    -- the coin's own block contributes, so the referenced block is not below it
    have hqspend : spendGroupInBlock info.coinGroupId q ≠ 0 := by
      unfold spendGroupInBlock
      rw [if_pos hcount]
      omega
    have hrp : r.length ≤ suf.length := by
      by_contra hlt
      exact hqspend (habove q r hq (by omega) hrl (by omega))
    have hpcount : countCoinInBlock p info.coinGroupId ≠ 0 := by
      intro hzero
      have hprev : countCoinInBlock p (info.coinGroupId - 1) ≠ 0 := by
        intro hzero'
        apply hpne
        simp [spendGroupInBlock, hzero, hzero']
      rcases Nat.lt_or_ge r.length suf.length with hlt | hge
      · have hqsuf : (q :: r) <:+ suf := by
          refine suffix_of_suffix_length_le hq ((suffix_cons p suf).trans hp) ?_
          rw [length_cons]
          omega
        have := hinv.chainOK.group_le hp hqsuf hprev hcount
        omega
      · have hsame : q :: r = p :: suf := by
          have hlen : r.length = suf.length := by omega
          rw [← upTo_of_suffix hq, ← upTo_of_suffix hp, hlen]
        obtain ⟨rfl, rfl⟩ := cons.inj hsame
        exact hcount hzero
    have heq : confirmed chain info.coinGroupId = p :: suf := by
      unfold confirmed
      have hheight : confirmedHeight chain = (chain.length : Int) - 2 := by
        show (chain.length : Int) - 1 - (2 - 1) = _
        omega
      refine dropWhile_eq_of_suffix ?_ (by simp [hpcount]) ?_
      · refine suffix_of_suffix_length_le hp (tail_suffix chain) ?_
        rw [length_cons, length_tail]
        omega
      · intro q' r' hq' hlen
        have hmax := hq'.length_le
        rw [length_cons, length_tail] at hmax
        have hq'chain := hq'.trans (tail_suffix chain)
        -- a block above the referenced one is above the group or contributes nothing
        by_contra hne
        have hcount' : countCoinInBlock q' info.coinGroupId ≠ 0 := by simpa using hne
        obtain ⟨-, hl'⟩ := hblocks q' r' hq'chain hcount'
        have hzero := habove q' r' hq'chain hlen hl' (by omega)
        unfold spendGroupInBlock at hzero
        rw [if_pos hcount'] at hzero
        omega
    have hself : spendGroupInBlock info.coinGroupId p = info.coinGroupId := by
      unfold spendGroupInBlock
      rw [if_pos hpcount]
    rw [hself] at hset
    refine ⟨p, suf, out, ⟨heq, hp, f, l, n, hgroup, hfp, hpl⟩, hget, hhash, ?_⟩
    unfold confirmedSetHash
    rw [heq, hset]

end Referenced

/-! ## §3. What the builder collects. -/

/-- The ids in the order in which they are first met. -/
def firstMet (ids : List UInt32) : List UInt32 :=
  ids.foldl (fun met id => if id ∈ met then met else met ++ [id]) []

variable (s : CLelantusState F G)

/-- The groups of the selected coins, in the order in which they are first met. -/
def groupsMet (spendCoins : List (CLelantusEntry F G)) : List UInt32 :=
  firstMet (spendCoins.map (groupKey s))

variable (chain : CChain F G)

/-- The set hash of a group if it has one. -/
def pushedHash (id : UInt32) : List (List UInt8) :=
  if confirmedSetHash s chain (groupIdInt id) = [] then []
  else [confirmedSetHash s chain (groupIdInt id)]

/-- **The builder after the groups `met`**: one reference for each of them, to its
newest confirmed block, and their set hashes in the order of `met`. -/
structure Collected (met : List UInt32) (acc : JoinSplitInputs F G) : Prop where
  nodup : met.Nodup
  sets : ∀ id, id ∈ acc.anonymitySets ↔ id ∈ met
  keys : ∀ id, id ∈ acc.groupBlockHashes ↔ id ∈ met
  refs : ∀ (id : UInt32) (hash : Uint256), acc.groupBlockHashes[id]? = some hash →
    ∃ p suf, Confirmed s chain (groupIdInt id) p suf ∧ hash = p.hash
  hashes : acc.anonymitySetHashes = met.flatMap (pushedHash s chain)

section Builder

variable {params : ConsensusParams G} {s : CLelantusState F G} {chain : CChain F G}
  {version : Nat}

/-- **One spendable coin.** -/
theorem collected_step (hinv : Inv s chain) (hids : s.latestCoinId ≤ INT_MAX)
    {met : List UInt32} {acc acc' : JoinSplitInputs F G} {spend : CLelantusEntry F G}
    (h : Collected s chain met acc) (hspend : Spendable s chain spend)
    (hrun : addLelantusSpend params s chain version acc spend = .ok acc') :
    Collected s chain (if groupKey s spend ∈ met then met else met ++ [groupKey s spend]) acc' := by
  obtain ⟨info, hminted, hconf⟩ := hspend
  obtain ⟨p, suf, out, hp, hget, hblock, hset⟩ :=
    confirmed_of_spendable params hinv hminted hconf
  have hgroupId : (s.getMintedCoinHeightAndId spend.value).2 = info.coinGroupId := by
    unfold CLelantusState.getMintedCoinHeightAndId
    rw [hminted]
  obtain ⟨f, l, n, hgroup, -⟩ := hp.group
  have hrange : 1 ≤ info.coinGroupId ∧ info.coinGroupId ≤ s.latestCoinId := by
    exact (hinv.facts.mem_groups _).mp (mem_iff_exists.mpr ⟨_, hgroup⟩)
  have hint : groupIdInt (groupKey s spend) = info.coinGroupId := by
    unfold groupKey
    rw [hgroupId]
    exact groupIdInt_ofInt (by omega) (by omega)
  unfold addLelantusSpend at hrun
  obtain ⟨priv, -, hrun⟩ := bind_eq_ok.mp hrun
  dsimp only at hrun
  rw [if_neg (by rw [hgroupId]; omega)] at hrun
  change (if acc.anonymitySets.contains (groupKey s spend) = true then _ else _) = _ at hrun
  by_cases hmet : groupKey s spend ∈ met
  · -- the group is known: only the coin is added
    rw [if_pos (contains_iff_mem.mpr ((h.sets _).mpr hmet))] at hrun
    cases hrun
    rw [if_pos hmet]
    exact ⟨h.nodup, h.sets, h.keys, h.refs, h.hashes⟩
  · rw [if_neg (fun hc => hmet ((h.sets _).mp (contains_iff_mem.mp hc))), hgroupId,
      hget, ok_bind] at hrun
    split at hrun
    · cases hrun
    · simp only [pure_eq_ok, Except.ok.injEq] at hrun
      rw [← hgroupId] at hrun
      subst hrun
      rw [if_neg hmet]
      refine ⟨?_, ?_, ?_, ?_, ?_⟩
      · exact h.nodup.append (nodup_singleton _) (disjoint_singleton.mpr hmet)
      · intro id
        show id ∈ acc.anonymitySets.insert (groupKey s spend) out.coins ↔ _
        rw [OrderedMap.mem_insert, h.sets, mem_append, mem_singleton, or_comm]
      · intro id
        show id ∈ acc.groupBlockHashes.insert (groupKey s spend) out.blockHash ↔ _
        rw [OrderedMap.mem_insert, h.keys, mem_append, mem_singleton, or_comm]
      · intro id hash hid
        replace hid : (acc.groupBlockHashes.insert (groupKey s spend) out.blockHash)[id]?
          = some hash := hid
        rw [OrderedMap.getElem?_insert] at hid
        split at hid
        · next heq =>
          subst heq
          rw [← hint] at hp
          exact ⟨p, suf, hp, (Option.some.inj hid).symm.trans hblock⟩
        · exact h.refs id hash hid
      · rw [flatMap_append, flatMap_singleton, ← h.hashes]
        unfold pushedHash
        rw [hint, ← hset]
        cases out.setHash with
        | nil => rfl
        | cons byte bytes => rfl

/-- **Any list of spendable coins.** -/
theorem collected_of_run (hinv : Inv s chain) (hids : s.latestCoinId ≤ INT_MAX)
    {spendCoins : List (CLelantusEntry F G)}
    (hspend : ∀ spend ∈ spendCoins, Spendable s chain spend) {acc : JoinSplitInputs F G}
    (hrun : spendCoins.foldlM (addLelantusSpend params s chain version) {} = .ok acc) :
    Collected s chain (groupsMet s spendCoins) acc := by
  -- the groups met so far run along with the accumulator
  refine foldlM_prefix_ok (fun pre acc => Collected s chain (groupsMet s pre) acc) ?_
    ⟨nodup_nil, ?_, ?_, ?_, rfl⟩ hrun
  · intro pre spend rest hl acc acc' h hstep
    have hmet : groupsMet s (pre ++ [spend]) = if groupKey s spend ∈ groupsMet s pre then
        groupsMet s pre else groupsMet s pre ++ [groupKey s spend] := by
      unfold groupsMet firstMet
      rw [map_append, foldl_append]
      rfl
    rw [hmet]
    exact collected_step hinv hids h (hspend spend (hl ▸ mem_append_right pre mem_cons_self)) hstep
  · simp [groupsMet, firstMet]
  · simp [groupsMet, firstMet]
  · simp

end Builder

/-! ## §4. What the validator pushes. -/

section Validator

variable {s : CLelantusState F G} {chain : CChain F G}

/-- Past the fork each reference to a newest confirmed block pushes the set hash of
its group. -/
theorem rebuild_hashes [AddCommGroup G] (params : ConsensusParams G) (env : Externals F G)
    (hinv : Inv s chain) (hnodup : (chain.map (·.hash)).Nodup)
    (sigmaState : Sigma.CSigmaState F G) {isSigmaToLelantus : Bool} {nHeight : Nat}
    (hfork : params.nLelantusFixesStartBlock ≤ nHeight) (entries : List (UInt32 × Uint256))
    (hentries : ∀ e ∈ entries, readsAsSigma isSigmaToLelantus e.1 = none ∧
      ∃ p suf, Confirmed s chain (groupIdInt e.1) p suf ∧ e.2 = p.hash) :
    ∃ sets, rebuildAnonymitySets params env sigmaState s chain isSigmaToLelantus nHeight entries
        = .ok sets ∧ sets.hashes = (entries.map Prod.fst).flatMap (pushedHash s chain) := by
  refine (Ensures.foldlM_prefix (fun pre (sets : AnonymitySets G) =>
    sets.hashes = (pre.map Prod.fst).flatMap (pushedHash s chain)) ?_ rfl).exists_ok
  intro pre e rest hl acc hacc
  obtain ⟨hread, p, suf, hp, he⟩ := hentries e (hl ▸ mem_append_right pre mem_cons_self)
  obtain ⟨f, last, n, hgroup, hf, hlast⟩ := hp.group
  obtain ⟨hash, hhash, happend⟩ := appendAnonymitySet_spec params env hinv hnodup sigmaState
    nHeight hread hgroup hp.suffix hf hlast (acc.sets.getD e.1 [])
  have hset : confirmedSetHash s chain (groupIdInt e.1) = hash := by
    unfold confirmedSetHash
    rw [hp.eq, hhash]
  unfold addReferencedSet
  rw [he, happend, ok_bind]
  show acc.hashes ++ _ = _
  rw [hacc, map_append, flatMap_append, map_singleton, flatMap_singleton]
  unfold pushedHash
  rw [hset]
  by_cases hnil : hash = []
  · simp [hnil]
  · simp [hnil, hfork]

end Validator

/-! ## §5. The two orders. -/

theorem eq_of_map_eq {α β : Type} {h : α → β} {l l' : List α}
    (hinj : ∀ a ∈ l, ∀ a' ∈ l', h a = h a' → a = a') (heq : l.map h = l'.map h) : l = l' := by
  induction l generalizing l' with
  | nil => exact (map_eq_nil_iff.mp heq.symm).symm
  | cons a l ih =>
    cases l' with
    | nil => simp at heq
    | cons a' l' =>
      rw [map_cons, map_cons, cons.injEq] at heq
      rw [hinj a mem_cons_self a' mem_cons_self heq.1]
      rw [ih (fun b hb b' hb' =>
        hinj b (mem_cons_of_mem _ hb) b' (mem_cons_of_mem _ hb')) heq.2]

section Order

variable {s : CLelantusState F G} {chain : CChain F G}

/-- The groups that have a set hash, in the order in which they are first met. -/
def hashedGroups (s : CLelantusState F G) (chain : CChain F G) (met : List UInt32) :
    List UInt32 :=
  met.filter fun id => confirmedSetHash s chain (groupIdInt id) ≠ []

omit [DecidableEq F] [DecidableEq G] in
theorem flatMap_pushedHash (ids : List UInt32) :
    ids.flatMap (pushedHash s chain)
      = (hashedGroups s chain ids).map (fun id => confirmedSetHash s chain (groupIdInt id)) := by
  unfold hashedGroups
  induction ids with
  | nil => rfl
  | cons id ids ih =>
    rw [flatMap_cons, ih, filter_cons]
    unfold pushedHash
    by_cases hnil : confirmedSetHash s chain (groupIdInt id) = []
    · simp [hnil]
    · simp [hnil]

omit [DecidableEq F] [DecidableEq G] in
/-- **Key order against the order of meeting.** -/
theorem hashedGroups_keys {met : List UInt32} {m : ExtTreeMap UInt32 Uint256}
    (hkeys : ∀ id, id ∈ m ↔ id ∈ met) :
    hashedGroups s chain m.keys = hashedGroups s chain met ↔
      (hashedGroups s chain met).Pairwise (· < ·) := by
  have hsorted : (hashedGroups s chain m.keys).Pairwise (· < ·) := by
    refine List.Pairwise.filter _ ?_
    exact ordered_keys.imp Std.compare_eq_lt.mp
  constructor
  · intro heq
    rw [← heq]
    exact hsorted
  · intro hmet
    refine hsorted.eq_of_mem_iff hmet ?_
    intro id
    unfold hashedGroups
    rw [mem_filter, mem_filter, mem_keys, hkeys]

end Order

/-- **Builder and validator.**  For every run past the fork, every list of spendable
coins and every joinsplit built from it, the validator rebuilds the references and
its set hashes are those of the builder if the groups with a set hash are first met
in ascending order, and, as long as different groups have different set hashes, only
then. -/
theorem setHashes_agree_iff [AddCommGroup G] {params : ConsensusParams G} {env : Externals F G}
    {maxCoin start : Nat} {s : CLelantusState F G} {chain : CChain F G}
    (hreach : Reachable params env maxCoin start s chain)
    (hnodup : (chain.map (·.hash)).Nodup) (hids : s.latestCoinId ≤ INT_MAX)
    (sigmaState : Sigma.CSigmaState F G) (isSigmaToLelantus : Bool) {nHeight : Nat}
    (hfork : params.nLelantusFixesStartBlock ≤ nHeight) {spendCoins : List (CLelantusEntry F G)}
    (hspend : ∀ spend ∈ spendCoins, Spendable s chain spend)
    (hread : ∀ id ∈ groupsMet s spendCoins, readsAsSigma isSigmaToLelantus id = none)
    {inputs : JoinSplitInputs F G}
    (hbuilt : createJoinSplit params env sigmaState s chain isSigmaToLelantus spendCoins []
      = .ok inputs) :
    ∃ sets, rebuildAnonymitySets params env sigmaState s chain isSigmaToLelantus nHeight
        (coinGroupIdAndBlockHash inputs) = .ok sets ∧
      ((hashedGroups s chain (groupsMet s spendCoins)).Pairwise (· < ·) →
        sets.hashes = inputs.anonymitySetHashes) ∧
      ((∀ id ∈ groupsMet s spendCoins, ∀ id' ∈ groupsMet s spendCoins,
          confirmedSetHash s chain (groupIdInt id) = confirmedSetHash s chain (groupIdInt id') →
          confirmedSetHash s chain (groupIdInt id) ≠ [] → id = id') →
        sets.hashes = inputs.anonymitySetHashes →
        (hashedGroups s chain (groupsMet s spendCoins)).Pairwise (· < ·)) := by
  obtain ⟨hinv, -, -⟩ := inv_reachable hreach
  unfold createJoinSplit at hbuilt
  obtain ⟨acc, hrun, hbuilt⟩ := bind_eq_ok.mp hbuilt
  simp only [List.foldlM_nil, pure_eq_ok, ok_bind, Except.ok.injEq] at hbuilt
  subst hbuilt
  have hcol := collected_of_run hinv hids hspend hrun
  have hentries : ∀ e ∈ acc.groupBlockHashes.toList, readsAsSigma isSigmaToLelantus e.1 = none ∧
      ∃ p suf, Confirmed s chain (groupIdInt e.1) p suf ∧ e.2 = p.hash := by
    intro e he
    have hget : acc.groupBlockHashes[e.1]? = some e.2 :=
      ExtTreeMap.mem_toList_iff_getElem?_eq_some.mp he
    exact ⟨hread e.1 ((hcol.keys e.1).mp (mem_iff_exists.mpr ⟨_, hget⟩)), hcol.refs e.1 e.2 hget⟩
  obtain ⟨sets, hsets, hhashes⟩ := rebuild_hashes params env hinv hnodup sigmaState hfork
    acc.groupBlockHashes.toList hentries
  refine ⟨sets, hsets, ?_⟩
  show (_ → sets.hashes = acc.anonymitySetHashes) ∧ (_ → sets.hashes = acc.anonymitySetHashes → _)
  rw [hhashes, hcol.hashes, ExtTreeMap.map_fst_toList_eq_keys, flatMap_pushedHash,
    flatMap_pushedHash, ← hashedGroups_keys hcol.keys]
  refine ⟨fun h => congrArg _ h, ?_⟩
  intro hdistinct heq
  refine eq_of_map_eq ?_ heq
  intro id hid id' hid' hsame
  unfold hashedGroups at hid hid'
  simp only [List.mem_filter, decide_eq_true_eq] at hid hid'
  refine hdistinct id ?_ id' hid'.1 hsame hid.2
  rw [← hcol.keys, ← ExtTreeMap.mem_keys]
  exact hid.1

/-! ## §6. Two groups, met in either order. -/

/-- Parameters for concrete runs past the fork block. -/
def forkedParams : ConsensusParams Int := { sampleParams with nLelantusFixesStartBlock := 0 }

/-- A wallet entry for the coin `coin`. -/
def sampleEntry (coin : Int) : CLelantusEntry Nat Int :=
  ⟨coin, 1, coin.toNat, 0, List.replicate 32 0⟩

/-- Groups of at most 3 coins: coins 1, 2, 3 in group 1, coins 4, 5 in group 2, and
an empty block on top. -/
def twoGroups : Option (CLelantusState Nat Int × CChain Nat Int) :=
  sampleRun forkedParams 3 1 [([], []), ([5], []), ([4], []), ([3], []), ([1, 2], [])]

/-- The hypotheses of `setHashes_agree_iff` at the entries `spendCoins`. -/
def sampleSpendable (spendCoins : List (CLelantusEntry Nat Int))
    (p : CLelantusState Nat Int × CChain Nat Int) : Bool :=
  decide ((p.2.map (·.hash)).Nodup) && decide (p.1.latestCoinId ≤ INT_MAX) &&
    decide (∀ spend ∈ spendCoins, Spendable p.1 p.2 spend)

theorem setHashes_agree_ascending :
    ∃ s chain inputs sets, twoGroups = some (s, chain) ∧
      createJoinSplit forkedParams sampleExternals {} s chain false
        [sampleEntry 1, sampleEntry 5] [] = .ok inputs ∧
      rebuildAnonymitySets forkedParams sampleExternals {} s chain false 5
        (coinGroupIdAndBlockHash inputs) = .ok sets ∧
      sets.hashes = inputs.anonymitySetHashes := by
  obtain ⟨⟨s, chain⟩, hrun, hp, hasc, inputs, hbuilt, -⟩ : ∃ p ∈ twoGroups,
      sampleSpendable [sampleEntry 1, sampleEntry 5] p = true ∧
      (hashedGroups p.1 p.2 (groupsMet p.1 [sampleEntry 1, sampleEntry 5])).Pairwise (· < ·) ∧
      ∃ inputs, createJoinSplit forkedParams sampleExternals {} p.1 p.2 false
        [sampleEntry 1, sampleEntry 5] [] = .ok inputs ∧ True := by
    decide +kernel
  simp only [sampleSpendable, Bool.and_eq_true, decide_eq_true_eq] at hp
  obtain ⟨⟨hnodup, hids⟩, hspend⟩ := hp
  obtain ⟨sets, hsets, hagree, -⟩ := setHashes_agree_iff (reachable_of_sampleRun hrun) hnodup
    hids {} false (show forkedParams.nLelantusFixesStartBlock ≤ 5 by decide) hspend
    (fun _ _ => rfl) hbuilt
  exact ⟨s, chain, inputs, sets, hrun, hbuilt, hsets, hagree hasc⟩

/-- The builder has the hash of group 2 first, the validator that of group 1. -/
def sampleHashesDiffer (p : CLelantusState Nat Int × CChain Nat Int) : Bool :=
  match createJoinSplit forkedParams sampleExternals {} p.1 p.2 false
    [sampleEntry 5, sampleEntry 1] [] with
  | .error _ => false
  | .ok inputs => decide (inputs.anonymitySetHashes = [[4, 5], [3]]) &&
    match rebuildAnonymitySets forkedParams sampleExternals {} p.1 p.2 false 5
      (coinGroupIdAndBlockHash inputs) with
    | .error _ => false
    | .ok sets => decide (sets.hashes = [[3], [4, 5]])

/-- **The order of selection enters the challenge.**  A coin of group 2 selected
before a coin of group 1: the builder hashes group 2 first, the validator group 1. -/
theorem setHashes_differ :
    ∃ s chain inputs sets, Reachable forkedParams sampleExternals 3 1 s chain ∧
      (chain.map (·.hash)).Nodup ∧ s.latestCoinId ≤ INT_MAX ∧
      (∀ spend ∈ [sampleEntry 5, sampleEntry 1], Spendable s chain spend) ∧
      createJoinSplit forkedParams sampleExternals {} s chain false
        [sampleEntry 5, sampleEntry 1] [] = .ok inputs ∧
      rebuildAnonymitySets forkedParams sampleExternals {} s chain false 5
        (coinGroupIdAndBlockHash inputs) = .ok sets ∧
      inputs.anonymitySetHashes = [[4, 5], [3]] ∧ sets.hashes = [[3], [4, 5]] := by
  have htest : twoGroups.any (fun p => sampleSpendable [sampleEntry 5, sampleEntry 1] p &&
      sampleHashesDiffer p) = true := by
    decide +kernel
  obtain ⟨⟨s, chain⟩, hrun, hp⟩ := (Option.any_eq_true _ _).mp htest
  unfold sampleSpendable sampleHashesDiffer at hp
  simp only [Bool.and_eq_true, decide_eq_true_eq] at hp
  obtain ⟨⟨⟨hnodup, hids⟩, hspend⟩, hp⟩ := hp
  split at hp
  · cases hp
  · next inputs hbuilt =>
    rw [Bool.and_eq_true, decide_eq_true_eq] at hp
    obtain ⟨hhashes, hp⟩ := hp
    split at hp
    · cases hp
    · next sets hsets =>
      exact ⟨s, chain, inputs, sets, reachable_of_sampleRun hrun, hnodup, hids, hspend, hbuilt,
        hsets, hhashes, of_decide_eq_true hp⟩

end Zcoin.Wallet
