/-
  Zcoin.Sigma.Reorg — connecting a block to the Sigma state, taking it off again, and
  rebuilding the state from the index.

  **MAIN RESULT**: `sigma_state_reverts`.
-/
import Zcoin.Sigma.Blocks

namespace Zcoin.Sigma

open Chain Lib Lib.Except Std Function List

variable {F G : Type} [DecidableEq F] [DecidableEq G]

/-! ## §1. An accepted block. -/

variable {info : CSigmaTxInfo F G} {nHeight : Nat} {s s' : CSigmaState F G}
  {index : CBlockIndex F G} {chain : CChain F G}

omit [DecidableEq G] in
theorem checkSigmaSpendSerial_accepted {serial : F}
    (hacc : checkSigmaSpendSerial s (some info) serial nHeight true = .accepted) :
    s.containers.usedCoinSerials serial = none := by
  unfold checkSigmaSpendSerial at hacc
  split at hacc
  · cases hacc
  · split at hacc
    · cases hacc
    · rename_i hunused
      simp only [Bool.or_true, Bool.and_true, Bool.not_eq_true] at hunused
      exact Option.isNone_iff_eq_none.mp (Option.isSome_eq_false_iff.mp hunused)

omit [DecidableEq G] in
theorem connectSpends_accepted {serials : List (F × CSpendCoinInfo)}
    (hsub : ∀ e ∈ index.sigmaSpentSerials, s.containers.usedCoinSerials e.1 ≠ none)
    (hacc : (connectSpends info nHeight false serials s index).verdict = .accepted) :
    (serials.map Prod.fst).Nodup ∧
      (∀ e ∈ serials, s.containers.usedCoinSerials e.1 = none) ∧
      connectSpends info nHeight false serials s index =
        ⟨.accepted,
          { s with containers := serials.foldl (fun c e => c.addSpend e.1 e.2) s.containers },
          { index with sigmaSpentSerials := index.sigmaSpentSerials ++ serials }⟩ := by
  induction serials generalizing s index with
  | nil => simp [connectSpends]
  | cons e serials ih =>
    unfold connectSpends at hacc ⊢
    cases hcheck : checkSigmaSpendSerial s (some info) e.1 nHeight true with
    | rejected r =>
      rw [hcheck] at hacc
      cases hacc
    | accepted =>
      have hunused := checkSigmaSpendSerial_accepted hcheck
      simp only [hcheck, Bool.false_eq_true, if_false] at hacc ⊢
      obtain ⟨hinsert, hsub₁⟩ := insertSerial_unused hunused hsub
      rw [hinsert] at hacc ⊢
      obtain ⟨hnodup, hrest, hrun⟩ := ih hsub₁ hacc
      obtain ⟨hnodup, hall⟩ := freshSpends_cons.mpr ⟨hunused, hnodup, hrest⟩
      refine ⟨hnodup, hall, ?_⟩
      rw [hrun, append_assoc]
      rfl

variable {params : ConsensusParams G}

theorem connectBlockSigma_entered {env : Externals}
    {pblock : CBlock F G} {r : Connected F G} (hinfo : pblock.sigmaTxInfo = some info)
    (hrun : connectBlockSigma params env s nHeight index pblock false = .ok r)
    (hacc : r.verdict = .accepted) :
    (info.spentSerials.map Prod.fst).Nodup ∧
      (∀ e ∈ info.spentSerials, s.containers.usedCoinSerials e.1 = none) ∧
      CSigmaState.addMintsToStateAndBlockIndex env.denominationOrder
        { s with
          containers := info.spentSerials.foldl (fun c e => c.addSpend e.1 e.2) s.containers }
        nHeight { clearSigma index with sigmaSpentSerials := info.spentSerials } info.mints =
        .ok (r.state, r.index) := by
  rcases connectBlockSigma_cases hinfo hrun with ⟨-, hrej, -⟩ | ⟨-, spent, hspent, hrest⟩
  · exact absurd hacc hrej
  rcases hrest with ⟨hrej, rfl⟩ | ⟨hpass, entered, hmints, rfl⟩
  · exact absurd hacc hrej
  have hsub : ∀ e ∈ (clearSigma index).sigmaSpentSerials,
      s.containers.usedCoinSerials e.1 ≠ none := by
    simp [clearSigma]
  subst hspent
  obtain ⟨hnodup, hunused, hspends⟩ := connectSpends_accepted hsub hpass
  rw [hspends] at hmints
  exact ⟨hnodup, hunused, hmints⟩

/-! ## §2. Runs. -/

/-- **The states of a running node**, each with its active chain.  `Meets` is asked of every
block that is connected.  The walk over a block's denominations may take another order each
time. -/
inductive Reachable (params : ConsensusParams G)
    (Meets : CSigmaState F G → CSigmaTxInfo F G → Prop) :
    CSigmaState F G → CChain F G → Prop
  | init : Reachable params Meets {} []
  | connect (env : Externals) (index : CBlockIndex F G) (pblock : CBlock F G)
      {s : CSigmaState F G} {chain : CChain F G} {info : CSigmaTxInfo F G}
      {r : Connected F G} (hreach : Reachable params Meets s chain)
      (horder : env.denominationOrder.Nodup) (hinfo : pblock.sigmaTxInfo = some info)
      (hmeets : Meets s info)
      (hrun : connectBlockSigma params env s chain.length index pblock false = .ok r)
      (hacc : r.verdict = .accepted) : Reachable params Meets r.state (r.index :: chain)
  | disconnect {s s' : CSigmaState F G} {chain : CChain F G}
      {index : CBlockIndex F G} (hreach : Reachable params Meets s (index :: chain))
      (hrun : s.removeBlock chain index = .ok s') : Reachable params Meets s' chain

/-- **What a block must meet**: its coins are different and none is minted, and the first
mints of a denomination fit into one group. -/
structure Accountable (s : CSigmaState F G) (info : CSigmaTxInfo F G) : Prop where
  nodup : (info.mints.map Prod.fst).Nodup
  unminted : ∀ m ∈ info.mints, s.containers.mintedPubCoins m.1 = none
  fits : ∀ d, s.latestCoinIds d = none →
    (info.mints.filter (·.2 = d)).length ≤ ZC_SPEND_V3_COINSPERID_LIMIT

/-- The same groups, coins, serials, counts and surge flag. -/
structure SameState (s s' : CSigmaState F G) : Prop where
  coinGroups : s'.coinGroups = s.coinGroups
  latestCoinIds : s'.latestCoinIds = s.latestCoinIds
  mintedPubCoins : s'.containers.mintedPubCoins = s.containers.mintedPubCoins
  usedCoinSerials : s'.containers.usedCoinSerials = s.containers.usedCoinSerials
  mintCount : ∀ id d, s'.containers.mintMetaInfo.count id d = s.containers.mintMetaInfo.count id d
  spendCount : ∀ id d,
    s'.containers.spendMetaInfo.count id d = s.containers.spendMetaInfo.count id d
  surgeCondition : s'.containers.surgeCondition = s.containers.surgeCondition

/-! ## §3. The surge flag. -/

omit [DecidableEq F] in
theorem addMints_current {order : List CoinDenomination} {index' : CBlockIndex F G}
    {mints : List (G × CoinDenomination)} (hc : s.containers.Current)
    (hrun : s.addMintsToStateAndBlockIndex order nHeight index mints = .ok (s', index')) :
    s'.containers.Current := by
  refine foldlM_invariant (fun st : CSigmaState F G × CBlockIndex F G => st.1.containers.Current)
    ?_ hc hrun
  intro st entry _ st' hst hstep
  unfold CSigmaState.addDenomMints at hstep
  split at hstep
  · cases hstep
    exact hst
  · obtain ⟨⟨s₁, id⟩, hassign, hstep⟩ := bind_eq_ok.mp hstep
    cases hstep
    have hsame : s₁.containers = st.1.containers := assignGroup_containers hassign
    exact foldlRecOn (motive := Containers.Current) _ _ (hsame ▸ hst) fun _ _ _ _ =>
      Containers.checkSurgeCondition_current _ _ _

omit [DecidableEq F] [DecidableEq G] in
theorem removeBlockGroup_containers {d : CoinDenomination} {e : Int × List G}
    (hrun : CSigmaState.removeBlockGroup chain index d s e = .ok s') :
    s'.containers = s.containers := by
  unfold CSigmaState.removeBlockGroup at hrun
  dsimp only at hrun
  split at hrun
  · cases hrun
    rfl
  · obtain ⟨_, -, hrun⟩ := bind_eq_ok.mp hrun
    split at hrun
    · cases hrun
      rfl
    · obtain ⟨_, -, hrun⟩ := bind_eq_ok.mp hrun
      obtain ⟨_, -, hrun⟩ := bind_eq_ok.mp hrun
      cases hrun
      rfl

/-- What a finished `RemoveBlock` consists of. -/
theorem removeBlock_ok (hrun : s.removeBlock chain index = .ok s') :
    ∃ rolled c, CoinDenomination.all.foldlM (fun s d =>
        (index.sigmaMintedPubCoins d).toList.foldlM (CSigmaState.removeBlockGroup chain index d) s)
        s = .ok rolled ∧ rolled.containers = s.containers ∧
      (blockMints index chain.length).foldlM (fun c e =>
        CSigmaState.removeBlockMint e.2.denomination e.2.coinGroupId c e.1) s.containers = .ok c ∧
      s' = { rolled with
        containers := index.sigmaSpentSerials.foldl (fun c e => c.removeSpend e.1) c } := by
  unfold CSigmaState.removeBlock at hrun
  obtain ⟨rolled, hrolled, hrun⟩ := bind_eq_ok.mp hrun
  obtain ⟨c, hmints, hrun⟩ := bind_eq_ok.mp hrun
  cases hrun
  have hsame : rolled.containers = s.containers := by
    refine foldlM_invariant (fun cur : CSigmaState F G => cur.containers = s.containers) ?_ rfl
      hrolled
    intro cur d _ cur' hcur hinner
    refine foldlM_invariant (fun cur : CSigmaState F G => cur.containers = s.containers) ?_ hcur
      hinner
    intro cur e _ cur' hcur hstep
    exact (removeBlockGroup_containers hstep).trans hcur
  rw [rollMints_eq _ chain.length, hsame] at hmints
  exact ⟨rolled, c, hrolled, hsame, hmints, rfl⟩

theorem removeBlock_current (hc : s.containers.Current)
    (hrun : s.removeBlock chain index = .ok s') : s'.containers.Current := by
  obtain ⟨rolled, c, -, -, hmints, hs'⟩ := removeBlock_ok hrun
  have hrolled : c.Current := by
    refine foldlM_invariant Containers.Current ?_ hc hmints
    intro cur e _ cur' hcur hstep
    obtain ⟨_, -, hstep⟩ := bind_eq_ok.mp hstep
    cases hstep
    exact Containers.removeMint_current hcur e.1
  rw [hs']
  exact foldlRecOn (motive := Containers.Current) _ _ hrolled fun c hc e _ =>
    Containers.removeSpend_current hc e.1

/-- **Run lemma** for the surge flag, whatever the blocks bring. -/
theorem Reachable.current {Meets : CSigmaState F G → CSigmaTxInfo F G → Prop}
    (hreach : Reachable params Meets s chain) : s.containers.Current := by
  induction hreach with
  | init => exact Containers.current_empty
  | connect env index pblock _ _ hinfo _ hrun hacc ih =>
    obtain ⟨-, -, hmints⟩ := connectBlockSigma_entered hinfo hrun hacc
    refine addMints_current ?_ hmints
    exact foldlRecOn (motive := Containers.Current) _ _ ih fun _ _ _ _ =>
      Containers.checkSurgeCondition_current _ _ _
  | disconnect _ hrun ih => exact removeBlock_current ih hrun

/-! ## §4. The state follows the chain. -/

/-- **The state is the one of the chain**: its groups, its coins and its serials. -/
structure Mirrors (s : CSigmaState F G) (chain : CChain F G) : Prop where
  chainOK : ChainOK chain
  lanes : ∀ d, s.lane d = chainLane chain d
  holds : Holds s.containers (mintsOf chain) (spendsOf chain)

section Mirrors

variable {s s' : CSigmaState F G} {chain rest : CChain F G} {b : CBlockIndex F G}
  {params : ConsensusParams G} {env : Externals} {index : CBlockIndex F G} {pblock : CBlock F G}
  {info : CSigmaTxInfo F G} {r : Connected F G}

omit [DecidableEq F] [DecidableEq G] in
theorem mirrors_empty : Mirrors ({} : CSigmaState F G) [] where
  chainOK := .nil
  lanes := fun _ => rfl
  holds := holds_empty

omit [DecidableEq F] [DecidableEq G] in
theorem Mirrors.same (h : Mirrors s chain) (h' : Mirrors s' chain) : SameState s s' := by
  have hlane : ∀ d, s'.lane d = s.lane d := fun d => (h'.lanes d).trans (h.lanes d).symm
  obtain ⟨hminted, hmints⟩ := h'.holds.mints.unique h.holds.mints
  obtain ⟨hused, hspends⟩ := h'.holds.spends.unique h.holds.spends
  have hcounts : ∀ id d, s'.containers.mintMetaInfo.count id d =
        s.containers.mintMetaInfo.count id d ∧
      s'.containers.spendMetaInfo.count id d = s.containers.spendMetaInfo.count id d :=
    fun id d => ⟨congrFun hmints (id, d), congrFun hspends (id, d)⟩
  refine ⟨?_, ?_, hminted, hused, fun id d => (hcounts id d).1, fun id d => (hcounts id d).2, ?_⟩
  · funext ⟨d, id⟩
    exact coinGroups_of_lane (hlane d) id
  · funext d
    exact congrArg Prod.snd (hlane d)
  · -- both flags are read off the counts
    have hs := h.holds.current
    have hs' := h'.holds.current
    unfold Containers.Current at hs hs'
    simp only [(hcounts _ _).1, (hcounts _ _).2] at hs'
    exact Bool.eq_iff_iff.mpr (hs'.trans hs.symm)

/-- What an accepted block leaves in the state and the index. -/
structure Entered (s : CSigmaState F G) (chain : CChain F G) (env : Externals)
    (info : CSigmaTxInfo F G) (r : Connected F G) : Prop where
  minted : r.index.sigmaMintedPubCoins = minedMap chain info.mints
  spent : r.index.sigmaSpentSerials = info.spentSerials
  lanes : ∀ d, r.state.lane d = blockLane chain info.mints d
  serials : (info.spentSerials.map Prod.fst).Nodup
  unused : ∀ e ∈ info.spentSerials, s.containers.usedCoinSerials e.1 = none
  containers : r.state.containers = (mintEntries env.denominationOrder chain info.mints).foldl
    (fun c e => c.addMint e.1 e.2)
    (info.spentSerials.foldl (fun c e => c.addSpend e.1 e.2) s.containers)

theorem Mirrors.entered (h : Mirrors s chain) (horder : env.denominationOrder.Nodup)
    (hinfo : pblock.sigmaTxInfo = some info)
    (hrun : connectBlockSigma params env s chain.length index pblock false = .ok r)
    (hacc : r.verdict = .accepted) : Entered s chain env info r := by
  obtain ⟨hserials, hunused, hmints⟩ := connectBlockSigma_entered hinfo hrun hacc
  have hindex : ({ clearSigma index with sigmaSpentSerials := info.spentSerials } :
      CBlockIndex F G).sigmaMintedPubCoins = fun _ => ∅ := rfl
  obtain ⟨s₁, hadd, hlanes, hcontainers⟩ := addMints_spec
    (s := { s with
      containers := info.spentSerials.foldl (fun c e => c.addSpend e.1 e.2) s.containers })
    info.mints h.chainOK h.lanes horder env.mem_denominationOrder hindex
  obtain ⟨verdict, state, index⟩ := r
  cases hadd.symm.trans hmints
  exact ⟨rfl, rfl, hlanes, hserials, hunused, hcontainers⟩

omit [DecidableEq F] [DecidableEq G] in
theorem Mirrors.oversized_iff (h : Mirrors s chain) (mints : List (G × CoinDenomination))
    (d : CoinDenomination) : Oversized chain d (coinsOf mints d).length ↔
      s.latestCoinIds d = none ∧
        ZC_SPEND_V3_COINSPERID_LIMIT < (mints.filter (·.2 = d)).length := by
  have hlatest : s.latestCoinIds d = newest chain d := congrArg Prod.snd (h.lanes d)
  have hlen : (coinsOf mints d).length = (mints.filter (·.2 = d)).length := length_map _
  unfold Oversized
  rw [hlatest, hlen]

variable (h : Mirrors s chain) (horder : env.denominationOrder.Nodup)
  (hent : Entered s chain env info r)
include h horder hent

theorem Mirrors.entered_holds (hnodup : (info.mints.map Prod.fst).Nodup)
    (hunminted : ∀ m ∈ info.mints, s.containers.mintedPubCoins m.1 = none) :
    Holds r.state.containers (mintsOf (r.index :: chain)) (spendsOf (r.index :: chain)) := by
  have hcoins : ((mintEntries env.denominationOrder chain info.mints).map Prod.fst).Perm
      (info.mints.map Prod.fst) := mintEntries_fst_perm horder env.mem_denominationOrder
  have hspends := h.holds.addSpends hent.serials hent.unused
  have hmints := hspends.addMints (hcoins.nodup_iff.mpr hnodup) (by
    intro e he
    obtain ⟨m, hm, heq⟩ := mem_map.mp (hcoins.mem_iff.mp (mem_map_of_mem he))
    rw [hspends.mints.eq_none_iff, ← h.holds.mints.eq_none_iff, ← heq]
    exact hunminted m hm)
  rw [← hent.containers, ← hent.spent] at hmints
  -- the index lists the mints in the order of its keys
  have hperm : env.denominationOrder.Perm CoinDenomination.all :=
    (perm_ext_iff_of_nodup horder CoinDenomination.all_nodup).mpr fun d =>
      iff_of_true (env.mem_denominationOrder d) (CoinDenomination.mem_all d)
  refine hmints.perm ?_ (List.Perm.refl _)
  show List.Perm _ (blockMints r.index chain.length ++ mintsOf chain)
  rw [blockMints_minedMap hent.minted]
  exact (hperm.flatMap_right _).append_right _

/-- **Connect step.** -/
theorem Mirrors.connect (hacct : Accountable s info) : Mirrors r.state (r.index :: chain) := by
  have hsize : ∀ d, ¬ Oversized chain d (coinsOf info.mints d).length := by
    intro d hover
    obtain ⟨hnone, hbig⟩ := (h.oversized_iff info.mints d).mp hover
    exact Nat.not_lt.mpr (hacct.fits d hnone) hbig
  refine ⟨.cons h.chainOK (oneEntry_minedMap hent.minted) ?_, ?_,
    h.entered_holds horder hent hacct.nodup hacct.unminted⟩
  · intro d e hentry
    rw [entryOf_minedMap hent.minted] at hentry
    split at hentry
    · cases hentry
    · cases hentry
      exact follows_nextId (hsize d)
  · intro d
    rw [hent.lanes, blockLane_eq hent.minted (hsize d)]

omit h horder hent

/-- **Disconnect step**: `RemoveBlock` takes the tip off and does not assert. -/
theorem Mirrors.disconnect (h : Mirrors s (b :: rest)) :
    ∃ s', s.removeBlock rest b = .ok s' ∧ Mirrors s' rest := by
  obtain ⟨hok, hlanes, hholds⟩ := h
  cases hok with
  | cons hrest hone hfollows =>
    have hgrown : Grown s b rest := by
      intro d e hentry
      rw [coinGroups_of_lane (hlanes d), chainLane, groupOf_cons_some hentry]
      exact update_self _ _ _
    obtain ⟨s', hrun, hleft, hholds'⟩ := removeBlock_spec hrest hone hgrown hholds
    refine ⟨s', hrun, hrest, ?_, hholds'⟩
    intro d
    rw [hleft, hlanes]
    unfold leftLane
    cases hentry : entryOf b d with
    | none =>
      unfold chainLane
      rw [groupOf_cons_none hentry, newest_cons_none hentry]
    | some e => exact rolledLane_chainLane hrest hentry (hfollows d e hentry)

/-- **`BuildSigmaStateFromIndex`** on an empty state. -/
theorem mirrors_build (hok : ChainOK chain) (hmints : ((mintsOf chain).map Prod.fst).Nodup)
    (hspends : ((spendsOf chain).map Prod.fst).Nodup) :
    Mirrors (buildSigmaStateFromIndex ({} : CSigmaState F G) chain) chain := by
  induction hok with
  | nil => exact mirrors_empty
  | @cons b rest hrest hone hfollows ih =>
    have hsub : ((mintsOf rest).map Prod.fst).Nodup ∧ ((spendsOf rest).map Prod.fst).Nodup := by
      unfold mintsOf at hmints
      unfold spendsOf at hspends
      rw [map_append, nodup_append] at hmints hspends
      exact ⟨hmints.2.1, hspends.2.1⟩
    have hold := ih hsub.1 hsub.2
    obtain ⟨hlanes, hholds⟩ := addBlock_spec hone hold.lanes hold.holds hmints hspends
    exact ⟨.cons hrest hone hfollows, hlanes, hholds⟩

theorem Mirrors.build (h : Mirrors s chain) :
    Mirrors (buildSigmaStateFromIndex s.reset chain) chain :=
  mirrors_build h.chainOK h.holds.mints.nodup h.holds.spends.nodup

/-- **Run lemma**: with accountable blocks the state follows the chain. -/
theorem Reachable.mirrors (hreach : Reachable params Accountable s chain) : Mirrors s chain := by
  induction hreach with
  | init => exact mirrors_empty
  | connect env index pblock _ horder hinfo hmeets hrun hacc ih =>
    exact ih.connect horder (ih.entered horder hinfo hrun hacc) hmeets
  | disconnect _ hrun ih =>
    obtain ⟨s₁, hrun₁, hs₁⟩ := ih.disconnect
    rw [hrun₁] at hrun
    cases hrun
    exact hs₁

/-! ## §5. What a restored state shows of the block. -/

theorem Entered.grown (hent : Entered s chain env info r) : Grown r.state r.index chain := by
  intro d e hentry
  rw [entryOf_minedMap hent.minted] at hentry
  split at hentry
  · cases hentry
  · rename_i hne
    cases hentry
    rw [coinGroups_of_lane (hent.lanes d), blockLane, if_neg hne]
    exact update_self _ _ _

variable {d : CoinDenomination}

omit [DecidableEq F] [DecidableEq G] in
/-- Oversized first mints go to group 2 and leave group 1 empty. -/
theorem enteredLane_oversized {n : Nat} (hover : Oversized chain d n) :
    nextId chain d n = 2 ∧ (enteredLane chain d n).1 1 = some {} := by
  have hnext : nextId chain d n = 2 := by
    unfold nextId
    rw [hover.1]
    exact if_neg (Nat.not_le.mpr hover.2)
  refine ⟨hnext, ?_⟩
  unfold enteredLane
  rw [if_pos hover, hnext]
  show update (update (groupOf chain d) 1 (some {})) 2
    (some (grow (groupOf chain d 2) chain.length n)) 1 = _
  rw [update_of_ne (by decide), update_self]

/-- **`RemoveBlock` does not know of the empty group.** -/
theorem Entered.left_behind (hent : Entered s chain env info r) (hok : ChainOK chain)
    (hover : Oversized chain d (coinsOf info.mints d).length)
    (hrun : r.state.removeBlock chain r.index = .ok s') : s'.coinGroups (d, 1) = some {} := by
  obtain ⟨rolled, c, hrolled, -, -, rfl⟩ := removeBlock_ok hrun
  obtain ⟨s₁, hroll, hlanes, -⟩ :=
    rollGroups_spec hok (oneEntry_minedMap hent.minted) hent.grown
  rw [hroll] at hrolled
  cases hrolled
  have hne : coinsOf info.mints d ≠ [] := by
    intro hnil
    have hbig := hover.2
    rw [hnil] at hbig
    exact absurd hbig (Nat.not_lt_zero _)
  obtain ⟨hnext, hempty⟩ := enteredLane_oversized hover
  have hentry := entryOf_minedMap hent.minted d
  rw [if_neg hne, hnext] at hentry
  show rolled.coinGroups (d, 1) = _
  rw [coinGroups_of_lane (hlanes d), hent.lanes, leftLane, hentry]
  -- only group 2 is touched
  show update (blockLane chain info.mints d).1 2 (groupOf chain d 2) 1 = _
  rw [update_of_ne (by decide), blockLane, if_neg hne]
  exact hempty

/-- A finished `RemoveBlock` has found the coins different, and has taken them all out. -/
theorem Entered.coins_gone (hent : Entered s chain env info r)
    (hrun : r.state.removeBlock chain r.index = .ok s') :
    (info.mints.map Prod.fst).Nodup ∧
      ∀ m ∈ info.mints, s'.containers.mintedPubCoins m.1 = none := by
  obtain ⟨rolled, c, -, -, hmints, rfl⟩ := removeBlock_ok hrun
  obtain ⟨hnodup, hgone⟩ := removeMints_ok hmints
  have hcoins : ((blockMints r.index chain.length).map Prod.fst).Perm
      (info.mints.map Prod.fst) := by
    rw [blockMints_minedMap hent.minted]
    exact mintEntries_fst_perm CoinDenomination.all_nodup CoinDenomination.mem_all
  refine ⟨hcoins.nodup_iff.mp hnodup, ?_⟩
  intro m hm
  obtain ⟨e, he, heq⟩ := mem_map.mp (hcoins.mem_iff.mpr (mem_map_of_mem hm))
  have hspends : (r.index.sigmaSpentSerials.foldl (fun c e => c.removeSpend e.1) c).mintedPubCoins =
      c.mintedPubCoins := by
    refine foldlRecOn (motive := fun (cur : Containers F G) => cur.mintedPubCoins = _) _ _ rfl
      fun cur hcur e _ => ?_
    unfold Containers.removeSpend
    split <;> exact hcur
  show (r.index.sigmaSpentSerials.foldl (fun c e => c.removeSpend e.1) c).mintedPubCoins m.1 = _
  rw [hspends, ← heq]
  exact hgone e he

/-- **`RemoveBlock` undoes a block exactly when the block is accountable.** -/
theorem Mirrors.reverts_iff (h : Mirrors s chain) (horder : env.denominationOrder.Nodup)
    (hent : Entered s chain env info r) :
    (∃ s', r.state.removeBlock chain r.index = .ok s' ∧ SameState s s') ↔ Accountable s info := by
  constructor
  · rintro ⟨s', hrun, hsame⟩
    obtain ⟨hnodup, hgone⟩ := hent.coins_gone hrun
    refine ⟨hnodup, ?_, ?_⟩
    · intro m hm
      rw [← hsame.mintedPubCoins]
      exact hgone m hm
    · intro d hnone
      by_contra hbig
      have hover := (h.oversized_iff info.mints d).mpr ⟨hnone, Nat.lt_of_not_le hbig⟩
      have hleft := hent.left_behind h.chainOK hover hrun
      rw [hsame.coinGroups, coinGroups_of_lane (h.lanes d)] at hleft
      cases (groupOf_eq_none_of_newest h.chainOK hover.1 1).symm.trans hleft
  · intro hacct
    obtain ⟨s', hrun, hs'⟩ := (h.connect horder hent hacct).disconnect
    exact ⟨s', hrun, h.same hs'⟩

end Mirrors

/-! ## §6. The result. -/

/-- **The surge flag is right in every reachable state; accountable blocks are undone, and
rebuilt, exactly.**  The first part asks nothing of the blocks.  In the second part every block
of the run is accountable, and `RemoveBlock` undoes the next one if and only if it is, too. -/
theorem sigma_state_reverts (params : ConsensusParams G) :
    (∀ (s : CSigmaState F G) (chain : CChain F G),
      Reachable params (fun _ _ => True) s chain →
        (s.containers.surgeCondition = true ↔ ∃ id d,
          s.containers.mintMetaInfo.count id d < s.containers.spendMetaInfo.count id d)) ∧
    ∀ (s : CSigmaState F G) (chain : CChain F G),
      Reachable params Accountable s chain →
        SameState s (buildSigmaStateFromIndex s.reset chain) ∧
        ∀ (env : Externals) (index : CBlockIndex F G) (pblock : CBlock F G)
          (info : CSigmaTxInfo F G) (r : Connected F G), env.denominationOrder.Nodup →
          pblock.sigmaTxInfo = some info →
          connectBlockSigma params env s chain.length index pblock false = .ok r →
          r.verdict = .accepted →
          ((∃ s', r.state.removeBlock chain r.index = .ok s' ∧ SameState s s') ↔
            Accountable s info) ∧
          (Accountable s info →
            SameState r.state (buildSigmaStateFromIndex r.state.reset (r.index :: chain))) := by
  refine ⟨?_, ?_⟩
  · intro s chain hreach
    exact hreach.current
  · intro s chain hreach
    have h := hreach.mirrors
    refine ⟨h.same h.build, ?_⟩
    intro env index pblock info r horder hinfo hrun hacc
    have hent := h.entered horder hinfo hrun hacc
    refine ⟨h.reverts_iff horder hent, ?_⟩
    intro hacct
    have hnext := h.connect horder hent hacct
    exact hnext.same hnext.build

/-- Rules for concrete runs. -/
def sampleParams : ConsensusParams Nat where
  nLelantusStartBlock := 100
  nLelantusFixesStartBlock := 200
  lelantusBlacklist := fun _ => false
  sigmaBlacklist := fun _ => false
  nStartSigmaBlacklist := 100
  nMaxSigmaInputPerBlock := 10
  nMaxValueSigmaSpendPerBlock := 10
  nMaxSigmaInputPerTransaction := 10
  nMaxValueSigmaSpendPerTransaction := 10
  nMaxLelantusInputPerBlock := 10
  nMaxValueLelantusSpendPerBlock := 10
  nMaxLelantusInputPerTransaction := 10
  nMaxValueLelantusSpendPerTransaction := 10
  nMaxValueLelantusMint := 10

/-- No spend is parsed. -/
def sampleExternals : Externals where
  readCoinSpend := fun _ => .error .iosFailure
  denominationOrder := CoinDenomination.all
  mem_denominationOrder := CoinDenomination.mem_all

def sampleInfo (mints : List (Nat × CoinDenomination)) (serials : List (Nat × CSpendCoinInfo)) :
    CSigmaTxInfo Nat Nat :=
  { mints := mints, spentSerials := serials, fInfoIsComplete := true }

/-- A block with this information connected. -/
def sampleConnect (s : CSigmaState Nat Nat) (nHeight : Nat) (info : CSigmaTxInfo Nat Nat) :
    Except Abort (Connected Nat Nat) :=
  connectBlockSigma sampleParams sampleExternals s nHeight { hash := nHeight }
    { vtx := [], sigmaTxInfo := some info } false

/-- A coin is minted, then spent in a block that mints another one.  The second block is
undone. -/
theorem sigma_state_reverts_spent :
    ∃ (r₁ r₂ : Connected Nat Nat),
      sampleConnect {} 0 (sampleInfo [(5, .SIGMA_DENOM_1)] []) = .ok r₁ ∧
      sampleConnect r₁.state 1 (sampleInfo [(6, .SIGMA_DENOM_1)] [(7, ⟨.SIGMA_DENOM_1, 1⟩)]) =
        .ok r₂ ∧
      (r₂.state.containers.usedCoinSerials 7).isSome = true ∧
      (∃ s', r₂.state.removeBlock [r₁.index] r₂.index = .ok s' ∧ SameState r₁.state s') ∧
      SameState r₂.state (buildSigmaStateFromIndex r₂.state.reset [r₂.index, r₁.index]) := by
  obtain ⟨r₁, hrun₁, hacc₁, hnew, r₂, hrun₂, hacc₂, hused⟩ : ∃ r₁,
      sampleConnect {} 0 (sampleInfo [(5, .SIGMA_DENOM_1)] []) = .ok r₁ ∧
      r₁.verdict = .accepted ∧ r₁.state.containers.mintedPubCoins 6 = none ∧
      ∃ r₂, sampleConnect r₁.state 1 (sampleInfo [(6, .SIGMA_DENOM_1)]
          [(7, ⟨.SIGMA_DENOM_1, 1⟩)]) = .ok r₂ ∧
        r₂.verdict = .accepted ∧ (r₂.state.containers.usedCoinSerials 7).isSome = true := by
    decide +kernel
  have hacct : ∀ (s : CSigmaState Nat Nat) (coin : Nat) (serials : List (Nat × CSpendCoinInfo)),
      s.containers.mintedPubCoins coin = none →
      Accountable s (sampleInfo [(coin, .SIGMA_DENOM_1)] serials) := by
    intro s coin serials hnone
    refine ⟨List.nodup_singleton _, ?_, ?_⟩
    · intro m hm
      rw [List.mem_singleton.mp hm]
      exact hnone
    · intro d _
      have hone : (sampleInfo [(coin, .SIGMA_DENOM_1)] serials).mints.length = 1 := rfl
      refine Nat.le_trans (List.length_filter_le _ _) ?_
      rw [hone]
      decide
  have hreach : Reachable sampleParams Accountable r₁.state [r₁.index] :=
    .connect sampleExternals _ _ .init CoinDenomination.all_nodup rfl (hacct _ _ _ rfl) hrun₁ hacc₁
  obtain ⟨-, hnext⟩ := (sigma_state_reverts sampleParams).2 _ _ hreach
  obtain ⟨hiff, hbuild⟩ :=
    hnext sampleExternals _ _ _ _ CoinDenomination.all_nodup rfl hrun₂ hacc₂
  have hsecond := hacct r₁.state 6 [(7, ⟨.SIGMA_DENOM_1, 1⟩)] hnew
  exact ⟨r₁, r₂, hrun₁, hrun₂, hused, hiff.mpr hsecond, hbuild hsecond⟩

theorem Mirrors.sampleConnect {s : CSigmaState Nat Nat} {chain : List (CBlockIndex Nat Nat)}
    (h : Mirrors s chain) (mints : List (Nat × CoinDenomination)) :
    ∃ r, sampleConnect s chain.length (sampleInfo mints []) = .ok r ∧ r.verdict = .accepted := by
  have hindex : (clearSigma { hash := chain.length } : CBlockIndex Nat Nat).sigmaMintedPubCoins =
      fun _ => ∅ := rfl
  obtain ⟨s', hadd, -, -⟩ := addMints_spec mints h.chainOK h.lanes
    CoinDenomination.all_nodup CoinDenomination.mem_all hindex
  refine ⟨⟨.accepted, s', { clearSigma { hash := chain.length } with
    sigmaMintedPubCoins := minedMap chain mints }⟩, ?_, rfl⟩
  show (CSigmaState.addMintsToStateAndBlockIndex CoinDenomination.all s chain.length
    (clearSigma { hash := chain.length }) mints >>= fun entered =>
      pure (Connected.mk .accepted entered.1 entered.2)) = _
  rw [hadd]
  rfl

/-- The coins of a block of `n` mints of one denomination. -/
theorem coinsOf_range (n : Nat) (d : CoinDenomination) :
    coinsOf ((range n).map fun x => (x, d)) d = range n := by
  unfold coinsOf
  rw [filter_eq_self.mpr (by simp), map_map]
  exact map_id _

/-- A first block of more mints than a group holds.  Its coins go to group 2; the empty group 1
stays after `RemoveBlock`, and `AddBlock` does not make one. -/
theorem oversized_not_reverted (d : CoinDenomination) {n : Nat}
    (hbig : ZC_SPEND_V3_COINSPERID_LIMIT < n) :
    ∃ (r : Connected Nat Nat) (s' : CSigmaState Nat Nat),
      sampleConnect {} 0 (sampleInfo ((range n).map fun x => (x, d)) []) = .ok r ∧
      r.verdict = .accepted ∧ r.state.removeBlock [] r.index = .ok s' ∧
      s'.coinGroups (d, 1) = some {} ∧ r.state.coinGroups (d, 1) = some {} ∧
      (buildSigmaStateFromIndex r.state.reset [r.index]).coinGroups (d, 1) = none := by
  obtain ⟨r, hrun, hacc⟩ := mirrors_empty.sampleConnect ((range n).map fun x => (x, d))
  have hent : Entered _ _ _ (sampleInfo ((range n).map fun x => (x, d)) []) r :=
    mirrors_empty.entered CoinDenomination.all_nodup rfl hrun hacc
  have hcoins : coinsOf (sampleInfo ((range n).map fun x => (x, d)) []).mints d =
      range n := coinsOf_range n d
  have hne : range n ≠ [] := by
    rw [Ne, range_eq_nil]
    omega
  have hover : Oversized ([] : List (CBlockIndex Nat Nat)) d n := ⟨rfl, hbig⟩
  obtain ⟨hnext, hempty⟩ := enteredLane_oversized hover
  have hholds := mirrors_empty.entered_holds CoinDenomination.all_nodup hent (by
    show (((range n).map fun x => (x, d)).map Prod.fst).Nodup
    rw [map_map]
    exact (map_id (range n)).symm ▸ nodup_range) fun _ _ => rfl
  obtain ⟨s', hremove, -, -⟩ :=
    removeBlock_spec .nil (oneEntry_minedMap hent.minted) hent.grown hholds
  obtain ⟨hbuilt, -⟩ := addBlock_spec (oneEntry_minedMap hent.minted) mirrors_empty.lanes
    holds_empty hholds.mints.nodup hholds.spends.nodup
  refine ⟨r, s', hrun, hacc, hremove, hent.left_behind .nil ?_ hremove, ?_, ?_⟩
  · rw [hcoins, length_range]
    exact hover
  · rw [coinGroups_of_lane (hent.lanes d), blockLane, hcoins, if_neg hne, length_range]
    exact hempty
  · have hentry := entryOf_minedMap hent.minted d
    rw [hcoins, if_neg hne, length_range, hnext] at hentry
    refine (coinGroups_of_lane (hbuilt d) 1).trans ?_
    show groupOf [r.index] d 1 = none
    rw [groupOf_cons_some hentry]
    exact update_of_ne (show (1 : Int) ≠ 2 by decide) _ _

/-- **A first block of 16001 mints is neither undone nor rebuilt.** -/
theorem sigma_state_not_reverted :
    ∃ (r : Connected Nat Nat) (s' : CSigmaState Nat Nat),
      Reachable sampleParams (fun _ _ => True) ({} : CSigmaState Nat Nat) [] ∧
      sampleConnect {} 0 (sampleInfo ((List.range 16001).map fun x => (x, .SIGMA_DENOM_1)) []) =
        .ok r ∧ r.verdict = .accepted ∧
      r.state.removeBlock [] r.index = .ok s' ∧
      ¬ SameState {} s' ∧
      ¬ SameState r.state (buildSigmaStateFromIndex r.state.reset [r.index]) := by
  obtain ⟨r, s', hrun, hacc, hremove, hleft, hgroup, hbuilt⟩ :=
    oversized_not_reverted .SIGMA_DENOM_1 (show ZC_SPEND_V3_COINSPERID_LIMIT < 16001 by decide)
  refine ⟨r, s', .init, hrun, hacc, hremove, ?_, ?_⟩
  · intro hsame
    rw [hsame.coinGroups] at hleft
    cases hleft
  · intro hsame
    rw [hsame.coinGroups, hgroup] at hbuilt
    cases hbuilt

end Zcoin.Sigma
