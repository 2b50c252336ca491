/-
  Zcoin.Sigma.Blocks — whole blocks entering and leaving the Sigma state.

  The loops over the denominations change one lane each, and the containers do not
  depend on the lanes.  So a block acts lane by lane, and on the containers as one
  list of mints and one list of spends.

    • `addMints_spec` : `AddMintsToStateAndBlockIndex`, with the index it fills;
    • `removeBlock_spec` : `RemoveBlock`;
    • `addBlock_spec` : `AddBlock`.
-/
import Zcoin.Sigma.Groups

namespace Zcoin.Sigma

open Chain Lib Lib.Except Std Lib.OrderedMap Function List CSigmaState

variable {F G : Type}

theorem CoinDenomination.all_nodup : CoinDenomination.all.Nodup := by decide

section Walk

variable {pre post : List CoinDenomination} {d : CoinDenomination}

theorem not_mem_walked {l : List CoinDenomination} (hnodup : l.Nodup)
    (hl : pre ++ d :: post = l) : d ∉ pre := by
  intro hmem
  rw [← hl] at hnodup
  exact (nodup_append.mp hnodup).2.2 d hmem d mem_cons_self rfl

/-- **One more denomination**: nothing changes outside of `d`. -/
theorem walked_snoc {α : Type} {cur cur' f g : CoinDenomination → α}
    (hcur : ∀ d, cur d = if d ∈ pre then f d else g d) (hd : cur' d = f d)
    (hframe : ∀ d', d' ≠ d → cur' d' = cur d') (d' : CoinDenomination) :
    cur' d' = if d' ∈ pre ++ [d] then f d' else g d' := by
  by_cases hne : d' = d
  · rw [hne, hd, if_pos (mem_append_right pre mem_cons_self)]
  · rw [hframe d' hne, hcur]
    simp only [mem_append, mem_singleton, or_iff_left hne]

end Walk

/-! ## §1. The mints of a block. -/

/-- The mints of one denomination. -/
def coinsOf (mints : List (G × CoinDenomination)) (d : CoinDenomination) : List G :=
  (mints.filter (·.2 = d)).map Prod.fst

variable (chain : CChain F G)

/-- The map the index gets for a denomination. -/
def minedMap (mints : List (G × CoinDenomination)) (d : CoinDenomination) :
    ExtTreeMap Int (List G) :=
  if coinsOf mints d = [] then ∅
  else (∅ : ExtTreeMap Int (List G)).insert (nextId chain d (coinsOf mints d).length)
    (coinsOf mints d)

/-- The lane of a denomination after the block. -/
def blockLane (mints : List (G × CoinDenomination)) (d : CoinDenomination) : Lane :=
  if coinsOf mints d = [] then chainLane chain d
  else enteredLane chain d (coinsOf mints d).length

/-- The mints with the group they get, in the order of a walk over the denominations. -/
def mintEntries (order : List CoinDenomination) (chain : CChain F G)
    (mints : List (G × CoinDenomination)) : List (G × CMintedCoinInfo) :=
  order.flatMap fun d => (coinsOf mints d).map fun x =>
    (x, ⟨d, nextId chain d (coinsOf mints d).length, chain.length⟩)

section Enter

variable {chain : CChain F G} {mints : List (G × CoinDenomination)}
  {order : List CoinDenomination}

theorem mintEntries_fst_perm (hnodup : order.Nodup) (hall : ∀ d, d ∈ order) :
    ((mintEntries order chain mints).map Prod.fst).Perm (mints.map Prod.fst) := by
  have hmap : (mintEntries order chain mints).map Prod.fst =
      (order.flatMap fun d => mints.filter fun m => m.2 = d).map Prod.fst := by
    unfold mintEntries coinsOf
    rw [map_flatMap, map_flatMap]
    refine flatMap_congr ?_
    intro d _
    rw [map_map]
    exact map_id _
  rw [hmap]
  exact (flatMap_filter_perm Prod.snd hnodup mints fun m _ => hall m.2).map Prod.fst

/-- The state and the index while the denominations are walked through. -/
structure Entering [DecidableEq G] (s : CSigmaState F G) (index : CBlockIndex F G)
    (chain : CChain F G) (mints : List (G × CoinDenomination))
    (pre : List CoinDenomination) (st : CSigmaState F G × CBlockIndex F G) : Prop where
  lanes : ∀ d, st.1.lane d = if d ∈ pre then blockLane chain mints d else chainLane chain d
  index : st.2 = { index with
    sigmaMintedPubCoins := fun d => if d ∈ pre then minedMap chain mints d else ∅ }
  containers : st.1.containers = (mintEntries pre chain mints).foldl
    (fun c e => c.addMint e.1 e.2) s.containers

variable {index : CBlockIndex F G} {d : CoinDenomination} {s : CSigmaState F G}

theorem Entering.step [DecidableEq G] (hok : ChainOK chain)
    {pre : List CoinDenomination} {st : CSigmaState F G × CBlockIndex F G}
    (h : Entering s index chain mints pre st) (hd : d ∉ pre) :
    ∃ st', addDenomMints chain.length st (d, coinsOf mints d) = .ok st' ∧
      Entering s index chain mints (pre ++ [d]) st' := by
  have hentries : mintEntries (pre ++ [d]) chain mints = mintEntries pre chain mints ++
      (coinsOf mints d).map fun x =>
        (x, ⟨d, nextId chain d (coinsOf mints d).length, chain.length⟩) := by
    unfold mintEntries
    rw [flatMap_append, flatMap_singleton]
  unfold addDenomMints
  by_cases hempty : coinsOf mints d = []
  · have hskip : (coinsOf mints d).isEmpty = true := isEmpty_iff.mpr hempty
    rw [if_pos hskip]
    refine ⟨st, rfl, walked_snoc h.lanes ?_ fun _ _ => rfl, ?_, ?_⟩
    · rw [h.lanes, if_neg hd, blockLane, if_pos hempty]
    · rw [h.index]
      congr 1
      refine funext (walked_snoc (fun _ => rfl) ?_ fun _ _ => rfl)
      rw [if_neg hd, minedMap, if_pos hempty]
    · rw [h.containers, hentries, hempty]
      simp
  · have hcoins : ¬ (coinsOf mints d).isEmpty = true := fun hnil =>
      hempty (isEmpty_iff.mp hnil)
    have hlane : st.1.lane d = chainLane chain d := by rw [h.lanes, if_neg hd]
    obtain ⟨s₁, hassign, hs₁⟩ := assignGroup_spec hok hlane (coinsOf mints d).length
    rw [if_neg hcoins]
    dsimp only
    rw [hassign, ok_bind]
    refine ⟨_, rfl, walked_snoc h.lanes (hs₁.lane.trans (if_neg hempty).symm) hs₁.frame, ?_, ?_⟩
    · show pushMinted st.2 d _ _ = _
      unfold pushMinted
      rw [h.index]
      congr 1
      refine funext (walked_snoc (fun _ => rfl) ?_ fun d' hne => update_of_ne hne _ _)
      rw [update_self, minedMap, if_neg hempty]
      simp [hd]
    · show (coinsOf mints d).foldl _ s₁.containers = _
      rw [hs₁.containers, h.containers, hentries, foldl_append, foldl_map]

variable (mints) in
/-- **`AddMintsToStateAndBlockIndex`** never asserts. -/
theorem addMints_spec [DecidableEq G] (hok : ChainOK chain)
    (hlanes : ∀ d, s.lane d = chainLane chain d) (hnodup : order.Nodup) (hall : ∀ d, d ∈ order)
    (hindex : index.sigmaMintedPubCoins = fun _ => ∅) :
    ∃ s', s.addMintsToStateAndBlockIndex order chain.length index mints =
        .ok (s', { index with sigmaMintedPubCoins := minedMap chain mints }) ∧
      (∀ d, s'.lane d = blockLane chain mints d) ∧
      s'.containers = (mintEntries order chain mints).foldl
        (fun c e => c.addMint e.1 e.2) s.containers := by
  have hstart : Entering s index chain mints [] (s, index) := by
    refine ⟨?_, ?_, rfl⟩
    · intro d
      simpa using hlanes d
    · show index = { index with sigmaMintedPubCoins := fun d => if d ∈ [] then _ else ∅ }
      simp only [List.not_mem_nil, if_false]
      rw [← hindex]
  obtain ⟨⟨s', index'⟩, hrun, hentered⟩ := exists_foldlM_ok (l := order)
    (Entering s index chain mints) (fun pre d post hl st hst =>
      hst.step hok (not_mem_walked hnodup hl)) hstart
  have hindex' : index' = { index with sigmaMintedPubCoins := minedMap chain mints } := by
    rw [show index' = _ from hentered.index]
    congr 1
    funext d
    rw [if_pos (hall d)]
  refine ⟨s', ?_, ?_, hentered.containers⟩
  · unfold addMintsToStateAndBlockIndex
    rw [List.foldlM_map, ← hindex']
    exact hrun
  · intro d
    rw [show s'.lane d = _ from hentered.lanes d, if_pos (hall d)]

variable {b : CBlockIndex F G} (hb : b.sigmaMintedPubCoins = minedMap chain mints)
include hb

theorem entryOf_minedMap (d : CoinDenomination) :
    entryOf b d = if coinsOf mints d = [] then none
      else some (nextId chain d (coinsOf mints d).length, coinsOf mints d) := by
  unfold entryOf
  rw [hb]
  unfold minedMap
  split
  · rw [toList_empty]
    rfl
  · rfl

theorem oneEntry_minedMap :
    OneEntry b where
  toList_eq := by
    intro d
    rw [entryOf_minedMap hb, hb]
    unfold minedMap
    split
    · rw [toList_empty]
      rfl
    · rfl
  nonempty := by
    intro d e hentry
    rw [entryOf_minedMap hb] at hentry
    split at hentry
    · cases hentry
    · rename_i hne
      cases hentry
      exact hne

theorem blockLane_eq (hsize : ¬ Oversized chain d (coinsOf mints d).length) :
    blockLane chain mints d = chainLane (b :: chain) d := by
  have hentry := entryOf_minedMap hb d
  unfold blockLane
  split
  · rename_i hempty
    rw [if_pos hempty] at hentry
    unfold chainLane
    rw [groupOf_cons_none hentry, newest_cons_none hentry]
  · rename_i hne
    rw [if_neg hne] at hentry
    exact enteredLane_eq hentry hsize

end Enter

/-! ## §2. The content of the chain. -/

/-- The mints of a block at a height, in the order of its index. -/
def blockMints (b : CBlockIndex F G) (nHeight : Nat) : List (G × CMintedCoinInfo) :=
  CoinDenomination.all.flatMap fun d => (b.sigmaMintedPubCoins d).toList.flatMap fun e =>
    e.2.map fun x => (x, ⟨d, e.1, nHeight⟩)

def mintsOf : CChain F G → List (G × CMintedCoinInfo)
  | [] => []
  | b :: rest => blockMints b rest.length ++ mintsOf rest

def spendsOf : CChain F G → List (F × CSpendCoinInfo)
  | [] => []
  | b :: rest => b.sigmaSpentSerials ++ spendsOf rest

variable {chain rest : CChain F G} {mints : List (G × CoinDenomination)}
  {b : CBlockIndex F G}

theorem blockMints_minedMap (hb : b.sigmaMintedPubCoins = minedMap chain mints) :
    blockMints b chain.length = mintEntries CoinDenomination.all chain mints := by
  unfold blockMints mintEntries
  refine flatMap_congr ?_
  intro d _
  rw [hb]
  unfold minedMap
  split
  · rename_i hempty
    rw [toList_empty, hempty]
    rfl
  · rw [toList_singleton]
    simp

/-! ## §3. A block leaves. -/

/-- The lane of a denomination after the block `b` on top of `rest` was taken away. -/
def leftLane (b : CBlockIndex F G) (rest : CChain F G) (d : CoinDenomination)
    (lane : Lane) : Lane :=
  match entryOf b d with
  | none => lane
  | some e => rolledLane rest d e.1 lane

variable (s : CSigmaState F G)

/-- The state while the denominations are walked through. -/
structure Leaving (b : CBlockIndex F G) (rest : CChain F G)
    (pre : List CoinDenomination) (cur : CSigmaState F G) : Prop where
  lanes : ∀ d, cur.lane d = if d ∈ pre then leftLane b rest d (s.lane d) else s.lane d
  containers : cur.containers = s.containers

/-- The groups of the block are the ones it has grown. -/
def Grown (b : CBlockIndex F G) (rest : CChain F G) : Prop :=
  ∀ d e, entryOf b d = some e →
    s.coinGroups (d, e.1) = some (grow (groupOf rest d e.1) rest.length e.2.length)

variable {d : CoinDenomination} {pre : List CoinDenomination}

theorem Leaving.step {s cur : CSigmaState F G} (hok : ChainOK rest) (hone : OneEntry b)
    (hgrown : Grown s b rest) (h : Leaving s b rest pre cur) (hd : d ∉ pre) :
    ∃ cur', (b.sigmaMintedPubCoins d).toList.foldlM (removeBlockGroup rest b d) cur =
        .ok cur' ∧ Leaving s b rest (pre ++ [d]) cur' := by
  have hlane : cur.lane d = s.lane d := by rw [h.lanes, if_neg hd]
  rw [hone.toList_eq]
  cases hentry : entryOf b d with
  | none =>
    refine ⟨cur, rfl, walked_snoc h.lanes ?_ fun _ _ => rfl, h.containers⟩
    rw [hlane, leftLane, hentry]
  | some e =>
    have hgroup : cur.coinGroups (d, e.1) =
        some (grow (groupOf rest d e.1) rest.length e.2.length) :=
      (coinGroups_of_lane hlane e.1).trans (hgrown d e hentry)
    obtain ⟨cur', hrun, hrolled⟩ :=
      removeBlockGroup_spec hok (hone.nonempty d e hentry) hgroup b
    refine ⟨cur', ?_, walked_snoc h.lanes ?_ hrolled.frame, hrolled.containers.trans h.containers⟩
    · show (removeBlockGroup rest b d cur e >>= fun s => pure s) = _
      rw [hrun]
      rfl
    · rw [hrolled.lane, hlane, leftLane, hentry]

/-- The first loop of `RemoveBlock`. -/
theorem rollGroups_spec {s : CSigmaState F G} (hok : ChainOK rest) (hone : OneEntry b)
    (hgrown : Grown s b rest) :
    ∃ s', CoinDenomination.all.foldlM (fun s d =>
        (b.sigmaMintedPubCoins d).toList.foldlM (removeBlockGroup rest b d) s) s =
        .ok s' ∧
      (∀ d, s'.lane d = leftLane b rest d (s.lane d)) ∧ s'.containers = s.containers := by
  have hstart : Leaving s b rest [] s := ⟨fun d => by simp, rfl⟩
  obtain ⟨s', hrun, hleft⟩ := exists_foldlM_ok (Leaving s b rest) (fun pre d post hl cur hcur =>
    hcur.step hok hone hgrown (not_mem_walked CoinDenomination.all_nodup hl)) hstart
  refine ⟨s', hrun, ?_, hleft.containers⟩
  intro d
  rw [hleft.lanes, if_pos (CoinDenomination.mem_all d)]

/-- The `roll back mints` loop as one loop over the mints of the block. -/
theorem rollMints_eq [DecidableEq G] (c : Containers F G) (nHeight : Nat) :
    CoinDenomination.all.foldlM (fun c d => (b.sigmaMintedPubCoins d).toList.foldlM (fun c e =>
        e.2.foldlM (removeBlockMint d e.1) c) c) c =
      (blockMints b nHeight).foldlM (fun c e =>
        removeBlockMint e.2.denomination e.2.coinGroupId c e.1) c := by
  unfold blockMints
  rw [foldlM_flatMap]
  congr 1
  funext c d
  rw [foldlM_flatMap]
  congr 1
  funext c e
  rw [foldlM_map]

variable {M : List (G × CMintedCoinInfo)} {S : List (F × CSpendCoinInfo)}

/-- **`RemoveBlock`** of a block whose groups have grown and whose mints and spends are held. -/
theorem removeBlock_spec [DecidableEq F] [DecidableEq G] {s : CSigmaState F G} (hok : ChainOK rest) (hone : OneEntry b)
    (hgrown : Grown s b rest)
    (hholds : Holds s.containers (blockMints b rest.length ++ M) (b.sigmaSpentSerials ++ S)) :
    ∃ s', s.removeBlock rest b = .ok s' ∧ (∀ d, s'.lane d = leftLane b rest d (s.lane d)) ∧
      Holds s'.containers M S := by
  obtain ⟨rolled, hrun, hlanes, hcontainers⟩ := rollGroups_spec hok hone hgrown
  obtain ⟨c, hmints, hc⟩ := hholds.removeMints
  refine ⟨{ rolled with
    containers := b.sigmaSpentSerials.foldl (fun c e => c.removeSpend e.1) c }, ?_, hlanes,
    hc.removeSpends⟩
  unfold removeBlock
  rw [hrun, ok_bind, hcontainers, rollMints_eq _ rest.length, hmints, ok_bind]
  rfl

/-! ## §4. A block is added from the index. -/

variable [DecidableEq G]

/-- One entry of the first loop of `AddBlock`. -/
theorem addBlockGroup_lane {s : CSigmaState F G} {e : Int × List G}
    (hne : e.2 ≠ []) (nHeight : Nat) :
    (s.addBlockGroup nHeight d e).lane d = (update (s.lane d).1 e.1
        (some (grow ((s.lane d).1 e.1) nHeight e.2.length)), some e.1) ∧
      (∀ d', d' ≠ d → (s.addBlockGroup nHeight d e).lane d' = s.lane d') ∧
      (s.addBlockGroup nHeight d e).containers = e.2.foldl
        (fun c coin => c.addMint coin ⟨d, e.1, nHeight⟩) s.containers := by
  have hcoins : ¬ e.2.isEmpty = true := fun hnil => hne (isEmpty_iff.mp hnil)
  unfold addBlockGroup
  rw [if_neg hcoins]
  refine ⟨?_, ?_, rfl⟩
  · simp only [lane, update_pair_self, update_self]
    -- an absent group is read as an empty one
    cases s.coinGroups (d, e.1) <;> rfl
  · intro d' hne
    simp only [lane, update_pair_of_ne _ _ _ hne, update_of_ne hne]

/-- The state while the denominations are walked through. -/
structure Adding (b : CBlockIndex F G) (rest : CChain F G)
    (pre : List CoinDenomination) (cur : CSigmaState F G) : Prop where
  lanes : ∀ d, cur.lane d = chainLane (if d ∈ pre then b :: rest else rest) d
  containers : cur.containers = (pre.flatMap fun d =>
    (b.sigmaMintedPubCoins d).toList.flatMap fun e => e.2.map fun x =>
      (x, (⟨d, e.1, rest.length⟩ : CMintedCoinInfo))).foldl
        (fun c e => c.addMint e.1 e.2) s.containers

theorem Adding.step {s cur : CSigmaState F G} (hone : OneEntry b) (h : Adding s b rest pre cur)
    (hd : d ∉ pre) :
    Adding s b rest (pre ++ [d]) ((b.sigmaMintedPubCoins d).toList.foldl
      (fun s e => s.addBlockGroup rest.length d e) cur) := by
  have hlane : cur.lane d = chainLane rest d := by rw [h.lanes, if_neg hd]
  have hlanes : ∀ d, cur.lane d = if d ∈ pre then chainLane (b :: rest) d else chainLane rest d :=
    fun d => (h.lanes d).trans (apply_ite (chainLane · d) _ _ _)
  cases hentry : entryOf b d with
  | none =>
    have hnil : (b.sigmaMintedPubCoins d).toList = [] := by
      rw [hone.toList_eq, hentry]
      rfl
    refine ⟨?_, ?_⟩
    · intro d'
      rw [hnil, apply_ite (chainLane · d')]
      refine walked_snoc hlanes ?_ (fun _ _ => rfl) d'
      rw [hlane, chainLane, chainLane, groupOf_cons_none hentry, newest_cons_none hentry]
    · rw [hnil, flatMap_append, flatMap_singleton, hnil]
      show cur.containers = _
      rw [flatMap_nil, append_nil]
      exact h.containers
  | some e =>
    have hcons : (b.sigmaMintedPubCoins d).toList = [e] := by
      rw [hone.toList_eq, hentry]
      rfl
    obtain ⟨hadded, hframe, hcontainers⟩ :=
      addBlockGroup_lane (s := cur) (d := d) (hone.nonempty d e hentry) rest.length
    refine ⟨?_, ?_⟩
    · intro d'
      rw [hcons, apply_ite (chainLane · d')]
      refine walked_snoc hlanes ?_ hframe d'
      rw [hadded, hlane, chainLane, chainLane, groupOf_cons_some hentry, newest_cons_some hentry]
    · rw [hcons, flatMap_append, flatMap_singleton, hcons, flatMap_singleton]
      show (cur.addBlockGroup rest.length d e).containers = _
      rw [hcontainers, h.containers, foldl_append, foldl_map]

/-- **`AddBlock`** of a block whose mints and serials are new. -/
theorem addBlock_spec [DecidableEq F] {s : CSigmaState F G} (hone : OneEntry b)
    (hlanes : ∀ d, s.lane d = chainLane rest d) (hholds : Holds s.containers M S)
    (hmints : ((blockMints b rest.length ++ M).map Prod.fst).Nodup)
    (hspends : ((b.sigmaSpentSerials ++ S).map Prod.fst).Nodup) :
    (∀ d, (s.addBlock rest.length b).lane d = chainLane (b :: rest) d) ∧
      Holds (s.addBlock rest.length b).containers (blockMints b rest.length ++ M)
        (b.sigmaSpentSerials ++ S) := by
  have hstart : Adding s b rest [] s := ⟨fun d => by simpa using hlanes d, rfl⟩
  have hwalk : Ensures (fun _ : Abort => False) (Adding s b rest CoinDenomination.all)
      (CoinDenomination.all.foldlM (fun s d => pure ((b.sigmaMintedPubCoins d).toList.foldl
        (fun s e => s.addBlockGroup rest.length d e) s)) s) :=
    Ensures.foldlM_prefix _ (fun _ _ _ hl _ hcur =>
      hcur.step hone (not_mem_walked CoinDenomination.all_nodup hl)) hstart
  rw [List.foldlM_pure] at hwalk
  have hadded : Adding s b rest CoinDenomination.all _ := hwalk
  -- the serials leave the lanes alone
  have hserials : ∀ cur : CSigmaState F G,
      b.sigmaSpentSerials.foldl (fun s e => s.addSpend e.1 e.2) cur = { cur with
        containers := b.sigmaSpentSerials.foldl (fun c e => c.addSpend e.1 e.2) cur.containers } :=
    fun cur => foldl_hom (fun c => { cur with containers := c }) fun _ _ => rfl
  rw [map_append, nodup_append] at hmints hspends
  obtain ⟨hmints, -, hmfresh⟩ := hmints
  obtain ⟨hspends, -, hsfresh⟩ := hspends
  have hheld : Holds ((blockMints b rest.length).foldl (fun c e => c.addMint e.1 e.2)
      s.containers) (blockMints b rest.length ++ M) S := by
    refine hholds.addMints hmints ?_
    intro e he
    rw [hholds.mints.eq_none_iff]
    intro hmem
    exact hmfresh _ (mem_map_of_mem he) _ hmem rfl
  have hunused : ∀ e ∈ b.sigmaSpentSerials, ((blockMints b rest.length).foldl
      (fun c e => c.addMint e.1 e.2) s.containers).usedCoinSerials e.1 = none := by
    intro e he
    rw [hheld.spends.eq_none_iff]
    intro hmem
    exact hsfresh _ (mem_map_of_mem he) _ hmem rfl
  unfold addBlock
  refine ⟨?_, ?_⟩
  · intro d
    rw [hserials]
    exact (hadded.lanes d).trans (by rw [if_pos (CoinDenomination.mem_all d)])
  · rw [hserials, hadded.containers]
    exact Holds.addSpends hheld hspends hunused

end Zcoin.Sigma
