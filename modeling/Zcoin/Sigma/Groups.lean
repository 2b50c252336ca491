/-
  Zcoin.Sigma.Groups — coin groups against the chain.

  Each block holds the coins of one denomination under one group id.  The groups
  and the latest id of a denomination, its LANE, are read off the chain; entering
  and leaving blocks change one lane at a time.
-/
import Zcoin.Sigma.Ledger

namespace Zcoin.Sigma

open Chain Lib Std Function List Option Nat CSigmaState

variable {F G : Type}

/-! ## §1. Lanes. -/

/-- The groups and the latest id of one denomination. -/
abbrev Lane := (Int → Option SigmaCoinGroupInfo) × Option Int

def CSigmaState.lane (s : CSigmaState F G) (d : CoinDenomination) : Lane :=
  (fun id => s.coinGroups (d, id), s.latestCoinIds d)

theorem coinGroups_of_lane {s : CSigmaState F G} {d : CoinDenomination} {l : Lane}
    (h : s.lane d = l) (id : Int) : s.coinGroups (d, id) = l.1 id :=
  congrFun (congrArg Prod.fst h) id

/-- The one group a block holds coins of the denomination under. -/
def entryOf (b : CBlockIndex F G) (d : CoinDenomination) : Option (Int × List G) :=
  (b.sigmaMintedPubCoins d).toList.head?

/-- A block as `AddMintsToStateAndBlockIndex` leaves it. -/
structure OneEntry (b : CBlockIndex F G) : Prop where
  toList_eq : ∀ d, (b.sigmaMintedPubCoins d).toList = (entryOf b d).toList
  nonempty : ∀ d e, entryOf b d = some e → e.2 ≠ []

/-- A group, possibly new, with `n` more coins at a height. -/
def grow (g : Option SigmaCoinGroupInfo) (nHeight n : Nat) : SigmaCoinGroupInfo where
  firstBlock := some ((g.bind (·.firstBlock)).getD nHeight)
  lastBlock := some nHeight
  nCoins := (g.map (·.nCoins)).getD 0 + n

/-- **The group as the chain has it.** -/
def groupOf : CChain F G → CoinDenomination → Int → Option SigmaCoinGroupInfo
  | [], _, _ => none
  | b :: rest, d, id =>
    match entryOf b d with
    | none => groupOf rest d id
    | some e =>
      if id = e.1 then some (grow (groupOf rest d id) rest.length e.2.length)
      else groupOf rest d id

/-- The group of the newest coins. -/
def newest : CChain F G → CoinDenomination → Option Int
  | [], _ => none
  | b :: rest, d =>
    match entryOf b d with
    | none => newest rest d
    | some e => some e.1

variable (chain : CChain F G)

def chainLane (d : CoinDenomination) : Lane :=
  (groupOf chain d, newest chain d)

/-- The ids a block may use: the newest group, the next one, or the first. -/
def Follows (d : CoinDenomination) (id : Int) : Prop :=
  newest chain d = some id ∨ newest chain d = some (id - 1) ∨ newest chain d = none ∧ id = 1

/-- Chains of blocks with one entry a denomination, numbered without gaps. -/
inductive ChainOK : CChain F G → Prop
  | nil : ChainOK []
  | cons {b : CBlockIndex F G} {rest : CChain F G} (hrest : ChainOK rest)
      (hone : OneEntry b) (hfollows : ∀ d e, entryOf b d = some e → Follows rest d e.1) :
      ChainOK (b :: rest)

theorem grow_none (nHeight n : Nat) : grow none nHeight n = ⟨some nHeight, some nHeight, n⟩ := by
  show SigmaCoinGroupInfo.mk _ _ (0 + n) = _
  rw [zero_add]
  rfl

/-! ## §2. Facts about the chain. -/

section Facts

variable {chain rest : CChain F G} {b : CBlockIndex F G} {d : CoinDenomination}
  {id L : Int} {e : Int × List G} {g : SigmaCoinGroupInfo}

theorem groupOf_cons_none (hentry : entryOf b d = none) :
    groupOf (b :: rest) d = groupOf rest d := by
  funext id
  show (match entryOf b d with | none => _ | some e => _) = _
  rw [hentry]

theorem groupOf_cons_some (hentry : entryOf b d = some e) :
    groupOf (b :: rest) d = update (groupOf rest d) e.1
      (some (grow (groupOf rest d e.1) rest.length e.2.length)) := by
  funext id
  show (match entryOf b d with | none => _ | some e => _) = _
  rw [hentry, update_apply]
  by_cases hid : id = e.1
  · subst hid
    rfl
  · simp only [if_neg hid]

theorem newest_cons_none (hentry : entryOf b d = none) : newest (b :: rest) d = newest rest d := by
  show (match entryOf b d with | none => _ | some e => _) = _
  rw [hentry]

theorem newest_cons_some (hentry : entryOf b d = some e) : newest (b :: rest) d = some e.1 := by
  show (match entryOf b d with | none => _ | some e => _) = _
  rw [hentry]

theorem OneEntry.getD (hone : OneEntry b) (d : CoinDenomination) (id : Int) :
    (b.sigmaMintedPubCoins d).getD id [] =
      match entryOf b d with
      | none => []
      | some e => if id = e.1 then e.2 else [] := by
  have hmem : ∀ coins, (b.sigmaMintedPubCoins d)[id]? = some coins ↔
      entryOf b d = some (id, coins) := by
    intro coins
    rw [← ExtTreeMap.mem_toList_iff_getElem?_eq_some, hone.toList_eq, mem_toList]
  rw [ExtTreeMap.getD_eq_getD_getElem?]
  cases hget : (b.sigmaMintedPubCoins d)[id]? with
  | some coins =>
    rw [(hmem coins).mp hget]
    simp
  | none =>
    cases hentry : entryOf b d with
    | none => rfl
    | some e =>
      have hid : ¬ id = e.1 := by
        intro heq
        rw [(hmem e.2).mpr (by rw [hentry, heq])] at hget
        cases hget
      simp [hid]

variable (hok : ChainOK chain)
include hok

theorem groupOf_bounds (hg : groupOf chain d id = some g) :
    0 < g.nCoins ∧ ∃ f l, g.firstBlock = some f ∧ g.lastBlock = some l ∧ f ≤ l ∧
      l < chain.length := by
  induction hok generalizing g with
  | nil => cases hg
  | @cons b rest hrest hone hfollows ih =>
    have hlonger : rest.length < (b :: rest).length := by simp
    cases hentry : entryOf b d with
    | none =>
      rw [groupOf_cons_none hentry] at hg
      obtain ⟨hpos, f, l, hf, hl, hle, hlt⟩ := ih hg
      exact ⟨hpos, f, l, hf, hl, hle, hlt.trans hlonger⟩
    | some e =>
      rw [groupOf_cons_some hentry, update_apply] at hg
      by_cases hid : id = e.1
      · rw [if_pos hid] at hg
        cases hg
        have hpos : 0 < e.2.length := length_pos_of_ne_nil (hone.nonempty d e hentry)
        refine ⟨?_, _, _, rfl, rfl, ?_, ?_⟩
        · show 0 < _ + e.2.length
          omega
        · cases hold : groupOf rest d e.1 with
          | none => exact Nat.le_refl _
          | some g₀ =>
            obtain ⟨-, f, l, hf, -, hle, hlt⟩ := ih (hid ▸ hold)
            show (g₀.firstBlock).getD rest.length ≤ rest.length
            rw [hf]
            show f ≤ rest.length
            omega
        · exact hlonger
      · rw [if_neg hid] at hg
        obtain ⟨hpos, f, l, hf, hl, hle, hlt⟩ := ih hg
        exact ⟨hpos, f, l, hf, hl, hle, hlt.trans hlonger⟩

theorem newest_spec (hL : newest chain d = some L) : 1 ≤ L ∧ ∃ g, groupOf chain d L = some g := by
  induction hok generalizing L with
  | nil => cases hL
  | @cons b rest hrest hone hfollows ih =>
    cases hentry : entryOf b d with
    | none =>
      rw [newest_cons_none hentry] at hL
      rw [groupOf_cons_none hentry]
      exact ih hL
    | some e =>
      rw [newest_cons_some hentry] at hL
      cases hL
      refine ⟨?_, grow (groupOf rest d e.1) rest.length e.2.length, ?_⟩
      · rcases hfollows d e hentry with hsame | hnext | ⟨-, hone⟩
        · exact (ih hsame).1
        · have hprev := (ih hnext).1
          omega
        · omega
      · rw [groupOf_cons_some hentry, update_self]

theorem groupOf_le_newest (hg : groupOf chain d id = some g) :
    ∃ L, newest chain d = some L ∧ id ≤ L := by
  induction hok generalizing g with
  | nil => cases hg
  | @cons b rest hrest hone hfollows ih =>
    cases hentry : entryOf b d with
    | none =>
      rw [groupOf_cons_none hentry] at hg
      rw [newest_cons_none hentry]
      exact ih hg
    | some e =>
      refine ⟨e.1, newest_cons_some hentry, ?_⟩
      rw [groupOf_cons_some hentry, update_apply] at hg
      by_cases hid : id = e.1
      · omega
      · rw [if_neg hid] at hg
        obtain ⟨L, hL, hle⟩ := ih hg
        rcases hfollows d e hentry with hsame | hnext | ⟨hnone, -⟩
        · rw [hsame] at hL
          cases hL
          exact hle
        · rw [hnext] at hL
          cases hL
          omega
        · rw [hnone] at hL
          cases hL

theorem groupOf_eq_none (hlt : ∀ L, newest chain d = some L → L < id) :
    groupOf chain d id = none := by
  refine eq_none_iff_forall_ne_some.mpr ?_
  intro g hg
  obtain ⟨L, hL, hle⟩ := groupOf_le_newest hok hg
  have := hlt L hL
  omega

theorem groupOf_eq_none_of_newest (hnone : newest chain d = none) (id : Int) :
    groupOf chain d id = none :=
  groupOf_eq_none hok (by simp [hnone])

end Facts

/-! ## §3. Mints of one denomination enter. -/

section Enter

variable {chain : CChain F G} {s : CSigmaState F G} {d : CoinDenomination} {n : Nat}

variable (chain : CChain F G)

/-- The group id `n` mints of the denomination get. -/
def nextId (d : CoinDenomination) (n : Nat) : Int :=
  match newest chain d with
  | none => if n ≤ ZC_SPEND_V3_COINSPERID_LIMIT then 1 else 2
  | some L =>
    if ((groupOf chain d L).map (·.nCoins)).getD 0 + n ≤ ZC_SPEND_V3_COINSPERID_LIMIT then L
    else L + 1

/-- The mints of a denomination without a group do not fit into one. -/
def Oversized (d : CoinDenomination) (n : Nat) : Prop :=
  newest chain d = none ∧ ZC_SPEND_V3_COINSPERID_LIMIT < n

instance (chain : CChain F G) (d : CoinDenomination) (n : Nat) :
    Decidable (Oversized chain d n) := inferInstanceAs (Decidable (_ ∧ _))

/-- **The lane after `n` mints**, `0 < n`.  Oversized mints leave an empty first group. -/
def enteredLane (d : CoinDenomination) (n : Nat) : Lane :=
  (Function.update
      (if Oversized chain d n then Function.update (groupOf chain d) 1 (some {})
        else groupOf chain d)
      (nextId chain d n) (some (grow (groupOf chain d (nextId chain d n)) chain.length n)),
    some (nextId chain d n))

variable {chain}

/-- What `assignGroup` does to the lanes. -/
structure AssignedLane (s s' : CSigmaState F G) (chain : CChain F G)
    (d : CoinDenomination) (n : Nat) : Prop where
  lane : s'.lane d = enteredLane chain d n
  frame : ∀ d', d' ≠ d → s'.lane d' = s.lane d'
  containers : s'.containers = s.containers

section Update

variable {α : Type} (groups : CoinDenomination × Int → α) (id : Int) (g : α)

theorem update_pair_self :
    (fun k => update groups (d, id) g (d, k)) = update (fun k => groups (d, k)) id g := by
  funext k
  simp only [update_apply, Prod.mk.injEq, true_and]

theorem update_pair_of_ne {d' : CoinDenomination} (hne : d' ≠ d) :
    (fun k => update groups (d, id) g (d', k)) = fun k => groups (d', k) := by
  funext k
  exact update_of_ne (fun heq => hne (Prod.mk.inj heq).1) _ _

end Update

variable (hok : ChainOK chain)
include hok

/-- **The group the mints are tried on**, and the two ways they can enter. -/
theorem enteredLane_cases (d : CoinDenomination) : ∃ k g,
    max 1 ((newest chain d).getD 0) = k ∧ (groupOf chain d k).getD {} = g ∧
    (g.nCoins = 0 → g = {}) ∧
    (g.nCoins ≠ 0 → ∃ f l, g.firstBlock = some f ∧ g.lastBlock = some l ∧ l < chain.length) ∧
    ∀ n, if g.nCoins + n ≤ ZC_SPEND_V3_COINSPERID_LIMIT then
        nextId chain d n = k ∧ enteredLane chain d n =
          (update (groupOf chain d) k (some (grow (some g) chain.length n)), some k)
      else
        nextId chain d n = k + 1 ∧ enteredLane chain d n =
          (update (update (groupOf chain d) k (some g)) (k + 1)
            (some ⟨some chain.length, some chain.length, n⟩), some (k + 1)) := by
  cases hL : newest chain d with
  | none =>
    have hempty : ∀ id, groupOf chain d id = none := groupOf_eq_none_of_newest hok hL
    refine ⟨1, {}, rfl, by rw [hempty]; rfl, fun _ => rfl, fun h => absurd rfl h, fun n => ?_⟩
    rw [zero_add]
    by_cases hfits : n ≤ ZC_SPEND_V3_COINSPERID_LIMIT
    · simp only [enteredLane, nextId, Oversized, hL, Nat.not_lt.mpr hfits, hfits, hempty, and_false,
        if_true, if_false, true_and]
      rfl
    · -- the reference has left an empty group 1 behind
      simp only [enteredLane, nextId, Oversized, hL, Nat.lt_of_not_le hfits, hfits, hempty,
        grow_none, and_self, if_true, if_false]
      exact ⟨rfl, rfl⟩
  | some L =>
    obtain ⟨hpos, g, hg⟩ := newest_spec hok hL
    obtain ⟨hcoins, f, l, hf, hl, -, hlt⟩ := groupOf_bounds hok hg
    have habove : groupOf chain d (L + 1) = none := groupOf_eq_none hok (by simp [hL])
    refine ⟨L, g, max_eq_right hpos, by rw [hg]; rfl, fun h => by omega,
      fun _ => ⟨f, l, hf, hl, hlt⟩, fun n => ?_⟩
    by_cases hfits : g.nCoins + n ≤ ZC_SPEND_V3_COINSPERID_LIMIT
    · simp [enteredLane, nextId, Oversized, hL, hg, hfits]
    · -- the full group is written back as it was
      rw [← hg, update_eq_self]
      simp [enteredLane, nextId, Oversized, hL, hg, hfits, habove, grow_none]

variable (hlane : s.lane d = chainLane chain d)
include hlane

/-- **`assignGroup` never asserts**, and changes the one lane. -/
theorem assignGroup_spec (n : Nat) :
    ∃ s', s.assignGroup chain.length d n = .ok (s', nextId chain d n) ∧
      AssignedLane s s' chain d n := by
  obtain ⟨k, g, hk, hg, hempty, hused, hcases⟩ := enteredLane_cases hok d
  have hgroups : (fun id => s.coinGroups (d, id)) = groupOf chain d := congrArg Prod.fst hlane
  have hlatest : s.latestCoinIds d = newest chain d := congrArg Prod.snd hlane
  rw [← hlatest] at hk
  rw [← congrFun hgroups k] at hg
  specialize hcases n
  by_cases hfits : g.nCoins + n ≤ ZC_SPEND_V3_COINSPERID_LIMIT
  · rw [if_pos hfits] at hcases
    refine ⟨{ s with
      coinGroups := update s.coinGroups (d, k) (some (grow (some g) chain.length n))
      latestCoinIds := update s.latestCoinIds d (some k) }, ?_, ?_, fun d' hne => ?_, rfl⟩
    · unfold assignGroup
      simp only [hk, hg, hcases.1, if_pos hfits]
      by_cases hzero : g.nCoins = 0
      · obtain rfl := hempty hzero
        rfl
      · obtain ⟨f, l, hf, hl, hlt⟩ := hused hzero
        simp [hzero, hf, hl, Nat.le_of_lt hlt, grow]
    · simp only [lane, update_pair_self, hgroups, update_self, hcases.2]
    · simp only [lane, update_pair_of_ne _ _ _ hne, update_of_ne hne]
  · rw [if_neg hfits] at hcases
    refine ⟨{ s with
      coinGroups := update (update s.coinGroups (d, k) (some g)) (d, k + 1)
        (some ⟨some chain.length, some chain.length, n⟩)
      latestCoinIds := update s.latestCoinIds d (some (k + 1)) }, ?_, ?_, fun d' hne => ?_, rfl⟩
    · unfold assignGroup
      simp only [hk, hg, hcases.1, if_neg hfits]
      rfl
    · simp only [lane, update_pair_self, hgroups, update_self, hcases.2]
    · simp only [lane, update_pair_of_ne _ _ _ hne, update_of_ne hne]

omit hok hlane

theorem enteredLane_eq {b : CBlockIndex F G} {coins : List G}
    (hentry : entryOf b d = some (nextId chain d coins.length, coins))
    (hsize : ¬ Oversized chain d coins.length) :
    enteredLane chain d coins.length = chainLane (b :: chain) d := by
  unfold enteredLane chainLane
  rw [if_neg hsize, groupOf_cons_some hentry, newest_cons_some hentry]

theorem follows_nextId (hsize : ¬ Oversized chain d n) : Follows chain d (nextId chain d n) := by
  unfold nextId
  cases hL : newest chain d with
  | none =>
    have hfits : n ≤ ZC_SPEND_V3_COINSPERID_LIMIT := by
      by_contra hbig
      exact hsize ⟨hL, Nat.lt_of_not_le hbig⟩
    show Follows chain d (if n ≤ _ then 1 else 2)
    rw [if_pos hfits]
    exact .inr (.inr ⟨hL, rfl⟩)
  | some L =>
    show Follows chain d (if _ then L else L + 1)
    split
    · exact .inl hL
    · refine .inr (.inl ?_)
      rw [hL, Int.add_sub_cancel]

end Enter

/-! ## §4. Mints of one denomination leave. -/

variable {rest : CChain F G} {b : CBlockIndex F G} {s : CSigmaState F G}
  {d : CoinDenomination} {e : Int × List G} {g : SigmaCoinGroupInfo}

/-- **The walk back ends at the last block of the remaining group.** -/
theorem rollBackLastBlock_eq (hok : ChainOK rest) {id : Int} (hg : groupOf rest d id = some g)
    {l : Nat} (hl : g.lastBlock = some l) {f : Nat} (hf : f ≤ l) (b : CBlockIndex F G) :
    rollBackLastBlock d id (some f) (b :: rest) = .ok l := by
  induction hok generalizing b with
  | nil => cases hg
  | @cons prev rest hrest hone hfollows ih =>
    obtain ⟨-, f', l', -, hl', -, hlt⟩ := groupOf_bounds (.cons hrest hone hfollows) hg
    rw [hl] at hl'
    cases hl'
    -- the first block lies at or below `l`, so the assertion holds
    have hfirst : ¬ some (prev :: rest).length = some f := by
      intro heq
      cases heq
      omega
    unfold rollBackLastBlock
    rw [if_neg hfirst]
    show (if ((prev.sigmaMintedPubCoins d).getD id []).isEmpty then _ else _) = _
    rw [hone.getD]
    cases hentry : entryOf prev d with
    | none =>
      rw [groupOf_cons_none hentry] at hg
      exact ih hg prev
    | some e =>
      rw [groupOf_cons_some hentry, update_apply] at hg
      by_cases hid : id = e.1
      · rw [if_pos hid] at hg
        cases hg
        cases hl
        have hcoins : e.2.isEmpty = false := by
          rw [isEmpty_eq_false_iff]
          exact hone.nonempty d e hentry
        simp only [if_pos hid, hcoins, Bool.false_eq_true, if_false]
      · rw [if_neg hid] at hg
        simp only [if_neg hid, isEmpty_nil, if_true]
        exact ih hg prev

/-- One less, and erased at zero. -/
def predLatest (latest : Option Int) : Option Int :=
  if latest.getD 0 - 1 = 0 then none else some (latest.getD 0 - 1)

/-- **The lane after the coins of an entry are taken back.** -/
def rolledLane (rest : CChain F G) (d : CoinDenomination) (id : Int) (lane : Lane) :
    Lane :=
  (Function.update lane.1 id (groupOf rest d id),
    if (groupOf rest d id).isNone then predLatest lane.2 else lane.2)

/-- What `removeBlockGroup` does to the lanes. -/
structure RolledLane (s s' : CSigmaState F G) (rest : CChain F G)
    (d : CoinDenomination) (id : Int) : Prop where
  lane : s'.lane d = rolledLane rest d id (s.lane d)
  frame : ∀ d', d' ≠ d → s'.lane d' = s.lane d'
  containers : s'.containers = s.containers

/-- **`removeBlockGroup` never asserts** on a group the block has grown. -/
theorem removeBlockGroup_spec (hok : ChainOK rest) (hne : e.2 ≠ [])
    (hgroup : s.coinGroups (d, e.1) = some (grow (groupOf rest d e.1) rest.length e.2.length))
    (b : CBlockIndex F G) :
    ∃ s', removeBlockGroup rest b d s e = .ok s' ∧ RolledLane s s' rest d e.1 := by
  have hlen : e.2.length ≠ 0 := fun hzero => hne (length_eq_zero_iff.mp hzero)
  cases hg : groupOf rest d e.1 with
  | none =>
    -- the group was opened by the block
    rw [hg, grow_none] at hgroup
    refine ⟨{ s with
      coinGroups := update s.coinGroups (d, e.1) none
      latestCoinIds := update s.latestCoinIds d (predLatest (s.latestCoinIds d)) },
      ?_, ?_, fun d' hne => ?_, rfl⟩
    · simp [removeBlockGroup, hgroup, hlen, predLatest]
    · simp only [lane, rolledLane, hg, update_pair_self, update_self]
      rfl
    · simp only [lane, update_pair_of_ne _ _ _ hne, update_of_ne hne]
  | some g =>
    obtain ⟨hpos, f, l, hf, hl, hle, -⟩ := groupOf_bounds hok hg
    have hgrow : grow (some g) rest.length e.2.length =
        ⟨some f, some rest.length, g.nCoins + e.2.length⟩ := by
      simp [grow, hf]
    have hold : g = ⟨some f, some l, g.nCoins⟩ := by rw [← hf, ← hl]
    have hback : rollBackLastBlock d e.1 (some f) (b :: rest) = .ok l :=
      rollBackLastBlock_eq hok hg hl hle b
    rw [hg, hgrow] at hgroup
    refine ⟨{ s with coinGroups := update s.coinGroups (d, e.1) (some g) },
      ?_, ?_, fun d' hne => ?_, rfl⟩
    · rw [hold]
      simp [removeBlockGroup, hgroup, hlen, hback, Nat.ne_of_gt hpos]
    · simp only [lane, rolledLane, hg, update_pair_self]
      rfl
    · simp only [lane, update_pair_of_ne _ _ _ hne]

theorem rolledLane_chainLane (hok : ChainOK rest) (hentry : entryOf b d = some e)
    (hfollows : Follows rest d e.1) :
    rolledLane rest d e.1 (chainLane (b :: rest) d) = chainLane rest d := by
  unfold rolledLane chainLane
  rw [groupOf_cons_some hentry, newest_cons_some hentry]
  refine Prod.ext ?_ ?_
  · simp
  · show (if (groupOf rest d e.1).isNone then predLatest (some e.1) else some e.1) = newest rest d
    rcases hfollows with hsame | hnext | ⟨hnone, hone⟩
    · obtain ⟨-, g, hg⟩ := newest_spec hok hsame
      rw [hg, hsame]
      rfl
    · have hg : groupOf rest d e.1 = none := groupOf_eq_none hok (by simp [hnext])
      have hpos := (newest_spec hok hnext).1
      rw [hg, hnext]
      show (if e.1 - 1 = 0 then none else some (e.1 - 1)) = _
      rw [if_neg (by omega)]
    · rw [groupOf_eq_none_of_newest hok hnone, hnone]
      show (if e.1 - 1 = 0 then none else some (e.1 - 1)) = _
      rw [if_pos (by omega)]

end Zcoin.Sigma
