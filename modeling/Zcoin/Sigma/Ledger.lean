/-
  Zcoin.Sigma.Ledger — what the Sigma containers hold.

  The coin map with the mint counts and the serial map with the spend counts are
  two tallies.  The surge flag is recomputed from the counts by every operation,
  so it says at any time whether some group has more spends than mints.
-/
import Zcoin.Sigma.Connect
import Zcoin.Lib.Tally

namespace Zcoin.Sigma

open Chain Lib Std Lib.Except Function Std.ExtTreeMap List

variable {F G : Type}

/-! ## §1. Counts and the surge flag. -/

theorem MetaInfo.count_drop {metaInfo : MetaInfo} {groupId : Int} {denom : CoinDenomination}
    (hpos : 0 < metaInfo.count groupId denom) (k : Int) (d : CoinDenomination) :
    (metaInfo.drop groupId denom).count k d
      = metaInfo.count k d - if k = groupId ∧ d = denom then 1 else 0 := by
  have hsub : sizeSub (metaInfo.count groupId denom) 1 = metaInfo.count groupId denom - 1 :=
    sizeSub_of_le hpos
  unfold MetaInfo.drop
  rw [hsub]
  unfold MetaInfo.count
  rw [update_apply]
  by_cases hd : d = denom
  · subst hd
    rw [if_pos rfl, OrderedMap.getD_insert]
    by_cases hk : k = groupId
    · subst hk
      simp
    · simp [hk]
  · simp [hd]

namespace Containers

/-- The cached surge flag is right: some group of some denomination has more spends than
mints. -/
def Current (c : Containers F G) : Prop :=
  c.surgeCondition = true ↔
    ∃ id d, c.mintMetaInfo.count id d < c.spendMetaInfo.count id d

/-- **Every check sets the flag right**, whatever it was before. -/
theorem checkSurgeCondition_current (c : Containers F G) (groupId : Int)
    (denom : CoinDenomination) : (c.checkSurgeCondition groupId denom).Current := by
  show (_ || _) = true ↔ ∃ id d, c.mintMetaInfo.count id d < c.spendMetaInfo.count id d
  rw [Bool.or_eq_true, decide_eq_true_eq, any_eq_true]
  constructor
  · rintro (hpair | ⟨d, -, hany⟩)
    · exact ⟨groupId, denom, hpair⟩
    · obtain ⟨e, he, hlt⟩ := any_eq_true.mp hany
      have hget := mem_toList_iff_getElem?_eq_some.mp he
      have hcount : c.spendMetaInfo.count e.1 d = e.2 := by
        unfold MetaInfo.count
        rw [getD_eq_getD_getElem?, hget]
        rfl
      refine ⟨e.1, d, ?_⟩
      rw [hcount]
      exact of_decide_eq_true hlt
  · rintro ⟨id, d, hlt⟩
    -- a count above another one is not the default
    have hcount : (c.spendMetaInfo d)[id]? = some (c.spendMetaInfo.count id d) := by
      unfold MetaInfo.count at hlt ⊢
      rw [getD_eq_getD_getElem?, getD_eq_getD_getElem?] at hlt
      rw [getD_eq_getD_getElem?]
      cases hget : (c.spendMetaInfo d)[id]? with
      | none =>
        rw [hget] at hlt
        exact absurd hlt (Nat.not_lt_zero _)
      | some n => rfl
    refine .inr ⟨d, CoinDenomination.mem_all d, any_eq_true.mpr ?_⟩
    exact ⟨(id, _), mem_toList_iff_getElem?_eq_some.mpr hcount,
      decide_eq_true hlt⟩

theorem current_empty : ({} : Containers F G).Current := by
  show false = true ↔ ∃ id d, _ < _
  constructor
  · intro h
    cases h
  · simp

variable {c : Containers F G}

theorem removeMint_current [DecidableEq G] (hc : c.Current) (pubCoin : G) :
    (c.removeMint pubCoin).Current := by
  unfold removeMint
  split
  · exact hc
  · exact checkSurgeCondition_current _ _ _

theorem removeSpend_current [DecidableEq F] (hc : c.Current) (serial : F) :
    (c.removeSpend serial).Current := by
  unfold removeSpend
  split
  · exact hc
  · exact checkSurgeCondition_current _ _ _

end Containers

variable {c c' : Containers F G}

/-! ## §2. The two tallies. -/

/-- The pair a mint is counted under. -/
def CMintedCoinInfo.pair (i : CMintedCoinInfo) : Int × CoinDenomination :=
  (i.coinGroupId, i.denomination)

/-- The pair a spend is counted under. -/
def CSpendCoinInfo.pair (i : CSpendCoinInfo) : Int × CoinDenomination :=
  (i.coinGroupId, i.denomination)

/-- **The containers hold these mints and spends** and nothing else. -/
structure Holds (c : Containers F G) (mints : List (G × CMintedCoinInfo))
    (spends : List (F × CSpendCoinInfo)) : Prop where
  mints : Tally CMintedCoinInfo.pair c.mintedPubCoins
    (fun k => c.mintMetaInfo.count k.1 k.2) mints
  spends : Tally CSpendCoinInfo.pair c.usedCoinSerials
    (fun k => c.spendMetaInfo.count k.1 k.2) spends
  current : c.Current

theorem holds_empty : Holds ({} : Containers F G) [] [] where
  mints := by
    have hcount : (fun k : Int × CoinDenomination =>
        ({} : Containers F G).mintMetaInfo.count k.1 k.2) = fun _ => 0 := rfl
    rw [hcount]
    exact Tally.empty
  spends := by
    have hcount : (fun k : Int × CoinDenomination =>
        ({} : Containers F G).spendMetaInfo.count k.1 k.2) = fun _ => 0 := rfl
    rw [hcount]
    exact Tally.empty
  current := Containers.current_empty

namespace Holds

variable {mints mints' l : List (G × CMintedCoinInfo)} {spends spends' : List (F × CSpendCoinInfo)}
  (h : Holds c mints spends)
include h

theorem perm (hm : mints.Perm mints') (hs : spends.Perm spends') : Holds c mints' spends' :=
  ⟨h.mints.perm hm, h.spends.perm hs, h.current⟩

theorem addMint [DecidableEq G] {x : G} (hnew : c.mintedPubCoins x = none) (i : CMintedCoinInfo) :
    Holds (c.addMint x i) ((x, i) :: mints) spends where
  mints := by
    refine h.mints.add hnew ?_ ?_
    · show (if (c.mintedPubCoins x).isSome then _ else _) = _
      rw [hnew]
      rfl
    · intro k
      show (c.mintMetaInfo.bump i.coinGroupId i.denomination).count k.1 k.2 = _
      rw [MetaInfo.count_bump]
      simp only [CMintedCoinInfo.pair, Prod.ext_iff]
  spends := h.spends
  current := Containers.checkSurgeCondition_current _ _ _

theorem addSpend [DecidableEq F] {x : F} (hnew : c.usedCoinSerials x = none) (i : CSpendCoinInfo) :
    Holds (c.addSpend x i) mints ((x, i) :: spends) where
  mints := h.mints
  spends := by
    refine h.spends.add hnew rfl ?_
    intro k
    show (c.spendMetaInfo.bump i.coinGroupId i.denomination).count k.1 k.2 = _
    rw [MetaInfo.count_bump]
    simp only [CSpendCoinInfo.pair, Prod.ext_iff]
  current := Containers.checkSurgeCondition_current _ _ _

omit h

theorem removeMint [DecidableEq G] {x : G} {i : CMintedCoinInfo}
    (h : Holds c ((x, i) :: mints) spends) :
    Holds (c.removeMint x) mints spends := by
  have hget : c.mintedPubCoins x = some i := (h.mints.map_eq x i).mpr mem_cons_self
  have hpos : 0 < c.mintMetaInfo.count i.coinGroupId i.denomination := h.mints.count_pos
  unfold Containers.removeMint
  rw [hget]
  refine ⟨?_, h.spends, Containers.checkSurgeCondition_current _ _ _⟩
  refine h.mints.remove rfl ?_
  intro k
  show (c.mintMetaInfo.drop i.coinGroupId i.denomination).count k.1 k.2 = _
  rw [MetaInfo.count_drop hpos]
  simp only [CMintedCoinInfo.pair, Prod.ext_iff]

theorem removeSpend [DecidableEq F] {x : F} {i : CSpendCoinInfo}
    (h : Holds c mints ((x, i) :: spends)) :
    Holds (c.removeSpend x) mints spends := by
  have hget : c.usedCoinSerials x = some i := (h.spends.map_eq x i).mpr mem_cons_self
  have hpos : 0 < c.spendMetaInfo.count i.coinGroupId i.denomination := h.spends.count_pos
  unfold Containers.removeSpend
  rw [hget]
  refine ⟨h.mints, ?_, Containers.checkSurgeCondition_current _ _ _⟩
  refine h.spends.remove rfl ?_
  intro k
  show (c.spendMetaInfo.drop i.coinGroupId i.denomination).count k.1 k.2 = _
  rw [MetaInfo.count_drop hpos]
  simp only [CSpendCoinInfo.pair, Prod.ext_iff]

/-! ## §3. The loops. -/

theorem addMints [DecidableEq G] (h : Holds c mints spends) (hnodup : (l.map Prod.fst).Nodup)
    (hnew : ∀ e ∈ l, c.mintedPubCoins e.1 = none) :
    Holds (l.foldl (fun c e => c.addMint e.1 e.2) c) (l ++ mints) spends := by
  induction l generalizing c mints with
  | nil => exact h
  | cons e l ih =>
    rw [map_cons, nodup_cons] at hnodup
    have hstep := h.addMint (hnew e mem_cons_self) e.2
    rw [foldl_cons]
    refine (ih hstep hnodup.2 ?_).perm perm_middle (List.Perm.refl _)
    intro e' he'
    -- the new coin is another one
    rw [hstep.mints.eq_none_iff, map_cons, mem_cons, not_or]
    refine ⟨?_, h.mints.eq_none_iff.mp (hnew e' (mem_cons_of_mem e he'))⟩
    intro heq
    exact hnodup.1 (heq ▸ mem_map_of_mem he')

theorem addSpends [DecidableEq F] {l : List (F × CSpendCoinInfo)} (h : Holds c mints spends)
    (hnodup : (l.map Prod.fst).Nodup) (hnew : ∀ e ∈ l, c.usedCoinSerials e.1 = none) :
    Holds (l.foldl (fun c e => c.addSpend e.1 e.2) c) mints (l ++ spends) := by
  induction l generalizing c spends with
  | nil => exact h
  | cons e l ih =>
    rw [map_cons, nodup_cons] at hnodup
    have hstep := h.addSpend (hnew e mem_cons_self) e.2
    rw [foldl_cons]
    refine (ih hstep hnodup.2 ?_).perm (List.Perm.refl _) perm_middle
    intro e' he'
    rw [hstep.spends.eq_none_iff, map_cons, mem_cons, not_or]
    refine ⟨?_, h.spends.eq_none_iff.mp (hnew e' (mem_cons_of_mem e he'))⟩
    intro heq
    exact hnodup.1 (heq ▸ mem_map_of_mem he')

/-- The `roll back mints` loop over coins that are held. -/
theorem removeMints [DecidableEq G] (h : Holds c (l ++ mints) spends) :
    ∃ c', l.foldlM (fun c e =>
        CSigmaState.removeBlockMint e.2.denomination e.2.coinGroupId c e.1) c = .ok c' ∧
      Holds c' mints spends := by
  induction l generalizing c with
  | nil => exact ⟨c, rfl, h⟩
  | cons e l ih =>
    have hget : c.mintedPubCoins e.1 = some e.2 :=
      (h.mints.map_eq e.1 e.2).mpr mem_cons_self
    have hstep : CSigmaState.removeBlockMint e.2.denomination e.2.coinGroupId c e.1
        = .ok (c.removeMint e.1) := by
      unfold CSigmaState.removeBlockMint
      rw [hget]
      simp [assertThat]
    rw [foldlM_cons, hstep, ok_bind]
    exact ih (Holds.removeMint h)

/-- The `roll back spends` loop. -/
theorem removeSpends [DecidableEq F] {l : List (F × CSpendCoinInfo)}
    (h : Holds c mints (l ++ spends)) :
    Holds (l.foldl (fun c e => c.removeSpend e.1) c) mints spends := by
  induction l generalizing c with
  | nil => exact h
  | cons e l ih =>
    rw [foldl_cons]
    exact ih (Holds.removeSpend h)

end Holds

/-! ## §4. What a finished removal shows. -/

theorem removeMint_mintedPubCoins [DecidableEq G] (c : Containers F G) (x y : G) :
    (c.removeMint x).mintedPubCoins y = if y = x then none else c.mintedPubCoins y := by
  unfold Containers.removeMint
  split
  · rename_i hnone
    by_cases hy : y = x
    · rw [if_pos hy, hy, hnone]
    · rw [if_neg hy]
  · exact update_apply _ _ _ _

/-- **The loop ends only if its coins are different**, and then they are gone. -/
theorem removeMints_ok [DecidableEq G] {l : List (G × CMintedCoinInfo)} (hrun : l.foldlM (fun c e =>
      CSigmaState.removeBlockMint e.2.denomination e.2.coinGroupId c e.1) c = .ok c') :
    (l.map Prod.fst).Nodup ∧ ∀ e ∈ l, c'.mintedPubCoins e.1 = none := by
  refine foldlM_prefix_ok (fun pre (cur : Containers F G) =>
    (pre.map Prod.fst).Nodup ∧ ∀ e ∈ pre, cur.mintedPubCoins e.1 = none) ?_ (by simp) hrun
  intro pre e rest _ cur cur' ⟨hnodup, hgone⟩ hstep
  unfold CSigmaState.removeBlockMint at hstep
  obtain ⟨_, hassert, hstep⟩ := bind_eq_ok.mp hstep
  cases hstep
  -- a coin that is gone fails the assertion
  have hother : ∀ e' ∈ pre, e'.1 ≠ e.1 := by
    intro e' he' heq
    rw [← heq, hgone e' he'] at hassert
    cases hassert
  constructor
  · rw [map_append, nodup_append]
    refine ⟨hnodup, nodup_singleton _, ?_⟩
    simpa using fun x i hx => hother (x, i) hx
  · simp only [forall_mem_append, forall_mem_singleton, removeMint_mintedPubCoins]
    refine ⟨fun e' he' => ?_, if_pos trivial⟩
    rw [if_neg (hother e' he'), hgone e' he']

end Zcoin.Sigma
