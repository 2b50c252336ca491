/-
  Zcoin.Lelantus.Surge — what the surge flag depends on.

  `CheckSurgeCondition` walks the KEYS of `mintMetaInfo`, and `RemoveBlock`
  leaves keys with a zero count behind, so the flag could in principle remember
  a block that is gone.  It does not: a group without mints and without spends
  at the end of the walk never triggers (`surgeLoop_append_idle`), hence the flag
  depends on the counts alone (`surge_congr`).
-/
import Zcoin.Lelantus.State
import Zcoin.Lib.OrderedMap

namespace Zcoin.Lelantus

open Chain Lib Std Lib.OrderedMap List

variable {F G : Type}

section Loop

variable {spend spend' ext ext' : ExtTreeMap Int Nat}

theorem surgeLoop_idle {groups : List (Int × Nat)} {serials mints : Nat}
    (hidle : ∀ e ∈ groups, e.2 = 0 ∧ spend.getD e.1 0 = 0) (hle : serials ≤ mints) :
    surgeLoop spend ext groups serials mints = false := by
  induction groups generalizing serials mints with
  | nil => rfl
  | cons e groups ih =>
    obtain ⟨id, inGroup⟩ := e
    obtain ⟨hmint, hspend⟩ := hidle (id, inGroup) mem_cons_self
    have htail : ∀ e ∈ groups, e.2 = 0 ∧ spend.getD e.1 0 = 0 :=
      fun e he => hidle e (mem_cons_of_mem _ he)
    simp only at hmint hspend
    simp only [surgeLoop, hmint, hspend, Nat.add_zero, gt_iff_lt, Nat.not_lt.mpr hle, if_false]
    split
    · exact ih htail (Nat.zero_le _)
    · exact ih htail hle

theorem surgeLoop_append_idle {groups idle : List (Int × Nat)} {serials mints : Nat}
    (hidle : ∀ e ∈ idle, e.2 = 0 ∧ spend.getD e.1 0 = 0) (hle : serials ≤ mints) :
    surgeLoop spend ext (groups ++ idle) serials mints
      = surgeLoop spend ext groups serials mints := by
  induction groups generalizing serials mints with
  | nil => simpa [surgeLoop] using surgeLoop_idle hidle hle
  | cons e groups ih =>
    obtain ⟨id, inGroup⟩ := e
    simp only [cons_append, surgeLoop]
    split
    · rfl
    · next hle' =>
      -- the accumulators the loop goes on with still satisfy `serials ≤ mints`
      split
      · exact ih (Nat.zero_le _)
      · exact ih (Nat.not_lt.mp hle')

theorem surgeLoop_congr (hspend : ∀ k, spend.getD k 0 = spend'.getD k 0)
    (hext : ∀ k, ext.getD k 0 = ext'.getD k 0) (groups : List (Int × Nat)) (serials mints : Nat) :
    surgeLoop spend ext groups serials mints = surgeLoop spend' ext' groups serials mints := by
  induction groups generalizing serials mints with
  | nil => rfl
  | cons e groups ih =>
    obtain ⟨id, inGroup⟩ := e
    simp only [surgeLoop, hspend, hext, ih]

end Loop

/-- The walk, cut at a group id above which every group is idle. -/
theorem surge_eq_below (c : Containers F G) (top : Int)
    (hidle : ∀ k, top < k → c.mintMetaInfo.getD k 0 = 0 ∧ c.spendMetaInfo.getD k 0 = 0) :
    c.surge = surgeLoop c.spendMetaInfo c.extendedMintMetaInfo
      ((c.mintMetaInfo.keys.filter (· ≤ top)).map fun k => (k, c.mintMetaInfo.getD k 0)) 0 0 := by
  have hsplit : c.mintMetaInfo.keys.filter (· ≤ top) ++
      c.mintMetaInfo.keys.filter (fun k => !decide (k ≤ top)) = c.mintMetaInfo.keys := by
    refine filter_append_filter_not _ ExtTreeMap.ordered_keys ?_
    intro a b hab hb
    have hlt : a < b := compare_lt_iff_lt.mp hab
    simp only [decide_eq_true_eq] at hb ⊢
    omega
  unfold Containers.surge
  rw [toList_eq_map_keys _ 0]
  conv_lhs => rw [← hsplit]
  rw [map_append]
  refine surgeLoop_append_idle ?_ (Nat.le_refl 0)
  intro e he
  obtain ⟨k, hk, rfl⟩ := mem_map.mp he
  have htop : top < k := by
    have := (mem_filter.mp hk).2
    simp only [Bool.not_eq_true', decide_eq_false_iff_not] at this
    omega
  exact hidle k htop

/-- **The surge flag depends on the counts alone**, as long as the keys agree up
to a group above which nothing was minted or spent. -/
theorem surge_congr {c c' : Containers F G} (top : Int)
    (hmint : ∀ k, c.mintMetaInfo.getD k 0 = c'.mintMetaInfo.getD k 0)
    (hspend : ∀ k, c.spendMetaInfo.getD k 0 = c'.spendMetaInfo.getD k 0)
    (hext : ∀ k, c.extendedMintMetaInfo.getD k 0 = c'.extendedMintMetaInfo.getD k 0)
    (hkeys : ∀ k, k ≤ top → (k ∈ c.mintMetaInfo ↔ k ∈ c'.mintMetaInfo))
    (hidle : ∀ k, top < k → c.mintMetaInfo.getD k 0 = 0 ∧ c.spendMetaInfo.getD k 0 = 0) :
    c.surge = c'.surge := by
  have hidle' : ∀ k, top < k → c'.mintMetaInfo.getD k 0 = 0 ∧ c'.spendMetaInfo.getD k 0 = 0 := by
    intro k hk
    rw [← hmint, ← hspend]
    exact hidle k hk
  have hsame : c.mintMetaInfo.keys.filter (· ≤ top) = c'.mintMetaInfo.keys.filter (· ≤ top) :=
    keys_filter_congr _ (fun k hk => hkeys k (of_decide_eq_true hk))
  rw [surge_eq_below c top hidle, surge_eq_below c' top hidle', hsame,
    surgeLoop_congr hspend hext]
  simp only [hmint]

theorem surge_congr_keys {c c' : Containers F G}
    (hmint : ∀ k, c.mintMetaInfo.getD k 0 = c'.mintMetaInfo.getD k 0)
    (hspend : ∀ k, c.spendMetaInfo.getD k 0 = c'.spendMetaInfo.getD k 0)
    (hext : ∀ k, c.extendedMintMetaInfo.getD k 0 = c'.extendedMintMetaInfo.getD k 0)
    (hkeys : ∀ k, k ∈ c.mintMetaInfo ↔ k ∈ c'.mintMetaInfo) : c.surge = c'.surge := by
  have hsame : c.mintMetaInfo.keys.filter (fun _ => true)
      = c'.mintMetaInfo.keys.filter (fun _ => true) :=
    keys_filter_congr _ (fun k _ => hkeys k)
  rw [filter_true, filter_true] at hsame
  unfold Containers.surge
  rw [toList_eq_map_keys _ 0, toList_eq_map_keys c'.mintMetaInfo 0, hsame,
    surgeLoop_congr hspend hext]
  simp only [hmint]

end Zcoin.Lelantus
