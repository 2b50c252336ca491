/-
  Zcoin.Elysium.FeeDistribution — when a distribution of fees goes through (`elysium/fees.cpp`,
  `elysium/elysium.cpp`).

  `AddFee` and `NotifyTotalTokensChanged` distribute the cache of a property once it reaches
  its threshold, among the holders of the native token of the ecosystem.  The comment in
  `DistributeCache` takes holders for granted, but TELYSIUM need not have any: then nobody is
  credited and the final assertion fails.
-/
import Zcoin.Elysium.MetaDExRuns
import Zcoin.Elysium.SendToOwners

namespace Zcoin.Elysium

open Lib Lib.Except List

/-! ## §1. Total tokens and thresholds. -/

/-- `rules.h`: `ELYSIUM_FEE_THRESHOLD`. -/
def ELYSIUM_FEE_THRESHOLD : Int := 100000

section Total

variable {A : Type}

/-- `getTotalTokens`, for a caller that does not ask for the number of owners. -/
def getTotalTokens (systemAddress : String) (sps : CMPSPInfo) (tally : TallyMap A)
    (cache : FeeCache) (propertyId : PropertyId) : Except Abort Int :=
  match sps.getSP systemAddress propertyId with
  | none => .ok 0
  | some property =>
    if property.fixed then .ok property.numTokens
    else do
      let totalTokens ← sumInt64
        (tally.accounts.flatMap fun a => (tokenKinds propertyId).map (tally.amount a))
      fit64 (totalTokens + cache.getCachedAmount propertyId)

/-- The threshold for a number of tokens; it protects against zero valued thresholds. -/
def distributionThreshold (totalTokens : Int) : Int :=
  if totalTokens.tdiv ELYSIUM_FEE_THRESHOLD ≤ 0 then 1
  else totalTokens.tdiv ELYSIUM_FEE_THRESHOLD

/-- `UpdateDistributionThresholds`. -/
def FeeCache.updateDistributionThresholds (systemAddress : String) (sps : CMPSPInfo)
    (tally : TallyMap A) (cache : FeeCache) (propertyId : PropertyId) :
    Except Abort FeeCache := do
  let totalTokens ← getTotalTokens systemAddress sps tally cache propertyId
  let thresholds :=
    Function.update cache.distributionThresholds propertyId (distributionThreshold totalTokens)
  return { cache with distributionThresholds := thresholds }

variable [LinearOrder A]

/-- `NotifyTotalTokensChanged`. -/
def notifyTotalTokensChanged (env : TokenEnv A) (systemAddress : String) (sps : CMPSPInfo)
    (tally : TallyMap A) (cache : FeeCache) (propertyId : PropertyId) (block : Int) :
    Except Abort (TallyMap A × FeeCache) := do
  let cache ← cache.updateDistributionThresholds systemAddress sps tally propertyId
  evalCache env tally cache propertyId block

end Total

section TotalSpec

variable {A : Type} {tally : TallyMap A}

/-- **The total of a property** that is not fixed is what the tally and the cache show. -/
theorem getTotalTokens_eq {systemAddress : String} {sps : CMPSPInfo} {cache : FeeCache}
    {p : PropertyId} {property : Entry} (hproperty : sps.getSP systemAddress p = some property)
    (hfixed : property.fixed = false) (hnonneg : NonNegative tally)
    (hcached : 0 ≤ cache.getCachedAmount p)
    (hmax : tokensOf tally p + cache.getCachedAmount p ≤ maxInt64) :
    getTotalTokens systemAddress sps tally cache p =
      .ok (tokensOf tally p + cache.getCachedAmount p) := by
  have htokens := tokensOf_nonneg hnonneg p
  have hsum : (tally.accounts.flatMap fun a => (tokenKinds p).map (tally.amount a)).sum =
      tokensOf tally p := by
    rw [flatMap_def, sum_flatten, map_map]
    exact Ledger.sum_held tally (tokenKinds p)
  have hparts : ∀ n ∈ tally.accounts.flatMap fun a => (tokenKinds p).map (tally.amount a),
      0 ≤ n := by
    intro n hn
    obtain ⟨a, -, hn⟩ := mem_flatMap.mp hn
    obtain ⟨⟨q, t⟩, hk, rfl⟩ := mem_map.mp hn
    apply hnonneg
    rintro rfl
    simp [tokenKinds] at hk
  unfold getTotalTokens
  rw [hproperty]
  show (if property.fixed = true then _ else _) = _
  rw [hfixed, if_neg Bool.false_ne_true, sumInt64_eq hparts (by rw [hsum]; omega), hsum, ok_bind,
    fit64_of_range (by omega) hmax]

end TotalSpec

/-! ## §2. Reachable states. -/

/-- What a distribution depends on: balances, fee cache and the current block. -/
structure FeeState (A : Type) where
  tally : TallyMap A
  fees : FeeCache
  height : Int

section Sanity

variable {A : Type}

/-- **What every reachable state keeps.** -/
structure FeeState.Sane (s : FeeState A) : Prop where
  nonneg : NonNegative s.tally
  increasing : ∀ p, Increasing (s.fees.record p)
  newest : ∀ p, ∀ x ∈ s.fees.record p, x.1 ≤ s.height
  cached : ∀ p, 0 ≤ s.fees.getCachedAmount p
  supply : ∀ p, tokensOf s.tally p + s.fees.getCachedAmount p ≤ maxInt64

variable {s : FeeState A}

theorem FeeState.Sane.write (h : s.Sane) (debugFees : Bool) {p : PropertyId}
    {amount : Int} (hamount : 0 ≤ amount) (hmax : tokensOf s.tally p + amount ≤ maxInt64) :
    ({ s with fees := s.fees.write debugFees p s.height amount } : FeeState A).Sane := by
  obtain ⟨hincreasing, hnewest, hcached⟩ :=
    write_spec debugFees (h.increasing p) (h.newest p) amount
  generalize hfees : s.fees.write debugFees p s.height amount = fees at *
  have hone : ∀ q, Increasing (fees.record q) ∧ (∀ x ∈ fees.record q, x.1 ≤ s.height) ∧
      0 ≤ fees.getCachedAmount q ∧ tokensOf s.tally q + fees.getCachedAmount q ≤ maxInt64 := by
    intro q
    by_cases hq : q = p
    · rw [hq, hcached]
      exact ⟨hincreasing, hnewest, hamount, hmax⟩
    · have hother : fees.record q = s.fees.record q :=
        hfees ▸ write_record_of_ne debugFees s.fees hq s.height amount
      rw [getCachedAmount_of_record_eq hother, hother]
      exact ⟨h.increasing q, h.newest q, h.cached q, h.supply q⟩
  exact ⟨h.nonneg, fun q => (hone q).1, fun q => (hone q).2.1, fun q => (hone q).2.2.1,
    fun q => (hone q).2.2.2⟩

theorem FeeState.Sane.getTotalTokens (h : s.Sane) (systemAddress : String)
    (sps : CMPSPInfo) (p : PropertyId) :
    ∃ total, Elysium.getTotalTokens systemAddress sps s.tally s.fees p = .ok total := by
  cases hproperty : sps.getSP systemAddress p with
  | none =>
    refine ⟨0, ?_⟩
    unfold Elysium.getTotalTokens
    rw [hproperty]
  | some property =>
    cases hfixed : property.fixed with
    | false =>
      exact ⟨_, getTotalTokens_eq hproperty hfixed h.nonneg (h.cached p) (h.supply p)⟩
    | true =>
      refine ⟨property.numTokens, ?_⟩
      unfold Elysium.getTotalTokens
      rw [hproperty]
      exact if_pos hfixed

/-- **A tally in which the cache was distributed**: the whole amount stands in balances of
addresses that hold the native token. -/
structure Distributed (tally tally' : TallyMap A) (p : PropertyId) (amount : Int) : Prop extends
    Credited tally tally' p amount where
  holders : ∀ a, tally'.amount a (p, .balance) ≠ tally.amount a (p, .balance) →
    0 < tally.held (tokenKinds (nativeOf p)) a

theorem FeeState.Sane.distributed (h : s.Sane) (debugFees : Bool) {p : PropertyId}
    {tally' : TallyMap A} (hdistributed : Distributed s.tally tally' p (s.fees.getCachedAmount p)) :
    ({ s with tally := tally', fees := s.fees.clearCache debugFees p s.height } :
      FeeState A).Sane := by
  have htokens := tokensOf_nonneg h.nonneg p
  have hcached := h.cached p
  have hsupply := h.supply p
  have hcleared := h.write debugFees (p := p) (le_refl 0) (by omega)
  refine ⟨hdistributed.nonNegative h.nonneg, hcleared.increasing, hcleared.newest,
    hcleared.cached, ?_⟩
  intro q
  have hq := hcleared.supply q
  show tokensOf tally' q + (s.fees.clearCache debugFees p s.height).getCachedAmount q ≤ maxInt64
  rw [hdistributed.tokensOf q]
  split
  · next hqp =>
    have hzero := (write_spec debugFees (h.increasing p) (h.newest p) 0).2.2
    rw [hqp]
    show tokensOf s.tally p + _ + (s.fees.write debugFees p s.height 0).getCachedAmount p ≤ _
    omega
  · rw [add_zero]
    exact hq

end Sanity

section States

variable {A : Type} [LinearOrder A]

/-- What the processing of transactions is composed of.  A handler updates the tally one amount
at a time, pays fees, and announces that a total has changed; debits stand before credits, so
that every step stays in the range of `int64_t`. -/
inductive FeeState.Step : FeeState A → FeeState A → Prop where
  /-- one call of `update_tally_map` -/
  | update {s : FeeState A} {frozen : A → PropertyId → Bool} {who : A} {p : PropertyId}
      {amount : Int} {ttype : TallyType} {bRet : Bool} {tally : TallyMap A} :
      updateTallyMap frozen s.tally who p amount ttype = .ok (bRet, tally) →
      tokensOf tally p + s.fees.getCachedAmount p ≤ maxInt64 → Step s { s with tally := tally }
  /-- the next block -/
  | block {s : FeeState A} {height : Int} : s.height ≤ height → Step s { s with height := height }
  /-- `UpdateDistributionThresholds` -/
  | thresholds {s : FeeState A} {systemAddress : String} {sps : CMPSPInfo} {p : PropertyId}
      {fees : FeeCache} :
      s.fees.updateDistributionThresholds systemAddress sps s.tally p = .ok fees →
      Step s { s with fees := fees }
  /-- `AddFee` -/
  | fee {s : FeeState A} {env : TokenEnv A} {p : PropertyId} {amount : Int} {tally : TallyMap A}
      {fees : FeeCache} : 0 ≤ amount →
      tokensOf s.tally p + s.fees.getCachedAmount p + amount ≤ maxInt64 →
      addFee env s.tally s.fees p s.height amount = .ok (tally, fees) →
      Step s { s with tally := tally, fees := fees }
  /-- `EvalCache` -/
  | eval {s : FeeState A} {env : TokenEnv A} {p : PropertyId} {tally : TallyMap A}
      {fees : FeeCache} : evalCache env s.tally s.fees p s.height = .ok (tally, fees) →
      Step s { s with tally := tally, fees := fees }

/-- The states that such steps lead to. -/
inductive FeeState.Reached : FeeState A → Prop where
  | start : Reached { tally := Ledger.empty, fees := {}, height := 0 }
  | step {s s' : FeeState A} : Reached s → FeeState.Step s s' → Reached s'

/-! ## §3. One distribution. -/

theorem exists_holder_iff {tally : TallyMap A} (hnonneg : NonNegative tally) (p : PropertyId) :
    (∃ a, 0 < tally.held (tokenKinds p) a) ↔ 0 < tokensOf tally p := by
  have hsum : (tally.accounts.map (tally.held (tokenKinds p))).sum = tokensOf tally p :=
    Ledger.sum_held tally (tokenKinds p)
  refine ⟨?_, ?_⟩
  · rintro ⟨a, ha⟩
    have hmem : a ∈ tally.accounts := by
      by_contra hnot
      simp [Ledger.held, tokenKinds, tally.outside a hnot] at ha
    have hle : tally.held (tokenKinds p) a ≤
        (tally.accounts.map (tally.held (tokenKinds p))).sum := by
      apply single_le_sum
      · exact held_all_nonneg hnonneg p _
      · exact mem_map_of_mem hmem
    omega
  · intro hpos
    by_contra hnone
    have hzero : (tally.accounts.map (tally.held (tokenKinds p))).sum = 0 := by
      apply sum_eq_zero
      intro x hx
      obtain ⟨b, -, rfl⟩ := mem_map.mp hx
      have hnonneg := held_nonneg hnonneg p b
      by_contra hb
      exact hnone ⟨b, by omega⟩
    omega

variable {p : PropertyId}

variable {s : FeeState A}

theorem FeeState.Sane.distributeCache (h : s.Sane) (env : TokenEnv A)
    (hdue : s.fees.getCachedAmount p = 0 ∨ 0 < tokensOf s.tally (nativeOf p)) :
    ∃ tally', Elysium.distributeCache env s.tally s.fees p s.height =
        .ok (tally', s.fees.clearCache env.debugFees p s.height) ∧
      Distributed s.tally tally' p (s.fees.getCachedAmount p) := by
  have hcached := h.cached p
  have hsupply := h.supply p
  have hnativeMax : tokensOf s.tally (nativeOf p) ≤ maxInt64 := by
    have hfits := h.supply (nativeOf p)
    have hnonneg := h.cached (nativeOf p)
    omega
  have hbalance : s.tally.total (p, .balance) ≤ tokensOf s.tally p := by
    have hsell := h.nonneg.total p (show TallyType.sellofferReserve ≠ .pending by decide)
    have haccept := h.nonneg.total p (show TallyType.acceptReserve ≠ .pending by decide)
    have hmetadex := h.nonneg.total p (show TallyType.metadexReserve ≠ .pending by decide)
    rw [tokensOf_eq]
    omega
  obtain ⟨tally', hrun, hcredited, hholders⟩ := @distributeCache_spec A _ env s.tally p s.fees
    h.nonneg hdue hnativeMax hcached (by omega) s.height
  exact ⟨tally', hrun, hcredited, hholders⟩

/-- Without holders there is nobody to credit, and the final assertion fails. -/
theorem FeeState.Sane.due_of_distributeCache (h : s.Sane) {env : TokenEnv A}
    {r : TallyMap A × FeeCache}
    (hrun : Elysium.distributeCache env s.tally s.fees p s.height = .ok r) :
    s.fees.getCachedAmount p = 0 ∨ 0 < tokensOf s.tally (nativeOf p) := by
  by_contra hdue
  have hsupply := h.supply p
  have htokens := tokensOf_nonneg h.nonneg p
  have hnonneg := tokensOf_nonneg h.nonneg (nativeOf p)
  have hnative : tokensOf s.tally (nativeOf p) = 0 := by omega
  obtain ⟨receivers, served, hreceivers, -, -, -, hnone⟩ :=
    stoGetReceivers_spec h.nonneg none (show tokensOf s.tally (nativeOf p) ≤ maxInt64 by
      rw [hnative]; decide) (h.cached p) (by omega)
  rw [heldByOthers_none] at hnone
  rw [hnone hnative] at hreceivers
  replace hrun : (stoGetReceivers s.tally none (nativeOf p) _ >>= _) = _ := hrun
  rw [hreceivers] at hrun
  replace hrun : (assertThat (decide (0 = s.fees.getCachedAmount p)) >>= _) = _ := hrun
  rw [decide_eq_false fun hc => hdue (.inl hc.symm)] at hrun
  cases hrun

/-! ## §4. What every reachable state keeps. -/

/-- **`EvalCache`** keeps a state sane where it succeeds. -/
theorem FeeState.Sane.eval (h : s.Sane) {env : TokenEnv A} {tally' : TallyMap A}
    {fees' : FeeCache} (hrun : evalCache env s.tally s.fees p s.height = .ok (tally', fees')) :
    ({ s with tally := tally', fees := fees' } : FeeState A).Sane := by
  unfold evalCache at hrun
  split at hrun
  · obtain ⟨tally'', hrun', hdistributed⟩ := h.distributeCache env (h.due_of_distributeCache hrun)
    rw [hrun'] at hrun
    cases hrun
    exact h.distributed env.debugFees hdistributed
  · cases hrun
    exact h

theorem FeeState.Sane.step {s' : FeeState A} (h : s.Sane) (hstep : FeeState.Step s s') :
    s'.Sane := by
  cases hstep with
  | @update _ who p amount ttype bRet tally hrun hmax =>
    refine ⟨updateTallyMap_nonNegative h.nonneg hrun, h.increasing, h.newest, h.cached, ?_⟩
    intro q
    by_cases hq : q = p
    · rw [hq]
      exact hmax
    · have hsupply := h.supply q
      show tokensOf tally q + s.fees.getCachedAmount q ≤ maxInt64
      rcases updateTallyMap_cases hrun with ⟨-, rfl | rfl⟩ | ⟨-, rfl, -⟩
      · exact hsupply
      · rw [tokensOf_eq]
        simp only [Ledger.total_touch]
        rw [← tokensOf_eq]
        exact hsupply
      · rw [tokensOf_eq]
        simp only [Ledger.total_add, Prod.mk.injEq, hq, false_and, if_false, add_zero]
        rw [← tokensOf_eq]
        exact hsupply
  | @block height hle =>
    exact ⟨h.nonneg, h.increasing, fun p x hx => le_trans (h.newest p x hx) hle, h.cached,
      h.supply⟩
  | thresholds hrun =>
    obtain ⟨total, -, hrun⟩ := bind_eq_ok.mp hrun
    cases hrun
    exact ⟨h.nonneg, h.increasing, h.newest, h.cached, h.supply⟩
  | @fee env p amount tally fees hamount hmax hrun =>
    obtain ⟨new, hnew, hrun⟩ := bind_eq_ok.mp hrun
    have hcached := h.cached p
    have htokens := tokensOf_nonneg h.nonneg p
    rw [fit64_of_range (by omega) (by omega)] at hnew
    cases hnew
    exact (h.write env.debugFees (by omega) (by omega)).eval hrun
  | eval hrun => exact h.eval hrun

theorem FeeState.Reached.sane (h : s.Reached) : s.Sane := by
  induction h with
  | start =>
    refine ⟨?_, ?_, ?_, ?_, ?_⟩
    · intro a p t _
      exact le_rfl
    · intro p
      exact List.Pairwise.nil
    · intro p x hx
      cases hx
    · intro p
      exact le_rfl
    · intro p
      show (0 : Int) ≤ maxInt64
      decide
  | step _ hstep ih => exact ih.step hstep

/-! ## §5. When a distribution goes through. -/

/-- **A distribution that goes through**: everything that was due is credited to holders of the
native token, the cache of the property is empty, and tokens and cache together are what they
were. -/
def Settles (s : FeeState A) (p : PropertyId) (due : Int)
    (result : Except Abort (TallyMap A × FeeCache)) : Prop :=
  ∃ tally' fees', result = .ok (tally', fees') ∧ Distributed s.tally tally' p due ∧
    fees'.getCachedAmount p = 0 ∧
    tokensOf tally' p + fees'.getCachedAmount p = tokensOf s.tally p + due

theorem FeeState.Sane.settles_iff (h : s.Sane) (env : TokenEnv A)
    (hdue : s.fees.distributionThresholds p ≤ s.fees.getCachedAmount p) :
    Settles s p (s.fees.getCachedAmount p) (evalCache env s.tally s.fees p s.height) ↔
      s.fees.getCachedAmount p = 0 ∨ ∃ a, 0 < s.tally.held (tokenKinds (nativeOf p)) a := by
  have heval : evalCache env s.tally s.fees p s.height =
      Elysium.distributeCache env s.tally s.fees p s.height := if_pos hdue
  rw [exists_holder_iff h.nonneg, heval]
  refine ⟨?_, ?_⟩
  · rintro ⟨tally', fees', hrun, -⟩
    exact h.due_of_distributeCache hrun
  · intro hholders
    obtain ⟨tally', hrun, hdistributed⟩ := h.distributeCache env hholders
    have hzero := (write_spec env.debugFees (h.increasing p) (h.newest p) 0).2.2
    refine ⟨tally', _, hrun, hdistributed, hzero, ?_⟩
    rw [hdistributed.tokensOf p, if_pos rfl]
    show _ + (s.fees.write env.debugFees p s.height 0).getCachedAmount p = _
    rw [hzero, add_zero]

/-- **A distribution goes through exactly if there is nothing to distribute or somebody holds
the native token**, whether `AddFee` or `NotifyTotalTokensChanged` triggers it. -/
theorem distribution_settles_iff (env : TokenEnv A) {s : FeeState A} (h : s.Reached)
    (p : PropertyId) :
    (∀ amount, 0 ≤ amount →
      tokensOf s.tally p + s.fees.getCachedAmount p + amount ≤ maxInt64 →
      s.fees.distributionThresholds p ≤ s.fees.getCachedAmount p + amount →
      (Settles s p (s.fees.getCachedAmount p + amount)
          (addFee env s.tally s.fees p s.height amount) ↔
        s.fees.getCachedAmount p + amount = 0 ∨
          ∃ a, 0 < s.tally.held (tokenKinds (nativeOf p)) a)) ∧
    (∀ systemAddress sps, ∃ total,
      getTotalTokens systemAddress sps s.tally s.fees p = .ok total ∧
      (distributionThreshold total ≤ s.fees.getCachedAmount p →
        (Settles s p (s.fees.getCachedAmount p)
            (notifyTotalTokensChanged env systemAddress sps s.tally s.fees p s.height) ↔
          s.fees.getCachedAmount p = 0 ∨
            ∃ a, 0 < s.tally.held (tokenKinds (nativeOf p)) a))) := by
  have hsane := h.sane
  refine ⟨?_, ?_⟩
  · intro amount hamount hmax hdue
    have hcached := hsane.cached p
    have htokens := tokensOf_nonneg hsane.nonneg p
    have hwritten := hsane.write env.debugFees (p := p)
      (show 0 ≤ s.fees.getCachedAmount p + amount by omega) (by omega)
    have hshown := (write_spec env.debugFees (hsane.increasing p) (hsane.newest p)
      (s.fees.getCachedAmount p + amount)).2.2
    have hiff := hwritten.settles_iff env (p := p) (by
      rw [hshown, write_thresholds]
      exact hdue)
    rw [hshown] at hiff
    have hadd : addFee env s.tally s.fees p s.height amount = evalCache env s.tally
        (s.fees.write env.debugFees p s.height (s.fees.getCachedAmount p + amount)) p s.height := by
      unfold addFee
      rw [fit64_of_range (by omega) (by omega), ok_bind]
    rw [hadd]
    exact hiff
  · intro systemAddress sps
    obtain ⟨total, htotal⟩ := hsane.getTotalTokens systemAddress sps p
    refine ⟨total, htotal, ?_⟩
    intro hdue
    let thresholds :=
      Function.update s.fees.distributionThresholds p (distributionThreshold total)
    let fees : FeeCache := { s.fees with distributionThresholds := thresholds }
    have hsane' : ({ s with fees := fees } : FeeState A).Sane :=
      ⟨hsane.nonneg, hsane.increasing, hsane.newest, hsane.cached, hsane.supply⟩
    have hiff := hsane'.settles_iff env (p := p) (by
      show Function.update s.fees.distributionThresholds p (distributionThreshold total) p ≤ _
      rw [Function.update_self]
      exact hdue)
    have hnotify : notifyTotalTokensChanged env systemAddress sps s.tally s.fees p s.height =
        evalCache env s.tally fees p s.height := by
      unfold notifyTotalTokensChanged FeeCache.updateDistributionThresholds
      rw [htotal]
      rfl
    rw [hnotify]
    exact hiff

theorem FeeState.Reached.credit (h : s.Reached) (who : A) (p : PropertyId)
    {amount : Int} (hamount : 0 < amount)
    (hmax : tokensOf s.tally p + amount + s.fees.getCachedAmount p ≤ maxInt64) :
    ({ s with tally := s.tally.add who (p, .balance) amount } : FeeState A).Reached := by
  have hsane := h.sane
  have hlow := hsane.nonneg who p .balance (by decide)
  have hle := amount_le_tokensOf hsane.nonneg (show TallyType.balance ≠ .pending by decide) who p
  have hcached := hsane.cached p
  have hrun := @assertUpdate_eq A _ (fun _ _ => false) s.tally who p amount .balance (by omega)
    (fun _ _ => rfl) (by omega) (by omega)
  obtain ⟨⟨bRet, tally'⟩, hupdate, hrun⟩ := bind_eq_ok.mp hrun
  obtain ⟨_, -, hrun⟩ := bind_eq_ok.mp hrun
  cases hrun
  refine h.step (.update hupdate ?_)
  rw [tokensOf_add (by decide), if_pos rfl]
  exact hmax

end States

/-! ## §6. With and without holders. -/

theorem testTally_reached : (⟨testTally, {}, 0⟩ : FeeState Nat).Reached := by
  have hfirst := FeeState.Reached.start.credit 1 TEST_ECO_PROPERTY_1
    (show (0 : Int) < 100000 by decide) (by decide)
  exact hfirst.credit 2 (TEST_ECO_PROPERTY_1 + 1) (show (0 : Int) < 100000 by decide)
    (by decide +kernel)

/-- The same with one TELYSIUM in the hands of the first address. -/
def heldTally : TallyMap Nat := testTally.add 1 (ELYSIUM_PROPERTY_TELYSIUM, .balance) 1

/-- There a fee of 7 is distributed at once. -/
theorem distribution_settles_held :
    Settles ⟨heldTally, {}, 0⟩ TEST_ECO_PROPERTY_1 7
      (addFee sampleEnv heldTally {} TEST_ECO_PROPERTY_1 0 7) := by
  have hreached : (⟨heldTally, {}, 0⟩ : FeeState Nat).Reached :=
    testTally_reached.credit 1 ELYSIUM_PROPERTY_TELYSIUM (show (0 : Int) < 1 by decide)
      (by decide +kernel)
  exact ((distribution_settles_iff sampleEnv hreached TEST_ECO_PROPERTY_1).1 7 (by decide)
    (by decide +kernel) (by decide)).mpr (.inr ⟨1, by decide +kernel⟩)

/-- **Nobody holds TELYSIUM**: the first trade between two properties of the test ecosystem that
pays a fee fails the final assertion of the distribution. -/
theorem noHolders_asserts :
    (⟨testTally, {}, 0⟩ : FeeState Nat).Reached ∧
      (runMarket sampleEnv testMarket [.add 1 TEST_ECO_PROPERTY_1 50000 100
        (TEST_ECO_PROPERTY_1 + 1) 100000 7 0]).toOption.isSome = true ∧
      (runMarket sampleEnv testMarket
        [.add 1 TEST_ECO_PROPERTY_1 50000 100 (TEST_ECO_PROPERTY_1 + 1) 100000 7 0,
          .add 2 (TEST_ECO_PROPERTY_1 + 1) 30000 101 TEST_ECO_PROPERTY_1 10000 8 0]).map
        (fun _ => ()) = .error .assertion ∧
      (addFee sampleEnv testTally {} TEST_ECO_PROPERTY_1 0 7).map (fun _ => ()) =
        .error .assertion := by
  refine ⟨testTally_reached, ?_, ?_, ?_⟩
  · decide +kernel
  · decide +kernel
  · decide +kernel

end Zcoin.Elysium
