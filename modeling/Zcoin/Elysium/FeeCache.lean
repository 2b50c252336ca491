/-
  Zcoin.Elysium.FeeCache — fees of trades and their distribution (`elysium/fees.cpp`,
  `elysium/sto.cpp`).

  The fee cache keeps, for every property, the amounts after each block that changed it; the
  last of them is the current one.  When a fee brings it to the threshold, the whole amount is
  distributed among the holders of the native token of the ecosystem.
-/
import Zcoin.Elysium.Tally

namespace Zcoin.Elysium

open Lib Lib.Except Function List Nat

/-! ## §1. The cache. -/

/-- `elysium.h`: `MAX_STATE_HISTORY`. -/
def MAX_STATE_HISTORY : Int := 50

/-- A `feeCacheItem`: a block and the amount after it. -/
abbrev FeeCacheItem := Int × Int

/-- `CElysiumFeeCache` and the global `distributionThresholds`.  A property without record has
no items. -/
structure FeeCache where
  record : PropertyId → List FeeCacheItem := fun _ => []
  distributionThresholds : PropertyId → Int := fun _ => 0

/-- `insert` into the `std::set` of items. -/
def insertItem (item : FeeCacheItem) : List FeeCacheItem → List FeeCacheItem
  | [] => [item]
  | other :: items =>
    if item = other then other :: items
    else if item.1 < other.1 ∨ (item.1 = other.1 ∧ item.2 < other.2) then item :: other :: items
    else other :: insertItem item items

variable (cache : FeeCache)

/-- `GetCacheHistory`. -/
def FeeCache.getCacheHistory (propertyId : PropertyId) : List FeeCacheItem :=
  (cache.record propertyId).foldl (fun items item => insertItem item items) []

/-- `GetCachedAmount`: the set is sorted by block, so that the last entry is most recent. -/
def FeeCache.getCachedAmount (propertyId : PropertyId) : Int :=
  match (cache.getCacheHistory propertyId).getLast? with
  | some mostRecentItem => mostRecentItem.2
  | none => 0

/-- Rewriting a record: older entries of the same block are discarded. -/
def FeeCache.put (propertyId : PropertyId) (items : List FeeCacheItem) : FeeCache :=
  { cache with record := Function.update cache.record propertyId items }

/-- `PruneCache`: a matured entry is skipped only when fees are logged (`elysium_debug_fees`). -/
def FeeCache.pruneCache (debugFees : Bool) (cache : FeeCache) (propertyId : PropertyId)
    (block : Int) : FeeCache :=
  let pruneBlock := block - MAX_STATE_HISTORY
  let items := cache.getCacheHistory propertyId
  match items.head?, items.getLast? with
  | some firstItem, some mostRecentItem =>
    if firstItem.1 ≥ pruneBlock then cache
    else
      let kept := items.filter fun item => !(debugFees && item.1 < pruneBlock)
      cache.put propertyId (if kept.isEmpty then [mostRecentItem] else kept)
  | _, _ => cache

/-- Sets the amount after a block. -/
def FeeCache.write (debugFees : Bool) (cache : FeeCache) (propertyId : PropertyId)
    (block amount : Int) : FeeCache :=
  let items := (cache.getCacheHistory propertyId).filter fun item => item.1 ≠ block
  (cache.put propertyId (items ++ [(block, amount)])).pruneCache debugFees propertyId block

/-- `ClearCache`. -/
def FeeCache.clearCache (debugFees : Bool) (cache : FeeCache) (propertyId : PropertyId)
    (block : Int) : FeeCache :=
  cache.write debugFees propertyId block 0

/-! ## §2. Receivers. -/

/-- `isTestEcosystemProperty`. -/
def isTestEcosystemProperty (propertyId : PropertyId) : Bool :=
  propertyId = ELYSIUM_PROPERTY_TELYSIUM || TEST_ECO_PROPERTY_1 ≤ propertyId

section Distribution

variable {A : Type} [LinearOrder A]

/-- The order in which `SendToOwners_compare` sets are walked from their end: the largest
amount first, and of equal ones the smallest address. -/
def sendToOwnersOrder (x y : Int × A) : Prop := y.1 < x.1 ∨ (x.1 = y.1 ∧ x.2 ≤ y.2)

instance : DecidableRel (sendToOwnersOrder (A := A)) := fun x y =>
  inferInstanceAs (Decidable (y.1 < x.1 ∨ (x.1 = y.1 ∧ x.2 ≤ y.2)))

/-- The loop that splits up the amount. -/
def splitAmong (amount totalTokens : Int) : List (Int × A) → Int → Except Abort (List (Int × A))
  | [], _ => .ok []
  | (tokens, address) :: owners, sentSoFar => do
    let owns ← convertTo256 tokens
    let amount256 ← convertTo256 amount
    let temp ← mul256 owns amount256
    let total256 ← convertTo256 totalTokens
    let piece ← divideAndRoundUp temp total256
    let shouldReceive ← convertTo64 piece
    -- ensure that no more than available is distributed
    let willReallyReceive :=
      if amount - sentSoFar < shouldReceive then amount - sentSoFar else shouldReceive
    if willReallyReceive > 0 then
      let receivers ← splitAmong amount totalTokens owners (sentSoFar + willReallyReceive)
      return (willReallyReceive, address) :: receivers
    else return []

/-- `STO_GetReceivers`; the sender is excluded. -/
def stoGetReceivers (tally : TallyMap A) (sender : Option A) (property : PropertyId)
    (amount : Int) : Except Abort (List (Int × A)) := do
  let holders := tally.accounts.filter fun a => some a ≠ sender
  let totalTokens ← sumInt64 (holders.map (tally.held (tokenKinds property)))
  let owners := (holders.map fun a => (tally.held (tokenKinds property) a, a)).filter (0 < ·.1)
  let receivers ← splitAmong amount totalTokens (owners.insertionSort sendToOwnersOrder) 0
  return receivers.insertionSort sendToOwnersOrder

/-! ## §3. Distribution. -/

/-- The rules of the chain the token layer depends on. -/
structure TokenEnv (A : Type) where
  /-- `isAddressFrozen` -/
  frozen : A → PropertyId → Bool
  /-- `IsFeatureActivated(FEATURE_FEES, block)` -/
  feesActive : Int → Bool
  /-- `elysium_debug_fees` -/
  debugFees : Bool

variable (env : TokenEnv A)

/-- Credits the receivers one after the other. -/
def creditAll (propertyId : PropertyId) (tally : TallyMap A) (receivers : List (Int × A)) :
    Except Abort (TallyMap A × Int) :=
  receivers.foldlM (fun (state : TallyMap A × Int) receiver => do
    let tally ← assertUpdate env.frozen state.1 receiver.2 propertyId receiver.1 .balance
    return (tally, state.2 + receiver.1)) (tally, 0)

variable (tally : TallyMap A) (cache : FeeCache)

/-- `DistributeCache`; `"FEEDISTRIBUTION"` is not an address. -/
def distributeCache (propertyId : PropertyId) (block : Int) :
    Except Abort (TallyMap A × FeeCache) := do
  let cachedAmount := cache.getCachedAmount propertyId
  let native := if isTestEcosystemProperty propertyId then ELYSIUM_PROPERTY_TELYSIUM
    else ELYSIUM_PROPERTY_ELYSIUM
  let receiversSet ← stoGetReceivers tally none native cachedAmount
  let (tally, sentSoFar) ← creditAll env propertyId tally receiversSet
  -- final check to ensure the entire fee cache was distributed, then empty the cache
  assertThat (decide (sentSoFar = cachedAmount))
  return (tally, cache.clearCache env.debugFees propertyId block)

/-- `EvalCache`. -/
def evalCache (propertyId : PropertyId) (block : Int) : Except Abort (TallyMap A × FeeCache) :=
  if cache.getCachedAmount propertyId ≥ cache.distributionThresholds propertyId then
    distributeCache env tally cache propertyId block
  else .ok (tally, cache)

/-- `AddFee`; the forced shutdown on an overflow of the cache is `Abort.overflow`. -/
def addFee (propertyId : PropertyId) (block amount : Int) :
    Except Abort (TallyMap A × FeeCache) := do
  let newCachedAmount ← fit64 (cache.getCachedAmount propertyId + amount)
  evalCache env tally (cache.write env.debugFees propertyId block newCachedAmount) propertyId block

end Distribution

/-! ## §4. The current amount. -/

/-- The blocks of a record increase. -/
def Increasing (items : List FeeCacheItem) : Prop := items.Pairwise fun x y => x.1 < y.1

variable {items : List FeeCacheItem} {cache : FeeCache} {p : PropertyId} {block : Int}

theorem insertItem_last {item : FeeCacheItem} (h : ∀ x ∈ items, x.1 < item.1) :
    insertItem item items = items ++ [item] := by
  induction items with
  | nil => rfl
  | cons other items ih =>
    have hother := h other mem_cons_self
    have hne : item ≠ other := by
      intro heq
      rw [heq] at hother
      omega
    unfold insertItem
    rw [if_neg hne, if_neg (by omega), ih fun x hx => h x (mem_cons_of_mem other hx)]
    rfl

/-- **A record in order is its own history.** -/
theorem getCacheHistory_eq (h : Increasing (cache.record p)) :
    cache.getCacheHistory p = cache.record p := by
  unfold FeeCache.getCacheHistory
  generalize cache.record p = items at h ⊢
  induction items using reverseRecOn with
  | nil => rfl
  | append_singleton items item ih =>
    obtain ⟨hitems, -, hbefore⟩ := pairwise_append.mp h
    rw [foldl_concat, ih hitems]
    exact insertItem_last fun x hx => hbefore x hx item mem_cons_self

variable {amount : Int}

theorem getCachedAmount_eq (h : Increasing (cache.record p))
    (hrecord : cache.record p = items ++ [(block, amount)]) : cache.getCachedAmount p = amount := by
  unfold FeeCache.getCachedAmount
  rw [getCacheHistory_eq h, hrecord, getLast?_append]
  rfl

theorem record_put (cache : FeeCache) (p : PropertyId) (items : List FeeCacheItem) :
    (cache.put p items).record p = items := by
  show update cache.record p items p = items
  rw [update_self]

theorem filter_matured (debugFees : Bool) (items : List FeeCacheItem) (block amount : Int) :
    (items ++ [(block, amount)]).filter
        (fun item => !(debugFees && decide (item.1 < block - MAX_STATE_HISTORY))) =
      items.filter (fun item => !(debugFees && decide (item.1 < block - MAX_STATE_HISTORY))) ++
        [(block, amount)] := by
  have hlast : decide (block < block - MAX_STATE_HISTORY) = false := by
    unfold MAX_STATE_HISTORY
    exact decide_eq_false (by omega)
  rw [filter_append, filter_cons_of_pos (by simp [hlast]), filter_nil]

/-- **Pruning** drops the matured items when fees are logged. -/
theorem pruneCache_record (debugFees : Bool)
    (hrecord : cache.record p = items ++ [(block, amount)])
    (h : Increasing (items ++ [(block, amount)])) :
    (cache.pruneCache debugFees p block).record p = (items ++ [(block, amount)]).filter
      (fun item => !(debugFees && decide (item.1 < block - MAX_STATE_HISTORY))) := by
  have hhistory : cache.getCacheHistory p = items ++ [(block, amount)] := by
    rw [getCacheHistory_eq (by rw [hrecord]; exact h), hrecord]
  obtain ⟨firstItem, rest, hfirst⟩ := exists_cons_of_ne_nil (concat_ne_nil (block, amount) items)
  unfold FeeCache.pruneCache
  rw [hhistory]
  dsimp only
  rw [getLast?_concat, hfirst]
  dsimp only [head?_cons]
  split
  · next hnone =>
    -- the first item is the oldest
    rw [hrecord, hfirst, filter_eq_self.mpr]
    intro x hx
    have hle : firstItem.1 ≤ x.1 := by
      rw [hfirst] at h
      rcases mem_cons.mp hx with rfl | hx
      · exact le_rfl
      · exact Int.le_of_lt ((pairwise_cons.mp h).1 x hx)
    have hold : decide (x.1 < block - MAX_STATE_HISTORY) = false :=
      decide_eq_false (by omega)
    rw [hold, Bool.and_false]
    rfl
  · rw [record_put, ← hfirst, filter_matured, if_neg (by simp)]

/-- **A record that was written**, item by item. -/
theorem write_record (debugFees : Bool) (h : Increasing (cache.record p))
    (hnewest : ∀ x ∈ cache.record p, x.1 ≤ block) (amount : Int) :
    Increasing ((cache.record p).filter (fun item => item.1 ≠ block) ++ [(block, amount)]) ∧
      (cache.write debugFees p block amount).record p =
        ((cache.record p).filter (fun item => item.1 ≠ block) ++ [(block, amount)]).filter
          (fun item => !(debugFees && decide (item.1 < block - MAX_STATE_HISTORY))) := by
  have hincreasing : Increasing ((cache.record p).filter (fun item => item.1 ≠ block) ++
      [(block, amount)]) := by
    refine pairwise_append.mpr ⟨h.sublist filter_sublist, pairwise_singleton _ _, ?_⟩
    intro x hx y hy
    obtain ⟨hmem, hne⟩ := mem_filter.mp hx
    have hle := hnewest x hmem
    have hneq : x.1 ≠ block := of_decide_eq_true hne
    rw [mem_singleton.mp hy]
    show x.1 < block
    omega
  refine ⟨hincreasing, ?_⟩
  unfold FeeCache.write
  rw [getCacheHistory_eq h]
  exact pruneCache_record debugFees (record_put cache p _) hincreasing

/-- **After a write** the record is in order, ends with the block, and shows the amount. -/
theorem write_spec (debugFees : Bool) (h : Increasing (cache.record p))
    (hnewest : ∀ x ∈ cache.record p, x.1 ≤ block) (amount : Int) :
    Increasing ((cache.write debugFees p block amount).record p) ∧
      (∀ x ∈ (cache.write debugFees p block amount).record p, x.1 ≤ block) ∧
      (cache.write debugFees p block amount).getCachedAmount p = amount := by
  obtain ⟨hincreasing, hrecord⟩ := write_record debugFees h hnewest amount
  have hwritten : Increasing ((cache.write debugFees p block amount).record p) := by
    rw [hrecord]
    exact hincreasing.sublist filter_sublist
  refine ⟨hwritten, ?_, ?_⟩
  · intro x hx
    rw [hrecord] at hx
    rcases mem_append.mp (mem_filter.mp hx).1 with hx | hx
    · exact hnewest x (mem_filter.mp hx).1
    · rw [mem_singleton.mp hx]
  · rw [filter_matured] at hrecord
    exact getCachedAmount_eq hwritten hrecord

theorem write_record_of_ne (debugFees : Bool) (cache : FeeCache) {q : PropertyId} (hq : q ≠ p)
    (block amount : Int) : (cache.write debugFees p block amount).record q = cache.record q := by
  have hput : ∀ (cache : FeeCache) (items : List FeeCacheItem),
      (cache.put p items).record q = cache.record q := by
    intro cache items
    exact update_of_ne hq items cache.record
  have hprune : ∀ cache : FeeCache,
      (cache.pruneCache debugFees p block).record q = cache.record q := by
    intro cache
    unfold FeeCache.pruneCache
    dsimp only
    split
    · split
      · rfl
      · exact hput _ _
    · rfl
  unfold FeeCache.write
  rw [hprune, hput]

theorem write_thresholds (debugFees : Bool) (cache : FeeCache) (p : PropertyId)
    (block amount : Int) :
    (cache.write debugFees p block amount).distributionThresholds =
      cache.distributionThresholds := by
  unfold FeeCache.write FeeCache.pruneCache
  dsimp only
  split
  · split <;> rfl
  · rfl

theorem getCachedAmount_of_record_eq {cache' : FeeCache} (h : cache'.record p = cache.record p) :
    cache'.getCachedAmount p = cache.getCachedAmount p := by
  unfold FeeCache.getCachedAmount FeeCache.getCacheHistory
  rw [h]

/-! ## §5. Splitting up an amount. -/

section Splitting

variable {A : Type}

/-- `DivideAndRoundUp` is the least integer not below the quotient. -/
theorem divideAndRoundUp_eq {n d : Nat} (hd : 0 < d) (hn : n < 2 ^ 255) :
    ∃ q, divideAndRoundUp n d = .ok q ∧ ∀ m, q ≤ m ↔ n ≤ d * m := by
  unfold divideAndRoundUp
  split
  · exact ⟨0, rfl, fun m => by omega⟩
  · have hquotient : (n - 1) / d ≤ n - 1 := Nat.div_le_self _ _
    refine ⟨1 + (n - 1) / d, ?_, fun m => ?_⟩
    · rw [div256_of_ne_zero (by omega), ok_bind, add256_of_lt (by omega)]
    · rw [Nat.one_add_le_iff, Nat.div_lt_iff_lt_mul hd, Nat.mul_comm]
      omega

/-- The share of an owner, rounded up. -/
def shareOf (amount totalTokens tokens : Int) : Int := ⌈(amount * tokens : ℚ) / totalTokens⌉

variable {totalTokens amount tokens : Int} {owners : List (Int × A)}

theorem shareOf_le_iff (htotal : 0 < totalTokens) {share : Int} :
    shareOf amount totalTokens tokens ≤ share ↔ amount * tokens ≤ share * totalTokens := by
  have hpos : (0 : ℚ) < totalTokens := by exact_mod_cast htotal
  unfold shareOf
  rw [Int.ceil_le, div_le_iff₀ hpos]
  norm_cast

theorem lt_shareOf_iff (htotal : 0 < totalTokens) {share : Int} :
    share < shareOf amount totalTokens tokens ↔ share * totalTokens < amount * tokens := by
  rw [← not_le, shareOf_le_iff htotal, not_le]

/-- **One owner**: it receives its share, or what is left of the amount. -/
theorem splitAmong_cons (hamount : 0 ≤ amount) (hmax : amount ≤ maxInt64)
    (htotalMax : totalTokens ≤ maxInt64) (htokens : 0 < tokens ∧ tokens ≤ totalTokens) (address : A)
    (owners : List (Int × A)) (sent : Int) :
    splitAmong amount totalTokens ((tokens, address) :: owners) sent =
      let will := min (amount - sent) (shareOf amount totalTokens tokens)
      if will > 0 then
        (splitAmong amount totalTokens owners (sent + will)).map ((will, address) :: ·)
      else .ok [] := by
  -- everything in natural numbers
  obtain ⟨n, rfl⟩ := Int.eq_ofNat_of_zero_le htokens.1.le
  obtain ⟨m, rfl⟩ := Int.eq_ofNat_of_zero_le hamount
  obtain ⟨d, rfl⟩ := Int.eq_ofNat_of_zero_le (show 0 ≤ totalTokens by omega)
  have hd : 0 < d := by omega
  have hproduct : n * m < 2 ^ 255 := mul_lt_of_le (by omega) (by omega)
  obtain ⟨q, hq, hle⟩ := divideAndRoundUp_eq hd hproduct
  have hqm : q ≤ m := (hle m).mpr (mul_le_mul_right m (by omega))
  have hshare : shareOf m d n = q := by
    have htotal : (0 : Int) < d := by omega
    apply le_antisymm
    · rw [shareOf_le_iff htotal, mul_comm (m : Int), mul_comm (q : Int)]
      exact_mod_cast (hle q).mp le_rfl
    · have hneg : -1 < shareOf m d n := by
        rw [lt_shareOf_iff htotal]
        have hnonneg := Int.natCast_nonneg (m * n)
        push_cast at hnonneg
        omega
      obtain ⟨x, hx⟩ := Int.eq_ofNat_of_zero_le (show 0 ≤ shareOf m d n by omega)
      have hcover := (shareOf_le_iff htotal).mp hx.le
      rw [mul_comm (m : Int), mul_comm (x : Int)] at hcover
      have hqx := (hle x).mpr (by exact_mod_cast hcover)
      omega
  have hwill : (if (m : Int) - sent < q then m - sent else q) = min (m - sent) (q : Int) := by
    split <;> omega
  rw [splitAmong, convertTo256_ofNat, ok_bind, convertTo256_ofNat, ok_bind,
    mul256_of_lt (lt_trans hproduct (by decide)), ok_bind, convertTo256_ofNat, ok_bind,
    hq, ok_bind, convertTo64_of_le (by omega), ok_bind]
  dsimp only
  rw [hwill, hshare]
  split
  · rfl
  · rfl

/-- **How owners are served**: in their order, all but the last receiver with their whole share. -/
inductive Served (share : Int → Int) : List (Int × A) → List (Int × A) → Prop where
  | stop (owners : List (Int × A)) : Served share owners []
  | last {tokens will : Int} (address : A) (owners : List (Int × A)) : 0 < will →
      will ≤ share tokens → Served share ((tokens, address) :: owners) [(will, address)]
  | full {tokens : Int} (address : A) {owners receivers : List (Int × A)} : 0 < share tokens →
      Served share owners receivers →
      Served share ((tokens, address) :: owners) ((share tokens, address) :: receivers)

variable {receivers : List (Int × A)} {share : Int → Int}

theorem Served.pos (h : Served share owners receivers) : ∀ r ∈ receivers, 0 < r.1 := by
  induction h with
  | stop => exact forall_mem_nil _
  | last address _ hwill _ => exact forall_mem_singleton.mpr hwill
  | full address hshare _ ih => exact forall_mem_cons.mpr ⟨hshare, ih⟩

theorem Served.le_share (h : Served share owners receivers) :
    ∀ r ∈ receivers, ∃ o ∈ owners, o.2 = r.2 ∧ r.1 ≤ share o.1 := by
  induction h with
  | stop => exact forall_mem_nil _
  | last address owners _ hle =>
    exact forall_mem_singleton.mpr ⟨_, mem_cons_self, rfl, hle⟩
  | full address _ _ ih =>
    refine forall_mem_cons.mpr ⟨⟨_, mem_cons_self, rfl, le_rfl⟩, fun r hr => ?_⟩
    obtain ⟨o, ho, hr⟩ := ih r hr
    exact ⟨o, mem_cons_of_mem _ ho, hr⟩

theorem sum_fst_nonneg (h : ∀ r ∈ receivers, 0 < r.1) : 0 ≤ (receivers.map Prod.fst).sum :=
  sum_nonneg (forall_mem_map.mpr fun r hr => Int.le_of_lt (h r hr))

theorem splitAmong_done (hamount : 0 ≤ amount) (hmax : amount ≤ maxInt64)
    (htotalMax : totalTokens ≤ maxInt64) (howners : ∀ o ∈ owners, 0 < o.1 ∧ o.1 ≤ totalTokens) :
    splitAmong amount totalTokens owners amount = .ok [] := by
  cases owners with
  | nil => rfl
  | cons owner owners =>
    rw [splitAmong_cons hamount hmax htotalMax (howners owner mem_cons_self)]
    exact if_neg (by omega)

/-- **Splitting an amount** gives out what was left of it, as long as that is not more than the
share of the owners that follow. -/
theorem splitAmong_spec (hamount : 0 ≤ amount) (hmax : amount ≤ maxInt64) (htotal : 0 < totalTokens)
    (htotalMax : totalTokens ≤ maxInt64) (howners : ∀ o ∈ owners, 0 < o.1 ∧ o.1 ≤ totalTokens)
    {sent : Int} (hsent : 0 ≤ sent) (hleft : sent ≤ amount)
    (hshare : (amount - sent) * totalTokens ≤ amount * (owners.map Prod.fst).sum) :
    ∃ receivers, splitAmong amount totalTokens owners sent = .ok receivers ∧
      Served (shareOf amount totalTokens) owners receivers ∧
      (receivers.map Prod.fst).sum = amount - sent := by
  rcases eq_or_lt_of_le hleft with rfl | hrest
  · exact ⟨[], splitAmong_done hamount hmax htotalMax howners, Served.stop _, (sub_self _).symm⟩
  induction owners generalizing sent with
  | nil =>
    rw [map_nil, sum_nil, mul_zero] at hshare
    have hnone : amount - sent ≤ 0 := nonpos_of_mul_nonpos_left hshare htotal
    omega
  | cons owner owners ih =>
    obtain ⟨tokens, address⟩ := owner
    obtain ⟨htokens, howners⟩ := forall_mem_cons.mp howners
    replace hshare : (amount - sent) * totalTokens ≤
        amount * (tokens + (owners.map Prod.fst).sum) := hshare
    have hpos : 0 < shareOf amount totalTokens tokens := by
      rw [lt_shareOf_iff htotal, zero_mul]
      exact mul_pos (by omega) htokens.1
    rw [splitAmong_cons hamount hmax htotalMax htokens]
    dsimp only
    rw [if_pos (lt_min (by omega) hpos)]
    by_cases hshort : amount - sent ≤ shareOf amount totalTokens tokens
    · -- the rest of the amount; nothing is left for those who follow
      rw [min_eq_left hshort, add_sub_cancel, splitAmong_done hamount hmax htotalMax howners]
      exact ⟨_, rfl, Served.last address owners (by omega) hshort, sum_singleton⟩
    · have hcover := (shareOf_le_iff htotal).mp (le_refl (shareOf amount totalTokens tokens))
      rw [min_eq_right (by omega)]
      obtain ⟨receivers, hrun, hserved, hsum⟩ := ih howners
        (show 0 ≤ sent + shareOf amount totalTokens tokens by omega) (by omega) (by nlinarith)
        (by omega)
      rw [hrun]
      refine ⟨_, rfl, Served.full address hpos hserved, ?_⟩
      rw [map_cons, sum_cons, hsum]
      omega

end Splitting

/-! ## §6. Holders. -/

section Holders

variable {A : Type} {tally : TallyMap A}

theorem held_nonneg (hnonneg : NonNegative tally) (native : PropertyId) (a : A) :
    0 ≤ tally.held (tokenKinds native) a := by
  apply sum_nonneg
  intro x hx
  obtain ⟨k, hk, rfl⟩ := mem_map.mp hx
  unfold tokenKinds at hk
  simp only [mem_cons, not_mem_nil, or_false] at hk
  rcases hk with rfl | rfl | rfl | rfl <;> exact hnonneg a native _ (by decide)

theorem held_all_nonneg (hnonneg : NonNegative tally) (native : PropertyId) (holders : List A) :
    ∀ x ∈ holders.map (tally.held (tokenKinds native)), 0 ≤ x :=
  forall_mem_map.mpr fun a _ => held_nonneg hnonneg native a

theorem sum_owners (hnonneg : NonNegative tally) (native : PropertyId) (holders : List A) :
    (((holders.map fun a => (tally.held (tokenKinds native) a, a)).filter
      fun o => 0 < o.1).map Prod.fst).sum = (holders.map (tally.held (tokenKinds native))).sum := by
  induction holders with
  | nil => rfl
  | cons a as ih =>
    have ha := held_nonneg hnonneg native a
    rw [map_cons, map_cons, sum_cons, filter_cons]
    split
    · rw [map_cons, sum_cons, ih]
    · next hnot =>
      have hzero : tally.held (tokenKinds native) a = 0 := by
        have hle : ¬ 0 < tally.held (tokenKinds native) a :=
          fun hlt => hnot (decide_eq_true hlt)
        omega
      rw [ih, hzero, zero_add]

end Holders

/-! ## §7. Crediting. -/

section Crediting

variable {A : Type}

/-- **A tally to which an amount of a property was credited**, spread over balances. -/
structure Credited (tally tally' : TallyMap A) (p : PropertyId) (amount : Int) : Prop where
  same : ∀ a k, k ≠ (p, .balance) → tally'.amount a k = tally.amount a k
  grown : ∀ a, tally.amount a (p, .balance) ≤ tally'.amount a (p, .balance)
  total : ∀ k, tally'.total k = tally.total k + if k = (p, .balance) then amount else 0

theorem Credited.refl (tally : TallyMap A) (p : PropertyId) : Credited tally tally p 0 where
  same := fun _ _ _ => rfl
  grown := fun _ => le_rfl
  total := by omega

variable {amount : Int} {p : PropertyId} {tally tally' : TallyMap A}
  (h : Credited tally tally' p amount)
include h

theorem Credited.trans {tally'' : TallyMap A} {amount' : Int}
    (h' : Credited tally' tally'' p amount') :
    Credited tally tally'' p (amount + amount') where
  same := fun a k hk => (h'.same a k hk).trans (h.same a k hk)
  grown := fun a => le_trans (h.grown a) (h'.grown a)
  total := by
    intro k
    rw [h'.total, h.total]
    split <;> omega

theorem Credited.nonNegative (hnonneg : NonNegative tally) : NonNegative tally' := by
  intro a q t ht
  by_cases hk : (q, t) = (p, TallyType.balance)
  · rw [hk]
    exact le_trans (hnonneg a p .balance (by decide)) (h.grown a)
  · rw [h.same a (q, t) hk]
    exact hnonneg a q t ht

theorem Credited.tokensOf (q : PropertyId) :
    tokensOf tally' q = tokensOf tally q + if q = p then amount else 0 := by
  rw [tokensOf_eq, tokensOf_eq, h.total, h.total, h.total, h.total]
  by_cases hq : q = p
  · simp [hq]
    omega
  · simp [hq]

omit h

variable [DecidableEq A]

theorem Credited.add (tally : TallyMap A) (who : A) (p : PropertyId) (hamount : 0 ≤ amount) :
    Credited tally (tally.add who (p, .balance) amount) p amount where
  same := by
    intro a k hk
    rw [Ledger.amount_add, if_neg (fun h => hk h.2), add_zero]
  grown := by
    intro a
    rw [Ledger.amount_add]
    split <;> omega
  total := fun k => Ledger.total_add tally who (p, .balance) k amount

end Crediting

/-! ## §8. Distributing. -/

variable {A : Type} [LinearOrder A] {env : TokenEnv A} {tally : TallyMap A} {p : PropertyId}

/-- **The receivers are credited** as long as the balances of the property stay in range. -/
theorem creditAll_spec (hnonneg : NonNegative tally) {receivers : List (Int × A)}
    (hpos : ∀ r ∈ receivers, 0 < r.1)
    (hmax : tally.total (p, .balance) + (receivers.map Prod.fst).sum ≤ maxInt64) :
    ∃ state, creditAll env p tally receivers = .ok state ∧ state.2 = (receivers.map Prod.fst).sum ∧
      Credited tally state.1 p state.2 ∧
      ∀ a, (∀ r ∈ receivers, r.2 ≠ a) → ∀ k, state.1.amount a k = tally.amount a k := by
  refine exists_foldlM_ok (fun pre (state : TallyMap A × Int) => state.2 = (pre.map Prod.fst).sum ∧
    Credited tally state.1 p state.2 ∧
    ∀ a, (∀ r ∈ pre, r.2 ≠ a) → ∀ k, state.1.amount a k = tally.amount a k) ?_
    ⟨rfl, Credited.refl tally p, fun _ _ _ => rfl⟩
  rintro pre r rest rfl ⟨tally₁, _⟩ ⟨rfl, hcredited, hothers⟩
  dsimp only at hcredited hothers
  obtain ⟨-, hpos⟩ := forall_mem_append.mp hpos
  obtain ⟨hr, hrest⟩ := forall_mem_cons.mp hpos
  have hsum := sum_fst_nonneg hrest
  rw [map_append, List.sum_append, map_cons, sum_cons] at hmax
  have hnonneg₁ := hcredited.nonNegative hnonneg
  have htotal := hcredited.total (p, .balance)
  rw [if_pos rfl] at htotal
  have hle := tally₁.amount_le_total (fun b => hnonneg₁ b p .balance (by decide)) r.2
  have hlow := hnonneg₁ r.2 p .balance (by decide)
  have hupdate := @assertUpdate_eq A _ env.frozen tally₁ r.2 p r.1 .balance (by omega)
    (fun _ hneg => absurd hneg (by omega)) (by omega) (by omega)
  refine ⟨_, by rw [hupdate]; rfl, by simp,
    hcredited.trans (Credited.add tally₁ r.2 p (Int.le_of_lt hr)), ?_⟩
  intro a ha k
  obtain ⟨hpre, hr⟩ := forall_mem_append.mp ha
  show (tally₁.add r.2 _ _).amount a k = _
  rw [Ledger.amount_add, if_neg fun h => hr r mem_cons_self h.1.symm, add_zero, hothers a hpre]

/-- The accounts of all but the sender. -/
def othersThan (tally : TallyMap A) (sender : Option A) : List A :=
  tally.accounts.filter fun a => some a ≠ sender

/-- What all but the sender hold. -/
def heldByOthers (tally : TallyMap A) (sender : Option A) (property : PropertyId) : Int :=
  ((othersThan tally sender).map (tally.held (tokenKinds property))).sum

/-- The owners in the order in which they are served. -/
def ownersInOrder (tally : TallyMap A) (sender : Option A) (property : PropertyId) :
    List (Int × A) :=
  (((othersThan tally sender).map fun a => (tally.held (tokenKinds property) a, a)).filter
    fun o => 0 < o.1).insertionSort sendToOwnersOrder

theorem heldByOthers_le (hnonneg : NonNegative tally) (sender : Option A) (property : PropertyId) :
    heldByOthers tally sender property ≤ tokensOf tally property := by
  have hsum := tally.sum_held (tokenKinds property)
  have hle : heldByOthers tally sender property ≤
      (tally.accounts.map (tally.held (tokenKinds property))).sum := by
    apply List.Sublist.sum_le_sum
    · exact List.Sublist.map _ filter_sublist
    · exact held_all_nonneg hnonneg property _
  rw [hsum] at hle
  exact hle

theorem heldByOthers_none (tally : TallyMap A) (property : PropertyId) :
    heldByOthers tally none property = tokensOf tally property := by
  have hall : othersThan tally none = tally.accounts := by
    apply filter_eq_self.mpr
    intro a _
    exact decide_eq_true (Option.some_ne_none a)
  unfold heldByOthers
  rw [hall, Ledger.sum_held]
  rfl

variable (hnonneg : NonNegative tally)
include hnonneg

theorem mem_ownersInOrder {sender : Option A}
    {property : PropertyId} {o : Int × A} (ho : o ∈ ownersInOrder tally sender property) :
    o.1 = tally.held (tokenKinds property) o.2 ∧ o.2 ∈ othersThan tally sender ∧ 0 < o.1 ∧
      o.1 ≤ heldByOthers tally sender property := by
  have hmem := (perm_insertionSort sendToOwnersOrder _).mem_iff.mp ho
  obtain ⟨hmem, hpos⟩ := mem_filter.mp hmem
  obtain ⟨a, ha, rfl⟩ := mem_map.mp hmem
  refine ⟨rfl, ha, of_decide_eq_true hpos, ?_⟩
  apply single_le_sum
  · exact held_all_nonneg hnonneg property _
  · exact mem_map_of_mem ha

theorem sum_ownersInOrder (sender : Option A) (property : PropertyId) :
    ((ownersInOrder tally sender property).map Prod.fst).sum =
      heldByOthers tally sender property := by
  have hperm := perm_insertionSort sendToOwnersOrder
    (((othersThan tally sender).map fun a => (tally.held (tokenKinds property) a, a)).filter
      fun o => 0 < o.1)
  unfold ownersInOrder heldByOthers
  rw [(hperm.map Prod.fst).sum_eq, sum_owners hnonneg]

/-- **The receivers**: the owners are served in their order, and the whole amount is given out
when there are any. -/
theorem stoGetReceivers_spec (sender : Option A) {property : PropertyId}
    (hmax : tokensOf tally property ≤ maxInt64) (hamount : 0 ≤ amount) (hfits : amount ≤ maxInt64) :
    ∃ receivers served, stoGetReceivers tally sender property amount = .ok receivers ∧
      receivers.Perm served ∧
      Served (shareOf amount (heldByOthers tally sender property))
        (ownersInOrder tally sender property) served ∧
      (0 < heldByOthers tally sender property → (receivers.map Prod.fst).sum = amount) ∧
      (heldByOthers tally sender property = 0 → receivers = []) := by
  have hle := heldByOthers_le hnonneg sender property
  have hsum : sumInt64 ((othersThan tally sender).map (tally.held (tokenKinds property))) =
      .ok (heldByOthers tally sender property) := by
    apply sumInt64_eq
    · exact held_all_nonneg hnonneg property _
    · exact le_trans hle hmax
  have hrun : ∀ {served : List (Int × A)}, splitAmong amount (heldByOthers tally sender property)
      (ownersInOrder tally sender property) 0 = .ok served →
      stoGetReceivers tally sender property amount =
        .ok (served.insertionSort sendToOwnersOrder) := by
    intro served hsplit
    show (sumInt64 ((othersThan tally sender).map (tally.held (tokenKinds property))) >>= _) = _
    rw [hsum, ok_bind]
    show (splitAmong amount (heldByOthers tally sender property)
      (ownersInOrder tally sender property) 0 >>= _) = _
    rw [hsplit]
    rfl
  have hrange := fun o => @mem_ownersInOrder A _ tally hnonneg sender property o
  by_cases hholders : 0 < heldByOthers tally sender property
  · obtain ⟨served, hsplit, hserved, htotal⟩ := splitAmong_spec hamount hfits hholders
      (le_trans hle hmax) (fun o ho => (hrange o ho).2.2) le_rfl hamount
      (by rw [sum_ownersInOrder hnonneg, sub_zero])
    have hperm := perm_insertionSort sendToOwnersOrder served
    refine ⟨_, served, hrun hsplit, hperm, hserved, ?_, ?_⟩
    · intro _
      rw [(hperm.map Prod.fst).sum_eq, htotal, sub_zero]
    · intro hzero
      omega
  · -- nobody else holds the property
    have hempty : ownersInOrder tally sender property = [] := by
      apply eq_nil_iff_forall_not_mem.mpr
      intro o ho
      obtain ⟨-, -, hpos, hbound⟩ := hrange o ho
      omega
    have hsplit : splitAmong amount (heldByOthers tally sender property)
        (ownersInOrder tally sender property) 0 = .ok [] := by
      rw [hempty]
      rfl
    refine ⟨_, [], hrun hsplit, List.Perm.refl [], Served.stop _, ?_, ?_⟩
    · omega
    · intro _
      rfl

omit hnonneg

/-- The native token of the ecosystem of a property. -/
def nativeOf (p : PropertyId) : PropertyId :=
  if isTestEcosystemProperty p then ELYSIUM_PROPERTY_TELYSIUM else ELYSIUM_PROPERTY_ELYSIUM

/-- **A distribution**, with holders or with nothing to distribute, moves the whole cache into
balances of holders. -/
theorem distributeCache_spec {cache : FeeCache} (hnonneg : NonNegative tally)
    (hdue : cache.getCachedAmount p = 0 ∨ 0 < tokensOf tally (nativeOf p))
    (hnative : tokensOf tally (nativeOf p) ≤ maxInt64)
    (hcached : 0 ≤ cache.getCachedAmount p)
    (hmax : tally.total (p, .balance) + cache.getCachedAmount p ≤ maxInt64) (block : Int) :
    ∃ tally', distributeCache env tally cache p block =
        .ok (tally', cache.clearCache env.debugFees p block) ∧
      Credited tally tally' p (cache.getCachedAmount p) ∧
      ∀ a, tally'.amount a (p, .balance) ≠ tally.amount a (p, .balance) →
        0 < tally.held (tokenKinds (nativeOf p)) a := by
  have hbalance := hnonneg.total p (show TallyType.balance ≠ .pending by decide)
  obtain ⟨receivers, served, hreceivers, hperm, hserved, hsum, hnone⟩ :=
    stoGetReceivers_spec hnonneg none hnative hcached (by omega)
  rw [heldByOthers_none] at hserved hsum hnone
  have htokens := tokensOf_nonneg hnonneg (nativeOf p)
  have htotal : (receivers.map Prod.fst).sum = cache.getCachedAmount p := by
    rcases Int.lt_or_le 0 (tokensOf tally (nativeOf p)) with hholders | hle
    · exact hsum hholders
    · rw [hnone (by omega)]
      show 0 = cache.getCachedAmount p
      omega
  obtain ⟨⟨tally', _⟩, hcredit, rfl, hcredited, hothers⟩ := @creditAll_spec A _ env tally p hnonneg
    receivers (fun r hr => hserved.pos r (hperm.mem_iff.mp hr)) (by rw [htotal]; exact hmax)
  rw [htotal] at hcredit hcredited
  refine ⟨tally', ?_, hcredited, ?_⟩
  · refine bind_eq_ok.mpr ⟨receivers, hreceivers, bind_eq_ok.mpr ⟨_, hcredit, ?_⟩⟩
    dsimp only
    rw [decide_eq_true rfl]
    rfl
  · intro a hchanged
    -- an address that was credited is a receiver, and so an owner of the native token
    obtain ⟨r, hr, rfl⟩ : ∃ r ∈ receivers, r.2 = a := by
      by_contra hnot
      exact hchanged (hothers a (fun r hr haddress => hnot ⟨r, hr, haddress⟩) _)
    obtain ⟨o, ho, haddress, -⟩ := hserved.le_share r (hperm.mem_iff.mp hr)
    obtain ⟨hheld, -, hpos, -⟩ := mem_ownersInOrder hnonneg ho
    rw [← haddress, ← hheld]
    exact hpos

/-- **A fee**: it enters the cache, and whatever leaves the cache is credited to balances. -/
theorem addFee_spec {cache : FeeCache} {block : Int} (hnonneg : NonNegative tally)
    (hholders : 0 < tokensOf tally (nativeOf p)) (hnative : tokensOf tally (nativeOf p) ≤ maxInt64)
    (hincreasing : Increasing (cache.record p)) (hnewest : ∀ x ∈ cache.record p, x.1 ≤ block)
    (hcached : 0 ≤ cache.getCachedAmount p) (hamount : 0 ≤ amount)
    (hmax : tally.total (p, .balance) + cache.getCachedAmount p + amount ≤ maxInt64) :
    ∃ tally' cache' paid, addFee env tally cache p block amount = .ok (tally', cache') ∧
      0 ≤ paid ∧ Credited tally tally' p paid ∧
      cache'.getCachedAmount p = cache.getCachedAmount p + amount - paid ∧
      0 ≤ cache'.getCachedAmount p ∧ Increasing (cache'.record p) ∧
      (∀ x ∈ cache'.record p, x.1 ≤ block) ∧ (∀ q, q ≠ p → cache'.record q = cache.record q) := by
  have hbalance := hnonneg.total p (show TallyType.balance ≠ .pending by decide)
  obtain ⟨hincreasing', hnewest', hamount'⟩ := write_spec env.debugFees hincreasing hnewest
    (cache.getCachedAmount p + amount)
  have hother := fun q (hq : q ≠ p) => write_record_of_ne env.debugFees cache hq block
    (cache.getCachedAmount p + amount)
  unfold addFee
  rw [fit64_of_range (by omega) (by omega), ok_bind]
  unfold evalCache
  split
  · obtain ⟨tally', hrun, hcredited, -⟩ := @distributeCache_spec A _ env tally p
      (cache.write env.debugFees p block (cache.getCachedAmount p + amount)) hnonneg
      (.inr hholders) hnative (by omega) (by omega) block
    obtain ⟨hincreasing'', hnewest'', hzero⟩ := write_spec env.debugFees hincreasing' hnewest' 0
    rw [hamount'] at hcredited
    refine ⟨tally', _, _, hrun, by omega, hcredited, ?_, ?_, hincreasing'', hnewest'', ?_⟩
    · rw [sub_self]
      exact hzero
    · exact le_of_eq hzero.symm
    · intro q hq
      exact (write_record_of_ne env.debugFees _ hq block 0).trans (hother q hq)
  · refine ⟨tally, _, 0, rfl, le_rfl, Credited.refl tally p, ?_, ?_, hincreasing', hnewest', hother⟩
    · rw [hamount', sub_zero]
    · rw [hamount']
      omega

end Zcoin.Elysium
