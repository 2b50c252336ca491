/-
  Zcoin.Elysium.FeeRollback — rolling the fee cache back (`elysium/fees.cpp`).

  `RollBackCache` discards the items of the disconnected blocks, so that the newest one left is
  the amount of before.  That item is there as long as `PruneCache` kept it: the `continue` that
  discards a matured item stands under the flag that logs fees, and with the flag set the last
  item before a pause of more than `MAX_STATE_HISTORY` blocks is lost.
-/
import Zcoin.Elysium.FeeCache

namespace Zcoin.Elysium

open Lib Lib.Except List

/-! ## §1. `RollBackCache`. -/

/-- The body of the loop of `RollBackCache`. -/
def FeeCache.rollBackProperty (block : Int) (cache : FeeCache) (propertyId : PropertyId) :
    FeeCache :=
  let items := cache.getCacheHistory propertyId
  match items.getLast? with
  | some mostRecentItem =>
    -- all entries are unaffected by this rollback, nothing to do
    if mostRecentItem.1 < block then cache
    else cache.put propertyId (items.filter fun item => item.1 < block)
  | none => cache

variable (sps : CMPSPInfo)

/-- The properties of an ecosystem, in the order of the loop. -/
def CMPSPInfo.propertiesOf (ecosystem : Nat) : List PropertyId :=
  let startPropertyId := if ecosystem = 1 then 1 else TEST_ECO_PROPERTY_1
  List.range' startPropertyId (sps.peekNextSPID ecosystem - startPropertyId)

/-- The properties that exist. -/
def CMPSPInfo.properties : List PropertyId := [1, 2].flatMap sps.propertiesOf

/-- `RollBackCache`; the block is inclusive. -/
def FeeCache.rollBackCache (cache : FeeCache) (block : Int) : FeeCache :=
  sps.properties.foldl (FeeCache.rollBackProperty block) cache

variable {cache : FeeCache} {p : PropertyId}

theorem rollBackProperty_record (block : Int) (h : Increasing (cache.record p)) :
    (cache.rollBackProperty block p).record p =
      (cache.record p).filter fun item => item.1 < block := by
  unfold FeeCache.rollBackProperty
  rw [getCacheHistory_eq h]
  dsimp only
  split
  · next mostRecentItem hlast =>
    split
    · next hbefore =>
      -- the last item is the newest
      obtain ⟨older, hrecord⟩ := getLast?_eq_some_iff.mp hlast
      refine (filter_eq_self.mpr fun x hx => decide_eq_true ?_).symm
      rw [hrecord] at hx h
      rcases mem_append.mp hx with hx | hx
      · have hlt := (pairwise_append.mp h).2.2 x hx _ mem_cons_self
        omega
      · rw [mem_singleton.mp hx]
        exact hbefore
    · exact record_put cache p _
  · next hnone =>
    rw [getLast?_eq_none_iff.mp hnone]
    rfl

theorem rollBackProperty_record_of_ne {q : PropertyId} (block : Int) (hq : q ≠ p) :
    (cache.rollBackProperty block p).record q = cache.record q := by
  unfold FeeCache.rollBackProperty
  dsimp only
  split
  · split
    · rfl
    · exact Function.update_of_ne hq _ cache.record
  · rfl

/-- The loop of `RollBackCache` over any properties. -/
theorem rollBackProperties_record (block : Int) (ids : List PropertyId)
    (h : ∀ p, Increasing (cache.record p)) (p : PropertyId) :
    (ids.foldl (FeeCache.rollBackProperty block) cache).record p =
      if p ∈ ids then (cache.record p).filter fun item => item.1 < block
      else cache.record p := by
  induction ids generalizing cache with
  | nil => rfl
  | cons q ids ih =>
    have hincreasing : ∀ p, Increasing ((cache.rollBackProperty block q).record p) := by
      intro p
      by_cases hp : p = q
      · rw [hp, rollBackProperty_record block (h q)]
        exact (h q).sublist filter_sublist
      · rw [rollBackProperty_record_of_ne block hp]
        exact h p
    rw [foldl_cons, ih hincreasing]
    by_cases hp : p = q
    · -- rolling back twice changes nothing more
      rw [hp, rollBackProperty_record block (h q), if_pos mem_cons_self, filter_filter]
      simp only [Bool.and_self, ite_self]
    · rw [rollBackProperty_record_of_ne block hp]
      simp only [mem_cons, hp, false_or]

/-- **`RollBackCache`** leaves of an existing property the items before the block. -/
theorem rollBackCache_record {sps : CMPSPInfo} (h : ∀ p, Increasing (cache.record p))
    (hp : p ∈ sps.properties) (block : Int) :
    (cache.rollBackCache sps block).record p =
      (cache.record p).filter fun item => item.1 < block := by
  unfold FeeCache.rollBackCache
  rw [rollBackProperties_record block _ h, if_pos hp]

/-! ## §2. Runs. -/

section Runs

variable {A : Type} [LinearOrder A]

/-- An operation on the cache.  `AddFee` meets whatever balances and thresholds the other
transactions left. -/
inductive CacheOp (A : Type) where
  | addFee (tally : TallyMap A) (thresholds : PropertyId → Int) (propertyId : PropertyId)
      (block amount : Int)
  | clearCache (propertyId : PropertyId) (block : Int)

/-- The property of an operation. -/
def CacheOp.property : CacheOp A → PropertyId
  | .addFee _ _ propertyId _ _ => propertyId
  | .clearCache propertyId _ => propertyId

/-- The block of an operation. -/
def CacheOp.block : CacheOp A → Int
  | .addFee _ _ _ block _ => block
  | .clearCache _ block => block

variable (env : TokenEnv A)

/-- One operation, with fees logged or not. -/
def CacheOp.run (debugFees : Bool) (cache : FeeCache) : CacheOp A → Except Abort FeeCache
  | .addFee tally thresholds propertyId block amount => do
    let (_, cache) ← Elysium.addFee { env with debugFees := debugFees } tally
      { cache with distributionThresholds := thresholds } propertyId block amount
    return cache
  | .clearCache propertyId block => .ok (cache.clearCache debugFees propertyId block)

/-- A run from the empty cache. -/
def runCache (debugFees : Bool) (ops : List (CacheOp A)) : Except Abort FeeCache :=
  ops.foldlM (fun cache op => op.run env debugFees cache) {}

/-- The amount `AddFee` leaves in the cache. -/
def amountAfterFee (tally : TallyMap A) (threshold : Int) (propertyId : PropertyId)
    (cached amount : Int) : Except Abort Int := do
  let newCachedAmount ← fit64 (cached + amount)
  if newCachedAmount ≥ threshold then
    let receiversSet ← stoGetReceivers tally none (nativeOf propertyId) newCachedAmount
    let (_, sentSoFar) ← creditAll env propertyId tally receiversSet
    assertThat (decide (sentSoFar = newCachedAmount))
    return 0
  else return newCachedAmount

/-- The amount an operation leaves in the cache; nothing of it depends on the logging. -/
def CacheOp.amountAfter (cached : Int) : CacheOp A → Except Abort Int
  | .addFee tally thresholds propertyId _ amount =>
    amountAfterFee env tally (thresholds propertyId) propertyId cached amount
  | .clearCache _ _ => .ok 0

/-! ## §3. One operation. -/

/-- A cache in which an amount was entered for a block. -/
structure Entered (debugFees : Bool) (cache cache' : FeeCache) (p : PropertyId)
    (block amount : Int) : Prop where
  record : cache'.record p =
    ((cache.record p).filter (fun item => item.1 ≠ block) ++ [(block, amount)]).filter
      (fun item => !(debugFees && decide (item.1 < block - MAX_STATE_HISTORY)))
  others : ∀ q, q ≠ p → cache'.record q = cache.record q

variable {block : Int} {cache : FeeCache} {p : PropertyId}

theorem Entered.record_off {cache' : FeeCache} {amount : Int}
    (h : Entered false cache cache' p block amount) :
    cache'.record p = (cache.record p).filter (fun item => item.1 ≠ block) ++ [(block, amount)] := by
  rw [h.record]
  exact filter_eq_self.mpr fun _ _ => rfl

theorem Entered.write (debugFees : Bool) (h : Increasing (cache.record p))
    (hnewest : ∀ x ∈ cache.record p, x.1 ≤ block) (amount : Int) :
    Entered debugFees cache (cache.write debugFees p block amount) p block amount where
  record := (write_record debugFees h hnewest amount).2
  others := fun _ hq => write_record_of_ne debugFees cache hq block amount

theorem Entered.again {debugFees : Bool} {cache₁ cache₂ : FeeCache} {first second : Int}
    (h₁ : Entered debugFees cache cache₁ p block first)
    (h₂ : Entered debugFees cache₁ cache₂ p block second) :
    Entered debugFees cache cache₂ p block second where
  record := by
    have hne : ([(block, first)].filter fun item : FeeCacheItem => item.1 ≠ block) = [] := by
      simp
    have hagain : (cache₁.record p).filter (fun item => item.1 ≠ block) =
        ((cache.record p).filter fun item => item.1 ≠ block).filter
          (fun item => !(debugFees && decide (item.1 < block - MAX_STATE_HISTORY))) := by
      have htwice : ((cache.record p).filter fun item => item.1 ≠ block).filter
          (fun item => item.1 ≠ block) = (cache.record p).filter fun item => item.1 ≠ block := by
        rw [filter_filter]
        simp only [Bool.and_self]
      rw [h₁.record, filter_comm, filter_append, hne, append_nil, htwice]
    rw [h₂.record, hagain, filter_append, filter_append, filter_filter]
    simp only [Bool.and_self]
  others := fun q hq => (h₂.others q hq).trans (h₁.others q hq)

/-- The fee cache before an operation of a block: in order, and not ahead of the block. -/
def Before (cache : FeeCache) (p : PropertyId) (block : Int) : Prop :=
  Increasing (cache.record p) ∧ ∀ x ∈ cache.record p, x.1 ≤ block

/-- **`AddFee` enters the amount it leaves**, and fails where that amount fails. -/
theorem addFee_entered (env : TokenEnv A) (tally : TallyMap A) (h : Before cache p block)
    (fee : Int) :
    (∃ e, amountAfterFee env tally (cache.distributionThresholds p) p
        (cache.getCachedAmount p) fee = .error e ∧ addFee env tally cache p block fee = .error e) ∨
    ∃ amount money, amountAfterFee env tally (cache.distributionThresholds p) p
        (cache.getCachedAmount p) fee = .ok amount ∧
      addFee env tally cache p block fee = .ok money ∧
      Entered env.debugFees cache money.2 p block amount := by
  obtain ⟨h, hnewest⟩ := h
  unfold amountAfterFee addFee
  cases hnew : fit64 (cache.getCachedAmount p + fee) with
  | error e => exact .inl ⟨e, rfl, rfl⟩
  | ok new =>
    let written := cache.write env.debugFees p block new
    obtain ⟨hincreasing, hnewest', hcached⟩ := write_spec env.debugFees h hnewest new
    have hfirst : Entered env.debugFees cache written p block new :=
      Entered.write env.debugFees h hnewest new
    have hthresholds : written.distributionThresholds = cache.distributionThresholds :=
      write_thresholds env.debugFees cache p block new
    rw [ok_bind, ok_bind]
    unfold evalCache
    rw [hcached, hthresholds]
    by_cases hreached : new ≥ cache.distributionThresholds p
    · -- the whole amount is distributed
      rw [if_pos hreached, if_pos hreached]
      unfold distributeCache
      rw [hcached]
      have hnative : nativeOf p = if isTestEcosystemProperty p then ELYSIUM_PROPERTY_TELYSIUM
        else ELYSIUM_PROPERTY_ELYSIUM := rfl
      rw [← hnative]
      dsimp only
      -- both fail where a step of the distribution fails
      cases hreceivers : stoGetReceivers tally none (nativeOf p) new with
      | error e => exact .inl ⟨e, rfl, rfl⟩
      | ok receivers =>
        simp only [ok_bind]
        cases hcredit : creditAll env p tally receivers with
        | error e => exact .inl ⟨e, rfl, rfl⟩
        | ok paid =>
          simp only [ok_bind]
          cases hsent : assertThat (decide (paid.2 = new)) with
          | error e => exact .inl ⟨e, rfl, rfl⟩
          | ok _ =>
            exact .inr ⟨0, (paid.1, written.clearCache env.debugFees p block), rfl, rfl,
              hfirst.again (Entered.write env.debugFees hincreasing hnewest' 0)⟩
    · rw [if_neg hreached, if_neg hreached]
      exact .inr ⟨new, (tally, written), rfl, rfl, hfirst⟩

/-- **An operation enters the amount it leaves**, whether fees are logged or not, and fails where
that amount fails. -/
theorem CacheOp.run_spec (env : TokenEnv A) (debugFees : Bool) {op : CacheOp A}
    (h : Before cache op.property op.block) :
    (∃ e, op.amountAfter env (cache.getCachedAmount op.property) = .error e ∧
      op.run env debugFees cache = .error e) ∨
    ∃ amount cache', op.amountAfter env (cache.getCachedAmount op.property) = .ok amount ∧
      op.run env debugFees cache = .ok cache' ∧
      Entered debugFees cache cache' op.property op.block amount := by
  cases op with
  | clearCache p block => exact .inr ⟨0, _, rfl, rfl, Entered.write debugFees h.1 h.2 0⟩
  | addFee tally thresholds p block fee =>
    have hstart : Before { cache with distributionThresholds := thresholds } p block := h
    rcases addFee_entered { env with debugFees := debugFees } tally hstart fee with
      ⟨e, hamount, hfee⟩ | ⟨amount, money, hamount, hmoney, hentered⟩
    · exact .inl ⟨e, hamount, by rw [CacheOp.run, hfee]; rfl⟩
    · exact .inr ⟨amount, money.2, hamount, bind_eq_ok.mpr ⟨money, hmoney, rfl⟩,
        ⟨hentered.record, hentered.others⟩⟩

end Runs

/-! ## §4. The records of a run. -/

section Records

variable {A : Type}

/-- The items that pruning leaves: none is matured for another one. -/
def recent (items : List FeeCacheItem) : List FeeCacheItem :=
  items.filter fun item => ∀ other ∈ items, other.1 - MAX_STATE_HISTORY ≤ item.1

/-- The cache `on` of a node that logs fees beside the cache `off` of one that does not. -/
structure Alongside (height : Int) (on off : FeeCache) : Prop where
  increasing : ∀ p, Increasing (off.record p)
  newest : ∀ p, ∀ x ∈ off.record p, x.1 ≤ height
  pruned : ∀ p, on.record p = recent (off.record p)

variable {height : Int} {off on : FeeCache} {ops : List (CacheOp A)} (h : Alongside height on off)
include h

theorem Alongside.increasing_on (p : PropertyId) : Increasing (on.record p) := by
  rw [h.pruned p]
  exact (h.increasing p).sublist filter_sublist

theorem Alongside.newest_on (p : PropertyId) : ∀ x ∈ on.record p, x.1 ≤ height := by
  intro x hx
  rw [h.pruned p] at hx
  exact h.newest p x (mem_filter.mp hx).1

/-- Both nodes show the same amounts: the newest item is recent. -/
theorem Alongside.getCachedAmount_eq (p : PropertyId) :
    on.getCachedAmount p = off.getCachedAmount p := by
  have hpruned := h.pruned p
  have hincreasing := h.increasing p
  rcases eq_nil_or_concat (off.record p) with hnil | ⟨older, ⟨block, amount⟩, hrecord⟩
  · apply getCachedAmount_of_record_eq
    rw [hpruned, hnil]
    rfl
  · rw [concat_eq_append] at hrecord
    have hlast : ∀ other ∈ older ++ [(block, amount)],
        other.1 - MAX_STATE_HISTORY ≤ block := by
      intro other hother
      rw [hrecord] at hincreasing
      unfold MAX_STATE_HISTORY
      rcases mem_append.mp hother with hother | hother
      · have hlt := (pairwise_append.mp hincreasing).2.2 other hother _ mem_cons_self
        omega
      · rw [mem_singleton.mp hother]
        show block - 50 ≤ block
        omega
    rw [Elysium.getCachedAmount_eq hincreasing hrecord]
    rw [hrecord] at hpruned
    unfold recent at hpruned
    rw [filter_append, filter_cons_of_pos (by simpa using hlast), filter_nil]
      at hpruned
    exact Elysium.getCachedAmount_eq (h.increasing_on p) hpruned

theorem Alongside.entered {block amount : Int} {on' off' : FeeCache} {p : PropertyId}
    (hheight : height ≤ block) (hon : Entered true on on' p block amount)
    (hoff : Entered false off off' p block amount) : Alongside block on' off' := by
  have hbefore : ∀ q, ∀ x ∈ off.record q, x.1 ≤ block := by
    intro q x hx
    have hle := h.newest q x hx
    omega
  have hrecord := hoff.record_off
  have hnewest : ∀ x ∈ off'.record p, x.1 ≤ block := by
    rw [hrecord]
    exact forall_mem_append.mpr
      ⟨fun x hx => hbefore p x (mem_filter.mp hx).1, forall_mem_singleton.mpr le_rfl⟩
  refine ⟨?_, ?_, ?_⟩
  · intro q
    by_cases hq : q = p
    · rw [hq, hrecord]
      exact (write_record false (h.increasing p) (hbefore p) amount).1
    · rw [hoff.others q hq]
      exact h.increasing q
  · intro q x hx
    by_cases hq : q = p
    · exact hnewest x (hq ▸ hx)
    · rw [hoff.others q hq] at hx
      exact hbefore q x hx
  · intro q
    by_cases hq : q = p
    · -- what the new item prunes includes what older ones did
      have hrecent : recent (off'.record p) = (off'.record p).filter fun item =>
          !(true && decide (item.1 < block - MAX_STATE_HISTORY)) := by
        apply filter_congr
        intro item hitem
        have hiff : (∀ other ∈ off'.record p, other.1 - MAX_STATE_HISTORY ≤ item.1) ↔
            ¬ item.1 < block - MAX_STATE_HISTORY := by
          refine ⟨?_, ?_⟩
          · intro hall
            have hle := hall (block, amount) (by rw [hrecord]; simp)
            omega
          · intro hnot other hother
            have hle := hnewest other hother
            omega
        rw [Bool.true_and, decide_eq_decide.mpr hiff, decide_not]
      rw [hq, hrecent, hon.record, hrecord, h.pruned p, filter_append, filter_append]
      congr 1
      unfold recent
      rw [filter_filter, filter_filter, filter_filter]
      apply filter_congr
      intro item hitem
      by_cases hold : item.1 < block - MAX_STATE_HISTORY
      · simp [hold]
      · have hall : ∀ other ∈ off.record p, other.1 - MAX_STATE_HISTORY ≤ item.1 := by
          intro other hother
          have hle := hbefore p other hother
          omega
        rw [decide_eq_true hall, Bool.and_true]
    · rw [hon.others q hq, hoff.others q hq]
      exact h.pruned q

omit h

/-- Operations in the order of their blocks, from a height on. -/
def FromHeight (height : Int) (ops : List (CacheOp A)) : Prop :=
  (∀ op ∈ ops, height ≤ op.block) ∧ ops.Pairwise fun x y => x.block ≤ y.block

/-- What a run adds to the records of a node that does not log fees. -/
structure Extended (ops : List (CacheOp A)) (off off' : FeeCache) : Prop where
  /-- the blocks of the record are those of the operations -/
  blocks : ∀ p block, (∃ x ∈ off'.record p, x.1 = block) ↔
    (∃ x ∈ off.record p, x.1 = block) ∨ ∃ op ∈ ops, op.property = p ∧ op.block = block
  /-- items of earlier blocks stay -/
  earlier : ∀ p block, (∀ op ∈ ops, block ≤ op.block) →
    ((off'.record p).filter fun item => item.1 < block) =
      (off.record p).filter fun item => item.1 < block

theorem Extended.entered {op : CacheOp A} {off' : FeeCache} {amount : Int}
    (h : Entered false off off' op.property op.block amount) : Extended [op] off off' := by
  have hrecord := h.record_off
  refine ⟨?_, ?_⟩
  · intro p block
    by_cases hp : p = op.property
    · rw [hp, hrecord]
      refine ⟨?_, ?_⟩
      · rintro ⟨x, hx, hblock⟩
        rcases mem_append.mp hx with hx | hx
        · exact .inl ⟨x, (mem_filter.mp hx).1, hblock⟩
        · rw [mem_singleton.mp hx] at hblock
          exact .inr ⟨op, mem_singleton_self op, rfl, hblock⟩
      · rintro (⟨x, hx, hblock⟩ | ⟨op', hop, -, hblock⟩)
        · by_cases hsame : x.1 = op.block
          · exact ⟨(op.block, amount), by simp, by rw [← hblock, hsame]⟩
          · refine ⟨x, mem_append_left _ (mem_filter.mpr ⟨hx, ?_⟩), hblock⟩
            exact decide_eq_true hsame
        · rw [mem_singleton.mp hop] at hblock
          exact ⟨(op.block, amount), by simp, hblock⟩
    · rw [h.others p hp]
      refine ⟨.inl, ?_⟩
      rintro (hx | ⟨op', hop, hproperty, -⟩)
      · exact hx
      · rw [mem_singleton.mp hop] at hproperty
        exact absurd hproperty.symm hp
  · intro p block hblock
    have hle := hblock op (mem_singleton_self op)
    by_cases hp : p = op.property
    · have hnone : ([(op.block, amount)].filter fun item : FeeCacheItem => item.1 < block) = [] := by
        rw [filter_cons_of_neg (by simpa using hle), filter_nil]
      rw [hp, hrecord, filter_append, hnone, append_nil, filter_filter]
      apply filter_congr
      intro item _
      by_cases hitem : item.1 < block
      · have hne : item.1 ≠ op.block := by omega
        simp [hitem, hne]
      · simp [hitem]
    · rw [h.others p hp]

theorem Extended.trans {op : CacheOp A} {off₁ off₂ : FeeCache} (h₁ : Extended [op] off off₁)
    (h₂ : Extended ops off₁ off₂) : Extended (op :: ops) off off₂ := by
  refine ⟨?_, ?_⟩
  · intro p block
    rw [h₂.blocks p block, h₁.blocks p block]
    simp only [mem_cons, not_mem_nil, or_false, exists_eq_or_imp, exists_eq_left,
      or_assoc]
  · intro p block hblock
    rw [h₂.earlier p block fun op' hop => hblock op' (mem_cons_of_mem op hop),
      h₁.earlier p block fun op' hop => hblock op' (by rw [mem_singleton.mp hop]; simp)]

/-- The operations on one property are at most `MAX_STATE_HISTORY` blocks apart. -/
def WithinHistory (ops : List (CacheOp A)) : Prop :=
  ∀ op₁ ∈ ops, ∀ op₂ ∈ ops, op₁.property = op₂.property →
    op₂.block - op₁.block ≤ MAX_STATE_HISTORY

theorem Extended.from_op (h : Extended ops {} off) {p : PropertyId} {x : FeeCacheItem}
    (hx : x ∈ off.record p) : ∃ op ∈ ops, op.property = p ∧ op.block = x.1 := by
  rcases (h.blocks p x.1).mp ⟨x, hx, rfl⟩ with ⟨y, hy, -⟩ | hop
  · cases hy
  · exact hop

theorem recent_eq_self (hops : WithinHistory ops) (hextended : Extended ops {} off)
    (p : PropertyId) : recent (off.record p) = off.record p := by
  apply filter_eq_self.mpr
  intro item hitem
  apply decide_eq_true
  intro other hother
  obtain ⟨op₁, hop₁, hproperty₁, hblock₁⟩ := hextended.from_op hitem
  obtain ⟨op₂, hop₂, hproperty₂, hblock₂⟩ := hextended.from_op hother
  have hle := hops op₁ hop₁ op₂ hop₂ (hproperty₁.trans hproperty₂.symm)
  omega

theorem withinHistory_of_recent (hextended : Extended ops {} off)
    (h : ∀ p, recent (off.record p) = off.record p) : WithinHistory ops := by
  intro op₁ hop₁ op₂ hop₂ hsame
  obtain ⟨x, hx, hblock₁⟩ :=
    (hextended.blocks op₁.property op₁.block).mpr (.inr ⟨op₁, hop₁, rfl, rfl⟩)
  obtain ⟨y, hy, hblock₂⟩ :=
    (hextended.blocks op₁.property op₂.block).mpr (.inr ⟨op₂, hop₂, hsame.symm, rfl⟩)
  have hrecent := of_decide_eq_true (filter_eq_self.mp (h op₁.property) x hx) y hy
  omega

end Records

section Nodes

variable {A : Type} [LinearOrder A] {off : FeeCache} {ops : List (CacheOp A)} {env : TokenEnv A}

/-- **A run of both nodes**: they succeed together and stay alongside. -/
theorem runs_alongside (env : TokenEnv A) {height : Int} {on off' : FeeCache}
    (h : Alongside height on off) (hops : FromHeight height ops)
    (hrun : ops.foldlM (fun cache op => op.run env false cache) off = .ok off') :
    ∃ on' height', ops.foldlM (fun cache op => op.run env true cache) on = .ok on' ∧
      Alongside height' on' off' ∧ Extended ops off off' := by
  induction ops generalizing height on off with
  | nil =>
    cases hrun
    refine ⟨on, height, rfl, h, ?_, ?_⟩
    · simp
    · intro _ _ _
      rfl
  | cons op ops ih =>
    rw [foldlM_cons] at hrun
    obtain ⟨off₁, hop, hrest⟩ := bind_eq_ok.mp hrun
    obtain ⟨hheights, hsorted⟩ := hops
    obtain ⟨hafter, hsorted⟩ := pairwise_cons.mp hsorted
    have hheight := hheights op mem_cons_self
    have hbefore : ∀ x ∈ off.record op.property, x.1 ≤ op.block := by
      intro x hx
      have hle := h.newest _ x hx
      omega
    have hbefore_on : ∀ x ∈ on.record op.property, x.1 ≤ op.block := by
      intro x hx
      have hle := h.newest_on _ x hx
      omega
    -- the amount does not depend on the logging, so both nodes enter it or both fail
    rcases CacheOp.run_spec env false ⟨h.increasing _, hbefore⟩ with
      ⟨e, -, hbad⟩ | ⟨amount, _, hamount, hop', hoff⟩
    · cases hop.symm.trans hbad
    cases hop.symm.trans hop'
    rw [← h.getCachedAmount_eq] at hamount
    rcases CacheOp.run_spec env true ⟨h.increasing_on _, hbefore_on⟩ with
      ⟨e, hbad, -⟩ | ⟨_, on₁, hamount', hop_on, hon⟩
    · cases hamount.symm.trans hbad
    cases hamount.symm.trans hamount'
    obtain ⟨on', height', hrun_on, halongside, hextended⟩ :=
      ih (h.entered hheight hon hoff) ⟨hafter, hsorted⟩ hrest
    refine ⟨on', height', ?_, halongside, (Extended.entered hoff).trans hextended⟩
    rw [foldlM_cons, hop_on]
    exact hrun_on

/-! ## §5. What a rollback brings back. -/

/-- The operations before a block. -/
def opsBefore (ops : List (CacheOp A)) (block : Int) : List (CacheOp A) :=
  ops.takeWhile fun op => op.block < block

/-- `RollBackCache` brings back the amounts of before a block, for the last
`MAX_STATE_HISTORY` blocks. -/
def RollsBack (env : TokenEnv A) (sps : CMPSPInfo) (ops : List (CacheOp A)) : Prop :=
  ∀ debugFees cache lastOp block, runCache env debugFees ops = .ok cache →
    ops.getLast? = some lastOp → lastOp.block - MAX_STATE_HISTORY < block →
    block ≤ lastOp.block → ∀ p ∈ sps.properties,
      ∃ before, runCache env debugFees (opsBefore ops block) = .ok before ∧
        (cache.rollBackCache sps block).getCachedAmount p = before.getCachedAmount p

/-- The stored history does not depend on the logging. -/
def LoggingFree (env : TokenEnv A) (ops : List (CacheOp A)) : Prop :=
  (runCache env true ops).map FeeCache.record = (runCache env false ops).map FeeCache.record

theorem alongside_empty (height : Int) : Alongside height {} {} := by
  refine ⟨?_, ?_, ?_⟩
  · intro p
    exact List.Pairwise.nil
  · intro p x hx
    cases hx
  · intro p
    rfl

variable (hsorted : ops.Pairwise fun x y => x.block ≤ y.block)
include hsorted

theorem runCache_alongside (hoff : runCache env false ops = .ok off) :
    ∃ on height, runCache env true ops = .ok on ∧ Alongside height on off ∧
      Extended ops {} off := by
  cases ops with
  | nil => exact runs_alongside env (alongside_empty 0) ⟨by simp, hsorted⟩ hoff
  | cons op ops =>
    exact runs_alongside env (alongside_empty op.block)
      ⟨forall_mem_cons.mpr ⟨le_rfl, (pairwise_cons.mp hsorted).1⟩, hsorted⟩ hoff

theorem runCache_record
    (hops : WithinHistory ops) (hoff : runCache env false ops = .ok off) (debugFees : Bool) :
    ∃ cache, runCache env debugFees ops = .ok cache ∧ cache.record = off.record := by
  obtain ⟨on, height, hon, halongside, hextended⟩ := runCache_alongside hsorted hoff
  cases debugFees with
  | false => exact ⟨off, hoff, rfl⟩
  | true =>
    refine ⟨on, hon, ?_⟩
    funext p
    rw [halongside.pruned p, recent_eq_self hops hextended p]

omit hsorted

theorem record_before (hsorted : ops.Pairwise fun x y => x.block ≤ y.block)
    (hoff : runCache env false ops = .ok off) (block : Int) :
    ∃ before, runCache env false (opsBefore ops block) = .ok before ∧
      ∀ p, ((off.record p).filter fun item => item.1 < block) = before.record p := by
  have hsplit : opsBefore ops block ++ ops.dropWhile (fun op => op.block < block) = ops :=
    takeWhile_append_dropWhile
  rw [← hsplit] at hsorted
  unfold runCache at hoff ⊢
  rw [← hsplit, foldlM_append] at hoff
  obtain ⟨before, hbefore, hrest⟩ := bind_eq_ok.mp hoff
  obtain ⟨hpre, hpost, hbetween⟩ := pairwise_append.mp hsorted
  obtain ⟨on, height, -, halongside, hextended⟩ := runCache_alongside hpre hbefore
  refine ⟨before, hbefore, ?_⟩
  intro p
  -- the operations that follow are at the block or later
  have hlater : ∀ op ∈ ops.dropWhile (fun op => op.block < block), block ≤ op.block := by
    intro op hop
    cases hdrop : ops.dropWhile (fun op => op.block < block) with
    | nil =>
      rw [hdrop] at hop
      cases hop
    | cons first rest =>
      have hfirst : block ≤ first.block := by
        have hnot := head?_dropWhile_not (fun op => decide (op.block < block)) ops
        rw [hdrop] at hnot
        simpa using hnot
      rw [hdrop] at hop hpost
      rcases mem_cons.mp hop with rfl | hop
      · exact hfirst
      · have hle := (pairwise_cons.mp hpost).1 op hop
        omega
  have hearlier : ∀ p, ∀ x ∈ before.record p, x.1 < block := by
    intro p x hx
    obtain ⟨op, hop, -, hblock⟩ := hextended.from_op hx
    have hlt := mem_takeWhile_imp hop
    rw [← hblock]
    exact of_decide_eq_true hlt
  have hblock : Alongside block on before :=
    ⟨halongside.increasing, fun p x hx => Int.le_of_lt (hearlier p x hx), halongside.pruned⟩
  obtain ⟨-, -, -, -, hafter⟩ := runs_alongside env hblock ⟨hlater, hpost⟩ hrest
  rw [hafter.earlier p block hlater]
  exact filter_eq_self.mpr fun x hx => decide_eq_true (hearlier p x hx)

/-- **The fee cache is rolled back and its history is free of the logging** exactly if the
operations on each property are at most `MAX_STATE_HISTORY` blocks apart. -/
theorem rollBackCache_restores_iff (env : TokenEnv A) (sps : CMPSPInfo) {ops : List (CacheOp A)}
    (hsorted : ops.Pairwise fun x y => x.block ≤ y.block) {off : FeeCache}
    (hoff : runCache env false ops = .ok off) :
    RollsBack env sps ops ∧ LoggingFree env ops ↔ WithinHistory ops := by
  refine ⟨?_, ?_⟩
  · -- a matured item is missing from the history of the node that logs fees
    rintro ⟨-, hfree⟩
    obtain ⟨on, height, hon, halongside, hextended⟩ := runCache_alongside hsorted hoff
    unfold LoggingFree at hfree
    rw [hon, hoff] at hfree
    have hrecord : on.record = off.record := Except.ok.inj hfree
    refine withinHistory_of_recent hextended ?_
    intro p
    rw [← halongside.pruned p, hrecord]
  · intro hops
    refine ⟨?_, ?_⟩
    · intro debugFees cache lastOp block hrun _ _ _ p hp
      obtain ⟨cache', hcache, hrecord⟩ := runCache_record hsorted hops hoff debugFees
      rw [hrun] at hcache
      cases hcache
      obtain ⟨offBefore, hoffBefore, hkept⟩ := record_before hsorted hoff block
      have hsub : (opsBefore ops block).Sublist ops := List.takeWhile_sublist _
      have hwithin : WithinHistory (opsBefore ops block) := by
        intro op₁ hop₁ op₂ hop₂
        exact hops op₁ (hsub.subset hop₁) op₂ (hsub.subset hop₂)
      obtain ⟨before, hbefore, hbeforeRecord⟩ :=
        runCache_record (hsorted.sublist hsub) hwithin hoffBefore debugFees
      refine ⟨before, hbefore, getCachedAmount_of_record_eq ?_⟩
      have hincreasing : ∀ p, Increasing (cache.record p) := by
        obtain ⟨_, _, -, halongside, -⟩ := runCache_alongside hsorted hoff
        intro p
        rw [hrecord]
        exact halongside.increasing p
      rw [rollBackCache_record hincreasing hp, hrecord, hbeforeRecord, hkept p]
    · obtain ⟨on, hon, hrecord⟩ := runCache_record hsorted hops hoff true
      unfold LoggingFree
      rw [hon, hoff]
      exact congrArg Except.ok hrecord

end Nodes

/-! ## §6. Two fees. -/

/-- A fee of property 3, below the threshold. -/
def feeAt (block amount : Int) : CacheOp Nat := .addFee Ledger.empty (fun _ => 100) 3 block amount

/-- Rules that freeze nothing. -/
def feeRules : TokenEnv Nat :=
  { frozen := fun _ _ => false, feesActive := fun _ => true, debugFees := false }

/-- Fees of blocks 1 and 40 can be rolled back. -/
theorem rollBackCache_restores_near :
    WithinHistory [feeAt 1 5, feeAt 40 3] ∧
      RollsBack feeRules { nextSpid := 4 } [feeAt 1 5, feeAt 40 3] ∧
      LoggingFree feeRules [feeAt 1 5, feeAt 40 3] := by
  have hwithin : WithinHistory [feeAt 1 5, feeAt 40 3] := by
    unfold WithinHistory
    decide
  obtain ⟨off, hoff, -⟩ :
      ∃ off, runCache feeRules false [feeAt 1 5, feeAt 40 3] = .ok off ∧ True := by
    decide +kernel
  exact ⟨hwithin, (rollBackCache_restores_iff feeRules { nextSpid := 4 } (by decide)
    hoff).mpr hwithin⟩

/-- **A pause of more than `MAX_STATE_HISTORY` blocks**: with fees logged, the amount of block 1
is pruned at block 100, and rolling back block 100 leaves nothing of it; without the logging it
comes back. -/
theorem pausedFees_lost :
    (runCache feeRules true [feeAt 1 5, feeAt 100 3]).map (fun cache =>
        (cache.record 3, (cache.rollBackCache { nextSpid := 4 } 100).getCachedAmount 3)) =
        .ok ([(100, 8)], 0) ∧
      (runCache feeRules false [feeAt 1 5, feeAt 100 3]).map (fun cache =>
        (cache.record 3, (cache.rollBackCache { nextSpid := 4 } 100).getCachedAmount 3)) =
        .ok ([(1, 5), (100, 8)], 5) ∧
      (runCache feeRules true (opsBefore [feeAt 1 5, feeAt 100 3] 100)).map
        (fun cache => cache.getCachedAmount 3) = .ok 5 := by
  decide +kernel

end Zcoin.Elysium
