/-
  Zcoin.Evo.MempoolSpork — sporks that wait in the mempool (`evo/spork.h/.cpp`,
  `txmempool.cpp`).

  `CMempoolSporkManager` keeps one entry per restricted feature.  A spork
  transaction that enters the pool first purges the entries whose height is
  reached and then writes one entry per unexpired disable or limit action; a
  transaction that leaves erases the entry of every feature it names.  `_clear` empties
  the pool and does not tell the manager.  The pool below also remembers the height of
  each acceptance and of the purges since, so that "an action still restricts a feature"
  can be said without the manager.

  MAIN RESULT: `mempoolSporks_iff_pooled`.
-/
import Zcoin.Evo.Spork

namespace Zcoin.Evo

open Std Std.ExtTreeMap List
open Chain Lib

/-! ## §1. The manager. -/

/-- The loop body of `AcceptSporkToMemoryPool` for one action. -/
def acceptAction (chainHeight : Nat) (mempoolSporks : ActiveSporkMap) (action : CSporkAction) :
    ActiveSporkMap :=
  if (action.actionType = .sporkDisable ∨ action.actionType = .sporkLimit) ∧
      (action.nEnableAtHeight = 0 ∨ action.nEnableAtHeight > chainHeight) then
    mempoolSporks.insert action.feature (action.nEnableAtHeight, action.parameter)
  else mempoolSporks

section Manager

variable (getTxPayload : CTransaction → Option (List CSporkAction))

/-- `CMempoolSporkManager::AcceptSporkToMemoryPool`: the map it leaves and what it
returns. -/
def acceptSporkToMemoryPool (chainHeight : Nat) (mempoolSporks : ActiveSporkMap)
    (sporkTx : CTransaction) : ActiveSporkMap × Bool :=
  let unexpired := mempoolSporks.filter fun _ entry => !expired chainHeight entry
  if isSporkTx sporkTx then
    match getTxPayload sporkTx with
    | none => (unexpired, false)
    | some actions => (actions.foldl (acceptAction chainHeight) unexpired, true)
  else (unexpired, true)

/-- `CMempoolSporkManager::RemovedFromMemoryPool`. -/
def removedFromMemoryPool (mempoolSporks : ActiveSporkMap) (sporkTx : CTransaction) :
    ActiveSporkMap :=
  if isSporkTx sporkTx then
    match getTxPayload sporkTx with
    | none => mempoolSporks
    | some actions => actions.foldl (fun sporks action => sporks.erase action.feature) mempoolSporks
  else mempoolSporks

end Manager

/-! ## §2. The pool and what its transactions still restrict. -/

/-- A disable or limit action on a feature that is unexpired at a height. -/
def CSporkAction.restricts (feature : String) (chainHeight : Nat) (action : CSporkAction) : Bool :=
  action.actionType ≠ .sporkEnable && action.feature = feature &&
    !expired chainHeight (action.nEnableAtHeight, action.parameter)

/-- A spork transaction in the pool, with the chain height at which it was accepted
and the heights of the purges since, newest first. -/
structure PooledSpork where
  tx : CTransaction
  acceptedAt : Nat
  purgedAt : List Nat
  deriving DecidableEq, Repr

/-- The action was unexpired when its transaction was accepted and no purge since
has found it expired. -/
def PooledSpork.stillRestricts (p : PooledSpork) (feature : String) (action : CSporkAction) :
    Bool :=
  action.restricts feature p.acceptedAt &&
    p.purgedAt.all fun h => !expired h (action.nEnableAtHeight, action.parameter)

/-- The spork transactions of `mapTx` and the pool's `sporkManager`. -/
structure SporkPool where
  pooled : List PooledSpork
  mempoolSporks : ActiveSporkMap

/-- The spork part of `addUnchecked`, `removeUnchecked` and `_clear`.  What `addUnchecked`
evicts afterwards leaves the pool through `removeUnchecked` as well. -/
inductive SporkEvent where
  | addUnchecked (chainHeight : Nat) (tx : CTransaction)
  | removeUnchecked (tx : CTransaction)
  | clear

section Pool

variable (getTxPayload : CTransaction → Option (List CSporkAction)) (s : SporkPool)

def SporkPool.step : SporkEvent → SporkPool
  | .addUnchecked chainHeight tx =>
    { pooled := s.pooled.map (fun p => { p with purgedAt := chainHeight :: p.purgedAt }) ++
        [⟨tx, chainHeight, []⟩]
      mempoolSporks := (acceptSporkToMemoryPool getTxPayload chainHeight s.mempoolSporks tx).1 }
  | .removeUnchecked tx =>
    { pooled := s.pooled.filter (·.tx ≠ tx)
      mempoolSporks := removedFromMemoryPool getTxPayload s.mempoolSporks tx }
  | .clear => { s with pooled := [] }

/-- A transaction enters when it is a spork transaction not in the pool, and leaves
when it is there. -/
def SporkPool.Possible : SporkEvent → Prop
  | .addUnchecked _ tx => tx.nType = .spork ∧ tx ∉ s.pooled.map (·.tx)
  | .removeUnchecked tx => tx ∈ s.pooled.map (·.tx)
  | .clear => True

instance (s : SporkPool) (e : SporkEvent) : Decidable (s.Possible e) :=
  match e with
  | .addUnchecked _ _ => inferInstanceAs (Decidable (_ ∧ _))
  | .removeUnchecked tx => inferInstanceAs (Decidable (tx ∈ s.pooled.map (·.tx)))
  | .clear => .isTrue trivial

/-- The pools reached from the empty one by steps that meet a condition. -/
inductive SporkPool.Reachable (Meets : SporkPool → SporkEvent → Prop) : SporkPool → Prop where
  | empty : Reachable Meets ⟨[], ∅⟩
  | step {s : SporkPool} {e : SporkEvent} (h : Reachable Meets s) (hpossible : s.Possible e)
      (hmeets : Meets s e) : Reachable Meets (s.step getTxPayload e)

/-- The actions of one pooled transaction that still restrict a feature. -/
def PooledSpork.restrictions (p : PooledSpork) (feature : String) : List CSporkAction :=
  (actionsOf getTxPayload p.tx).filter (p.stillRestricts feature)

/-- All actions that still restrict a feature, oldest first. -/
def SporkPool.restrictions (s : SporkPool) (feature : String) : List CSporkAction :=
  s.pooled.flatMap (·.restrictions getTxPayload feature)

/-- **What the map should say**: a feature has an entry exactly when some pooled
transaction contains a disable or limit action on it that was unexpired when
accepted and that no later purge has found expired. -/
def SporkPool.Agrees : Prop :=
  ∀ feature, feature ∈ s.mempoolSporks ↔
    ∃ p ∈ s.pooled, ∃ action ∈ actionsOf getTxPayload p.tx,
      action.actionType ≠ .sporkEnable ∧ action.feature = feature ∧
        ∀ h ∈ p.acceptedAt :: p.purgedAt,
          expired h (action.nEnableAtHeight, action.parameter) = false

/-- **The steps that are safe**: a transaction leaves only when no other pooled one
still restricts a feature it names; one enters only when, for every feature it does
not restrict itself, an older restriction does not outlive the newest one; and the pool
is cleared only when nothing in it restricts a feature. -/
def SporkPool.Undisturbed : SporkEvent → Prop
  | .addUnchecked chainHeight tx =>
    ∀ feature, (actionsOf getTxPayload tx).all (!·.restricts feature chainHeight) →
      ∀ newest, (s.restrictions getTxPayload feature).getLast? = some newest →
        expired chainHeight (newest.nEnableAtHeight, newest.parameter) = true →
        ∀ action ∈ s.restrictions getTxPayload feature,
          expired chainHeight (action.nEnableAtHeight, action.parameter) = true
  | .removeUnchecked tx =>
    ∀ action ∈ actionsOf getTxPayload tx, ∀ p ∈ s.pooled, p.tx ≠ tx →
      p.restrictions getTxPayload action.feature = []
  | .clear => ∀ feature, s.restrictions getTxPayload feature = []

end Pool

/-! ## §3. One call of the manager. -/

theorem CSporkAction.restricts_iff {feature : String} {chainHeight : Nat} {action : CSporkAction} :
    action.restricts feature chainHeight = true ↔
      action.actionType ≠ .sporkEnable ∧ action.feature = feature ∧
        expired chainHeight (action.nEnableAtHeight, action.parameter) = false := by
  unfold CSporkAction.restricts
  simp only [Bool.and_eq_true, decide_eq_true_eq, Bool.not_eq_true']
  exact and_assoc

/-- The test on the height in `AcceptSporkToMemoryPool` is that of the purge. -/
theorem expired_eq_false_iff {chainHeight : Nat} {entry : Int × Int} :
    expired chainHeight entry = false ↔ entry.1 = 0 ∨ entry.1 > chainHeight := by
  unfold expired
  simp only [Bool.and_eq_false_iff, decide_eq_false_iff_not, not_not, ge_iff_le, Int.not_le]

theorem CSporkAction.entry_eq {action : CSporkAction} (h : action.actionType ≠ .sporkEnable) :
    action.entry = some (action.nEnableAtHeight, action.parameter) := if_neg h

theorem getElem?_acceptAction (chainHeight : Nat) (sporks : ActiveSporkMap)
    (action : CSporkAction) (feature : String) :
    (acceptAction chainHeight sporks action)[feature]? =
      settle sporks[feature]? ([action].filter (·.restricts feature chainHeight)) := by
  have htype : (action.actionType = .sporkDisable ∨ action.actionType = .sporkLimit) ↔
      action.actionType ≠ .sporkEnable := by
    cases action.actionType <;> simp
  have hlive : (action.nEnableAtHeight = 0 ∨ action.nEnableAtHeight > chainHeight) ↔
      expired chainHeight (action.nEnableAtHeight, action.parameter) = false :=
    (@expired_eq_false_iff chainHeight (action.nEnableAtHeight, action.parameter)).symm
  have hrestricts := @CSporkAction.restricts_iff feature chainHeight action
  unfold acceptAction
  simp only [htype, hlive]
  by_cases hcond : action.actionType ≠ .sporkEnable ∧
      expired chainHeight (action.nEnableAtHeight, action.parameter) = false
  · rw [if_pos hcond, OrderedMap.getElem?_insert]
    by_cases hf : feature = action.feature
    · rw [if_pos hf, filter_cons_of_pos (hrestricts.mpr ⟨hcond.1, hf.symm, hcond.2⟩), filter_nil,
        settle_singleton, CSporkAction.entry_eq hcond.1]
    · rw [if_neg hf, filter_cons_of_neg fun hr => hf (hrestricts.mp hr).2.1.symm, filter_nil,
        settle_nil]
  · rw [if_neg hcond, filter_cons_of_neg fun hr => hcond ((hrestricts.mp hr).imp_right And.right),
      filter_nil, settle_nil]

section Calls

variable (getTxPayload : CTransaction → Option (List CSporkAction))

/-- **Accepting**: what is left after the purge, then the last restricting action. -/
theorem getElem?_acceptSporkToMemoryPool (chainHeight : Nat) (sporks : ActiveSporkMap)
    (tx : CTransaction) (feature : String) :
    (acceptSporkToMemoryPool getTxPayload chainHeight sporks tx).1[feature]? =
      settle (sporks[feature]?.filter (!expired chainHeight ·))
        ((actionsOf getTxPayload tx).filter (·.restricts feature chainHeight)) := by
  rw [← getElem?_unexpired]
  unfold acceptSporkToMemoryPool actionsOf
  by_cases hspork : isSporkTx tx = true
  · simp only [if_pos hspork]
    cases getTxPayload tx with
    | none => rfl
    | some actions => 
      exact getElem?_foldl_settle (getElem?_acceptAction chainHeight · · feature) actions _
  · simp only [if_neg hspork]
    rfl

theorem getElem?_eraseFeatures (actions : List CSporkAction) (sporks : ActiveSporkMap)
    (feature : String) :
    (actions.foldl (fun m action => m.erase action.feature) sporks)[feature]? =
      if feature ∈ actions.map (·.feature) then none else sporks[feature]? := by
  induction actions using reverseRecOn with
  | nil => rfl
  | append_singleton actions action ih =>
    rw [foldl_concat, OrderedMap.getElem?_erase, ih]
    by_cases hlast : feature = action.feature
    · simp [hlast]
    · simp [hlast]

/-- **Removing** erases the features the transaction names. -/
theorem getElem?_removedFromMemoryPool (sporks : ActiveSporkMap) (tx : CTransaction)
    (feature : String) :
    (removedFromMemoryPool getTxPayload sporks tx)[feature]? =
      if feature ∈ (actionsOf getTxPayload tx).map (·.feature) then none
      else sporks[feature]? := by
  unfold removedFromMemoryPool actionsOf
  by_cases hspork : isSporkTx tx = true
  · simp only [if_pos hspork]
    cases getTxPayload tx with
    | none => rfl
    | some actions => exact getElem?_eraseFeatures actions sporks feature
  · simp only [if_neg hspork]
    rfl

end Calls

/-! ## §4. What a step does to the restrictions. -/

open SporkPool PooledSpork CSporkAction

section Restrictions

variable (getTxPayload : CTransaction → Option (List CSporkAction)) {feature : String}
  {action : CSporkAction}

theorem PooledSpork.stillRestricts_iff {p : PooledSpork} :
    p.stillRestricts feature action = true ↔
      action.actionType ≠ .sporkEnable ∧ action.feature = feature ∧
        ∀ h ∈ p.acceptedAt :: p.purgedAt,
          expired h (action.nEnableAtHeight, action.parameter) = false := by
  unfold PooledSpork.stillRestricts
  rw [Bool.and_eq_true, restricts_iff, all_eq_true, forall_mem_cons]
  simp only [Bool.not_eq_true']
  tauto

theorem SporkPool.mem_restrictions {s : SporkPool} :
    action ∈ s.restrictions getTxPayload feature ↔
      ∃ p ∈ s.pooled, action ∈ actionsOf getTxPayload p.tx ∧
        p.stillRestricts feature action = true := by
  unfold SporkPool.restrictions PooledSpork.restrictions
  simp only [mem_flatMap, mem_filter]

/-- `Agrees`, read off the list of restrictions. -/
theorem SporkPool.agrees_iff {s : SporkPool} :
    s.Agrees getTxPayload ↔
      ∀ feature, s.mempoolSporks[feature]? = none ↔ s.restrictions getTxPayload feature = [] := by
  unfold SporkPool.Agrees
  refine forall_congr' fun feature => ?_
  have hentry : feature ∈ s.mempoolSporks ↔ ¬ s.mempoolSporks[feature]? = none := by simp
  have hlive : (∃ p ∈ s.pooled, ∃ action ∈ actionsOf getTxPayload p.tx,
      action.actionType ≠ .sporkEnable ∧ action.feature = feature ∧
        ∀ h ∈ p.acceptedAt :: p.purgedAt,
          expired h (action.nEnableAtHeight, action.parameter) = false) ↔
      ¬ s.restrictions getTxPayload feature = [] := by
    simp only [eq_nil_iff_forall_not_mem, not_forall, not_not, mem_restrictions, stillRestricts_iff]
    constructor
    · rintro ⟨p, hp, action, hlive⟩
      exact ⟨action, p, hp, hlive⟩
    · rintro ⟨action, p, hp, hlive⟩
      exact ⟨p, hp, action, hlive⟩
  rw [hentry, hlive]
  exact not_iff_not

/-- **Accepting** purges the restrictions that have expired and adds the new ones. -/
theorem SporkPool.restrictions_addUnchecked (s : SporkPool) (chainHeight : Nat)
    (tx : CTransaction) (feature : String) :
    (s.step getTxPayload (.addUnchecked chainHeight tx)).restrictions getTxPayload feature =
      (s.restrictions getTxPayload feature).filter
          (fun a => !expired chainHeight (a.nEnableAtHeight, a.parameter)) ++
        (actionsOf getTxPayload tx).filter (·.restricts feature chainHeight) := by
  have hold : ∀ p : PooledSpork,
      ({ p with purgedAt := chainHeight :: p.purgedAt } : PooledSpork).restrictions getTxPayload
          feature =
        (p.restrictions getTxPayload feature).filter
          (fun a => !expired chainHeight (a.nEnableAtHeight, a.parameter)) := by
    intro p
    unfold PooledSpork.restrictions
    rw [filter_filter]
    apply filter_congr
    intro a _
    unfold PooledSpork.stillRestricts
    rw [all_cons]
    cases a.restricts feature p.acceptedAt <;> simp
  have hnew : (⟨tx, chainHeight, []⟩ : PooledSpork).restrictions getTxPayload feature =
      (actionsOf getTxPayload tx).filter (·.restricts feature chainHeight) := by
    unfold PooledSpork.restrictions
    apply filter_congr
    intro a _
    exact Bool.and_true _
  show (s.pooled.map _ ++ [_]).flatMap _ = _
  rw [flatMap_append, flatMap_map, flatMap_singleton, hnew]
  simp only [hold]
  rw [← filter_flatMap]
  rfl

theorem SporkPool.getElem?_removeUnchecked (s : SporkPool) (tx : CTransaction)
    (feature : String) :
    (s.step getTxPayload (.removeUnchecked tx)).mempoolSporks[feature]? =
      if feature ∈ (actionsOf getTxPayload tx).map (·.feature) then none
      else s.mempoolSporks[feature]? :=
  getElem?_removedFromMemoryPool getTxPayload s.mempoolSporks tx feature

theorem PooledSpork.restrictions_eq_nil {p : PooledSpork}
    (h : feature ∉ (actionsOf getTxPayload p.tx).map (·.feature)) :
    p.restrictions getTxPayload feature = [] := by
  unfold PooledSpork.restrictions
  rw [filter_eq_nil_iff]
  intro action ha hr
  obtain ⟨-, hf, -⟩ := stillRestricts_iff.mp hr
  exact h (hf ▸ mem_map_of_mem ha)

theorem SporkPool.restrictions_removeUnchecked_of_not_named (s : SporkPool) {tx : CTransaction}
    (h : feature ∉ (actionsOf getTxPayload tx).map (·.feature)) :
    (s.step getTxPayload (.removeUnchecked tx)).restrictions getTxPayload feature =
      s.restrictions getTxPayload feature := by
  show (s.pooled.filter _).flatMap _ = s.pooled.flatMap _
  induction s.pooled with
  | nil => rfl
  | cons p pooled ih =>
    by_cases hp : p.tx = tx
    · have hnil : p.restrictions getTxPayload feature = [] :=
        restrictions_eq_nil getTxPayload (hp ▸ h)
      rw [filter_cons_of_neg (by simpa using hp), flatMap_cons, hnil, ih]
      rfl
    · rw [filter_cons_of_pos (by simpa using hp), flatMap_cons, flatMap_cons, ih]

end Restrictions

/-! ## §5. Runs. -/

section Runs

variable {getTxPayload : CTransaction → Option (List CSporkAction)} {s : SporkPool}
  {actions : List CSporkAction} {feature : String} {chainHeight : Nat} {tx : CTransaction}

theorem settle_none_eq_none (h : ∀ a ∈ actions, a.actionType ≠ .sporkEnable) :
    settle none actions = none ↔ actions = [] := by
  unfold settle
  cases hlast : actions.getLast? with
  | none => simp [getLast?_eq_none_iff.mp hlast]
  | some a =>
    have ha := mem_of_getLast? hlast
    simp [entry_eq (h a ha), ne_nil_of_mem ha]

variable {action : CSporkAction}

theorem SporkPool.restrictions_type
    (h : action ∈ s.restrictions getTxPayload feature) : action.actionType ≠ .sporkEnable := by
  obtain ⟨p, -, -, hr⟩ := (mem_restrictions getTxPayload).mp h
  exact (stillRestricts_iff.mp hr).1

/-- **Every entry is justified**: it is the entry of an action that still restricts its
feature. -/
def SporkPool.Justified (getTxPayload : CTransaction → Option (List CSporkAction))
    (s : SporkPool) : Prop :=
  ∀ feature entry, s.mempoolSporks[feature]? = some entry →
    ∃ action ∈ s.restrictions getTxPayload feature, action.entry = some entry

theorem CSporkAction.entry_eq_some {entry : Int × Int}
    (h : action.entry = some entry) : entry = (action.nEnableAtHeight, action.parameter) := by
  unfold CSporkAction.entry at h
  split at h
  · cases h
  · cases h
    rfl

theorem SporkPool.Justified.addUnchecked (h : s.Justified getTxPayload) (chainHeight : Nat)
    (tx : CTransaction) :
    (s.step getTxPayload (.addUnchecked chainHeight tx)).Justified getTxPayload := by
  intro feature entry hentry
  rw [restrictions_addUnchecked]
  have hget : (s.step getTxPayload (.addUnchecked chainHeight tx)).mempoolSporks[feature]? = _ :=
    getElem?_acceptSporkToMemoryPool getTxPayload chainHeight s.mempoolSporks tx feature
  rw [hget] at hentry
  unfold settle at hentry
  cases hlast : ((actionsOf getTxPayload tx).filter (·.restricts feature chainHeight)).getLast? with
  | some action =>
    rw [hlast] at hentry
    exact ⟨action, mem_append_right _ (mem_of_getLast? hlast), hentry⟩
  | none =>
    -- no action of the transaction: the entry was there and survived the purge
    rw [hlast] at hentry
    obtain ⟨hold, hlive⟩ := Option.filter_eq_some_iff.mp hentry
    obtain ⟨action, haction, hae⟩ := h feature entry hold
    refine ⟨action, mem_append_left _ (mem_filter.mpr ⟨haction, ?_⟩), hae⟩
    rw [← entry_eq_some hae]
    exact hlive

theorem SporkPool.Justified.removeUnchecked (h : s.Justified getTxPayload) (tx : CTransaction) :
    (s.step getTxPayload (.removeUnchecked tx)).Justified getTxPayload := by
  intro feature entry hentry
  rw [getElem?_removeUnchecked] at hentry
  split at hentry
  · cases hentry
  · next hnamed =>
    rw [restrictions_removeUnchecked_of_not_named getTxPayload s hnamed]
    exact h feature entry hentry

theorem SporkPool.Justified.clear (h : s.Justified getTxPayload)
    (hquiet : s.Undisturbed getTxPayload .clear) :
    (s.step getTxPayload .clear).Justified getTxPayload := by
  intro feature entry hentry
  obtain ⟨action, haction, -⟩ := h feature entry hentry
  rw [hquiet feature] at haction
  cases haction

theorem SporkPool.Reachable.justified
    (h : SporkPool.Reachable getTxPayload
      (fun s e => e = .clear → s.Undisturbed getTxPayload e) s) : s.Justified getTxPayload := by
  induction h with
  | empty =>
    intro feature entry hentry
    simp at hentry
  | @step s e _ _ hmeets ih =>
    cases e with
    | addUnchecked chainHeight tx => exact ih.addUnchecked chainHeight tx
    | removeUnchecked tx => exact ih.removeUnchecked tx
    | clear => exact ih.clear (hmeets rfl)

/-- **The newest restriction decides**: what the map holds as long as no step disturbs
it. -/
def SporkPool.Newest (getTxPayload : CTransaction → Option (List CSporkAction))
    (s : SporkPool) : Prop :=
  ∀ feature, s.mempoolSporks[feature]? = settle none (s.restrictions getTxPayload feature)

theorem SporkPool.Newest.agrees (h : s.Newest getTxPayload) : s.Agrees getTxPayload := by
  rw [agrees_iff]
  intro feature
  rw [h feature]
  exact settle_none_eq_none fun a ha => restrictions_type ha

variable (htype : ∀ a ∈ actions, a.actionType ≠ .sporkEnable)
include htype

/-- Where the purge leaves an entry for every restriction it leaves, none outlives the newest. -/
theorem expired_of_purge (h : (settle none actions).filter (!expired chainHeight ·) = none →
      actions.filter (fun a => !expired chainHeight (a.nEnableAtHeight, a.parameter)) = [])
    {newest : CSporkAction} (hlast : actions.getLast? = some newest)
    (hexp : expired chainHeight (newest.nEnableAtHeight, newest.parameter) = true) :
    ∀ a ∈ actions, expired chainHeight (a.nEnableAtHeight, a.parameter) = true := by
  have hsettle : settle none actions = some (newest.nEnableAtHeight, newest.parameter) := by
    unfold settle
    rw [hlast]
    exact entry_eq (htype newest (mem_of_getLast? hlast))
  have hnil := h (by rw [hsettle, Option.filter_some, hexp]; rfl)
  simpa using hnil

/-- With the newest restriction unexpired, or all of them expired, the purge leaves the
newest of what is left. -/
theorem settle_filter_unexpired (h : ∀ newest, actions.getLast? = some newest →
      expired chainHeight (newest.nEnableAtHeight, newest.parameter) = true →
      ∀ a ∈ actions, expired chainHeight (a.nEnableAtHeight, a.parameter) = true) :
    (settle none actions).filter (!expired chainHeight ·) =
      settle none
        (actions.filter fun a => !expired chainHeight (a.nEnableAtHeight, a.parameter)) := by
  rcases eq_nil_or_concat actions with rfl | ⟨pre, newest, rfl⟩
  · rfl
  · rw [concat_eq_append] at h htype ⊢
    have hlast : (pre ++ [newest]).getLast? = some newest := getLast?_concat
    have hentry := entry_eq (htype newest (mem_append_right _ mem_cons_self))
    have hsettle : settle none (pre ++ [newest]) = newest.entry := by
      rw [settle_append, settle_singleton]
    cases hexp : expired chainHeight (newest.nEnableAtHeight, newest.parameter) with
    | true =>
      have hnil : (pre ++ [newest]).filter
          (fun a => !expired chainHeight (a.nEnableAtHeight, a.parameter)) = [] := by
        rw [filter_eq_nil_iff]
        intro a ha
        simp [h newest hlast hexp a ha]
      rw [hnil, hsettle, hentry, Option.filter_some, hexp]
      rfl
    | false =>
      rw [filter_append, filter_cons_of_pos (by simp [hexp]), filter_nil,
        settle_append none (pre.filter _), settle_singleton, hsettle, hentry,
        Option.filter_some, hexp]
      rfl

omit htype

/-- The map after an acceptance, as long as the newest restriction decides. -/
theorem SporkPool.Newest.getElem?_addUnchecked (h : s.Newest getTxPayload) (chainHeight : Nat)
    (tx : CTransaction) (feature : String) :
    (s.step getTxPayload (.addUnchecked chainHeight tx)).mempoolSporks[feature]? =
      settle ((settle none (s.restrictions getTxPayload feature)).filter (!expired chainHeight ·))
        ((actionsOf getTxPayload tx).filter (·.restricts feature chainHeight)) := by
  rw [← h feature]
  exact getElem?_acceptSporkToMemoryPool getTxPayload chainHeight s.mempoolSporks tx feature

theorem settle_of_ne_nil {old old' : Option (Int × Int)} (h : actions ≠ []) :
    settle old actions = settle old' actions := by
  unfold settle
  cases hlast : actions.getLast? with
  | none => exact absurd (getLast?_eq_none_iff.mp hlast) h
  | some a => rfl

theorem all_not_restricts_iff :
    actions.all (!·.restricts feature chainHeight) = true ↔
      actions.filter (·.restricts feature chainHeight) = [] := by simp

theorem SporkPool.Newest.addUnchecked (h : s.Newest getTxPayload)
    (hquiet : s.Undisturbed getTxPayload (.addUnchecked chainHeight tx)) :
    (s.step getTxPayload (.addUnchecked chainHeight tx)).Newest getTxPayload := by
  intro feature
  rw [h.getElem?_addUnchecked, restrictions_addUnchecked, settle_append]
  by_cases hown : (actionsOf getTxPayload tx).filter (·.restricts feature chainHeight) = []
  · rw [hown, settle_nil, settle_nil]
    exact settle_filter_unexpired (fun a ha => restrictions_type ha)
      (hquiet feature (all_not_restricts_iff.mpr hown))
  · exact settle_of_ne_nil hown

/-- After an acceptance the map agrees exactly when no older restriction outlived the
newest one. -/
theorem SporkPool.Newest.agrees_addUnchecked_iff (h : s.Newest getTxPayload)
    (chainHeight : Nat) (tx : CTransaction) :
    (s.step getTxPayload (.addUnchecked chainHeight tx)).Agrees getTxPayload ↔
      s.Undisturbed getTxPayload (.addUnchecked chainHeight tx) := by
  constructor
  · intro hagrees feature hown newest
    have hfeature := (agrees_iff getTxPayload).mp hagrees feature
    rw [h.getElem?_addUnchecked, restrictions_addUnchecked,
      all_not_restricts_iff.mp hown, settle_nil, append_nil] at hfeature
    exact expired_of_purge (fun a ha => restrictions_type ha) hfeature.mp
  · intro hquiet
    exact (h.addUnchecked hquiet).agrees

theorem SporkPool.restrictions_removeUnchecked_eq_nil_iff :
    (s.step getTxPayload (.removeUnchecked tx)).restrictions getTxPayload feature = [] ↔
      ∀ p ∈ s.pooled, p.tx ≠ tx → p.restrictions getTxPayload feature = [] := by
  show (s.pooled.filter _).flatMap _ = [] ↔ _
  simp

variable (h : s.Newest getTxPayload)
include h

theorem SporkPool.Newest.removeUnchecked
    (hquiet : s.Undisturbed getTxPayload (.removeUnchecked tx)) :
    (s.step getTxPayload (.removeUnchecked tx)).Newest getTxPayload := by
  intro feature
  rw [getElem?_removeUnchecked]
  by_cases hnamed : feature ∈ (actionsOf getTxPayload tx).map (·.feature)
  · obtain ⟨action, haction, rfl⟩ := mem_map.mp hnamed
    rw [if_pos hnamed,
      restrictions_removeUnchecked_eq_nil_iff.mpr (hquiet action haction)]
    rfl
  · rw [if_neg hnamed, restrictions_removeUnchecked_of_not_named getTxPayload s hnamed]
    exact h feature

/-- After a removal the map agrees exactly when no other transaction still restricts a
feature that the removed one names. -/
theorem SporkPool.Newest.agrees_removeUnchecked_iff (tx : CTransaction) :
    (s.step getTxPayload (.removeUnchecked tx)).Agrees getTxPayload ↔
      s.Undisturbed getTxPayload (.removeUnchecked tx) := by
  constructor
  · intro hagrees action haction
    have hfeature := (agrees_iff getTxPayload).mp hagrees action.feature
    have hnamed : action.feature ∈ (actionsOf getTxPayload tx).map (·.feature) :=
      mem_map_of_mem haction
    rw [getElem?_removeUnchecked, if_pos hnamed] at hfeature
    exact restrictions_removeUnchecked_eq_nil_iff.mp (hfeature.mp rfl)
  · intro hquiet
    exact (h.removeUnchecked hquiet).agrees

/-- After the pool was cleared the map agrees exactly when nothing had restricted a feature. -/
theorem SporkPool.Newest.agrees_clear_iff :
    (s.step getTxPayload .clear).Agrees getTxPayload ↔ s.Undisturbed getTxPayload .clear := by
  rw [agrees_iff]
  refine forall_congr' fun feature => ?_
  have hentry : (s.step getTxPayload .clear).mempoolSporks[feature]? = none ↔
      s.restrictions getTxPayload feature = [] := by
    show s.mempoolSporks[feature]? = none ↔ _
    rw [h feature]
    exact settle_none_eq_none fun a ha => restrictions_type ha
  rw [hentry]
  exact iff_true_right rfl

theorem SporkPool.Newest.step {e : SporkEvent} (hquiet : s.Undisturbed getTxPayload e) :
    (s.step getTxPayload e).Newest getTxPayload := by
  cases e with
  | addUnchecked chainHeight tx => exact h.addUnchecked hquiet
  | removeUnchecked tx => exact h.removeUnchecked hquiet
  | clear =>
    intro feature
    show s.mempoolSporks[feature]? = settle none []
    rw [h feature, hquiet feature]

omit h

theorem SporkPool.Reachable.newest
    (h : SporkPool.Reachable getTxPayload (SporkPool.Undisturbed getTxPayload) s) :
    s.Newest getTxPayload := by
  induction h with
  | empty =>
    intro feature
    exact getElem?_empty
  | step _ _ hquiet ih => exact ih.step hquiet

/-- **The map of the manager against the pooled transactions.**  In every run without a clear of
a pool with restrictions an entry stems from an action that still restricts its feature.  In every
run whose steps leave the others undisturbed the map agrees with the pool, and every further step
keeps the agreement exactly when it is undisturbed. -/
theorem mempoolSporks_iff_pooled (getTxPayload : CTransaction → Option (List CSporkAction)) :
    (∀ s, SporkPool.Reachable getTxPayload
        (fun s e => e = .clear → s.Undisturbed getTxPayload e) s →
      ∀ feature ∈ s.mempoolSporks, s.restrictions getTxPayload feature ≠ []) ∧
    (∀ s, SporkPool.Reachable getTxPayload (SporkPool.Undisturbed getTxPayload) s →
      s.Agrees getTxPayload ∧
        ∀ e, s.Possible e →
          ((s.step getTxPayload e).Agrees getTxPayload ↔ s.Undisturbed getTxPayload e)) := by
  refine ⟨?_, ?_⟩
  · intro s hrun feature hmem hnil
    obtain ⟨entry, hentry⟩ := OrderedMap.mem_iff_exists.mp hmem
    obtain ⟨action, haction, -⟩ := hrun.justified feature entry hentry
    rw [hnil] at haction
    cases haction
  · intro s hrun
    refine ⟨hrun.newest.agrees, ?_⟩
    intro e _
    cases e with
    | addUnchecked chainHeight tx => exact hrun.newest.agrees_addUnchecked_iff chainHeight tx
    | removeUnchecked tx => exact hrun.newest.agrees_removeUnchecked_iff tx
    | clear => exact hrun.newest.agrees_clear_iff

end Runs

/-! ## §6. Two transactions that disable one feature. -/

/-- A second spork transaction. -/
def otherSporkTx : CTransaction := { sampleSporkTx with hash := 2 }

/-- `sampleSporkTx` waits alone in the pool, accepted at height `1`. -/
def samplePoolOne : SporkPool :=
  SporkPool.step (fun _ => some [sampleAction]) ⟨[], ∅⟩ (.addUnchecked 1 sampleSporkTx)

/-- With one transaction pooled, its removal disturbs nobody and the map agrees. -/
theorem mempoolSporks_iff_pooled_alone :
    (SporkPool.step (fun _ => some [sampleAction]) samplePoolOne
      (.removeUnchecked sampleSporkTx)).Agrees (fun _ => some [sampleAction]) := by
  have hrun : SporkPool.Reachable (fun _ => some [sampleAction])
      (SporkPool.Undisturbed fun _ => some [sampleAction]) samplePoolOne := by
    refine .step .empty (by decide) ?_
    intro feature _ newest hnewest
    cases hnewest
  refine (((mempoolSporks_iff_pooled fun _ => some [sampleAction]).2 samplePoolOne hrun).2
    (.removeUnchecked sampleSporkTx) (by decide)).mpr ?_
  intro action _ p hp hne
  obtain rfl : p = ⟨sampleSporkTx, 1, []⟩ := List.mem_singleton.mp hp
  exact absurd rfl hne

/-- **A restriction is lifted too early, or not at all**: both transactions disable `lelantus`;
once the first one leaves, the second still does, but the map has no entry any more.  After the
pool with the first one is cleared the entry is still there. -/
theorem mempoolSporks_lifted_too_early :
    (∃ s, SporkPool.Reachable (fun _ => some [sampleAction]) (fun _ _ => True) s ∧
      s.pooled.map (·.tx) = [otherSporkTx] ∧
      s.restrictions (fun _ => some [sampleAction]) "lelantus" = [sampleAction] ∧
      "lelantus" ∉ s.mempoolSporks) ∧
    ∃ s, SporkPool.Reachable (fun _ => some [sampleAction]) (fun _ _ => True) s ∧
      s.pooled = [] ∧ "lelantus" ∈ s.mempoolSporks := by
  have hone : SporkPool.Reachable (fun _ => some [sampleAction]) (fun _ _ => True)
      samplePoolOne := .step .empty (by decide) trivial
  have hboth : SporkPool.Reachable (fun _ => some [sampleAction]) (fun _ _ => True)
      (SporkPool.step (fun _ => some [sampleAction]) samplePoolOne
        (.addUnchecked 1 otherSporkTx)) := .step hone (by decide) trivial
  refine ⟨⟨_, .step hboth (show SporkPool.Possible _ (.removeUnchecked sampleSporkTx) by decide)
      trivial, by decide, by decide, ?_⟩,
    _, .step hone (show SporkPool.Possible _ .clear from trivial) trivial, rfl, ?_⟩
  · rw [ExtTreeMap.mem_iff_isSome_getElem?, getElem?_removeUnchecked]
    decide
  · rw [ExtTreeMap.mem_iff_isSome_getElem?]
    show (acceptSporkToMemoryPool _ 1 ∅ sampleSporkTx).1["lelantus"]?.isSome = true
    rw [getElem?_acceptSporkToMemoryPool]
    decide

end Zcoin.Evo
