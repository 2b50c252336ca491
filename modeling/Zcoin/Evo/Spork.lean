/-
  Zcoin.Evo.Spork — the sporks that are active at a block (`evo/spork.h/.cpp`).

  Each block index carries a map from disabled features to the height at which
  they come back and a parameter.  `UpdateActiveSporkMap` derives it from the
  map of the previous block: entries whose height is reached are dropped, then
  the actions of the block's spork transactions are applied in order.

  MAIN RESULT: `activeSpork_iff_last_action`.
-/
import Zcoin.Lib.OrderedMap
import Zcoin.Chain.Transaction

namespace Zcoin.Evo

open List hiding getElem?_insert
open Std Option
open Chain Lib Lib.OrderedMap

/-! ## §1. Actions and the active map. -/

/-- `CSporkAction::ActionType`. -/
inductive ActionType where
  | sporkDisable
  | sporkEnable
  | sporkLimit
  deriving DecidableEq, Repr

/-- `CSporkAction`. -/
structure CSporkAction where
  actionType : ActionType
  feature : String
  parameter : Int
  nEnableAtHeight : Int
  deriving DecidableEq, Repr

/-- `ActiveSporkMap`: feature to (height, parameter). -/
abbrev ActiveSporkMap := ExtTreeMap String (Int × Int)

/-- The fields of `Consensus::Params` that bound the evo-spork window. -/
structure SporkParams where
  nEvoSporkStartBlock : Nat
  nEvoSporkStopBlock : Nat
  deriving DecidableEq, Repr

def SporkParams.inWindow (params : SporkParams) (nHeight : Nat) : Bool :=
  params.nEvoSporkStartBlock ≤ nHeight && nHeight < params.nEvoSporkStopBlock

/-- The test of the expiry loop. -/
def expired (nHeight : Nat) (entry : Int × Int) : Bool := entry.1 ≠ 0 && nHeight ≥ entry.1

/-- The `switch` on one action. -/
def applyAction (nHeight : Nat) (sporkMap : ActiveSporkMap) (action : CSporkAction) :
    ActiveSporkMap :=
  match action.actionType with
  | .sporkEnable => sporkMap.erase action.feature
  | .sporkDisable | .sporkLimit =>
    if action.nEnableAtHeight = 0 ∨
        (action.nEnableAtHeight ≠ 0 ∧ nHeight < action.nEnableAtHeight) then
      sporkMap.insert action.feature (action.nEnableAtHeight, action.parameter)
    else sporkMap

section Update

variable (params : SporkParams) (getTxPayload : CTransaction → Option (List CSporkAction))

def isSporkTx (tx : CTransaction) : Bool := tx.nVersion ≥ 3 && tx.nType = .spork

/-- One transaction of the block; `none` when its payload does not parse. -/
def applySporkTx (nHeight : Nat) (sporkMap : ActiveSporkMap) (tx : CTransaction) :
    Option ActiveSporkMap :=
  if isSporkTx tx then
    (getTxPayload tx).map fun actions => actions.foldl (applyAction nHeight) sporkMap
  else some sporkMap

/-- `CSporkManager::UpdateActiveSporkMap`; `none` is `return false`, after which
the caller restores the map. -/
def updateActiveSporkMap (sporkMap previousSporkMap : ActiveSporkMap) (nHeight : Nat)
    (sporkTransactions : List CTransaction) : Option ActiveSporkMap :=
  if params.inWindow nHeight then
    sporkTransactions.foldlM (applySporkTx getTxPayload nHeight)
      (previousSporkMap.filter fun _ entry => !expired nHeight entry)
  else some sporkMap

/-- `activeDisablingSporks` of the tip after `BlockConnected` along a chain, given
by its blocks above genesis, newest first.  A fresh block index starts out empty. -/
def activeDisablingSporks : List (List CTransaction) → Option ActiveSporkMap
  | [] => some ∅
  | vtx :: rest =>
    (activeDisablingSporks rest).bind fun previous =>
      updateActiveSporkMap params getTxPayload ∅ previous (rest.length + 1) vtx

end Update

/-! ## §2. What the map should say. -/

/-- A disable or limit action mined at or after the height it names. -/
def CSporkAction.outdated (nHeight : Nat) (action : CSporkAction) : Bool :=
  action.actionType ≠ .sporkEnable && action.nEnableAtHeight ≠ 0 &&
    action.nEnableAtHeight ≤ nHeight

/-- The actions on a feature that count. -/
def CSporkAction.countsFor (feature : String) (nHeight : Nat) (action : CSporkAction) : Bool :=
  action.feature = feature && !action.outdated nHeight

/-- What an action leaves for its feature. -/
def CSporkAction.entry (action : CSporkAction) : Option (Int × Int) :=
  if action.actionType = .sporkEnable then none
  else some (action.nEnableAtHeight, action.parameter)

section Spec

variable (params : SporkParams) (getTxPayload : CTransaction → Option (List CSporkAction))

/-- The actions of a transaction. -/
def actionsOf (tx : CTransaction) : List CSporkAction :=
  if isSporkTx tx then (getTxPayload tx).getD [] else []

/-- The actions mined inside the window that count for a feature, in the order of
block, transaction and action. -/
def minedActions (feature : String) : List (List CTransaction) → List CSporkAction
  | [] => []
  | vtx :: rest =>
    minedActions feature rest ++
      if params.inWindow (rest.length + 1) then
        (vtx.flatMap (actionsOf getTxPayload)).filter (·.countsFor feature (rest.length + 1))
      else []

end Spec

/-! ## §3. One block. -/

/-- The last of some actions decides; without any the old value stays. -/
def settle (old : Option (Int × Int)) (actions : List CSporkAction) : Option (Int × Int) :=
  match actions.getLast? with
  | none => old
  | some action => action.entry

theorem settle_nil (old : Option (Int × Int)) : settle old [] = old := rfl

theorem settle_append (old : Option (Int × Int)) (as bs : List CSporkAction) :
    settle old (as ++ bs) = settle (settle old as) bs := by
  unfold settle
  rw [getLast?_append]
  cases bs.getLast? <;> rfl

theorem settle_singleton (old : Option (Int × Int)) (action : CSporkAction) :
    settle old [action] = action.entry := rfl

theorem getElem?_applyAction (nHeight : Nat) (sporkMap : ActiveSporkMap) (action : CSporkAction)
    (feature : String) :
    (applyAction nHeight sporkMap action)[feature]? =
      settle sporkMap[feature]? ([action].filter (·.countsFor feature nHeight)) := by
  -- a disable or limit action counts when the branch that inserts is taken
  have hcounts : action.countsFor feature nHeight = true ↔ feature = action.feature ∧
      (action.actionType ≠ .sporkEnable → action.nEnableAtHeight = 0 ∨
        (action.nEnableAtHeight ≠ 0 ∧ (nHeight : Int) < action.nEnableAtHeight)) := by
    unfold CSporkAction.countsFor CSporkAction.outdated
    grind
  rw [filter_singleton, Bool.cond_eq_ite]
  simp only [hcounts]
  unfold applyAction
  cases htype : action.actionType with
  | sporkEnable => grind [settle, CSporkAction.entry, getElem?_erase]
  | sporkDisable | sporkLimit => grind [settle, CSporkAction.entry, getElem?_insert]

theorem getElem?_foldl_settle {apply : ActiveSporkMap → CSporkAction → ActiveSporkMap}
    {counts : CSporkAction → Bool} {feature : String}
    (hone : ∀ sporks action, (apply sporks action)[feature]? =
      settle sporks[feature]? ([action].filter counts))
    (actions : List CSporkAction) (sporks : ActiveSporkMap) :
    (actions.foldl apply sporks)[feature]? = settle sporks[feature]? (actions.filter counts) := by
  induction actions generalizing sporks with
  | nil => rfl
  | cons action actions ih =>
    rw [foldl_cons, ih, hone, ← settle_append, ← filter_append]
    rfl

section Block

variable {params : SporkParams} {getTxPayload : CTransaction → Option (List CSporkAction)}

theorem getElem?_applySporkTx {nHeight : Nat} {sporkMap sporkMap' : ActiveSporkMap}
    {tx : CTransaction} (h : applySporkTx getTxPayload nHeight sporkMap tx = some sporkMap')
    (feature : String) :
    sporkMap'[feature]? =
      settle sporkMap[feature]?
        ((actionsOf getTxPayload tx).filter (·.countsFor feature nHeight)) := by
  unfold applySporkTx at h
  unfold actionsOf
  split at h
  · next hspork =>
    obtain ⟨actions, hpayload, rfl⟩ := map_eq_some_iff.mp h
    rw [if_pos hspork, hpayload]
    exact getElem?_foldl_settle (getElem?_applyAction nHeight · · feature) _ _
  · next hspork =>
    cases h
    rw [if_neg hspork]
    rfl

theorem getElem?_applySporkTxs {nHeight : Nat} {vtx : List CTransaction}
    {sporkMap sporkMap' : ActiveSporkMap}
    (h : vtx.foldlM (applySporkTx getTxPayload nHeight) sporkMap = some sporkMap')
    (feature : String) :
    sporkMap'[feature]? =
      settle sporkMap[feature]?
        ((vtx.flatMap (actionsOf getTxPayload)).filter (·.countsFor feature nHeight)) := by
  induction vtx generalizing sporkMap with
  | nil =>
    cases h
    rfl
  | cons tx vtx ih =>
    rw [foldlM_cons] at h
    obtain ⟨mid, htx, hrest⟩ := bind_eq_some_iff.mp h
    rw [ih hrest, getElem?_applySporkTx htx, ← settle_append, ← filter_append,
      flatMap_cons]

theorem getElem?_unexpired (nHeight : Nat) (sporkMap : ActiveSporkMap) (feature : String) :
    (sporkMap.filter fun _ entry => !expired nHeight entry)[feature]? =
      sporkMap[feature]?.filter (!expired nHeight ·) := by simp

end Block

/-! ## §4. Along a chain. -/

section Chain

variable {params : SporkParams} {getTxPayload : CTransaction → Option (List CSporkAction)}

/-- The entry of the last action, as long as it has not expired. -/
def lastEntry (params : SporkParams) (getTxPayload : CTransaction → Option (List CSporkAction))
    (feature : String) (chain : List (List CTransaction)) : Option (Int × Int) :=
  (settle none (minedActions params getTxPayload feature chain)).filter
    (!expired chain.length ·)

theorem settle_filter_expired {nHeight : Nat} {feature : String} {actions : List CSporkAction}
    {old : Option (Int × Int)} (hcounts : ∀ a ∈ actions, a.countsFor feature nHeight = true) :
    settle (old.filter (!expired nHeight ·)) actions =
      (settle old actions).filter (!expired nHeight ·) := by
  unfold settle
  cases hlast : actions.getLast? with
  | none => rfl
  | some a =>
    have ha := hcounts a (mem_of_getLast? hlast)
    show a.entry = a.entry.filter (!expired nHeight ·)
    unfold CSporkAction.entry
    split
    · rfl
    · next htype =>
      simp only [CSporkAction.countsFor, CSporkAction.outdated, Bool.and_eq_true,
        Bool.not_eq_true', Bool.and_eq_false_iff] at ha
      have hlive : expired nHeight (a.nEnableAtHeight, a.parameter) = false := by
        unfold expired
        simp only [Bool.and_eq_false_iff]
        rcases ha.2 with (h | h) | h
        · simp [htype] at h
        · exact .inl h
        · exact .inr h
      simp [Option.filter, hlive]

theorem filter_expired_succ (nHeight : Nat) (old : Option (Int × Int)) :
    (old.filter (!expired nHeight ·)).filter (!expired (nHeight + 1) ·) =
      old.filter (!expired (nHeight + 1) ·) := by
  cases old with
  | none => rfl
  | some entry =>
    by_cases h : expired nHeight entry = true
    · have hnext : expired (nHeight + 1) entry = true := by
        unfold expired at h ⊢
        simp only [Bool.and_eq_true, decide_eq_true_eq, ge_iff_le] at h ⊢
        refine ⟨h.1, ?_⟩
        have := h.2
        push_cast
        omega
      simp [Option.filter, h, hnext]
    · simp [Option.filter, h]

variable {chain : List (List CTransaction)}

theorem minedActions_below (hbelow : chain.length < params.nEvoSporkStartBlock) (feature : String) :
    minedActions params getTxPayload feature chain = [] := by
  induction chain with
  | nil => rfl
  | cons vtx rest ih =>
    rw [length_cons] at hbelow
    have hout : params.inWindow (rest.length + 1) = false := by
      unfold SporkParams.inWindow
      rw [decide_eq_false (by omega)]
      rfl
    unfold minedActions
    rw [hout, ih (by omega)]
    rfl

/-- **The map of a block before the end of the window**, by induction along the chain: below the
window nothing is active, and inside it one block expires entries and then lets
its own actions decide. -/
theorem getElem?_activeDisablingSporks {sporkMap : ActiveSporkMap}
    (hrun : activeDisablingSporks params getTxPayload chain = some sporkMap)
    (hstop : chain.length < params.nEvoSporkStopBlock) (feature : String) :
    sporkMap[feature]? = lastEntry params getTxPayload feature chain := by
  induction chain generalizing sporkMap with
  | nil =>
    cases hrun
    exact ExtTreeMap.getElem?_empty
  | cons vtx rest ih =>
    obtain ⟨previous, hprev, hupd⟩ := bind_eq_some_iff.mp hrun
    rw [length_cons] at hstop
    unfold updateActiveSporkMap at hupd
    unfold lastEntry minedActions
    rw [length_cons]
    split at hupd
    · next hwin =>
      have hcounts : ∀ a ∈ (vtx.flatMap (actionsOf getTxPayload)).filter
          (·.countsFor feature (rest.length + 1)), a.countsFor feature (rest.length + 1) = true :=
        fun a ha => (mem_filter.mp ha).2
      rw [if_pos hwin, getElem?_applySporkTxs hupd feature, getElem?_unexpired,
        ih hprev (by omega), lastEntry, filter_expired_succ, settle_filter_expired hcounts,
        settle_append]
    · next hwin =>
      cases hupd
      have hlow : rest.length < params.nEvoSporkStartBlock := by
        simp only [SporkParams.inWindow, Bool.and_eq_true, decide_eq_true_eq] at hwin
        omega
      rw [if_neg hwin, minedActions_below hlow]
      exact ExtTreeMap.getElem?_empty

/-- **The last action on a feature decides.**  After `BlockConnected` of a block in
the window, a feature has an entry exactly when the last action on it, not counting
those out of date when mined, is a disable or limit action whose height is `0` or
still ahead; the entry is that action's height and parameter. -/
theorem activeSpork_iff_last_action {vtx : List CTransaction} {rest : List (List CTransaction)}
    {sporkMap : ActiveSporkMap}
    (hrun : activeDisablingSporks params getTxPayload (vtx :: rest) = some sporkMap)
    (hwin : params.inWindow (rest.length + 1) = true) (feature : String) (entry : Int × Int) :
    sporkMap[feature]? = some entry ↔
      ∃ action, (minedActions params getTxPayload feature (vtx :: rest)).getLast? = some action ∧
        action.actionType ≠ .sporkEnable ∧
        (action.nEnableAtHeight = 0 ∨ ((rest.length + 1 : Nat) : Int) < action.nEnableAtHeight) ∧
        entry = (action.nEnableAtHeight, action.parameter) := by
  unfold SporkParams.inWindow at hwin
  rw [getElem?_activeDisablingSporks hrun (by simp_all) feature]
  unfold lastEntry settle
  cases (minedActions params getTxPayload feature (vtx :: rest)).getLast? with
  | none => simp
  | some action =>
    have hexp : expired (rest.length + 1) (action.nEnableAtHeight, action.parameter) = false ↔
        action.nEnableAtHeight = 0 ∨ ((rest.length + 1 : Nat) : Int) < action.nEnableAtHeight := by
      unfold expired
      simp only [Bool.and_eq_false_iff, decide_eq_false_iff_not, not_not, ge_iff_le, Int.not_le]
    rw [List.length_cons]
    show action.entry.filter _ = some entry ↔ _
    unfold CSporkAction.entry
    by_cases htype : action.actionType = .sporkEnable
    · simp [htype]
    · rw [if_neg htype, Option.filter_some]
      constructor
      · intro h
        split at h
        · next hlive =>
          cases h
          exact ⟨action, rfl, htype, hexp.mp (by simpa using hlive), rfl⟩
        · cases h
      · rintro ⟨a, ha, -, hlive, rfl⟩
        cases ha
        rw [if_pos (by simpa using hexp.mpr hlive)]

end Chain

/-- A disable of `lelantus` until block `5`, the payload of `sampleSporkTx`. -/
def sampleAction : CSporkAction := ⟨.sporkDisable, "lelantus", 0, 5⟩

def sampleSporkTx : CTransaction :=
  { hash := 1, vin := [], vout := [], nVersion := 3, nType := .spork }

/-- Mined in block `1` and two blocks later, the disable is still the entry of
`lelantus`. -/
theorem activeSpork_after_disable :
    ∃ sporkMap : ActiveSporkMap,
      activeDisablingSporks ⟨1, 10⟩ (fun _ => some [sampleAction]) [[], [], [sampleSporkTx]] =
        some sporkMap ∧ sporkMap["lelantus"]? = some (5, 0) := by
  have hsome : (activeDisablingSporks ⟨1, 10⟩ (fun _ => some [sampleAction])
      [[], [], [sampleSporkTx]]).isSome = true := by decide +kernel
  obtain ⟨sporkMap, hrun⟩ := Option.isSome_iff_exists.mp hsome
  refine ⟨sporkMap, hrun, ?_⟩
  exact (activeSpork_iff_last_action hrun (by decide) "lelantus" (5, 0)).mpr
    ⟨sampleAction, by decide +kernel, by decide, by decide, rfl⟩

end Zcoin.Evo
