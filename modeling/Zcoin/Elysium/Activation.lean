/-
  Zcoin.Elysium.Activation — the schedule of features (`elysium/rules.h/.cpp`, `elysium/tx.cpp`,
  `CMPTxList::LoadActivations` in `elysium/elysium.cpp`).

  Each feature has the height from which on it is active.  Messages on the chain change it, and
  a node that starts again sets the defaults and processes the recorded activations once more.
  The list of pending activations and the alerts, which no height depends on, are left out.
-/
import Zcoin.Lib.Sorting

namespace Zcoin.Elysium

open Lib Function List

/-! ## §1. Features. -/

/-- The features whose height can be changed. -/
inductive Feature where
  | classC | metadex | betting | grantEffects | dexMath | sendAll | spCrowdCrossover
  | tradeAllPairs | fees | stov1 | freezeNotice | sigma | sigmaSpendV1
  deriving DecidableEq, Repr

/-- The feature of a `FEATURE_..` identifier. -/
def Feature.ofId : Nat → Option Feature
  | 1 => some .classC
  | 2 => some .metadex
  | 3 => some .betting
  | 4 => some .grantEffects
  | 5 => some .dexMath
  | 6 => some .sendAll
  | 7 => some .spCrowdCrossover
  | 8 => some .tradeAllPairs
  | 9 => some .fees
  | 10 => some .stov1
  | 14 => some .freezeNotice
  | 15 => some .sigma
  | 16 => some .sigmaSpendV1
  | _ => none

/-- `CConsensusParams`, as far as the schedule of features reads it. -/
structure ConsensusParams where
  minActivationBlocks : Int
  maxActivationBlocks : Int
  alertBlock : Int
  block : Feature → Int

/-- The height that `DeactivateFeature` sets. -/
def deactivatedBlock : Int := 999999

variable (params : ConsensusParams)

/-- `IsFeatureActivated`. -/
def isFeatureActivated (featureId : Nat) (transactionBlock : Int) : Bool :=
  match Feature.ofId featureId with
  | none => false
  | some f => decide (params.block f ≤ transactionBlock)

/-- Sets the height of a feature, if it is known. -/
def ConsensusParams.schedule (featureId : Nat) (height : Int) : ConsensusParams :=
  match Feature.ofId featureId with
  | none => params
  | some f => { params with block := Function.update params.block f height }

/-- `ActivateFeature`; a feature that is not known is accepted as one not supported. -/
def activateFeature (featureId : Nat) (activationBlock transactionBlock : Int) :
    Bool × ConsensusParams :=
  if activationBlock < transactionBlock + params.minActivationBlocks ∨
      transactionBlock + params.maxActivationBlocks < activationBlock then (false, params)
  else if isFeatureActivated params featureId transactionBlock then (false, params)
  else (true, params.schedule featureId activationBlock)

/-- `DeactivateFeature`. -/
def deactivateFeature (featureId : Nat) (transactionBlock : Int) : Bool × ConsensusParams :=
  if !isFeatureActivated params featureId transactionBlock then (false, params)
  else (true, params.schedule featureId deactivatedBlock)

/-! ## §2. Messages. -/

def PKT_ERROR : Int := -9000

/-- What a message asks for. -/
inductive FeatureRequest where
  | activation (activationBlock : Int)
  | deactivation
  deriving DecidableEq

/-- `CMPTransaction`, for a message about a feature. -/
structure FeatureMessage (A T : Type) where
  txid : T
  block : Int
  version : Nat
  sender : A
  featureId : Nat
  request : FeatureRequest

/-- `CheckActivationAuthorization` and `CheckDeactivationAuthorization`. -/
structure Authorization (A : Type) where
  activation : A → Bool
  deactivation : A → Bool

variable {A T : Type} (auth : Authorization A)

/-- `logicMath_Activation` and `logicMath_Deactivation`: the return code and the schedule.  The
calls of `MetaDEx_SHUTDOWN` and `MetaDEx_SHUTDOWN_ALLPAIR` at the end of a deactivation, which close
trades and change no schedule, are left out. -/
def logicMathFeature (params : ConsensusParams) (m : FeatureMessage A T) : Int × ConsensusParams :=
  let (authorized, success, params') :=
    match m.request with
    | .activation activationBlock =>
      (auth.activation m.sender, activateFeature params m.featureId activationBlock m.block)
    | .deactivation => (auth.deactivation m.sender, deactivateFeature params m.featureId m.block)
  -- `IsTransactionTypeAllowed`
  if m.version ≠ 0xFFFF ∨ m.block < params.alertBlock then (PKT_ERROR - 22, params)
  else if !authorized then (PKT_ERROR - 51, params)
  else if !success then (PKT_ERROR - 54, params)
  else (0, params')

/-- A node: its schedule, and the valid messages in `CMPTxList`. -/
structure FeatureNode (A T : Type) where
  params : ConsensusParams
  record : List (FeatureMessage A T)

/-- A message of the chain is processed and recorded. -/
def FeatureNode.process (node : FeatureNode A T) (m : FeatureMessage A T) : FeatureNode A T :=
  match logicMathFeature auth node.params m with
  | (rc, params) => { params, record := if rc = 0 then node.record ++ [m] else node.record }

open FeatureMessage FeatureNode

/-- A node that has processed the messages of the chain. -/
def FeatureNode.live (defaults : ConsensusParams) (messages : List (FeatureMessage A T)) :
    FeatureNode A T :=
  messages.foldl (process auth) { params := defaults, record := [] }

def FeatureMessage.isActivation (m : FeatureMessage A T) : Bool := m.request != .deactivation

variable [LinearOrder T]

/-- The order of `std::pair<int64_t, uint256>`. -/
def FeatureMessage.loadsBefore (m m' : FeatureMessage A T) : Prop :=
  pairLe (m.block, m.txid) (m'.block, m'.txid)

instance : DecidableRel (loadsBefore (A := A) (T := T)) := fun _ _ =>
  inferInstanceAs (Decidable (pairLe _ _))

instance : Std.Total (loadsBefore (A := A) (T := T)) where
  total := fun _ _ => Std.Total.total (r := pairLe) _ _

instance : IsTrans (FeatureMessage A T) loadsBefore where
  trans := fun _ _ _ => IsTrans.trans (r := pairLe) _ _ _

/-- `LoadActivations`: the recorded activations are processed in the order of block and txid. -/
def loadActivations (auth : Authorization A) (defaults : ConsensusParams)
    (record : List (FeatureMessage A T)) : ConsensusParams :=
  ((record.filter isActivation).insertionSort loadsBefore).foldl
    (fun params m => (logicMathFeature auth params m).2) defaults

/-! ## §3. The height of one feature. -/

section Heights

variable {A T : Type} {auth : Authorization A} {params : ConsensusParams} {f : Feature}

/-- What a message is checked for besides the schedule. -/
def FeatureMessage.admitted (auth : Authorization A) (params : ConsensusParams)
    (m : FeatureMessage A T) : Bool :=
  m.version == 0xFFFF && decide (params.alertBlock ≤ m.block) &&
    match m.request with
    | .activation activationBlock => auth.activation m.sender &&
        decide (m.block + params.minActivationBlocks ≤ activationBlock) &&
        decide (activationBlock ≤ m.block + params.maxActivationBlocks)
    | .deactivation => auth.deactivation m.sender

/-- The height a message sets. -/
def FeatureMessage.newBlock (m : FeatureMessage A T) : Int :=
  match m.request with
  | .activation activationBlock => activationBlock
  | .deactivation => deactivatedBlock

/-- A message is valid when it is admitted and the feature is not yet in the state asked for. -/
def FeatureMessage.valid (auth : Authorization A) (params : ConsensusParams)
    (m : FeatureMessage A T) : Prop :=
  m.admitted auth params = true ∧ isFeatureActivated params m.featureId m.block = !m.isActivation

/-- **What a message does**: a valid one sets the height, any other changes nothing. -/
theorem logicMathFeature_cases (auth : Authorization A) (params : ConsensusParams)
    (m : FeatureMessage A T) :
    (m.valid auth params ∧
        logicMathFeature auth params m = (0, params.schedule m.featureId m.newBlock)) ∨
      ¬ m.valid auth params ∧ ∃ rc ≠ 0, logicMathFeature auth params m = (rc, params) := by
  unfold valid logicMathFeature admitted newBlock
    isActivation activateFeature deactivateFeature PKT_ERROR
  cases hrequest : m.request <;>
    cases isFeatureActivated params m.featureId m.block <;>
    dsimp only <;>
    split_ifs <;> simp_all <;> omega

/-- A message about a feature. -/
def FeatureMessage.concerns (m : FeatureMessage A T) (f : Feature) : Bool :=
  Feature.ofId m.featureId == some f

/-- The height of a feature after a message. -/
def nextBlock (auth : Authorization A) (params : ConsensusParams) (f : Feature) (height : Int)
    (m : FeatureMessage A T) : Int :=
  if m.concerns f = true ∧ m.admitted auth params = true ∧
      decide (height ≤ m.block) = !m.isActivation then m.newBlock
  else height

/-- The rules that no message changes. -/
def ConsensusParams.SameRules (params defaults : ConsensusParams) : Prop :=
  ∀ b, { params with block := b } = { defaults with block := b }

variable {defaults : ConsensusParams} (h : params.SameRules defaults)
include h

theorem ConsensusParams.SameRules.admitted
    (m : FeatureMessage A T) : m.admitted auth params = m.admitted auth defaults := by
  show m.admitted auth { params with block := fun _ => 0 } =
    m.admitted auth { defaults with block := fun _ => 0 }
  rw [h]

theorem ConsensusParams.SameRules.logicMath (m : FeatureMessage A T) :
    (logicMathFeature auth params m).2.SameRules defaults ∧
      (logicMathFeature auth params m).2.block f = nextBlock auth defaults f (params.block f) m := by
  unfold nextBlock concerns
  rcases logicMathFeature_cases auth params m with ⟨⟨hadmitted, hstate⟩, hrun⟩ | ⟨hnot, rc, -, hrun⟩
  · rw [hrun]
    rw [h.admitted] at hadmitted
    unfold ConsensusParams.schedule
    unfold isFeatureActivated at hstate
    cases hid : Feature.ofId m.featureId with
    | none => exact ⟨h, rfl⟩
    | some g =>
      rw [hid] at hstate
      refine ⟨h, ?_⟩
      by_cases hfg : g = f
      · subst hfg
        rw [if_pos ⟨beq_self_eq_true _, hadmitted, hstate⟩]
        exact update_self _ _ _
      · rw [if_neg (fun hc => hfg (Option.some.inj (eq_of_beq hc.1)))]
        exact update_of_ne (Ne.symm hfg) _ _
  · rw [hrun]
    refine ⟨h, (if_neg ?_).symm⟩
    rintro ⟨hid, hadmitted, hstate⟩
    refine hnot ⟨by rw [h.admitted]; exact hadmitted, ?_⟩
    unfold isFeatureActivated
    rw [eq_of_beq hid]
    exact hstate

/-- **Each feature has its own history**: its height depends on the messages about it alone. -/
theorem foldl_logicMath (ms : List (FeatureMessage A T)) :
    (ms.foldl (fun params m => (logicMathFeature auth params m).2) params).block f =
      (ms.filter (·.concerns f)).foldl (nextBlock auth defaults f) (params.block f) := by
  induction ms generalizing params with
  | nil => rfl
  | cons m ms ih =>
    obtain ⟨hrules, hblock⟩ := @ConsensusParams.SameRules.logicMath A T auth params f defaults h m
    rw [foldl_cons, ih hrules, hblock, filter_cons]
    split
    · rfl
    · next hother =>
      have hsame : nextBlock auth defaults f (params.block f) m = params.block f :=
        if_neg fun hc => hother hc.1
      rw [hsame]

omit h

theorem foldl_nextBlock_cases (ms : List (FeatureMessage A T)) (height : Int) :
    ms.foldl (nextBlock auth params f) height = height ∨
      ∃ m ∈ ms, m.concerns f = true ∧ ms.foldl (nextBlock auth params f) height = m.newBlock := by
  induction ms generalizing height with
  | nil => exact .inl rfl
  | cons m ms ih =>
    rw [foldl_cons]
    rcases ih (nextBlock auth params f height m) with hsame | ⟨m', hm', hconcerns, heq⟩
    · rw [hsame]
      unfold nextBlock
      split
      · next hc => exact .inr ⟨m, mem_cons_self, hc.1, rfl⟩
      · exact .inl rfl
    · exact .inr ⟨m', mem_cons_of_mem m hm', hconcerns, heq⟩

end Heights

/-! ## §4. Starting again. -/

section Reload

variable {A T : Type} {auth : Authorization A} {defaults : ConsensusParams} {f : Feature}

theorem live_snoc (ms : List (FeatureMessage A T)) (m : FeatureMessage A T) :
    live auth defaults (ms ++ [m]) =
      (live auth defaults ms).process auth m := by
  unfold live
  rw [foldl_append]
  rfl

theorem live_params (ms : List (FeatureMessage A T)) :
    (live auth defaults ms).params =
      ms.foldl (fun params m => (logicMathFeature auth params m).2) defaults := by
  induction ms using reverseRecOn with
  | nil => rfl
  | append_singleton ms m ih =>
    rw [live_snoc, foldl_append, ← ih]
    rfl

theorem live_rules (ms : List (FeatureMessage A T)) :
    (live auth defaults ms).params.SameRules defaults := by
  induction ms using reverseRecOn with
  | nil => exact fun _ => rfl
  | append_singleton ms m ih =>
    rw [live_snoc]
    exact (ConsensusParams.SameRules.logicMath (f := .fees) ih m).1

/-- An activation of a feature. -/
def FeatureMessage.activates (f : Feature) (m : FeatureMessage A T) : Bool :=
  m.isActivation && m.concerns f

/-- A deactivation of a feature is recorded. -/
def Deactivated (f : Feature) (record : List (FeatureMessage A T)) : Prop :=
  ∃ m ∈ record, m.concerns f = true ∧ m.isActivation = false

/-- The height that the recorded activations lead to, in the order of the chain. -/
def replayed (auth : Authorization A) (defaults : ConsensusParams) (f : Feature)
    (record : List (FeatureMessage A T)) : Int :=
  (record.filter (·.activates f)).foldl (nextBlock auth defaults f) (defaults.block f)

theorem replayed_snoc (record : List (FeatureMessage A T)) (m : FeatureMessage A T) :
    replayed auth defaults f (record ++ [m]) =
      if m.activates f = true then nextBlock auth defaults f (replayed auth defaults f record) m
      else replayed auth defaults f record := by
  unfold replayed
  rw [filter_append, foldl_append, filter_singleton]
  cases m.activates f <;> rfl

variable {record : List (FeatureMessage A T)} {m : FeatureMessage A T}

theorem deactivated_snoc :
    Deactivated f (record ++ [m]) ↔
      Deactivated f record ∨ m.concerns f = true ∧ m.isActivation = false := by
  unfold Deactivated
  simp only [mem_append, mem_singleton, or_and_right, exists_or, exists_eq_left]

/-- **The recorded activations against the chain**: without a deactivation they lead to the height
of the live node; with one, to a height that has passed. -/
theorem replayed_spec {ms : List (FeatureMessage A T)} {now : Int}
    (hchain : ms.Pairwise fun m m' => m.block ≤ m'.block) (hnow : ∀ m ∈ ms, m.block ≤ now) :
    (¬ Deactivated f (live auth defaults ms).record →
        replayed auth defaults f (live auth defaults ms).record =
          (live auth defaults ms).params.block f) ∧
      (Deactivated f (live auth defaults ms).record →
        replayed auth defaults f (live auth defaults ms).record ≤ now) := by
  induction ms using reverseRecOn generalizing now with
  | nil => exact ⟨fun _ => rfl, fun ⟨_, hm, _⟩ => absurd hm not_mem_nil⟩
  | append_singleton ms m ih =>
    rw [pairwise_append] at hchain
    have hm := hnow m (mem_append_right _ (mem_singleton_self m))
    -- the blocks before are no higher than the one of the message
    obtain ⟨hkept, hpassed⟩ := ih hchain.1
      (fun m' hm' => hchain.2.2 m' hm' m (mem_singleton_self m))
    have hrules := @live_rules A T auth defaults ms
    have hheight := (@ConsensusParams.SameRules.logicMath A T auth _ f defaults hrules m).2
    rw [live_snoc]
    unfold process
    generalize live auth defaults ms = node at hkept hpassed hrules hheight ⊢
    rcases logicMathFeature_cases auth node.params m with ⟨hvalid, hrun⟩ | ⟨-, rc, hrc, hrun⟩
    · rw [hrun] at hheight ⊢
      dsimp only at hheight ⊢
      rw [if_pos rfl, hheight, replayed_snoc, deactivated_snoc]
      cases hconcerns : m.concerns f with
      | false =>
        -- a message about another feature
        have hheld : nextBlock auth defaults f (node.params.block f) m = node.params.block f :=
          if_neg fun hc => by rw [hconcerns] at hc; cases hc.1
        rw [hheld, if_neg (by rw [activates, hconcerns, Bool.and_false]; simp)]
        simp only [Bool.false_eq_true, false_and, or_false]
        exact ⟨hkept, fun hd => (hpassed hd).trans hm⟩
      | true =>
        obtain ⟨hadmitted, hstate⟩ := hvalid
        rw [hrules.admitted] at hadmitted
        unfold isFeatureActivated at hstate
        rw [eq_of_beq hconcerns] at hstate
        dsimp only at hstate
        unfold activates
        cases hkind : m.isActivation with
        | true =>
          rw [hconcerns, Bool.true_and, if_pos rfl]
          simp only [Bool.true_eq_false, and_false, or_false]
          refine ⟨fun hd => by rw [hkept hd], fun hd => ?_⟩
          -- the feature is live for the node that starts again: refused
          have hrefused : nextBlock auth defaults f
              (replayed auth defaults f node.record) m =
                replayed auth defaults f node.record := by
            apply if_neg
            rintro ⟨-, -, hopen⟩
            rw [decide_eq_true (hpassed hd), hkind] at hopen
            cases hopen
          rw [hrefused]
          exact (hpassed hd).trans hm
        | false =>
          rw [hconcerns, Bool.false_and, if_neg Bool.false_ne_true]
          refine ⟨fun hd => absurd (.inr ⟨rfl, rfl⟩) hd, fun _ => ?_⟩
          by_cases hd : Deactivated f node.record
          · exact (hpassed hd).trans hm
          · rw [hkept hd]
            rw [hkind] at hstate
            exact (of_decide_eq_true hstate).trans hm
    · rw [hrun]
      dsimp only
      rw [if_neg hrc]
      exact ⟨hkept, fun hd => (hpassed hd).trans hm⟩

theorem record_sublist (ms : List (FeatureMessage A T)) :
    (live auth defaults ms).record.Sublist ms := by
  induction ms using reverseRecOn with
  | nil => exact List.Sublist.refl []
  | append_singleton ms m ih =>
    rw [live_snoc]
    unfold process
    dsimp only
    split
    · exact ih.append (List.Sublist.refl [m])
    · exact ih.trans (sublist_append_left ms [m])

/-- After a deactivation the height is 999999, unless an activation has set it. -/
theorem deactivated_cases {before behind : List (FeatureMessage A T)}
    (hconcerns : m.concerns f = true) (hkind : m.isActivation = false)
    (hvalid : (logicMathFeature auth (live auth defaults before).params m).1 = 0) :
    (live auth defaults (before ++ m :: behind)).params.block f = deactivatedBlock ∨
      ∃ m' ∈ behind, m'.activates f = true ∧
        (live auth defaults (before ++ m :: behind)).params.block f = m'.newBlock := by
  have hnewBlock : ∀ m' : FeatureMessage A T, m'.isActivation = false →
      m'.newBlock = deactivatedBlock := by
    intro m' hm'
    unfold newBlock
    unfold isActivation at hm'
    cases hrequest : m'.request with
    | activation b =>
      rw [hrequest] at hm'
      cases hm'
    | deactivation => rfl
  have hset : (logicMathFeature auth (live auth defaults before).params m).2.block f =
      deactivatedBlock := by
    rcases logicMathFeature_cases auth (live auth defaults before).params m with
      ⟨-, hrun⟩ | ⟨-, rc, hrc, hrun⟩
    · rw [hrun, ConsensusParams.schedule, eq_of_beq hconcerns, ← hnewBlock m hkind]
      exact update_self _ _ _
    · rw [hrun] at hvalid
      exact absurd hvalid hrc
  have hrules := (@ConsensusParams.SameRules.logicMath A T auth _ f defaults
    (@live_rules A T auth defaults before) m).1
  rw [live_params, foldl_append, foldl_cons, ←
    @live_params A T auth defaults before, foldl_logicMath hrules, hset]
  -- the last message that was accepted set the height
  rcases foldl_nextBlock_cases (behind.filter (·.concerns f)) deactivatedBlock with
    hsame | ⟨m', hm', hconcerns', hset'⟩
  · exact .inl hsame
  · cases hkind' : m'.isActivation with
    | true =>
      refine .inr ⟨m', (mem_filter.mp hm').1, ?_, hset'⟩
      rw [activates, hkind', hconcerns']
      rfl
    | false => exact .inl (hset'.trans (hnewBlock m' hkind'))

/-- **At 999999 a deactivation ends**, also without an activation. -/
theorem deactivated_ends {before behind : List (FeatureMessage A T)}
    (hconcerns : m.concerns f = true) (hkind : m.isActivation = false)
    (hvalid : (logicMathFeature auth (live auth defaults before).params m).1 = 0)
    (hlater : ∀ m' ∈ behind, m'.activates f = false) (height : Int) :
    (live auth defaults (before ++ m :: behind)).params.block f ≤ height ↔
      deactivatedBlock ≤ height := by
  rcases deactivated_cases hconcerns hkind hvalid with hblock | ⟨m', hm', hactivates, -⟩
  · rw [hblock]
  · rw [hlater m' hm'] at hactivates
    cases hactivates

variable [LinearOrder T]

/-- The messages of a chain: in the order of their blocks, and two activations of one feature in
one block in the order of their txids. -/
structure OnChain (ms : List (FeatureMessage A T)) : Prop where
  blocks : ms.Pairwise fun m m' => m.block ≤ m'.block
  txids : ms.Pairwise fun m m' => ∀ f, m.activates f = true → m'.activates f = true →
    m.block = m'.block → m.txid < m'.txid

/-- **The order of loading** is, for each feature, that of the chain. -/
theorem loadActivations_eq (h : OnChain record) :
    (loadActivations auth defaults record).block f = replayed auth defaults f record := by
  have hbefore : (record.filter (·.activates f)).Pairwise fun m m' =>
      toLex (m.block, m.txid) < toLex (m'.block, m'.txid) := by
    have hboth := (h.blocks.and h.txids).sublist (filter_sublist (p := (·.activates f)))
    refine hboth.imp_of_mem ?_
    intro m m' hm hm' ⟨hblock, htxid⟩
    rw [Prod.Lex.toLex_lt_toLex]
    rcases hblock.lt_or_eq with hlt | heq
    · exact .inl hlt
    · exact .inr ⟨heq, htxid f (mem_filter.mp hm).2 (mem_filter.mp hm').2 heq⟩
  have hsorted : ((record.filter isActivation).insertionSort
      loadsBefore).filter (·.concerns f) = record.filter (·.activates f) := by
    have hperm : (((record.filter isActivation).insertionSort
        loadsBefore).filter (·.concerns f)).Perm (record.filter (·.activates f)) := by
      refine ((perm_insertionSort _ _).filter _).trans (List.Perm.of_eq ?_)
      rw [filter_filter]
      exact filter_congr fun m _ => Bool.and_comm _ _
    refine List.Perm.eq_of_pairwise ?_ ((pairwise_insertionSort _ _).sublist
      filter_sublist) (hbefore.imp fun hlt => pairLe_iff.mpr hlt.le) hperm
    -- no two of them have the same block and txid
    intro m m' hm hm' hle hge
    have hkeys : toLex (m.block, m.txid) = toLex (m'.block, m'.txid) :=
      le_antisymm (pairLe_iff.mp hle) (pairLe_iff.mp hge)
    have hnodup : ((record.filter (·.activates f)).map
        fun m => toLex (m.block, m.txid)).Nodup := pairwise_map.mpr (hbefore.imp ne_of_lt)
    exact inj_on_of_nodup_map hnodup (hperm.mem_iff.mp hm) hm' hkeys
  unfold loadActivations replayed
  rw [foldl_logicMath (fun _ => rfl), hsorted]

end Reload

/-! ## §5. A feature that is switched off. -/

/-- `CRegTestConsensusParams`. -/
def regTestConsensusParams : ConsensusParams where
  minActivationBlocks := 5
  maxActivationBlocks := 10
  alertBlock := 0
  block
    | .betting | .stov1 | .fees | .freezeNotice => 999999
    | .sigma => 100
    | .sigmaSpendV1 => 150
    | _ => 0

/-- The fee system is activated at block 206 and deactivated in block 210. -/
def feesMessages (deactivated : Bool) : List (FeatureMessage Nat Nat) :=
  { txid := 1, block := 200, version := 0xFFFF, sender := 0, featureId := 9
    request := .activation 206 } ::
  if deactivated then
    [{ txid := 2, block := 210, version := 0xFFFF, sender := 0, featureId := 9
       request := .deactivation }]
  else []

def anySender : Authorization Nat := ⟨fun _ => true, fun _ => true⟩

end Zcoin.Elysium
