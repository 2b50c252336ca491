/-
  Zcoin.Evo.BlockReward — the outputs a coinbase has to contain (the reward checks of
  `ContextualCheckBlock` and `ConnectBlock`, `validation.cpp`; `GetBlockTxOuts` and
  `IsTransactionValid`, `masternode-payments.cpp`).

  Every output that is due is looked for in the whole coinbase, by equality.  One output
  therefore meets two dues that are equal, and each due has an output of its own exactly
  when no two of them agree in script and amount.
-/
import Zcoin.Evo.Masternode

namespace Zcoin.Evo

open Chain List

/-! ## §1. Subsidies and the outputs that are due. -/

def ZC_GENESIS_BLOCK_TIME : UInt32 := 1414776286
def nStartRewardTime : Int := 1475020800
def REJECT_TRANSACTION_TOO_EARLY : Nat := 0x44
def REJECT_FOUNDER_REWARD_MISSING : Nat := 0x45

def founderAddresses (isMain : Bool) (nHeight : Nat) : List String :=
  if isMain then
    ["aCAgTPgtYcA4EysU4UKC86EQd5cTtHtCcr",
      if nHeight < 14000 then "aLrg41sXbXZc5MyEj7dts8upZKSAtJmRDR"
        else "aHu897ivzmeFuLNB6956X6gyGeVNHUBRgD",
      "aQ18FBVFtnueucZKeVg4srhmzbpAeb1KoN", "a1HwTdCmQV3NspP2QqCGpehoFpi8NY4Zg3",
      "a1kCCGddf5pMXSipLVD9hBG2MGGVNaJ15U"]
  else
    ["TDk19wPKYq91i18qmY6U9FeTdTxwPeSveo", "TWZZcDGkNixTAMtRBqzZkkMHbq1G6vUTk5",
      "TRZTFdNCKCKbLMQV8cZDkQN9Vwuuq4gDzT", "TG2ruj59E5b1u9G3F7HQVs6pCcVDBxrQve",
      "TCsTzQZKVn4fao8jDmB9zQBk9YQNEZ3XfS"]

/-- What the checks of a block read: the consensus parameters, the scripts of addresses (those
of the founders are different constants), the masternode list of the previous block, and
height and time of the block.  The defaults are those of the main network. -/
structure RewardContext (η : Type) where
  isMain : Bool := true
  nSubsidyHalvingFirst : Nat := 302438
  nSubsidyHalvingInterval : Nat := 420000
  nSubsidyHalvingStopBlock : Nat := 3646849
  stage2DevelopmentFundAddress : String := "aFrAVZFr8pva5mG8XKaUH8EXcFVVNxLiuB"
  stage2DevelopmentFundShare : Nat := 15
  stage2ZnodeShare : Nat := 35
  nZnodePaymentsStartBlock : Nat := 66700
  nCheckBugFixedAtBlock : Nat := 61168
  nMTPSwitchTime : UInt32 := 1544443200
  nMTPRewardReduction : Nat := 2
  dip0003EnforcementHeight : Nat := 284400
  /-- `GetScriptForDestination(CBitcoinAddress(address).Get())` -/
  script : String → CScript
  extractDestination : CScript → Bool
  founders_nodup : ∀ nHeight, ((founderAddresses isMain nHeight).map script).Nodup
  list : CDeterministicMNList η
  nHeight : Nat
  nTime : UInt32

variable {η : Type} (c : RewardContext η)

def isMTP : Bool := ZC_GENESIS_BLOCK_TIME < c.nTime ∧ c.nMTPSwitchTime ≤ c.nTime

def getBlockSubsidyWithMTPFlag (fMTP : Bool) : CAmount :=
  if c.nHeight = 0 then 0
  else if c.nSubsidyHalvingStopBlock ≤ c.nHeight then 0
  else
    let halvings := if c.nHeight < c.nSubsidyHalvingFirst then 0
      else (c.nHeight - c.nSubsidyHalvingFirst) / c.nSubsidyHalvingInterval + 1
    if 64 ≤ halvings then 0
    else
      let nSubsidy := 50 * COIN / 2 ^ halvings
      if fMTP then nSubsidy / c.nMTPRewardReduction else nSubsidy

/-- `GetBlockSubsidy`; here the times are compared as signed integers. -/
def getBlockSubsidy : CAmount :=
  getBlockSubsidyWithMTPFlag c (c.nMTPSwitchTime.toInt32 ≤ c.nTime.toInt32)

def getMasternodePayment (blockValue : CAmount) : CAmount :=
  if c.nSubsidyHalvingFirst ≤ c.nHeight then blockValue * c.stage2ZnodeShare / 100
  else blockValue * 3 / 10

/-- `GetBlockTxOuts` with the list of the previous block; `none` is `return false`. -/
def getBlockTxOuts (blockReward : CAmount) : Option (List CTxOut) :=
  if c.nHeight = 0 then none
  else
    match c.list.getMNPayee with
    | none => none
    | some dmnPayee =>
      let masternodeReward := getMasternodePayment c blockReward
      let operatorReward : CAmount :=
        if dmnPayee.nOperatorReward ≠ 0 ∧ dmnPayee.pdmnState.scriptOperatorPayout ≠ [] then
          masternodeReward * dmnPayee.nOperatorReward.toNat / 10000
        else 0
      let masternodeReward := masternodeReward - operatorReward
      some ((if 0 < masternodeReward then
          [⟨masternodeReward, dmnPayee.pdmnState.scriptPayout⟩] else []) ++
        if 0 < operatorReward then
          [⟨operatorReward, dmnPayee.pdmnState.scriptOperatorPayout⟩] else [])

/-- What `CheckZerocoinFoundersInputs` looks for. -/
def founderOuts (fMTP : Bool) : List CTxOut :=
  let reductionFactor : Nat := if fMTP then c.nMTPRewardReduction else 1
  let coins : List Int :=
    if c.nHeight < c.nZnodePaymentsStartBlock then [2, 2, 2, 2, 2] else [1, 1, 1, 3, 1]
  zipWith (fun coins address => ⟨coins * COIN / reductionFactor, c.script address⟩) coins
    (founderAddresses c.isMain c.nHeight)

/-- `devPayoutValue` to `devPayoutScript`. -/
def developerOut : CTxOut :=
  ⟨getBlockSubsidy c * c.stage2DevelopmentFundShare / 100,
    c.script c.stage2DevelopmentFundAddress⟩

/-! ## §2. The checks. -/

/-- `CheckZerocoinFoundersInputs`; the znode payments it counts are not used. -/
def checkZerocoinFoundersInputs (adjustedTime : Int) (fMTP : Bool) (vout : List CTxOut) :
    Except Stop Unit :=
  if c.nCheckBugFixedAtBlock < c.nHeight ∧ c.nHeight < c.nSubsidyHalvingFirst then do
    rejectIf (c.isMain && decide (adjustedTime ≤ nStartRewardTime)) 100
      REJECT_TRANSACTION_TOO_EARLY "CTransaction::CheckTransaction() : transaction is too early"
    let founders := founderOuts c fMTP
    let found :=
      if c.nHeight < c.nZnodePaymentsStartBlock then
        founders.all vout.contains
      else
        -- an output stands for the first of the five it matches, then `continue`
        (range founders.length).all fun i => vout.any fun output => founders.idxOf output == i
    rejectIf (!found) 100 REJECT_FOUNDER_REWARD_MISSING
      "CTransaction::CheckTransaction() : founders reward missing"
  else .ok ()

/-- The rewards in `ContextualCheckBlock`; the debug messages of `Invalid` are left out. -/
def contextualCheckReward (adjustedTime : Int) (vout : List CTxOut) : Except Stop Unit :=
  if c.nSubsidyHalvingFirst ≤ c.nHeight then
    if c.nHeight < c.nSubsidyHalvingFirst + c.nSubsidyHalvingInterval then
      rejectIf (!vout.contains (developerOut c)) 0 0 ""
    else .ok ()
  else checkZerocoinFoundersInputs c adjustedTime (isMTP c) vout

/-- `IsTransactionValid`; a missing payee without an address runs into `assert(false)`. -/
def isTransactionValid (vout : List CTxOut) (blockReward : CAmount) : Except Stop Bool :=
  if c.nHeight < c.dip0003EnforcementHeight then .ok true
  else
    match getBlockTxOuts c blockReward with
    | none => .ok true
    | some payments =>
      match payments.find? fun txout => !vout.contains txout with
      | none => .ok true
      | some missing =>
        if c.extractDestination missing.scriptPubKey then .ok false
        else .error (.aborted .assertion)

def isBlockPayeeValid (fLiteMode : Bool) (vout : List CTxOut) (blockReward : CAmount) :
    Except Stop Bool :=
  if fLiteMode then .ok true else isTransactionValid c vout blockReward

/-- The rewards in `ConnectBlock`; `IsBlockValueValid` compares the same two values again. -/
def connectReward (fLiteMode : Bool) (nFees : CAmount) (coinbase : CTransaction) :
    Except Stop Unit := do
  let blockSubsidy := getBlockSubsidy c
  rejectIf (nFees + blockSubsidy < coinbase.getValueOut) 100 REJECT_INVALID "bad-cb-amount"
  rejectIf (!decide (coinbase.getValueOut ≤ nFees + blockSubsidy)) 0 REJECT_INVALID
    "bad-cb-amount"
  let valid ← isBlockPayeeValid c fLiteMode coinbase.vout blockSubsidy
  rejectIf (!valid) 0 REJECT_INVALID "bad-cb-payee"

/-- A node that is not in lite mode accepts the coinbase. -/
abbrev RewardAccepted (adjustedTime : Int) (nFees : CAmount) (coinbase : CTransaction) : Prop :=
  contextualCheckReward c adjustedTime coinbase.vout = .ok () ∧
    connectReward c false nFees coinbase = .ok ()

/-- The developer's or the founders' outputs of a height. -/
def fundOuts : List CTxOut :=
  if c.nSubsidyHalvingFirst ≤ c.nHeight then
    if c.nHeight < c.nSubsidyHalvingFirst + c.nSubsidyHalvingInterval then [developerOut c] else []
  else if c.nCheckBugFixedAtBlock < c.nHeight then founderOuts c (isMTP c) else []

/-- **All dues** of a block: the owner's, the operator's and those of the fund. -/
def obligations : List CTxOut :=
  (getBlockTxOuts c (getBlockSubsidy c)).getD [] ++ fundOuts c

/-- **The owner and the operator share the masternode payment**, the operator's part rounded down,
when there is anything to share. -/
theorem getBlockTxOuts_sum {blockReward : CAmount} {payments : List CTxOut}
    (hpositive : 0 ≤ getMasternodePayment c blockReward)
    (hreward : ∀ dmn ∈ c.list.getMNPayee, dmn.nOperatorReward.toNat ≤ 10000)
    (h : getBlockTxOuts c blockReward = some payments) :
    (payments.map (·.nValue)).sum = getMasternodePayment c blockReward := by
  unfold getBlockTxOuts at h
  split at h
  · cases h
  split at h
  · cases h
  next dmnPayee hpayee =>
  cases h
  have hle : (dmnPayee.nOperatorReward.toNat : Int) ≤ 10000 :=
    Int.ofNat_le.mpr (hreward dmnPayee hpayee)
  have hlow := mul_nonneg hpositive (Int.natCast_nonneg dmnPayee.nOperatorReward.toNat)
  have hhigh := mul_le_mul_of_nonneg_left hle hpositive
  generalize hoperator : (if dmnPayee.nOperatorReward ≠ 0 ∧
      dmnPayee.pdmnState.scriptOperatorPayout ≠ [] then _ else (0 : CAmount)) = operatorReward
  have hpart : 0 ≤ operatorReward ∧ operatorReward ≤ getMasternodePayment c blockReward := by
    split at hoperator <;> subst hoperator
    · exact ⟨Int.ediv_nonneg hlow (by decide), Int.ediv_le_of_le_mul (by decide) hhigh⟩
    · exact ⟨le_rfl, hpositive⟩
  rw [map_append, sum_append]
  split <;> split <;> simp only [map_cons, map_nil, sum_cons, sum_nil] <;> linarith

/-! ## §3. What is accepted. -/

variable {c} {adjustedTime : Int} {vout : List CTxOut}

theorem founderOuts_nodup (fMTP : Bool) : (founderOuts c fMTP).Nodup := by
  refine Nodup.of_map (·.scriptPubKey) ?_
  convert c.founders_nodup c.nHeight using 1
  unfold founderOuts founderAddresses
  by_cases hstart : c.nHeight < c.nZnodePaymentsStartBlock <;> cases c.isMain <;> simp [hstart]

/-- Different dues are all found by the loop that goes on after a match. -/
theorem first_match_iff {founders : List CTxOut} (hnodup : founders.Nodup) :
    ((range founders.length).all fun i => vout.any fun output => founders.idxOf output == i) =
      true ↔ ∀ founder ∈ founders, founder ∈ vout := by
  simp only [all_eq_true, mem_range, any_eq_true, beq_iff_eq]
  constructor
  · intro h founder hfounder
    obtain ⟨output, houtput, hidx⟩ := h _ (idxOf_lt_length_of_mem hfounder)
    rwa [(idxOf_inj hfounder).mp hidx.symm]
  · intro h i hi
    exact ⟨founders[i], h _ (getElem_mem hi), hnodup.idxOf_getElem i hi⟩

theorem contextualCheckReward_eq_ok :
    contextualCheckReward c adjustedTime vout = .ok () ↔
      (c.nCheckBugFixedAtBlock < c.nHeight → c.nHeight < c.nSubsidyHalvingFirst → c.isMain = true →
        nStartRewardTime < adjustedTime) ∧ ∀ due ∈ fundOuts c, due ∈ vout := by
  unfold contextualCheckReward fundOuts
  by_cases hfirst : c.nSubsidyHalvingFirst ≤ c.nHeight
  · rw [if_pos hfirst, if_pos hfirst]
    split <;> simp [hfirst]
  · rw [if_neg hfirst, if_neg hfirst]
    unfold checkZerocoinFoundersInputs
    by_cases hfixed : c.nCheckBugFixedAtBlock < c.nHeight
    · rw [if_pos ⟨hfixed, by omega⟩, if_pos hfixed]
      simp only [Lib.Except.bind_eq_ok, rejectIf_eq_ok, exists_const, Bool.not_eq_false']
      refine and_congr (by simp [hfixed, lt_of_not_ge hfirst]) ?_
      split
      · simp
      · exact first_match_iff (founderOuts_nodup _)
    · simp [hfixed]

variable (hdip3 : c.dip0003EnforcementHeight ≤ c.nHeight)
include hdip3

theorem isTransactionValid_eq_true (blockReward : CAmount) :
    isTransactionValid c vout blockReward = .ok true ↔
      ∀ due ∈ (getBlockTxOuts c blockReward).getD [], due ∈ vout := by
  unfold isTransactionValid
  rw [if_neg hdip3.not_gt]
  cases getBlockTxOuts c blockReward with
  | none => simp
  | some payments =>
    show (match payments.find? fun txout => !vout.contains txout with
      | none => _ | some missing => _) = _ ↔ ∀ due ∈ payments, _
    cases hmissing : payments.find? fun txout => !vout.contains txout with
    | none => simpa using hmissing
    | some missing =>
      have hout : missing ∉ vout := by simpa using find?_some hmissing
      refine iff_of_false ?_ fun hpaid => hout (hpaid _ (mem_of_find?_eq_some hmissing))
      cases hdest : c.extractDestination missing.scriptPubKey <;> simp [hdest]

theorem connectReward_eq_ok {nFees : CAmount} {coinbase : CTransaction} :
    connectReward c false nFees coinbase = .ok () ↔
      coinbase.getValueOut ≤ getBlockSubsidy c + nFees ∧
        ∀ due ∈ (getBlockTxOuts c (getBlockSubsidy c)).getD [], due ∈ coinbase.vout := by
  rw [← isTransactionValid_eq_true hdip3]
  simp [connectReward, isBlockPayeeValid, Lib.Except.bind_eq_ok, add_comm nFees]

/-- **Every due has its own output** in all accepted coinbases, and they take no more than
subsidy and fees, exactly when the dues are different. -/
theorem obligations_paid_iff :
    (∀ adjustedTime nFees coinbase, RewardAccepted c adjustedTime nFees coinbase →
      obligations c <+~ coinbase.vout ∧ coinbase.getValueOut ≤ getBlockSubsidy c + nFees) ↔
      (obligations c).Nodup := by
  unfold RewardAccepted
  simp only [contextualCheckReward_eq_ok, connectReward_eq_ok hdip3]
  constructor
  · intro h
    -- the coinbase that lists each due once is accepted after the start, for enough fees
    let coinbase : CTransaction := { hash := 0, vin := [], vout := (obligations c).dedup }
    obtain ⟨hsub, -⟩ := h (nStartRewardTime + 1) (coinbase.getValueOut - getBlockSubsidy c) coinbase
      ⟨⟨fun _ _ _ => lt_add_one _, fun due hdue => mem_dedup.mpr (mem_append_right _ hdue)⟩,
        (add_sub_cancel _ _).ge, fun due hdue => mem_dedup.mpr (mem_append_left _ hdue)⟩
    exact dedup_eq_self.mp ((dedup_sublist _).eq_of_length_le hsub.length_le)
  · rintro hnodup adjustedTime nFees coinbase ⟨⟨-, hfund⟩, hvalue, hpaid⟩
    refine ⟨hnodup.subperm fun due hdue => ?_, hvalue⟩
    exact (mem_append.mp hdue).elim (hpaid due) (hfund due)

omit hdip3

/-- Block 400000 of the main network, with the text of an address as its script, when the
payee leaves half of its reward to its operator. -/
def sampleReward (scriptOperatorPayout : CScript) : RewardContext UniqueProperty where
  script address := address.toUTF8.toList
  extractDestination _ := true
  founders_nodup nHeight := by
    unfold founderAddresses
    by_cases hearly : nHeight < 14000 <;> simp only [hearly] <;> decide +kernel
  list :=
    { mnMap := (∅ : Std.ExtTreeMap Uint256 CDeterministicMN).insert 7
        { proTxHash := 7, internalId := 0, collateralOutpoint := ⟨7, 0⟩, nOperatorReward := 5000
          pdmnState := { scriptPayout := [1], scriptOperatorPayout } } }
  nHeight := 400000
  nTime := 1600000000

theorem obligations_paid_apart :
    ∃ coinbase, RewardAccepted (sampleReward [2]) 1600000000 0 coinbase ∧
      obligations (sampleReward [2]) <+~ coinbase.vout ∧
        coinbase.getValueOut ≤ getBlockSubsidy (sampleReward [2]) + 0 := by
  let coinbase : CTransaction :=
    { hash := 0, vin := [], vout := obligations (sampleReward [2]) }
  have haccepted : RewardAccepted (sampleReward [2]) 1600000000 0 coinbase := by decide +kernel
  refine ⟨coinbase, haccepted, ?_⟩
  exact (obligations_paid_iff (by decide)).mpr (by decide +kernel) _ _ _ haccepted

/-- Owner and operator with one script share an output of 2.1875 coins. -/
theorem obligations_met_once :
    ∃ coinbase, RewardAccepted (sampleReward [1]) 1600000000 0 coinbase ∧
      ¬ obligations (sampleReward [1]) <+~ coinbase.vout :=
  ⟨{ hash := 0, vin := [], vout := [⟨218750000, [1]⟩, developerOut (sampleReward [1])] },
    by decide +kernel⟩

end Zcoin.Evo
