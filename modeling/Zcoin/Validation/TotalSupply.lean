/-
  Zcoin.Validation.TotalSupply — the total supply counter (the fees of `ConnectBlock` and
  `DisconnectBlock`, `validation.cpp`; `AddTotalSupply`, `ReadTotalSupply`, `txdb.cpp`).

  A block moves the counter by what its coinbase creates less its fees, on the way in
  and, with the opposite sign, on the way out.  `DisconnectBlock` sums the fees of Sigma
  spends and joinsplits only.  `VerifyDB`, at every start, disconnects the newest blocks in
  memory and moves the counter all the same; only from level 4 on it connects them again.
  The coins a transaction is checked against are arbitrary here.
-/
import Zcoin.Chain.Transaction
import Zcoin.Lib.Except

namespace Zcoin.Validation

open Chain Lib.Except List

/-! ## §1. Fees. -/

/-- The unspent outputs of a `CCoinsViewCache`. -/
abbrev CoinsView := COutPoint → Option CTxOut

/-- What the fees and the subsidy are read from. -/
structure SupplyEnv where
  /-- `sigma::GetSigmaSpendInput` -/
  getSigmaSpendInput : CTransaction → CAmount
  /-- `ParseLelantusJoinSplit(txin)->getFee()`; `none` is a `CBadTxIn` -/
  getFee : CTxIn → Option CAmount
  /-- `GetBlockSubsidy` -/
  getBlockSubsidy : Nat → CAmount

/-- The inputs of a transaction name coins: it is no coinbase and `!HasNoRegularInputs()`. -/
def spendsCoins (tx : CTransaction) : Bool := !tx.isCoinBase && !tx.hasNoRegularInputs

variable (view : CoinsView) (env : SupplyEnv) (tx : CTransaction)

/-- `GetValueIn`; the output of the empty coin has the value -1. -/
def getValueIn : CAmount := (tx.vin.map fun txin => (view txin.prevout).elim (-1) (·.nValue)).sum

def sigmaFee : CAmount := env.getSigmaSpendInput tx - tx.getValueOut

def joinSplitFee : Option CAmount := tx.vin.head?.bind env.getFee

/-- `view.GetValueIn(tx)-tx.GetValueOut()`. -/
def coinFee : CAmount := if spendsCoins tx then getValueIn view tx - tx.getValueOut else 0

/-- What `ConnectBlock` adds to `nFees`. -/
def txFee : CAmount :=
  (if tx.isSigmaSpend then sigmaFee env tx else 0) +
    (if tx.isLelantusJoinSplit then (joinSplitFee env tx).getD 0 else 0) + coinFee view tx

/-- What `DisconnectBlock` adds to `nFees`. -/
def undoneFee : CAmount :=
  if tx.isSigmaSpend then sigmaFee env tx
  else if tx.isLelantusJoinSplit then (joinSplitFee env tx).getD 0
  else 0

/-! ## §2. Connecting and disconnecting. -/

/-- A block: its transactions, each with the coins it is checked against. -/
abbrev Block := List (CoinsView × CTransaction)

/-- `block.vtx[0]->GetValueOut()`. -/
def coinbaseValue (block : Block) : CAmount := (block.head?.map (·.2.getValueOut)).getD 0

/-- All fees of a block. -/
def allFees (block : Block) : CAmount := (block.map fun p => txFee p.1 env p.2).sum

/-- The fees a block pays out of transparent coins. -/
def coinFees (block : Block) : CAmount := (block.map fun p => coinFee p.1 p.2).sum

/-- One pass through the loop of `ConnectBlock`: the checks of a fee, and its sum. -/
def connectTx (nFees : CAmount) (p : CoinsView × CTransaction) : Except Stop CAmount := do
  rejectIf (p.2.isLelantusJoinSplit && decide (p.2.vin.length > 1)) 100 REJECT_INVALID
    "bad-txns-input-invalid"
  rejectIf (spendsCoins p.2 && p.2.vin.any fun txin => (p.1 txin.prevout).isNone) 100
    REJECT_INVALID "bad-txns-inputs-missingorspent"
  rejectIf (p.2.isLelantusJoinSplit && (joinSplitFee env p.2).isNone) 0 REJECT_INVALID
    "unable to parse joinsplit"
  -- `CheckTxInputs`
  rejectIf (spendsCoins p.2 && decide (getValueIn p.1 p.2 < p.2.getValueOut)) 100 REJECT_INVALID
    "bad-txns-in-belowout"
  return nFees + txFee p.1 env p.2

/-- The counter in the database and the active chain, newest block first. -/
structure SupplyState where
  totalSupply : Option CAmount := none
  chain : List Block := []

/-- `AddTotalSupply`. -/
def addTotalSupply (current : Option CAmount) (supply : CAmount) : Option CAmount :=
  some (current.getD 0 + supply)

/-- What `ConnectBlock` makes of the counter. -/
def connectSupply (nHeight : Nat) (totalSupply : Option CAmount) (block : Block) :
    Except Stop (Option CAmount) := do
  let nFees ← block.foldlM (connectTx env) 0
  rejectIf (decide (coinbaseValue block > nFees + env.getBlockSubsidy nHeight)) 100
    REJECT_INVALID "bad-cb-amount"
  return addTotalSupply totalSupply (coinbaseValue block - nFees)

/-- What `DisconnectBlock` takes off the counter. -/
def undoneSupply (block : Block) : CAmount :=
  coinbaseValue block - (block.map fun p => undoneFee env p.2).sum

/-- What `DisconnectBlock` makes of the counter. -/
def disconnectSupply (totalSupply : Option CAmount) (block : Block) : Option CAmount :=
  addTotalSupply totalSupply (-undoneSupply env block)

/-- What `VerifyDB` makes of the counter: the newest blocks are disconnected, without a `pfClean`
that would keep the counter as it is, and all but the last `nLeft` of them are connected again,
the oldest first.  Below level 4, or after a shutdown, none is. -/
def verifyDB (nHeight : Block → Nat) (newest : List Block) (nLeft : Nat)
    (totalSupply : Option CAmount) : Except Stop (Option CAmount) :=
  (newest.drop nLeft).foldrM
    (fun block totalSupply => connectSupply env (nHeight block) totalSupply block)
    (newest.foldl (disconnectSupply env) totalSupply)

/-- **Runs** from an empty database, with the blocks that were disconnected: in a reorganisation
or by a `VerifyDB` that connected them again, and by one that did not. -/
inductive SupplyRun : SupplyState → List Block → List Block → Prop
  | empty : SupplyRun {} [] []
  | connect {s : SupplyState} {undone left : List Block} {totalSupply : Option CAmount}
      (nHeight : Nat) (block : Block) (hrun : SupplyRun s undone left)
      (hconnect : connectSupply env nHeight s.totalSupply block = .ok totalSupply) :
      SupplyRun ⟨totalSupply, block :: s.chain⟩ undone left
  | disconnect {totalSupply : Option CAmount} {tip : Block} {chain undone left : List Block}
      (hrun : SupplyRun ⟨totalSupply, tip :: chain⟩ undone left) :
      SupplyRun ⟨disconnectSupply env totalSupply tip, chain⟩ (tip :: undone) left
  | verify {s : SupplyState} {undone left : List Block} {totalSupply : Option CAmount}
      (nHeight : Block → Nat) (newest : List Block) (nLeft : Nat) (hrun : SupplyRun s undone left)
      (hnewest : newest <+: s.chain)
      (hverify : verifyDB env nHeight newest nLeft s.totalSupply = .ok totalSupply) :
      SupplyRun ⟨totalSupply, s.chain⟩ (newest.drop nLeft ++ undone) (newest.take nLeft ++ left)

/-- The sum the counter is meant to hold. -/
def activeSupply (chain : List Block) : CAmount :=
  (chain.map fun block => coinbaseValue block - allFees env block).sum

/-! ## §3. What every run keeps. -/

variable {env}

/-- With one input a transaction is a Sigma spend or a joinsplit, not both. -/
theorem txFee_eq {tx : CTransaction} (h : tx.isLelantusJoinSplit = true → tx.vin.length ≤ 1) :
    txFee view env tx = undoneFee env tx + coinFee view tx := by
  unfold txFee undoneFee
  by_cases hjoin : tx.isLelantusJoinSplit = true
  · have hsigma : tx.isSigmaSpend = false := by
      have hlen := h hjoin
      unfold CTransaction.isLelantusJoinSplit at hjoin
      unfold CTransaction.isSigmaSpend
      match hvin : tx.vin, hlen with
      | [], _ => rfl
      | [txin], _ =>
        simp only [hvin, any_cons, any_nil, Bool.or_false, CTxIn.isLelantusJoinSplit,
          Bool.and_eq_true, CScript.startsWith, decide_eq_true_eq] at hjoin
        simp [CTxIn.isSigmaSpend, CScript.startsWith, hjoin.2, OP_LELANTUSJOINSPLIT, OP_SIGMASPEND]
    simp [hjoin, hsigma]
  · simp [hjoin]

/-- **One pass**: the two fees differ by the coin fee. -/
theorem connectTx_eq_ok {nFees nFees' : CAmount} {p : CoinsView × CTransaction}
    (h : connectTx env nFees p = .ok nFees') : nFees' = nFees + txFee p.1 env p.2 ∧
      txFee p.1 env p.2 = undoneFee env p.2 + coinFee p.1 p.2 := by
  simp only [connectTx, bind_eq_ok, rejectIf_eq_ok, pure_eq_ok, Except.ok.injEq,
    exists_const_iff, Bool.and_eq_false_iff, decide_eq_false_iff_not] at h
  obtain ⟨-, halone, -, -, -, -, -, -, rfl⟩ := h
  exact ⟨rfl, txFee_eq p.1 fun hjoin => not_lt.mp (halone.resolve_left (by simp [hjoin]))⟩

/-- What was checked of a block: `DisconnectBlock` finds all its fees but the coin fees. -/
def Settled (env : SupplyEnv) (block : Block) : Prop :=
  allFees env block = (block.map fun p => undoneFee env p.2).sum + coinFees block

/-- **The loop** sums all fees. -/
theorem connectTxs_eq_ok {block : Block} {start nFees : CAmount}
    (h : block.foldlM (connectTx env) start = .ok nFees) :
    nFees = start + allFees env block ∧ Settled env block := by
  induction block generalizing start with
  | nil =>
    cases h
    exact ⟨(add_zero _).symm, rfl⟩
  | cons p block ih =>
    rw [foldlM_cons] at h
    obtain ⟨mid, hp, hrest⟩ := bind_eq_ok.mp h
    obtain ⟨rfl, hfee⟩ := connectTx_eq_ok hp
    obtain ⟨hfees, hsettled⟩ := ih hrest
    simp only [Settled, allFees, coinFees, map_cons, sum_cons] at hfees hsettled ⊢
    exact ⟨by linarith, by linarith⟩

theorem connectSupply_eq_ok {nHeight : Nat} {totalSupply totalSupply' : Option CAmount}
    {block : Block} (h : connectSupply env nHeight totalSupply block = .ok totalSupply') :
    totalSupply'.getD 0 = totalSupply.getD 0 + (coinbaseValue block - allFees env block) ∧
      Settled env block := by
  obtain ⟨nFees, hloop, hrest⟩ := bind_eq_ok.mp h
  obtain ⟨_, -, hret⟩ := bind_eq_ok.mp hrest
  cases hret
  obtain ⟨rfl, hsettled⟩ := connectTxs_eq_ok hloop
  exact ⟨by rw [zero_add]; rfl, hsettled⟩

theorem Settled.undoneSupply {block : Block} (h : Settled env block) :
    undoneSupply env block = coinbaseValue block - allFees env block + coinFees block := by
  unfold Settled at h
  rw [h]
  unfold Validation.undoneSupply
  ring

theorem disconnectSupplies_eq (newest : List Block) (totalSupply : Option CAmount) :
    (newest.foldl (disconnectSupply env) totalSupply).getD 0
      = totalSupply.getD 0 - (newest.map (undoneSupply env)).sum := by
  induction newest generalizing totalSupply with
  | nil => simp
  | cons block newest ih =>
    rw [foldl_cons, ih, map_cons, sum_cons]
    show totalSupply.getD 0 + -_ - _ = _
    ring

theorem connectSupplies_eq_ok {nHeight : Block → Nat} {blocks : List Block}
    {totalSupply totalSupply' : Option CAmount}
    (h : blocks.foldrM (fun block totalSupply =>
      connectSupply env (nHeight block) totalSupply block) totalSupply = .ok totalSupply') :
    totalSupply'.getD 0 = totalSupply.getD 0 + activeSupply env blocks := by
  induction blocks generalizing totalSupply' with
  | nil =>
    cases h
    exact (add_zero _).symm
  | cons block blocks ih =>
    rw [foldrM_cons] at h
    obtain ⟨mid, hblocks, hblock⟩ := bind_eq_ok.mp h
    rw [(connectSupply_eq_ok hblock).1, ih hblocks]
    simp only [activeSupply, map_cons, sum_cons]
    ring

theorem sum_undoneSupply {blocks : List Block} (h : ∀ block ∈ blocks, Settled env block) :
    (blocks.map (undoneSupply env)).sum
      = activeSupply env blocks + (blocks.map coinFees).sum := by
  rw [activeSupply, ← sum_map_add, map_congr_left fun block hblock => (h block hblock).undoneSupply]

/-- **What every run keeps**: the counter lacks the coin fees of the blocks that were
disconnected, and all that was taken off for those that `VerifyDB` did not connect again. -/
theorem SupplyRun.supply {s : SupplyState} {undone left : List Block}
    (h : SupplyRun env s undone left) :
    s.totalSupply.getD 0 = activeSupply env s.chain - (undone.map coinFees).sum
        - (left.map (undoneSupply env)).sum ∧
      ∀ block ∈ s.chain, Settled env block := by
  induction h with
  | empty => exact ⟨rfl, nofun⟩
  | connect nHeight block _ hconnect ih =>
    obtain ⟨hsupply, hsettled⟩ := connectSupply_eq_ok hconnect
    refine ⟨?_, forall_mem_cons.mpr ⟨hsettled, ih.2⟩⟩
    simp only [hsupply, ih.1, activeSupply, map_cons, sum_cons]
    ring
  | disconnect _ ih =>
    obtain ⟨htip, hrest⟩ := forall_mem_cons.mp ih.2
    refine ⟨?_, hrest⟩
    have hsupply := ih.1
    have htaken := htip.undoneSupply
    simp only [disconnectSupply, addTotalSupply, Option.getD_some, activeSupply, map_cons,
      sum_cons] at hsupply ⊢
    linarith
  | @verify s undone left _ nHeight newest nLeft _ hnewest hverify ih =>
    refine ⟨?_, ih.2⟩
    -- connecting again gives back all but the coin fees
    have hagain := sum_undoneSupply fun block (hblock : block ∈ newest.drop nLeft) =>
      ih.2 block (hnewest.subset (mem_of_mem_drop hblock))
    have hsplit := congrArg (fun blocks => (blocks.map (undoneSupply env)).sum)
      (take_append_drop nLeft newest)
    simp only [map_append, sum_append] at hsplit ⊢
    rw [connectSupplies_eq_ok hverify, disconnectSupplies_eq, ih.1, ← hsplit, hagain]
    ring

def sampleSupplyEnv : SupplyEnv where
  getSigmaSpendInput _ := 0
  getFee _ := none
  getBlockSubsidy _ := 100

/-- A coinbase that takes the subsidy and the fee of a payment out of a coin of 100. -/
def samplePayment (fee : CAmount) : Block :=
  [(fun _ => none, ⟨2, [⟨⟨0, 0xffffffff⟩, [1]⟩], [⟨100 + fee, []⟩], 1, .normal, []⟩),
    (fun _ => some ⟨100, []⟩, ⟨3, [⟨⟨1, 0⟩, []⟩], [⟨100 - fee, []⟩], 1, .normal, []⟩)]

end Zcoin.Validation
