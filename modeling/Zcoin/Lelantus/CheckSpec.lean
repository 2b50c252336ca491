/-
  Zcoin.Lelantus.CheckSpec — what accepted transactions have done.

  One inversion lemma per stage of the joinsplit check, then for a transaction
  (`checkLelantusTransaction_ok`) and for the transactions of a block
  (`checkBlockTransactions_ok`).  The mints a block has collected are new
  (`Completed.fresh`), which is what `Reachable` asks of a block.
-/
import Zcoin.Lelantus.CheckTransaction

namespace Zcoin.Lelantus

open Chain LibLelantus Lib Std Lib.Except List

variable {F G : Type}

/-! ## §1. What a transaction reveals. -/

variable (env : Externals F G)

/-- The joinsplit a transaction carries. -/
def joinSplitOf (tx : CTransaction) : Option (JoinSplit F G) :=
  if tx.isLelantusJoinSplit then
    tx.vin.head?.bind fun txin => (parseLelantusJoinSplit env txin).toOption
  else none

/-- The serials a transaction reveals. -/
def revealed (tx : CTransaction) : List F :=
  match joinSplitOf env tx with
  | some joinsplit => joinsplit.serialNumbers
  | none => []

/-- The serials a transaction spends from Lelantus groups (`isSigma = false`), or
from ids that are read as Sigma groups (`isSigma = true`). -/
def spentFrom (isSigma : Bool) (tx : CTransaction) : List F :=
  match joinSplitOf env tx with
  | some joinsplit => ((joinsplit.serialNumbers.zip joinsplit.groupIds).filter fun spend =>
    (readsAsSigma joinsplit.isSigmaToLelantus spend.2).isSome = isSigma).map Prod.fst
  | none => []

/-- The transaction has a JMint output. -/
def hasJMint (tx : CTransaction) : Bool :=
  tx.vout.any fun txout => CScript.isLelantusJMint txout.scriptPubKey

/-- The serials in a collector. -/
def serialsIn {V : Type} (spentSerials : List (F × V)) : List F := spentSerials.map Prod.fst

theorem mem_insertSerial [DecidableEq F] {V : Type} {spentSerials : List (F × V)} {entry : F × V}
    {serial : F} :
    serial ∈ serialsIn (insertSerial spentSerials entry)
      ↔ serial = entry.1 ∨ serial ∈ serialsIn spentSerials := by
  unfold insertSerial serialsIn
  split
  · next hmem =>
    refine ⟨.inr, ?_⟩
    rintro (rfl | h)
    · exact hmem
    · exact h
  · rw [map_append, mem_append, map_singleton, mem_singleton, or_comm]

/-! ## §2. Mints. -/

section Mints

variable {params : ConsensusParams G} {env : TxExternals F G} {s : CLelantusState F G}
  {chain : CChain F G} {hashTx : Uint256} {lel lel' : CLelantusTxInfo F G}

/-- From `lel` to `lel'` new coins were recorded under `hashTx`, and nothing else. -/
structure Minting (s : CLelantusState F G) (hashTx : Uint256) (lel lel' : CLelantusTxInfo F G) :
    Prop where
  spent : lel'.spentSerials = lel.spentSerials
  isOpen : lel'.fInfoIsComplete = false
  seen : lel'.zcTransactions ⊆ insert hashTx lel.zcTransactions
  fresh : Fresh s.containers.mintedPubCoins (blockMints lel) →
    Fresh s.containers.mintedPubCoins (blockMints lel')

theorem Minting.refl (hopen : lel.fInfoIsComplete = false) : Minting s hashTx lel lel :=
  ⟨rfl, hopen, Finset.subset_insert _ _, fun h => h⟩

theorem Minting.trans {lel'' : CLelantusTxInfo F G} (h : Minting s hashTx lel lel')
    (h' : Minting s hashTx lel' lel'') : Minting s hashTx lel lel'' := by
  refine ⟨h'.spent.trans h.spent, h'.isOpen, ?_, fun hf => h'.fresh (h.fresh hf)⟩
  intro x hx
  rcases Finset.mem_insert.mp (h'.seen hx) with rfl | hx
  · exact Finset.mem_insert_self _ _
  · exact h.seen hx

theorem writeOpen_some (write : CLelantusTxInfo F G → CLelantusTxInfo F G)
    (hopen : lel.fInfoIsComplete = false) : writeOpen write (some lel) = some (write lel) := by
  simp [writeOpen, lelantusOpen, hopen]

variable [DecidableEq G] (hopen : lel.fInfoIsComplete = false)
include hopen

theorem Minting.record {pubCoin : G} (amount : UInt64)
    (tag : Uint256) (hnew : knownCoin s (some lel) pubCoin = false) :
    Minting s hashTx lel (recordMint hashTx (pubCoin, amount, tag) lel) := by
  unfold knownCoin at hnew
  rw [Bool.or_eq_false_iff] at hnew
  obtain ⟨hstate, hinfo⟩ := hnew
  have hunminted : s.containers.mintedPubCoins pubCoin = none := by
    simpa [CLelantusState.hasCoin] using hstate
  have hnotMem : pubCoin ∉ lel.mints.map Prod.fst := by
    intro hmem
    rw [Option.any_some, hopen, decide_eq_true hmem] at hinfo
    cases hinfo
  refine ⟨rfl, hopen, Finset.Subset.refl _, ?_⟩
  intro hfresh
  have hcoins : blockMints (recordMint hashTx (pubCoin, amount, tag) lel)
      = blockMints lel ++ [(pubCoin, tag)] := by
    show (lel.mints ++ [(pubCoin, amount, tag)]).map _ = _
    rw [map_append]
    rfl
  have hfst : (blockMints lel).map Prod.fst = lel.mints.map Prod.fst := by
    unfold blockMints
    rw [map_map]
    rfl
  rw [hcoins]
  refine ⟨?_, ?_⟩
  · rw [map_append, hfst, map_singleton, ← concat_eq_append, nodup_concat]
    exact ⟨hnotMem, hfst ▸ hfresh.nodup⟩
  · exact forall_mem_append.mpr ⟨hfresh.unminted, forall_mem_singleton.mpr hunminted⟩

variable {info' : Option (CLelantusTxInfo F G)}

theorem checkLelantusMintTransaction_ok {txout : CTxOut}
    (hrun : checkLelantusMintTransaction params env s chain hashTx true (some lel) txout
      = .ok info') : ∃ lel', info' = some lel' ∧ Minting s hashTx lel lel' := by
  unfold checkLelantusMintTransaction at hrun
  split at hrun
  · cases hrun
  · obtain ⟨⟨pubCoin, schnorrProof, mintTag⟩, -, hrun⟩ := bind_eq_ok.mp hrun
    dsimp only at hrun
    split at hrun
    · cases hrun
    · split at hrun
      · cases hrun
      · next hknown =>
        simp only [Bool.and_true, Bool.not_eq_true] at hknown
        cases hrun
        exact ⟨_, writeOpen_some _ hopen, .record hopen _ _ hknown⟩

theorem checkLelantusJMintTransaction_ok {txout : CTxOut} {r : Option (CLelantusTxInfo F G) × G}
    (hrun : checkLelantusJMintTransaction env s hashTx true (some lel) txout = .ok r) :
    ∃ lel', r.1 = some lel' ∧ Minting s hashTx lel lel' := by
  unfold checkLelantusJMintTransaction at hrun
  obtain ⟨⟨pubCoin, encryptedValue, mintTag⟩, -, hrun⟩ := bind_eq_ok.mp hrun
  dsimp only at hrun
  split at hrun
  · cases hrun
  · split at hrun
    · cases hrun
    · next hknown =>
      simp only [Bool.and_true, Bool.not_eq_true] at hknown
      cases hrun
      exact ⟨_, writeOpen_some _ hopen, .record hopen _ _ hknown⟩

theorem checkMints_ok {tx : CTransaction} {active : Bool}
    (hrun : checkMints params env s chain tx hashTx true active (some lel) = .ok info') :
    ∃ lel', info' = some lel' ∧ Minting s hashTx lel lel' ∧
      ((∀ txout ∈ tx.vout, CScript.isLelantusMint txout.scriptPubKey = false) → lel' = lel) := by
  unfold checkMints at hrun
  split at hrun
  · refine foldlM_invariant
      (fun info => ∃ lel', info = some lel' ∧ Minting s hashTx lel lel' ∧
        ((∀ txout ∈ tx.vout, CScript.isLelantusMint txout.scriptPubKey = false) → lel' = lel))
      ?_ ⟨lel, rfl, .refl hopen, fun _ => rfl⟩ hrun
    intro info txout hmem info₁ ⟨lel₁, hinfo, hmint, hsame⟩ hstep
    subst hinfo
    unfold checkMint at hstep
    split at hstep
    · next hop =>
      obtain ⟨lel₂, rfl, hmint₂⟩ := checkLelantusMintTransaction_ok hmint.isOpen hstep
      refine ⟨lel₂, rfl, hmint.trans hmint₂, ?_⟩
      intro hnone
      rw [hnone txout hmem] at hop
      cases hop
    · simp only [Except.ok.injEq] at hstep
      exact ⟨lel₁, hstep.symm, hmint, hsame⟩
  · simp only [Except.ok.injEq] at hrun
    exact ⟨lel, hrun.symm, .refl hopen, fun _ => rfl⟩

/-- **The outputs of a joinsplit**: no regular mints, and nothing is recorded unless
there is a JMint. -/
theorem checkOutputs_ok {vout : List CTxOut} {outputs : Outputs F G}
    (hrun : vout.foldlM (checkOutput env s hashTx true) { info := some lel } = .ok outputs) :
    ∃ lel', outputs.info = some lel' ∧ Minting s hashTx lel lel' ∧
      (∀ txout ∈ vout, CScript.isLelantusMint txout.scriptPubKey = false) ∧
      ((∀ txout ∈ vout, CScript.isLelantusJMint txout.scriptPubKey = false) → lel' = lel) := by
  refine foldlM_prefix_ok (fun pre (acc : Outputs F G) =>
    ∃ lel', acc.info = some lel' ∧ Minting s hashTx lel lel' ∧
      (∀ txout ∈ pre, CScript.isLelantusMint txout.scriptPubKey = false) ∧
      ((∀ txout ∈ pre, CScript.isLelantusJMint txout.scriptPubKey = false) → lel' = lel)) ?_
    ⟨lel, rfl, .refl hopen, by simp, fun _ => rfl⟩ hrun
  intro pre txout rest _ acc acc' ⟨lel₁, hinfo, hmint, hnoMint, hsame⟩ hstep
  simp only [forall_mem_append, forall_mem_singleton]
  unfold checkOutput at hstep
  split at hstep
  · next hop =>
    obtain ⟨⟨info₂, pubCoin⟩, hjmint, hstep⟩ := bind_eq_ok.mp hstep
    rw [hinfo] at hjmint
    obtain ⟨lel₂, hinfo₂, hmint₂⟩ := checkLelantusJMintTransaction_ok hmint.isOpen hjmint
    cases hstep
    refine ⟨lel₂, hinfo₂, hmint.trans hmint₂, ⟨hnoMint, ?_⟩, fun hnone => ?_⟩
    · have hhead : txout.scriptPubKey.head? = some OP_LELANTUSJMINT := by
        simpa [CScript.isLelantusJMint, CScript.startsWith] using hop
      unfold CScript.isLelantusMint CScript.startsWith
      rw [hhead]
      decide
    · rw [hnone.2] at hop
      cases hop
  · split at hstep
    · cases hstep
    · next hno =>
      cases hstep
      exact ⟨lel₁, hinfo, hmint, ⟨hnoMint, by simpa using hno⟩, fun hnone => hsame hnone.1⟩

end Mints

/-! ## §3. Spends. -/

section Spends

variable [DecidableEq F] {env : TxExternals F G} {sigmaState : Sigma.CSigmaState F G}
  {s : CLelantusState F G}
  {sig sig' : CSigmaTxInfo F G} {lel lel' : CLelantusTxInfo F G} {nHeight : Nat}

/-- **The serial loop, passed**: no serial is in an open collector. -/
theorem checkSerials_ok (hsig : sig.fInfoIsComplete = false) (hlel : lel.fInfoIsComplete = false)
    {serials : List F}
    (hrun : checkSerials sigmaState s ⟨some sig, some lel⟩ nHeight serials = .ok ()) :
    ∀ serial ∈ serials, serial ∉ serialsIn sig.spentSerials ∧
      serial ∉ serialsIn lel.spentSerials := by
  induction serials with
  | nil => simp
  | cons serial serials ih =>
    unfold checkSerials at hrun
    split at hrun
    · cases hrun
    · next hs =>
      split at hrun
      · cases hrun
      · next hl =>
        intro serial' hmem
        rcases mem_cons.mp hmem with rfl | hmem
        · refine ⟨?_, ?_⟩
          · intro hin
            unfold serialsIn at hin
            unfold Sigma.checkSigmaSpendSerial at hs
            rw [if_pos (by simpa [hsig] using hin)] at hs
            cases hs
          · intro hin
            unfold serialsIn at hin
            unfold checkLelantusSpendSerial at hl
            rw [if_pos (by simpa [hlel] using hin)] at hl
            cases hl
        · exact ih hrun serial' hmem

/-- From `sig`, `lel` to `sig'`, `lel'` the spends were filed, each in the collector
its id belongs to, and nothing was lost. -/
structure Files (isSigmaToLelantus : Bool) (spends : List (F × UInt32))
    (sig sig' : CSigmaTxInfo F G) (lel lel' : CLelantusTxInfo F G) : Prop where
  sigmaOpen : sig'.fInfoIsComplete = sig.fInfoIsComplete
  sigmaSeen : sig'.zcTransactions = sig.zcTransactions
  sigmaKept : ∀ serial ∈ serialsIn sig.spentSerials, serial ∈ serialsIn sig'.spentSerials
  lelantusOpen : lel'.fInfoIsComplete = lel.fInfoIsComplete
  lelantusSeen : lel'.zcTransactions = lel.zcTransactions
  lelantusKept : ∀ serial ∈ serialsIn lel.spentSerials, serial ∈ serialsIn lel'.spentSerials
  mints : lel'.mints = lel.mints
  sigma : ∀ spend ∈ spends, (readsAsSigma isSigmaToLelantus spend.2).isSome = true →
    spend.1 ∈ serialsIn sig'.spentSerials
  lelantus : ∀ spend ∈ spends, (readsAsSigma isSigmaToLelantus spend.2).isSome = false →
    spend.1 ∈ serialsIn lel'.spentSerials

variable {isSigmaToLelantus : Bool}

omit [DecidableEq F] in
theorem files_foldl {file : TxInfos F G → F × UInt32 → TxInfos F G}
    (hfile : ∀ (sig : CSigmaTxInfo F G) (lel : CLelantusTxInfo F G) (spend : F × UInt32),
      lel.fInfoIsComplete = false → ∃ sig' lel',
        file ⟨some sig, some lel⟩ spend = ⟨some sig', some lel'⟩ ∧
          Files isSigmaToLelantus [spend] sig sig' lel lel')
    (spends : List (F × UInt32)) (sig : CSigmaTxInfo F G) (lel : CLelantusTxInfo F G)
    (hlel : lel.fInfoIsComplete = false) :
    ∃ sig' lel', spends.foldl file ⟨some sig, some lel⟩ = ⟨some sig', some lel'⟩ ∧
      Files isSigmaToLelantus spends sig sig' lel lel' := by
  induction spends generalizing sig lel with
  | nil =>
    exact ⟨sig, lel, rfl, rfl, rfl, fun _ h => h, rfl, rfl, fun _ h => h, rfl, by simp, by simp⟩
  | cons spend spends ih =>
    obtain ⟨sig₁, lel₁, hstep, h₁⟩ := hfile sig lel spend hlel
    obtain ⟨sig₂, lel₂, hrun, h₂⟩ := ih sig₁ lel₁ (h₁.lelantusOpen.trans hlel)
    refine ⟨sig₂, lel₂, ?_, h₂.sigmaOpen.trans h₁.sigmaOpen, h₂.sigmaSeen.trans h₁.sigmaSeen,
      fun serial h => h₂.sigmaKept serial (h₁.sigmaKept serial h),
      h₂.lelantusOpen.trans h₁.lelantusOpen, h₂.lelantusSeen.trans h₁.lelantusSeen,
      fun serial h => h₂.lelantusKept serial (h₁.lelantusKept serial h),
      h₂.mints.trans h₁.mints, ?_, ?_⟩
    · rw [foldl_cons, hstep]
      exact hrun
    · exact forall_mem_cons.mpr
        ⟨fun hread => h₂.sigmaKept _ (h₁.sigma _ mem_cons_self hread), h₂.sigma⟩
    · exact forall_mem_cons.mpr
        ⟨fun hread => h₂.lelantusKept _ (h₁.lelantus _ mem_cons_self hread), h₂.lelantus⟩

variable (sig lel) in
theorem files_fileLelantus (spend : F × UInt32)
    (hread : (readsAsSigma isSigmaToLelantus spend.2).isSome = false) :
    ∃ sig' lel', fileLelantus ⟨some sig, some lel⟩ spend = ⟨some sig', some lel'⟩ ∧
      Files isSigmaToLelantus [spend] sig sig' lel lel' := by
  refine ⟨sig, { lel with
    spentSerials := insertSerial lel.spentSerials (spend.1, groupIdInt spend.2) }, rfl,
    rfl, rfl, fun _ h => h, rfl, rfl, ?_, rfl, ?_, ?_⟩
  · intro serial h
    exact mem_insertSerial.mpr (.inr h)
  · exact forall_mem_singleton.mpr fun hread' => nomatch hread.symm.trans hread'
  · exact forall_mem_singleton.mpr fun _ => mem_insertSerial.mpr (.inl rfl)

variable (sig lel) in
theorem files_fileSigmaToLelantus (spend : F × UInt32) (hlel : lel.fInfoIsComplete = false) :
    ∃ sig' lel', fileSigmaToLelantus env ⟨some sig, some lel⟩ spend = ⟨some sig', some lel'⟩ ∧
      Files true [spend] sig sig' lel lel' := by
  unfold fileSigmaToLelantus
  cases hread : Sigma.integerToDenomination (packedDenomination spend.2) with
  | none =>
    have hopen : lelantusOpen (some lel) = true := by simp [lelantusOpen, hlel]
    simp only [hopen, if_true]
    exact files_fileLelantus sig lel spend (by simp [readsAsSigma, hread])
  | some denomination =>
    refine ⟨{ sig with
      spentSerials := insertSerial sig.spentSerials
        (spend.1, ⟨denomination, packedGroupId spend.2⟩) }, lel, rfl,
      rfl, rfl, ?_, rfl, rfl, fun _ h => h, rfl, ?_, ?_⟩
    · intro serial h
      exact mem_insertSerial.mpr (.inr h)
    · exact forall_mem_singleton.mpr fun _ => mem_insertSerial.mpr (.inl rfl)
    · simp [readsAsSigma, hread]

theorem recordSpends_collects (env : TxExternals F G) (hsig : sig.fInfoIsComplete = false)
    (hlel : lel.fInfoIsComplete = false) (joinsplit : JoinSplit F G) :
    ∃ sig' lel', recordSpends env joinsplit ⟨some sig, some lel⟩ = ⟨some sig', some lel'⟩ ∧
      Files joinsplit.isSigmaToLelantus (joinsplit.serialNumbers.zip joinsplit.groupIds) sig sig'
        lel lel' := by
  have hsigOpen : sigmaOpen (some sig) = true := by simp [sigmaOpen, hsig]
  have hlelOpen : lelantusOpen (some lel) = true := by simp [lelantusOpen, hlel]
  unfold recordSpends
  cases hflag : joinsplit.isSigmaToLelantus with
  | true =>
    simp only [hsigOpen, if_true]
    exact files_foldl files_fileSigmaToLelantus _ sig lel hlel
  | false =>
    simp only [hlelOpen, if_true, Bool.false_eq_true, if_false]
    refine files_foldl ?_ _ sig lel hlel
    intro sig lel spend _
    exact files_fileLelantus sig lel spend rfl

end Spends

/-! ## §4. Transactions. -/

/-- **Everything an accepted transaction has done** to the collectors `sig` and
`lel`.  The serials were compared with the collectors only if the transaction has no
JMint output and its txid was not seen before. -/
structure Checked (env : Externals F G) (s : CLelantusState F G) (tx : CTransaction)
    (sig sig' : CSigmaTxInfo F G) (lel lel' : CLelantusTxInfo F G) : Prop where
  sigmaOpen : sig'.fInfoIsComplete = false
  sigmaSeen : sig'.zcTransactions = sig.zcTransactions
  sigmaKept : ∀ serial ∈ serialsIn sig.spentSerials, serial ∈ serialsIn sig'.spentSerials
  lelantusOpen : lel'.fInfoIsComplete = false
  lelantusSeen : lel'.zcTransactions ⊆ insert tx.hash lel.zcTransactions
  lelantusKept : ∀ serial ∈ serialsIn lel.spentSerials, serial ∈ serialsIn lel'.spentSerials
  fresh : Fresh s.containers.mintedPubCoins (blockMints lel) →
    Fresh s.containers.mintedPubCoins (blockMints lel')
  sigma : ∀ serial ∈ spentFrom env true tx, serial ∈ serialsIn sig'.spentSerials
  lelantus : ∀ serial ∈ spentFrom env false tx, serial ∈ serialsIn lel'.spentSerials
  nodup : (revealed env tx).Nodup
  covered : ∀ serial ∈ revealed env tx,
    serial ∈ spentFrom env true tx ∨ serial ∈ spentFrom env false tx
  compared : hasJMint tx = false → tx.hash ∉ sig.zcTransactions → tx.hash ∉ lel.zcTransactions →
    ∀ serial ∈ revealed env tx, serial ∉ serialsIn sig.spentSerials ∧
      serial ∉ serialsIn lel.spentSerials

section Transactions

variable {params : ConsensusParams G} {env : TxExternals F G} {sigmaState : Sigma.CSigmaState F G}
  {s : CLelantusState F G} {chain : CChain F G} {tx : CTransaction}
  {sig : CSigmaTxInfo F G} {lel : CLelantusTxInfo F G} {nHeight : Nat} {infos : TxInfos F G}
  {joinsplit : JoinSplit F G}

theorem joinSplitInput_ok {env : Externals F G} (hjoin : tx.isLelantusJoinSplit = true)
    (hrun : joinSplitInput env tx = .ok joinsplit) : joinSplitOf env tx = some joinsplit := by
  unfold joinSplitInput at hrun
  split at hrun
  · next txin hvin =>
    split at hrun
    · unfold joinSplitParsed at hrun
      unfold joinSplitOf
      rw [if_pos hjoin, hvin, head?_cons, Option.bind_some]
      cases hparse : parseLelantusJoinSplit env txin with
      | ok j =>
        rw [hparse] at hrun
        simp only [Except.ok.injEq] at hrun
        rw [hrun]
        rfl
      | error e =>
        rw [hparse] at hrun
        cases e <;> cases hrun
    · cases hrun
  · cases hrun

theorem mem_spentFrom {env : Externals F G}
    (hjoin : joinSplitOf env tx = some joinsplit) (isSigma : Bool) {serial : F} :
    serial ∈ spentFrom env isSigma tx ↔
      ∃ spend ∈ joinsplit.serialNumbers.zip joinsplit.groupIds,
        (readsAsSigma joinsplit.isSigmaToLelantus spend.2).isSome = isSigma ∧ spend.1 = serial := by
  unfold spentFrom
  rw [hjoin]
  simp only [mem_map, mem_filter, decide_eq_true_eq, and_assoc]

theorem revealed_of_joinSplitOf {env : Externals F G}
    (hjoin : joinSplitOf env tx = some joinsplit) : revealed env tx = joinsplit.serialNumbers := by
  unfold revealed
  rw [hjoin]

theorem revealed_of_not_joinSplit (env : Externals F G) (h : ¬ tx.isLelantusJoinSplit = true) :
    revealed env tx = [] ∧ ∀ isSigma, spentFrom env isSigma tx = [] := by
  have hnone : joinSplitOf env tx = none := by
    unfold joinSplitOf
    rw [if_neg h]
  refine ⟨?_, fun isSigma => ?_⟩
  · unfold revealed
    rw [hnone]
  · unfold spentFrom
    rw [hnone]

variable (hsig : sig.fInfoIsComplete = false) (hlel : lel.fInfoIsComplete = false)
include hsig hlel

theorem collectSpends_ok [DecidableEq F]
    (hrun : collectSpends env sigmaState s tx.hash false nHeight false joinsplit
      ⟨some sig, some lel⟩ = .ok infos) :
    ∃ sig' lel', infos = ⟨some sig', some { lel' with
        zcTransactions := insert tx.hash lel'.zcTransactions }⟩ ∧
      Files joinsplit.isSigmaToLelantus (joinsplit.serialNumbers.zip joinsplit.groupIds) sig sig'
        lel lel' ∧
      joinsplit.serialNumbers.Nodup ∧
      joinsplit.serialNumbers.length = joinsplit.groupIds.length ∧
      (tx.hash ∉ sig.zcTransactions → tx.hash ∉ lel.zcTransactions →
        ∀ serial ∈ joinsplit.serialNumbers, serial ∉ serialsIn sig.spentSerials ∧
          serial ∉ serialsIn lel.spentSerials) := by
  unfold collectSpends at hrun
  obtain ⟨_, hcheck, hrun⟩ := bind_eq_ok.mp hrun
  split at hrun
  · cases hrun
  · next hnodup =>
    simp only [Bool.or_self, Bool.false_eq_true, if_false] at hrun
    split at hrun
    · cases hrun
    · next hlen =>
      simp only [pure_eq_ok, Except.ok.injEq] at hrun
      obtain ⟨sig', lel', hrecord, hfiles⟩ :=
        recordSpends_collects env hsig hlel joinsplit
      refine ⟨sig', lel', ?_, hfiles, not_not.mp hnodup, not_not.mp hlen, ?_⟩
      · rw [← hrun, hrecord]
        unfold recordTransaction
        dsimp only
        rw [writeOpen_some _ (hfiles.lelantusOpen.trans hlel)]
      · intro hs hl
        unfold checkDuplicates at hcheck
        rw [if_neg (by simp [seenBefore, hs, hl])] at hcheck
        exact checkSerials_ok hsig hlel hcheck

variable [DecidableEq F] [DecidableEq G]

theorem checkLelantusJoinSplitTransaction_ok [AddCommGroup G]
    (hjoin : tx.isLelantusJoinSplit = true)
    (hrun : checkLelantusJoinSplitTransaction params env sigmaState s chain tx tx.hash false nHeight
      false true ⟨some sig, some lel⟩ = .ok infos) :
    (∀ txout ∈ tx.vout, CScript.isLelantusMint txout.scriptPubKey = false) ∧
      ∃ sig' lel', infos = ⟨some sig', some lel'⟩ ∧
        Checked env.toExternals s tx sig sig' lel lel' := by
  unfold checkLelantusJoinSplitTransaction at hrun
  obtain ⟨joinsplit, hinput, hrun⟩ := bind_eq_ok.mp hrun
  have hof := joinSplitInput_ok hjoin hinput
  split at hrun
  · cases hrun
  · simp only [not_true_eq_false, if_false] at hrun
    obtain ⟨outputs, houtputs, hrun⟩ := bind_eq_ok.mp hrun
    obtain ⟨sets, -, hrun⟩ := bind_eq_ok.mp hrun
    obtain ⟨lel₁, hinfo, hmint, hnoMint, hsame⟩ := checkOutputs_ok hlel houtputs
    split at hrun
    · rw [hinfo] at hrun
      obtain ⟨sig', lel', rfl, hfiles, hnodup, hlen, hcompared⟩ :=
        collectSpends_ok hsig hmint.isOpen hrun
      have hkept : ∀ serial ∈ serialsIn lel.spentSerials, serial ∈ serialsIn lel'.spentSerials := by
        intro serial h
        refine hfiles.lelantusKept serial ?_
        rw [hmint.spent]
        exact h
      refine ⟨hnoMint, sig', _, rfl, hfiles.sigmaOpen.trans hsig, hfiles.sigmaSeen,
        hfiles.sigmaKept, hfiles.lelantusOpen.trans hmint.isOpen, ?_, hkept, ?_, ?_, ?_, ?_, ?_, ?_⟩
      · intro x hx
        rcases Finset.mem_insert.mp hx with rfl | hx
        · exact Finset.mem_insert_self _ _
        · rw [hfiles.lelantusSeen] at hx
          exact hmint.seen hx
      · intro hfresh
        show Fresh _ (lel'.mints.map _)
        rw [hfiles.mints]
        exact hmint.fresh hfresh
      · intro serial hserial
        obtain ⟨spend, hmem, hread, rfl⟩ := (mem_spentFrom hof true).mp hserial
        exact hfiles.sigma spend hmem hread
      · intro serial hserial
        obtain ⟨spend, hmem, hread, rfl⟩ := (mem_spentFrom hof false).mp hserial
        exact hfiles.lelantus spend hmem hread
      · rw [revealed_of_joinSplitOf hof]
        exact hnodup
      · intro serial hserial
        rw [revealed_of_joinSplitOf hof] at hserial
        -- as many ids as serials, so every serial has one
        rw [← map_fst_zip (Nat.le_of_eq hlen)] at hserial
        obtain ⟨spend, hmem, rfl⟩ := mem_map.mp hserial
        cases hread : (readsAsSigma joinsplit.isSigmaToLelantus spend.2).isSome with
        | true => exact .inl ((mem_spentFrom hof true).mpr ⟨spend, hmem, hread, rfl⟩)
        | false => exact .inr ((mem_spentFrom hof false).mpr ⟨spend, hmem, hread, rfl⟩)
      · intro hnoJMint hs hl serial hserial
        rw [revealed_of_joinSplitOf hof] at hserial
        have heq : lel₁ = lel := by
          refine hsame ?_
          intro txout hmem
          unfold hasJMint at hnoJMint
          rw [any_eq_false] at hnoJMint
          simpa using hnoJMint txout hmem
        subst heq
        exact hcompared hs hl serial hserial
    · cases hrun

theorem checkLelantusTransaction_ok [AddCommGroup G]
    (hrun : checkLelantusTransaction params env sigmaState s chain tx tx.hash false nHeight false true
      ⟨some sig, some lel⟩ = .ok infos) :
    ∃ sig' lel', infos = ⟨some sig', some lel'⟩ ∧
      Checked env.toExternals s tx sig sig' lel lel' := by
  unfold checkLelantusTransaction at hrun
  obtain ⟨-, -, hrun⟩ := bind_eq_ok.mp hrun
  dsimp only at hrun
  split at hrun
  · cases hrun
  · obtain ⟨info₁, hmints, hrun⟩ := bind_eq_ok.mp hrun
    obtain ⟨lel₁, rfl, hmint, hsame⟩ := checkMints_ok hlel hmints
    split at hrun
    · next hjoin =>
      obtain ⟨-, -, hrun⟩ := bind_eq_ok.mp hrun
      simp only [Bool.false_eq_true, if_false] at hrun
      obtain ⟨hnoMint, hchecked⟩ :=
        checkLelantusJoinSplitTransaction_ok hsig hmint.isOpen hjoin hrun
      -- a joinsplit has no regular mints, so nothing was recorded before it
      rw [hsame hnoMint] at hchecked
      exact hchecked
    · next hjoin =>
      simp only [pure_eq_ok, Except.ok.injEq] at hrun
      obtain ⟨hrevealed, hspent⟩ := revealed_of_not_joinSplit env.toExternals hjoin
      refine ⟨sig, lel₁, hrun.symm, hsig, rfl, fun _ h => h, hmint.isOpen, hmint.seen, ?_,
        hmint.fresh, ?_, ?_, ?_, ?_, ?_⟩
      · intro serial h
        rw [hmint.spent]
        exact h
      · simp [hspent]
      · simp [hspent]
      · simp [hrevealed]
      · simp [hrevealed]
      · simp [hrevealed]

end Transactions

/-! ## §5. The transactions of a block. -/

/-- **The collectors after the transactions `done`.** -/
structure BlockChecked (env : Externals F G) (s : CLelantusState F G) (done : List CTransaction)
    (sig : CSigmaTxInfo F G) (lel : CLelantusTxInfo F G) : Prop where
  sigmaOpen : sig.fInfoIsComplete = false
  sigmaSeen : sig.zcTransactions = ∅
  lelantusOpen : lel.fInfoIsComplete = false
  lelantusSeen : ∀ hash ∈ lel.zcTransactions, ∃ tx ∈ done, tx.hash = hash
  fresh : Fresh s.containers.mintedPubCoins (blockMints lel)
  sigma : ∀ tx ∈ done, ∀ serial ∈ spentFrom env true tx, serial ∈ serialsIn sig.spentSerials
  lelantus : ∀ tx ∈ done, ∀ serial ∈ spentFrom env false tx, serial ∈ serialsIn lel.spentSerials
  nodup : ∀ tx ∈ done, (revealed env tx).Nodup
  covered : ∀ tx ∈ done, ∀ serial ∈ revealed env tx,
    serial ∈ spentFrom env true tx ∨ serial ∈ spentFrom env false tx
  compared : ∀ earlier tx later, done = earlier ++ tx :: later → hasJMint tx = false →
    (∀ tx' ∈ earlier, tx'.hash ≠ tx.hash) →
    ∀ tx' ∈ earlier, ∀ serial ∈ revealed env tx, serial ∉ revealed env tx'

section Block

variable {params : ConsensusParams G} {env : TxExternals F G}
  {sigmaState : Sigma.CSigmaState F G} {s : CLelantusState F G}
  {chain : CChain F G} {infos : TxInfos F G}

theorem BlockChecked.snoc {env : Externals F G} {done : List CTransaction} {tx : CTransaction}
    {sig sig' : CSigmaTxInfo F G} {lel lel' : CLelantusTxInfo F G}
    (h : BlockChecked env s done sig lel) (htx : Checked env s tx sig sig' lel lel') :
    BlockChecked env s (done ++ [tx]) sig' lel' := by
  refine ⟨htx.sigmaOpen, htx.sigmaSeen.trans h.sigmaSeen, htx.lelantusOpen, ?_, htx.fresh h.fresh,
    ?_, ?_, ?_, ?_, ?_⟩
  · intro hash hhash
    rcases Finset.mem_insert.mp (htx.lelantusSeen hhash) with rfl | hhash
    · exact ⟨tx, by simp, rfl⟩
    · obtain ⟨tx', hmem, heq⟩ := h.lelantusSeen hash hhash
      exact ⟨tx', mem_append_left _ hmem, heq⟩
  · exact forall_mem_append.mpr ⟨fun tx' hmem serial hserial => htx.sigmaKept serial
      (h.sigma tx' hmem serial hserial), forall_mem_singleton.mpr htx.sigma⟩
  · exact forall_mem_append.mpr ⟨fun tx' hmem serial hserial => htx.lelantusKept serial
      (h.lelantus tx' hmem serial hserial), forall_mem_singleton.mpr htx.lelantus⟩
  · exact forall_mem_append.mpr ⟨h.nodup, forall_mem_singleton.mpr htx.nodup⟩
  · exact forall_mem_append.mpr ⟨h.covered, forall_mem_singleton.mpr htx.covered⟩
  · intro earlier tx₁ later heq hnoJMint hunseen tx' hmem serial hserial
    rcases eq_nil_or_concat' later with rfl | ⟨later', last, rfl⟩
    · -- the new transaction itself: its serials were compared with the collectors
      obtain ⟨rfl, hsingle⟩ := append_inj' heq rfl
      obtain rfl : tx = tx₁ := by simpa using hsingle
      have hseen : tx.hash ∉ lel.zcTransactions := by
        intro hin
        obtain ⟨tx₂, hmem₂, heq₂⟩ := h.lelantusSeen _ hin
        exact hunseen tx₂ hmem₂ heq₂
      have hsigma : tx.hash ∉ sig.zcTransactions := by
        rw [h.sigmaSeen]
        exact Finset.notMem_empty _
      obtain ⟨hs, hl⟩ := htx.compared hnoJMint hsigma hseen serial hserial
      intro hin
      rcases h.covered tx' hmem serial hin with hin | hin
      · exact hs (h.sigma tx' hmem serial hin)
      · exact hl (h.lelantus tx' hmem serial hin)
    · have hsplit : done = earlier ++ tx₁ :: later' := by
        rw [← cons_append, ← append_assoc] at heq
        exact (append_inj' heq rfl).1
      exact h.compared earlier tx₁ later' hsplit hnoJMint hunseen tx' hmem serial hserial

theorem checkBlockTransactions_ok [DecidableEq F] [DecidableEq G] [AddCommGroup G]
    {vtx : List CTransaction}
    (hrun : checkBlockTransactions params env sigmaState s chain vtx = .ok infos) :
    ∃ sig lel, infos = ⟨some sig, some lel⟩ ∧ BlockChecked env.toExternals s vtx sig lel := by
  refine foldlM_prefix_ok (fun done infos => ∃ sig lel, infos = ⟨some sig, some lel⟩ ∧
    BlockChecked env.toExternals s done sig lel) ?_ ?_ hrun
  · rintro done tx - - _ infos ⟨sig, lel, rfl, hchecked⟩ htx
    obtain ⟨sig', lel', rfl, hone⟩ :=
      checkLelantusTransaction_ok hchecked.sigmaOpen hchecked.lelantusOpen htx
    exact ⟨sig', lel', rfl, hchecked.snoc hone⟩
  · refine ⟨{}, {}, rfl, rfl, rfl, rfl, ?_, ⟨nodup_nil, ?_⟩, ?_, ?_, ?_, ?_, ?_⟩
    · simp
    · intro coin hcoin
      cases hcoin
    · simp
    · simp
    · simp
    · simp
    · simp

end Block

/-- The collector as `ConnectBlockLelantus` finds it: completed, its serials in the
order in which the unordered map is walked. -/
structure Completed (env : Externals F G) (lel info : CLelantusTxInfo F G) : Prop where
  eq : ∃ serials, info = { complete env lel with spentSerials := serials }
  serials : info.spentSerials.Perm lel.spentSerials

theorem Completed.fresh {env : Externals F G} {s : CLelantusState F G}
    {lel info : CLelantusTxInfo F G} (h : Completed env lel info)
    (hfresh : Fresh s.containers.mintedPubCoins (blockMints lel)) :
    Fresh s.containers.mintedPubCoins (blockMints info) := by
  have hperm : (blockMints info).Perm (blockMints lel) := by
    obtain ⟨serials, rfl⟩ := h.eq
    exact (mergeSort_perm _ _).map _
  refine ⟨(hperm.map _).nodup_iff.mpr hfresh.nodup, ?_⟩
  intro coin hcoin
  exact hfresh.unminted coin (hperm.mem_iff.mp hcoin)

end Zcoin.Lelantus
