/-
  Zcoin.Lelantus.DoubleSpend — can a serial be revealed twice?

  Two places stand against it.  `CheckLelantusJoinSplitTransaction` compares the
  serials of a joinsplit with those collected from the block so far, but NOT when
  the txid is already in `zcTransactions`, and a JMint output of the same
  transaction has put it there.  `ConnectBlockLelantus` compares the collected
  serials with the state, but a map keyed by the serial has forgotten by then that
  one was revealed twice, and serials filed as Sigma are not in it.

  **MAIN RESULT**: `serials_spent_once_iff`.
-/
import Zcoin.Lelantus.CheckSpec

namespace Zcoin.Lelantus

open Chain LibLelantus Lib Std Function List Option

variable {F G : Type} [DecidableEq F] [DecidableEq G]

/-! ## §1. The properties. -/

variable (env : Externals F G)

/-- No serial is revealed by two transactions with different txids. -/
def NoSharedSerial (vtx : List CTransaction) : Prop :=
  ∀ tx ∈ vtx, ∀ tx' ∈ vtx, tx.hash ≠ tx'.hash →
    ∀ serial ∈ revealed env tx, serial ∉ revealed env tx'

/-- No serial that is revealed was used before. -/
def NoneUsed (s : CLelantusState F G) (vtx : List CTransaction) : Prop :=
  ∀ tx ∈ vtx, ∀ serial ∈ revealed env tx, s.containers.usedCoinSerials serial = none

/-- **The transactions that escape a comparison keep apart.**  A joinsplit with a
JMint output, or with a txid that came before, shares no serial with an earlier
transaction of another txid; a serial spent from an id that is read as a Sigma group
is not in the Lelantus state. -/
structure Guarded (s : CLelantusState F G) (vtx : List CTransaction) : Prop where
  apart : ∀ earlier tx later, vtx = earlier ++ tx :: later →
    (hasJMint tx = true ∨ ∃ tx' ∈ earlier, tx'.hash = tx.hash) →
    ∀ tx' ∈ earlier, tx'.hash ≠ tx.hash → ∀ serial ∈ revealed env tx, serial ∉ revealed env tx'
  sigma : ∀ tx ∈ vtx, ∀ serial ∈ spentFrom env true tx, s.containers.usedCoinSerials serial = none

/-! ## §2. One block. -/

section Block

variable {env : Externals F G} {s : CLelantusState F G} {vtx : List CTransaction}
  {sig : CSigmaTxInfo F G} {lel info : CLelantusTxInfo F G}

omit [DecidableEq F] [DecidableEq G] in
/-- **What the transaction check leaves open**: serials are apart once the
transactions that escape it are. -/
theorem noSharedSerial_of_guarded (hchecked : BlockChecked env s vtx sig lel)
    (hguarded : Guarded env s vtx) : NoSharedSerial env vtx := by
  -- of two transactions one comes later, and it was compared or is guarded
  have hlater : ∀ earlier tx later, vtx = earlier ++ tx :: later → ∀ tx' ∈ earlier,
      tx'.hash ≠ tx.hash → ∀ serial ∈ revealed env tx, serial ∉ revealed env tx' := by
    intro earlier tx later heq tx' hmem hne serial hserial
    by_cases hescapes : hasJMint tx = true ∨ ∃ tx'' ∈ earlier, tx''.hash = tx.hash
    · exact hguarded.apart earlier tx later heq hescapes tx' hmem hne serial hserial
    · rw [not_or] at hescapes
      refine hchecked.compared earlier tx later heq (by simpa using hescapes.1) ?_ tx' hmem serial
        hserial
      intro tx'' hmem'' hsame
      exact hescapes.2 ⟨tx'', hmem'', hsame⟩
  intro tx htx tx' htx' hne serial hserial hserial'
  obtain ⟨earlier, later, heq⟩ := append_of_mem htx
  rw [heq] at htx'
  rcases mem_append.mp htx' with hmem | hmem
  · exact hlater earlier tx later heq tx' hmem (Ne.symm hne) serial hserial hserial'
  · rcases mem_cons.mp hmem with rfl | hmem
    · exact hne rfl
    · obtain ⟨between, rest, hrest⟩ := append_of_mem hmem
      refine hlater (earlier ++ tx :: between) tx' rest ?_ tx (by simp) hne serial hserial' hserial
      rw [heq, hrest]
      simp

variable {params : ConsensusParams G} {chain : CChain F G} {index : CBlockIndex F G}
  {pblock : CBlock F G} {r : Connected F G} (hchecked : BlockChecked env s vtx sig lel)
  (hcomplete : Completed env lel info) (hinfo : pblock.lelantusTxInfo = some info)
  (hrun : connectBlockLelantus params env s chain index pblock false = .ok r)
  (hacc : r.verdict = .accepted)
include hchecked hcomplete hinfo hrun hacc

/-- **What `ConnectBlockLelantus` checks**: a collected serial was not used. -/
theorem noneUsed_of_connected :
    ∀ tx ∈ vtx, ∀ serial ∈ spentFrom env false tx, s.containers.usedCoinSerials serial = none := by
  obtain ⟨c, -, hfresh, -⟩ := connectBlockLelantus_accepted hinfo hrun hacc
  intro tx hmem serial hserial
  have hin := hchecked.lelantus tx hmem serial hserial
  obtain ⟨entry, hentry, rfl⟩ := mem_map.mp hin
  exact hfresh.unused entry (hcomplete.serials.mem_iff.mpr hentry)

/-- **A block**: both parts of the property together say no more and no less than
`Guarded`. -/
theorem block_serials_iff : (NoSharedSerial env vtx ∧ NoneUsed env s vtx) ↔ Guarded env s vtx := by
  constructor
  · intro ⟨hshared, hused⟩
    refine ⟨?_, ?_⟩
    · intro earlier tx later heq _ tx' hmem hne
      refine hshared tx ?_ tx' ?_ (Ne.symm hne)
      · rw [heq]
        simp
      · rw [heq]
        exact mem_append_left _ hmem
    · intro tx htx serial hserial
      refine hused tx htx serial ?_
      unfold spentFrom at hserial
      unfold revealed
      split at hserial
      · next joinsplit hjoin =>
        obtain ⟨spend, hspend, rfl⟩ := mem_map.mp hserial
        exact (of_mem_zip (mem_filter.mp hspend).1).1
      · cases hserial
  · intro hguarded
    refine ⟨noSharedSerial_of_guarded hchecked hguarded, ?_⟩
    intro tx htx serial hserial
    rcases hchecked.covered tx htx serial hserial with h | h
    · exact hguarded.sigma tx htx serial h
    · exact noneUsed_of_connected hchecked hcomplete hinfo hrun hacc tx htx serial h

end Block

/-! ## §3. The serials of a chain. -/

variable {chain : CChain F G}

omit [DecidableEq G] in
theorem addSpends_used {serial : F} (serials : List (F × Int)) (b : Book F G)
    (h : serial ∈ serialsIn serials ∨ b.used serial ≠ none) :
    (b.addSpends serials).used serial ≠ none := by
  show serials.foldl (fun (used : F → Option Int) e => update used e.1 (some e.2)) b.used
    serial ≠ none
  induction serials using reverseRecOn with
  | nil => simpa [serialsIn] using h
  | append_singleton serials e ih =>
    rw [foldl_concat]
    by_cases he : serial = e.1
    · rw [he, update_self]
      simp
    · rw [update_of_ne he]
      refine ih (h.imp_left fun hmem => ?_)
      simpa [serialsIn, he] using hmem

theorem used_of_mem_chain {start : Nat} {index : CBlockIndex F G} {serial : F}
    (hindex : index ∈ chain) (hserial : serial ∈ serialsIn index.lelantusSpentSerials) :
    (replay start chain).book.used serial ≠ none := by
  induction chain with
  | nil => cases hindex
  | cons tip chain ih =>
    show ((replay start chain).connect start chain tip).book.used serial ≠ none
    rw [connect_keeps (f := Book.used) fun _ _ _ _ => rfl]
    rcases mem_cons.mp hindex with rfl | hindex
    · exact addSpends_used _ _ (.inl hserial)
    · exact addSpends_used _ _ (.inr (ih hindex))

/-! ## §4. Runs. -/

/-- **Runs of checked blocks**: every block that is connected has passed the
transaction checks on the state it meets and satisfies `cond`; the tip may be taken
off again.  Next to the state and the chain stand the transactions of its blocks. -/
inductive CheckedRun [AddCommGroup G] (params : ConsensusParams G) (env : TxExternals F G)
    (maxCoin start : Nat) (cond : CLelantusState F G → List CTransaction → Prop) :
    CLelantusState F G → CChain F G → List (List CTransaction) → Prop
  | init : CheckedRun params env maxCoin start cond (.init maxCoin start) [] []
  | connect (sigmaState : Sigma.CSigmaState F G) (index : CBlockIndex F G) (pblock : CBlock F G)
      {s : CLelantusState F G} {chain : CChain F G} {blocks : List (List CTransaction)}
      {infos : TxInfos F G} {lel info : CLelantusTxInfo F G} {r : Connected F G}
      (hprev : CheckedRun params env maxCoin start cond s chain blocks)
      (hcheck : checkBlockTransactions params env sigmaState s chain pblock.vtx = .ok infos)
      (hlel : infos.lelantus = some lel) (hcomplete : Completed env.toExternals lel info)
      (hinfo : pblock.lelantusTxInfo = some info) (hcond : cond s pblock.vtx)
      (hrun : connectBlockLelantus params env.toExternals s chain index pblock false = .ok r)
      (hacc : r.verdict = .accepted) :
      CheckedRun params env maxCoin start cond r.state (r.index :: chain) (pblock.vtx :: blocks)
  | disconnect {s s' : CLelantusState F G} {index : CBlockIndex F G}
      {chain : CChain F G} {vtx : List CTransaction} {blocks : List (List CTransaction)}
      (hprev : CheckedRun params env maxCoin start cond s (index :: chain) (vtx :: blocks))
      (hrun : s.removeBlock chain index = .ok s') :
      CheckedRun params env maxCoin start cond s' chain blocks

/-- **Every Lelantus serial of a chain is spent once**: within a block by one txid,
within a transaction once, and never again in a later block. -/
structure SpentOnce (env : Externals F G) (blocks : List (List CTransaction)) : Prop where
  inBlock : ∀ vtx ∈ blocks, NoSharedSerial env vtx ∧ ∀ tx ∈ vtx, (revealed env tx).Nodup
  later : blocks.Pairwise fun vtx below => ∀ tx ∈ vtx, ∀ tx' ∈ below,
    ∀ serial ∈ revealed env tx, serial ∉ spentFrom env false tx'

section Run

variable [AddCommGroup G] {params : ConsensusParams G} {env : TxExternals F G} {maxCoin start : Nat}
  {cond : CLelantusState F G → List CTransaction → Prop} {s : CLelantusState F G}
  {chain : CChain F G} {blocks : List (List CTransaction)}

/-- The checks establish what `Reachable` asks of a block. -/
theorem reachable_of_checkedRun (h : CheckedRun params env maxCoin start cond s chain blocks) :
    Reachable params env.toExternals maxCoin start s chain := by
  induction h with
  | init => exact .init
  | connect sigmaState index pblock hprev hcheck hlel hcomplete hinfo hcond hrun hacc ih =>
    obtain ⟨sig, lel', rfl, hchecked⟩ := checkBlockTransactions_ok hcheck
    obtain rfl := some.inj hlel
    exact .connect index pblock ih hinfo (hcomplete.fresh hchecked.fresh) hrun hacc
  | disconnect _ hrun ih => exact .disconnect ih hrun

/-- The index of a block has the serials its transactions spend from Lelantus
groups. -/
def Indexed (env : Externals F G) (index : CBlockIndex F G) (vtx : List CTransaction) : Prop :=
  ∀ tx ∈ vtx, ∀ serial ∈ spentFrom env false tx, serial ∈ serialsIn index.lelantusSpentSerials

variable (h : CheckedRun params env maxCoin start cond s chain blocks)
include h

theorem indexed_of_checkedRun : List.Forall₂ (Indexed env.toExternals) chain blocks := by
  induction h with
  | init => exact .nil
  | connect sigmaState index pblock hprev hcheck hlel hcomplete hinfo hcond hrun hacc ih =>
    obtain ⟨sig, lel', rfl, hchecked⟩ := checkBlockTransactions_ok hcheck
    obtain rfl := some.inj hlel
    have hinv := (inv_reachable (reachable_of_checkedRun hprev)).1
    have hjoin := inv_connect hinv hinfo (hcomplete.fresh hchecked.fresh) hrun hacc
    refine .cons ?_ ih
    intro tx htx serial hserial
    rw [hjoin.spent]
    exact (hcomplete.serials.map Prod.fst).mem_iff.mpr (hchecked.lelantus tx htx serial hserial)
  | disconnect _ _ ih =>
    cases ih with
    | cons _ hbelow => exact hbelow

theorem used_of_spent_below {vtx : List CTransaction} (hvtx : vtx ∈ blocks) {tx : CTransaction}
    (htx : tx ∈ vtx) {serial : F} (hserial : serial ∈ spentFrom env.toExternals false tx) :
    s.containers.usedCoinSerials serial ≠ none := by
  have hinv := (inv_reachable (reachable_of_checkedRun h)).1
  obtain ⟨index, hindex, hrel⟩ : ∃ index ∈ chain, Indexed env.toExternals index vtx := by
    obtain ⟨hlen, hall⟩ := forall₂_iff_get.mp (indexed_of_checkedRun h)
    obtain ⟨i, rfl⟩ := mem_iff_get.mp hvtx
    exact ⟨_, List.get_mem chain ⟨i, by omega⟩, hall i (by omega) i.2⟩
  show s.ledger.book.used serial ≠ none
  rw [hinv.ledger]
  exact used_of_mem_chain hindex (hrel tx htx serial hserial)

omit h

theorem spentOnce_of_checkedRun
    (h : CheckedRun params env maxCoin start (Guarded env.toExternals) s chain blocks) :
    SpentOnce env.toExternals blocks := by
  induction h with
  | init => exact ⟨by simp, .nil⟩
  | connect sigmaState index pblock hprev hcheck hlel hcomplete hinfo hcond hrun hacc ih =>
    obtain ⟨sig, lel', rfl, hchecked⟩ := checkBlockTransactions_ok hcheck
    obtain rfl := some.inj hlel
    obtain ⟨hshared, hunused⟩ :=
      (block_serials_iff hchecked hcomplete hinfo hrun hacc).mpr hcond
    refine ⟨forall_mem_cons.mpr ⟨⟨hshared, hchecked.nodup⟩, ih.inBlock⟩, .cons ?_ ih.later⟩
    intro below hbelow tx htx tx' htx' serial hserial hserial'
    exact used_of_spent_below hprev hbelow htx' hserial' (hunused tx htx serial hserial)
  | disconnect _ _ ih =>
    refine ⟨fun vtx hvtx => ih.inBlock vtx (mem_cons_of_mem _ hvtx), ?_⟩
    exact (pairwise_cons.mp ih.later).2

end Run

/-- **Double spends.**  For every block whose transactions pass the checks and that
`ConnectBlockLelantus` accepts, on any prior states: no serial is revealed under two
txids and none was used exactly when the transactions that escape a comparison keep
apart.  In every run whose blocks do, each Lelantus serial is spent at most once. -/
theorem serials_spent_once_iff [AddCommGroup G] (params : ConsensusParams G)
    (env : TxExternals F G) :
    (∀ (sigmaState : Sigma.CSigmaState F G) (s : CLelantusState F G)
        (chain : CChain F G) (index : CBlockIndex F G) (pblock : CBlock F G)
        (infos : TxInfos F G) (lel info : CLelantusTxInfo F G) (r : Connected F G),
      checkBlockTransactions params env sigmaState s chain pblock.vtx = .ok infos →
      infos.lelantus = some lel → Completed env.toExternals lel info →
      pblock.lelantusTxInfo = some info →
      connectBlockLelantus params env.toExternals s chain index pblock false = .ok r →
      r.verdict = .accepted →
      ((NoSharedSerial env.toExternals pblock.vtx ∧ NoneUsed env.toExternals s pblock.vtx) ↔
        Guarded env.toExternals s pblock.vtx)) ∧
    ∀ (maxCoin start : Nat) (s : CLelantusState F G) (chain : CChain F G)
      (blocks : List (List CTransaction)),
      CheckedRun params env maxCoin start (Guarded env.toExternals) s chain blocks →
      SpentOnce env.toExternals blocks := by
  refine ⟨?_, fun _ _ _ _ _ h => spentOnce_of_checkedRun h⟩
  intro sigmaState s chain index pblock infos lel info r hcheck hlel hcomplete hinfo hrun hacc
  obtain ⟨sig, lel', rfl, hchecked⟩ := checkBlockTransactions_ok hcheck
  obtain rfl := Option.some.inj hlel
  exact block_serials_iff hchecked hcomplete hinfo hrun hacc

/-! ## §5. Concrete blocks. -/

/-- Scripts for concrete blocks: the first byte after the opcode tells a Lelantus
joinsplit (0) from a Sigma-to-Lelantus one, the rest are its serials, all spent from
Lelantus group 1 or from group 1 of the smallest Sigma denomination.  Every proof
verifies. -/
def sampleTxExternals : TxExternals Nat Int where
  toExternals := { sampleExternals with
    readJoinSplit := fun bytes => .ok
      { version := if bytes.headD 0 = 0 then LELANTUS_TX_VERSION_4_5
          else SIGMA_TO_LELANTUS_JOINSPLIT_FIXED
        lelantusProof := ⟨[], ⟨0, 0, 0, 0, 0, 0, 0, ⟨0, 0, 0, [], []⟩⟩, ⟨0, 0, 0⟩⟩
        qkSchnorrProof := ⟨0, 0, 0⟩
        serialNumbers := bytes.tail.map UInt8.toNat
        groupIds := bytes.tail.map fun _ => if bytes.headD 0 = 0 then 1 else 5001
        ecdsaSignatures := []
        ecdsaPubkeys := []
        coinGroupIdAndBlockHash := []
        fee := 0 } }
  validate := fun _ => true
  verifyMintSchnorrProof := fun _ _ _ _ => true
  decryptMintAmount := fun _ _ => 0
  metadataHash := fun tx => tx.hash
  verifyJoinSplit := fun _ _ _ _ _ _ _ => true
  fCollectProofs := false
  unsetDenomination := .SIGMA_DENOM_0_1

/-- A joinsplit transaction with the given payload and outputs. -/
def sampleJoinSplit (hash : Uint256) (payload : List UInt8) (vout : List CTxOut) : CTransaction :=
  { hash
    vin := [⟨⟨0, 0xffffffff⟩, OP_LELANTUSJOINSPLIT :: payload⟩]
    vout }

/-- A JMint output for the coin `coin`. -/
def sampleJMint (coin : UInt8) : CTxOut :=
  ⟨0, OP_LELANTUSJMINT :: List.replicate (pubcoinSize + encryptedValueSize) coin⟩

/-- The transactions `vtx` pass the checks and their block is accepted. -/
def SampleAccepted (s : CLelantusState Nat Int) (chain : CChain Nat Int)
    (vtx : List CTransaction) : Prop :=
  ∃ infos lel r, checkBlockTransactions sampleParams sampleTxExternals {} s chain vtx = .ok infos ∧
    infos.lelantus = some lel ∧
    connectBlockLelantus sampleParams sampleTxExternals.toExternals s chain { hash := 99 }
      { vtx, lelantusTxInfo := some (complete sampleTxExternals.toExternals lel) } false = .ok r ∧
    r.verdict = .accepted

/-- The same as a test. -/
def sampleAccepts (vtx : List CTransaction)
    (p : CLelantusState Nat Int × CChain Nat Int) : Bool :=
  match checkBlockTransactions sampleParams sampleTxExternals {} p.1 p.2 vtx with
  | .error _ => false
  | .ok infos => infos.lelantus.any fun lel =>
    match connectBlockLelantus sampleParams sampleTxExternals.toExternals p.1 p.2 { hash := 99 }
      { vtx, lelantusTxInfo := some (complete sampleTxExternals.toExternals lel) } false with
    | .ok r => decide (r.verdict = .accepted)
    | .error _ => false

theorem sampleAccepted_of_test {vtx : List CTransaction}
    {p : CLelantusState Nat Int × CChain Nat Int} (h : sampleAccepts vtx p = true) :
    SampleAccepted p.1 p.2 vtx := by
  unfold sampleAccepts at h
  split at h
  · cases h
  · next infos hcheck =>
    obtain ⟨lel, hlel, hconnect⟩ := (any_eq_true _ _).mp h
    split at hconnect
    · next r hrun => exact ⟨infos, lel, r, hcheck, hlel, hrun, of_decide_eq_true hconnect⟩
    · cases hconnect

/-- Two joinsplits without JMint outputs. -/
def twoJoinSplits : List CTransaction :=
  [sampleJoinSplit 10 [0, 7] [], sampleJoinSplit 11 [0, 8] []]

theorem serials_spent_once_two_joinsplits :
    ∃ s chain, Reachable sampleParams sampleExternals 3 2 s chain ∧
      SampleAccepted s chain twoJoinSplits ∧
      NoSharedSerial sampleTxExternals.toExternals twoJoinSplits ∧
      NoneUsed sampleTxExternals.toExternals s twoJoinSplits := by
  obtain ⟨⟨s, chain⟩, hrun, hp⟩ : ∃ p ∈ sampleRun sampleParams 3 2 [([1, 2], [])],
      sampleAccepts twoJoinSplits p = true := by
    decide +kernel
  obtain ⟨infos, lel, r, hcheck, hlel, hconnect, hacc⟩ := sampleAccepted_of_test hp
  refine ⟨s, chain, reachable_of_sampleRun hrun, ⟨infos, lel, r, hcheck, hlel, hconnect, hacc⟩, ?_⟩
  refine ((serials_spent_once_iff sampleParams sampleTxExternals).1 {} s chain { hash := 99 } _ infos
    lel _ r hcheck hlel ⟨⟨_, rfl⟩, .refl _⟩ rfl hconnect hacc).mpr ⟨?_, ?_⟩
  · -- no JMint and no txid twice: nothing escapes the comparison
    intro earlier tx later heq hescapes
    change twoJoinSplits = earlier ++ tx :: later at heq
    have hmem : tx ∈ twoJoinSplits := by
      rw [heq]
      simp
    have hnoJMint : ∀ tx ∈ twoJoinSplits, hasJMint tx = false := by decide
    have hnodup : (twoJoinSplits.map (·.hash)).Nodup := by decide
    rw [heq, List.map_append, List.map_cons, List.nodup_append] at hnodup
    rcases hescapes with hjmint | ⟨tx', htx', hsame⟩
    · rw [hnoJMint tx hmem] at hjmint
      cases hjmint
    · exact absurd hsame (hnodup.2.2 _ (List.mem_map_of_mem htx') _ List.mem_cons_self)
  · have hnone : ∀ tx ∈ twoJoinSplits,
        spentFrom sampleTxExternals.toExternals true tx = [] := by
      decide +kernel
    intro tx htx serial hserial
    rw [hnone tx htx] at hserial
    cases hserial

/-- **A serial revealed twice.**  (1) Two joinsplits of one block reveal serial 7: the
second one has a JMint output, so it is not compared with the first.  (2) A
Sigma-to-Lelantus joinsplit reveals serial 7 from an id that is read as a Sigma group,
while a Lelantus spend has used 7 before. -/
theorem serials_revealed_twice :
    (∃ s chain, Reachable sampleParams sampleExternals 3 2 s chain ∧
      SampleAccepted s chain
        [sampleJoinSplit 10 [0, 7] [], sampleJoinSplit 11 [0, 7] [sampleJMint 5]] ∧
      7 ∈ revealed sampleTxExternals.toExternals (sampleJoinSplit 10 [0, 7] []) ∧
      7 ∈ revealed sampleTxExternals.toExternals (sampleJoinSplit 11 [0, 7] [sampleJMint 5])) ∧
    ∃ s chain, Reachable sampleParams sampleExternals 3 2 s chain ∧
      SampleAccepted s chain [sampleJoinSplit 12 [1, 7] []] ∧
      7 ∈ revealed sampleTxExternals.toExternals (sampleJoinSplit 12 [1, 7] []) ∧
      s.containers.usedCoinSerials 7 = some 1 := by
  refine ⟨?_, ?_⟩
  · obtain ⟨⟨s, chain⟩, hrun, hp⟩ : ∃ p ∈ sampleRun sampleParams 3 2 [([1, 2], [])], sampleAccepts
        [sampleJoinSplit 10 [0, 7] [], sampleJoinSplit 11 [0, 7] [sampleJMint 5]] p = true := by
      decide +kernel
    exact ⟨s, chain, reachable_of_sampleRun hrun, sampleAccepted_of_test hp, by decide +kernel,
      by decide +kernel⟩
  · obtain ⟨⟨s, chain⟩, hrun, hp, hused⟩ :
        ∃ p ∈ sampleRun sampleParams 3 2 [([], [(7, 1)]), ([1, 2], [])],
        sampleAccepts [sampleJoinSplit 12 [1, 7] []] p = true ∧
          p.1.containers.usedCoinSerials 7 = some 1 := by
      decide +kernel
    exact ⟨s, chain, reachable_of_sampleRun hrun, sampleAccepted_of_test hp, by decide +kernel,
      hused⟩

end Zcoin.Lelantus
