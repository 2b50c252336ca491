/-
  Zcoin.Lelantus.ConnectSpec — what an accepted `ConnectBlockLelantus` has done.

  One inversion lemma per stage of `connectBlockLelantus`.  Later proofs cite these
  and never unfold the connecting code.
-/
import Zcoin.Lelantus.Connect
import Zcoin.Lelantus.Ledger

namespace Zcoin.Lelantus

open Chain LibLelantus Lib Std Lib.Except Function List

variable {F G : Type} [DecidableEq F] [DecidableEq G]

/-! ## §1. Serials. -/

variable {s : CLelantusState F G} {index : CBlockIndex F G} {r : Connected F G}
  {mints : List (G × Uint256)} {chain : CChain F G} {env : Externals F G}
  {params : ConsensusParams G}

omit [DecidableEq G] in
theorem checkLelantusSpendSerial_unused {info : Option (CLelantusTxInfo F G)} {serial : F}
    {nHeight : Nat} (h : checkLelantusSpendSerial s info serial nHeight true = .accepted) :
    s.containers.usedCoinSerials serial = none := by
  unfold checkLelantusSpendSerial at h
  split at h
  · simp [Verdict.dos] at h
  · split at h
    · simp [Verdict.dos] at h
    · next hused =>
      simpa [CLelantusState.isUsedCoinSerial] using hused

variable {info : CLelantusTxInfo F G}

omit [DecidableEq G] in
/-- **The serial loop, accepted**: the serials are new and pairwise different, and
the state and the index have taken all of them in order. -/
theorem connectSpends_accepted {nHeight : Nat}
    {serials : List (F × Int)} (hrun : connectSpends info nHeight false serials s index = .ok r)
    (hacc : r.verdict = .accepted)
    (hindex : ∀ e ∈ index.lelantusSpentSerials, s.containers.usedCoinSerials e.1 ≠ none) :
    ∃ c, serials.foldlM (fun c e => c.addSpend e.1 e.2) s.containers = .ok c ∧
      r.state = { s with containers := c } ∧
      r.index = { index with lelantusSpentSerials := index.lelantusSpentSerials ++ serials } ∧
      FreshSpends s.containers.usedCoinSerials serials := by
  induction serials generalizing s index with
  | nil =>
    simp only [connectSpends, Except.ok.injEq] at hrun
    subst hrun
    exact ⟨s.containers, rfl, rfl, by simp, ⟨nodup_nil, by simp⟩⟩
  | cons e serials ih =>
    simp only [connectSpends] at hrun
    split at hrun
    · -- a rejected serial ends the loop with that verdict
      cases hrun
      simp at hacc
    · next hcheck =>
      simp only [Bool.false_eq_true, if_false] at hrun
      obtain ⟨s₁, hs₁, hrest⟩ := bind_eq_ok.mp hrun
      unfold CLelantusState.addSpend at hs₁
      obtain ⟨c₁, hc₁, hpure⟩ := bind_eq_ok.mp hs₁
      cases hpure
      have hunused := checkLelantusSpendSerial_unused hcheck
      obtain ⟨-, rfl⟩ := Containers.addSpend_eq_ok_iff.mp hc₁
      obtain ⟨hinsert, hindex₁⟩ := insertSerial_unused hunused hindex
      rw [hinsert] at hrest
      obtain ⟨c, hfold, hstate, hidx, hfresh⟩ := ih hrest hindex₁
      refine ⟨c, ?_, hstate, ?_, freshSpends_cons.mpr ⟨hunused, hfresh⟩⟩
      · rw [foldlM_cons, hc₁]
        exact hfold
      · rw [hidx, append_assoc, singleton_append]

/-! ## §2. Mints. -/

omit [DecidableEq G] in
theorem foldl_pushMinted {id : Int} (hne : mints ≠ []) :
    mints.foldl (fun m mint => CLelantusState.pushMinted m id mint) ∅
      = (∅ : ExtTreeMap Int (List (G × Uint256))).insert id mints := by
  induction mints using reverseRecOn with
  | nil => exact absurd rfl hne
  | append_singleton mints mint ih =>
    rw [foldl_append]
    by_cases hfirst : mints = []
    · subst hfirst
      rfl
    · rw [ih hfirst, foldl_cons, foldl_nil]
      unfold CLelantusState.pushMinted
      rw [OrderedMap.getD_insert, if_pos rfl, OrderedMap.insert_insert_self]

variable (hrun : connectMints params env chain mints s index = .ok r)
include hrun

omit [DecidableEq F] in
/-- **The mint stage, finished**: the state is the one the mints left, and the
index is that one's, up to the set hash. -/
theorem connectMints_ok :
    ∃ entered forkBytes mintBytes, enterMints chain mints s index = .ok entered ∧
      hashedAtFork params env s chain = .ok forkBytes ∧
      hashedMints params env chain mints entered.1 entered.2 = .ok mintBytes ∧
      r = ⟨.accepted, entered.1,
        if hashesMints params chain mints ||
            decide (chain.length = params.nLelantusFixesStartBlock) then
          setAnonymitySetHash entered.2 entered.1.latestCoinId
            (env.hash256 (forkBytes ++ mintBytes))
        else entered.2⟩ := by
  unfold connectMints at hrun
  obtain ⟨forkBytes, hfork, hrun⟩ := bind_eq_ok.mp hrun
  obtain ⟨entered, henter, hrun⟩ := bind_eq_ok.mp hrun
  obtain ⟨mintBytes, hmint, hrun⟩ := bind_eq_ok.mp hrun
  simp only [pure_eq_ok, Except.ok.injEq] at hrun
  exact ⟨entered, forkBytes, mintBytes, henter, hfork, hmint, hrun.symm⟩

omit [DecidableEq F] in
theorem connectMints_fields :
    ∃ entered, enterMints chain mints s index = .ok entered ∧ r.state = entered.1 ∧
      r.index.lelantusMintedPubCoins = entered.2.lelantusMintedPubCoins ∧
      r.index.lelantusSpentSerials = entered.2.lelantusSpentSerials ∧
      r.index.hash = entered.2.hash := by
  obtain ⟨entered, forkBytes, mintBytes, henter, -, -, rfl⟩ := connectMints_ok hrun
  refine ⟨entered, henter, rfl, ?_⟩
  dsimp only
  split
  · exact ⟨rfl, rfl, rfl⟩
  · exact ⟨rfl, rfl, rfl⟩

omit hrun

/-! ## §3. The whole block. -/

/-- The mints of a block as `AddMintsToStateAndBlockIndex` reads them. -/
def blockMints (info : CLelantusTxInfo F G) : List (G × Uint256) :=
  info.mints.map fun mint => (mint.1, mint.2.2)

variable {pblock : CBlock F G} (hinfo : pblock.lelantusTxInfo = some info)
  (hconnect : connectBlockLelantus params env s chain index pblock false = .ok r)
include hinfo hconnect

theorem connectBlockLelantus_cases :
    (checkLelantusBlock params env pblock.vtx ≠ .ok .accepted ∧ r.verdict ≠ .accepted ∧
      r.state = s) ∨
    checkLelantusBlock params env pblock.vtx = .ok .accepted ∧ ∃ spent,
      connectSpends info chain.length false info.spentSerials s (clearLelantus index) = .ok spent ∧
      (spent.verdict ≠ .accepted ∧ r = spent ∨ spent.verdict = .accepted ∧
        connectMints params env chain (blockMints info) spent.state spent.index = .ok r) := by
  unfold connectBlockLelantus at hconnect
  rw [hinfo] at hconnect
  simp only [Bool.false_eq_true, if_false, or_false] at hconnect
  obtain ⟨blockVerdict, hblock, hrun⟩ := bind_eq_ok.mp hconnect
  rw [mapError_eq_ok] at hblock
  rw [hblock]
  by_cases hlimits : blockVerdict ≠ .accepted
  · rw [if_pos hlimits] at hrun
    cases hrun
    exact .inl ⟨fun hok => hlimits (Except.ok.inj hok), hlimits, rfl⟩
  rw [if_neg hlimits] at hrun
  obtain ⟨spent, hspent, hrun⟩ := bind_eq_ok.mp hrun
  refine .inr ⟨congrArg _ (not_not.mp hlimits), spent, hspent, ?_⟩
  split at hrun
  · next hrej => exact .inl ⟨hrej, (Except.ok.inj hrun).symm⟩
  · next hpass => exact .inr ⟨not_not.mp hpass, hrun⟩

/-- **An accepted block**: its serials were new and were added first; then its
mints entered. -/
theorem connectBlockLelantus_accepted (hacc : r.verdict = .accepted) :
    ∃ c, info.spentSerials.foldlM (fun c e => c.addSpend e.1 e.2) s.containers = .ok c ∧
      FreshSpends s.containers.usedCoinSerials info.spentSerials ∧
      connectMints params env chain (blockMints info) { s with containers := c }
        { clearLelantus index with lelantusSpentSerials := info.spentSerials } = .ok r := by
  rcases connectBlockLelantus_cases hinfo hconnect with
    ⟨-, hrej, -⟩ | ⟨-, spent, hspent, ⟨hrej, rfl⟩ | ⟨hv, hmints⟩⟩
  · exact absurd hacc hrej
  · exact absurd hacc hrej
  · obtain ⟨c, hfold, hstate, hidx, hfresh⟩ :=
      connectSpends_accepted hspent hv (by simp [clearLelantus])
    refine ⟨c, hfold, hfresh, ?_⟩
    rw [hstate, hidx] at hmints
    simpa [clearLelantus] using hmints

end Zcoin.Lelantus
