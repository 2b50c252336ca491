/-
  Zcoin.Mempool.Conflicts — what a connected block leaves in the pool
  (`RemoveConflictingPrivacyTransactionsFromMempool`, `validation.cpp`).

  For each joinsplit of the block the function looks its serials up until one is known
  to the pool, removes the transaction it is filed under, and erases all its serials
  from the map.  `clean_removeConflicting` says what is left when each joinsplit of the
  block conflicts with at most one entry.
-/
import Zcoin.Mempool.Index

namespace Zcoin.Mempool

open Std List
open Chain Lib Lelantus

variable {F G : Type}

/-! ## §1. Blocks against a pool. -/

variable (env : Externals F G)

/-- The serials the joinsplits among some transactions spend. -/
def spentSerials (vtx : List CTransaction) : List F :=
  vtx.flatMap (joinSplitSerials env)

variable (pool : CTxMemPool F G)

/-- All entries that spend a serial of the transaction are the same. -/
def OneConflict (tx : CTransaction) : Prop :=
  ∀ serial ∈ joinSplitSerials env tx, ∀ serial' ∈ joinSplitSerials env tx, ∀ h h',
    Spends env pool h serial → Spends env pool h' serial' → h = h'

/-- The entries that conflict with the transaction have no branch of their own in
`removeUnchecked`. -/
def ConflictsUntyped (tx : CTransaction) : Prop :=
  ∀ h entry, h ≠ tx.hash → pool.mapTx[h]? = some entry → entry.isLelantusJoinSplit = true →
    (∃ serial ∈ joinSplitSerials env entry, serial ∈ joinSplitSerials env tx) →
    hasTypedBranch entry = false

/-- A connected block: its joinsplits have one input, as
`CheckLelantusJoinSplitTransaction` requires, and conflict with one entry at most. -/
structure ConflictsOnce (vtx : List CTransaction) : Prop where
  shape : ∀ tx ∈ vtx, tx.isLelantusJoinSplit = true → tx.vin.length = 1
  one : ∀ tx ∈ vtx, OneConflict env pool tx
  untyped : ∀ tx ∈ vtx, ConflictsUntyped env pool tx

/-- Sigma serials are not filed under joinsplits. -/
def SigmaFiled (st : PoolState F G) : Prop :=
  ∀ serial h tx, st.sigmaSerials serial = some h → st.mempool.mapTx[h]? = some tx →
    tx.isLelantusJoinSplit = false

/-- The serial map files exactly the serials of the joinsplits in the pool. -/
structure Filed (st : PoolState F G) : Prop where
  indexed : Indexed env st.mempool fun _ _ => True
  sigma : SigmaFiled st

variable {tx : CTransaction}

theorem joinSplitSerials_of_not {env : Externals F G}
    (h : tx.isLelantusJoinSplit = false) : joinSplitSerials env tx = [] := by
  unfold joinSplitSerials getLelantusJoinSplitSerialNumbers
  rw [h]
  cases tx.vin.head? <;> rfl

theorem not_isSigmaSpend_of_joinSplit (hjs : tx.isLelantusJoinSplit = true)
    (hshape : tx.vin.length = 1) : tx.isSigmaSpend = false := by
  obtain ⟨txin, hvin⟩ := length_eq_one_iff.mp hshape
  unfold CTransaction.isLelantusJoinSplit at hjs
  unfold CTransaction.isSigmaSpend
  rw [hvin] at hjs ⊢
  simp only [any_cons, any_nil, Bool.or_false] at hjs ⊢
  unfold CTxIn.isLelantusJoinSplit CScript.startsWith at hjs
  unfold CTxIn.isSigmaSpend CScript.startsWith
  simp only [Bool.and_eq_true, decide_eq_true_eq] at hjs
  rw [hjs.2]
  simp [OP_SIGMASPEND, OP_LELANTUSJOINSPLIT]

section Mono

variable {env : Externals F G} {pool pool' : CTxMemPool F G} {tx : CTransaction}

theorem OneConflict.mono (hsub : SubPool pool' pool) (h : OneConflict env pool tx) :
    OneConflict env pool' tx := by
  intro serial hserial serial' hserial' k k' hs hs'
  exact h serial hserial serial' hserial' k k' (hs.mono hsub) (hs'.mono hsub)

theorem ConflictsUntyped.mono (hsub : SubPool pool' pool) (h : ConflictsUntyped env pool tx) :
    ConflictsUntyped env pool' tx :=
  fun k entry hne hentry hjs hshare => h k entry hne (hsub k entry hentry) hjs hshare

end Mono

/-! ## §2. One joinsplit of the block. -/

section JoinSplit

variable {env : PoolExternals F G} {pool : CTxMemPool F G} {keep : F → Uint256 → Prop}

theorem firstConflict_spec {serials : List F} (hne : firstConflict pool serials ≠ 0) :
    ∃ serial ∈ serials,
      pool.lelantusState.mempoolCoinSerials serial = some (firstConflict pool serials) := by
  unfold firstConflict at hne ⊢
  cases hfind : (serials.map pool.lelantusState.getMempoolConflictingTxHash).find? (· ≠ 0) with
  | none =>
    rw [hfind] at hne
    exact absurd rfl hne
  | some c =>
    have hc : c ≠ 0 := by simpa using find?_some hfind
    obtain ⟨serial, hserial, heq⟩ := mem_map.mp (mem_of_find?_eq_some hfind)
    refine ⟨serial, hserial, ?_⟩
    show pool.lelantusState.mempoolCoinSerials serial = some c
    unfold CLelantusMempoolState.getMempoolConflictingTxHash at heq
    cases hmap : pool.lelantusState.mempoolCoinSerials serial with
    | none =>
      rw [hmap] at heq
      exact absurd heq.symm hc
    | some h =>
      rw [hmap] at heq
      exact congrArg some heq

theorem firstConflict_ne_zero {serials : List F} {serial : F} {h : Uint256}
    (hserial : serial ∈ serials) (hfiled : pool.lelantusState.mempoolCoinSerials serial = some h)
    (hne : h ≠ 0) : firstConflict pool serials ≠ 0 := by
  unfold firstConflict
  cases hfind : (serials.map pool.lelantusState.getMempoolConflictingTxHash).find? (· ≠ 0) with
  | none =>
    have hall := find?_eq_none.mp hfind h
      (mem_map.mpr ⟨serial, hserial, by
        unfold CLelantusMempoolState.getMempoolConflictingTxHash
        rw [hfiled]
        rfl⟩)
    exact absurd (by simpa using hall) hne
  | some c => simpa using find?_some hfind

/-- What holds after the joinsplits among `done` have been dealt with: the map files
what none of them spends, and an entry that shares a serial with one of them is a
transaction of the block. -/
structure Cleaned (env : Externals F G) (vtx done : List CTransaction) (pool : CTxMemPool F G) :
    Prop where
  indexed : Indexed env pool fun serial _ => serial ∉ spentSerials env done
  conflicts : ∀ serial h, Spends env pool h serial → serial ∈ spentSerials env done →
    h ∈ vtx.map (·.hash)

variable {done vtx : List CTransaction} {tx : CTransaction}

theorem mem_spentSerials_snoc {env : Externals F G} {serial : F} :
    serial ∈ spentSerials env (done ++ [tx]) ↔
      serial ∈ spentSerials env done ∨ serial ∈ joinSplitSerials env tx := by
  unfold spentSerials
  rw [flatMap_append, mem_append, flatMap_singleton]

theorem Cleaned.snoc_of_not {env : Externals F G} (hc : Cleaned env vtx done pool)
    (h : tx.isLelantusJoinSplit = false) : Cleaned env vtx (done ++ [tx]) pool := by
  have hmem : ∀ serial : F, serial ∈ spentSerials env (done ++ [tx]) ↔
      serial ∈ spentSerials env done := by
    intro serial
    rw [mem_spentSerials_snoc, joinSplitSerials_of_not h]
    simp
  constructor
  · refine hc.indexed.congr_keep ?_
    intro serial k _
    rw [hmem]
  · intro serial k hs hserial
    exact hc.conflicts serial k hs ((hmem serial).mp hserial)

variable [DecidableEq F] [DecidableEq G]

theorem Cleaned.removeRecursive {env : Externals F G} (hc : Cleaned env vtx done pool)
    {hash : Uint256} (huntyped : ∀ tx, pool.mapTx[hash]? = some tx → tx.isLelantusJoinSplit = true →
      hasTypedBranch tx = false) : Cleaned env vtx done (removeRecursive env pool hash) :=
  ⟨hc.indexed.removeRecursive huntyped,
    fun serial h hs hserial => hc.conflicts serial h (hs.mono subPool_removeRecursive) hserial⟩

theorem subPool_removeConflictingJoinSplit (tx : CTransaction) :
    SubPool (removeConflictingJoinSplit env pool tx) pool := by
  unfold removeConflictingJoinSplit
  intro h entry hentry
  dsimp only at hentry
  split at hentry
  · exact subPool_removeRecursive h entry hentry
  · exact hentry

/-- **One joinsplit of the block.**  The entry its first known serial is filed under is
the only one it conflicts with, so after its removal no conflict is left. -/
theorem Cleaned.joinSplit (hc : Cleaned env.toExternals vtx done pool) (hmem : tx ∈ vtx)
    (hone : OneConflict env.toExternals pool tx)
    (huntyped : ConflictsUntyped env.toExternals pool tx) :
    Cleaned env.toExternals vtx (done ++ [tx]) (removeConflictingJoinSplit env pool tx) := by
  let serials := joinSplitSerials env.toExternals tx
  let c := firstConflict pool serials
  let pool₁ := if c ≠ 0 ∧ c ≠ tx.hash then Mempool.removeRecursive env.toExternals pool c else pool
  -- a hash that is found belongs to an entry that spends one of the serials
  have hfound : c ≠ 0 → ∃ serial ∈ serials, Spends env.toExternals pool c serial := by
    intro hne
    obtain ⟨serial, hserial, hfiled⟩ := firstConflict_spec hne
    exact ⟨serial, hserial, ((hc.indexed.serials serial c).mp hfiled).2⟩
  have hcleaned : Cleaned env.toExternals vtx done pool₁ := by
    show Cleaned env.toExternals vtx done
      (if c ≠ 0 ∧ c ≠ tx.hash then Mempool.removeRecursive env.toExternals pool c else pool)
    split
    · next hrem =>
      refine hc.removeRecursive ?_
      intro entry hentry hjs
      obtain ⟨serial, hserial, entry', hentry', -, hmem'⟩ := hfound hrem.1
      rw [hentry] at hentry'
      cases hentry'
      exact huntyped c entry hrem.2 hentry hjs ⟨serial, hmem', hserial⟩
    · exact hc
  have hgone : ∀ serial h, Spends env.toExternals pool₁ h serial → serial ∈ serials →
      h ∈ vtx.map (·.hash) := by
    intro serial h hs hserial
    have hsub : SubPool (removeConflictingJoinSplit env pool tx) pool :=
      subPool_removeConflictingJoinSplit tx
    by_cases hdone : serial ∈ spentSerials env.toExternals done
    · exact hcleaned.conflicts serial h hs hdone
    · -- the serial is still filed, so the loop found a hash, and it is this one
      have hpool : Spends env.toExternals pool h serial := by
        obtain ⟨entry, hentry, hjs, hspent⟩ := hs
        exact ⟨entry, hsub h entry hentry, hjs, hspent⟩
      have hfiled := (hc.indexed.serials serial h).mpr ⟨hdone, hpool⟩
      have hh : h ≠ 0 := by
        rintro rfl
        exact hc.indexed.linked.nonnull hpool.mem
      have hne : c ≠ 0 := firstConflict_ne_zero hserial hfiled hh
      obtain ⟨serial', hserial', hs'⟩ := hfound hne
      have heq : h = c := hone serial hserial serial' hserial' h c hpool hs'
      by_cases hown : c = tx.hash
      · rw [heq, hown]
        exact mem_map.mpr ⟨tx, hmem, rfl⟩
      · have hout : c ∉ pool₁.mapTx := by
          show c ∉ (if c ≠ 0 ∧ c ≠ tx.hash then
            Mempool.removeRecursive env.toExternals pool c else pool).mapTx
          rw [if_pos ⟨hne, hown⟩]
          exact not_mem_removeRecursive hc.indexed.linked
        exact absurd (heq ▸ hs.mem) hout
  constructor
  · refine (hcleaned.indexed.removeSpends serials).congr_keep ?_
    intro serial h _
    rw [mem_spentSerials_snoc, not_or]
  · intro serial h hs hserial
    rcases mem_spentSerials_snoc.mp hserial with hdone | hnew
    · exact hcleaned.conflicts serial h hs hdone
    · exact hgone serial h hs hnew

end JoinSplit

/-! ## §3. The other transactions and the outputs. -/

variable {env : PoolExternals F G} {st : PoolState F G} {vtx done : List CTransaction}

/-- What the loop over the block keeps, for the pool and the Sigma serials. -/
structure Clean (env : Externals F G) (vtx done : List CTransaction) (st₀ st : PoolState F G) :
    Prop where
  cleaned : Cleaned env vtx done st.mempool
  sigma : SigmaFiled st
  sub : SubPool st.mempool st₀.mempool

theorem SigmaFiled.mono {st' : PoolState F G} (h : SigmaFiled st)
    (hsub : SubPool st'.mempool st.mempool)
    (hserials : ∀ serial hash, st'.sigmaSerials serial = some hash →
      st.sigmaSerials serial = some hash) : SigmaFiled st' :=
  fun serial hash tx hs htx => h serial hash tx (hserials serial hash hs) (hsub hash tx htx)

variable [DecidableEq F] [DecidableEq G] {st₀ : PoolState F G}
  (h : Clean env.toExternals vtx done st₀ st)
include h

theorem Clean.sigmaInput (tx : CTransaction) (txin : CTxIn) :
    Clean env.toExternals vtx done st₀ (removeConflictingSpend env tx st txin) := by
  let c := (st.sigmaSerials (env.getSigmaSpendSerialNumber tx txin)).getD 0
  have hsub : SubPool (removeConflictingSpend env tx st txin).mempool st.mempool := by
    unfold removeConflictingSpend
    dsimp only
    split
    · exact subPool_removeRecursive
    · exact SubPool.refl _
  constructor
  · show Cleaned env.toExternals vtx done (if c ≠ 0 ∧ c ≠ tx.hash then
      removeRecursive env.toExternals st.mempool c else st.mempool)
    split
    · next hrem =>
      refine h.cleaned.removeRecursive ?_
      intro entry hentry hjs
      cases hs : st.sigmaSerials (env.getSigmaSpendSerialNumber tx txin) with
      | none => exact absurd (show c = 0 by simp [c, hs]) hrem.1
      | some hash =>
        have hc : c = hash := by simp [c, hs]
        rw [h.sigma _ hash entry hs (hc ▸ hentry)] at hjs
        cases hjs
    · exact h.cleaned
  · refine h.sigma.mono hsub ?_
    intro serial hash hs
    by_cases heq : serial = env.getSigmaSpendSerialNumber tx txin
    · subst heq
      simp [removeConflictingSpend] at hs
    · simpa [removeConflictingSpend, Function.update_of_ne heq] using hs
  · exact hsub.trans h.sub

theorem Clean.sigmaInputs (tx : CTransaction) (vin : List CTxIn) :
    Clean env.toExternals vtx done st₀ (vin.foldl (removeConflictingSpend env tx) st) := by
  induction vin generalizing st with
  | nil => exact h
  | cons txin vin ih => exact ih (h.sigmaInput tx txin)

omit [DecidableEq F] in
theorem Clean.outputs (vout : List CTxOut) :
    Clean env.toExternals vtx done st₀ (vout.foldl (removeMinedMint env) st) := by
  induction vout generalizing st with
  | nil => exact h
  | cons txout vout ih =>
    refine ih ?_
    have hindexed := h.cleaned.indexed
    unfold removeMinedMint
    dsimp only
    split <;> split <;>
      exact ⟨⟨⟨⟨hindexed.linked.nonnull, hindexed.linked.child_mem,
        hindexed.linked.child_plain⟩, hindexed.unique, hindexed.serials⟩, h.cleaned.conflicts⟩,
        h.sigma, h.sub⟩

theorem Clean.transaction (hmem : tx ∈ vtx)
    (hblock : ConflictsOnce env.toExternals st₀.mempool vtx) :
    Clean env.toExternals vtx (done ++ [tx]) st₀ (removeConflictingWith env st tx) := by
  unfold removeConflictingWith
  dsimp only
  refine Clean.outputs ?_ tx.vout
  by_cases hjs : tx.isLelantusJoinSplit = true
  · have hsigma := not_isSigmaSpend_of_joinSplit hjs (hblock.shape tx hmem hjs)
    rw [if_neg (by rw [hsigma]; simp), if_pos hjs]
    have hsub : SubPool (removeConflictingJoinSplit env st.mempool tx) st.mempool :=
      subPool_removeConflictingJoinSplit tx
    refine ⟨?_, ?_, hsub.trans h.sub⟩
    · exact h.cleaned.joinSplit hmem ((hblock.one tx hmem).mono h.sub)
        ((hblock.untyped tx hmem).mono h.sub)
    · exact h.sigma.mono hsub fun _ _ hs => hs
  · have hno : tx.isLelantusJoinSplit = false := by simpa using hjs
    split
    · have hin := h.sigmaInputs tx tx.vin
      exact ⟨hin.cleaned.snoc_of_not hno, hin.sigma, hin.sub⟩
    · exact ⟨h.cleaned.snoc_of_not hno, h.sigma, h.sub⟩

omit h

theorem Clean.block (left : List CTransaction) (h : Clean env.toExternals vtx done st₀ st)
    (hleft : ∀ tx ∈ left, tx ∈ vtx) (hblock : ConflictsOnce env.toExternals st₀.mempool vtx) :
    Clean env.toExternals vtx (done ++ left) st₀ (left.foldl (removeConflictingWith env) st) := by
  induction left generalizing st done with
  | nil => simpa using h
  | cons tx left ih =>
    have hstep := h.transaction (hleft tx mem_cons_self) hblock
    have hrest := ih hstep fun tx' htx' => hleft tx' (mem_cons_of_mem tx htx')
    rwa [append_assoc, singleton_append] at hrest

/-- **The pool after `RemoveConflictingPrivacyTransactionsFromMempool`.** -/
theorem clean_removeConflicting (hfiled : Filed env.toExternals st)
    (hblock : ConflictsOnce env.toExternals st.mempool vtx) :
    Clean env.toExternals vtx vtx st
      (removeConflictingPrivacyTransactionsFromMempool env st vtx) := by
  have hstart : Clean env.toExternals vtx [] st st := by
    refine ⟨⟨?_, ?_⟩, hfiled.sigma, SubPool.refl _⟩
    · refine hfiled.indexed.congr_keep ?_
      intro serial h _
      simp [spentSerials]
    · intro serial h _ hserial
      simp [spentSerials] at hserial
  exact hstart.block vtx (fun _ htx => htx) hblock

end Zcoin.Mempool
