/-
  Zcoin.Mempool.Runs — the pool over whole runs.

  A run accepts transactions, evicts entries, connects blocks and takes transactions of
  disconnected blocks back in.  A joinsplit that conflicts with two entries leaves the second
  one in the pool, and a mined joinsplit is still in the pool without its serials
  (`joinsplit_left_behind`).

  MAIN RESULTS: `Reachable.filed`, `conflicting_joinsplits_removed`.
-/
import Zcoin.Mempool.Conflicts
import Zcoin.Lelantus.DoubleSpend

namespace Zcoin.Mempool

open Std Std.ExtTreeMap List
open Chain Lib Lelantus

variable {F G : Type} [DecidableEq F] [DecidableEq G]

/-! ## §1. A new entry. -/

section Entry

variable {env : PoolExternals F G} {st : PoolState F G} {pool : CTxMemPool F G}
  {tx : CTransaction} {keep : F → Uint256 → Prop}

section

omit [DecidableEq F] [DecidableEq G]

theorem getElem?_addUnchecked (htx : tx.hash ∉ pool.mapTx) (k : Uint256) :
    (addUnchecked pool tx).mapTx[k]? = if k = tx.hash then some tx else pool.mapTx[k]? := by
  show (pool.mapTx.insertIfNew tx.hash tx)[k]? = _
  rw [OrderedMap.getElem?_insertIfNew]
  simp only [htx, not_false_eq_true, and_true]

/-- What `addUnchecked` adds to the entries that spend a serial. -/
theorem spends_addUnchecked (env : Externals F G) (htx : tx.hash ∉ pool.mapTx) (h : Uint256)
    (serial : F) :
    Spends env (addUnchecked pool tx) h serial ↔
      Spends env pool h serial ∨
        (h = tx.hash ∧ tx.isLelantusJoinSplit = true ∧ serial ∈ joinSplitSerials env tx) := by
  unfold Spends
  simp only [getElem?_addUnchecked htx]
  by_cases hh : h = tx.hash
  · subst hh
    have hnone : pool.mapTx[tx.hash]? = none := getElem?_eq_none htx
    simp [hnone]
  · simp [hh]

theorem mem_mapLinks_addUnchecked {p c : Uint256} (hc : c ∈ (addUnchecked pool tx).mapLinks p) :
    c ∈ pool.mapLinks p ∨ (c = tx.hash ∧ tx.isLelantusJoinSplit = false) := by
  unfold addUnchecked at hc
  dsimp only at hc
  split at hc
  · simp at hc
  · split at hc
    · next hparent =>
      rcases mem_cons.mp hc with heq | hlink
      · refine .inr ⟨heq, ?_⟩
        unfold parentsInPool isPrivacySpend at hparent
        cases hjs : tx.isLelantusJoinSplit with
        | false => rfl
        | true => simp [hjs] at hparent
      · exact .inl hlink
    · exact .inl hc

theorem Linked.addUnchecked (hl : Linked pool) (hnull : tx.hash ≠ 0) (htx : tx.hash ∉ pool.mapTx) :
    Linked (addUnchecked pool tx) := by
  have hget := getElem?_addUnchecked htx
  have hold : ∀ c : Uint256, c ∈ pool.mapTx →
      (Mempool.addUnchecked pool tx).mapTx[c]? = pool.mapTx[c]? := by
    intro c hc
    rw [hget, if_neg]
    rintro rfl
    exact htx hc
  constructor
  · rw [mem_iff_isSome_getElem?, hget, if_neg (Ne.symm hnull),
      ← mem_iff_isSome_getElem?]
    exact hl.nonnull
  · intro p c hc
    rw [mem_iff_isSome_getElem?]
    rcases mem_mapLinks_addUnchecked hc with hlink | ⟨rfl, -⟩
    · have hmem := hl.child_mem p c hlink
      rw [hold c hmem]
      exact mem_iff_isSome_getElem?.mp hmem
    · rw [hget, if_pos rfl]
      rfl
  · intro p c entry hc hentry
    rcases mem_mapLinks_addUnchecked hc with hlink | ⟨rfl, hno⟩
    · rw [hold c (hl.child_mem p c hlink)] at hentry
      exact hl.child_plain p c entry hlink hentry
    · rw [hget, if_pos rfl] at hentry
      cases hentry
      exact hno

/-- A transaction whose serials no entry spends is entered; they are not filed yet. -/
theorem Indexed.addUnchecked {env : Externals F G} (hi : Indexed env pool fun _ _ => True)
    (hnull : tx.hash ≠ 0) (htx : tx.hash ∉ pool.mapTx) (hfresh : ∀ serial ∈ joinSplitSerials env tx,
      pool.lelantusState.mempoolCoinSerials serial = none) :
    Indexed env (addUnchecked pool tx) fun _ h => h ≠ tx.hash := by
  have hspends := spends_addUnchecked env htx
  have hnew : ∀ serial ∈ joinSplitSerials env tx, ∀ h, ¬ Spends env pool h serial := by
    intro serial hserial h hs
    have hfiled := (hi.serials serial h).mpr ⟨trivial, hs⟩
    rw [hfresh serial hserial] at hfiled
    cases hfiled
  constructor
  · exact hi.linked.addUnchecked hnull htx
  · intro serial h h' hs hs'
    rcases (hspends h serial).mp hs with hs | ⟨rfl, -, hserial⟩ <;>
      rcases (hspends h' serial).mp hs' with hs' | ⟨rfl, -, hserial'⟩
    · exact hi.unique serial h h' hs hs'
    · exact absurd hs (hnew serial hserial' h)
    · exact absurd hs' (hnew serial hserial h')
    · rfl
  · intro serial h
    show pool.lelantusState.mempoolCoinSerials serial = some h ↔ _
    rw [hi.serials, hspends]
    constructor
    · rintro ⟨-, hs⟩
      refine ⟨?_, .inl hs⟩
      rintro rfl
      exact htx hs.mem
    · rintro ⟨hh, hs | ⟨rfl, -⟩⟩
      · exact ⟨trivial, hs⟩
      · exact absurd rfl hh

theorem Untyped.addUnchecked (hu : Untyped pool) (htx : tx.hash ∉ pool.mapTx)
    (htyped : tx.isLelantusJoinSplit = true → hasTypedBranch tx = false) :
    Untyped (addUnchecked pool tx) := by
  intro k entry hentry hjs
  rw [getElem?_addUnchecked htx] at hentry
  split at hentry
  · cases hentry
    exact htyped hjs
  · exact hu k entry hentry hjs

end

end Entry

/-! ## §2. Acceptance. -/

section Accept

variable {env : PoolExternals F G} {st : PoolState F G} {tx : CTransaction}
  {usedLelantus usedSigma : F → Bool} {hasCoin : G → Bool} {choices : AcceptChoices}

omit [DecidableEq F] [DecidableEq G] in
theorem freshSerials_spec {serials : List F}
    (h : freshSerials env usedLelantus usedSigma st tx = some serials) :
    serials = joinSplitSerials env.toExternals tx ∧
      ∀ serial ∈ serials, st.mempool.lelantusState.mempoolCoinSerials serial = none := by
  unfold freshSerials at h
  split at h
  · cases hhead : tx.vin.head? with
    | none =>
      rw [hhead] at h
      cases h
    | some txin =>
      rw [hhead] at h
      obtain ⟨hparse, hall⟩ := Option.filter_eq_some_iff.mp h
      refine ⟨?_, ?_⟩
      · unfold joinSplitSerials
        rw [hhead]
        show serials = ((getLelantusJoinSplitSerialNumbers env.toExternals tx txin).toOption).getD []
        rw [hparse]
        rfl
      · intro serial hserial
        have := all_eq_true.mp hall serial hserial
        simp only [Bool.and_eq_true, Bool.not_eq_true'] at this
        have hno : st.mempool.lelantusState.hasCoinSerial serial = false := this.1.1.2
        unfold CLelantusMempoolState.hasCoinSerial at hno
        simpa using hno
  · cases h

/-- What `acceptToMemoryPool` can do: nothing, or store the entry and file its serials
if it is still there. -/
theorem acceptToMemoryPool_cases {st' : PoolState F G}
    (h : acceptToMemoryPool env usedLelantus usedSigma hasCoin st tx choices = st') :
    st' = st ∨ ∃ mints : List G,
      (∀ serial ∈ joinSplitSerials env.toExternals tx,
        st.mempool.lelantusState.mempoolCoinSerials serial = none) ∧
      tx.hash ∉ st.mempool.mapTx ∧
      (tx.hash ∉ (storeEntry env st.mempool tx choices).mapTx ∧
          st' = { st with mempool := storeEntry env st.mempool tx choices } ∨
        (choices.fOverrideMempoolLimit = true ∨
            tx.hash ∈ (storeEntry env st.mempool tx choices).mapTx) ∧
          st' = { st with
            mempool := markSpendsAndMints (storeEntry env st.mempool tx choices) tx.hash
              (joinSplitSerials env.toExternals tx) mints }) := by
  subst h
  unfold acceptToMemoryPool
  split
  · exact .inl rfl
  · split
    · next serials mints hserials hmints =>
      split
      · exact .inl rfl
      · next hguard =>
        have hmem : tx.hash ∉ st.mempool.mapTx := fun hmem => hguard (.inr hmem)
        obtain ⟨rfl, hfresh⟩ : serials = joinSplitSerials env.toExternals tx ∧
            ∀ serial ∈ serials, st.mempool.lelantusState.mempoolCoinSerials serial = none := by
          split at hserials
          · exact freshSerials_spec hserials
          · next hjs =>
            cases hserials
            exact ⟨(joinSplitSerials_of_not (by simpa using hjs)).symm, by simp⟩
        refine .inr ⟨mints, hfresh, hmem, ?_⟩
        dsimp only
        split
        · next hout => exact .inl ⟨hout.2, rfl⟩
        · next hin =>
          refine .inr ⟨?_, rfl⟩
          by_contra hcon
          push Not at hcon
          exact hin ⟨by simpa using hcon.1, hcon.2⟩
    · exact .inl rfl

/-- A pool that comes from the one with the new entry by evictions; the serials of the
new entry are not filed yet. -/
structure Stored (env : Externals F G) (tx : CTransaction) (pool₀ pool : CTxMemPool F G) :
    Prop where
  indexed : Indexed env pool fun _ h => h ≠ tx.hash
  sub : SubPool pool (addUnchecked pool₀ tx)
  untyped : Untyped pool

theorem Stored.evict {pool₀ pool : CTxMemPool F G} (h : Stored env.toExternals tx pool₀ pool)
    (hashes : List Uint256) : Stored env.toExternals tx pool₀ (evict env pool hashes) :=
  ⟨h.indexed.evict h.untyped hashes, (subPool_evict hashes).trans h.sub,
    h.untyped.mono (subPool_evict hashes)⟩

theorem stored_storeEntry (hi : Indexed env.toExternals st.mempool fun _ _ => True)
    (hu : Untyped st.mempool) (hnull : tx.hash ≠ 0) (htx : tx.hash ∉ st.mempool.mapTx)
    (hfresh : ∀ serial ∈ joinSplitSerials env.toExternals tx,
      st.mempool.lelantusState.mempoolCoinSerials serial = none)
    (htyped : tx.isLelantusJoinSplit = true → hasTypedBranch tx = false) :
    Stored env.toExternals tx (evict env st.mempool choices.replaced)
      (storeEntry env st.mempool tx choices) := by
  let pool₁ := evict env st.mempool choices.replaced
  have hsub₁ : SubPool pool₁ st.mempool := subPool_evict choices.replaced
  have hi₁ : Indexed env.toExternals pool₁ fun _ _ => True := hi.evict hu choices.replaced
  have htx₁ : tx.hash ∉ pool₁.mapTx := not_mem_of_subPool hsub₁ htx
  -- evictions file nothing new
  have hfresh₁ : ∀ serial ∈ joinSplitSerials env.toExternals tx,
      pool₁.lelantusState.mempoolCoinSerials serial = none := by
    intro serial hserial
    cases hfiled : pool₁.lelantusState.mempoolCoinSerials serial with
    | none => rfl
    | some h =>
      have hs := ((hi₁.serials serial h).mp hfiled).2.mono hsub₁
      have := (hi.serials serial h).mpr ⟨trivial, hs⟩
      rw [hfresh serial hserial] at this
      cases this
  have hstored : Stored env.toExternals tx pool₁ (addUnchecked pool₁ tx) :=
    ⟨hi₁.addUnchecked hnull htx₁ hfresh₁, SubPool.refl _,
      (hu.mono hsub₁).addUnchecked htx₁ htyped⟩
  unfold storeEntry
  dsimp only
  split <;> split
  · exact hstored.evict _
  · exact hstored
  · exact (hstored.evict _).evict _
  · exact hstored.evict _

theorem mem_storeEntry (hoverride : choices.fOverrideMempoolLimit = true)
    (hspork : tx.nType ≠ .spork) (htx : tx.hash ∉ st.mempool.mapTx) :
    tx.hash ∈ (storeEntry env st.mempool tx choices).mapTx := by
  unfold storeEntry
  dsimp only
  rw [if_pos hoverride, if_neg hspork, mem_iff_isSome_getElem?,
    getElem?_addUnchecked (not_mem_of_subPool (subPool_evict choices.replaced) htx), if_pos rfl]
  rfl

variable {env : Externals F G}

omit [DecidableEq F] [DecidableEq G] in
theorem Stored.getElem?_hash {pool₀ pool : CTxMemPool F G}
    (h : Stored env tx pool₀ pool) (htx : tx.hash ∉ pool₀.mapTx) (hmem : tx.hash ∈ pool.mapTx) :
    pool.mapTx[tx.hash]? = some tx := by
  obtain ⟨entry, hentry⟩ := OrderedMap.mem_iff_exists.mp hmem
  have hadded := h.sub tx.hash entry hentry
  rw [getElem?_addUnchecked htx, if_pos rfl] at hadded
  rw [hentry, hadded]

theorem Stored.file {pool₀ pool : CTxMemPool F G}
    (h : Stored env tx pool₀ pool) (htx : tx.hash ∉ pool₀.mapTx)
    (hmem : tx.isLelantusJoinSplit = true → tx.hash ∈ pool.mapTx) (mints : List G) :
    Indexed env (markSpendsAndMints pool tx.hash (joinSplitSerials env tx) mints)
      fun _ _ => True := by
  have hown : ∀ serial ∈ joinSplitSerials env tx, Spends env pool tx.hash serial := by
    intro serial hserial
    cases hjs : tx.isLelantusJoinSplit with
    | false =>
      rw [joinSplitSerials_of_not hjs] at hserial
      cases hserial
    | true => exact ⟨tx, h.getElem?_hash htx (hmem hjs), hjs, hserial⟩
  have hfresh : ∀ serial ∈ joinSplitSerials env tx,
      pool.lelantusState.mempoolCoinSerials serial = none := by
    intro serial hserial
    refine Option.eq_none_iff_forall_ne_some.mpr fun k hfiled => ?_
    obtain ⟨hne, hs⟩ := (h.indexed.serials serial k).mp hfiled
    exact hne (h.indexed.unique serial k tx.hash hs (hown serial hserial))
  constructor
  · exact ⟨h.indexed.linked.nonnull, h.indexed.linked.child_mem, h.indexed.linked.child_plain⟩
  · exact h.indexed.unique
  · intro serial k
    show (mints.foldl CLelantusMempoolState.addMintToMempool
      ((joinSplitSerials env tx).foldl (CLelantusMempoolState.addSpendToMempool tx.hash)
        pool.lelantusState)).mempoolCoinSerials serial = some k ↔ True ∧ Spends env pool k serial
    rw [mempoolCoinSerials_addMints, mempoolCoinSerials_addSpends, Option.or_eq_some_iff,
      h.indexed.serials, true_and]
    constructor
    · rintro (⟨-, hs⟩ | ⟨-, hnew⟩)
      · exact hs
      · obtain ⟨hserial, ⟨⟩⟩ := Option.ite_none_right_eq_some.mp hnew
        exact hown serial hserial
    · intro hs
      by_cases hk : k = tx.hash
      · subst hk
        obtain ⟨entry, hentry, -, hserial⟩ := id hs
        rw [h.getElem?_hash htx hs.mem] at hentry
        cases hentry
        exact .inr ⟨hfresh serial hserial, if_pos hserial⟩
      · exact .inl ⟨hk, hs⟩

end Accept

/-! ## §3. Runs. -/

section Runs

/-- A run of the pool, from before the first joinsplit.  Blocks conflict with at most one
entry per joinsplit; a joinsplit that is accepted is no provider or spork transaction.
Txids are not null, and a joinsplit does not have the txid of a Sigma spend. -/
inductive Reachable (env : PoolExternals F G) : PoolState F G → Prop where
  | start {st : PoolState F G} (hlinked : Linked st.mempool)
      (hempty : ∀ serial, st.mempool.lelantusState.mempoolCoinSerials serial = none)
      (hplain : ∀ (h : Uint256) tx, st.mempool.mapTx[h]? = some tx →
        tx.isLelantusJoinSplit = false) : Reachable env st
  | accept {st : PoolState F G} (usedLelantus usedSigma : F → Bool) (hasCoin : G → Bool)
      (tx : CTransaction) (choices : AcceptChoices) (hst : Reachable env st) (hnull : tx.hash ≠ 0)
      (htyped : tx.isLelantusJoinSplit = true → hasTypedBranch tx = false)
      (hid : tx.isLelantusJoinSplit = true → ∀ serial, st.sigmaSerials serial ≠ some tx.hash) :
      Reachable env (acceptToMemoryPool env usedLelantus usedSigma hasCoin st tx choices)
  | evict {st : PoolState F G} (hashes : List Uint256) (hst : Reachable env st) :
      Reachable env { st with mempool := evict env st.mempool hashes }
  | connect {st : PoolState F G} (vtx : List CTransaction)
      (conflicts : CTransaction → List Uint256) (hst : Reachable env st)
      (hblock : ConflictsOnce env.toExternals st.mempool vtx) :
      Reachable env
        { removeConflictingPrivacyTransactionsFromMempool env st vtx with
          mempool := removeForBlock env conflicts
            (removeConflictingPrivacyTransactionsFromMempool env st vtx).mempool vtx }
  | resurrect {st : PoolState F G} (vHashesToUpdate : List Uint256) (hst : Reachable env st) :
      Reachable env { st with mempool := updateTransactionsFromBlock st.mempool vHashesToUpdate }

/-- What a run keeps. -/
structure RunInv (env : Externals F G) (st : PoolState F G) : Prop extends Filed env st where
  untyped : Untyped st.mempool

variable {env : PoolExternals F G} {st : PoolState F G}

theorem RunInv.evict (h : RunInv env.toExternals st) (hashes : List Uint256) :
    RunInv env.toExternals { st with mempool := evict env st.mempool hashes } :=
  ⟨⟨h.indexed.evict h.untyped hashes, h.sigma.mono (subPool_evict hashes) fun _ _ hs => hs⟩,
    h.untyped.mono (subPool_evict hashes)⟩

theorem RunInv.accept (h : RunInv env.toExternals st) (usedLelantus usedSigma : F → Bool)
    (hasCoin : G → Bool) (tx : CTransaction) (choices : AcceptChoices) (hnull : tx.hash ≠ 0)
    (htyped : tx.isLelantusJoinSplit = true → hasTypedBranch tx = false)
    (hid : tx.isLelantusJoinSplit = true → ∀ serial, st.sigmaSerials serial ≠ some tx.hash) :
    RunInv env.toExternals
      (acceptToMemoryPool env usedLelantus usedSigma hasCoin st tx choices) := by
  generalize haccept : acceptToMemoryPool env usedLelantus usedSigma hasCoin st tx choices = st'
  rcases acceptToMemoryPool_cases haccept with rfl | ⟨mints, hfresh, htx, hcases⟩
  · exact h
  · have hstored : Stored env.toExternals tx (Mempool.evict env st.mempool choices.replaced)
        (storeEntry env st.mempool tx choices) :=
      stored_storeEntry h.indexed h.untyped hnull htx hfresh htyped
    have htx₁ : tx.hash ∉ (Mempool.evict env st.mempool choices.replaced).mapTx :=
      not_mem_of_subPool (subPool_evict choices.replaced) htx
    -- an entry of the new pool is the transaction or an old one
    have hsigma : ∀ serial k entry, st.sigmaSerials serial = some k →
        (storeEntry env st.mempool tx choices).mapTx[k]? = some entry →
        entry.isLelantusJoinSplit = false := by
      intro serial k entry hs hentry
      have hadded := hstored.sub k entry hentry
      rw [getElem?_addUnchecked htx₁] at hadded
      split at hadded
      · next hk =>
        cases hadded
        cases hjs : tx.isLelantusJoinSplit with
        | false => rfl
        | true => exact absurd (hk ▸ hs) (hid hjs serial)
      · exact h.sigma serial k entry hs (subPool_evict choices.replaced k entry hadded)
    rcases hcases with ⟨hout, rfl⟩ | ⟨hin, rfl⟩
    · refine ⟨⟨hstored.indexed.congr_keep ?_, hsigma⟩, hstored.untyped⟩
      intro serial k hs
      refine iff_of_true ?_ trivial
      rintro rfl
      exact hout hs.mem
    · refine ⟨⟨hstored.file htx₁ ?_ mints, hsigma⟩, hstored.untyped⟩
      intro hjs
      rcases hin with hoverride | hmem
      · refine mem_storeEntry hoverride ?_ htx
        intro hspork
        have := htyped hjs
        simp [hasTypedBranch, hspork] at this
      · exact hmem

/-- `removeForBlock` takes the transactions of the block out and keeps the index. -/
theorem indexed_removeForBlock {keep : F → Uint256 → Prop}
    (conflicts : CTransaction → List Uint256) (vtx : List CTransaction) {pool : CTxMemPool F G}
    (hi : Indexed env.toExternals pool keep) (hu : Untyped pool) :
    Indexed env.toExternals (removeForBlock env conflicts pool vtx) keep ∧
      SubPool (removeForBlock env conflicts pool vtx) pool ∧
      ∀ tx ∈ vtx, tx.hash ∉ (removeForBlock env conflicts pool vtx).mapTx := by
  unfold removeForBlock
  induction vtx generalizing pool with
  | nil => exact ⟨hi, SubPool.refl _, by simp⟩
  | cons tx vtx ih =>
    -- the transaction itself is taken out, then what conflicts with it
    have hone : ∀ pool₁, (if tx.hash ∈ pool.mapTx then
          removeStaged env.toExternals pool [tx.hash] else pool) = pool₁ →
        SubPool pool₁ pool ∧ Indexed env.toExternals pool₁ keep ∧ tx.hash ∉ pool₁.mapTx := by
      rintro _ rfl
      split
      · refine ⟨subPool_removeStaged _, hi.removeStaged mem_cons_self
          (fun k hk => .inl (mem_singleton.mp hk)) (hu tx.hash), ?_⟩
        rw [mem_iff_isSome_getElem?]
        unfold removeStaged
        rw [getElem?_removeAll, if_pos mem_cons_self]
        simp
      · next hmem => exact ⟨SubPool.refl _, hi, hmem⟩
    obtain ⟨hsub₁, hi₁, hout₁⟩ := hone _ rfl
    have hu₁ := hu.mono hsub₁
    obtain ⟨hi₂, hsub, hout⟩ := ih (hi₁.evict hu₁ _) (hu₁.mono (subPool_evict (conflicts tx)))
    replace hsub := hsub.trans (subPool_evict _)
    exact ⟨hi₂, hsub.trans hsub₁, forall_mem_cons.mpr ⟨not_mem_of_subPool hsub hout₁, hout⟩⟩

/-- A connected block: what it spent is no longer filed, and the entries that spent it
are gone with the block's own transactions. -/
theorem RunInv.connect (h : RunInv env.toExternals st) (vtx : List CTransaction)
    (conflicts : CTransaction → List Uint256)
    (hblock : ConflictsOnce env.toExternals st.mempool vtx) :
    RunInv env.toExternals
      { removeConflictingPrivacyTransactionsFromMempool env st vtx with
        mempool := removeForBlock env conflicts
          (removeConflictingPrivacyTransactionsFromMempool env st vtx).mempool vtx } := by
  have hclean := clean_removeConflicting h.toFiled hblock
  obtain ⟨hi, hsub, hout⟩ := indexed_removeForBlock conflicts vtx hclean.cleaned.indexed
    (h.untyped.mono hclean.sub)
  refine ⟨⟨hi.congr_keep ?_, hclean.sigma.mono hsub fun _ _ hs => hs⟩,
    h.untyped.mono (hsub.trans hclean.sub)⟩
  intro serial k hs
  refine iff_of_true ?_ trivial
  intro hserial
  obtain ⟨tx, htx, rfl⟩ :=
    mem_map.mp (hclean.cleaned.conflicts serial k (hs.mono hsub) hserial)
  exact hout tx htx hs.mem

omit [DecidableEq F] [DecidableEq G] in
theorem RunInv.resurrect (h : RunInv env.toExternals st) (vHashesToUpdate : List Uint256) :
    RunInv env.toExternals
      { st with mempool := updateTransactionsFromBlock st.mempool vHashesToUpdate } := by
  have hlink : ∀ p c, c ∈ (updateTransactionsFromBlock st.mempool vHashesToUpdate).mapLinks p →
      c ∈ st.mempool.mapLinks p ∨ ∃ entry, st.mempool.mapTx[c]? = some entry ∧
        entry.isLelantusJoinSplit = false := by
    intro p c hc
    unfold updateTransactionsFromBlock at hc
    dsimp only at hc
    split at hc
    · rcases mem_union_iff.mp hc with hnew | hold
      · obtain ⟨⟨k, entry⟩, hentry, rfl⟩ := mem_map.mp hnew
        obtain ⟨hmem, hplain⟩ := mem_filter.mp hentry
        refine .inr ⟨entry, mem_toList_iff_getElem?_eq_some.mp hmem, ?_⟩
        unfold isPrivacySpend at hplain
        cases hjs : entry.isLelantusJoinSplit with
        | false => rfl
        | true => simp [hjs] at hplain
      · exact .inl hold
    · exact .inl hc
  have hl := h.indexed.linked
  refine ⟨⟨⟨⟨hl.nonnull, ?_, ?_⟩, h.indexed.unique, h.indexed.serials⟩, h.sigma⟩, h.untyped⟩
  · intro p c hc
    rcases hlink p c hc with hold | ⟨entry, hentry, -⟩
    · exact hl.child_mem p c hold
    · show c ∈ st.mempool.mapTx
      exact OrderedMap.mem_iff_exists.mpr ⟨entry, hentry⟩
  · intro p c tx hc htx
    rcases hlink p c hc with hold | ⟨entry, hentry, hno⟩
    · exact hl.child_plain p c tx hold htx
    · have : some entry = some tx := hentry.symm.trans htx
      cases this
      exact hno

theorem Reachable.runInv (h : Reachable env st) : RunInv env.toExternals st := by
  induction h with
  | @start st hlinked hempty hplain =>
    have hno : ∀ k serial, ¬ Spends env.toExternals st.mempool k serial := by
      rintro k serial ⟨tx, htx, hjs, -⟩
      rw [hplain k tx htx] at hjs
      cases hjs
    refine ⟨⟨⟨hlinked, ?_, ?_⟩, ?_⟩, ?_⟩
    · intro serial k k' hs
      exact absurd hs (hno k serial)
    · intro serial k
      rw [hempty]
      simp [hno k serial]
    · intro _ k tx _ htx
      exact hplain k tx htx
    · intro k tx htx hjs
      rw [hplain k tx htx] at hjs
      cases hjs
  | accept usedLelantus usedSigma hasCoin tx choices _ hnull htyped hid ih =>
    exact ih.accept usedLelantus usedSigma hasCoin tx choices hnull htyped hid
  | evict hashes _ ih => exact ih.evict hashes
  | connect vtx conflicts _ hblock ih => exact ih.connect vtx conflicts hblock
  | resurrect vHashesToUpdate _ ih => exact ih.resurrect vHashesToUpdate

/-- **The serial map files exactly the serials of the pool's joinsplits** in every state of
such a run. -/
theorem Reachable.filed (h : Reachable env st) : Filed env.toExternals st := h.runInv.toFiled

/-- **Conflicting joinsplits are gone**, if the serial map files exactly the serials of
the pool's joinsplits and each joinsplit of the block conflicts with at most one entry: no
joinsplit left in the pool, other than the block's own transactions, spends a serial that
the block spends, and the map files exactly the other serials of the joinsplits left. -/
theorem conflicting_joinsplits_removed {vtx : List CTransaction} (hfiled : Filed env.toExternals st)
    (hblock : ConflictsOnce env.toExternals st.mempool vtx) :
    let pool := (removeConflictingPrivacyTransactionsFromMempool env st vtx).mempool
    (∀ serial h, Spends env.toExternals pool h serial →
      serial ∈ spentSerials env.toExternals vtx → h ∈ vtx.map (·.hash)) ∧
    ∀ serial h, pool.lelantusState.mempoolCoinSerials serial = some h ↔
      Spends env.toExternals pool h serial ∧ serial ∉ spentSerials env.toExternals vtx := by
  have hclean := clean_removeConflicting hfiled hblock
  refine ⟨hclean.cleaned.conflicts, ?_⟩
  intro serial h
  rw [hclean.cleaned.indexed.serials]
  exact and_comm

end Runs

/-! ## §4. Concrete pools. -/

def samplePoolExternals : PoolExternals Nat Int where
  toExternals := sampleTxExternals.toExternals
  getSigmaSpendSerialNumber := fun _ _ => 0
  parseSigmaMintScript := fun _ => none
  defaultElement := 0
  isSerial := fun serial => serial ≠ 0

/-- A joinsplit without outputs that spends the given serials. -/
def sampleSpend (hash : Uint256) (serials : List UInt8) : CTransaction :=
  sampleJoinSplit hash (0 :: serials) []

/-- The empty pool after some transactions have been accepted, newest first. -/
def samplePool : List CTransaction → PoolState Nat Int
  | [] => {}
  | tx :: txs =>
    acceptToMemoryPool samplePoolExternals (fun _ => false) (fun _ => false) (fun _ => false)
      (samplePool txs) tx {}

theorem sigmaSerials_samplePool (txs : List CTransaction) (serial : Nat) :
    (samplePool txs).sigmaSerials serial = none := by
  induction txs with
  | nil => rfl
  | cons tx txs ih =>
    generalize haccept : samplePool (tx :: txs) = st'
    rcases acceptToMemoryPool_cases haccept with rfl | ⟨_, _, _, ⟨_, rfl⟩ | ⟨_, rfl⟩⟩
    all_goals exact ih

theorem reachable_samplePool (txs : List CTransaction)
    (h : ∀ tx ∈ txs, tx.hash ≠ 0 ∧ hasTypedBranch tx = false) :
    Reachable samplePoolExternals (samplePool txs) := by
  induction txs with
  | nil =>
    refine .start ⟨?_, ?_, ?_⟩ (fun _ => rfl) ?_
    · exact not_mem_empty
    · intro p c hc
      cases hc
    · intro p c tx hc
      cases hc
    · intro k tx htx
      have hnone : (samplePool []).mempool.mapTx[k]? = none := getElem?_empty
      rw [hnone] at htx
      cases htx
  | cons tx txs ih =>
    obtain ⟨hnull, htyped⟩ := h tx mem_cons_self
    refine .accept _ _ _ tx {} (ih fun tx' htx' => h tx' (mem_cons_of_mem tx htx')) hnull
      (fun _ => htyped) ?_
    intro _ serial
    rw [sigmaSerials_samplePool]
    simp

/-- A block of one pool transaction and of a joinsplit that spends the serial of
another one. -/
theorem conflicting_joinsplits_removed_single :
    let st := samplePool [sampleSpend 2 [8], sampleSpend 1 [7]]
    let vtx := [sampleSpend 1 [7], sampleSpend 4 [8]]
    let env := samplePoolExternals
    Filed env.toExternals st ∧ ConflictsOnce env.toExternals st.mempool vtx ∧
      ¬ Spends env.toExternals
        (removeConflictingPrivacyTransactionsFromMempool env st vtx).mempool 2 8 := by
  intro st vtx env
  have hreach : Reachable env st := reachable_samplePool _ (by decide)
  have hfiled := hreach.filed
  have hblock : ConflictsOnce env.toExternals st.mempool vtx := by
    refine ⟨by decide, ?_, fun _ _ k entry _ hentry hjs _ =>
      hreach.runInv.untyped k entry hentry hjs⟩
    -- each transaction has one serial
    have hsingle : ∀ tx ∈ vtx, ∀ serial ∈ joinSplitSerials env.toExternals tx,
        ∀ serial' ∈ joinSplitSerials env.toExternals tx, serial = serial' := by decide +kernel
    intro tx htx serial hserial serial' hserial' k k' hs hs'
    rw [← hsingle tx htx serial hserial serial' hserial'] at hs'
    exact hfiled.indexed.unique serial k k' hs hs'
  refine ⟨hfiled, hblock, ?_⟩
  intro hs
  have hown := (conflicting_joinsplits_removed hfiled hblock).1 8 2 hs (by decide +kernel)
  exact absurd hown (by decide)

/-- **A joinsplit is left behind.**  The block has the pool transaction `1` and a joinsplit
that spends the serials of the pool transactions `2` and `3`.  Only `2` is removed: `3`
stays and spends serial `9`, which the block has spent.  Transaction `1` is still in the
pool, but its serial is not filed. -/
theorem joinsplit_left_behind :
    let st := samplePool [sampleSpend 3 [9], sampleSpend 2 [8], sampleSpend 1 [7]]
    let vtx := [sampleSpend 1 [7], sampleSpend 4 [8, 9]]
    let env := samplePoolExternals
    let pool := (removeConflictingPrivacyTransactionsFromMempool env st vtx).mempool
    Reachable env st ∧
      (Spends env.toExternals pool 3 9 ∧ 9 ∈ spentSerials env.toExternals vtx ∧
        3 ∉ vtx.map (·.hash)) ∧
      (Spends env.toExternals pool 1 7 ∧ pool.lelantusState.mempoolCoinSerials 7 = none) := by
  intro st vtx env pool
  refine ⟨reachable_samplePool _ (by decide), ⟨?_, by decide +kernel, by decide⟩, ?_,
    by decide +kernel⟩
  · exact ⟨sampleSpend 3 [9], by decide +kernel, by decide, by decide +kernel⟩
  · exact ⟨sampleSpend 1 [7], by decide +kernel, by decide, by decide +kernel⟩

end Zcoin.Mempool
