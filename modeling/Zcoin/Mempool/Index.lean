/-
  Zcoin.Mempool.Index — the serial index of the pool against its entries.

  `Indexed env pool keep` says that the serial map of the pool files a serial under a
  txid exactly when the entry under this txid is a joinsplit that spends it and `keep`
  lets it through.  Removing entries with their descendants, as every eviction does,
  preserves it: a joinsplit has no parents in the pool, so it is never among the
  descendants of another entry.
-/
import Zcoin.Mempool.Pool

namespace Zcoin.Mempool

open List hiding mem_keys
open Std Function Std.ExtTreeMap
open Chain Lib Lelantus

variable {F G : Type} [DecidableEq F] [DecidableEq G]

/-! ## §1. Erasing serials and mints. -/

omit [DecidableEq G] in
theorem mempoolCoinSerials_removeSpends (serials : List F) (s : CLelantusMempoolState F G)
    (serial : F) (h : Uint256) :
    (serials.foldl CLelantusMempoolState.removeSpendFromMempool s).mempoolCoinSerials serial = some h
      ↔ s.mempoolCoinSerials serial = some h ∧ serial ∉ serials := by
  induction serials generalizing s with
  | nil => simp
  | cons a serials ih =>
    rw [foldl_cons, ih, mem_cons, not_or]
    show update s.mempoolCoinSerials a none serial = some h ∧ _ ↔ _
    by_cases ha : serial = a
    · subst ha
      simp
    · rw [update_of_ne ha]
      tauto

section

omit [DecidableEq F]

@[simp] theorem mempoolCoinSerials_removeMints (mints : List G) (s : CLelantusMempoolState F G) :
    (mints.foldl CLelantusMempoolState.removeMintFromMempool s).mempoolCoinSerials =
      s.mempoolCoinSerials := by
  induction mints generalizing s with
  | nil => rfl
  | cons a mints ih => rw [foldl_cons, ih]; rfl

@[simp] theorem mempoolCoinSerials_addMints (mints : List G) (s : CLelantusMempoolState F G) :
    (mints.foldl CLelantusMempoolState.addMintToMempool s).mempoolCoinSerials =
      s.mempoolCoinSerials := by
  induction mints generalizing s with
  | nil => rfl
  | cons a mints ih => rw [foldl_cons, ih]; rfl

end

omit [DecidableEq G] in
/-- A serial that is known stays with its txid, the others are filed under the new one. -/
theorem mempoolCoinSerials_addSpends (txHash : Uint256) (serials : List F)
    (s : CLelantusMempoolState F G) (serial : F) :
    (serials.foldl (CLelantusMempoolState.addSpendToMempool txHash) s).mempoolCoinSerials serial =
      (s.mempoolCoinSerials serial).or (if serial ∈ serials then some txHash else none) := by
  induction serials generalizing s with
  | nil => simp
  | cons a serials ih =>
    rw [foldl_cons, ih]
    unfold CLelantusMempoolState.addSpendToMempool CLelantusMempoolState.hasCoinSerial
    by_cases ha : serial = a
    · subst ha
      cases hs : s.mempoolCoinSerials serial with
      | none => simp
      | some h => simp [hs]
    · split
      · simp [ha]
      · simp [ha, update_of_ne]

/-! ## §2. Removing entries. -/

section Remove

variable {env : Externals F G} {pool : CTxMemPool F G}

/-- Removing the entry erases this serial from the map. -/
def Forgets (env : Externals F G) (tx : CTransaction) (serial : F) : Prop :=
  hasTypedBranch tx = false ∧ tx.isLelantusJoinSplit = true ∧ serial ∈ joinSplitSerials env tx

theorem getElem?_removeUnchecked (it k : Uint256) :
    (removeUnchecked env pool it).mapTx[k]? = if k = it then none else pool.mapTx[k]? := by
  unfold removeUnchecked
  split
  · next hnone =>
    split
    · next hk => rw [hk, hnone]
    · rfl
  · exact OrderedMap.getElem?_erase ..

theorem mem_mapLinks_removeUnchecked {it p c : Uint256}
    (hc : c ∈ (removeUnchecked env pool it).mapLinks p) : c ∈ pool.mapLinks p := by
  unfold removeUnchecked at hc
  split at hc
  · exact hc
  · by_cases hp : p = it
    · subst hp
      simp at hc
    · simpa [update_of_ne hp] using hc

theorem serials_removeUnchecked (it : Uint256) (serial : F) (h : Uint256) :
    (removeUnchecked env pool it).lelantusState.mempoolCoinSerials serial = some h ↔
      pool.lelantusState.mempoolCoinSerials serial = some h ∧
        ∀ tx, pool.mapTx[it]? = some tx → ¬ Forgets env tx serial := by
  unfold removeUnchecked
  cases hit : pool.mapTx[it]? with
  | none => simp
  | some tx =>
    have hiff : (∀ tx', some tx = some tx' → ¬ Forgets env tx' serial) ↔
        ¬ Forgets env tx serial := by simp
    rw [hiff]
    dsimp only
    by_cases htyped : hasTypedBranch tx = true
    · rw [if_pos htyped]
      simp [Forgets, htyped]
    · rw [if_neg htyped]
      by_cases hjs : tx.isLelantusJoinSplit = true
      · have hlel : tx.isLelantusTransaction = true := by
          simp [CTransaction.isLelantusTransaction, hjs]
        rw [if_pos hlel]
        unfold forgetSpendsAndMints
        rw [if_pos hjs, mempoolCoinSerials_removeMints, mempoolCoinSerials_removeSpends]
        simp [Forgets, htyped, hjs]
      · have hnot : ¬ Forgets env tx serial := fun hf => hjs hf.2.1
        split
        · unfold forgetSpendsAndMints
          rw [if_neg hjs, mempoolCoinSerials_removeMints]
          simp [hnot]
        · simp [hnot]

theorem getElem?_removeAll (stage : List Uint256) (k : Uint256) :
    (stage.foldl (removeUnchecked env) pool).mapTx[k]? =
      if k ∈ stage then none else pool.mapTx[k]? := by
  induction stage generalizing pool with
  | nil => simp
  | cons a stage ih =>
    rw [foldl_cons, ih, getElem?_removeUnchecked]
    by_cases hk : k ∈ stage
    · rw [if_pos hk, if_pos (mem_cons_of_mem a hk)]
    · rw [if_neg hk]
      simp only [mem_cons, hk, or_false]

theorem mem_mapLinks_removeAll {stage : List Uint256} {p c : Uint256}
    (hc : c ∈ (stage.foldl (removeUnchecked env) pool).mapLinks p) : c ∈ pool.mapLinks p := by
  induction stage generalizing pool with
  | nil => exact hc
  | cons a stage ih => exact mem_mapLinks_removeUnchecked (ih hc)

theorem serials_removeAll (stage : List Uint256) (serial : F) (h : Uint256) :
    (stage.foldl (removeUnchecked env) pool).lelantusState.mempoolCoinSerials serial = some h ↔
      pool.lelantusState.mempoolCoinSerials serial = some h ∧
        ∀ k ∈ stage, ∀ tx, pool.mapTx[k]? = some tx → ¬ Forgets env tx serial := by
  induction stage generalizing pool with
  | nil => simp
  | cons a stage ih =>
    rw [foldl_cons, ih, serials_removeUnchecked]
    simp only [getElem?_removeUnchecked]
    constructor
    · rintro ⟨⟨hs, ha⟩, hrest⟩
      refine ⟨hs, ?_⟩
      intro k hk tx htx
      by_cases hka : k = a
      · exact ha tx (hka ▸ htx)
      · rcases mem_cons.mp hk with rfl | hk
        · exact absurd rfl hka
        · exact hrest k hk tx (by rw [if_neg hka]; exact htx)
    · rintro ⟨hs, hall⟩
      refine ⟨⟨hs, hall a mem_cons_self⟩, ?_⟩
      intro k hk tx htx
      split at htx
      · cases htx
      · exact hall k (mem_cons_of_mem a hk) tx htx

end Remove

/-! ## §3. The invariant. -/

/-- The entry under `h` is a joinsplit that spends the serial. -/
def Spends (env : Externals F G) (pool : CTxMemPool F G) (h : Uint256) (serial : F) : Prop :=
  ∃ tx, pool.mapTx[h]? = some tx ∧ tx.isLelantusJoinSplit = true ∧ serial ∈ joinSplitSerials env tx

/-- Links lead to entries that are no joinsplits; no txid is null. -/
structure Linked (pool : CTxMemPool F G) : Prop where
  nonnull : (0 : Uint256) ∉ pool.mapTx
  child_mem : ∀ p c, c ∈ pool.mapLinks p → c ∈ pool.mapTx
  child_plain : ∀ p c tx, c ∈ pool.mapLinks p → pool.mapTx[c]? = some tx →
    tx.isLelantusJoinSplit = false

/-- **The serial map against the entries.** -/
structure Indexed (env : Externals F G) (pool : CTxMemPool F G) (keep : F → Uint256 → Prop) :
    Prop where
  linked : Linked pool
  /-- no two entries spend the same serial -/
  unique : ∀ serial h h', Spends env pool h serial → Spends env pool h' serial → h = h'
  serials : ∀ serial h, pool.lelantusState.mempoolCoinSerials serial = some h ↔
    keep serial h ∧ Spends env pool h serial

/-- Every joinsplit of the pool has its serials erased when it is removed. -/
def Untyped (pool : CTxMemPool F G) : Prop :=
  ∀ (h : Uint256) tx, pool.mapTx[h]? = some tx → tx.isLelantusJoinSplit = true →
    hasTypedBranch tx = false

/-- The second pool has only entries of the first. -/
def SubPool (pool' pool : CTxMemPool F G) : Prop :=
  ∀ (h : Uint256) tx, pool'.mapTx[h]? = some tx → pool.mapTx[h]? = some tx

variable {env : Externals F G} {pool pool' pool'' : CTxMemPool F G}
  {keep : F → Uint256 → Prop} {hash : Uint256}

section

omit [DecidableEq F] [DecidableEq G]

theorem SubPool.refl (pool : CTxMemPool F G) : SubPool pool pool := fun _ _ h => h

theorem SubPool.trans (h₁ : SubPool pool'' pool') (h₂ : SubPool pool' pool) :
    SubPool pool'' pool := fun h tx htx => h₂ h tx (h₁ h tx htx)

theorem Spends.mono {h : Uint256} {serial : F} (hsub : SubPool pool' pool)
    (hs : Spends env pool' h serial) : Spends env pool h serial := by
  obtain ⟨tx, htx, hjs, hmem⟩ := hs
  exact ⟨tx, hsub h tx htx, hjs, hmem⟩

theorem Untyped.mono (hsub : SubPool pool' pool) (h : Untyped pool) : Untyped pool' :=
  fun k tx htx hjs => h k tx (hsub k tx htx) hjs

theorem Spends.mem {h : Uint256} {serial : F} (hs : Spends env pool h serial) : h ∈ pool.mapTx := by
  obtain ⟨tx, htx, -⟩ := hs
  exact OrderedMap.mem_iff_exists.mpr ⟨tx, htx⟩

end

/-! ### Descendants. -/

variable (hl : Linked pool) (hmem : hash ∈ pool.mapTx)
include hl hmem

section

omit [DecidableEq F] [DecidableEq G]

/-- `CalculateDescendants` collects what the links reach. -/
theorem mem_calculateDescendants (k : Uint256) :
    k ∈ calculateDescendants pool hash ↔
      Relation.ReflTransGen (fun p c => c ∈ pool.mapLinks p) hash k := by
  refine mem_worklist_iff pool.mapTx.keys.toFinset ?_ ?_ ?_ k
  · intro p _ c hc
    rw [mem_toFinset, mem_keys]
    exact hl.child_mem p c hc
  · calc pool.mapTx.keys.toFinset.card ≤ pool.mapTx.keys.length := toFinset_card_le _
      _ = pool.mapTx.size := length_keys
  · rw [mem_toFinset, mem_keys]
    exact hmem

theorem descendant_plain {k : Uint256} (hk : k ∈ calculateDescendants pool hash) :
    k = hash ∨ ∀ tx, pool.mapTx[k]? = some tx → tx.isLelantusJoinSplit = false := by
  rcases Relation.ReflTransGen.cases_tail ((mem_calculateDescendants hl hmem k).mp hk) with
    heq | ⟨p, -, hp⟩
  · exact .inl heq
  · exact .inr fun tx htx => hl.child_plain p k tx hp htx

theorem self_mem_calculateDescendants : hash ∈ calculateDescendants pool hash :=
  (mem_calculateDescendants hl hmem hash).mpr .refl

end

omit hl hmem

/-! ### Removal. -/

theorem subPool_removeStaged (stage : List Uint256) :
    SubPool (removeStaged env pool stage) pool := by
  intro h tx htx
  unfold removeStaged at htx
  rw [getElem?_removeAll] at htx
  split at htx
  · cases htx
  · exact htx

omit [DecidableEq F] [DecidableEq G] in
theorem not_mem_of_subPool {k : Uint256} (hsub : SubPool pool' pool) (hk : k ∉ pool.mapTx) :
    k ∉ pool'.mapTx := by
  intro hmem
  obtain ⟨tx, htx⟩ := OrderedMap.mem_iff_exists.mp hmem
  exact hk (OrderedMap.mem_iff_exists.mpr ⟨tx, hsub k tx htx⟩)

theorem Linked.removeStaged (hl : Linked pool) (stage : List Uint256) :
    Linked (removeStaged env pool stage) := by
  have hchild : ∀ p c, c ∈ (Mempool.removeStaged env pool stage).mapLinks p →
      c ∈ pool.mapLinks p ∧ c ∉ stage := by
    intro p c hc
    have := mem_mapLinks_removeAll hc
    simpa using this
  constructor
  · exact not_mem_of_subPool (subPool_removeStaged stage) hl.nonnull
  · intro p c hc
    obtain ⟨hlink, hstage⟩ := hchild p c hc
    have hmem := hl.child_mem p c hlink
    rw [mem_iff_isSome_getElem?] at hmem ⊢
    unfold Mempool.removeStaged
    rw [getElem?_removeAll, if_neg hstage]
    exact hmem
  · intro p c tx hc htx
    exact hl.child_plain p c tx (hchild p c hc).1 (subPool_removeStaged stage c tx htx)

theorem Indexed.removeStaged (hi : Indexed env pool keep) {stage : List Uint256}
    (hmem : hash ∈ stage) (hplain : ∀ k ∈ stage, k = hash ∨
      ∀ tx, pool.mapTx[k]? = some tx → tx.isLelantusJoinSplit = false)
    (huntyped : ∀ tx, pool.mapTx[hash]? = some tx → tx.isLelantusJoinSplit = true →
      hasTypedBranch tx = false) : Indexed env (removeStaged env pool stage) keep := by
  have hget : ∀ k : Uint256, (Mempool.removeStaged env pool stage).mapTx[k]? =
      if k ∈ stage then none else pool.mapTx[k]? := fun k => getElem?_removeAll stage k
  have hsub : SubPool (Mempool.removeStaged env pool stage) pool := subPool_removeStaged stage
  -- a joinsplit that is not the given one stays
  have hspends : ∀ h serial, Spends env (Mempool.removeStaged env pool stage) h serial ↔
      Spends env pool h serial ∧ h ≠ hash := by
    intro h serial
    constructor
    · intro hs
      refine ⟨hs.mono hsub, ?_⟩
      rintro rfl
      obtain ⟨tx, htx, -⟩ := hs
      rw [hget, if_pos hmem] at htx
      cases htx
    · rintro ⟨⟨tx, htx, hjs, hserial⟩, hne⟩
      refine ⟨tx, ?_, hjs, hserial⟩
      rw [hget, if_neg ?_]
      · exact htx
      · intro hk
        rcases hplain h hk with heq | hno
        · exact hne heq
        · rw [hno tx htx] at hjs
          cases hjs
  constructor
  · exact hi.linked.removeStaged stage
  · intro serial h h' hs hs'
    exact hi.unique serial h h' (hs.mono hsub) (hs'.mono hsub)
  · intro serial h
    have hmap : (Mempool.removeStaged env pool stage).lelantusState.mempoolCoinSerials serial =
        some h ↔ pool.lelantusState.mempoolCoinSerials serial = some h ∧
          ∀ k ∈ stage, ∀ tx, pool.mapTx[k]? = some tx → ¬ Forgets env tx serial :=
      serials_removeAll stage serial h
    rw [hmap, hi.serials, hspends, and_assoc]
    refine and_congr_right fun _ => and_congr_right fun hs => ?_
    constructor
    · rintro hall rfl
      obtain ⟨tx, htx, hjs, hserial⟩ := hs
      exact hall h hmem tx htx ⟨huntyped tx htx hjs, hjs, hserial⟩
    · rintro hne k hk tx htx ⟨-, hjs, hserial⟩
      rcases hplain k hk with heq | hno
      · subst heq
        exact hne (hi.unique serial h k hs ⟨tx, htx, hjs, hserial⟩)
      · rw [hno tx htx] at hjs
        cases hjs

/-- **`removeRecursive` keeps the index**, unless it removes a joinsplit that
`removeUnchecked` treats by its type. -/
theorem Indexed.removeRecursive (hi : Indexed env pool keep)
    (huntyped : ∀ tx, pool.mapTx[hash]? = some tx → tx.isLelantusJoinSplit = true →
      hasTypedBranch tx = false) : Indexed env (removeRecursive env pool hash) keep := by
  unfold Mempool.removeRecursive
  split
  · next hmem =>
    exact hi.removeStaged (self_mem_calculateDescendants hi.linked hmem)
      (fun k hk => descendant_plain hi.linked hmem hk) huntyped
  · exact hi

theorem subPool_removeRecursive : SubPool (removeRecursive env pool hash) pool := by
  unfold removeRecursive
  split
  · exact subPool_removeStaged _
  · exact SubPool.refl pool

theorem not_mem_removeRecursive (hl : Linked pool) :
    hash ∉ (removeRecursive env pool hash).mapTx := by
  unfold removeRecursive
  split
  · next hmem =>
    unfold removeStaged
    rw [mem_iff_isSome_getElem?, getElem?_removeAll,
      if_pos (self_mem_calculateDescendants hl hmem)]
    simp
  · next hmem => exact hmem

theorem subPool_evict {env : PoolExternals F G} (hashes : List Uint256) :
    SubPool (evict env pool hashes) pool := by
  unfold evict
  induction hashes generalizing pool with
  | nil => exact SubPool.refl pool
  | cons a hashes ih => exact ih.trans subPool_removeRecursive

theorem Indexed.evict {env : PoolExternals F G} (hi : Indexed env.toExternals pool keep)
    (huntyped : Untyped pool) (hashes : List Uint256) :
    Indexed env.toExternals (evict env pool hashes) keep := by
  unfold Mempool.evict
  induction hashes generalizing pool with
  | nil => exact hi
  | cons a hashes ih =>
    exact ih (hi.removeRecursive (huntyped a)) (huntyped.mono subPool_removeRecursive)

omit [DecidableEq G] in
theorem Indexed.removeSpends (hi : Indexed env pool keep) (serials : List F) :
    Indexed env
      { pool with lelantusState :=
          serials.foldl CLelantusMempoolState.removeSpendFromMempool pool.lelantusState }
      (fun serial h => keep serial h ∧ serial ∉ serials) := by
  constructor
  · exact ⟨hi.linked.nonnull, hi.linked.child_mem, hi.linked.child_plain⟩
  · exact hi.unique
  · intro serial h
    rw [mempoolCoinSerials_removeSpends, hi.serials]
    exact and_right_comm

omit [DecidableEq F] [DecidableEq G] in
theorem Indexed.congr_keep {keep' : F → Uint256 → Prop} (hi : Indexed env pool keep)
    (h : ∀ serial k, Spends env pool k serial → (keep serial k ↔ keep' serial k)) :
    Indexed env pool keep' := by
  refine ⟨hi.linked, hi.unique, ?_⟩
  intro serial k
  rw [hi.serials]
  exact and_congr_left fun hs => h serial k hs

end Zcoin.Mempool
