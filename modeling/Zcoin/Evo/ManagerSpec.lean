/-
  Zcoin.Evo.ManagerSpec — the manager against the lists that were built.

  A manager is faithful when it stores every list that was built so that it can be read
  back, nothing for other blocks, and caches no other answers.  Asking for lists keeps
  that; connecting a block and taking it away change it at that block only.
-/
import Zcoin.Evo.Manager
import Zcoin.Evo.BlockDiff

namespace Zcoin.Evo

open Std Function List Option
open Chain Lib Lib.Except
open CDeterministicMNList

variable {η : Type} [DecidableEq η] {env : EvoExternals η} {collateralAt : Uint256 → COutPoint}

/-! ## §1. Snapshots. -/

omit [DecidableEq η] in
theorem serialize_decode (list : CDeterministicMNList η) :
    snapshotCodec.decode list.serialize =
      some ((list.blockHash, list.nHeight, list.nTotalRegisteredCount, list.forEachMN false),
        []) := by
  have hdom : snapshotCodec.dom
      (list.blockHash, list.nHeight, list.nTotalRegisteredCount, list.forEachMN false) := by
    refine ⟨trivial, trivial, trivial, trivial, ?_⟩
    intro d _
    exact ⟨trivial, trivial, ⟨trivial, trivial⟩, trivial, trivial⟩
  have hround := snapshotCodec.decode_encode _ hdom []
  rw [append_nil] at hround
  exact hround

/-- The part of a list that `Unserialize` has read. -/
structure Restored (serializeHash : UniqueProperty → η) (list : CDeterministicMNList η)
    (pre : List CDeterministicMN) (cur : CDeterministicMNList η) : Prop where
  consistent : Consistent serializeHash cur
  header : SameHeader list cur
  entries : ∀ (h : Uint256) d, cur.mnMap[h]? = some d ↔ d ∈ pre ∧ d.proTxHash = h

variable {list : CDeterministicMNList η} {serializeHash : UniqueProperty → η}

theorem Restored.step (hinj : Injective serializeHash) {cur : CDeterministicMNList η}
    (hc : Consistent serializeHash list) {pre rest : List CDeterministicMN} {b : CDeterministicMN}
    (hl : pre ++ b :: rest = list.forEachMN false) (hcur : Restored serializeHash list pre cur) :
    Ensures (fun _ => False) (Restored serializeHash list (pre ++ [b]))
      (cur.addMN serializeHash b) := by
  have hlisted : ∀ d, d ∈ pre ++ b :: rest → list.mnMap[d.proTxHash]? = some d := by
    intro d hd
    rw [hl] at hd
    exact ((mem_forEachMN hc).mp hd).1
  have hb := hlisted b (mem_append_right pre mem_cons_self)
  have hs : Sound b.proTxHash b := hc.sound _ b hb
  -- what was read so far is in the list as well
  have hknown : ∀ (h : Uint256) d, cur.mnMap[h]? = some d → list.mnMap[h]? = some d := by
    intro h d hd
    obtain ⟨hmem, hh⟩ := (hcur.entries h d).mp hd
    exact hh ▸ hlisted d (mem_append_left _ hmem)
  have hnodup := hashes_nodup hc (fun _ => true) false
  rw [filter_true, ← hl, map_append, map_cons] at hnodup
  have hnone : cur.mnMap[b.proTxHash]? = none := by
    refine eq_none_iff_forall_ne_some.mpr ?_
    intro d hd
    obtain ⟨hmem, hh⟩ := (hcur.entries _ d).mp hd
    exact (nodup_append.mp hnodup).2.2 _ (mem_map_of_mem hmem) _ mem_cons_self hh
  have hfresh : b.proTxHash ∉ cur.mnMap := by
    rw [ExtTreeMap.mem_iff_isSome_getElem?, hnone]
    simp
  have hfree : Free serializeHash cur b := by
    intro p hp h howns
    obtain ⟨d, hd, hpd⟩ := howns
    have heq := hc.owns_unique ⟨d, hknown h d hd, hpd⟩ (Consistent.owns_of_mem hb hp)
    rw [heq, hnone] at hd
    cases hd
  have hid : b.internalId < cur.nTotalRegisteredCount := by
    rw [hcur.header.nTotalRegisteredCount]
    exact hc.bound _ b hb
  have hidfree : cur.mnInternalIdMap[b.internalId]? = none := by
    refine eq_none_iff_forall_ne_some.mpr ?_
    intro h hh
    obtain ⟨d, hd, hdi⟩ := (hcur.consistent.ids _ h).mp hh
    have hone := (hc.ids b.internalId h).mpr ⟨d, hknown h d hd, hdi⟩
    rw [(hc.ids b.internalId b.proTxHash).mpr ⟨b, hb, rfl⟩] at hone
    cases hone
    rw [hnone] at hd
    cases hd
  rw [addMN_eq hcur.consistent hinj hs hfresh hfree]
  refine ⟨consistent_added hcur.consistent hs hfresh hfree hid hidfree, ⟨?_, ?_, ?_⟩, ?_⟩
  · exact hcur.header.blockHash
  · exact hcur.header.nHeight
  · exact hcur.header.nTotalRegisteredCount
  · intro h d
    have hlookup : (added serializeHash cur b).mnMap[h]? =
        if h = b.proTxHash then some b else cur.mnMap[h]? := OrderedMap.getElem?_insert _ _ _ _
    rw [hlookup, mem_append, mem_singleton]
    by_cases hh : h = b.proTxHash
    · subst hh
      rw [if_pos rfl]
      constructor
      · intro heq
        cases heq
        exact ⟨.inr rfl, rfl⟩
      · rintro ⟨hmem | hmem, hd⟩
        · have hget := (hcur.entries _ d).mpr ⟨hmem, hd⟩
          rw [hnone] at hget
          cases hget
        · rw [hmem]
    · rw [if_neg hh, hcur.entries]
      constructor
      · rintro ⟨hmem, hd⟩
        exact ⟨.inl hmem, hd⟩
      · rintro ⟨hmem | hmem, hd⟩
        · exact ⟨hmem, hd⟩
        · rw [hmem] at hd
          exact absurd hd.symm hh

/-- **A snapshot is read back** as the list that was written. -/
theorem unserialize_serialize
    (hinj : Injective serializeHash) (hc : Consistent serializeHash list) :
    unserialize serializeHash
        (list.blockHash, list.nHeight, list.nTotalRegisteredCount, list.forEachMN false) =
      .ok list := by
  have hstart : Restored serializeHash list []
      { blockHash := list.blockHash, nHeight := list.nHeight,
        nTotalRegisteredCount := list.nTotalRegisteredCount } :=
    ⟨(consistent_empty list.blockHash list.nHeight).withHeader _ _ (Nat.zero_le _),
      ⟨rfl, rfl, rfl⟩, by simp⟩
  have hfold : Ensures (fun _ => False) (Restored serializeHash list (list.forEachMN false))
      (unserialize serializeHash
        (list.blockHash, list.nHeight, list.nTotalRegisteredCount, list.forEachMN false)) :=
    Ensures.foldlM_prefix (Restored serializeHash list)
      (fun pre b rest hl cur hcur => hcur.step hinj hc hl) hstart
  obtain ⟨cur, hrun, hcur⟩ := hfold.exists_ok
  rw [hrun]
  congr 1
  refine hc.ext hcur.consistent hcur.header ?_
  refine ExtTreeMap.ext_getElem? fun h => ext fun d => ?_
  rw [hcur.entries, mem_forEachMN hc]
  constructor
  · rintro ⟨⟨hget, -⟩, hh⟩
    exact hh ▸ hget
  · intro hget
    have hkeyed := (hc.sound h d hget).keyed
    exact ⟨⟨hkeyed.symm ▸ hget, fun hfalse => by cases hfalse⟩, hkeyed⟩

/-- **The snapshot of every list of a chain** is read back as that list, with nothing left. -/
theorem snapshot_roundTrip (hinj : Injective env.serializeHash)
    (hreach : ListReachable env collateralAt list) :
    (snapshotCodec.decode list.serialize).map (fun r => (unserialize env.serializeHash r.1, r.2)) =
      some (.ok list, []) := by
  rw [serialize_decode, Option.map_some, unserialize_serialize hinj (hreach.invariant hinj).1]

theorem snapshot_roundTrip_moved :
    ∃ list : CDeterministicMNList UniqueProperty,
      (∃ dmn ∈ list.mnMap[(7 : Uint256)]?, dmn.pdmnState.addr = 9) ∧
      (snapshotCodec.decode list.serialize).map (fun r => (unserialize id r.1, r.2)) =
        some (.ok list, []) := by
  obtain ⟨list, hreach, -, hmoved⟩ := exists_moved
  exact ⟨list, hmoved, snapshot_roundTrip injective_id hreach⟩

theorem applyDiff_noChanges {diff : CDeterministicMNListDiff} (hno : diff.hasChanges = false)
    (serializeHash : UniqueProperty → η) (blockHash : Uint256) (nHeight : Int) :
    list.applyDiff serializeHash blockHash nHeight diff = .ok { list with blockHash, nHeight } := by
  unfold CDeterministicMNListDiff.hasChanges at hno
  simp only [Bool.or_eq_false_iff, Bool.not_eq_false', List.isEmpty_iff,
    ExtTreeMap.isEmpty_iff] at hno
  obtain ⟨⟨hadded, hupdated⟩, hremoved⟩ := hno
  unfold CDeterministicMNList.applyDiff
  rw [hadded, hupdated, hremoved]
  rfl

/-! ## §2. The tree of block indexes. -/

/-- `mapBlockIndex`: a block is known with the blocks below it, and by its hash. -/
structure BlockTree where
  mem : List Uint256 → Prop
  not_mem_nil : ¬ mem []
  tail_mem : ∀ {h p}, mem (h :: p) → p ≠ [] → mem p
  hash_inj : ∀ {h p p'}, mem (h :: p) → mem (h :: p') → p = p'

variable {tree : BlockTree}

theorem BlockTree.suffix_mem {q : List Uint256} (hq : tree.mem q) {h : Uint256} {p : List Uint256}
    (hsuffix : h :: p <:+ q) : tree.mem (h :: p) := by
  induction q with
  | nil => simp at hsuffix
  | cons h' q ih =>
    rcases suffix_cons_iff.mp hsuffix with heq | hbelow
    · exact heq ▸ hq
    · have hne : q ≠ [] := by
        intro hnil
        rw [hnil] at hbelow
        simp at hbelow
      exact ih (tree.tail_mem hq hne) hbelow

theorem BlockTree.not_mem_below {h : Uint256} {p : List Uint256} (hmem : tree.mem (h :: p)) :
    h ∉ p := by
  intro hin
  obtain ⟨s, t, hst⟩ := append_of_mem hin
  have hbelow : h :: t <:+ h :: p := ⟨h :: s, by rw [hst]; rfl⟩
  have heq := tree.hash_inj (BlockTree.suffix_mem hmem hbelow) hmem
  have hlen : p.length = s.length + (t.length + 1) := by
    rw [hst, length_append, length_cons]
  rw [heq] at hlen
  omega

namespace CDeterministicMNManager

/-! ## §3. The manager and the lists that were built. -/

/-- The answer for a block: its list, or the empty one. -/
def served (built : List Uint256 → Option (CDeterministicMNList η)) (q : List Uint256) :
    CDeterministicMNList η := (built q).getD (noDiff (q.headD 0))

/-- What is stored for the list `list` of a block above `p`. -/
structure Stored (env : EvoExternals η) (collateralAt : Uint256 → COutPoint)
    (m : CDeterministicMNManager η) (prev : CDeterministicMNList η) (h : Uint256) (nHeight : Nat)
    (list : CDeterministicMNList η) : Prop where
  reachable : ListReachable env collateralAt list
  diff : m.listDiffs h = some (CDeterministicMNListDiff.codec.encode (prev.buildDiff list))
  replay : m.snapshots h = some list.serialize ∨ m.snapshots h = none ∧
    prev.applyDiff env.serializeHash h nHeight (prev.buildDiff list) = .ok list

/-- **The manager is faithful** to the lists that were built: it stores them, nothing for
other blocks, and caches no other answers. -/
structure Faithful (env : EvoExternals η) (collateralAt : Uint256 → COutPoint) (tree : BlockTree)
    (m : CDeterministicMNManager η) (built : List Uint256 → Option (CDeterministicMNList η)) :
    Prop where
  below : ∀ h p list, built (h :: p) = some list → p ≠ []
  stored : ∀ h p list, tree.mem (h :: p) → built (h :: p) = some list →
    Stored env collateralAt m (served built p) h p.length list
  absent : ∀ h p, tree.mem (h :: p) → built (h :: p) = none →
    m.listDiffs h = none ∧ m.snapshots h = none
  cache : ∀ h p list, tree.mem (h :: p) → m.mnListsCache h = some list →
    list = served built (h :: p)

variable {m m' : CDeterministicMNManager η}
  {built : List Uint256 → Option (CDeterministicMNList η)}

/-- Both have the same on disk. -/
structure SameDisk (m m' : CDeterministicMNManager η) : Prop where
  listDiffs : m'.listDiffs = m.listDiffs
  snapshots : m'.snapshots = m.snapshots

omit [DecidableEq η] in
theorem SameDisk.trans {m'' : CDeterministicMNManager η} (h : SameDisk m m')
    (h' : SameDisk m' m'') : SameDisk m m'' :=
  ⟨h'.listDiffs.trans h.listDiffs, h'.snapshots.trans h.snapshots⟩

theorem Faithful.congr (hf : Faithful env collateralAt tree m built) (hdisk : SameDisk m m')
    (hcache : ∀ h p list, tree.mem (h :: p) → m'.mnListsCache h = some list →
      list = served built (h :: p)) : Faithful env collateralAt tree m' built where
  below := hf.below
  stored := by
    intro h p list hmem hlist
    obtain ⟨hreach, hdiff, hreplay⟩ := hf.stored h p list hmem hlist
    rw [← hdisk.listDiffs] at hdiff
    rw [← hdisk.snapshots] at hreplay
    exact ⟨hreach, hdiff, hreplay⟩
  absent := by
    intro h p hmem hnone
    rw [hdisk.listDiffs, hdisk.snapshots]
    exact hf.absent h p hmem hnone
  cache := hcache

omit [DecidableEq η] in
theorem emplace_sameDisk (h : Uint256) (list : CDeterministicMNList η) :
    SameDisk m (m.emplace h list) := by
  unfold emplace
  split
  · exact ⟨rfl, rfl⟩
  · exact ⟨rfl, rfl⟩

variable {k h : Uint256} {p q : List Uint256} {list newList oldList : CDeterministicMNList η}
  {n : Nat}

omit [DecidableEq η] in
theorem emplace_cache_of_ne (hne : k ≠ h) (list : CDeterministicMNList η) :
    (m.emplace h list).mnListsCache k = m.mnListsCache k := by
  unfold emplace
  split
  · rfl
  · exact update_of_ne hne _ _

variable (hf : Faithful env collateralAt tree m built)
include hf

theorem Faithful.emplace (hmem : tree.mem (h :: p)) :
    Faithful env collateralAt tree (m.emplace h (served built (h :: p))) built := by
  refine hf.congr (emplace_sameDisk h _) ?_
  intro k q list hq hlist
  by_cases hk : k = h
  · subst hk
    rw [tree.hash_inj hq hmem]
    unfold CDeterministicMNManager.emplace at hlist
    split at hlist
    · exact hf.cache k p list hmem hlist
    · replace hlist : Function.update m.mnListsCache k (some _) k = some list := hlist
      rw [update_self] at hlist
      cases hlist
      rfl
  · rw [emplace_cache_of_ne hk] at hlist
    exact hf.cache k q list hq hlist

theorem Faithful.reachable (hq : tree.mem q) : ListReachable env collateralAt (served built q) := by
  cases q with
  | nil => exact absurd hq tree.not_mem_nil
  | cons h p =>
    unfold served
    cases hlist : built (h :: p) with
    | none => exact .empty h (-1)
    | some list => exact (hf.stored h p list hq hlist).reachable

omit hf

/-! ## §4. Asking for a list. -/

/-- What asking for the list of `q` leaves behind. -/
structure Asked (env : EvoExternals η) (collateralAt : Uint256 → COutPoint) (tree : BlockTree)
    (built : List Uint256 → Option (CDeterministicMNList η)) (q : List Uint256)
    (m m' : CDeterministicMNManager η) : Prop where
  faithful : Faithful env collateralAt tree m' built
  disk : SameDisk m m'
  frame : ∀ k, k ∉ q → m'.mnListsCache k = m.mnListsCache k

theorem Asked.emplace (hmem : tree.mem (h :: p))
    (hasked : Asked env collateralAt tree built p m m') :
    Asked env collateralAt tree built (h :: p) m (m'.emplace h (served built (h :: p))) where
  faithful := hasked.faithful.emplace hmem
  disk := hasked.disk.trans (emplace_sameDisk h _)
  frame := by
    intro k hk
    rw [mem_cons, not_or] at hk
    rw [emplace_cache_of_ne hk.1]
    exact hasked.frame k hk.2

theorem readSnapshot_absent (hnone : m.snapshots h = none) : m.readSnapshot env h = .ok none := by
  unfold readSnapshot
  rw [hnone]
  rfl

theorem readSnapshot_written (hinj : Injective env.serializeHash)
    (hc : Consistent env.serializeHash list) (hsome : m.snapshots h = some list.serialize) :
    m.readSnapshot env h = .ok (some list) := by
  unfold readSnapshot
  rw [hsome, bind_some, serialize_decode]
  show (unserialize env.serializeHash _).map some = _
  rw [unserialize_serialize hinj hc]
  rfl

variable {prev : CDeterministicMNList η}

omit [DecidableEq η] in
theorem readDiff_written (hc : Consistent env.serializeHash list)
    (hsome : m.listDiffs h = some (CDeterministicMNListDiff.codec.encode (prev.buildDiff list))) :
    m.readDiff h = some (prev.buildDiff list) := by
  unfold readDiff
  rw [hsome, bind_some, buildDiff_decode hc]
  rfl

theorem forward_buildDiff {nHeight : Nat}
    (happly : prev.applyDiff env.serializeHash h nHeight (prev.buildDiff list) = .ok list) :
    forward env h nHeight (prev.buildDiff list) prev = .ok list := by
  unfold forward
  split
  · exact happly
  · rename_i hno
    rw [applyDiff_noChanges (Bool.eq_false_of_not_eq_true hno)] at happly
    exact happly

/-- **`GetListForBlock` on a faithful manager**: the list that was built, or the empty one. -/
theorem getListForBlock_served (hinj : Injective env.serializeHash)
    (hf : Faithful env collateralAt tree m built) (hq : tree.mem q) :
    ∃ m', getListForBlock env m q = .ok (served built q, m') ∧
      Asked env collateralAt tree built q m m' := by
  -- the walk back to a known list is the recursion on the blocks below
  induction q with
  | nil => exact absurd hq tree.not_mem_nil
  | cons h p ih =>
    have hstay : Asked env collateralAt tree built p m m := ⟨hf, ⟨rfl, rfl⟩, fun _ _ => rfl⟩
    unfold getListForBlock
    cases hcache : m.mnListsCache h with
    | some list =>
      rw [hf.cache h p list hq hcache]
      exact ⟨m, rfl, hf, ⟨rfl, rfl⟩, fun _ _ => rfl⟩
    | none =>
      show ∃ m', (m.readSnapshot env h >>= _) = _ ∧ _
      cases hlist : built (h :: p) with
      | none =>
        have hserved : served built (h :: p) = noDiff h := by
          unfold served
          rw [hlist]
          rfl
        obtain ⟨hdiff, hsnapshot⟩ := hf.absent h p hq hlist
        have hread : m.readDiff h = none := by
          unfold readDiff
          rw [hdiff]
          rfl
        rw [readSnapshot_absent hsnapshot, ok_bind, hread, ← hserved]
        exact ⟨_, rfl, hstay.emplace hq⟩
      | some list =>
        have hserved : served built (h :: p) = list := by
          unfold served
          rw [hlist]
          rfl
        obtain ⟨hreach, hdiff, hreplay⟩ := hf.stored h p list hq hlist
        have hc := (hreach.invariant hinj).1
        rcases hreplay with hsnapshot | ⟨hsnapshot, happly⟩
        · rw [readSnapshot_written hinj hc hsnapshot, ok_bind, ← hserved]
          exact ⟨_, rfl, hstay.emplace hq⟩
        · obtain ⟨m₁, hbase, hasked⟩ := ih (tree.tail_mem hq (hf.below h p list hlist))
          rw [readSnapshot_absent hsnapshot, ok_bind, readDiff_written hc hdiff]
          show ∃ m', (getListForBlock env m p >>= _) = _ ∧ _
          rw [hbase, ok_bind, forward_buildDiff happly, ok_bind, ← hserved]
          exact ⟨_, rfl, hasked.emplace hq⟩

/-! ## §5. One block. -/

omit [DecidableEq η] in
theorem served_update_of_ne {q' : List Uint256} (hne : q' ≠ q)
    (x : Option (CDeterministicMNList η)) : served (update built q x) q' = served built q' := by
  unfold served
  rw [update_of_ne hne]

/-- **Change at one block**: what is stored and cached for the block fits the new record,
and everything else is as before or no longer cached. -/
theorem Faithful.update (hf : Faithful env collateralAt tree m built)
    (hmem : tree.mem (h :: p)) (htop : ∀ k, built (k :: h :: p) = none)
    (x : Option (CDeterministicMNList η)) (hdiffs : ∀ k, k ≠ h → m'.listDiffs k = m.listDiffs k)
    (hsnapshots : ∀ k, k ≠ h → m'.snapshots k = m.snapshots k)
    (hcaches : ∀ k, k ≠ h → ∀ list, m'.mnListsCache k = some list → m.mnListsCache k = some list)
    (hsome : ∀ list, x = some list →
      p ≠ [] ∧ Stored env collateralAt m' (served built p) h p.length list)
    (hnone : x = none → m'.listDiffs h = none ∧ m'.snapshots h = none)
    (hcache : ∀ list, m'.mnListsCache h = some list → list = x.getD (noDiff h)) :
    Faithful env collateralAt tree m' (Function.update built (h :: p) x) := by
  have hother : ∀ k q, tree.mem (k :: q) → k :: q ≠ h :: p → k ≠ h := by
    intro k q hq hne hk
    apply hne
    rw [hk] at hq ⊢
    rw [tree.hash_inj hq hmem]
  have hserved : ∀ q, q ≠ h :: p → served (Function.update built (h :: p) x) q = served built q :=
    fun q hq => served_update_of_ne hq x
  refine ⟨?_, ?_, ?_, ?_⟩
  · intro k q list hlist
    by_cases hq : k :: q = h :: p
    · cases hq
      rw [update_self] at hlist
      exact (hsome list hlist).1
    · rw [update_of_ne hq] at hlist
      exact hf.below k q list hlist
  · intro k q list hkq hlist
    by_cases hq : k :: q = h :: p
    · cases hq
      rw [update_self] at hlist
      rw [hserved p (cons_ne_self h p).symm]
      exact (hsome list hlist).2
    · rw [update_of_ne hq] at hlist
      have hk := hother k q hkq hq
      -- the block below is another one, since none was built on this one
      have hbelow : q ≠ h :: p := by
        intro heq
        rw [heq, htop k] at hlist
        cases hlist
      obtain ⟨hreach, hdiff, hreplay⟩ := hf.stored k q list hkq hlist
      rw [hserved q hbelow]
      rw [← hdiffs k hk] at hdiff
      rw [← hsnapshots k hk] at hreplay
      exact ⟨hreach, hdiff, hreplay⟩
  · intro k q hkq hbuilt
    by_cases hq : k :: q = h :: p
    · cases hq
      rw [update_self] at hbuilt
      exact hnone hbuilt
    · rw [update_of_ne hq] at hbuilt
      have hk := hother k q hkq hq
      rw [hdiffs k hk, hsnapshots k hk]
      exact hf.absent k q hkq hbuilt
  · intro k q list hkq hlist
    by_cases hq : k :: q = h :: p
    · cases hq
      unfold served
      rw [update_self]
      exact hcache list hlist
    · rw [hserved _ hq]
      exact hf.cache k q list hkq (hcaches k (hother k q hkq hq) list hlist)

omit [DecidableEq η] in
theorem writeList_spec :
    (m.writeList h n oldList newList).listDiffs = update m.listDiffs h
        (some (CDeterministicMNListDiff.codec.encode (oldList.buildDiff newList))) ∧
      (m.writeList h n oldList newList).mnListsCache = m.mnListsCache ∧
      ∀ k, k ≠ h → (m.writeList h n oldList newList).snapshots k = m.snapshots k := by
  unfold writeList
  split
  · exact ⟨rfl, rfl, fun k hne => update_of_ne hne _ _⟩
  · exact ⟨rfl, rfl, fun _ _ => rfl⟩

omit [DecidableEq η] in
theorem cleanupCache_eq_some {n : Int} :
    (m.cleanupCache n).mnListsCache k = some list ↔
      m.mnListsCache k = some list ∧ ¬ list.nHeight + LISTS_CACHE_SIZE < n := by
  show (m.mnListsCache k).filter _ = some list ↔ _
  rw [filter_eq_some_iff]
  simp

variable (hf : Faithful env collateralAt tree m built) (hmem : tree.mem (h :: p))
include hf hmem

/-- **Connecting a block** for which nothing is cached, or whose cached answer is old enough
for the clean-up. -/
theorem Faithful.connect (hp : p ≠ []) (hnew : built (h :: p) = none)
    (htop : ∀ k, built (k :: h :: p) = none) (hreach : ListReachable env collateralAt list)
    (hdue : (p.length % SNAPSHOT_LIST_PERIOD = 0 ∨ (served built p).nHeight = -1) ∨
      (served built p).applyDiff env.serializeHash h p.length ((served built p).buildDiff list) =
        .ok list)
    (hcache : m.mnListsCache h = none ∨ 575 < p.length) :
    Faithful env collateralAt tree
      ((m.writeList h p.length (served built p) list).cleanupCache p.length)
      (Function.update built (h :: p) (some list)) := by
  refine hf.update hmem htop (some list) ?_ ?_ ?_ ?_ ?_ ?_
  · intro k hk
    show (m.writeList h _ _ _).listDiffs k = _
    rw [writeList_spec.1, update_of_ne hk]
  · intro k hk
    exact writeList_spec.2.2 k hk
  · intro k _ l hl
    rw [cleanupCache_eq_some, writeList_spec.2.1] at hl
    exact hl.1
  · intro l hl
    cases hl
    refine ⟨hp, hreach, ?_, ?_⟩
    · show (m.writeList h _ _ _).listDiffs h = _
      rw [writeList_spec.1, update_self]
    · -- a snapshot is written when one is due, and otherwise there is none as before
      show (m.writeList h _ _ _).snapshots h = _ ∨ (m.writeList h _ _ _).snapshots h = _ ∧ _
      unfold writeList
      split
      · exact .inl (update_self _ _ _)
      · next hnot => exact .inr ⟨(hf.absent h p hmem hnew).2, hdue.resolve_left hnot⟩
  · intro hnone
    cases hnone
  · -- what is cached says that there is no list, with height -1
    intro l hl
    rw [cleanupCache_eq_some, writeList_spec.2.1] at hl
    obtain ⟨hl, hyoung⟩ := hl
    exfalso
    rcases hcache with hnone | hdeep
    · rw [hnone] at hl
      cases hl
    · have hempty : l = noDiff h := by
        rw [hf.cache h p l hmem hl]
        unfold served
        rw [hnew]
        rfl
      rw [hempty] at hyoung
      apply hyoung
      show (-1 : Int) + 576 < p.length
      omega

theorem Faithful.erase (htop : ∀ k, built (k :: h :: p) = none) :
    Faithful env collateralAt tree (m.eraseBlock h) (Function.update built (h :: p) none) := by
  refine hf.update hmem htop none ?_ ?_ ?_ ?_ ?_ ?_
  · intro k hk
    exact update_of_ne hk _ _
  · intro k hk
    exact update_of_ne hk _ _
  · intro k hk l hl
    replace hl : Function.update m.mnListsCache h none k = some l := hl
    rw [update_of_ne hk] at hl
    exact hl
  · intro l hl
    cases hl
  · intro _
    exact ⟨update_self _ _ _, update_self _ _ _⟩
  · intro l hl
    replace hl : Function.update m.mnListsCache h none h = some l := hl
    rw [update_self] at hl
    cases hl

omit hf hmem

/-! ## §6. What the calls can do. -/

variable {params : EvoParams} {h : Uint256} {pprev : List Uint256} {block : EvoBlock}
  {verdict : Verdict}

theorem processBlock_cases {fJustCheck : Bool} (hactive : ¬ pprev.length < params.DIP0003Height)
    (hrun : processBlock env params m h pprev block fJustCheck = .ok (m', verdict)) :
    ∃ oldList m₁, getListForBlock env m pprev = .ok (oldList, m₁) ∧
      (m' = m₁ ∧ (fJustCheck = true ∨ ∃ r, verdict = .rejected r) ∨
        fJustCheck = false ∧ ∃ newList,
          buildNewListFromBlock env (block.context pprev) oldList block.vtx = .ok newList ∧
          storeBlock env params m₁ h pprev newList = .ok (m', verdict)) := by
  unfold processBlock at hrun
  rw [if_neg hactive] at hrun
  obtain ⟨⟨oldList, m₁⟩, hold, hrun⟩ := bind_eq_ok.mp hrun
  refine ⟨oldList, m₁, hold, ?_⟩
  dsimp only at hrun
  split at hrun
  · cases hrun
  · cases hrun
    exact .inl ⟨rfl, .inr ⟨_, rfl⟩⟩
  · rename_i newList hbuild
    cases fJustCheck with
    | true =>
      cases hrun
      exact .inl ⟨rfl, .inl rfl⟩
    | false => exact .inr ⟨rfl, newList, hbuild, hrun⟩

theorem storeBlock_cases (hrun : storeBlock env params m h pprev newList = .ok (m', verdict)) :
    ∃ oldList m₁, getListForBlock env m pprev = .ok (oldList, m₁) ∧
      (verdict = .accepted ∧ (newList.nHeight = pprev.length →
          m' = (m₁.writeList h pprev.length oldList
            { newList with blockHash := h, nHeight := pprev.length }).cleanupCache pprev.length) ∨
        (∃ r, verdict = .rejected r) ∧ m'.mnListsCache = m₁.mnListsCache) := by
  unfold storeBlock at hrun
  obtain ⟨⟨oldList, m₁⟩, hold, hrun⟩ := bind_eq_ok.mp hrun
  refine ⟨oldList, m₁, hold, ?_⟩
  dsimp only at hrun
  split at hrun
  · cases hrun
    exact .inr ⟨⟨_, rfl⟩, writeList_spec.2.1⟩
  · cases hrun
    refine .inl ⟨rfl, ?_⟩
    intro hheight
    have hset : ¬ newList.nHeight = -1 := by omega
    have hlist : { newList with blockHash := h } =
        { newList with blockHash := h, nHeight := (pprev.length : Int) } := by
      rw [← hheight]
    rw [if_neg hset, hlist]

theorem undoBlock_cases (hrun : undoBlock env m h pprev = .ok m') :
    m' = m.eraseBlock h ∨ ∃ cur m₁ prev m₂, getListForBlock env m (h :: pprev) = .ok (cur, m₁) ∧
      getListForBlock env m₁ pprev = .ok (prev, m₂) ∧ m' = m₂.eraseBlock h := by
  unfold undoBlock at hrun
  split at hrun
  · obtain ⟨asked, hasked, hrun⟩ := bind_eq_ok.mp hrun
    unfold askForBoth at hasked
    obtain ⟨⟨cur, m₁⟩, hcur, hasked⟩ := bind_eq_ok.mp hasked
    obtain ⟨⟨prev, m₂⟩, hprev, hasked⟩ := bind_eq_ok.mp hasked
    cases hasked
    cases hrun
    exact .inr ⟨cur, m₁, prev, m₂, hcur, hprev, rfl⟩
  · cases hrun
    exact .inl rfl

end CDeterministicMNManager

end Zcoin.Evo
