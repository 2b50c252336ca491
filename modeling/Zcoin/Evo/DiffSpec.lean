/-
  Zcoin.Evo.DiffSpec — when `ApplyDiff` of `BuildDiff` gives the new list back.

  For two consistent lists the three loops of `ApplyDiff` are described exactly: the
  removals always go through, the additions go through when their ids are the next ones
  and nobody who is kept still has one of their properties, the updates when nobody with
  a higher id does.
-/
import Zcoin.Evo.ListDiff
import Zcoin.Evo.BuildSpec
import Zcoin.Lib.Sorting

namespace Zcoin.Evo.CDeterministicMNList

open List hiding getElem?_insert
open Std Function Nat
open Chain Lib Lib.Except Lib.OrderedMap

variable {η : Type} [DecidableEq η] {serializeHash : UniqueProperty → η}
  {oldList newList : CDeterministicMNList η}

/-! ## §1. What is in the difference. -/

section Content

omit [DecidableEq η]

variable {list : CDeterministicMNList η} {d : CDeterministicMN} (hc : Consistent serializeHash list)
include hc

variable {d' : CDeterministicMN}

theorem Consistent.ids_inj {h h' : Uint256} (hget : list.mnMap[h]? = some d)
    (hget' : list.mnMap[h']? = some d') (hid : d.internalId = d'.internalId) : h = h' := by
  have hone := (hc.ids d.internalId h).mpr ⟨d, hget, rfl⟩
  rw [(hc.ids d.internalId h').mpr ⟨d', hget', hid.symm⟩] at hone
  cases hone
  rfl

theorem Consistent.getMNByInternalId_eq {h : Uint256}
    (hget : list.mnMap[h]? = some d) : list.getMNByInternalId d.internalId = some d := by
  unfold getMNByInternalId getMN
  rw [(hc.ids d.internalId h).mpr ⟨d, hget, rfl⟩]
  exact hget

theorem forEachMN_nodup : (list.forEachMN false).Nodup := by
  have hnodup := hashes_nodup hc (fun _ => true) false
  rw [filter_eq_self.mpr fun _ _ => rfl] at hnodup
  exact List.Nodup.of_map _ hnodup

theorem mem_forEachMN_false : d ∈ list.forEachMN false ↔ list.mnMap[d.proTxHash]? = some d := by
  rw [mem_forEachMN hc]
  simp

theorem Consistent.entry_inj (hd : d ∈ list.forEachMN false) (hd' : d' ∈ list.forEachMN false)
    (hid : d.internalId = d'.internalId) : d = d' := by
  rw [mem_forEachMN_false hc] at hd hd'
  rw [hc.ids_inj hd hd' hid, hd'] at hd
  cases hd
  rfl

omit hc

theorem mem_addedMNs (hc' : Consistent serializeHash newList) :
    d ∈ (oldList.buildDiff newList).addedMNs ↔
      newList.mnMap[d.proTxHash]? = some d ∧ oldList.mnMap[d.proTxHash]? = none := by
  show d ∈ mergeSort _ _ ↔ _
  rw [mem_mergeSort, mem_filter, mem_forEachMN_false hc']
  unfold getMN
  rw [Option.isNone_iff_eq_none]

theorem addedMNs_sorted (hc' : Consistent serializeHash newList) :
    (oldList.buildDiff newList).addedMNs.Pairwise fun a b => a.internalId < b.internalId := by
  refine Ranking.pairwise_mergeSort_lt ((forEachMN_nodup hc').filter _) ?_
  intro a ha b hb hid
  exact hc'.entry_inj (mem_of_mem_filter ha) (mem_of_mem_filter hb) hid

theorem mem_removedMns (hc : Consistent serializeHash oldList) {i : Nat} :
    i ∈ (oldList.buildDiff newList).removedMns.keys ↔
      ∃ X : CDeterministicMN, oldList.mnMap[X.proTxHash]? = some X ∧
        newList.mnMap[X.proTxHash]? = none ∧ X.internalId = i := by
  have hids : ((((oldList.forEachMN false).filter fun X =>
      (newList.getMN X.proTxHash).isNone).map fun X => (X.internalId, ())).map
        Prod.fst).Nodup := by
    rw [map_map]
    refine List.Nodup.map_on ?_ ((forEachMN_nodup hc).filter _)
    intro a ha b hb hid
    exact hc.entry_inj (mem_of_mem_filter ha) (mem_of_mem_filter hb) hid
  rw [ExtTreeMap.mem_keys, mem_iff_exists]
  constructor
  · intro hi
    obtain ⟨u, hu⟩ := hi
    obtain ⟨X, hX, hXi⟩ := mem_map.mp ((getElem?_emplaceAll hids i u).mp hu)
    obtain ⟨hX, hnone⟩ := mem_filter.mp hX
    cases hXi
    exact ⟨X, (mem_forEachMN_false hc).mp hX, Option.isNone_iff_eq_none.mp hnone, rfl⟩
  · intro hX
    obtain ⟨X, hget, hnone, hid⟩ := hX
    refine ⟨(), (getElem?_emplaceAll hids i ()).mpr (mem_map.mpr ⟨X, ?_, ?_⟩)⟩
    · exact mem_filter.mpr ⟨(mem_forEachMN_false hc).mpr hget,
        Option.isNone_iff_eq_none.mpr hnone⟩
    · rw [hid]

theorem mem_updatedMNs (hc' : Consistent serializeHash newList)
    {e : Nat × CDeterministicMNStateDiff} :
    e ∈ (oldList.buildDiff newList).updatedMNs.toList ↔
      ∃ X X' : CDeterministicMN, oldList.mnMap[X'.proTxHash]? = some X ∧
        newList.mnMap[X'.proTxHash]? = some X' ∧ X.pdmnState ≠ X'.pdmnState ∧
        e = (X'.internalId, CDeterministicMNStateDiff.ofStates X.pdmnState X'.pdmnState) := by
  have hentry : ∀ X' e, oldList.updatedEntry X' = some e ↔
      ∃ X, oldList.mnMap[X'.proTxHash]? = some X ∧ X.pdmnState ≠ X'.pdmnState ∧
        e = (X'.internalId, CDeterministicMNStateDiff.ofStates X.pdmnState X'.pdmnState) := by
    intro X' e
    unfold updatedEntry getMN
    cases hX : oldList.mnMap[X'.proTxHash]? with
    | none => simp
    | some X =>
      have hfields : (CDeterministicMNStateDiff.ofStates X.pdmnState X'.pdmnState).fields = 0 ↔
          X.pdmnState = X'.pdmnState := by
        refine ⟨stateLayout.eq_of_between_fields {}, ?_⟩
        intro heq
        rw [heq]
        exact stateLayout.between_self_fields {} X'.pdmnState
      simp only [Option.ite_none_right_eq_some, ne_eq, hfields, Option.some.injEq, exists_eq_left']
      rw [eq_comm (a := e)]
  have hids : ((((newList.forEachMN false).filterMap oldList.updatedEntry)).map
      Prod.fst).Nodup := by
    unfold List.Nodup
    rw [pairwise_map, pairwise_filterMap]
    refine (forEachMN_nodup hc').imp_of_mem ?_
    intro a b ha hb hab e he e' he' hid
    obtain ⟨_, _, _, hea⟩ := (hentry a e).mp he
    obtain ⟨_, _, _, heb⟩ := (hentry b e').mp he'
    subst hea
    subst heb
    exact hab (hc'.entry_inj ha hb hid)
  obtain ⟨i, sd⟩ := e
  rw [ExtTreeMap.mem_toList_iff_getElem?_eq_some]
  show (emplaceAll ((newList.forEachMN false).filterMap oldList.updatedEntry))[i]? =
    some sd ↔ _
  rw [getElem?_emplaceAll hids, mem_filterMap]
  constructor
  · intro he
    obtain ⟨X', hX', he⟩ := he
    obtain ⟨X, hX, hne, he⟩ := (hentry X' _).mp he
    exact ⟨X, X', hX, (mem_forEachMN_false hc').mp hX', hne, he⟩
  · intro he
    obtain ⟨X, X', hX, hX', hne, he⟩ := he
    exact ⟨X', (mem_forEachMN_false hc').mpr hX', (hentry X' _).mpr ⟨X, hX, hne, he⟩⟩

theorem updatedMNs_sorted (oldList newList : CDeterministicMNList η) :
    (oldList.buildDiff newList).updatedMNs.toList.Pairwise fun a b => a.1 < b.1 := by
  refine ExtTreeMap.ordered_keys_toList.imp ?_
  intro a b hab
  exact compare_eq_lt.mp hab

end Content

/-! ## §2. Removals. -/

/-- The old list without the masternodes that are not in the new one. -/
structure Kept (serializeHash : UniqueProperty → η) (oldList newList : CDeterministicMNList η)
    (list : CDeterministicMNList η) : Prop where
  consistent : Consistent serializeHash list
  total : list.nTotalRegisteredCount = oldList.nTotalRegisteredCount
  entries : ∀ (h : Uint256) d, list.mnMap[h]? = some d ↔
    oldList.mnMap[h]? = some d ∧ ∃ d', newList.mnMap[h]? = some d'

theorem ensures_removals (hinj : Injective serializeHash) (hc : Consistent serializeHash oldList)
    (newList : CDeterministicMNList η) (blockHash : Uint256) (nHeight : Int) :
    Ensures Never (fun list => Kept serializeHash oldList newList list ∧
        list.blockHash = blockHash ∧ list.nHeight = nHeight)
      ((oldList.buildDiff newList).removedMns.keys.foldlM (removeById serializeHash)
        { oldList with blockHash, nHeight }) := by
  have hstart := hc.withHeader blockHash nHeight (Nat.le_refl oldList.nTotalRegisteredCount)
  -- what is left are the old entries whose id was not removed so far
  refine (Ensures.foldlM_prefix (fun pre cur => Consistent serializeHash cur ∧
    SameHeader { oldList with blockHash, nHeight } cur ∧
    ∀ (h : Uint256) d, cur.mnMap[h]? = some d ↔
      oldList.mnMap[h]? = some d ∧ d.internalId ∉ pre) ?_ ?_).mono ?_
  · intro pre i rest hl cur hcur
    obtain ⟨hcons, hheader, hentries⟩ := hcur
    have hi : i ∈ (oldList.buildDiff newList).removedMns.keys :=
      hl ▸ mem_append_right pre mem_cons_self
    have hnodup : (pre ++ i :: rest).Nodup := hl ▸ ExtTreeMap.nodup_keys
    have hpre : i ∉ pre := fun hin =>
      (nodup_append.mp hnodup).2.2 i hin i mem_cons_self rfl
    obtain ⟨X, hX, -, hXi⟩ := (mem_removedMns hc).mp hi
    subst hXi
    have hget : cur.mnMap[X.proTxHash]? = some X := (hentries _ _).mpr ⟨hX, hpre⟩
    unfold removeById
    rw [hcons.getMNByInternalId_eq hget]
    show Ensures Never _ (cur.removeMN serializeHash X.proTxHash)
    rw [removeMN_eq hcons hinj hget]
    refine ⟨consistent_removed hcons hget, ?_, ?_⟩
    · exact { hheader with }
    · intro h d
      show (cur.mnMap.erase X.proTxHash)[h]? = some d ↔ _
      rw [getElem?_erase, mem_append, mem_singleton, not_or, ← and_assoc, ← hentries]
      by_cases hh : h = X.proTxHash
      · rw [if_pos hh, hh, hget]
        refine iff_of_false nofun fun hd => hd.2 ?_
        cases hd.1
        rfl
      · rw [if_neg hh]
        exact (and_iff_left_of_imp fun hgetd heq => hh (hcons.ids_inj hgetd hget heq)).symm
  · exact ⟨hstart, ⟨rfl, rfl, rfl⟩, fun h d => by simp⟩
  · intro list hlist
    obtain ⟨hcons, hheader, hentries⟩ := hlist
    refine ⟨⟨hcons, hheader.nTotalRegisteredCount, ?_⟩, hheader.blockHash, hheader.nHeight⟩
    intro h d
    rw [hentries]
    refine and_congr_right fun hgetd => ?_
    have hkeyed := (hc.sound h d hgetd).keyed
    rw [mem_removedMns hc]
    constructor
    · intro hnot
      cases hnew : newList.mnMap[h]? with
      | some d' => exact ⟨d', rfl⟩
      | none => exact absurd ⟨d, by rw [hkeyed]; exact hgetd, by rw [hkeyed]; exact hnew, rfl⟩ hnot
    · intro hnew hX
      obtain ⟨d', hnew⟩ := hnew
      obtain ⟨X, hX, hnone, hid⟩ := hX
      have hhash := hc.ids_inj hX hgetd hid
      rw [hhash, hnew] at hnone
      cases hnone

/-! ## §3. Additions. -/

/-- The list with the first added masternodes. -/
structure Extended (serializeHash : UniqueProperty → η) (kept : CDeterministicMNList η)
    (pre : List CDeterministicMN) (list : CDeterministicMNList η) : Prop where
  consistent : Consistent serializeHash list
  blockHash : list.blockHash = kept.blockHash
  nHeight : list.nHeight = kept.nHeight
  total : list.nTotalRegisteredCount = kept.nTotalRegisteredCount + pre.length
  entries : ∀ (h : Uint256) d, list.mnMap[h]? = some d ↔
    kept.mnMap[h]? = some d ∨ d ∈ pre ∧ d.proTxHash = h

/-- The ids are the next ones and nobody who is kept has one of the properties. -/
def Addable (serializeHash : UniqueProperty → η) (kept : CDeterministicMNList η)
    (l : List CDeterministicMN) : Prop :=
  l.map (·.internalId) = range' kept.nTotalRegisteredCount l.length ∧
    ∀ d ∈ l, Free serializeHash kept d

section Additions

variable {kept : CDeterministicMNList η} {l l' : List CDeterministicMN}

omit [DecidableEq η] in
theorem addable_append : Addable serializeHash kept (l ++ l') ↔ Addable serializeHash kept l ∧
    l'.map (·.internalId) = range' (kept.nTotalRegisteredCount + l.length) l'.length ∧
      ∀ d ∈ l', Free serializeHash kept d := by
  unfold Addable
  rw [map_append, length_append, ← range'_append_1, append_eq_append_iff_of_size_eq_left (by simp),
    forall_mem_append, and_and_and_comm]

omit [DecidableEq η] in
theorem addedMNs_fresh (hc' : Consistent serializeHash newList)
    (hkept : Kept serializeHash oldList newList kept) {d : CDeterministicMN}
    (hd : d ∈ (oldList.buildDiff newList).addedMNs) :
    newList.mnMap[d.proTxHash]? = some d ∧ kept.mnMap[d.proTxHash]? = none := by
  obtain ⟨hnew, hold⟩ := (mem_addedMNs hc').mp hd
  refine ⟨hnew, Option.eq_none_iff_forall_ne_some.mpr fun e he => ?_⟩
  rw [hkept.entries, hold] at he
  cases he.1

section Step

variable {cur : CDeterministicMNList η} {pre rest : List CDeterministicMN} {d : CDeterministicMN}
  (hmem : ∀ e ∈ pre ++ d :: rest, newList.mnMap[e.proTxHash]? = some e ∧
    kept.mnMap[e.proTxHash]? = none)
  (hnodup : (pre ++ d :: rest).Nodup) (hcur : Extended serializeHash kept pre cur)

section

omit [DecidableEq η]
include hmem hnodup

/-- Who stands for the hash of an earlier addition is that addition. -/
theorem addition_unique : ∀ e ∈ pre, e.proTxHash ≠ d.proTxHash := by
  intro e hin hhash
  have henew := (hmem e (mem_append_left _ hin)).1
  rw [hhash, (hmem d (by simp)).1] at henew
  cases henew
  exact (nodup_append.mp hnodup).2.2 d hin d mem_cons_self rfl

include hcur

theorem Extended.absent : cur.mnMap[d.proTxHash]? = none := by
  refine Option.eq_none_iff_forall_ne_some.mpr fun e he => ?_
  rcases (hcur.entries _ _).mp he with he | ⟨hin, hhash⟩
  · rw [(hmem d (by simp)).2] at he
    cases he
  · exact addition_unique hmem hnodup e hin hhash

theorem Extended.free (hc' : Consistent serializeHash newList)
    (hfree : Free serializeHash kept d) : Free serializeHash cur d := by
  intro p hp h howns
  obtain ⟨e, he, q, hq, hqp⟩ := howns
  rcases (hcur.entries h e).mp he with he | ⟨hin, hhash⟩
  · exact hfree p hp h ⟨e, he, q, hq, hqp⟩
  · -- two masternodes of the new list would share the property
    have henew := (hmem e (mem_append_left _ hin)).1
    exact addition_unique hmem hnodup e hin
      (hc'.owns_unique ⟨e, henew, q, hq, hqp⟩ ⟨d, (hmem d (by simp)).1, p, hp, rfl⟩)

end

include hmem hcur

theorem Extended.addCounted_ok (hinj : Injective serializeHash)
    (hc' : Consistent serializeHash newList) (hnodup : (pre ++ d :: rest).Nodup)
    (hid : d.internalId = cur.nTotalRegisteredCount) (hfreekept : Free serializeHash kept d) :
    ∃ list, addCounted serializeHash cur d = .ok list ∧
      Extended serializeHash kept (pre ++ [d]) list := by
  have hs := hc'.sound _ d (hmem d (by simp)).1
  have hnone := hcur.absent hmem hnodup
  have hfree := hcur.free hmem hnodup hc' hfreekept
  have hfresh : d.proTxHash ∉ cur.mnMap := by
    rw [ExtTreeMap.mem_iff_isSome_getElem?, hnone]
    exact Bool.false_ne_true
  have hidfree : cur.mnInternalIdMap[d.internalId]? = none := by
    refine Option.eq_none_iff_forall_ne_some.mpr fun h hh => ?_
    obtain ⟨e, he, hei⟩ := (hcur.consistent.ids _ h).mp hh
    have hlt := hcur.consistent.bound h e he
    omega
  refine ⟨added serializeHash { cur with
    nTotalRegisteredCount := cur.nTotalRegisteredCount + 1 } d, ?_, ?_, hcur.blockHash,
    hcur.nHeight, ?_, ?_⟩
  · unfold addCounted
    rw [decide_eq_true hid, addMN_eq hcur.consistent hinj hs hfresh hfree]
    rfl
  · have hcount := hcur.consistent.withHeader cur.blockHash cur.nHeight
      (le_succ cur.nTotalRegisteredCount)
    exact consistent_added hcount hs hfresh hfree
      (show d.internalId < cur.nTotalRegisteredCount + 1 by omega) hidfree
  · show cur.nTotalRegisteredCount + 1 = _
    rw [hcur.total, length_append, length_singleton]
    omega
  · intro h e
    show (cur.mnMap.insert d.proTxHash d)[h]? = some e ↔ _
    rw [getElem?_insert, mem_append, mem_singleton, or_and_right, ← or_assoc, ← hcur.entries]
    by_cases hh : h = d.proTxHash
    · rw [if_pos hh, hh, hnone, Option.some.injEq]
      exact ⟨fun heq => .inr ⟨heq.symm, by rw [heq]⟩, fun he => (he.resolve_left nofun).1.symm⟩
    · rw [if_neg hh]
      refine (or_iff_left fun he => hh ?_).symm
      rw [← he.2, he.1]

theorem Extended.addCounted_error (hc' : Consistent serializeHash newList)
    (hbad : ¬ (d.internalId = cur.nTotalRegisteredCount ∧ Free serializeHash kept d)) :
    addCounted serializeHash cur d = .error .assertion := by
  obtain ⟨hnew, hkeptnone⟩ := hmem d (by simp)
  unfold addCounted
  by_cases hid : d.internalId = cur.nTotalRegisteredCount
  · have hconflict : ¬ Free serializeHash kept d := fun hfree => hbad ⟨hid, hfree⟩
    unfold Free at hconflict
    push Not at hconflict
    obtain ⟨p, hp, h, e, he, hq⟩ := hconflict
    have hne : h ≠ d.proTxHash := by
      intro heq
      rw [heq, hkeptnone] at he
      cases he
    rw [decide_eq_true hid, addMN_conflict hcur.consistent (hc'.sound _ d hnew) hp
      ⟨e, (hcur.entries h e).mpr (.inl he), hq⟩ hne]
    rfl
  · rw [decide_eq_false hid]
    rfl

end Step

/-- **Additions** go through exactly when they are addable. -/
theorem ensures_additions (hinj : Injective serializeHash) (hc' : Consistent serializeHash newList)
    (hkept : Kept serializeHash oldList newList kept)
    (hl : (oldList.buildDiff newList).addedMNs = l) :
    Ensures (fun _ => ¬ Addable serializeHash kept l)
      (fun list => Extended serializeHash kept l list ∧ Addable serializeHash kept l)
      (l.foldlM (addCounted serializeHash) kept) := by
  have hnodup : l.Nodup := hl ▸ (addedMNs_sorted hc').imp fun hab heq => by
    subst heq
    exact lt_irrefl _ hab
  refine Ensures.foldlM_prefix (fun pre cur => Extended serializeHash kept pre cur ∧
    Addable serializeHash kept pre) ?_ ⟨⟨hkept.consistent, rfl, rfl, rfl, by simp⟩, rfl, by simp⟩
  intro pre d rest hsplit cur hcur
  subst hsplit
  obtain ⟨hcur, hpre⟩ := hcur
  have hmem := fun e (he : e ∈ pre ++ d :: rest) => addedMNs_fresh hc' hkept (hl ▸ he)
  by_cases hgood : d.internalId = cur.nTotalRegisteredCount ∧ Free serializeHash kept d
  · obtain ⟨list, hrun, hext⟩ := hcur.addCounted_ok hmem hinj hc' hnodup hgood.1 hgood.2
    rw [hrun]
    refine ⟨hext, addable_append.mpr ⟨hpre, ?_, ?_⟩⟩
    · simp [hgood.1, hcur.total]
    · simpa using hgood.2
  · rw [hcur.addCounted_error hmem hc' hgood]
    intro hall
    obtain ⟨-, hids, hfree⟩ := addable_append.mp hall
    rw [← hcur.total] at hids
    exact hgood ⟨(cons.inj hids).1, hfree d mem_cons_self⟩

end Additions

/-! ## §4. Updates. -/

/-- The masternodes of both lists differ in their states only. -/
def SameIdentity (oldList newList : CDeterministicMNList η) : Prop :=
  ∀ (h : Uint256) X X', oldList.mnMap[h]? = some X → newList.mnMap[h]? = some X' →
    X' = { X with pdmnState := X'.pdmnState }

/-- The entry of a masternode once the states of the ids in `done` have been updated. -/
def midway (oldList newList : CDeterministicMNList η) (done : List Nat) (h : Uint256) :
    Option CDeterministicMN :=
  newList.mnMap[h]?.map fun X' =>
    match oldList.mnMap[h]? with
    | none => X'
    | some X => if X'.internalId ∈ done then X' else X

section Midway

omit [DecidableEq η]

theorem midway_of_old {done : List Nat} {h : Uint256} {X X' : CDeterministicMN}
    (hX : oldList.mnMap[h]? = some X) (hX' : newList.mnMap[h]? = some X') :
    midway oldList newList done h = some (if X'.internalId ∈ done then X' else X) := by
  unfold midway
  rw [hX', hX]
  rfl

/-- An entry is the new one, or an old one whose update is still ahead. -/
theorem midway_cases {done : List Nat} {h : Uint256} {d : CDeterministicMN}
    (hd : midway oldList newList done h = some d) :
    newList.mnMap[h]? = some d ∨ oldList.mnMap[h]? = some d ∧
      ∃ X', newList.mnMap[h]? = some X' ∧ X'.internalId ∉ done := by
  unfold midway at hd
  obtain ⟨X', hX', hd⟩ := Option.map_eq_some_iff.mp hd
  split at hd
  · exact .inl (hd ▸ hX')
  · next X hX =>
    split at hd
    · exact .inl (hd ▸ hX')
    · next hdone => exact .inr ⟨hd ▸ hX, X', hX', hdone⟩

end Midway

/-- The masternode of id `i` takes over no property of a masternode with a higher id. -/
def TakesNothing (oldList newList : CDeterministicMNList η) (i : Nat) : Prop :=
  ∀ (hX hY : Uint256) X X' Y', oldList.mnMap[hX]? = some X → newList.mnMap[hX]? = some X' →
    newList.mnMap[hY]? = some Y' → Y'.internalId = i → i < X'.internalId →
    ∀ p ∈ X.pdmnState.keys, p.isNull = false → p ∉ Y'.pdmnState.keys

/-- The list with the first updates, which took nothing over. -/
structure Updated (serializeHash : UniqueProperty → η)
    (oldList newList start : CDeterministicMNList η)
    (pre : List (Nat × CDeterministicMNStateDiff)) (list : CDeterministicMNList η) : Prop where
  consistent : Consistent serializeHash list
  header : SameHeader start list
  entries : ∀ h : Uint256, list.mnMap[h]? = midway oldList newList (pre.map Prod.fst) h
  takesNothing : ∀ e ∈ pre, TakesNothing oldList newList e.1

section Step

variable {start cur : CDeterministicMNList η} {pre rest : List (Nat × CDeterministicMNStateDiff)}
  {Y Y' : CDeterministicMN} (hc' : Consistent serializeHash newList)
  (hl : (oldList.buildDiff newList).updatedMNs.toList = pre ++
    (Y'.internalId, CDeterministicMNStateDiff.ofStates Y.pdmnState Y'.pdmnState) :: rest)
  (hcur : Updated serializeHash oldList newList start pre cur)
  (hY : oldList.mnMap[Y'.proTxHash]? = some Y) (hY' : newList.mnMap[Y'.proTxHash]? = some Y')

section

omit [DecidableEq η]
include hl

theorem pending_notMem (i : Nat) (hi : Y'.internalId ≤ i) : i ∉ pre.map Prod.fst := by
  intro hin
  obtain ⟨e, he, hei⟩ := mem_map.mp hin
  have hsorted := hl ▸ updatedMNs_sorted oldList newList
  have hlt : e.1 < Y'.internalId := (pairwise_append.mp hsorted).2.2 e he _ mem_cons_self
  omega

include hcur

theorem Updated.getElem?_pending {h : Uint256} {X X' : CDeterministicMN}
    (hX : oldList.mnMap[h]? = some X) (hX' : newList.mnMap[h]? = some X')
    (hle : Y'.internalId ≤ X'.internalId) : cur.mnMap[h]? = some X := by
  rw [hcur.entries, midway_of_old hX hX', if_neg (pending_notMem hl _ hle)]

include hc' hY'

/-- Whoever has a property of the new state at this point is the masternode itself. -/
theorem Updated.freeFor (hinj : Injective serializeHash) (hc : Consistent serializeHash oldList)
    (hgood : TakesNothing oldList newList Y'.internalId) :
    FreeFor serializeHash cur Y'.proTxHash Y'.pdmnState := by
  intro p hp hnull hZ howns
  obtain ⟨d, hd, q, hq, hqp⟩ := howns
  have hqp := hinj hqp
  subst hqp
  have hown' : Owns serializeHash newList (serializeHash q) Y'.proTxHash :=
    ⟨Y', hY', q, hc'.mem_of_key hY' hp hnull, rfl⟩
  rw [hcur.entries] at hd
  rcases midway_cases hd with hnew | ⟨hold, Z', hZ', hnotdone⟩
  · exact hc'.owns_unique ⟨d, hnew, q, hq, rfl⟩ hown'
  · by_contra hne
    have hqkey := (mem_keys_of_mem (hc.sound hZ d hold).owner hq hp).1
    obtain rfl := (hc'.sound hZ Z' hZ').keyed
    by_cases hstate : d.pdmnState = Z'.pdmnState
    · -- an unchanged state is the new one as well
      have hZ'q := hc'.mem_of_key hZ' (hstate ▸ hqkey) hnull
      exact hne (hc'.owns_unique ⟨Z', hZ', q, hZ'q, rfl⟩ hown')
    · have hmem := hl ▸ (mem_updatedMNs hc').mpr ⟨d, Z', hold, hZ', hstate, rfl⟩
      have hsorted := hl ▸ updatedMNs_sorted oldList newList
      have hlater : Y'.internalId < Z'.internalId := by
        rcases mem_append.mp hmem with hin | hin
        · exact absurd (mem_map_of_mem hin) hnotdone
        · rcases mem_cons.mp hin with heq | hin
          · exact absurd (hc'.ids_inj hZ' hY' (congrArg Prod.fst heq)) hne
          · exact (pairwise_cons.mp (pairwise_append.mp hsorted).2.1).1 _ hin
      exact hgood _ _ d Z' Y' hold hZ' hY' rfl hlater q hqkey hnull hp

end

include hl hcur hY hY'

theorem Updated.updateById_eq (hsame : SameIdentity oldList newList) :
    updateById serializeHash cur
        (Y'.internalId, CDeterministicMNStateDiff.ofStates Y.pdmnState Y'.pdmnState) =
      cur.updateMN serializeHash Y Y'.pdmnState := by
  have hid : Y'.internalId = Y.internalId := by
    rw [hsame _ Y Y' hY hY']
  unfold updateById
  rw [hid, hcur.consistent.getMNByInternalId_eq
    (hcur.getElem?_pending hl hY hY' (Nat.le_refl _))]
  exact congrArg (cur.updateMN serializeHash Y)
    (stateLayout.applyTo_between {} Y.pdmnState Y'.pdmnState)

include hc'

theorem Updated.updateMN_ok (hinj : Injective serializeHash)
    (hc : Consistent serializeHash oldList) (hsame : SameIdentity oldList newList)
    (hgood : TakesNothing oldList newList Y'.internalId) :
    ∃ list, cur.updateMN serializeHash Y Y'.pdmnState = .ok list ∧
      Updated serializeHash oldList newList start (pre ++
        [(Y'.internalId, CDeterministicMNStateDiff.ofStates Y.pdmnState Y'.pdmnState)]) list := by
  have hget := hcur.getElem?_pending hl hY hY' (Nat.le_refl _)
  have hfree := hcur.freeFor hc' hl hY' hinj hc hgood
  refine ⟨_, updateMN_eq hcur.consistent hinj hget hfree,
    consistent_updatedTo hcur.consistent hinj hget hfree (hc'.sound _ Y' hY').owner,
    { hcur.header with }, ?_,
    forall_mem_append.mpr ⟨hcur.takesNothing, forall_mem_singleton.mpr hgood⟩⟩
  intro h
  show (cur.mnMap.insert Y.proTxHash { Y with pdmnState := Y'.pdmnState })[h]? = _
  rw [getElem?_insert, ← hsame _ Y Y' hY hY', (hc.sound _ Y hY).keyed]
  by_cases hh : h = Y'.proTxHash
  · rw [if_pos hh, hh, midway_of_old hY hY', if_pos]
    simp
  · rw [if_neg hh, hcur.entries]
    unfold midway
    cases hX' : newList.mnMap[h]? with
    | none => rfl
    | some X' =>
      have hne : X'.internalId ≠ Y'.internalId := fun heq => hh (hc'.ids_inj hX' hY' heq)
      simp only [Option.map_some, map_append, map_cons, map_nil,
        mem_append, mem_singleton, hne, or_false]

theorem Updated.updateMN_error (hinj : Injective serializeHash)
    (hc : Consistent serializeHash oldList)
    (hbad : ¬ TakesNothing oldList newList Y'.internalId) :
    cur.updateMN serializeHash Y Y'.pdmnState = .error .assertion := by
  unfold TakesNothing at hbad
  push Not at hbad
  obtain ⟨hX, hW, X, X', W', hXold, hXnew, hWnew, hWi, hlt, p, hp, hnull, hpW⟩ := hbad
  obtain rfl := hc'.ids_inj hWnew hY' hWi
  rw [hY'] at hWnew
  cases hWnew
  have hne : hX ≠ Y'.proTxHash := by
    intro heq
    rw [heq, hY'] at hXnew
    cases hXnew
    omega
  have hgetX := hcur.getElem?_pending hl hXold hXnew (Nat.le_of_lt hlt)
  exact updateMN_conflict hcur.consistent hinj
    (hcur.getElem?_pending hl hY hY' (Nat.le_refl _)) hpW hnull
    ⟨X, hgetX, p, hc.mem_of_key hXold hp hnull, rfl⟩ hne

end Step

/-- **Updates** go through exactly when no masternode takes a property over from one that
is updated after it. -/
theorem ensures_updates (hinj : Injective serializeHash) (hc : Consistent serializeHash oldList)
    (hc' : Consistent serializeHash newList) (hsame : SameIdentity oldList newList)
    {start : CDeterministicMNList η} (hstart : Consistent serializeHash start)
    (hentries : ∀ h : Uint256, start.mnMap[h]? = midway oldList newList [] h)
    {l : List (Nat × CDeterministicMNStateDiff)}
    (hl : (oldList.buildDiff newList).updatedMNs.toList = l) :
    Ensures (fun _ => ¬ ∀ e ∈ l, TakesNothing oldList newList e.1)
      (Updated serializeHash oldList newList start l)
      (l.foldlM (updateById serializeHash) start) := by
  refine Ensures.foldlM_prefix (Updated serializeHash oldList newList start) ?_
    ⟨hstart, ⟨rfl, rfl, rfl⟩, hentries, by simp⟩
  intro pre e rest hsplit cur hcur
  subst hsplit
  obtain ⟨Y, Y', hY, hY', -, he⟩ :=
    (mem_updatedMNs hc').mp (hl ▸ mem_append_right pre mem_cons_self)
  subst he
  rw [hcur.updateById_eq hl hY hY' hsame]
  by_cases hgood : TakesNothing oldList newList Y'.internalId
  · obtain ⟨list, hrun, hupdated⟩ := hcur.updateMN_ok hc' hl hY hY' hinj hc hsame hgood
    rw [hrun]
    exact hupdated
  · rw [hcur.updateMN_error hc' hl hY hY' hinj hc hgood]
    exact fun hall => hgood (hall _ (mem_append_right pre mem_cons_self))

/-! ## §5. The whole difference. -/

/-- A masternode of both lists gives up a property that is of a masternode added with
the difference, or of one that is updated before it. -/
def HandsOver (oldList newList : CDeterministicMNList η) : Prop :=
  ∃ (hX hY : Uint256) (X X' Y' : CDeterministicMN), oldList.mnMap[hX]? = some X ∧
    newList.mnMap[hX]? = some X' ∧ newList.mnMap[hY]? = some Y' ∧ hX ≠ hY ∧
    (oldList.mnMap[hY]? = none ∨ Y'.internalId < X'.internalId) ∧
    ∃ p ∈ X.pdmnState.keys, p.isNull = false ∧ p ∈ Y'.pdmnState.keys

/-- Every id that was given out since the old list is in use. -/
def NoGaps (oldList newList : CDeterministicMNList η) : Prop :=
  ∀ i, oldList.nTotalRegisteredCount ≤ i → i < newList.nTotalRegisteredCount →
    ∃ h, newList.mnInternalIdMap[i]? = some h

omit [DecidableEq η] in
/-- With all additions, each masternode of the new list is there, in its old state if it
had one. -/
theorem extended_eq_midway (hc' : Consistent serializeHash newList)
    {kept list : CDeterministicMNList η} (hkept : Kept serializeHash oldList newList kept)
    (hext : Extended serializeHash kept (oldList.buildDiff newList).addedMNs list) (h : Uint256) :
    list.mnMap[h]? = midway oldList newList [] h := by
  refine Option.ext fun d => ?_
  rw [hext.entries, hkept.entries, mem_addedMNs hc']
  unfold midway
  cases hnew : newList.mnMap[h]? with
  | none =>
    simp only [reduceCtorEq, exists_false, and_false, false_or, Option.map_none]
    refine iff_of_false ?_ not_false
    intro hd
    rw [hd.2, hnew] at hd
    cases hd.1.1
  | some X' =>
    have hkeyed := (hc'.sound h X' hnew).keyed
    cases hold : oldList.mnMap[h]? with
    | none =>
      simp only [reduceCtorEq, false_and, false_or, Option.map_some, Option.some.injEq]
      constructor
      · intro hd
        rw [hd.2, hnew] at hd
        exact Option.some.inj hd.1.1
      · intro hd
        subst hd
        rw [hkeyed, hnew, hold]
        exact ⟨⟨rfl, rfl⟩, rfl⟩
    | some X =>
      simp only [Option.some.injEq, exists_eq', and_true, Option.map_some,
        not_mem_nil, if_false]
      refine or_iff_left ?_
      intro hd
      rw [hd.2, hold] at hd
      cases hd.1.2

/-- Entries stand under their own hashes. -/
def Keyed (list : CDeterministicMNList η) : Prop :=
  ∀ (h : Uint256) d, list.mnMap[h]? = some d → d.proTxHash = h

theorem updateById_identity {list list' : CDeterministicMNList η}
    {e : Nat × CDeterministicMNStateDiff} (hkeyed : Keyed list)
    (hrun : updateById serializeHash list e = .ok list') :
    Keyed list' ∧ ∀ (h : Uint256) d, list.mnMap[h]? = some d →
      ∃ s, list'.mnMap[h]? = some { d with pdmnState := s } := by
  obtain ⟨Y, hY, hupd⟩ := bind_eq_ok.mp hrun
  obtain ⟨m, -, hend⟩ := bind_eq_ok.mp hupd
  cases hend
  have hget : list.getMNByInternalId e.1 = some Y := by
    revert hY
    cases list.getMNByInternalId e.1 <;> simp [assertSome]
  obtain ⟨k, -, hk⟩ := Option.bind_eq_some_iff.mp hget
  have hkY : list.mnMap[k]? = some Y := hk
  have hk : Y.proTxHash = k := hkeyed k Y hkY
  refine ⟨?_, ?_⟩
  · intro h d hd
    rw [getElem?_insert] at hd
    split at hd
    · rename_i hh
      cases hd
      exact hh.symm
    · exact hkeyed h d hd
  · intro h d hd
    rw [getElem?_insert]
    by_cases hh : h = Y.proTxHash
    · rw [hh, hk, hkY] at hd
      cases hd
      rw [if_pos hh]
      exact ⟨_, rfl⟩
    · rw [if_neg hh]
      exact ⟨d.pdmnState, hd⟩

theorem updates_identity {start list : CDeterministicMNList η}
    {l : List (Nat × CDeterministicMNStateDiff)} (hkeyed : Keyed start)
    (hrun : l.foldlM (updateById serializeHash) start = .ok list) :
    ∀ (h : Uint256) d, start.mnMap[h]? = some d →
      ∃ s, list.mnMap[h]? = some { d with pdmnState := s } := by
  have hinv := foldlM_invariant (fun cur => Keyed cur ∧
    ∀ (h : Uint256) d, start.mnMap[h]? = some d →
      ∃ s, cur.mnMap[h]? = some { d with pdmnState := s }) ?_
    ⟨hkeyed, fun h d hd => ⟨d.pdmnState, hd⟩⟩ hrun
  · exact hinv.2
  · intro cur e _ cur' hcur hstep
    obtain ⟨hkeyed', hident⟩ := updateById_identity hcur.1 hstep
    refine ⟨hkeyed', ?_⟩
    intro h d hd
    obtain ⟨s, hs⟩ := hcur.2 h d hd
    obtain ⟨s', hs'⟩ := hident h _ hs
    exact ⟨s', hs'⟩

omit [DecidableEq η] in
theorem added_ids (hc : Consistent serializeHash oldList) (hc' : Consistent serializeHash newList)
    (htotal : oldList.nTotalRegisteredCount ≤ newList.nTotalRegisteredCount)
    (hnewids : ∀ (h : Uint256) d, newList.mnMap[h]? = some d → oldList.mnMap[h]? = none →
      oldList.nTotalRegisteredCount ≤ d.internalId)
    (hsame : SameIdentity oldList newList) (hgaps : NoGaps oldList newList) :
    (oldList.buildDiff newList).addedMNs.map (·.internalId) =
      range' oldList.nTotalRegisteredCount
        (newList.nTotalRegisteredCount - oldList.nTotalRegisteredCount) := by
  -- both lists increase strictly
  refine List.Pairwise.eq_of_mem_iff (pairwise_map.mpr (addedMNs_sorted hc')) pairwise_lt_range' ?_
  · intro i
    rw [mem_map, mem_range'_1]
    constructor
    · intro hd
      obtain ⟨d, hd, hdi⟩ := hd
      obtain ⟨hnew, hold⟩ := (mem_addedMNs hc').mp hd
      have hlow := hnewids _ d hnew hold
      have hhigh := hc'.bound _ d hnew
      omega
    · intro hi
      obtain ⟨h, hh⟩ := hgaps i hi.1 (by omega)
      obtain ⟨d, hd, hdi⟩ := (hc'.ids i h).mp hh
      obtain rfl := (hc'.sound h d hd).keyed
      refine ⟨d, (mem_addedMNs hc').mpr ⟨hd, ?_⟩, hdi⟩
      refine Option.eq_none_iff_forall_ne_some.mpr fun X hX => ?_
      -- a masternode of both lists has an id from before
      have hlt := hc.bound _ X hX
      have hident := hsame _ X d hX hd
      rw [hident] at hdi
      replace hdi : X.internalId = i := hdi
      omega

section Whole

variable {kept list result : CDeterministicMNList η} (hc : Consistent serializeHash oldList)
  (hc' : Consistent serializeHash newList)

omit [DecidableEq η] in
include hc hc' in
/-- Additions and updates that went through took nothing from a masternode that was there. -/
theorem not_handsOver (hkept : Kept serializeHash oldList newList kept)
    (hfree : ∀ d ∈ (oldList.buildDiff newList).addedMNs, Free serializeHash kept d)
    (htakes : ∀ e ∈ (oldList.buildDiff newList).updatedMNs.toList,
      TakesNothing oldList newList e.1) : ¬ HandsOver oldList newList := by
  intro hhand
  obtain ⟨hX, hY, X, X', Y', hXold, hXnew, hYnew, hne, hcase, p, hp, hnull, hpY⟩ := hhand
  obtain rfl := (hc'.sound hY Y' hYnew).keyed
  have hXp := hc.mem_of_key hXold hp hnull
  cases hYold : oldList.mnMap[Y'.proTxHash]? with
  | none =>
    exact hfree Y' ((mem_addedMNs hc').mpr ⟨hYnew, hYold⟩) p (hc'.mem_of_key hYnew hpY hnull) hX
      ⟨X, (hkept.entries hX X).mpr ⟨hXold, X', hXnew⟩, p, hXp, rfl⟩
  | some Y =>
    have hlt := hcase.resolve_left (by rw [hYold]; nofun)
    -- it took the property over in this block
    have hstate : Y.pdmnState ≠ Y'.pdmnState := by
      intro heq
      have hYp := hc.mem_of_key hYold (heq ▸ hpY) hnull
      exact hne (hc.owns_unique ⟨X, hXold, p, hXp, rfl⟩ ⟨Y, hYold, p, hYp, rfl⟩)
    have hmem := (mem_updatedMNs hc').mpr ⟨Y, Y', hYold, hYnew, hstate, rfl⟩
    exact htakes _ hmem hX _ X X' Y' hXold hXnew hYnew rfl hlt p hp hnull hpY

omit [DecidableEq η] in
theorem takesNothing_of_not_handsOver (hhand : ¬ HandsOver oldList newList) (i : Nat) :
    TakesNothing oldList newList i := by
  intro hX hY X X' Y' hXold hXnew hYnew hYi hlt p hp hnull hpY
  have hne : hX ≠ hY := by
    intro heq
    rw [heq, hYnew] at hXnew
    cases hXnew
    omega
  exact hhand ⟨hX, hY, X, X', Y', hXold, hXnew, hYnew, hne, .inr (by omega), p, hp, hnull, hpY⟩

omit [DecidableEq η] in
include hc hc' in
theorem free_of_not_handsOver (hinj : Injective serializeHash)
    (hsame : SameIdentity oldList newList) (hhand : ¬ HandsOver oldList newList)
    (hkept : Kept serializeHash oldList newList kept) :
    ∀ d ∈ (oldList.buildDiff newList).addedMNs, Free serializeHash kept d := by
  intro d hmem p hp hX howns
  obtain ⟨hnew, hold⟩ := (mem_addedMNs hc').mp hmem
  obtain ⟨X, hX', q, hq, hqp⟩ := howns
  have hqp := hinj hqp
  subst hqp
  obtain ⟨hXold, X', hXnew⟩ := (hkept.entries hX X).mp hX'
  have hne : hX ≠ d.proTxHash := by
    intro heq
    rw [heq, hold] at hXold
    cases hXold
  rcases (mem_uniqueProperties (hc.sound hX X hXold).owner).mp hq with hcoll | hkey
  · -- a collateral stays with its masternode
    have hqX' : q ∈ X'.uniqueProperties := by
      rw [hcoll, collateral_mem_uniqueProperties, hsame hX X X' hXold hXnew]
    exact hne (hc'.owns_unique ⟨X', hXnew, q, hqX', rfl⟩ ⟨d, hnew, q, hp, rfl⟩)
  · exact hhand ⟨hX, d.proTxHash, X, X', d, hXold, hXnew, hnew, hne, .inl hold, q,
      hkey.1, hkey.2, (mem_keys_of_mem (hc'.sound _ d hnew).owner hp hkey.1).1⟩

omit [DecidableEq η] in
include hc' in
theorem Updated.mnMap_eq (hsame : SameIdentity oldList newList)
    (hupd : Updated serializeHash oldList newList list
      (oldList.buildDiff newList).updatedMNs.toList result) : result.mnMap = newList.mnMap := by
  refine ExtTreeMap.ext_getElem? fun h => ?_
  rw [hupd.entries]
  unfold midway
  cases hnew : newList.mnMap[h]? with
  | none => rfl
  | some X' =>
    cases hold : oldList.mnMap[h]? with
    | none => rfl
    | some X =>
      show some (if _ then X' else X) = some X'
      split
      · rfl
      · rename_i hnot
        -- not updated, so the states are the same
        obtain rfl := (hc'.sound h X' hnew).keyed
        have hstate : X.pdmnState = X'.pdmnState := by
          by_contra hne
          exact hnot (mem_map_of_mem ((mem_updatedMNs hc').mpr ⟨X, X', hold, hnew, hne, rfl⟩))
        rw [hsame _ X X' hold hnew, ← hstate]

end Whole

section Difference

variable (hinj : Injective serializeHash) (hc : Consistent serializeHash oldList)
  (hc' : Consistent serializeHash newList)
include hinj hc hc'

theorem conditions_of_applied {blockHash : Uint256} {nHeight : Int}
    (hrun : oldList.applyDiff serializeHash blockHash nHeight (oldList.buildDiff newList) =
      .ok { newList with blockHash, nHeight }) :
    SameIdentity oldList newList ∧ NoGaps oldList newList ∧ ¬ HandsOver oldList newList := by
  obtain ⟨kept, hkeptrun, hrun⟩ := bind_eq_ok.mp hrun
  obtain ⟨list, hlistrun, hrun⟩ := bind_eq_ok.mp hrun
  obtain ⟨hkept, -, -⟩ := (ensures_removals hinj hc newList blockHash nHeight).of_ok hkeptrun
  obtain ⟨hext, hids, hfree⟩ := (ensures_additions hinj hc' hkept rfl).of_ok hlistrun
  have hsame : SameIdentity oldList newList := by
    intro h X X' hX hX'
    have hlist : list.mnMap[h]? = some X :=
      (hext.entries h X).mpr (.inl ((hkept.entries h X).mpr ⟨hX, X', hX'⟩))
    obtain ⟨s, hs⟩ := updates_identity (fun k d hd => (hext.consistent.sound k d hd).keyed)
      hrun h X hlist
    replace hs : newList.mnMap[h]? = _ := hs
    rw [hX'] at hs
    cases hs
    rfl
  have hupd := (ensures_updates hinj hc hc' hsame hext.consistent
    (extended_eq_midway hc' hkept hext) rfl).of_ok hrun
  refine ⟨hsame, ?_, not_handsOver hc hc' hkept hfree hupd.takesNothing⟩
  intro i hlow hhigh
  have hcount : newList.nTotalRegisteredCount = list.nTotalRegisteredCount :=
    hupd.header.nTotalRegisteredCount
  have hi : i ∈ (oldList.buildDiff newList).addedMNs.map (·.internalId) := by
    rw [hids, mem_range'_1, ← hext.total, hkept.total, ← hcount]
    exact ⟨hlow, hhigh⟩
  obtain ⟨d, hd, hdi⟩ := mem_map.mp hi
  exact ⟨d.proTxHash, (hc'.ids i _).mpr ⟨d, ((mem_addedMNs hc').mp hd).1, hdi⟩⟩

/-- **`ApplyDiff` of `BuildDiff`** gives the new list exactly when the masternodes of both
lists have kept their identity, no id given out since is unused, and no property is handed
over against the order of the updates. -/
theorem applyDiff_buildDiff_iff
    (htotal : oldList.nTotalRegisteredCount ≤ newList.nTotalRegisteredCount)
    (hnewids : ∀ (h : Uint256) d, newList.mnMap[h]? = some d → oldList.mnMap[h]? = none →
      oldList.nTotalRegisteredCount ≤ d.internalId) (blockHash : Uint256) (nHeight : Int) :
    oldList.applyDiff serializeHash blockHash nHeight (oldList.buildDiff newList) =
        .ok { newList with blockHash, nHeight } ↔
      SameIdentity oldList newList ∧ NoGaps oldList newList ∧ ¬ HandsOver oldList newList := by
  refine ⟨conditions_of_applied hinj hc hc', fun hcond => ?_⟩
  obtain ⟨hsame, hgaps, hhand⟩ := hcond
  have hids := added_ids hc hc' htotal hnewids hsame hgaps
  have hlength : (oldList.buildDiff newList).addedMNs.length =
      newList.nTotalRegisteredCount - oldList.nTotalRegisteredCount := by
    have hlen := congrArg length hids
    rwa [length_map, length_range'] at hlen
  obtain ⟨kept, hkeptrun, hkept, hhash, hheight⟩ :=
    (ensures_removals hinj hc newList blockHash nHeight).exists_ok
  have haddable : Addable serializeHash kept (oldList.buildDiff newList).addedMNs :=
    ⟨by rw [hkept.total, hlength]; exact hids, free_of_not_handsOver hc hc' hinj hsame hhand hkept⟩
  obtain ⟨list, hlistrun, hext, -⟩ := (ensures_additions hinj hc' hkept rfl).exists_ok_of_not
    fun _ hnot => hnot haddable
  obtain ⟨result, hresult, hupd⟩ := (ensures_updates hinj hc hc' hsame hext.consistent
    (extended_eq_midway hc' hkept hext) rfl).exists_ok_of_not
      fun _ hnot => hnot fun e _ => takesNothing_of_not_handsOver hhand e.1
  have hmap := hupd.mnMap_eq hc' hsame
  have heq : result = { newList with blockHash, nHeight } := by
    refine Consistent.ext (hc'.withHeader blockHash nHeight (Nat.le_refl _)) hupd.consistent
      ⟨?_, ?_, ?_⟩ hmap
    · rw [hupd.header.blockHash, hext.blockHash]
      exact hhash
    · rw [hupd.header.nHeight, hext.nHeight]
      exact hheight
    · rw [hupd.header.nTotalRegisteredCount, hext.total, hkept.total, hlength]
      show _ = newList.nTotalRegisteredCount
      omega
  unfold applyDiff
  rw [hkeptrun, ok_bind, hlistrun, ok_bind, hresult, heq]

end Difference

end Zcoin.Evo.CDeterministicMNList
