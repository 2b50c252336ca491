/-
  Zcoin.Evo.Consistency — the three maps of a masternode list say the same.

  A list is consistent when its map of unique properties and its map of internal ids
  are what the masternodes in `mnMap` make of them.  Each of `AddMN`, `UpdateMN` and
  `RemoveMN` has one lemma that says what it does to `mnMap` and that it keeps the
  list consistent, and one that says when it asserts.
-/
import Zcoin.Evo.Masternode

namespace Zcoin.Evo

open List hiding getElem?_insert
open Std Function
open Chain Lib Lib.OrderedMap

/-! ## §1. The properties of a masternode. -/

/-- The properties a state holds; `UpdateMN` goes through them. -/
def CDeterministicMNState.keys (s : CDeterministicMNState) : List UniqueProperty :=
  [.service s.addr, .keyID s.keyIDOwner, .operatorKey s.pubKeyOperator]

theorem uniqueProperties_nodup (dmn : CDeterministicMN) : dmn.uniqueProperties.Nodup := by
  unfold CDeterministicMN.uniqueProperties
  split <;> split <;> simp

variable {dmn : CDeterministicMN}

theorem mem_uniqueProperties (howner : dmn.pdmnState.keyIDOwner ≠ 0) {p : UniqueProperty} :
    p ∈ dmn.uniqueProperties ↔ p = .collateral dmn.collateralOutpoint ∨
      p ∈ dmn.pdmnState.keys ∧ p.isNull = false := by
  unfold CDeterministicMN.uniqueProperties CDeterministicMNState.keys CBLSPublicKey.isValid
  simp only [mem_append, mem_cons, not_mem_nil, or_false, decide_eq_true_eq,
    mem_ite_nil_right]
  cases p with
  | collateral outpoint => simp
  | service addr =>
    simp only [UniqueProperty.isNull, UniqueProperty.service.injEq, reduceCtorEq, or_false,
      false_or, and_false, decide_eq_false_iff_not]
    exact ⟨fun h => ⟨h.2, h.2 ▸ h.1⟩, fun h => ⟨h.1 ▸ h.2, h.1⟩⟩
  | keyID key =>
    simp only [UniqueProperty.isNull, UniqueProperty.keyID.injEq, reduceCtorEq, or_false,
      false_or, and_false, decide_eq_false_iff_not]
    exact ⟨fun h => ⟨h, h ▸ howner⟩, fun h => h.1⟩
  | operatorKey key =>
    simp only [UniqueProperty.isNull, UniqueProperty.operatorKey.injEq, reduceCtorEq, or_false,
      false_or, and_false, decide_eq_false_iff_not]
    exact ⟨fun h => ⟨h.2, h.2 ▸ h.1⟩, fun h => ⟨h.1 ▸ h.2, h.1⟩⟩

theorem collateral_mem_uniqueProperties {outpoint : COutPoint} :
    .collateral outpoint ∈ dmn.uniqueProperties ↔ outpoint = dmn.collateralOutpoint := by
  unfold CDeterministicMN.uniqueProperties
  split <;> split <;> simp

theorem mem_keys_of_mem (howner : dmn.pdmnState.keyIDOwner ≠ 0) {p : UniqueProperty}
    {s : CDeterministicMNState} (hp : p ∈ dmn.uniqueProperties) (hs : p ∈ s.keys) :
    p ∈ dmn.pdmnState.keys ∧ p.isNull = false := by
  refine ((mem_uniqueProperties howner).mp hp).resolve_left fun hcoll => ?_
  rw [hcoll] at hs
  simp [CDeterministicMNState.keys] at hs

namespace CDeterministicMNList

variable {η : Type} {serializeHash : UniqueProperty → η}

/-! ## §2. Consistent lists. -/

variable (serializeHash : UniqueProperty → η) (list : CDeterministicMNList η)

/-- A listed masternode with a property of this hash. -/
def Owns (x : η) (h : Uint256) : Prop :=
  ∃ dmn, list.mnMap[h]? = some dmn ∧ ∃ p ∈ dmn.uniqueProperties, serializeHash p = x

/-- What is required of a masternode that is listed under `h`. -/
structure Sound (h : Uint256) (dmn : CDeterministicMN) : Prop where
  keyed : dmn.proTxHash = h
  owner : dmn.pdmnState.keyIDOwner ≠ 0
  collateral : dmn.collateralOutpoint.isNull = false

/-- **Consistency** of a list: every entry is sound, the property map lists exactly the
properties of the entries, each once, and the id map is the inverse of `internalId`. -/
structure Consistent : Prop where
  sound : ∀ (h : Uint256) dmn, list.mnMap[h]? = some dmn → Sound h dmn
  properties : ∀ x h n, list.mnUniquePropertyMap x = some (h, n) ↔
    n = 1 ∧ Owns serializeHash list x h
  ids : ∀ (i : Nat) h, list.mnInternalIdMap[i]? = some h ↔
    ∃ dmn, list.mnMap[h]? = some dmn ∧ dmn.internalId = i
  bound : ∀ (h : Uint256) dmn, list.mnMap[h]? = some dmn →
    dmn.internalId < list.nTotalRegisteredCount

variable {serializeHash}

/-- Block hash, height and count of registrations. -/
structure SameHeader (list list' : CDeterministicMNList η) : Prop where
  blockHash : list'.blockHash = list.blockHash
  nHeight : list'.nHeight = list.nHeight
  nTotalRegisteredCount : list'.nTotalRegisteredCount = list.nTotalRegisteredCount

theorem consistent_empty (blockHash : Uint256) (nHeight : Int) :
    Consistent serializeHash { blockHash, nHeight : CDeterministicMNList η } where
  sound := by simp
  properties := by simp [Owns]
  ids := by simp
  bound := by simp

namespace Consistent

variable {list : CDeterministicMNList η} (hc : Consistent serializeHash list)
include hc

/-- Only the header and `mnMap` of a consistent list are free. -/
theorem ext {list' : CDeterministicMNList η} (hc' : Consistent serializeHash list')
    (hheader : SameHeader list list') (hmap : list'.mnMap = list.mnMap) : list' = list := by
  have hproperties : list'.mnUniquePropertyMap = list.mnUniquePropertyMap := by
    funext x
    refine Option.ext fun e => ?_
    obtain ⟨h, n⟩ := e
    rw [hc'.properties, hc.properties]
    unfold Owns
    rw [hmap]
  have hids : list'.mnInternalIdMap = list.mnInternalIdMap := by
    refine ExtTreeMap.ext_getElem? fun i => Option.ext fun h => ?_
    rw [hc'.ids, hc.ids, hmap]
  obtain ⟨hhash, hheight, htotal⟩ := hheader
  cases list
  cases list'
  simp_all

theorem withHeader (blockHash : Uint256) (nHeight : Int)
    {total : Nat} (htotal : list.nTotalRegisteredCount ≤ total) :
    Consistent serializeHash
      { list with blockHash, nHeight, nTotalRegisteredCount := total } where
  sound := hc.sound
  properties := hc.properties
  ids := hc.ids
  bound := fun h dmn hget => Nat.lt_of_lt_of_le (hc.bound h dmn hget) htotal

theorem owns_unique {x : η} {h h' : Uint256}
    (hx : Owns serializeHash list x h) (hx' : Owns serializeHash list x h') : h = h' := by
  have hget := (hc.properties x h 1).mpr ⟨rfl, hx⟩
  rw [(hc.properties x h' 1).mpr ⟨rfl, hx'⟩] at hget
  cases hget
  rfl

theorem property_eq_none_iff {x : η} :
    list.mnUniquePropertyMap x = none ↔ ∀ h, ¬ Owns serializeHash list x h := by
  constructor
  · intro hnone h hx
    have hget := (hc.properties x h 1).mpr ⟨rfl, hx⟩
    rw [hnone] at hget
    cases hget
  · intro hfree
    cases hget : list.mnUniquePropertyMap x with
    | none => rfl
    | some e => exact absurd ((hc.properties x e.1 e.2).mp hget).2 (hfree e.1)

omit hc

variable {p : UniqueProperty} {dmn : CDeterministicMN}

theorem hasUniqueProperty_iff (hc : Consistent serializeHash list) :
    list.hasUniqueProperty serializeHash p = true ↔
      ∃ h, Owns serializeHash list (serializeHash p) h := by
  show (list.mnUniquePropertyMap (serializeHash p)).isSome = true ↔ _
  rw [← not_iff_not, not_exists, ← hc.property_eq_none_iff, Bool.not_eq_true,
    Option.isSome_eq_false_iff, Option.isNone_iff_eq_none]

theorem owns_of_mem {h : Uint256} (hget : list.mnMap[h]? = some dmn)
    (hp : p ∈ dmn.uniqueProperties) :
    Owns serializeHash list (serializeHash p) h := ⟨dmn, hget, p, hp, rfl⟩

variable (hc : Consistent serializeHash list) (hinj : Injective serializeHash)
include hc hinj

/-- `GetUniquePropertyMN` finds the entry that has the property. -/
theorem getUniquePropertyMN_eq_some_iff :
    list.getUniquePropertyMN serializeHash p = some dmn ↔
      list.mnMap[dmn.proTxHash]? = some dmn ∧ p ∈ dmn.uniqueProperties := by
  unfold getUniquePropertyMN getMN
  rw [Option.bind_eq_some_iff]
  constructor
  · intro hfound
    obtain ⟨⟨h, n⟩, hget, hdmn⟩ := hfound
    obtain ⟨-, dmn', hdmn', q, hq, hqp⟩ := (hc.properties _ h n).mp hget
    replace hdmn : list.mnMap[h]? = some dmn := hdmn
    rw [hdmn] at hdmn'
    cases hdmn'
    rw [(hc.sound h dmn hdmn).keyed]
    exact ⟨hdmn, hinj hqp ▸ hq⟩
  · intro hlisted
    refine ⟨(dmn.proTxHash, 1), ?_, hlisted.1⟩
    exact (hc.properties _ _ 1).mpr ⟨rfl, owns_of_mem hlisted.1 hlisted.2⟩

theorem getMNByCollateral_eq_some_iff {outpoint : COutPoint} :
    list.getMNByCollateral serializeHash outpoint = some dmn ↔
      list.mnMap[dmn.proTxHash]? = some dmn ∧ outpoint = dmn.collateralOutpoint := by
  unfold getMNByCollateral
  rw [hc.getUniquePropertyMN_eq_some_iff hinj, collateral_mem_uniqueProperties]

end Consistent

/-! ## §3. From properties to their hashes. -/

section Hashes

/-- The key of a property in the index, if it has one. -/
def keyOf (serializeHash : UniqueProperty → η) (p : UniqueProperty) : Option η :=
  if p.isNull then none else some (serializeHash p)

theorem keyOf_eq_some_iff {p : UniqueProperty} {x : η} :
    keyOf serializeHash p = some x ↔ p.isNull = false ∧ serializeHash p = x := by
  unfold keyOf
  cases p.isNull <;> simp

/-- The changes `UpdateMN` makes. -/
def changesOf (s s' : CDeterministicMNState) : List (UniqueProperty × UniqueProperty) :=
  s.keys.zip s'.keys

variable {change : UniqueProperty × UniqueProperty}

theorem changesOf_same (hinj : Injective serializeHash) {s s' : CDeterministicMNState}
    (hmem : change ∈ changesOf s s')
    (hkey : keyOf serializeHash change.1 = keyOf serializeHash change.2) : change.1 = change.2 := by
  have hkind : change.1.isNull = true → change.2.isNull = true → change.1 = change.2 := by
    simp only [changesOf, CDeterministicMNState.keys, zip_cons_cons, zip_nil_right,
      mem_cons, not_mem_nil, or_false] at hmem
    rcases hmem with h | h | h <;> subst h <;>
      simp only [UniqueProperty.isNull, decide_eq_true_eq] <;> intro h h' <;> rw [h, h']
  unfold keyOf at hkey
  cases hold : change.1.isNull <;> cases hnew : change.2.isNull <;>
    simp only [hold, hnew, Bool.false_eq_true, if_false, if_true, Option.some.injEq,
      reduceCtorEq] at hkey
  · exact hinj hkey
  · exact hkind hold hnew

variable [DecidableEq η] {dmn : CDeterministicMN} {m : OwnerIndex η Uint256}

theorem assertSome_bind {α β : Type} (x : Option α) (f : α → Option β) :
    (assertSome x >>= fun a => assertSome (f a)) = assertSome (x.bind f) := by
  cases x <;> rfl

omit [DecidableEq η] in
theorem foldlM_assertSome {α κ : Type} {l : List α} {key : α → κ}
    {f : OwnerIndex η Uint256 → α → Except Abort (OwnerIndex η Uint256)}
    {g : OwnerIndex η Uint256 → κ → Option (OwnerIndex η Uint256)}
    (hstep : ∀ p ∈ l, ∀ m, f m p = assertSome (g m (key p))) :
    l.foldlM f m = assertSome ((l.map key).foldlM g m) := by
  induction l generalizing m with
  | nil => rfl
  | cons p l ih =>
    have htail := fun m => ih (m := m) fun q hq => hstep q (mem_cons_of_mem p hq)
    rw [foldlM_cons, map_cons, foldlM_cons, hstep p mem_cons_self]
    simp only [htail]
    exact assertSome_bind _ _

variable {l : List UniqueProperty}

theorem addUniqueProperties_eq (hnull : ∀ p ∈ l, p.isNull = false) :
    l.foldlM (addUniqueProperty serializeHash dmn) m =
      assertSome ((l.map serializeHash).foldlM (OwnerIndex.add dmn.proTxHash) m) := by
  refine foldlM_assertSome fun p hp m => ?_
  unfold addUniqueProperty
  rw [hnull p hp]
  rfl

theorem deleteUniqueProperties_eq (hnull : ∀ p ∈ l, p.isNull = false) :
    l.foldlM (deleteUniqueProperty serializeHash dmn) m =
      assertSome ((l.map serializeHash).foldlM (OwnerIndex.delete dmn.proTxHash) m) := by
  refine foldlM_assertSome fun p hp m => ?_
  unfold deleteUniqueProperty
  rw [hnull p hp]
  rfl

theorem updateUniqueProperty_eq
    (hsame : keyOf serializeHash change.1 = keyOf serializeHash change.2 → change.1 = change.2) :
    updateUniqueProperty serializeHash dmn m change =
      assertSome (OwnerIndex.replace dmn.proTxHash m
        (keyOf serializeHash change.1, keyOf serializeHash change.2)) := by
  obtain ⟨old, new⟩ := change
  unfold updateUniqueProperty OwnerIndex.replace
  by_cases heq : old = new
  · subst heq
    simp [assertSome]
  · rw [if_neg heq, if_neg fun h => heq (hsame h)]
    unfold keyOf addUniqueProperty deleteUniqueProperty
    cases hold : old.isNull <;> cases hnew : new.isNull <;>
      simp [assertSome, assertThat]
    · cases OwnerIndex.delete dmn.proTxHash m (serializeHash old) <;> rfl
    · cases OwnerIndex.delete dmn.proTxHash m (serializeHash old) <;> rfl

end Hashes

/-! ## §4. `AddMN`. -/

variable [DecidableEq η] {list : CDeterministicMNList η}

namespace Sound

variable {h : Uint256} {dmn : CDeterministicMN}

theorem not_isNull (hs : Sound h dmn) : ∀ p ∈ dmn.uniqueProperties, p.isNull = false := by
  intro p hp
  rcases (mem_uniqueProperties hs.owner).mp hp with hp | hp
  · subst hp
    exact hs.collateral
  · exact hp.2

end Sound

variable (serializeHash : UniqueProperty → η) (list : CDeterministicMNList η)

/-- What `AddMN` returns when it does not assert. -/
def added (dmn : CDeterministicMN) : CDeterministicMNList η :=
  { list with
    mnMap := list.mnMap.insert dmn.proTxHash dmn
    mnInternalIdMap := list.mnInternalIdMap.insert dmn.internalId dmn.proTxHash
    mnUniquePropertyMap := fun x =>
      if x ∈ dmn.uniqueProperties.map serializeHash then some (dmn.proTxHash, 1)
      else list.mnUniquePropertyMap x }

/-- No listed masternode has a property of this one. -/
def Free (dmn : CDeterministicMN) : Prop :=
  ∀ p ∈ dmn.uniqueProperties, ∀ h, ¬ Owns serializeHash list (serializeHash p) h

variable {dmn : CDeterministicMN} {h : Uint256} {s : CDeterministicMNState}
  (hc : Consistent serializeHash list)
include hc

variable {serializeHash} {list}

theorem addMN_eq (hinj : Injective serializeHash) (hs : Sound dmn.proTxHash dmn)
    (hfresh : dmn.proTxHash ∉ list.mnMap) (hfree : Free serializeHash list dmn) :
    list.addMN serializeHash dmn = .ok (added serializeHash list dmn) := by
  have hnodup : (dmn.uniqueProperties.map serializeHash).Nodup :=
    (uniqueProperties_nodup dmn).map hinj
  have hnone : ∀ x ∈ dmn.uniqueProperties.map serializeHash, list.mnUniquePropertyMap x = none := by
    intro x hx
    obtain ⟨p, hp, hpx⟩ := mem_map.mp hx
    rw [← hpx, hc.property_eq_none_iff]
    exact hfree p hp
  unfold addMN
  rw [addUniqueProperties_eq hs.not_isNull, OwnerIndex.addAll_eq hnodup hnone,
    decide_eq_true hfresh]
  rfl

omit [DecidableEq η] in
/-- **The entry under one hash changes**, and the two indexes with it. -/
theorem consistent_changed {list' : CDeterministicMNList η} (h : Uint256)
    (new : Option CDeterministicMN)
    (hlookup : ∀ h', list'.mnMap[h']? = if h' = h then new else list.mnMap[h']?)
    (htotal : list'.nTotalRegisteredCount = list.nTotalRegisteredCount)
    (hnew : ∀ d ∈ new, Sound h d ∧ d.internalId < list.nTotalRegisteredCount)
    (hproperties : Reassigned list.mnUniquePropertyMap list'.mnUniquePropertyMap (h, 1)
      fun x => ∃ d ∈ new, ∃ p ∈ d.uniqueProperties, serializeHash p = x)
    (hids : Reassigned (list.mnInternalIdMap[·]?) (list'.mnInternalIdMap[·]?) h
      fun i => ∃ d ∈ new, d.internalId = i) : Consistent serializeHash list' := by
  have hentry : ∀ (h' : Uint256) d, list'.mnMap[h']? = some d →
      Sound h' d ∧ d.internalId < list.nTotalRegisteredCount := by
    intro h' d hget
    rw [hlookup] at hget
    split at hget
    · next heq => exact heq ▸ hnew d hget
    · exact ⟨hc.sound h' d hget, hc.bound h' d hget⟩
  refine ⟨fun h' d hget => (hentry h' d hget).1, ?_, ?_,
    fun h' d hget => htotal ▸ (hentry h' d hget).2⟩
  · intro x h' n
    rw [hproperties.eq_some_iff, hc.properties]
    unfold Owns
    simp only [hlookup]
    by_cases hh : h' = h
    · by_cases hn : n = 1
      · simp [hh, hn]
      · simp [hn]
    · simp [hh]
  · intro i h'
    rw [hids.eq_some_iff, hc.ids]
    simp only [hlookup]
    split
    · rfl
    · rfl

theorem consistent_added (hs : Sound dmn.proTxHash dmn) (hfresh : dmn.proTxHash ∉ list.mnMap)
    (hfree : Free serializeHash list dmn) (hid : dmn.internalId < list.nTotalRegisteredCount)
    (hidfree : list.mnInternalIdMap[dmn.internalId]? = none) :
    Consistent serializeHash (added serializeHash list dmn) := by
  have hnone : ∀ d, list.mnMap[dmn.proTxHash]? ≠ some d := by
    intro d hget
    exact hfresh (mem_iff_exists.mpr ⟨d, hget⟩)
  refine consistent_changed hc _ (some dmn) (fun h => getElem?_insert _ _ _ _) rfl ?_ ?_ ?_
  · intro d hd
    cases hd
    exact ⟨hs, hid⟩
  · refine ⟨?_, ?_, ?_, ?_⟩
    · rintro x ⟨h, n⟩ ⟨d, hd, p, hp, rfl⟩ hget
      cases hd
      exact absurd ((hc.properties _ h n).mp hget).2 (hfree p hp h)
    · rintro x ⟨d, hd, p, hp, hpx⟩
      cases hd
      exact if_pos (mem_map.mpr ⟨p, hp, hpx⟩)
    · intro x _ hget
      obtain ⟨-, d, hd, -⟩ := (hc.properties _ _ _).mp hget
      exact absurd hd (hnone d)
    · intro x hx _
      exact if_neg fun hmem => hx ⟨dmn, rfl, mem_map.mp hmem⟩
  · have hinsert : ∀ i, (added serializeHash list dmn).mnInternalIdMap[i]? =
        if i = dmn.internalId then some dmn.proTxHash else list.mnInternalIdMap[i]? :=
      fun i => getElem?_insert _ _ _ _
    refine ⟨?_, ?_, ?_, ?_⟩
    · rintro i h ⟨d, hd, rfl⟩ hget
      cases hd
      exact absurd (hidfree.symm.trans hget) nofun
    · rintro i ⟨d, hd, rfl⟩
      cases hd
      exact (hinsert _).trans (if_pos rfl)
    · intro i _ hget
      obtain ⟨d, hd, -⟩ := (hc.ids _ _).mp hget
      exact absurd hd (hnone d)
    · intro i hi _
      exact (hinsert i).trans (if_neg fun heq => hi ⟨dmn, rfl, heq.symm⟩)

/-- `AddMN` asserts when a listed masternode has one of the properties. -/
theorem addMN_conflict (hs : Sound dmn.proTxHash dmn) {p : UniqueProperty}
    (hp : p ∈ dmn.uniqueProperties) (howns : Owns serializeHash list (serializeHash p) h)
    (hne : h ≠ dmn.proTxHash) : list.addMN serializeHash dmn = .error .assertion := by
  have hget := (hc.properties _ h 1).mpr ⟨rfl, howns⟩
  have hmem : serializeHash p ∈ dmn.uniqueProperties.map serializeHash :=
    mem_map_of_mem hp
  unfold addMN
  rw [addUniqueProperties_eq hs.not_isNull, OwnerIndex.addAll_eq_none hmem hget hne]
  cases decide (dmn.proTxHash ∉ list.mnMap) <;> rfl

omit hc

/-! ## §5. `UpdateMN`. -/

/-- What `UpdateMN` returns when it does not assert. -/
def updatedTo (serializeHash : UniqueProperty → η) (list : CDeterministicMNList η)
    (dmn : CDeterministicMN) (s : CDeterministicMNState) : CDeterministicMNList η :=
  { list with
    mnMap := list.mnMap.insert dmn.proTxHash { dmn with pdmnState := s }
    mnUniquePropertyMap := fun x =>
      if some x ∈ s.keys.map (keyOf serializeHash) then some (dmn.proTxHash, 1)
      else if some x ∈ dmn.pdmnState.keys.map (keyOf serializeHash) then none
      else list.mnUniquePropertyMap x }

/-- No other masternode has a property of the state. -/
def FreeFor (serializeHash : UniqueProperty → η) (list : CDeterministicMNList η) (h : Uint256)
    (s : CDeterministicMNState) : Prop :=
  ∀ p ∈ s.keys, p.isNull = false → ∀ h', Owns serializeHash list (serializeHash p) h' → h' = h

/-- The changes of `UpdateMN` in terms of index keys. -/
def keyChanges (serializeHash : UniqueProperty → η) (s s' : CDeterministicMNState) :
    List (Option η × Option η) :=
  (changesOf s s').map fun p => (keyOf serializeHash p.1, keyOf serializeHash p.2)

section

omit [DecidableEq η]

theorem keyChanges_fst (s s' : CDeterministicMNState) :
    (keyChanges serializeHash s s').map Prod.fst = s.keys.map (keyOf serializeHash) := rfl

theorem keyChanges_snd (s s' : CDeterministicMNState) :
    (keyChanges serializeHash s s').map Prod.snd = s'.keys.map (keyOf serializeHash) := rfl

theorem keyChanges_pairwise (hinj : Injective serializeHash) (s s' : CDeterministicMNState) :
    (keyChanges serializeHash s s').Pairwise fun p q =>
      ∀ x, OwnerIndex.Touches p x → ¬ OwnerIndex.Touches q x := by
  have hkinds : (changesOf s s').Pairwise fun p q =>
      p.1 ≠ q.1 ∧ p.1 ≠ q.2 ∧ p.2 ≠ q.1 ∧ p.2 ≠ q.2 := by
    simp [changesOf, CDeterministicMNState.keys]
  unfold keyChanges
  rw [pairwise_map]
  refine hkinds.imp ?_
  intro p q hpq x hp hq
  have hdiff : ∀ a b, keyOf serializeHash a = some x → keyOf serializeHash b = some x → a = b := by
    intro a b ha hb
    apply hinj
    rw [(keyOf_eq_some_iff.mp ha).2, (keyOf_eq_some_iff.mp hb).2]
  obtain ⟨h11, h12, h21, h22⟩ := hpq
  rcases hp with hp | hp <;> rcases hq with hq | hq
  · exact h11 (hdiff _ _ hp hq)
  · exact h12 (hdiff _ _ hp hq)
  · exact h21 (hdiff _ _ hp hq)
  · exact h22 (hdiff _ _ hp hq)

theorem Consistent.mem_of_key (hc : Consistent serializeHash list)
    (hget : list.mnMap[h]? = some dmn) {p : UniqueProperty} (hp : p ∈ dmn.pdmnState.keys)
    (hnull : p.isNull = false) : p ∈ dmn.uniqueProperties :=
  (mem_uniqueProperties (hc.sound h dmn hget).owner).mpr (.inr ⟨hp, hnull⟩)

theorem keys_owned (hc : Consistent serializeHash list) (hget : list.mnMap[h]? = some dmn)
    (s : CDeterministicMNState) :
    ∀ c ∈ keyChanges serializeHash dmn.pdmnState s, ∀ x, c.1 = some x →
      list.mnUniquePropertyMap x = some (h, 1) := by
  intro c hcmem x hx
  have hmem : some x ∈ dmn.pdmnState.keys.map (keyOf serializeHash) := by
    rw [← keyChanges_fst dmn.pdmnState s, ← hx]
    exact mem_map_of_mem hcmem
  obtain ⟨p, hp, hpx⟩ := mem_map.mp hmem
  obtain ⟨hnull, hpx⟩ := keyOf_eq_some_iff.mp hpx
  exact (hc.properties x h 1).mpr ⟨rfl, dmn, hget, p, hc.mem_of_key hget hp hnull, hpx⟩

end

theorem updateMN_eq_bind (hinj : Injective serializeHash) : list.updateMN serializeHash dmn s =
    (assertSome ((keyChanges serializeHash dmn.pdmnState s).foldlM
      (OwnerIndex.replace dmn.proTxHash) list.mnUniquePropertyMap) >>= fun properties =>
        .ok { updatedTo serializeHash list dmn s with mnUniquePropertyMap := properties }) := by
  unfold updateMN
  exact congrArg (· >>= _)
    (foldlM_assertSome fun _ hp _ => updateUniqueProperty_eq (changesOf_same hinj hp))

omit [DecidableEq η] in
theorem mem_hashes (hs : Sound h dmn) {x : η} :
    (∃ p ∈ dmn.uniqueProperties, serializeHash p = x) ↔
      serializeHash (.collateral dmn.collateralOutpoint) = x ∨
        some x ∈ dmn.pdmnState.keys.map (keyOf serializeHash) := by
  simp only [mem_uniqueProperties hs.owner, mem_map, keyOf_eq_some_iff]
  constructor
  · intro hp
    obtain ⟨p, hp | ⟨hp, hnull⟩, hpx⟩ := hp
    · exact .inl (hp ▸ hpx)
    · exact .inr ⟨p, hp, hnull, hpx⟩
  · intro hx
    rcases hx with hx | ⟨p, hp, hnull, hpx⟩
    · exact ⟨_, .inl rfl, hx⟩
    · exact ⟨p, .inr ⟨hp, hnull⟩, hpx⟩

omit [DecidableEq η] in
theorem collateral_not_key (hinj : Injective serializeHash) (outpoint : COutPoint)
    (s : CDeterministicMNState) :
    some (serializeHash (.collateral outpoint)) ∉ s.keys.map (keyOf serializeHash) := by
  intro hmem
  obtain ⟨p, hp, hpx⟩ := mem_map.mp hmem
  have heq := hinj (keyOf_eq_some_iff.mp hpx).2
  subst heq
  simp [CDeterministicMNState.keys] at hp

theorem updateMN_eq (hc : Consistent serializeHash list) (hinj : Injective serializeHash)
    (hget : list.mnMap[h]? = some dmn) (hfree : FreeFor serializeHash list h s) :
    list.updateMN serializeHash dmn s = .ok (updatedTo serializeHash list dmn s) := by
  have hkeyed := (hc.sound h dmn hget).keyed
  have hnew : ∀ c ∈ keyChanges serializeHash dmn.pdmnState s, c.1 ≠ c.2 → ∀ x, c.2 = some x →
      list.mnUniquePropertyMap x = none := by
    intro c hcmem hne x hx
    rw [hc.property_eq_none_iff]
    intro h' howns
    -- a new property somebody has belongs to this masternode, where it is an old one
    have hx' : some x ∈ s.keys.map (keyOf serializeHash) := by
      rw [← keyChanges_snd dmn.pdmnState s, ← hx]
      exact mem_map_of_mem hcmem
    obtain ⟨p, hp, hpx⟩ := mem_map.mp hx'
    obtain ⟨hnull, hpx⟩ := keyOf_eq_some_iff.mp hpx
    have hh := hfree p hp hnull h' (hpx ▸ howns)
    subst hh
    obtain ⟨d, hd, howned⟩ := howns
    cases hget.symm.trans hd
    rcases (mem_hashes (hc.sound h' dmn hget)).mp howned with hcollateral | hold
    · exact collateral_not_key hinj _ s (hcollateral ▸ hx')
    · rw [← keyChanges_fst dmn.pdmnState s] at hold
      obtain ⟨c', hcmem', hx₀⟩ := mem_map.mp hold
      by_cases hsame : c = c'
      · exact hne ((hsame ▸ hx₀).trans hx.symm)
      · have : Std.Symm fun p q : Option η × Option η =>
            ∀ x, OwnerIndex.Touches p x → ¬ OwnerIndex.Touches q x :=
          ⟨fun _ _ h x hq hp => h x hp hq⟩
        exact (keyChanges_pairwise hinj _ _).forall hcmem hcmem' hsame x (.inr hx) (.inl hx₀)
  rw [updateMN_eq_bind hinj, OwnerIndex.replaceAll_eq (keyChanges_pairwise hinj _ _)
    (hkeyed ▸ keys_owned hc hget s) hnew, keyChanges_fst, keyChanges_snd]
  rfl

variable (hc : Consistent serializeHash list) (hinj : Injective serializeHash)
  (hget : list.mnMap[h]? = some dmn)
include hc hinj hget

theorem consistent_updatedTo (hfree : FreeFor serializeHash list h s) (howner : s.keyIDOwner ≠ 0) :
    Consistent serializeHash (updatedTo serializeHash list dmn s) := by
  have hs := hc.sound h dmn hget
  have hs' : Sound h { dmn with pdmnState := s } := ⟨hs.keyed, howner, hs.collateral⟩
  have howned : ∀ x, list.mnUniquePropertyMap x = some (h, 1) ↔
      serializeHash (.collateral dmn.collateralOutpoint) = x ∨
        some x ∈ dmn.pdmnState.keys.map (keyOf serializeHash) := by
    intro x
    rw [hc.properties, ← mem_hashes hs]
    simp [Owns, hget]
  have hnew : ∀ x, (∃ d ∈ some { dmn with pdmnState := s },
      ∃ p ∈ d.uniqueProperties, serializeHash p = x) ↔
      serializeHash (.collateral dmn.collateralOutpoint) = x ∨
        some x ∈ s.keys.map (keyOf serializeHash) := by
    intro x
    rw [← mem_hashes hs']
    simp
  refine consistent_changed hc h (some { dmn with pdmnState := s }) ?_ rfl ?_ ?_ ?_
  · intro h'
    rw [← hs.keyed]
    exact getElem?_insert _ _ _ _
  · intro d hd
    cases hd
    exact ⟨hs', hc.bound h dmn hget⟩
  · simp only [hnew]
    -- the collateral stays, whatever happens to the keys
    refine ⟨?_, ?_, ?_, ?_⟩
    · rintro x ⟨h', n⟩ hx hlisted
      rcases hx with hx | hx
      · exact Option.some.inj (hlisted.symm.trans ((howned x).mpr (.inl hx)))
      · obtain ⟨p, hp, hpx⟩ := mem_map.mp hx
        obtain ⟨hnull, hpx⟩ := keyOf_eq_some_iff.mp hpx
        obtain ⟨hn, howns⟩ := (hc.properties _ _ _).mp hlisted
        rw [hn, hfree p hp hnull h' (hpx ▸ howns)]
    · rintro x (rfl | hx)
      · show (if _ then _ else if _ then _ else _) = _
        rw [if_neg (collateral_not_key hinj _ _), if_neg (collateral_not_key hinj _ _)]
        exact (howned _).mpr (.inl rfl)
      · show (if _ then some (dmn.proTxHash, 1) else _) = _
        rw [if_pos hx, hs.keyed]
    · intro x hx hlisted
      obtain ⟨hcollateral, hkey⟩ := not_or.mp hx
      show (if _ then _ else if _ then _ else _) = _
      rw [if_neg hkey, if_pos (((howned x).mp hlisted).resolve_left hcollateral)]
    · intro x hx hlisted
      show (if _ then _ else if _ then _ else _) = _
      rw [if_neg fun hkey => hx (.inr hkey),
        if_neg fun hkey => hlisted ((howned x).mpr (.inr hkey))]
  · refine ⟨?_, ?_, ?_, fun _ _ _ => rfl⟩
    · rintro i h' ⟨d, hd, rfl⟩ hlisted
      cases hd
      exact Option.some.inj (hlisted.symm.trans ((hc.ids _ h).mpr ⟨dmn, hget, rfl⟩))
    · rintro i ⟨d, hd, rfl⟩
      cases hd
      exact (hc.ids _ h).mpr ⟨dmn, hget, rfl⟩
    · intro i hi hlisted
      obtain ⟨d, hd, hdi⟩ := (hc.ids i h).mp hlisted
      cases hget.symm.trans hd
      exact absurd ⟨_, rfl, hdi⟩ hi

/-- `UpdateMN` asserts when another masternode has a property the state is new to. -/
theorem updateMN_conflict {p : UniqueProperty} (hp : p ∈ s.keys) (hnull : p.isNull = false)
    {h' : Uint256} (howns : Owns serializeHash list (serializeHash p) h') (hne : h' ≠ h) :
    list.updateMN serializeHash dmn s = .error .assertion := by
  have hkeyed := (hc.sound h dmn hget).keyed
  have hx : some (serializeHash p) ∈ s.keys.map (keyOf serializeHash) :=
    mem_map.mpr ⟨p, hp, keyOf_eq_some_iff.mpr ⟨hnull, rfl⟩⟩
  rw [← keyChanges_snd dmn.pdmnState s] at hx
  obtain ⟨c, hcmem, hcx⟩ := mem_map.mp hx
  have hdiff : c.1 ≠ c.2 := by
    intro heq
    have hown := keys_owned hc hget s c hcmem _ (heq.trans hcx)
    rw [(hc.properties _ h' 1).mpr ⟨rfl, howns⟩] at hown
    cases hown
    exact hne rfl
  rw [updateMN_eq_bind hinj, OwnerIndex.replaceAll_eq_none (keyChanges_pairwise hinj _ _)
    (hkeyed ▸ keys_owned hc hget s) hcmem hdiff hcx
    ((hc.properties _ h' 1).mpr ⟨rfl, howns⟩) (hkeyed ▸ hne)]
  rfl

omit hc hinj hget

/-! ## §6. `RemoveMN`. -/

/-- What `RemoveMN` returns for a listed masternode. -/
def removed (serializeHash : UniqueProperty → η) (list : CDeterministicMNList η)
    (dmn : CDeterministicMN) : CDeterministicMNList η :=
  { list with
    mnMap := list.mnMap.erase dmn.proTxHash
    mnInternalIdMap := list.mnInternalIdMap.erase dmn.internalId
    mnUniquePropertyMap := fun x =>
      if x ∈ dmn.uniqueProperties.map serializeHash then none
      else list.mnUniquePropertyMap x }

theorem removeMN_eq (hc : Consistent serializeHash list) (hinj : Injective serializeHash)
    (hget : list.mnMap[h]? = some dmn) :
    list.removeMN serializeHash h = .ok (removed serializeHash list dmn) := by
  have hs := hc.sound h dmn hget
  have hnodup : (dmn.uniqueProperties.map serializeHash).Nodup :=
    (uniqueProperties_nodup dmn).map hinj
  have howned : ∀ x ∈ dmn.uniqueProperties.map serializeHash,
      list.mnUniquePropertyMap x = some (dmn.proTxHash, 1) := by
    intro x hx
    obtain ⟨p, hp, hpx⟩ := mem_map.mp hx
    rw [hs.keyed]
    exact (hc.properties x h 1).mpr ⟨rfl, dmn, hget, p, hp, hpx⟩
  unfold removeMN getMN
  rw [hget]
  show (dmn.uniqueProperties.foldlM (deleteUniqueProperty serializeHash dmn)
    list.mnUniquePropertyMap >>= _) = _
  rw [deleteUniqueProperties_eq hs.not_isNull, OwnerIndex.deleteAll_eq hnodup howned, ← hs.keyed]
  rfl

theorem consistent_removed (hc : Consistent serializeHash list) (hget : list.mnMap[h]? = some dmn) :
    Consistent serializeHash (removed serializeHash list dmn) := by
  have hkeyed := (hc.sound h dmn hget).keyed
  refine consistent_changed hc h none ?_ rfl (by simp) ?_ ?_
  · intro h'
    rw [← hkeyed]
    exact getElem?_erase _ _ _
  · refine ⟨by simp, by simp, ?_, ?_⟩
    · intro x _ hlisted
      obtain ⟨-, d, hd, p, hp, hpx⟩ := (hc.properties _ _ _).mp hlisted
      cases hget.symm.trans hd
      exact if_pos (mem_map.mpr ⟨p, hp, hpx⟩)
    · intro x _ hother
      refine if_neg fun hmem => hother ?_
      obtain ⟨p, hp, hpx⟩ := mem_map.mp hmem
      exact (hc.properties _ _ _).mpr ⟨rfl, dmn, hget, p, hp, hpx⟩
  · have herase : ∀ i, (removed serializeHash list dmn).mnInternalIdMap[i]? =
        if i = dmn.internalId then none else list.mnInternalIdMap[i]? :=
      fun i => getElem?_erase _ _ _
    refine ⟨by simp, by simp, ?_, ?_⟩
    · intro i _ hlisted
      obtain ⟨d, hd, hdi⟩ := (hc.ids _ _).mp hlisted
      cases hget.symm.trans hd
      exact (herase i).trans (if_pos hdi.symm)
    · intro i _ hother
      refine (herase i).trans (if_neg fun heq => hother ?_)
      exact (hc.ids _ _).mpr ⟨dmn, hget, heq.symm⟩

end CDeterministicMNList

end Zcoin.Evo
