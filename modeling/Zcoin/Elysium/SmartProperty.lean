/-
  Zcoin.Elysium.SmartProperty — the property database `CMPSPInfo` (`elysium/sp.h/.cpp`).

  LevelDB holds the current entry of every property under `'s'`, the property created by
  a transaction under `'t'`, and under `'b'`, keyed by block and property, the entry that
  an update in that block replaced.  `popBlock` walks over the current entries and undoes
  those whose last update fell into the block.
-/
import Zcoin.Basic
import Zcoin.Lib.Except
import Zcoin.Lib.OrderedMap

namespace Zcoin.Elysium

open List hiding getElem?_insert
open Std Function
open Lib Lib.Except Lib.OrderedMap

/-! ## §1. Entries. -/

/-- `PropertyId` (`uint32_t`). -/
abbrev PropertyId := Nat

/-- A `std::string` that holds the bytes of a payload. -/
abbrev Bytes := List UInt8

/-- `property.h`: `SigmaStatus`. -/
inductive SigmaStatus where
  | softDisabled
  | softEnabled
  | hardDisabled
  | hardEnabled
  deriving DecidableEq, Repr

/-- `elysium.h`: the two ecosystems and their native tokens. -/
def ELYSIUM_PROPERTY_ELYSIUM : Nat := 1
def ELYSIUM_PROPERTY_TELYSIUM : Nat := 2

/-- `property.h`: the first property of the test ecosystem. -/
def TEST_ECO_PROPERTY_1 : Nat := 0x80000003

/-- `CMPSPInfo::Entry`, with the values its constructor sets. -/
structure Entry where
  issuer : String := ""
  propType : Nat := 0
  prevPropId : PropertyId := 0
  category : Bytes := []
  subcategory : Bytes := []
  name : Bytes := []
  url : Bytes := []
  data : Bytes := []
  numTokens : Int := 0
  propertyDesired : PropertyId := 0
  deadline : Int := 0
  earlyBird : Nat := 0
  percentage : Nat := 0
  closeEarly : Bool := false
  maxTokens : Bool := false
  missedTokens : Int := 0
  timeclosed : Int := 0
  txidClose : Uint256 := 0
  txid : Uint256 := 0
  creationBlock : Uint256 := 0
  updateBlock : Uint256 := 0
  fixed : Bool := false
  manual : Bool := false
  sigmaStatus : SigmaStatus := .softDisabled
  denominations : List Int := []
  /-- granted and revoked amounts, or crowdsale participations, by transaction -/
  historicalData : ExtTreeMap Uint256 (List Int) := ∅

/-! ## §2. The database. -/

/-- `CMPSPInfo`: the entries of the database and the two counters kept in memory. -/
structure CMPSPInfo where
  /-- `'s'`: property to entry -/
  sps : ExtTreeMap PropertyId Entry := ∅
  /-- `'t'`: creating transaction to property -/
  txIndex : Uint256 → Option PropertyId := fun _ => none
  /-- `'b'`: the entry an update in a block replaced -/
  prevVersions : Uint256 × PropertyId → Option Entry := fun _ => none
  nextSpid : Nat := 3
  nextTestSpid : Nat := TEST_ECO_PROPERTY_1

/-- The native tokens have no entry of their own. -/
def isImplied (propertyId : PropertyId) : Bool :=
  propertyId = ELYSIUM_PROPERTY_ELYSIUM || propertyId = ELYSIUM_PROPERTY_TELYSIUM

/-- `implied_elysium` and `implied_telysium`; they differ in texts only. -/
def impliedEntry (systemAddress : String) : Entry :=
  { issuer := systemAddress, propType := 2, numTokens := 700000 }

/-- `CMPSPInfo::getSP`. -/
def CMPSPInfo.getSP (systemAddress : String) (db : CMPSPInfo) (propertyId : PropertyId) :
    Option Entry :=
  if isImplied propertyId then some (impliedEntry systemAddress) else db.sps[propertyId]?

variable (db : CMPSPInfo)

/-- `CMPSPInfo::updateSP`: what it returns and the database it leaves. -/
def CMPSPInfo.updateSP (propertyId : PropertyId) (info : Entry) : Bool × CMPSPInfo :=
  if isImplied propertyId then (false, db)
  else
    -- if a value exists move it to the old key
    let prevVersions := match db.sps[propertyId]? with
      | some prev => Function.update db.prevVersions (info.updateBlock, propertyId) (some prev)
      | none => db.prevVersions
    (true, { db with sps := db.sps.insert propertyId info, prevVersions := prevVersions })

/-- `CMPSPInfo::peekNextSPID`. -/
def CMPSPInfo.peekNextSPID (ecosystem : Nat) : PropertyId :=
  if ecosystem = ELYSIUM_PROPERTY_ELYSIUM then db.nextSpid
  else if ecosystem = ELYSIUM_PROPERTY_TELYSIUM then db.nextTestSpid
  else 0

/-- `CMPSPInfo::putSP`: the identifier given out and the database it leaves.  The sanity
checks before the write only log. -/
def CMPSPInfo.putSP (ecosystem : Nat) (info : Entry) : PropertyId × CMPSPInfo :=
  let propertyId := db.peekNextSPID ecosystem
  (propertyId,
    { db with
      sps := db.sps.insert propertyId info
      txIndex := Function.update db.txIndex info.txid (some propertyId)
      nextSpid := if ecosystem = ELYSIUM_PROPERTY_ELYSIUM then db.nextSpid + 1 else db.nextSpid
      nextTestSpid :=
        if ecosystem = ELYSIUM_PROPERTY_TELYSIUM then db.nextTestSpid + 1 else db.nextTestSpid })

/-! ## §3. `popBlock`. -/

/-- The writes `popBlock` collects in its batch. -/
inductive SPWrite where
  | putSP (propertyId : PropertyId) (info : Entry)
  | deleteSP (propertyId : PropertyId)
  | deleteTx (txid : Uint256)
  | deletePrev (blockHash : Uint256) (propertyId : PropertyId)

def SPWrite.apply : SPWrite → CMPSPInfo
  | .putSP propertyId info => { db with sps := db.sps.insert propertyId info }
  | .deleteSP propertyId => { db with sps := db.sps.erase propertyId }
  | .deleteTx txid => { db with txIndex := Function.update db.txIndex txid none }
  | .deletePrev blockHash propertyId =>
    { db with prevVersions := Function.update db.prevVersions (blockHash, propertyId) none }

/-- The loop body for one current entry: its writes and whether the property remains.
The previous version is read from the database as it was before the batch. -/
def CMPSPInfo.popEntry (blockHash : Uint256) (entry : PropertyId × Entry) :
    Except Int (List SPWrite × Int) :=
  if entry.2.updateBlock = blockHash then
    if entry.2.updateBlock = entry.2.creationBlock then
      -- this is the block that created this SP
      .ok ([.deleteSP entry.1, .deleteTx entry.2.txid], 0)
    else
      match db.prevVersions (entry.2.updateBlock, entry.1) with
      | some prev => .ok ([.putSP entry.1 prev, .deletePrev entry.2.updateBlock entry.1], 1)
      | none => .error (-3)
  else .ok ([], 1)

/-- `CMPSPInfo::popBlock`: the number of remaining properties, or a negative code. -/
def CMPSPInfo.popBlock (blockHash : Uint256) : Int × CMPSPInfo :=
  match db.sps.toList.mapM (db.popEntry blockHash) with
  | .error code => (code, db)
  | .ok parts => ((parts.map (·.2)).sum, (parts.flatMap (·.1)).foldl SPWrite.apply db)

/-! ## §4. Lookups after each call. -/

variable {propertyId : PropertyId}

theorem CMPSPInfo.sps_updateSP {db : CMPSPInfo} {info : Entry}
    (h : isImplied propertyId = false) (pid : PropertyId) :
    (db.updateSP propertyId info).2.sps[pid]? =
      if pid = propertyId then some info else db.sps[pid]? := by
  unfold CMPSPInfo.updateSP
  rw [if_neg (by simp [h])]
  exact getElem?_insert _ _ _ _

theorem CMPSPInfo.txIndex_updateSP (db : CMPSPInfo) (propertyId : PropertyId) (info : Entry) :
    (db.updateSP propertyId info).2.txIndex = db.txIndex := by
  unfold CMPSPInfo.updateSP
  split <;> rfl

theorem CMPSPInfo.prevVersions_updateSP {db : CMPSPInfo} {info prev : Entry}
    (h : isImplied propertyId = false) (hprev : db.sps[propertyId]? = some prev) :
    (db.updateSP propertyId info).2.prevVersions =
      update db.prevVersions (info.updateBlock, propertyId) (some prev) := by
  unfold CMPSPInfo.updateSP
  rw [if_neg (by simp [h]), hprev]

theorem CMPSPInfo.sps_putSP (db : CMPSPInfo) (ecosystem : Nat) (info : Entry) (pid : PropertyId) :
    (db.putSP ecosystem info).2.sps[pid]? =
      if pid = db.peekNextSPID ecosystem then some info else db.sps[pid]? :=
  getElem?_insert _ _ _ _

/-! ## §5. What `popBlock` leaves. -/

/-- What becomes of one current entry. -/
def CMPSPInfo.poppedEntry (blockHash : Uint256) (pid : PropertyId) (info : Entry) : Option Entry :=
  if info.updateBlock = blockHash then
    if info.updateBlock = info.creationBlock then none
    else db.prevVersions (info.updateBlock, pid)
  else some info

/-- The entry was created by the block and not updated by a later one. -/
def Entry.createdBy (blockHash : Uint256) (info : Entry) : Prop :=
  info.updateBlock = blockHash ∧ info.updateBlock = info.creationBlock

section Batch

variable {db : CMPSPInfo} {blockHash : Uint256}

/-- What the batch of some entries leaves. -/
structure PoppedFrom (db : CMPSPInfo) (blockHash : Uint256) (entries : List (PropertyId × Entry))
    (db' db'' : CMPSPInfo) : Prop where
  sps : ∀ pid, db''.sps[pid]? =
    match entries.lookup pid with
    | some info => db.poppedEntry blockHash pid info
    | none => db'.sps[pid]?
  deleted : ∀ entry ∈ entries, entry.2.createdBy blockHash → db''.txIndex entry.2.txid = none
  kept : ∀ txid, (∀ entry ∈ entries, entry.2.createdBy blockHash → entry.2.txid ≠ txid) →
    db''.txIndex txid = db'.txIndex txid
  prev : ∀ key, key.1 ≠ blockHash → db''.prevVersions key = db'.prevVersions key
  spid : db''.nextSpid = db'.nextSpid
  testSpid : db''.nextTestSpid = db'.nextTestSpid

theorem CMPSPInfo.popEntry_spec {pid : PropertyId} {info : Entry}
    (hfound : info.updateBlock = blockHash → info.updateBlock ≠ info.creationBlock →
      (db.prevVersions (blockHash, pid)).isSome) :
    ∃ part, db.popEntry blockHash (pid, info) = .ok part ∧ 0 ≤ part.2 ∧
      ∀ db' : CMPSPInfo, db'.sps[pid]? = some info →
        PoppedFrom db blockHash [(pid, info)] db' (part.1.foldl SPWrite.apply db') := by
  have hlookup : ∀ other : PropertyId, [(pid, info)].lookup other =
      if other = pid then some info else none := by
    intro other
    by_cases hother : other = pid
    · simp [hother]
    · rw [lookup_cons, beq_eq_false_iff_ne.mpr hother, if_neg hother]
      rfl
  by_cases hupd : info.updateBlock = blockHash
  · by_cases hcre : info.updateBlock = info.creationBlock
    · refine ⟨([.deleteSP pid, .deleteTx info.txid], 0), ?_, le_rfl, fun db' _ => ⟨?_, ?_, ?_,
        fun _ _ => rfl, rfl, rfl⟩⟩
      · simp [CMPSPInfo.popEntry, hupd, ← hcre]
      · intro other
        show (db'.sps.erase pid)[other]? = _
        rw [getElem?_erase, hlookup]
        split <;> simp [CMPSPInfo.poppedEntry, hupd, ← hcre]
      · simp [SPWrite.apply]
      · intro txid hnone
        exact update_of_ne (hnone _ mem_cons_self ⟨hupd, hcre⟩).symm _ _
    · obtain ⟨prev, hprev⟩ := Option.isSome_iff_exists.mp (hfound hupd hcre)
      subst hupd
      refine ⟨([.putSP pid prev, .deletePrev info.updateBlock pid], 1), ?_, Int.one_nonneg,
        fun db' _ => ⟨?_, ?_, fun _ _ => rfl, ?_, rfl, rfl⟩⟩
      · simp [CMPSPInfo.popEntry, hcre, hprev]
      · intro other
        show (db'.sps.insert pid prev)[other]? = _
        rw [getElem?_insert, hlookup]
        split
        · next heq => simp [CMPSPInfo.poppedEntry, hcre, heq, hprev]
        · rfl
      · simp [Entry.createdBy, hcre]
      · intro key hkey
        exact update_of_ne (fun heq => hkey (congrArg Prod.fst heq)) _ _
  · refine ⟨([], 1), if_neg hupd, Int.one_nonneg, fun db' hcur => ⟨?_, ?_, fun _ _ => rfl,
      fun _ _ => rfl, rfl, rfl⟩⟩
    · intro other
      rw [hlookup]
      by_cases hother : other = pid
      · simp [hother, CMPSPInfo.poppedEntry, hupd, hcur]
      · simp [hother]
    · simp [Entry.createdBy, hupd]

/-- **The batch**, by induction over the entries that are still to be walked. -/
theorem CMPSPInfo.popEntries_spec {entries : List (PropertyId × Entry)}
    (hkeys : (entries.map Prod.fst).Nodup)
    (hfound : ∀ entry ∈ entries, entry.2.updateBlock = blockHash →
      entry.2.updateBlock ≠ entry.2.creationBlock →
      (db.prevVersions (blockHash, entry.1)).isSome) (db' : CMPSPInfo)
    (hcur : ∀ entry ∈ entries, db'.sps[entry.1]? = some entry.2) :
    ∃ parts, entries.mapM (db.popEntry blockHash) = .ok parts ∧ 0 ≤ (parts.map (·.2)).sum ∧
      PoppedFrom db blockHash entries db' ((parts.flatMap (·.1)).foldl SPWrite.apply db') := by
  induction entries generalizing db' with
  | nil =>
    exact ⟨[], rfl, le_rfl, fun _ => rfl, fun _ h => (nomatch h), fun _ _ => rfl, fun _ _ => rfl,
      rfl, rfl⟩
  | cons entry entries ih =>
    obtain ⟨pid, info⟩ := entry
    rw [map_cons, nodup_cons] at hkeys
    obtain ⟨hfirst, hfound⟩ := forall_mem_cons.mp hfound
    obtain ⟨hnow, hcur⟩ := forall_mem_cons.mp hcur
    obtain ⟨part, hpart, hcode, hone⟩ := CMPSPInfo.popEntry_spec hfirst
    have hone := hone db' hnow
    have hother : ∀ other ≠ pid,
        (part.1.foldl SPWrite.apply db').sps[other]? = db'.sps[other]? := by
      intro other hne
      rw [hone.sps, lookup_cons, beq_eq_false_iff_ne.mpr hne]
      rfl
    obtain ⟨parts, hparts, hsum, hpop⟩ := ih hkeys.2 hfound (part.1.foldl SPWrite.apply db')
      fun e he => by
        rw [hother _ fun heq => hkeys.1 (mem_map.mpr ⟨e, he, heq⟩)]
        exact hcur e he
    refine ⟨part :: parts, ?_, by rw [map_cons, sum_cons]; omega, ?_⟩
    · rw [mapM_cons, hpart, ok_bind, hparts, ok_bind]
      rfl
    rw [flatMap_cons, foldl_append]
    constructor
    · intro other
      rw [hpop.sps other, lookup_cons]
      by_cases hne : other = pid
      · have hnone : entries.lookup other = none := by
          rw [lookup_eq_none_iff]
          intro e he
          rw [hne, bne_iff_ne]
          exact fun heq => hkeys.1 (mem_map.mpr ⟨e, he, heq.symm⟩)
        rw [hnone, hone.sps, lookup_cons, hne, beq_self_eq_true]
      · rw [beq_eq_false_iff_ne.mpr hne, hother other hne]
    · refine forall_mem_cons.mpr ⟨fun hcreated => ?_, hpop.deleted⟩
      -- deleted by this entry, or again by a later one
      by_cases hlater : ∃ e ∈ entries, e.2.createdBy blockHash ∧ e.2.txid = info.txid
      · obtain ⟨e, he, hcreated, htxid⟩ := hlater
        exact htxid ▸ hpop.deleted e he hcreated
      · rw [hpop.kept _ fun e he hcreated htxid => hlater ⟨e, he, hcreated, htxid⟩]
        exact hone.deleted _ mem_cons_self hcreated
    · intro txid hnone
      rw [hpop.kept txid fun e he => hnone e (mem_cons_of_mem _ he)]
      exact hone.kept txid fun e he => hnone e (mem_singleton.mp he ▸ mem_cons_self)
    · intro key hkey
      rw [hpop.prev key hkey, hone.prev key hkey]
    · rw [hpop.spid, hone.spid]
    · rw [hpop.testSpid, hone.testSpid]

end Batch

theorem lookup_toList (t : ExtTreeMap PropertyId Entry) (pid : PropertyId) :
    t.toList.lookup pid = t[pid]? := by
  refine Option.ext fun info => ?_
  rw [← ExtTreeMap.mem_toList_iff_getElem?_eq_some]
  have hnodup := nodup_map_fst_toList t
  generalize t.toList = l at hnodup
  induction l with
  | nil => simp
  | cons e l ih =>
    rw [map_cons, nodup_cons] at hnodup
    rw [lookup_cons, mem_cons, Prod.ext_iff]
    by_cases hpid : pid = e.1
    · have hnot : (pid, info) ∉ l := fun h => hnodup.1 (hpid ▸ mem_map_of_mem h)
      simp [hpid, eq_comm]
      intro h
      exact absurd (hpid ▸ h) hnot
    · have hbeq : (pid == e.1) = false := by simpa using hpid
      rw [hbeq]
      simp [hpid, ih hnodup.2]

theorem CMPSPInfo.popBlock_spec (db : CMPSPInfo) (blockHash : Uint256)
    (hfound : ∀ (pid : PropertyId) (info : Entry), db.sps[pid]? = some info →
      info.updateBlock = blockHash → info.updateBlock ≠ info.creationBlock →
      (db.prevVersions (blockHash, pid)).isSome) :
    0 ≤ (db.popBlock blockHash).1 ∧
      PoppedFrom db blockHash db.sps.toList db (db.popBlock blockHash).2 := by
  have hmem : ∀ entry ∈ db.sps.toList, db.sps[entry.1]? = some entry.2 := by simp
  obtain ⟨parts, hparts, hsum, hpop⟩ := CMPSPInfo.popEntries_spec (nodup_map_fst_toList db.sps)
    (fun entry he => hfound _ _ (hmem entry he)) db hmem
  unfold CMPSPInfo.popBlock
  rw [hparts]
  exact ⟨hsum, hpop⟩

theorem PoppedFrom.sps_all {db db' : CMPSPInfo} {blockHash : Uint256}
    (h : PoppedFrom db blockHash db.sps.toList db db') (pid : PropertyId) :
    db'.sps[pid]? = db.sps[pid]?.bind (db.poppedEntry blockHash pid) := by
  rw [h.sps pid, lookup_toList]
  cases db.sps[pid]? <;> rfl

end Zcoin.Elysium
