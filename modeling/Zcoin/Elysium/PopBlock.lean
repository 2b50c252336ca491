/-
  Zcoin.Elysium.PopBlock — undoing the property database block by block.

  While a block is processed its transactions (and the crowdsales that close) call
  `putSP` and `updateSP`, always with the block as `update_block`.  `popBlock` is meant to
  take the database back to where it was.

  MAIN RESULT: `popBlock_restores_iff`.
-/
import Zcoin.Elysium.SmartProperty

namespace Zcoin.Elysium

open Std Function Std.ExtTreeMap List Option CMPSPInfo
open Lib

/-! ## §1. The calls made while a block is processed. -/

/-- One call into the database. -/
inductive SPCall where
  | putSP (ecosystem : Nat) (info : Entry)
  | updateSP (propertyId : PropertyId) (info : Entry)

variable (db : CMPSPInfo)

def SPCall.run : SPCall → CMPSPInfo
  | .putSP ecosystem info => (db.putSP ecosystem info).2
  | .updateSP propertyId info => (db.updateSP propertyId info).2

/-- **What the transaction handlers pass.**  A creation is in one of the two ecosystems,
whose identifiers are not used up, by a transaction that has not created a property yet; an
update writes back the entry of an existing property, with any other changes, under the
same creating block and transaction. -/
def SPCall.Allowed (block : Uint256) (db : CMPSPInfo) : SPCall → Prop
  | .putSP ecosystem info =>
    (ecosystem = ELYSIUM_PROPERTY_ELYSIUM ∧ db.nextSpid < TEST_ECO_PROPERTY_1 ∨
      ecosystem = ELYSIUM_PROPERTY_TELYSIUM ∧ db.nextTestSpid < 2 ^ 32) ∧
    info.creationBlock = block ∧ info.updateBlock = block ∧ db.txIndex info.txid = none
  | .updateSP propertyId info =>
    info.updateBlock = block ∧
      ∃ old, db.sps[propertyId]? = some old ∧ info.creationBlock = old.creationBlock ∧
        info.txid = old.txid

/-- The calls of a block, one after the other. -/
def runCalls (calls : List SPCall) : CMPSPInfo := calls.foldl SPCall.run db

def CallsAllowed (block : Uint256) : CMPSPInfo → List SPCall → Prop
  | _, [] => True
  | db, call :: calls => call.Allowed block db ∧ CallsAllowed block (call.run db) calls

/-- How often a property is updated. -/
def updates (propertyId : PropertyId) (calls : List SPCall) : Nat :=
  calls.countP fun
    | .updateSP pid _ => pid == propertyId
    | .putSP _ _ => false

/-- **No property that was there before is updated twice.** -/
def UpdatedOnce (calls : List SPCall) : Prop :=
  ∀ pid ∈ db.sps, updates pid calls ≤ 1

/-- The block has left no trace in the current entries. -/
def Unseen (block : Uint256) : Prop :=
  ∀ (pid : PropertyId) (info : Entry), db.sps[pid]? = some info →
    info.updateBlock ≠ block ∧ info.creationBlock ≠ block

/-- The same entries and the same transaction index. -/
def SameProperties (db db' : CMPSPInfo) : Prop := db'.sps = db.sps ∧ db'.txIndex = db.txIndex

/-! ## §2. Identifiers in use lie below the counters. -/

/-- The counters are ahead of the identifiers in use. -/
structure Numbered : Prop where
  main : 3 ≤ db.nextSpid
  test : TEST_ECO_PROPERTY_1 ≤ db.nextTestSpid
  ids : ∀ pid : Nat, pid ∈ db.sps → (3 ≤ pid ∧ pid < db.nextSpid ∧ pid < TEST_ECO_PROPERTY_1) ∨
    (TEST_ECO_PROPERTY_1 ≤ pid ∧ pid < db.nextTestSpid)

section Numbered

variable {db : CMPSPInfo} {block : Uint256}

theorem Numbered.not_implied (h : Numbered db) {pid : Nat} (hpid : pid ∈ db.sps) :
    isImplied pid = false := by
  have hids := h.ids pid hpid
  unfold isImplied ELYSIUM_PROPERTY_ELYSIUM ELYSIUM_PROPERTY_TELYSIUM
  unfold TEST_ECO_PROPERTY_1 at hids
  simp only [Bool.or_eq_false_iff, decide_eq_false_iff_not]
  show ¬ (pid : Nat) = 1 ∧ ¬ (pid : Nat) = 2
  omega

theorem Numbered.fresh (h : Numbered db) {ecosystem : Nat} {info : Entry}
    (hallowed : (SPCall.putSP ecosystem info).Allowed block db) :
    db.peekNextSPID ecosystem ∉ db.sps := by
  intro hmem
  have hids := h.ids _ hmem
  have hmain := h.main
  have htest := h.test
  unfold peekNextSPID at hids
  rcases hallowed.1 with ⟨heco, hlimit⟩ | ⟨heco, hlimit⟩
  · rw [if_pos heco] at hids
    omega
  · rw [if_neg (by rw [heco]; decide), if_pos heco] at hids
    omega

theorem Numbered.call (h : Numbered db) {call : SPCall} (hallowed : call.Allowed block db) :
    Numbered (call.run db) := by
  cases call with
  | updateSP pid info =>
    obtain ⟨-, old, hold, -⟩ := hallowed
    have hpid : pid ∈ db.sps := OrderedMap.mem_iff_exists.mpr ⟨_, hold⟩
    show Numbered (db.updateSP pid info).2
    unfold updateSP
    rw [if_neg (by simp [h.not_implied hpid])]
    refine ⟨h.main, h.test, fun q hq => h.ids q ?_⟩
    rcases (OrderedMap.mem_insert _ _ _ _).mp hq with rfl | hq
    · exact hpid
    · exact hq
  | putSP ecosystem info =>
    have hmain := h.main
    have htest := h.test
    have hmem : ∀ q, q ∈ (db.putSP ecosystem info).2.sps ↔
        q = db.peekNextSPID ecosystem ∨ q ∈ db.sps := fun q => OrderedMap.mem_insert _ _ _ _
    rcases hallowed.1 with ⟨rfl, hlimit⟩ | ⟨rfl, hlimit⟩
    · refine ⟨by show 3 ≤ db.nextSpid + 1; omega, htest, ?_⟩
      intro q hq
      show (3 ≤ q ∧ q < db.nextSpid + 1 ∧ _) ∨ (_ ∧ q < db.nextTestSpid)
      rcases (hmem q).mp hq with hq | hq
      · have hnext : (q : Nat) = db.nextSpid := hq
        omega
      · have := h.ids q hq
        omega
    · refine ⟨hmain, by show _ ≤ db.nextTestSpid + 1; omega, ?_⟩
      intro q hq
      show (3 ≤ q ∧ q < db.nextSpid ∧ _) ∨ (_ ∧ q < db.nextTestSpid + 1)
      rcases (hmem q).mp hq with hq | hq
      · have hnext : (q : Nat) = db.nextTestSpid := hq
        omega
      · have := h.ids q hq
        omega

theorem Numbered.calls {calls : List SPCall} (h : Numbered db)
    (hallowed : CallsAllowed block db calls) : Numbered (runCalls db calls) := by
  induction calls generalizing db with
  | nil => exact h
  | cons call calls ih => exact ih (h.call hallowed.1) hallowed.2

end Numbered

/-! ## §3. What a block leaves behind. -/

/-- **The trace of a block**: what the database is after some calls of the block, against
the database before it. -/
structure Traced (block : Uint256) (before : CMPSPInfo) (calls : List SPCall)
    (db : CMPSPInfo) : Prop where
  old : ∀ (pid : PropertyId) (first : Entry), before.sps[pid]? = some first →
    ∃ info, db.sps[pid]? = some info ∧ info.creationBlock = first.creationBlock ∧
      (updates pid calls = 0 → info = first) ∧
      (updates pid calls ≠ 0 → info.updateBlock = block ∧
        ∃ prev, db.prevVersions (block, pid) = some prev ∧
          (updates pid calls = 1 → prev = first) ∧
          (2 ≤ updates pid calls → prev.updateBlock = block))
  new : ∀ (pid : PropertyId) (info : Entry), before.sps[pid]? = none → db.sps[pid]? = some info →
    info.creationBlock = block ∧ info.updateBlock = block ∧ before.txIndex info.txid = none
  tx : ∀ txid, db.txIndex txid = before.txIndex txid ∨
    before.txIndex txid = none ∧ ∃ (pid : PropertyId) (info : Entry), before.sps[pid]? = none ∧
      db.sps[pid]? = some info ∧ info.txid = txid
  prev : ∀ key : Uint256 × PropertyId, key.1 ≠ block →
    db.prevVersions key = before.prevVersions key

section Traced

variable {block : Uint256} {before db : CMPSPInfo} {calls : List SPCall}

theorem traced_nil (block : Uint256) (db : CMPSPInfo) : Traced block db [] db := by
  constructor
  · intro pid first h
    refine ⟨first, h, rfl, fun _ => rfl, ?_⟩
    intro hne
    exact absurd rfl hne
  · intro pid info hnone hsome
    rw [hnone] at hsome
    cases hsome
  · simp
  · intro key _
    rfl

theorem updates_concat_putSP (pid : PropertyId) (calls : List SPCall) (ecosystem : Nat)
    (info : Entry) : updates pid (calls ++ [.putSP ecosystem info]) = updates pid calls := by
  unfold updates
  rw [countP_append]
  exact Nat.add_zero _

theorem updates_concat_updateSP (pid q : PropertyId) (calls : List SPCall) (info : Entry) :
    updates pid (calls ++ [.updateSP q info]) = updates pid calls + if q = pid then 1 else 0 := by
  unfold updates
  rw [countP_append, countP_singleton]
  simp only [beq_iff_eq]

variable (h : Traced block before calls db) (hnum : Numbered db)
include h hnum

theorem Traced.putSP {ecosystem : Nat}
    {info : Entry} (hallowed : (SPCall.putSP ecosystem info).Allowed block db) :
    Traced block before (calls ++ [.putSP ecosystem info]) (db.putSP ecosystem info).2 := by
  have hfresh : db.sps[db.peekNextSPID ecosystem]? = none :=
    getElem?_eq_none (hnum.fresh hallowed)
  obtain ⟨-, hcre, hupd, htxid⟩ := hallowed
  -- the identifier was free before the block as well
  have hbefore : before.sps[db.peekNextSPID ecosystem]? = none := by
    cases hsome : before.sps[db.peekNextSPID ecosystem]? with
    | none => rfl
    | some first =>
      obtain ⟨_, hcur, -⟩ := h.old _ first hsome
      rw [hfresh] at hcur
      cases hcur
  have htxBefore : before.txIndex info.txid = none := by
    rcases h.tx info.txid with heq | ⟨hnone, -⟩
    · rw [← heq]
      exact htxid
    · exact hnone
  have hkeep : ∀ (pid : PropertyId) (e : Entry), db.sps[pid]? = some e →
      (db.putSP ecosystem info).2.sps[pid]? = some e := by
    intro pid e he
    rw [sps_putSP, if_neg]
    · exact he
    · rintro rfl
      rw [hfresh] at he
      cases he
  constructor
  · intro pid first hfirst
    obtain ⟨cur, hcur, hrest⟩ := h.old pid first hfirst
    rw [updates_concat_putSP]
    exact ⟨cur, hkeep pid cur hcur, hrest⟩
  · intro pid e hnone hsome
    rw [sps_putSP] at hsome
    split at hsome
    · cases hsome
      exact ⟨hcre, hupd, htxBefore⟩
    · exact h.new pid e hnone hsome
  · intro txid
    show update db.txIndex info.txid _ txid = _ ∨ _
    by_cases heq : txid = info.txid
    · subst heq
      refine .inr ⟨htxBefore, db.peekNextSPID ecosystem, info, hbefore, ?_, rfl⟩
      rw [sps_putSP, if_pos rfl]
    · rw [update_of_ne heq]
      rcases h.tx txid with hsame | ⟨hnone, pid, e, hpid, he, htx⟩
      · exact .inl hsame
      · exact .inr ⟨hnone, pid, e, hpid, hkeep pid e he, htx⟩
  · exact h.prev

theorem Traced.updateSP
    {q : PropertyId} {info : Entry} (hallowed : (SPCall.updateSP q info).Allowed block db) :
    Traced block before (calls ++ [.updateSP q info]) (db.updateSP q info).2 := by
  obtain ⟨hupd, old, hold, hcre, htxid⟩ := hallowed
  have himp : isImplied q = false :=
    hnum.not_implied (OrderedMap.mem_iff_exists.mpr ⟨_, hold⟩)
  have hprevs := @CMPSPInfo.prevVersions_updateSP q db info old himp hold
  rw [hupd] at hprevs
  constructor
  · intro pid first hfirst
    obtain ⟨cur, hcur, hcurCre, hzero, hpos⟩ := h.old pid first hfirst
    rw [updates_concat_updateSP, sps_updateSP himp, hprevs]
    by_cases hpid : pid = q
    · subst hpid
      rw [hold] at hcur
      cases hcur
      rw [if_pos rfl, if_pos rfl, update_self]
      refine ⟨info, rfl, hcre.trans hcurCre, fun hne => absurd hne (Nat.succ_ne_zero _), ?_⟩
      intro _
      refine ⟨hupd, old, rfl, ?_, ?_⟩
      · intro hone
        exact hzero (by omega)
      · intro htwo
        exact (hpos (by omega)).1
    · rw [if_neg hpid, if_neg (Ne.symm hpid), Nat.add_zero, update_of_ne]
      · exact ⟨cur, hcur, hcurCre, hzero, hpos⟩
      · intro heq
        exact hpid (Prod.ext_iff.mp heq).2
  · intro pid e hnone hsome
    rw [sps_updateSP himp] at hsome
    split at hsome
    · next hpid =>
      subst hpid
      cases hsome
      obtain ⟨hc, -, ht⟩ := h.new pid old hnone hold
      exact ⟨hcre.trans hc, hupd, by rw [htxid]; exact ht⟩
    · exact h.new pid e hnone hsome
  · intro txid
    rw [txIndex_updateSP]
    rcases h.tx txid with hsame | ⟨hnone, pid, e, hpid, he, htx⟩
    · exact .inl hsame
    · refine .inr ⟨hnone, pid, ?_⟩
      rw [sps_updateSP himp]
      by_cases hq : pid = q
      · subst hq
        rw [hold] at he
        cases he
        exact ⟨info, hpid, if_pos rfl, htxid.trans htx⟩
      · exact ⟨e, hpid, by rw [if_neg hq]; exact he, htx⟩
  · intro key hkey
    rw [hprevs, update_of_ne]
    · exact h.prev key hkey
    · rintro rfl
      exact hkey rfl

omit h hnum

/-- **The trace of a whole block**, by induction over its calls. -/
theorem traced_runCalls (hnum : Numbered db) (hallowed : CallsAllowed block db calls) :
    Traced block db calls (runCalls db calls) := by
  suffices hgen : ∀ (rest done : List SPCall) (cur : CMPSPInfo), Numbered cur →
      CallsAllowed block cur rest → Traced block db done cur →
      Traced block db (done ++ rest) (runCalls cur rest) from
    hgen calls [] db hnum hallowed (traced_nil block db)
  intro rest
  induction rest with
  | nil =>
    intro done cur _ _ htraced
    rw [append_nil]
    exact htraced
  | cons call rest ih =>
    intro done cur hcur hrest htraced
    have hstep : Traced block db (done ++ [call]) (call.run cur) := by
      cases call with
      | putSP ecosystem info => exact htraced.putSP hcur hrest.1
      | updateSP pid info => exact htraced.updateSP hcur hrest.1
    have happ : done ++ call :: rest = (done ++ [call]) ++ rest := by simp
    rw [happ]
    exact ih (done ++ [call]) (call.run cur) (hcur.call hrest.1) hrest.2 hstep

/-! ## §4. Undoing one block. -/

/-- A database that agrees with another on what `popBlock` of some blocks reads. -/
structure AgreesOn (blocks : List Uint256) (db db' : CMPSPInfo) : Prop where
  same : SameProperties db db'
  prev : ∀ block ∈ blocks, ∀ pid, db'.prevVersions (block, pid) = db.prevVersions (block, pid)

variable {blocks : List Uint256} {db' : CMPSPInfo} (h : Traced block before calls db)
  (hagree : AgreesOn blocks db db')
include h hagree

/-- Every previous version `popBlock` looks for is there. -/
theorem Traced.found (hblock : block ∈ blocks) (hunseen : Unseen before block) (pid : PropertyId)
    (info : Entry) (hcur : db'.sps[pid]? = some info) (hupd : info.updateBlock = block)
    (hcre : info.updateBlock ≠ info.creationBlock) :
    (db'.prevVersions (block, pid)).isSome = true := by
  rw [hagree.same.1] at hcur
  rw [hagree.prev block hblock]
  cases hfirst : before.sps[pid]? with
  | none =>
    obtain ⟨hc, hu, -⟩ := h.new pid info hfirst hcur
    exact absurd (hu.trans hc.symm) hcre
  | some first =>
    obtain ⟨cur, hcur', -, hzero, hpos⟩ := h.old pid first hfirst
    rw [hcur] at hcur'
    cases hcur'
    have hne : updates pid calls ≠ 0 := by
      intro hz
      exact (hunseen pid first hfirst).1 (hzero hz ▸ hupd)
    obtain ⟨-, prev, hprev, -⟩ := hpos hne
    rw [hprev]
    rfl

theorem Traced.popped_old (hblock : block ∈ blocks) (hunseen : Unseen before block)
    {pid : PropertyId} {first : Entry} (hfirst : before.sps[pid]? = some first) :
    (db'.sps[pid]?.bind (db'.poppedEntry block pid) = some first) ↔ updates pid calls ≤ 1 := by
  obtain ⟨info, hcur, hcre, hzero, hpos⟩ := h.old pid first hfirst
  obtain ⟨hfirstUpd, hfirstCre⟩ := hunseen pid first hfirst
  rw [hagree.same.1, hcur]
  show db'.poppedEntry block pid info = some first ↔ _
  unfold poppedEntry
  by_cases hz : updates pid calls = 0
  · have hinfo := hzero hz
    subst hinfo
    rw [if_neg hfirstUpd]
    exact iff_of_true rfl (by omega)
  · obtain ⟨hupd, prev, hprev, hone, htwo⟩ := hpos hz
    have hne : info.updateBlock ≠ info.creationBlock := by
      rw [hupd, hcre]
      exact fun heq => hfirstCre heq.symm
    rw [if_pos hupd, if_neg hne, hupd, hagree.prev block hblock, hprev, some.injEq]
    constructor
    · rintro rfl
      by_contra hmany
      exact hfirstUpd (htwo (by omega))
    · intro hle
      exact hone (by omega)

theorem Traced.popped_new {pid : PropertyId} (hnone : before.sps[pid]? = none) :
    db'.sps[pid]?.bind (db'.poppedEntry block pid) = none := by
  rw [hagree.same.1]
  cases hcur : db.sps[pid]? with
  | none => rfl
  | some info =>
    obtain ⟨hcre, hupd, -⟩ := h.new pid info hnone hcur
    show db'.poppedEntry block pid info = none
    unfold poppedEntry
    rw [if_pos hupd, if_pos (hupd.trans hcre.symm)]

theorem Traced.popped_txIndex (hblock : block ∈ blocks) (hunseen : Unseen before block) :
    (db'.popBlock block).2.txIndex = before.txIndex := by
  obtain ⟨-, hpop⟩ := db'.popBlock_spec block (h.found hagree hblock hunseen)
  funext txid
  by_cases hcreated : ∃ entry ∈ db'.sps.toList, entry.2.createdBy block ∧ entry.2.txid = txid
  · obtain ⟨⟨pid, info⟩, hmem, hby, rfl⟩ := hcreated
    rw [hpop.deleted _ hmem hby]
    have hcur := mem_toList_iff_getElem?_eq_some.mp hmem
    rw [hagree.same.1] at hcur
    cases hfirst : before.sps[pid]? with
    | none => exact ((h.new pid info hfirst hcur).2.2).symm
    | some first =>
      -- a property from before the block was not created by it
      obtain ⟨cur, hcur', hcre, -⟩ := h.old pid first hfirst
      rw [hcur] at hcur'
      cases hcur'
      exact absurd (hcre.symm.trans (hby.2.symm.trans hby.1)) (hunseen pid first hfirst).2
  · rw [hpop.kept txid fun e he hby htx => hcreated ⟨e, he, hby, htx⟩, hagree.same.2]
    rcases h.tx txid with hsame | ⟨-, pid, info, hfirst, hcur, htx⟩
    · exact hsame
    · obtain ⟨hcre, hupd, -⟩ := h.new pid info hfirst hcur
      refine absurd ⟨(pid, info), ?_, ⟨hupd, hupd.trans hcre.symm⟩, htx⟩ hcreated
      rw [hagree.same.1]
      exact mem_toList_iff_getElem?_eq_some.mpr hcur

/-- **One block is undone** exactly when it updates no older property twice. -/
theorem Traced.pop_iff (hblock : block ∈ blocks) (hunseen : Unseen before block) :
    0 ≤ (db'.popBlock block).1 ∧
      (SameProperties before (db'.popBlock block).2 ↔ UpdatedOnce before calls) := by
  obtain ⟨hcode, hpop⟩ := db'.popBlock_spec block (h.found hagree hblock hunseen)
  refine ⟨hcode, ?_⟩
  constructor
  · rintro ⟨heq, -⟩ pid hpid
    obtain ⟨first, hfirst⟩ := OrderedMap.mem_iff_exists.mp hpid
    have hpopped := hpop.sps_all pid
    rw [heq, hfirst] at hpopped
    exact (h.popped_old hagree hblock hunseen hfirst).mp hpopped.symm
  · intro honce
    refine ⟨ext_getElem? fun pid => ?_, h.popped_txIndex hagree hblock hunseen⟩
    rw [hpop.sps_all pid]
    cases hfirst : before.sps[pid]? with
    | none => exact h.popped_new hagree hfirst
    | some first =>
      have hpid : pid ∈ before.sps := OrderedMap.mem_iff_exists.mpr ⟨_, hfirst⟩
      exact (h.popped_old hagree hblock hunseen hfirst).mpr (honce pid hpid)

end Traced

/-! ## §5. Successive blocks. -/

/-- The databases the node can be in. -/
inductive SPReachable : CMPSPInfo → Prop where
  | init : SPReachable {}
  | call {db : CMPSPInfo} {block : Uint256} {call : SPCall} (h : SPReachable db)
      (hallowed : call.Allowed block db) : SPReachable (call.run db)
  | pop {db : CMPSPInfo} (h : SPReachable db) (block : Uint256) :
      SPReachable (db.popBlock block).2

/-- A block with the calls made while it is processed. -/
structure SPBlock where
  hash : Uint256
  calls : List SPCall

/-- The database after some blocks, given newest first. -/
def connectBlocks (db : CMPSPInfo) : List SPBlock → CMPSPInfo
  | [] => db
  | b :: older => runCalls (connectBlocks db older) b.calls

/-- The blocks differ, none has been seen before, and their calls are allowed. -/
def BlocksAllowed (db : CMPSPInfo) : List SPBlock → Prop
  | [] => True
  | b :: older => Unseen db b.hash ∧ b.hash ∉ older.map (·.hash) ∧
      CallsAllowed b.hash (connectBlocks db older) b.calls ∧ BlocksAllowed db older

/-- Every block updates each older property at most once. -/
def BlocksUpdateOnce (db : CMPSPInfo) : List SPBlock → Prop
  | [] => True
  | b :: older => UpdatedOnce (connectBlocks db older) b.calls ∧ BlocksUpdateOnce db older

/-- The loop of `load_most_relevant_state`: `popBlock` over successive tips, given up at a
negative code. -/
def popBlocks (db : CMPSPInfo) : List Uint256 → Option CMPSPInfo
  | [] => some db
  | block :: rest =>
    if (db.popBlock block).1 < 0 then none else popBlocks (db.popBlock block).2 rest

section Blocks

variable {db : CMPSPInfo}

/-- A failed `popBlock` changes nothing, and a successful one keeps the counters and brings
in no identifier. -/
theorem Numbered.pop (h : Numbered db) (block : Uint256) : Numbered (db.popBlock block).2 := by
  cases hrun : db.sps.toList.mapM (db.popEntry block) with
  | error code =>
    have hsame : (db.popBlock block).2 = db := by
      unfold popBlock
      rw [hrun]
    rw [hsame]
    exact h
  | ok parts =>
    obtain ⟨-, hpop⟩ := db.popBlock_spec block (by
      intro pid info hcur hupd hcre
      obtain ⟨part, -, hpart⟩ :=
        Except.mapM_step_ok hrun (mem_toList_iff_getElem?_eq_some.mpr hcur)
      unfold popEntry at hpart
      cases hprev : db.prevVersions (block, pid) with
      | some prev => rfl
      | none =>
        simp only [hupd, if_true] at hpart
        rw [if_neg (hupd ▸ hcre), hprev] at hpart
        cases hpart)
    refine ⟨by rw [hpop.spid]; exact h.main, by rw [hpop.testSpid]; exact h.test, ?_⟩
    intro pid hpid
    rw [hpop.spid, hpop.testSpid]
    apply h.ids
    rw [mem_iff_isSome_getElem?, hpop.sps_all] at hpid
    rw [mem_iff_isSome_getElem?]
    exact isSome_of_isSome_bind hpid

theorem SPReachable.numbered (h : SPReachable db) : Numbered db := by
  induction h with
  | init => exact ⟨le_rfl, le_rfl, fun pid hpid => absurd hpid not_mem_empty⟩
  | call _ hallowed ih => exact ih.call hallowed
  | pop _ block ih => exact ih.pop block

variable {blocks : List SPBlock}

theorem Numbered.connectBlocks (h : Numbered db) (hallowed : BlocksAllowed db blocks) :
    Numbered (connectBlocks db blocks) := by
  induction blocks with
  | nil => exact h
  | cons b older ih => exact (ih hallowed.2.2.2).calls hallowed.2.2.1

theorem Unseen.connectBlocks (hnum : Numbered db) {block : Uint256} (h : Unseen db block)
    (hallowed : BlocksAllowed db blocks) (hnew : block ∉ blocks.map (·.hash)) :
    Unseen (connectBlocks db blocks) block := by
  induction blocks with
  | nil => exact h
  | cons b older ih =>
    rw [map_cons, mem_cons, not_or] at hnew
    have hprev := ih hallowed.2.2.2 hnew.2
    have htraced := traced_runCalls (hnum.connectBlocks hallowed.2.2.2) hallowed.2.2.1
    intro pid info hcur
    cases hfirst : (Elysium.connectBlocks db older).sps[pid]? with
    | none =>
      obtain ⟨hcre, hupd, -⟩ := htraced.new pid info hfirst hcur
      rw [hcre, hupd]
      exact ⟨Ne.symm hnew.1, Ne.symm hnew.1⟩
    | some first =>
      obtain ⟨hfu, hfc⟩ := hprev pid first hfirst
      obtain ⟨cur, hcur', hcre, hzero, hpos⟩ := htraced.old pid first hfirst
      have hsame : info = cur := some.inj (hcur.symm.trans hcur')
      subst hsame
      refine ⟨?_, by rw [hcre]; exact hfc⟩
      by_cases hz : updates pid b.calls = 0
      · rw [hzero hz]
        exact hfu
      · rw [(hpos hz).1]
        exact Ne.symm hnew.1

/-- **Popping the blocks again**, newest first, from any database that agrees with the one
they left. -/
theorem popBlocks_restores (hnum : Numbered db) (hallowed : BlocksAllowed db blocks)
    (honce : BlocksUpdateOnce db blocks) {db' : CMPSPInfo}
    (hagree : AgreesOn (blocks.map (·.hash)) (connectBlocks db blocks) db') :
    ∃ restored, popBlocks db' (blocks.map (·.hash)) = some restored ∧
      SameProperties db restored := by
  induction blocks generalizing db' with
  | nil => exact ⟨db', rfl, hagree.same⟩
  | cons b older ih =>
    obtain ⟨hunseen, hnotin, hcalls, hrest⟩ := hallowed
    have hbefore := hunseen.connectBlocks hnum hrest hnotin
    have htraced := traced_runCalls (hnum.connectBlocks hrest) hcalls
    have hmem : b.hash ∈ (b :: older).map (·.hash) := mem_cons_self
    obtain ⟨hcode, hiff⟩ := htraced.pop_iff hagree hmem hbefore
    obtain ⟨-, hpop⟩ := db'.popBlock_spec b.hash (htraced.found hagree hmem hbefore)
    -- what the older blocks stored is untouched by this block and by its removal
    have hagree' : AgreesOn (older.map (·.hash)) (connectBlocks db older)
        (db'.popBlock b.hash).2 := by
      refine ⟨hiff.mpr honce.1, ?_⟩
      intro block hblock pid
      have hne : block ≠ b.hash := fun heq => hnotin (heq ▸ hblock)
      rw [hpop.prev (block, pid) hne, hagree.prev block (mem_cons_of_mem _ hblock) pid]
      exact htraced.prev (block, pid) hne
    obtain ⟨restored, hrun, hsame⟩ := ih hrest honce.2 hagree'
    refine ⟨restored, ?_, hsame⟩
    rw [map_cons, popBlocks, if_neg (by omega)]
    exact hrun

/-- **`popBlock` undoes a block exactly when the block updates no older property twice.**
From any reachable database, blocks that each update an older property at most once are
undone, one after the other, by `popBlock` over the successive tips; and a further block,
with any calls, is undone by `popBlock` if and only if it does so too. -/
theorem popBlock_restores_iff (hdb : SPReachable db) {blocks : List SPBlock}
    (hallowed : BlocksAllowed db blocks) (honce : BlocksUpdateOnce db blocks) :
    (∃ restored, popBlocks (connectBlocks db blocks) (blocks.map (·.hash)) = some restored ∧
      SameProperties db restored) ∧
    ∀ b : SPBlock, BlocksAllowed db (b :: blocks) →
      (0 ≤ ((connectBlocks db (b :: blocks)).popBlock b.hash).1 ∧
        SameProperties (connectBlocks db blocks)
          ((connectBlocks db (b :: blocks)).popBlock b.hash).2 ↔
        UpdatedOnce (connectBlocks db blocks) b.calls) := by
  have hnum := hdb.numbered
  refine ⟨popBlocks_restores hnum hallowed honce ⟨⟨rfl, rfl⟩, fun _ _ _ => rfl⟩, ?_⟩
  intro b hb
  have htraced := traced_runCalls (hnum.connectBlocks hallowed) hb.2.2.1
  have hagree : AgreesOn [b.hash] (runCalls (connectBlocks db blocks) b.calls)
      (connectBlocks db (b :: blocks)) := ⟨⟨rfl, rfl⟩, fun _ _ _ => rfl⟩
  obtain ⟨hcode, hiff⟩ := htraced.pop_iff hagree List.mem_cons_self
    (hb.1.connectBlocks hnum hallowed hb.2.1)
  constructor
  · rintro ⟨-, hsame⟩
    exact hiff.mp hsame
  · intro hupdated
    exact ⟨hcode, hiff.mpr hupdated⟩

end Blocks

/-! ## §6. A managed property granted twice in one block. -/

/-- A managed property as block `1` creates it. -/
def sampleManaged : Entry :=
  { issuer := "issuer", manual := true, txid := 1, creationBlock := 1, updateBlock := 1 }

/-- Its entry after `n` tokens have been granted in block `2`. -/
def sampleGranted (n : Int) : Entry := { sampleManaged with numTokens := n, updateBlock := 2 }

/-- The database after block `1`, which creates property `3`. -/
def sampleProperties : CMPSPInfo := ((({} : CMPSPInfo)).putSP 1 sampleManaged).2

theorem sampleProperties_reachable : SPReachable sampleProperties :=
  @SPReachable.call {} 1 (.putSP 1 sampleManaged) .init ⟨.inl ⟨rfl, by decide⟩, rfl, rfl, rfl⟩

theorem sampleProperties_three : sampleProperties.sps[3]? = some sampleManaged := rfl

theorem sampleProperties_unseen {block : Uint256} (hblock : 1 ≠ block) :
    Unseen sampleProperties block := by
  intro pid info hcur
  unfold sampleProperties at hcur
  rw [sps_putSP] at hcur
  split at hcur
  · cases hcur
    exact ⟨hblock, hblock⟩
  · rw [show (({} : CMPSPInfo)).sps[pid]? = none from getElem?_empty] at hcur
    cases hcur

theorem sampleGrant_allowed {n : Int} {db : CMPSPInfo} {old : Entry} (hold : db.sps[3]? = some old)
    (hcre : old.creationBlock = 1) (htxid : old.txid = 1) :
    (SPCall.updateSP 3 (sampleGranted n)).Allowed 2 db :=
  ⟨rfl, old, hold, hcre.symm, htxid.symm⟩

/-- Block `2` creates a property and grants tokens of the first one, block `3` grants more. -/
def sampleGrants : List SPBlock :=
  [⟨3, [.updateSP 3 { sampleManaged with numTokens := 30, updateBlock := 3 }]⟩,
    ⟨2, [.putSP 1 { sampleManaged with txid := 2, creationBlock := 2, updateBlock := 2 },
      .updateSP 3 (sampleGranted 10)]⟩]

theorem popBlock_restores_two_blocks :
    ∃ restored, popBlocks (connectBlocks sampleProperties sampleGrants) [3, 2] = some restored ∧
      SameProperties sampleProperties restored := by
  have hallowed : BlocksAllowed sampleProperties sampleGrants :=
    ⟨sampleProperties_unseen (by decide), by decide,
      ⟨⟨rfl, sampleGranted 10, rfl, rfl, rfl⟩, trivial⟩,
      sampleProperties_unseen (by decide), List.not_mem_nil,
      ⟨⟨.inl ⟨rfl, by decide⟩, rfl, rfl, rfl⟩,
        ⟨rfl, sampleManaged, rfl, rfl, rfl⟩, trivial⟩, trivial⟩
  have honce : BlocksUpdateOnce sampleProperties sampleGrants :=
    ⟨fun pid _ => List.countP_le_length, fun pid _ => List.countP_le_length (l := [_]), trivial⟩
  exact (popBlock_restores_iff sampleProperties_reachable hallowed honce).1

/-- **Two grants of one property in one block**: `popBlock` succeeds but leaves the entry of
the first grant. -/
theorem popBlock_keeps_first_grant :
    SPReachable sampleProperties ∧
    BlocksAllowed sampleProperties
      [⟨2, [.updateSP 3 (sampleGranted 10), .updateSP 3 (sampleGranted 20)]⟩] ∧
    0 ≤ ((connectBlocks sampleProperties
      [⟨2, [.updateSP 3 (sampleGranted 10), .updateSP 3 (sampleGranted 20)]⟩]).popBlock 2).1 ∧
    ((connectBlocks sampleProperties
      [⟨2, [.updateSP 3 (sampleGranted 10), .updateSP 3 (sampleGranted 20)]⟩]).popBlock 2).2.sps[3]?.map
        Entry.numTokens = some 10 ∧
    sampleProperties.sps[3]?.map Entry.numTokens = some 0 := by
  have himp : isImplied 3 = false := by decide
  refine ⟨sampleProperties_reachable, ⟨sampleProperties_unseen (by decide), List.not_mem_nil,
    ⟨sampleGrant_allowed sampleProperties_three rfl rfl, ?_, trivial⟩, trivial⟩,
    by decide +kernel, by decide +kernel, by decide +kernel⟩
  have hfirst : (sampleProperties.updateSP 3 (sampleGranted 10)).2.sps[3]? =
      some (sampleGranted 10) := (sps_updateSP himp 3).trans (if_pos rfl)
  exact sampleGrant_allowed hfirst rfl rfl

end Zcoin.Elysium
