/-
  Zcoin.Elysium.Denominations — how many confirmations a denomination still needs
  (`CMPSPInfo::getDenominationRemainingConfirmation`, `elysium/sp.cpp`).

  The block that created a denomination is searched from a version of its property to the one
  that an update in its block replaced, until the denomination is missing or the block is deep
  enough.  A second update in one block replaces a version of that block, and the search does
  not leave it again.

  MAIN RESULT: `remainingConfirmation_iff`.
-/
import Zcoin.Elysium.SmartProperty
import Zcoin.Lib.Loop

namespace Zcoin.Elysium

open Function List Lib

/-! ## §1. The search. -/

section Search

variable (height : Uint256 → Nat) (db : CMPSPInfo) (propertyId : PropertyId) (denomination : Nat)

/-- `CMPSPInfo::getPrevVersion`. -/
def CMPSPInfo.getPrevVersion (info : Entry) : Option Entry :=
  db.prevVersions (info.updateBlock, propertyId)

/-- A round of the loop, with the height of the last block seen with the denomination. -/
def searchRound (targetBlock : Int) : Entry × Int → (Entry × Int) ⊕ Int
  | (info, last) =>
    if denomination < info.denominations.length then
      if (height info.updateBlock : Int) > targetBlock then
        match db.getPrevVersion propertyId info with
        | none => .inr (height info.updateBlock)
        | some prev => .inl (prev, height info.updateBlock)
      else .inr (height info.updateBlock)
    else .inr last

/-- The loop.  `none`: it does not end. -/
def lastBlockHasDenomination (targetBlock : Int) (info : Entry) (last : Int) : Option Int :=
  Loop.run ⟨fun s => some (searchRound height db propertyId denomination targetBlock s)⟩
    (info, last)

/-- `CMPSPInfo::getDenominationRemainingConfirmation`; `chainHeight` is that of the tip. -/
def getDenominationRemainingConfirmation (systemAddress : String) (chainHeight target : Int) :
    ExceptT String Option Int :=
  match db.getSP systemAddress propertyId with
  | none => throw "property notfound"
  | some info =>
    -- no denomination in latest version then imply it's unconfirmed
    if denomination ≥ info.denominations.length then return target
    else do
      let targetBlock := max (chainHeight - target + 1) 0
      let last ← lastBlockHasDenomination height db propertyId denomination targetBlock info 0
      return if last ≤ targetBlock then 0 else last - targetBlock

end Search

/-! ## §2. Histories. -/

variable (height : Uint256 → Nat) (propertyId : PropertyId)

/-- An update is made in the block of the version it replaces or in a higher one, and keeps the
denominations. -/
def Entry.Follows (info old : Entry) : Prop :=
  (old.updateBlock = info.updateBlock ∨ height old.updateBlock < height info.updateBlock) ∧
    old.denominations <+: info.denominations

/-- **The histories of a property**: its versions, newest first, as `putSP` and `updateSP` have
written them, with anything in between that leaves the property alone. -/
inductive Versioned : CMPSPInfo → List Entry → Prop
  | created {db : CMPSPInfo} (ecosystem : Nat) (info : Entry)
      (hid : db.peekNextSPID ecosystem = propertyId) (himplied : isImplied propertyId = false)
      (hnew : ∀ block, db.prevVersions (block, propertyId) = none) :
      Versioned (db.putSP ecosystem info).2 [info]
  | updated {db : CMPSPInfo} {old : Entry} {versions : List Entry} (info : Entry)
      (h : Versioned db (old :: versions)) (hfollows : info.Follows height old) :
      Versioned (db.updateSP propertyId info).2 (info :: old :: versions)
  | other {db db' : CMPSPInfo} {versions : List Entry} (h : Versioned db versions)
      (hsp : db'.sps[propertyId]? = db.sps[propertyId]?)
      (hprev : ∀ block,
        db'.prevVersions (block, propertyId) = db.prevVersions (block, propertyId)) :
      Versioned db' versions

/-- The version that the newest update in a block replaced. -/
def replacedIn (block : Uint256) : List Entry → Option Entry
  | info :: old :: versions =>
    if info.updateBlock = block then some old else replacedIn block (old :: versions)
  | _ => none

/-- What the database holds of a history. -/
structure Recorded (db : CMPSPInfo) (versions : List Entry) : Prop where
  implied : isImplied propertyId = false
  current : db.sps[propertyId]? = versions.head?
  prev : ∀ block, db.prevVersions (block, propertyId) = replacedIn block versions
  ordered : versions.Pairwise (Entry.Follows height)

variable {height} {propertyId} {db : CMPSPInfo} {versions : List Entry}

theorem Entry.Follows.refl (info : Entry) : info.Follows height info := ⟨.inl rfl, prefix_rfl⟩

theorem Entry.Follows.trans {info old older : Entry} (h : info.Follows height old)
    (h' : old.Follows height older) : info.Follows height older := by
  refine ⟨?_, h'.2.trans h.2⟩
  rcases h.1 with heq | hlt
  · exact heq ▸ h'.1
  · rcases h'.1 with heq' | hlt'
    · exact .inr (heq' ▸ hlt)
    · exact .inr (hlt'.trans hlt)

theorem Entry.Follows.height_le {info old : Entry} (h : info.Follows height old) :
    height old.updateBlock ≤ height info.updateBlock := by
  rcases h.1 with heq | hlt
  · rw [heq]
  · exact hlt.le

theorem Versioned.recorded (h : Versioned height propertyId db versions) :
    Recorded height propertyId db versions := by
  induction h with
  | created ecosystem info hid himplied hnew =>
    refine ⟨himplied, ?_, hnew, pairwise_singleton _ _⟩
    rw [← hid]
    exact (CMPSPInfo.sps_putSP _ _ _ _).trans (if_pos rfl)
  | @updated db old versions info _ hfollows ih =>
    refine ⟨ih.implied, (CMPSPInfo.sps_updateSP ih.implied _).trans (if_pos rfl), ?_, ?_⟩
    · intro block
      show _ = if _ then _ else _
      rw [CMPSPInfo.prevVersions_updateSP ih.implied ih.current, update_apply, ih.prev]
      simp only [Prod.mk.injEq, and_true, @eq_comm _ block]
    · obtain ⟨hold, -⟩ := pairwise_cons.mp ih.ordered
      exact .cons (forall_mem_cons.mpr ⟨hfollows, fun o ho => hfollows.trans (hold o ho)⟩)
        ih.ordered
  | other _ hsp hprev ih =>
    exact ⟨ih.implied, hsp.trans ih.current, fun block => (hprev block).trans (ih.prev block),
      ih.ordered⟩

/-! ## §3. Where the search ends. -/

variable {denomination : Nat} {targetBlock : Int}

theorem search_eq (info : Entry) (last : Int) :
    lastBlockHasDenomination height db propertyId denomination targetBlock info last =
      Sum.elim (fun s => lastBlockHasDenomination height db propertyId denomination targetBlock
        s.1 s.2) some (searchRound height db propertyId denomination targetBlock (info, last)) :=
  Loop.run_eq _ _

/-- A version that an update in its own block is recorded to have replaced. -/
theorem search_stuck {info : Entry} (hhas : denomination < info.denominations.length)
    (hlow : targetBlock < height info.updateBlock)
    (hprev : db.getPrevVersion propertyId info = some info) (last : Int) :
    lastBlockHasDenomination height db propertyId denomination targetBlock info last = none := by
  refine Loop.run_eq_none (fun s => s.1 = info) ?_ rfl
  rintro ⟨other, last⟩ heq
  obtain rfl : other = info := heq
  refine ⟨(other, height other.updateBlock), ?_, rfl⟩
  simp only [searchRound, if_pos hhas, if_pos hlow, hprev]

/-- Every update above the target block in the block of the version it replaces is older than the
denomination. -/
def Leaves (height : Uint256 → Nat) (denomination : Nat) (targetBlock : Int)
    (versions : List Entry) : Prop :=
  versions.IsChain fun info old => old.updateBlock = info.updateBlock →
    targetBlock < height info.updateBlock → old.denominations.length ≤ denomination

/-- **The search** from the newest version, over the versions that have the denomination. -/
theorem search_spec (targetBlock : Int) {newer older : List Entry} {created : Entry}
    (hhas : denomination < created.denominations.length)
    (hbefore : ∀ o ∈ older, o.denominations.length ≤ denomination)
    (hordered : (newer ++ created :: older).Pairwise (Entry.Follows height))
    (hprev : ∀ u ∈ newer ++ created :: older,
      db.getPrevVersion propertyId u = replacedIn u.updateBlock (newer ++ created :: older))
    (last : Int) : ∀ info ∈ (newer ++ created :: older).head?,
      (Leaves height denomination targetBlock (newer ++ created :: older) ∧ ∃ found,
        lastBlockHasDenomination height db propertyId denomination targetBlock info last =
          some found ∧ max found targetBlock = max (height created.updateBlock : Int) targetBlock) ∨
      (¬ Leaves height denomination targetBlock (newer ++ created :: older) ∧
        lastBlockHasDenomination height db propertyId denomination targetBlock info last =
          none) := by
  induction newer generalizing last with
  | nil =>
    rintro _ ⟨⟩
    -- the version before the denomination ends the search, or there is none
    refine .inl ⟨Pairwise.isChain (pairwise_cons.mpr ⟨fun o ho _ _ => hbefore o ho,
      pairwise_of_forall_mem_list fun _ _ o ho _ _ => hbefore o ho⟩), _, ?_, rfl⟩
    rw [search_eq]
    simp only [searchRound, if_pos hhas]
    split
    · rw [hprev created mem_cons_self]
      cases older with
      | nil => rfl
      | cons o older =>
        have hreplaced : replacedIn created.updateBlock (created :: o :: older) = some o :=
          if_pos rfl
        rw [nil_append, hreplaced, Sum.elim_inl, search_eq]
        simp only [searchRound, if_neg (Nat.not_lt.mpr (hbefore o mem_cons_self)), Sum.elim_inr]
    · rfl
  | cons info newer ih =>
    rintro _ ⟨⟩
    obtain ⟨old, rest, hold⟩ : ∃ old rest, newer ++ created :: older = old :: rest := by
      cases newer <;> exact ⟨_, _, rfl⟩
    have hmem : created ∈ old :: rest := by
      rw [← hold]
      simp
    rw [cons_append, hold] at hordered hprev ⊢
    rw [hold] at ih
    obtain ⟨hinfo, hordered⟩ := pairwise_cons.mp hordered
    have hafter : ∀ u ∈ old :: rest, old.Follows height u :=
      forall_mem_cons.mpr ⟨.refl old, (pairwise_cons.mp hordered).1⟩
    have holdHas : denomination < old.denominations.length :=
      hhas.trans_le (hafter created hmem).2.length_le
    have hthis : db.getPrevVersion propertyId info = some old :=
      (hprev info mem_cons_self).trans (if_pos rfl)
    rw [search_eq]
    simp only [searchRound, if_pos (hhas.trans_le (hinfo created hmem).2.length_le)]
    by_cases hlow : targetBlock < height info.updateBlock
    · rw [if_pos hlow, hthis]
      simp only [Sum.elim_inl]
      by_cases hsame : old.updateBlock = info.updateBlock
      · -- the block has replaced a version of its own
        refine .inr ⟨fun hleaves => ?_, search_stuck holdHas (hsame ▸ hlow) ?_ _⟩
        · exact absurd ((isChain_cons_cons.mp hleaves).1 hsame hlow) (by omega)
        · unfold CMPSPInfo.getPrevVersion
          rw [hsame]
          exact hthis
      · have hleaves : Leaves height denomination targetBlock (info :: old :: rest) ↔
            Leaves height denomination targetBlock (old :: rest) :=
          isChain_cons_cons.trans (and_iff_right fun h => absurd h hsame)
        rw [hleaves]
        refine ih hordered (fun u hu => ?_) _ old rfl
        refine (hprev u (mem_cons_of_mem _ hu)).trans (if_neg fun heq => ?_)
        have hlt := (hinfo old mem_cons_self).1.resolve_left hsame
        have hle := (hafter u hu).height_le
        rw [heq] at hlt
        omega
    · -- every block from here on is deep enough
      have hdeep : ∀ u ∈ info :: old :: rest, (height u.updateBlock : Int) ≤ targetBlock := by
        intro u hu
        have hle := (forall_mem_cons.mpr ⟨Entry.Follows.refl info, hinfo⟩ u hu).height_le
        omega
      refine .inl ⟨Pairwise.isChain (pairwise_of_forall_mem_list fun u hu _ _ _ h => ?_), _,
        by rw [if_neg hlow]; rfl, ?_⟩
      · exact absurd (hdeep u hu) (by omega)
      · rw [max_eq_right (not_lt.mp hlow), max_eq_right (hdeep created (mem_cons_of_mem _ hmem))]

/-! ## §4. The answer. -/

/-- **The missing confirmations** of a denomination are told, for a property with any history,
exactly if the target is at most one above the height of the chain, and no update in a block with
fewer confirmations than the target was made on a version of the same block that had the
denomination. -/
theorem remainingConfirmation_iff {newer older : List Entry} {created : Entry}
    (h : Versioned height propertyId db (newer ++ created :: older))
    (hhas : denomination < created.denominations.length)
    (hbefore : ∀ o ∈ older, o.denominations.length ≤ denomination) (systemAddress : String)
    (chainHeight target : Int) :
    getDenominationRemainingConfirmation height db propertyId denomination systemAddress chainHeight
        target = some (.ok (max 0 (target - (chainHeight - height created.updateBlock + 1)))) ↔
      target ≤ chainHeight + 1 ∧
        Leaves height denomination (chainHeight - target + 1) (newer ++ created :: older) := by
  have hst := h.recorded
  obtain ⟨info, rest, hinfo⟩ : ∃ info rest, newer ++ created :: older = info :: rest := by
    cases newer <;> exact ⟨_, _, rfl⟩
  have hsp : db.getSP systemAddress propertyId = some info := by
    unfold CMPSPInfo.getSP
    rw [if_neg (by simp [hst.implied]), hst.current, hinfo]
    rfl
  have hnow : denomination < info.denominations.length := by
    have hordered := hst.ordered
    have hmem : created ∈ newer ++ created :: older := by simp
    rw [hinfo] at hordered hmem
    rcases mem_cons.mp hmem with rfl | hmem
    · exact hhas
    · exact hhas.trans_le ((pairwise_cons.mp hordered).1 created hmem).2.length_le
  have hsearch := search_spec (max (chainHeight - target + 1) 0) hhas hbefore
    hst.ordered (fun u _ => hst.prev u.updateBlock) 0 info (by rw [hinfo]; rfl)
  unfold getDenominationRemainingConfirmation
  rw [hsp]
  dsimp only
  rw [if_neg (Nat.not_le.mpr hnow)]
  by_cases htarget : target ≤ chainHeight + 1
  · rw [max_eq_left (by omega)] at hsearch ⊢
    rcases hsearch with ⟨hleaves, found, hfound, hheight⟩ | ⟨hleaves, hnone⟩
    · rw [hfound]
      refine iff_of_true (congrArg (fun n => some (Except.ok n)) ?_) ⟨htarget, hleaves⟩
      split <;> omega
    · rw [hnone]
      exact iff_of_false (fun h => (nomatch h)) fun h => hleaves h.2
  · -- the target block is cut off at the genesis block
    rw [max_eq_right (by omega)] at hsearch ⊢
    refine iff_of_false ?_ fun h => htarget h.1
    rcases hsearch with ⟨-, found, hfound, hheight⟩ | ⟨-, hnone⟩
    · rw [hfound]
      intro h
      have hvalue := Except.ok.inj (Option.some.inj h)
      split at hvalue <;> omega
    · rw [hnone]
      exact fun h => (nomatch h)

/-- A property of block 1, and its version with one denomination. -/
def sampleProperty : Entry := { updateBlock := 1 }
def sampleDenominated : Entry := { updateBlock := 2, denominations := [100] }

theorem exists_denominated : ∃ db, Versioned BitVec.toNat 3 db [sampleDenominated, sampleProperty] :=
  ⟨_, .updated _ (@Versioned.created _ _ {} 1 sampleProperty rfl rfl fun _ => rfl)
    ⟨.inr (by decide), nil_prefix⟩⟩

/-- A denomination created in block 2, after the property in block 1. -/
theorem remainingConfirmation_two_blocks :
    ∃ db, Versioned BitVec.toNat 3 db [sampleDenominated, sampleProperty] ∧
      getDenominationRemainingConfirmation BitVec.toNat db 3 0 "" 3 3 = some (.ok 1) := by
  obtain ⟨db, h⟩ := exists_denominated
  have hcreated : Versioned BitVec.toNat 3 db ([] ++ sampleDenominated :: [sampleProperty]) := h
  exact ⟨db, h, (remainingConfirmation_iff hcreated (by decide) (by decide) "" 3 3).mpr
    ⟨by decide, .cons_cons (by decide) (.singleton _)⟩⟩

/-- **Two updates in one block**, the first of which creates the denomination: the search does not
end. -/
theorem remainingConfirmation_hangs :
    ∃ db, Versioned BitVec.toNat 3 db [sampleDenominated, sampleDenominated, sampleProperty] ∧
      getDenominationRemainingConfirmation BitVec.toNat db 3 0 "" 3 3 = none := by
  obtain ⟨db, h⟩ := exists_denominated
  replace h := h.updated sampleDenominated ⟨.inl rfl, prefix_rfl⟩
  generalize (db.updateSP 3 sampleDenominated).2 = db at h
  have hprev : db.getPrevVersion 3 sampleDenominated = some sampleDenominated := h.recorded.prev 2
  have hsp : db.getSP "" 3 = some sampleDenominated := h.recorded.current
  have hstuck : lastBlockHasDenomination BitVec.toNat db 3 0 1 sampleDenominated 0 = none :=
    search_stuck (by decide) (by decide) hprev 0
  refine ⟨db, h, ?_⟩
  unfold getDenominationRemainingConfirmation
  rw [hsp]
  exact congrArg (fun last : Option Int => (liftM last >>= _ : ExceptT String Option Int)) hstuck

end Zcoin.Elysium
