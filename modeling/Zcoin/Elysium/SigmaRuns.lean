/-
  Zcoin.Elysium.SigmaRuns — the Sigma database along a run.

  A run records mints and spends and, on a reorganisation, deletes everything from some
  height on.  The groups are read and the histories are walked by seeking in the ordered
  store; both walks are computed from the log the store mirrors.

  MAIN RESULT: `sigmaDatabase_run`.
-/
import Zcoin.Elysium.SigmaGroups

namespace Zcoin.Elysium

open Std List Option Nat
open Lib Lib.Except Lib.BigEndian Lib.OrderedStore

/-! ## §1. Reading a group. -/

section Reading

variable {C : Type} {groupSize : Nat} {log : List (SigmaRecord C)} {db : SigmaDatabase C}
  {isMember : C → Bool}

/-- The coins of a group, in recording order. -/
def groupCoins (groupSize : Nat) (p : UInt32) (d : UInt8) (g : Nat) (log : List (SigmaRecord C)) :
    List C := ((coins p d log).drop (g * groupSize)).take groupSize

theorem length_groupCoins (groupSize : Nat) (p : UInt32) (d : UInt8) (g : Nat)
    (log : List (SigmaRecord C)) :
    (groupCoins groupSize p d g log).length =
      min groupSize ((coins p d log).length - g * groupSize) := by
  unfold groupCoins
  rw [length_take, length_drop]

theorem getElem?_groupCoins {p : UInt32} {d : UInt8} {g i : Nat} (hi : i < groupSize) :
    (groupCoins groupSize p d g log)[i]? = (coins p d log)[g * groupSize + i]? := by
  unfold groupCoins
  rw [getElem?_take_of_lt hi, getElem?_drop]

/-- **The mint keys of a group** hold its coins. -/
theorem Mirrors.at_group (h : Mirrors groupSize log db) (hfits : Fits groupSize log) {p : UInt32}
    {d : UInt8} {g i : Nat} {value : SigmaValue C} (hg : g < 2 ^ 32) (hi : i < 2 ^ 16) :
    db.store[createMintKey p d g i]? = some value ↔
      ∃ c, (groupCoins groupSize p d g log)[i]? = some c ∧ value = .mint c := by
  rw [h.store, Stored.at_mint hfits hg hi]
  constructor
  · rintro ⟨j, c, hc, rfl, rfl, rfl⟩
    refine ⟨c, ?_, rfl⟩
    rw [getElem?_groupCoins (mod_lt j hfits.pos), div_add_mod']
    exact hc
  · rintro ⟨c, hc, rfl⟩
    have hlen := length_groupCoins groupSize p d g log
    have hlt := getElem?_lt hc
    have hi' : i < groupSize := by omega
    obtain ⟨hdiv, hmod⟩ := @index_in_group groupSize g i hi'
    rw [getElem?_groupCoins hi'] at hc
    exact ⟨_, c, hc, hdiv.symm, hmod.symm, rfl⟩

/-- The loop over coins that are numbered on from `i`. -/
theorem anonimityLoop_eq {p : UInt32} {d : UInt8} {g count : Nat} (hg : g < 2 ^ 32)
    (cs : List C) (i : Nat) (hi : i + cs.length ≤ 2 ^ 16) (hmember : ∀ c ∈ cs, isMember c = true)
    (hcount : i ≤ count) (hcount' : count ≤ i + cs.length) (rest : List (DbKey × SigmaValue C)) :
    anonimityLoop isMember p d g count i
      ((cs.zipIdx i).map (fun e => (createMintKey p d g e.2, .mint e.1)) ++ rest) =
      .ok (cs.take (count - i)) := by
  induction cs generalizing i with
  | nil =>
    have hdone : ¬ i < count := by
      simp only [length_nil] at hcount'
      omega
    cases rest with
    | nil =>
      rw [take_nil]
      rfl
    | cons e rest =>
      rw [take_nil]
      show (if i < count then _ else _) = _
      rw [if_neg hdone]
  | cons c cs ih =>
    rw [length_cons] at hi hcount'
    rw [zipIdx_cons, map_cons, cons_append]
    show (if i < count then _ else _) = _
    by_cases hlt : i < count
    · rw [if_pos hlt, parseMintKey_createMintKey hg (by omega), ok_bind]
      show (if p ≠ p ∨ d ≠ d ∨ g ≠ g then _ else if i ≠ i then _ else
        if isMember c = true then _ else _) = _
      rw [if_neg (by simp), if_neg (by simp), if_pos (hmember c mem_cons_self)]
      rw [ih (i + 1) (by omega) (fun c' hc' => hmember c' (mem_cons_of_mem _ hc'))
        (by omega) (by omega), ok_bind]
      have htake : count - i = count - (i + 1) + 1 := by omega
      rw [htake, take_succ_cons]
      rfl
    · rw [if_neg hlt, show count - i = 0 by omega, take_zero]

/-- **Reading a group** up to its count: the coins in recording order. -/
theorem Mirrors.getAnonimityGroup (h : Mirrors groupSize log db) (hfits : Fits groupSize log)
    (hmember : ∀ p d, ∀ c ∈ coins p d log, isMember c = true) (p : UInt32) (d : UInt8) {g k : Nat}
    (hg : g < 2 ^ 32) (hk : k ≤ min groupSize ((coins p d log).length - g * groupSize)) :
    db.getAnonimityGroup isMember p d g k = .ok ((groupCoins groupSize p d g log).take k) := by
  have hmax := hfits.max
  unfold MAX_GROUP_SIZE at hmax
  have hlen := length_groupCoins groupSize p d g log
  -- the block of the group: indices `0, 1, …` in order
  have hsorted : (((groupCoins groupSize p d g log).zipIdx 0).map fun e =>
      ((createMintKey p d g e.2, .mint e.1) : DbKey × SigmaValue C)).Pairwise
        fun a b => compare a.1 b.1 = .lt := by
    rw [pairwise_map, pairwise_iff_getElem]
    intro a b ha hb hab
    rw [getElem_zipIdx, getElem_zipIdx]
    rw [length_zipIdx] at ha hb
    rw [createMintKey_lt_iff hg hg (by omega) (by omega)]
    omega
  have hblock : ∀ e : DbKey × SigmaValue C,
      e ∈ ((groupCoins groupSize p d g log).zipIdx 0).map
        (fun e => ((createMintKey p d g e.2, .mint e.1) : DbKey × SigmaValue C)) ↔
      db.store[e.1]? = some e.2 ∧ compare e.1 (createMintKey p d g 0) ≠ .lt ∧
        compare e.1 (createMintKey p d g 0xFFFF) ≠ .gt := by
    rintro ⟨key, value⟩
    constructor
    · intro hmem
      obtain ⟨⟨c, i⟩, hci, he⟩ := mem_map.mp hmem
      cases he
      have hc := mk_mem_zipIdx_iff_getElem?.mp hci
      have hi := getElem?_lt hc
      refine ⟨(h.at_group hfits hg (by omega)).mpr ⟨c, hc, rfl⟩, ?_, ?_⟩
      · rw [Ne, createMintKey_lt_iff hg hg (by omega) (by decide)]
        omega
      · intro hgt
        have hlt := OrientedCmp.lt_of_gt hgt
        rw [createMintKey_lt_iff hg hg (by decide) (by omega)] at hlt
        omega
    · rintro ⟨hstored, hge, hle⟩
      -- between the two sentinels there are only keys of the group
      obtain ⟨i, hi, rfl⟩ : ∃ i < 2 ^ 16, key = createMintKey p d g i := by
        cases hcmp : compare key (createMintKey p d g 0xFFFF) with
        | lt =>
          obtain ⟨p', d', j, c, hc, rfl, -⟩ := ((h.store _ _).mp hstored).before_mint hcmp
          obtain ⟨hjg, hji⟩ := hfits.bounds (getElem?_lt hc)
          rw [createMintKey_lt_iff hjg hg hji (by decide)] at hcmp
          rw [Ne, createMintKey_lt_iff hjg hg hji (by decide)] at hge
          have hp : p' = p := UInt32.toNat_inj.mp (by omega)
          have hd : d' = d := UInt8.toNat_inj.mp (by omega)
          have hgroup : j / groupSize = g := by omega
          exact ⟨_, hji, by rw [hp, hd, hgroup]⟩
        | eq => exact ⟨_, by decide, LawfulEqOrd.eq_of_compare hcmp⟩
        | gt => exact absurd hcmp hle
      obtain ⟨c, hc, rfl⟩ := (h.at_group hfits hg hi).mp hstored
      exact mem_map.mpr ⟨(c, i), mk_mem_zipIdx_iff_getElem?.mpr hc, rfl⟩
  obtain ⟨rest, hwalk⟩ := onward_eq hsorted hblock
  unfold SigmaDatabase.getAnonimityGroup
  rw [hwalk, anonimityLoop_eq hg _ 0 (by omega) ?_ (zero_le k) (by omega)]
  · rfl
  · intro c hc
    exact hmember p d c (mem_of_mem_drop (mem_of_mem_take hc))

end Reading

/-! ## §2. Deleting. -/

section Deleting

variable {C : Type} {groupSize : Nat} {log : List (SigmaRecord C)} {db : SigmaDatabase C}

/-- The history entries of a log, in order. -/
def histories (groupSize : Nat) (log : List (SigmaRecord C)) : List (DbKey × SigmaValue C) :=
  (log.zipIdx 0).map fun e => (createSequenceKey e.2,
    .history ⟨e.1.height, e.1.op, e.1.key groupSize (log.take e.2)⟩)

theorem histories_append (groupSize : Nat) (log : List (SigmaRecord C)) (r : SigmaRecord C) :
    histories groupSize (log ++ [r]) = histories groupSize log ++
      [(createSequenceKey log.length, .history ⟨r.height, r.op, r.key groupSize log⟩)] := by
  unfold histories
  rw [zipIdx_append, map_append]
  congr 1
  · apply map_congr_left
    rintro ⟨r', n⟩ hmem
    have hn := getElem?_lt (mk_mem_zipIdx_iff_getElem?.mp hmem)
    show (createSequenceKey n, SigmaValue.history ⟨_, _, r'.key groupSize ((log ++ [r]).take n)⟩) = _
    rw [take_append_of_le_length (by omega)]
  · simp

/-- The keys `DeleteAll` deletes: those of the records from the height on, newest first. -/
def deletedKeys (groupSize : Nat) (startBlock : Int) : List (SigmaRecord C) → List DbKey
  | [] => []
  | r :: older =>
    if r.height < startBlock then []
    else r.key groupSize older.reverse :: createSequenceKey older.length ::
      deletedKeys groupSize startBlock older

/-- **The loop of `DeleteAll`** over the histories of a log that the database holds. -/
theorem deleteLoop_eq {full : List (SigmaRecord C)} (h : Mirrors groupSize full db)
    (hfull : Fits groupSize full) (startBlock : Int) {rest : List (DbKey × SigmaValue C)}
    (hrest : ∀ e ∈ rest, isSequenceKey e.1 = false) (recs : List (SigmaRecord C))
    (hbegins : recs.reverse <+: full) :
    db.deleteLoop startBlock ((histories groupSize recs.reverse).reverse ++ rest) =
      .ok (deletedKeys groupSize startBlock recs) := by
  induction recs with
  | nil =>
    show db.deleteLoop startBlock rest = .ok []
    cases rest with
    | nil => rfl
    | cons e rest =>
      unfold SigmaDatabase.deleteLoop
      rw [if_neg (by rw [hrest e mem_cons_self]; exact Bool.false_ne_true)]
  | cons r older ih =>
    rw [reverse_cons] at hbegins
    obtain ⟨later, hlater⟩ := hbegins
    have hstored : Stored groupSize full (r.key groupSize older.reverse) r.value :=
      hlater ▸ (stored_key groupSize older.reverse r).append later
    have hbegins' : older.reverse <+: full := ⟨[r] ++ later, by rw [← append_assoc]; exact hlater⟩
    rw [reverse_cons, histories_append, reverse_append, length_reverse]
    show db.deleteLoop startBlock ((createSequenceKey older.length, .history
      ⟨r.height, r.op, r.key groupSize older.reverse⟩) ::
        ((histories groupSize older.reverse).reverse ++ rest)) = _
    unfold SigmaDatabase.deleteLoop deletedKeys
    rw [if_pos (isSequenceKey_createSequenceKey _)]
    show (if r.height < startBlock then _ else _) = _
    by_cases hlow : r.height < startBlock
    · rw [if_pos hlow, if_pos hlow]
    · rw [if_neg hlow, if_neg hlow, ih hbegins']
      cases r with
      | mint p d pubKey height =>
        have hget : db.store[(SigmaRecord.mint p d pubKey height).key groupSize older.reverse]? =
            some (.mint pubKey) := (h.store _ _).mpr hstored
        have hbound : (coins p d older.reverse).length < (coins p d full).length := by
          rw [← hlater, coins_append, coins_mint]
          simp
        obtain ⟨hg, hi⟩ := hfull.bounds hbound
        have hparse : parseMintKey ((SigmaRecord.mint p d pubKey height).key groupSize
            older.reverse) = .ok (some ⟨p, d, _, _⟩) := parseMintKey_createMintKey hg hi
        show (parseMintKey _ >>= fun _ => _) = _
        rw [hparse, ok_bind]
        show (if (db.store[_]?).isNone then _ else _) = _
        rw [hget]
        rfl
      | spend p d serial height spendTx =>
        have hlen : ((SigmaRecord.spend p d serial height spendTx).key groupSize
            older.reverse).length = SPEND_KEY_SIZE := length_createSpendSerialKey p d serial
        show (if _ ∧ length _ ≠ SPEND_KEY_SIZE then _ else _) = _
        rw [if_neg (by rw [hlen]; exact fun hbad => hbad.2 rfl)]
        rfl

theorem Mirrors.eraseDeleted (startBlock : Int) (recs : List (SigmaRecord C))
    {store : ExtTreeMap DbKey (SigmaValue C)}
    (h : Mirrors groupSize recs.reverse { store := store, groupSize := groupSize })
    (hfits : Fits groupSize recs.reverse) :
    Mirrors groupSize (recs.reverse.filter fun r => r.height < startBlock)
      { store := (deletedKeys groupSize startBlock recs).foldl (fun s key => s.erase key) store
        groupSize := groupSize } := by
  induction recs generalizing store with
  | nil => exact h
  | cons r older ih =>
    rw [reverse_cons] at h hfits ⊢
    unfold deletedKeys
    by_cases hlow : r.height < startBlock
    · -- every older record is below the height as well
      have hall : (older.reverse ++ [r]).filter (fun r => decide (r.height < startBlock)) =
          older.reverse ++ [r] := by
        rw [filter_eq_self]
        refine forall_mem_append.mpr ⟨fun r' hr' => ?_, by simpa using hlow⟩
        have hle := (pairwise_append.mp hfits.heights).2.2 r' hr' r mem_cons_self
        rw [decide_eq_true_eq]
        omega
      rw [if_pos hlow, hall]
      exact h
    · rw [if_neg hlow, filter_append, filter_cons_of_neg (by simpa using hlow),
        filter_nil, append_nil]
      have hless := h.erase hfits
      rw [length_reverse] at hless
      exact ih hless hfits.of_append

/-- **`DeleteAll`** leaves the records below the height. -/
theorem Mirrors.deleteAll (h : Mirrors groupSize log db) (hfits : Fits groupSize log)
    (startBlock : Int) :
    ∃ db', db.deleteAll startBlock = .ok db' ∧
      Mirrors groupSize (log.filter fun r => r.height < startBlock) db' := by
  have hseq := hfits.sequence
  unfold SigmaDatabase.deleteAll
  rw [h.getNextSequence hfits, ok_bind]
  obtain ⟨recs, rfl⟩ : ∃ recs, log = recs.reverse := ⟨log.reverse, (reverse_reverse log).symm⟩
  cases recs with
  | nil => exact ⟨db, rfl, h⟩
  | cons last older =>
    have hlen : (last :: older).reverse.length = older.length + 1 := length_reverse
    have hlast : (last :: older).reverse[older.length]? = some last := by
      rw [reverse_cons, ← length_reverse, getElem?_concat_length]
    rw [if_neg (by omega), hlen, Nat.add_sub_cancel]
    -- `Seek` stands on the newest history
    obtain ⟨rest, hseek⟩ := onward_of_getElem? ((h.store _ _).mpr (.history hlast))
    rw [hseek]
    -- going backward: all histories, newest first, then mints
    have hsorted : (histories groupSize (last :: older).reverse).Pairwise
        fun a b => compare a.1 b.1 = .lt := by
      unfold histories
      rw [pairwise_map, pairwise_iff_getElem]
      intro a b ha hb hab
      rw [getElem_zipIdx, getElem_zipIdx]
      rw [length_zipIdx] at ha hb
      rw [compare_createSequenceKey (by omega) (by omega), compare_eq_lt]
      omega
    have hhistory : ∀ e : DbKey × SigmaValue C, e ∈ histories groupSize (last :: older).reverse ↔
        db.store[e.1]? = some e.2 ∧ compare e.1 (createSequenceKey older.length) ≠ .gt ∧
          compare e.1 [KeyType.sequence] ≠ .lt := by
      rintro ⟨key, value⟩
      rw [h.store]
      constructor
      · intro hmem
        obtain ⟨⟨r, n⟩, hrn, he⟩ := mem_map.mp hmem
        cases he
        have hr := mk_mem_zipIdx_iff_getElem?.mp hrn
        have hn := getElem?_lt hr
        refine ⟨.history hr, ?_, ?_⟩
        · rw [Ne, compare_createSequenceKey (by omega) (by omega), compare_eq_gt]
          omega
        · exact fun hbad => nomatch hbad
      · rintro ⟨hstored, hle, hge⟩
        cases hstored with
        | groupSize =>
          exact absurd (show compare createGroupSizeKey (createSequenceKey older.length) = .gt from
            OrientedCmp.gt_of_lt (compare_types (by decide) _ _)) hle
        | spend _ =>
          exact absurd (OrientedCmp.gt_of_lt (compare_types
            (show KeyType.sequence < KeyType.spendSerial by decide) _ _)) hle
        | mint _ => exact absurd (compare_types (by decide) _ _) hge
        | @history n r hr =>
          exact mem_map.mpr ⟨(r, n), mk_mem_zipIdx_iff_getElem?.mpr hr, rfl⟩
    obtain ⟨others, hback, hothers⟩ := backward_eq hsorted hhistory
    have hmints : ∀ e ∈ others, isSequenceKey e.1 = false := by
      intro e he
      have hlow := hothers e he
      cases hkey : e.1 with
      | nil => rfl
      | cons t tail =>
        rw [hkey, compare_cons] at hlow
        unfold isSequenceKey
        have ht : t ≠ KeyType.sequence := by
          rintro rfl
          cases tail <;> cases hlow
        simp [ht]
    have hloop := deleteLoop_eq h hfits startBlock hmints _ prefix_rfl
    show ∃ db', (db.deleteLoop startBlock (backward db.store (createSequenceKey older.length)) >>=
      fun _ => _) = .ok db' ∧ _
    rw [hback, hloop, ok_bind]
    refine ⟨_, rfl, ?_⟩
    rw [h.size]
    exact Mirrors.eraseDeleted startBlock _ ⟨rfl, h.store⟩ hfits

end Deleting

/-! ## §3. Runs. -/

variable {C : Type} {isMember : C → Bool} {groupSize : Nat} {log : List (SigmaRecord C)}
  {db : SigmaDatabase C}

/-- **The runs**: the database is opened empty; mints and spends are recorded at heights that
do not decrease, a mint after its coin was checked to be a member and a spend after
`HasSpendSerial` answered no; `DeleteAll` takes back everything from a height on.  The log
is what was recorded and not taken back. -/
inductive SigmaRun (isMember : C → Bool) (groupSize : Nat) :
    List (SigmaRecord C) → SigmaDatabase C → Prop where
  | opened {db : SigmaDatabase C} (hopen : ({} : SigmaDatabase C).initGroupSize groupSize = .ok db) :
      SigmaRun isMember groupSize [] db
  | mint {log : List (SigmaRecord C)} {db db' : SigmaDatabase C} {p : UInt32} {d : UInt8}
      {pubKey : C} {height : Int} {place : Nat × Nat} (hrun : SigmaRun isMember groupSize log db)
      (hmember : isMember pubKey = true) (hheight : ∀ r ∈ log, r.height ≤ height)
      (hgroups : (coins p d log).length < groupSize * 2 ^ 32) (hsequence : log.length + 1 < 2 ^ 64)
      (hcall : db.recordMint p d pubKey height = .ok (place, db')) :
      SigmaRun isMember groupSize (log ++ [.mint p d pubKey height]) db'
  | spend {log : List (SigmaRecord C)} {db db' : SigmaDatabase C} {p : UInt32} {d : UInt8}
      {serial : SpendSerial} {height : Int} {spendTx : Uint256}
      (hrun : SigmaRun isMember groupSize log db) (hnew : db.hasSpendSerial p d serial = none)
      (hheight : ∀ r ∈ log, r.height ≤ height) (hsequence : log.length + 1 < 2 ^ 64)
      (hcall : db.recordSpendSerial p d serial height spendTx = .ok db') :
      SigmaRun isMember groupSize (log ++ [.spend p d serial height spendTx]) db'
  | deleteAll {log : List (SigmaRecord C)} {db db' : SigmaDatabase C} {startBlock : Int}
      (hrun : SigmaRun isMember groupSize log db) (hcall : db.deleteAll startBlock = .ok db') :
      SigmaRun isMember groupSize (log.filter fun r => r.height < startBlock) db'

variable (h : Fits groupSize log) {p : UInt32} {d : UInt8} {height : Int}
include h

theorem Fits.append {r : SigmaRecord C} (hheight : ∀ r' ∈ log, r'.height ≤ r.height)
    (hgroups : ∀ p d, (coins p d (log ++ [r])).length ≤ groupSize * 2 ^ 32)
    (hsequence : log.length + 1 < 2 ^ 64)
    (hserials : ((log ++ [r]).filterMap SigmaRecord.spent).Nodup) :
    Fits groupSize (log ++ [r]) := by
  refine ⟨h.pos, h.max, hgroups, ?_, ?_, hserials⟩
  · rw [length_append]
    exact hsequence
  · rw [pairwise_append]
    refine ⟨h.heights, pairwise_singleton _ _, ?_⟩
    intro a ha b hb
    rw [mem_singleton.mp hb]
    exact hheight a ha

theorem Fits.mint (pubKey : C) (hheight : ∀ r ∈ log, r.height ≤ height)
    (hgroups : (coins p d log).length < groupSize * 2 ^ 32) (hsequence : log.length + 1 < 2 ^ 64) :
    Fits groupSize (log ++ [.mint p d pubKey height]) := by
  refine h.append hheight ?_ hsequence ?_
  · intro p' d'
    rw [coins_append, coins_singleton, length_append]
    have hold := h.groups p' d'
    by_cases hpd : p = p' ∧ d = d'
    · obtain ⟨rfl, rfl⟩ := hpd
      have hone : ((SigmaRecord.mint p d pubKey height).coinOf p d).toList.length ≤ 1 :=
        length_toList_le
      omega
    · have hnone : (SigmaRecord.mint p d pubKey height).coinOf p' d' = none := if_neg hpd
      rw [hnone]
      exact hold
  · rw [filterMap_append]
    show (_ ++ []).Nodup
    rw [append_nil]
    exact h.serials

variable {serial : SpendSerial}

theorem Fits.spend (spendTx : Uint256)
    (hheight : ∀ r ∈ log, r.height ≤ height) (hsequence : log.length + 1 < 2 ^ 64)
    (hnew : (p, d, serial) ∉ log.filterMap SigmaRecord.spent) :
    Fits groupSize (log ++ [.spend p d serial height spendTx]) := by
  refine h.append hheight ?_ hsequence ?_
  · intro p' d'
    rw [coins_append, coins_singleton]
    show (_ ++ []).length ≤ _
    rw [append_nil]
    exact h.groups p' d'
  · rw [filterMap_append]
    exact concat_eq_append ▸ h.serials.concat hnew

omit h

theorem Mirrors.hasSpendSerial_none (h : Mirrors groupSize log db) {p : UInt32} {d : UInt8}
    (hnone : db.hasSpendSerial p d serial = none) :
    (p, d, serial) ∉ log.filterMap SigmaRecord.spent := by
  intro hmem
  obtain ⟨r, hr, hspent⟩ := mem_filterMap.mp hmem
  cases r with
  | mint p' d' pubKey height => cases hspent
  | spend p' d' serial' height spendTx =>
    cases hspent
    have hget : db.store[createSpendSerialKey p d serial]? = some (.spend spendTx) :=
      (h.store _ _).mpr (.spend hr)
    unfold SigmaDatabase.hasSpendSerial at hnone
    rw [hget] at hnone
    cases hnone

theorem Fits.filter (h : Fits groupSize log) (startBlock : Int) :
    Fits groupSize (log.filter fun r => r.height < startBlock) := by
  rw [← filter_height_append h.heights startBlock] at h
  exact h.of_append

/-- **Along a run** the database holds its log, the log fits and its coins are members. -/
theorem SigmaRun.mirrors (hpos : 0 < groupSize) (hrun : SigmaRun isMember groupSize log db) :
    Mirrors groupSize log db ∧ Fits groupSize log ∧
      ∀ p d, ∀ c ∈ coins p d log, isMember c = true := by
  induction hrun with
  | @opened db hopen =>
    have hmax : groupSize ≤ MAX_GROUP_SIZE := by
      by_contra hbig
      unfold SigmaDatabase.initGroupSize at hopen
      rw [if_pos (by omega)] at hopen
      cases hopen
    rw [initGroupSize_fresh hpos hmax] at hopen
    cases hopen
    refine ⟨mirrors_fresh groupSize, ⟨hpos, hmax, ?_, Nat.two_pow_pos 64, .nil, .nil⟩, ?_⟩
    · intro p d
      exact zero_le _
    · intro p d c hc
      cases hc
  | @mint log db db' p d pubKey height place _ hmember hheight hgroups hsequence hcall ih =>
    obtain ⟨hmirrors, hfits, hall⟩ := ih
    have hfits' := hfits.mint pubKey hheight hgroups hsequence
    obtain ⟨db'', hcall', hmirrors'⟩ := hmirrors.recordMint hfits'
    rw [hcall] at hcall'
    cases hcall'
    refine ⟨hmirrors', hfits', ?_⟩
    intro p' d' c hc
    rw [coins_append, coins_singleton] at hc
    rcases mem_append.mp hc with hc | hc
    · exact hall p' d' c hc
    · obtain ⟨-, hpub⟩ := ite_none_right_eq_some.mp (mem_toList.mp hc)
      cases hpub
      exact hmember
  | @spend log db db' p d serial height spendTx _ hnew hheight hsequence hcall ih =>
    obtain ⟨hmirrors, hfits, hall⟩ := ih
    have hfits' := hfits.spend spendTx hheight hsequence (hmirrors.hasSpendSerial_none hnew)
    obtain ⟨db'', hcall', hmirrors'⟩ := hmirrors.addEntry hfits'
    have hsame : db' = db'' := Except.ok.inj (hcall.symm.trans hcall')
    subst hsame
    refine ⟨hmirrors', hfits', ?_⟩
    intro p' d' c hc
    rw [coins_append, coins_singleton] at hc
    rcases mem_append.mp hc with hc | hc
    · exact hall p' d' c hc
    · cases hc
  | @deleteAll log db db' startBlock _ hcall ih =>
    obtain ⟨hmirrors, hfits, hall⟩ := ih
    obtain ⟨db'', hcall', hmirrors'⟩ := hmirrors.deleteAll hfits startBlock
    rw [hcall] at hcall'
    cases hcall'
    refine ⟨hmirrors', hfits.filter startBlock, ?_⟩
    intro p d c hc
    obtain ⟨r, hr, hcoin⟩ := mem_filterMap.mp hc
    exact hall p d c (mem_filterMap.mpr ⟨r, mem_of_mem_filter hr, hcoin⟩)

/-- **The Sigma database along a run.**  A mint is numbered on from the coins of its property
and denomination; every group before the last is full, without gaps; a group read up to its
count is its first coins in recording order, whatever is recorded later; `DeleteAll` leaves
the database that records only what is below the height. -/
theorem sigmaDatabase_run (hpos : 0 < groupSize) (hrun : SigmaRun isMember groupSize log db) :
    (∀ p d pubKey height, (∀ r ∈ log, r.height ≤ height) →
      (coins p d log).length < groupSize * 2 ^ 32 → log.length + 1 < 2 ^ 64 →
      ∃ db', db.recordMint p d pubKey height =
        .ok (((coins p d log).length / groupSize, (coins p d log).length % groupSize), db')) ∧
    (∀ p d, db.getLastGroupId p d = .ok (((coins p d log).length - 1) / groupSize)) ∧
    (∀ p d g, g < 2 ^ 32 → db.getMintCount p d g = .ok (groupCoins groupSize p d g log).length ∧
      (g < ((coins p d log).length - 1) / groupSize →
        (groupCoins groupSize p d g log).length = groupSize) ∧
      (∀ i value, i < 2 ^ 16 → (db.store[createMintKey p d g i]? = some value ↔
        ∃ c, (groupCoins groupSize p d g log)[i]? = some c ∧ value = .mint c)) ∧
      ∀ k ≤ (groupCoins groupSize p d g log).length,
        db.getAnonimityGroup isMember p d g k = .ok ((groupCoins groupSize p d g log).take k) ∧
        ∀ later db', SigmaRun isMember groupSize (log ++ later) db' →
          db'.getAnonimityGroup isMember p d g k = db.getAnonimityGroup isMember p d g k) ∧
    ∀ startBlock, ∃ db', db.deleteAll startBlock = .ok db' ∧
      recordAll (SigmaDatabase.fresh groupSize)
        (log.filter fun r => r.height < startBlock) = .ok db' := by
  obtain ⟨hmirrors, hfits, hmember⟩ := hrun.mirrors hpos
  refine ⟨?_, ?_, ?_, ?_⟩
  · intro p d pubKey height hheight hgroups hsequence
    obtain ⟨db', hcall, -⟩ := hmirrors.recordMint (hfits.mint pubKey hheight hgroups hsequence)
    exact ⟨db', hcall⟩
  · intro p d
    exact hmirrors.getLastGroupId hfits p d
  · intro p d g hg
    have hlen := length_groupCoins groupSize p d g log
    refine ⟨?_, ?_, ?_, ?_⟩
    · rw [hlen]
      exact hmirrors.getMintCount hfits p d hg
    · intro hlast
      rw [hlen]
      -- the group ends before the last coin
      have hend : (g + 1) * groupSize ≤ (coins p d log).length - 1 :=
        (Nat.le_div_iff_mul_le hpos).mp hlast
      rw [Nat.add_mul, Nat.one_mul] at hend
      omega
    · intro i value hi
      exact hmirrors.at_group hfits hg hi
    · intro k hk
      rw [hlen] at hk
      have hread := hmirrors.getAnonimityGroup hfits hmember p d hg hk
      refine ⟨hread, ?_⟩
      intro later db' hrun'
      obtain ⟨hmirrors', hfits', hmember'⟩ := hrun'.mirrors hpos
      have hlonger : (coins p d (log ++ later)).length =
          (coins p d log).length + (coins p d later).length := by
        rw [coins_append, List.length_append]
      rw [hread, hmirrors'.getAnonimityGroup hfits' hmember' p d hg (by omega)]
      -- the first `k` coins of the group are coins of the shorter log
      unfold groupCoins
      rw [List.take_take, List.take_take, coins_append, List.drop_append,
        List.take_append_of_le_length]
      rw [List.length_drop]
      omega
  · intro startBlock
    obtain ⟨db', hcall, hmirrors'⟩ := hmirrors.deleteAll hfits startBlock
    obtain ⟨db'', hrecord, hmirrors''⟩ := recordAll_fresh (hfits.filter startBlock)
    have hsame : db' = db'' := hmirrors'.unique hmirrors''
    subst hsame
    exact ⟨db', hcall, hrecord⟩

/-- Three coins in groups of two, of which a reorganisation takes two off. -/
theorem sigmaDatabase_run_three :
    ∃ db : SigmaDatabase Nat,
      SigmaRun (fun _ => true) 2 [.mint 3 0 7 10, .mint 3 0 8 11, .mint 3 0 9 12] db ∧
      db.getAnonimityGroup (fun _ => true) 3 0 0 2 = .ok [7, 8] ∧
      db.getAnonimityGroup (fun _ => true) 3 0 1 1 = .ok [9] ∧
      ∃ db', db.deleteAll 11 = .ok db' ∧
        recordAll (SigmaDatabase.fresh 2) [.mint 3 0 7 10] = .ok db' := by
  have hmint : ∀ log (db : SigmaDatabase Nat) pubKey height, SigmaRun (fun _ => true) 2 log db →
      (∀ r ∈ log, r.height ≤ height) → (coins 3 0 log).length < 2 * 2 ^ 32 →
      log.length + 1 < 2 ^ 64 →
      ∃ db', SigmaRun (fun _ => true) 2 (log ++ [.mint 3 0 pubKey height]) db' := by
    intro log db pubKey height hrun hheight hgroups hsequence
    obtain ⟨db', hcall⟩ := (sigmaDatabase_run (by decide) hrun).1 3 0 pubKey height hheight
      hgroups hsequence
    exact ⟨db', .mint hrun rfl hheight hgroups hsequence hcall⟩
  obtain ⟨db₁, h₁⟩ := hmint [] _ 7 10 (.opened (initGroupSize_fresh (by decide) (by decide)))
    (by decide) (by decide) (by decide)
  obtain ⟨db₂, h₂⟩ := hmint _ _ 8 11 h₁ (by decide) (by decide) (by decide)
  obtain ⟨db, hrun⟩ := hmint _ _ 9 12 h₂ (by decide) (by decide) (by decide)
  obtain ⟨-, -, hgroup, hdelete⟩ := sigmaDatabase_run (by decide) hrun
  refine ⟨db, hrun, ?_, ?_, hdelete 11⟩
  · exact ((hgroup 3 0 0 (by decide)).2.2.2 2 (by decide)).1
  · exact ((hgroup 3 0 1 (by decide)).2.2.2 1 (by decide)).1

/-- A spend recorded at two heights. -/
def doubleSpend : List (SigmaRecord Nat) :=
  [.spend 3 0 (List.Vector.replicate 32 0) 1 1, .spend 3 0 (List.Vector.replicate 32 0) 5 2]

/-- **The same spend recorded twice**: deleting the second one forgets the first. -/
theorem deleteAll_forgets_double_spend :
    ∃ db db' : SigmaDatabase Nat,
      (recordAll (SigmaDatabase.fresh 2) doubleSpend >>= fun db => db.deleteAll 5) = .ok db ∧
      recordAll (SigmaDatabase.fresh 2) (doubleSpend.filter fun r => r.height < 5) = .ok db' ∧
      db.hasSpendSerial 3 0 (List.Vector.replicate 32 0) = none ∧
      db'.hasSpendSerial 3 0 (List.Vector.replicate 32 0) = some 1 := by
  obtain ⟨db, hdb, hnone⟩ : ∃ db : SigmaDatabase Nat,
      (recordAll (SigmaDatabase.fresh 2) doubleSpend >>= fun db => db.deleteAll 5) = .ok db ∧
        db.hasSpendSerial 3 0 (List.Vector.replicate 32 0) = none := by decide +kernel
  obtain ⟨db', hdb', hsome⟩ : ∃ db : SigmaDatabase Nat,
      recordAll (SigmaDatabase.fresh 2) (doubleSpend.filter fun r => r.height < 5) = .ok db ∧
        db.hasSpendSerial 3 0 (List.Vector.replicate 32 0) = some 1 := by decide +kernel
  exact ⟨db, db', hdb, hdb', hnone, hsome⟩

end Zcoin.Elysium
