/-
  Zcoin.Elysium.SigmaGroups — what the Sigma database holds for a log of records.

  `Mirrors` says entry by entry what the store holds for a given log of mints and spends;
  every call is then a statement about the log.

  MAIN RESULTS: `Mirrors.recordMint` — a coin gets the next place of its property and
  denomination; `Mirrors.insert` and `Mirrors.erase` — one record more, one record less.
-/
import Zcoin.Elysium.SigmaDatabase

namespace Zcoin.Elysium

open List hiding getElem?_insert
open Std Option Nat
open Lib Lib.Except Lib.BigEndian Lib.OrderedStore Lib.OrderedMap

/-! ## §1. The log of a run. -/

/-- What was recorded. -/
inductive SigmaRecord (C : Type) where
  | mint (propertyId : UInt32) (denomination : UInt8) (pubKey : C) (height : Int)
  | spend (propertyId : UInt32) (denomination : UInt8) (serial : SpendSerial) (height : Int)
      (spendTx : Uint256)

section Log

variable {C : Type}

def SigmaRecord.height : SigmaRecord C → Int
  | .mint _ _ _ height => height
  | .spend _ _ _ height _ => height

/-- The coin a record adds to a property and denomination. -/
def SigmaRecord.coinOf (p : UInt32) (d : UInt8) : SigmaRecord C → Option C
  | .mint p' d' pubKey _ => if p' = p ∧ d' = d then some pubKey else none
  | .spend _ _ _ _ _ => none

/-- The coins of a property and denomination, in recording order. -/
def coins (p : UInt32) (d : UInt8) (log : List (SigmaRecord C)) : List C :=
  log.filterMap (SigmaRecord.coinOf p d)

/-- The spend a record is about. -/
def SigmaRecord.spent : SigmaRecord C → Option (UInt32 × UInt8 × SpendSerial)
  | .mint _ _ _ _ => none
  | .spend p d serial _ _ => some (p, d, serial)

/-- The key of a record that is appended to a log. -/
def SigmaRecord.key (groupSize : Nat) (log : List (SigmaRecord C)) : SigmaRecord C → DbKey
  | .mint p d _ _ =>
    createMintKey p d ((coins p d log).length / groupSize) ((coins p d log).length % groupSize)
  | .spend p d serial _ _ => createSpendSerialKey p d serial

def SigmaRecord.value : SigmaRecord C → SigmaValue C
  | .mint _ _ pubKey _ => .mint pubKey
  | .spend _ _ _ _ spendTx => .spend spendTx

def SigmaRecord.op : SigmaRecord C → OpCode
  | .mint _ _ _ _ => .storeMint
  | .spend _ _ _ _ _ => .storeSpendSerial

/-- Recording again. -/
def SigmaRecord.record (db : SigmaDatabase C) : SigmaRecord C → Except Abort (SigmaDatabase C)
  | .mint p d pubKey height => do
    let (_, db) ← db.recordMint p d pubKey height
    return db
  | .spend p d serial height spendTx => db.recordSpendSerial p d serial height spendTx

def recordAll (db : SigmaDatabase C) (log : List (SigmaRecord C)) :
    Except Abort (SigmaDatabase C) := log.foldlM SigmaRecord.record db

/-- A wiped database opened with a group size. -/
def SigmaDatabase.fresh (groupSize : Nat) : SigmaDatabase C :=
  { store := (∅ : ExtTreeMap DbKey (SigmaValue C)).insert createGroupSizeKey (.groupSize groupSize)
    groupSize := groupSize }

theorem initGroupSize_fresh {groupSize : Nat} (hpos : 0 < groupSize)
    (hmax : groupSize ≤ MAX_GROUP_SIZE) :
    ({} : SigmaDatabase C).initGroupSize groupSize = .ok (SigmaDatabase.fresh groupSize) := by
  have hsize : ({} : SigmaDatabase C).getGroupSize = .ok 0 := rfl
  unfold SigmaDatabase.initGroupSize
  rw [if_neg (by omega), hsize, ok_bind, if_neg (by decide), if_neg (by omega)]
  rfl

/-- **What is stored for a log**: the group size, the coins of every property and
denomination in groups, the spends, and one history per record. -/
inductive Stored (groupSize : Nat) (log : List (SigmaRecord C)) : DbKey → SigmaValue C → Prop where
  | groupSize : Stored groupSize log createGroupSizeKey (.groupSize groupSize)
  | mint {p : UInt32} {d : UInt8} {j : Nat} {c : C} (h : (coins p d log)[j]? = some c) :
      Stored groupSize log (createMintKey p d (j / groupSize) (j % groupSize)) (.mint c)
  | spend {p : UInt32} {d : UInt8} {serial : SpendSerial} {height : Int} {spendTx : Uint256}
      (h : .spend p d serial height spendTx ∈ log) :
      Stored groupSize log (createSpendSerialKey p d serial) (.spend spendTx)
  | history {n : Nat} {r : SigmaRecord C} (h : log[n]? = some r) :
      Stored groupSize log (createSequenceKey n)
        (.history ⟨r.height, r.op, r.key groupSize (log.take n)⟩)

/-- The database holds the log and nothing else. -/
structure Mirrors (groupSize : Nat) (log : List (SigmaRecord C)) (db : SigmaDatabase C) : Prop where
  size : db.groupSize = groupSize
  store : ∀ key value, db.store[key]? = some value ↔ Stored groupSize log key value

/-- **The log fits**: the group size is one the constructor takes, the group and sequence
numbers are within their types, the heights do not decrease and no spend is recorded
twice. -/
structure Fits (groupSize : Nat) (log : List (SigmaRecord C)) : Prop where
  pos : 0 < groupSize
  max : groupSize ≤ MAX_GROUP_SIZE
  groups : ∀ p d, (coins p d log).length ≤ groupSize * 2 ^ 32
  sequence : log.length < 2 ^ 64
  heights : log.Pairwise fun a b => a.height ≤ b.height
  serials : (log.filterMap SigmaRecord.spent).Nodup

end Log

/-! ## §2. Logs. -/

section Logs

variable {C : Type} {groupSize : Nat} {log : List (SigmaRecord C)} {r : SigmaRecord C}

theorem coins_append (p : UInt32) (d : UInt8) (log log' : List (SigmaRecord C)) :
    coins p d (log ++ log') = coins p d log ++ coins p d log' := filterMap_append

theorem coins_singleton (p : UInt32) (d : UInt8) (r : SigmaRecord C) :
    coins p d [r] = (r.coinOf p d).toList := rfl

theorem coins_mint (p : UInt32) (d : UInt8) (pubKey : C) (height : Int) :
    coins p d (log ++ [.mint p d pubKey height]) = coins p d log ++ [pubKey] := by
  rw [coins_append, coins_singleton]
  simp [SigmaRecord.coinOf]

theorem Fits.of_append {log' : List (SigmaRecord C)} (h : Fits groupSize (log ++ log')) :
    Fits groupSize log := by
  refine ⟨h.pos, h.max, ?_, ?_, (pairwise_append.mp h.heights).1, ?_⟩
  · intro p d
    have := h.groups p d
    rw [coins_append, length_append] at this
    omega
  · have := h.sequence
    rw [length_append] at this
    omega
  · have := h.serials
    rw [filterMap_append] at this
    exact (nodup_append.mp this).1

theorem filter_height_append (hsorted : log.Pairwise fun a b => a.height ≤ b.height)
    (startBlock : Int) :
    log.filter (fun r => decide (r.height < startBlock)) ++
      log.filter (fun r => !decide (r.height < startBlock)) = log := by
  apply filter_append_filter_not (fun r : SigmaRecord C => decide (r.height < startBlock))
    hsorted
  intro a b hab hb
  simp only [decide_eq_true_eq] at hb ⊢
  omega

theorem Fits.bounds (h : Fits groupSize log) {p : UInt32} {d : UInt8} {j : Nat}
    (hj : j < (coins p d log).length) : j / groupSize < 2 ^ 32 ∧ j % groupSize < 2 ^ 16 := by
  have hgroups := h.groups p d
  have hmax := h.max
  unfold MAX_GROUP_SIZE at hmax
  have hmod := mod_lt j h.pos
  refine ⟨?_, by omega⟩
  rw [div_lt_iff_lt_mul h.pos, mul_comm]
  omega

theorem index_injective {j j' : Nat} (hgroup : j / groupSize = j' / groupSize)
    (hidx : j % groupSize = j' % groupSize) : j = j' := by
  rw [← div_add_mod j groupSize, ← div_add_mod j' groupSize, hgroup, hidx]

theorem index_in_group {g i : Nat} (hi : i < groupSize) :
    (g * groupSize + i) / groupSize = g ∧ (g * groupSize + i) % groupSize = i := by
  have hpos : 0 < groupSize := by omega
  rw [mul_comm g, mul_add_div hpos, div_eq_of_lt hi, mul_add_mod,
    mod_eq_of_lt hi]
  exact ⟨add_zero g, rfl⟩

theorem index_order {j j' : Nat} (h : j ≤ j') :
    j / groupSize < j' / groupSize ∨ j / groupSize = j' / groupSize ∧
      j % groupSize ≤ j' % groupSize := by
  have hdiv := Nat.div_le_div_right (c := groupSize) h
  rcases Nat.lt_or_eq_of_le hdiv with hlt | heq
  · exact .inl hlt
  · refine .inr ⟨heq, ?_⟩
    have hj := Nat.div_add_mod j groupSize
    have hj' := Nat.div_add_mod j' groupSize
    rw [heq] at hj
    omega

end Logs

/-! ## §3. Lookups by key type. -/

section Lookups

variable {C : Type} {groupSize : Nat} {log : List (SigmaRecord C)} {key : DbKey}
  {value : SigmaValue C}

theorem getElem?_lt {α : Type} {l : List α} {n : Nat} {a : α} (h : l[n]? = some a) : n < l.length :=
  (List.getElem?_eq_some_iff.mp h).1

variable {p : UInt32} {d : UInt8}

theorem Stored.at_mint (hfits : Fits groupSize log) {g i : Nat}
    (hg : g < 2 ^ 32) (hi : i < 2 ^ 16) :
    Stored groupSize log (createMintKey p d g i) value ↔
      ∃ j c, (coins p d log)[j]? = some c ∧ g = j / groupSize ∧ i = j % groupSize ∧
        value = .mint c := by
  constructor
  · intro h
    generalize hkey : createMintKey p d g i = key at h
    cases h with
    | groupSize => cases hkey
    | @mint p' d' j c hc =>
      obtain ⟨hjg, hji⟩ := hfits.bounds (getElem?_lt hc)
      obtain ⟨rfl, rfl, hgg, hii⟩ := createMintKey_injective hg hjg hi hji hkey
      exact ⟨j, c, hc, hgg, hii, rfl⟩
    | spend | history => cases (cons.inj hkey).1
  · rintro ⟨j, c, hc, rfl, rfl, rfl⟩
    exact .mint hc

theorem Stored.at_sequence (hfits : Fits groupSize log) {n : Nat} (hn : n < 2 ^ 64) :
    Stored groupSize log (createSequenceKey n) value ↔
      ∃ r, log[n]? = some r ∧ value = .history ⟨r.height, r.op, r.key groupSize (log.take n)⟩ := by
  constructor
  · intro h
    generalize hkey : createSequenceKey n = key at h
    cases h with
    | groupSize => cases hkey
    | mint | spend => cases (cons.inj hkey).1
    | @history m r hr =>
      have hm := getElem?_lt hr
      have hseq := hfits.sequence
      have hnm := bigEndian_injective (w := 8) hn (by omega) (cons.inj hkey).2
      subst hnm
      exact ⟨r, hr, rfl⟩
  · rintro ⟨r, hr, rfl⟩
    exact .history hr

theorem Stored.at_spend {serial : SpendSerial} :
    Stored groupSize log (createSpendSerialKey p d serial) value ↔
      ∃ height spendTx, .spend p d serial height spendTx ∈ log ∧ value = .spend spendTx := by
  constructor
  · intro h
    generalize hkey : createSpendSerialKey p d serial = key at h
    cases h with
    | groupSize => cases hkey
    | mint | history => cases (cons.inj hkey).1
    | @spend p' d' serial' height spendTx hmem =>
      obtain ⟨rfl, rfl, rfl⟩ := createSpendSerialKey_injective hkey
      exact ⟨height, spendTx, hmem, rfl⟩
  · rintro ⟨height, spendTx, hmem, rfl⟩
    exact .spend hmem

theorem Mirrors.mem_store {db : SigmaDatabase C} (h : Mirrors groupSize log db) :
    key ∈ db.store ↔ ∃ value, Stored groupSize log key value := by
  simp only [mem_iff_exists, h.store]

theorem Stored.before_mint (h : Stored groupSize log key value) {g i : Nat}
    (hlt : compare key (createMintKey p d g i) = .lt) :
    ∃ p' d' j c, (coins p' d' log)[j]? = some c ∧
      key = createMintKey p' d' (j / groupSize) (j % groupSize) ∧ value = .mint c := by
  cases h with
  | @mint p' d' j c hc => exact ⟨p', d', j, c, hc, rfl, rfl⟩
  | groupSize | spend | history => exact absurd hlt (not_lt_of_types (by decide) _ _)

/-- Two databases that hold the same log are equal. -/
theorem Mirrors.unique {db db' : SigmaDatabase C} (h : Mirrors groupSize log db)
    (h' : Mirrors groupSize log db') : db = db' := by
  have hstore : db.store = db'.store := by
    refine ExtTreeMap.ext_getElem? fun key => ext fun value => ?_
    rw [h.store, h'.store]
  have hsize : db.groupSize = db'.groupSize := h.size.trans h'.size.symm
  cases db
  cases db'
  cases hstore
  cases hsize
  rfl

theorem mirrors_fresh (groupSize : Nat) :
    Mirrors groupSize ([] : List (SigmaRecord C)) (SigmaDatabase.fresh groupSize) := by
  refine ⟨rfl, ?_⟩
  intro key value
  show ((∅ : ExtTreeMap DbKey (SigmaValue C)).insert createGroupSizeKey _)[key]? = _ ↔ _
  rw [getElem?_insert, ExtTreeMap.getElem?_empty]
  constructor
  · intro h
    split at h
    · next hkey =>
      cases h
      subst hkey
      exact .groupSize
    · cases h
  · intro h
    cases h with
    | groupSize => exact if_pos rfl
    | mint hc => cases hc
    | spend hmem => cases hmem
    | history hr => cases hr

end Lookups

/-! ## §4. What the sentinels find. -/

section Sentinels

variable {C : Type} {groupSize : Nat} {log : List (SigmaRecord C)} {db : SigmaDatabase C}
  (h : Mirrors groupSize log db) (hfits : Fits groupSize log)
include h hfits

/-- **The next sequence number** is the number of records. -/
theorem Mirrors.getNextSequence : db.getNextSequence = .ok log.length := by
  have hseq := hfits.sequence
  unfold SigmaDatabase.getNextSequence
  rcases eq_nil_or_concat' log with hnil | ⟨older, last, hlog⟩
  · -- nothing but the group size, which comes after every sequence key
    have hnone : seekToPrevious db.store (createSequenceKey 0xFFFFFFFFFFFFFFFF) = none := by
      rw [seekToPrevious_eq_none_iff]
      intro key hkey hlt
      obtain ⟨value, hstored⟩ := h.mem_store.mp hkey
      rw [hnil] at hstored
      cases hstored with
      | groupSize => exact absurd hlt (not_lt_of_types (by decide) _ _)
      | mint hc => cases hc
      | spend hmem => cases hmem
      | history hr => cases hr
    rw [hnone, hnil]
    rfl
  · have hlen : log.length = older.length + 1 := by
      rw [hlog, length_append]
      rfl
    have hlast : log[older.length]? = some last := by
      rw [hlog, getElem?_concat_length]
    have hprev : seekToPrevious db.store (createSequenceKey 0xFFFFFFFFFFFFFFFF) =
        some (createSequenceKey older.length,
          .history ⟨last.height, last.op, last.key groupSize (log.take older.length)⟩) := by
      rw [seekToPrevious_eq_some_iff]
      refine ⟨(h.store _ _).mpr (.history hlast), ?_, ?_⟩
      · rw [compare_createSequenceKey (by omega) (by decide), compare_eq_lt]
        omega
      · intro key hkey hlt hbad
        obtain ⟨value, hstored⟩ := h.mem_store.mp hkey
        cases hstored with
        | groupSize | spend => exact absurd hlt (not_lt_of_types (by decide) _ _)
        | mint _ => exact absurd hbad (not_lt_of_types (by decide) _ _)
        | @history n r hr =>
          have hn := getElem?_lt hr
          rw [compare_createSequenceKey (by omega) (by omega), compare_eq_lt] at hbad
          omega
    rw [hprev]
    have hhead : (createSequenceKey older.length).head? = some KeyType.sequence := rfl
    show (if _ then if _ then _ else _ else _) = _
    rw [if_pos hhead, if_neg (by rw [length_createSequenceKey]; exact fun hne => hne rfl)]
    show Except.ok ((readBigEndian (bigEndian 8 older.length) + 1) % 2 ^ 64) = _
    rw [readBigEndian_bigEndian (show older.length < 256 ^ 8 by omega), hlen,
      mod_eq_of_lt (by omega)]

/-- **What a sentinel finds**: the last of the coins of its property and denomination in the
groups up to its own; without such a coin, one that belongs elsewhere. -/
theorem Mirrors.seek_mint (p : UInt32) (d : UInt8) {g : Nat} (hg : g < 2 ^ 32) {f : MintKey → Nat}
    (hf : ∀ k, ¬ (p = k.propertyId ∧ d = k.denomination) → f k = 0) :
    (match seekToPrevious db.store (createMintKey p d g 0xFFFF) with
      | none => .ok 0
      | some (key, _) => do
        let parsed ← parseMintKey key
        match parsed with
        | some k => return f k
        | none => return 0) =
      (.ok (match min (coins p d log).length ((g + 1) * groupSize) with
        | 0 => 0
        | n + 1 => f ⟨p, d, n / groupSize, n % groupSize⟩) : Except Abort Nat) := by
  have hmax := hfits.max
  unfold MAX_GROUP_SIZE at hmax
  have hbelow : ∀ j, j / groupSize < g ∨ j / groupSize = g ∧ j % groupSize < 0xFFFF ↔
      j < (g + 1) * groupSize := by
    intro j
    have hmod := mod_lt j hfits.pos
    rw [← div_lt_iff_lt_mul hfits.pos]
    omega
  cases hn : min (coins p d log).length ((g + 1) * groupSize) with
  | zero =>
    -- a mint before the key is one of another property or denomination
    have hsize := Nat.mul_pos (add_one_pos g) hfits.pos
    cases hseek : seekToPrevious db.store (createMintKey p d g 0xFFFF) with
    | none => rfl
    | some e =>
      obtain ⟨hget, hlt, -⟩ := seekToPrevious_eq_some_iff.mp hseek
      obtain ⟨p', d', j, c, hc, hkey, -⟩ := ((h.store _ _).mp hget).before_mint hlt
      have hj := getElem?_lt hc
      obtain ⟨hjg, hji⟩ := hfits.bounds hj
      show (parseMintKey e.1 >>= fun _ => _) = _
      rw [hkey, parseMintKey_createMintKey hjg hji, ok_bind]
      refine congrArg Except.ok (hf _ ?_)
      rintro ⟨rfl, rfl⟩
      omega
  | succ n =>
    obtain ⟨c, hc⟩ : ∃ c, (coins p d log)[n]? = some c := ⟨_, getElem?_eq_getElem (by omega)⟩
    obtain ⟨hjg, hji⟩ := hfits.bounds (getElem?_lt hc)
    -- the last coin up to the group has the greatest key before it
    have hseek : seekToPrevious db.store (createMintKey p d g 0xFFFF) =
        some (createMintKey p d (n / groupSize) (n % groupSize), .mint c) := by
      have hlast := (hbelow n).mpr (by omega)
      rw [seekToPrevious_eq_some_iff]
      refine ⟨(h.store _ _).mpr (.mint hc), ?_, ?_⟩
      · rw [createMintKey_lt_iff hjg hg hji (by decide)]
        omega
      · intro key hkey hlt hbad
        obtain ⟨value, hstored⟩ := h.mem_store.mp hkey
        obtain ⟨p', d', j, c', hc', rfl, -⟩ := hstored.before_mint hlt
        have hj := getElem?_lt hc'
        obtain ⟨hjg', hji'⟩ := hfits.bounds hj
        rw [createMintKey_lt_iff hjg' hg hji' (by decide)] at hlt
        rw [createMintKey_lt_iff hjg hjg' hji hji'] at hbad
        have hp : p' = p := UInt32.toNat_inj.mp (by omega)
        have hd : d' = d := UInt8.toNat_inj.mp (by omega)
        subst hp hd
        have hle := (hbelow j).mp (by omega)
        have horder := @index_order groupSize j n (by omega)
        omega
    rw [hseek]
    show (parseMintKey _ >>= fun _ => _) = _
    rw [parseMintKey_createMintKey hjg hji, ok_bind]
    rfl

/-- **The last group** of a property and denomination. -/
theorem Mirrors.getLastGroupId (p : UInt32) (d : UInt8) :
    db.getLastGroupId p d = .ok (((coins p d log).length - 1) / groupSize) := by
  have hgroups := hfits.groups p d
  refine (h.seek_mint hfits p d (g := 0xFFFFFFFF) (by decide)
    (f := fun k => if p = k.propertyId ∧ d = k.denomination then k.groupId else 0)
    fun k hk => if_neg hk).trans ?_
  rw [Nat.min_eq_left (by omega)]
  cases (coins p d log).length with
  | zero => rw [Nat.zero_sub, Nat.zero_div]
  | succ n => exact congrArg Except.ok (if_pos ⟨rfl, rfl⟩)

/-- **The coins in a group**: the group size, unless it is the last one or none. -/
theorem Mirrors.getMintCount (p : UInt32) (d : UInt8) {g : Nat} (hg : g < 2 ^ 32) :
    db.getMintCount p d g = .ok (min groupSize ((coins p d log).length - g * groupSize)) := by
  have hpos := hfits.pos
  have hnext := Nat.add_one_mul g groupSize
  refine (h.seek_mint hfits p d hg
    (f := fun k => if p = k.propertyId ∧ d = k.denomination ∧ g = k.groupId then k.idx + 1 else 0)
    fun k hk => if_neg fun hk' => hk ⟨hk'.1, hk'.2.1⟩).trans (congrArg Except.ok ?_)
  cases hn : min (coins p d log).length ((g + 1) * groupSize) with
  | zero =>
    show 0 = _
    omega
  | succ n =>
    show (if _ then n % groupSize + 1 else 0) = _
    rcases lt_or_ge n (g * groupSize) with hlt | hge
    · rw [if_neg fun hk => ((div_lt_iff_lt_mul hpos).mpr hlt).ne' hk.2.2]
      omega
    · obtain ⟨i, rfl⟩ := Nat.exists_eq_add_of_le hge
      obtain ⟨hdiv, hmod⟩ := @index_in_group groupSize g i (by omega)
      rw [hdiv, hmod, if_pos ⟨rfl, rfl, rfl⟩]
      omega

end Sentinels

/-! ## §5. Recording. -/

variable {C : Type} {groupSize : Nat} {log : List (SigmaRecord C)} {db : SigmaDatabase C}
  {r : SigmaRecord C} {value : SigmaValue C}

theorem Stored.append {key : DbKey} (h : Stored groupSize log key value)
    (later : List (SigmaRecord C)) : Stored groupSize (log ++ later) key value := by
  cases h with
  | groupSize => exact .groupSize
  | @mint p d j c hc =>
    refine .mint ?_
    rw [coins_append, getElem?_append_left (getElem?_lt hc)]
    exact hc
  | spend hmem => exact .spend (mem_append_left _ hmem)
  | @history n r' hr =>
    have hn := getElem?_lt hr
    have htake : (log ++ later).take n = log.take n := take_append_of_le_length hn.le
    rw [← htake]
    exact .history ((getElem?_append_left hn).trans hr)

variable (groupSize log r) in
theorem stored_key :
    Stored groupSize (log ++ [r]) (r.key groupSize log) r.value := by
  cases r with
  | mint p d pubKey height =>
    refine .mint ?_
    rw [coins_mint]
    exact getElem?_concat_length
  | spend p d serial height spendTx => exact .spend (mem_append_right _ mem_cons_self)

theorem stored_append_iff {key : DbKey} :
    Stored groupSize (log ++ [r]) key value ↔ Stored groupSize log key value ∨
      key = r.key groupSize log ∧ value = r.value ∨
      key = createSequenceKey log.length ∧
        value = .history ⟨r.height, r.op, r.key groupSize log⟩ := by
  constructor
  · intro h
    cases h with
    | groupSize => exact .inl .groupSize
    | @mint p d j c hc =>
      rw [coins_append, coins_singleton] at hc
      rcases getElem?_append_toList.mp hc with hc | ⟨rfl, hcoin⟩
      · exact .inl (.mint hc)
      · cases r with
        | spend p' d' serial height spendTx => cases hcoin
        | mint p' d' pubKey height =>
          obtain ⟨⟨rfl, rfl⟩, hpub⟩ := ite_none_right_eq_some.mp hcoin
          cases hpub
          exact .inr (.inl ⟨rfl, rfl⟩)
    | @spend p d serial height spendTx hmem =>
      rcases mem_append.mp hmem with hmem | hmem
      · exact .inl (.spend hmem)
      · have hr := mem_singleton.mp hmem
        subst hr
        exact .inr (.inl ⟨rfl, rfl⟩)
    | @history n r' hr =>
      rcases getElem?_concat_eq_some.mp hr with hr | ⟨rfl, rfl⟩
      · rw [take_append_of_le_length (getElem?_lt hr).le]
        exact .inl (.history hr)
      · rw [take_left]
        exact .inr (.inr ⟨rfl, rfl⟩)
  · rintro (h | ⟨rfl, rfl⟩ | ⟨rfl, rfl⟩)
    · exact h.append [r]
    · exact stored_key groupSize log r
    · have h := @Stored.history C groupSize (log ++ [r]) log.length r getElem?_concat_length
      rwa [take_left] at h

theorem key_fresh (hfits : Fits groupSize (log ++ [r])) (value : SigmaValue C) :
    ¬ Stored groupSize log (r.key groupSize log) value := by
  intro h
  have hold := hfits.of_append
  cases r with
  | mint p d pubKey height =>
    obtain ⟨hg, hi⟩ := hfits.bounds (show (coins p d log).length < _ by rw [coins_mint]; simp)
    obtain ⟨j, c, hc, hgj, hij, -⟩ := (Stored.at_mint hold hg hi).mp h
    have hj := getElem?_lt hc
    have := index_injective hgj hij
    omega
  | spend p d serial height spendTx =>
    obtain ⟨height', spendTx', hmem, -⟩ := Stored.at_spend.mp h
    have hnodup := hfits.serials
    rw [filterMap_append, nodup_append] at hnodup
    have hspent : (p, d, serial) ∈ log.filterMap SigmaRecord.spent :=
      mem_filterMap.mpr ⟨_, hmem, rfl⟩
    exact hnodup.2.2 _ hspent _ mem_cons_self rfl

theorem sequence_fresh (hfits : Fits groupSize (log ++ [r])) (value : SigmaValue C) :
    ¬ Stored groupSize log (createSequenceKey log.length) value ∧
      r.key groupSize log ≠ createSequenceKey log.length := by
  have hseq := hfits.sequence
  rw [length_append, length_singleton] at hseq
  constructor
  · intro h
    obtain ⟨r', hr', -⟩ := (Stored.at_sequence hfits.of_append (by omega)).mp h
    have := getElem?_lt hr'
    omega
  · intro hkey
    cases r with
    | mint | spend => cases (cons.inj hkey).1

/-- **One record more**: the entry and its history. -/
theorem Mirrors.insert (h : Mirrors groupSize log db) (hfits : Fits groupSize (log ++ [r])) :
    Mirrors groupSize (log ++ [r])
      { db with
        store := (db.store.insert (r.key groupSize log) r.value).insert
          (createSequenceKey log.length) (.history ⟨r.height, r.op, r.key groupSize log⟩) } := by
  refine ⟨h.size, fun key value => ?_⟩
  have hkey := key_fresh hfits value
  have hseq := sequence_fresh hfits value
  show ((db.store.insert _ _).insert _ _)[key]? = some value ↔ _
  rw [getElem?_insert, getElem?_insert, stored_append_iff, ← h.store]
  rw [← h.store] at hkey hseq
  grind

/-- **One record less**: the same keys deleted. -/
theorem Mirrors.erase (h : Mirrors groupSize (log ++ [r]) db)
    (hfits : Fits groupSize (log ++ [r])) :
    Mirrors groupSize log
      { db with
        store := (db.store.erase (r.key groupSize log)).erase (createSequenceKey log.length) } := by
  refine ⟨h.size, fun key value => ?_⟩
  have hkey := key_fresh hfits value
  have hseq := (sequence_fresh hfits value).1
  have hstore := h.store key value
  show ((db.store.erase _).erase _)[key]? = some value ↔ _
  rw [getElem?_erase, getElem?_erase]
  rw [stored_append_iff] at hstore
  grind

theorem Mirrors.addEntry (h : Mirrors groupSize log db) (hfits : Fits groupSize (log ++ [r])) :
    ∃ db', db.addEntry (r.key groupSize log) r.value r.height = .ok db' ∧
      Mirrors groupSize (log ++ [r]) db' := by
  have hop : (if isMintKey (r.key groupSize log) then Except.ok OpCode.storeMint
      else if isSpendSerialKey (r.key groupSize log) then .ok OpCode.storeSpendSerial
      else .error (Abort.threw (.invalidArgument "The specified entry is not supported"))) =
      .ok r.op := by
    cases r with
    | mint p d pubKey height => exact if_pos (isMintKey_createMintKey p d _ _)
    | spend p d serial height spendTx =>
      obtain ⟨hmint, hspend⟩ := isSpendSerialKey_createSpendSerialKey p d serial
      show (if isMintKey (createSpendSerialKey p d serial) then _ else _) = _
      rw [if_neg (by rw [hmint]; exact Bool.false_ne_true)]
      exact if_pos hspend
  refine ⟨_, ?_, h.insert hfits⟩
  unfold SigmaDatabase.addEntry
  rw [hop, ok_bind, h.getNextSequence hfits.of_append, ok_bind]
  rfl

theorem next_place {n : Nat} (hpos : 0 < groupSize) (hn : n / groupSize < 2 ^ 32) :
    (if min groupSize (n - (n - 1) / groupSize * groupSize) = groupSize then
        (((n - 1) / groupSize + 1) % 2 ^ 32, 0)
      else ((n - 1) / groupSize, min groupSize (n - (n - 1) / groupSize * groupSize))) =
      (n / groupSize, n % groupSize) := by
  cases n with
  | zero =>
    rw [Nat.zero_sub, Nat.zero_div, Nat.min_zero, Nat.zero_mod, if_neg (by omega)]
  | succ m =>
    obtain ⟨g, i, hi, rfl⟩ : ∃ g i, i < groupSize ∧ m = g * groupSize + i :=
      ⟨_, _, mod_lt m hpos, (div_add_mod' m groupSize).symm⟩
    have hmin : min groupSize (g * groupSize + i + 1 - g * groupSize) = i + 1 := by omega
    rw [Nat.add_sub_cancel, (index_in_group hi).1, hmin]
    by_cases hfull : i + 1 = groupSize
    · obtain ⟨hdiv, hrem⟩ := @index_in_group groupSize (g + 1) 0 hpos
      have hnext : g * groupSize + i + 1 = (g + 1) * groupSize + 0 := by
        rw [add_one_mul]
        omega
      rw [hnext, hdiv] at hn
      rw [if_pos hfull, hnext, hdiv, hrem, mod_eq_of_lt hn]
    · obtain ⟨hdiv, hrem⟩ := @index_in_group groupSize g (i + 1) (by omega)
      rw [if_neg hfull, Nat.add_assoc, hdiv, hrem]

/-- **`RecordMint`** puts the coin at the next place of its property and denomination. -/
theorem Mirrors.recordMint (h : Mirrors groupSize log db) {p : UInt32} {d : UInt8} {pubKey : C}
    {height : Int} (hfits : Fits groupSize (log ++ [.mint p d pubKey height])) :
    ∃ db', db.recordMint p d pubKey height =
        .ok (((coins p d log).length / groupSize, (coins p d log).length % groupSize), db') ∧
      Mirrors groupSize (log ++ [.mint p d pubKey height]) db' := by
  have hold := hfits.of_append
  obtain ⟨db', hadd, hmirrors⟩ := h.addEntry hfits
  refine ⟨db', ?_, hmirrors⟩
  have hlen : (coins p d log).length < groupSize * 2 ^ 32 := by
    have := hfits.groups p d
    rw [coins_mint, length_append] at this
    exact this
  have hgroup : ∀ n ≤ (coins p d log).length, n / groupSize < 2 ^ 32 := by
    intro n hn
    rw [div_lt_iff_lt_mul hold.pos, mul_comm]
    omega
  unfold SigmaDatabase.recordMint
  rw [h.getLastGroupId hold, ok_bind, h.getMintCount hold p d (hgroup _ (by omega)), ok_bind,
    h.size, if_neg (by omega), next_place hold.pos (hgroup _ le_rfl)]
  show (db.addEntry (createMintKey p d _ _) (.mint pubKey) height >>= fun _ => _) = _
  have hadd' : db.addEntry (createMintKey p d ((coins p d log).length / groupSize)
      ((coins p d log).length % groupSize)) (.mint pubKey) height = .ok db' := hadd
  rw [hadd']
  rfl

theorem Mirrors.record (h : Mirrors groupSize log db) (hfits : Fits groupSize (log ++ [r])) :
    ∃ db', r.record db = .ok db' ∧ Mirrors groupSize (log ++ [r]) db' := by
  cases r with
  | mint p d pubKey height =>
    obtain ⟨db', hrun, hmirrors⟩ := h.recordMint hfits
    refine ⟨db', ?_, hmirrors⟩
    show (db.recordMint p d pubKey height >>= fun _ => _) = _
    rw [hrun]
    rfl
  | spend p d serial height spendTx => exact h.addEntry hfits

theorem recordAll_fresh (hfits : Fits groupSize log) :
    ∃ db', recordAll (SigmaDatabase.fresh groupSize) log = .ok db' ∧ Mirrors groupSize log db' := by
  refine exists_foldlM_ok (Mirrors groupSize) ?_ (mirrors_fresh groupSize)
  rintro pre r rest rfl db h
  rw [append_cons] at hfits
  exact h.record hfits.of_append

end Zcoin.Elysium
