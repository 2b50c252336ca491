/-
  Zcoin.Elysium.TradeList — the trade database and its rollback (`elysium/elysium.cpp`).

  A new trade is stored with five fields, a match with eight.  `deleteAboveBlock` reads the
  block of a record with five or with seven fields: a match is judged by the block of the new
  trade before it in the order of the keys.
-/
import Zcoin.Lib.OrderedMap

namespace Zcoin.Elysium

open List hiding getElem?_insert
open Std Lib.OrderedMap

/-! ## §1. The database. -/

/-- A field of a value, between two colons; an address has none and is not empty. -/
inductive TradeField where
  | text (s : String)
  | number (n : Int)
  deriving DecidableEq

/-- `atoi`; a text that is not a number counts as zero. -/
def TradeField.atoi : TradeField → Int
  | text _ => 0
  | number n => n

/-- `pdb`: the values, in fields, in the order of the keys. -/
abbrev TradeDb := ExtTreeMap String (List TradeField)

/-- A call that records a trade. -/
inductive TradeCall where
  | newTrade (txid address : String) (propertyIdForSale propertyIdDesired blockNum
      blockIndex : Int)
  | matchedTrade (txid1 txid2 address1 address2 : String) (prop1 prop2 amount1 amount2 blockNum
      fee : Int)

/-- `recordNewTrade` and `recordMatchedTrade`. -/
def TradeDb.record (pdb : TradeDb) : TradeCall → TradeDb
  | .newTrade txid address propertyIdForSale propertyIdDesired blockNum blockIndex =>
    pdb.insert txid [.text address, .number propertyIdForSale, .number propertyIdDesired,
      .number blockNum, .number blockIndex]
  | .matchedTrade txid1 txid2 address1 address2 prop1 prop2 amount1 amount2 blockNum fee =>
    pdb.insert (txid1 ++ "+" ++ txid2) [.text address1, .text address2, .number prop1,
      .number prop2, .number amount1, .number amount2, .number blockNum, .number fee]

/-- The variable `block` of `deleteAboveBlock` after a record. -/
def readBlock (block : Int) (vstr : List TradeField) : Int :=
  let block := if 7 = vstr.length then (vstr.map TradeField.atoi).getD 6 0 else block
  if 5 = vstr.length then (vstr.map TradeField.atoi).getD 3 0 else block

/-- A round of `deleteAboveBlock`. -/
def deleteRound (blockNum : Int) (state : Int × Nat × TradeDb)
    (record : String × List TradeField) : Int × Nat × TradeDb :=
  let (block, n_found, pdb) := state
  let block := readBlock block record.2
  if blockNum ≤ block then (block, n_found + 1, pdb.erase record.1) else (block, n_found, pdb)

/-- `CMPTradeList::deleteAboveBlock`; the iterator is over the database as it was. -/
def TradeDb.deleteAboveBlock (pdb : TradeDb) (blockNum : Int) : Nat × TradeDb :=
  (pdb.toList.foldl (deleteRound blockNum) (0, 0, pdb)).2

/-! ## §2. Blocks of records. -/

/-- The block of a record. -/
def tradeBlock (vstr : List TradeField) : Int :=
  (vstr.map TradeField.atoi).getD (if vstr.length = 5 then 3 else 6) 0

/-- The block of the last new trade among records, or 0. -/
def lastTradeBlock (records : List (String × List TradeField)) : Int :=
  ((records.filter fun r => r.2.length = 5).getLast?.map fun r => tradeBlock r.2).getD 0

/-- **Exactly the records from a block on are deleted**. -/
def TradeDb.DeletesAbove (pdb : TradeDb) (blockNum : Int) : Prop :=
  ∀ key : String, (pdb.deleteAboveBlock blockNum).2[key]? =
    pdb[key]?.bind fun vstr => if blockNum ≤ tradeBlock vstr then none else some vstr

/-! ## §3. The scan. -/

variable {pdb : TradeDb} {blockNum : Int} {records pre post : List (String × List TradeField)}
  {key : String} {vstr : List TradeField}

theorem readBlock_eq (block : Int) (hvstr : vstr.length = 5 ∨ vstr.length = 8) :
    readBlock block vstr = if vstr.length = 5 then tradeBlock vstr else block := by
  unfold readBlock tradeBlock
  rcases hvstr with h | h <;> simp [h]

theorem fst_foldl (h : ∀ r ∈ records, r.2.length = 5 ∨ r.2.length = 8)
    (state : Int × Nat × TradeDb) (hstate : state.1 = 0) :
    (records.foldl (deleteRound blockNum) state).1 = lastTradeBlock records := by
  induction records using reverseRecOn with
  | nil => exact hstate
  | append_singleton records r ih =>
    obtain ⟨hrecords, hr⟩ := forall_mem_append.mp h
    have hround : ∀ state : Int × Nat × TradeDb,
        (deleteRound blockNum state r).1 = readBlock state.1 r.2 := by
      intro state
      unfold deleteRound
      dsimp only
      split <;> rfl
    rw [foldl_append, foldl_cons, foldl_nil, hround, ih hrecords,
      readBlock_eq _ (hr r mem_cons_self)]
    unfold lastTradeBlock
    by_cases hlen : r.2.length = 5 <;> simp [hlen]

theorem getElem?_foldl (hkey : ∀ r ∈ records, r.1 ≠ key) (state : Int × Nat × TradeDb) :
    (records.foldl (deleteRound blockNum) state).2.2[key]? = state.2.2[key]? := by
  induction records generalizing state with
  | nil => rfl
  | cons r records ih =>
    obtain ⟨hr, hrecords⟩ := forall_mem_cons.mp hkey
    rw [foldl_cons, ih hrecords]
    unfold deleteRound
    dsimp only
    split
    · exact (getElem?_erase _ _ _).trans (if_neg hr.symm)
    · rfl

/-- **A record is judged** by the block that is carried to it, unless it is a new trade. -/
theorem getElem?_deleteAboveBlock (h : ∀ r ∈ pdb.toList, r.2.length = 5 ∨ r.2.length = 8)
    (hsplit : pdb.toList = pre ++ (key, vstr) :: post) :
    (pdb.deleteAboveBlock blockNum).2[key]? =
      if blockNum ≤ (if vstr.length = 5 then tradeBlock vstr else lastTradeBlock pre) then none
      else pdb[key]? := by
  have hnodup := nodup_map_fst_toList pdb
  rw [hsplit, map_append, map_cons, nodup_append, nodup_cons] at hnodup
  obtain ⟨-, ⟨hpost, -⟩, hpre⟩ := hnodup
  rw [hsplit] at h
  obtain ⟨hrecorded, hrest⟩ := forall_mem_append.mp h
  have hcarried : (pre.foldl (deleteRound blockNum) (0, 0, pdb)).1 = lastTradeBlock pre :=
    fst_foldl hrecorded _ rfl
  have hkept : (pre.foldl (deleteRound blockNum) (0, 0, pdb)).2.2[key]? = pdb[key]? :=
    getElem?_foldl (fun r hr heq => hpre _ (mem_map_of_mem hr) _ mem_cons_self heq) _
  unfold TradeDb.deleteAboveBlock
  rw [hsplit, foldl_append, foldl_cons,
    getElem?_foldl fun r hr heq => hpost (mem_map.mpr ⟨r, hr, heq⟩)]
  generalize pre.foldl (deleteRound blockNum) (0, 0, pdb) = state at hcarried hkept ⊢
  unfold deleteRound
  dsimp only
  rw [hcarried, readBlock_eq _ (hrest _ mem_cons_self)]
  generalize (if vstr.length = 5 then tradeBlock vstr else lastTradeBlock pre) = block
  split
  · exact (getElem?_erase state.2.2 key key).trans (if_pos rfl)
  · exact hkept

theorem recorded_values (calls : List TradeCall) :
    ∀ r ∈ (calls.foldl TradeDb.record ∅).toList, r.2.length = 5 ∨ r.2.length = 8 := by
  rintro ⟨key, vstr⟩ hr
  rw [ExtTreeMap.mem_toList_iff_getElem?_eq_some] at hr
  revert key vstr
  refine foldlRecOn calls _ (motive := fun pdb : TradeDb => ∀ (key : String) vstr,
    pdb[key]? = some vstr → vstr.length = 5 ∨ vstr.length = 8) ?_ ?_
  · intro key vstr h
    cases h
  · intro pdb ih call _ key vstr h
    cases call <;> rw [TradeDb.record, getElem?_insert] at h <;> split at h
    · cases h
      exact .inl rfl
    · exact ih key vstr h
    · cases h
      exact .inr rfl
    · exact ih key vstr h

/-- **The rollback is exact** where every match is on the same side of the block as the new trade
before it. -/
theorem deletesAbove_iff (calls : List TradeCall) (blockNum : Int) :
    (calls.foldl TradeDb.record ∅).DeletesAbove blockNum ↔
      ∀ pre key vstr post, (calls.foldl TradeDb.record ∅).toList = pre ++ (key, vstr) :: post →
        vstr.length = 8 → (blockNum ≤ lastTradeBlock pre ↔ blockNum ≤ tradeBlock vstr) := by
  have hrecorded := recorded_values calls
  generalize calls.foldl TradeDb.record ∅ = pdb at hrecorded ⊢
  have hmem : ∀ (key : String) vstr, (key, vstr) ∈ pdb.toList ↔ pdb[key]? = some vstr :=
    fun key vstr => ExtTreeMap.mem_toList_iff_getElem?_eq_some
  have hite : ∀ {p q : Prop} [Decidable p] [Decidable q] (v : List TradeField),
      ((if p then none else some v) = if q then none else some v) ↔ (p ↔ q) := by
    intro p q _ _ v
    by_cases hp : p <;> by_cases hq : q <;> simp [hp, hq]
  constructor
  · intro h pre key vstr post hsplit hlen
    have hkey := h key
    rw [getElem?_deleteAboveBlock hrecorded hsplit, (hmem key vstr).mp (by rw [hsplit]; simp),
      if_neg (by omega : ¬ vstr.length = 5)] at hkey
    exact (hite vstr).mp hkey
  · intro h key
    cases hget : pdb[key]? with
    | none =>
      refine (getElem?_foldl ?_ _).trans hget
      rintro ⟨_, vstr⟩ hr rfl
      rw [(hmem _ _).mp hr] at hget
      cases hget
    | some vstr =>
      have hin := (hmem key vstr).mpr hget
      obtain ⟨pre, post, hsplit⟩ := append_of_mem hin
      rw [getElem?_deleteAboveBlock hrecorded hsplit, hget]
      refine (hite vstr).mpr ?_
      rcases hrecorded _ hin with hlen | hlen
      · rw [if_pos hlen]
      · rw [if_neg (fun h => nomatch h.symm.trans hlen)]
        exact h pre key vstr post hsplit hlen

/-- **A match of a later block survives** when the new trade before it in the order of the keys is
older: here the trade is of block 100 and its match of block 200. -/
theorem later_match_survives :
    let pdb : TradeDb := [.newTrade "a1" "seller" 3 1 100 0,
      .matchedTrade "a1" "b2" "seller" "buyer" 3 1 50 60 200 0].foldl TradeDb.record ∅
    (pdb.deleteAboveBlock 150).1 = 0 ∧ (pdb.deleteAboveBlock 150).2["a1+b2"]?.isSome = true := by
  decide +kernel

end Zcoin.Elysium
