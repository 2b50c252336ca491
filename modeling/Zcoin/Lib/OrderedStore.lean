/-
  Zcoin.Lib.OrderedStore — iterators over an ordered key-value store.

  A store is an `ExtTreeMap`; `Seek`, `Prev` and `SeekToLast` of an iterator are read off
  its sorted list of entries.  The rules below say what a walk meets when the keys in a
  region are known.
-/
import Zcoin.Lib.OrderedMap

namespace Zcoin.Lib.OrderedStore

open Std Std.ExtTreeMap List

variable {K V : Type} {cmp : K → K → Ordering}

/-! ## §1. Walks. -/

variable (store : ExtTreeMap K V cmp)

/-- What an iterator meets after `Seek(key)`, going forward. -/
def onward [TransCmp cmp] (key : K) : List (K × V) :=
  store.toList.filter fun e => cmp e.1 key ≠ .lt

/-- What an iterator standing on `key` meets, going backward from it. -/
def backward [TransCmp cmp] (key : K) : List (K × V) :=
  (store.toList.filter fun e => cmp e.1 key ≠ .gt).reverse

/-- The entries before a key. -/
def before [TransCmp cmp] (key : K) : List (K × V) :=
  store.toList.filter fun e => cmp e.1 key = .lt

/-- `Seek(key)`, then `Prev` when that is valid and `SeekToLast` when it is not. -/
def seekToPrevious [TransCmp cmp] (key : K) : Option (K × V) :=
  match onward store key with
  | e :: _ => (before store e.1).getLast?
  | [] => store.toList.getLast?

variable [TransCmp cmp] [LawfulEqCmp cmp]

/-! ## §2. Sorted lists of entries. -/

variable {store : ExtTreeMap K V cmp} {entries : List (K × V)}
  (hsorted : entries.Pairwise fun a b => cmp a.1 b.1 = .lt)
include hsorted

theorem filter_toList_eq {p : K × V → Bool}
    (hmem : ∀ e, e ∈ entries ↔ store[e.1]? = some e.2 ∧ p e = true) :
    store.toList.filter p = entries := by
  have hirrefl : Std.Irrefl (fun a b : K × V => cmp a.1 b.1 = .lt) :=
    ⟨fun a => by simp [ReflCmp.compare_self]⟩
  have hanti : Std.Antisymm (fun a b : K × V => cmp a.1 b.1 = .lt) := ⟨fun a b hab hba => by
    have := OrientedCmp.gt_of_lt hab
    simp [hba] at this⟩
  refine (ordered_keys_toList.filter p).eq_of_mem_iff hsorted ?_
  rintro ⟨k, v⟩
  rw [mem_filter, hmem, mem_toList_iff_getElem?_eq_some]

theorem getLast?_eq_some_iff {e : K × V} :
    entries.getLast? = some e ↔ e ∈ entries ∧ ∀ e' ∈ entries, cmp e.1 e'.1 ≠ .lt := by
  rcases eq_nil_or_concat entries with rfl | ⟨pre, last, rfl⟩
  · simp
  · rw [concat_eq_append] at hsorted ⊢
    rw [getLast?_concat, Option.some.injEq]
    obtain ⟨-, -, hlt⟩ := pairwise_append.mp hsorted
    constructor
    · rintro rfl
      refine ⟨mem_append_right _ mem_cons_self, ?_⟩
      intro e' he' hbad
      rcases mem_append.mp he' with he' | he'
      · have := OrientedCmp.gt_of_lt (hlt e' he' last mem_cons_self)
        simp [this] at hbad
      · rw [mem_singleton.mp he'] at hbad
        simp [ReflCmp.compare_self] at hbad
    · rintro ⟨he, hmax⟩
      rcases mem_append.mp he with he | he
      · exact absurd (hlt e he last mem_cons_self)
          (hmax last (mem_append_right _ mem_cons_self))
      · exact (mem_singleton.mp he).symm

omit hsorted

/-! ## §3. The previous key. -/

/-- Whichever way it is found, it is the last entry before the key. -/
theorem seekToPrevious_eq (store : ExtTreeMap K V cmp) (key : K) :
    seekToPrevious store key = (before store key).getLast? := by
  unfold seekToPrevious
  cases hon : onward store key with
  | nil =>
    have hall : ∀ e ∈ store.toList, cmp e.1 key = .lt := by
      intro e he
      by_contra hne
      have hmem : e ∈ onward store key := mem_filter.mpr ⟨he, by simpa using hne⟩
      rw [hon] at hmem
      cases hmem
    have hself : before store key = store.toList :=
      filter_eq_self.mpr fun e he => by simpa using hall e he
    rw [hself]
  | cons e rest =>
    have he : e ∈ onward store key := by
      rw [hon]
      exact mem_cons_self
    obtain ⟨hestore, hge⟩ := mem_filter.mp he
    have hge' : cmp e.1 key ≠ .lt := by simpa using hge
    -- an entry is before the one found exactly when it is before the key
    have hsame : before store e.1 = before store key := by
      apply filter_congr
      intro e' he'
      rw [decide_eq_decide]
      constructor
      · intro hlt
        by_contra hne
        have hmem : e' ∈ onward store key := mem_filter.mpr ⟨he', by simpa using hne⟩
        rw [hon] at hmem
        have hsorted : (e :: rest).Pairwise fun a b => cmp a.1 b.1 = .lt := by
          rw [← hon]
          exact ordered_keys_toList.filter _
        rcases mem_cons.mp hmem with rfl | hmem
        · simp [ReflCmp.compare_self] at hlt
        · have hgt := OrientedCmp.gt_of_lt ((pairwise_cons.mp hsorted).1 e' hmem)
          simp [hgt] at hlt
      · intro hlt
        cases hkey : cmp key e.1 with
        | lt => exact TransCmp.lt_trans hlt hkey
        | eq => exact TransCmp.lt_of_lt_of_eq hlt hkey
        | gt => exact absurd (OrientedCmp.lt_of_gt hkey) hge'
    show (before store e.1).getLast? = _
    rw [hsame]

theorem seekToPrevious_eq_some_iff {key : K} {e : K × V} :
    seekToPrevious store key = some e ↔
      store[e.1]? = some e.2 ∧ cmp e.1 key = .lt ∧
        ∀ k ∈ store, cmp k key = .lt → cmp e.1 k ≠ .lt := by
  have hsorted : (before store key).Pairwise fun a b => cmp a.1 b.1 = .lt :=
    ordered_keys_toList.filter _
  rw [seekToPrevious_eq, getLast?_eq_some_iff hsorted]
  unfold before
  obtain ⟨k, v⟩ := e
  rw [mem_filter, mem_toList_iff_getElem?_eq_some, decide_eq_true_eq, and_assoc]
  refine and_congr_right fun _ => and_congr_right fun _ => ?_
  constructor
  · intro h k' hk' hlt
    obtain ⟨v', hv'⟩ := OrderedMap.mem_iff_exists.mp hk'
    refine h (k', v') (mem_filter.mpr ⟨?_, by simpa using hlt⟩)
    exact mem_toList_iff_getElem?_eq_some.mpr hv'
  · rintro h ⟨k', v'⟩ he'
    obtain ⟨hmem, hlt⟩ := mem_filter.mp he'
    have hv' := mem_toList_iff_getElem?_eq_some.mp hmem
    exact h k' (OrderedMap.mem_iff_exists.mpr ⟨v', hv'⟩) (by simpa using hlt)

theorem seekToPrevious_eq_none_iff {key : K} :
    seekToPrevious store key = none ↔ ∀ k ∈ store, cmp k key ≠ .lt := by
  rw [seekToPrevious_eq, getLast?_eq_none_iff]
  unfold before
  rw [filter_eq_nil_iff]
  constructor
  · intro h k hk hlt
    obtain ⟨v, hv⟩ := OrderedMap.mem_iff_exists.mp hk
    exact h (k, v) (mem_toList_iff_getElem?_eq_some.mpr hv) (by simpa using hlt)
  · rintro h ⟨k, v⟩ he
    have hv := mem_toList_iff_getElem?_eq_some.mp he
    have hne := h k (OrderedMap.mem_iff_exists.mpr ⟨v, hv⟩)
    simpa using hne

/-! ## §4. Walks that begin with a known block of entries. -/

variable {store : ExtTreeMap K V cmp} {key bound : K} {block : List (K × V)}

/-- **A forward walk** begins with the entries up to a bound. -/
theorem onward_eq (hsorted : block.Pairwise fun a b => cmp a.1 b.1 = .lt)
    (hblock : ∀ e, e ∈ block ↔ store[e.1]? = some e.2 ∧ cmp e.1 key ≠ .lt ∧ cmp e.1 bound ≠ .gt) :
    ∃ rest, onward store key = block ++ rest := by
  have hwalk : (onward store key).Pairwise fun a b => cmp a.1 b.1 = .lt :=
    ordered_keys_toList.filter _
  have hsplit := OrderedMap.filter_append_filter_not
    (fun e : K × V => decide (cmp e.1 bound ≠ .gt)) hwalk (by
      intro a b hab hb
      rw [decide_eq_true_eq] at hb ⊢
      intro ha
      exact hb (OrientedCmp.gt_of_lt (TransCmp.lt_trans (OrientedCmp.lt_of_gt ha) hab)))
  have hfirst : (onward store key).filter (fun e => decide (cmp e.1 bound ≠ .gt)) = block := by
    unfold onward
    rw [filter_filter]
    apply filter_toList_eq hsorted
    intro e
    rw [hblock, Bool.and_eq_true, decide_eq_true_eq, decide_eq_true_eq, and_comm (b := _ ≠ _)]
  rw [hfirst] at hsplit
  exact ⟨_, hsplit.symm⟩

/-- `Seek` stands on a key of the store. -/
theorem onward_of_getElem? {v : V} (h : store[key]? = some v) :
    ∃ rest, onward store key = (key, v) :: rest := by
  suffices hone : ∀ e, e ∈ [(key, v)] ↔ store[e.1]? = some e.2 ∧ cmp e.1 key ≠ .lt ∧
      cmp e.1 key ≠ .gt from onward_eq (pairwise_singleton _ _) hone
  rintro ⟨k, v'⟩
  rw [mem_singleton]
  constructor
  · intro he
    cases he
    simp [h, ReflCmp.compare_self]
  · rintro ⟨hget, hge, hle⟩
    cases hcmp : cmp k key with
    | lt => exact absurd hcmp hge
    | eq =>
      cases LawfulEqCmp.eq_of_compare hcmp
      cases hget.symm.trans h
      rfl
    | gt => exact absurd hcmp hle

/-- **A backward walk** begins with the entries down to a bound. -/
theorem backward_eq (hsorted : block.Pairwise fun a b => cmp a.1 b.1 = .lt)
    (hblock : ∀ e, e ∈ block ↔ store[e.1]? = some e.2 ∧ cmp e.1 key ≠ .gt ∧ cmp e.1 bound ≠ .lt) :
    ∃ rest, backward store key = block.reverse ++ rest ∧ ∀ e ∈ rest, cmp e.1 bound = .lt := by
  have hwalk : (store.toList.filter fun e => cmp e.1 key ≠ .gt).Pairwise fun a b =>
      cmp a.1 b.1 = .lt := ordered_keys_toList.filter _
  have hsplit := OrderedMap.filter_append_filter_not
    (fun e : K × V => decide (cmp e.1 bound = .lt)) hwalk (by
      intro a b hab hb
      rw [decide_eq_true_eq] at hb ⊢
      exact TransCmp.lt_trans hab hb)
  have hlast : (store.toList.filter fun e => cmp e.1 key ≠ .gt).filter
      (fun e => !decide (cmp e.1 bound = .lt)) = block := by
    rw [filter_filter]
    apply filter_toList_eq hsorted
    intro e
    rw [hblock]
    simp [and_comm]
  rw [hlast] at hsplit
  have hback := congrArg reverse hsplit
  rw [reverse_append] at hback
  exact ⟨_, hback.symm, fun e he => by simpa using (mem_filter.mp (mem_reverse.mp he)).2⟩

end Zcoin.Lib.OrderedStore
