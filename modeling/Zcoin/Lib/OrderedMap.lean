/-
  Zcoin.Lib.OrderedMap — ordered maps as their key list and a lookup.

  General facts about `Std.ExtTreeMap`, for programs that walk a `std::map` in
  key order: the walk is the sorted key list paired with the lookup, two maps
  with the same keys below a threshold walk alike below it, and a map with one
  entry walks over that entry.
-/
import Mathlib

namespace Zcoin.Lib.OrderedMap

open Std List

/-! ## §1. Sorted lists. -/

/-- A list sorted by `r` splits at any predicate that is downward closed for `r`. -/
theorem filter_append_filter_not {α : Type} {r : α → α → Prop} {l : List α} (p : α → Bool)
    (hsorted : l.Pairwise r) (hdown : ∀ a b, r a b → p b = true → p a = true) :
    l.filter p ++ l.filter (fun a => !p a) = l := by
  induction l with
  | nil => rfl
  | cons a l ih =>
    obtain ⟨ha, hl⟩ := pairwise_cons.mp hsorted
    by_cases hpa : p a = true
    · simp only [filter_cons, hpa, if_true, Bool.not_true, Bool.false_eq_true, if_false,
        cons_append, ih hl]
    · have hnone : ∀ b ∈ l, p b = false := by
        intro b hb
        by_contra hpb
        exact hpa (hdown a b (ha b hb) (by simpa using hpb))
      have hfilter : l.filter p = [] := by
        simpa [filter_eq_nil_iff] using hnone
      have hnot : l.filter (fun a => !p a) = l := by
        rw [filter_eq_self]
        intro b hb
        simp [hnone b hb]
      simp [hpa, hfilter, hnot]

theorem getElem?_concat_eq_some {α : Type} {l : List α} {a b : α} {k : Nat} :
    (l ++ [a])[k]? = some b ↔ l[k]? = some b ∨ k = l.length ∧ a = b := by
  grind

theorem getElem?_append_toList {α : Type} {l : List α} {o : Option α} {b : α} {k : Nat} :
    (l ++ o.toList)[k]? = some b ↔ l[k]? = some b ∨ k = l.length ∧ o = some b := by
  cases o with
  | none => simp
  | some a => simp [getElem?_concat_eq_some]

/-! ## §2. The walk over a map. -/

variable {K V : Type} {cmp : K → K → Ordering} [TransCmp cmp] [LawfulEqCmp cmp]

theorem toList_eq_map_keys (t : ExtTreeMap K V cmp) (d : V) :
    t.toList = t.keys.map (fun k => (k, t.getD k d)) := by
  rw [← ExtTreeMap.map_fst_toList_eq_keys, map_map]
  have hpair : ∀ e ∈ t.toList, ((fun k => (k, t.getD k d)) ∘ Prod.fst) e = id e := by
    rintro ⟨k, v⟩ hkv
    have hget := ExtTreeMap.mem_toList_iff_getElem?_eq_some.mp hkv
    simp [ExtTreeMap.getD_eq_getD_getElem?, hget]
  rw [map_congr_left hpair, map_id]

theorem keys_filter_congr {t₁ t₂ : ExtTreeMap K V cmp} (p : K → Bool)
    (h : ∀ k, p k = true → (k ∈ t₁ ↔ k ∈ t₂)) : t₁.keys.filter p = t₂.keys.filter p := by
  have hirrefl : Std.Irrefl (fun a b => cmp a b = .lt) :=
    ⟨fun a => by simp [ReflCmp.compare_self]⟩
  have hanti : Std.Antisymm (fun a b => cmp a b = .lt) := ⟨fun a b hab hba => by
    have := OrientedCmp.gt_of_lt hab
    simp [hba] at this⟩
  refine (ExtTreeMap.ordered_keys.filter p).eq_of_mem_iff (ExtTreeMap.ordered_keys.filter p) ?_
  intro k
  rw [mem_filter, mem_filter, ExtTreeMap.mem_keys, ExtTreeMap.mem_keys]
  exact and_congr_left (h k)

omit [LawfulEqCmp cmp] in
theorem toList_empty : (∅ : ExtTreeMap K V cmp).toList = [] := rfl

omit [LawfulEqCmp cmp] in
theorem toList_singleton (k : K) (v : V) :
    ((∅ : ExtTreeMap K V cmp).insert k v).toList = [(k, v)] := rfl

/-! ## §3. Entries that are related one by one. -/

section Related

variable {α : Type} {R S T : α → α → Prop} {a b c : Option α}

theorem rel_refl (hR : ∀ x, R x x) : Option.Rel R a a := by
  cases a with
  | none => exact .none
  | some x => exact .some (hR x)

theorem rel_mono (hS : ∀ {x y}, R x y → S x y) (h : Option.Rel R a b) : Option.Rel S a b := by
  cases h with
  | none => exact .none
  | some hxy => exact .some (hS hxy)

theorem rel_comp (h : Option.Rel R a b) (h' : Option.Rel S b c)
    (hT : ∀ x y z, a = some x → R x y → S y z → T x z) : Option.Rel T a c := by
  cases h with
  | none =>
    cases h' with
    | none => exact .none
  | some hxy =>
    cases h' with
    | some hyz => exact .some (hT _ _ _ rfl hxy hyz)

theorem exists_right {x : α} (h : Option.Rel R a b) (ha : a = some x) :
    ∃ y, b = some y ∧ R x y := by
  subst ha
  cases h with
  | some hxy => exact ⟨_, rfl, hxy⟩

theorem exists_left {y : α} (h : Option.Rel R a b) (hb : b = some y) :
    ∃ x, a = some x ∧ R x y := by
  subst hb
  cases h with
  | some hxy => exact ⟨_, rfl, hxy⟩

end Related

/-! ## §4. Lookups, with key equality in place of the comparison. -/

section Lookup

omit [TransCmp cmp] in
theorem compare_eq_iff {a b : K} : cmp a b = .eq ↔ b = a := by
  constructor
  · intro h
    exact (LawfulEqCmp.eq_of_compare h).symm
  · rintro rfl
    exact ReflCmp.compare_self

omit [LawfulEqCmp cmp] in
theorem mem_iff_exists {t : ExtTreeMap K V cmp} {k : K} : k ∈ t ↔ ∃ v, t[k]? = some v := by
  rw [ExtTreeMap.mem_iff_isSome_getElem?, Option.isSome_iff_exists]

variable [DecidableEq K]

theorem getElem?_insert (t : ExtTreeMap K V cmp) (k a : K) (v : V) :
    (t.insert k v)[a]? = if a = k then some v else t[a]? := by
  rw [ExtTreeMap.getElem?_insert]
  simp only [compare_eq_iff]

theorem getElem?_erase (t : ExtTreeMap K V cmp) (k a : K) :
    (t.erase k)[a]? = if a = k then none else t[a]? := by
  rw [ExtTreeMap.getElem?_erase]
  simp only [compare_eq_iff]

theorem getElem?_insertIfNew (t : ExtTreeMap K V cmp) (k a : K) (v : V) :
    (t.insertIfNew k v)[a]? = if a = k ∧ k ∉ t then some v else t[a]? := by
  rw [ExtTreeMap.getElem?_insertIfNew]
  simp only [compare_eq_iff]

theorem getD_insert (t : ExtTreeMap K V cmp) (k a : K) (v d : V) :
    (t.insert k v).getD a d = if a = k then v else t.getD a d := by
  rw [ExtTreeMap.getD_insert]
  simp only [compare_eq_iff]

omit [DecidableEq K] in
theorem mem_insert (t : ExtTreeMap K V cmp) (k a : K) (v : V) :
    a ∈ t.insert k v ↔ a = k ∨ a ∈ t := by
  rw [ExtTreeMap.mem_insert, compare_eq_iff]

omit [DecidableEq K]

variable {t : ExtTreeMap K V cmp} {k : K} {v w : V}

theorem erase_of_not_mem (h : k ∉ t) : t.erase k = t :=
  ExtTreeMap.ext_getElem? fun a => by grind

theorem erase_insert_self (h : k ∉ t) : (t.insert k v).erase k = t :=
  ExtTreeMap.ext_getElem? fun a => by grind

theorem insert_insert_self : (t.insert k v).insert k w = t.insert k w :=
  ExtTreeMap.ext_getElem? fun a => by grind

theorem insert_of_getElem? (h : t[k]? = some v) : t.insert k v = t :=
  ExtTreeMap.ext_getElem? fun a => by grind

theorem insertIfNew_of_mem (h : k ∈ t) : t.insertIfNew k v = t :=
  ExtTreeMap.ext_getElem? fun a => by grind

end Lookup

/-! ## §5. Maps filled entry by entry. -/

/-- `emplace` for each entry: the first one of a key stays. -/
def emplaceAll (entries : List (K × V)) : ExtTreeMap K V cmp :=
  entries.foldl (fun m e => m.insertIfNew e.1 e.2) ∅

theorem getElem?_emplaceAll {entries : List (K × V)} (hkeys : (entries.map Prod.fst).Nodup)
    (k : K) (v : V) :
    (emplaceAll entries : ExtTreeMap K V cmp)[k]? = some v ↔ (k, v) ∈ entries := by
  classical
  induction entries using reverseRecOn generalizing k v with
  | nil => simp [emplaceAll]
  | append_singleton entries e ih =>
    rw [map_append, nodup_append] at hkeys
    obtain ⟨hkeys, -, hnew⟩ := hkeys
    have hfresh : e.1 ∉ (emplaceAll entries : ExtTreeMap K V cmp) := by
      intro hmem
      obtain ⟨w, hw⟩ := mem_iff_exists.mp hmem
      exact hnew e.1 (mem_map.mpr ⟨_, (ih hkeys e.1 w).mp hw, rfl⟩) e.1 (by simp) rfl
    unfold emplaceAll
    rw [foldl_append]
    show ((emplaceAll entries : ExtTreeMap K V cmp).insertIfNew e.1 e.2)[k]? = _ ↔ _
    rw [getElem?_insertIfNew, mem_append, mem_singleton, ← ih hkeys, Prod.ext_iff]
    by_cases hk : k = e.1
    · rw [if_pos ⟨hk, hfresh⟩, hk, ExtTreeMap.getElem?_eq_none hfresh]
      simp [eq_comm]
    · rw [if_neg fun h => hk h.1]
      simp [hk]

omit [LawfulEqCmp cmp] in
theorem nodup_map_fst_toList (t : ExtTreeMap K V cmp) : (t.toList.map Prod.fst).Nodup := by
  rw [ExtTreeMap.map_fst_toList_eq_keys]
  exact ExtTreeMap.nodup_keys

theorem emplaceAll_toList (t : ExtTreeMap K V cmp) : emplaceAll t.toList = t := by
  refine ExtTreeMap.ext_getElem? fun k => Option.ext fun v => ?_
  rw [getElem?_emplaceAll (nodup_map_fst_toList t), ExtTreeMap.mem_toList_iff_getElem?_eq_some]

end Zcoin.Lib.OrderedMap
