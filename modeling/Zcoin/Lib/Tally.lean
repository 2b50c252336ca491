/-
  Zcoin.Lib.Tally — a map whose entries are counted by class.

  A container keeps a map and, next to it, how many of its values fall into each
  class.  `Tally` says that both are those of a list of entries with different keys.
  Since only membership and counts matter, the order of the entries does not.
-/
import Mathlib

namespace Zcoin.Lib

open Function List

variable {K V C : Type} [DecidableEq C]

/-- **The map and the counts of a list of entries.** -/
structure Tally (cls : V → C) (map : K → Option V) (count : C → Nat) (entries : List (K × V)) :
    Prop where
  nodup : (entries.map Prod.fst).Nodup
  map_eq : ∀ k v, map k = some v ↔ (k, v) ∈ entries
  count_eq : ∀ c, count c = entries.countP fun e => cls e.2 = c

namespace Tally

variable {cls : V → C} {map map' : K → Option V} {count count' : C → Nat}
  {entries entries' : List (K × V)} {k : K} {v : V}

theorem empty : Tally cls (fun _ : K => none) (fun _ => 0) [] where
  nodup := nodup_nil
  map_eq := by simp
  count_eq := by simp

variable (h : Tally cls map count entries)
include h

theorem perm (hperm : entries.Perm entries') :
    Tally cls map count entries' where
  nodup := (hperm.map Prod.fst).nodup_iff.mp h.nodup
  map_eq := by
    intro k v
    rw [h.map_eq, hperm.mem_iff]
  count_eq := by
    intro c
    rw [h.count_eq, hperm.countP_eq]

theorem unique (h' : Tally cls map' count' entries) : map = map' ∧ count = count' := by
  refine ⟨?_, ?_⟩
  · funext k
    refine Option.ext fun v => ?_
    rw [h.map_eq, h'.map_eq]
  · funext c
    rw [h.count_eq, h'.count_eq]

theorem eq_none_iff : map k = none ↔ k ∉ entries.map Prod.fst := by
  constructor
  · intro hnone hmem
    obtain ⟨e, he, hk⟩ := mem_map.mp hmem
    have hget := (h.map_eq k e.2).mpr (hk ▸ he)
    rw [hnone] at hget
    cases hget
  · intro hnot
    refine Option.eq_none_iff_forall_ne_some.mpr ?_
    intro v hv
    apply hnot
    exact mem_map.mpr ⟨(k, v), (h.map_eq k v).mp hv, rfl⟩

/-- **One more entry**: an update at a new key and one more in its class. -/
theorem add [DecidableEq K] (hnew : map k = none) (hmap : map' = update map k (some v))
    (hcount : ∀ c, count' c = count c + if c = cls v then 1 else 0) :
    Tally cls map' count' ((k, v) :: entries) where
  nodup := by
    rw [map_cons, nodup_cons]
    exact ⟨h.eq_none_iff.mp hnew, h.nodup⟩
  map_eq := by
    intro k' v'
    rw [hmap, mem_cons, update_apply]
    by_cases hk : k' = k
    · subst hk
      have hout : (k', v') ∉ entries := fun hv => by simp [(h.map_eq k' v').mpr hv] at hnew
      simp [hout, eq_comm]
    · simp [hk, h.map_eq]
  count_eq := by
    intro c
    rw [hcount, h.count_eq, countP_cons]
    simp [eq_comm]

omit h

/-- **One entry less**. -/
theorem remove [DecidableEq K] (h : Tally cls map count ((k, v) :: entries))
    (hmap : map' = update map k none)
    (hcount : ∀ c, count' c = count c - if c = cls v then 1 else 0) :
    Tally cls map' count' entries := by
  have hnodup := h.nodup
  rw [map_cons, nodup_cons] at hnodup
  obtain ⟨hout, hnodup⟩ := hnodup
  refine ⟨hnodup, ?_, ?_⟩
  · intro k' v'
    rw [hmap, update_apply]
    by_cases hk : k' = k
    · subst hk
      rw [if_pos rfl]
      exact iff_of_false nofun fun hv => hout (mem_map.mpr ⟨(k', v'), hv, rfl⟩)
    · simp [hk, h.map_eq]
  · intro c
    rw [hcount, h.count_eq, countP_cons]
    simp [eq_comm]

theorem count_pos (h : Tally cls map count ((k, v) :: entries)) : 0 < count (cls v) := by
  rw [h.count_eq, countP_cons]
  simp

end Tally

/-! ## Entries sorted into classes. -/

variable {α : Type}

/-- **Sorting by class only reorders.** -/
theorem flatMap_filter_perm (cls : α → C) {keys : List C} (hnodup : keys.Nodup) (l : List α)
    (hmem : ∀ a ∈ l, cls a ∈ keys) :
    (keys.flatMap fun k => l.filter fun x => cls x = k).Perm l := by
  classical
  refine perm_iff_count.mpr fun a => ?_
  -- only the class of `a` counts
  have hclass : ∀ k ≠ cls a, k ∈ keys → count a (l.filter fun x => cls x = k) = 0 := by
    intro k hk _
    rw [count_eq_zero, mem_filter]
    exact fun h => hk (of_decide_eq_true h.2).symm
  rw [count_flatMap]
  show (keys.map fun k => count a (l.filter fun x => cls x = k)).sum = _
  rw [sum_map_eq_nsmul_single (cls a) _ hclass, count_filter (by simp)]
  by_cases ha : a ∈ l
  · rw [count_eq_one_of_mem hnodup (hmem a ha), one_smul]
  · rw [count_eq_zero_of_not_mem ha, smul_zero]

end Zcoin.Lib
