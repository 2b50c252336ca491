/-
  Zcoin.Lib.Assoc — association lists, and caches of answers by key.

  A map as the list of its entries in the order of their keys.  `find` and `upsert` both stop
  behind the place of the key, so that the laws between them hold of every list, in order or
  not.  Then sums over the entries of an `AList`, taken apart at one key.

  A query that finds no answer in a cache reads the data in one step and enters what it read in
  a later one; two properties are carried through such steps, one of the cached answers and one
  of those on their way.
-/
import Mathlib

namespace Zcoin.Lib.Assoc

open List

variable {K V : Type} [LinearOrder K]

/-- The value under a key. -/
def find (k : K) : List (K × V) → Option V
  | [] => none
  | (k', v') :: l => if k < k' then none else if k = k' then some v' else find k l

/-- Sets the value under a key. -/
def upsert (k : K) (v : V) : List (K × V) → List (K × V)
  | [] => [(k, v)]
  | (k', v') :: l =>
    if k < k' then (k, v) :: (k', v') :: l
    else if k = k' then (k, v) :: l
    else (k', v') :: upsert k v l

theorem mem_of_find {k : K} {v : V} {l : List (K × V)} (h : find k l = some v) : (k, v) ∈ l := by
  induction l with
  | nil => cases h
  | cons e l ih =>
    obtain ⟨k', v'⟩ := e
    unfold find at h
    split at h
    · cases h
    · split at h
      · next heq =>
        cases h
        rw [heq]
        exact mem_cons_self
      · exact mem_cons_of_mem _ (ih h)

theorem mem_upsert {k : K} {v : V} {l : List (K × V)} {e : K × V} (h : e ∈ upsert k v l) :
    e = (k, v) ∨ e ∈ l := by
  induction l with
  | nil => exact .inl (mem_singleton.mp h)
  | cons e' l ih =>
    obtain ⟨k', v'⟩ := e'
    unfold upsert at h
    split at h
    · rcases mem_cons.mp h with h | h
      · exact .inl h
      · exact .inr h
    · split at h
      · rcases mem_cons.mp h with h | h
        · exact .inl h
        · exact .inr (mem_cons_of_mem _ h)
      · rcases mem_cons.mp h with h | h
        · exact .inr (h ▸ mem_cons_self)
        · rcases ih h with h | h
          · exact .inl h
          · exact .inr (mem_cons_of_mem _ h)

section Rules

variable {P : K → V → Prop} {k : K} {v d : V} {l : List (K × V)}

theorem forall_getD (h : ∀ e ∈ l, P e.1 e.2) (hd : P k d) : P k ((find k l).getD d) := by
  cases hfind : find k l with
  | none => exact hd
  | some v => exact h (k, v) (mem_of_find hfind)

theorem forall_upsert (h : ∀ e ∈ l, P e.1 e.2) (hv : P k v) : ∀ e ∈ upsert k v l, P e.1 e.2 := by
  intro e he
  rcases mem_upsert he with rfl | he
  · exact hv
  · exact h e he

theorem mem_flatMap_of_getD {B : Type} {b : B} (f : V → List B) (hd : f d = [])
    (h : b ∈ f ((find k l).getD d)) : b ∈ l.flatMap fun e => f e.2 := by
  cases hfind : find k l with
  | none =>
    rw [hfind, Option.getD_none, hd] at h
    cases h
  | some v =>
    rw [hfind] at h
    exact mem_flatMap.mpr ⟨(k, v), mem_of_find hfind, h⟩

end Rules

/-- **A sum over the entries** changes by the entry that was set, less the one it replaced. -/
theorem sum_upsert (w : K × V → Int) (k : K) (v : V) (l : List (K × V)) :
    ((upsert k v l).map w).sum + ((find k l).map fun v' => w (k, v')).getD 0 =
      (l.map w).sum + w (k, v) := by
  induction l with
  | nil =>
    show w (k, v) + 0 + 0 = 0 + w (k, v)
    omega
  | cons e l ih =>
    obtain ⟨k', v'⟩ := e
    unfold upsert find
    split
    · show w (k, v) + (w (k', v') + (l.map w).sum) + 0 = w (k', v') + (l.map w).sum + w (k, v)
      omega
    · split
      · next heq =>
        subst heq
        show w (k, v) + (l.map w).sum + w (k, v') = w (k, v') + (l.map w).sum + w (k, v)
        omega
      · show w (k', v') + ((upsert k v l).map w).sum + _ = w (k', v') + (l.map w).sum + w (k, v)
        omega

end Zcoin.Lib.Assoc

namespace Zcoin.Lib.AListSum

open List

variable {K V : Type} [DecidableEq K] {w : K → V → Int} {s : AList fun _ : K => V} {k : K} {v : V}

/-- The sum of a weight over the entries. -/
def sumBy (w : K → V → Int) (s : AList fun _ : K => V) : Int :=
  (s.entries.map fun e => w e.1 e.2).sum

theorem erase_insert (s : AList fun _ : K => V) (k : K) (v : V) :
    (s.insert k v).erase k = s.erase k :=
  AList.ext (kerase_cons_eq rfl)

theorem erase_of_lookup_eq_none (h : s.lookup k = none) : s.erase k = s :=
  AList.ext (kerase_of_notMem_keys (AList.lookup_eq_none.mp h))

theorem sumBy_insert (w : K → V → Int) (s : AList fun _ : K => V) (k : K) (v : V) :
    sumBy w (s.insert k v) = w k v + sumBy w (s.erase k) := rfl

/-- **A sum is taken apart** at a key of the map. -/
theorem sumBy_eq_of_lookup (w : K → V → Int) (h : s.lookup k = some v) :
    sumBy w s = w k v + sumBy w (s.erase k) := by
  have hmem : (⟨k, v⟩ : Sigma fun _ : K => V) ∈ s.entries := AList.mem_lookup_iff.mp h
  obtain ⟨v', before, behind, -, hentries, herase⟩ :=
    exists_of_kerase (mem_keys_of_mem hmem)
  -- the entry that is taken out is the one of the key
  have hv : v' = v := by
    have hmem' : (⟨k, v'⟩ : Sigma fun _ : K => V) ∈ s.entries := by
      rw [hentries]
      exact mem_append_right _ mem_cons_self
    have hlookup : s.lookup k = some v' := AList.mem_lookup_iff.mpr hmem'
    exact Option.some.inj (hlookup.symm.trans h)
  have herase' : (s.erase k).entries = before ++ behind := herase
  unfold sumBy
  rw [hentries, herase', hv]
  simp only [map_append, map_cons, sum_append, sum_cons]
  omega

theorem sumBy_nonneg (h : ∀ k v, s.lookup k = some v → 0 ≤ w k v) : 0 ≤ sumBy w s := by
  apply sum_nonneg
  intro n hn
  obtain ⟨⟨k, v⟩, hmem, rfl⟩ := mem_map.mp hn
  exact h k v (AList.mem_lookup_iff.mpr hmem)

theorem lookup_of_lookup_erase {j : K} (h : (s.erase k).lookup j = some v) :
    s.lookup j = some v := by
  by_cases hj : j = k
  · rw [hj, AList.lookup_erase] at h
    cases h
  · rw [AList.lookup_erase_ne hj] at h
    exact h

theorem lookup_insert_cases {j : K} {u : V} (h : (s.insert k v).lookup j = some u) :
    (j = k ∧ u = v) ∨ s.lookup j = some u := by
  by_cases hj : j = k
  · subst hj
    rw [AList.lookup_insert] at h
    exact .inl ⟨rfl, (Option.some.inj h).symm⟩
  · rw [AList.lookup_insert_ne hj] at h
    exact .inr h

end Zcoin.Lib.AListSum

namespace Zcoin.Lib

open Function List

/-- The cached answers, and those that were read and are not entered yet. -/
structure QueryCache (K : Type) where
  cached : K → Option Bool := fun _ => none
  answers : List (K × Bool) := []

namespace QueryCache

variable {K : Type} [DecidableEq K] (c : QueryCache K)

/-- A query has read its answer. -/
def read (key : K) (answer : Bool) : QueryCache K :=
  { c with answers := (key, answer) :: c.answers }

/-- A query enters its answer; one that is there stays. -/
def enter (key : K) (answer : Bool) : QueryCache K :=
  if (key, answer) ∈ c.answers then
    { cached := Function.update c.cached key (some ((c.cached key).getD answer))
      answers := c.answers.erase (key, answer) }
  else c

/-- The answers for some keys are set or taken out. -/
def set (keys : List K) (answer : Option Bool) : QueryCache K :=
  { c with cached := fun key => if key ∈ keys then answer else c.cached key }

/-- **`P` of every cached answer, `Q` of every answer on its way.** -/
structure Holds (P Q : K → Bool → Prop) : Prop where
  cached : ∀ key answer, c.cached key = some answer → P key answer
  answers : ∀ entry ∈ c.answers, Q entry.1 entry.2

variable {c} {P Q P' Q' : K → Bool → Prop} {key : K} {answer : Bool}

omit [DecidableEq K] in
theorem Holds.mono (h : c.Holds P Q)
    (hP : ∀ key answer, c.cached key = some answer → P key answer → P' key answer)
    (hQ : ∀ entry ∈ c.answers, Q entry.1 entry.2 → Q' entry.1 entry.2) : c.Holds P' Q' :=
  ⟨fun key answer hcached => hP key answer hcached (h.cached key answer hcached),
    fun entry hentry => hQ entry hentry (h.answers entry hentry)⟩

omit [DecidableEq K] in
theorem Holds.read (h : c.Holds P Q) (hQ : Q key answer) : (c.read key answer).Holds P Q :=
  ⟨h.cached, forall_mem_cons.mpr ⟨hQ, h.answers⟩⟩

theorem Holds.enter (h : c.Holds P Q) (hPQ : ∀ key answer, Q key answer → P key answer) :
    (c.enter key answer).Holds P Q := by
  unfold QueryCache.enter
  split
  · next hmem =>
    refine ⟨?_, fun entry hentry => h.answers entry (mem_of_mem_erase hentry)⟩
    intro key' answer' hcached
    replace hcached := (update_apply _ _ _ _).symm.trans hcached
    split at hcached
    · next heq =>
      subst heq
      cases hold : c.cached key' with
      | none =>
        rw [hold] at hcached
        cases hcached
        exact hPQ _ _ (h.answers _ hmem)
      | some old =>
        rw [hold] at hcached
        cases hcached
        exact h.cached key' old hold
    · exact h.cached key' answer' hcached
  · exact h

theorem Holds.set (h : c.Holds P Q) {keys : List K} {v : Option Bool}
    (hv : ∀ key ∈ keys, ∀ answer, v = some answer → P' key answer)
    (hP : ∀ key answer, key ∉ keys → P key answer → P' key answer) : (c.set keys v).Holds P' Q := by
  refine ⟨?_, h.answers⟩
  intro key answer hcached
  replace hcached : (if key ∈ keys then v else c.cached key) = some answer := hcached
  split at hcached
  · next hmem => exact hv key hmem answer hcached
  · next hnot => exact hP key answer hnot (h.cached key answer hcached)

end QueryCache

end Zcoin.Lib
