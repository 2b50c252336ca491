/-
  Zcoin.Lib.OwnerIndex — an index from keys to their owner with a reference count.

  Adding a key fails when somebody else owns it, deleting one fails unless the owner
  deletes it.  As long as every count is one, a batch of such operations has a closed
  form: which keys it sets, which it clears, and that the rest stays.
-/
import Mathlib

namespace Zcoin.Lib

open Function List

variable {η ι : Type} [DecidableEq η] [DecidableEq ι]

/-- Owner and reference count of each key. -/
abbrev OwnerIndex (η ι : Type) := η → Option (ι × Nat)

namespace OwnerIndex

/-! ## §1. The operations. -/

/-- One more reference of `i` to the key; `none` when another owner has it. -/
def add (i : ι) (m : OwnerIndex η ι) (x : η) : Option (OwnerIndex η ι) :=
  match m x with
  | none => some (Function.update m x (some (i, 1)))
  | some (j, n) => if j = i then some (Function.update m x (some (i, n + 1))) else none

/-- One reference of `i` less; `none` unless `i` owns the key. -/
def delete (i : ι) (m : OwnerIndex η ι) (x : η) : Option (OwnerIndex η ι) :=
  match m x with
  | none => none
  | some (j, n) =>
    if j = i then
      some (Function.update m x (if n = 1 then none else some (i, n - 1)))
    else none

/-- From one key to another; `none` stands for no key. -/
def replace (i : ι) (m : OwnerIndex η ι) (change : Option η × Option η) :
    Option (OwnerIndex η ι) :=
  if change.1 = change.2 then some m
  else
    (match change.1 with | none => some m | some x => delete i m x).bind fun m =>
      match change.2 with | none => some m | some x => add i m x

variable {i : ι} {m : OwnerIndex η ι} {x : η}

theorem add_of_none (h : m x = none) : add i m x = some (update m x (some (i, 1))) := by
  unfold add
  rw [h]

theorem add_eq_none {j : ι} {n : Nat} (h : m x = some (j, n)) (hj : j ≠ i) : add i m x = none := by
  unfold add
  rw [h]
  exact if_neg hj

theorem delete_of_one (h : m x = some (i, 1)) : delete i m x = some (update m x none) := by
  unfold delete
  rw [h]
  simp

variable {m' : OwnerIndex η ι}

theorem add_frame {a : η} (h : add i m a = some m') (hxa : x ≠ a) : m' x = m x := by
  unfold add at h
  split at h
  · cases h
    exact update_of_ne hxa ..
  · split at h
    · cases h
      exact update_of_ne hxa ..
    · cases h

theorem delete_frame {a : η} (h : delete i m a = some m') (hxa : x ≠ a) : m' x = m x := by
  unfold delete at h
  split at h
  · cases h
  · split at h
    · cases h
      exact update_of_ne hxa ..
    · cases h

/-! ## §2. Batches of additions and deletions. -/

variable {l : List η}

omit [DecidableEq ι] in
/-- Steps that write `v` over `w`, at different places. -/
theorem foldlM_update {f : OwnerIndex η ι → η → Option (OwnerIndex η ι)} {w v : Option (ι × Nat)}
    (hf : ∀ m x, m x = w → f m x = some (update m x v)) (hnodup : l.Nodup)
    (hall : ∀ x ∈ l, m x = w) : l.foldlM f m = some fun x => if x ∈ l then v else m x := by
  induction l generalizing m with
  | nil => simp
  | cons a l ih =>
    obtain ⟨hal, hnodup⟩ := nodup_cons.mp hnodup
    have hrest : ∀ x ∈ l, update m a v x = w := by
      intro x hx
      have hne : x ≠ a := fun h => hal (h ▸ hx)
      rw [update_of_ne hne]
      exact hall x (mem_cons_of_mem a hx)
    rw [foldlM_cons, hf m a (hall a mem_cons_self)]
    show l.foldlM f (update m a v) = _
    rw [ih hnodup hrest]
    congr 1
    funext x
    by_cases hxa : x = a
    · subst hxa
      simp
    · simp [hxa]

/-- Keys that are free and pairwise different all go to `i`. -/
theorem addAll_eq (hnodup : l.Nodup) (hfree : ∀ x ∈ l, m x = none) :
    l.foldlM (add i) m = some fun x => if x ∈ l then some (i, 1) else m x :=
  foldlM_update (fun _ _ => add_of_none) hnodup hfree

theorem addAll_eq_none {j : ι} {n : Nat} (hx : x ∈ l)
    (hm : m x = some (j, n)) (hj : j ≠ i) : l.foldlM (add i) m = none := by
  induction l generalizing m with
  | nil => cases hx
  | cons a l ih =>
    rw [foldlM_cons]
    by_cases hxa : x = a
    · subst hxa
      rw [add_eq_none hm hj]
      rfl
    · cases hadd : add i m a with
      | none => rfl
      | some m' =>
        have hm' : m' x = some (j, n) := (add_frame hadd hxa).trans hm
        exact ih ((mem_cons.mp hx).resolve_left hxa) hm'

/-- Keys that `i` owns once and that are pairwise different are all cleared. -/
theorem deleteAll_eq (hnodup : l.Nodup) (hown : ∀ x ∈ l, m x = some (i, 1)) :
    l.foldlM (delete i) m = some fun x => if x ∈ l then none else m x :=
  foldlM_update (fun _ _ => delete_of_one) hnodup hown

/-! ## §3. Batches of replacements. -/

/-- The keys a replacement names. -/
def Touches (change : Option η × Option η) (x : η) : Prop := change.1 = some x ∨ change.2 = some x

variable {change : Option η × Option η}

theorem replace_eq (hold : ∀ x, change.1 = some x → m x = some (i, 1))
    (hnew : change.1 ≠ change.2 → ∀ x, change.2 = some x → m x = none) :
    replace i m change = some fun x =>
      if change.2 = some x then some (i, 1) else if change.1 = some x then none else m x := by
  obtain ⟨old, new⟩ := change
  unfold replace
  by_cases heq : old = new
  · subst heq
    rw [if_pos rfl]
    congr 1
    funext x
    by_cases hx : old = some x
    · rw [if_pos hx, hold x hx]
    · rw [if_neg hx, if_neg hx]
  · rw [if_neg heq]
    have hfree : ∀ x, new = some x → m x = none := hnew heq
    cases old with
    | none =>
      cases new with
      | none => exact absurd rfl heq
      | some b =>
        show add i m b = _
        rw [add_of_none (hfree b rfl)]
        congr 1
        funext x
        simp [update_apply, eq_comm (a := x)]
    | some a =>
      show (delete i m a).bind _ = _
      rw [delete_of_one (hold a rfl)]
      cases new with
      | none =>
        show some (update m a none) = _
        congr 1
        funext x
        simp [update_apply, eq_comm (a := x)]
      | some b =>
        have hba : b ≠ a := fun h => heq (by rw [h])
        show add i (update m a none) b = _
        rw [add_of_none (by rw [update_of_ne hba]; exact hfree b rfl)]
        congr 1
        funext x
        simp [update_apply, eq_comm (a := x)]

theorem replace_frame
    (h : replace i m change = some m') (hx : ¬ Touches change x) : m' x = m x := by
  obtain ⟨old, new⟩ := change
  have hxold : ∀ a, old = some a → x ≠ a := fun a ha hxa => hx (.inl (by rw [hxa]; exact ha))
  have hxnew : ∀ a, new = some a → x ≠ a := fun a ha hxa => hx (.inr (by rw [hxa]; exact ha))
  unfold replace at h
  split at h
  · cases h
    rfl
  · obtain ⟨mid, hmid, hend⟩ := Option.bind_eq_some_iff.mp h
    have hfirst : mid x = m x := by
      cases old with
      | none =>
        cases hmid
        rfl
      | some a => exact delete_frame hmid (hxold a rfl)
    have hsecond : m' x = mid x := by
      cases new with
      | none =>
        cases hend
        rfl
      | some a => exact add_frame hend (hxnew a rfl)
    rw [hsecond, hfirst]

variable {changes : List (Option η × Option η)}

/-- Replacements of different keys: the new ones go to `i`, the old ones that are not
kept are cleared. -/
theorem replaceAll_eq (hpairwise : changes.Pairwise fun p q => ∀ x, Touches p x → ¬ Touches q x)
    (hold : ∀ p ∈ changes, ∀ x, p.1 = some x → m x = some (i, 1))
    (hnew : ∀ p ∈ changes, p.1 ≠ p.2 → ∀ x, p.2 = some x → m x = none) :
    changes.foldlM (replace i) m = some fun x =>
      if some x ∈ changes.map Prod.snd then some (i, 1)
      else if some x ∈ changes.map Prod.fst then none else m x := by
  induction changes generalizing m with
  | nil => simp
  | cons p changes ih =>
    obtain ⟨hp, hpairwise⟩ := pairwise_cons.mp hpairwise
    have hstep := replace_eq (hold p mem_cons_self) (hnew p mem_cons_self)
    -- the keys of the other replacements are not touched by the first
    have hframe : ∀ q ∈ changes, ∀ x, Touches q x →
        (if p.2 = some x then some (i, 1) else if p.1 = some x then none else m x) = m x := by
      intro q hq x hqx
      rw [if_neg fun h => hp q hq x (.inr h) hqx, if_neg fun h => hp q hq x (.inl h) hqx]
    rw [foldlM_cons, hstep]
    show changes.foldlM (replace i) _ = _
    rw [ih hpairwise]
    · congr 1
      funext x
      simp only [map_cons, mem_cons]
      by_cases hsnd : some x ∈ changes.map Prod.snd
      · simp [hsnd]
      · by_cases hfst : some x ∈ changes.map Prod.fst
        · obtain ⟨q, hq, hqx⟩ := mem_map.mp hfst
          have hnp : ¬ some x = p.2 := fun h => hp q hq x (.inr h.symm) (.inl hqx)
          simp [hsnd, hfst, hnp]
        · simp only [hsnd, hfst, if_false, or_false, eq_comm]
    · intro q hq x hqx
      rw [hframe q hq x (.inl hqx)]
      exact hold q (mem_cons_of_mem p hq) x hqx
    · intro q hq hne x hqx
      rw [hframe q hq x (.inr hqx)]
      exact hnew q (mem_cons_of_mem p hq) hne x hqx

theorem replaceAll_eq_none {p : Option η × Option η} {j : ι} {n : Nat}
    (hpairwise : changes.Pairwise fun p q => ∀ x, Touches p x → ¬ Touches q x)
    (hold : ∀ p ∈ changes, ∀ x, p.1 = some x → m x = some (i, 1))
    (hp : p ∈ changes) (hne : p.1 ≠ p.2) (hpx : p.2 = some x) (hm : m x = some (j, n))
    (hj : j ≠ i) : changes.foldlM (replace i) m = none := by
  induction changes generalizing m with
  | nil => cases hp
  | cons q changes ih =>
    obtain ⟨hq, hpairwise⟩ := pairwise_cons.mp hpairwise
    rw [foldlM_cons]
    rcases mem_cons.mp hp with rfl | hp
    · have hfail : replace i m p = none := by
        unfold replace
        rw [if_neg hne, hpx]
        cases hfst : p.1 with
        | none => exact add_eq_none hm hj
        | some a =>
          have ha := hold p mem_cons_self a hfst
          have hxa : x ≠ a := by
            rintro rfl
            rw [ha] at hm
            cases hm
            exact hj rfl
          show (delete i m a).bind _ = none
          rw [delete_of_one ha]
          exact add_eq_none (by rw [update_of_ne hxa]; exact hm) hj
      rw [hfail]
      rfl
    · cases hstep : replace i m q with
      | none => rfl
      | some m' =>
        have hframe : ∀ r ∈ changes, ∀ y, Touches r y → m' y = m y := by
          intro r hr y hry
          exact replace_frame hstep fun hqy => hq r hr y hqy hry
        refine ih hpairwise ?_ hp ?_
        · intro r hr y hry
          rw [hframe r hr y (.inl hry)]
          exact hold r (mem_cons_of_mem q hr) y hry
        · rw [hframe p hp x (.inr hpx)]
          exact hm

end OwnerIndex

/-! ## §4. Indexes of the values of a map. -/

/-- **An index changes for the entry `v`**: afterwards `v` is listed under the keys in `new`
and under no other, and the rest stays. -/
structure Reassigned {X V : Type} (index index' : X → Option V) (v : V) (new : X → Prop) : Prop where
  free : ∀ x w, new x → index x = some w → w = v
  listed : ∀ x, new x → index' x = some v
  gone : ∀ x, ¬ new x → index x = some v → index' x = none
  kept : ∀ x, ¬ new x → index x ≠ some v → index' x = index x

theorem Reassigned.eq_some_iff {X V : Type} [DecidableEq V] {index index' : X → Option V} {v : V}
    {new : X → Prop} (h : Reassigned index index' v new) (x : X) (w : V) :
    index' x = some w ↔ if w = v then new x else index x = some w := by
  by_cases hnew : new x
  · rw [h.listed x hnew, Option.some.injEq, eq_comm]
    split
    · next heq => simp [heq, hnew]
    · next hne => exact iff_of_false hne fun hw => hne (h.free x w hnew hw)
  · by_cases hv : index x = some v
    · rw [h.gone x hnew hv, hv]
      split
      · simp [hnew]
      · next hne => simp [Ne.symm hne]
    · rw [h.kept x hnew hv]
      split
      · next heq => exact iff_of_false (heq ▸ hv) hnew
      · rfl

end Zcoin.Lib
