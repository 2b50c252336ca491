/-
  Zcoin.Lib.Sorting — lists by rank, and sets of pairs in lexicographic order.

  A loop that keeps the best element seen so far ends with the least one.  In a list
  sorted by rank the element at each place is the least of those from there on.  The walk over
  a set is an insertion sort of any enumeration of it, so that it can be evaluated.
-/
import Mathlib

namespace Zcoin.Lib.Ranking

open List

variable {α R : Type} [LinearOrder R] (rank : α → R)

/-- The better of the best so far and the next element. -/
def better (best : Option α) (a : α) : Option α :=
  match best with
  | none => some a
  | some b => if rank a < rank b then some a else some b

variable {rank}

/-- The loop ends with an element that is ahead of all others. -/
theorem foldl_better_eq {l : List α} {a : α} (ha : a ∈ l)
    (hmin : ∀ b ∈ l, b ≠ a → rank a < rank b) : l.foldl (better rank) none = some a := by
  classical
  have hargmin : l.foldl (better rank) none = l.argmin rank := by
    unfold argmin
    congr 1
    funext best b
    cases best <;> rfl
  rw [hargmin, argmin_eq_some_iff]
  refine ⟨ha, fun b hb => ?_, fun b hb hle => ?_⟩
  · by_cases hba : b = a
    · rw [hba]
    · exact (hmin b hb hba).le
  · by_cases hba : b = a
    · rw [hba]
    · exact absurd hle (hmin b hb hba).not_ge

theorem pairwise_mergeSort_lt {l : List α} (hnodup : l.Nodup)
    (hrank : ∀ a ∈ l, ∀ b ∈ l, rank a = rank b → a = b) :
    (l.mergeSort fun a b => decide (rank a ≤ rank b)).Pairwise fun a b => rank a < rank b := by
  have hle : (l.mergeSort fun a b => decide (rank a ≤ rank b)).Pairwise fun a b =>
      decide (rank a ≤ rank b) = true := by
    refine pairwise_mergeSort ?_ ?_ _
    · intro a b c hab hbc
      simp only [decide_eq_true_eq] at hab hbc ⊢
      exact le_trans hab hbc
    · intro a b
      simp only [Bool.or_eq_true, decide_eq_true_eq]
      exact le_total _ _
  have hnodup' : (l.mergeSort fun a b => decide (rank a ≤ rank b)).Nodup :=
    (mergeSort_perm _ _).nodup_iff.mpr hnodup
  refine (hle.and hnodup').imp_of_mem ?_
  intro a b ha hb hab
  refine lt_of_le_of_ne (of_decide_eq_true hab.1) fun heq => hab.2 ?_
  exact hrank a (mem_mergeSort.mp ha) b (mem_mergeSort.mp hb) heq

end Zcoin.Lib.Ranking

namespace Zcoin.Lib

variable {α β : Type} [LinearOrder α] [LinearOrder β]

/-- The lexicographic order of pairs. -/
def pairLe (x y : α × β) : Prop := x.1 < y.1 ∨ x.1 = y.1 ∧ x.2 ≤ y.2

instance : DecidableRel (pairLe (α := α) (β := β)) := fun x y =>
  inferInstanceAs (Decidable (x.1 < y.1 ∨ x.1 = y.1 ∧ x.2 ≤ y.2))

theorem pairLe_iff {x y : α × β} : pairLe x y ↔ toLex x ≤ toLex y := Prod.Lex.le_iff.symm

instance : Std.Total (pairLe (α := α) (β := β)) where
  total := by
    intro x y
    rw [pairLe_iff, pairLe_iff]
    exact le_total _ _

instance : IsTrans (α × β) pairLe where
  trans := by
    intro x y z
    rw [pairLe_iff, pairLe_iff, pairLe_iff]
    exact le_trans

instance : Std.Antisymm (pairLe (α := α) (β := β)) where
  antisymm := by
    intro x y
    rw [pairLe_iff, pairLe_iff]
    intro hxy hyx
    exact toLex.injective (le_antisymm hxy hyx)

/-- A set of pairs as a list in order. -/
def inOrder (s : Finset (α × β)) : List (α × β) :=
  Quotient.liftOn s.val (fun l => l.insertionSort pairLe) (by
    intro l₁ l₂ hperm
    have hsorted := List.perm_insertionSort pairLe l₁
    exact ((hsorted.trans hperm).trans (List.perm_insertionSort pairLe l₂).symm).eq_of_pairwise'
      (List.pairwise_insertionSort pairLe l₁) (List.pairwise_insertionSort pairLe l₂))

theorem coe_inOrder (s : Finset (α × β)) : (inOrder s : Multiset (α × β)) = s.val := by
  obtain ⟨m, hm⟩ := s
  induction m using Quotient.inductionOn with
  | h l => exact Quotient.sound (List.perm_insertionSort pairLe l)

theorem mem_inOrder {s : Finset (α × β)} {x : α × β} : x ∈ inOrder s ↔ x ∈ s := by
  rw [← Finset.mem_val, ← coe_inOrder s, Multiset.mem_coe]

theorem nodup_inOrder (s : Finset (α × β)) : (inOrder s).Nodup := by
  rw [← Multiset.coe_nodup, coe_inOrder s]
  exact s.nodup

theorem pairwise_inOrder (s : Finset (α × β)) : (inOrder s).Pairwise pairLe := by
  obtain ⟨m, hm⟩ := s
  induction m using Quotient.inductionOn with
  | h l => exact List.pairwise_insertionSort pairLe l

end Zcoin.Lib
