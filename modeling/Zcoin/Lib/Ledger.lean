/-
  Zcoin.Lib.Ledger — finitely many accounts that hold amounts of several kinds.

  A ledger carries the list of its accounts, each once, and holds nothing outside of it; so
  the total of a kind is a sum over a list, and adding to one account changes it by the amount
  added.
-/
import Mathlib

namespace Zcoin.Lib

open List

/-- **A ledger**: what every account holds of every kind. -/
structure Ledger (A K : Type) where
  accounts : List A
  nodup : accounts.Nodup
  amount : A → K → Int
  outside : ∀ a, a ∉ accounts → ∀ k, amount a k = 0

namespace Ledger

variable {A K : Type}

/-- A ledger without accounts. -/
def empty : Ledger A K where
  accounts := []
  nodup := List.nodup_nil
  amount := fun _ _ => 0
  outside := fun _ _ _ => rfl

@[simp] theorem amount_empty (a : A) (k : K) : (empty : Ledger A K).amount a k = 0 := rfl

/-! ## §1. Totals. -/

/-- What all accounts hold of a kind. -/
def total (l : Ledger A K) (k : K) : Int := (l.accounts.map fun a => l.amount a k).sum

/-- What an account holds of several kinds. -/
def held (l : Ledger A K) (kinds : List K) (a : A) : Int := (kinds.map (l.amount a)).sum

theorem sum_held (l : Ledger A K) (kinds : List K) :
    (l.accounts.map (l.held kinds)).sum = (kinds.map l.total).sum := by
  induction kinds with
  | nil =>
    show (l.accounts.map fun _ => (0 : Int)).sum = 0
    rw [map_const', sum_replicate, smul_zero]
  | cons k kinds ih =>
    have hsplit : l.accounts.map (l.held (k :: kinds)) =
        l.accounts.map fun a => l.amount a k + l.held kinds a := rfl
    rw [hsplit, sum_map_add, ih, map_cons, sum_cons]
    rfl

theorem total_nonneg (l : Ledger A K) {k : K} (hnonneg : ∀ a, 0 ≤ l.amount a k) :
    0 ≤ l.total k :=
  sum_nonneg (forall_mem_map.mpr fun a _ => hnonneg a)

theorem amount_le_total (l : Ledger A K) {k : K} (hnonneg : ∀ a, 0 ≤ l.amount a k) (a : A) :
    l.amount a k ≤ l.total k := by
  by_cases ha : a ∈ l.accounts
  · apply single_le_sum
    · exact forall_mem_map.mpr fun b _ => hnonneg b
    · exact mem_map_of_mem ha
  · rw [l.outside a ha k]
    exact l.total_nonneg hnonneg

/-! ## §2. Opening an account. -/

variable [DecidableEq A]

/-- Opens an account that holds nothing, if there is none. -/
def touch (l : Ledger A K) (a : A) : Ledger A K where
  accounts := if a ∈ l.accounts then l.accounts else l.accounts ++ [a]
  nodup := by
    split
    · exact l.nodup
    · next ha =>
      rw [List.nodup_append]
      refine ⟨l.nodup, List.nodup_singleton a, ?_⟩
      intro b hb c hc hbc
      rw [List.mem_singleton] at hc
      exact ha (hc ▸ hbc ▸ hb)
  amount := l.amount
  outside := by
    intro b hb k
    apply l.outside
    intro hmem
    apply hb
    split
    · exact hmem
    · exact List.mem_append_left _ hmem

@[simp] theorem amount_touch (l : Ledger A K) (a b : A) (k : K) :
    (l.touch a).amount b k = l.amount b k := rfl

@[simp] theorem total_touch (l : Ledger A K) (a : A) (k : K) : (l.touch a).total k = l.total k := by
  show ((if a ∈ l.accounts then l.accounts else l.accounts ++ [a]).map _).sum = _
  split
  · rfl
  · next ha =>
    rw [map_append, sum_append]
    show _ + (l.amount a k + 0) = l.total k
    rw [l.outside a ha k]
    exact add_zero _

theorem mem_accounts_touch (l : Ledger A K) (a : A) : a ∈ (l.touch a).accounts := by
  show a ∈ (if a ∈ l.accounts then l.accounts else l.accounts ++ [a])
  split
  · next ha => exact ha
  · exact mem_append_right _ (mem_singleton_self a)

theorem sum_map_add_at (f : A → Int) (a : A) (d : Int) {as : List A} (hnodup : as.Nodup)
    (ha : a ∈ as) : (as.map fun b => f b + if b = a then d else 0).sum = (as.map f).sum + d := by
  rw [sum_map_add, sum_map_eq_nsmul_single a _ fun b hb _ => if_neg hb, if_pos rfl,
    count_eq_one_of_mem hnodup ha, one_smul]

/-! ## §3. Adding to an account. -/

variable [DecidableEq K]

/-- Adds to what an account holds of a kind. -/
def add (l : Ledger A K) (a : A) (k : K) (d : Int) : Ledger A K where
  accounts := (l.touch a).accounts
  nodup := (l.touch a).nodup
  amount := fun b j => if b = a ∧ j = k then l.amount b j + d else l.amount b j
  outside := by
    intro b hb j
    have hne : ¬ (b = a ∧ j = k) := by
      intro h
      apply hb
      rw [h.1]
      exact mem_accounts_touch l a
    rw [if_neg hne]
    exact (l.touch a).outside b hb j

theorem touch_add (l : Ledger A K) (a : A) (k : K) (d : Int) :
    (l.touch a).add a k d = l.add a k d := by
  have haccounts : ((l.touch a).touch a).accounts = (l.touch a).accounts :=
    if_pos (mem_accounts_touch l a)
  unfold add
  simp only [haccounts, amount_touch]

theorem amount_add (l : Ledger A K) (a b : A) (k j : K) (d : Int) :
    (l.add a k d).amount b j = l.amount b j + if b = a ∧ j = k then d else 0 := by
  show (if b = a ∧ j = k then l.amount b j + d else l.amount b j) = _
  split
  · rfl
  · exact (add_zero _).symm

/-- **Adding changes the total of the kind** and no other. -/
theorem total_add (l : Ledger A K) (a : A) (k j : K) (d : Int) :
    (l.add a k d).total j = l.total j + if j = k then d else 0 := by
  have hsum : (l.add a k d).total j =
      ((l.touch a).accounts.map fun b => l.amount b j + if b = a ∧ j = k then d else 0).sum := by
    show ((l.touch a).accounts.map fun b => (l.add a k d).amount b j).sum = _
    simp only [amount_add]
  rw [hsum, ← total_touch l a j]
  by_cases hj : j = k
  · subst hj
    simp only [and_true]
    exact sum_map_add_at (fun b => l.amount b j) a d (l.touch a).nodup (mem_accounts_touch l a)
  · simp only [hj, and_false, if_false, add_zero]
    rfl

end Ledger

end Zcoin.Lib
