/-
  Zcoin.Lib.Loop — loops that need not end.

  A loop is given by its round: from a state, the next state or the value it returns.  A round
  may hold a loop of its own and not end either.
-/
import Mathlib

namespace Zcoin.Lib

/-- A loop over states `σ` that returns a value of `α`. -/
structure Loop (σ α : Type) where
  round : σ → Option (σ ⊕ α)

namespace Loop

variable {σ α : Type}

/-- What the loop returns from a state; `none`: it does not end. -/
def run (l : Loop σ α) (s : σ) : Option α := do
  match ← l.round s with
  | .inl next => l |>.run next
  | .inr a => some a
partial_fixpoint

variable {l : Loop σ α} {s : σ} {a : α}

theorem run_eq (l : Loop σ α) (s : σ) : l.run s = (l.round s).bind (Sum.elim l.run some) := by
  rw [run]
  refine Option.bind_congr fun r _ => ?_
  cases r <;> rfl

/-- **Rule for what a loop returns**: it holds on the way out, and each round carries it back. -/
theorem run_spec (post : σ → α → Prop)
    (hround : ∀ s r, l.round s = some r → Sum.elim (fun next => ∀ a, post next a → post s a)
      (post s) r) (h : l.run s = some a) : post s a := by
  refine run.partial_correctness l post ?_ s a h
  intro loop ih s a h
  obtain ⟨r, hr, h⟩ := Option.bind_eq_some_iff.mp h
  cases r with
  | inl next => exact hround s _ hr a (ih next a h)
  | inr b =>
    cases h
    exact hround s _ hr

/-- **Rule for a loop that does not end**: it stays among states that all have a next one. -/
theorem run_eq_none (stays : σ → Prop)
    (hstays : ∀ s, stays s → ∃ next, l.round s = some (.inl next) ∧ stays next) (hs : stays s) :
    l.run s = none := by
  refine Option.eq_none_iff_forall_ne_some.mpr fun a h => ?_
  refine run_spec (fun s _ => ¬ stays s) (fun s r hr => ?_) h hs
  cases r with
  | inl next =>
    intro _ hnext hs
    obtain ⟨next', hr', hs'⟩ := hstays s hs
    rw [hr] at hr'
    cases hr'
    exact hnext hs'
  | inr a =>
    intro hs
    obtain ⟨next, hr', -⟩ := hstays s hs
    rw [hr] at hr'
    cases hr'

end Loop

end Zcoin.Lib
