/-
  Zcoin.Lib.Except — peeling programs in `Except` apart.

  One inversion rule for `>>=` and one invariant rule for a monadic fold: the
  proofs about the model never unfold the monad.  `Ensures` bounds both ways a
  program can end, with the errors it may end in and what holds of its result.
-/
import Mathlib

namespace Zcoin.Lib.Except

open List

variable {ε α β : Type} {x : Except ε α} {a : α} {f : α → β → Except ε α} {l : List β}

theorem mapError_eq_ok {ε' : Type} {f : ε → ε'} : x.mapError f = .ok a ↔ x = .ok a := by
  cases x <;> simp [Except.mapError]

theorem bind_eq_ok {f : α → Except ε β} {b : β} :
    x >>= f = .ok b ↔ ∃ a, x = .ok a ∧ f a = .ok b := by
  cases x with
  | error e =>
    constructor
    · intro h
      cases h
    · simp
  | ok a =>
    constructor
    · intro h
      exact ⟨a, rfl, h⟩
    · rintro ⟨a', h, hf⟩
      cases h
      exact hf

/-- A sequence none of whose steps ends in `e` does not end in `e`. -/
theorem bind_ne_error {f : α → Except ε β} {e : ε} (hx : x ≠ .error e)
    (hf : ∀ a, x = .ok a → f a ≠ .error e) : x >>= f ≠ .error e := by
  cases x with
  | error e' =>
    intro h
    cases h
    exact hx rfl
  | ok a => exact hf a rfl

@[simp] theorem ok_bind (a : α) (f : α → Except ε β) : (Except.ok a >>= f) = f a := rfl

@[simp] theorem error_bind (e : ε) (f : α → Except ε β) :
    ((Except.error e : Except ε α) >>= f) = .error e := rfl

@[simp] theorem pure_eq_ok (a : α) : (pure a : Except ε α) = .ok a := rfl

theorem foldlM_eq_self (h : ∀ b ∈ l, f a b = .ok a) : l.foldlM f a = .ok a := by
  induction l with
  | nil => rfl
  | cons b l ih =>
    obtain ⟨hb, hl⟩ := forall_mem_cons.mp h
    rw [foldlM_cons, hb]
    exact ih hl

/-- Every step of a successful `mapM` succeeded. -/
theorem mapM_step_ok {f : α → Except ε β} {l : List α} {bs : List β} (hrun : l.mapM f = .ok bs)
    (ha : a ∈ l) : ∃ b ∈ bs, f a = .ok b := by
  induction l generalizing bs with
  | nil => cases ha
  | cons a' l ih =>
    rw [mapM_cons] at hrun
    obtain ⟨b, hb, hrun⟩ := bind_eq_ok.mp hrun
    obtain ⟨bs', hbs, hrun⟩ := bind_eq_ok.mp hrun
    cases hrun
    rcases mem_cons.mp ha with rfl | ha
    · exact ⟨b, mem_cons_self, hb⟩
    · obtain ⟨b', hmem, hb'⟩ := ih hbs ha
      exact ⟨b', mem_cons_of_mem _ hmem, hb'⟩

/-- A `mapM` succeeds when every step does, and what holds of each result holds of all. -/
theorem exists_mapM_ok {f : α → Except ε β} {l : List α} {post : β → Prop}
    (h : ∀ a ∈ l, ∃ b, f a = .ok b ∧ post b) : ∃ bs, l.mapM f = .ok bs ∧ ∀ b ∈ bs, post b := by
  induction l with
  | nil => exact ⟨[], rfl, fun b hb => nomatch hb⟩
  | cons a l ih =>
    obtain ⟨hhead, hl⟩ := forall_mem_cons.mp h
    obtain ⟨b, hb, hpost⟩ := hhead
    obtain ⟨bs, hbs, hall⟩ := ih hl
    refine ⟨b :: bs, ?_, forall_mem_cons.mpr ⟨hpost, hall⟩⟩
    rw [mapM_cons, hb, ok_bind, hbs]
    rfl

theorem foldlM_flatMap {γ : Type} (g : γ → List β) (f : α → β → Except ε α) (l : List γ) (a : α) :
    (l.flatMap g).foldlM f a = l.foldlM (fun a c => (g c).foldlM f a) a := by
  induction l generalizing a with
  | nil => rfl
  | cons c l ih =>
    rw [flatMap_cons, foldlM_append, foldlM_cons]
    congr 1
    funext a'
    exact ih a'

/-- What a closed run returns can be looked at. -/
instance decidableExistsOk (x : Except ε α) (p : α → Prop) [DecidablePred p] :
    Decidable (∃ a, x = .ok a ∧ p a) :=
  match x with
  | .ok a => decidable_of_iff (p a) (by simp)
  | .error _ => isFalse (by simp)

instance (priority := low) decidableEqError [DecidableEq ε] (e : ε) : Decidable (x = .error e) :=
  match x with
  | .ok _ => isFalse nofun
  | .error e' => decidable_of_iff (e' = e) (by simp)

theorem eq_ok_of_toOption (h : x.toOption = some a) : x = .ok a := by
  cases x with
  | error e => cases h
  | ok b =>
    cases h
    rfl

/-! ## Postconditions. -/

/-- A result satisfies `post`, an error is one of `fails`. -/
def Ensures (fails : ε → Prop) (post : α → Prop) : Except ε α → Prop
  | .ok a => post a
  | .error e => fails e

namespace Ensures

variable {fails : ε → Prop} {post : α → Prop} {a : α} {x : Except ε α}

theorem of_ok (h : Ensures fails post x) (hx : x = .ok a) : post a := by
  rw [hx] at h
  exact h

theorem of_error (h : Ensures fails post x) {e : ε} (hx : x = .error e) : fails e := by
  rw [hx] at h
  exact h

theorem exists_ok_of_not (h : Ensures fails post x) (hno : ∀ e, ¬ fails e) :
    ∃ a, x = .ok a ∧ post a := by
  cases x with
  | error e => exact absurd h (hno e)
  | ok a => exact ⟨a, rfl, h⟩

theorem exists_ok (h : Ensures (fun _ => False) post x) : ∃ a, x = .ok a ∧ post a :=
  h.exists_ok_of_not fun _ => id

theorem mono {post' : α → Prop} (h : Ensures fails post x) (hpost : ∀ a, post a → post' a) :
    Ensures fails post' x := by
  cases x with
  | error e => exact h
  | ok a => exact hpost a h

/-- **Rule for a sequence**. -/
theorem bind {next : β → Prop} {f : α → Except ε β} (h : Ensures fails post x)
    (hf : ∀ a, post a → Ensures fails next (f a)) : Ensures fails next (x >>= f) := by
  cases x with
  | error e => exact h
  | ok a => exact hf a h

/-- **Rule for a fold**: an invariant about the elements passed so far. -/
theorem foldlM_prefix {f : α → β → Except ε α} {l : List β} (Inv : List β → α → Prop)
    (hstep : ∀ pre b rest, pre ++ b :: rest = l → ∀ a, Inv pre a →
      Ensures fails (Inv (pre ++ [b])) (f a b))
    (ha : Inv [] a) : Ensures fails (Inv l) (l.foldlM f a) := by
  suffices hgen : ∀ (rest pre : List β) (a : α), pre ++ rest = l → Inv pre a →
      Ensures fails (Inv l) (rest.foldlM f a) from hgen l [] a rfl ha
  intro rest
  induction rest with
  | nil =>
    intro pre a hl ha
    rw [append_nil] at hl
    exact hl ▸ ha
  | cons b rest ih =>
    intro pre a hl ha
    rw [foldlM_cons]
    refine (hstep pre b rest hl a ha).bind fun a' ha' => ?_
    refine ih (pre ++ [b]) a' ?_ ha'
    rw [append_assoc]
    exact hl

theorem foldlM {f : α → β → Except ε α} {l : List β} (Inv : α → Prop)
    (hstep : ∀ b ∈ l, ∀ a, Inv a → Ensures fails Inv (f a b)) (ha : Inv a) :
    Ensures fails Inv (l.foldlM f a) :=
  foldlM_prefix (fun _ => Inv)
    (fun _ b _ hl => hstep b (hl ▸ mem_append_right _ mem_cons_self)) ha

end Ensures

/-- **A loop whose steps all go through.** -/
theorem exists_foldlM_ok (Inv : List β → α → Prop)
    (hstep : ∀ pre b rest, pre ++ b :: rest = l → ∀ a, Inv pre a →
      ∃ a', f a b = .ok a' ∧ Inv (pre ++ [b]) a') (ha : Inv [] a) :
    ∃ a', l.foldlM f a = .ok a' ∧ Inv l a' := by
  refine (Ensures.foldlM_prefix Inv (fun pre b rest hl a ha => ?_) ha).exists_ok
  obtain ⟨a', hb, ha'⟩ := hstep pre b rest hl a ha
  rw [hb]
  exact ha'

/-- **Invariant rule for a successful fold**: what every successful step keeps,
the fold keeps. -/
theorem foldlM_prefix_ok (Inv : List β → α → Prop) {a' : α}
    (hstep : ∀ pre b rest, pre ++ b :: rest = l → ∀ a a', Inv pre a → f a b = .ok a' →
      Inv (pre ++ [b]) a') (ha : Inv [] a) (hrun : l.foldlM f a = .ok a') : Inv l a' := by
  have hend : Ensures (fun _ => True) (Inv l) (l.foldlM f a) := by
    refine Ensures.foldlM_prefix Inv (fun pre b rest hl a ha => ?_) ha
    cases hb : f a b with
    | error e => trivial
    | ok a' => exact hstep pre b rest hl a a' ha hb
  exact hend.of_ok hrun

theorem foldlM_invariant (Inv : α → Prop) {a' : α}
    (hstep : ∀ a, ∀ b ∈ l, ∀ a', Inv a → f a b = .ok a' → Inv a') (ha : Inv a)
    (hrun : l.foldlM f a = .ok a') : Inv a' := by
  refine foldlM_prefix_ok (fun _ => Inv) ?_ ha hrun
  intro pre b rest hl a
  exact hstep a b (hl ▸ mem_append_right pre mem_cons_self)

end Zcoin.Lib.Except
