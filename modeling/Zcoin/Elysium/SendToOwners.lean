/-
  Zcoin.Elysium.SendToOwners — who receives how much of a distribution (`elysium/sto.cpp`).

  `STO_GetReceivers` walks along the owners from the largest holder on and rounds every share
  up, so that the amount may be used up before the last owner is reached.  The loop is described
  by `Served`; here are the consequences for single addresses.
-/
import Zcoin.Elysium.FeeCache

namespace Zcoin.Elysium

open Lib Lib.Except List

/-! ## §1. The order of the owners. -/

section Order

variable {A : Type} [LinearOrder A]

theorem sendToOwnersOrder_refl (x : Int × A) : sendToOwnersOrder x x := .inr ⟨rfl, le_rfl⟩

instance : Std.Total (sendToOwnersOrder (A := A)) where
  total := by
    intro x y
    unfold sendToOwnersOrder
    rcases lt_trichotomy x.1 y.1 with h | h | h
    · exact .inr (.inl h)
    · rcases le_total x.2 y.2 with h' | h'
      · exact .inl (.inr ⟨h, h'⟩)
      · exact .inr (.inr ⟨h.symm, h'⟩)
    · exact .inl (.inl h)

instance : IsTrans (Int × A) sendToOwnersOrder where
  trans := by
    intro x y z hxy hyz
    unfold sendToOwnersOrder at hxy hyz ⊢
    rcases hxy with hxy | ⟨hxy, hxy'⟩
    · rcases hyz with hyz | ⟨hyz, -⟩
      · exact .inl (by omega)
      · exact .inl (by omega)
    · rcases hyz with hyz | ⟨hyz, hyz'⟩
      · exact .inl (by omega)
      · exact .inr ⟨by omega, le_trans hxy' hyz'⟩

theorem mem_owners_of_held {tally : TallyMap A} {sender a : A} {p : PropertyId} (ha : a ≠ sender)
    (hheld : 0 < tally.held (tokenKinds p) a) :
    (tally.held (tokenKinds p) a, a) ∈ ownersInOrder tally (some sender) p := by
  have hmem : a ∈ tally.accounts := by
    by_contra hnot
    have hzero : tally.held (tokenKinds p) a = 0 := by
      show ((tokenKinds p).map (tally.amount a)).sum = 0
      unfold tokenKinds
      simp only [map_cons, map_nil, tally.outside a hnot, sum_cons, sum_nil,
        add_zero]
    omega
  apply (perm_insertionSort sendToOwnersOrder _).mem_iff.mpr
  apply mem_filter.mpr
  refine ⟨mem_map.mpr ⟨a, ?_, rfl⟩, decide_eq_true hheld⟩
  exact mem_filter.mpr ⟨hmem, decide_eq_true (fun h => ha (Option.some.inj h))⟩

theorem nodup_owners (tally : TallyMap A) (sender : Option A) (p : PropertyId) :
    ((ownersInOrder tally sender p).map Prod.snd).Nodup := by
  have hperm := perm_insertionSort sendToOwnersOrder
    (((othersThan tally sender).map fun a => (tally.held (tokenKinds p) a, a)).filter
      fun o => 0 < o.1)
  unfold ownersInOrder
  rw [(hperm.map Prod.snd).nodup_iff]
  have hsub : (((othersThan tally sender).map fun a => (tally.held (tokenKinds p) a, a)).filter
      fun o => 0 < o.1).Sublist ((othersThan tally sender).map
        fun a => (tally.held (tokenKinds p) a, a)) := filter_sublist
  apply (hsub.map Prod.snd).nodup
  rw [map_map]
  show ((othersThan tally sender).map id).Nodup
  rw [map_id]
  exact tally.nodup.filter _

end Order

/-! ## §2. What an address receives. -/

section Served

variable {A : Type} {share : Int → Int} {owners receivers : List (Int × A)}

theorem Served.addresses (h : Served share owners receivers) :
    (receivers.map Prod.snd).IsPrefix (owners.map Prod.snd) := by
  induction h with
  | stop owners => exact nil_prefix
  | last address owners _ _ => exact prefix_append [address] (owners.map Prod.snd)
  | full address _ _ ih => exact (prefix_cons_inj address).mpr ih

/-- **Earlier owners are served before**: whoever does not come after a receiver has its whole
share. -/
theorem Served.before {R : Int × A → Int × A → Prop} (hrefl : ∀ o, R o o)
    (h : Served share owners receivers) (hsorted : owners.Pairwise R) {r o : Int × A}
    (hr : r ∈ receivers) (ho : o ∈ owners) (hbefore : ∀ o' ∈ owners, o'.2 = r.2 → ¬ R o' o) :
    (share o.1, o.2) ∈ receivers := by
  induction h with
  | stop => cases hr
  | @last tokens will address owners _ _ =>
    -- the only receiver is the first owner, which nobody precedes
    rw [mem_singleton] at hr
    have hnot := hbefore _ mem_cons_self (show address = r.2 by rw [hr])
    rcases mem_cons.mp ho with rfl | ho
    · exact absurd (hrefl _) hnot
    · exact absurd ((pairwise_cons.mp hsorted).1 o ho) hnot
  | @full tokens address owners receivers _ _ ih =>
    obtain ⟨hhead, htail⟩ := pairwise_cons.mp hsorted
    rcases mem_cons.mp ho with rfl | ho
    · exact mem_cons_self
    · rcases mem_cons.mp hr with rfl | hr
      · exact absurd (hhead o ho) (hbefore _ mem_cons_self rfl)
      · apply mem_cons_of_mem
        exact ih htail hr ho fun o' ho' => hbefore o' (mem_cons_of_mem _ ho')

end Served

/-! ## §3. `STO_GetReceivers`. -/

variable {A : Type} [LinearOrder A]

/-- **The receivers of a distribution**, for every tally map that updates lead to and whose tokens
fit an `int64_t`: the sender is not among them and nobody twice; everybody gets a positive amount
that is at most the share rounded up; who holds more than a receiver has its whole share; and the
whole amount is given out if another address holds the property. -/
theorem stoGetReceivers_shares {tally : TallyMap A} (hreached : ReachedTally tally) (sender : A)
    {p : PropertyId} (hmax : tokensOf tally p ≤ maxInt64) {amount : Int} (hamount : 0 < amount)
    (hfits : amount ≤ maxInt64) :
    ∃ receivers, stoGetReceivers tally (some sender) p amount = .ok receivers ∧
      sender ∉ receivers.map Prod.snd ∧ (receivers.map Prod.snd).Nodup ∧
      (∀ r ∈ receivers, 0 < r.1 ∧ r.1 ≤
        ⌈(amount * tally.held (tokenKinds p) r.2 : ℚ) / heldByOthers tally (some sender) p⌉) ∧
      (∀ r ∈ receivers, ∀ a, a ≠ sender →
        tally.held (tokenKinds p) r.2 < tally.held (tokenKinds p) a →
        (⌈(amount * tally.held (tokenKinds p) a : ℚ) / heldByOthers tally (some sender) p⌉, a) ∈
          receivers) ∧
      ((∃ a, a ≠ sender ∧ 0 < tally.held (tokenKinds p) a) →
        (receivers.map Prod.fst).sum = amount) ∧
      ((¬ ∃ a, a ≠ sender ∧ 0 < tally.held (tokenKinds p) a) → receivers = []) := by
  have hnonneg := hreached.nonNegative
  obtain ⟨receivers, served, hrun, hperm, hserved, hsum, hnone⟩ :=
    stoGetReceivers_spec hnonneg (some sender) hmax (Int.le_of_lt hamount) hfits
  have howner := fun o => @mem_ownersInOrder A _ tally hnonneg (some sender) p o
  have hbegins := hserved.addresses
  refine ⟨receivers, hrun, ?_, ?_, ?_, ?_, ?_, ?_⟩
  · intro hmem
    have hmem' := hbegins.subset ((hperm.map Prod.snd).mem_iff.mp hmem)
    obtain ⟨o, ho, rfl⟩ := List.mem_map.mp hmem'
    exact of_decide_eq_true (List.mem_filter.mp (howner o ho).2.1).2 rfl
  · rw [(hperm.map Prod.snd).nodup_iff]
    exact hbegins.sublist.nodup (nodup_owners tally (some sender) p)
  · intro r hr
    have hr' := hperm.mem_iff.mp hr
    refine ⟨hserved.pos r hr', ?_⟩
    obtain ⟨o, ho, haddress, hle⟩ := hserved.le_share r hr'
    rw [(howner o ho).1, haddress] at hle
    unfold shareOf at hle
    exact hle
  · intro r hr a ha hless
    have hr' := hperm.mem_iff.mp hr
    have hheld : 0 < tally.held (tokenKinds p) a := by
      have hr := held_nonneg hnonneg p r.2
      omega
    have hfirst : (shareOf amount (heldByOthers tally (some sender) p)
        (tally.held (tokenKinds p) a), a) ∈ served := by
      apply hserved.before sendToOwnersOrder_refl (pairwise_insertionSort sendToOwnersOrder _) hr'
        (mem_owners_of_held ha hheld)
      intro o ho haddress horder
      have heq := (howner o ho).1
      rw [haddress] at heq
      unfold sendToOwnersOrder at horder
      dsimp only at horder
      omega
    unfold shareOf at hfirst
    exact hperm.mem_iff.mpr hfirst
  · rintro ⟨a, ha, hheld⟩
    obtain ⟨-, -, hpos, hle⟩ := howner _ (mem_owners_of_held ha hheld)
    exact hsum (by omega)
  · intro hnobody
    -- a receiver would be a holder
    by_contra hreceivers
    obtain ⟨r, hr⟩ := List.exists_mem_of_ne_nil receivers hreceivers
    obtain ⟨o, ho, -, -⟩ := hserved.le_share r (hperm.mem_iff.mp hr)
    obtain ⟨heq, hother, hpos, -⟩ := howner o ho
    refine hnobody ⟨o.2, ?_, by omega⟩
    intro hsender
    exact of_decide_eq_true (List.mem_filter.mp hother).2 (by rw [hsender])

/-- Three owners of property 3. -/
def threeOwners : TallyMap Nat :=
  ((Ledger.empty.add 1 (3, .balance) 100).add 2 (3, .balance) 7).add 3 (3, .balance) 4

/-- The sender does not receive; the rounded shares of 12 are 8 and 5, but only 4 are left. -/
theorem stoGetReceivers_shares_three :
    ReachedTally threeOwners ∧ tokensOf threeOwners 3 ≤ maxInt64 ∧
      ∃ receivers, stoGetReceivers threeOwners (some 1) 3 12 = .ok receivers ∧
        1 ∉ receivers.map Prod.snd ∧ (receivers.map Prod.fst).sum = 12 := by
  have hreached : ReachedTally threeOwners :=
    ((ReachedTally.empty.add 1 3 .balance (by decide) (by decide) (by decide)).add 2 3 .balance
      (by decide) (by decide) (by decide)).add 3 3 .balance (by decide) (by decide) (by decide)
  have hmax : tokensOf threeOwners 3 ≤ maxInt64 := by decide
  obtain ⟨receivers, hrun, hsender, -, -, -, hsum, -⟩ :=
    stoGetReceivers_shares hreached 1 hmax (show (0 : Int) < 12 by decide) (by decide)
  exact ⟨hreached, hmax, receivers, hrun, hsender, hsum ⟨2, by decide, by decide⟩⟩

end Zcoin.Elysium
