/-
  Zcoin.Elysium.Freezing — properties whose tokens can be frozen (`elysium/elysium.cpp`).

  `setFreezingEnabledProperties` holds pairs of a property and the block from which freezing is
  live, `setFrozenAddresses` pairs of an address and a property.  Both are `std::set`s of pairs,
  walked in lexicographic order; `disableFreezing` erases from the second while it walks over it.
-/
import Zcoin.Elysium.SmartProperty
import Zcoin.Lib.Sorting

namespace Zcoin.Elysium

open Lib Lib.Except List

/-! ## §1. The two sets. -/

theorem lastBlock_spec (propertyId : PropertyId) {items : List (PropertyId × Int)}
    (hsorted : items.Pairwise pairLe) (start : Int) :
    let liveBlock := items.foldl
      (fun liveBlock item => if propertyId = item.1 then item.2 else liveBlock) start
    (∀ item ∈ items, propertyId = item.1 →
      item.2 ≤ liveBlock ∧ (propertyId, liveBlock) ∈ items) ∧
      ((∀ item ∈ items, propertyId ≠ item.1) → liveBlock = start) := by
  induction items using reverseRecOn with
  | nil => simp
  | append_singleton items last ih =>
    obtain ⟨hitems, -, hlast⟩ := pairwise_append.mp hsorted
    obtain ⟨hbound, hnone⟩ := ih hitems
    simp only [foldl_concat, forall_mem_append, forall_mem_singleton]
    by_cases hproperty : propertyId = last.1
    · rw [if_pos hproperty]
      have hmem : (propertyId, last.2) ∈ items ++ [last] := by
        rw [hproperty]
        simp
      refine ⟨⟨fun item hitem hsame => ⟨?_, hmem⟩, fun _ => ⟨le_rfl, hmem⟩⟩,
        fun hall => absurd hproperty hall.2⟩
      -- the entries of the property are in the order of their blocks
      rcases hlast item hitem last mem_cons_self with hlt | ⟨-, hblock⟩
      · rw [← hsame, hproperty] at hlt
        exact absurd hlt (lt_irrefl _)
      · exact hblock
    · rw [if_neg hproperty]
      refine ⟨⟨fun item hitem hsame => ?_, fun h => absurd h hproperty⟩, fun hall => hnone hall.1⟩
      exact (hbound item hitem hsame).imp_right (mem_append_left _)

/-- `setFreezingEnabledProperties` and `setFrozenAddresses`. -/
structure FreezeState (A : Type) where
  enabled : Finset (PropertyId × Int) := ∅
  frozen : Finset (A × PropertyId) := ∅

section Live

variable {A : Type}

/-- The first loop of `disableFreezing`: the block from which freezing is live. -/
def FreezeState.liveBlock (state : FreezeState A) (propertyId : PropertyId) : Int :=
  (inOrder state.enabled).foldl
    (fun liveBlock item => if propertyId = item.1 then item.2 else liveBlock) 0

variable {state : FreezeState A}

theorem liveBlock_spec {propertyId : PropertyId} {block : Int}
    (h : (propertyId, block) ∈ state.enabled) :
    block ≤ state.liveBlock propertyId ∧
      (propertyId, state.liveBlock propertyId) ∈ state.enabled := by
  obtain ⟨hbound, -⟩ := lastBlock_spec propertyId (pairwise_inOrder state.enabled) 0
  obtain ⟨hle, hmem⟩ := hbound _ (mem_inOrder.mpr h) rfl
  exact ⟨hle, mem_inOrder.mp hmem⟩

theorem liveBlock_none {propertyId : PropertyId}
    (h : ∀ item ∈ state.enabled, propertyId ≠ item.1) : state.liveBlock propertyId = 0 :=
  (lastBlock_spec propertyId (pairwise_inOrder state.enabled) 0).2
    fun item hitem => h item (mem_inOrder.mp hitem)

end Live

section Operations

variable {A : Type} [LinearOrder A]

instance : DecidableEq (FreezeState A) := fun s t =>
  decidable_of_iff (s.enabled = t.enabled ∧ s.frozen = t.frozen) (by
    cases s
    cases t
    simp)

variable (state : FreezeState A)

/-- `isFreezingEnabled`. -/
def FreezeState.isFreezingEnabled (propertyId : PropertyId) (block : Int) : Bool :=
  decide (∃ item ∈ state.enabled, propertyId = item.1 ∧ block ≥ item.2)

/-- `isAddressFrozen`. -/
def FreezeState.isAddressFrozen (address : A) (propertyId : PropertyId) : Bool :=
  decide ((address, propertyId) ∈ state.frozen)

/-- The loop of `disableFreezing` over the frozen addresses, from an iterator on. -/
def unfreezeAll (propertyId : PropertyId) :
    List (A × PropertyId) → FreezeState A → Except Abort (FreezeState A)
  | [], state => .ok state
  | pair :: rest, state =>
    if pair.2 = propertyId then do
      let state := { state with frozen := state.frozen.erase pair }
      -- the iterator has moved on to the next pair, which the assertion reads
      match rest with
      | [] => .error .outOfRange
      | next :: _ => assertThat (!state.isAddressFrozen next.1 next.2)
      unfreezeAll propertyId rest state
    else unfreezeAll propertyId rest state

/-- `disableFreezing`. -/
def FreezeState.disableFreezing (propertyId : PropertyId) : Except Abort (FreezeState A) := do
  let liveBlock := state.liveBlock propertyId
  assertThat (decide (liveBlock > 0))
  let state := { state with enabled := state.enabled.erase (propertyId, liveBlock) }
  let state ← unfreezeAll propertyId (inOrder state.frozen) state
  assertThat (!state.isFreezingEnabled propertyId liveBlock)
  return state

/-! ## §2. Disabling. -/

variable {propertyId : PropertyId} {pairs : List (A × PropertyId)}

theorem unfreezeAll_none (h : ∀ pair ∈ pairs, pair.2 ≠ propertyId) (state : FreezeState A) :
    unfreezeAll propertyId pairs state = .ok state := by
  induction pairs with
  | nil => rfl
  | cons pair rest ih =>
    unfold unfreezeAll
    rw [if_neg (h pair mem_cons_self)]
    exact ih fun p hp => h p (mem_cons_of_mem pair hp)

/-- The first pair of the property stops the loop: the next one, if there is any, is frozen. -/
theorem unfreezeAll_some (hnodup : pairs.Nodup) {state : FreezeState A}
    (hfrozen : ∀ pair ∈ pairs, pair ∈ state.frozen) (h : ∃ pair ∈ pairs, pair.2 = propertyId) :
    ∃ e, unfreezeAll propertyId pairs state = .error e := by
  induction pairs with
  | nil =>
    obtain ⟨pair, hpair, -⟩ := h
    cases hpair
  | cons pair rest ih =>
    obtain ⟨hpair, hrest⟩ := nodup_cons.mp hnodup
    unfold unfreezeAll
    by_cases hproperty : pair.2 = propertyId
    · rw [if_pos hproperty]
      cases rest with
      | nil => exact ⟨.outOfRange, rfl⟩
      | cons next rest =>
        have hne : next ≠ pair := fun heq => hpair (heq ▸ mem_cons_self)
        have hnext : next ∈ state.frozen.erase pair :=
          Finset.mem_erase.mpr ⟨hne, hfrozen next (by simp)⟩
        have hassert : FreezeState.isAddressFrozen
            { state with frozen := state.frozen.erase pair } next.1 next.2 = true :=
          decide_eq_true hnext
        refine ⟨.assertion, ?_⟩
        dsimp only
        rw [hassert]
        rfl
    · rw [if_neg hproperty]
      refine ih hrest (fun p hp => hfrozen p (mem_cons_of_mem pair hp)) ?_
      obtain ⟨p, hp, hsame⟩ := h
      rcases mem_cons.mp hp with rfl | hp
      · exact absurd hsame hproperty
      · exact ⟨p, hp, hsame⟩

/-- **`disableFreezing` that goes through**: no address is frozen for the property, and freezing
was enabled once, at a block after the first. -/
theorem disableFreezing_eq {state : FreezeState A} {liveBlock : Int}
    (hfrozen : ∀ pair ∈ state.frozen, pair.2 ≠ propertyId) (hlive : 0 < liveBlock)
    (hentry : state.enabled.filter (fun item => item.1 = propertyId) = {(propertyId, liveBlock)}) :
    state.disableFreezing propertyId =
      .ok { state with enabled := state.enabled.erase (propertyId, liveBlock) } := by
  have honly : ∀ item ∈ state.enabled, item.1 = propertyId → item = (propertyId, liveBlock) := by
    intro item hitem hproperty
    have hmem : item ∈ state.enabled.filter (fun item => item.1 = propertyId) :=
      Finset.mem_filter.mpr ⟨hitem, hproperty⟩
    rw [hentry] at hmem
    exact Finset.mem_singleton.mp hmem
  have hin : (propertyId, liveBlock) ∈ state.enabled := by
    have hmem := Finset.mem_singleton_self (propertyId, liveBlock)
    rw [← hentry] at hmem
    exact (Finset.mem_filter.mp hmem).1
  have hblock : state.liveBlock propertyId = liveBlock :=
    congrArg Prod.snd (honly _ (liveBlock_spec hin).2 rfl)
  unfold FreezeState.disableFreezing
  dsimp only
  rw [hblock, decide_eq_true hlive, assertThat_true, ok_bind,
    unfreezeAll_none (fun pair hpair => hfrozen pair (mem_inOrder.mp hpair)), ok_bind]
  have hdisabled : FreezeState.isFreezingEnabled
      { state with enabled := state.enabled.erase (propertyId, liveBlock) } propertyId liveBlock =
      false := by
    apply decide_eq_false
    rintro ⟨item, hitem, hproperty, -⟩
    obtain ⟨hne, hitem⟩ := Finset.mem_erase.mp hitem
    exact hne (honly item hitem hproperty.symm)
  rw [hdisabled]
  rfl

/-- **Disabling freezing removes exactly the frozen addresses of the property** where there are
none and freezing was enabled exactly once; in every other case an assertion fails or the end of
the set is read. -/
theorem disableFreezing_unfreezes_iff (state : FreezeState A) (propertyId : PropertyId) :
    (∃ state', state.disableFreezing propertyId = .ok state' ∧
        state'.frozen = state.frozen.filter fun pair => pair.2 ≠ propertyId) ↔
      (∀ pair ∈ state.frozen, pair.2 ≠ propertyId) ∧
        ∃ liveBlock, 0 < liveBlock ∧
          state.enabled.filter (fun item => item.1 = propertyId) = {(propertyId, liveBlock)} := by
  refine ⟨?_, ?_⟩
  · rintro ⟨state', hrun, -⟩
    obtain ⟨⟨⟩, hpositive, hrun⟩ := bind_eq_ok.mp hrun
    obtain ⟨state₁, hloop, hrun⟩ := bind_eq_ok.mp hrun
    obtain ⟨⟨⟩, hdisabled, -⟩ := bind_eq_ok.mp hrun
    have hfrozen : ∀ pair ∈ state.frozen, pair.2 ≠ propertyId := by
      intro pair hpair hproperty
      obtain ⟨e, herror⟩ := @unfreezeAll_some A _ propertyId _ (nodup_inOrder state.frozen)
        ⟨state.enabled.erase (propertyId, state.liveBlock propertyId), state.frozen⟩
        (fun pair hpair => mem_inOrder.mp hpair) ⟨pair, mem_inOrder.mpr hpair, hproperty⟩
      rw [herror] at hloop
      cases hloop
    have hnothing := unfreezeAll_none (fun pair hpair => hfrozen pair (mem_inOrder.mp hpair))
      ⟨state.enabled.erase (propertyId, state.liveBlock propertyId), state.frozen⟩
    rw [hnothing] at hloop
    cases hloop
    have hlive : 0 < state.liveBlock propertyId := by
      by_contra hnot
      rw [decide_eq_false hnot] at hpositive
      cases hpositive
    have hin : (propertyId, state.liveBlock propertyId) ∈ state.enabled := by
      by_contra hnot
      have hnone : ∀ item ∈ state.enabled, propertyId ≠ item.1 := by
        rintro ⟨p, block⟩ hitem rfl
        exact hnot (liveBlock_spec hitem).2
      rw [liveBlock_none hnone] at hlive
      exact absurd hlive (lt_irrefl 0)
    refine ⟨hfrozen, _, hlive, ?_⟩
    apply Finset.eq_singleton_iff_unique_mem.mpr
    refine ⟨Finset.mem_filter.mpr ⟨hin, rfl⟩, ?_⟩
    rintro ⟨p, block⟩ hmem
    obtain ⟨hitem, rfl⟩ := Finset.mem_filter.mp hmem
    by_contra hne
    -- a second entry is still there, and live
    have henabled : FreezeState.isFreezingEnabled { state with
        enabled := state.enabled.erase (p, state.liveBlock p) } p (state.liveBlock p) = true :=
      decide_eq_true ⟨(p, block), Finset.mem_erase.mpr ⟨hne, hitem⟩, rfl, (liveBlock_spec hitem).1⟩
    rw [henabled] at hdisabled
    cases hdisabled
  · rintro ⟨hfrozen, liveBlock, hlive, hentry⟩
    refine ⟨_, disableFreezing_eq hfrozen hlive hentry, ?_⟩
    exact (Finset.filter_true_of_mem hfrozen).symm

end Operations

/-- Property 3 with a frozen address: the walk reads the end of the set, or finds the next
address frozen.  Enabled twice, the property is still enabled after it was disabled. -/
theorem disableFreezing_stops :
    FreezeState.disableFreezing (A := Nat) { enabled := {(3, 10)}, frozen := {(1, 3)} } 3 =
        .error .outOfRange ∧
      FreezeState.disableFreezing (A := Nat)
        { enabled := {(3, 10)}, frozen := {(1, 3), (2, 4)} } 3 = .error .assertion ∧
      FreezeState.disableFreezing (A := Nat)
        { enabled := {(3, 10), (3, 11)}, frozen := {(2, 4)} } 3 = .error .assertion := by
  refine ⟨?_, ?_, ?_⟩
  · decide +kernel
  · decide +kernel
  · decide +kernel

end Zcoin.Elysium
