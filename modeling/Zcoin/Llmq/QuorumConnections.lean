/-
  Zcoin.Llmq.QuorumConnections — whom a quorum member connects to (`llmq/quorums_utils.cpp`).

  A member connects to those one, two, four, … places after it on the ring of members.  The
  loop goes at least twice and passes over the member itself without moving on, so with one or
  two members it never ends.
-/
import Zcoin.Lib.Loop

namespace Zcoin.Llmq

open Lib
open Finset (Ico)

variable {M : Type} [DecidableEq M]

/-! ## §1. The loop. -/

/-- The loop of `CLLMQUtils::GetQuorumConnections` for the member `i`. -/
def connectionLoop (mns : List M) (i : Nat) : Loop (Nat × Nat × Nat × Finset M) (Finset M) where
  round := fun (gap, gap_max, k, result) =>
    let gap_max := gap_max / 2
    some (if gap_max ≠ 0 ∨ k ≤ 1 then
      let idx := (i + gap) % mns.length
      .inl (if mns[idx]? = mns[i]? then (gap, gap_max, k, result)
        else (gap * 2, gap_max, k + 1, result ∪ mns[idx]?.toFinset))
    else .inr result)

/-- `CLLMQUtils::GetQuorumConnections`, with the members by their `proTxHash`; `none` when the
loop does not end. -/
def getQuorumConnections (mns : List M) (forMember : M) : Option (Finset M) :=
  match mns.idxOf? forMember with
  | some i => (connectionLoop mns i).run (1, mns.length - 1, 0, ∅)
  | none => some ∅

/-- How many `k` there are in `0..max(1, floor(log2(n-1))-1)`. -/
def rounds (n : Nat) : Nat := max 1 (Nat.log2 (n - 1) - 1) + 1

/-- The members at the positions `(i + 2^k) mod n`, other than the member itself. -/
def ringConnections (mns : List M) (i : Nat) : Finset M :=
  ((Ico 0 (rounds mns.length)).biUnion fun k =>
    mns[(i + 2 ^ k) % mns.length]?.toFinset) \ mns[i]?.toFinset

/-- **What the comment promises**: every member gets its connections, and with two members or
more they lead from every member to every other. -/
structure Connects (mns : List M) : Prop where
  returns : ∀ i (hi : i < mns.length), getQuorumConnections mns mns[i] =
    some (ringConnections mns i)
  connected : 2 ≤ mns.length → ∀ a ∈ mns, ∀ b ∈ mns, Relation.ReflTransGen
    (fun a b => ∃ conns, getQuorumConnections mns a = some conns ∧ b ∈ conns) a b

/-! ## §2. Three members or more. -/

variable {mns : List M} {i : Nat}

omit [DecidableEq M] in
theorem getElem?_gap_ne (hnodup : mns.Nodup) (hi : i < mns.length) {gap : Nat} (hpos : 0 < gap)
    (hlt : gap < mns.length) : mns[(i + gap) % mns.length]? ≠ mns[i]? := by
  have hmod : (i + gap) % mns.length < mns.length := Nat.mod_lt _ (by omega)
  intro heq
  have hidx := (List.getElem?_inj hmod hnodup).mp heq
  rcases Nat.lt_or_ge (i + gap) mns.length with hfits | hwraps
  · rw [Nat.mod_eq_of_lt hfits] at hidx
    omega
  · rw [Nat.mod_eq_sub_mod hwraps, Nat.mod_eq_of_lt (by omega)] at hidx
    omega

theorem lt_rounds_iff {n : Nat} (hn : 3 ≤ n) (k : Nat) :
    k < rounds n ↔ (n - 1) / 2 ^ k / 2 ≠ 0 ∨ k ≤ 1 := by
  have hlog := Nat.log2_lt (n := n - 1) (k := k + 1) (by omega)
  have hone := Nat.log2_lt (n := n - 1) (k := 1) (by omega)
  have hzero : (n - 1) / 2 ^ k / 2 = 0 ↔ n - 1 < 2 ^ (k + 1) := by
    rw [Nat.div_div_eq_div_mul, ← Nat.pow_succ, Nat.div_eq_zero_iff]
    have := Nat.two_pow_pos (k + 1)
    omega
  unfold rounds
  omega

theorem gap_lt {n k : Nat} (hn : 3 ≤ n) (hk : k < rounds n) : 2 ^ k < n := by
  have hlog := Nat.log2_self_le (n := n - 1) (by omega)
  unfold rounds at hk
  rcases Nat.lt_or_ge k 2 with h | h
  · interval_cases k <;> omega
  · have := Nat.pow_le_pow_right (n := 2) (by decide) (show k ≤ Nat.log2 (n - 1) by omega)
    omega

theorem connectionLoop_eq (hnodup : mns.Nodup) (hi : i < mns.length) (hn : 3 ≤ mns.length)
    {r k : Nat} (hr : k + r = rounds mns.length) (result : Finset M) :
    (connectionLoop mns i).run (2 ^ k, (mns.length - 1) / 2 ^ k, k, result) = some (result ∪
      (Ico k (rounds mns.length)).biUnion fun k =>
        mns[(i + 2 ^ k) % mns.length]?.toFinset) := by
  have hround := lt_rounds_iff hn k
  rw [Loop.run_eq]
  induction r generalizing k result with
  | zero =>
    show Sum.elim _ some (if _ then _ else _) = _
    rw [if_neg (fun h => by omega), Sum.elim_inr, ← hr, Nat.add_zero, Finset.Ico_self,
      Finset.biUnion_empty, Finset.union_empty]
  | succ r ih =>
    show Sum.elim _ some (if _ then Sum.inl (if _ then _ else _) else _) = _
    rw [if_pos (hround.mp (by omega)),
      if_neg (getElem?_gap_ne hnodup hi (Nat.two_pow_pos k) (gap_lt hn (by omega))),
      ← Nat.pow_succ, Nat.div_div_eq_div_mul, ← Nat.pow_succ, Sum.elim_inl, Loop.run_eq,
      ih (by omega) _ (lt_rounds_iff hn _), Finset.union_assoc,
      ← Finset.insert_Ico_add_one_left_eq_Ico (by omega : k < rounds mns.length),
      Finset.biUnion_insert]
    rfl

theorem getQuorumConnections_eq (hnodup : mns.Nodup) (hi : i < mns.length) :
    getQuorumConnections mns mns[i] = (connectionLoop mns i).run (1, mns.length - 1, 0, ∅) := by
  unfold getQuorumConnections
  rw [List.idxOf?_eq_some_iff.mpr ⟨hi, rfl, fun j hj h => hj.ne (hnodup.getElem_inj_iff.mp h)⟩]

/-! ## §3. One or two members. -/

/-- A member that meets itself in the first two rounds stays there. -/
theorem connectionLoop_stuck {gap k : Nat} (hself : (i + gap) % mns.length = i) (hk : k ≤ 1)
    (gap_max : Nat) (result : Finset M) :
    (connectionLoop mns i).run (gap, gap_max, k, result) = none := by
  refine Loop.run_eq_none (fun s => s.1 = gap ∧ s.2.2.1 = k) ?_ ⟨rfl, rfl⟩
  rintro ⟨gap', gap_max, k', result⟩ ⟨hgap, hk'⟩
  obtain rfl : gap' = gap := hgap
  obtain rfl : k' = k := hk'
  refine ⟨_, congrArg some ((if_pos (.inr hk)).trans (congrArg Sum.inl (if_pos ?_))), rfl, rfl⟩
  rw [hself]

/-! ## §4. All members. -/

theorem connects_of_three (hnodup : mns.Nodup) (hn : 3 ≤ mns.length) : Connects mns := by
  have hother : ∀ i < mns.length, ∀ k < rounds mns.length,
      mns[(i + 2 ^ k) % mns.length]? ≠ mns[i]? := fun i hi k hk =>
    getElem?_gap_ne hnodup hi (Nat.two_pow_pos k) (gap_lt hn hk)
  have hreturns : ∀ i (hi : i < mns.length),
      getQuorumConnections mns mns[i] = some (ringConnections mns i) := by
    intro i hi
    have hloop := connectionLoop_eq hnodup hi hn (Nat.zero_add _) ∅
    rw [Nat.pow_zero, Nat.div_one, Finset.empty_union] at hloop
    rw [getQuorumConnections_eq hnodup hi, hloop, ringConnections,
      Finset.sdiff_eq_self_of_disjoint]
    refine (Finset.disjoint_biUnion_left _ _ _).mpr fun k hk => ?_
    refine Finset.disjoint_left.mpr fun x hx hself => ?_
    rw [Option.mem_toFinset, Option.mem_def] at hx hself
    exact hother i hi k (Finset.mem_Ico.mp hk).2 (hx.trans hself.symm)
  refine ⟨hreturns, fun _ a ha b hb => ?_⟩
  obtain ⟨i, hi, rfl⟩ := List.getElem_of_mem ha
  obtain ⟨j, hj, rfl⟩ := List.getElem_of_mem hb
  -- the next member is among the connections, and so on around the ring
  have hround : ∀ d b, mns[(i + d) % mns.length]? = some b → Relation.ReflTransGen
      (fun a b => ∃ conns, getQuorumConnections mns a = some conns ∧ b ∈ conns) mns[i] b := by
    intro d
    induction d with
    | zero =>
      intro b hb
      rw [Nat.add_zero, Nat.mod_eq_of_lt hi, List.getElem?_eq_getElem hi] at hb
      cases hb
      exact .refl
    | succ d ih =>
      intro b hb
      have hd : (i + d) % mns.length < mns.length := Nat.mod_lt _ (by omega)
      refine (ih _ (List.getElem?_eq_getElem hd)).tail ⟨_, hreturns _ hd, ?_⟩
      have hzero : 0 < rounds mns.length := Nat.succ_pos _
      have hnext := hother _ hd 0 hzero
      rw [Nat.pow_zero, Nat.mod_add_mod, Nat.add_assoc, hb] at hnext
      refine Finset.mem_sdiff.mpr ⟨Finset.mem_biUnion.mpr
        ⟨0, Finset.mem_Ico.mpr ⟨le_rfl, hzero⟩, ?_⟩, fun h => ?_⟩
      · rw [Nat.pow_zero, Nat.mod_add_mod, Nat.add_assoc, hb]
        exact Finset.mem_singleton_self b
      · rw [Option.mem_toFinset] at h
        exact hnext h.symm
  refine hround (mns.length - i + j) _ ?_
  rw [show i + (mns.length - i + j) = j + mns.length by omega, Nat.add_mod_right,
    Nat.mod_eq_of_lt hj, List.getElem?_eq_getElem hj]

end Zcoin.Llmq
