/-
  Zcoin.Mtp.MerkleTree — the openings of an MTP commitment
  (`crypto/MerkleTreeProof/merkle-tree.cpp`).

  `checkProofOrdered` reads the side of each node of a path off the position, and how it
  does so depends on the number of nodes.  `mtp_verify` takes paths of any number of nodes
  up to 255, although its trees have `M_COST` leaves: a position can be opened with two
  paths of different lengths to two digests, and a path of 32 nodes or more can make the
  shift undefined.
-/
import Zcoin.Basic
import Zcoin.Lib.Except
import Zcoin.Lib.Paths

namespace Zcoin.Mtp

open Lib.Except Lib.MerklePath

/-! ## §1. The check of a path. -/

def M_COST : Nat := 1024 * 1024 * 4

/-- `while (((index & 1) == 0) && (index >= (1u << remaining))) index = index / 2`: an odd
index is not compared, and a shift by 32 or more is undefined. -/
def adjustIndex (remaining index : Nat) : Except Abort Nat :=
  if index % 2 ≠ 0 then .ok index
  else if 32 ≤ remaining then .error .overflow
  else if 2 ^ remaining ≤ index then adjustIndex remaining (index / 2)
  else .ok index
termination_by index
decreasing_by
  have := Nat.two_pow_pos remaining
  omega

section Check

variable {B : Type} (combinedHash : B → B → B)

/-- The loop over the nodes of a path. -/
def proofRoot : List B → Nat → B → Except Abort B
  | [], _, tempHash => .ok tempHash
  | node :: proof, index, tempHash => do
    let index ← adjustIndex (proof.length + 1) index
    proofRoot proof (index / 2)
      (if index % 2 = 1 then combinedHash node tempHash else combinedHash tempHash node)

variable [DecidableEq B]

/-- `MerkleTree::checkProofOrdered`; `index` is a `size_t`. -/
def checkProofOrdered (proof : List B) (root element : B) (index : Nat) : Except Abort Bool := do
  let tempHash ← proofRoot combinedHash proof ((index + (2 ^ 64 - 1)) % 2 ^ 64) element
  return tempHash = root

/-- Paths of `n` and of `n'` nodes make no shift undefined, and never open a position of a
root to two digests. -/
def Binds (position n n' : Nat) : Prop :=
  ∀ (proof proof' : List B) (root digest digest' : B), proof.length = n → proof'.length = n' →
    ∃ r r', checkProofOrdered combinedHash proof root digest (position + 1) = .ok r ∧
      checkProofOrdered combinedHash proof' root digest' (position + 1) = .ok r' ∧
      (r = true → r' = true → digest = digest')

end Check

/-! ## §2. The sides of the nodes. -/

/-- The sides on which the loop puts the nodes of a path of `n` nodes. -/
def sides : Nat → Nat → Except Abort (List Bool)
  | 0, _ => .ok []
  | n + 1, index => do
    let index ← adjustIndex (n + 1) index
    let rest ← sides n (index / 2)
    return (index % 2 = 1) :: rest

theorem adjustIndex_ok {remaining : Nat} (h : remaining < 32) (index : Nat) :
    ∃ index', adjustIndex remaining index = .ok index' := by
  induction index using Nat.strongRecOn with
  | ind index ih =>
    rw [adjustIndex, if_neg (Nat.not_le.mpr h)]
    split
    · exact ⟨_, rfl⟩
    · split
      · have hpos := Nat.two_pow_pos remaining
        exact ih (index / 2) (by omega)
      · exact ⟨_, rfl⟩

theorem proofRoot_eq {B : Type} (combinedHash : B → B → B) (proof : List B) (index : Nat)
    (h : B) : proofRoot combinedHash proof index h =
      (sides proof.length index >>= fun s => pure (climb combinedHash (s.zip proof) h)) := by
  induction proof generalizing index h with
  | nil => rfl
  | cons node proof ih =>
    simp only [proofRoot, List.length_cons, sides, ih, bind_assoc, pure_bind]
    simp [climb, parent]

theorem length_sides {n index : Nat} {s : List Bool} (h : sides n index = .ok s) :
    s.length = n := by
  induction n generalizing index s with
  | zero =>
    cases h
    rfl
  | succ n ih =>
    simp only [sides, bind_eq_ok, pure_eq_ok] at h
    obtain ⟨i, -, rest, hrest, hs⟩ := h
    cases hs
    rw [List.length_cons, ih hrest]

/-- The shifts are defined when the position is odd for as long as 32 nodes remain. -/
theorem sides_ok_iff {n index : Nat} :
    (∃ s, sides n index = .ok s) ↔ ∀ i, i + 32 ≤ n → index.testBit i = true := by
  induction n generalizing index with
  | zero => exact ⟨fun _ i hi => by omega, fun _ => ⟨[], rfl⟩⟩
  | succ n ih =>
    by_cases hn : n + 1 < 32
    · refine ⟨fun _ i hi => by omega, fun _ => ?_⟩
      obtain ⟨i, hi⟩ := adjustIndex_ok hn index
      obtain ⟨s, hs⟩ : ∃ s, sides n (i / 2) = .ok s := ih.mpr fun i hi => by omega
      exact ⟨_, by rw [sides, hi, ok_bind, hs]; rfl⟩
    · by_cases hodd : index % 2 = 1
      · have hrun : adjustIndex (n + 1) index = .ok index := by
          rw [adjustIndex, if_pos (by omega)]
        have hstep : (∃ s, sides (n + 1) index = .ok s) ↔ ∃ s, sides n (index / 2) = .ok s := by
          simp [sides, hrun, bind_eq_ok]
        rw [hstep, ih]
        constructor
        · intro h i hi
          cases i with
          | zero => simp [Nat.testBit_zero, hodd]
          | succ i => exact Nat.testBit_succ index i ▸ h i (by omega)
        · intro h i hi
          exact Nat.testBit_succ index i ▸ h (i + 1) (by omega)
      · have hrun : adjustIndex (n + 1) index = .error .overflow := by
          rw [adjustIndex, if_neg (by omega), if_pos (by omega)]
        refine iff_of_false ?_ fun h => hodd (by simpa using h 0 (by omega))
        simp [sides, hrun]

/-! ## §3. What a commitment binds to. -/

section Binding

variable {B : Type} [DecidableEq B] {combinedHash : B → B → B} {position : Nat}

theorem checkProofOrdered_eq (hpos : position < M_COST) (proof : List B) (root digest : B) :
    checkProofOrdered combinedHash proof root digest (position + 1) =
      (sides proof.length position >>=
        fun s => pure (decide (climb combinedHash (s.zip proof) digest = root))) := by
  have hindex : (position + 1 + (2 ^ 64 - 1)) % 2 ^ 64 = position := by
    unfold M_COST at hpos
    omega
  unfold checkProofOrdered
  rw [hindex, proofRoot_eq, bind_assoc]
  rfl

/-- **Openings are binding exactly between paths of one length**, as far as their shifts are
defined. -/
theorem binds_iff [Nontrivial B] (hinj : Function.Injective2 combinedHash)
    (hpos : position < M_COST) {n n' : Nat} :
    Binds combinedHash position n n' ↔
      n = n' ∧ ∀ i, i + 32 ≤ n → position.testBit i = true := by
  constructor
  · intro h
    obtain ⟨x, -, -⟩ := exists_pair_ne B
    obtain ⟨r, r', hr, hr', -⟩ := h (.replicate n x) (.replicate n' x) x x x
      List.length_replicate List.length_replicate
    rw [checkProofOrdered_eq hpos, List.length_replicate] at hr hr'
    obtain ⟨s, hs, -⟩ := bind_eq_ok.mp hr
    obtain ⟨s', hs', -⟩ := bind_eq_ok.mp hr'
    refine ⟨?_, sides_ok_iff.mp ⟨s, hs⟩⟩
    by_contra hne
    -- lists of different lengths are different sides
    have hsides : s ≠ s' := by
      intro heq
      exact hne (by rw [← length_sides hs, ← length_sides hs', heq])
    obtain ⟨xs, ys, a, b, hxs, hys, hab, hroot⟩ := exists_shared_root hinj hsides
    rw [length_sides hs] at hxs
    rw [length_sides hs'] at hys
    obtain ⟨r, r', hr, hr', heq⟩ := h xs ys _ a b hxs hys
    rw [checkProofOrdered_eq hpos, hxs, hs] at hr
    rw [checkProofOrdered_eq hpos, hys, hs'] at hr'
    cases hr
    cases hr'
    exact hab (heq (decide_eq_true rfl) (decide_eq_true hroot.symm))
  · rintro ⟨rfl, hbits⟩ proof proof' root a b hlen hlen'
    obtain ⟨s, hs⟩ := sides_ok_iff.mpr hbits
    refine ⟨_, _, by rw [checkProofOrdered_eq hpos, hlen, hs]; rfl,
      by rw [checkProofOrdered_eq hpos, hlen', hs]; rfl, ?_⟩
    intro ha hb
    rw [← length_sides hs] at hlen hlen'
    exact eq_of_climb_eq hinj hlen hlen'
      ((of_decide_eq_true ha).trans (of_decide_eq_true hb).symm)

end Binding

/-- The paths of an honest miner have 22 nodes. -/
theorem binds_honest_paths : Binds Nat.pair 5 22 22 :=
  (binds_iff (fun _ _ _ _ h => Nat.pair_eq_pair.mp h) (by decide)).mpr
    ⟨rfl, fun i hi => by omega⟩

/-- **Position 0 opens to the root and to a leaf**, and a path of 32 nodes is undefined. -/
theorem opened_twice :
    checkProofOrdered Nat.pair [] 5 5 1 = .ok true ∧
      checkProofOrdered Nat.pair [2] 5 1 1 = .ok true ∧
      checkProofOrdered Nat.pair (List.replicate 32 0) 5 1 1 = .error .overflow := by
  refine ⟨rfl, ?_, ?_⟩
  · show (adjustIndex 1 0 >>= _) >>= _ = _
    rw [adjustIndex]
    rfl
  · show (adjustIndex 32 0 >>= _) >>= _ = _
    rw [adjustIndex]
    rfl

end Zcoin.Mtp
