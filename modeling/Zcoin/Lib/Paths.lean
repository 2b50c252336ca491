/-
  Zcoin.Lib.Paths — paths up a hash tree, and everything reachable in a graph.

  A path from a leaf to its root is a list of siblings with the side they stand on.  Along one
  list of sides an injective node hash determines the leaf from the root; two different lists
  of sides always share a root of two different leaves.

  `worklist` moves one staged element after the other to the seen ones and stages its
  successors.  On a finite set that is closed under successors, as many rounds as it has
  elements are enough, and what comes out is what can be reached from the roots.
-/
import Mathlib

namespace Zcoin.Lib.MerklePath

open List

variable {B : Type} (hash : B → B → B)

/-- The node above `h`, with the sibling on its left (`true`) or on its right. -/
def parent (h : B) (step : Bool × B) : B :=
  if step.1 then hash step.2 h else hash h step.2

/-- The root above a leaf. -/
def climb (path : List (Bool × B)) (leaf : B) : B := path.foldl (parent hash) leaf

theorem climb_append (path path' : List (Bool × B)) (leaf : B) :
    climb hash (path ++ path') leaf = climb hash path' (climb hash path leaf) :=
  foldl_append

variable {hash} (hinj : Function.Injective2 hash)
include hinj

/-- **Along the same sides** a root belongs to one leaf. -/
theorem eq_of_climb_eq {sides : List Bool} {siblings siblings' : List B} {a b : B}
    (hlen : siblings.length = sides.length) (hlen' : siblings'.length = sides.length)
    (h : climb hash (sides.zip siblings) a = climb hash (sides.zip siblings') b) : a = b := by
  induction sides generalizing siblings siblings' a b with
  | nil => exact h
  | cons side sides ih =>
    obtain ⟨x, siblings, rfl⟩ := exists_cons_of_length_eq_add_one hlen
    obtain ⟨y, siblings', rfl⟩ := exists_cons_of_length_eq_add_one hlen'
    have hparent : parent hash a (side, x) = parent hash b (side, y) :=
      ih (Nat.succ.inj hlen) (Nat.succ.inj hlen') h
    cases side with
    | true => exact (hinj hparent).2
    | false => exact (hinj hparent).1

variable [Nontrivial B]

theorem exists_climb_ne (sides : List Bool) (side : Bool) (a : B) :
    ∃ siblings : List B, siblings.length = sides.length + 1 ∧
      climb hash ((sides ++ [side]).zip siblings) a ≠ a := by
  obtain ⟨x, y, hxy⟩ := exists_pair_ne B
  have hclimb : ∀ z, climb hash ((sides ++ [side]).zip (replicate sides.length x ++ [z])) a =
      parent hash (climb hash (sides.zip (replicate sides.length x)) a) (side, z) := by
    intro z
    rw [zip_append (by simp), climb_append]
    rfl
  -- of two siblings at the top one will do
  by_cases hx : climb hash ((sides ++ [side]).zip (replicate sides.length x ++ [x])) a = a
  · refine ⟨replicate sides.length x ++ [y], by simp, fun hy => hxy ?_⟩
    have hparent := hx.trans hy.symm
    rw [hclimb, hclimb] at hparent
    cases side with
    | true => exact (hinj hparent).1
    | false => exact (hinj hparent).2
  · exact ⟨replicate sides.length x ++ [x], by simp, hx⟩

/-- **Different sides** lead from two different leaves to one root. -/
theorem exists_shared_root {sides sides' : List Bool} (hne : sides ≠ sides') :
    ∃ (siblings siblings' : List B) (a b : B), siblings.length = sides.length ∧
      siblings'.length = sides'.length ∧ a ≠ b ∧
      climb hash (sides.zip siblings) a = climb hash (sides'.zip siblings') b := by
  obtain ⟨x, y, hxy⟩ := exists_pair_ne B
  -- from the root down to where the sides part
  induction sides using List.reverseRecOn generalizing sides' with
  | nil =>
    obtain ⟨us, u, rfl⟩ := (eq_nil_or_concat' sides').resolve_left hne.symm
    obtain ⟨siblings, hlen, hclimb⟩ := exists_climb_ne hinj us u x
    exact ⟨[], siblings, _, x, rfl, by simpa using hlen, hclimb, rfl⟩
  | append_singleton ts t ih =>
    rcases eq_nil_or_concat' sides' with hnil | ⟨us, u, hconcat⟩
    · subst hnil
      obtain ⟨siblings, hlen, hclimb⟩ := exists_climb_ne hinj ts t x
      exact ⟨siblings, [], x, _, by simpa using hlen, rfl, hclimb.symm, rfl⟩
    subst hconcat
    by_cases htu : t = u
    · subst htu
      have hus : ts ≠ us := fun h => hne (by rw [h])
      obtain ⟨xs, ys, a, b, hxs, hys, hab, hroot⟩ := ih hus
      refine ⟨xs ++ [x], ys ++ [x], a, b, by simpa using hxs, by simpa using hys, hab, ?_⟩
      rw [zip_append hxs.symm, zip_append hys.symm, climb_append, climb_append, hroot]
    · -- each of the two nodes is the sibling of the other
      obtain ⟨m, hm⟩ : ∃ m, m = climb hash (ts.zip (replicate ts.length x)) x := ⟨_, rfl⟩
      obtain ⟨n, hn⟩ : ∃ n, n = climb hash (us.zip (replicate us.length x)) y := ⟨_, rfl⟩
      refine ⟨replicate ts.length x ++ [n], replicate us.length x ++ [m], x, y, by simp, by simp,
        hxy, ?_⟩
      rw [zip_append (by simp), zip_append (by simp), climb_append, climb_append, ← hm, ← hn]
      show parent hash m (t, n) = parent hash n (u, m)
      cases t <;> cases u <;> simp_all [parent]

end Zcoin.Lib.MerklePath

namespace Zcoin.Lib

open List

variable {α : Type} [DecidableEq α]

/-- The loop, cut off after `fuel` rounds. -/
def worklist (next : α → List α) : Nat → List α → List α → List α
  | 0, _, seen => seen
  | _ + 1, [], seen => seen
  | fuel + 1, a :: stage, seen =>
    worklist next fuel ((next a).filter (· ∉ a :: seen) ∪ stage) (a :: seen)

variable {next : α → List α} {fuel : Nat}

theorem reachable_of_mem_worklist {stage seen : List α} {x : α}
    (hx : x ∈ worklist next fuel stage seen) :
    x ∈ seen ∨ ∃ a ∈ stage, Relation.ReflTransGen (fun a b => b ∈ next a) a x := by
  induction fuel generalizing stage seen with
  | zero => exact .inl hx
  | succ fuel ih =>
    cases stage with
    | nil => exact .inl hx
    | cons a stage =>
      rcases ih hx with hseen | ⟨b, hb, hreach⟩
      · rcases mem_cons.mp hseen with rfl | hseen
        · exact .inr ⟨x, mem_cons_self, .refl⟩
        · exact .inl hseen
      · rcases mem_union_iff.mp hb with hb | hb
        · exact .inr ⟨a, mem_cons_self, .head (mem_filter.mp hb).1 hreach⟩
        · exact .inr ⟨b, mem_cons_of_mem a hb, hreach⟩

/-- What the loop maintains between its rounds, inside a finite set `univ`. -/
structure Staged (next : α → List α) (univ : Finset α) (stage seen : List α) : Prop where
  nodup_stage : stage.Nodup
  nodup_seen : seen.Nodup
  disjoint : ∀ a ∈ stage, a ∉ seen
  stage_univ : ∀ a ∈ stage, a ∈ univ
  seen_univ : ∀ a ∈ seen, a ∈ univ
  covered : ∀ a ∈ seen, ∀ b ∈ next a, b ∈ seen ∨ b ∈ stage

theorem Staged.step {univ : Finset α} {a : α} {stage seen : List α}
    (hnext : ∀ a ∈ univ, ∀ b ∈ next a, b ∈ univ) (h : Staged next univ (a :: stage) seen) :
    Staged next univ ((next a).filter (· ∉ a :: seen) ∪ stage) (a :: seen) := by
  have ha : a ∈ univ := h.stage_univ a mem_cons_self
  obtain ⟨hastage, hnodup⟩ := nodup_cons.mp h.nodup_stage
  constructor
  · exact List.Nodup.union _ hnodup
  · exact nodup_cons.mpr ⟨h.disjoint a mem_cons_self, h.nodup_seen⟩
  · intro b hb
    rcases mem_union_iff.mp hb with hnew | hold
    · simpa using (mem_filter.mp hnew).2
    · rw [mem_cons, not_or]
      refine ⟨?_, h.disjoint b (mem_cons_of_mem a hold)⟩
      rintro rfl
      exact hastage hold
  · intro b hb
    rcases mem_union_iff.mp hb with hb | hb
    · exact hnext a ha b (mem_filter.mp hb).1
    · exact h.stage_univ b (mem_cons_of_mem a hb)
  · intro b hb
    rcases mem_cons.mp hb with rfl | hb
    · exact ha
    · exact h.seen_univ b hb
  · intro b hb c hc
    by_cases hseen : c ∈ a :: seen
    · exact .inl hseen
    · refine .inr (mem_union_iff.mpr ?_)
      rcases mem_cons.mp hb with rfl | hb
      · exact .inl (mem_filter.mpr ⟨hc, by simpa using hseen⟩)
      · rcases h.covered b hb c hc with hc | hc
        · exact absurd (mem_cons_of_mem a hc) hseen
        · rcases mem_cons.mp hc with rfl | hc
          · exact absurd mem_cons_self hseen
          · exact .inr hc

/-- With enough fuel the loop ends with everything staged or seen, closed under
successors. -/
theorem worklist_closed {univ : Finset α} (hnext : ∀ a ∈ univ, ∀ b ∈ next a, b ∈ univ)
    {stage seen : List α} (h : Staged next univ stage seen)
    (hfuel : univ.card ≤ fuel + seen.length) :
    (∀ a, a ∈ seen ∨ a ∈ stage → a ∈ worklist next fuel stage seen) ∧
      ∀ a ∈ worklist next fuel stage seen, ∀ b ∈ next a, b ∈ worklist next fuel stage seen := by
  induction fuel generalizing stage seen with
  | zero =>
    -- everything has been seen, so the stage is empty
    have hsub : seen.toFinset ⊆ univ := fun a ha => h.seen_univ a (mem_toFinset.mp ha)
    have hcard : univ.card ≤ seen.toFinset.card := by
      rw [toFinset_card_of_nodup h.nodup_seen]
      omega
    have heq := Finset.eq_of_subset_of_card_le hsub hcard
    have hstage : ∀ a ∈ stage, a ∈ seen := by
      intro a ha
      rw [← mem_toFinset, heq]
      exact h.stage_univ a ha
    refine ⟨fun a ha => ha.elim id (hstage a), ?_⟩
    intro a ha b hb
    exact (h.covered a ha b hb).elim id (hstage b)
  | succ fuel ih =>
    cases stage with
    | nil =>
      refine ⟨fun a ha => ha.elim id (fun hnil => absurd hnil not_mem_nil), ?_⟩
      intro a ha b hb
      exact (h.covered a ha b hb).elim id (fun hnil => absurd hnil not_mem_nil)
    | cons a stage =>
      have hlen : univ.card ≤ fuel + (a :: seen).length := by
        rw [length_cons]
        omega
      obtain ⟨hin, hclosed⟩ := ih (h.step hnext) hlen
      refine ⟨?_, hclosed⟩
      intro b hb
      rcases hb with hb | hb
      · exact hin b (.inl (mem_cons_of_mem a hb))
      · rcases mem_cons.mp hb with rfl | hb
        · exact hin b (.inl mem_cons_self)
        · exact hin b (.inr (mem_union_iff.mpr (.inr hb)))

/-- **The loop collects what is reachable**, given as much fuel as the closed set
around its root has elements. -/
theorem mem_worklist_iff (univ : Finset α) (hnext : ∀ a ∈ univ, ∀ b ∈ next a, b ∈ univ)
    (hfuel : univ.card ≤ fuel) {root : α} (hroot : root ∈ univ) (x : α) :
    x ∈ worklist next fuel [root] [] ↔ Relation.ReflTransGen (fun a b => b ∈ next a) root x := by
  have hstaged : Staged next univ [root] [] := by
    constructor <;> simp [hroot]
  obtain ⟨hin, hclosed⟩ := worklist_closed hnext hstaged (hfuel.trans (Nat.le_add_right fuel 0))
  constructor
  · intro hx
    rcases reachable_of_mem_worklist hx with hnil | ⟨a, ha, hreach⟩
    · exact absurd hnil not_mem_nil
    · rwa [mem_singleton.mp ha] at hreach
  · intro hreach
    induction hreach with
    | refl => exact hin root (.inr mem_cons_self)
    | tail _ hstep ih => exact hclosed _ ih _ hstep

end Zcoin.Lib
