/-
  Zcoin.Bls.ContributionVerifier — verifying the shares of a DKG (`bls/bls_worker.cpp`).

  Each share is to match its verification vector at one id.  Eight of them are added up and
  verified together, and only if that fails each on its own.  So a share that matches is found to
  match, but wrong shares whose errors cancel are accepted together.
-/
import Zcoin.Basic
import Zcoin.Lib.Except

namespace Zcoin.Bls

open Lib Lib.Except List

/-! ## §1. Shares of one id. -/

/-- The curve: secret keys are scalars, public keys points, and `none` is a key or an id that is
not `IsValid`. -/
structure Curve (R G : Type) where
  generator : G
  /-- an id modulo the order -/
  scalar : Uint256 → R
  /-- `GetHash` -/
  hash : G → Uint256

section Verifier

variable {R G : Type} [CommRing R] [AddCommGroup G] [Module R G]

/-- The loop of `PolyEvaluate`, from the last coefficient to the first. -/
def horner (x : R) (vec : List G) : G := vec.foldr (fun v y => x • y + v) 0

theorem horner_sum (x : R) {n : Nat} {vs : List (List G)} (h : ∀ v ∈ vs, v.length = n) :
    horner x ((range n).map fun i => (vs.map fun v => v.getD i 0).sum)
      = (vs.map (horner x)).sum := by
  induction n generalizing vs with
  | zero =>
    have hzero : ∀ v ∈ vs, horner x v = 0 := by
      intro v hv
      rw [length_eq_zero_iff.mp (h v hv)]
      rfl
    rw [map_congr_left hzero]
    simp [horner]
  | succ n ih =>
    have htails : ∀ v ∈ vs.map tail, v.length = n := by
      intro v hv
      obtain ⟨u, hu, rfl⟩ := mem_map.mp hv
      rw [length_tail, h u hu]
      rfl
    have hsplit : ∀ v ∈ vs, horner x v = x • horner x v.tail + v.getD 0 0 := by
      intro v hv
      obtain ⟨a, u, rfl⟩ := exists_cons_of_length_eq_add_one (h v hv)
      rfl
    have hrest := congrArg (x • ·) (ih htails)
    simp only [map_map, Function.comp_def, getD_eq_getElem?_getD, getElem?_tail, smul_sum] at hrest
    rw [range_succ_eq_map, map_cons, map_map, map_congr_left hsplit, sum_map_add, ← hrest]
    simp only [getD_eq_getElem?_getD]
    rfl

variable (curve : Curve R G)

/-- By how much a share misses its vector. -/
def miss (id : Uint256) (d : List G × R) : G :=
  d.2 • curve.generator - horner (curve.scalar id) d.1

/-- The sums of a batch. -/
def total (n : Nat) (batch : List (List G × R)) : List G × R :=
  ((range n).map fun i => (batch.map fun d => d.1.getD i 0).sum, (batch.map Prod.snd).sum)

variable {batch : List (List G × R)}

theorem miss_total (id : Uint256) {n : Nat} (h : ∀ d ∈ batch, d.1.length = n) :
    miss curve id (total n batch) = (batch.map (miss curve id)).sum := by
  have hvecs := @horner_sum R G _ _ _ (curve.scalar id) n (batch.map Prod.fst)
    (fun v hv => by obtain ⟨d, hd, rfl⟩ := mem_map.mp hv; exact h d hd)
  simp only [map_map, Function.comp_def] at hvecs
  unfold miss total
  rw [hvecs]
  clear hvecs h
  induction batch with
  | nil => simp
  | cons d batch ih =>
    simp only [map_cons, sum_cons, add_smul, ← ih]
    abel

variable [DecidableEq G]

/-- `PublicKeyShare`; `PolyEvaluate` throws without two coefficients. -/
def publicKeyShare (mpk : List (Option G)) (id : Option Uint256) : Option G := do
  let id ← id
  let mpkVec ← mpk.mapM fun pk => pk
  if mpkVec.length < 2 then none else some (horner (curve.scalar id) mpkVec)

/-- `VerifyContributionShare`. -/
def verifyContributionShare (forId : Option Uint256) (vvec : List (Option G))
    (skContribution : Option R) : Bool :=
  match publicKeyShare curve vvec forId with
  | none => false
  | some pk1 => decide (some pk1 = skContribution.map (· • curve.generator))

/-! ## §2. `VerifyContributionShares`. -/

/-- `VerifyVerificationVectors`, for vectors that are not null. -/
def verifyVerificationVectors (vvecs : List (List (Option G))) : Bool :=
  vvecs.all (fun vvec => vvec.length = (vvecs.headD []).length && vvec.all Option.isSome) &&
    decide (vvecs.flatten.map (Option.map curve.hash)).Nodup

/-- `SyncAggregate`, with the assertion of `AggregateInsecure`. -/
def syncAggregate {α : Type} [Add α] : List (Option α) → Except Abort (Option α)
  | [] => .error .outOfRange
  | result :: vec => vec.foldlM (fun result o => match result, o with
    | some a, some b => .ok (some (a + b))
    | _, _ => .error .assertion) result

/-- The sums of a `VectorAggregator`. -/
def aggregateVectors (vecSize : Nat) (vecs : List (List (Option G))) :
    Except Abort (List (Option G)) :=
  (range vecSize).mapM fun i => syncAggregate (vecs.map fun vec => vec.getD i none)

/-- One batch: the sums, and each share if they do not match. -/
def verifyBatch (forId : Option Uint256) (vecSize : Nat)
    (batch : List (List (Option G) × Option R)) : Except Abort (List Bool) := do
  let vvec ← aggregateVectors vecSize (batch.map Prod.fst)
  let skShare ← syncAggregate (batch.map Prod.snd)
  if skShare.isNone then return batch.map fun _ => false
  else if verifyContributionShare curve forId vvec skShare then return batch.map fun _ => true
  else return batch.map fun c => verifyContributionShare curve forId c.1 c.2

def batches {α : Type} (l : List α) : List (List α) :=
  (range ((l.length + 7) / 8)).map fun i => (l.drop (8 * i)).take 8

/-- `VerifyContributionShares`; `none` if it is never done, which is so without an entry or, for
the sums, without a column. -/
def verifyContributionShares (forId : Option Uint256) (aggregated : Bool)
    (shares : List (List (Option G) × Option R)) : Except Abort (Option (List Bool)) := do
  let vvecs := shares.map Prod.fst
  if forId.isNone || !verifyVerificationVectors curve vvecs then
    return some (shares.map fun _ => false)
  else if shares.isEmpty then return none
  else if aggregated then
    let results ← (batches shares).mapM (verifyBatch curve forId (vvecs.headD []).length)
    return if (vvecs.headD []).length = 0 then none else some results.flatten
  else return some (shares.map fun c => verifyContributionShare curve forId c.1 c.2)

/-! ## §3. What a batch finds. -/

/-- A step that succeeds on every element makes a `map`. -/
theorem mapM_eq_map {α β : Type} {f : α → Except Abort β} {g : α → β} {l : List α}
    (h : ∀ a ∈ l, f a = .ok (g a)) : l.mapM f = .ok (l.map g) := by
  induction l with
  | nil => rfl
  | cons a l ih =>
    rw [mapM_cons, h a mem_cons_self, ok_bind, ih fun b hb => h b (mem_cons_of_mem a hb)]
    rfl

/-- A vector and a share of valid keys. -/
def valid (d : List G × R) : List (Option G) × Option R := (d.1.map some, some d.2)

theorem verify_valid (id : Uint256) (d : List G × R) :
    verifyContributionShare curve (some id) (valid d).1 (valid d).2
      = decide (2 ≤ d.1.length ∧ miss curve id d = 0) := by
  have hkeys : ((d.1.map some).mapM fun pk => pk) = some d.1 :=
    mapM_map.trans (mapM_pure.trans (congrArg some (map_id _)))
  have hshare : publicKeyShare curve (valid d).1 (some id)
      = if d.1.length < 2 then none else some (horner (curve.scalar id) d.1) := by
    unfold publicKeyShare valid
    rw [hkeys]
    rfl
  unfold verifyContributionShare miss
  rw [hshare]
  by_cases hlength : d.1.length < 2
  · simp [hlength, not_le.mpr hlength]
  · simp [hlength, not_lt.mp hlength, sub_eq_zero, valid, @eq_comm G (d.2 • _)]

theorem syncAggregate_valid {α : Type} [AddCommMonoid α] {l : List α} (hne : l ≠ []) :
    syncAggregate (l.map some) = .ok (some l.sum) := by
  obtain ⟨a, l, rfl⟩ := exists_cons_of_ne_nil hne
  show (l.map some).foldlM _ (some a) = _
  rw [sum_cons]
  induction l generalizing a with
  | nil => simp
  | cons b l ih =>
    rw [map_cons, foldlM_cons, sum_cons, ← add_assoc]
    exact ih (a + b) (by simp)

theorem verifyBatch_valid (id : Uint256) {n : Nat}
    (hne : batch ≠ []) (h : ∀ d ∈ batch, d.1.length = n) :
    verifyBatch curve (some id) n (batch.map valid) = .ok (batch.map fun d =>
      verifyContributionShare curve (some id) (valid d).1 (valid d).2 ||
        decide (2 ≤ d.1.length ∧ (batch.map (miss curve id)).sum = 0)) := by
  have hvecs : aggregateVectors n ((batch.map valid).map Prod.fst)
      = .ok (valid (total n batch)).1 := by
    refine (mapM_eq_map fun i hi => ?_).trans (congrArg Except.ok map_map.symm)
    have hcolumn : ((batch.map valid).map Prod.fst).map (fun v => v.getD i none)
        = (batch.map fun d => d.1.getD i 0).map some := by
      simp only [map_map]
      refine map_congr_left fun d hd => ?_
      have hlt : i < d.1.length := h d hd ▸ mem_range.mp hi
      simp [valid, hlt]
    rw [hcolumn]
    exact syncAggregate_valid (by simpa using hne)
  have hshares : syncAggregate ((batch.map valid).map Prod.snd)
      = .ok (valid (total n batch)).2 := by
    have hsnd : (batch.map valid).map Prod.snd = (batch.map Prod.snd).map some := by simp [valid]
    rw [hsnd]
    exact syncAggregate_valid (by simpa using hne)
  have hlength : (total n batch).1.length = n := by simp [total]
  unfold verifyBatch
  rw [hvecs, hshares, ok_bind, ok_bind, if_neg (by simp [valid]), verify_valid, hlength,
    miss_total curve id h, map_map, map_map]
  by_cases hsum : 2 ≤ n ∧ (batch.map (miss curve id)).sum = 0
  · rw [if_pos (decide_eq_true hsum)]
    refine congrArg Except.ok (map_congr_left fun d hd => ?_)
    simp [h d hd, hsum]
  · rw [if_neg (by simpa using hsum)]
    refine congrArg Except.ok (map_congr_left fun d hd => ?_)
    simp [h d hd, hsum]

theorem flatten_batches {α : Type} (l : List α) : (batches l).flatten = l := by
  have htake : ∀ k, ((range k).map fun i => (l.drop (8 * i)).take 8).flatten
      = l.take (8 * k) := by
    intro k
    induction k with
    | zero => simp
    | succ k ih => simp [range_succ, ih, mul_add, take_add]
  exact (htake _).trans (take_of_length_le (by omega))

theorem batch_ne_nil {α : Type} {l batch : List α} (h : batch ∈ batches l) : batch ≠ [] := by
  obtain ⟨i, hi, rfl⟩ := mem_map.mp h
  have hlt := mem_range.mp hi
  simp
  omega

theorem batches_map {α β : Type} (f : α → β) (l : List α) :
    batches (l.map f) = (batches l).map (map f) := by
  simp [batches, map_take, map_drop]

/-- **What is found**: nothing if the vectors fail their check; one by one, whether each share
matches; with sums, for valid keys, whether it matches or the shares of its batch together miss
by zero. -/
theorem verifyContributionShares_verdicts (forId : Option Uint256)
    (shares : List (List (Option G) × Option R)) (hne : shares ≠ []) :
    (forId = none ∨ verifyVerificationVectors curve (shares.map Prod.fst) = false →
      ∀ aggregated, verifyContributionShares curve forId aggregated shares
        = .ok (some (shares.map fun _ => false))) ∧
    ∀ id, forId = some id → verifyVerificationVectors curve (shares.map Prod.fst) = true →
      verifyContributionShares curve forId false shares
        = .ok (some (shares.map fun c => verifyContributionShare curve forId c.1 c.2)) ∧
      ∀ ds, shares = ds.map valid → (∀ d ∈ ds, d.1 ≠ []) → (batches ds).flatten = ds ∧
        verifyContributionShares curve forId true shares
          = .ok (some ((batches ds).flatMap fun batch => batch.map fun d =>
              verifyContributionShare curve forId (valid d).1 (valid d).2 ||
                decide (2 ≤ d.1.length ∧ (batch.map (miss curve id)).sum = 0))) := by
  have hempty : ¬ shares.isEmpty := by simpa using hne
  unfold verifyContributionShares
  refine ⟨fun hbad aggregated => if_pos (by simpa using hbad), ?_⟩
  rintro id rfl hok
  have hpass : ¬ ((some id).isNone || !verifyVerificationVectors curve (shares.map Prod.fst)) := by
    simp [hok]
  rw [if_neg hpass, if_neg hempty, if_neg hpass, if_neg hempty]
  refine ⟨rfl, ?_⟩
  rintro ds rfl hsome
  refine ⟨flatten_batches ds, ?_⟩
  have hsize : ∀ d ∈ ds, d.1.length = (((ds.map valid).map Prod.fst).headD []).length := by
    intro d hd
    have hall := (Bool.and_eq_true_iff.mp hok).1
    have hvec := all_eq_true.mp hall (valid d).1 (mem_map_of_mem (mem_map_of_mem hd))
    simpa [valid] using (Bool.and_eq_true_iff.mp hvec).1
  have hcolumns : (((ds.map valid).map Prod.fst).headD []).length ≠ 0 := by
    obtain ⟨d, hd⟩ := exists_mem_of_ne_nil ds (by simpa using hne)
    rw [← hsize d hd]
    exact length_eq_zero_iff.not.mpr (hsome d hd)
  have hbatches := mapM_eq_map (f := verifyBatch curve (some id) _ ∘ map valid) fun batch hbatch =>
    verifyBatch_valid curve id (batch_ne_nil hbatch) fun d hd =>
      hsize d (flatten_batches ds ▸ mem_flatten_of_mem hbatch hd)
  rw [if_pos rfl, batches_map, mapM_map, hbatches, ok_bind, if_neg hcolumns]
  rfl

end Verifier

/-- A curve of 101 points. -/
def smallCurve : Curve (ZMod 101) (ZMod 101) := ⟨1, fun id => id.toNat, fun pk => pk.val⟩

/-- Two shares in one batch: the sums do not match, and the one that misses is found. -/
theorem verifyContributionShares_verdicts_two :
    verifyContributionShares smallCurve (some 1) true
        [([some 1, some 2], some 3), ([some 3, some 4], some 6)] = .ok (some [true, false]) := by
  have hverdicts := ((verifyContributionShares_verdicts smallCurve (some 1) _
    (cons_ne_nil _ _)).2 1 rfl rfl).2 [([1, 2], 3), ([3, 4], 6)] rfl (by decide)
  exact hverdicts.2.trans rfl

/-- **Shares are not verified alone**: two that miss by 1 and -1 are accepted together, a key that
is in two vectors makes both shares fail, and a share that is not valid ends the process. -/
theorem shares_not_alone :
    verifyContributionShares smallCurve (some 1) true
        [([some 1, some 2], some 4), ([some 3, some 4], some 6)] = .ok (some [true, true]) ∧
      verifyContributionShare smallCurve (some 1) [some 1, some 2] (some 4) = false ∧
      verifyContributionShares smallCurve (some 1) false
        [([some 1, some 2], some 3), ([some 2, some 5], some 7)] = .ok (some [false, false]) ∧
      verifyContributionShare smallCurve (some 1) [some 1, some 2] (some 3) = true ∧
      verifyContributionShares smallCurve (some 1) true
        [([some 1, some 2], some 3), ([some 3, some 4], none)] = .error .assertion :=
  ⟨rfl, rfl, rfl, rfl, rfl⟩

end Zcoin.Bls
