/-
  Zcoin.Llmq.BatchVerifier — verifying signatures in batches (`bls/bls_batchverifier.h`).

  Messages are collected, and every `subBatchSize` of them are verified together.  If a batch
  fails, each source is verified on its own, and then each message of a source that fails.
  `VerifyInsecureAggregated` alone is taken to hold exactly if every aggregated signature does;
  the grouping by hash, the duplicates and the steps of the secure verification are the code's.
-/
import Zcoin.Lib.Except
import Zcoin.Basic

namespace Zcoin.Llmq

open Lib Lib.Except List

/-! ## §1. Signatures. -/

/-- What is known of keys and signatures: which are well formed, and what verifies. -/
structure Bls (K S : Type) where
  /-- `CBLSSignature::IsValid` -/
  sigIsValid : S → Bool
  /-- `CBLSPublicKey::IsValid` -/
  keyIsValid : K → Bool
  /-- `impl.Verify` -/
  implVerify : S → K → Uint256 → Bool

/-- `CBLSSignature::VerifyInsecure`. -/
def Bls.verifyInsecure {K S : Type} (bls : Bls K S) (sig : S) (pubKey : K) (hash : Uint256) :
    Bool :=
  if !bls.sigIsValid sig || !bls.keyIsValid pubKey then false
  else bls.implVerify sig pubKey hash

/-- `VerifyInsecureAggregated`, given for each hash the signatures and keys that were aggregated. -/
def Bls.verifyInsecureAggregated {K S : Type} (bls : Bls K S)
    (aggregated : List (Uint256 × List (S × K))) : Bool :=
  aggregated.all fun group => group.2.all fun signer =>
    bls.verifyInsecure signer.1 signer.2 group.1

/-- `NodeId`. -/
abbrev NodeId := Int

/-- `CQuorum`, as far as signing needs it; the key of a quorum is well formed. -/
structure CQuorum {K S : Type} (bls : Bls K S) where
  quorumHash : Uint256
  quorumPublicKey : K
  valid : bls.keyIsValid quorumPublicKey = true

/-! ## §2. `CBLSBatchVerifier`. -/

/-- `CBLSBatchVerifier::Message`. -/
structure Message (I K S : Type) where
  msgId : I
  msgHash : Uint256
  sig : S
  pubKey : K

/-- `CBLSBatchVerifier`.  `messages` lists what was pushed since the last batch, each message
with its source: it stands for both `messages` and `messagesBySource`. -/
structure CBLSBatchVerifier (N I K S : Type) where
  secureVerification : Bool
  perMessageFallback : Bool
  subBatchSize : Nat
  messages : List (N × Message I K S) := []
  badSources : Finset N := ∅
  badMessages : Finset I := ∅

section Verifier

/-- Messages by their hashes. -/
abbrev ByHash (I K S : Type) := List (Uint256 × List (Message I K S))

variable {N I K S : Type}

/-- A message whose signature verifies. -/
def Message.verifies (bls : Bls K S) (message : Message I K S) : Bool :=
  bls.verifyInsecure message.sig message.pubKey message.msgHash

/-- `ClearMessages`. -/
def CBLSBatchVerifier.clearMessages (v : CBLSBatchVerifier N I K S) : CBLSBatchVerifier N I K S :=
  { v with messages := [] }

/-- `byMessageHash`: the messages of each hash. -/
def byMessageHash (batch : List (Message I K S)) : ByHash I K S :=
  (batch.map Message.msgHash).dedup.map fun hash =>
    (hash, batch.filter fun message => message.msgHash = hash)

variable [DecidableEq I]

/-- The messages of one hash in `VerifyBatchInsecure`: `dups`, and what is aggregated. -/
def aggregateNew (dups : Finset I) : List (Message I K S) → Finset I × List (S × K)
  | [] => (dups, [])
  | message :: group =>
    if message.msgId ∈ dups then aggregateNew dups group
    else
      let (dups, aggregated) := aggregateNew (insert message.msgId dups) group
      (dups, (message.sig, message.pubKey) :: aggregated)

/-- The loop of `VerifyBatchInsecure` over the hashes. -/
def aggregateGroups (dups : Finset I) :
    ByHash I K S → List (Uint256 × List (S × K))
  | [] => []
  | (hash, group) :: groups =>
    let (dups, aggregated) := aggregateNew dups group
    -- only duplicates for this hash
    if aggregated.isEmpty then aggregateGroups dups groups
    else (hash, aggregated) :: aggregateGroups dups groups

/-- `VerifyBatchInsecure`. -/
def verifyBatchInsecure (bls : Bls K S) (groups : ByHash I K S) : Bool :=
  let aggregated := aggregateGroups ∅ groups
  if aggregated.isEmpty then true else bls.verifyInsecureAggregated aggregated

/-- The last message of each hash. -/
def lastMessages (groups : ByHash I K S) : ByHash I K S :=
  groups.map fun group => (group.1, group.2.getLast?.toList)

/-- What is left of each hash once its last message is taken off. -/
def popMessages (groups : ByHash I K S) : ByHash I K S :=
  (groups.map fun group => (group.1, group.2.dropLast)).filter fun group => !group.2.isEmpty

omit [DecidableEq I] in
theorem popMessages_size (groups : ByHash I K S) :
    ((popMessages groups).map fun group => group.2.length + 1).sum ≤
      (groups.map fun group => group.2.length).sum := by
  induction groups with
  | nil => exact Nat.le_refl _
  | cons group groups ih =>
    unfold popMessages at ih ⊢
    rw [map_cons, filter_cons, map_cons, sum_cons]
    split
    · next hleft =>
      have hpos : group.2.dropLast ≠ [] := by simpa using hleft
      have hlength := length_pos_iff.mpr hpos
      rw [map_cons, sum_cons]
      rw [length_dropLast] at hlength ⊢
      omega
    · omega

/-- `VerifyBatchSecure`: a step aggregates the last message of each hash, unless it is a
duplicate.  The first one never is, so that the assertion after the loop holds. -/
def verifyBatchSecure (bls : Bls K S) : ByHash I K S → Bool
  | [] => true
  | group :: groups =>
    bls.verifyInsecureAggregated (aggregateGroups ∅ (lastMessages (group :: groups))) &&
      verifyBatchSecure bls (popMessages (group :: groups))
termination_by groups => (groups.map fun group => group.2.length + 1).sum
decreasing_by
  have hstep := popMessages_size (group :: groups)
  simp only [map_cons, sum_cons, sum_map_add] at hstep ⊢
  omega

/-- `VerifyBatch`. -/
def verifyBatch (bls : Bls K S) (secureVerification : Bool) (batch : List (Message I K S)) : Bool :=
  if secureVerification then verifyBatchSecure bls (byMessageHash batch)
  else verifyBatchInsecure bls (byMessageHash batch)

/-- The per-message verification of `Verify`. -/
def CBLSBatchVerifier.verifyMessage (bls : Bls K S) (v : CBLSBatchVerifier N I K S)
    (message : N × Message I K S) : CBLSBatchVerifier N I K S :=
  -- same message might be invalid from different source, so no need to re-verify it
  if message.2.msgId ∈ v.badMessages then v
  else if message.2.verifies bls then v
  else { v with badMessages := insert message.2.msgId v.badMessages }

variable [DecidableEq N]

/-- The map `messages`: one message for each id. -/
def CBLSBatchVerifier.messageMap (v : CBLSBatchVerifier N I K S) : List (Message I K S) :=
  (v.messages.map Prod.snd).pwFilter fun message message' => message.msgId ≠ message'.msgId

/-- The sources of the current batch. -/
def CBLSBatchVerifier.sources (v : CBLSBatchVerifier N I K S) : List N :=
  (v.messages.map Prod.fst).dedup

variable (bls : Bls K S)

/-- `messagesBySource`. -/
def CBLSBatchVerifier.messagesBySource (v : CBLSBatchVerifier N I K S) (source : N) :
    List (N × Message I K S) :=
  v.messages.filter fun message => message.1 = source

/-- The per-source verification of `Verify`; `onlyOne` says that there was just one source. -/
def CBLSBatchVerifier.verifySource (onlyOne : Bool) (v : CBLSBatchVerifier N I K S) (source : N) :
    CBLSBatchVerifier N I K S :=
  let own := v.messagesBySource source
  -- no need to verify it again if there was just one source
  let batchValid :=
    if onlyOne then false else verifyBatch bls v.secureVerification (own.map Prod.snd)
  if batchValid then v
  else
    let v := { v with badSources := insert source v.badSources }
    if v.perMessageFallback then
      match own with
      -- no need to re-verify a single message
      | [message] => { v with badMessages := insert message.2.msgId v.badMessages }
      | _ => own.foldl (CBLSBatchVerifier.verifyMessage bls) v
    else v

variable (v : CBLSBatchVerifier N I K S)

/-- `Verify`; the sets it fills do not depend on the order of the sources. -/
def CBLSBatchVerifier.verify : CBLSBatchVerifier N I K S :=
  if verifyBatch bls v.secureVerification v.messageMap then v
  else v.sources.foldl (CBLSBatchVerifier.verifySource bls (v.sources.length = 1)) v

/-- `PushMessage`. -/
def CBLSBatchVerifier.pushMessage (sourceId : N) (msgId : I) (msgHash : Uint256) (sig : S)
    (pubKey : K) : Except Abort (CBLSBatchVerifier N I K S) := do
  assertThat (bls.sigIsValid sig && bls.keyIsValid pubKey)
  -- `emplace` keeps a message that is already there
  let message := match v.messages.find? fun message => message.2.msgId = msgId with
    | some known => known.2
    | none => { msgId, msgHash, sig, pubKey }
  let v := { v with messages := v.messages ++ [(sourceId, message)] }
  if v.subBatchSize ≠ 0 ∧ v.messageMap.length ≥ v.subBatchSize then
    return (v.verify bls).clearMessages
  else return v

end Verifier

open CBLSBatchVerifier

/-! ## §3. `VerifyBatch`. -/

section Batch

variable {I K S : Type}

/-- Messages of one id verify or fail together. -/
def Agreeing (bls : Bls K S) (batch : List (Message I K S)) : Prop :=
  ∀ m ∈ batch, ∀ m' ∈ batch, m.msgId = m'.msgId → m.verifies bls = m'.verifies bls

/-- Each message is under its hash. -/
def Grouped (groups : ByHash I K S) : Prop :=
  ∀ group ∈ groups, ∀ m ∈ group.2, m.msgHash = group.1

variable {bls : Bls K S} {batch : List (Message I K S)}

theorem Agreeing.subset {batch' : List (Message I K S)} (h : Agreeing bls batch)
    (hsub : batch' ⊆ batch) : Agreeing bls batch' :=
  fun m hm m' hm' => h m (hsub hm) m' (hsub hm')

theorem grouped_byMessageHash : Grouped (byMessageHash batch) := by
  intro group hgroup m hm
  obtain ⟨hash, -, rfl⟩ := mem_map.mp hgroup
  exact of_decide_eq_true (mem_filter.mp hm).2

theorem mem_byMessageHash {m : Message I K S} :
    m ∈ (byMessageHash batch).flatMap Prod.snd ↔ m ∈ batch := by
  rw [mem_flatMap]
  constructor
  · rintro ⟨group, hgroup, hm⟩
    obtain ⟨hash, -, rfl⟩ := mem_map.mp hgroup
    exact (mem_filter.mp hm).1
  · intro hm
    exact ⟨_, mem_map_of_mem (mem_dedup.mpr (mem_map_of_mem hm)),
      mem_filter.mpr ⟨hm, decide_eq_true rfl⟩⟩

variable [DecidableEq I]

theorem mem_aggregateNew {dups : Finset I} {group : List (Message I K S)} {i : I}
    (hi : i ∈ (aggregateNew dups group).1) : i ∈ dups ∨ ∃ m ∈ group, m.msgId = i := by
  induction group generalizing dups with
  | nil => exact .inl hi
  | cons m group ih =>
    unfold aggregateNew at hi
    split at hi
    · exact (ih hi).imp_right fun ⟨m', hm', heq⟩ => ⟨m', mem_cons_of_mem _ hm', heq⟩
    · rcases ih hi with hin | ⟨m', hm', heq⟩
      · rcases Finset.mem_insert.mp hin with heq | hin
        · exact .inr ⟨m, mem_cons_self, heq.symm⟩
        · exact .inl hin
      · exact .inr ⟨m', mem_cons_of_mem _ hm', heq⟩

/-- The ids of `dups` are of messages that verify. -/
def Passed (bls : Bls K S) (dups : Finset I) (batch : List (Message I K S)) : Prop :=
  ∀ m ∈ batch, m.msgId ∈ dups → m.verifies bls = true

omit [DecidableEq I] in
theorem passed_empty (batch : List (Message I K S)) : Passed bls ∅ batch :=
  fun _ _ h => absurd h (Finset.notMem_empty _)

theorem Passed.insert {dups : Finset I} {m : Message I K S} {group : List (Message I K S)}
    (h : Passed bls dups batch) (hagree : Agreeing bls batch) (hm : m ∈ batch)
    (hverifies : m.verifies bls = true) (hsub : group ⊆ batch) :
    Passed bls (insert m.msgId dups) group := by
  intro m' hm' hin
  rcases Finset.mem_insert.mp hin with heq | hin
  · rw [hagree m' (hsub hm') m hm heq, hverifies]
  · exact h m' (hsub hm') hin

theorem aggregateNew_spec {dups : Finset I} {group : List (Message I K S)} {hash : Uint256}
    (hhash : ∀ m ∈ group, m.msgHash = hash) (hagree : Agreeing bls group)
    (hpassed : Passed bls dups group) :
    ((aggregateNew dups group).2.all fun signer => bls.verifyInsecure signer.1 signer.2 hash) =
      group.all (·.verifies bls) := by
  induction group generalizing dups with
  | nil => rfl
  | cons m group ih =>
    have hrest := subset_cons_self m group
    have hrun := fun dups =>
      @ih dups (fun m' hm' => hhash m' (hrest hm')) (hagree.subset hrest)
    unfold aggregateNew
    rw [all_cons]
    split
    · next hdup =>
      rw [hpassed m mem_cons_self hdup, Bool.true_and]
      exact hrun _ fun m' hm' => hpassed m' (hrest hm')
    · have hm : bls.verifyInsecure m.sig m.pubKey hash = m.verifies bls := by
        rw [← hhash m mem_cons_self]
        rfl
      rw [all_cons, hm]
      cases hverifies : m.verifies bls with
      | false => rfl
      | true => rw [hrun _ (hpassed.insert hagree mem_cons_self hverifies hrest)]

variable {groups : ByHash I K S}

/-- **`VerifyBatchInsecure`** skips duplicates only of what it verifies. -/
theorem aggregateGroups_spec {dups : Finset I} (hhash : Grouped groups)
    (hagree : Agreeing bls (groups.flatMap Prod.snd))
    (hpassed : Passed bls dups (groups.flatMap Prod.snd)) :
    bls.verifyInsecureAggregated (aggregateGroups dups groups) =
      (groups.flatMap Prod.snd).all (·.verifies bls) := by
  induction groups generalizing dups with
  | nil => rfl
  | cons entry groups ih =>
    obtain ⟨hash, group⟩ := entry
    rw [flatMap_cons] at hagree hpassed ⊢
    have hleft := subset_append_left group (groups.flatMap Prod.snd)
    have hright := subset_append_right group (groups.flatMap Prod.snd)
    have hgroup := aggregateNew_spec (hhash _ mem_cons_self) (hagree.subset hleft)
      (show Passed bls dups group from fun m hm => hpassed m (hleft hm))
    -- the ids of a group that verifies may be skipped from then on
    have hrest : group.all (·.verifies bls) = true →
        bls.verifyInsecureAggregated (aggregateGroups (aggregateNew dups group).1 groups) =
          (groups.flatMap Prod.snd).all (·.verifies bls) := by
      intro hall
      refine ih (fun g hg => hhash g (mem_cons_of_mem _ hg)) (hagree.subset hright) ?_
      intro m hm hin
      rcases mem_aggregateNew hin with hin | ⟨m', hm', heq⟩
      · exact hpassed m (hright hm) hin
      · rw [hagree m (hright hm) m' (hleft hm') heq.symm, all_eq_true.mp hall m' hm']
    unfold aggregateGroups
    dsimp only
    rw [all_append]
    split
    · next hempty =>
      rw [isEmpty_iff.mp hempty] at hgroup
      rw [hrest hgroup.symm, ← hgroup]
      rfl
    · show ((aggregateNew dups group).2.all _ && bls.verifyInsecureAggregated _) = _
      rw [hgroup]
      cases hall : group.all (·.verifies bls) with
      | false => rfl
      | true => rw [hrest hall]

omit [DecidableEq I] in
theorem mem_flatMap_snd_iff {m : Message I K S} : m ∈ groups.flatMap Prod.snd ↔
    m ∈ (lastMessages groups).flatMap Prod.snd ∨ m ∈ (popMessages groups).flatMap Prod.snd := by
  have hsplit : ∀ l : List (Message I K S), m ∈ l ↔ m ∈ l.getLast?.toList ∨ m ∈ l.dropLast := by
    intro l
    rcases eq_nil_or_concat l with rfl | ⟨l, last, rfl⟩
    · simp
    · simp [or_comm]
  have hleft : ∀ l : List (Message I K S), m ∈ l ↔ (!l.isEmpty) = true ∧ m ∈ l := by
    intro l
    refine ⟨fun hm => ⟨?_, hm⟩, And.right⟩
    rw [Bool.not_eq_true', isEmpty_eq_false_iff]
    exact ne_nil_of_mem hm
  simp only [mem_flatMap, lastMessages, popMessages, mem_filter, mem_map, exists_exists_and_eq_and,
    and_assoc, ← exists_or, ← and_or_left, ← hleft, ← hsplit]

theorem verifyBatchSecure_eq (hhash : Grouped groups)
    (hagree : Agreeing bls (groups.flatMap Prod.snd)) :
    verifyBatchSecure bls groups = (groups.flatMap Prod.snd).all (·.verifies bls) := by
  induction groups using verifyBatchSecure.induct with
  | case1 => rw [verifyBatchSecure]; rfl
  | case2 group groups ih =>
    have hlast : Grouped (lastMessages (group :: groups)) := by
      intro g hg m hm
      obtain ⟨old, hold, rfl⟩ := mem_map.mp hg
      exact hhash old hold m (mem_of_getLast? (Option.mem_toList.mp hm))
    have hleft : Grouped (popMessages (group :: groups)) := by
      intro g hg m hm
      obtain ⟨old, hold, rfl⟩ := mem_map.mp (mem_filter.mp hg).1
      exact hhash old hold m (mem_of_mem_dropLast hm)
    rw [verifyBatchSecure,
      ih hleft (hagree.subset fun m hm => mem_flatMap_snd_iff.mpr (.inr hm)),
      aggregateGroups_spec hlast (hagree.subset fun m hm => mem_flatMap_snd_iff.mpr (.inl hm))
        (passed_empty _), ← all_append, Bool.eq_iff_iff]
    simp only [all_eq_true, mem_append, ← mem_flatMap_snd_iff]

/-- **`VerifyBatch`** of messages that agree, in either mode, holds if every signature verifies. -/
theorem verifyBatch_iff (secureVerification : Bool) (hagree : Agreeing bls batch) :
    verifyBatch bls secureVerification batch = true ↔ ∀ m ∈ batch, m.verifies bls = true := by
  have hagree' : Agreeing bls ((byMessageHash batch).flatMap Prod.snd) :=
    hagree.subset fun m => mem_byMessageHash.mp
  have hall : ((byMessageHash batch).flatMap Prod.snd).all (·.verifies bls) = true ↔
      ∀ m ∈ batch, m.verifies bls = true := by
    simp only [all_eq_true, mem_byMessageHash]
  rw [← hall]
  unfold verifyBatch
  split
  · rw [verifyBatchSecure_eq grouped_byMessageHash hagree']
  · rw [← aggregateGroups_spec grouped_byMessageHash hagree' (passed_empty _)]
    unfold verifyBatchInsecure
    dsimp only
    split
    · next hempty =>
      rw [isEmpty_iff.mp hempty]
      rfl
    · rfl

end Batch

/-! ## §4. What a batch leaves. -/

section Batches

variable {N I K S : Type}

/-- A verifier that differs from another one in its bad sources and messages only, by those of
the messages given. -/
structure Verified (bls : Bls K S) (batch : List (N × Message I K S))
    (v v' : CBLSBatchVerifier N I K S) : Prop where
  fallback : v'.perMessageFallback = v.perMessageFallback
  size : v'.subBatchSize = v.subBatchSize
  messages : v'.messages = v.messages
  sources : ∀ n, n ∈ v'.badSources ↔
    n ∈ v.badSources ∨ ∃ m ∈ batch, m.1 = n ∧ m.2.verifies bls = false
  bad : v.perMessageFallback = true → ∀ i, i ∈ v'.badMessages ↔
    i ∈ v.badMessages ∨ ∃ m ∈ batch, m.2.msgId = i ∧ m.2.verifies bls = false

variable {bls : Bls K S} {batch : List (N × Message I K S)}

theorem Verified.refl (h : ∀ m ∈ batch, m.2.verifies bls = true) (v : CBLSBatchVerifier N I K S) :
    Verified bls batch v v := by
  have hnone : ∀ m ∈ batch, m.2.verifies bls ≠ false := by
    intro m hm
    rw [h m hm]
    exact Bool.false_ne_true.symm
  refine ⟨rfl, rfl, rfl, fun n => ?_, fun _ i => ?_⟩
  · exact (or_iff_left fun ⟨m, hm, _, hfails⟩ => hnone m hm hfails).symm
  · exact (or_iff_left fun ⟨m, hm, _, hfails⟩ => hnone m hm hfails).symm

theorem Verified.trans {batch₁ batch₂ : List (N × Message I K S)}
    {v v₁ v₂ : CBLSBatchVerifier N I K S} (h₁ : Verified bls batch₁ v v₁)
    (h₂ : Verified bls batch₂ v₁ v₂) : Verified bls (batch₁ ++ batch₂) v v₂ where
  fallback := h₂.fallback.trans h₁.fallback
  size := h₂.size.trans h₁.size
  messages := h₂.messages.trans h₁.messages
  sources := by
    intro n
    rw [h₂.sources, h₁.sources]
    simp only [mem_append, or_and_right, exists_or, or_assoc]
  bad := by
    intro hfallback i
    rw [h₂.bad (h₁.fallback.trans hfallback), h₁.bad hfallback]
    simp only [mem_append, or_and_right, exists_or, or_assoc]

theorem Verified.congr {batch' : List (N × Message I K S)} {v v' : CBLSBatchVerifier N I K S}
    (h : Verified bls batch v v') (hbatch : ∀ m, m ∈ batch ↔ m ∈ batch') :
    Verified bls batch' v v' where
  fallback := h.fallback
  size := h.size
  messages := h.messages
  sources := by
    intro n
    rw [h.sources]
    simp only [hbatch]
  bad := by
    intro hfallback i
    rw [h.bad hfallback]
    simp only [hbatch]

theorem exists_fails (h : ¬ ∀ m ∈ batch, m.2.verifies bls = true) :
    ∃ m ∈ batch, m.2.verifies bls = false := by
  simpa using h

variable [DecidableEq I]

theorem verifyMessages_bad (bls : Bls K S) (own : List (N × Message I K S))
    (v : CBLSBatchVerifier N I K S) :
    own.foldl (verifyMessage bls) v = { v with
      badMessages := (own.foldl (verifyMessage bls) v).badMessages } ∧
    ∀ i, i ∈ (own.foldl (verifyMessage bls) v).badMessages ↔
      i ∈ v.badMessages ∨ ∃ m ∈ own, m.2.msgId = i ∧ m.2.verifies bls = false := by
  induction own generalizing v with
  | nil => simp
  | cons m own ih =>
    -- a message that is known to be bad is bad once more
    have hstep : v.verifyMessage bls m = { v with
        badMessages := if m.2.verifies bls then v.badMessages
          else insert m.2.msgId v.badMessages } := by
      unfold verifyMessage
      split
      · next hknown => rw [Finset.insert_eq_self.mpr hknown, ite_self]
      · split <;> rfl
    rw [foldl_cons, hstep]
    obtain ⟨hfields, hbad⟩ := ih { v with badMessages := _ }
    refine ⟨hfields, fun i => (hbad i).trans ?_⟩
    cases hverifies : m.2.verifies bls with
    | true => simp [hverifies]
    | false => simp [hverifies, or_assoc, or_left_comm, @eq_comm _ m.2.msgId]

end Batches

section Sources

variable {N I K S : Type} [DecidableEq N] [DecidableEq I]

/-- **A source that fails** is blamed, and with it, one by one, its messages that fail. -/
theorem verified_blamed {bls : Bls K S} {v : CBLSBatchVerifier N I K S} {source : N}
    {own : List (N × Message I K S)} : (∀ m ∈ own, m.1 = source) →
    (∃ m ∈ own, m.2.verifies bls = false) → Verified bls own v (if v.perMessageFallback then
      match own with
      | [message] => { v with
          badSources := insert source v.badSources
          badMessages := insert message.2.msgId v.badMessages }
      | _ => own.foldl (verifyMessage bls) { v with badSources := insert source v.badSources }
      else { v with badSources := insert source v.badSources }) := by
  intro howner hfails
  have hsources : ∀ n, n ∈ insert source v.badSources ↔ n ∈ v.badSources ∨
      ∃ m ∈ own, m.1 = n ∧ m.2.verifies bls = false := by
    intro n
    rw [Finset.mem_insert, or_comm]
    refine or_congr_right ⟨?_, ?_⟩
    · rintro rfl
      obtain ⟨m, hm, hbad⟩ := hfails
      exact ⟨m, hm, howner m hm, hbad⟩
    · rintro ⟨m, hm, hsame, -⟩
      rw [← hsame, howner m hm]
  by_cases hfallback : v.perMessageFallback = true
  swap
  · rw [if_neg hfallback]
    exact ⟨rfl, rfl, rfl, hsources, fun h => absurd h hfallback⟩
  rw [if_pos hfallback]
  split
  · next message =>
    refine ⟨rfl, rfl, rfl, hsources, fun _ i => ?_⟩
    obtain ⟨m, hm, hbad⟩ := hfails
    cases mem_singleton.mp hm
    simp [hbad, or_comm, @eq_comm _ i]
  · obtain ⟨hfields, hbad⟩ := verifyMessages_bad bls own
      { v with badSources := insert source v.badSources }
    refine ⟨?_, ?_, ?_, fun n => ?_, fun _ => hbad⟩ <;> rw [hfields]
    exact hsources n

/-- **One source**: it is bad if one of its messages fails, and just these are bad. -/
theorem verifySource_spec {bls : Bls K S} {v : CBLSBatchVerifier N I K S} {onlyOne : Bool}
    {source : N} (hagree : Agreeing bls (v.messages.map Prod.snd)) (honly : onlyOne = true →
      ∃ m ∈ v.messagesBySource source, m.2.verifies bls = false) :
    Verified bls (v.messagesBySource source) v (v.verifySource bls onlyOne source) := by
  have howner : ∀ m ∈ v.messagesBySource source, m.1 = source := by simp [messagesBySource]
  have hsub : v.messagesBySource source ⊆ v.messages := filter_subset_self _
  unfold verifySource
  generalize v.messagesBySource source = own at *
  dsimp only
  have hvalid_iff := verifyBatch_iff v.secureVerification (hagree.subset (map_subset _ hsub))
  rw [forall_mem_map] at hvalid_iff
  cases onlyOne with
  | true =>
    rw [if_pos rfl, if_neg Bool.false_ne_true]
    exact verified_blamed howner (honly rfl)
  | false =>
    rw [if_neg Bool.false_ne_true]
    split
    · next hvalid => exact Verified.refl (hvalid_iff.mp hvalid) v
    · next hinvalid => exact verified_blamed howner (exists_fails (mt hvalid_iff.mpr hinvalid))

omit [DecidableEq N] in
theorem forall_messageMap {bls : Bls K S} {v : CBLSBatchVerifier N I K S}
    (hagree : Agreeing bls (v.messages.map Prod.snd)) :
    (∀ m ∈ v.messageMap, m.verifies bls = true) ↔ ∀ m ∈ v.messages, m.2.verifies bls = true := by
  constructor
  · intro hall m hm
    have hmem : m.2 ∈ v.messages.map Prod.snd := mem_map_of_mem hm
    by_contra hbad
    have hnone : ∀ m' ∈ v.messageMap, m.2.msgId ≠ m'.msgId := by
      intro m' hm' hid
      rw [hagree _ hmem m' (pwFilter_subset _ hm') hid] at hbad
      exact hbad (hall m' hm')
    refine (forall_mem_pwFilter ?_ m.2 _).mp hnone m.2 hmem rfl
    intro x y z hxz
    exact or_iff_not_imp_left.mpr fun hxy hyz => hxz ((not_not.mp hxy).trans hyz)
  · intro hall m hm
    obtain ⟨p, hp, rfl⟩ := mem_map.mp (pwFilter_subset _ hm)
    exact hall p hp

/-- **`Verify`** reports exactly the messages that fail, and their sources. -/
theorem verify_spec {bls : Bls K S} {v : CBLSBatchVerifier N I K S}
    (hagree : Agreeing bls (v.messages.map Prod.snd)) :
    Verified bls v.messages v (v.verify bls) := by
  have hvalid_iff := (verifyBatch_iff v.secureVerification
    (hagree.subset (pwFilter_subset _))).trans (forall_messageMap hagree)
  unfold verify
  split
  · next hvalid => exact Verified.refl (hvalid_iff.mp hvalid) v
  · next hinvalid =>
    have hfails := exists_fails (mt hvalid_iff.mpr hinvalid)
    have hmem : ∀ m ∈ v.messages, m.1 ∈ v.sources := by
      intro m hm
      exact mem_dedup.mpr (mem_map_of_mem hm)
    -- a single source owns all messages
    have honly : ∀ source ∈ v.sources, decide (v.sources.length = 1) = true →
        ∃ m ∈ v.messagesBySource source, m.2.verifies bls = false := by
      intro source hsource hone
      obtain ⟨only, heq⟩ := length_eq_one_iff.mp (of_decide_eq_true hone)
      obtain ⟨m, hm, hbad⟩ := hfails
      refine ⟨m, mem_filter.mpr ⟨hm, decide_eq_true ?_⟩, hbad⟩
      have hm' := hmem m hm
      rw [heq, mem_singleton] at hsource hm'
      rw [hsource, hm']
    -- the sources walked through so far have been judged, the messages stay
    have hloop : ∀ ss ⊆ v.sources, Verified bls (v.messages.filter fun m => m.1 ∈ ss) v
        (ss.foldl (verifySource bls (v.sources.length = 1)) v) := by
      intro ss
      induction ss using reverseRecOn with
      | nil => exact fun _ => Verified.refl (by simp) v
      | append_singleton ss source ih =>
        intro hsub
        have hbefore := ih fun n hn => hsub (mem_append_left _ hn)
        have hstep := @verifySource_spec N I K S _ _ bls _ (v.sources.length = 1) source
          (by rwa [hbefore.messages]) (by
            unfold messagesBySource
            rw [hbefore.messages]
            exact honly source (hsub (mem_append_right ss mem_cons_self)))
        unfold messagesBySource at hstep
        rw [hbefore.messages] at hstep
        rw [foldl_append]
        refine (hbefore.trans hstep).congr ?_
        intro m
        simp only [mem_append, mem_filter, mem_singleton, decide_eq_true_eq]
        tauto
    refine (hloop v.sources (List.Subset.refl _)).congr ?_
    intro m
    rw [mem_filter]
    refine ⟨fun h => h.1, fun h => ⟨h, decide_eq_true (hmem m h)⟩⟩

end Sources

/-! ## §5. Runs of `PushMessage`. -/

section Pushes

variable {N I K S : Type} [DecidableEq N] [DecidableEq I]

/-- Calls of `PushMessage`, then `Verify`. -/
def CBLSBatchVerifier.pushAll (bls : Bls K S) (v : CBLSBatchVerifier N I K S) :
    List (N × Message I K S) → Except Abort (CBLSBatchVerifier N I K S)
  | [] => .ok (v.verify bls)
  | (source, message) :: pushes => do
    let v ← v.pushMessage bls source message.msgId message.msgHash message.sig message.pubKey
    v.pushAll bls pushes

/-- What waits under the id of a message verifies just if the message does. -/
def CBLSBatchVerifier.Agrees (bls : Bls K S) (v : CBLSBatchVerifier N I K S)
    (message : Message I K S) : Prop :=
  ∀ known ∈ v.messages, known.2.msgId = message.msgId → known.2.verifies bls = message.verifies bls

/-- Every message agrees with what waits under its id when it is pushed. -/
def CBLSBatchVerifier.AgreeingRun (bls : Bls K S) (v : CBLSBatchVerifier N I K S) :
    List (N × Message I K S) → Prop
  | [] => True
  | (source, message) :: pushes => v.Agrees bls message ∧
      match v.pushMessage bls source message.msgId message.msgHash message.sig message.pubKey with
      | .ok v => v.AgreeingRun bls pushes
      | .error _ => True

/-- The bad sources and messages, together with those that wait, are those of the calls made. -/
structure Reports (bls : Bls K S) (calls : List (N × Message I K S))
    (v : CBLSBatchVerifier N I K S) : Prop where
  agreeing : Agreeing bls (v.messages.map Prod.snd)
  sources : ∀ n, (n ∈ v.badSources ∨ ∃ m ∈ v.messages, m.1 = n ∧ m.2.verifies bls = false) ↔
    ∃ m ∈ calls, m.1 = n ∧ m.2.verifies bls = false
  bad : v.perMessageFallback = true → ∀ i,
    (i ∈ v.badMessages ∨ ∃ m ∈ v.messages, m.2.msgId = i ∧ m.2.verifies bls = false) ↔
      ∃ m ∈ calls, m.2.msgId = i ∧ m.2.verifies bls = false

variable {bls : Bls K S} {calls : List (N × Message I K S)} {v : CBLSBatchVerifier N I K S}
  (h : Reports bls calls v)
include h

omit [DecidableEq N] [DecidableEq I] in
theorem Reports.append (source : N) {kept message : Message I K S}
    (hagrees : v.Agrees bls message) (hid : kept.msgId = message.msgId)
    (hsame : kept.verifies bls = message.verifies bls) :
    Reports bls (calls ++ [(source, message)])
      { v with messages := v.messages ++ [(source, kept)] } where
  agreeing := by
    have hknown : ∀ m ∈ v.messages.map Prod.snd, m.msgId = kept.msgId →
        m.verifies bls = kept.verifies bls := by
      intro m hm heq
      obtain ⟨p, hp, rfl⟩ := mem_map.mp hm
      rw [hagrees p hp (heq.trans hid), hsame]
    intro m hm m' hm' heq
    rw [map_append, mem_append, map_singleton, mem_singleton] at hm hm'
    rcases hm with hm | rfl <;> rcases hm' with hm' | rfl
    · exact h.agreeing m hm m' hm' heq
    · exact hknown m hm heq
    · exact (hknown m' hm' heq.symm).symm
    · rfl
  sources := by
    intro n
    simp only [mem_append, mem_singleton, or_and_right, exists_or, exists_eq_left]
    rw [← h.sources n, hsame, or_assoc]
  bad := by
    intro hfallback i
    simp only [mem_append, mem_singleton, or_and_right, exists_or, exists_eq_left]
    rw [← h.bad hfallback i, hsame, hid, or_assoc]

theorem Reports.flush : Reports bls calls (v.verify bls).clearMessages := by
  have hverified := verify_spec h.agreeing
  refine ⟨by simp [clearMessages, Agreeing], ?_, ?_⟩
  · intro n
    rw [← h.sources n, ← hverified.sources n]
    simp [clearMessages]
  · intro hfallback i
    have hsame : v.perMessageFallback = true := hverified.fallback.symm.trans hfallback
    rw [← h.bad hsame i, ← hverified.bad hsame i]
    simp [clearMessages]

/-- **One call** of `PushMessage`: the message, or the one that waits under its id, is added, and
a full batch is verified. -/
theorem Reports.push (source : N) {message : Message I K S}
    (hsig : bls.sigIsValid message.sig = true) (hkey : bls.keyIsValid message.pubKey = true)
    (hagrees : v.Agrees bls message) :
    ∃ v', v.pushMessage bls source message.msgId message.msgHash message.sig message.pubKey =
        .ok v' ∧ Reports bls (calls ++ [(source, message)]) v' ∧
      v'.perMessageFallback = v.perMessageFallback := by
  obtain ⟨kept, hkept, hid, hsame⟩ : ∃ kept : Message I K S,
      (match v.messages.find? fun m => m.2.msgId = message.msgId with
        | some known => known.2
        | none => { message with }) = kept ∧ kept.msgId = message.msgId ∧
      kept.verifies bls = message.verifies bls := by
    cases hfind : v.messages.find? fun m => m.2.msgId = message.msgId with
    | none => exact ⟨message, rfl, rfl, rfl⟩
    | some known =>
      have hfound := find?_some hfind
      rw [decide_eq_true_eq] at hfound
      exact ⟨known.2, rfl, hfound, hagrees known (mem_of_find?_eq_some hfind) hfound⟩
  have hadded := h.append source hagrees hid hsame
  unfold pushMessage
  rw [hsig, hkey, hkept]
  dsimp only
  rw [Bool.and_self, assertThat_true, ok_bind]
  split
  · refine ⟨_, rfl, hadded.flush, ?_⟩
    exact (verify_spec hadded.agreeing).fallback
  · exact ⟨_, rfl, hadded, rfl⟩

/-- **Any run of calls**, and `Verify` at its end. -/
theorem pushAll_spec {pushes : List (N × Message I K S)}
    (hformed : ∀ p ∈ pushes, bls.sigIsValid p.2.sig = true ∧ bls.keyIsValid p.2.pubKey = true)
    (hagree : v.AgreeingRun bls pushes) :
    ∃ v', v.pushAll bls pushes = .ok v' ∧
      (∀ n, n ∈ v'.badSources ↔ ∃ p ∈ calls ++ pushes, p.1 = n ∧ p.2.verifies bls = false) ∧
      (v.perMessageFallback = true → ∀ i, i ∈ v'.badMessages ↔
        ∃ p ∈ calls ++ pushes, p.2.msgId = i ∧ p.2.verifies bls = false) := by
  induction pushes generalizing calls v with
  | nil =>
    have hverified := verify_spec h.agreeing
    rw [append_nil]
    refine ⟨_, rfl, ?_, ?_⟩
    · intro n
      rw [hverified.sources n, h.sources n]
    · intro hfallback i
      rw [hverified.bad hfallback i, h.bad hfallback i]
  | cons push pushes ih =>
    obtain ⟨source, message⟩ := push
    obtain ⟨hsig, hkey⟩ := hformed (source, message) mem_cons_self
    obtain ⟨hagrees, hrest⟩ := hagree
    obtain ⟨v₁, hrun, h₁, hsame⟩ := h.push source hsig hkey hagrees
    rw [hrun] at hrest
    obtain ⟨v', hrun', hsources, hbad⟩ :=
      ih h₁ (fun p hp => hformed p (mem_cons_of_mem _ hp)) hrest
    rw [hsame, append_assoc] at hbad
    rw [append_assoc] at hsources
    refine ⟨v', ?_, hsources, hbad⟩
    unfold pushAll
    rw [hrun, ok_bind, hrun']

omit h

/-- **The verdicts are exact** as long as no id is pushed again, while its message waits, with a
signature of the other kind: a source is bad just if it pushed a signature that fails, and a
message just if it was pushed with one. -/
theorem batchVerifier_exact (bls : Bls K S) (secureVerification perMessageFallback : Bool)
    (subBatchSize : Nat)
    (pushes : List (N × Message I K S))
    (hformed : ∀ p ∈ pushes, bls.sigIsValid p.2.sig = true ∧ bls.keyIsValid p.2.pubKey = true)
    (hagree : CBLSBatchVerifier.AgreeingRun bls
      { secureVerification, perMessageFallback, subBatchSize } pushes) :
    ∃ v', CBLSBatchVerifier.pushAll bls
        { secureVerification, perMessageFallback, subBatchSize } pushes = .ok v' ∧
      (∀ n, n ∈ v'.badSources ↔ ∃ p ∈ pushes, p.1 = n ∧ p.2.verifies bls = false) ∧
      (perMessageFallback = true → ∀ i, i ∈ v'.badMessages ↔
        ∃ p ∈ pushes, p.2.msgId = i ∧ p.2.verifies bls = false) := by
  have hstart : Reports bls ([] : List (N × Message I K S))
      { secureVerification, perMessageFallback, subBatchSize } := by
    refine ⟨by simp [Agreeing], ?_, ?_⟩
    · intro n
      simp
    · intro _ i
      simp
  exact pushAll_spec hstart hformed hagree

end Pushes

/-- Signatures that verify if they say so. -/
def plainBls : Bls Unit Bool := ⟨fun _ => true, fun _ => true, fun sig _ _ => sig⟩

/-- Peers push messages 1 and 2, and peer 7 pushes message 1 again. -/
def collidingPushes (sig : Bool) : List (Nat × Message Nat Unit Bool) :=
  [(5, ⟨1, 10, true, ()⟩), (6, ⟨2, 20, false, ()⟩), (7, ⟨1, 10, sig, ()⟩)]

/-- Peer 7 repeats what peer 5 pushed: peer 6 alone is bad. -/
theorem batchVerifier_exact_repeated :
    ∃ v', CBLSBatchVerifier.pushAll plainBls ⟨false, true, 0, [], ∅, ∅⟩ (collidingPushes true) =
        .ok v' ∧
      ∀ n, n ∈ v'.badSources ↔
        ∃ p ∈ collidingPushes true, p.1 = n ∧ p.2.verifies plainBls = false := by
  have hagree : AgreeingRun plainBls ⟨false, true, 0, [], ∅, ∅⟩
      (collidingPushes true) := by
    refine ⟨?_, ?_, ?_, trivial⟩ <;> unfold Agrees <;> decide
  obtain ⟨v', hrun, hsources, -⟩ :=
    batchVerifier_exact plainBls false true 0 (collidingPushes true) (by decide) hagree
  exact ⟨v', hrun, hsources⟩

/-- **A signature that fails is not seen** behind another one of its id: peer 7 is not bad. -/
theorem colliding_signature_unseen :
    (∃ p ∈ collidingPushes false, p.1 = 7 ∧ p.2.verifies plainBls = false) ∧
      ∃ v', CBLSBatchVerifier.pushAll plainBls ⟨false, true, 0, [], ∅, ∅⟩
          (collidingPushes false) = .ok v' ∧
        7 ∉ v'.badSources ∧ 1 ∉ v'.badMessages := by
  refine ⟨by decide, _, rfl, ?_, ?_⟩
  · decide
  · decide

end Zcoin.Llmq
