/-
  Zcoin.Llmq.MinedCommitments — the cache of mined commitments (`llmq/quorums_blockprocessor.cpp`,
  `evo/evodb.h`).

  `HasMinedCommitment` reads the database, where it sees what the open transaction has written,
  and enters the answer into the cache in a critical section of its own.  A block takes the
  answers for the commitments it writes out of the cache right after it has written them;
  whether they are committed or rolled back is decided later, and the cache is not looked at
  again.
-/
import Zcoin.Basic
import Zcoin.Lib.Assoc

namespace Zcoin.Llmq

open Lib Function List

/-- The `llmqType` and the hash of a quorum. -/
abbrev QuorumKey := UInt8 × Uint256

/-- The keys `q_mc` of the database, and `hasMinedCommitmentCache`. -/
structure MinedCommitments where
  /-- what is committed -/
  committed : QuorumKey → Bool
  /-- a block is processed inside a transaction -/
  processing : Bool := false
  /-- the keys that the transaction has written or erased -/
  written : QuorumKey → Option Bool := fun _ => none
  /-- the key written last, while its answer is not yet taken out of the cache -/
  erasing : Option QuorumKey := none
  hasMinedCommitmentCache : QueryCache QuorumKey := {}

variable (s : MinedCommitments)

/-- `evoDb.Exists`. -/
def MinedCommitments.present (key : QuorumKey) : Bool := (s.written key).getD (s.committed key)

/-- `HasMinedCommitment`, when nothing else happens during the call. -/
def MinedCommitments.hasMinedCommitment (key : QuorumKey) : Bool :=
  (s.hasMinedCommitmentCache.cached key).getD (s.present key)

/-- `IsCommitmentRequired`; the hash of the quorum is null in the first block of a session. -/
def MinedCommitments.isCommitmentRequired (llmqType : UInt8) (quorumHash : Option Uint256)
    (isMiningPhase : Bool) : Bool :=
  quorumHash.any fun hash => isMiningPhase && !s.hasMinedCommitment (llmqType, hash)

/-- What a thread does under a lock. -/
inductive MinedEvent where
  /-- a query that did not find its key in the cache reads the database -/
  | reads (key : QuorumKey)
  /-- a query enters its answer -/
  | enters (key : QuorumKey) (answer : Bool)
  | begins
  /-- a block writes or erases a commitment -/
  | writes (key : QuorumKey) (mined : Bool)
  /-- and takes the answer for it out of the cache -/
  | erases
  | commits
  | rollsBack

/-- One event. -/
def MinedCommitments.step : MinedEvent → MinedCommitments
  | .reads key =>
    { s with hasMinedCommitmentCache := s.hasMinedCommitmentCache.read key (s.present key) }
  | .enters key answer =>
    { s with hasMinedCommitmentCache := s.hasMinedCommitmentCache.enter key answer }
  | .begins => { s with processing := true }
  | .writes key mined =>
    if s.processing ∧ s.erasing = none then
      { s with written := update s.written key (some mined), erasing := some key }
    else s
  | .erases =>
    { s with
      erasing := none
      hasMinedCommitmentCache := s.hasMinedCommitmentCache.set s.erasing.toList none }
  | .commits =>
    if s.erasing = none then
      { s with processing := false, committed := s.present, written := fun _ => none }
    else s
  | .rollsBack =>
    if s.erasing = none then { s with processing := false, written := fun _ => none } else s

/-- **The condition on an event**: no query reads a key that the open transaction has written,
and no answer for a key is on its way into the cache when the block writes it. -/
def MinedEvent.Meets : MinedEvent → Prop
  | .reads key => s.written key = none
  | .writes key _ => ∀ entry ∈ s.hasMinedCommitmentCache.answers, entry.1 ≠ key
  | _ => True

/-- The states that are reached from an empty cache by events that meet the condition. -/
inductive MinedRun : MinedCommitments → Prop
  | start (committed : QuorumKey → Bool) : MinedRun { committed }
  | step {s : MinedCommitments} (event : MinedEvent) : MinedRun s → event.Meets s →
      MinedRun (s.step event)

/-- An answer that is right whatever becomes of the transaction. -/
def MinedCommitments.Settled (key : QuorumKey) (answer : Bool) : Prop :=
  s.written key = none ∧ answer = s.committed key

/-- What a run keeps. -/
structure MinedCommitments.Sound : Prop where
  answers : s.hasMinedCommitmentCache.Holds
    (fun key answer => s.erasing = some key ∨ s.Settled key answer) s.Settled
  idle : s.processing = false → s.erasing = none ∧ ∀ key, s.written key = none

variable {s} {event : MinedEvent} {key : QuorumKey}

theorem MinedCommitments.present_of_unwritten (h : s.written key = none) :
    s.present key = s.committed key := by
  unfold present
  rw [h]
  rfl

/-- **One event.** -/
theorem MinedCommitments.Sound.step (h : s.Sound) (hmeets : event.Meets s) :
    (s.step event).Sound := by
  cases event with
  | reads key => exact ⟨h.answers.read ⟨hmeets, present_of_unwritten hmeets⟩, h.idle⟩
  | enters key answer => exact ⟨h.answers.enter fun _ _ => .inr, h.idle⟩
  | begins => exact ⟨h.answers, nofun⟩
  | writes key mined =>
    show (ite _ _ s).Sound
    split
    · next hready =>
      have hother : ∀ {key' answer}, key' ≠ key → s.Settled key' answer →
          update s.written key (some mined) key' = none ∧ answer = s.committed key' :=
        fun hne hsettled => ⟨(update_of_ne hne _ _).trans hsettled.1, hsettled.2⟩
      refine ⟨h.answers.mono ?_ fun entry hentry => hother (hmeets entry hentry),
        fun hidle => absurd (hidle.symm.trans hready.1) nofun⟩
      intro key' answer _ hcached
      by_cases heq : key' = key
      · exact .inl (congrArg some heq.symm)
      · exact .inr (hother heq (hcached.resolve_left (by simp [hready.2])))
    · exact h
  | erases =>
    refine ⟨h.answers.set nofun ?_, fun hidle => ⟨rfl, (h.idle hidle).2⟩⟩
    intro key answer hnot hcached
    exact .inr (hcached.resolve_left fun herasing => hnot (Option.mem_toList.mpr herasing))
  | commits =>
    show (ite _ _ s).Sound
    split
    · next hnone =>
      have hkept : ∀ key answer, s.Settled key answer → answer = s.present key :=
        fun key answer h => h.2.trans (present_of_unwritten h.1).symm
      exact ⟨h.answers.mono
        (fun key answer _ hcached => .inr ⟨rfl, hkept _ _ (hcached.resolve_left (by simp [hnone]))⟩)
        fun entry _ hanswer => ⟨rfl, hkept _ _ hanswer⟩, fun _ => ⟨hnone, fun _ => rfl⟩⟩
    · exact h
  | rollsBack =>
    show (ite _ _ s).Sound
    split
    · next hnone =>
      exact ⟨h.answers.mono
        (fun key answer _ hcached => .inr ⟨rfl, (hcached.resolve_left (by simp [hnone])).2⟩)
        fun entry _ hanswer => ⟨rfl, hanswer.2⟩, fun _ => ⟨hnone, fun _ => rfl⟩⟩
    · exact h

theorem MinedRun.sound (h : MinedRun s) : s.Sound := by
  induction h with
  | start committed => exact ⟨⟨nofun, nofun⟩, fun _ => ⟨rfl, fun _ => rfl⟩⟩
  | step event _ hmeets ih => exact ih.step hmeets

/-- **The cache tells what is committed** whenever no block is processed, and a commitment is
required as the committed database says, in every run whose events meet the condition. -/
theorem hasMinedCommitment_committed (h : MinedRun s) (hidle : s.processing = false) :
    (∀ key, s.hasMinedCommitment key = s.committed key) ∧
      ∀ llmqType quorumHash isMiningPhase,
        s.isCommitmentRequired llmqType quorumHash isMiningPhase =
          quorumHash.any fun hash => isMiningPhase && !s.committed (llmqType, hash) := by
  obtain ⟨hnone, hunwritten⟩ := h.sound.idle hidle
  have hmined : ∀ key, s.hasMinedCommitment key = s.committed key := by
    intro key
    unfold MinedCommitments.hasMinedCommitment
    cases hcached : s.hasMinedCommitmentCache.cached key with
    | none => exact MinedCommitments.present_of_unwritten (hunwritten key)
    | some answer =>
      exact ((h.sound.answers.cached key answer hcached).resolve_left (by simp [hnone])).2
  refine ⟨hmined, fun llmqType quorumHash isMiningPhase => ?_⟩
  simp only [MinedCommitments.isCommitmentRequired, hmined]

/-- A database without commitments after some events. -/
def minedAfter (events : List MinedEvent) : MinedCommitments :=
  events.foldl MinedCommitments.step { committed := fun _ => false }

/-- A block asks for a commitment, writes it and is committed. -/
theorem hasMinedCommitment_committed_block :
    (minedAfter [.begins, .reads (1, 5), .enters (1, 5) false, .writes (1, 5) true, .erases,
      .commits]).hasMinedCommitment (1, 5) = true := by
  have hread : MinedRun (minedAfter [.begins, .reads (1, 5), .enters (1, 5) false]) :=
    ((MinedRun.start fun _ => false).step .begins trivial).step (.reads (1, 5)) rfl |>.step
      (.enters (1, 5) false) trivial
  have hblock := ((hread.step (.writes (1, 5) true) nofun).step .erases trivial).step
    .commits trivial
  exact ((hasMinedCommitment_committed hblock rfl).1 (1, 5)).trans rfl

/-- **Answers that stay wrong**: one that was read from a transaction that is rolled back, and one
that was read before a block that is committed. -/
theorem minedCommitment_stale :
    ((minedAfter [.begins, .writes (1, 5) true, .erases, .reads (1, 5), .enters (1, 5) true,
        .rollsBack]).hasMinedCommitment (1, 5) = true ∧
      (minedAfter [.begins, .writes (1, 5) true, .erases, .reads (1, 5), .enters (1, 5) true,
        .rollsBack]).committed (1, 5) = false) ∧
    (minedAfter [.reads (1, 5), .begins, .writes (1, 5) true, .erases, .commits,
        .enters (1, 5) false]).hasMinedCommitment (1, 5) = false ∧
      (minedAfter [.reads (1, 5), .begins, .writes (1, 5) true, .erases, .commits,
        .enters (1, 5) false]).committed (1, 5) = true := by
  decide

end Zcoin.Llmq
