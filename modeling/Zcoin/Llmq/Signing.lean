/-
  Zcoin.Llmq.Signing — votes and signature shares (`llmq/quorums_signing.cpp`,
  `llmq/quorums_signing_shares.cpp`).

  `AsyncSignIfMember` votes for one message of a request and queues it for signing.  The database
  has the message under the request, and the request under the 32 low bits of the time of the
  vote.  Clean-up takes the difference of the time and the retention age to 32 bits as well: an
  age beyond the present time makes every vote an old one.  The database is `llmqDb`, which a
  start with `-reindex` or `-reindex-chainstate` wipes (`init.cpp`, `llmq/quorums_init.cpp`).
-/
import Zcoin.Llmq.BatchVerifier

namespace Zcoin.Llmq

open Function List

/-! ## §1. Voting, signing and clean-up. -/

/-- The `llmqType` and `id` of a request. -/
abbrev Request := UInt8 × Uint256

/-- `CSigningManager` and `CSigSharesManager`, as far as shares are created. -/
structure CSigningManager where
  /-- the keys `rs_v` -/
  votes : Request → Option Uint256 := fun _ => none
  /-- the keys `rs_vt` -/
  voteTimes : List (Int × Request) := []
  /-- the messages that were voted for and are not signed yet, queued or on their way there -/
  pendingSigns : List (Request × Uint256) := []
  /-- the messages of the shares created so far -/
  shares : List (Request × Uint256) := []

variable (s : CSigningManager) (request : Request) (msgHash : Uint256)

/-- A time as `uint32_t`. -/
def time32 (t : Int) : Int := t % 2 ^ 32

/-- `WriteVoteForId`. -/
def CSigningManager.writeVoteForId (now : Int) : CSigningManager :=
  { s with
    votes := update s.votes request (some msgHash)
    voteTimes := (time32 now, request) :: s.voteTimes }

/-- `AsyncSignIfMember` of a masternode, up to the choice of the quorum; whether there is a
recovered signature for the request is up to the database. -/
def CSigningManager.asyncSignIfMember (allowReSign hasRecoveredSig : Bool) (now : Int) :
    CSigningManager :=
  match s.votes request with
  | some prevMsgHash =>
    if msgHash ≠ prevMsgHash ∨ !allowReSign ∨ hasRecoveredSig then s
    else { s with pendingSigns := (request, msgHash) :: s.pendingSigns }
  | none =>
    if hasRecoveredSig then s
    else
      let s := s.writeVoteForId request msgHash now
      { s with pendingSigns := (request, msgHash) :: s.pendingSigns }

/-- `Sign`, and the way of a message there. -/
def CSigningManager.sign : CSigningManager :=
  if (request, msgHash) ∈ s.pendingSigns then
    { s with
      pendingSigns := s.pendingSigns.erase (request, msgHash)
      shares := (request, msgHash) :: s.shares }
  else s

/-- `CleanupOldVotes`. -/
def CSigningManager.cleanupOldVotes (now maxAge : Int) : CSigningManager :=
  let endTime := time32 (now - maxAge)
  { s with
    votes := fun request =>
      if ∃ key ∈ s.voteTimes, key.1 < endTime ∧ key.2 = request then none else s.votes request
    voteTimes := s.voteTimes.filter (endTime ≤ ·.1) }

/-! ## §2. Runs. -/

/-- What a thread does under its locks.  A restart loses the queue, and with `fWipe` of
`InitLLMQSystem` the database as well. -/
inductive SigningEvent where
  | asks (request : Request) (msgHash : Uint256) (allowReSign hasRecoveredSig : Bool) (now : Int)
  | signs (request : Request) (msgHash : Uint256)
  | cleansUp (now maxAge : Int)
  | restarts (fWipe : Bool)

/-- One event. -/
def CSigningManager.step : SigningEvent → CSigningManager
  | .asks request msgHash allowReSign hasRecoveredSig now =>
    s.asyncSignIfMember request msgHash allowReSign hasRecoveredSig now
  | .signs request msgHash => s.sign request msgHash
  | .cleansUp now maxAge => s.cleanupOldVotes now maxAge
  | .restarts fWipe =>
    if fWipe then { shares := s.shares } else { s with pendingSigns := [] }

/-- **The condition on an event**: the time below which clean-up deletes is within 32 bits, and
no restart reindexes. -/
def SigningEvent.Meets : SigningEvent → Prop
  | .cleansUp now maxAge => 0 ≤ now - maxAge ∧ now - maxAge < 2 ^ 32
  | .restarts fWipe => fWipe = false
  | _ => True

/-- At the event a vote is not older than the retention age. -/
def SigningEvent.Retains (voteTime : Int) : SigningEvent → Prop
  | .cleansUp now maxAge => now - voteTime ≤ maxAge
  | _ => True

/-- There was no vote on the request. -/
structure CSigningManager.Fresh : Prop where
  vote : s.votes request = none
  times : ∀ key ∈ s.voteTimes, key.2 ≠ request
  messages : ∀ entry ∈ s.pendingSigns ++ s.shares, entry.1 ≠ request

/-- **The states from the first vote on a request** for as long as the vote is retained.  The time
of the vote is within 32 bits, and all events meet the condition. -/
inductive SinceVote (voteTime : Int) : CSigningManager → Prop
  | vote (s : CSigningManager) (allowReSign : Bool) : s.Fresh request →
      0 ≤ voteTime ∧ voteTime < 2 ^ 32 →
      SinceVote voteTime (s.asyncSignIfMember request msgHash allowReSign false voteTime)
  | step {s : CSigningManager} (event : SigningEvent) : SinceVote voteTime s → event.Meets →
      event.Retains voteTime → SinceVote voteTime (s.step event)

/-- What a run keeps: the vote, its time, and no other message of the request. -/
structure VotedFor (voteTime : Int) : Prop where
  vote : s.votes request = some msgHash
  times : ∀ key ∈ s.voteTimes, key.2 = request → key.1 = voteTime
  messages : ∀ entry ∈ s.pendingSigns ++ s.shares, entry.1 = request → entry.2 = msgHash

variable {s request msgHash} {voteTime : Int}

/-- **One event** keeps the vote. -/
theorem VotedFor.step (h : VotedFor s request msgHash voteTime) {event : SigningEvent}
    (hmeets : event.Meets) (hretains : event.Retains voteTime) :
    VotedFor (s.step event) request msgHash voteTime := by
  cases event with
  | asks request' msgHash' allowReSign hasRecoveredSig now =>
    show VotedFor (s.asyncSignIfMember request' msgHash' allowReSign hasRecoveredSig now) _ _ _
    unfold CSigningManager.asyncSignIfMember
    split
    · next prevMsgHash hprev =>
      split
      · exact h
      next hsame =>
      refine ⟨h.vote, h.times, forall_mem_cons.mpr ⟨?_, h.messages⟩⟩
      rintro rfl
      rw [h.vote] at hprev
      cases hprev
      exact not_not.mp fun hne => hsame (.inl hne)
    · next hnone =>
      split
      · exact h
      -- the request is another one
      have hne : request' ≠ request := by
        rintro rfl
        rw [h.vote] at hnone
        cases hnone
      exact ⟨(update_of_ne hne.symm _ _).trans h.vote,
        forall_mem_cons.mpr ⟨fun heq => absurd heq hne, h.times⟩,
        forall_mem_cons.mpr ⟨fun heq => absurd heq hne, h.messages⟩⟩
  | signs request' msgHash' =>
    show VotedFor (s.sign request' msgHash') _ _ _
    unfold CSigningManager.sign
    split
    · next hmem =>
      refine ⟨h.vote, h.times, fun entry hentry => h.messages entry ?_⟩
      rcases mem_append.mp hentry with hentry | hentry
      · exact mem_append_left _ (mem_of_mem_erase hentry)
      · rcases mem_cons.mp hentry with rfl | hentry
        · exact mem_append_left _ hmem
        · exact mem_append_right _ hentry
    · exact h
  | cleansUp now maxAge =>
    have hend : time32 (now - maxAge) = now - maxAge := Int.emod_eq_of_lt hmeets.1 hmeets.2
    refine ⟨(if_neg ?_).trans h.vote, fun key hkey => h.times key (mem_filter.mp hkey).1,
      h.messages⟩
    rintro ⟨key, hkey, hlt, heq⟩
    rw [h.times key hkey heq, hend] at hlt
    exact absurd hretains (by unfold SigningEvent.Retains; omega)
  | restarts fWipe =>
    cases hmeets
    exact ⟨h.vote, h.times, fun entry hentry => h.messages entry (mem_append_right _ hentry)⟩

theorem SinceVote.votedFor (h : SinceVote request msgHash voteTime s) :
    VotedFor s request msgHash voteTime := by
  induction h with
  | vote s allowReSign hfresh htime =>
    unfold CSigningManager.asyncSignIfMember
    rw [hfresh.vote]
    exact ⟨update_self _ _ _,
      forall_mem_cons.mpr ⟨fun _ => Int.emod_eq_of_lt htime.1 htime.2,
        fun key hkey heq => absurd heq (hfresh.times key hkey)⟩,
      forall_mem_cons.mpr ⟨fun _ => rfl,
        fun entry hentry heq => absurd heq (hfresh.messages entry hentry)⟩⟩
  | step event _ hmeets hretains ih => exact ih.step hmeets hretains

/-- **No double signing**: as long as the first vote on a request is not older than the retention
age, all shares for the request are for the message of the vote. -/
theorem shares_for_one_message (h : SinceVote request msgHash voteTime s) {other : Uint256}
    (hshare : (request, other) ∈ s.shares) : other = msgHash :=
  h.votedFor.messages _ (mem_append_right _ hshare) rfl

/-- A message is asked for and signed, and after an event another one. -/
def secondMessage (event : SigningEvent) : CSigningManager :=
  [.asks (1, 5) 8 false false 1600000000, .signs (1, 5) 8, event,
    .asks (1, 5) 9 true false 1600000000, .signs (1, 5) 9].foldl CSigningManager.step {}

/-- With a retention age of a week the second message is not signed. -/
theorem shares_for_one_message_week :
    ((1, 5), 8) ∈ (secondMessage (.cleansUp 1600000000 604800)).shares ∧
      ∀ other, ((1, 5), other) ∈ (secondMessage (.cleansUp 1600000000 604800)).shares →
        other = 8 := by
  have hvote : SinceVote (1, 5) 8 1600000000 _ :=
    .vote {} false ⟨rfl, nofun, nofun⟩ (by decide)
  have hclean := (hvote.step (.signs (1, 5) 8) trivial trivial).step (.cleansUp 1600000000 604800)
    (show _ ∧ _ by decide) (show (_ : Int) ≤ _ by decide)
  have hrun := (hclean.step (.asks (1, 5) 9 true false 1600000000) trivial trivial).step
    (.signs (1, 5) 9) trivial trivial
  exact ⟨by decide, fun other hshare => shares_for_one_message hrun hshare⟩

/-- **The vote is lost** and both messages are signed: clean-up with a retention age beyond the
present time takes it away at once, and so does a start with `-reindex-chainstate`. -/
theorem two_messages_signed :
    (1600000000 : Int) - 1600000000 ≤ 2000000000 ∧
      ∀ event ∈ [.cleansUp 1600000000 2000000000, .restarts true],
        ((1, 5), 8) ∈ (secondMessage event).shares ∧
          ((1, 5), 9) ∈ (secondMessage event).shares := by
  decide

end Zcoin.Llmq
