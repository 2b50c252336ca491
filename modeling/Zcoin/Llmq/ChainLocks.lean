/-
  Zcoin.Llmq.ChainLocks — new ChainLocks (`llmq/quorums_chainlocks.cpp`, `llmq/quorums_signing.cpp`,
  `llmq/quorums.cpp`).

  `ProcessNewChainLock` tests the height of a CLSIG under a lock, verifies its signature without
  one, and takes the CLSIG over under the lock again.  The quorum that signs is looked up eight
  blocks below the height of the CLSIG; for a lower height there is no such block, and the scan
  from a block asserts that it finds every quorum.  The height is not tested again after the
  signature, so that a call can be overtaken by one with a greater height, and a CLSIG above the
  locked block conflicts with nothing.
-/
import Zcoin.Llmq.BatchVerifier
import Zcoin.Lib.Sorting
import Zcoin.Chain.BlockIndex

namespace Zcoin.Llmq

open Lib Lib.Except List

/-! ## §1. `VerifyRecoveredSig`. -/

/-- `CChainLockSig`; the height is an `int32_t`. -/
structure CChainLockSig (S : Type) where
  nHeight : Int
  blockHash : Uint256
  sig : S
  lower : -2 ^ 31 ≤ nHeight := by decide
  upper : nHeight < 2 ^ 31 := by decide
deriving DecidableEq

/-- What the handler reads: hashes, signatures, quorums and the tree of blocks. -/
structure ChainLocksEnv (K S : Type) where
  bls : Bls K S
  /-- the hash of `CLSIG_REQUESTID_PREFIX` and a height -/
  requestIdOf : Int → Uint256
  /-- `BuildSignHash` -/
  buildSignHash : Uint256 → Uint256 → Uint256 → Uint256
  /-- the score of a quorum for a request -/
  score : Uint256 → Uint256 → Uint256
  /-- how many quorums sign at a time -/
  signingActiveQuorumCount : Nat
  /-- earlier answers of `ScanQuorums`, by its first block -/
  scanQuorumsCache : Uint256 → Option (List (CQuorum bls))
  /-- the heights at which commitments were mined, newest first, each with the height of its
  quorum -/
  minedCommitments : List (Nat × Int)
  /-- `HasMinedCommitment`, which answers from a cache of its own -/
  hasMinedCommitment : Uint256 → Bool
  /-- the entry of `quorumsCache`, or what is built from the mined commitment -/
  quorumOf : Uint256 → Option (CQuorum bls)
  /-- the hashes of a block and its ancestors, newest first -/
  index : Uint256 → List Uint256

def SIGN_HEIGHT_OFFSET : Int := 8

/-- The result of an operation on `int`. -/
def int32 (n : Int) : Except Abort Int :=
  if -2 ^ 31 ≤ n ∧ n < 2 ^ 31 then .ok n else .error .overflow

section Verify

variable {K S : Type} (env : ChainLocksEnv K S) (chainActive : List Uint256)

/-- `chainActive[nHeight]`, on the hashes of the chain from genesis on. -/
def blockAt (nHeight : Int) : Option Uint256 :=
  if nHeight < 0 ∨ nHeight ≥ chainActive.length then none else chainActive[nHeight.toNat]?

/-- `GetAncestor`. -/
def getAncestor (index : List Uint256) (height : Int) : Option Uint256 :=
  if height > index.length - 1 ∨ height < 0 then none
  else (Chain.upTo index height.toNat).head?

/-- `assert` of a pointer. -/
def nonNull {α : Type} : Option α → Except Abort α
  | none => .error .assertion
  | some a => .ok a

/-- The entries that `GetMinedCommitmentsUntilBlock` reads, from the height of the block down to
height 1. -/
def ChainLocksEnv.minedUntil (pindex : List Uint256) (maxCount : Nat) : List (Nat × Int) :=
  (env.minedCommitments.filter fun mined => decide (0 < mined.1 ∧ mined.1 < pindex.length)).take
    maxCount

/-- `GetMinedCommitmentsUntilBlock`. -/
def getMinedCommitmentsUntilBlock (pindex : List Uint256) (maxCount : Nat) :
    Except Abort (List Uint256) :=
  (env.minedUntil pindex maxCount).mapM fun mined => nonNull (getAncestor pindex mined.2)

/-- `GetQuorum`; a reorganisation may have removed the commitment of a cached quorum. -/
def getQuorum (quorumHash : Uint256) : Option (CQuorum env.bls) :=
  if !env.hasMinedCommitment quorumHash then none else env.quorumOf quorumHash

/-- `ScanQuorums` for as many quorums as sign, which are few enough for the cache. -/
def scanQuorums : Option Uint256 → Except Abort (List (CQuorum env.bls))
  | none => .error .nullPointer
  | some pindexStart =>
    match env.scanQuorumsCache pindexStart with
    | some result => .ok (result.take env.signingActiveQuorumCount)
    | none => do
      let cacheMaxSize := env.signingActiveQuorumCount + 1
      let quorumIndexes ←
        getMinedCommitmentsUntilBlock env (env.index pindexStart) cacheMaxSize
      let result ← quorumIndexes.mapM fun quorumIndex => nonNull (getQuorum env quorumIndex)
      return result.take env.signingActiveQuorumCount

/-- `GetActiveQuorumSet`. -/
def getActiveQuorumSet (signHeight : Int) : Except Abort (List (CQuorum env.bls)) := do
  let startBlockHeight ← int32 (signHeight - SIGN_HEIGHT_OFFSET)
  if startBlockHeight > chainActive.length - 1 then return []
  else scanQuorums env (blockAt chainActive startBlockHeight)

/-- `SelectQuorumForSigning`. -/
def selectQuorumForSigning (signHeight : Int) (selectionHash : Uint256) :
    Except Abort (Option (CQuorum env.bls)) := do
  let quorums ← getActiveQuorumSet env chainActive signHeight
  let scores := quorums.zipIdx.map fun quorum =>
    ((env.score quorum.1.quorumHash selectionHash).toNat, quorum.2)
  match scores.insertionSort pairLe with
  | [] => return none
  | best :: _ => return quorums[best.2]?

/-- `VerifyRecoveredSig`. -/
def verifyRecoveredSig (signedAtHeight : Int) (id msgHash : Uint256) (sig : S) :
    Except Abort Bool := do
  match ← selectQuorumForSigning env chainActive signedAtHeight id with
  | none => return false
  | some quorum =>
    let signHash := env.buildSignHash quorum.quorumHash id msgHash
    return env.bls.verifyInsecure sig quorum.quorumPublicKey signHash

/-! ## §2. `ProcessNewChainLock`. -/

/-- `CChainLocksHandler`; `nullptr` is the empty list of ancestors. -/
structure CChainLocksHandler (S : Type) where
  isEnforced : Bool
  bestChainLockHash : Uint256
  bestChainLock : CChainLockSig S
  bestChainLockWithKnownBlock : CChainLockSig S
  bestChainLockBlockIndex : List Uint256
  seenChainLocks : Finset Uint256
  misbehaving : List NodeId

/-- The first locked section; whether the CLSIG is to be verified. -/
def testNewChainLock (s : CChainLocksHandler S) (clsig : CChainLockSig S) (hash : Uint256) :
    CChainLocksHandler S × Bool :=
  if hash ∈ s.seenChainLocks then (s, false)
  else
    let s := { s with seenChainLocks := insert hash s.seenChainLocks }
    -- no need to process/relay older CLSIGs
    if s.bestChainLock.nHeight ≠ -1 ∧ clsig.nHeight ≤ s.bestChainLock.nHeight then (s, false)
    else (s, true)

/-- `InternalHasConflictingChainLock`. -/
def internalHasConflictingChainLock (s : CChainLocksHandler S) (nHeight : Int)
    (blockHash : Uint256) : Except Abort Bool :=
  if !s.isEnforced then .ok false
  else match s.bestChainLockBlockIndex with
  | [] => .ok false
  | best :: ancestors =>
    if nHeight > ancestors.length then .ok false
    else if nHeight = ancestors.length then .ok (decide (blockHash ≠ best))
    else match getAncestor (best :: ancestors) nHeight with
      | none => .error .assertion
      | some pAncestor => .ok (decide (pAncestor ≠ blockHash))

variable (mapBlockIndex : Finset Uint256) (s : CChainLocksHandler S)

/-- The second locked section; `mapBlockIndex` has the blocks that are known. -/
def acceptNewChainLock (clsig : CChainLockSig S) (hash : Uint256) :
    Except Abort (CChainLocksHandler S) := do
  if ← internalHasConflictingChainLock s clsig.nHeight clsig.blockHash then return s
  else
    let s := { s with bestChainLockHash := hash, bestChainLock := clsig }
    if clsig.blockHash ∉ mapBlockIndex then return s
    else if (env.index clsig.blockHash).length - 1 ≠ clsig.nHeight then return s
    else return { s with
      bestChainLockWithKnownBlock := clsig
      bestChainLockBlockIndex := env.index clsig.blockHash }

/-- The signature and what follows it. -/
def finishNewChainLock (sender : NodeId) (clsig : CChainLockSig S) (hash : Uint256) :
    Except Abort (CChainLocksHandler S) := do
  if ← verifyRecoveredSig env chainActive clsig.nHeight (env.requestIdOf clsig.nHeight)
      clsig.blockHash clsig.sig then
    acceptNewChainLock env mapBlockIndex s clsig hash
  else if sender ≠ -1 then return { s with misbehaving := s.misbehaving ++ [sender] }
  else return s

/-- `ProcessNewChainLock` without interruption. -/
def processNewChainLock (sender : NodeId) (clsig : CChainLockSig S) (hash : Uint256) :
    Except Abort (CChainLocksHandler S) :=
  match testNewChainLock s clsig hash with
  | (s, false) => .ok s
  | (s, true) => finishNewChainLock env chainActive mapBlockIndex s sender clsig hash

/-- `AcceptedBlockHeader`. -/
def acceptedBlockHeader (pindexNew : Uint256) : CChainLocksHandler S :=
  if pindexNew ≠ s.bestChainLock.blockHash then s
  else if s.bestChainLock.nHeight ≠ (env.index pindexNew).length - 1 then s
  else { s with
    bestChainLockWithKnownBlock := s.bestChainLock
    bestChainLockBlockIndex := env.index pindexNew }

end Verify

/-! ## §3. Heights without a block, and blocks without their quorums. -/

section Heights

variable {K S : Type} (env : ChainLocksEnv K S) (chainActive : List Uint256)

theorem nonNull_eq_ok {α : Type} {o : Option α} {a : α} : nonNull o = .ok a ↔ o = some a := by
  cases o <;> simp [nonNull]

/-- **A block from which quorums can be scanned**: the answer is cached, or each commitment that
is read is for an ancestor of the block whose quorum is found. -/
def ChainLocksEnv.Scannable (pindexStart : Uint256) : Prop :=
  (env.scanQuorumsCache pindexStart).isSome ∨
  ∀ mined ∈ env.minedUntil (env.index pindexStart) (env.signingActiveQuorumCount + 1),
    ∃ quorumHash, getAncestor (env.index pindexStart) mined.2 = some quorumHash ∧
      ∃ quorum, getQuorum env quorumHash = some quorum

theorem scanQuorums_ok_iff (pindexStart : Uint256) :
    (∃ quorums, scanQuorums env (some pindexStart) = .ok quorums) ↔ env.Scannable pindexStart := by
  unfold ChainLocksEnv.Scannable scanQuorums
  dsimp only
  cases env.scanQuorumsCache pindexStart with
  | some result => exact iff_of_true ⟨_, rfl⟩ (.inl rfl)
  | none =>
    rw [or_iff_right (by simp)]
    constructor
    · rintro ⟨quorums, h⟩ mined hmined
      obtain ⟨indexes, hindexes, h⟩ := bind_eq_ok.mp h
      obtain ⟨result, hresult, -⟩ := bind_eq_ok.mp h
      obtain ⟨quorumHash, hmem, hancestor⟩ := mapM_step_ok hindexes hmined
      obtain ⟨quorum, -, hquorum⟩ := mapM_step_ok hresult hmem
      exact ⟨quorumHash, nonNull_eq_ok.mp hancestor, quorum, nonNull_eq_ok.mp hquorum⟩
    · intro hfound
      obtain ⟨indexes, hindexes, hall⟩ := exists_mapM_ok fun mined hmined => by
        obtain ⟨quorumHash, hancestor, hquorum⟩ := hfound mined hmined
        exact ⟨quorumHash, nonNull_eq_ok.mpr hancestor, hquorum⟩
      have hquorums : ∀ quorumHash ∈ indexes,
          ∃ quorum, nonNull (getQuorum env quorumHash) = .ok quorum ∧ True := fun _ hmem =>
        (hall _ hmem).imp fun _ hquorum => ⟨nonNull_eq_ok.mpr hquorum, trivial⟩
      obtain ⟨result, hresult, -⟩ := exists_mapM_ok hquorums
      exact ⟨_, bind_eq_ok.mpr ⟨indexes, hindexes, bind_eq_ok.mpr ⟨result, hresult, rfl⟩⟩⟩

theorem getActiveQuorumSet_ok_iff (signHeight : Int) :
    (∃ quorums, getActiveQuorumSet env chainActive signHeight = .ok quorums) ↔
      SIGN_HEIGHT_OFFSET ≤ signHeight ∧ signHeight - SIGN_HEIGHT_OFFSET < 2 ^ 31 ∧
      ∀ pindexStart ∈ blockAt chainActive (signHeight - SIGN_HEIGHT_OFFSET),
        env.Scannable pindexStart := by
  unfold getActiveQuorumSet int32 SIGN_HEIGHT_OFFSET
  by_cases hrange : -2 ^ 31 ≤ signHeight - 8 ∧ signHeight - 8 < 2 ^ 31
  · rw [if_pos hrange, ok_bind]
    unfold blockAt
    by_cases hahead : signHeight - 8 > chainActive.length - 1
    · rw [if_pos hahead, if_pos (.inr (by omega))]
      exact iff_of_true ⟨[], rfl⟩ ⟨by omega, hrange.2, fun _ h => nomatch h⟩
    · rw [if_neg hahead]
      by_cases hlow : signHeight - 8 < 0
      · rw [if_pos (.inl hlow)]
        exact iff_of_false (fun ⟨_, h⟩ => nomatch h) (fun h => absurd h.1 (by omega))
      · rw [if_neg (by omega), getElem?_eq_getElem (by omega), scanQuorums_ok_iff]
        constructor
        · exact fun h => ⟨by omega, hrange.2, fun _ hstart => Option.mem_some.mp hstart ▸ h⟩
        · exact fun h => h.2.2 _ rfl
  · rw [if_neg hrange]
    exact iff_of_false (fun ⟨_, h⟩ => nomatch h) (fun h => hrange ⟨by omega, h.2.1⟩)

theorem verifyRecoveredSig_ok_iff (signedAtHeight : Int) (id msgHash : Uint256) (sig : S) :
    (∃ valid, verifyRecoveredSig env chainActive signedAtHeight id msgHash sig = .ok valid) ↔
      SIGN_HEIGHT_OFFSET ≤ signedAtHeight ∧ signedAtHeight - SIGN_HEIGHT_OFFSET < 2 ^ 31 ∧
      ∀ pindexStart ∈ blockAt chainActive (signedAtHeight - SIGN_HEIGHT_OFFSET),
        env.Scannable pindexStart := by
  rw [← getActiveQuorumSet_ok_iff env chainActive]
  unfold verifyRecoveredSig selectQuorumForSigning
  cases getActiveQuorumSet env chainActive signedAtHeight with
  | error e => exact iff_of_false (fun ⟨_, h⟩ => nomatch h) (fun ⟨_, h⟩ => nomatch h)
  | ok quorums =>
    refine iff_of_true ?_ ⟨quorums, rfl⟩
    rw [ok_bind]
    dsimp only
    split
    · exact ⟨_, rfl⟩
    · dsimp only [pure, Except.pure]
      rw [ok_bind]
      split <;> exact ⟨_, rfl⟩

theorem conflicting_ok (s : CChainLocksHandler S) {nHeight : Int} (h : 0 ≤ nHeight)
    (blockHash : Uint256) :
    ∃ conflicts, internalHasConflictingChainLock s nHeight blockHash = .ok conflicts := by
  unfold internalHasConflictingChainLock
  split
  · exact ⟨_, rfl⟩
  split
  · exact ⟨_, rfl⟩
  next best ancestors _ =>
  split
  · exact ⟨_, rfl⟩
  split
  · exact ⟨_, rfl⟩
  next habove hnot =>
  have hlt : nHeight.toNat < (best :: ancestors).length := by
    rw [length_cons]
    omega
  obtain ⟨b, rest, hup, -⟩ := Chain.upTo_eq_cons_of_lt hlt
  unfold getAncestor
  rw [if_neg (by rw [length_cons]; omega), hup]
  exact ⟨_, rfl⟩

/-- **When a CLSIG is processed**, accepted or not: it was seen before, it is not above the best
one, or its height is at least the offset and the quorums can be scanned from the block that many
below it, if the chain has one. -/
theorem processNewChainLock_returns_iff (mapBlockIndex : Finset Uint256)
    (s : CChainLocksHandler S) (sender : NodeId) (clsig : CChainLockSig S) (hash : Uint256) :
    (∃ s', processNewChainLock env chainActive mapBlockIndex s sender clsig hash = .ok s') ↔
      hash ∈ s.seenChainLocks ∨
      (s.bestChainLock.nHeight ≠ -1 ∧ clsig.nHeight ≤ s.bestChainLock.nHeight) ∨
      (SIGN_HEIGHT_OFFSET ≤ clsig.nHeight ∧
        ∀ pindexStart ∈ blockAt chainActive (clsig.nHeight - SIGN_HEIGHT_OFFSET),
          env.Scannable pindexStart) := by
  unfold processNewChainLock testNewChainLock
  by_cases hseen : hash ∈ s.seenChainLocks
  · rw [if_pos hseen]
    exact iff_of_true ⟨_, rfl⟩ (.inl hseen)
  rw [if_neg hseen, or_iff_right hseen]
  dsimp only
  by_cases holder : s.bestChainLock.nHeight ≠ -1 ∧ clsig.nHeight ≤ s.bestChainLock.nHeight
  · rw [if_pos holder]
    exact iff_of_true ⟨_, rfl⟩ (.inl holder)
  rw [if_neg holder, or_iff_right holder]
  dsimp only
  have hverify := verifyRecoveredSig_ok_iff env chainActive clsig.nHeight
    (env.requestIdOf clsig.nHeight) clsig.blockHash clsig.sig
  unfold finishNewChainLock
  constructor
  · rintro ⟨s', hs'⟩
    obtain ⟨valid, hvalid, -⟩ := bind_eq_ok.mp hs'
    obtain ⟨hoffset, -, hscan⟩ := hverify.mp ⟨valid, hvalid⟩
    exact ⟨hoffset, hscan⟩
  · rintro ⟨hoffset, hscan⟩
    have hlow : (0 : Int) ≤ clsig.nHeight := le_trans (by decide) hoffset
    obtain ⟨valid, hvalid⟩ := hverify.mpr ⟨hoffset, by
      have hupper := clsig.upper
      unfold SIGN_HEIGHT_OFFSET
      omega, hscan⟩
    rw [hvalid, ok_bind]
    split
    · unfold acceptNewChainLock
      obtain ⟨conflicts, hconflicts⟩ := conflicting_ok
        { s with seenChainLocks := insert hash s.seenChainLocks } hlow clsig.blockHash
      rw [hconflicts, ok_bind]
      split
      · exact ⟨_, rfl⟩
      dsimp only
      split
      · exact ⟨_, rfl⟩
      split <;> exact ⟨_, rfl⟩
    · split <;> exact ⟨_, rfl⟩

end Heights

/-- Blocks are numbered by their height; 110 and 109 are on a branch that leaves at 8. -/
def plainTree : ChainLocksEnv Unit Bool where
  bls := plainBls
  requestIdOf := fun _ => 0
  buildSignHash := fun _ _ _ => 0
  score := fun _ _ => 0
  signingActiveQuorumCount := 2
  scanQuorumsCache := fun pindexStart => if pindexStart = 3 then none else some [⟨1, (), rfl⟩]
  minedCommitments := [(2, 1)]
  hasMinedCommitment := fun _ => false
  quorumOf := fun _ => some ⟨1, (), rfl⟩
  index := fun hash => hash :: if hash = 110 then [109, 8, 7, 6, 5, 4, 3, 2, 1, 0]
    else (List.range hash.toNat).reverse.map (BitVec.ofNat 256)

/-- A handler that has just started to enforce, before any ChainLock. -/
def freshHandler : CChainLocksHandler Bool :=
  ⟨true, 0, ⟨-1, 0, false, by decide, by decide⟩, ⟨-1, 0, false, by decide, by decide⟩, [], ∅, []⟩

/-- **A height below the offset** ends in a null block index, the lowest ones in an overflow.  From
block 3 on, which is not in the cache of the scans, a commitment is read whose quorum is not found
any more. -/
theorem low_height_aborts :
    processNewChainLock plainTree [0, 1, 2] ∅ freshHandler 5
        ⟨7, 7, true, by decide, by decide⟩ 21 = .error .nullPointer ∧
      processNewChainLock plainTree [0, 1, 2] ∅ freshHandler 5
        ⟨-2 ^ 31, 7, true, by decide, by decide⟩ 22 = .error .overflow ∧
      processNewChainLock plainTree [0, 1, 2, 3] ∅ freshHandler 5
        ⟨11, 7, true, by decide, by decide⟩ 23 = .error .assertion :=
  ⟨rfl, rfl, rfl⟩

/-! ## §4. Runs of several threads. -/

/-- A call between its two locked sections. -/
structure PendingCall (S : Type) where
  sender : NodeId
  clsig : CChainLockSig S
  hash : Uint256

/-- The handler, and the calls of `ProcessNewChainLock` that verify a signature. -/
structure ChainLocksNode (S : Type) where
  handler : CChainLocksHandler S
  pending : List (PendingCall S)

/-- What the next thread does under its locks: the first section of a call, the second section of
one of the calls between them, or `AcceptedBlockHeader`. -/
inductive ChainLocksEvent (S : Type)
  | tests (call : PendingCall S)
  | finishes (chainActive : List Uint256) (mapBlockIndex : Finset Uint256) (i : Nat)
  | header (pindexNew : Uint256)

section Runs

variable {K S : Type} (env : ChainLocksEnv K S) (branch : List Uint256)

/-- One event. -/
def ChainLocksNode.step (s : ChainLocksNode S) :
    ChainLocksEvent S → Except Abort (ChainLocksNode S)
  | .tests call =>
    match testNewChainLock s.handler call.clsig call.hash with
    | (handler, false) => .ok ⟨handler, s.pending⟩
    | (handler, true) => .ok ⟨handler, call :: s.pending⟩
  | .finishes chainActive mapBlockIndex i =>
    match s.pending[i]? with
    | none => .ok s
    | some call => do
      let handler ← finishNewChainLock env chainActive mapBlockIndex s.handler call.sender
        call.clsig call.hash
      return ⟨handler, s.pending.eraseIdx i⟩
  | .header pindexNew => .ok ⟨acceptedBlockHeader env s.handler pindexNew, s.pending⟩

/-- **ChainLocks do not go back**: the best height does not decrease, and the locked block
descends from the one before. -/
structure Advances (s s' : CChainLocksHandler S) : Prop where
  height : s.bestChainLock.nHeight ≤ s'.bestChainLock.nHeight
  block : s.bestChainLockBlockIndex <:+ s'.bestChainLockBlockIndex

/-- A CLSIG with the height of the block it names. -/
def ChainLocksEnv.Names (clsig : CChainLockSig S) : Prop :=
  (env.index clsig.blockHash).length - 1 = clsig.nHeight

instance (clsig : CChainLockSig S) : Decidable (env.Names clsig) :=
  inferInstanceAs (Decidable (_ = _))

/-- A CLSIG with the signature of the quorum that is selected in a chain. -/
def ChainLocksEnv.Signed (chainActive : List Uint256) (clsig : CChainLockSig S) : Prop :=
  verifyRecoveredSig env chainActive clsig.nHeight (env.requestIdOf clsig.nHeight)
    clsig.blockHash clsig.sig = .ok true

/-- A CLSIG for another block than the locked one or its ancestor of that height. -/
def Refused (locked : List Uint256) (clsig : CChainLockSig S) : Prop :=
  clsig.nHeight < locked.length ∧ getAncestor locked clsig.nHeight ≠ some clsig.blockHash

/-- A CLSIG that is not taken over whenever its call finishes. -/
def ChainLocksEnv.Harmless (locked : List Uint256) (clsig : CChainLockSig S) : Prop :=
  Refused locked clsig ∨ ∀ chainActive, ¬ env.Signed chainActive clsig

/-- The block that is locked after a CLSIG is taken over. -/
def ChainLocksEnv.lockedBy (mapBlockIndex : Finset Uint256) (locked : List Uint256)
    (clsig : CChainLockSig S) : List Uint256 :=
  if clsig.blockHash ∈ mapBlockIndex ∧ env.Names clsig then env.index clsig.blockHash else locked

/-- **The condition on an event**: a call that takes a CLSIG over overtakes no other call with a
CLSIG that is not above it, unless that one is harmless from then on, and the block it names is
on the branch. -/
def Meets (s : ChainLocksNode S) : ChainLocksEvent S → Prop
  | .finishes chainActive mapBlockIndex i =>
    ∀ call ∈ s.pending[i]?, env.Signed chainActive call.clsig →
      ¬ Refused s.handler.bestChainLockBlockIndex call.clsig →
        (∀ other ∈ s.pending.eraseIdx i, call.clsig.nHeight < other.clsig.nHeight ∨
          env.Harmless (env.lockedBy mapBlockIndex s.handler.bestChainLockBlockIndex call.clsig)
            other.clsig) ∧
        (env.Names call.clsig → env.index call.clsig.blockHash <:+ branch)
  | _ => True

/-- **The states that are reached**, from an enforcing handler without a ChainLock, by events that
meet the condition. -/
inductive Reached : ChainLocksNode S → Prop
  | start (s : CChainLocksHandler S) : s.isEnforced = true → s.bestChainLock.nHeight = -1 →
    s.bestChainLockBlockIndex = [] → Reached ⟨s, []⟩
  | step {s s'} (event) : Reached s → Meets env branch s event → s.step env event = .ok s' →
    Reached s'

/-- What a run keeps of the handler: the locked block is on the branch and not above the best
CLSIG. -/
structure LockedOn (s : CChainLocksHandler S) : Prop where
  enforced : s.isEnforced = true
  best : env.Names s.bestChainLock → env.index s.bestChainLock.blockHash <:+ branch
  locked : s.bestChainLockBlockIndex <:+ branch
  height : s.bestChainLockBlockIndex.length - 1 ≤ s.bestChainLock.nHeight

/-- What a run keeps: each pending call still passes the height test, or is harmless. -/
structure Ordered (s : ChainLocksNode S) : Prop where
  handler : LockedOn env branch s.handler
  pending : ∀ call ∈ s.pending, s.handler.bestChainLock.nHeight < call.clsig.nHeight ∨
    env.Harmless s.handler.bestChainLockBlockIndex call.clsig

variable {env branch} {s s' : CChainLocksHandler S} {clsig : CChainLockSig S}
  {locked locked' chainActive : List Uint256} {mapBlockIndex : Finset Uint256} {hash : Uint256}

theorem ChainLocksEnv.Signed.offset_le (h : env.Signed chainActive clsig) :
    SIGN_HEIGHT_OFFSET ≤ clsig.nHeight :=
  ((verifyRecoveredSig_ok_iff env chainActive _ _ _ _).mp ⟨true, h⟩).1

/-- The ancestors of a block are those of the blocks that descend from it. -/
theorem getAncestor_suffix (hsuf : locked <:+ locked') {height : Int}
    (hlt : height < locked.length) : getAncestor locked' height = getAncestor locked height := by
  have hle := hsuf.length_le
  unfold getAncestor
  by_cases hlow : height < 0
  · rw [if_pos (.inr hlow), if_pos (.inr hlow)]
  · have hin : height.toNat < locked.length := by omega
    obtain ⟨b, rest, hup, hrest, hin⟩ := Chain.upTo_eq_cons_of_lt hin
    rw [if_neg (by omega), if_neg (by omega), hup, ← hrest, Chain.upTo_of_suffix (hin.trans hsuf)]

theorem ChainLocksEnv.Harmless.of_suffix (h : env.Harmless locked clsig)
    (hsuf : locked <:+ locked') : env.Harmless locked' clsig := by
  refine h.imp_left fun ⟨hlt, hne⟩ => ⟨?_, getAncestor_suffix hsuf hlt ▸ hne⟩
  have hle := hsuf.length_le
  omega

/-- `InternalHasConflictingChainLock` refuses what it is there to refuse. -/
theorem conflicting_of_refused (henforced : s.isEnforced = true) (hlow : 0 ≤ clsig.nHeight)
    (h : Refused s.bestChainLockBlockIndex clsig) :
    internalHasConflictingChainLock s clsig.nHeight clsig.blockHash = .ok true := by
  obtain ⟨hlt, hne⟩ := h
  have hin : clsig.nHeight.toNat < s.bestChainLockBlockIndex.length := by omega
  obtain ⟨b, rest, hup, -⟩ := Chain.upTo_eq_cons_of_lt hin
  have hancestor : getAncestor s.bestChainLockBlockIndex clsig.nHeight = some b := by
    unfold getAncestor
    rw [if_neg (by omega), hup]
    rfl
  rw [hancestor, ne_eq, Option.some_inj] at hne
  unfold internalHasConflictingChainLock
  rw [henforced]
  cases hindex : s.bestChainLockBlockIndex with
  | nil =>
    rw [hindex] at hlt
    exact absurd hlt (by simpa using hlow)
  | cons best ancestors =>
    rw [hindex, length_cons] at hlt
    rw [hindex] at hup hancestor
    dsimp only
    rw [if_neg (by decide), if_neg (by omega)]
    split
    · next htop =>
      -- the locked block itself
      have hbest : best = b := by
        rw [htop, Int.toNat_natCast, Chain.upTo_of_suffix (suffix_refl _)] at hup
        exact (cons.inj hup).1
      simp [hbest, Ne.symm hne]
    · rw [hancestor]
      simp [hne]

/-- **A CLSIG is taken over** or leaves the handler as it is. -/
theorem acceptNewChainLock_ok
    (h : acceptNewChainLock env mapBlockIndex s clsig hash = .ok s') :
    s' = s ∧ internalHasConflictingChainLock s clsig.nHeight clsig.blockHash = .ok true ∨
      internalHasConflictingChainLock s clsig.nHeight clsig.blockHash = .ok false ∧
      s'.isEnforced = s.isEnforced ∧ s'.bestChainLock = clsig ∧
      s'.bestChainLockBlockIndex =
        env.lockedBy mapBlockIndex s.bestChainLockBlockIndex clsig := by
  unfold ChainLocksEnv.lockedBy
  obtain ⟨conflicts, hconflicts, h⟩ := bind_eq_ok.mp h
  split at h
  · next htrue =>
    cases h
    exact .inl ⟨rfl, htrue ▸ hconflicts⟩
  next hfalse =>
  rw [Bool.not_eq_true] at hfalse
  refine .inr ⟨hfalse ▸ hconflicts, ?_⟩
  dsimp only at h
  split at h
  · next hunknown =>
    cases h
    exact ⟨rfl, rfl, (if_neg fun hknown => hunknown hknown.1).symm⟩
  next hknown =>
  split at h
  · next hother =>
    cases h
    exact ⟨rfl, rfl, (if_neg fun hnames => hother hnames.2).symm⟩
  · next hnames =>
    cases h
    exact ⟨rfl, rfl, (if_pos ⟨not_not.mp hknown, not_not.mp hnames⟩).symm⟩

/-- A CLSIG that is not below the best one may take over, and its block may become the locked
one. -/
theorem LockedOn.next (hs : LockedOn env branch s) (henforced : s'.isEnforced = s.isEnforced)
    (hle : s.bestChainLock.nHeight ≤ s'.bestChainLock.nHeight)
    (hbest : env.Names s'.bestChainLock → env.index s'.bestChainLock.blockHash <:+ branch)
    (hindex : s'.bestChainLockBlockIndex = s.bestChainLockBlockIndex ∨
      env.Names s'.bestChainLock ∧
        s'.bestChainLockBlockIndex = env.index s'.bestChainLock.blockHash) :
    LockedOn env branch s' ∧ Advances s s' := by
  have henforced := henforced.trans hs.enforced
  rcases hindex with hsame | ⟨hnames, hindex⟩
  · exact ⟨⟨henforced, hbest, hsame ▸ hs.locked, hsame ▸ hs.height.trans hle⟩, hle,
      hsame ▸ suffix_refl _⟩
  · have hlength : s.bestChainLockBlockIndex.length ≤ s'.bestChainLockBlockIndex.length := by
      have hheight := hs.height
      unfold ChainLocksEnv.Names at hnames
      rw [hindex]
      omega
    have hlocked : s'.bestChainLockBlockIndex <:+ branch := hindex ▸ hbest hnames
    exact ⟨⟨henforced, hbest, hlocked, hindex ▸ hnames.le⟩, hle,
      suffix_of_suffix_length_le hs.locked hlocked hlength⟩

theorem LockedOn.unchanged (hs : LockedOn env branch s) (s' : CChainLocksHandler S)
    (henforced : s'.isEnforced = s.isEnforced)
    (hbest : s'.bestChainLock = s.bestChainLock)
    (hindex : s'.bestChainLockBlockIndex = s.bestChainLockBlockIndex) :
    LockedOn env branch s' ∧ Advances s s' :=
  hs.next henforced (le_of_eq (congrArg _ hbest.symm)) (hbest ▸ hs.best) (.inl hindex)

variable {n n' : ChainLocksNode S} {call : PendingCall S} {i : Nat}

/-- **The first section** lets calls pass that are above the best CLSIG. -/
theorem Ordered.tests (hn : Ordered env branch n) (h : n.step env (.tests call) = .ok n') :
    Ordered env branch n' ∧ Advances n.handler n'.handler := by
  obtain ⟨hlocked, hadvances⟩ := hn.handler.unchanged
    { n.handler with seenChainLocks := insert call.hash n.handler.seenChainLocks } rfl rfl rfl
  unfold ChainLocksNode.step testNewChainLock at h
  dsimp only at h
  split at h
  · next handler heq =>
    cases h
    split at heq
    · cases heq
      exact ⟨hn, le_rfl, suffix_refl _⟩
    split at heq <;> cases heq
    exact ⟨⟨hlocked, hn.pending⟩, hadvances⟩
  · next handler heq =>
    cases h
    split at heq
    · cases heq
    split at heq
    · cases heq
    next hnewer =>
    cases heq
    refine ⟨⟨hlocked, forall_mem_cons.mpr ⟨?_, hn.pending⟩⟩, hadvances⟩
    -- a CLSIG without a height that a quorum signs is never taken over
    by_cases hlow : call.clsig.nHeight < 0
    · refine .inr (.inr fun chainActive hsigned => ?_)
      have hoffset := hsigned.offset_le
      unfold SIGN_HEIGHT_OFFSET at hoffset
      omega
    · left
      dsimp only at hnewer ⊢
      omega

/-- **The second section** takes over a CLSIG that no other one has overtaken. -/
theorem Ordered.finishes (hn : Ordered env branch n)
    (hmeets : Meets env branch n (.finishes chainActive mapBlockIndex i))
    (h : n.step env (.finishes chainActive mapBlockIndex i) = .ok n') :
    Ordered env branch n' ∧ Advances n.handler n'.handler := by
  unfold ChainLocksNode.step at h
  dsimp only at h
  split at h
  · cases h
    exact ⟨hn, le_rfl, suffix_refl _⟩
  next call hcall =>
  obtain ⟨handler, hfinish, h⟩ := bind_eq_ok.mp h
  cases h
  -- the other calls of a handler whose ChainLock stays
  have hothers : ∀ other ∈ n.pending.eraseIdx i,
      n.handler.bestChainLock.nHeight < other.clsig.nHeight ∨
        env.Harmless n.handler.bestChainLockBlockIndex other.clsig :=
    fun other hother => hn.pending other (mem_of_mem_eraseIdx hother)
  obtain ⟨valid, hvalid, hfinish⟩ := bind_eq_ok.mp hfinish
  split at hfinish
  · next hv =>
    subst hv
    have hsigned : env.Signed chainActive call.clsig := hvalid
    have hlow : 0 ≤ call.clsig.nHeight := le_trans (by decide) hsigned.offset_le
    rcases acceptNewChainLock_ok hfinish with ⟨hsame, -⟩ | ⟨hpasses, henforced, hbest, hindex⟩
    · subst hsame
      exact ⟨⟨hn.handler, hothers⟩, le_rfl, suffix_refl _⟩
    have hnot : ¬ Refused n.handler.bestChainLockBlockIndex call.clsig := fun hrefused => by
      rw [conflicting_of_refused hn.handler.enforced hlow hrefused] at hpasses
      cases hpasses
    obtain ⟨hovertakes, hbranch⟩ := hmeets call hcall hsigned hnot
    have habove : n.handler.bestChainLock.nHeight < call.clsig.nHeight := by
      rcases hn.pending call (mem_of_getElem? hcall) with habove | hrefused | hforged
      · exact habove
      · exact absurd hrefused hnot
      · exact absurd hsigned (hforged chainActive)
    obtain ⟨hlocked, hadvances⟩ := hn.handler.next henforced (hbest ▸ habove.le)
      (hbest ▸ hbranch) (by
        rw [hindex, hbest]
        unfold ChainLocksEnv.lockedBy
        split
        · next hnames => exact .inr ⟨hnames.2, rfl⟩
        · exact .inl rfl)
    refine ⟨⟨hlocked, fun other hother => ?_⟩, hadvances⟩
    rw [hbest, hindex]
    exact hovertakes other hother
  · split at hfinish <;> cases hfinish
    · obtain ⟨hlocked, hadvances⟩ := hn.handler.unchanged
        { n.handler with misbehaving := n.handler.misbehaving ++ [call.sender] } rfl rfl rfl
      exact ⟨⟨hlocked, hothers⟩, hadvances⟩
    · exact ⟨⟨hn.handler, hothers⟩, le_rfl, suffix_refl _⟩

theorem LockedOn.header (hs : LockedOn env branch s) (pindexNew : Uint256) :
    LockedOn env branch (acceptedBlockHeader env s pindexNew) ∧
      Advances s (acceptedBlockHeader env s pindexNew) := by
  unfold acceptedBlockHeader
  split
  · exact hs.unchanged _ rfl rfl rfl
  next hsame =>
  rw [not_not] at hsame
  subst hsame
  split
  · exact hs.unchanged _ rfl rfl rfl
  · next hnames => exact hs.next rfl le_rfl hs.best (.inr ⟨(not_not.mp hnames).symm, rfl⟩)

theorem acceptedBlockHeader_bestChainLock (pindexNew : Uint256) :
    (acceptedBlockHeader env s pindexNew).bestChainLock = s.bestChainLock := by
  unfold acceptedBlockHeader
  split
  · rfl
  split <;> rfl

/-- **One event** keeps the invariant and sets no ChainLock back. -/
theorem Ordered.step {event : ChainLocksEvent S} (hn : Ordered env branch n)
    (hmeets : Meets env branch n event) (h : n.step env event = .ok n') :
    Ordered env branch n' ∧ Advances n.handler n'.handler := by
  cases event with
  | tests call => exact hn.tests h
  | finishes chainActive mapBlockIndex i => exact hn.finishes hmeets h
  | header pindexNew =>
    cases h
    obtain ⟨hlocked, hadvances⟩ := hn.handler.header pindexNew
    refine ⟨⟨hlocked, fun call hcall => ?_⟩, hadvances⟩
    rw [acceptedBlockHeader_bestChainLock]
    exact (hn.pending call hcall).imp_right (·.of_suffix hadvances.block)

theorem Reached.ordered (h : Reached env branch n) : Ordered env branch n := by
  induction h with
  | start s henforced hheight hindex =>
    refine ⟨⟨henforced, fun hnames => ?_, hindex ▸ nil_suffix,
      by rw [hindex, hheight]; decide⟩, fun _ h => nomatch h⟩
    -- no block has this height
    have hnil : (env.index s.bestChainLock.blockHash).length = 0 := by
      have hnames : (env.index s.bestChainLock.blockHash).length - 1 = s.bestChainLock.nHeight :=
        hnames
      omega
    rw [length_eq_zero_iff.mp hnil]
    exact nil_suffix
  | step _ _ hmeets hstep ih => exact (ih.step hmeets hstep).1

variable (env branch) in
/-- **ChainLocks are stable** in every run, from an enforcing handler without a ChainLock, in which
no call that takes a CLSIG over overtakes one that could set it back, and the CLSIGs taken over
are for blocks of one branch. -/
theorem chainLocks_advance (event : ChainLocksEvent S) (hn : Reached env branch n)
    (hmeets : Meets env branch n event) (h : n.step env event = .ok n') :
    Advances n.handler n'.handler :=
  (hn.ordered.step hmeets h).2

end Runs

def sampleCall (nHeight : Fin 100) (blockHash : Uint256) : PendingCall Bool :=
  ⟨5, ⟨nHeight, blockHash, true, by omega, by omega⟩, blockHash⟩

/-- The end of a pending call, at a node that knows some blocks. -/
def sampleEnd (i : Nat) : ChainLocksEvent Bool :=
  .finishes [0, 1, 2] {8, 9, 110} i

/-- The call for block 9 overtakes one for another block of height 8, which is refused then. -/
theorem chainLocks_advance_refused :
    ∃ n₁ n₂ n₃ n₄, ChainLocksNode.step plainTree ⟨freshHandler, []⟩ (.tests (sampleCall 8 108)) =
        .ok n₁ ∧ n₁.step plainTree (.tests (sampleCall 9 9)) = .ok n₂ ∧
      n₂.step plainTree (sampleEnd 0) = .ok n₃ ∧ n₃.pending.length = 1 ∧
      n₃.step plainTree (sampleEnd 0) = .ok n₄ ∧ n₄.handler.bestChainLock.nHeight = 9 ∧
      Advances n₃.handler n₄.handler := by
  refine ⟨_, _, _, _, rfl, rfl, rfl, rfl, rfl, rfl,
    chainLocks_advance plainTree (plainTree.index 9) (sampleEnd 0)
      (.step (sampleEnd 0) (.step (.tests (sampleCall 9 9))
        (.step (.tests (sampleCall 8 108)) (.start freshHandler rfl rfl rfl) trivial rfl)
        trivial rfl) ?_ rfl) ?_ rfl⟩
  · rintro _ ⟨⟩ - -
    refine ⟨?_, fun _ => by decide⟩
    rintro other hother
    rw [mem_singleton.mp hother]
    exact .inr (.inl ⟨by decide, by decide⟩)
  · rintro _ ⟨⟩ - hnot
    exact absurd ⟨by decide, by decide⟩ hnot

def sampleRun (events : List (ChainLocksEvent Bool)) : Except Abort (ChainLocksNode Bool) :=
  events.foldlM (ChainLocksNode.step plainTree) ⟨freshHandler, []⟩

/-- **ChainLocks are set back**: by a call that tested the height before a higher CLSIG was taken
over, and by a CLSIG for a higher block of another branch. -/
theorem chainLock_set_back :
    (sampleRun [.tests (sampleCall 8 8), .tests (sampleCall 9 9), sampleEnd 0]).map
        (·.handler.bestChainLock.nHeight) = .ok 9 ∧
      (sampleRun [.tests (sampleCall 8 8), .tests (sampleCall 9 9), sampleEnd 0, sampleEnd 0]).map
        (·.handler.bestChainLock.nHeight) = .ok 8 ∧
      (sampleRun [.tests (sampleCall 9 9), sampleEnd 0]).map
        (·.handler.bestChainLockBlockIndex) = .ok (plainTree.index 9) ∧
      (sampleRun [.tests (sampleCall 9 9), sampleEnd 0, .tests (sampleCall 10 110),
        sampleEnd 0]).map (·.handler.bestChainLockBlockIndex) = .ok (plainTree.index 110) ∧
      ¬ plainTree.index 9 <:+ plainTree.index 110 :=
  ⟨rfl, rfl, rfl, rfl, by decide⟩

end Zcoin.Llmq
