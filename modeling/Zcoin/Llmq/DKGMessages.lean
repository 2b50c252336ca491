/-
  Zcoin.Llmq.DKGMessages — signatures of DKG messages (`llmq/quorums_dkgsessionhandler.cpp`).

  `BatchVerifyMessageSigs` adds the signatures of a batch up, which ends the process at one that is
  not well formed, and verifies them together.  When that fails it asks whether one peer sent all
  messages, in a loop whose flag `first` is never cleared, so that the answer is always yes and the
  peer of the last message is blamed.
-/
import Zcoin.Llmq.BatchVerifier

namespace Zcoin.Llmq

open Lib Lib.Except List

/-! ## §1. `BatchVerifyMessageSigs`. -/

/-- A DKG session and the messages of a phase. -/
structure DKGEnv (σ M K S : Type) where
  bls : Bls K S
  /-- `GetMember(proTxHash)`, with the operator key of the member -/
  pubKeyOperator : Uint256 → Option K
  proTxHash : M → Uint256
  sig : M → S
  /-- `GetSignHash` -/
  getSignHash : M → Uint256
  /-- `PreVerifyMessage` and `retBan` -/
  preVerifyMessage : σ → M → Bool × Bool
  /-- a message that passes names a member -/
  member_of_preVerify : ∀ session msg, (preVerifyMessage session msg).1 = true →
    (pubKeyOperator (proTxHash msg)).isSome = true

/-- What the first loop collects: the aggregated messages with their keys. -/
structure SigBatch (M K : Type) where
  ret : Finset NodeId := ∅
  aggregated : List (M × K) := []
  revertToSingleVerification : Bool := false

section Handler

variable {σ M K S : Type} (env : DKGEnv σ M K S)

/-- The first loop; it is left at a sign hash that was there before.  From the second signature on
`AggregateInsecure` asserts that the sum so far and the signature are valid. -/
def aggregateSigs : List (NodeId × M) → SigBatch M K → Except Abort (SigBatch M K)
  | [], batch => .ok batch
  | (nodeId, msg) :: messages, batch =>
    match env.pubKeyOperator (env.proTxHash msg) with
    | none => aggregateSigs messages { batch with ret := insert nodeId batch.ret }
    | some key => do
      assertThat (batch.aggregated.isEmpty ||
        (batch.aggregated.all fun m => env.bls.sigIsValid (env.sig m.1)) &&
          env.bls.sigIsValid (env.sig msg))
      if env.getSignHash msg ∈ batch.aggregated.map fun m => env.getSignHash m.1 then
        return { batch with revertToSingleVerification := true }
      else aggregateSigs messages { batch with aggregated := batch.aggregated ++ [(msg, key)] }

/-- The loop over the peers: `nodeIdsAllSame` and `firstNodeId`.  Only the branch that is never
taken clears `first`. -/
def compareNodeIds (first : Bool) (firstNodeId : NodeId) : List NodeId → Bool × NodeId
  | [] => (true, firstNodeId)
  | nodeId :: nodeIds =>
    if first then compareNodeIds first nodeId nodeIds
    else if nodeId ≠ firstNodeId then (false, firstNodeId)
    else compareNodeIds false firstNodeId nodeIds

/-- The loop over single messages. -/
def verifySingly : List (NodeId × M) → Finset NodeId → Except Abort (Finset NodeId)
  | [], ret => .ok ret
  | (nodeId, msg) :: messages, ret =>
    if nodeId ∈ ret then verifySingly messages ret
    else match env.pubKeyOperator (env.proTxHash msg) with
      | none => .error .nullPointer
      | some key =>
        if env.bls.verifyInsecure (env.sig msg) key (env.getSignHash msg) then
          verifySingly messages ret
        else verifySingly messages (insert nodeId ret)

/-- `BatchVerifyMessageSigs`; `firstNodeId` starts uninitialised. -/
def batchVerifyMessageSigs (messages : List (NodeId × M)) : Except Abort (Finset NodeId) := do
  if messages.isEmpty then return ∅
  else
    let batch ← aggregateSigs env messages {}
    if batch.revertToSingleVerification then verifySingly env messages batch.ret
    else if batch.aggregated.all fun m =>
        env.bls.verifyInsecure (env.sig m.1) m.2 (env.getSignHash m.1) then return batch.ret
    else
      let (nodeIdsAllSame, firstNodeId) := compareNodeIds true 0 (messages.map Prod.fst)
      if nodeIdsAllSame then return insert firstNodeId batch.ret
      else verifySingly env messages batch.ret

/-! ## §2. `ProcessPendingMessageBatch`. -/

/-- What a batch leaves: the session, the messages it was given, and the peers that are punished. -/
structure BatchResult (σ M : Type) where
  session : σ
  received : List M := []
  misbehaving : List NodeId := []

/-- The last loop: messages of peers that are not bad are received. -/
def receiveAll (receiveMessage : σ → M → σ × Bool) :
    List (NodeId × M) → Finset NodeId → BatchResult σ M → BatchResult σ M
  | [], _, r => r
  | (nodeId, msg) :: messages, badNodes, r =>
    if nodeId ∈ badNodes then receiveAll receiveMessage messages badNodes r
    else
      let (session, ban) := receiveMessage r.session msg
      let r := { r with session, received := r.received ++ [msg] }
      if ban then receiveAll receiveMessage messages (insert nodeId badNodes)
        { r with misbehaving := r.misbehaving ++ [nodeId] }
      else receiveAll receiveMessage messages badNodes r

/-- The messages that could be deserialised and pass `PreVerifyMessage`. -/
def preverified (session : σ) (msgs : List (NodeId × Option M)) : List (NodeId × M) :=
  msgs.filterMap fun p => match p.2 with
    | none => none
    | some msg => if (env.preVerifyMessage session msg).1 then some (p.1, msg) else none

/-- `ProcessPendingMessageBatch` of the messages that were popped. -/
def processPendingMessageBatch (receiveMessage : σ → M → σ × Bool) (session : σ)
    (msgs : List (NodeId × Option M)) : Except Abort (BatchResult σ M) := do
  let refused := msgs.filterMap fun p => match p.2 with
    | none => some p.1
    | some msg =>
      let (passed, ban) := env.preVerifyMessage session msg
      if !passed && ban then some p.1 else none
  let messages := preverified env session msgs
  if messages.isEmpty then return { session, misbehaving := refused }
  else
    let badNodes ← batchVerifyMessageSigs env messages
    return receiveAll receiveMessage messages badNodes
      { session, misbehaving := refused ++ badNodes.sort (· ≤ ·) }

end Handler

/-! ## §3. Who is blamed. -/

section Blame

variable {σ M K S : Type} {env : DKGEnv σ M K S}

/-- A message signed by the member it names. -/
def DKGEnv.genuine (env : DKGEnv σ M K S) (msg : M) : Bool :=
  (env.pubKeyOperator (env.proTxHash msg)).any fun key =>
    env.bls.verifyInsecure (env.sig msg) key (env.getSignHash msg)

/-- All messages name members. -/
def DKGEnv.Named (env : DKGEnv σ M K S) (messages : List (NodeId × M)) : Prop :=
  ∀ p ∈ messages, ∃ key, env.pubKeyOperator (env.proTxHash p.2) = some key

theorem genuine_eq {msg : M} {key : K} (h : env.pubKeyOperator (env.proTxHash msg) = some key) :
    env.genuine msg = env.bls.verifyInsecure (env.sig msg) key (env.getSignHash msg) := by
  unfold DKGEnv.genuine
  rw [h]
  rfl

variable {messages : List (NodeId × M)}

/-- The messages the first loop looks at: those up to the first sign hash that was seen before. -/
def DKGEnv.scanned (env : DKGEnv σ M K S) (seen : List Uint256) : List (NodeId × M) → List M
  | [] => []
  | (_, msg) :: messages => msg ::
    if env.getSignHash msg ∈ seen then []
    else env.scanned (seen ++ [env.getSignHash msg]) messages

/-- **The signatures can be added up**: there is just one, or all that are added are valid. -/
def DKGEnv.Aggregates (env : DKGEnv σ M K S) (messages : List (NodeId × M)) : Prop :=
  messages.length ≤ 1 ∨ ∀ msg ∈ env.scanned [] messages, env.bls.sigIsValid (env.sig msg) = true

/-- What the first loop has made of some messages: it reverts to single messages just if a sign
hash occurs twice, and has aggregated all messages otherwise. -/
structure Aggregated (env : DKGEnv σ M K S) (messages : List (NodeId × M))
    (batch batch' : SigBatch M K) : Prop where
  ret : batch'.ret = batch.ret
  revert : batch'.revertToSingleVerification = false ↔
    ((batch.aggregated.map fun m => env.getSignHash m.1) ++
      messages.map fun p => env.getSignHash p.2).Nodup
  all : batch'.revertToSingleVerification = false →
    (batch'.aggregated.all fun m =>
        env.bls.verifyInsecure (env.sig m.1) m.2 (env.getSignHash m.1)) =
      ((batch.aggregated.all fun m =>
        env.bls.verifyInsecure (env.sig m.1) m.2 (env.getSignHash m.1)) &&
        messages.all fun p => env.genuine p.2)

/-- **The first loop** aggregates unless it meets a signature that is not valid. -/
theorem aggregateSigs_spec (hnamed : env.Named messages)
    {batch : SigBatch M K} (hkeep : batch.revertToSingleVerification = false)
    (hnodup : (batch.aggregated.map fun m => env.getSignHash m.1).Nodup)
    (hsum : batch.aggregated.length ≤ 1 ∨
      ∀ m ∈ batch.aggregated, env.bls.sigIsValid (env.sig m.1) = true) :
    ((∃ batch', aggregateSigs env messages batch = .ok batch') ↔
      batch.aggregated.length + messages.length ≤ 1 ∨
        (∀ m ∈ batch.aggregated, env.bls.sigIsValid (env.sig m.1) = true) ∧
        ∀ msg ∈ env.scanned (batch.aggregated.map fun m => env.getSignHash m.1) messages,
          env.bls.sigIsValid (env.sig msg) = true) ∧
      ∀ batch', aggregateSigs env messages batch = .ok batch' →
        Aggregated env messages batch batch' := by
  induction messages generalizing batch with
  | nil =>
    refine ⟨iff_of_true ⟨_, rfl⟩ (hsum.imp_right fun h => ⟨h, nofun⟩), ?_⟩
    rintro _ ⟨⟩
    exact ⟨rfl, by simpa [hkeep] using hnodup, fun _ => (Bool.and_true _).symm⟩
  | cons p messages ih =>
    obtain ⟨nodeId, msg⟩ := p
    obtain ⟨key, hkey⟩ := hnamed (nodeId, msg) mem_cons_self
    have hrest : env.Named messages := fun p hp => hnamed p (mem_cons_of_mem _ hp)
    unfold aggregateSigs DKGEnv.scanned
    rw [hkey]
    dsimp only
    by_cases hassert : (batch.aggregated.isEmpty ||
        (batch.aggregated.all fun m => env.bls.sigIsValid (env.sig m.1)) &&
          env.bls.sigIsValid (env.sig msg)) = true
    swap
    · -- a second signature, and one of those so far is not valid
      have hnot := Bool.eq_false_iff.mpr hassert
      rw [hnot]
      rw [Bool.or_eq_false_iff] at hnot
      have hpos : batch.aggregated.length ≠ 0 := fun h => by
        rw [length_eq_zero_iff.mp h] at hnot
        cases hnot.1
      refine ⟨iff_of_false (fun ⟨_, h⟩ => nomatch h) ?_, fun _ h => nomatch h⟩
      rintro (hone | ⟨hall, hscanned⟩)
      · rw [length_cons] at hone
        omega
      · rw [all_eq_true.mpr hall, hscanned msg mem_cons_self] at hnot
        cases hnot.2
    rw [hassert, assertThat_true, ok_bind]
    rw [Bool.or_eq_true, Bool.and_eq_true, all_eq_true] at hassert
    by_cases hseen : env.getSignHash msg ∈ batch.aggregated.map fun m => env.getSignHash m.1
    · rw [if_pos hseen, if_pos hseen]
      have hvalid := hassert.resolve_left fun hempty => by
        rw [isEmpty_iff.mp hempty] at hseen
        cases hseen
      refine ⟨iff_of_true ⟨_, rfl⟩ (.inr ⟨hvalid.1, by simpa using hvalid.2⟩), ?_⟩
      rintro _ ⟨⟩
      refine ⟨rfl, iff_of_false (fun h => nomatch h) fun hall => ?_, fun h => nomatch h⟩
      exact (nodup_append.mp hall).2.2 _ hseen _ mem_cons_self rfl
    · rw [if_neg hseen, if_neg hseen]
      obtain ⟨hruns, hbatch⟩ := @ih hrest
        { batch with aggregated := batch.aggregated ++ [(msg, key)] } hkeep (by
          rw [map_append, nodup_append]
          refine ⟨hnodup, nodup_singleton _, ?_⟩
          rintro a ha b hb rfl
          rw [map_singleton, mem_singleton] at hb
          exact hseen (hb ▸ ha)) (by
          rcases hassert with hempty | hvalid
          · rw [isEmpty_iff.mp hempty]
            exact .inl le_rfl
          · exact .inr (forall_mem_append.mpr ⟨hvalid.1, by simpa using hvalid.2⟩))
      constructor
      · rw [hruns]
        simp only [length_append, length_cons, forall_mem_append, map_append,
          forall_mem_cons, map_singleton, and_assoc, add_assoc, add_comm 1]
        simp
      · intro batch' hrun
        obtain ⟨hret, hrevert, hall⟩ := hbatch batch' hrun
        refine ⟨hret, ?_, ?_⟩
        · rw [hrevert, map_append, append_assoc]
          rfl
        · intro hkept
          rw [hall hkept, all_append, all_cons, all_cons, all_nil,
            Bool.and_true, genuine_eq hkey, Bool.and_assoc]

theorem compareNodeIds_true (firstNodeId : NodeId) (nodeIds : List NodeId) :
    compareNodeIds true firstNodeId nodeIds = (true, nodeIds.getLastD firstNodeId) := by
  induction nodeIds generalizing firstNodeId with
  | nil => rfl
  | cons nodeId nodeIds ih =>
    unfold compareNodeIds
    rw [if_pos rfl, ih]
    cases nodeIds <;> rfl

/-- **The loop over single messages** blames the peers of messages that are not genuine. -/
theorem verifySingly_spec (hnamed : env.Named messages) (ret : Finset NodeId) :
    ∃ bad, verifySingly env messages ret = .ok bad ∧
      ∀ n, n ∈ bad ↔ n ∈ ret ∨ ∃ p ∈ messages, p.1 = n ∧ env.genuine p.2 = false := by
  induction messages generalizing ret with
  | nil => exact ⟨ret, rfl, fun n => by simp⟩
  | cons p messages ih =>
    obtain ⟨nodeId, msg⟩ := p
    obtain ⟨key, hkey⟩ := hnamed (nodeId, msg) mem_cons_self
    -- a peer that is blamed already is blamed once more
    have hstep : verifySingly env ((nodeId, msg) :: messages) ret =
        verifySingly env messages (if env.genuine msg then ret else insert nodeId ret) := by
      conv_lhs => unfold verifySingly
      rw [hkey]
      dsimp only
      rw [← genuine_eq hkey]
      split
      · next hknown => rw [Finset.insert_eq_self.mpr hknown, ite_self]
      · split <;> rfl
    obtain ⟨bad, hrun, hbad⟩ := ih (fun p hp => hnamed p (mem_cons_of_mem _ hp)) _
    refine ⟨bad, hstep.trans hrun, fun n => (hbad n).trans ?_⟩
    cases hgenuine : env.genuine msg with
    | true => simp [hgenuine]
    | false => simp [hgenuine, or_assoc, or_left_comm, @eq_comm _ nodeId]

theorem batchVerifyMessageSigs_asserts (hnamed : env.Named messages)
    (h : ¬ env.Aggregates messages) (bad : Finset NodeId) :
    batchVerifyMessageSigs env messages ≠ .ok bad := by
  obtain ⟨hruns, -⟩ := @aggregateSigs_spec σ M K S env messages hnamed {} rfl nodup_nil
    (.inl (Nat.zero_le 1))
  unfold batchVerifyMessageSigs
  intro hrun
  split at hrun
  · next hempty =>
    rw [isEmpty_iff.mp hempty] at h
    exact h (.inl (Nat.zero_le 1))
  · obtain ⟨batch, hbatch, -⟩ := bind_eq_ok.mp hrun
    rcases hruns.mp ⟨batch, hbatch⟩ with hone | ⟨-, hvalid⟩
    · exact h (.inl (by simpa using hone))
    · exact h (.inr hvalid)

/-- **Who is blamed**: with a sign hash twice, the peers of messages that are not genuine; else
the peer of the last message, if some message is not genuine. -/
theorem batchVerifyMessageSigs_spec (hnamed : env.Named messages)
    (haggregates : env.Aggregates messages) :
    ∃ bad, batchVerifyMessageSigs env messages = .ok bad ∧
      (¬ (messages.map fun p => env.getSignHash p.2).Nodup →
        ∀ n, n ∈ bad ↔ ∃ p ∈ messages, p.1 = n ∧ env.genuine p.2 = false) ∧
      ((messages.map fun p => env.getSignHash p.2).Nodup →
        ∀ n, n ∈ bad ↔ n ∈ (messages.map Prod.fst).getLast? ∧
          ∃ p ∈ messages, env.genuine p.2 = false) := by
  obtain ⟨hruns, hbatch⟩ := @aggregateSigs_spec σ M K S env messages hnamed {} rfl nodup_nil
    (.inl (Nat.zero_le 1))
  obtain ⟨batch, hrun⟩ := hruns.mpr (haggregates.imp (by simp) fun hvalid => ⟨nofun, hvalid⟩)
  obtain ⟨hret, hrevert, hall⟩ := hbatch batch hrun
  rw [map_nil, nil_append] at hrevert
  unfold batchVerifyMessageSigs
  rw [hrun, ok_bind]
  cases hempty : messages with
  | nil => exact ⟨∅, rfl, fun h => absurd nodup_nil h, fun _ n => by simp⟩
  | cons p rest =>
  rw [← hempty, if_neg (by rw [hempty]; exact Bool.false_ne_true)]
  dsimp only
  rw [hret]
  by_cases hnodup : (messages.map fun p => env.getSignHash p.2).Nodup
  · -- the aggregate decides, and the last peer is blamed
    have hkeep := hrevert.mpr hnodup
    rw [hkeep, hall hkeep, all_nil, Bool.true_and]
    by_cases hvalid : (messages.all fun p => env.genuine p.2) = true
    · refine ⟨∅, by rw [hvalid]; rfl, fun h => absurd hnodup h, fun _ n => ?_⟩
      refine iff_of_false (Finset.notMem_empty n) ?_
      rintro ⟨-, p, hp, hfails⟩
      rw [all_eq_true.mp hvalid p hp] at hfails
      cases hfails
    · have hsome : ∃ p ∈ messages, env.genuine p.2 = false := by
        obtain ⟨p, hp, hfails⟩ := all_eq_false.mp (Bool.eq_false_iff.mpr hvalid)
        exact ⟨p, hp, Bool.eq_false_iff.mpr hfails⟩
      rw [Bool.eq_false_iff.mpr hvalid, compareNodeIds_true]
      refine ⟨_, rfl, fun h => absurd hnodup h, fun _ n => ?_⟩
      rw [Finset.mem_insert, or_iff_left (Finset.notMem_empty n), and_iff_left hsome, hempty,
        map_cons, getLastD_eq_getLast?, getLast?_cons, Option.mem_def,
        Option.some.injEq, eq_comm]
      rfl
  · have hback : batch.revertToSingleVerification = true := by
      rw [← Bool.not_eq_false]
      exact fun h => hnodup (hrevert.mp h)
    rw [hback]
    obtain ⟨bad, hrun, hbad⟩ := verifySingly_spec hnamed ∅
    exact ⟨bad, hrun, fun _ n => by rw [hbad n]; simp, fun h => absurd h hnodup⟩

theorem mem_received {receiveMessage : σ → M → σ × Bool}
    {badNodes : Finset NodeId} {r : BatchResult σ M} {msg : M}
    (h : msg ∈ (receiveAll receiveMessage messages badNodes r).received) :
    msg ∈ r.received ∨ ∃ p ∈ messages, p.2 = msg ∧ p.1 ∉ badNodes := by
  induction messages generalizing badNodes r with
  | nil => exact .inl h
  | cons p messages ih =>
    obtain ⟨nodeId, m⟩ := p
    unfold receiveAll at h
    dsimp only at h
    split at h
    · exact (ih h).imp_right fun ⟨p, hp, hsame⟩ => ⟨p, mem_cons_of_mem _ hp, hsame⟩
    · next hgood =>
      have hfrom : msg ∈ r.received ++ [m] ∨ ∃ p ∈ messages, p.2 = msg ∧ p.1 ∉ badNodes := by
        split at h
        · exact (ih h).imp_right fun ⟨p, hp, hsame, hnot⟩ =>
            ⟨p, hp, hsame, fun hin => hnot (Finset.mem_insert_of_mem hin)⟩
        · exact ih h
      rcases hfrom with hin | ⟨p, hp, hsame⟩
      · rcases mem_append.mp hin with hin | hin
        · exact .inl hin
        · exact .inr ⟨_, mem_cons_self, (mem_singleton.mp hin).symm, hgood⟩
      · exact .inr ⟨p, mem_cons_of_mem _ hp, hsame⟩

theorem received_lenient (messages : List (NodeId × M)) (badNodes : Finset NodeId)
    (r : BatchResult σ M) :
    (receiveAll (fun session _ => (session, false)) messages badNodes r).received =
      r.received ++ (messages.filter fun p => p.1 ∉ badNodes).map Prod.snd := by
  induction messages generalizing r with
  | nil => exact (append_nil _).symm
  | cons p messages ih =>
    unfold receiveAll
    by_cases hbad : p.1 ∈ badNodes
    · rw [if_pos hbad, ih, filter_cons_of_neg (by simp [hbad])]
    · rw [if_neg hbad, filter_cons_of_pos (by simp [hbad])]
      refine (ih _).trans ?_
      rw [map_cons, append_assoc]
      rfl

theorem named_preverified (env : DKGEnv σ M K S) (session : σ) (msgs : List (NodeId × Option M)) :
    env.Named (preverified env session msgs) := by
  intro p hp
  obtain ⟨⟨nodeId, msg⟩, -, hsome⟩ := List.mem_filterMap.mp hp
  cases msg with
  | none => cases hsome
  | some msg =>
    dsimp only at hsome
    split at hsome
    · next hpass =>
      cases hsome
      exact Option.isSome_iff_exists.mp (env.member_of_preVerify session msg hpass)
    · cases hsome

/-- **A batch is authentic**, whatever the session makes of the messages, exactly if its signatures
can be added up, and a sign hash occurs twice or the peer of the last message sent every message
that is not genuine. -/
theorem dkgMessages_authentic_iff (env : DKGEnv σ M K S) (session : σ)
    (msgs : List (NodeId × Option M)) :
    (∀ receiveMessage : σ → M → σ × Bool, ∃ r bad,
        processPendingMessageBatch env receiveMessage session msgs = .ok r ∧
        (∀ msg ∈ r.received, env.genuine msg = true) ∧
        batchVerifyMessageSigs env (preverified env session msgs) = .ok bad ∧
        ∀ n ∈ bad, ∃ p ∈ preverified env session msgs, p.1 = n ∧ env.genuine p.2 = false) ↔
      env.Aggregates (preverified env session msgs) ∧
      (((preverified env session msgs).map fun p => env.getSignHash p.2).Nodup →
        ∀ p ∈ preverified env session msgs, env.genuine p.2 = false →
          p.1 ∈ ((preverified env session msgs).map Prod.fst).getLast?) := by
  have hnamed := named_preverified env session msgs
  unfold processPendingMessageBatch
  generalize preverified env session msgs = messages at hnamed ⊢
  by_cases haggregates : env.Aggregates messages
  swap
  · refine iff_of_false (fun h => ?_) fun h => haggregates h.1
    obtain ⟨_, bad, -, -, hbad, -⟩ := h fun session _ => (session, false)
    exact batchVerifyMessageSigs_asserts hnamed haggregates bad hbad
  rw [and_iff_right haggregates]
  obtain ⟨bad, hrun, htwice, honce⟩ := batchVerifyMessageSigs_spec hnamed haggregates
  -- every peer blamed sent a message that is not genuine, under the condition
  have hblamed : ((messages.map fun p => env.getSignHash p.2).Nodup →
      ∀ p ∈ messages, env.genuine p.2 = false → p.1 ∈ (messages.map Prod.fst).getLast?) →
      ∀ n, n ∈ bad ↔ ∃ p ∈ messages, p.1 = n ∧ env.genuine p.2 = false := by
    intro h n
    by_cases hnodup : (messages.map fun p => env.getSignHash p.2).Nodup
    · rw [honce hnodup]
      constructor
      · rintro ⟨hlast, p, hp, hfails⟩
        exact ⟨p, hp, Option.mem_unique (h hnodup p hp hfails) hlast, hfails⟩
      · rintro ⟨p, hp, rfl, hfails⟩
        exact ⟨h hnodup p hp hfails, p, hp, hfails⟩
    · exact htwice hnodup n
  dsimp only
  rw [hrun]
  cases hempty : messages.isEmpty with
  | true =>
    rw [List.isEmpty_iff.mp hempty] at hblamed ⊢
    refine iff_of_true (fun _ => ⟨_, bad, rfl, fun msg hmsg => (nomatch hmsg), rfl, ?_⟩)
      (fun _ p hp => nomatch hp)
    exact fun n hn => (hblamed (fun _ p hp => nomatch hp) n).mp hn
  | false =>
    simp only [Bool.false_eq_true, if_false]
    constructor
    · intro h hnodup p hp hfails
      obtain ⟨r, _, hr, hreceived, -⟩ := h fun session _ => (session, false)
      cases hr
      rw [received_lenient] at hreceived
      -- otherwise the message is received
      by_contra hother
      have hgood : p.1 ∉ bad := fun hin => hother ((honce hnodup p.1).mp hin).1
      rw [hreceived p.2 (List.mem_map_of_mem (List.mem_filter.mpr ⟨hp, by simp [hgood]⟩))] at hfails
      cases hfails
    · intro h receiveMessage
      refine ⟨_, bad, rfl, ?_, rfl, fun n hn => (hblamed h n).mp hn⟩
      intro msg hmsg
      rcases mem_received hmsg with hin | ⟨p, hp, rfl, hgood⟩
      · cases hin
      · by_contra hfails
        exact hgood ((hblamed h p.1).mpr ⟨p, hp, rfl, Bool.eq_false_iff.mpr hfails⟩)

end Blame

/-- Signatures that verify if they say so, and a null signature. -/
def nullableBls : Bls Unit (Option Bool) := ⟨Option.isSome, fun _ => true, fun sig _ _ => sig = true⟩

/-- Messages of member 1 with a number as their sign hash. -/
def plainSession : DKGEnv Unit (Uint256 × Option Bool) Unit (Option Bool) where
  bls := nullableBls
  pubKeyOperator := fun _ => some ()
  proTxHash := fun _ => 1
  sig := Prod.snd
  getSignHash := Prod.fst
  preVerifyMessage := fun _ _ => (true, false)
  member_of_preVerify := fun _ _ _ => rfl

/-- **The wrong peer is blamed**: peer 5 sends a message whose signature fails and peer 6 one
whose signature verifies; peer 6 is blamed, and the message of peer 5 is received.  With a null
signature in place of the one that fails the process ends. -/
theorem wrong_peer_blamed :
    (∃ r bad, processPendingMessageBatch plainSession (fun session _ => (session, false)) ()
        [(5, some (10, some false)), (6, some (20, some true))] = .ok r ∧
      r.received = [(10, some false)] ∧
      batchVerifyMessageSigs plainSession [(5, (10, some false)), (6, (20, some true))] = .ok bad ∧
      bad = {6} ∧ plainSession.genuine (10, some false) = false ∧
      plainSession.genuine (20, some true) = true) ∧
    batchVerifyMessageSigs plainSession [(6, (10, none)), (6, (20, some true))]
      = .error .assertion := by
  refine ⟨⟨_, _, rfl, ?_, rfl, ?_, ?_, ?_⟩, rfl⟩ <;> decide

end Zcoin.Llmq
