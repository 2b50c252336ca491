/-
  Zcoin.Evo.BuildSpec — what `BuildNewListFromBlock` does to a consistent list.

  One lemma per step of the builder: it ends in a rejection or in a list whose entries
  are described in terms of the old list and of the block, never in a failed assertion.
  A step that changes states only is an `Updates`; the phases of the block are chained
  with the rules for `Ensures`.
-/
import Zcoin.Evo.BuildList
import Zcoin.Evo.Consistency

namespace Zcoin.Evo

open List hiding getElem?_insert
open Std Function
open Chain Lib Lib.Except Lib.OrderedMap
open CDeterministicMNList

/-! ## §1. How an entry may change. -/

/-- Another state of the same masternode: what identifies it, its owner key and the height
of its registration stay. -/
def SameMN (d d' : CDeterministicMN) : Prop :=
  ∃ s, d' = { d with pdmnState := s } ∧ s.nRegisteredHeight = d.pdmnState.nRegisteredHeight ∧
    s.keyIDOwner = d.pdmnState.keyIDOwner

/-- Another confirmation or penalty, and nothing else. -/
def Relieved (d d' : CDeterministicMN) : Prop :=
  ∃ confirmedHash confirmedHashWithProRegTxHash nPoSePenalty, d' = { d with
    pdmnState := { d.pdmnState with confirmedHash, confirmedHashWithProRegTxHash, nPoSePenalty } }

theorem SameMN.refl (d : CDeterministicMN) : SameMN d d := ⟨d.pdmnState, rfl, rfl, rfl⟩

variable {d d' d'' : CDeterministicMN}

theorem SameMN.trans (h : SameMN d d') (h' : SameMN d' d'') : SameMN d d'' := by
  obtain ⟨s, hd, hreg, howner⟩ := h
  obtain ⟨s', hd', hreg', howner'⟩ := h'
  subst hd
  exact ⟨s', hd', hreg'.trans hreg, howner'.trans howner⟩

theorem Relieved.refl (d : CDeterministicMN) : Relieved d d := ⟨_, _, _, rfl⟩

theorem Relieved.trans (h : Relieved d d') (h' : Relieved d' d'') : Relieved d d'' := by
  obtain ⟨a, b, c, hd⟩ := h
  obtain ⟨a', b', c', hd'⟩ := h'
  subst hd
  exact ⟨a', b', c', hd'⟩

theorem Relieved.sameMN (h : Relieved d d') : SameMN d d' := by
  obtain ⟨a, b, c, hd⟩ := h
  exact ⟨_, hd, rfl, rfl⟩

variable {η : Type} [DecidableEq η] {serializeHash : UniqueProperty → η}

/-! ## §2. Lists that differ in states only. -/

/-- The same masternodes, each in a state related by `R` to the one it had. -/
structure Updates (serializeHash : UniqueProperty → η)
    (R : CDeterministicMN → CDeterministicMN → Prop) (list list' : CDeterministicMNList η) :
    Prop where
  consistent : Consistent serializeHash list'
  header : SameHeader list list'
  entries : ∀ h : Uint256, Option.Rel R list.mnMap[h]? list'.mnMap[h]?

namespace Updates

variable {R : CDeterministicMN → CDeterministicMN → Prop}
  {list list' list'' : CDeterministicMNList η}

omit [DecidableEq η]

theorem refl (hR : ∀ d, R d d) (hc : Consistent serializeHash list) :
    Updates serializeHash R list list where
  consistent := hc
  header := ⟨rfl, rfl, rfl⟩
  entries _ := rel_refl hR

theorem trans (hR : ∀ {d d' d''}, R d d' → R d' d'' → R d d'')
    (h : Updates serializeHash R list list') (h' : Updates serializeHash R list' list'') :
    Updates serializeHash R list list'' where
  consistent := h'.consistent
  header := ⟨h'.header.blockHash.trans h.header.blockHash, h'.header.nHeight.trans h.header.nHeight,
    h'.header.nTotalRegisteredCount.trans h.header.nTotalRegisteredCount⟩
  entries k := rel_comp (h.entries k) (h'.entries k) fun _ _ _ _ => hR

theorem mono {R' : CDeterministicMN → CDeterministicMN → Prop} (hR : ∀ {d d'}, R d d' → R' d d')
    (h : Updates serializeHash R list list') : Updates serializeHash R' list list' where
  consistent := h.consistent
  header := h.header
  entries k := rel_mono hR (h.entries k)

theorem of_old (h : Updates serializeHash R list list') {k : Uint256} {d : CDeterministicMN}
    (hget : list.mnMap[k]? = some d) : ∃ d', list'.mnMap[k]? = some d' ∧ R d d' :=
  exists_right (h.entries k) hget

theorem of_new (h : Updates serializeHash R list list') {k : Uint256} {d' : CDeterministicMN}
    (hget : list'.mnMap[k]? = some d') : ∃ d, list.mnMap[k]? = some d ∧ R d d' :=
  exists_left (h.entries k) hget

end Updates

/-- No assertion at all. -/
def Never : Abort → Prop := fun _ => False

/-- A verdict of the validation, not a failed assertion. -/
def IsRejection : Stop → Prop
  | .rejected _ => True
  | .aborted _ => False

theorem ensures_orAbort {α : Type} {post : α → Prop} {x : Except Abort α}
    (h : Ensures Never post x) : Ensures IsRejection post (orAbort x) := by
  cases x with
  | error e => exact h.elim
  | ok a => exact h

variable {d : CDeterministicMN} {h : Uint256} {list oldList : CDeterministicMNList η}
  {tx : CTransaction} {collateralAt : Uint256 → COutPoint} {s : CDeterministicMNState}

omit [DecidableEq η] in
theorem freeFor_of_keys (hc : Consistent serializeHash list) (hget : list.mnMap[h]? = some d)
    (hkeys : ∀ p ∈ s.keys, p.isNull = false → p ∈ d.pdmnState.keys ∨
      ∀ h', Owns serializeHash list (serializeHash p) h' → h' = h) :
    FreeFor serializeHash list h s := by
  intro p hp hnull h' howns
  rcases hkeys p hp hnull with hold | hfree
  · have hmem := hc.mem_of_key hget hold hnull
    exact hc.owns_unique howns (Consistent.owns_of_mem hget hmem)
  · exact hfree h' howns

/-- **`UpdateMN` by hash** with a state whose new keys nobody else has. -/
theorem ensures_updateMNByHash (hinj : Injective serializeHash)
    {R : CDeterministicMN → CDeterministicMN → Prop} (hR : ∀ d, R d d)
    (hc : Consistent serializeHash list) (hget : list.mnMap[h]? = some d)
    (howner : s.keyIDOwner = d.pdmnState.keyIDOwner) (hrel : R d { d with pdmnState := s })
    (hkeys : ∀ p ∈ s.keys, p.isNull = false → p ∈ d.pdmnState.keys ∨
      ∀ h', Owns serializeHash list (serializeHash p) h' → h' = h) :
    Ensures Never (fun list' => Updates serializeHash R list list' ∧
      list'.mnMap = list.mnMap.insert h { d with pdmnState := s })
      (list.updateMNByHash serializeHash h s) := by
  have hs := hc.sound h d hget
  have hfree := freeFor_of_keys hc hget hkeys
  have hrun : list.updateMNByHash serializeHash h s = .ok (updatedTo serializeHash list d s) := by
    unfold updateMNByHash
    rw [hget]
    exact updateMN_eq hc hinj hget hfree
  have hmap : (updatedTo serializeHash list d s).mnMap =
      list.mnMap.insert h { d with pdmnState := s } := by
    rw [← hs.keyed]
    rfl
  rw [hrun]
  refine ⟨⟨?_, ⟨rfl, rfl, rfl⟩, ?_⟩, hmap⟩
  · exact consistent_updatedTo hc hinj hget hfree (howner ▸ hs.owner)
  · intro k
    rw [hmap, getElem?_insert]
    by_cases hk : k = h
    · rw [if_pos hk, hk, hget]
      exact .some hrel
    · rw [if_neg hk]
      exact rel_refl hR

/-! ## §3. Confirmations and penalties. -/

variable {env : EvoExternals η} {ctx : BlockContext}

omit [DecidableEq η] in
theorem mem_forEachMN (hc : Consistent serializeHash list) {onlyValid : Bool} :
    d ∈ list.forEachMN onlyValid ↔
      list.mnMap[d.proTxHash]? = some d ∧ (onlyValid = true → isMNValid d = true) := by
  unfold forEachMN
  rw [mem_filter, mem_map]
  constructor
  · intro hmem
    obtain ⟨⟨⟨h, d'⟩, hin, hd'⟩, hvalid⟩ := hmem
    replace hd' : d' = d := hd'
    subst hd'
    have hget := ExtTreeMap.mem_toList_iff_getElem?_eq_some.mp hin
    refine ⟨(hc.sound h d' hget).keyed ▸ hget, ?_⟩
    intro hv
    simpa [hv] using hvalid
  · intro hmem
    refine ⟨⟨(d.proTxHash, d), ExtTreeMap.mem_toList_iff_getElem?_eq_some.mpr hmem.1, rfl⟩, ?_⟩
    cases onlyValid with
    | false => rfl
    | true => simpa using hmem.2 rfl

theorem ensures_confirm (hinj : Injective env.serializeHash)
    {start : CDeterministicMNList η} (hc : Consistent env.serializeHash oldList)
    (hstart : Updates env.serializeHash Relieved oldList start) :
    Ensures Never (Updates env.serializeHash Relieved oldList)
      ((oldList.forEachMN false).foldlM (confirmMN env ctx) start) := by
  refine Ensures.foldlM _ ?_ hstart
  intro d hd list hlist
  have hold := ((mem_forEachMN hc).mp hd).1
  obtain ⟨d', hget, hrel⟩ := hlist.of_old hold
  unfold confirmMN
  split
  · exact hlist
  · split
    · -- the state comes from the old list, where it has the same keys
      obtain ⟨a, b, c, hd'⟩ := hrel
      subst hd'
      have hrun := ensures_updateMNByHash hinj Relieved.refl hlist.consistent hget
        (s := d.pdmnState.updateConfirmedHash env.sha256 d.proTxHash ctx.pindexPrevHash)
        rfl ⟨_, _, _, rfl⟩ (fun p hp _ => .inl hp)
      exact hrun.mono fun list' h => hlist.trans Relieved.trans h.1
    · exact hlist

omit [DecidableEq η] in
theorem hashes_nodup (hc : Consistent serializeHash list) (q : CDeterministicMN → Bool)
    (onlyValid : Bool) : (((list.forEachMN onlyValid).filter q).map (·.proTxHash)).Nodup := by
  have hkeys : (list.mnMap.toList.map Prod.snd).map (·.proTxHash) = list.mnMap.keys := by
    rw [map_map, ← ExtTreeMap.map_fst_toList_eq_keys]
    refine map_congr_left ?_
    intro e he
    exact (hc.sound e.1 e.2 (ExtTreeMap.mem_toList_iff_getElem?_eq_some.mp he)).keyed
  have hnodup : ((list.mnMap.toList.map Prod.snd).map (·.proTxHash)).Nodup := by
    rw [hkeys]
    exact ExtTreeMap.nodup_keys
  unfold forEachMN
  rw [filter_filter]
  exact hnodup.sublist (filter_sublist.map _)

theorem ensures_decrease (hinj : Injective env.serializeHash)
    (hc : Consistent env.serializeHash list) :
    Ensures Never (Updates env.serializeHash Relieved list) (decreasePoSePenalties env list) := by
  -- what is still ahead has not been touched
  refine (Ensures.foldlM_prefix (fun pre cur => Updates env.serializeHash Relieved list cur ∧
    ∀ h : Uint256, h ∉ pre → cur.mnMap[h]? = list.mnMap[h]?) ?_ ?_).mono fun cur h => h.1
  · intro pre h rest hl cur hcur
    have hmem : h ∈ pre ++ h :: rest := mem_append_right pre mem_cons_self
    have hnodup := hashes_nodup hc (fun d =>
      d.pdmnState.nPoSePenalty > 0 && d.pdmnState.nPoSeBanHeight = -1) true
    rw [← hl] at hnodup
    have hpre : h ∉ pre := by
      intro hin
      exact (nodup_append.mp hnodup).2.2 h hin h mem_cons_self rfl
    rw [hl] at hmem
    obtain ⟨d, hd, hdh⟩ := mem_map.mp hmem
    subst hdh
    obtain ⟨hd, hpenalty⟩ := mem_filter.mp hd
    have hget : cur.mnMap[d.proTxHash]? = some d :=
      (hcur.2 _ hpre).trans ((mem_forEachMN hc).mp hd).1
    unfold poSeDecrease getMN
    rw [hget]
    show Ensures Never _ (assertThat _ >>= _)
    rw [hpenalty]
    have hupd := ensures_updateMNByHash hinj Relieved.refl hcur.1.consistent hget
      (s := { d.pdmnState with nPoSePenalty := d.pdmnState.nPoSePenalty - 1 })
      rfl ⟨_, _, _, rfl⟩ (fun p hp _ => .inl hp)
    refine hupd.mono fun next hnext => ⟨hcur.1.trans Relieved.trans hnext.1, ?_⟩
    intro k hk
    have hne : k ≠ d.proTxHash := fun heq => hk (heq ▸ mem_append_right pre mem_cons_self)
    rw [hnext.2, getElem?_insert, if_neg hne]
    exact hcur.2 k fun hin => hk (mem_append_left _ hin)
  · exact ⟨Updates.refl Relieved.refl hc, fun _ _ => rfl⟩

/-- The first two steps of `BuildNewListFromBlock`. -/
theorem exists_relieved (ctx : BlockContext) (hinj : Injective env.serializeHash)
    (hc : Consistent env.serializeHash list) :
    ∃ confirmed relieved, (list.forEachMN false).foldlM (confirmMN env ctx)
        { list with blockHash := 0, nHeight := ctx.nHeight } = .ok confirmed ∧
      decreasePoSePenalties env confirmed = .ok relieved ∧ Updates env.serializeHash Relieved
        { list with blockHash := 0, nHeight := ctx.nHeight } relieved := by
  have hstart := hc.withHeader 0 ctx.nHeight (Nat.le_refl list.nTotalRegisteredCount)
  obtain ⟨confirmed, hconfirm, hconfirmed⟩ :=
    (ensures_confirm hinj hstart (Updates.refl Relieved.refl hstart)).exists_ok
  obtain ⟨relieved, hrelieve, hrelieved⟩ := (ensures_decrease hinj hconfirmed.consistent).exists_ok
  exact ⟨confirmed, relieved, hconfirm, hrelieve, hconfirmed.trans Relieved.trans hrelieved⟩

/-! ## §4. Updates of a masternode. -/

/-- **Another state of a masternode**: its address and operator key are old, null or free. -/
theorem ensures_sameMN (hinj : Injective serializeHash) (hc : Consistent serializeHash list)
    (hget : list.mnMap[h]? = some d) (hreg : s.nRegisteredHeight = d.pdmnState.nRegisteredHeight)
    (howner : s.keyIDOwner = d.pdmnState.keyIDOwner)
    (haddr : s.addr = d.pdmnState.addr ∨ s.addr = 0 ∨
      ∀ h', Owns serializeHash list (serializeHash (.service s.addr)) h' → h' = h)
    (hkey : s.pubKeyOperator = d.pdmnState.pubKeyOperator ∨ s.pubKeyOperator = 0 ∨
      ∀ h', Owns serializeHash list (serializeHash (.operatorKey s.pubKeyOperator)) h' → h' = h) :
    Ensures Never (Updates serializeHash SameMN list)
      (list.updateMNByHash serializeHash h s) := by
  refine (ensures_updateMNByHash hinj SameMN.refl hc hget howner ⟨_, rfl, hreg, howner⟩ ?_).mono
    fun list' h => h.1
  intro p hp hnull
  simp only [CDeterministicMNState.keys, mem_cons, not_mem_nil, or_false] at hp ⊢
  rcases hp with hp | hp | hp <;> subst hp
  · rcases haddr with haddr | haddr | hfree
    · simp [haddr]
    · simp [haddr, UniqueProperty.isNull] at hnull
    · exact .inr hfree
  · simp [howner]
  · rcases hkey with hkey | hkey | hfree
    · simp [hkey]
    · simp [hkey, UniqueProperty.isNull] at hnull
    · exact .inr hfree

omit [DecidableEq η] in
theorem ensures_referredMN {list : CDeterministicMNList η} {h : Uint256} :
    Ensures IsRejection (fun d => list.mnMap[h]? = some d) (referredMN list h) := by
  unfold referredMN getMN
  split
  · exact trivial
  · assumption

variable (hinj : Injective env.serializeHash) (hc : Consistent env.serializeHash list)
include hinj hc

omit [DecidableEq η] in
theorem ensures_rejectForeign (v : UniqueProperty) (h : Uint256) (code : Nat) (reason : String) :
    Ensures IsRejection
      (fun _ => ∀ h', Owns env.serializeHash list (env.serializeHash v) h' → h' = h)
      (rejectForeign env list v h (rejectProTx code reason)) := by
  unfold rejectForeign
  by_cases hhas : list.hasUniqueProperty env.serializeHash v = true
  · rw [if_pos hhas]
    obtain ⟨k, d, hget, q, hq, hqv⟩ := hc.hasUniqueProperty_iff.mp hhas
    have hkeyed := (hc.sound k d hget).keyed
    have hfound : list.getUniquePropertyMN env.serializeHash v = some d :=
      (hc.getUniquePropertyMN_eq_some_iff hinj).mpr ⟨hkeyed ▸ hget, hinj hqv ▸ hq⟩
    rw [hfound]
    show Ensures IsRejection _ (if d.proTxHash ≠ h then _ else _)
    split
    · exact trivial
    · rename_i hself
      intro h' howns
      rw [hc.owns_unique howns ⟨d, hget, q, hq, hqv⟩, ← hkeyed]
      exact not_not.mp hself
  · rw [if_neg hhas]
    intro h' howns
    exact absurd (hc.hasUniqueProperty_iff.mpr ⟨h', howns⟩) hhas

theorem ensures_updateService (htx : (env.proUpServTx tx).isSome = true) :
    Ensures IsRejection (Updates env.serializeHash SameMN list)
      (updateServiceTx env ctx list tx) := by
  obtain ⟨proTx, hproTx⟩ := Option.isSome_iff_exists.mp htx
  unfold updateServiceTx
  rw [hproTx]
  show Ensures IsRejection _ (rejectForeign env list (.service proTx.addr) proTx.proTxHash _ >>= _)
  refine (ensures_rejectForeign hinj hc _ _ _ _).bind fun _ hforeign => ?_
  refine ensures_referredMN.bind fun d hget => ensures_orAbort ?_
  -- reviving touches no key
  obtain ⟨hreg, howner, haddr, hkey⟩ :
      (servedState ctx d.pdmnState proTx).nRegisteredHeight = d.pdmnState.nRegisteredHeight ∧
      (servedState ctx d.pdmnState proTx).keyIDOwner = d.pdmnState.keyIDOwner ∧
      (servedState ctx d.pdmnState proTx).addr = proTx.addr ∧
      (servedState ctx d.pdmnState proTx).pubKeyOperator = d.pdmnState.pubKeyOperator := by
    unfold servedState
    dsimp only
    split
    · split <;> exact ⟨rfl, rfl, rfl, rfl⟩
    · exact ⟨rfl, rfl, rfl, rfl⟩
  exact ensures_sameMN hinj hc hget hreg howner (.inr (.inr (haddr ▸ hforeign))) (.inl hkey)

omit hinj hc

theorem banned_reset (s : CDeterministicMNState) (height : Int) :
    (s.resetOperatorFields.banIfNotBanned height).addr = 0 ∧
      (s.resetOperatorFields.banIfNotBanned height).pubKeyOperator = 0 ∧
      (s.resetOperatorFields.banIfNotBanned height).keyIDOwner = s.keyIDOwner ∧
      (s.resetOperatorFields.banIfNotBanned height).nRegisteredHeight = s.nRegisteredHeight := by
  unfold CDeterministicMNState.banIfNotBanned
  split
  · exact ⟨rfl, rfl, rfl, rfl⟩
  · exact ⟨rfl, rfl, rfl, rfl⟩

variable (hinj : Injective env.serializeHash) (hc : Consistent env.serializeHash list)
include hinj hc

theorem ensures_updateRegistrar (htx : (env.proUpRegTx tx).isSome = true) :
    Ensures IsRejection (Updates env.serializeHash SameMN list)
      (updateRegistrarTx env ctx list tx) := by
  obtain ⟨proTx, hproTx⟩ := Option.isSome_iff_exists.mp htx
  unfold updateRegistrarTx
  rw [hproTx]
  show Ensures IsRejection _ (referredMN list proTx.proTxHash >>= _)
  refine ensures_referredMN.bind fun d hget => ?_
  refine (ensures_rejectForeign hinj hc _ _ _ _).bind fun _ hforeign => ensures_orAbort ?_
  obtain ⟨haddr, hkey, howner, hreg⟩ : ((reregisteredState ctx d.pdmnState proTx).addr =
        d.pdmnState.addr ∨ (reregisteredState ctx d.pdmnState proTx).addr = 0) ∧
      (reregisteredState ctx d.pdmnState proTx).pubKeyOperator = proTx.pubKeyOperator ∧
      (reregisteredState ctx d.pdmnState proTx).keyIDOwner = d.pdmnState.keyIDOwner ∧
      (reregisteredState ctx d.pdmnState proTx).nRegisteredHeight =
        d.pdmnState.nRegisteredHeight := by
    obtain ⟨haddr, -, howner, hreg⟩ := banned_reset d.pdmnState ctx.nHeight
    unfold reregisteredState
    dsimp only
    split
    · exact ⟨.inr haddr, rfl, howner, hreg⟩
    · exact ⟨.inl rfl, rfl, rfl, rfl⟩
  exact ensures_sameMN hinj hc hget hreg howner (haddr.imp_right .inl)
    (.inr (.inr (hkey ▸ hforeign)))

theorem ensures_updateRevoke (htx : (env.proUpRevTx tx).isSome = true) :
    Ensures IsRejection (Updates env.serializeHash SameMN list)
      (updateRevokeTx env ctx list tx) := by
  obtain ⟨proTx, hproTx⟩ := Option.isSome_iff_exists.mp htx
  unfold updateRevokeTx
  rw [hproTx]
  show Ensures IsRejection _ (referredMN list proTx.proTxHash >>= _)
  refine ensures_referredMN.bind fun d hget => ensures_orAbort ?_
  obtain ⟨haddr, hkey, howner, hreg⟩ := banned_reset d.pdmnState ctx.nHeight
  exact ensures_sameMN hinj hc hget (s := revokedState ctx d.pdmnState proTx) hreg howner
    (.inr (.inl haddr)) (.inr (.inl hkey))

/-! ## §5. Quorum commitments. -/

theorem ensures_punishMember {member : Uint256 × Option Bool} (hflag : member.2.isSome = true) :
    Ensures Never (Updates env.serializeHash SameMN list) (punishMember env list member) := by
  obtain ⟨h, flag⟩ := member
  obtain ⟨valid, hvalid⟩ := Option.isSome_iff_exists.mp hflag
  replace hvalid : flag = some valid := hvalid
  subst hvalid
  unfold punishMember hasMN getMN
  cases hget : list.mnMap[h]? with
  | none => exact Updates.refl SameMN.refl hc
  | some d =>
    cases valid with
    | true => exact Updates.refl SameMN.refl hc
    | false =>
      -- two thirds of a maximum that is at least 100
      have hpenalty : list.calcMaxPoSePenalty * 66 / 100 > 0 := by
        unfold calcMaxPoSePenalty
        omega
      have hcalc : list.calcPenalty 66 = .ok (list.calcMaxPoSePenalty * 66 / 100) := rfl
      show Ensures Never _ (list.calcPenalty 66 >>= _)
      rw [hcalc]
      show Ensures Never _ (list.poSePunish env.serializeHash h _)
      unfold poSePunish getMN
      rw [decide_eq_true hpenalty, hget]
      exact ensures_sameMN hinj hc hget
        (s := list.punished d.pdmnState (list.calcMaxPoSePenalty * 66 / 100)) rfl rfl (.inl rfl)
        (.inl rfl)

theorem ensures_handleQuorumCommitment {qc : CFinalCommitmentTxPayload}
    {members : List Uint256} (hflags : members.length ≤ qc.validMembers.length) :
    Ensures Never (Updates env.serializeHash SameMN list)
      (handleQuorumCommitment env qc members list) := by
  refine Ensures.foldlM _ ?_ (Updates.refl SameMN.refl hc)
  intro member hmem cur hcur
  have hflag : member.2.isSome = true := by
    obtain ⟨⟨m, i⟩, hmi, hmember⟩ := mem_map.mp hmem
    subst hmember
    have hi : i < members.length := by
      have hlt := snd_lt_of_mem_zipIdx hmi
      omega
    show qc.validMembers[i]?.isSome = true
    rw [getElem?_eq_getElem (show i < qc.validMembers.length by omega)]
    rfl
  exact (ensures_punishMember hinj hcur.consistent hflag).mono fun next hnext =>
    hcur.trans SameMN.trans hnext

omit hinj hc

/-! ## §6. Registrations. -/

/-- A `ProRegTx`. -/
def isProRegTx (tx : CTransaction) : Bool := tx.nVersion = 3 && tx.nType = .providerRegister

/-- What `CheckSpecialTx` has checked before the list is built: payloads parse, owner keys
are not null, an internal collateral exists, a commitment has a flag for each member.
`collateralAt` is the collateral that a transaction id stands for. -/
def CheckedTx (env : EvoExternals η) (ctx : BlockContext) (collateralAt : Uint256 → COutPoint)
    (tx : CTransaction) : Prop :=
  tx.nVersion = 3 →
    match tx.nType with
    | .providerRegister => ∃ proTx, env.proRegTx tx = some proTx ∧ proTx.keyIDOwner ≠ 0 ∧
        (collateralOf tx proTx).isNull = false ∧ collateralOf tx proTx = collateralAt tx.hash
    | .providerUpdateService => (env.proUpServTx tx).isSome = true
    | .providerUpdateRegistrar => (env.proUpRegTx tx).isSome = true
    | .providerUpdateRevoke => (env.proUpRevTx tx).isSome = true
    | .quorumCommitment => ∃ qc, env.finalCommitment tx = some qc ∧
        ∀ members, ctx.quorumMembers qc = some members →
          members.length ≤ qc.validMembers.length
    | _ => True

/-- Where an entry comes from: the `k`-th registration of the block, or the old list. -/
def Origin (ctx : BlockContext) (oldList : CDeterministicMNList η) (regs : List CTransaction)
    (h : Uint256) (d : CDeterministicMN) : Prop :=
  (∃ k tx, regs[k]? = some tx ∧ tx.hash = h ∧
      d.internalId = oldList.nTotalRegisteredCount + k ∧
      d.pdmnState.nRegisteredHeight = ctx.nHeight) ∨
    (∃ d₀, oldList.mnMap[h]? = some d₀ ∧ SameMN d₀ d) ∧ ∀ tx ∈ regs, tx.hash ≠ h

omit [DecidableEq η] in
theorem Origin.sameMN {regs : List CTransaction} (h₀ : Origin ctx oldList regs h d)
    (hsame : SameMN d d') : Origin ctx oldList regs h d' := by
  rcases h₀ with hnew | hold
  · obtain ⟨k, tx, hk, htx, hid, hheight⟩ := hnew
    obtain ⟨s, hd, hs, -⟩ := hsame
    subst hd
    exact .inl ⟨k, tx, hk, htx, hid, hs.trans hheight⟩
  · obtain ⟨⟨d₀, hget₀, hsame₀⟩, hregs⟩ := hold
    exact .inr ⟨⟨d₀, hget₀, hsame₀.trans hsame⟩, hregs⟩

/-- Every entry has the collateral its hash stands for. -/
def Collaterals (collateralAt : Uint256 → COutPoint) (list : CDeterministicMNList η) : Prop :=
  ∀ (h : Uint256) d, list.mnMap[h]? = some d → d.collateralOutpoint = collateralAt h

/-- **The list after the registrations `regs` of a block**. -/
structure Registered (env : EvoExternals η) (ctx : BlockContext)
    (collateralAt : Uint256 → COutPoint) (oldList : CDeterministicMNList η)
    (regs : List CTransaction) (list : CDeterministicMNList η) : Prop where
  consistent : Consistent env.serializeHash list
  collaterals : Collaterals collateralAt list
  blockHash : list.blockHash = 0
  nHeight : list.nHeight = ctx.nHeight
  total : list.nTotalRegisteredCount = oldList.nTotalRegisteredCount + regs.length
  origin : ∀ (h : Uint256) d, list.mnMap[h]? = some d → Origin ctx oldList regs h d
  present : ∀ (k : Nat) tx, regs[k]? = some tx → ∃ d, list.mnMap[tx.hash]? = some d ∧
    d.internalId = oldList.nTotalRegisteredCount + k

namespace Registered

variable {collateralAt : Uint256 → COutPoint} {oldList list list' : CDeterministicMNList η}
  {regs : List CTransaction}

omit [DecidableEq η] in
theorem updates (hreg : Registered env ctx collateralAt oldList regs list)
    (hupd : Updates env.serializeHash SameMN list list') :
    Registered env ctx collateralAt oldList regs list' where
  consistent := hupd.consistent
  collaterals := by
    intro h d hget
    obtain ⟨d₀, hget₀, s, hd, -, -⟩ := hupd.of_new hget
    subst hd
    exact hreg.collaterals h d₀ hget₀
  blockHash := hupd.header.blockHash.trans hreg.blockHash
  nHeight := hupd.header.nHeight.trans hreg.nHeight
  total := hupd.header.nTotalRegisteredCount.trans hreg.total
  origin := by
    intro h d hget
    obtain ⟨d', hget', hsame⟩ := hupd.of_new hget
    exact (hreg.origin h d' hget').sameMN hsame
  present := by
    intro k tx hk
    obtain ⟨d, hget, hid⟩ := hreg.present k tx hk
    obtain ⟨d', hget', s, hd', -, -⟩ := hupd.of_old hget
    subst hd'
    exact ⟨_, hget', hid⟩

end Registered

/-- What `removeReplaced` leaves: nobody with this collateral, and nobody else missing. -/
structure Cleared (env : EvoExternals η) (ctx : BlockContext) (outpoint : COutPoint)
    (list list' : CDeterministicMNList η) : Prop where
  consistent : Consistent env.serializeHash list'
  header : SameHeader list list'
  entries : ∀ (h : Uint256) d, list'.mnMap[h]? = some d ↔
    list.mnMap[h]? = some d ∧ d.collateralOutpoint ≠ outpoint
  old : ∀ (h : Uint256) d, list.mnMap[h]? = some d → d.collateralOutpoint = outpoint →
    d.pdmnState.nRegisteredHeight ≠ ctx.nHeight

theorem removed_entries (hc : Consistent serializeHash list)
    (hget : list.mnMap[d.proTxHash]? = some d) (h : Uint256) (d' : CDeterministicMN) :
    (removed serializeHash list d).mnMap[h]? = some d' ↔
      list.mnMap[h]? = some d' ∧ d'.collateralOutpoint ≠ d.collateralOutpoint := by
  show (list.mnMap.erase d.proTxHash)[h]? = some d' ↔ _
  rw [getElem?_erase]
  by_cases hh : h = d.proTxHash
  · rw [if_pos hh, hh, hget]
    constructor
    · simp
    · intro hd
      obtain ⟨heq, hne⟩ := hd
      cases heq
      exact absurd rfl hne
  · rw [if_neg hh]
    refine ⟨fun hget' => ⟨hget', fun heq => hh ?_⟩, fun hd => hd.1⟩
    -- a collateral has one owner
    exact hc.owns_unique
      ⟨d', hget', _, collateral_mem_uniqueProperties.mpr heq.symm, rfl⟩
      ⟨d, hget, _, collateral_mem_uniqueProperties.mpr rfl, rfl⟩

omit [DecidableEq η] in
theorem getMNByCollateral_eq_none (hinj : Injective serializeHash)
    (hc : Consistent serializeHash list) {outpoint : COutPoint}
    (hnone : list.getMNByCollateral serializeHash outpoint = none) (h : Uint256)
    (d : CDeterministicMN) (hget : list.mnMap[h]? = some d) : d.collateralOutpoint ≠ outpoint := by
  intro heq
  have hfound := (hc.getMNByCollateral_eq_some_iff hinj).mpr
    ⟨(hc.sound h d hget).keyed ▸ hget, heq.symm⟩
  rw [hnone] at hfound
  cases hfound

variable (hinj : Injective env.serializeHash)
include hinj

theorem ensures_removeReplaced (hc : Consistent env.serializeHash list) (outpoint : COutPoint) :
    Ensures IsRejection (Cleared env ctx outpoint list) (removeReplaced env ctx list outpoint) := by
  unfold removeReplaced
  cases hfound : list.getMNByCollateral env.serializeHash outpoint with
  | none =>
    have hnone := getMNByCollateral_eq_none hinj hc hfound
    refine ⟨hc, ⟨rfl, rfl, rfl⟩, ?_, ?_⟩
    · intro h d
      exact ⟨fun hget => ⟨hget, hnone h d hget⟩, fun hd => hd.1⟩
    · intro h d hget heq
      exact absurd heq (hnone h d hget)
  | some r =>
    obtain ⟨hget, heq⟩ := (hc.getMNByCollateral_eq_some_iff hinj).mp hfound
    subst heq
    show Ensures IsRejection _ (if r.pdmnState.nRegisteredHeight = ctx.nHeight then _ else _)
    split
    · exact trivial
    · rename_i hheight
      rw [removeMN_eq hc hinj hget]
      refine ⟨consistent_removed hc hget, ⟨rfl, rfl, rfl⟩, removed_entries hc hget, ?_⟩
      intro h d hgetd hcoll
      have hh : h = r.proTxHash := hc.owns_unique
        ⟨d, hgetd, _, collateral_mem_uniqueProperties.mpr hcoll.symm, rfl⟩
        ⟨r, hget, _, collateral_mem_uniqueProperties.mpr rfl, rfl⟩
      rw [hh, hget] at hgetd
      cases hgetd
      exact hheight

theorem ensures_addRegistered {cur : CDeterministicMNList η}
    (hc : Consistent env.serializeHash cur) {proTx : CProRegTx} {dmn : CDeterministicMN}
    (hs : Sound dmn.proTxHash dmn)
    (hkeys : dmn.pdmnState.keys = [.service proTx.addr, .keyID proTx.keyIDOwner,
      .operatorKey proTx.pubKeyOperator])
    (hfresh : dmn.proTxHash ∉ cur.mnMap) (hcoll : ∀ (h : Uint256) d, cur.mnMap[h]? = some d →
      d.collateralOutpoint ≠ dmn.collateralOutpoint) :
    Ensures IsRejection (fun list' => list' = added env.serializeHash cur dmn ∧
      Free env.serializeHash cur dmn) (addRegistered env cur proTx dmn) := by
  unfold addRegistered
  split
  · exact trivial
  · rename_i haddr
    split
    · exact trivial
    · rename_i hkey
      rw [Bool.or_eq_true, not_or] at hkey
      rw [hc.hasUniqueProperty_iff] at haddr
      rw [hc.hasUniqueProperty_iff, hc.hasUniqueProperty_iff] at hkey
      have hfree : Free env.serializeHash cur dmn := by
        intro p hp h howns
        rcases (mem_uniqueProperties hs.owner).mp hp with hp | ⟨hp, -⟩
        · subst hp
          obtain ⟨d, hget, q, hq, hqp⟩ := howns
          have hq' := hinj hqp ▸ hq
          exact hcoll h d hget (collateral_mem_uniqueProperties.mp hq').symm
        · rw [hkeys] at hp
          simp only [mem_cons, not_mem_nil, or_false] at hp
          rcases hp with hp | hp | hp
          · exact haddr ⟨h, hp ▸ howns⟩
          · exact hkey.1 ⟨h, hp ▸ howns⟩
          · exact hkey.2 ⟨h, hp ▸ howns⟩
      rw [addMN_eq hc hinj hs hfresh hfree]
      exact ⟨rfl, hfree⟩

/-- **A registration** appends the transaction to the ones registered so far. -/
theorem ensures_registerTx {regs : List CTransaction}
    (hreg : Registered env ctx collateralAt oldList regs list) {proTx : CProRegTx}
    (hproTx : env.proRegTx tx = some proTx) (howner : proTx.keyIDOwner ≠ 0)
    (hnull : (collateralOf tx proTx).isNull = false)
    (hat : collateralOf tx proTx = collateralAt tx.hash) :
    Ensures IsRejection (Registered env ctx collateralAt oldList (regs ++ [tx]))
      (registerTx env ctx list tx) := by
  unfold registerTx
  rw [hproTx]
  show Ensures IsRejection _ (if _ then _ else _)
  split
  · exact trivial
  have hcount := hreg.consistent.withHeader list.blockHash list.nHeight
    (Nat.le_succ list.nTotalRegisteredCount)
  refine (ensures_removeReplaced hinj hcount _).bind fun cur hcur => ?_
  have hs : Sound tx.hash (registeredMN ctx list.nTotalRegisteredCount tx proTx) :=
    ⟨rfl, howner, hnull⟩
  have hentries : ∀ (h : Uint256) d, cur.mnMap[h]? = some d ↔
      list.mnMap[h]? = some d ∧ d.collateralOutpoint ≠ collateralOf tx proTx := hcur.entries
  have htotal : cur.nTotalRegisteredCount = list.nTotalRegisteredCount + 1 :=
    hcur.header.nTotalRegisteredCount
  -- an entry of this hash would have had the collateral
  have hfresh : ∀ d, cur.mnMap[tx.hash]? ≠ some d := by
    intro d hget
    obtain ⟨hget, hne⟩ := (hentries _ _).mp hget
    exact hne ((hreg.collaterals _ _ hget).trans hat.symm)
  have hfresh' : tx.hash ∉ cur.mnMap := by
    intro hmem
    obtain ⟨d, hget⟩ := mem_iff_exists.mp hmem
    exact hfresh d hget
  refine (ensures_addRegistered hinj hcur.consistent hs rfl hfresh'
    fun h d hget => ((hentries h d).mp hget).2).mono fun list' hlist' => ?_
  obtain ⟨hlist', hfree⟩ := hlist'
  subst hlist'
  have hidfree : cur.mnInternalIdMap[list.nTotalRegisteredCount]? = none := by
    refine Option.eq_none_iff_forall_ne_some.mpr fun h hid => ?_
    obtain ⟨d, hget, hd⟩ := (hcur.consistent.ids _ h).mp hid
    have hlt := hreg.consistent.bound h d ((hentries h d).mp hget).1
    omega
  have hlookup : ∀ h, (added env.serializeHash cur
      (registeredMN ctx list.nTotalRegisteredCount tx proTx)).mnMap[h]? =
      if h = tx.hash then some (registeredMN ctx list.nTotalRegisteredCount tx proTx)
      else cur.mnMap[h]? := fun h => getElem?_insert _ _ _ _
  -- what was removed is no registration of this block
  have hold : ∀ (k : Nat) tx', regs[k]? = some tx' → ∃ d, cur.mnMap[tx'.hash]? = some d ∧
      d.internalId = oldList.nTotalRegisteredCount + k := by
    intro k tx' hk
    obtain ⟨d, hget, hid⟩ := hreg.present k tx' hk
    refine ⟨d, (hentries _ _).mpr ⟨hget, fun heq => ?_⟩, hid⟩
    have hheight := hcur.old _ d hget heq
    rcases hreg.origin _ d hget with hnew | hold
    · omega
    · exact hold.2 tx' (mem_of_getElem? hk) rfl
  refine ⟨?_, ?_, ?_, ?_, ?_, ?_, ?_⟩
  · exact consistent_added hcur.consistent hs hfresh' hfree
      (show list.nTotalRegisteredCount < cur.nTotalRegisteredCount by omega) hidfree
  · intro h d hget
    rw [hlookup] at hget
    split at hget
    · rename_i heq
      cases hget
      rw [heq]
      exact hat
    · exact hreg.collaterals h d ((hentries h d).mp hget).1
  · exact hcur.header.blockHash.trans hreg.blockHash
  · exact hcur.header.nHeight.trans hreg.nHeight
  · show cur.nTotalRegisteredCount = _
    rw [htotal, hreg.total, length_append, length_singleton]
    omega
  · intro h d hget
    rw [hlookup] at hget
    split at hget
    · rename_i heq
      cases hget
      exact .inl ⟨regs.length, tx, getElem?_concat_length, heq.symm, hreg.total, rfl⟩
    · rename_i hne
      rcases hreg.origin h d ((hentries h d).mp hget).1 with hnew | hprev
      · obtain ⟨k, tx', hk, htx', hid, hheight⟩ := hnew
        exact .inl ⟨k, tx', getElem?_concat_eq_some.mpr (.inl hk), htx', hid, hheight⟩
      · exact .inr ⟨hprev.1,
          forall_mem_append.mpr ⟨hprev.2, forall_mem_singleton.mpr (Ne.symm hne)⟩⟩
  · intro k tx' hk
    rcases getElem?_concat_eq_some.mp hk with hk | ⟨hk, htx⟩
    · obtain ⟨d, hget, hid⟩ := hold k tx' hk
      refine ⟨d, ?_, hid⟩
      have hne : tx'.hash ≠ tx.hash := fun heq => hfresh d (heq ▸ hget)
      rw [hlookup, if_neg hne]
      exact hget
    · subst hk htx
      refine ⟨registeredMN ctx list.nTotalRegisteredCount tx proTx, ?_, hreg.total⟩
      rw [hlookup, if_pos rfl]

/-! ## §7. The transactions of a block. -/

/-- **One transaction** of a block. -/
theorem ensures_applySpecialTx {pre : List CTransaction}
    (hreg : Registered env ctx collateralAt oldList (pre.filter isProRegTx) list)
    (htx : CheckedTx env ctx collateralAt tx) :
    Ensures IsRejection (Registered env ctx collateralAt oldList ((pre ++ [tx]).filter isProRegTx))
      (applySpecialTx env ctx list tx) := by
  rw [filter_append]
  -- a transaction that registers nothing leaves the registrations as they are
  have hupdates : ∀ x, isProRegTx tx = false →
      Ensures IsRejection (Updates env.serializeHash SameMN list) x →
      Ensures IsRejection (Registered env ctx collateralAt oldList
        (pre.filter isProRegTx ++ [tx].filter isProRegTx)) x := by
    intro x hno hx
    have hnil : [tx].filter isProRegTx = [] := by simp [hno]
    rw [hnil, append_nil]
    exact hx.mono fun list' h => hreg.updates h
  have hkeep : Ensures IsRejection (Updates env.serializeHash SameMN list)
      (.ok list) := Updates.refl SameMN.refl hreg.consistent
  unfold applySpecialTx
  by_cases hversion : tx.nVersion ≠ 3
  · rw [if_pos hversion]
    exact hupdates _ (by simp [isProRegTx, hversion]) hkeep
  · rw [if_neg hversion]
    have hchecked := htx (not_not.mp hversion)
    cases htype : tx.nType with
    | providerRegister =>
      rw [htype] at hchecked
      obtain ⟨proTx, hproTx, howner, hnull, hat⟩ := hchecked
      have hself : [tx].filter isProRegTx = [tx] := by
        simp [isProRegTx, htype, not_not.mp hversion]
      rw [hself]
      exact ensures_registerTx hinj hreg hproTx howner hnull hat
    | providerUpdateService =>
      rw [htype] at hchecked
      exact hupdates _ (by simp [isProRegTx, htype])
        (ensures_updateService hinj hreg.consistent hchecked)
    | providerUpdateRegistrar =>
      rw [htype] at hchecked
      exact hupdates _ (by simp [isProRegTx, htype])
        (ensures_updateRegistrar hinj hreg.consistent hchecked)
    | providerUpdateRevoke =>
      rw [htype] at hchecked
      exact hupdates _ (by simp [isProRegTx, htype])
        (ensures_updateRevoke hinj hreg.consistent hchecked)
    | quorumCommitment =>
      rw [htype] at hchecked
      obtain ⟨qc, hqc, hflags⟩ := hchecked
      refine hupdates _ (by simp [isProRegTx, htype]) ?_
      show Ensures IsRejection _ (commitmentTx env ctx list tx)
      unfold commitmentTx
      rw [hqc]
      show Ensures IsRejection _ (if qc.isNull = true then _ else _)
      split
      · exact hkeep
      · cases hmembers : ctx.quorumMembers qc with
        | none => exact trivial
        | some members =>
          exact ensures_orAbort (ensures_handleQuorumCommitment hinj hreg.consistent
            (hflags members hmembers))
    | normal | coinbase | spork | other => exact hupdates _ (by simp [isProRegTx, htype]) hkeep

/-! ## §8. Spent collaterals and the payee. -/

/-- **One spent output** removes the masternode that has it as collateral. -/
theorem ensures_spendCollaterals
    (hc : Consistent env.serializeHash list) (prevouts : List COutPoint) :
    Ensures Never (fun list' => Consistent env.serializeHash list' ∧ SameHeader list list' ∧
      ∀ (h : Uint256) d, list'.mnMap[h]? = some d ↔
        list.mnMap[h]? = some d ∧ d.collateralOutpoint ∉ prevouts)
      (prevouts.foldlM (spendCollateral env) list) := by
  refine Ensures.foldlM_prefix (fun pre cur => Consistent env.serializeHash cur ∧
    SameHeader list cur ∧ ∀ (h : Uint256) d, cur.mnMap[h]? = some d ↔
      list.mnMap[h]? = some d ∧ d.collateralOutpoint ∉ pre) ?_
    ⟨hc, ⟨rfl, rfl, rfl⟩, fun h d => by simp⟩
  intro pre prevout rest _ cur hcur
  obtain ⟨hcons, hheader, hentries⟩ := hcur
  have hsplit : ∀ outpoint, outpoint ∉ pre ++ [prevout] ↔
      outpoint ∉ pre ∧ outpoint ≠ prevout := by
    intro outpoint
    simp
  unfold spendCollateral
  cases hfound : cur.getMNByCollateral env.serializeHash prevout with
  | none =>
    have hnone := getMNByCollateral_eq_none hinj hcons hfound
    refine ⟨hcons, hheader, fun h d => ?_⟩
    rw [hsplit, ← and_assoc, ← hentries]
    exact ⟨fun hget => ⟨hget, hnone h d hget⟩, fun hd => hd.1⟩
  | some r =>
    obtain ⟨hget, heq⟩ := (hcons.getMNByCollateral_eq_some_iff hinj).mp hfound
    subst heq
    show Ensures Never _ (if r.collateralOutpoint = r.collateralOutpoint then _ else _)
    rw [if_pos rfl, removeMN_eq hcons hinj hget]
    refine ⟨consistent_removed hcons hget, ?_, fun h d => ?_⟩
    · exact { hheader with }
    · rw [removed_entries hcons hget, hentries, hsplit, and_assoc]

theorem ensures_payMN (hc : Consistent env.serializeHash list) (payee : Option CDeterministicMN) :
    Ensures Never (Updates env.serializeHash SameMN list) (payMN env ctx payee list) := by
  unfold payMN getMN
  cases payee with
  | none => exact Updates.refl SameMN.refl hc
  | some payee =>
    cases hget : list.mnMap[payee.proTxHash]? with
    | none =>
      simp only [hget]
      exact Updates.refl SameMN.refl hc
    | some d =>
      simp only [hget]
      exact ensures_sameMN hinj hc hget
        (s := { d.pdmnState with nLastPaidHeight := ctx.nHeight }) rfl rfl (.inl rfl) (.inl rfl)

omit hinj

/-! ## §9. The whole block. -/

/-- The outputs the transactions of a block spend, without its coinbase. -/
def spentOutputs (vtx : List CTransaction) : List COutPoint :=
  vtx.tail.flatMap fun tx => tx.vin.map (·.prevout)

/-- **The list a block makes of the old one**. -/
structure Built (env : EvoExternals η) (ctx : BlockContext)
    (collateralAt : Uint256 → COutPoint) (oldList : CDeterministicMNList η)
    (vtx : List CTransaction) (newList : CDeterministicMNList η) : Prop where
  consistent : Consistent env.serializeHash newList
  collaterals : Collaterals collateralAt newList
  blockHash : newList.blockHash = 0
  nHeight : newList.nHeight = ctx.nHeight
  total : newList.nTotalRegisteredCount =
    oldList.nTotalRegisteredCount + (vtx.tail.filter isProRegTx).length
  origin : ∀ (h : Uint256) d, newList.mnMap[h]? = some d →
    Origin ctx oldList (vtx.tail.filter isProRegTx) h d ∧ collateralAt h ∉ spentOutputs vtx
  present : ∀ (k : Nat) tx, (vtx.tail.filter isProRegTx)[k]? = some tx →
    collateralAt tx.hash ∉ spentOutputs vtx →
    ∃ d, newList.mnMap[tx.hash]? = some d ∧ d.internalId = oldList.nTotalRegisteredCount + k

/-- **`BuildNewListFromBlock`** on a consistent list: rejected or built, never aborted. -/
theorem ensures_buildNewListFromBlock (hinj : Injective env.serializeHash)
    (hc : Consistent env.serializeHash oldList) (hcoll : Collaterals collateralAt oldList)
    {vtx : List CTransaction} (htxs : ∀ tx ∈ vtx.tail, CheckedTx env ctx collateralAt tx) :
    Ensures IsRejection (Built env ctx collateralAt oldList vtx)
      (buildNewListFromBlock env ctx oldList vtx) := by
  obtain ⟨confirmed, relieved, hconfirm, hrelieve, hrelieved⟩ := exists_relieved ctx hinj hc
  unfold buildNewListFromBlock
  dsimp only
  rw [hconfirm]
  show Ensures IsRejection _ (orAbort (decreasePoSePenalties env confirmed) >>= _)
  rw [hrelieve]
  show Ensures IsRejection _ (vtx.tail.foldlM (applySpecialTx env ctx) relieved >>= _)
  -- nothing is registered yet
  have hnone : Registered env ctx collateralAt oldList []
      { oldList with blockHash := 0, nHeight := ctx.nHeight } :=
    ⟨hc.withHeader 0 ctx.nHeight (Nat.le_refl _), hcoll, rfl, rfl, rfl,
      fun h d hget => .inr ⟨⟨d, hget, SameMN.refl d⟩, by simp⟩, by simp⟩
  have htxsrun := Ensures.foldlM_prefix (l := vtx.tail) (f := applySpecialTx env ctx)
    (fun pre => Registered env ctx collateralAt oldList (pre.filter isProRegTx))
    (fun pre tx rest hl cur hcur => ensures_applySpecialTx hinj hcur
      (htxs tx (hl ▸ mem_append_right pre mem_cons_self)))
    (hnone.updates (Updates.mono Relieved.sameMN hrelieved))
  refine htxsrun.bind fun updated hupdated => ?_
  refine (ensures_orAbort (ensures_spendCollaterals hinj hupdated.consistent
    (spentOutputs vtx))).bind fun remaining hremaining => ?_
  obtain ⟨hcons, hheader, hentries⟩ := hremaining
  refine (ensures_orAbort (ensures_payMN hinj hcons _)).mono fun newList hnew => ?_
  refine ⟨hnew.consistent, ?_, ?_, ?_, ?_, ?_, ?_⟩
  · intro h d hget
    obtain ⟨d', hget', s, hd, -, -⟩ := hnew.of_new hget
    subst hd
    exact hupdated.collaterals h d' ((hentries h d').mp hget').1
  · rw [hnew.header.blockHash, hheader.blockHash]
    exact hupdated.blockHash
  · rw [hnew.header.nHeight, hheader.nHeight]
    exact hupdated.nHeight
  · rw [hnew.header.nTotalRegisteredCount, hheader.nTotalRegisteredCount]
    exact hupdated.total
  · intro h d hget
    obtain ⟨d', hget', hsame⟩ := hnew.of_new hget
    obtain ⟨hget', hunspent⟩ := (hentries h d').mp hget'
    exact ⟨(hupdated.origin h d' hget').sameMN hsame, hupdated.collaterals h d' hget' ▸ hunspent⟩
  · intro k tx hk hunspent
    obtain ⟨d, hget, hid⟩ := hupdated.present k tx hk
    have hget' := (hentries _ d).mpr ⟨hget, (hupdated.collaterals _ d hget).symm ▸ hunspent⟩
    obtain ⟨d', hnewget, s, hd', -, -⟩ := hnew.of_old hget'
    subst hd'
    exact ⟨_, hnewget, hid⟩

end Zcoin.Evo
