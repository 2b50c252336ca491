/-
  Zcoin.Lelantus.Ledger — the containers as their readers see them.

  `Book` is the abstract content of `Containers`: which coins are minted and
  where, which serials are used, the tag map, the extended-mint counts, and the
  per-group counts with a missing count READ AS ZERO.  The cached surge flag and
  the keys of the count maps are not part of it.

  The loops of the code that enter and take back mints and serials are refined
  against closed forms on `Book`, which are inverse to each other
  (`removeMints_addMints`, `removeSpends_addSpends`).
-/
import Zcoin.Lelantus.State
import Zcoin.Chain.Transaction
import Zcoin.Lib.Except
import Zcoin.Lib.OrderedMap

namespace Zcoin.Lelantus

open Chain Lib Std Lib.Except Lib.OrderedMap Function List Option

variable {F G : Type} [DecidableEq F] [DecidableEq G]

/-! ## §1. The book. -/

/-- **The content of `Containers`**, counts read with default 0. -/
@[ext] structure Book (F G : Type) where
  minted : G → Option CMintedCoinInfo := fun _ => none
  used : F → Option Int := fun _ => none
  tags : ExtTreeMap Uint256 G := ∅
  extended : ExtTreeMap Int Nat := ∅
  mintCount : Int → Nat := fun _ => 0
  spendCount : Int → Nat := fun _ => 0

/-- What a reader of the containers sees. -/
def Containers.book (c : Containers F G) : Book F G where
  minted := c.mintedPubCoins
  used := c.usedCoinSerials
  tags := c.tagToPublicCoin
  extended := c.extendedMintMetaInfo
  mintCount := fun k => c.mintMetaInfo.getD k 0
  spendCount := fun k => c.spendMetaInfo.getD k 0

namespace Book

variable (b : Book F G)

/-- Mint coins that are not in the book yet. -/
def addMints (info : CMintedCoinInfo) (coins : List (G × Uint256)) : Book F G :=
  { b with
    minted := fun g => if g ∈ coins.map Prod.fst then some info else b.minted g
    tags := coins.foldl (fun tags coin => tags.insertIfNew coin.2 coin.1) b.tags
    mintCount := Function.update b.mintCount info.coinGroupId
      (b.mintCount info.coinGroupId + coins.length) }

/-- Forget coins of the group `id`. -/
def removeMints (id : Int) (coins : List G) : Book F G :=
  { b with
    minted := fun g => if g ∈ coins then none else b.minted g
    tags := b.tags.filter (fun _ g => g ∉ coins)
    mintCount := Function.update b.mintCount id (b.mintCount id - coins.length) }

/-- Use serials. -/
def addSpends (serials : List (F × Int)) : Book F G :=
  { b with
    used := serials.foldl (fun used e => Function.update used e.1 (some e.2)) b.used
    spendCount := fun k => b.spendCount k + serials.countP (·.2 = k) }

/-- Forget serials. -/
def removeSpends (serials : List (F × Int)) : Book F G :=
  { b with
    used := fun s => if s ∈ serials.map Prod.fst then none else b.used s
    spendCount := fun k => b.spendCount k - serials.countP (·.2 = k) }

/-- **Tags lead to minted coins, and to each coin at most one tag leads.** -/
structure TagsOK : Prop where
  minted : ∀ (t : Uint256) (g : G), b.tags[t]? = some g → (b.minted g).isSome
  inj : ∀ (t t' : Uint256) (g : G), b.tags[t]? = some g → b.tags[t']? = some g → t = t'

omit [DecidableEq F] [DecidableEq G] in
theorem tagsOK_empty : TagsOK ({} : Book F G) := by
  constructor
  · intro t g h
    simp at h
  · intro t t' g h
    simp at h

end Book

/-! ## §2. Freshness of the mints a block brings. -/

/-- The coins are pairwise different and none of them is in the map. -/
structure Fresh (minted : G → Option CMintedCoinInfo) (coins : List (G × Uint256)) : Prop where
  nodup : (coins.map Prod.fst).Nodup
  unminted : ∀ coin ∈ coins, minted coin.1 = none

/-! ## §3. Adding and removing are inverse on the book. -/

section Tags

variable {tags : ExtTreeMap Uint256 G}

omit [DecidableEq G] in
/-- After a run of `insert`s a tag leads where it led before, else to the first
coin that brought it. -/
theorem getElem?_foldl_insertIfNew (coins : List (G × Uint256)) (t : Uint256) :
    (coins.foldl (fun tags coin => tags.insertIfNew coin.2 coin.1) tags)[t]?
      = match tags[t]? with
        | some g => some g
        | none => (coins.find? (·.2 = t)).map Prod.fst := by
  induction coins generalizing tags with
  | nil => cases h : tags[t]? <;> simp [h]
  | cons coin coins ih =>
    rw [foldl_cons, ih, getElem?_insertIfNew]
    by_cases ht : t = coin.2
    · subst ht
      by_cases hmem : coin.2 ∈ tags
      · simp [hmem]
      · simp [hmem]
    · simp only [ht, false_and, if_false, find?_cons, Ne.symm ht, decide_false]

end Tags

namespace Book

variable {b : Book F G} {info : CMintedCoinInfo} {coins : List (G × Uint256)}

omit [DecidableEq F] [DecidableEq G] in
theorem TagsOK.not_fresh (hb : TagsOK b) (hfresh : Fresh b.minted coins) {t : Uint256} {g : G}
    (hg : b.tags[t]? = some g) : g ∉ coins.map Prod.fst := by
  intro hmem
  obtain ⟨coin, hcoin, rfl⟩ := mem_map.mp hmem
  have hsome := hb.minted t coin.1 hg
  rw [hfresh.unminted coin hcoin] at hsome
  cases hsome

section

omit [DecidableEq F]

theorem addMints_tagsOK (hb : TagsOK b) (hfresh : Fresh b.minted coins) :
    TagsOK (b.addMints info coins) := by
  -- a tag was there or was brought by this run
  have htags : ∀ (t : Uint256) g, (b.addMints info coins).tags[t]? = some g →
      b.tags[t]? = some g ∨ (g, t) ∈ coins := by
    intro t g hg
    simp only [addMints] at hg
    rw [getElem?_foldl_insertIfNew] at hg
    cases ht : b.tags[t]? with
    | some g' =>
      rw [ht] at hg
      exact .inl hg
    | none =>
      rw [ht] at hg
      obtain ⟨coin, hfind, rfl⟩ := map_eq_some_iff.mp hg
      have ht : coin.2 = t := by simpa using find?_some hfind
      subst ht
      exact .inr (mem_of_find?_eq_some hfind)
  constructor
  · intro t g hg
    simp only [addMints]
    split
    · rfl
    · next hnot =>
      rcases htags t g hg with hg | hg
      · exact hb.minted t g hg
      · exact absurd (mem_map_of_mem hg) hnot
  · intro t t' g hg hg'
    rcases htags t g hg with hg | hg
    · rcases htags t' g hg' with hg' | hg'
      · exact hb.inj t t' g hg hg'
      · exact absurd (mem_map_of_mem hg') (hb.not_fresh hfresh hg)
    · rcases htags t' g hg' with hg' | hg'
      · exact absurd (mem_map_of_mem hg) (hb.not_fresh hfresh hg')
      · -- both tags come from one and the same mint
        exact congrArg Prod.snd (inj_on_of_nodup_map hfresh.nodup hg hg' rfl)

theorem removeMints_addMints (info : CMintedCoinInfo) (hb : TagsOK b)
    (hfresh : Fresh b.minted coins) :
    (b.addMints info coins).removeMints info.coinGroupId (coins.map Prod.fst) = b := by
  ext x
  · rename_i y
    simp only [addMints, removeMints]
    split
    · next hmem =>
      obtain ⟨coin, hcoin, rfl⟩ := mem_map.mp hmem
      rw [hfresh.unminted coin hcoin]
    · rfl
  · rfl
  · rename_i v
    simp only [addMints, removeMints]
    rw [ExtTreeMap.getElem?_filter', getElem?_foldl_insertIfNew]
    cases ht : b.tags[x]? with
    | some g =>
      simp [Option.filter, hb.not_fresh hfresh ht]
    | none =>
      cases hfind : coins.find? (·.2 = x) with
      | none => simp
      | some coin =>
        have hmem : coin.1 ∈ coins.map Prod.fst :=
          mem_map_of_mem (mem_of_find?_eq_some hfind)
        simp [Option.filter, hmem]
  · rfl
  · simp only [addMints, removeMints, length_map]
    by_cases hx : x = info.coinGroupId
    · subst hx
      simp
    · simp [update_of_ne hx]
  · rfl

end

variable {serials : List (F × Int)} {used : F → Option Int}

theorem foldl_update_of_notMem {f : F} (hf : f ∉ serials.map Prod.fst) :
    serials.foldl (fun (used : F → Option Int) e => update used e.1 (some e.2)) used f
      = used f := by
  induction serials generalizing used with
  | nil => rfl
  | cons e serials ih =>
    simp only [map_cons, mem_cons, not_or] at hf
    rw [foldl_cons, ih hf.2, update_of_ne hf.1]

theorem foldl_update_of_mem (hnodup : (serials.map Prod.fst).Nodup) {e : F × Int}
    (he : e ∈ serials) :
    serials.foldl (fun (used : F → Option Int) e => update used e.1 (some e.2)) used e.1
      = some e.2 := by
  induction serials generalizing used with
  | nil => simp at he
  | cons e' serials ih =>
    rw [map_cons, nodup_cons] at hnodup
    rw [foldl_cons]
    rcases mem_cons.mp he with rfl | he
    · rw [foldl_update_of_notMem hnodup.1, update_self]
    · exact ih hnodup.2 he

omit [DecidableEq G] in
theorem removeSpends_addSpends (hfresh : FreshSpends b.used serials) :
    (b.addSpends serials).removeSpends serials = b := by
  ext x
  · rfl
  · simp only [addSpends, removeSpends]
    split
    · next hmem =>
      obtain ⟨e, he, rfl⟩ := mem_map.mp hmem
      rw [hfresh.unused e he]
    · next hmem => rw [foldl_update_of_notMem hmem]
  · rfl
  · rfl
  · rfl
  · simp [addSpends, removeSpends]

end Book

/-! ## §4. The loops of the code. -/

/-- The cached surge flag is the one the counts give. -/
def Containers.Current (c : Containers F G) : Prop := c.surgeCondition = c.surge

namespace Containers

variable {c : Containers F G}

section

omit [DecidableEq F] [DecidableEq G]

@[simp] theorem checkSurgeCondition_book (c : Containers F G) :
    c.checkSurgeCondition.book = c.book := rfl

@[simp] theorem checkSurgeCondition_mintMetaInfo (c : Containers F G) :
    c.checkSurgeCondition.mintMetaInfo = c.mintMetaInfo := rfl

theorem checkSurgeCondition_current (c : Containers F G) : c.checkSurgeCondition.Current := rfl

end

variable {g : G} {coins : List (G × Uint256)} {info : CMintedCoinInfo} {id : Int}
  {serials : List (F × Int)}

section

omit [DecidableEq F]

theorem addMint_book (info : CMintedCoinInfo) (tag : Uint256) (hfresh : c.mintedPubCoins g = none) :
    (c.addMint g info tag).book = c.book.addMints info [(g, tag)] := by
  unfold addMint
  rw [checkSurgeCondition_book]
  ext x
  · simp only [book, Book.addMints, hfresh, isSome_none, Bool.false_eq_true, if_false,
      map_cons, map_nil, mem_singleton, update_apply]
  · rfl
  · rfl
  · rfl
  · simp only [book, Book.addMints, update_apply, getD_insert,
      length_singleton]
  · rfl

/-- **Minting fresh coins one by one**, as `AddMintsToStateAndBlockIndex` and
`AddBlock` do. -/
theorem book_foldl_addMint (hfresh : Fresh c.mintedPubCoins coins) :
    (coins.foldl (fun c mint => c.addMint mint.1 info mint.2) c).book
      = c.book.addMints info coins := by
  induction coins using reverseRecOn with
  | nil => ext x <;> simp [Book.addMints]
  | append_singleton coins coin ih =>
    obtain ⟨hnodup, hunminted⟩ := hfresh
    rw [map_append, nodup_append] at hnodup
    obtain ⟨hcoins, hcoin⟩ := forall_mem_append.mp hunminted
    have hbook := ih ⟨hnodup.1, hcoins⟩
    rw [foldl_append, foldl_cons, foldl_nil, addMint_book, hbook]
    · ext x
      · simp only [Book.addMints, map_append, map_cons, map_nil, mem_append, mem_singleton]
        by_cases h₁ : x = coin.1
        · simp [h₁]
        · simp [h₁]
      · rfl
      · simp [Book.addMints]
      · rfl
      · simp only [Book.addMints, length_append, length_singleton, update_self, update_idem,
          add_assoc]
      · rfl
    · show Book.minted (book _) coin.1 = none
      rw [hbook]
      refine (if_neg fun hmem => ?_).trans (hcoin coin (mem_singleton_self coin))
      exact hnodup.2.2 _ hmem coin.1 (by simp) rfl

theorem mem_addMint {tag : Uint256} {k : Int} :
    k ∈ (c.addMint g info tag).mintMetaInfo ↔ k = info.coinGroupId ∨ k ∈ c.mintMetaInfo := by
  unfold addMint
  rw [checkSurgeCondition_mintMetaInfo, mem_insert]

theorem mem_foldl_addMint {k : Int} :
    k ∈ (coins.foldl (fun c mint => c.addMint mint.1 info mint.2) c).mintMetaInfo
      ↔ (coins ≠ [] ∧ k = info.coinGroupId) ∨ k ∈ c.mintMetaInfo := by
  induction coins generalizing c with
  | nil => simp
  | cons coin coins ih =>
    rw [foldl_cons, ih, mem_addMint]
    simp only [ne_eq, reduceCtorEq, not_false_eq_true, true_and]
    tauto

theorem foldl_addMint_current (hc : c.Current) :
    (coins.foldl (fun c mint => c.addMint mint.1 info mint.2) c).Current :=
  foldlRecOn coins _ hc fun _ _ _ _ => checkSurgeCondition_current _

end

variable {c' : Containers F G}

section

omit [DecidableEq G]

theorem addSpend_eq_ok_iff {serial : F} :
    c.addSpend serial id = .ok c' ↔ id ∈ c.mintMetaInfo ∧ c' = checkSurgeCondition { c with
      usedCoinSerials := update c.usedCoinSerials serial (some id)
      spendMetaInfo := c.spendMetaInfo.insert id (c.spendMetaInfo.getD id 0 + 1) } := by
  unfold addSpend
  by_cases hid : id ∈ c.mintMetaInfo
  · rw [if_pos (ExtTreeMap.contains_iff_mem.mpr hid), Except.ok.injEq]
    simp [hid, eq_comm]
  · rw [if_neg (fun h => hid (ExtTreeMap.contains_iff_mem.mp h))]
    simp [hid]

/-- **Adding serials one by one** succeeds exactly when every group has a key,
and then it is `addSpends`. -/
theorem foldlM_addSpend_spec (hrun : serials.foldlM (fun c e => c.addSpend e.1 e.2) c = .ok c') :
    c'.book = c.book.addSpends serials ∧ c'.mintMetaInfo = c.mintMetaInfo ∧
      (c.Current → c'.Current) ∧ ∀ e ∈ serials, e.2 ∈ c.mintMetaInfo := by
  induction serials generalizing c with
  | nil =>
    simp only [foldlM_nil, pure_eq_ok, Except.ok.injEq] at hrun
    subst hrun
    refine ⟨?_, rfl, fun h => h, by simp⟩
    simp [Book.addSpends]
  | cons e serials ih =>
    rw [foldlM_cons] at hrun
    obtain ⟨c₁, h₁, hrest⟩ := bind_eq_ok.mp hrun
    obtain ⟨hid, rfl⟩ := addSpend_eq_ok_iff.mp h₁
    obtain ⟨hbook, hkeys, hcur, hall⟩ := ih hrest
    refine ⟨?_, hkeys, fun _ => hcur (checkSurgeCondition_current _), ?_⟩
    · rw [hbook]
      ext x
      · rfl
      · rfl
      · rfl
      · rfl
      · rfl
      · simp only [Book.addSpends, book, checkSurgeCondition, getD_insert,
          countP_cons]
        by_cases hx : x = e.2
        · subst hx
          simp
          omega
        · simp [hx, Ne.symm hx]
    · exact forall_mem_cons.mpr ⟨hid, hall⟩

theorem foldlM_addSpend_ok (hall : ∀ e ∈ serials, e.2 ∈ c.mintMetaInfo) :
    ∃ c', serials.foldlM (fun c e => c.addSpend e.1 e.2) c = .ok c' := by
  induction serials generalizing c with
  | nil => exact ⟨c, rfl⟩
  | cons e serials ih =>
    have h₁ : c.addSpend e.1 e.2 = .ok _ :=
      addSpend_eq_ok_iff.mpr ⟨hall e mem_cons_self, rfl⟩
    rw [foldlM_cons, h₁, ok_bind]
    exact ih (fun e' he' => hall e' (mem_cons_of_mem _ he'))

end

/-- The scan of `RemoveMint` erases the tag of the coin, if it has one. -/
theorem getElem?_eraseTagOf {tags : ExtTreeMap Uint256 G}
    (hinj : ∀ (t t' : Uint256), tags[t]? = some g → tags[t']? = some g → t = t') (t : Uint256) :
    (eraseTagOf tags g)[t]? = if tags[t]? = some g then none else tags[t]? := by
  unfold eraseTagOf
  cases hfind : tags.toList.find? (fun hashPair => hashPair.2 = g) with
  | none =>
    have hno : tags[t]? ≠ some g := by
      intro ht
      have hmem := ExtTreeMap.mem_toList_iff_getElem?_eq_some.mpr ht
      simpa using find?_eq_none.mp hfind _ hmem
    simp [hno]
  | some hashPair =>
    have hg : hashPair.2 = g := by simpa using find?_some hfind
    have ht₀ : tags[hashPair.1]? = some g := by
      rw [← ExtTreeMap.mem_toList_iff_getElem?_eq_some, ← hg]
      exact mem_of_find?_eq_some hfind
    show (tags.erase hashPair.1)[t]? = _
    rw [getElem?_erase]
    by_cases heq : t = hashPair.1
    · subst heq
      simp [ht₀]
    · have hno : tags[t]? ≠ some g := fun ht => heq (hinj _ _ ht ht₀)
      simp [heq, hno]

section

omit [DecidableEq F]

theorem removeMint_spec (hg : c.mintedPubCoins g = some info)
    (hcount : 0 < c.book.mintCount info.coinGroupId)
    (hinj : ∀ (t t' : Uint256), c.tagToPublicCoin[t]? = some g → c.tagToPublicCoin[t']? = some g →
      t = t') :
    (c.removeMint g).book = c.book.removeMints info.coinGroupId [g] ∧
      (c.removeMint g).Current ∧
      ∀ k, k ∈ (c.removeMint g).mintMetaInfo ↔ k = info.coinGroupId ∨ k ∈ c.mintMetaInfo := by
  unfold removeMint
  rw [hg]
  refine ⟨?_, checkSurgeCondition_current _, ?_⟩
  · simp only [checkSurgeCondition_book]
    ext x
    · simp only [book, Book.removeMints, mem_singleton, update_apply]
    · rfl
    · simp only [book, Book.removeMints]
      rw [getElem?_eraseTagOf hinj, ExtTreeMap.getElem?_filter']
      cases ht : c.tagToPublicCoin[x]? with
      | none => simp
      | some g' =>
        by_cases hgg : g' = g
        · subst hgg
          simp [Option.filter]
        · simp [Option.filter, hgg]
    · rfl
    · have hpos : 1 ≤ c.mintMetaInfo.getD info.coinGroupId 0 := hcount
      simp only [book, Book.removeMints, getD_insert, update_apply,
        length_singleton, sizeSub_of_le hpos]
    · rfl
  · intro k
    rw [checkSurgeCondition_mintMetaInfo, mem_insert]

/-- **Rolling mints back one by one** forgets exactly these mints. -/
theorem foldlM_removeBlockMint (hnodup : (coins.map Prod.fst).Nodup)
    (hminted : ∀ coin ∈ coins, ∃ info, c.mintedPubCoins coin.1 = some info ∧ info.coinGroupId = id)
    (hcount : coins.length ≤ c.book.mintCount id) (htags : c.book.TagsOK) :
    ∃ c', coins.foldlM (CLelantusState.removeBlockMint id) c = .ok c' ∧
      c'.book = c.book.removeMints id (coins.map Prod.fst) ∧ (c.Current → c'.Current) ∧
      ∀ k, k ∈ c'.mintMetaInfo ↔ (coins ≠ [] ∧ k = id) ∨ k ∈ c.mintMetaInfo := by
  refine (Ensures.foldlM_prefix (fun pre (c' : Containers F G) =>
    c'.book = c.book.removeMints id (pre.map Prod.fst) ∧ (c.Current → c'.Current) ∧
      ∀ k, k ∈ c'.mintMetaInfo ↔ (pre ≠ [] ∧ k = id) ∨ k ∈ c.mintMetaInfo)
    ?_ ⟨?_, fun h => h, by simp⟩).exists_ok
  · rintro pre coin rest rfl c₁ ⟨hbook, -, hkeys⟩
    obtain ⟨info, hinfo, rfl⟩ := hminted coin (by simp)
    rw [map_append, map_cons, nodup_append] at hnodup
    have hhere : c₁.mintedPubCoins coin.1 = some info := by
      show c₁.book.minted coin.1 = _
      rw [hbook]
      exact (if_neg fun hmem => hnodup.2.2 _ hmem _ mem_cons_self rfl).trans hinfo
    have hpos : 0 < c₁.book.mintCount info.coinGroupId := by
      rw [hbook]
      simp only [Book.removeMints, update_self, length_map, length_append, length_cons] at hcount ⊢
      omega
    obtain ⟨hbook', hcur', hkeys'⟩ := removeMint_spec hhere hpos (by
      intro t t' ht ht'
      change c₁.book.tags[t]? = _ at ht
      change c₁.book.tags[t']? = _ at ht'
      rw [hbook] at ht ht'
      simp only [Book.removeMints, ExtTreeMap.getElem?_filter', filter_eq_some_iff] at ht ht'
      exact htags.inj t t' coin.1 ht.1 ht'.1)
    have hassert : CLelantusState.removeBlockMint info.coinGroupId c₁ coin
        = .ok (c₁.removeMint coin.1) := by
      unfold CLelantusState.removeBlockMint
      simp [hhere]
    rw [hassert]
    refine ⟨?_, fun _ => hcur', ?_⟩
    · rw [hbook', hbook]
      ext x
      · simp only [Book.removeMints, map_append, map_cons, map_nil, mem_append, mem_singleton]
        by_cases h₁ : x = coin.1
        · simp [h₁]
        · simp [h₁]
      · rfl
      · simp only [Book.removeMints, ExtTreeMap.getElem?_filter', map_append, map_cons, map_nil,
          mem_append, mem_singleton]
        cases c.book.tags[x]? with
        | none => simp
        | some g => simp
      · rfl
      · simp only [Book.removeMints, map_append, map_cons, map_nil, length_append,
          length_singleton, update_self, update_idem, Nat.sub_sub]
      · rfl
    · intro k
      rw [hkeys', hkeys]
      simp only [ne_eq, append_eq_nil_iff, reduceCtorEq, and_false, not_false_eq_true, true_and]
      tauto
  · ext x <;> simp [Book.removeMints]

end

section

omit [DecidableEq G]

theorem removeSpend_spec {serial : F} (hused : c.usedCoinSerials serial = some id)
    (hcount : 0 < c.book.spendCount id) :
    (c.removeSpend serial).book = c.book.removeSpends [(serial, id)] ∧
      (c.removeSpend serial).mintMetaInfo = c.mintMetaInfo ∧ (c.removeSpend serial).Current := by
  unfold removeSpend
  rw [hused]
  refine ⟨?_, rfl, checkSurgeCondition_current _⟩
  simp only [checkSurgeCondition_book]
  ext x
  · rfl
  · simp only [book, Book.removeSpends, map_cons, map_nil, mem_singleton,
      update_apply]
  · rfl
  · rfl
  · rfl
  · have hpos : 1 ≤ c.spendMetaInfo.getD id 0 := hcount
    simp only [book, Book.removeSpends, getD_insert, sizeSub_of_le hpos]
    by_cases hx : x = id
    · subst hx
      simp
    · simp [hx, Ne.symm hx]

/-- **Rolling serials back one by one** forgets exactly these serials. -/
theorem foldl_removeSpend_spec (hnodup : (serials.map Prod.fst).Nodup)
    (hused : ∀ e ∈ serials, c.usedCoinSerials e.1 = some e.2)
    (hcount : ∀ k, serials.countP (·.2 = k) ≤ c.book.spendCount k) (hc : c.Current) :
    (serials.foldl (fun c e => c.removeSpend e.1) c).book = c.book.removeSpends serials ∧
      (serials.foldl (fun c e => c.removeSpend e.1) c).mintMetaInfo = c.mintMetaInfo ∧
      (serials.foldl (fun c e => c.removeSpend e.1) c).Current := by
  induction serials using reverseRecOn with
  | nil => exact ⟨by simp [Book.removeSpends], rfl, hc⟩
  | append_singleton serials e ih =>
    rw [map_append, nodup_append] at hnodup
    obtain ⟨hbefore, he⟩ := forall_mem_append.mp hused
    simp only [countP_append] at hcount
    obtain ⟨hbook, hkeys, hcur⟩ :=
      ih hnodup.1 hbefore fun k => Nat.le_of_add_right_le (hcount k)
    rw [foldl_append, foldl_cons, foldl_nil]
    generalize serials.foldl (fun c e => c.removeSpend e.1) c = c₁ at hbook hkeys hcur ⊢
    have hhere : c₁.usedCoinSerials e.1 = some e.2 := by
      show c₁.book.used e.1 = _
      rw [hbook]
      refine (if_neg fun hmem => ?_).trans (he e (mem_singleton_self e))
      exact hnodup.2.2 _ hmem e.1 (by simp) rfl
    have hpos : 0 < c₁.book.spendCount e.2 := by
      have hle := hcount e.2
      rw [countP_singleton, if_pos (by simp)] at hle
      rw [hbook]
      simp only [Book.removeSpends]
      omega
    obtain ⟨hbook', hkeys', hcur'⟩ := removeSpend_spec hhere hpos
    refine ⟨?_, hkeys'.trans hkeys, hcur'⟩
    rw [hbook', hbook]
    ext x
    · rfl
    · simp only [Book.removeSpends, map_append, map_cons, map_nil, mem_append, mem_singleton]
      by_cases h₁ : x = e.1
      · simp [h₁]
      · simp [h₁]
    · rfl
    · rfl
    · rfl
    · simp only [Book.removeSpends, countP_append, Nat.sub_sub]

end

/-! ## §5. Extended mints. -/

omit [DecidableEq F] [DecidableEq G] in
theorem removeExtendedMints_book (c : Containers F G) (group : Int) :
    (c.removeExtendedMints group).book
      = { c.book with extended := c.book.extended.erase group } := rfl

end Containers

end Zcoin.Lelantus
