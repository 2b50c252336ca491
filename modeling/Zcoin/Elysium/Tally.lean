/-
  Zcoin.Elysium.Tally — the balances of the token layer (`elysium/tally.h/.cpp`,
  `elysium/elysium.cpp`).

  `mp_tally_map` maps an address to its `CMPTally`, and that a property to the amounts of the
  tally types; here it is one ledger whose kinds are pairs of a property and a tally type.
  An address is a value of any type in an order (`std::string` in the code).
-/
import Zcoin.Elysium.Uint256
import Zcoin.Elysium.SmartProperty
import Zcoin.Lib.Ledger

namespace Zcoin.Elysium

open Lib Lib.Except List

/-! ## §1. Tallies. -/

/-- `TallyType`. -/
inductive TallyType where
  | balance
  | sellofferReserve
  | acceptReserve
  | pending
  | metadexReserve
  deriving DecidableEq, Repr

/-- `mp_tally_map`. -/
abbrev TallyMap (A : Type) := Ledger A (PropertyId × TallyType)

/-- `std::numeric_limits<int64_t>::min()`. -/
def minInt64 : Int := -9223372036854775808

/-- An `int64_t`, or the overflow of the operation that forms it. -/
def fit64 (n : Int) : Except Abort Int :=
  if minInt64 ≤ n ∧ n ≤ maxInt64 then .ok n else .error .overflow

/-- A sum that is formed in an `int64_t`. -/
def sumInt64 (ns : List Int) : Except Abort Int := ns.foldlM (fun sum n => fit64 (sum + n)) 0

/-- `isOverflow`. -/
def isOverflow (a b : Int) : Bool :=
  (0 < b && maxInt64 - b < a) || (b < 0 && a < minInt64 - b)

/-- What the token layer counts as owned: everything but `PENDING`. -/
def tokenKinds (propertyId : PropertyId) : List (PropertyId × TallyType) :=
  [(propertyId, .balance), (propertyId, .sellofferReserve), (propertyId, .acceptReserve),
    (propertyId, .metadexReserve)]

section Updates

variable {A : Type} [DecidableEq A]

/-- `CMPTally::updateMoney` on the tally of an address. -/
def updateMoney (tally : TallyMap A) (who : A) (propertyId : PropertyId) (amount : Int)
    (ttype : TallyType) : Bool × TallyMap A :=
  let now64 := tally.amount who (propertyId, ttype)
  if amount = 0 then (false, tally)
  else if isOverflow now64 amount then (false, tally)
  else if ttype ≠ .pending ∧ now64 + amount < 0 then (false, tally)
  else (true, tally.add who (propertyId, ttype) amount)

/-- `getMPbalance`. -/
def getMPbalance (tally : TallyMap A) (address : A) (propertyId : PropertyId)
    (ttype : TallyType) : Int :=
  if ttype = .acceptReserve ∧ propertyId > ELYSIUM_PROPERTY_TELYSIUM then 0
  else tally.amount address (propertyId, ttype)

variable (frozen : A → PropertyId → Bool)

/-- `update_tally_map`; `frozen` is `isAddressFrozen`. -/
def updateTallyMap (tally : TallyMap A) (who : A) (propertyId : PropertyId) (amount : Int)
    (ttype : TallyType) : Except Abort (Bool × TallyMap A) := do
  if amount = 0 then return (false, tally)
  else
    if ttype = .balance ∧ amount < 0 then assertThat (!frozen who propertyId)
    let before := getMPbalance tally who propertyId ttype
    -- an empty element is inserted for an address without tally
    let (bRet, tally) := updateMoney (tally.touch who) who propertyId amount ttype
    if !bRet then assertThat (decide (before = getMPbalance tally who propertyId ttype))
    return (bRet, tally)

/-- `assert(update_tally_map(..))`. -/
def assertUpdate (tally : TallyMap A) (who : A) (propertyId : PropertyId) (amount : Int)
    (ttype : TallyType) : Except Abort (TallyMap A) := do
  let (bRet, tally) ← updateTallyMap frozen tally who propertyId amount ttype
  assertThat bRet
  return tally

end Updates

/-! ## §2. Sums of `int64_t`. -/

theorem fit64_of_range {n : Int} (hlow : 0 ≤ n) (hhigh : n ≤ maxInt64) : fit64 n = .ok n := by
  apply if_pos
  unfold minInt64
  omega

theorem sumInt64_eq {ns : List Int} (hnonneg : ∀ n ∈ ns, 0 ≤ n) (hsum : ns.sum ≤ maxInt64) :
    sumInt64 ns = .ok ns.sum := by
  have hsums : Ensures (fun _ => False) (· = ns.sum) (sumInt64 ns) := by
    refine Ensures.foldlM_prefix (fun pre sum => sum = pre.sum) ?_ rfl
    rintro pre n rest rfl _ rfl
    obtain ⟨hpre, hrest⟩ := forall_mem_append.mp hnonneg
    obtain ⟨hn, hrest⟩ := forall_mem_cons.mp hrest
    have hlow := sum_nonneg hpre
    have hnext := sum_nonneg hrest
    rw [sum_append, sum_cons] at hsum
    rw [fit64_of_range (by omega) (by omega)]
    show pre.sum + n = (pre ++ [n]).sum
    rw [sum_append, sum_singleton]
  obtain ⟨_, hrun, rfl⟩ := hsums.exists_ok
  exact hrun

/-! ## §3. Tokens of a property. -/

section Tokens

variable {A : Type} {tally : TallyMap A}

/-- The tokens of a property that the tally shows. -/
def tokensOf (tally : TallyMap A) (propertyId : PropertyId) : Int :=
  ((tokenKinds propertyId).map tally.total).sum

/-- Nothing but `PENDING` is negative. -/
def NonNegative (tally : TallyMap A) : Prop :=
  ∀ a propertyId ttype, ttype ≠ .pending → 0 ≤ tally.amount a (propertyId, ttype)

theorem tokensOf_eq (tally : TallyMap A) (propertyId : PropertyId) :
    tokensOf tally propertyId = tally.total (propertyId, .balance) +
      tally.total (propertyId, .sellofferReserve) + tally.total (propertyId, .acceptReserve) +
      tally.total (propertyId, .metadexReserve) := by
  show tally.total _ + (tally.total _ + (tally.total _ + (tally.total _ + 0))) = _
  omega

variable (hnonneg : NonNegative tally)
include hnonneg

theorem NonNegative.total (p : PropertyId) {ttype : TallyType}
    (hpending : ttype ≠ .pending) : 0 ≤ tally.total (p, ttype) :=
  tally.total_nonneg fun b => hnonneg b p ttype hpending

theorem NonNegative.totals (p : PropertyId) :
    0 ≤ tally.total (p, .balance) ∧ 0 ≤ tally.total (p, .sellofferReserve) ∧
      0 ≤ tally.total (p, .acceptReserve) ∧ 0 ≤ tally.total (p, .metadexReserve) :=
  ⟨hnonneg.total p nofun, hnonneg.total p nofun, hnonneg.total p nofun, hnonneg.total p nofun⟩

theorem amount_le_tokensOf {ttype : TallyType} (hpending : ttype ≠ .pending) (a : A)
    (p : PropertyId) : tally.amount a (p, ttype) ≤ tokensOf tally p := by
  have hle := tally.amount_le_total (fun b => hnonneg b p ttype hpending) a
  obtain ⟨hbalance, hselloffer, haccept, hmetadex⟩ := hnonneg.totals p
  rw [tokensOf_eq]
  cases ttype with
  | pending => exact absurd rfl hpending
  | _ => omega

theorem tokensOf_nonneg (p : PropertyId) : 0 ≤ tokensOf tally p := by
  obtain ⟨hbalance, hselloffer, haccept, hmetadex⟩ := hnonneg.totals p
  rw [tokensOf_eq]
  omega

end Tokens

/-! ## §4. What an update does. -/

section Spec

variable {A : Type} [DecidableEq A] {frozen : A → PropertyId → Bool} {tally : TallyMap A} {who : A}
  {propertyId : PropertyId} {amount : Int} {ttype : TallyType}

/-- **An asserted update holds** when the amount is not zero, a withdrawal is not from a frozen
balance, and the new amount is neither negative nor too large. -/
theorem assertUpdate_eq (hne : amount ≠ 0)
    (hfrozen : ttype = .balance → amount < 0 → frozen who propertyId = false)
    (hlow : 0 ≤ tally.amount who (propertyId, ttype) + amount)
    (hhigh : tally.amount who (propertyId, ttype) + amount ≤ maxInt64) :
    assertUpdate frozen tally who propertyId amount ttype =
      .ok (tally.add who (propertyId, ttype) amount) := by
  have hoverflow : isOverflow (tally.amount who (propertyId, ttype)) amount = false := by
    unfold isOverflow minInt64
    simp only [Bool.or_eq_false_iff, Bool.and_eq_false_iff, decide_eq_false_iff_not]
    omega
  have hupdate : updateMoney (tally.touch who) who propertyId amount ttype =
      (true, tally.add who (propertyId, ttype) amount) := by
    show (if amount = 0 then _
      else if isOverflow (tally.amount who (propertyId, ttype)) amount = true then _
      else if ttype ≠ .pending ∧ tally.amount who (propertyId, ttype) + amount < 0 then _
      else (true, (tally.touch who).add who (propertyId, ttype) amount)) = _
    rw [if_neg hne, if_neg (by rw [hoverflow]; exact Bool.false_ne_true),
      if_neg (fun h => by omega), Ledger.touch_add]
  unfold assertUpdate updateTallyMap
  rw [if_neg hne, hupdate]
  by_cases hwithdraw : ttype = .balance ∧ amount < 0
  · rw [if_pos hwithdraw, hfrozen hwithdraw.1 hwithdraw.2]
    rfl
  · rw [if_neg hwithdraw]
    rfl

/-- **An update changes the tokens of its property** and no other. -/
theorem tokensOf_add (hpending : ttype ≠ .pending) (p : PropertyId) :
    tokensOf (tally.add who (propertyId, ttype) amount) p =
      tokensOf tally p + if p = propertyId then amount else 0 := by
  simp only [tokensOf_eq, Ledger.total_add, Prod.mk.injEq]
  by_cases hp : p = propertyId
  · cases ttype with
    | pending => exact absurd rfl hpending
    | _ =>
      simp [hp]
      omega
  · simp [hp]

theorem NonNegative.add (hnonneg : NonNegative tally)
    (hlow : 0 ≤ tally.amount who (propertyId, ttype) + amount) :
    NonNegative (tally.add who (propertyId, ttype) amount) := by
  intro a p t ht
  have hold := hnonneg a p t ht
  rw [Ledger.amount_add]
  split
  · next h =>
    obtain ⟨rfl, hkind⟩ := h
    cases hkind
    exact hlow
  · omega

variable {tally' : TallyMap A}

/-- **What `update_tally_map` can do**: it refuses, at most opening the account, or it adds the
amount, which is in range and not withdrawn from a frozen balance. -/
theorem updateTallyMap_cases {bRet : Bool}
    (hrun : updateTallyMap frozen tally who propertyId amount ttype = .ok (bRet, tally')) :
    (bRet = false ∧ (tally' = tally ∨ tally' = tally.touch who)) ∨
      (bRet = true ∧ tally' = tally.add who (propertyId, ttype) amount ∧ amount ≠ 0 ∧
        isOverflow (tally.amount who (propertyId, ttype)) amount = false ∧
        (ttype ≠ .pending → 0 ≤ tally.amount who (propertyId, ttype) + amount) ∧
        (ttype = .balance → amount < 0 → frozen who propertyId = false)) := by
  unfold updateTallyMap at hrun
  split at hrun
  · cases hrun
    exact .inl ⟨rfl, .inl rfl⟩
  · next hne =>
    have hsafe : (ttype = .balance → amount < 0 → frozen who propertyId = false) ∧
        ∃ money : Bool × TallyMap A,
          money = updateMoney (tally.touch who) who propertyId amount ttype ∧
          money = (bRet, tally') := by
      -- neither assertion changes the tally
      generalize updateMoney (tally.touch who) who propertyId amount ttype = money at hrun
      obtain ⟨moved, tally₁⟩ := money
      dsimp only at hrun
      have hlast : ∀ {last : Except Abort (Bool × TallyMap A)}, last =
          (if !moved then do
            assertThat (decide (getMPbalance tally who propertyId ttype =
              getMPbalance tally₁ who propertyId ttype))
            return (moved, tally₁)
          else return (moved, tally₁)) → last = .ok (bRet, tally') →
          (moved, tally₁) = (bRet, tally') := by
        intro last hdef hlast
        rw [hdef] at hlast
        split at hlast
        · obtain ⟨_, -, hlast⟩ := bind_eq_ok.mp hlast
          exact Except.ok.inj hlast
        · exact Except.ok.inj hlast
      split at hrun
      · obtain ⟨⟨⟩, hfrozen, hrun⟩ := bind_eq_ok.mp hrun
        refine ⟨fun _ _ => ?_, _, rfl, hlast rfl hrun⟩
        cases hcase : frozen who propertyId with
        | false => rfl
        | true =>
          rw [hcase] at hfrozen
          cases hfrozen
      · next hnot =>
        exact ⟨fun hbalance hneg => absurd ⟨hbalance, hneg⟩ hnot, _, rfl, hlast rfl hrun⟩
    obtain ⟨hsafe, money, hmoney, hresult⟩ := hsafe
    rw [hresult] at hmoney
    unfold updateMoney at hmoney
    dsimp only at hmoney
    rw [if_neg hne] at hmoney
    split at hmoney
    · obtain ⟨rfl, rfl⟩ := Prod.mk.inj hmoney
      exact .inl ⟨rfl, .inr rfl⟩
    · next hoverflow =>
      split at hmoney
      · obtain ⟨rfl, rfl⟩ := Prod.mk.inj hmoney
        exact .inl ⟨rfl, .inr rfl⟩
      · next hlow =>
        obtain ⟨rfl, rfl⟩ := Prod.mk.inj hmoney
        refine .inr ⟨rfl, Ledger.touch_add tally who _ amount, hne, ?_, ?_, hsafe⟩
        · exact Bool.eq_false_iff.mpr hoverflow
        · intro hpending
          by_contra hneg
          exact hlow ⟨hpending, by rw [Ledger.amount_touch]; omega⟩

/-- **No update makes an amount negative**, except one of `PENDING`. -/
theorem updateTallyMap_nonNegative {bRet : Bool} (hnonneg : NonNegative tally)
    (hrun : updateTallyMap frozen tally who propertyId amount ttype = .ok (bRet, tally')) :
    NonNegative tally' := by
  rcases updateTallyMap_cases hrun with
    ⟨-, rfl | rfl⟩ | ⟨-, rfl, -, -, hlow, -⟩
  · exact hnonneg
  · exact hnonneg
  · intro a p t ht
    have hold := hnonneg a p t ht
    rw [Ledger.amount_add]
    split
    · next hsame =>
      obtain ⟨rfl, hkind⟩ := hsame
      cases hkind
      exact hlow ht
    · omega

/-- The tally maps that `update_tally_map` leads to. -/
inductive ReachedTally : TallyMap A → Prop where
  | empty : ReachedTally Ledger.empty
  | update {frozen : A → PropertyId → Bool} {tally tally' : TallyMap A} {who : A}
      {propertyId : PropertyId} {amount : Int} {ttype : TallyType} {bRet : Bool} :
      ReachedTally tally →
      updateTallyMap frozen tally who propertyId amount ttype = .ok (bRet, tally') →
      ReachedTally tally'

theorem ReachedTally.nonNegative (h : ReachedTally tally) : NonNegative tally := by
  induction h with
  | empty =>
    intro a p t _
    exact le_rfl
  | update _ hrun ih => exact updateTallyMap_nonNegative ih hrun

theorem ReachedTally.add (h : ReachedTally tally) (who : A) (propertyId : PropertyId)
    (ttype : TallyType) (hne : amount ≠ 0)
    (hlow : 0 ≤ tally.amount who (propertyId, ttype) + amount)
    (hhigh : tally.amount who (propertyId, ttype) + amount ≤ maxInt64) :
    ReachedTally (tally.add who (propertyId, ttype) amount) := by
  have hrun := @assertUpdate_eq A _ (fun _ _ => false) tally who propertyId amount ttype hne
    (fun _ _ => rfl) hlow hhigh
  obtain ⟨⟨bRet, tally'⟩, hupdate, hrun⟩ := bind_eq_ok.mp hrun
  obtain ⟨_, -, hrun⟩ := bind_eq_ok.mp hrun
  cases hrun
  exact ReachedTally.update h hupdate

end Spec

/-! ## §5. Moving tokens. -/

variable {A : Type} [DecidableEq A] {frozen : A → PropertyId → Bool} {tally : TallyMap A}
  {sender receiver : A} {p : PropertyId} {r : Int} {source target : TallyType}

/-- The tally after tokens moved from one address and type to another. -/
def conveyed (tally : TallyMap A) (sender receiver : A) (p : PropertyId) (r : Int)
    (source target : TallyType) : TallyMap A :=
  (tally.add sender (p, source) (-r)).add receiver (p, target) r

theorem tokensOf_conveyed (hsource : source ≠ .pending) (htarget : target ≠ .pending)
    (q : PropertyId) :
    tokensOf (conveyed tally sender receiver p r source target) q = tokensOf tally q := by
  unfold conveyed
  rw [tokensOf_add htarget, tokensOf_add hsource]
  split <;> omega

theorem amount_conveyed (a : A) (q : PropertyId) (t : TallyType) :
    (conveyed tally sender receiver p r source target).amount a (q, t) =
      tally.amount a (q, t) - (if a = sender ∧ q = p ∧ t = source then r else 0) +
        if a = receiver ∧ q = p ∧ t = target then r else 0 := by
  unfold conveyed
  simp only [Ledger.amount_add, Prod.mk.injEq]
  split <;> split <;> omega

/-- **Taking tokens** from what an address has and giving others never fails, unless its balance
is frozen. -/
theorem exchange_spec {r' : Int} (hnonneg : NonNegative tally)
    (hmax : tokensOf tally p - r + r' ≤ maxInt64) (hr : 0 < r) (hr' : 0 < r')
    (hle : r ≤ tally.amount sender (p, source))
    (hthawed : source = .balance → frozen sender p = false) (hsource : source ≠ .pending)
    (htarget : target ≠ .pending) :
    assertUpdate frozen tally sender p (-r) source =
        .ok (tally.add sender (p, source) (-r)) ∧
      assertUpdate frozen (tally.add sender (p, source) (-r)) receiver p r' target =
        .ok ((tally.add sender (p, source) (-r)).add receiver (p, target) r') ∧
      NonNegative ((tally.add sender (p, source) (-r)).add receiver (p, target) r') := by
  have hhas := amount_le_tokensOf hnonneg hsource sender p
  have hnonneg' : NonNegative (tally.add sender (p, source) (-r)) := hnonneg.add (by omega)
  have htokens : tokensOf (tally.add sender (p, source) (-r)) p = tokensOf tally p + -r := by
    rw [tokensOf_add hsource, if_pos rfl]
  have hlow := hnonneg' receiver p target htarget
  have hhigh := amount_le_tokensOf hnonneg' htarget receiver p
  refine ⟨?_, ?_, hnonneg'.add (by omega)⟩
  · apply assertUpdate_eq
    · omega
    · intro hbalance _
      exact hthawed hbalance
    · omega
    · omega
  · apply assertUpdate_eq
    · omega
    · intro _ hneg
      omega
    · omega
    · omega

theorem convey_spec (hnonneg : NonNegative tally) (hmax : tokensOf tally p ≤ maxInt64) (hr : 0 < r)
    (hle : r ≤ tally.amount sender (p, source))
    (hthawed : source = .balance → frozen sender p = false) (hsource : source ≠ .pending)
    (htarget : target ≠ .pending) :
    assertUpdate frozen tally sender p (-r) source =
        .ok (tally.add sender (p, source) (-r)) ∧
      assertUpdate frozen (tally.add sender (p, source) (-r)) receiver p r target =
        .ok (conveyed tally sender receiver p r source target) ∧
      NonNegative (conveyed tally sender receiver p r source target) :=
  exchange_spec hnonneg (by omega) hr hr hle hthawed hsource htarget

end Zcoin.Elysium
