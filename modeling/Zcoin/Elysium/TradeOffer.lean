/-
  Zcoin.Elysium.TradeOffer — sell offers as transactions place, change and cancel them
  (`elysium/tx.cpp`).

  An update destroys the offer and creates it anew.  Creating an offer checks the payment
  window, the amount desired and the balance again, so an update that is refused there has
  lost the old offer.
-/
import Zcoin.Elysium.Activation
import Zcoin.Elysium.DExRuns
import Zcoin.Elysium.FeeCache
import Zcoin.Elysium.Packet

namespace Zcoin.Elysium

open Lib Lib.Except

/-! ## §1. `logicMath_TradeOffer`. -/

def PKT_ERROR_TRADEOFFER : Int := -70000

/-- `CMPTransaction::NEW`, `UPDATE` and `CANCEL`. -/
def NEW : UInt8 := 1
def UPDATE : UInt8 := 2
def CANCEL : UInt8 := 3

/-- A `TransactionRestriction`. -/
structure TransactionRestriction where
  txType : Nat
  txVersion : UInt16
  allowWildcard : Bool
  activationBlock : Int

/-- `IsTransactionTypeAllowed`; `ELYSIUM_PROPERTY_XZC` is 0. -/
def isTransactionTypeAllowed (restrictions : List TransactionRestriction) (txBlock : Int)
    (txProperty : PropertyId) (txType : Nat) (version : UInt16) : Bool :=
  restrictions.any fun entry =>
    entry.txType == txType && entry.txVersion == version &&
      (txProperty != 0 || entry.allowWildcard) &&
      (isTestEcosystemProperty txProperty || txBlock ≥ entry.activationBlock)

/-- The environment of the exchange with the restrictions of the consensus parameters. -/
structure TradeEnv (A : Type) extends DExEnv A where
  restrictions : List TransactionRestriction

/-- A `CMPTransaction` with what it has beside its payload. -/
structure TradeOffer (A G : Type) extends CMPTransaction G where
  sender : A
  block : Int
  txid : Uint256

variable {A G : Type} [DecidableEq A] (env : TradeEnv A) (s : DExState A) (tx : TradeOffer A G)

/-- The first check of `logicMath_TradeOffer`. -/
def TradeOffer.allowed : Bool :=
  isTransactionTypeAllowed env.restrictions tx.block tx.property.toNat tx.type tx.version

/-- The arguments of `DEx_offerCreate` and `DEx_offerUpdate`, which take `int64_t`s. -/
def TradeOffer.args : OfferArgs A :=
  { addressSeller := tx.sender, propertyId := tx.property.toNat
    amountOffered := toInt64 tx.nValue.toNat, block := tx.block
    amountDesired := toInt64 tx.amountDesired.toNat, minAcceptFee := toInt64 tx.minFee.toNat
    paymentWindow := tx.blocktimelimit.toNat, txid := tx.txid }

/-- What a transaction does about the offer of its sender. -/
inductive OfferAction where
  | create
  | update
  | destroy

/-- The checks of `logicMath_TradeOffer` and its `switch`es: which action this is, or the code
of a rejection. -/
def TradeOffer.decision : Except Int OfferAction :=
  let found := (s.offers.lookup tx.args.key).isSome
  if !tx.allowed env then .error (PKT_ERROR_TRADEOFFER - 22)
  else if maxInt64 < tx.nValue.toNat then .error (PKT_ERROR_TRADEOFFER - 23)
  else if ELYSIUM_PROPERTY_TELYSIUM ≠ tx.args.propertyId ∧
      ELYSIUM_PROPERTY_ELYSIUM ≠ tx.args.propertyId then .error (PKT_ERROR_TRADEOFFER - 47)
  else if tx.version = MP_TX_PKT_V0 then
    if tx.nValue ≠ 0 then .ok (if !found then .create else .update)
    else if found then .ok .destroy else .error (PKT_ERROR_TRADEOFFER - 49)
  else if tx.version = MP_TX_PKT_V1 then
    if found ∧ CANCEL ≠ tx.subaction ∧ UPDATE ≠ tx.subaction then
      .error (PKT_ERROR_TRADEOFFER - 48)
    else if !found ∧ NEW ≠ tx.subaction then .error (PKT_ERROR_TRADEOFFER - 49)
    else if tx.subaction = NEW then .ok .create
    else if tx.subaction = UPDATE then .ok .update
    else if tx.subaction = CANCEL then .ok .destroy
    else .error (PKT_ERROR - 999)
  else .error (PKT_ERROR - 500)

/-- `logicMath_TradeOffer`. -/
def logicMathTradeOffer : Except Abort (DExReturn A) :=
  match tx.decision env s with
  | .error rc => .ok { rc, state := s }
  | .ok .create => dexOfferCreate env.toDExEnv s tx.args
  | .ok .update => dexOfferUpdate env.toDExEnv s tx.args
  | .ok .destroy => do
    let (rc, state) ← dexOfferDestroy env.toDExEnv s tx.args.addressSeller tx.args.propertyId
    return { rc, state }

/-- A code that is not zero comes with the state as it was. -/
def KeptOnError (result : Except Abort (DExReturn A)) : Prop :=
  ∀ r, result = .ok r → r.rc ≠ 0 → r.state = s

/-- The transaction is an update of an offer. -/
def TradeOffer.Changes : Prop :=
  tx.allowed env = true ∧ tx.nValue.toNat ≤ maxInt64 ∧
    (tx.args.propertyId = ELYSIUM_PROPERTY_ELYSIUM ∨ tx.args.propertyId = ELYSIUM_PROPERTY_TELYSIUM) ∧
    (s.offers.lookup tx.args.key).isSome = true ∧
    (tx.version = MP_TX_PKT_V0 ∧ tx.nValue ≠ 0 ∨ tx.version = MP_TX_PKT_V1 ∧ tx.subaction = UPDATE)

/-- `DEx_offerCreate` accepts an offer when `available` is in the balance. -/
def OfferArgs.Acceptable (env : DExEnv A) (args : OfferArgs A) (available : Int) : Prop :=
  args.paymentWindow ≠ 0 ∧ args.amountDesired ≠ 0 ∧ 0 < args.amountOffered ∧ 0 < available ∧
    (env.dexMath args.block = true → args.amountOffered ≤ available)

/-! ## §2. Refused offers. -/

variable {env s tx} {dex : DExEnv A} {args : OfferArgs A}

theorem calculateDesiredBTC_zero (amountOffered amountDesired : Int) :
    Legacy.calculateDesiredBTC amountOffered amountDesired 0 = .ok 0 := by
  have hfloor : ⌊(2⁻¹ : ℚ)⌋ = 0 := by norm_num
  simp [Legacy.calculateDesiredBTC, toUint64, toDouble, rounduint64, toInt64, hfloor]

/-- **A new offer** is accepted, if no update of the tally fails, or refused with the state
as it was. -/
theorem dexOfferCreate_cases (hnew : s.offers.lookup args.key = none)
    (hnonneg : 0 ≤ s.tally.amount args.addressSeller (args.propertyId, .balance))
    (hoffered : 0 ≤ args.amountOffered) :
    args.Acceptable dex (s.tally.amount args.addressSeller (args.propertyId, .balance)) ∧
        (∀ r, dexOfferCreate dex s args = .ok r → r.rc = 0) ∨
      ¬ args.Acceptable dex (s.tally.amount args.addressSeller (args.propertyId, .balance)) ∧
        ∃ rc nAmended, rc ≠ 0 ∧ dexOfferCreate dex s args = .ok { rc, nAmended, state := s } := by
  have hbalance : getMPbalance s.tally args.addressSeller args.propertyId .balance =
      s.tally.amount args.addressSeller (args.propertyId, .balance) := if_neg (by simp)
  unfold dexOfferCreate OfferArgs.Acceptable
  rw [hnew, hbalance]
  generalize s.tally.amount args.addressSeller (args.propertyId, .balance) = available at *
  by_cases hwindow : args.paymentWindow = 0
  · refine .inr ⟨fun h => h.1 hwindow, _, _, ?_, if_pos hwindow⟩
    decide
  by_cases hdesired : args.amountDesired = 0
  · rw [if_neg hwindow]
    refine .inr ⟨fun h => h.2.1 hdesired, _, _, ?_, if_pos hdesired⟩
    decide
  rw [if_neg hwindow, if_neg hdesired, if_neg nofun]
  by_cases hmath : (dex.dexMath args.block && decide (available < args.amountOffered)) = true
  · have hmath' := Bool.and_eq_true_iff.mp hmath
    rw [decide_eq_true_iff] at hmath'
    refine .inr ⟨fun h => by have := h.2.2.2.2 hmath'.1; omega, _, _, ?_, if_pos hmath⟩
    decide
  dsimp only
  rw [if_neg hmath]
  by_cases hpos : 0 < args.amountOffered ∧ 0 < available
  · refine .inl ⟨⟨hwindow, hdesired, hpos.1, hpos.2, fun h => ?_⟩, fun r hr => ?_⟩
    · simpa [h] using hmath
    · obtain ⟨⟨amountOffered, amountDesired, nAmended⟩, hadjusted, hr⟩ := bind_eq_ok.mp hr
      have hsome : 0 < amountOffered := by
        unfold OfferArgs.adjusted at hadjusted
        split at hadjusted
        · obtain ⟨_, -, h⟩ := bind_eq_ok.mp hadjusted
          cases h
          exact hpos.2
        · cases hadjusted
          exact hpos.1
      dsimp only at hr
      rw [if_pos hsome] at hr
      obtain ⟨_, -, hr⟩ := bind_eq_ok.mp hr
      obtain ⟨_, -, hr⟩ := bind_eq_ok.mp hr
      cases hr
      rfl
  · refine .inr ⟨fun h => hpos ⟨h.2.2.1, h.2.2.2.1⟩, DEX_ERROR_SELLOFFER, ?_⟩
    unfold OfferArgs.adjusted
    split
    · -- nothing is available
      obtain rfl : available = 0 := by omega
      rw [calculateDesiredBTC_zero]
      exact ⟨_, by decide, rfl⟩
    · obtain hzero : args.amountOffered = 0 := by omega
      rw [hzero]
      exact ⟨_, by decide, rfl⟩

/-- **An update that is refused** has lost the offer. -/
theorem dexOfferUpdate_kept_iff (hnonneg : NonNegative s.tally)
    (hfits : tokensOf s.tally args.propertyId ≤ maxInt64)
    (hfound : (s.offers.lookup args.key).isSome) (hoffered : 0 ≤ args.amountOffered) :
    KeptOnError s (dexOfferUpdate dex s args) ↔ args.Acceptable dex
      (s.tally.amount args.addressSeller (args.propertyId, .balance) +
        s.tally.amount args.addressSeller (args.propertyId, .sellofferReserve)) := by
  obtain ⟨tally, hdestroy, hmoved⟩ := @dexOfferDestroy_moved A _ s dex _ _ hnonneg hfits hfound
  have hamount : tally.amount args.addressSeller (args.propertyId, .balance) =
      s.tally.amount args.addressSeller (args.propertyId, .balance) +
        s.tally.amount args.addressSeller (args.propertyId, .sellofferReserve) := by
    rw [hmoved.amount]
    simp
  have hlow := hnonneg args.addressSeller args.propertyId
  have hupdate : dexOfferUpdate dex s args = dexOfferCreate dex
      { s with tally, offers := s.offers.erase args.key } args := by
    unfold dexOfferUpdate
    rw [← Option.not_isSome, hfound, hdestroy]
    rfl
  have hbalance : 0 ≤ tally.amount args.addressSeller (args.propertyId, .balance) :=
    hamount ▸ add_nonneg (hlow .balance nofun) (hlow .sellofferReserve nofun)
  rw [hupdate, ← hamount]
  rcases @dexOfferCreate_cases A _ { s with tally, offers := s.offers.erase args.key } dex args
    (AList.lookup_erase _ _) hbalance hoffered with ⟨hok, hrun⟩ | ⟨hno, rc, nAmended, hrc, hrun⟩
  · exact iff_of_true (fun r hr hne => absurd (hrun r hr) hne) hok
  · refine iff_of_false (fun h => ?_) hno
    have hsame : s.offers.erase args.key = s.offers := congrArg DExState.offers (h _ hrun hrc)
    rw [← hsame, AList.lookup_erase] at hfound
    cases hfound

theorem TradeOffer.decision_eq_update_iff : tx.decision env s = .ok .update ↔ tx.Changes env s := by
  have hdistinct : MP_TX_PKT_V0 ≠ MP_TX_PKT_V1 ∧ UPDATE ≠ NEW ∧ UPDATE ≠ CANCEL := by decide
  unfold TradeOffer.decision TradeOffer.Changes
  generalize (s.offers.lookup tx.args.key).isSome = found
  dsimp only
  split_ifs <;> grind

theorem TradeOffer.decision_ok {action : OfferAction} (h : tx.decision env s = .ok action) :
    0 ≤ tx.args.amountOffered ∧
      ((s.offers.lookup tx.args.key).isSome = true ↔ action ≠ .create) := by
  have hoffered : ¬ maxInt64 < tx.nValue.toNat → 0 ≤ tx.args.amountOffered := by
    intro hle
    show 0 ≤ toInt64 tx.nValue.toNat
    unfold maxInt64 at hle
    unfold toInt64
    split <;> omega
  have hnew : CANCEL ≠ NEW ∧ UPDATE ≠ NEW := by decide
  unfold TradeOffer.decision at h
  generalize (s.offers.lookup tx.args.key).isSome = found at h ⊢
  dsimp only at h
  split_ifs at h
  all_goals cases found <;> cases h <;> simp_all

/-- **A transaction that is refused changes nothing**, unless it is an update whose new offer is
not accepted. -/
theorem logicMathTradeOffer_kept_iff (hnonneg : NonNegative s.tally)
    (hfits : ∀ p, tokensOf s.tally p ≤ maxInt64) (tx : TradeOffer A G) :
    KeptOnError s (logicMathTradeOffer env s tx) ↔
      (tx.Changes env s → tx.args.Acceptable env.toDExEnv
        (s.tally.amount tx.sender (tx.args.propertyId, .balance) +
          s.tally.amount tx.sender (tx.args.propertyId, .sellofferReserve))) := by
  rw [← TradeOffer.decision_eq_update_iff]
  unfold logicMathTradeOffer
  cases haction : tx.decision env s with
  | error rc =>
    refine iff_of_true ?_ nofun
    rintro r ⟨⟩ -
    rfl
  | ok action =>
    obtain ⟨hoffered, hfound⟩ := TradeOffer.decision_ok haction
    cases action with
    | create =>
      refine iff_of_true ?_ nofun
      intro r hr hrc
      rcases dexOfferCreate_cases (Option.not_isSome_iff_eq_none.mp fun h => hfound.mp h rfl)
        (hnonneg _ _ _ nofun) hoffered with
        ⟨-, hrun⟩ | ⟨-, rc, nAmended, -, hrun⟩
      · exact absurd (hrun r hr) hrc
      · cases hrun.symm.trans hr
        rfl
    | update =>
      rw [dexOfferUpdate_kept_iff hnonneg (hfits _) (hfound.mpr nofun) hoffered]
      exact ⟨fun h _ => h, fun h => h rfl⟩
    | destroy =>
      refine iff_of_true ?_ nofun
      intro r hr hrc
      obtain ⟨tally, hdestroy, -⟩ := dexOfferDestroy_moved hnonneg (hfits _) (hfound.mpr nofun)
      dsimp only at hr
      rw [hdestroy] at hr
      cases hr
      exact absurd rfl hrc

/-- Address 1 asks for a window of `blocktimelimit` blocks, for the units it has. -/
def windowChange (blocktimelimit : UInt8) : TradeOffer Nat Unit :=
  { type := 20, nValue := 5000000000000, property := 1, amountDesired := 10, blocktimelimit
    sender := 1, block := 100, txid := 7 }

/-- Sell offers are allowed from block 50 on. -/
def tradeRules : TradeEnv Nat := ⟨⟨fun _ _ => false, fun _ => true⟩, [⟨20, 0, false, 50⟩]⟩

/-- The seller with its units on offer. -/
def oneOffer : DExState Nat :=
  { oneSeller with
    tally := conveyed oneSeller.tally 1 1 1 5000000000000 .balance .sellofferReserve
    offers := AList.insert (1, 1) ⟨90, 5000000000000, 1, 20, 0, 10, 6⟩ ∅ }

/-- A window of five blocks is accepted. -/
theorem windowChange_kept :
    (logicMathTradeOffer tradeRules oneOffer (windowChange 5)).map (·.rc) = .ok 0 ∧
      KeptOnError oneOffer (logicMathTradeOffer tradeRules oneOffer (windowChange 5)) := by
  have hnonneg : NonNegative oneOffer.tally :=
    (convey_spec oneSeller_start.nonNegative (oneSeller_start.fits 1) (by decide) (by decide +kernel)
      (fun _ => (rfl : tradeRules.frozen 1 1 = false)) (by decide) (by decide)).2.2
  have hfits : ∀ p, tokensOf oneOffer.tally p ≤ maxInt64 := fun p =>
    (tokensOf_conveyed (by decide) (by decide) p).trans_le (oneSeller_start.fits p)
  refine ⟨by decide +kernel, (logicMathTradeOffer_kept_iff hnonneg hfits _).mpr fun _ => ?_⟩
  exact ⟨by decide, by decide, by decide +kernel, by decide +kernel, fun _ => by decide +kernel⟩

/-- **A window of no blocks** is refused, and the offer is gone. -/
theorem windowChange_loses_offer :
    (oneOffer.offers.lookup (1, 1)).isSome = true ∧
      (logicMathTradeOffer tradeRules oneOffer (windowChange 0)).map
        (fun r => (r.rc, (r.state.offers.lookup (1, 1)).isSome)) = .ok (-10101, false) := by
  decide +kernel

end Zcoin.Elysium
