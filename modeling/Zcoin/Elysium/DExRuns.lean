/-
  Zcoin.Elysium.DExRuns — what the exchange for coins holds in escrow.

  The accept reserve of a seller is what its buyers still may pay for, and there is a sell offer
  wherever something is reserved for one.  With `FEATURE_DEXMATH` each function keeps that, and
  with it the tokens of every property.
-/
import Zcoin.Elysium.DEx

namespace Zcoin.Elysium

open Lib Lib.Except Lib.AListSum

/-! ## §1. Payments in integers. -/

/-- With `FEATURE_DEXMATH` **what a payment is worth** is not negative. -/
theorem purchase_nonneg {A : Type} {env : DExEnv A} {accept : CMPAccept}
    {amountPaid block worth : Int} (hmath : env.dexMath block = true)
    (hrun : env.purchase accept amountPaid block = .ok worth) : 0 ≤ worth := by
  unfold DExEnv.purchase at hrun
  rw [if_pos hmath] at hrun
  -- the last step converts from an unsigned value
  unfold calculateDExPurchase at hrun
  obtain ⟨_, -, hrun⟩ := bind_eq_ok.mp hrun
  obtain ⟨_, -, hrun⟩ := bind_eq_ok.mp hrun
  obtain ⟨_, -, hrun⟩ := bind_eq_ok.mp hrun
  obtain ⟨_, -, hrun⟩ := bind_eq_ok.mp hrun
  obtain ⟨n, -, hrun⟩ := bind_eq_ok.mp hrun
  obtain ⟨_, -, hrun⟩ := bind_eq_ok.mp hrun
  obtain rfl := Except.ok.inj hrun
  exact Int.natCast_nonneg n

/-! ## §2. What is held in escrow. -/

section Escrow

variable {A : Type} [DecidableEq A]

/-- The part of an accept that counts for a seller and a property. -/
def pledge (a : A) (p : PropertyId) (key : A × PropertyId × A) (accept : CMPAccept) : Int :=
  if key.1 = a ∧ key.2.1 = p then accept.acceptAmountRemaining else 0

/-- The remaining amounts of the accepts on a seller and a property. -/
def DExState.pledged (s : DExState A) (a : A) (p : PropertyId) : Int := sumBy (pledge a p) s.accepts

/-- **The escrow**: the accept reserves are what the accepts are still for, nothing is reserved
for an offer that is not there, and the tokens of every property are as they were. -/
structure DExState.Escrow (supply : PropertyId → Int) (s : DExState A) : Prop where
  acceptReserve : ∀ a p, s.tally.amount a (p, .acceptReserve) = s.pledged a p
  sellReserve : ∀ a p, s.offers.lookup (a, p) = none → s.tally.amount a (p, .sellofferReserve) = 0
  conserved : ∀ p, tokensOf s.tally p = supply p

/-- The escrow, and what keeps it. -/
structure DExState.Sound (supply : PropertyId → Int) (s : DExState A) : Prop
    extends s.Escrow supply where
  nonNegative : NonNegative s.tally
  fits : ∀ p, supply p ≤ maxInt64
  accepted : ∀ k accept, s.accepts.lookup k = some accept → 0 < accept.acceptAmountRemaining

variable {supply : PropertyId → Int} {s : DExState A} {env : DExEnv A}

theorem DExState.Sound.tokensOf_le (h : s.Sound supply) (p : PropertyId) :
    tokensOf s.tally p ≤ maxInt64 := by
  rw [h.conserved]
  exact h.fits p

variable {a b buyer seller : A} {accept : CMPAccept} {p : PropertyId}

theorem DExState.Sound.remaining_le (h : s.Sound supply)
    (haccept : s.accepts.lookup (a, p, b) = some accept) :
    accept.acceptAmountRemaining ≤ s.tally.amount a (p, .acceptReserve) := by
  have hrest : 0 ≤ sumBy (pledge a p) (s.accepts.erase (a, p, b)) := by
    apply sumBy_nonneg
    intro k other hother
    have hpos := h.accepted k other (lookup_of_lookup_erase hother)
    unfold pledge
    split <;> omega
  have hapart := sumBy_eq_of_lookup (pledge a p) haccept
  have hown : pledge a p (a, p, b) accept = accept.acceptAmountRemaining := if_pos ⟨rfl, rfl⟩
  rw [h.acceptReserve, DExState.pledged]
  omega

/-- Tokens moved from one address and type to another. -/
structure Moved (tally tally' : TallyMap A) (sender receiver : A) (p : PropertyId) (r : Int)
    (source target : TallyType) : Prop where
  nonNegative : NonNegative tally'
  tokens : ∀ q, tokensOf tally' q = tokensOf tally q
  amount : ∀ a q t, tally'.amount a (q, t) = tally.amount a (q, t) -
    (if a = sender ∧ q = p ∧ t = source then r else 0) +
    if a = receiver ∧ q = p ∧ t = target then r else 0

section Moves

variable {tally : TallyMap A} (hnonneg : NonNegative tally) (hmax : tokensOf tally p ≤ maxInt64)
  (frozen : A → PropertyId → Bool) {sender receiver : A} {r : Int} {source target : TallyType}
  (hle : r ≤ tally.amount sender (p, source))
  (hthawed : source = .balance → frozen sender p = false) (hsource : source ≠ .pending)
  (htarget : target ≠ .pending)
include hnonneg hmax hle hthawed hsource htarget

theorem convey_moved (hr : 0 < r) :
    ∃ tally', (assertUpdate frozen tally sender p (-r) source >>= fun tally =>
        assertUpdate frozen tally receiver p r target) = .ok tally' ∧
      Moved tally tally' sender receiver p r source target := by
  obtain ⟨hdebit, hcredit, hmoved⟩ := @convey_spec A _ frozen tally sender receiver p r source
    target hnonneg hmax hr hle hthawed hsource htarget
  rw [hdebit, ok_bind, hcredit]
  exact ⟨_, rfl, hmoved, tokensOf_conveyed hsource htarget, amount_conveyed⟩

theorem transfer_moved (hr : 0 ≤ r) :
    ∃ tally', (if 0 < r then assertUpdate frozen tally sender p (-r) source >>= fun tally =>
          assertUpdate frozen tally receiver p r target
        else pure tally) = .ok tally' ∧
      Moved tally tally' sender receiver p r source target := by
  split
  · next hpos => exact convey_moved hnonneg hmax frozen hle hthawed hsource htarget hpos
  · next hpos =>
    obtain rfl : r = 0 := by omega
    exact ⟨_, rfl, hnonneg, fun _ => rfl, by simp⟩

end Moves

/-- The state after tokens moved, and the offers and accepts were changed accordingly. -/
theorem DExState.Sound.moved (h : s.Sound supply) {sender receiver : A} {r : Int}
    {source target : TallyType} {s' : DExState A}
    (hmoved : Moved s.tally s'.tally sender receiver p r source target)
    (hpledged : ∀ a q, s'.pledged a q = s.pledged a q -
      (if a = sender ∧ q = p ∧ source = .acceptReserve then r else 0) +
      if a = receiver ∧ q = p ∧ target = .acceptReserve then r else 0)
    (hsell : ∀ a q, s'.offers.lookup (a, q) = none → s'.tally.amount a (q, .sellofferReserve) = 0)
    (haccepted : ∀ k accept, s'.accepts.lookup k = some accept → 0 < accept.acceptAmountRemaining) :
    s'.Sound supply where
  acceptReserve := by
    intro a q
    rw [hmoved.amount, h.acceptReserve, hpledged]
    simp only [eq_comm]
  sellReserve := hsell
  conserved := by
    intro q
    rw [hmoved.tokens]
    exact h.conserved q
  nonNegative := hmoved.nonNegative
  fits := h.fits
  accepted := haccepted

variable {accepts : AList fun _ : A × PropertyId × A => CMPAccept}

theorem pledged_erase (haccept : accepts.lookup (a, p, b) = some accept) (x : A) (q : PropertyId) :
    sumBy (pledge x q) (accepts.erase (a, p, b)) = sumBy (pledge x q) accepts -
      if x = a ∧ q = p then accept.acceptAmountRemaining else 0 := by
  have hapart := sumBy_eq_of_lookup (pledge x q) haccept
  have hown : pledge x q (a, p, b) accept =
      if x = a ∧ q = p then accept.acceptAmountRemaining else 0 := by
    unfold pledge
    simp only [eq_comm]
  omega

/-! ## §3. Sell offers. -/

variable (h : s.Sound supply)
include h

/-- **A new offer** reserves what it is for. -/
theorem dexOfferCreate_spec {args : OfferArgs A}
    (hthawed : env.frozen args.addressSeller args.propertyId = false)
    (hmath : env.dexMath args.block = true) :
    ∃ ret, dexOfferCreate env s args = .ok ret ∧ ret.state.Sound supply := by
  have hbalance : getMPbalance s.tally args.addressSeller args.propertyId .balance =
      s.tally.amount args.addressSeller (args.propertyId, .balance) := if_neg (by simp)
  unfold dexOfferCreate
  split
  · exact ⟨_, rfl, h⟩
  · split
    · exact ⟨_, rfl, h⟩
    · split
      · exact ⟨_, rfl, h⟩
      · next hnew =>
        dsimp only
        rw [hbalance]
        split
        · exact ⟨_, rfl, h⟩
        · next hnot =>
          have hle : args.amountOffered ≤
              s.tally.amount args.addressSeller (args.propertyId, .balance) := by
            rw [hmath, Bool.true_and, decide_eq_true_iff] at hnot
            omega
          unfold OfferArgs.adjusted
          rw [if_neg (by omega), ok_bind]
          dsimp only
          split
          · next hpos =>
            obtain ⟨tally, hrun, hmoved⟩ := @convey_moved A _ _ _ h.nonNegative (h.tokensOf_le _)
              env.frozen _ args.addressSeller _ _ .sellofferReserve hle (fun _ => hthawed) nofun
              nofun hpos
            rw [← bind_assoc, hrun, ok_bind]
            refine ⟨_, rfl, h.moved hmoved ?_ ?_ h.accepted⟩
            · intro a q
              simp [DExState.pledged]
            · -- only the seller of the new offer has more in its reserve
              intro a q hnone
              have hother : (a, q) ≠ args.key := by
                rintro heq
                rw [heq, AList.lookup_insert] at hnone
                cases hnone
              rw [AList.lookup_insert_ne hother] at hnone
              rw [hmoved.amount, h.sellReserve a q hnone, if_neg nofun, if_neg]
              · rfl
              · rintro ⟨rfl, rfl, -⟩
                exact hother rfl
          · exact ⟨_, rfl, h⟩

omit h in
/-- **An offer that is taken back** gives its reserve back. -/
theorem dexOfferDestroy_moved (hnonneg : NonNegative s.tally) (hmax : tokensOf s.tally p ≤ maxInt64)
    (hfound : (s.offers.lookup (a, p)).isSome) :
    ∃ tally, dexOfferDestroy env s a p =
        .ok (0, { s with tally, offers := s.offers.erase (a, p) }) ∧
      Moved s.tally tally a a p (s.tally.amount a (p, .sellofferReserve)) .sellofferReserve
        .balance := by
  have hreserve : getMPbalance s.tally a p .sellofferReserve =
      s.tally.amount a (p, .sellofferReserve) := if_neg (by simp)
  obtain ⟨tally, hrun, hmoved⟩ := @transfer_moved A _ _ _ hnonneg hmax env.frozen _ a _
    .sellofferReserve .balance le_rfl nofun nofun nofun (hnonneg a p .sellofferReserve nofun)
  unfold dexOfferDestroy
  rw [← Option.not_isSome, hfound, if_neg nofun, hreserve]
  dsimp only
  rw [hrun]
  exact ⟨tally, rfl, hmoved⟩

theorem dexOfferDestroy_spec (addressSeller : A) (propertyId : PropertyId) :
    ∃ rc s', dexOfferDestroy env s addressSeller propertyId = .ok (rc, s') ∧ s'.Sound supply := by
  by_cases hfound : (s.offers.lookup (addressSeller, propertyId)).isSome
  · obtain ⟨tally, hrun, hmoved⟩ :=
      dexOfferDestroy_moved h.nonNegative (h.tokensOf_le _) hfound
    refine ⟨_, _, hrun, h.moved hmoved ?_ ?_ h.accepted⟩
    · intro a q
      simp [DExState.pledged]
    · intro a q hnone
      rw [hmoved.amount]
      by_cases hsame : (a, q) = (addressSeller, propertyId)
      · obtain ⟨rfl, rfl⟩ := Prod.mk.inj hsame
        simp
      · rw [AList.lookup_erase_ne hsame] at hnone
        rw [h.sellReserve a q hnone, if_neg fun hc => hsame (Prod.ext hc.1 hc.2.1),
          if_neg (by simp)]
        rfl
  · unfold dexOfferDestroy
    rw [if_pos (Option.isNone_iff_eq_none.mpr (Option.not_isSome_iff_eq_none.mp hfound))]
    exact ⟨_, _, rfl, h⟩

theorem dexOfferUpdate_spec {args : OfferArgs A}
    (hthawed : env.frozen args.addressSeller args.propertyId = false)
    (hmath : env.dexMath args.block = true) :
    ∃ ret, dexOfferUpdate env s args = .ok ret ∧ ret.state.Sound supply := by
  unfold dexOfferUpdate
  split
  · exact ⟨_, rfl, h⟩
  · obtain ⟨rc, s₁, hdestroy, hs₁⟩ :=
      @dexOfferDestroy_spec A _ supply s env h args.addressSeller args.propertyId
    rw [hdestroy, ok_bind]
    dsimp only
    split
    · exact dexOfferCreate_spec hs₁ hthawed hmath
    · exact ⟨_, rfl, hs₁⟩

/-! ## §4. Accepts. -/

/-- **A new accept** moves its amount from one reserve of the seller to the other. -/
theorem dexAcceptCreate_spec (addressBuyer addressSeller : A)
    (propertyId : PropertyId) (amountAccepted block feePaid : Int) :
    ∃ ret, dexAcceptCreate env s addressBuyer addressSeller propertyId amountAccepted block
      feePaid = .ok ret ∧ ret.state.Sound supply := by
  have hreserve : getMPbalance s.tally addressSeller propertyId .sellofferReserve =
      s.tally.amount addressSeller (propertyId, .sellofferReserve) := if_neg (by simp)
  unfold dexAcceptCreate
  cases hoffer : s.offers.lookup (addressSeller, propertyId) with
  | none => exact ⟨_, rfl, h⟩
  | some offer =>
    dsimp only
    split
    · exact ⟨_, rfl, h⟩
    · next hnew =>
      have hnone : s.accepts.lookup (addressSeller, propertyId, addressBuyer) = none :=
        Option.not_isSome_iff_eq_none.mp hnew
      split
      · exact ⟨_, rfl, h⟩
      · rw [hreserve]
        generalize hamount : min amountAccepted
          (s.tally.amount addressSeller (propertyId, .sellofferReserve)) = amountReserved
        split
        · next hpos =>
          obtain ⟨tally, hrun, hmoved⟩ := @convey_moved A _ _ _ h.nonNegative (h.tokensOf_le _)
            env.frozen _ addressSeller _ .sellofferReserve .acceptReserve
            (hamount ▸ min_le_right _ _) nofun nofun nofun hpos
          rw [← bind_assoc, hrun, ok_bind]
          refine ⟨_, rfl, h.moved hmoved ?_ ?_ ?_⟩
          · intro a q
            show sumBy (pledge a q) (s.accepts.insert _ _) = sumBy (pledge a q) s.accepts - _ + _
            rw [sumBy_insert, erase_of_lookup_eq_none hnone]
            unfold pledge
            simp [eq_comm, add_comm]
          · -- the offer is there
            intro a q hgone
            have hother : ¬ (a = addressSeller ∧ q = propertyId) := by
              rintro ⟨rfl, rfl⟩
              rw [hoffer] at hgone
              cases hgone
            rw [hmoved.amount, h.sellReserve a q hgone,
              if_neg (fun hc => hother ⟨hc.1, hc.2.1⟩), if_neg (by simp)]
            rfl
          · intro k accept haccept
            rcases lookup_insert_cases haccept with ⟨-, rfl⟩ | hold
            · exact hpos
            · exact h.accepted k accept hold
        · exact ⟨_, rfl, h⟩

omit h

theorem DExState.returnTo_ne_pending (s : DExState A) (addressSeller : A) (propertyId : PropertyId)
    (accept : CMPAccept) : s.returnTo addressSeller propertyId accept ≠ .pending ∧
      s.returnTo addressSeller propertyId accept ≠ .acceptReserve := by
  unfold DExState.returnTo
  split
  · exact ⟨by decide, by decide⟩
  · split <;> exact ⟨by decide, by decide⟩

variable (h : s.Sound supply)
include h

/-- **An accept that ends** gives back what remains of it: its reserve goes where the offer it was
made on is, or to the balance. -/
theorem dexAcceptDestroy_spec (addressBuyer addressSeller : A) (propertyid : PropertyId) :
    ∃ rc tally, dexAcceptDestroy env s addressBuyer addressSeller propertyid false =
        .ok (rc, { s with tally }) ∧
      DExState.Sound supply { s with
        tally, accepts := s.accepts.erase (addressSeller, propertyid, addressBuyer) } := by
  unfold dexAcceptDestroy
  cases haccept : s.accepts.lookup (addressSeller, propertyid, addressBuyer) with
  | none =>
    refine ⟨_, s.tally, rfl, ?_⟩
    rw [erase_of_lookup_eq_none haccept]
    exact h
  | some accept =>
    have hpos := h.accepted _ accept haccept
    obtain ⟨hpending, hreserve⟩ := s.returnTo_ne_pending addressSeller propertyid accept
    obtain ⟨tally, hrun, hmoved⟩ := @transfer_moved A _ _ _ h.nonNegative (h.tokensOf_le _)
      env.frozen _ addressSeller _ .acceptReserve _ (h.remaining_le haccept) nofun nofun hpending
      hpos.le
    dsimp only
    rw [hrun, ok_bind]
    refine ⟨_, _, rfl, h.moved hmoved ?_ ?_ ?_⟩
    · intro a q
      show sumBy (pledge a q) (s.accepts.erase _) = sumBy (pledge a q) s.accepts - _ + _
      rw [pledged_erase haccept]
      simp [hreserve]
    · intro a q hgone
      rw [hmoved.amount, h.sellReserve a q hgone, if_neg (by simp), if_neg]
      · rfl
      · -- nothing returns to the reserve of an offer that is gone
        rintro ⟨rfl, rfl, hsell⟩
        unfold DExState.returnTo at hsell
        rw [show s.offers.lookup (a, q) = none from hgone] at hsell
        cases hsell
    · intro k other hother
      exact h.accepted k other (lookup_of_lookup_erase hother)

/-- With `fForceErase` the accept is erased as well. -/
theorem dexAcceptDestroy_force (addressBuyer addressSeller : A) (propertyid : PropertyId) :
    ∃ rc s', dexAcceptDestroy env s addressBuyer addressSeller propertyid true = .ok (rc, s') ∧
      s'.Sound supply := by
  obtain ⟨rc, tally, hrun, hsound⟩ :=
    @dexAcceptDestroy_spec A _ supply s env h addressBuyer addressSeller propertyid
  unfold dexAcceptDestroy at hrun ⊢
  cases haccept : s.accepts.lookup (addressSeller, propertyid, addressBuyer) with
  | none => exact ⟨_, s, rfl, h⟩
  | some accept =>
    rw [haccept] at hrun
    obtain ⟨tally', htally, hrun⟩ := bind_eq_ok.mp hrun
    obtain ⟨-, hstate⟩ := Prod.mk.inj (Except.ok.inj hrun)
    obtain rfl : tally' = tally := congrArg DExState.tally hstate
    exact ⟨0, _, bind_eq_ok.mpr ⟨_, htally, rfl⟩, hsound⟩

/-- **The accepts whose time is over** are given back one after the other. -/
theorem eraseExpiredAccepts_spec (blockNow : Int) :
    ∃ n s', eraseExpiredAccepts env s blockNow = .ok (n, s') ∧ s'.Sound supply := by
  have hloop : Ensures (fun _ => False) (fun state : Nat × DExState A => state.2.Sound supply)
      (eraseExpiredAccepts env s blockNow) := by
    refine Ensures.foldlM _ ?_ h
    intro entry _ state hstate
    obtain ⟨n, s₁⟩ := state
    obtain ⟨⟨addressSeller, propertyId, addressBuyer⟩, accept⟩ := entry
    unfold eraseExpired
    dsimp only
    split
    · obtain ⟨rc, tally, hrun, hsound⟩ :=
        @dexAcceptDestroy_spec A _ supply s₁ env hstate addressBuyer addressSeller propertyId
      rw [hrun]
      exact hsound
    · exact hstate
  obtain ⟨⟨n, s'⟩, hrun, hsound⟩ := hloop.exists_ok
  exact ⟨n, s', hrun, hsound⟩

omit h

/-! ## §5. Payments. -/

theorem DExState.lookup_of_acceptOfPayment (h : s.acceptOfPayment seller buyer = some (p, accept)) :
    s.accepts.lookup (seller, p, buyer) = some accept := by
  unfold DExState.acceptOfPayment at h
  split at h
  · next hfirst =>
    cases h
    exact hfirst
  · obtain ⟨other, hsecond, heq⟩ := Option.map_eq_some_iff.mp h
    cases heq
    exact hsecond

/-- The accept that was paid for in full is taken out, with the offer when it is sold. -/
theorem closePaid_spec (haccept : s.accepts.lookup (seller, p, buyer) = some accept)
    (hpaid : accept.acceptAmountRemaining = 0)
    (h : DExState.Sound supply { s with accepts := s.accepts.erase (seller, p, buyer) }) :
    ∃ s', closePaid env s seller buyer p = .ok s' ∧ s'.Sound supply := by
  have hdestroy : dexAcceptDestroy env s buyer seller p true =
      .ok (0, { s with accepts := s.accepts.erase (seller, p, buyer) }) := by
    unfold dexAcceptDestroy
    rw [haccept]
    dsimp only
    rw [if_neg (by omega)]
    rfl
  unfold closePaid
  rw [hdestroy, ok_bind]
  dsimp only
  split
  · obtain ⟨rc, s', hrun, hsound⟩ := @dexOfferDestroy_spec A _ supply _ env h seller p
    rw [hrun]
    exact ⟨s', rfl, hsound⟩
  · exact ⟨_, rfl, h⟩

theorem pledged_reduced
    (haccept : accepts.lookup (a, p, b) = some accept) (r : Int) (x : A) (q : PropertyId) :
    sumBy (pledge x q) (accepts.insert (a, p, b)
        { accept with acceptAmountRemaining := accept.acceptAmountRemaining - r }) =
      sumBy (pledge x q) accepts - if x = a ∧ q = p then r else 0 := by
  rw [sumBy_insert, pledged_erase haccept]
  unfold pledge
  simp only [eq_comm]
  split <;> omega

/-- **The amount purchased** leaves the reserve and the accept together. -/
theorem settlePayment_spec (h : s.Sound supply) (txid : Uint256) (vout : Nat) (block : Int)
    (haccept : s.accepts.lookup (seller, p, buyer) = some accept) {r : Int} (hlow : 0 ≤ r)
    (hhigh : r ≤ accept.acceptAmountRemaining) :
    ∃ rc s', settlePayment env s txid vout seller buyer block p accept r = .ok (rc, s') ∧
      s'.Sound supply := by
  have hremaining := h.accepted _ accept haccept
  have hmax : accept.acceptAmountRemaining ≤ maxInt64 :=
    calc accept.acceptAmountRemaining ≤ s.tally.amount seller (p, .acceptReserve) :=
          h.remaining_le haccept
      _ ≤ tokensOf s.tally p := amount_le_tokensOf h.nonNegative (by decide) seller p
      _ ≤ maxInt64 := h.tokensOf_le p
  have hreduce : accept.reduceAcceptAmountRemainingAndIsZero r =
      .ok (decide (accept.acceptAmountRemaining ≤ r),
        { accept with acceptAmountRemaining := accept.acceptAmountRemaining - r }) := by
    unfold CMPAccept.reduceAcceptAmountRemainingAndIsZero
    rw [fit64_of_range (by omega) (by omega)]
    rfl
  -- the payment moves what it is worth out of the reserve
  have hfirst : ∃ rc tally payments, (if 0 < r then do
        let tally ← assertUpdate env.frozen s.tally seller p (-r) .acceptReserve
        let tally ← assertUpdate env.frozen tally buyer p r .balance
        return (0, tally,
          s.payments ++ [(⟨txid, block, vout, p, r, buyer, seller⟩ : PaymentRecord A)])
      else pure (DEX_ERROR_PAYMENT, s.tally, s.payments)) = .ok (rc, tally, payments) ∧
      Moved s.tally tally seller buyer p r .acceptReserve .balance := by
    obtain ⟨tally, hrun, hmoved⟩ := @transfer_moved A _ _ _ h.nonNegative (h.tokensOf_le _)
      env.frozen _ buyer _ .acceptReserve .balance (hhigh.trans (h.remaining_le haccept)) nofun
      nofun nofun hlow
    split
    · next hpos =>
      rw [if_pos hpos] at hrun
      rw [← bind_assoc, hrun]
      exact ⟨_, _, _, rfl, hmoved⟩
    · next hpos =>
      rw [if_neg hpos] at hrun
      cases hrun
      exact ⟨_, _, _, rfl, hmoved⟩
  obtain ⟨rc, tally, payments, hrun, hmoved⟩ := hfirst
  have hsell : ∀ a q, s.offers.lookup (a, q) = none →
      tally.amount a (q, .sellofferReserve) = 0 := by
    intro a q hgone
    rw [hmoved.amount, h.sellReserve a q hgone]
    simp
  unfold settlePayment
  dsimp only
  rw [hrun, ok_bind]
  dsimp only
  rw [hreduce, ok_bind]
  dsimp only
  by_cases hall : accept.acceptAmountRemaining ≤ r
  · -- everything is paid for: the accept goes
    rw [decide_eq_true hall, if_pos rfl]
    let paid : DExState A :=
      { s with
        tally, payments
        accepts := s.accepts.insert (seller, p, buyer)
          { accept with acceptAmountRemaining := accept.acceptAmountRemaining - r } }
    have hlookup : paid.accepts.lookup (seller, p, buyer) = some _ := AList.lookup_insert _
    have hclosed : DExState.Sound supply
        { paid with accepts := paid.accepts.erase (seller, p, buyer) } := by
      refine h.moved hmoved ?_ hsell ?_
      · intro a q
        show sumBy (pledge a q) ((s.accepts.insert _ _).erase _) = sumBy (pledge a q) s.accepts -
          _ + _
        rw [erase_insert, pledged_erase haccept, show accept.acceptAmountRemaining = r by omega]
        simp
      · intro k other hother
        rw [show paid.accepts.erase (seller, p, buyer) = s.accepts.erase (seller, p, buyer) from
          erase_insert _ _ _] at hother
        exact h.accepted k other (lookup_of_lookup_erase hother)
    obtain ⟨s', hrun, hsound⟩ := @closePaid_spec A _ supply paid env buyer seller _ p hlookup
      (show accept.acceptAmountRemaining - r = 0 by omega) hclosed
    exact ⟨rc, s', bind_eq_ok.mpr ⟨s', hrun, rfl⟩, hsound⟩
  · rw [decide_eq_false hall, if_neg Bool.false_ne_true]
    refine ⟨_, _, rfl, h.moved hmoved ?_ hsell ?_⟩
    · intro a q
      show sumBy (pledge a q) (s.accepts.insert _ _) = sumBy (pledge a q) s.accepts - _ + _
      rw [pledged_reduced haccept]
      simp
    · intro k other hother
      rcases lookup_insert_cases hother with ⟨-, rfl⟩ | hold
      · show 0 < accept.acceptAmountRemaining - r
        omega
      · exact h.accepted k other hold

/-- **A payment** moves what it is worth from the accept reserve of the seller to the buyer; it
stops only where the calculation does. -/
theorem dexPayment_spec (h : s.Sound supply) (txid : Uint256) (vout : Nat) (seller buyer : A)
    (amountPaid : Int) {block : Int} (hmath : env.dexMath block = true) :
    (∃ ret, dexPayment env s txid vout seller buyer amountPaid block = .ok ret ∧
        ret.state.Sound supply) ∨
      ∃ p accept e, s.acceptOfPayment seller buyer = some (p, accept) ∧
        env.purchase accept amountPaid block = .error e := by
  unfold dexPayment
  cases hfound : s.acceptOfPayment seller buyer with
  | none => exact .inl ⟨_, rfl, h⟩
  | some found =>
    obtain ⟨p, accept⟩ := found
    have haccept := DExState.lookup_of_acceptOfPayment hfound
    have hremaining := h.accepted _ accept haccept
    cases hworth : env.purchase accept amountPaid block with
    | error e => exact .inr ⟨p, accept, e, rfl, hworth⟩
    | ok worth =>
      have hnonneg := purchase_nonneg hmath hworth
      left
      dsimp only
      split
      · exact ⟨_, rfl, h⟩
      · rw [hworth, ok_bind]
        generalize hpurchased : (if accept.acceptAmountRemaining < worth then
          accept.acceptAmountRemaining else worth) = amountPurchased
        have hrange : 0 ≤ amountPurchased ∧
            amountPurchased ≤ accept.acceptAmountRemaining := by omega
        obtain ⟨rc, s', hrun, hsound⟩ :=
          @settlePayment_spec A _ supply s env buyer seller accept p h txid vout block haccept
            _ hrange.1 hrange.2
        rw [hrun]
        exact ⟨_, rfl, hsound⟩

end Escrow

/-! ## §6. Runs. -/

section Runs

variable {A : Type} [DecidableEq A]

/-- A call of one of the functions. -/
inductive DExOp (A : Type) where
  | offerCreate (args : OfferArgs A)
  | offerUpdate (args : OfferArgs A)
  | offerDestroy (addressSeller : A) (propertyId : PropertyId)
  | acceptCreate (addressBuyer addressSeller : A) (propertyId : PropertyId)
      (amountAccepted block feePaid : Int)
  | acceptDestroy (addressBuyer addressSeller : A) (propertyId : PropertyId) (fForceErase : Bool)
  | payment (txid : Uint256) (vout : Nat) (addressSeller addressBuyer : A)
      (amountPaid block : Int)
  | eraseExpired (blockNow : Int)

variable (env : DExEnv A)

/-- The state a call leaves. -/
def DExOp.run (s : DExState A) : DExOp A → Except Abort (DExState A)
  | .offerCreate args => (dexOfferCreate env s args).map DExReturn.state
  | .offerUpdate args => (dexOfferUpdate env s args).map DExReturn.state
  | .offerDestroy seller p => (dexOfferDestroy env s seller p).map Prod.snd
  | .acceptCreate buyer seller p amountAccepted block feePaid =>
    (dexAcceptCreate env s buyer seller p amountAccepted block feePaid).map DExReturn.state
  | .acceptDestroy buyer seller p fForceErase =>
    (dexAcceptDestroy env s buyer seller p fForceErase).map Prod.snd
  | .payment txid vout seller buyer amountPaid block =>
    (dexPayment env s txid vout seller buyer amountPaid block).map DExReturn.state
  | .eraseExpired blockNow => (eraseExpiredAccepts env s blockNow).map Prod.snd

/-- A run; what the functions read beside the state may change from call to call. -/
def runDEx : DExState A → List (DExEnv A × DExOp A) → Except Abort (DExState A)
  | s, [] => .ok s
  | s, (env, op) :: calls => do
    let s ← op.run env s
    runDEx s calls

/-- **What is asked of a call**: `FEATURE_DEXMATH` is active, an offer is not made from a frozen
balance, and an accept is destroyed by a caller that has it erased. -/
def DExOp.Admissible : DExOp A → Prop
  | .offerCreate args | .offerUpdate args =>
    env.frozen args.addressSeller args.propertyId = false ∧ env.dexMath args.block = true
  | .acceptDestroy _ _ _ fForceErase => fForceErase = true
  | .payment _ _ _ _ _ block => env.dexMath block = true
  | _ => True

/-- The conversions of `calculateDExPurchase` stop the payment. -/
def DExOp.Unpayable (s : DExState A) : DExOp A → Prop
  | .payment _ _ seller buyer amountPaid block =>
    ∃ p accept e, s.acceptOfPayment seller buyer = some (p, accept) ∧
      env.purchase accept amountPaid block = .error e
  | _ => False

variable {supply : PropertyId → Int} {s : DExState A}

theorem DExOp.run_spec (env : DExEnv A) (op : DExOp A) (h : s.Sound supply)
    (hadmissible : op.Admissible env) :
    (∃ s', op.run env s = .ok s' ∧ s'.Sound supply) ∨ op.Unpayable env s := by
  -- the functions return the state with other values
  have hret : ∀ {x : Except Abort (DExReturn A)}, (∃ ret, x = .ok ret ∧ ret.state.Sound supply) →
      ∃ s', x.map DExReturn.state = .ok s' ∧ s'.Sound supply := by
    rintro x ⟨ret, rfl, hsound⟩
    exact ⟨_, rfl, hsound⟩
  have hpair : ∀ {R : Type} {x : Except Abort (R × DExState A)},
      (∃ rc s', x = .ok (rc, s') ∧ s'.Sound supply) →
      ∃ s', x.map Prod.snd = .ok s' ∧ s'.Sound supply := by
    rintro R x ⟨rc, s', rfl, hsound⟩
    exact ⟨_, rfl, hsound⟩
  cases op with
  | offerCreate args =>
    exact .inl (hret (dexOfferCreate_spec h hadmissible.1 hadmissible.2))
  | offerUpdate args =>
    exact .inl (hret (dexOfferUpdate_spec h hadmissible.1 hadmissible.2))
  | offerDestroy seller p => exact .inl (hpair (dexOfferDestroy_spec h seller p))
  | acceptCreate buyer seller p amountAccepted block feePaid =>
    exact .inl (hret (dexAcceptCreate_spec h buyer seller p amountAccepted block feePaid))
  | acceptDestroy buyer seller p fForceErase =>
    obtain rfl : fForceErase = true := hadmissible
    exact .inl (hpair (dexAcceptDestroy_force h buyer seller p))
  | payment txid vout seller buyer amountPaid block =>
    rcases dexPayment_spec h txid vout seller buyer amountPaid hadmissible with hok | hfails
    · exact .inl (hret hok)
    · exact .inr hfails
  | eraseExpired blockNow => exact .inl (hpair (eraseExpiredAccepts_spec h blockNow))

/-- A state before the first offer. -/
structure DExState.Start (s : DExState A) : Prop where
  noOffers : s.offers = ∅
  noAccepts : s.accepts = ∅
  nonNegative : NonNegative s.tally
  noReserves : ∀ a p, s.tally.amount a (p, .sellofferReserve) = 0 ∧
    s.tally.amount a (p, .acceptReserve) = 0
  fits : ∀ p, tokensOf s.tally p ≤ maxInt64

theorem DExState.Start.sound (h : s.Start) : s.Sound (tokensOf s.tally) where
  acceptReserve := by
    intro a p
    rw [(h.noReserves a p).2, DExState.pledged, h.noAccepts]
    rfl
  sellReserve := fun a p _ => (h.noReserves a p).1
  conserved := fun _ => rfl
  nonNegative := h.nonNegative
  fits := h.fits
  accepted := by
    intro k accept haccept
    rw [h.noAccepts, AList.lookup_empty] at haccept
    cases haccept

/-- **The exchange for coins keeps its escrow**: in every run of admissible calls no asserted
update of the tally fails, and each state reached has every accept covered by the reserve of its
seller, no reserve without an offer, and the tokens of every property as they were.  A run ends
before its last call only where `calculateDExPurchase` refuses the amounts. -/
theorem dex_run {start : DExState A} (hstart : start.Start) (calls : List (DExEnv A × DExOp A))
    (hadmissible : ∀ call ∈ calls, call.2.Admissible call.1) :
    ∃ s, s.Escrow (tokensOf start.tally) ∧
      (runDEx start calls = .ok s ∨
        ∃ done env op rest, calls = done ++ (env, op) :: rest ∧ runDEx start done = .ok s ∧
          op.Unpayable env s) := by
  have hs := hstart.sound
  clear hstart
  -- the supply stays that of the first state
  generalize tokensOf start.tally = supply at hs ⊢
  induction calls generalizing start with
  | nil => exact ⟨start, hs.toEscrow, .inl rfl⟩
  | cons call calls ih =>
    obtain ⟨env, op⟩ := call
    rcases DExOp.run_spec env op hs (hadmissible (env, op) List.mem_cons_self) with
      ⟨s₁, hrun, hs₁⟩ | hstop
    · obtain ⟨s', hescrow, hend⟩ :=
        ih (fun call hcall => hadmissible call (List.mem_cons_of_mem _ hcall)) hs₁
      refine ⟨s', hescrow, ?_⟩
      rcases hend with hok | ⟨done, env', op', rest, hcalls, hdone, hstop⟩
      · exact .inl (bind_eq_ok.mpr ⟨s₁, hrun, hok⟩)
      · refine .inr ⟨(env, op) :: done, env', op', rest, ?_, ?_, hstop⟩
        · rw [hcalls]
          rfl
        · exact bind_eq_ok.mpr ⟨s₁, hrun, hdone⟩
    · exact ⟨start, hs.toEscrow, .inr ⟨[], env, op, calls, rfl, rfl, hstop⟩⟩

end Runs

/-! ## §7. A seller. -/

/-- Address 1 holds five trillion units of ELYSIUM. -/
def oneSeller : DExState Nat where
  tally := Ledger.empty.add 1 (ELYSIUM_PROPERTY_ELYSIUM, .balance) 5000000000000
  offers := ∅
  accepts := ∅
  payments := []

theorem oneSeller_start : oneSeller.Start where
  noOffers := rfl
  noAccepts := rfl
  nonNegative := by
    apply NonNegative.add
    · intro a p t _
      exact le_rfl
    · decide
  noReserves := by
    intro a p
    show (Ledger.empty.add 1 _ _).amount a _ = 0 ∧ (Ledger.empty.add 1 _ _).amount a _ = 0
    simp [Ledger.amount_add, Ledger.empty]
  fits := by
    intro p
    show tokensOf (Ledger.empty.add 1 _ _) p ≤ _
    rw [tokensOf_add (by decide), show tokensOf (Ledger.empty : TallyMap Nat) p = 0 from rfl]
    unfold maxInt64
    split <;> omega

/-- It offers everything, address 2 accepts a thousand units, and pays. -/
def oneSale (dexMath : Bool) (amountDesired amountPaid : Int) : List (DExEnv Nat × DExOp Nat) :=
  let env : DExEnv Nat := { frozen := fun _ _ => false, dexMath := fun _ => dexMath }
  let args : OfferArgs Nat :=
    { addressSeller := 1, propertyId := ELYSIUM_PROPERTY_ELYSIUM, amountOffered := 5000000000000
      block := 100, amountDesired, minAcceptFee := 0, paymentWindow := 10, txid := 7 }
  [(env, .offerCreate args), (env, .acceptCreate 2 1 ELYSIUM_PROPERTY_ELYSIUM 1000 101 0),
    (env, .payment 8 0 1 2 amountPaid 102)]

/-- A sale in integers: the buyer pays for 500 units. -/
theorem dex_run_sale :
    (runDEx oneSeller (oneSale true 10000000000 1)).map (fun s =>
        (s.tally.amount 2 (ELYSIUM_PROPERTY_ELYSIUM, .balance),
          s.pledged 1 ELYSIUM_PROPERTY_ELYSIUM)) = .ok (500, 500) ∧
      ∃ s, s.Escrow (tokensOf oneSeller.tally) ∧
        (runDEx oneSeller (oneSale true 10000000000 1) = .ok s ∨
          ∃ done env op rest, oneSale true 10000000000 1 = done ++ (env, op) :: rest ∧
            runDEx oneSeller done = .ok s ∧ op.Unpayable env s) := by
  refine ⟨by decide +kernel, dex_run oneSeller_start _ ?_⟩
  intro call hcall
  simp only [oneSale, List.mem_cons, List.not_mem_nil, or_false] at hcall
  rcases hcall with rfl | rfl | rfl
  · exact ⟨rfl, rfl⟩
  · trivial
  · rfl

/-- **A payment that is worth a negative amount**: without `FEATURE_DEXMATH` the worth of two
million, at a price of one for five trillion units, wraps around.  The accept grows far beyond
the reserve, and the next payment, of one, fails an asserted update. -/
theorem negativePurchase_asserts :
    oneSeller.Start ∧
      (runDEx oneSeller (oneSale false 1 2000000)).map (fun s =>
        (s.tally.amount 1 (ELYSIUM_PROPERTY_ELYSIUM, .acceptReserve),
          s.pledged 1 ELYSIUM_PROPERTY_ELYSIUM)) = .ok (1000, 8446744073709552616) ∧
      (runDEx oneSeller (oneSale false 1 2000000 ++
        [({ frozen := fun _ _ => false, dexMath := fun _ => false },
          .payment 9 0 1 2 1 103)])).map (fun _ => ()) = .error .assertion :=
  ⟨oneSeller_start, by decide +kernel, by decide +kernel⟩

end Zcoin.Elysium
