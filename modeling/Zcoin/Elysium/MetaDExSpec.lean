/-
  Zcoin.Elysium.MetaDExSpec — what one trade does.

  The books are balanced when every reserve is what the open orders of its address still offer
  and the tokens of a property, with those in the fee cache, are what they were at the start.
  A trade keeps them balanced, and none of its assertions fails.
-/
import Zcoin.Elysium.MetaDEx

namespace Zcoin.Elysium

open Lib Lib.Except List

/-! ## §1. Balanced books. -/

/-- An order that may stand in the book. -/
structure CMPMetaDEx.Valid {A : Type} (order : CMPMetaDEx A) : Prop where
  forSale : 0 < order.amountForSale ∧ order.amountForSale ≤ maxInt64
  desired : 0 < order.amountDesired ∧ order.amountDesired ≤ maxInt64
  remaining : 0 < order.amountRemaining ∧ order.amountRemaining ≤ order.amountForSale
  pair : order.property ≠ order.desProperty

/-- What the tokens of every property amount to, fees included, and what the fee cache holds of
the native ones, which no trade changes. -/
structure Issue where
  supply : PropertyId → Int
  nativeFees : PropertyId → Int
  supply_le : ∀ p, supply p ≤ maxInt64

/-- Tokens of the ecosystem of a property that somebody holds. -/
def Issue.holders (issue : Issue) (p : PropertyId) : Int :=
  issue.supply (nativeOf p) - issue.nativeFees (nativeOf p)

/-- **Balanced books**: `offered` is what the open orders of an address still offer of a
property. -/
structure Balanced {A : Type} (issue : Issue) (offered : A → PropertyId → Int) (tally : TallyMap A)
    (fees : FeeCache) : Prop where
  nonneg : NonNegative tally
  reserve : ∀ a p, tally.amount a (p, .metadexReserve) = offered a p
  supply : ∀ p, tokensOf tally p + fees.getCachedAmount p = issue.supply p
  increasing : ∀ p, Increasing (fees.record p)
  cached : ∀ p, 0 ≤ fees.getCachedAmount p
  native : ∀ p, p ≤ ELYSIUM_PROPERTY_TELYSIUM → fees.getCachedAmount p = issue.nativeFees p

/-- What an order still offers of a property of an address. -/
def offers {A : Type} [DecidableEq A] (a : A) (p : PropertyId) (order : CMPMetaDEx A) : Int :=
  if order.addr = a ∧ order.property = p then order.amountRemaining else 0

/-- What orders still offer. -/
def offered {A : Type} [DecidableEq A] (orders : List (CMPMetaDEx A)) (a : A) (p : PropertyId) :
    Int :=
  (orders.map (offers a p)).sum

section Numbers

/-! ## §2. Prices and amounts. -/

variable {A : Type} {pold pnew : CMPMetaDEx A}

theorem unitPrice_eq (h : pold.Valid) :
    pold.unitPrice = (pold.amountDesired : ℚ) / pold.amountForSale :=
  if_pos (by have := h.forSale; omega)

theorem inversePrice_eq (h : pold.Valid) :
    pold.inversePrice = (pold.amountForSale : ℚ) / pold.amountDesired :=
  if_pos (by have := h.desired; omega)

theorem unitPrice_le_of (hold : pold.Valid) (hnew : pnew.Valid)
    (h : pold.unitPrice ≤ pnew.inversePrice) : pnew.unitPrice ≤ pold.inversePrice := by
  have h₁ : (0 : ℚ) < pold.amountForSale := by exact_mod_cast hold.forSale.1
  have h₂ : (0 : ℚ) < pold.amountDesired := by exact_mod_cast hold.desired.1
  have h₃ : (0 : ℚ) < pnew.amountForSale := by exact_mod_cast hnew.forSale.1
  have h₄ : (0 : ℚ) < pnew.amountDesired := by exact_mod_cast hnew.desired.1
  rw [unitPrice_eq hold, inversePrice_eq hnew, div_le_div_iff₀ h₁ h₄] at h
  rw [unitPrice_eq hnew, inversePrice_eq hold, div_le_div_iff₀ h₃ h₂]
  linarith

theorem CMPMetaDEx.Valid.natural (h : pold.Valid) :
    ∃ f d r : Nat, pold.amountForSale = f ∧ pold.amountDesired = d ∧ pold.amountRemaining = r ∧
      (0 < f ∧ f ≤ maxInt64) ∧ (0 < d ∧ d ≤ maxInt64) ∧ 0 < r ∧ r ≤ maxInt64 := by
  obtain ⟨hf, hfMax⟩ := h.forSale
  obtain ⟨hd, hdMax⟩ := h.desired
  obtain ⟨hr, hrMax⟩ := h.remaining
  exact ⟨_, _, _, (Int.toNat_of_nonneg hf.le).symm, (Int.toNat_of_nonneg hd.le).symm,
    (Int.toNat_of_nonneg hr.le).symm, by omega⟩

/-- **What can be bought**: at most what remains, and at the price of the seller affordable. -/
theorem couldBuy_spec (hold : pold.Valid) (hnew : pnew.Valid) :
    ∃ n, couldBuy pold pnew = .ok n ∧ 0 ≤ n ∧ n ≤ pold.amountRemaining ∧
      n * pold.amountDesired ≤ pnew.amountRemaining * pold.amountForSale := by
  obtain ⟨f, d, R, hfEq, hdEq, hREq, hf, hd, hR⟩ := hold.natural
  obtain ⟨-, -, r, -, -, hrEq, -, -, hr⟩ := hnew.natural
  have hproduct : r * f < 2 ^ 255 := mul_lt_of_le (by omega) (by omega)
  have hdiv : r * f / d * d ≤ r * f := Nat.div_mul_le_self _ _
  unfold couldBuy
  rw [hfEq, hdEq, hREq, hrEq, convertTo256_ofNat, ok_bind, convertTo256_ofNat, ok_bind,
    mul256_of_lt (Nat.lt_trans hproduct (by decide)), ok_bind, convertTo256_ofNat, ok_bind,
    div256_of_ne_zero (by omega), ok_bind, convertTo256_ofNat, ok_bind]
  by_cases hless : r * f / d < R
  · rw [if_pos hless, convertTo64_of_le (by omega)]
    refine ⟨(r * f / d : Nat), rfl, Int.natCast_nonneg _, by omega, ?_⟩
    exact_mod_cast hdiv
  · rw [if_neg hless]
    refine ⟨R, rfl, by omega, le_rfl, ?_⟩
    have hle : R * d ≤ r * f := by
      have hge : R ≤ r * f / d := Nat.le_of_not_lt hless
      exact le_trans (Nat.mul_le_mul_right d hge) hdiv
    exact_mod_cast hle

/-- **What is to be paid**: no more than can be afforded, and no less than the price of the
seller. -/
theorem wouldPay_spec (hold : pold.Valid) (hnew : pnew.Valid) {n : Int} (hn : 0 < n)
    (hle : n ≤ pold.amountRemaining)
    (hafford : n * pold.amountDesired ≤ pnew.amountRemaining * pold.amountForSale) :
    ∃ w, wouldPay pold n = .ok w ∧ 0 < w ∧ w ≤ pnew.amountRemaining ∧
      n * pold.amountDesired ≤ w * pold.amountForSale := by
  obtain ⟨f, d, R, hfEq, hdEq, hREq, hf, hd, hR⟩ := hold.natural
  obtain ⟨-, -, r, -, -, hrEq, -, -, hr⟩ := hnew.natural
  obtain ⟨m, rfl⟩ := Int.eq_ofNat_of_zero_le (Int.le_of_lt hn)
  have hproduct : m * d < 2 ^ 255 := mul_lt_of_le (by omega) (by omega)
  obtain ⟨q, hq, hle⟩ := divideAndRoundUp_eq (show 0 < f by omega) hproduct
  rw [hdEq, hrEq, hfEq] at hafford
  have hlow := (hle q).mp le_rfl
  have hqr : q ≤ r := by
    rw [hle, Nat.mul_comm f r]
    exact_mod_cast hafford
  have hqpos : 0 < q := by
    have hpos := Nat.mul_pos (show 0 < m by omega) hd.1
    rw [← not_le, hle, Nat.mul_zero]
    omega
  unfold wouldPay
  rw [hfEq, hdEq, hrEq, convertTo256_ofNat, ok_bind, convertTo256_ofNat, ok_bind,
    mul256_of_lt (Nat.lt_trans hproduct (by decide)), ok_bind, convertTo256_ofNat, ok_bind,
    hq, ok_bind, convertTo64_of_le (by omega)]
  refine ⟨q, rfl, by omega, by omega, ?_⟩
  rw [mul_comm (q : Int) f]
  exact_mod_cast hlow

/-- The effective price is not below that of the seller. -/
theorem unitPrice_le_effective (hold : pold.Valid) {n w : Int} (hn : 0 < n)
    (h : n * pold.amountDesired ≤ w * pold.amountForSale) : pold.unitPrice ≤ (w : ℚ) / n := by
  have h₁ : (0 : ℚ) < pold.amountForSale := by exact_mod_cast hold.forSale.1
  have h₂ : (0 : ℚ) < n := by exact_mod_cast hn
  rw [unitPrice_eq hold, div_le_div_iff₀ h₁ h₂, mul_comm]
  exact_mod_cast h

end Numbers

/-! ## §3. The balances of a trade. -/

section Moves

variable {A : Type} [DecidableEq A] {tally : TallyMap A} {pold pnew : CMPMetaDEx A} {w n m : Int}

/-- The tally after the four updates of a trade. -/
def moved (tally : TallyMap A) (pold pnew : CMPMetaDEx A) (w n m : Int) : TallyMap A :=
  (((tally.add pnew.addr (pnew.property, .balance) (-w)).add pold.addr
    (pold.desProperty, .balance) w).add pold.addr (pold.property, .metadexReserve) (-n)).add
    pnew.addr (pnew.desProperty, .balance) m

theorem tokensOf_moved (hpay : pold.desProperty = pnew.property)
    (hget : pold.property = pnew.desProperty) (p : PropertyId) :
    tokensOf (moved tally pold pnew w n m) p =
      tokensOf tally p + if p = pnew.desProperty then m - n else 0 := by
  unfold moved
  rw [tokensOf_add (by decide), tokensOf_add (by decide), tokensOf_add (by decide),
    tokensOf_add (by decide), hpay, hget]
  split <;> split <;> omega

theorem reserve_moved (a : A) (p : PropertyId) :
    (moved tally pold pnew w n m).amount a (p, .metadexReserve) =
      tally.amount a (p, .metadexReserve) -
        if pold.addr = a ∧ pold.property = p then n else 0 := by
  unfold moved
  simp only [Ledger.amount_add, Prod.mk.injEq, reduceCtorEq, and_false, if_false, add_zero,
    and_true, eq_comm]
  split <;> omega

theorem funds_moved (hpair : pnew.property ≠ pnew.desProperty) (hw : 0 ≤ w) :
    tally.amount pnew.addr (pnew.property, .balance) - w ≤
      (moved tally pold pnew w n m).amount pnew.addr (pnew.property, .balance) := by
  unfold moved
  simp only [Ledger.amount_add, Prod.mk.injEq, reduceCtorEq, and_false, if_false, add_zero,
    and_true, hpair, if_true]
  split <;> omega

end Moves

/-! ## §4. What a trade keeps. -/

section Facts

variable {A : Type} {env : TokenEnv A} {issue : Issue} {t : Trading A}

/-- The price of a fill, before the fee is stripped. -/
def MatchedTrade.price (trade : MatchedTrade A) : ℚ :=
  trade.sellerAmountGot / (trade.buyerAmountGotAfterFee + trade.tradingFee : Int)

/-- A fill gives the resting order at least its unit price, and the new order pays at most its
inverse price. -/
def MatchedTrade.Fair (trade : MatchedTrade A) : Prop :=
  trade.pold.unitPrice ≤ trade.price ∧ trade.price ≤ trade.pnew.inversePrice

/-- **A new order on its way through the book.** -/
structure Ready (env : TokenEnv A) (issue : Issue) (t : Trading A) : Prop where
  forSale : 0 < t.pnew.amountForSale ∧ t.pnew.amountForSale ≤ maxInt64
  desired : 0 < t.pnew.amountDesired ∧ t.pnew.amountDesired ≤ maxInt64
  remaining : 0 ≤ t.pnew.amountRemaining ∧ t.pnew.amountRemaining ≤ t.pnew.amountForSale
  pair : t.pnew.property ≠ t.pnew.desProperty
  funds : t.pnew.amountRemaining ≤ t.tally.amount t.pnew.addr (t.pnew.property, .balance)
  thawed : env.frozen t.pnew.addr t.pnew.property = false
  newest : ∀ x ∈ t.fees.record t.pnew.desProperty, x.1 ≤ t.pnew.block
  holders : env.feesActive t.pnew.block → t.pnew.property > ELYSIUM_PROPERTY_TELYSIUM →
    t.pnew.desProperty > ELYSIUM_PROPERTY_TELYSIUM → 0 < issue.holders t.pnew.desProperty
  fair : ∀ trade ∈ t.trades, trade.Fair

theorem Ready.valid (h : Ready env issue t) (hpos : 0 < t.pnew.amountRemaining) : t.pnew.Valid :=
  ⟨h.forSale, h.desired, ⟨hpos, h.remaining.2⟩, h.pair⟩

/-- What a fee changes. -/
structure Stripped (tally tally' : TallyMap A) (fees fees' : FeeCache) (p : PropertyId)
    (block fee paid : Int) : Prop where
  credited : Credited tally tally' p paid
  amount : fees'.getCachedAmount p = fees.getCachedAmount p + fee - paid
  cached : 0 ≤ fees'.getCachedAmount p
  increasing : Increasing (fees'.record p)
  newest : ∀ x ∈ fees'.record p, x.1 ≤ block
  others : ∀ q, q ≠ p → fees'.record q = fees.record q
  native : p ≤ ELYSIUM_PROPERTY_TELYSIUM → fees'.record p = fees.record p

section Stripping

variable {tally tally' : TallyMap A} {fees fees' : FeeCache} {p q : PropertyId}
  {block fee paid : Int} (h : Stripped tally tally' fees fees' p block fee paid)
include h

theorem Stripped.getCachedAmount (q : PropertyId) :
    fees'.getCachedAmount q = fees.getCachedAmount q + if q = p then fee - paid else 0 := by
  by_cases hq : q = p
  · rw [if_pos hq, hq, h.amount]
    omega
  · rw [if_neg hq, add_zero]
    exact getCachedAmount_of_record_eq (h.others q hq)

theorem Stripped.reserve (a : A)
    (q : PropertyId) : tally'.amount a (q, .metadexReserve) = tally.amount a (q, .metadexReserve) :=
  h.credited.same a _ (fun hk => nomatch congrArg Prod.snd hk)

theorem Stripped.balance (hq : q ≠ p)
    (a : A) : tally'.amount a (q, .balance) = tally.amount a (q, .balance) :=
  h.credited.same a _ (fun hk => hq (congrArg Prod.fst hk))

end Stripping

theorem Balanced.tokensOf_le {off : A → PropertyId → Int} {tally : TallyMap A} {fees : FeeCache}
    (h : Balanced issue off tally fees) (p : PropertyId) : tokensOf tally p ≤ maxInt64 := by
  have hsupply := h.supply p
  have hcached := h.cached p
  have hle := issue.supply_le p
  omega

theorem nativeOf_le (p : PropertyId) : nativeOf p ≤ ELYSIUM_PROPERTY_TELYSIUM := by
  unfold nativeOf
  split <;> decide

/-- What is left of an order after trades. -/
def CMPMetaDEx.Continues (order old : CMPMetaDEx A) : Prop :=
  order.Valid ∧ ∃ r, order = { old with amountRemaining := r }

theorem CMPMetaDEx.Valid.continues {order : CMPMetaDEx A} (h : order.Valid) :
    order.Continues order :=
  ⟨h, order.amountRemaining, rfl⟩

theorem Balanced.congr {off off' : A → PropertyId → Int} {tally : TallyMap A} {fees : FeeCache}
    (h : Balanced issue off tally fees) (hoff : ∀ a p, off' a p = off a p) :
    Balanced issue off' tally fees := by
  have heq : off' = off := by
    funext a p
    exact hoff a p
  rw [heq]
  exact h

/-- An order under its price. -/
def FiledAt (p : PropertyId) (price : ℚ) (order : CMPMetaDEx A) : Prop :=
  order.Valid ∧ order.property = p ∧ order.unitPrice = price

theorem CMPMetaDEx.Continues.filedAt {order old : CMPMetaDEx A} {p : PropertyId} {price : ℚ}
    (h : order.Continues old) (hold : FiledAt p price old) : FiledAt p price order := by
  obtain ⟨hvalid, r, rfl⟩ := h
  exact ⟨hvalid, hold.2.1, hold.2.2⟩

/-- The orders at all prices. -/
def ordersAt (prices : MdPricesMap A) : MdSet A := prices.flatMap Prod.snd

/-- All orders are under their prices. -/
def FiledPrices (p : PropertyId) (prices : MdPricesMap A) : Prop :=
  ∀ level ∈ prices, ∀ o ∈ level.2, FiledAt p level.1 o

theorem FiledPrices.valid {p : PropertyId} {prices : MdPricesMap A} (h : FiledPrices p prices) :
    ∀ o ∈ ordersAt prices, o.Valid := by
  intro o ho
  obtain ⟨level, hlevel, ho⟩ := mem_flatMap.mp ho
  exact (h level hlevel o ho).1

end Facts

/-! ## §5. One trade. -/

variable {A : Type} [LinearOrder A] {env : TokenEnv A} {issue : Issue} {t t' : Trading A}
  {n w : Int} {pold pnew : CMPMetaDEx A} {base : A → PropertyId → Int} {orders orders' : MdSet A}
  {satisfied : Bool} {tally : TallyMap A}

/-- **The updates of a trade hold.** -/
theorem transfer_eq {m : Int} (hnonneg : NonNegative tally)
    (hpay : pold.desProperty = pnew.property) (hget : pold.property = pnew.desProperty)
    (hw : 0 < w) (hn : 0 < n) (hm : 0 < m)
    (hfunds : w ≤ tally.amount pnew.addr (pnew.property, .balance))
    (hthawed : env.frozen pnew.addr pnew.property = false)
    (hreserve : n ≤ tally.amount pold.addr (pold.property, .metadexReserve))
    (hpaid : tokensOf tally pnew.property ≤ maxInt64)
    (hbought : tokensOf tally pnew.desProperty - n + m ≤ maxInt64) :
    transfer env tally pold pnew w n m = .ok (moved tally pold pnew w n m) ∧
      NonNegative (moved tally pold pnew w n m) := by
  have hbalance : TallyType.balance ≠ .pending := by decide
  -- the buyer pays the seller
  obtain ⟨hdebit, hcredit, hnonneg'⟩ := @convey_spec A _ env.frozen tally pnew.addr pold.addr
    pnew.property w .balance .balance hnonneg hpaid hw hfunds (fun _ => hthawed) hbalance hbalance
  -- what is sold leaves the reserve, and all but the fee goes to the buyer
  have hreserve' : n ≤ (conveyed tally pnew.addr pold.addr pnew.property w .balance
      .balance).amount pold.addr (pnew.desProperty, .metadexReserve) := by
    rw [amount_conveyed, ← hget]
    simpa using hreserve
  obtain ⟨hsell, hbuy, hmoved⟩ := @exchange_spec A _ env.frozen _ pold.addr pnew.addr
    pnew.desProperty n .metadexReserve .balance m hnonneg'
    (by rw [tokensOf_conveyed hbalance hbalance]; exact hbought) hn hm hreserve'
    (fun h => nomatch h) (by decide) hbalance
  unfold transfer moved
  rw [hpay, hget, hdebit, ok_bind, hcredit, ok_bind, hsell, ok_bind, hbuy]
  exact ⟨rfl, hmoved⟩

/-- **Stripping the fee** succeeds, and what it takes from the fill is less than the fill. -/
theorem stripFee_spec {off : A → PropertyId → Int} (hsound : Balanced issue off t.tally t.fees)
    (hready : Ready env issue t) (hpay : pold.desProperty = t.pnew.property)
    (hget : pold.property = t.pnew.desProperty) (hn : 0 < n)
    (hreserve : n ≤ t.tally.amount pold.addr (pold.property, .metadexReserve)) :
    ∃ tally fees fee paid, stripFee env t pold n = .ok ({ t with tally, fees }, fee) ∧
      0 ≤ fee ∧ fee < n ∧ 0 ≤ paid ∧
      Stripped t.tally tally t.fees fees t.pnew.desProperty t.pnew.block fee paid := by
  unfold stripFee
  split
  · next hfee =>
    obtain ⟨hactive, hsold, hwanted⟩ := hfee
    rw [hget] at hsold
    rw [hpay] at hwanted
    -- the native tokens are where they were at the start
    have hholders : 0 < tokensOf t.tally (nativeOf t.pnew.desProperty) := by
      have hhold := hready.holders hactive hwanted hsold
      have hsupply := hsound.supply (nativeOf t.pnew.desProperty)
      have hnative := hsound.native _ (nativeOf_le t.pnew.desProperty)
      unfold Issue.holders at hhold
      omega
    -- the fee is part of what the seller has in reserve
    have hmax : t.tally.total (t.pnew.desProperty, .balance) +
        t.fees.getCachedAmount t.pnew.desProperty + n / 2000 ≤ maxInt64 := by
      have hsupply := hsound.supply t.pnew.desProperty
      have hle := issue.supply_le t.pnew.desProperty
      have htotal := t.tally.amount_le_total
        (fun b => hsound.nonneg b t.pnew.desProperty .metadexReserve (by decide)) pold.addr
      have hselloffer := hsound.nonneg.total t.pnew.desProperty
        (show TallyType.sellofferReserve ≠ .pending by decide)
      have haccept := hsound.nonneg.total t.pnew.desProperty
        (show TallyType.acceptReserve ≠ .pending by decide)
      rw [tokensOf_eq] at hsupply
      rw [hget] at hreserve
      omega
    obtain ⟨tally, fees, paid, hrun, hpaid, hcredited, hamount, hcached, hincreasing, hnewest,
      hothers⟩ := @addFee_spec (n / 2000) A _ env t.tally t.pnew.desProperty t.fees t.pnew.block
        hsound.nonneg hholders (hsound.tokensOf_le _) (hsound.increasing _) hready.newest
        (hsound.cached _) (by omega) hmax
    refine ⟨tally, fees, n / 2000, paid, ?_, by omega, by omega, hpaid,
      ⟨hcredited, hamount, hcached, hincreasing, hnewest, hothers, ?_⟩⟩
    · dsimp only
      rw [hrun]
      rfl
    · intro hnative
      exact absurd hnative (Nat.not_le.mpr hsold)
  · refine ⟨t.tally, t.fees, 0, 0, rfl, le_rfl, hn, le_rfl, ⟨Credited.refl _ _, by omega,
      hsound.cached _, hsound.increasing _, hready.newest, fun _ _ => rfl, fun _ => rfl⟩⟩

/-- **What matching leaves**: `base` is what the orders that were not looked at offer. -/
structure Matched (env : TokenEnv A) (issue : Issue) (base : A → PropertyId → Int) (t : Trading A)
    (orders : MdSet A) (t' : Trading A) (orders' : MdSet A) (satisfied : Bool) : Prop where
  sound : Balanced issue (fun a p => base a p + offered orders' a p) t'.tally t'.fees
  ready : Ready env issue t'
  order : ∃ r, t'.pnew = { t.pnew with amountRemaining := r }
  satisfied : satisfied = true ↔ t'.pnew.amountRemaining = 0
  kept : ∀ o ∈ orders', ∃ o' ∈ orders, o.Continues o'

theorem offered_nil (a : A) (p : PropertyId) : offered [] a p = 0 := rfl

theorem offered_singleton (order : CMPMetaDEx A) (a : A) (p : PropertyId) :
    offered [order] a p = offers a p order := by
  show offers a p order + 0 = _
  omega

theorem offered_left (hn : n ≤ pold.amountRemaining) (a : A) (p : PropertyId) :
    offered (if 0 < pold.amountRemaining - n then
        [{ pold with amountRemaining := pold.amountRemaining - n }] else []) a p =
      offers a p pold - if pold.addr = a ∧ pold.property = p then n else 0 := by
  unfold offers
  split
  · rw [offered_singleton]
    unfold offers
    dsimp only
    split <;> omega
  · rw [offered_nil]
    split <;> omega

variable {fees : FeeCache}

/-- **Balances after a trade**: the reserve of the seller is what is left of its orders. -/
theorem Balanced.traded {off off' : A → PropertyId → Int} {tally' : TallyMap A} {fees' : FeeCache}
    {block fee paid : Int} (h : Balanced issue off tally fees)
    (hstripped : Stripped tally tally' fees fees' pnew.desProperty block fee paid)
    (hpay : pold.desProperty = pnew.property) (hget : pold.property = pnew.desProperty)
    (hnonneg : NonNegative (moved tally' pold pnew w n (n - fee)))
    (hoff : ∀ a p, off' a p = off a p - if pold.addr = a ∧ pold.property = p then n else 0) :
    Balanced issue off' (moved tally' pold pnew w n (n - fee)) fees' where
  nonneg := hnonneg
  reserve := by
    intro a p
    rw [reserve_moved, hstripped.reserve, h.reserve, hoff]
  supply := by
    intro p
    have hsupply := h.supply p
    rw [tokensOf_moved hpay hget, hstripped.credited.tokensOf, hstripped.getCachedAmount]
    split <;> omega
  increasing := by
    intro p
    by_cases hp : p = pnew.desProperty
    · rw [hp]
      exact hstripped.increasing
    · rw [hstripped.others p hp]
      exact h.increasing p
  cached := by
    intro p
    by_cases hp : p = pnew.desProperty
    · rw [hp]
      exact hstripped.cached
    · rw [getCachedAmount_of_record_eq (hstripped.others p hp)]
      exact h.cached p
  native := by
    intro p hp
    rw [← h.native p hp]
    apply getCachedAmount_of_record_eq
    by_cases hsame : p = pnew.desProperty
    · rw [hsame] at hp ⊢
      exact hstripped.native hp
    · exact hstripped.others p hsame

/-- **Executing a trade** keeps the books balanced. -/
theorem execute_spec (hbase : ∀ a p, 0 ≤ base a p)
    (hsound : Balanced issue (fun a p => base a p + offers a p pold) t.tally t.fees)
    (hready : Ready env issue t) (hold : pold.Valid) (hpay : pold.desProperty = t.pnew.property)
    (hget : pold.property = t.pnew.desProperty) (hn : 0 < n) (hnle : n ≤ pold.amountRemaining)
    (hw : 0 < w) (hwle : w ≤ t.pnew.amountRemaining)
    (hprice : n * pold.amountDesired ≤ w * pold.amountForSale)
    (hlimit : (w : ℚ) / n ≤ t.pnew.inversePrice) :
    ∃ t' orders' satisfied, execute env t pold n w = .ok (t', orders', satisfied) ∧
      Matched env issue base t [pold] t' orders' satisfied := by
  have hunit := unitPrice_le_effective hold hn hprice
  have hreserve : n ≤ t.tally.amount pold.addr (pold.property, .metadexReserve) := by
    have hoffers : offers pold.addr pold.property pold = pold.amountRemaining :=
      if_pos ⟨rfl, rfl⟩
    have hnonneg := hbase pold.addr pold.property
    rw [hsound.reserve, hoffers]
    omega
  obtain ⟨tally, fees, fee, paid, hstrip, hfee, hless, hpaid, hstripped⟩ :=
    stripFee_spec hsound hready hpay hget hn hreserve
  have hfunds : w ≤ tally.amount t.pnew.addr (t.pnew.property, .balance) := by
    rw [hstripped.balance hready.pair]
    exact le_trans hwle hready.funds
  obtain ⟨htransfer, hnonneg⟩ : transfer env tally pold t.pnew w n (n - fee) =
      .ok (moved tally pold t.pnew w n (n - fee)) ∧
      NonNegative (moved tally pold t.pnew w n (n - fee)) := by
    have htokens := hstripped.credited.tokensOf
    apply transfer_eq (hstripped.credited.nonNegative hsound.nonneg) hpay hget hw hn
      (by omega) hfunds hready.thawed
    · rw [hstripped.reserve]
      exact hreserve
    · rw [htokens, if_neg hready.pair, add_zero]
      exact hsound.tokensOf_le _
    · -- the cache keeps what was not paid out
      have hsupply := hsound.supply t.pnew.desProperty
      have hsupplyMax := issue.supply_le t.pnew.desProperty
      have hamount := hstripped.amount
      have hcached := hstripped.cached
      rw [htokens, if_pos rfl]
      omega
  refine ⟨?_, ?_, ?_, ?run, ?_⟩
  case run =>
    -- the assertions of the fill hold
    unfold execute
    dsimp only
    rw [decide_eq_true hunit, decide_eq_true hlimit, decide_eq_true (by omega),
      decide_eq_true (by omega), decide_eq_true (by omega), decide_eq_true (by omega)]
    show (stripFee env t pold n >>= _) = _
    rw [hstrip, ok_bind]
    dsimp only
    rw [htransfer, ok_bind]
    rfl
  refine ⟨?_, ?_, ⟨_, rfl⟩, decide_eq_true_iff, ?_⟩
  · apply hsound.traded hstripped hpay hget hnonneg
    intro a p
    rw [offered_left hnle]
    omega
  · refine ⟨hready.forSale, hready.desired, ?_, hready.pair, ?_, hready.thawed, hstripped.newest,
      hready.holders, ?_⟩
    · have hremaining := hready.remaining
      show 0 ≤ t.pnew.amountRemaining - w ∧ t.pnew.amountRemaining - w ≤ t.pnew.amountForSale
      omega
    · have hkept := @funds_moved A _ tally pold t.pnew w n (n - fee) hready.pair (by omega)
      have hbefore := hready.funds
      rw [hstripped.balance hready.pair] at hkept
      show t.pnew.amountRemaining - w ≤ _
      exact le_trans (by omega) hkept
    · refine forall_mem_append.mpr ⟨hready.fair, forall_mem_singleton.mpr ?_⟩
      show pold.unitPrice ≤ (w : ℚ) / (n - fee + fee : Int) ∧
        (w : ℚ) / (n - fee + fee : Int) ≤ t.pnew.inversePrice
      rw [sub_add_cancel]
      exact ⟨hunit, hlimit⟩
  · intro o ho
    refine ⟨pold, mem_singleton_self pold, ?_⟩
    split at ho
    · next hleft =>
      rw [mem_singleton.mp ho]
      refine ⟨⟨hold.forSale, hold.desired, ⟨hleft, ?_⟩, hold.pair⟩, _, rfl⟩
      have hremaining := hold.remaining.2
      show pold.amountRemaining - n ≤ pold.amountForSale
      omega
    · cases ho

theorem not_satisfied {r : Int} (h : 0 < r) : false = true ↔ r = 0 :=
  iff_of_false Bool.false_ne_true (by omega)

theorem Matched.skip
    (hsound : Balanced issue (fun a p => base a p + offered orders a p) t.tally t.fees)
    (hready : Ready env issue t) (hsatisfied : satisfied = true ↔ t.pnew.amountRemaining = 0)
    (hvalid : ∀ o ∈ orders, o.Valid) : Matched env issue base t orders t orders satisfied where
  sound := hsound
  ready := hready
  order := ⟨t.pnew.amountRemaining, rfl⟩
  satisfied := hsatisfied
  kept := fun o ho => ⟨o, ho, (hvalid o ho).continues⟩

/-- **One offer**: whether it is skipped or filled, no assertion fails. -/
theorem matchOffer_spec (hbase : ∀ a p, 0 ≤ base a p) {sellersPrice : ℚ}
    (hsound : Balanced issue (fun a p => base a p + offered [pold] a p) t.tally t.fees)
    (hready : Ready env issue t) (hpos : 0 < t.pnew.amountRemaining) (hold : pold.Valid)
    (hget : pold.property = t.pnew.desProperty) (hlevel : pold.unitPrice = sellersPrice)
    (hprice : sellersPrice ≤ t.pnew.inversePrice) :
    ∃ t' orders' satisfied, matchOffer env sellersPrice t pold = .ok (t', orders', satisfied) ∧
      Matched env issue base t [pold] t' orders' satisfied := by
  have hskip : Matched env issue base t [pold] t [pold] false := by
    apply Matched.skip hsound hready (not_satisfied hpos)
    intro o ho
    rw [mem_singleton.mp ho]
    exact hold
  have hnew := hready.valid hpos
  unfold matchOffer
  rw [decide_eq_true hlevel]
  by_cases hpay : pold.desProperty = t.pnew.property
  · have hpre : preconditions pold t.pnew = true := by
      rw [← hlevel] at hprice
      unfold preconditions
      rw [decide_eq_true hold.remaining.1, decide_eq_true hpos, decide_eq_true hready.pair,
        decide_eq_true hpay.symm, decide_eq_true hget, decide_eq_true hprice,
        decide_eq_true (unitPrice_le_of hold hnew hprice)]
      rfl
    obtain ⟨n, hcould, hn, hnle, hafford⟩ := couldBuy_spec hold hnew
    show ∃ t' orders' satisfied, (if pold.desProperty ≠ t.pnew.property then _ else _) = _ ∧ _
    rw [if_neg (fun h => h hpay), hpre, hcould]
    show ∃ t' orders' satisfied, (if n = 0 then _ else _) = _ ∧ _
    by_cases hzero : n = 0
    · rw [if_pos hzero]
      exact ⟨t, [pold], false, rfl, hskip⟩
    · obtain ⟨w, hwould, hw, hwle, hcover⟩ := wouldPay_spec hold hnew (by omega) hnle hafford
      rw [if_neg hzero, hwould]
      show ∃ t' orders' satisfied, (if (w : ℚ) / n > t.pnew.inversePrice then _ else _) = _ ∧ _
      by_cases hlimit : (w : ℚ) / n > t.pnew.inversePrice
      · rw [if_pos hlimit]
        exact ⟨t, [pold], false, rfl, hskip⟩
      · rw [if_neg hlimit]
        have hsound' : Balanced issue (fun a p => base a p + offers a p pold) t.tally t.fees := by
          simpa only [offered_singleton] using hsound
        exact execute_spec hbase hsound' hready hold hpay hget (by omega) hnle hw hwle hcover
          (le_of_not_gt hlimit)
  · show ∃ t' orders' satisfied, (if pold.desProperty ≠ t.pnew.property then _ else _) = _ ∧ _
    rw [if_pos hpay]
    exact ⟨t, [pold], false, rfl, hskip⟩

/-! ## §6. The loops of `x_Trade`. -/

theorem offered_append (orders orders' : MdSet A) (a : A) (p : PropertyId) :
    offered (orders ++ orders') a p = offered orders a p + offered orders' a p := by
  unfold offered
  rw [map_append, sum_append]

theorem offered_nonneg (hvalid : ∀ o ∈ orders, o.Valid) (a : A) (p : PropertyId) :
    0 ≤ offered orders a p := by
  apply sum_nonneg
  intro x hx
  obtain ⟨o, ho, rfl⟩ := mem_map.mp hx
  have hpos := (hvalid o ho).remaining.1
  unfold offers
  split <;> omega

theorem add_offered_nonneg (hbase : ∀ a p, 0 ≤ base a p) (hvalid : ∀ o ∈ orders, o.Valid) (a : A)
    (p : PropertyId) : 0 ≤ base a p + offered orders a p :=
  add_nonneg (hbase a p) (offered_nonneg hvalid a p)

theorem balanced_append_iff {l r : MdSet A} :
    Balanced issue (fun a p => base a p + offered (l ++ r) a p) tally fees ↔
      Balanced issue (fun a p => base a p + offered l a p + offered r a p) tally fees := by
  simp only [offered_append, Int.add_assoc]

omit [LinearOrder A] in
theorem Balanced.swap {f g h : A → PropertyId → Int}
    (hsound : Balanced issue (fun a p => f a p + g a p + h a p) tally fees) :
    Balanced issue (fun a p => f a p + h a p + g a p) tally fees :=
  hsound.congr fun _ _ => Int.add_right_comm _ _ _

theorem Matched.valid (h : Matched env issue base t orders t' orders' satisfied) :
    ∀ o ∈ orders', o.Valid := by
  intro o ho
  obtain ⟨_, _, hcontinues⟩ := h.kept o ho
  exact hcontinues.1

theorem Matched.positive (h : Matched env issue base t orders t' orders' false) :
    0 < t'.pnew.amountRemaining := by
  have hne : t'.pnew.amountRemaining ≠ 0 := fun hzero => nomatch h.satisfied.mpr hzero
  have hnonneg := h.ready.remaining.1
  omega

theorem Matched.append {rest rest' : MdSet A} {t'' : Trading A}
    {first : Bool}
    (h : Matched env issue (fun a p => base a p + offered rest a p) t orders t' orders' first)
    (h' : Matched env issue (fun a p => base a p + offered orders' a p) t' rest t'' rest'
      satisfied) : Matched env issue base t (orders ++ rest) t'' (orders' ++ rest') satisfied where
  sound := balanced_append_iff.mpr h'.sound
  ready := h'.ready
  order := by
    obtain ⟨r, hr⟩ := h.order
    obtain ⟨r', hr'⟩ := h'.order
    exact ⟨r', by rw [hr', hr]⟩
  satisfied := h'.satisfied
  kept := by
    intro o ho
    rcases mem_append.mp ho with ho | ho
    · obtain ⟨o', ho', hcontinues⟩ := h.kept o ho
      exact ⟨o', mem_append_left rest ho', hcontinues⟩
    · obtain ⟨o', ho', hcontinues⟩ := h'.kept o ho
      exact ⟨o', mem_append_right orders ho', hcontinues⟩

theorem Matched.behind {rest : MdSet A}
    (h : Matched env issue (fun a p => base a p + offered rest a p) t orders t' orders' satisfied)
    (hrest : ∀ o ∈ rest, o.Valid) :
    Matched env issue base t (orders ++ rest) t' (orders' ++ rest) satisfied :=
  h.append (Matched.skip h.sound.swap h.ready h.satisfied hrest)

theorem tradeSet_spec {offers : MdSet A} {sellersPrice : ℚ} (hbase : ∀ a p, 0 ≤ base a p)
    (hsound : Balanced issue (fun a p => base a p + offered offers a p) t.tally t.fees)
    (hready : Ready env issue t) (hpos : 0 < t.pnew.amountRemaining)
    (hfiled : ∀ o ∈ offers, FiledAt t.pnew.desProperty sellersPrice o)
    (hprice : sellersPrice ≤ t.pnew.inversePrice) :
    ∃ t' offers' satisfied, tradeSet env sellersPrice t offers = .ok (t', offers', satisfied) ∧
      Matched env issue base t offers t' offers' satisfied := by
  induction offers generalizing t base with
  | nil =>
    refine ⟨t, [], false, rfl, Matched.skip hsound hready (not_satisfied hpos) ?_⟩
    intro o ho
    cases ho
  | cons pold offers ih =>
    obtain ⟨hold, hget, hlevel⟩ := hfiled pold mem_cons_self
    have hrest : ∀ o ∈ offers, FiledAt t.pnew.desProperty sellersPrice o :=
      fun o ho => hfiled o (mem_cons_of_mem pold ho)
    have hvalid : ∀ o ∈ offers, o.Valid := fun o ho => (hrest o ho).1
    have hsound₁ := (balanced_append_iff (l := [pold])).mp hsound
    obtain ⟨t₁, replaced, satisfied, hrun, hmatched⟩ := matchOffer_spec
      (add_offered_nonneg hbase hvalid) hsound₁.swap hready hpos hold hget hlevel hprice
    unfold tradeSet
    rw [hrun, ok_bind]
    cases satisfied with
    | true => exact ⟨t₁, replaced ++ offers, true, rfl, hmatched.behind hvalid⟩
    | false =>
      -- the new order is the same but for what remains of it
      obtain ⟨r, hr⟩ := hmatched.order
      obtain ⟨t₂, offers', satisfied, hrun', hmatched'⟩ := ih
        (add_offered_nonneg hbase hmatched.valid) hmatched.sound.swap hmatched.ready
        hmatched.positive (by rw [hr]; exact hrest) (by rw [hr]; exact hprice)
      refine ⟨t₂, replaced ++ offers', satisfied, ?_, hmatched.append hmatched'⟩
      show (tradeSet env sellersPrice t₁ offers >>= _) = _
      rw [hrun']
      rfl

theorem tradePrices_spec {prices : MdPricesMap A} (hbase : ∀ a p, 0 ≤ base a p)
    (hsound : Balanced issue (fun a p => base a p + offered (ordersAt prices) a p) t.tally t.fees)
    (hready : Ready env issue t) (hpos : 0 < t.pnew.amountRemaining)
    (hfiled : FiledPrices t.pnew.desProperty prices) :
    ∃ t' prices' satisfied, tradePrices env t prices = .ok (t', prices') ∧
      Matched env issue base t (ordersAt prices) t' (ordersAt prices') satisfied ∧
      FiledPrices t.pnew.desProperty prices' := by
  induction prices generalizing t base with
  | nil =>
    refine ⟨t, [], false, rfl, Matched.skip hsound hready (not_satisfied hpos) ?_, hfiled⟩
    intro o ho
    cases ho
  | cons level prices ih =>
    obtain ⟨sellersPrice, offers⟩ := level
    have hhead : ∀ o ∈ offers, FiledAt t.pnew.desProperty sellersPrice o :=
      hfiled (sellersPrice, offers) mem_cons_self
    have hrest : FiledPrices t.pnew.desProperty prices :=
      fun level hlevel => hfiled level (mem_cons_of_mem _ hlevel)
    have hsplit := (balanced_append_iff (l := offers) (r := ordersAt prices)).mp hsound
    have hcons : ∀ {p : PropertyId} {offers' : MdSet A} {prices' : MdPricesMap A},
        (∀ o ∈ offers', FiledAt p sellersPrice o) → FiledPrices p prices' →
        FiledPrices p ((sellersPrice, offers') :: prices') :=
      fun hoffers hprices => forall_mem_cons.mpr ⟨hoffers, hprices⟩
    unfold tradePrices
    split
    · -- the price is too high, the offers stay as they are
      have hskip : Matched env issue (fun a p => base a p + offered (ordersAt prices) a p) t
          offers t offers false :=
        Matched.skip hsplit.swap hready (not_satisfied hpos) fun o ho => (hhead o ho).1
      obtain ⟨t', prices', satisfied, hrun, hmatched, hfiled'⟩ := ih
        (add_offered_nonneg hbase hskip.valid) hsplit hready hpos hrest
      refine ⟨t', (sellersPrice, offers) :: prices', satisfied, ?_, hskip.append hmatched,
        hcons hhead hfiled'⟩
      rw [hrun]
      rfl
    · next hprice =>
      obtain ⟨t₁, offers', satisfied, hrun, hmatched⟩ := tradeSet_spec
        (add_offered_nonneg hbase hrest.valid) hsplit.swap hready hpos hhead (le_of_not_gt hprice)
      have hhead' : ∀ o ∈ offers', FiledAt t.pnew.desProperty sellersPrice o := by
        intro o ho
        obtain ⟨o', ho', hcontinues⟩ := hmatched.kept o ho
        exact hcontinues.filedAt (hhead o' ho')
      rw [hrun, ok_bind]
      cases satisfied with
      | true =>
        exact ⟨t₁, (sellersPrice, offers') :: prices, true, rfl, hmatched.behind hrest.valid,
          hcons hhead' hrest⟩
      | false =>
        obtain ⟨r, hr⟩ := hmatched.order
        obtain ⟨t₂, prices', satisfied, hrun', hmatched', hfiled'⟩ := ih
          (add_offered_nonneg hbase hmatched.valid) hmatched.sound.swap hmatched.ready
          hmatched.positive (by rw [hr]; exact hrest)
        rw [hr] at hfiled'
        refine ⟨t₂, (sellersPrice, offers') :: prices', satisfied, ?_,
          hmatched.append hmatched', hcons hhead' hfiled'⟩
        show (tradePrices env t₁ prices >>= _) = _
        rw [hrun']
        rfl

end Zcoin.Elysium
