/-
  Zcoin.Elysium.MetaDEx — the order book of the token layer (`elysium/mdex.h/.cpp`).

  Orders are kept by property, price and place in the chain.  A new order is matched against
  the orders for what it desires, from the lowest price on; what remains of it is put into the
  book and moves from the balance of the sender into its reserve.  The record of the matched
  trades (`t_tradelistdb`) keeps both orders as they were; that of the cancellations, which
  nothing reads here, is left out.
-/
import Zcoin.Elysium.FeeCache
import Zcoin.Lib.Assoc

namespace Zcoin.Elysium

open Lib Lib.Except

/-! ## §1. Orders and the book. -/

/-- `CMPMetaDEx`: a trade on the distributed exchange. -/
structure CMPMetaDEx (A : Type) where
  addr : A
  block : Int
  /-- index within the block -/
  idx : Nat
  txid : Uint256
  property : PropertyId
  amountForSale : Int
  desProperty : PropertyId
  amountDesired : Int
  amountRemaining : Int
  deriving DecidableEq

namespace CMPMetaDEx

variable {A : Type}

/-- `unitPrice`. -/
def unitPrice (order : CMPMetaDEx A) : ℚ :=
  if order.amountForSale ≠ 0 then order.amountDesired / order.amountForSale else 0

/-- `inversePrice`. -/
def inversePrice (order : CMPMetaDEx A) : ℚ :=
  if order.amountDesired ≠ 0 then order.amountForSale / order.amountDesired else 0

/-- `MetaDEx_compare`. -/
def before (lhs rhs : CMPMetaDEx A) : Bool :=
  if lhs.block = rhs.block then lhs.idx < rhs.idx else lhs.block < rhs.block

end CMPMetaDEx

variable (A : Type)

/-- `md_Set`: objects sorted by block and index. -/
abbrev MdSet := List (CMPMetaDEx A)

/-- `md_PricesMap`: a set of sorted objects for each price. -/
abbrev MdPricesMap := List (ℚ × MdSet A)

/-- `md_PropertiesMap`: a map of prices for each property. -/
abbrev MdPropertiesMap := List (PropertyId × MdPricesMap A)

/-- `std::set::insert`; `none` when there is an object at the same place. -/
def insertOrder {A : Type} (order : CMPMetaDEx A) : MdSet A → Option (MdSet A)
  | [] => some [order]
  | other :: orders =>
    if order.before other then some (order :: other :: orders)
    else if other.before order then (insertOrder order orders).map (other :: ·)
    else none

/-- What `recordMatchedTrade` is told: the two orders before the trade and the amounts. -/
structure MatchedTrade where
  pold : CMPMetaDEx A
  pnew : CMPMetaDEx A
  sellerAmountGot : Int
  buyerAmountGotAfterFee : Int
  tradingFee : Int

/-- The state of the exchange. -/
structure Market where
  tally : TallyMap A
  fees : FeeCache
  metadex : MdPropertiesMap A
  trades : List (MatchedTrade A)

/-! ## §2. `x_Trade`. -/

section Trade

variable {A : Type} [LinearOrder A] (env : TokenEnv A)

/-- What the loops of `x_Trade` change besides the book. -/
structure Trading (A : Type) where
  tally : TallyMap A
  fees : FeeCache
  trades : List (MatchedTrade A)
  pnew : CMPMetaDEx A

/-- The assertions before a trade. -/
def preconditions (pold pnew : CMPMetaDEx A) : Bool :=
  0 < pold.amountRemaining && 0 < pnew.amountRemaining &&
    pnew.property ≠ pnew.desProperty && pnew.property = pold.desProperty &&
    pold.property = pnew.desProperty && pold.unitPrice ≤ pnew.inversePrice &&
    pnew.unitPrice ≤ pold.inversePrice

/-- How many tokens the buyer can purchase, rounded down. -/
def couldBuy (pold pnew : CMPMetaDEx A) : Except Abort Int := do
  let remaining ← convertTo256 pnew.amountRemaining
  let forSale ← convertTo256 pold.amountForSale
  let product ← mul256 remaining forSale
  let desired ← convertTo256 pold.amountDesired
  let iCouldBuy ← div256 product desired
  let available ← convertTo256 pold.amountRemaining
  if iCouldBuy < available then convertTo64 iCouldBuy else return pold.amountRemaining

/-- What the buyer would have to pay for them, rounded up. -/
def wouldPay (pold : CMPMetaDEx A) (nCouldBuy : Int) : Except Abort Int := do
  let bought ← convertTo256 nCouldBuy
  let desired ← convertTo256 pold.amountDesired
  let product ← mul256 bought desired
  let forSale ← convertTo256 pold.amountForSale
  let iWouldPay ← divideAndRoundUp product forSale
  convertTo64 iWouldPay

/-- Strips the fee of 0.05% from pairs without a native token. -/
def stripFee (t : Trading A) (pold : CMPMetaDEx A) (buyerAmountGot : Int) :
    Except Abort (Trading A × Int) :=
  if env.feesActive t.pnew.block ∧ pold.property > ELYSIUM_PROPERTY_TELYSIUM ∧
      pold.desProperty > ELYSIUM_PROPERTY_TELYSIUM then do
    let tradingFee := buyerAmountGot / 2000
    let (tally, fees) ← addFee env t.tally t.fees t.pnew.desProperty t.pnew.block tradingFee
    return ({ t with tally, fees }, tradingFee)
  else .ok (t, 0)

/-- The asserted updates of a trade: the payment from the buyer to the seller, and the property
being sold from the reserve of the seller to the buyer. -/
def transfer (tally : TallyMap A) (pold pnew : CMPMetaDEx A)
    (sellerAmountGot buyerAmountGot buyerAmountGotAfterFee : Int) : Except Abort (TallyMap A) := do
  let tally ← assertUpdate env.frozen tally pnew.addr pnew.property (-sellerAmountGot) .balance
  let tally ← assertUpdate env.frozen tally pold.addr pold.desProperty sellerAmountGot .balance
  let tally ← assertUpdate env.frozen tally pold.addr pold.property (-buyerAmountGot)
    .metadexReserve
  assertUpdate env.frozen tally pnew.addr pnew.desProperty buyerAmountGotAfterFee .balance

/-- Executes a trade: what stands in the place of the old order, and whether the buyer is
satisfied.  The updated order has the place of the erased one. -/
def execute (t : Trading A) (pold : CMPMetaDEx A) (nCouldBuy nWouldPay : Int) :
    Except Abort (Trading A × MdSet A × Bool) := do
  let effectivePrice : ℚ := nWouldPay / nCouldBuy
  let buyerAmountLeft := t.pnew.amountRemaining - nWouldPay
  let sellerAmountLeft := pold.amountRemaining - nCouldBuy
  assertThat (pold.unitPrice ≤ effectivePrice && effectivePrice ≤ t.pnew.inversePrice &&
    0 ≤ sellerAmountLeft && 0 ≤ buyerAmountLeft &&
    pold.amountRemaining = sellerAmountLeft + nCouldBuy &&
    t.pnew.amountRemaining = buyerAmountLeft + nWouldPay)
  let (t, tradingFee) ← stripFee env t pold nCouldBuy
  let tally ← transfer env t.tally pold t.pnew nWouldPay nCouldBuy (nCouldBuy - tradingFee)
  let trade : MatchedTrade A :=
    { pold, pnew := t.pnew, sellerAmountGot := nWouldPay
      buyerAmountGotAfterFee := nCouldBuy - tradingFee, tradingFee }
  return ({ t with
      tally
      trades := t.trades ++ [trade]
      pnew := { t.pnew with amountRemaining := buyerAmountLeft } },
    if 0 < sellerAmountLeft then [{ pold with amountRemaining := sellerAmountLeft }] else [],
    buyerAmountLeft = 0)

/-- The body of the inner loop for one offer. -/
def matchOffer (sellersPrice : ℚ) (t : Trading A) (pold : CMPMetaDEx A) :
    Except Abort (Trading A × MdSet A × Bool) := do
  assertThat (decide (pold.unitPrice = sellersPrice))
  if pold.desProperty ≠ t.pnew.property then return (t, [pold], false)
  else
    assertThat (preconditions pold t.pnew)
    let nCouldBuy ← couldBuy pold t.pnew
    if nCouldBuy = 0 then return (t, [pold], false)
    else
      let nWouldPay ← wouldPay pold nCouldBuy
      if (nWouldPay : ℚ) / nCouldBuy > t.pnew.inversePrice then return (t, [pold], false)
      else execute env t pold nCouldBuy nWouldPay

/-- The offers at one price. -/
def tradeSet (sellersPrice : ℚ) (t : Trading A) :
    MdSet A → Except Abort (Trading A × MdSet A × Bool)
  | [] => .ok (t, [], false)
  | pold :: offers => do
    let (t, replaced, bBuyerSatisfied) ← matchOffer env sellersPrice t pold
    if bBuyerSatisfied then return (t, replaced ++ offers, true)
    else
      let (t, offers, bBuyerSatisfied) ← tradeSet sellersPrice t offers
      return (t, replaced ++ offers, bBuyerSatisfied)

/-- All prices; the inverse price of the buyer must not be below that of the seller. -/
def tradePrices (t : Trading A) : MdPricesMap A → Except Abort (Trading A × MdPricesMap A)
  | [] => .ok (t, [])
  | (sellersPrice, offers) :: prices =>
    if t.pnew.inversePrice < sellersPrice then do
      let (t, prices) ← tradePrices t prices
      return (t, (sellersPrice, offers) :: prices)
    else do
      let (t, offers, bBuyerSatisfied) ← tradeSet env sellersPrice t offers
      if bBuyerSatisfied then return (t, (sellersPrice, offers) :: prices)
      else
        let (t, prices) ← tradePrices t prices
        return (t, (sellersPrice, offers) :: prices)

/-- `x_Trade`: the market after it and what is left of the new order. -/
def xTrade (market : Market A) (pnew : CMPMetaDEx A) :
    Except Abort (Market A × CMPMetaDEx A) :=
  match Assoc.find pnew.desProperty market.metadex with
  | none => .ok (market, pnew)
  | some prices => do
    let (t, prices) ← tradePrices env
      { tally := market.tally, fees := market.fees, trades := market.trades, pnew } prices
    return ({ market with
        tally := t.tally
        fees := t.fees
        trades := t.trades
        metadex := Assoc.upsert pnew.desProperty prices market.metadex }, t.pnew)

/-! ## §3. Adding an order. -/

/-- `METADEX_ERROR`. -/
def METADEX_ERROR : Int := -81000

/-- `MetaDEx_INSERT`; `none` for `false`. -/
def metaDExInsert (metadex : MdPropertiesMap A) (order : CMPMetaDEx A) :
    Option (MdPropertiesMap A) :=
  let prices := (Assoc.find order.property metadex).getD []
  let indexes := (Assoc.find order.unitPrice prices).getD []
  (insertOrder order indexes).map fun indexes =>
    Assoc.upsert order.property (Assoc.upsert order.unitPrice indexes prices) metadex

/-- `MetaDEx_ADD`: the return code and the market it leaves. -/
def metaDExAdd (market : Market A) (sender : A) (prop : PropertyId) (amount : Int) (block : Int)
    (propertyDesired : PropertyId) (amountDesired : Int) (txid : Uint256) (idx : Nat) :
    Except Abort (Int × Market A) := do
  let newMdex : CMPMetaDEx A :=
    { addr := sender, block, idx, txid, property := prop, amountForSale := amount
      desProperty := propertyDesired, amountDesired, amountRemaining := amount }
  -- ensure this is not a badly priced trade (for example due to zero amounts)
  if newMdex.unitPrice ≤ 0 then return (METADEX_ERROR - 66, market)
  else
    let (market, newMdex) ← xTrade env market newMdex
    if 0 < newMdex.amountRemaining then
      match metaDExInsert market.metadex newMdex with
      | none => return (METADEX_ERROR - 70, market)
      | some metadex =>
        -- move tokens into reserve
        let tally ← assertUpdate env.frozen market.tally sender prop (-newMdex.amountRemaining)
          .balance
        let tally ← assertUpdate env.frozen tally sender prop newMdex.amountRemaining
          .metadexReserve
        return (0, { market with tally, metadex })
    else return (0, market)

end Trade

/-! ## §4. Closing orders. -/

section Close

variable {A : Type} [DecidableEq A] (env : TokenEnv A) (close : CMPMetaDEx A → Bool)

/-- The loop over the orders at one price: those to be closed move from the reserve to the
balance and are erased.  The last component tells whether there was one. -/
def closeSet (tally : TallyMap A) : MdSet A → Except Abort (TallyMap A × MdSet A × Bool)
  | [] => .ok (tally, [], false)
  | order :: orders =>
    if close order then do
      let tally ← assertUpdate env.frozen tally order.addr order.property
        (-order.amountRemaining) .metadexReserve
      let tally ← assertUpdate env.frozen tally order.addr order.property
        order.amountRemaining .balance
      let (tally, orders, _) ← closeSet tally orders
      return (tally, orders, true)
    else do
      let (tally, orders, closed) ← closeSet tally orders
      return (tally, order :: orders, closed)

/-- The loop over the prices that `level` selects. -/
def closePrices (level : ℚ → Bool) (tally : TallyMap A) :
    MdPricesMap A → Except Abort (TallyMap A × MdPricesMap A × Bool)
  | [] => .ok (tally, [], false)
  | (price, indexes) :: prices =>
    if level price then do
      let (tally, indexes, closed) ← closeSet env close tally indexes
      let (tally, prices, more) ← closePrices level tally prices
      return (tally, (price, indexes) :: prices, closed || more)
    else do
      let (tally, prices, more) ← closePrices level tally prices
      return (tally, (price, indexes) :: prices, more)

/-- The loop over the properties that `selected` selects. -/
def closeProperties (selected : PropertyId → Bool) (tally : TallyMap A) :
    MdPropertiesMap A → Except Abort (TallyMap A × MdPropertiesMap A × Bool)
  | [] => .ok (tally, [], false)
  | (prop, prices) :: properties =>
    if selected prop then do
      let (tally, prices, closed) ← closePrices env close (fun _ => true) tally prices
      let (tally, properties, more) ← closeProperties selected tally properties
      return (tally, (prop, prices) :: properties, closed || more)
    else do
      let (tally, properties, more) ← closeProperties selected tally properties
      return (tally, (prop, prices) :: properties, more)

end Close

variable {A : Type} [DecidableEq A] (env : TokenEnv A)

/-- Closing orders of one property: `rc - 1` when there is no map of its prices. -/
def cancelProperty (rc : Int) (market : Market A) (prop : PropertyId) (level : ℚ → Bool)
    (close : CMPMetaDEx A → Bool) : Except Abort (Int × Market A) :=
  match Assoc.find prop market.metadex with
  | none => .ok (rc - 1, market)
  | some prices => do
    let (tally, prices, closed) ← closePrices env close level market.tally prices
    return (if closed then 0 else rc,
      { market with tally, metadex := Assoc.upsert prop prices market.metadex })

variable (market : Market A)

/-- `MetaDEx_CANCEL_AT_PRICE`. -/
def metaDExCancelAtPrice (sender : A) (prop : PropertyId) (amount : Int)
    (propertyDesired : PropertyId) (amountDesired : Int) : Except Abort (Int × Market A) :=
  let mdex : CMPMetaDEx A :=
    { addr := sender, block := 0, idx := 0, txid := 0, property := prop, amountForSale := amount
      desProperty := propertyDesired, amountDesired, amountRemaining := amount }
  cancelProperty env (METADEX_ERROR - 20) market prop (fun price => mdex.unitPrice = price)
    fun order => order.desProperty = propertyDesired && order.addr = sender

/-- `MetaDEx_CANCEL_ALL_FOR_PAIR`. -/
def metaDExCancelAllForPair (sender : A) (prop propertyDesired : PropertyId) :
    Except Abort (Int × Market A) :=
  cancelProperty env (METADEX_ERROR - 30) market prop (fun _ => true)
    fun order => order.desProperty = propertyDesired && order.addr = sender

/-- `isMainEcosystemProperty`; `ELYSIUM_PROPERTY_XZC` is 0. -/
def isMainEcosystemProperty (propertyId : PropertyId) : Bool :=
  propertyId ≠ 0 && !isTestEcosystemProperty propertyId

/-- Whether a property is in the expected ecosystem. -/
def inEcosystem (ecosystem prop : PropertyId) : Bool :=
  !(isMainEcosystemProperty ecosystem && !isMainEcosystemProperty prop) &&
    !(isTestEcosystemProperty ecosystem && !isTestEcosystemProperty prop)

/-- `MetaDEx_CANCEL_EVERYTHING`. -/
def metaDExCancelEverything (sender : A) (ecosystem : PropertyId) :
    Except Abort (Int × Market A) := do
  let (tally, metadex, closed) ← closeProperties env (fun order => order.addr = sender)
    (inEcosystem ecosystem) market.tally market.metadex
  return (if closed then 0 else METADEX_ERROR - 40, { market with tally, metadex })

/-- `MetaDEx_SHUTDOWN`. -/
def metaDExShutdown : Except Abort (Int × Market A) := do
  let (tally, metadex, _) ← closeProperties env (fun _ => true) (fun _ => true) market.tally
    market.metadex
  return (0, { market with tally, metadex })

end Zcoin.Elysium
