/-
  Zcoin.Elysium.DEx — the exchange of tokens for coins (`elysium/dex.h/.cpp`).

  A seller offers tokens, which move from its balance into its reserve; a buyer accepts a part
  of them, which moves on into the accept reserve of the seller, and gets it by paying within
  the window of the offer.  The maps `my_offers` and `my_accepts` are keyed by strings that join
  the addresses and the property with `-` and `+`, which are not in an address; here the keys
  are tuples.  No function depends on the order in which the accepts are visited.
-/
import Zcoin.Elysium.Tally
import Zcoin.Lib.Assoc

namespace Zcoin.Elysium

open Lib Lib.Except Lib.AListSum

/-! ## §1. Offers and accepts. -/

/-- `CMPOffer`: a single outstanding offer, from one seller of one property. -/
structure CMPOffer where
  offerBlock : Int
  /-- amount for sale specified when the offer was placed -/
  offerAmountOriginal : Int
  property : PropertyId
  XZCDesiredOriginal : Int
  minFee : Int
  blockTimeLimit : Nat
  txid : Uint256
  deriving DecidableEq

/-- `CMPAccept`: an accepted offer. -/
structure CMPAccept where
  acceptAmountOriginal : Int
  /-- amount remaining to be purchased -/
  acceptAmountRemaining : Int
  blockTimeLimit : Nat
  property : PropertyId
  offerAmountOriginal : Int
  XZCDesiredOriginal : Int
  /-- the transaction of the offer, not that of the accept -/
  offerTxid : Uint256
  block : Int
  deriving DecidableEq

/-- `reduceAcceptAmountRemaining_andIsZero`. -/
def CMPAccept.reduceAcceptAmountRemainingAndIsZero (accept : CMPAccept) (reallyPurchased : Int) :
    Except Abort (Bool × CMPAccept) := do
  let acceptAmountRemaining ← fit64 (accept.acceptAmountRemaining - reallyPurchased)
  return (decide (accept.acceptAmountRemaining ≤ reallyPurchased),
    { accept with acceptAmountRemaining })

variable (A : Type)

/-- What `recordPaymentTX` writes. -/
structure PaymentRecord where
  txid : Uint256
  block : Int
  vout : Nat
  propertyId : PropertyId
  amountPurchased : Int
  buyer : A
  seller : A

/-- `mp_tally_map`, `my_offers`, `my_accepts`, and the payments of `p_txlistdb`. -/
structure DExState where
  tally : TallyMap A
  offers : AList fun _ : A × PropertyId => CMPOffer
  accepts : AList fun _ : A × PropertyId × A => CMPAccept
  payments : List (PaymentRecord A)

/-- What the functions read beside the state. -/
structure DExEnv where
  /-- `isAddressFrozen` -/
  frozen : A → PropertyId → Bool
  /-- `IsFeatureActivated(FEATURE_DEXMATH, block)` -/
  dexMath : Int → Bool

/-- The return code, what was written to `nAmended`, and the state. -/
structure DExReturn where
  rc : Int
  nAmended : Option Int := none
  state : DExState A

def DEX_ERROR_SELLOFFER : Int := -10000
def DEX_ERROR_ACCEPT : Int := -20000
def DEX_ERROR_PAYMENT : Int := -30000

/-! ## §2. Amounts. -/

/-- `static_cast<uint64_t>` of an `int64_t`. -/
def toUint64 (n : Int) : Nat := (n % 2 ^ 64).toNat

/-- `static_cast<int64_t>` of a `uint64_t`. -/
def toInt64 (n : Nat) : Int := if n < 2 ^ 63 then n else (n : Int) - 2 ^ 64

/-- The nearest integer, the even one of two. -/
def roundHalfEven (q : ℚ) : ℤ :=
  let fraction := q - ⌊q⌋
  if fraction < 1 / 2 then ⌊q⌋
  else if 1 / 2 < fraction then ⌊q⌋ + 1
  else if ⌊q⌋ % 2 = 0 then ⌊q⌋ else ⌊q⌋ + 1

/-- The exponent of the largest power of two that is no larger than a positive value. -/
def exponent (q : ℚ) : ℤ :=
  let k : ℤ := (q.num.natAbs.log2 : ℤ) - (q.den.log2 : ℤ)
  if q < 2 ^ k then k - 1 else k

/-- **The nearest `double`** to a value that is not negative: 53 binary digits, ties to even.  The
values here, quotients and products of 64-bit integers, are neither subnormal nor too large. -/
def toDouble (q : ℚ) : ℚ :=
  if q = 0 then 0
  else
    let unit : ℚ := 2 ^ (exponent q - 52)
    roundHalfEven (q / unit) * unit

/-- `rounduint64`; the conversion of a `double` that does not fit is undefined. -/
def rounduint64 (ld : ℚ) : Except Abort Nat :=
  let n := ⌊|ld| + 1 / 2⌋.toNat
  if n < 2 ^ 64 then .ok n else .error .overflow

namespace Legacy

/-- `legacy::calculateDesiredBTC`. -/
def calculateDesiredBTC (amountOffered amountDesired amountAvailable : Int) : Except Abort Int := do
  let nValue := toUint64 amountOffered
  let amountDes := toUint64 amountDesired
  let balanceReallyAvailable := toUint64 amountAvailable
  -- the product is formed in `uint64_t`
  let btc := toDouble ((amountDes * balanceReallyAvailable % 2 ^ 64 : Nat) : ℚ)
  let btc := toDouble (btc / toDouble (nValue : ℚ))
  let amountDes ← rounduint64 btc
  return toInt64 amountDes

/-- `legacy::calculateDExPurchase`. -/
def calculateDExPurchase (amountOffered amountDesired amountPaid : Int) : Except Abort Int := do
  let acceptOfferAmount := toUint64 amountOffered
  let acceptBTCDesired := toUint64 amountDesired
  let paid := toUint64 amountPaid
  let desiredOriginal := toDouble (acceptBTCDesired : ℚ)
  let offerAmountOriginal := toDouble (acceptOfferAmount : ℚ)
  let percX := toDouble (toDouble (paid : ℚ) / desiredOriginal)
  let purchased := toDouble (offerAmountOriginal * percX)
  let unitsPurchased ← rounduint64 purchased
  return toInt64 unitsPurchased

end Legacy

/-- `calculateDExPurchase`. -/
def calculateDExPurchase (amountOffered amountDesired amountPaid : Int) : Except Abort Int := do
  let amountOffered256 ← convertTo256 amountOffered
  let amountDesired256 ← convertTo256 amountDesired
  let amountPaid256 ← convertTo256 amountPaid
  -- actual calculation; round up
  let product ← mul256 amountPaid256 amountOffered256
  let amountPurchased256 ← divideAndRoundUp product amountDesired256
  convertTo64 amountPurchased256

/-! ## §3. Sell offers. -/

section Offers

variable {A : Type} [DecidableEq A] (env : DExEnv A)

/-- The parameters of `DEx_offerCreate` and `DEx_offerUpdate`. -/
structure OfferArgs (A : Type) where
  addressSeller : A
  propertyId : PropertyId
  amountOffered : Int
  block : Int
  amountDesired : Int
  minAcceptFee : Int
  paymentWindow : Nat
  txid : Uint256

/-- The key of the offer in `my_offers`. -/
def OfferArgs.key {A : Type} (args : OfferArgs A) : A × PropertyId :=
  (args.addressSeller, args.propertyId)

/-- If offering more than available, everything is put up on sale: the amounts offered and
desired, and what is written to `nAmended`. -/
def OfferArgs.adjusted {A : Type} (args : OfferArgs A) (balanceReallyAvailable : Int) :
    Except Abort (Int × Int × Option Int) :=
  if balanceReallyAvailable < args.amountOffered then do
    let amountDesired ← Legacy.calculateDesiredBTC args.amountOffered args.amountDesired
      balanceReallyAvailable
    return (balanceReallyAvailable, amountDesired, some balanceReallyAvailable)
  else .ok (args.amountOffered, args.amountDesired, none)

variable (s : DExState A)

/-- `DEx_offerCreate`. -/
def dexOfferCreate (args : OfferArgs A) : Except Abort (DExReturn A) := do
  if args.paymentWindow = 0 then return { rc := DEX_ERROR_SELLOFFER - 101, state := s }
  else if args.amountDesired = 0 then return { rc := DEX_ERROR_SELLOFFER - 101, state := s }
  else if (s.offers.lookup args.key).isSome then
    return { rc := DEX_ERROR_SELLOFFER - 10, state := s } -- offer already exists
  else
    let balanceReallyAvailable := getMPbalance s.tally args.addressSeller args.propertyId .balance
    if env.dexMath args.block && decide (balanceReallyAvailable < args.amountOffered) then
      return { rc := DEX_ERROR_SELLOFFER - 25, state := s }
    else
      let (amountOffered, amountDesired, nAmended) ← args.adjusted balanceReallyAvailable
      if 0 < amountOffered then
        let tally ← assertUpdate env.frozen s.tally args.addressSeller args.propertyId
          (-amountOffered) .balance
        let tally ← assertUpdate env.frozen tally args.addressSeller args.propertyId
          amountOffered .sellofferReserve
        let sellOffer : CMPOffer :=
          { offerBlock := args.block, offerAmountOriginal := amountOffered
            property := args.propertyId, XZCDesiredOriginal := amountDesired
            minFee := args.minAcceptFee, blockTimeLimit := args.paymentWindow, txid := args.txid }
        let offers := s.offers.insert args.key sellOffer
        return { rc := 0, nAmended, state := { s with tally, offers } }
      else return { rc := DEX_ERROR_SELLOFFER, nAmended, state := s }

/-- `DEx_offerDestroy`. -/
def dexOfferDestroy (addressSeller : A) (propertyId : PropertyId) :
    Except Abort (Int × DExState A) := do
  if (s.offers.lookup (addressSeller, propertyId)).isNone then
    return (DEX_ERROR_SELLOFFER - 11, s) -- offer does not exist
  else
    let amountReserved := getMPbalance s.tally addressSeller propertyId .sellofferReserve
    -- return the remaining reserved amount back to the seller
    let tally ← (if 0 < amountReserved then do
        let tally ← assertUpdate env.frozen s.tally addressSeller propertyId (-amountReserved)
          .sellofferReserve
        assertUpdate env.frozen tally addressSeller propertyId amountReserved .balance
      else pure s.tally)
    return (0, { s with tally, offers := s.offers.erase (addressSeller, propertyId) })

/-- `DEx_offerUpdate`. -/
def dexOfferUpdate (args : OfferArgs A) : Except Abort (DExReturn A) := do
  if (s.offers.lookup args.key).isNone then
    return { rc := DEX_ERROR_SELLOFFER - 12, state := s } -- offer does not exist
  else
    let (rc, s) ← dexOfferDestroy env s args.addressSeller args.propertyId
    -- if the old offer was destroyed successfully, try to create a new one
    if rc = 0 then dexOfferCreate env s args else return { rc, state := s }

end Offers

/-! ## §4. Accepts and payments. -/

variable {A : Type} [DecidableEq A] (env : DExEnv A) (s : DExState A)
  (addressBuyer addressSeller : A)

/-- `DEx_acceptCreate`. -/
def dexAcceptCreate (propertyId : PropertyId) (amountAccepted : Int) (block : Int) (feePaid : Int) :
    Except Abort (DExReturn A) := do
  match s.offers.lookup (addressSeller, propertyId) with
  | none => return { rc := DEX_ERROR_ACCEPT - 15, state := s }
  | some offer =>
    -- the older accept is the valid one
    if (s.accepts.lookup (addressSeller, propertyId, addressBuyer)).isSome then
      return { rc := DEX_ERROR_ACCEPT - 205, state := s }
    else if feePaid < offer.minFee then return { rc := DEX_ERROR_ACCEPT - 105, state := s }
    else
      -- ensure the buyer only can reserve the amount that is still available
      let amountRemainingForSale := getMPbalance s.tally addressSeller propertyId
        .sellofferReserve
      let amountReserved := min amountAccepted amountRemainingForSale
      if 0 < amountReserved then
        let tally ← assertUpdate env.frozen s.tally addressSeller propertyId (-amountReserved)
          .sellofferReserve
        let tally ← assertUpdate env.frozen tally addressSeller propertyId amountReserved
          .acceptReserve
        let acceptOffer : CMPAccept :=
          { acceptAmountOriginal := amountReserved, acceptAmountRemaining := amountReserved
            blockTimeLimit := offer.blockTimeLimit, property := offer.property
            offerAmountOriginal := offer.offerAmountOriginal
            XZCDesiredOriginal := offer.XZCDesiredOriginal, offerTxid := offer.txid, block }
        let accepts := s.accepts.insert (addressSeller, propertyId, addressBuyer) acceptOffer
        return { rc := 0, nAmended := some amountReserved, state := { s with tally, accepts } }
      else
        return { rc := DEX_ERROR_ACCEPT - 10, nAmended := some amountReserved, state := s }

/-- Where what remains of an accept goes: back to the balance of the seller, unless the offer
that was accepted is still there. -/
def DExState.returnTo (addressSeller : A) (propertyId : PropertyId) (accept : CMPAccept) :
    TallyType :=
  match s.offers.lookup (addressSeller, propertyId) with
  | none => .balance
  | some offer => if offer.txid = accept.offerTxid then .sellofferReserve else .balance

/-- `DEx_acceptDestroy`. -/
def dexAcceptDestroy (propertyid : PropertyId) (fForceErase : Bool) :
    Except Abort (Int × DExState A) := do
  match s.accepts.lookup (addressSeller, propertyid, addressBuyer) with
  | none => return (DEX_ERROR_ACCEPT - 20, s)
  | some accept =>
    let amountRemaining := accept.acceptAmountRemaining
    let tally ← (if 0 < amountRemaining then do
        let tally ← assertUpdate env.frozen s.tally addressSeller propertyid (-amountRemaining)
          .acceptReserve
        assertUpdate env.frozen tally addressSeller propertyid amountRemaining
          (s.returnTo addressSeller propertyid accept)
      else pure s.tally)
    -- can only erase when is NOT called from an iterator loop
    let accepts :=
      if fForceErase then s.accepts.erase (addressSeller, propertyid, addressBuyer)
      else s.accepts
    return (0, { s with tally, accepts })

variable (addressSeller addressBuyer : A)

/-- The accept a payment is for: one of ELYSIUM first, of TELYSIUM second. -/
def DExState.acceptOfPayment : Option (PropertyId × CMPAccept) :=
  match s.accepts.lookup (addressSeller, ELYSIUM_PROPERTY_ELYSIUM, addressBuyer) with
  | some accept => some (ELYSIUM_PROPERTY_ELYSIUM, accept)
  | none =>
    (s.accepts.lookup (addressSeller, ELYSIUM_PROPERTY_TELYSIUM, addressBuyer)).map
      fun accept => (ELYSIUM_PROPERTY_TELYSIUM, accept)

/-- The amount a payment is worth. -/
def DExEnv.purchase {A : Type} (env : DExEnv A) (accept : CMPAccept) (amountPaid : Int)
    (block : Int) : Except Abort Int :=
  if env.dexMath block then
    calculateDExPurchase accept.offerAmountOriginal accept.XZCDesiredOriginal amountPaid
  else Legacy.calculateDExPurchase accept.offerAmountOriginal accept.XZCDesiredOriginal amountPaid

/-- The end of `DEx_payment`: when everything accepted is paid for, the accept is destroyed, and
so is the offer if there is nothing in its reserves. -/
def closePaid (propertyId : PropertyId) : Except Abort (DExState A) := do
  let reserveSell := getMPbalance s.tally addressSeller propertyId .sellofferReserve
  let reserveAccept := getMPbalance s.tally addressSeller propertyId .acceptReserve
  let (_, s) ← dexAcceptDestroy env s addressBuyer addressSeller propertyId true
  if 0 = reserveSell ∧ 0 = reserveAccept then
    let (_, s) ← dexOfferDestroy env s addressSeller propertyId
    return s
  else return s

/-- The second half of `DEx_payment`: the buyer gets the amount purchased, and its accept is
reduced by it. -/
def settlePayment (txid : Uint256) (vout : Nat) (addressSeller addressBuyer : A) (block : Int)
    (propertyId : PropertyId) (accept : CMPAccept) (amountPurchased : Int) :
    Except Abort (Int × DExState A) := do
  let (rc, tally, payments) ← (if 0 < amountPurchased then do
      let tally ← assertUpdate env.frozen s.tally addressSeller propertyId (-amountPurchased)
        .acceptReserve
      let tally ← assertUpdate env.frozen tally addressBuyer propertyId amountPurchased .balance
      let record : PaymentRecord A :=
        { txid, block, vout, propertyId, amountPurchased, buyer := addressBuyer
          seller := addressSeller }
      return (0, tally, s.payments ++ [record])
    else pure (DEX_ERROR_PAYMENT, s.tally, s.payments))
  -- reduce the amount of units still desired by the buyer and if 0 destroy the Accept order
  let (isZero, accept) ← accept.reduceAcceptAmountRemainingAndIsZero amountPurchased
  let accepts := s.accepts.insert (addressSeller, propertyId, addressBuyer) accept
  let s : DExState A := { s with tally, accepts, payments }
  if isZero then
    let s ← closePaid env s addressSeller addressBuyer propertyId
    return (rc, s)
  else return (rc, s)

/-- `DEx_payment`. -/
def dexPayment (txid : Uint256) (vout : Nat) (addressSeller addressBuyer : A) (amountPaid : Int)
    (block : Int) : Except Abort (DExReturn A) := do
  match s.acceptOfPayment addressSeller addressBuyer with
  | none => return { rc := DEX_ERROR_PAYMENT - 1, state := s }
  | some (propertyId, accept) =>
    -- divide by 0 protection
    if 0 = accept.XZCDesiredOriginal then return { rc := DEX_ERROR_PAYMENT - 2, state := s }
    else
      let worth ← env.purchase accept amountPaid block
      let amountRemaining := accept.acceptAmountRemaining
      -- the buyer gets only what's in the Accept
      let amountPurchased := if amountRemaining < worth then amountRemaining else worth
      let nAmended := if amountRemaining < worth then some amountRemaining else none
      let (rc, state) ← settlePayment env s txid vout addressSeller addressBuyer block propertyId
        accept amountPurchased
      return { rc, nAmended, state }

/-- One round of the loop of `eraseExpiredAccepts`. -/
def eraseExpired (blockNow : Int) (state : Nat × DExState A)
    (entry : Sigma fun _ : A × PropertyId × A => CMPAccept) : Except Abort (Nat × DExState A) := do
  let (howManyErased, s) := state
  let (addressSeller, propertyId, addressBuyer) := entry.1
  let blocksSinceAccept := blockNow - entry.2.block
  if (entry.2.blockTimeLimit : Int) ≤ blocksSinceAccept then
    let (_, s) ← dexAcceptDestroy env s addressBuyer addressSeller propertyId false
    return (howManyErased + 1, { s with accepts := s.accepts.erase entry.1 })
  else return (howManyErased, s)

/-- `eraseExpiredAccepts`. -/
def eraseExpiredAccepts (blockNow : Int) : Except Abort (Nat × DExState A) :=
  s.accepts.entries.foldlM (eraseExpired env blockNow) (0, s)

end Zcoin.Elysium
