/-
  Zcoin.Elysium.Fundraiser — what a crowdsale purchase creates
  (`calculateFundraiser`, `elysium/sp.cpp`).

  A purchase creates tokens for the buyer, with an early-bird bonus that grows with the
  weeks left, and a percentage of them for the issuer.  When the supply would pass
  `2^63 - 1` both amounts are scaled down to the headroom that is left and the crowdsale
  is closed.

  MAIN RESULT: `calculateFundraiser_safe_iff`.
-/
import Zcoin.Elysium.Uint256

namespace Zcoin.Elysium

open Lib.Except Nat

/-! ## §1. The routine. -/

/-- Weeks in seconds. -/
def weeksSec : Nat := 604800

/-- Precision for all non-firo values. -/
def precision : Nat := 1000000000000

/-- Precision for all percentages. -/
def percentagePrecision : Nat := 100

/-- Precision for firo amounts. -/
def satoshiPrecision : Nat := 100000000

/-- `bonusSeconds_` and `weeks_`: the weeks the early-bird bonus is paid for. -/
def bonusWeeks (fundraiserSecs currentSecs : Int) : Except Abort Nat := do
  let bonusSeconds ← (if currentSecs < fundraiserSecs then do
      let deadline ← convertTo256 fundraiserSecs
      let now ← convertTo256 currentSecs
      sub256 deadline now
    else return 0)
  let wholeWeeks ← div256 bonusSeconds weeksSec
  let weeks ← mul256 wholeWeeks precision
  let remainder ← modulo256 bonusSeconds weeksSec
  let scaled ← mul256 remainder precision
  let fraction ← div256 scaled weeksSec
  add256 weeks fraction

/-- `ebPercentage_` and `bonusPercentage_`. -/
def bonusPercentage (bonusPerc : UInt8) (weeks : Nat) : Except Abort Nat := do
  let bonus ← convertTo256 bonusPerc.toNat
  let ebPercentage ← mul256 weeks bonus
  let base ← mul256 precision percentagePrecision
  let total ← add256 base ebPercentage
  div256 total percentagePrecision

/-- `createdTokens`: total tokens including remainders. -/
def createdTokens (inflateAmount : Bool) (amtTransfer numProps : Int) (bonus : Nat) :
    Except Abort Nat := do
  let amount ← convertTo256 amtTransfer
  let inflated ← (if inflateAmount then mul256 amount 100000000 else return amount)
  let props ← convertTo256 numProps
  let tokens ← mul256 inflated props
  mul256 tokens bonus

/-- `issuerTokens`, scaled like `createdTokens` and by the percentage. -/
def issuerTokens (issuerPerc : UInt8) (created : Nat) : Except Abort Nat := do
  let perc ← convertTo256 issuerPerc.toNat
  let scaled ← mul256 perc precision
  let issuerPercentage ← div256 scaled percentagePrecision
  let tokens ← div256 created satoshiPrecision
  let tokens ← div256 tokens precision
  let hundredth ← div256 issuerPercentage 100
  let tokens ← mul256 tokens hundredth
  mul256 tokens precision

/-- The branch that applies the ratio of what can be created to what was earned. -/
def clampToHeadroom (totalTokens created issuer : Nat) : Except Abort (Nat × Nat) := do
  let maxCreatable ← sub256 maxInt64 totalTokens
  let earned ← add256 created issuer
  let ratio ← mul256 earned precision
  let ratio ← mul256 ratio satoshiPrecision
  let ratio ← div256 ratio maxCreatable
  let issuer ← mul256 issuer precision
  let issuer ← mul256 issuer satoshiPrecision
  let issuer ← div256 issuer ratio
  assertThat (decide (issuer ≤ maxCreatable))
  let created ← sub256 maxCreatable issuer
  return (created, issuer)

/-- `calculateFundraiser`: the tokens for user and issuer, and `close_crowdsale` as the
call leaves it. -/
def calculateFundraiser (inflateAmount : Bool) (amtTransfer : Int) (bonusPerc : UInt8)
    (fundraiserSecs currentSecs numProps : Int) (issuerPerc : UInt8) (totalTokens : Int)
    (closeCrowdsale : Bool) : Except Abort ((Int × Int) × Bool) := do
  let weeks ← bonusWeeks fundraiserSecs currentSecs
  let bonus ← bonusPercentage bonusPerc weeks
  let created ← createdTokens inflateAmount amtTransfer numProps bonus
  let issuer ← issuerTokens issuerPerc created
  let createdInt ← div256 created precision
  let createdInt ← div256 createdInt satoshiPrecision
  let issuerInt ← div256 issuer precision
  let issuerInt ← div256 issuerInt satoshiPrecision
  let issuerInt ← div256 issuerInt 100
  let total ← convertTo256 totalTokens
  let newTotalCreated ← add256 total createdInt
  let newTotalCreated ← add256 newTotalCreated issuerInt
  if newTotalCreated > maxInt64 then do
    let (createdInt, issuerInt) ← clampToHeadroom total createdInt issuerInt
    let user ← convertTo64 createdInt
    let issuer ← convertTo64 issuerInt
    return ((user, issuer), true)
  else do
    let user ← convertTo64 createdInt
    let issuer ← convertTo64 issuerInt
    return ((user, issuer), closeCrowdsale)

/-! ## §2. What the purchase is worth. -/

/-- The bonus factor, in units of `precision`: one, plus `bonusPerc` percent for every
week left. -/
def bonusFactor (bonusPerc : UInt8) (fundraiserSecs currentSecs : Int) : Nat :=
  let secs := (fundraiserSecs - currentSecs).toNat
  (100 * precision +
    (secs / weeksSec * precision + secs % weeksSec * precision / weeksSec) * bonusPerc.toNat) / 100

/-- The purchase before it is cut to whole units, in units of `10^-20`. -/
def purchaseValue (inflateAmount : Bool) (amtTransfer : Int) (bonusPerc : UInt8)
    (fundraiserSecs currentSecs numProps : Int) : Nat :=
  amtTransfer.toNat * (if inflateAmount then 100000000 else 1) * numProps.toNat *
    bonusFactor bonusPerc fundraiserSecs currentSecs

/-- One unit of the token on the scale of `purchaseValue`. -/
def oneUnit : Nat := precision * satoshiPrecision

/-- The issuer's share of `n` units. -/
def issuerShare (issuerPerc : UInt8) (n : Nat) : Nat := n * issuerPerc.toNat / 100

/-- The supply after the purchase if nothing were cut off. -/
def unclampedTotal (value : Nat) (issuerPerc : UInt8) (totalTokens : Int) : Int :=
  totalTokens + ((value / oneUnit : Nat) : Int) + (issuerShare issuerPerc (value / oneUnit) : Nat)

/-! ## §3. The steps, without a wrap-around. -/

/-- The largest bonus factor: every second of `2^63 - 1` left, at 255 percent a week. -/
def maxBonusFactor : Nat := 38888225353807150000000000

theorem perc_le (perc : UInt8) : perc.toNat ≤ 255 := Nat.le_of_lt_succ perc.toNat_lt

theorem bonusWeeks_bound {secs : Nat} (h : secs ≤ maxInt64) :
    secs / weeksSec * precision + secs % weeksSec * precision / weeksSec ≤
      15250284452473 * precision := by
  unfold maxInt64 at h
  unfold weeksSec precision
  omega

theorem bonusFactor_le (bonusPerc : UInt8) {fundraiserSecs currentSecs : Int}
    (hcur : 0 ≤ currentSecs) (hmax : fundraiserSecs ≤ maxInt64) :
    bonusFactor bonusPerc fundraiserSecs currentSecs ≤ maxBonusFactor := by
  have hsecs : (fundraiserSecs - currentSecs).toNat ≤ maxInt64 := by omega
  have hmul := mul_le_mul (bonusWeeks_bound hsecs) (perc_le bonusPerc)
  show (100 * precision + _ * bonusPerc.toNat) / 100 ≤ _
  unfold maxBonusFactor
  unfold precision at hmul ⊢
  omega

theorem bonusWeeks_eq {fundraiserSecs currentSecs : Int} (hcur : 0 ≤ currentSecs)
    (hmax : fundraiserSecs ≤ maxInt64) :
    bonusWeeks fundraiserSecs currentSecs =
      .ok ((fundraiserSecs - currentSecs).toNat / weeksSec * precision +
        (fundraiserSecs - currentSecs).toNat % weeksSec * precision / weeksSec) := by
  have hsecs : (fundraiserSecs - currentSecs).toNat ≤ maxInt64 := by omega
  have hseconds : (if currentSecs < fundraiserSecs then do
      let deadline ← convertTo256 fundraiserSecs
      let now ← convertTo256 currentSecs
      sub256 deadline now
    else return 0) = .ok (fundraiserSecs - currentSecs).toNat := by
    by_cases hlt : currentSecs < fundraiserSecs
    · rw [if_pos hlt, convertTo256_of_nonneg (by omega), ok_bind,
        convertTo256_of_nonneg hcur, ok_bind, sub256_of_le (by omega)]
      congr 1
      omega
    · rw [if_neg hlt, show (fundraiserSecs - currentSecs).toNat = 0 by omega]
      rfl
  have hbound := bonusWeeks_bound hsecs
  have hweeks : weeksSec ≠ 0 := by decide
  unfold bonusWeeks
  rw [hseconds, ok_bind, div256_of_ne_zero hweeks, ok_bind]
  generalize (fundraiserSecs - currentSecs).toNat = secs at *
  unfold maxInt64 at hsecs
  unfold precision at hbound
  have hwhole : secs / weeksSec * precision < 2 ^ 256 := by
    unfold weeksSec precision
    omega
  have hremainder : secs % weeksSec * precision < 2 ^ 256 := by
    unfold weeksSec precision
    omega
  rw [mul256_of_lt hwhole, ok_bind, modulo256_eq (by omega) hweeks, ok_bind,
    mul256_of_lt hremainder, ok_bind, div256_of_ne_zero hweeks, ok_bind,
    add256_of_lt (by unfold precision; omega)]

theorem bonusPercentage_eq (bonusPerc : UInt8) {weeks : Nat}
    (hweeks : weeks ≤ 15250284452473 * precision) :
    bonusPercentage bonusPerc weeks = .ok ((100 * precision + weeks * bonusPerc.toNat) / 100) := by
  have hmul := mul_le_mul hweeks (perc_le bonusPerc)
  unfold precision at hmul
  unfold bonusPercentage
  rw [convertTo256_ofNat, ok_bind, mul256_of_lt (by omega), ok_bind,
    mul256_of_lt (by decide), ok_bind,
    add256_of_lt (by unfold precision percentagePrecision; omega), ok_bind,
    div256_of_ne_zero (by decide), mul_comm precision percentagePrecision]
  rfl

variable {inflateAmount : Bool}

theorem purchase_le {amtTransfer numProps : Int} (hamt : amtTransfer ≤ maxInt64)
    (hprops : numProps ≤ maxInt64) :
    amtTransfer.toNat * (if inflateAmount then 100000000 else 1) * numProps.toNat ≤
      maxInt64 * 100000000 * maxInt64 := by
  have hfactor : (if inflateAmount then 100000000 else 1) ≤ 100000000 := by
    cases inflateAmount <;> decide
  gcongr <;> omega

theorem createdTokens_eq {amtTransfer numProps : Int} {bonus : Nat}
    (hamt : 0 < amtTransfer) (hamt' : amtTransfer ≤ maxInt64) (hprops : 0 < numProps)
    (hprops' : numProps ≤ maxInt64) (hbonus : bonus ≤ maxBonusFactor) :
    createdTokens inflateAmount amtTransfer numProps bonus =
      .ok (amtTransfer.toNat * (if inflateAmount then 100000000 else 1) * numProps.toNat *
        bonus) := by
  have hfits : maxInt64 * 100000000 * maxInt64 * maxBonusFactor < 2 ^ 256 := by decide
  have hprod := @purchase_le inflateAmount _ _ hamt' hprops'
  have hinflated : (if inflateAmount then mul256 amtTransfer.toNat 100000000
      else return amtTransfer.toNat) =
      .ok (amtTransfer.toNat * (if inflateAmount then 100000000 else 1)) := by
    cases inflateAmount with
    | false => simp
    | true =>
      simp only [if_true]
      apply mul256_of_lt
      unfold maxInt64 at hamt'
      omega
  unfold createdTokens
  rw [convertTo256_of_nonneg hamt.le, ok_bind, hinflated, ok_bind,
    convertTo256_of_nonneg hprops.le, ok_bind,
    mul256_of_lt (lt_of_le_of_lt hprod (by decide)), ok_bind,
    mul256_of_lt (lt_of_le_of_lt (Nat.mul_le_mul hprod hbonus) hfits)]

theorem div_oneUnit (value : Nat) :
    value / precision / satoshiPrecision = value / oneUnit ∧
      value / satoshiPrecision / precision = value / oneUnit := by
  refine ⟨Nat.div_div_eq_div_mul _ _ _, ?_⟩
  rw [Nat.div_div_eq_div_mul, Nat.mul_comm satoshiPrecision precision]
  rfl

theorem issuerTokens_eq (issuerPerc : UInt8) {value : Nat}
    (hvalue : value ≤ maxInt64 * 100000000 * maxInt64 * maxBonusFactor) :
    issuerTokens issuerPerc value =
      .ok (value / oneUnit * (issuerPerc.toNat * satoshiPrecision) * precision) := by
  have hperc := perc_le issuerPerc
  have hunits : value / oneUnit ≤ maxInt64 * maxInt64 * maxBonusFactor / precision := by
    refine le_trans (Nat.div_le_div_right hvalue) (by decide)
  have hpercentage : issuerPerc.toNat * precision / percentagePrecision / 100 =
      issuerPerc.toNat * satoshiPrecision := by
    unfold precision percentagePrecision satoshiPrecision
    omega
  have hshare : value / oneUnit * (issuerPerc.toNat * satoshiPrecision) ≤
      maxInt64 * maxInt64 * maxBonusFactor / precision * (255 * satoshiPrecision) := by
    gcongr
  unfold issuerTokens
  rw [convertTo256_ofNat, ok_bind, mul256_of_lt (by unfold precision; omega), ok_bind,
    div256_of_ne_zero (by decide), ok_bind, div256_of_ne_zero (by decide), ok_bind,
    div256_of_ne_zero (by decide), ok_bind, div256_of_ne_zero (by decide), ok_bind,
    hpercentage, (div_oneUnit value).2, mul256_of_lt (lt_of_le_of_lt hshare (by decide)), ok_bind,
    mul256_of_lt (lt_of_le_of_lt (mul_le_mul_right _ hshare) (by decide))]

theorem issuerTokens_units (issuerPerc : UInt8) (n : Nat) :
    n * (issuerPerc.toNat * satoshiPrecision) * precision / precision / satoshiPrecision / 100 =
      issuerShare issuerPerc n := by
  have hprec : 0 < precision := by decide
  have hsat : 0 < satoshiPrecision := by decide
  rw [Nat.mul_div_cancel _ hprec, ← Nat.mul_assoc, Nat.mul_div_cancel _ hsat]
  rfl

/-! ## §4. Cutting the amounts to the headroom. -/

/-- **The scaled share fits**: `ratio` is rounded down, yet the issuer's scaled part does
not pass the headroom, since one unit exceeds it. -/
theorem scaled_share_le {earned issuer headroom unit : Nat} (hissuer : issuer ≤ earned)
    (hclamp : headroom < earned) (hpos : 0 < headroom) (hunit : headroom < unit) :
    issuer * unit / (earned * unit / headroom) ≤ headroom := by
  have hratio : unit ≤ earned * unit / headroom := by
    rw [le_div_iff_mul_le hpos, mul_comm]
    exact mul_le_mul_right unit hclamp.le
  -- what the rounding of the ratio loses is less than one headroom
  have hround : earned * unit < headroom * (earned * unit / headroom) + headroom := by
    have := div_add_mod (earned * unit) headroom
    have := mod_lt (earned * unit) hpos
    omega
  have hle : issuer * unit ≤ earned * unit := mul_le_mul_right unit hissuer
  apply Nat.lt_succ_iff.mp
  rw [Nat.div_lt_iff_lt_mul (by omega), Nat.succ_mul]
  omega

theorem headroom_lt_oneUnit : maxInt64 < oneUnit := by decide

/-- The largest amounts, in whole units. -/
def maxUnits : Nat := maxInt64 * maxInt64 * maxBonusFactor / precision

theorem issuerShare_le (issuerPerc : UInt8) {n : Nat} (h : n ≤ maxUnits) :
    issuerShare issuerPerc n ≤ 3 * maxUnits := by
  have hmul := mul_le_mul h (perc_le issuerPerc)
  unfold issuerShare
  omega

theorem mul256_units {n : Nat} (h : n ≤ 4 * maxUnits) :
    mul256 n precision = .ok (n * precision) ∧
      mul256 (n * precision) satoshiPrecision = .ok (n * precision * satoshiPrecision) := by
  have hmul := mul_le_mul_right precision h
  have hscaled := mul_le_mul_right satoshiPrecision hmul
  exact ⟨mul256_of_lt (hmul.trans_lt (by decide)), mul256_of_lt (hscaled.trans_lt (by decide))⟩

theorem clampToHeadroom_eq {total created issuer : Nat} (htotal : total < maxInt64)
    (hcreated : created ≤ maxUnits) (hissuer : issuer ≤ 3 * maxUnits)
    (hclamp : maxInt64 < total + created + issuer) :
    ∃ share, share ≤ maxInt64 - total ∧
      clampToHeadroom total created issuer = .ok (maxInt64 - total - share, share) := by
  obtain ⟨hearned, hearned'⟩ := mul256_units (show created + issuer ≤ 4 * maxUnits by omega)
  obtain ⟨hscaled, hscaled'⟩ := mul256_units (show issuer ≤ 4 * maxUnits by omega)
  have hhead : maxInt64 - total ≠ 0 := by omega
  have hshare := @scaled_share_le (created + issuer) issuer (maxInt64 - total) oneUnit
    (by omega) (by omega) (by omega) (by have := headroom_lt_oneUnit; omega)
  have hratio : (created + issuer) * precision * satoshiPrecision / (maxInt64 - total) ≠ 0 := by
    rw [Nat.mul_assoc, ← Nat.pos_iff_ne_zero]
    apply Nat.div_pos _ (by omega)
    have := headroom_lt_oneUnit
    calc maxInt64 - total ≤ 1 * oneUnit := by omega
      _ ≤ (created + issuer) * oneUnit := Nat.mul_le_mul_right _ (by omega)
  refine ⟨issuer * oneUnit / ((created + issuer) * oneUnit / (maxInt64 - total)), hshare, ?_⟩
  unfold clampToHeadroom
  rw [sub256_of_le htotal.le, ok_bind,
    add256_of_lt (lt_of_le_of_lt (show created + issuer ≤ 4 * maxUnits by omega) (by decide)),
    ok_bind, hearned, ok_bind, hearned', ok_bind, div256_of_ne_zero hhead, ok_bind, hscaled,
    ok_bind, hscaled', ok_bind, div256_of_ne_zero hratio, ok_bind, Nat.mul_assoc issuer,
    Nat.mul_assoc (created + issuer)]
  rw [show precision * satoshiPrecision = oneUnit from rfl, decide_eq_true hshare, assertThat_true,
    ok_bind, sub256_of_le hshare]
  rfl

/-- Without headroom the ratio is divided by zero. -/
theorem clampToHeadroom_full {created issuer : Nat} (hcreated : created ≤ maxUnits)
    (hissuer : issuer ≤ 3 * maxUnits) :
    clampToHeadroom maxInt64 created issuer =
      .error (.threw (.runtimeError "Division by zero")) := by
  obtain ⟨hearned, hearned'⟩ := mul256_units (show created + issuer ≤ 4 * maxUnits by omega)
  unfold clampToHeadroom
  rw [sub256_of_le le_rfl, ok_bind,
    add256_of_lt (lt_of_le_of_lt (show created + issuer ≤ 4 * maxUnits by omega) (by decide)),
    ok_bind, hearned, ok_bind, hearned', ok_bind, Nat.sub_self, div256_zero]
  rfl

/-! ## §5. The whole routine. -/

section Routine

variable (inflateAmount : Bool) (bonusPerc issuerPerc : UInt8) (closeCrowdsale : Bool)
  {amtTransfer fundraiserSecs currentSecs numProps totalTokens : Int}

/-- **Up to the test of the supply** the routine computes the exact amounts. -/
theorem calculateFundraiser_eq (hamt : 0 < amtTransfer) (hamt' : amtTransfer ≤ maxInt64)
    (hdeadline : fundraiserSecs ≤ maxInt64) (hcur : 0 ≤ currentSecs)
    (hprops : 0 < numProps) (hprops' : numProps ≤ maxInt64) (htotal : 0 ≤ totalTokens)
    (htotal' : totalTokens ≤ maxInt64) (units : Nat)
    (hunits : units = purchaseValue inflateAmount amtTransfer bonusPerc fundraiserSecs currentSecs
      numProps / oneUnit) :
    units ≤ maxUnits ∧
    calculateFundraiser inflateAmount amtTransfer bonusPerc fundraiserSecs currentSecs numProps
        issuerPerc totalTokens closeCrowdsale =
      (if totalTokens.toNat + units + issuerShare issuerPerc units > maxInt64 then do
        let (createdInt, issuerInt) ←
          clampToHeadroom totalTokens.toNat units (issuerShare issuerPerc units)
        let user ← convertTo64 createdInt
        let issuer ← convertTo64 issuerInt
        return ((user, issuer), true)
      else do
        let user ← convertTo64 units
        let issuer ← convertTo64 (issuerShare issuerPerc units)
        return ((user, issuer), closeCrowdsale)) := by
  have hsecs : (fundraiserSecs - currentSecs).toNat ≤ maxInt64 := by omega
  have hbonus := bonusFactor_le bonusPerc hcur hdeadline
  have hvalue : purchaseValue inflateAmount amtTransfer bonusPerc fundraiserSecs currentSecs
      numProps ≤ maxInt64 * 100000000 * maxInt64 * maxBonusFactor :=
    Nat.mul_le_mul (purchase_le hamt' hprops') hbonus
  have hcreated : createdTokens inflateAmount amtTransfer numProps
      (bonusFactor bonusPerc fundraiserSecs currentSecs) =
      .ok (purchaseValue inflateAmount amtTransfer bonusPerc fundraiserSecs currentSecs numProps) :=
    createdTokens_eq hamt hamt' hprops hprops' hbonus
  have hpercentage : bonusPercentage bonusPerc
      ((fundraiserSecs - currentSecs).toNat / weeksSec * precision +
        (fundraiserSecs - currentSecs).toNat % weeksSec * precision / weeksSec) =
      .ok (bonusFactor bonusPerc fundraiserSecs currentSecs) :=
    bonusPercentage_eq bonusPerc (bonusWeeks_bound hsecs)
  have hmax : units ≤ maxUnits := by
    rw [hunits]
    exact le_trans (Nat.div_le_div_right hvalue) (by decide)
  have hshare := issuerShare_le issuerPerc hmax
  refine ⟨hmax, ?_⟩
  unfold calculateFundraiser
  rw [bonusWeeks_eq hcur hdeadline, ok_bind, hpercentage, ok_bind, hcreated, ok_bind,
    issuerTokens_eq issuerPerc hvalue, ok_bind, div256_of_ne_zero (by decide), ok_bind,
    div256_of_ne_zero (by decide), ok_bind, div256_of_ne_zero (by decide), ok_bind,
    div256_of_ne_zero (by decide), ok_bind, div256_of_ne_zero (by decide), ok_bind,
    issuerTokens_units, (div_oneUnit _).1, ← hunits, convertTo256_of_nonneg htotal, ok_bind]
  have hmaxUnits : 4 * maxUnits + maxInt64 < 2 ^ 256 := by decide
  rw [add256_of_lt (by omega), ok_bind, add256_of_lt (by omega), ok_bind]

/-- **`calculateFundraiser` is safe exactly when there is headroom or nothing to create**, for all
inputs its callers can supply: it returns non-negative amounts that keep the supply in range,
using it up when the crowdsale is closed, and closes the crowdsale exactly when the unclamped
supply would be out of range. -/
theorem calculateFundraiser_safe_iff (hamt : 0 < amtTransfer) (hamt' : amtTransfer ≤ maxInt64)
    (hdeadline : 0 ≤ fundraiserSecs ∧ fundraiserSecs ≤ maxInt64)
    (hcur : 0 ≤ currentSecs ∧ currentSecs ≤ maxInt64) (hprops : 0 < numProps)
    (hprops' : numProps ≤ maxInt64) (htotal : 0 ≤ totalTokens) (htotal' : totalTokens ≤ maxInt64) :
    (∃ user issuer close,
      calculateFundraiser inflateAmount amtTransfer bonusPerc fundraiserSecs currentSecs numProps
        issuerPerc totalTokens false = .ok ((user, issuer), close) ∧
      0 ≤ user ∧ 0 ≤ issuer ∧ user + issuer + totalTokens ≤ maxInt64 ∧
      (close = true → user + issuer + totalTokens = maxInt64) ∧
      (close = true ↔
        unclampedTotal (purchaseValue inflateAmount amtTransfer bonusPerc fundraiserSecs currentSecs
          numProps) issuerPerc totalTokens > maxInt64)) ↔
      (totalTokens < maxInt64 ∨
        purchaseValue inflateAmount amtTransfer bonusPerc fundraiserSecs currentSecs numProps <
          oneUnit) := by
  obtain ⟨hmax, heq⟩ := calculateFundraiser_eq inflateAmount bonusPerc issuerPerc false hamt hamt'
    hdeadline.2 hcur.1 hprops hprops' htotal htotal' _ rfl
  have hshare := issuerShare_le issuerPerc hmax
  have hunclamped : unclampedTotal (purchaseValue inflateAmount amtTransfer bonusPerc fundraiserSecs
      currentSecs numProps) issuerPerc totalTokens = totalTokens + _ + _ := rfl
  have hsmall : purchaseValue inflateAmount amtTransfer bonusPerc fundraiserSecs currentSecs
      numProps < oneUnit ↔ purchaseValue inflateAmount amtTransfer bonusPerc fundraiserSecs
        currentSecs numProps / oneUnit = 0 := by
    rw [Nat.div_eq_zero_iff_lt (by decide)]
  rw [heq, hsmall]
  rw [hunclamped]
  clear hunclamped hsmall heq
  generalize purchaseValue inflateAmount amtTransfer bonusPerc fundraiserSecs currentSecs
    numProps / oneUnit = units at *
  have hzero : units = 0 → issuerShare issuerPerc units = 0 := by
    rintro rfl
    exact congrArg (· / 100) (Nat.zero_mul _)
  by_cases hclamp : totalTokens.toNat + units + issuerShare issuerPerc units > maxInt64
  · rw [if_pos hclamp]
    by_cases hfull : totalTokens < maxInt64
    · -- the amounts share out the headroom
      obtain ⟨share, hle, hrun⟩ := clampToHeadroom_eq (by omega) hmax hshare hclamp
      refine iff_of_true ?_ (.inl hfull)
      refine ⟨(maxInt64 - totalTokens.toNat - share : Nat), (share : Nat), true, ?_,
        Int.natCast_nonneg _, Int.natCast_nonneg _, by omega, fun _ => by omega,
        fun _ => by omega, fun _ => rfl⟩
      rw [hrun, ok_bind]
      show (convertTo64 _ >>= fun _ => _) = _
      rw [convertTo64_of_le (by omega), ok_bind, convertTo64_of_le (by omega)]
      rfl
    · -- no headroom: the division by zero
      have htot : totalTokens.toNat = maxInt64 := by omega
      refine iff_of_false ?_ ?_
      · rintro ⟨user, issuer, close, hrun, -⟩
        rw [htot, clampToHeadroom_full hmax hshare] at hrun
        cases hrun
      · omega
  · rw [if_neg hclamp, convertTo64_of_le (by omega), ok_bind, convertTo64_of_le (by omega)]
    refine iff_of_true ⟨units, issuerShare issuerPerc units, false, rfl, by omega, by omega,
      by omega, nofun, ?_⟩ (by omega)
    constructor
    · exact nofun
    · intro h
      omega

end Routine

/-- An open crowdsale with headroom: one coin buys one unit. -/
theorem calculateFundraiser_safe_small :
    (0 : Int) < 100000000 ∧
    ∃ user issuer close,
      calculateFundraiser false 100000000 0 10 5 1 0 7 false = .ok ((user, issuer), close) ∧
      0 ≤ user ∧ 0 ≤ issuer ∧ user + issuer + 7 ≤ maxInt64 ∧
      (close = true → user + issuer + 7 = maxInt64) ∧
      (close = true ↔ unclampedTotal (purchaseValue false 100000000 0 10 5 1) 0 7 > maxInt64) :=
  ⟨by decide, (calculateFundraiser_safe_iff false 0 0 (by decide) (by decide) (by decide) (by decide)
    (by decide) (by decide) (by decide) (by decide)).mpr (.inl (by decide))⟩

/-- **A purchase of one unit when the supply is used up** divides by zero. -/
theorem calculateFundraiser_full_supply :
    calculateFundraiser false 100000000 0 10 5 1 0 9223372036854775807 false =
      .error (.threw (.runtimeError "Division by zero")) := by
  decide +kernel

end Zcoin.Elysium
