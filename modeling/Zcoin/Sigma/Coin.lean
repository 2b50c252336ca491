/-
  Zcoin.Sigma.Coin — Sigma denominations (`sigma/coin.h`, `sigma/coin.cpp`)
  and the two info records of `coin_containers.h`.

  A Sigma-to-Lelantus joinsplit packs a denomination and a group id into one
  32-bit id, so these conversions sit on the Lelantus validation path too.
-/
import Zcoin.Basic

namespace Zcoin.Sigma

/-- `sigma::CoinDenomination`. -/
inductive CoinDenomination where
  | SIGMA_DENOM_0_05
  | SIGMA_DENOM_0_1
  | SIGMA_DENOM_0_5
  | SIGMA_DENOM_1
  | SIGMA_DENOM_10
  | SIGMA_DENOM_25
  | SIGMA_DENOM_100
  deriving DecidableEq, Repr

namespace CoinDenomination

/-- The denominations in the order of their enum values, the order in which a
`std::map` keyed by them is walked. -/
def all : List CoinDenomination :=
  [SIGMA_DENOM_0_1, SIGMA_DENOM_0_5, SIGMA_DENOM_1, SIGMA_DENOM_10, SIGMA_DENOM_100,
    SIGMA_DENOM_0_05, SIGMA_DENOM_25]

theorem mem_all (d : CoinDenomination) : d ∈ all := by
  cases d <;> decide

end CoinDenomination

open CoinDenomination

/-- `IntegerToDenomination`: `none` is the `false` of the source. -/
def integerToDenomination (value : Int) : Option CoinDenomination :=
  if value = 5 * CENT then some SIGMA_DENOM_0_05
  else if value = 10 * CENT then some SIGMA_DENOM_0_1
  else if value = 50 * CENT then some SIGMA_DENOM_0_5
  else if value = 1 * COIN then some SIGMA_DENOM_1
  else if value = 10 * COIN then some SIGMA_DENOM_10
  else if value = 25 * COIN then some SIGMA_DENOM_25
  else if value = 100 * COIN then some SIGMA_DENOM_100
  else none

/-- `DenominationToInteger`; every denomination of the enumeration has a value. -/
def denominationToInteger : CoinDenomination → Int
  | SIGMA_DENOM_0_05 => 5 * CENT
  | SIGMA_DENOM_0_1 => 10 * CENT
  | SIGMA_DENOM_0_5 => 50 * CENT
  | SIGMA_DENOM_1 => COIN
  | SIGMA_DENOM_10 => 10 * COIN
  | SIGMA_DENOM_25 => 25 * COIN
  | SIGMA_DENOM_100 => 100 * COIN

/-- `sigma::CMintedCoinInfo`. -/
structure CMintedCoinInfo where
  denomination : CoinDenomination
  coinGroupId : Int
  nHeight : Nat
  deriving DecidableEq, Repr

/-- `sigma::CSpendCoinInfo`. -/
structure CSpendCoinInfo where
  denomination : CoinDenomination
  coinGroupId : Int
  deriving DecidableEq, Repr

end Zcoin.Sigma
