/-
  Zcoin.LibLelantus.Proof — the proof objects a joinsplit carries
  (`sigmaextended_proof.h`, `schnorr_proof.h`, `innerproduct_proof.h`,
  `range_proof.h`, `lelantus_proof.h`, `joinsplit.h`).

  Every vector is deserialised with its OWN length, so the lists below have
  independent lengths: nothing here ties them to the protocol parameters.
-/
import Zcoin.Basic

namespace Zcoin.LibLelantus

variable (F G : Type)

/-- `SigmaExtendedProof`. -/
structure SigmaExtendedProof where
  A : G
  B : G
  C : G
  D : G
  f : List F
  ZA : F
  ZC : F
  Gk : List G
  Qk : List G
  zV : F
  zR : F
  deriving DecidableEq, Repr

/-- `SchnorrProof`. -/
structure SchnorrProof where
  u : G
  P1 : F
  T1 : F
  deriving DecidableEq, Repr

/-- `InnerProductProof`. -/
structure InnerProductProof where
  a : F
  b : F
  c : F
  L : List G
  R : List G
  deriving DecidableEq, Repr

/-- `RangeProof`. -/
structure RangeProof where
  A : G
  S : G
  T1 : G
  T2 : G
  T_x1 : F
  T_x2 : F
  u : F
  innerProductProof : InnerProductProof F G
  deriving DecidableEq, Repr

/-- `LelantusProof`. -/
structure LelantusProof where
  sigma_proofs : List (SigmaExtendedProof F G)
  bulletproofs : RangeProof F G
  schnorrProof : SchnorrProof F G
  deriving DecidableEq, Repr

/-! ## Private coins. -/

/-- `PrivateCoin` (`coin.h`). -/
structure PrivateCoin where
  publicCoin : G
  serialNumber : F
  value : UInt64
  randomness : F
  version : Nat
  ecdsaSeckey : List UInt8
  deriving DecidableEq, Repr

/-! ## Transaction versions. -/

def LELANTUS_TX_VERSION_4 : Nat := 40
def SIGMA_TO_LELANTUS_JOINSPLIT : Nat := 41
def LELANTUS_TX_VERSION_4_5 : Nat := 45
def SIGMA_TO_LELANTUS_JOINSPLIT_FIXED : Nat := 46

/-- `JoinSplit`, as it comes out of deserialisation. -/
structure JoinSplit where
  version : Nat
  lelantusProof : LelantusProof F G
  qkSchnorrProof : SchnorrProof F G
  serialNumbers : List F
  groupIds : List UInt32
  ecdsaSignatures : List (List UInt8)
  ecdsaPubkeys : List (List UInt8)
  coinGroupIdAndBlockHash : List (UInt32 × Uint256)
  fee : UInt64
  deriving DecidableEq

/-- `JoinSplit::isSigmaToLelantus`. -/
def JoinSplit.isSigmaToLelantus {F G : Type} (j : JoinSplit F G) : Bool :=
  j.version = SIGMA_TO_LELANTUS_JOINSPLIT || j.version = SIGMA_TO_LELANTUS_JOINSPLIT_FIXED

end Zcoin.LibLelantus
