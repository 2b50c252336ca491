/-
  Zcoin.Basic — the machine-level vocabulary shared by every module.

  Amounts, hashes, the wrapping `size_t` subtraction, the two ways a C++
  routine stops without returning a value, and the record a validation
  routine leaves behind when it returns `false`.
-/
import Mathlib

namespace Zcoin

/-! ## §1. Scalars of the source language. -/

/-- `uint256`: an opaque 256-bit value (block hashes, txids, mint tags). -/
abbrev Uint256 := BitVec 256

/-- Hashes are keys of ordered maps and are compared. -/
instance instTransOrdUint256 : Std.TransOrd Uint256 := inferInstance

instance instLawfulBEqUint256 : LawfulBEq Uint256 := inferInstance

/-- `CAmount` (`int64_t`). -/
abbrev CAmount := Int

/-- `amount.h`: one coin, in the smallest unit. -/
def COIN : CAmount := 100000000

/-- `amount.h`: one cent. -/
def CENT : CAmount := 1000000

/-- `INT_MAX`, the height that marks a mempool check. -/
def INT_MAX : Nat := 2147483647

/-- `a - b` on `size_t`: the difference wraps when `b` exceeds `a`. -/
def sizeSub (a b : Nat) : Nat := if b ≤ a then a - b else a + 2 ^ 64 - b

theorem sizeSub_of_le {a b : Nat} (h : b ≤ a) : sizeSub a b = a - b := by
  simp [sizeSub, h]

/-! ## §2. Rejections and aborts. -/

/-- What `CValidationState::DoS` records, with the text `error(..)` logs when
the call goes through it. -/
structure Rejection where
  level : Nat
  code : Nat := 0
  reason : String := ""
  logged : String := ""
  deriving DecidableEq, Repr

/-- `consensus/validation.h`: the reject codes the modelled checks use. -/
def REJECT_MALFORMED : Nat := 0x01
def REJECT_INVALID : Nat := 0x10
def REJECT_CONFLICT : Nat := 0x102
def PUBCOIN_NOT_VALIDATE : Nat := 0x46
def NSEQUENCE_INCORRECT : Nat := 0x47
def NO_MINT_ZEROCOIN : Nat := 0x49

/-- The exceptions of the modelled routines. -/
inductive Exn where
  /-- `std::invalid_argument` -/
  | invalidArgument (what : String)
  /-- `std::ios_base::failure` -/
  | iosFailure
  /-- `CBadTxIn` -/
  | badTxIn
  /-- `std::runtime_error` -/
  | runtimeError (what : String)
  /-- `std::out_of_range` -/
  | outOfRange (what : String)
  /-- a string literal that is thrown as it is -/
  | text (what : String)
  deriving DecidableEq, Repr

/-- How a routine leaves without returning a value.  A caller may catch an
exception; the others stop the process or leave it undefined. -/
inductive Abort where
  /-- a failed `assert` -/
  | assertion
  /-- a null `CBlockIndex*` is dereferenced -/
  | nullPointer
  /-- a `std::vector` is indexed, or a buffer read, outside its elements -/
  | outOfRange
  /-- an integer operation leaves the range of its type; the model stops there, so that
  "no operation wraps around" can be said -/
  | overflow
  | threw (e : Exn)
  deriving DecidableEq, Repr

/-- `assert(b)`. -/
def assertThat (b : Bool) : Except Abort Unit :=
  if b then .ok () else .error .assertion

@[simp] theorem assertThat_true : assertThat true = .ok () := rfl

@[simp] theorem assertThat_false : assertThat false = .error .assertion := rfl

/-- The value of a `bool` validation routine, with what `DoS` recorded when it
is `false` (`none`: a plain `return false`). -/
inductive Verdict where
  | accepted
  | rejected (r : Option Rejection)
  deriving DecidableEq, Repr

/-- `return state.DoS(..)`. -/
def Verdict.dos (r : Rejection) : Verdict := .rejected (some r)

/-- How a `bool` validation routine ends early from somewhere in its middle. -/
inductive Stop where
  | rejected (r : Option Rejection)
  | aborted (a : Abort)
  deriving DecidableEq, Repr

/-- `if (b) return state.DoS(level, false, code, reason)`. -/
def rejectIf (b : Bool) (level code : Nat) (reason : String) : Except Stop Unit :=
  if b then .error (.rejected (some { level, code, reason })) else .ok ()

@[simp] theorem rejectIf_eq_ok {b : Bool} {level code : Nat} {reason : String} {u : Unit} :
    rejectIf b level code reason = .ok u ↔ b = false := by
  cases b <;> simp [rejectIf]

end Zcoin
