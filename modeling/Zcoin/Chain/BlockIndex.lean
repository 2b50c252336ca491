/-
  Zcoin.Chain.BlockIndex — `CBlockIndex` and the walks along `pprev`
  (`chain.h`, `CountCoinInBlock` of `lelantus.cpp`).

  **CONVENTIONS.**
  • A chain is the list of its block indexes, TIP FIRST: the tail of a suffix is
    what `pprev` points to, and the block at the head of `b :: rest` has height
    `rest.length`.
  • A `CBlockIndex*` into a chain is a height; `nullptr` is `none`.
  • A `std::map` is a `Std.ExtTreeMap` (walked in key order).  An
    `std::unordered_map` that is only queried is a function into `Option`; one
    that is walked is the list of its entries in iteration order.
-/
import Zcoin.Sigma.Coin

namespace Zcoin.Chain

open Std List

/-! ## §1. The block index. -/

/-- The fields of `CBlockIndex` that the Sigma and Lelantus states read and
write.  `F` is `Scalar`, `G` is `GroupElement`. -/
structure CBlockIndex (F G : Type) where
  /-- `GetBlockHash()` -/
  hash : Uint256
  sigmaMintedPubCoins : Sigma.CoinDenomination → ExtTreeMap Int (List G) := fun _ => ∅
  lelantusMintedPubCoins : ExtTreeMap Int (List (G × Uint256)) := ∅
  anonymitySetHash : ExtTreeMap Int (List UInt8) := ∅
  sigmaSpentSerials : List (F × Sigma.CSpendCoinInfo) := []
  lelantusSpentSerials : List (F × Int) := []
  /-- feature name to re-enabling height and parameter -/
  activeDisablingSporks : String → Option (Int × Int) := fun _ => none

/-- `CChain`. -/
abbrev CChain (F G : Type) := List (CBlockIndex F G)

variable {F G : Type}

/-- `CountCoinInBlock`. -/
def countCoinInBlock (index : CBlockIndex F G) (id : Int) : Nat :=
  match index.lelantusMintedPubCoins[id]? with
  | some coins => coins.length
  | none => 0

/-- `chainActive.Height()`: `-1` on an empty chain. -/
def height (chain : CChain F G) : Int := chain.length - 1

/-! ## §2. Following a block pointer. -/

/-- **The suffix of a chain whose head has height `h`**: what a pointer to that
block gives access to through `pprev`.  Empty when no block has that height. -/
def upTo {α : Type} : List α → Nat → List α
  | [], _ => []
  | b :: rest, h => if h = rest.length then b :: rest else upTo rest h

/-- The suffix behind a possibly null pointer. -/
def behind {α : Type} (chain : List α) : Option Nat → List α
  | none => []
  | some h => upTo chain h

variable {α : Type} {b : α} {rest chain : List α} {h : Nat}

theorem upTo_eq_nil_of_le (hle : chain.length ≤ h) : upTo chain h = [] := by
  induction chain with
  | nil => rfl
  | cons b rest ih =>
    rw [length_cons] at hle
    have hne : h ≠ rest.length := by omega
    simp only [upTo, hne, if_false]
    exact ih (by omega)

theorem upTo_eq_cons_of_lt (hlt : h < chain.length) :
    ∃ b rest, upTo chain h = b :: rest ∧ rest.length = h ∧ (b :: rest) <:+ chain := by
  induction chain with
  | nil => simp at hlt
  | cons b rest ih =>
    by_cases heq : h = rest.length
    · exact ⟨b, rest, by simp [upTo, heq], heq.symm, suffix_refl _⟩
    · rw [length_cons] at hlt
      obtain ⟨b', rest', hup, hlen, hsuf⟩ := ih (by omega)
      refine ⟨b', rest', ?_, hlen, hsuf.trans (suffix_cons _ _)⟩
      simpa [upTo, heq] using hup

theorem upTo_suffix (chain : List α) (h : Nat) : upTo chain h <:+ chain := by
  rcases Nat.lt_or_ge h chain.length with hlt | hge
  · obtain ⟨b, rest, hup, -, hsuf⟩ := upTo_eq_cons_of_lt hlt
    exact hup ▸ hsuf
  · rw [upTo_eq_nil_of_le hge]
    exact nil_suffix

theorem length_upTo (hlt : h < chain.length) : (upTo chain h).length = h + 1 := by
  obtain ⟨b, rest, hup, hrest, -⟩ := upTo_eq_cons_of_lt hlt
  rw [hup, length_cons, hrest]

theorem suffix_upTo (hsuf : (b :: rest) <:+ chain) (hle : rest.length ≤ h)
    (hlt : h < chain.length) : (b :: rest) <:+ upTo chain h := by
  refine suffix_of_suffix_length_le hsuf (upTo_suffix chain h) ?_
  rw [length_upTo hlt, length_cons]
  omega

theorem upTo_of_suffix (hsuf : (b :: rest) <:+ chain) : upTo chain rest.length = b :: rest := by
  have hlt : rest.length < chain.length := hsuf.length_le
  obtain ⟨b', rest', hup, hlen, hsuf'⟩ := upTo_eq_cons_of_lt hlt
  rw [hup]
  rcases suffix_or_suffix_of_suffix hsuf hsuf' with h | h
  · exact (h.eq_of_length (by simp [hlen])).symm
  · exact h.eq_of_length (by simp [hlen])

end Zcoin.Chain
