/-
  Zcoin.Wallet.MintCounter — the counts new Lelantus mints are made from (`hdmint/wallet.cpp`,
  `CreateLelantusMintRecipient` and `MintAndStoreLelantus`, `wallet.cpp`; `GenerateMints`,
  `lelantusjoinsplitbuilder.cpp`).

  The serial number of a mint depends on its count alone.  A count is passed over when its coin
  with the same amount is known or when its tag is on the chain, so a mint of another amount that
  is recorded and not on the chain, or that is there without a tag, is noticed by neither test:
  only the counter keeps its count from being used again.
-/
import Zcoin.Basic
import Zcoin.Lib.Loop

namespace Zcoin.Wallet

open Function Lib

variable {S G : Type} [AddCommGroup G] [DecidableEq G]

/-! ## §1. Mints of a seed. -/

/-- What the seed of a wallet gives for a count. -/
structure MintSeed (S G : Type) where
  serial : Nat → S
  serial_injective : Injective serial
  /-- the commitment to serial number and randomness -/
  blinded : Nat → G
  /-- `GetMintSeedID` -/
  seedID : Nat → BitVec 160
  h1 : G
  /-- `Hash` of a public coin's hash and a seed id -/
  hashForRecover : G → BitVec 160 → Uint256

/-- The counter in memory and in the database, the count and amount of each mint in the
database, and the public coins of the Lelantus state with their tags.  A mint script without a tag
(`skipTag`) has the tag zero. -/
structure MintWallet (G : Type) where
  nCountNextUse : Nat := 0
  mintCount : Nat := 0
  hdMints : List (Nat × CAmount) := []
  chain : List (G × Uint256) := []

variable (seed : MintSeed S G) (w : MintWallet G) (amount : CAmount)

def publicCoin (count : Nat) : G := seed.blinded count + amount • seed.h1

/-- `hashForRecover`, from which the amount is taken out again. -/
def mintTag (count : Nat) : Uint256 :=
  seed.hashForRecover (publicCoin seed amount count + (-amount) • seed.h1) (seed.seedID count)

/-- `walletdb.HasHDMint(..) || lelantusState->HasCoin(..)`. -/
def isTaken (count : Nat) : Bool :=
  w.hdMints.any (fun mint => publicCoin seed mint.2 mint.1 == publicCoin seed amount count) ||
    w.chain.any (·.1 == publicCoin seed amount count)

def hasCoinTag (tag : Uint256) : Bool := w.chain.any (·.2 == tag)

/-- `GenerateLelantusMint` from a value of `nCountNextUse`: the count it takes, after which the
counter is one more.  `none`: the loop does not end. -/
def generateLelantusMint (next : Nat) : Option Nat :=
  Loop.run ⟨fun next =>
    some (if isTaken seed w amount next then .inl (next + 1) else .inr next)⟩ next

/-- `CreateLelantusMintRecipient`. -/
def createLelantusMintRecipient (next : Nat) : Option Nat :=
  Loop.run ⟨fun next => do
    let count ← generateLelantusMint seed w amount next
    return if hasCoinTag w (mintTag seed amount count) then .inl (count + 1) else .inr count⟩ next

/-- `GenerateMints`, with the same loop for every amount. -/
def generateMints : List CAmount → Nat → Option (List Nat)
  | [], _ => some []
  | amount :: amounts, next => do
    let count ← createLelantusMintRecipient seed w amount next
    let counts ← generateMints amounts (count + 1)
    return count :: counts

/-- `MintAndStoreLelantus`, one transaction for each amount.  `CommitTransaction` never fails; with
`stop` the process ends when that many mints are recorded, before `UpdateCountDB`. -/
def mintAndStoreLelantus (amounts : List CAmount) (stop : Option Nat) :
    Option (MintWallet G) := do
  let counts ← generateMints seed w amounts w.nCountNextUse
  let nCountNextUse := (counts.getLast?.map (· + 1)).getD w.nCountNextUse
  return { w with
    nCountNextUse
    mintCount := if stop.isSome then w.mintCount else nCountNextUse
    hdMints := w.hdMints ++ (counts.zip amounts).take (stop.getD amounts.length) }

/-- `SetupWallet` after a restart. -/
def setupWallet : MintWallet G := { w with nCountNextUse := w.mintCount }

/-! ## §2. What the loops find. -/

/-- Neither test passes over the count. -/
def Open (count : Nat) : Prop :=
  isTaken seed w amount count = false ∧ hasCoinTag w (mintTag seed amount count) = false

variable {seed w amount} {next count : Nat}

omit [DecidableEq G] in
theorem mintTag_eq (amount' : CAmount) : mintTag seed amount count = mintTag seed amount' count := by
  simp [mintTag, publicCoin]

theorem generateLelantusMint_spec (h : generateLelantusMint seed w amount next = some count) :
    next ≤ count ∧ isTaken seed w amount count = false := by
  refine Loop.run_spec (fun next count => next ≤ count ∧ isTaken seed w amount count = false)
    (fun next r hr => ?_) h
  cases hr
  split
  · exact fun count h => h.imp_left Nat.le_of_succ_le
  · next hfree => exact ⟨le_rfl, Bool.eq_false_iff.mpr hfree⟩

/-- **The count of a new mint** is open and not below the counter. -/
theorem createLelantusMintRecipient_spec
    (h : createLelantusMintRecipient seed w amount next = some count) :
    next ≤ count ∧ Open seed w amount count := by
  refine Loop.run_spec (fun next count => next ≤ count ∧ Open seed w amount count)
    (fun next r hr => ?_) h
  obtain ⟨found, hfound, hr⟩ := Option.bind_eq_some_iff.mp hr
  obtain ⟨hle, hfree⟩ := generateLelantusMint_spec hfound
  cases hr
  split
  · exact fun count h => h.imp_left fun hlt => hle.trans (Nat.le_of_succ_le hlt)
  · next htag => exact ⟨hle, hfree, Bool.eq_false_iff.mpr htag⟩

theorem generateMints_spec {amounts : List CAmount} {counts : List Nat}
    (h : generateMints seed w amounts next = some counts) :
    ∀ count ∈ counts, next ≤ count ∧ ∃ amount, Open seed w amount count := by
  induction amounts generalizing next counts with
  | nil =>
    cases h
    simp
  | cons amount amounts ih =>
    obtain ⟨first, hfirst, h⟩ := Option.bind_eq_some_iff.mp h
    obtain ⟨rest, hrest, h⟩ := Option.bind_eq_some_iff.mp h
    cases h
    obtain ⟨hle, hopen⟩ := createLelantusMintRecipient_spec hfirst
    rw [List.forall_mem_cons]
    refine ⟨⟨hle, amount, hopen⟩, fun count hcount => ?_⟩
    exact (ih hrest count hcount).imp_left fun hlt => hle.trans (Nat.le_of_succ_le hlt)

theorem createLelantusMintRecipient_of_open (h : Open seed w amount next) :
    createLelantusMintRecipient seed w amount next = some next := by
  rw [createLelantusMintRecipient, Loop.run_eq]
  dsimp only
  rw [generateLelantusMint, Loop.run_eq]
  simp [h.1, h.2]

theorem createLelantusMintRecipient_of_not_open (h : ¬ Open seed w amount next) :
    createLelantusMintRecipient seed w amount next =
      createLelantusMintRecipient seed w amount (next + 1) := by
  have hfound : generateLelantusMint seed w amount next =
      if isTaken seed w amount next then generateLelantusMint seed w amount (next + 1)
      else some next := by
    rw [generateLelantusMint, Loop.run_eq]
    dsimp only
    split <;> rfl
  rw [createLelantusMintRecipient, Loop.run_eq]
  dsimp only
  rw [hfound]
  cases htaken : isTaken seed w amount next with
  | true =>
    rw [if_pos rfl, createLelantusMintRecipient, Loop.run_eq]
  | false =>
    have htag : hasCoinTag w (mintTag seed amount next) = true := by simpa [Open, htaken] using h
    simp [htag]
    rfl

/-- **Every open count comes up** when the right amounts are minted. -/
theorem exists_generateMints (hopen : Open seed w amount count) (hle : next ≤ count) :
    ∃ first amounts counts, generateMints seed w (first :: amounts) next = some counts ∧
      count ∈ counts := by
  induction hle using Nat.decreasingInduction with
  | self =>
    refine ⟨amount, [], [count], ?_, by simp⟩
    simp [generateMints, createLelantusMintRecipient_of_open hopen]
  | of_succ next hlt ih =>
    obtain ⟨first, amounts, counts, hrun, hmem⟩ := ih
    by_cases hnext : ∃ here, Open seed w here next
    · obtain ⟨here, hnext⟩ := hnext
      refine ⟨here, first :: amounts, next :: counts, ?_, List.mem_cons_of_mem _ hmem⟩
      rw [generateMints, createLelantusMintRecipient_of_open hnext, Option.bind_eq_bind,
        Option.bind_some, hrun]
      rfl
    · refine ⟨first, amounts, counts, ?_, hmem⟩
      rw [generateMints, createLelantusMintRecipient_of_not_open fun h => hnext ⟨first, h⟩]
      exact hrun

/-! ## §3. Fresh serial numbers. -/

/-- The coin is in the database, or on the chain with or without its tag. -/
def Known (seed : MintSeed S G) (w : MintWallet G) (mint : Nat × CAmount) : Prop :=
  mint ∈ w.hdMints ∨ publicCoin seed mint.2 mint.1 ∈ w.chain.map Prod.fst

def sampleSeed : MintSeed Nat Int where
  serial := id
  serial_injective := injective_id
  blinded count := 1000 * count
  seedID := BitVec.ofNat 160
  h1 := 1
  hashForRecover coin _ := BitVec.ofInt 256 (coin + 1)

end Zcoin.Wallet
