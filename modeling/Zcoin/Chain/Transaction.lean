/-
  Zcoin.Chain.Transaction — transactions, blocks and the per-block collectors
  (`primitives/transaction.h`, `script/script.cpp`, `primitives/block.h`,
  `sigma.h`, `lelantus.h`).

  Scripts stay byte strings: which branch a validation routine takes is decided
  by their first byte, exactly as `CScript::IsLelantus…` does it.
-/
import Zcoin.Chain.BlockIndex

namespace Zcoin.Chain

/-! ## §1. Scripts. -/

abbrev CScript := List UInt8

def OP_ZEROCOINSPEND : UInt8 := 0xc2
def OP_SIGMAMINT : UInt8 := 0xc3
def OP_SIGMASPEND : UInt8 := 0xc4
def OP_LELANTUSMINT : UInt8 := 0xc5
def OP_LELANTUSJMINT : UInt8 := 0xc6
def OP_LELANTUSJOINSPLIT : UInt8 := 0xc7
def OP_ZEROCOINTOSIGMAREMINT : UInt8 := 0xc8

variable (script : CScript)

/-- The shape of every `CScript::Is…`: `size() > 0 && (*this)[0] == op`. -/
def CScript.startsWith (op : UInt8) : Bool := script.head? = some op

def CScript.isSigmaMint : Bool :=
  CScript.startsWith script OP_SIGMAMINT
def CScript.isLelantusMint : Bool :=
  CScript.startsWith script OP_LELANTUSMINT
def CScript.isLelantusJMint : Bool :=
  CScript.startsWith script OP_LELANTUSJMINT
def CScript.isLelantusJoinSplit : Bool :=
  CScript.startsWith script OP_LELANTUSJOINSPLIT

/-! ## §2. Transactions. -/

/-- `COutPoint`. -/
structure COutPoint where
  hash : Uint256
  n : UInt32
  deriving DecidableEq, Repr

def COutPoint.isNull (o : COutPoint) : Bool := o.hash = 0 && o.n = 0xffffffff

def COutPoint.isSigmaMintGroup (o : COutPoint) : Bool := o.hash = 0 && o.n ≥ 1

/-- `CTxIn`. -/
structure CTxIn where
  prevout : COutPoint
  scriptSig : CScript
  deriving DecidableEq, Repr

def CTxIn.isSigmaSpend (txin : CTxIn) : Bool :=
  txin.prevout.isSigmaMintGroup && CScript.startsWith txin.scriptSig OP_SIGMASPEND

def CTxIn.isZerocoinSpend (txin : CTxIn) : Bool :=
  txin.prevout.isNull && CScript.startsWith txin.scriptSig OP_ZEROCOINSPEND

def CTxIn.isZerocoinRemint (txin : CTxIn) : Bool :=
  txin.prevout.isNull && CScript.startsWith txin.scriptSig OP_ZEROCOINTOSIGMAREMINT

def CTxIn.isLelantusJoinSplit (txin : CTxIn) : Bool :=
  txin.prevout.isNull && CScript.startsWith txin.scriptSig OP_LELANTUSJOINSPLIT

/-- `CTxOut`. -/
structure CTxOut where
  nValue : CAmount
  scriptPubKey : CScript
  deriving DecidableEq, Repr

/-- `nType` of a transaction; `other` is any value the source gives no name. -/
inductive TxType where
  | normal
  | providerRegister
  | providerUpdateService
  | providerUpdateRegistrar
  | providerUpdateRevoke
  | coinbase
  | quorumCommitment
  | spork
  | other (nType : Int)
  deriving DecidableEq, Repr

/-- `CTransaction`, with the txid it caches at construction. -/
structure CTransaction where
  hash : Uint256
  vin : List CTxIn
  vout : List CTxOut
  nVersion : Int := 1
  nType : TxType := .normal
  vExtraPayload : List UInt8 := []
  deriving DecidableEq, Repr

def CTransaction.isSigmaSpend (tx : CTransaction) : Bool :=
  tx.vin.any CTxIn.isSigmaSpend

def CTransaction.isLelantusJoinSplit (tx : CTransaction) : Bool :=
  tx.vin.any CTxIn.isLelantusJoinSplit

def CTransaction.isZerocoinRemint (tx : CTransaction) : Bool :=
  tx.vin.any CTxIn.isZerocoinRemint

def CTransaction.isCoinBase (tx : CTransaction) : Bool :=
  match tx.vin with
  | [txin] => txin.prevout.isNull &&
      !(txin.isZerocoinSpend || txin.isZerocoinRemint || txin.isLelantusJoinSplit)
  | _ => false

def CTransaction.hasNoRegularInputs (tx : CTransaction) : Bool :=
  tx.vin.any CTxIn.isZerocoinSpend || tx.isSigmaSpend || tx.isZerocoinRemint ||
    tx.isLelantusJoinSplit

def CTransaction.getValueOut (tx : CTransaction) : CAmount := (tx.vout.map (·.nValue)).sum

def CTransaction.isLelantusMint (tx : CTransaction) : Bool :=
  tx.vout.any fun txout =>
    CScript.isLelantusMint txout.scriptPubKey || CScript.isLelantusJMint txout.scriptPubKey

def CTransaction.isLelantusTransaction (tx : CTransaction) : Bool :=
  tx.isLelantusMint || tx.isLelantusJoinSplit

/-! ## §3. What a block collects while its transactions are checked. -/

/-- `unordered_map::insert`: an entry whose key is present is not replaced. -/
def insertSerial {F V : Type} [DecidableEq F] (serials : List (F × V)) (entry : F × V) :
    List (F × V) :=
  if entry.1 ∈ serials.map Prod.fst then serials else serials ++ [entry]

section Unused

variable {F V : Type} [DecidableEq F] {used : F → Option V} {serials : List (F × V)} {e : F × V}

/-- **A serial that is not used yet** is entered at the end. -/
theorem insertSerial_unused (he : used e.1 = none) (hserials : ∀ e' ∈ serials, used e'.1 ≠ none) :
    insertSerial serials e = serials ++ [e] ∧
      ∀ e' ∈ serials ++ [e], Function.update used e.1 (some e.2) e'.1 ≠ none := by
  constructor
  · refine if_neg fun hmem => ?_
    obtain ⟨e', he', heq⟩ := List.mem_map.mp hmem
    exact hserials e' he' (heq ▸ he)
  · intro e' he'
    rw [Function.update_apply]
    split
    · simp
    · next hne =>
      rcases List.mem_append.mp he' with hold | hlast
      · exact hserials e' hold
      · exact absurd (congrArg Prod.fst (List.mem_singleton.mp hlast)) hne

/-- The serials are pairwise different and none of them is used. -/
structure FreshSpends (used : F → Option V) (serials : List (F × V)) : Prop where
  nodup : (serials.map Prod.fst).Nodup
  unused : ∀ e ∈ serials, used e.1 = none

theorem freshSpends_cons : FreshSpends used (e :: serials) ↔
    used e.1 = none ∧ FreshSpends (Function.update used e.1 (some e.2)) serials := by
  constructor
  · rintro ⟨hnodup, hunused⟩
    obtain ⟨he, hserials⟩ := List.forall_mem_cons.mp hunused
    rw [List.map_cons, List.nodup_cons] at hnodup
    refine ⟨he, hnodup.2, fun e' he' => ?_⟩
    have hne : e'.1 ≠ e.1 := fun heq => hnodup.1 (List.mem_map.mpr ⟨e', he', heq⟩)
    rw [Function.update_of_ne hne, hserials e' he']
  · rintro ⟨he, hnodup, hrest⟩
    have hother : ∀ e' ∈ serials, e'.1 ≠ e.1 ∧ used e'.1 = none := by
      intro e' he'
      have hnone := hrest e' he'
      rw [Function.update_apply] at hnone
      split at hnone
      · cases hnone
      · exact ⟨‹_›, hnone⟩
    refine ⟨?_, List.forall_mem_cons.mpr ⟨he, fun e' he' => (hother e' he').2⟩⟩
    rw [List.map_cons, List.nodup_cons, List.mem_map]
    exact ⟨fun ⟨e', he', heq⟩ => (hother e' he').1 heq, hnodup⟩

end Unused

/-- `lelantus::CLelantusTxInfo`. -/
structure CLelantusTxInfo (F G : Type) where
  zcTransactions : Finset Uint256 := ∅
  /-- `<pubCoin, <amount, hash>>` -/
  mints : List (G × UInt64 × Uint256) := []
  spentSerials : List (F × Int) := []
  fInfoIsComplete : Bool := false

/-- `sigma::CSigmaTxInfo`; a Sigma public coin is its value and denomination. -/
structure CSigmaTxInfo (F G : Type) where
  zcTransactions : Finset Uint256 := ∅
  mints : List (G × Sigma.CoinDenomination) := []
  spentSerials : List (F × Sigma.CSpendCoinInfo) := []
  fInfoIsComplete : Bool := false

/-- `CBlock`. -/
structure CBlock (F G : Type) where
  vtx : List CTransaction
  sigmaTxInfo : Option (CSigmaTxInfo F G) := none
  lelantusTxInfo : Option (CLelantusTxInfo F G) := none

/-! ## §4. Consensus parameters. -/

/-- The fields of `Consensus::Params` the modelled rules read. -/
structure ConsensusParams (G : Type) where
  nLelantusStartBlock : Nat
  nLelantusFixesStartBlock : Nat
  lelantusBlacklist : G → Bool
  sigmaBlacklist : G → Bool
  nStartSigmaBlacklist : Nat
  nMaxSigmaInputPerBlock : Nat
  nMaxValueSigmaSpendPerBlock : CAmount
  nMaxSigmaInputPerTransaction : Nat
  nMaxValueSigmaSpendPerTransaction : CAmount
  nMaxLelantusInputPerBlock : Nat
  nMaxValueLelantusSpendPerBlock : CAmount
  nMaxLelantusInputPerTransaction : Nat
  nMaxValueLelantusSpendPerTransaction : CAmount
  nMaxValueLelantusMint : CAmount

end Zcoin.Chain
