/-
  Zcoin.Evo.ProviderTx — the checks of provider transactions (`evo/providertx.cpp`).

  `CheckProRegTx` asks for a signature with the key of an external collateral and knows
  that there is one by a key id that is not null.  A collateral that pays to the null
  key id is therefore registered without any signature, and that is the only one.
-/
import Zcoin.Evo.BuildList
import Zcoin.Lib.BigEndian

namespace Zcoin.Evo

open Chain Lib.Except

/-! ## §1. Payloads and what they are checked against. -/

/-- `CProRegTx`, with the fields that are only checked; `ι` is the type of the hashes over
inputs. -/
structure ProRegPayload (ι : Type) extends CProRegTx where
  nVersion : UInt16 := 1
  nType : UInt16 := 0
  nMode : UInt16 := 0
  inputsHash : ι
  vchSig : List UInt8 := []

/-- `CTxDestination`, where there is one. -/
inductive CTxDestination where
  | keyID (id : CKeyID)
  | scriptID (id : BitVec 160)
  deriving DecidableEq

/-- `CBitcoinAddress(dest).GetKeyID(..)`. -/
def CTxDestination.getKeyID : CTxDestination → Option CKeyID
  | .keyID id => some id
  | .scriptID _ => none

inductive Network where
  | main | test | regtest
  deriving DecidableEq

/-- Serialisation, hashes, signatures and the parameters of the network. -/
structure ProviderEnv (η ι : Type) where
  serializeHash : UniqueProperty → η
  /-- `GetTxPayload` -/
  proRegTx : CTransaction → Option (ProRegPayload ι)
  /-- the hash over the prevouts -/
  hashPrevouts : List COutPoint → ι
  extractDestination : CScript → Option CTxDestination
  /-- the id of the key that `RecoverCompact` finds for `MakeSignString()` and 65 bytes -/
  recoverMessage : ProRegPayload ι → List UInt8 → Option CKeyID
  network : Network
  isValid : CService → Bool
  isRoutable : CService → Bool
  isIPv4 : CService → Bool
  getPort : CService → Nat
  mainnetDefaultPort : Nat

/-- What a check reads of the chain; the list and `IsDIP3Enforced` of `pindexPrev`, if there
is one. -/
structure ProviderContext (η : Type) where
  getUTXOCoin : COutPoint → Option CTxOut
  prev : Option (CDeterministicMNList η × Bool)

/-- `if (!found) return state.DoS(level, false, REJECT_INVALID, reason)`. -/
def orReject {α : Type} (found : Option α) (level : Nat) (reason : String) : Except Stop α :=
  match found with
  | some a => .ok a
  | none => .error (.rejected (some { level, code := REJECT_INVALID, reason }))

@[simp] theorem orReject_eq_ok {α : Type} {found : Option α} {level : Nat} {reason : String}
    {a : α} : orReject found level reason = .ok a ↔ found = some a := by
  cases found <;> simp [orReject]

def isPayToPublicKeyHash (script : CScript) : Bool :=
  script.length = 25 && script.take 3 = [0x76, 0xa9, 0x14] && script.drop 23 = [0x88, 0xac]

def isPayToScriptHash (script : CScript) : Bool :=
  script.length = 23 && script.take 2 = [0xa9, 0x14] && script.drop 22 = [0x87]

section Checks

variable {η ι : Type} [DecidableEq ι] (env : ProviderEnv η ι) (ctx : ProviderContext η)

/-- `CalcTxInputsHash`. -/
def calcTxInputsHash (tx : CTransaction) : ι := env.hashPrevouts (tx.vin.map (·.prevout))

/-- `CheckInputsHash`. -/
def checkInputsHash (tx : CTransaction) (inputsHash : ι) : Except Stop Unit :=
  rejectIf (calcTxInputsHash env tx ≠ inputsHash) 100 REJECT_INVALID "bad-protx-inputs-hash"

/-- `CheckService`. -/
def checkService (addr : CService) : Except Stop Unit := do
  rejectIf (!env.isValid addr) 10 REJECT_INVALID "bad-protx-addr"
  rejectIf (env.network ≠ .regtest && !env.isRoutable addr) 10 REJECT_INVALID "bad-protx-addr"
  rejectIf (if env.network = .main then env.getPort addr ≠ env.mainnetDefaultPort
    else env.getPort addr = env.mainnetDefaultPort) 10 REJECT_INVALID "bad-protx-addr-port"
  rejectIf (!env.isIPv4 addr) 10 REJECT_INVALID "bad-protx-addr"

/-- `CMessageSigner::VerifyMessage` on the message of a registration. -/
def verifyMessage (keyID : CKeyID) (ptx : ProRegPayload ι) : Bool :=
  ptx.vchSig.length = 65 && env.recoverMessage ptx ptx.vchSig = some keyID

/-! ## §2. Registrations. -/

/-- The collateral: whom it pays, the key that has to sign for it (null for an output of the
transaction itself) and where it is. -/
def checkCollateral (tx : CTransaction) (ptx : ProRegPayload ι) :
    Except Stop (CTxDestination × CKeyID × COutPoint) :=
  if ptx.collateralOutpoint.hash ≠ 0 then do
    let coin ← orReject ((ctx.getUTXOCoin ptx.collateralOutpoint).filter
      (·.nValue = 1000 * COIN)) 10 "bad-protx-collateral"
    let collateralTxDest ← orReject (env.extractDestination coin.scriptPubKey) 10
      "bad-protx-collateral-dest"
    -- only pay-to-pubkey and pay-to-pubkey-hash
    let keyForPayloadSig ← orReject collateralTxDest.getKeyID 10 "bad-protx-collateral-pkh"
    return (collateralTxDest, keyForPayloadSig, ptx.collateralOutpoint)
  else do
    let out ← orReject tx.vout[ptx.collateralOutpoint.n.toNat]? 10 "bad-protx-collateral-index"
    rejectIf (out.nValue ≠ 1000 * COIN) 10 REJECT_INVALID "bad-protx-collateral"
    let collateralTxDest ← orReject (env.extractDestination out.scriptPubKey) 10
      "bad-protx-collateral-dest"
    return (collateralTxDest, 0, ⟨tx.hash, ptx.collateralOutpoint.n⟩)

/-- The checks against the list of the previous block. -/
def checkListed (ptx : ProRegPayload ι) (collateralOutpoint : COutPoint)
    (prev : CDeterministicMNList η × Bool) : Except Stop Unit := do
  if prev.1.hasUniqueProperty env.serializeHash (.service ptx.addr) then
    -- only the masternode that this one replaces may have the address
    let other ← deref (prev.1.getUniquePropertyMN env.serializeHash (.service ptx.addr))
    rejectIf (other.collateralOutpoint ≠ collateralOutpoint) 10 REJECT_DUPLICATE
      "bad-protx-dup-addr"
  rejectIf (prev.1.hasUniqueProperty env.serializeHash (.keyID ptx.keyIDOwner) ||
    prev.1.hasUniqueProperty env.serializeHash (.operatorKey ptx.pubKeyOperator)) 10
    REJECT_DUPLICATE "bad-protx-dup-key"
  rejectIf (!prev.2 && ptx.keyIDOwner ≠ ptx.keyIDVoting) 10 REJECT_INVALID "bad-protx-key-not-same"

/-- The signature: one of the collateral's key, or none. -/
def checkPayloadSig (keyForPayloadSig : CKeyID) (ptx : ProRegPayload ι) : Except Stop Unit :=
  rejectIf (if keyForPayloadSig ≠ 0 then !verifyMessage env keyForPayloadSig ptx
    else !ptx.vchSig.isEmpty) 100 REJECT_INVALID "bad-protx-sig"

/-- The checks of a payload by itself. -/
def checkFields (ptx : ProRegPayload ι) : Except Stop Unit := do
  rejectIf (ptx.nVersion = 0 || ptx.nVersion > 1) 100 REJECT_INVALID "bad-protx-version"
  rejectIf (ptx.nType ≠ 0) 100 REJECT_INVALID "bad-protx-type"
  rejectIf (ptx.nMode ≠ 0) 100 REJECT_INVALID "bad-protx-mode"
  rejectIf (ptx.keyIDOwner = 0 || !CBLSPublicKey.isValid ptx.pubKeyOperator ||
    ptx.keyIDVoting = 0) 10 REJECT_INVALID "bad-protx-key-null"
  rejectIf (!isPayToPublicKeyHash ptx.scriptPayout && !isPayToScriptHash ptx.scriptPayout) 10
    REJECT_INVALID "bad-protx-payee"
  let payoutDest ← orReject (env.extractDestination ptx.scriptPayout) 10 "bad-protx-payee-dest"
  rejectIf (payoutDest = .keyID ptx.keyIDOwner || payoutDest = .keyID ptx.keyIDVoting) 10
    REJECT_INVALID "bad-protx-payee-reuse"
  -- without an address the masternode starts banned
  if ptx.addr ≠ 0 then checkService env ptx.addr
  rejectIf (ptx.nOperatorReward > 10000) 10 REJECT_INVALID "bad-protx-operator-reward"

/-- `CheckProRegTx`. -/
def checkProRegTx (tx : CTransaction) : Except Stop Unit := do
  rejectIf (tx.nType ≠ .providerRegister) 100 REJECT_INVALID "bad-protx-type"
  let ptx ← orReject (env.proRegTx tx) 100 "bad-protx-payload"
  checkFields env ptx
  let (collateralTxDest, keyForPayloadSig, collateralOutpoint) ← checkCollateral env ctx tx ptx
  rejectIf (collateralTxDest = .keyID ptx.keyIDOwner || collateralTxDest = .keyID ptx.keyIDVoting)
    10 REJECT_INVALID "bad-protx-collateral-reuse"
  ctx.prev.forM (checkListed env ptx collateralOutpoint)
  checkInputsHash env tx ptx.inputsHash
  checkPayloadSig env keyForPayloadSig ptx

variable {env ctx} {tx : CTransaction} {ptx : ProRegPayload ι}

omit [DecidableEq ι] in
theorem checkCollateral_external {dest : CTxDestination} {key : CKeyID} {outpoint : COutPoint}
    (hext : ptx.collateralOutpoint.hash ≠ 0)
    (h : checkCollateral env ctx tx ptx = .ok (dest, key, outpoint)) :
    ∃ coin, ctx.getUTXOCoin ptx.collateralOutpoint = some coin ∧
      env.extractDestination coin.scriptPubKey = some (.keyID key) := by
  unfold checkCollateral at h
  rw [if_pos hext] at h
  simp only [bind_eq_ok, orReject_eq_ok, pure_eq_ok, Except.ok.injEq, Prod.mk.injEq,
    Option.filter_eq_some_iff] at h
  obtain ⟨coin, ⟨hcoin, -⟩, dest', hdest, key', hkey, -, rfl, -⟩ := h
  refine ⟨coin, hcoin, hdest.trans ?_⟩
  cases dest' with
  | keyID id => exact congrArg (some ∘ CTxDestination.keyID) (Option.some.inj hkey)
  | scriptID id => cases hkey

/-- **An external collateral is signed for exactly when it does not pay to the null key**. -/
theorem checkProRegTx_signed_iff (hptx : env.proRegTx tx = some ptx)
    (hext : ptx.collateralOutpoint.hash ≠ 0) (h : checkProRegTx env ctx tx = .ok ()) :
    ∃ coin key, ctx.getUTXOCoin ptx.collateralOutpoint = some coin ∧
      env.extractDestination coin.scriptPubKey = some (.keyID key) ∧
      (verifyMessage env key ptx = true ↔ key ≠ 0) := by
  simp only [checkProRegTx, bind_eq_ok, orReject_eq_ok, hptx, Option.some.injEq] at h
  obtain ⟨_, -, _, rfl, _, -, ⟨dest, key, outpoint⟩, hcollateral, _, -, _, -, _, -, hsig⟩ := h
  obtain ⟨coin, hcoin, hdest⟩ := checkCollateral_external hext hcollateral
  refine ⟨coin, key, hcoin, hdest, ?_⟩
  simp only [checkPayloadSig, rejectIf_eq_ok] at hsig
  by_cases hkey : key = 0
  · -- the signature has to be empty, and an empty one is of no key
    rw [if_neg (not_not.mpr hkey), Bool.not_eq_false', List.isEmpty_iff] at hsig
    simp [verifyMessage, hsig, hkey]
  · rw [if_pos hkey, Bool.not_eq_false'] at hsig
    exact iff_of_true hsig hkey

end Checks

/-- A registration with an external collateral. -/
def sampleRegistration (vchSig : List UInt8) : CTransaction :=
  { hash := 5, vin := [⟨⟨4, 0⟩, []⟩], vout := [], nType := .providerRegister
    vExtraPayload := vchSig }

def samplePayload (tx : CTransaction) : ProRegPayload (List COutPoint) :=
  { collateralOutpoint := ⟨7, 0⟩, addr := 0, keyIDOwner := 1, pubKeyOperator := 2
    keyIDVoting := 1, nOperatorReward := 0
    scriptPayout := [0xa9, 0x14] ++ List.replicate 20 9 ++ [0x87]
    inputsHash := tx.vin.map (·.prevout), vchSig := tx.vExtraPayload }

/-- The number of some bytes as a key. -/
def sampleKey (bytes : List UInt8) : BitVec 160 := .ofNat 160 (Lib.BigEndian.readBigEndian bytes)

/-- A network that knows the scripts to a key, and on which the first bytes of a signature name
its key. -/
def sampleProviderEnv : ProviderEnv UniqueProperty (List COutPoint) where
  serializeHash := id
  proRegTx tx := some (samplePayload tx)
  hashPrevouts := id
  extractDestination script :=
    some (if script.length = 25 then .keyID (sampleKey ((script.drop 3).take 20)) else .scriptID 9)
  recoverMessage _ vchSig := some (sampleKey (vchSig.take 20))
  network := .regtest
  isValid _ := true
  isRoutable _ := true
  isIPv4 _ := true
  getPort _ := 0
  mainnetDefaultPort := 8168

/-- All coins are collaterals that pay to the key of twenty bytes `b`: `OP_DUP OP_HASH160`, the
key, `OP_EQUALVERIFY OP_CHECKSIG`. -/
def sampleCollateral (b : UInt8) : ProviderContext UniqueProperty :=
  ⟨fun _ => some ⟨1000 * COIN,
    [0x76, 0xa9, 0x14] ++ List.replicate 20 b ++ [0x88, 0xac]⟩, none⟩

theorem checkProRegTx_signed_key : ∃ coin key,
    (sampleCollateral 3).getUTXOCoin ⟨7, 0⟩ = some coin ∧
      sampleProviderEnv.extractDestination coin.scriptPubKey = some (.keyID key) ∧
      (verifyMessage sampleProviderEnv key
        (samplePayload (sampleRegistration (List.replicate 65 3))) = true ↔ key ≠ 0) :=
  @checkProRegTx_signed_iff _ _ _ _ _ _ (samplePayload _) rfl (by decide) (by decide +kernel)

/-- **A collateral of the null key** is registered without a signature. -/
theorem null_key_registered :
    checkProRegTx sampleProviderEnv (sampleCollateral 0) (sampleRegistration []) = .ok () ∧
      sampleProviderEnv.proRegTx (sampleRegistration []) =
        some (samplePayload (sampleRegistration [])) ∧
      verifyMessage sampleProviderEnv 0 (samplePayload (sampleRegistration [])) = false :=
  ⟨by decide +kernel, rfl, rfl⟩

end Zcoin.Evo
