/-
  Zcoin.Sigma.State — `CSigmaState` and its `Containers` (`sigma.h`, `sigma.cpp`).

  The older sibling of the Lelantus state.  Groups and counts are kept per
  DENOMINATION, a full group is followed by an empty one (nothing is inherited),
  and `AddSpend` does not look at the group at all.
-/
import Zcoin.Chain.Transaction

namespace Zcoin.Sigma

open Chain Std

/-! ## §1. Data. -/

/-- `CSigmaState::SigmaCoinGroupInfo`; block pointers are heights. -/
structure SigmaCoinGroupInfo where
  firstBlock : Option Nat := none
  lastBlock : Option Nat := none
  nCoins : Nat := 0
  deriving DecidableEq, Repr

/-- `metainfo_container_t`.  `operator[]` inserts a zero for every pair that is
looked up; a missing count is read as 0 here. -/
abbrev MetaInfo := CoinDenomination → ExtTreeMap Int Nat

/-- `CSigmaState::Containers`.  Two public coins are equal when their values are,
so the coin map is keyed by the value. -/
structure Containers (F G : Type) where
  mintedPubCoins : G → Option CMintedCoinInfo := fun _ => none
  usedCoinSerials : F → Option CSpendCoinInfo := fun _ => none
  mintMetaInfo : MetaInfo := fun _ => ∅
  spendMetaInfo : MetaInfo := fun _ => ∅
  surgeCondition : Bool := false

/-- `CSigmaState`.  The mempool part lives elsewhere in the source. -/
structure CSigmaState (F G : Type) where
  coinGroups : CoinDenomination × Int → Option SigmaCoinGroupInfo := fun _ => none
  latestCoinIds : CoinDenomination → Option Int := fun _ => none
  containers : Containers F G := {}

variable {F G : Type} [DecidableEq F] [DecidableEq G]

/-! ## §2. Containers. -/

/-- `metaInfo[groupId][denom]`. -/
def MetaInfo.count (metaInfo : MetaInfo) (groupId : Int) (denom : CoinDenomination) : Nat :=
  (metaInfo denom).getD groupId 0

/-- `metaInfo[groupId][denom] += 1`. -/
def MetaInfo.bump (metaInfo : MetaInfo) (groupId : Int) (denom : CoinDenomination) : MetaInfo :=
  Function.update metaInfo denom
    ((metaInfo denom).insert groupId (metaInfo.count groupId denom + 1))

/-- `metaInfo[groupId][denom] -= 1`, on a `size_t`. -/
def MetaInfo.drop (metaInfo : MetaInfo) (groupId : Int) (denom : CoinDenomination) : MetaInfo :=
  Function.update metaInfo denom
    ((metaInfo denom).insert groupId (sizeSub (metaInfo.count groupId denom) 1))

namespace Containers

variable (c : Containers F G)

/-- `Containers::CheckSurgeCondition`: some pair has more spends than mints. -/
def checkSurgeCondition (groupId : Int) (denom : CoinDenomination) : Containers F G :=
  { c with
    surgeCondition :=
      decide (c.spendMetaInfo.count groupId denom > c.mintMetaInfo.count groupId denom) ||
        CoinDenomination.all.any fun d => (c.spendMetaInfo d).toList.any fun e =>
          decide (e.2 > c.mintMetaInfo.count e.1 d) }

/-- `Containers::AddMint`. -/
def addMint (pubCoin : G) (coinInfo : CMintedCoinInfo) : Containers F G :=
  checkSurgeCondition
    { c with
      mintedPubCoins :=
        if (c.mintedPubCoins pubCoin).isSome then c.mintedPubCoins
        else Function.update c.mintedPubCoins pubCoin (some coinInfo)
      mintMetaInfo := c.mintMetaInfo.bump coinInfo.coinGroupId coinInfo.denomination }
    coinInfo.coinGroupId coinInfo.denomination

/-- `Containers::AddSpend`. -/
def addSpend (serial : F) (coinInfo : CSpendCoinInfo) : Containers F G :=
  checkSurgeCondition
    { c with
      usedCoinSerials := Function.update c.usedCoinSerials serial (some coinInfo)
      spendMetaInfo := c.spendMetaInfo.bump coinInfo.coinGroupId coinInfo.denomination }
    coinInfo.coinGroupId coinInfo.denomination

/-- `Containers::RemoveMint`. -/
def removeMint (pubCoin : G) : Containers F G :=
  match c.mintedPubCoins pubCoin with
  | none => c
  | some info =>
    checkSurgeCondition
      { c with
        mintMetaInfo := c.mintMetaInfo.drop info.coinGroupId info.denomination
        mintedPubCoins := Function.update c.mintedPubCoins pubCoin none }
      info.coinGroupId info.denomination

/-- `Containers::RemoveSpend`. -/
def removeSpend (serial : F) : Containers F G :=
  match c.usedCoinSerials serial with
  | none => c
  | some info =>
    checkSurgeCondition
      { c with
        spendMetaInfo := c.spendMetaInfo.drop info.coinGroupId info.denomination
        usedCoinSerials := Function.update c.usedCoinSerials serial none }
      info.coinGroupId info.denomination

end Containers

/-! ## §3. Blocks entering and leaving the state. -/

/-- `firo_params.h`: coins per group. -/
def ZC_SPEND_V3_COINSPERID_LIMIT : Nat := 16000

namespace CSigmaState

variable (s : CSigmaState F G)

/-- The group bookkeeping of `AddMintsToStateAndBlockIndex` for `nMints` mints of
one denomination in a block at height `nHeight`: the state and the group id. -/
def assignGroup (nHeight : Nat) (denomination : CoinDenomination) (nMints : Nat) :
    Except Abort (CSigmaState F G × Int) := do
  let mintCoinGroupId := max 1 ((s.latestCoinIds denomination).getD 0)
  let coinGroup := (s.coinGroups (denomination, mintCoinGroupId)).getD {}
  if coinGroup.nCoins + nMints ≤ ZC_SPEND_V3_COINSPERID_LIMIT then
    if coinGroup.nCoins = 0 then
      assertThat coinGroup.firstBlock.isNone
      assertThat coinGroup.lastBlock.isNone
      return ({ s with
        latestCoinIds := Function.update s.latestCoinIds denomination (some mintCoinGroupId)
        coinGroups := Function.update s.coinGroups (denomination, mintCoinGroupId)
          (some ⟨some nHeight, some nHeight, coinGroup.nCoins + nMints⟩) }, mintCoinGroupId)
    else
      assertThat coinGroup.firstBlock.isSome
      assertThat coinGroup.lastBlock.isSome
      assertThat (coinGroup.lastBlock.any (· ≤ nHeight))
      return ({ s with
        latestCoinIds := Function.update s.latestCoinIds denomination (some mintCoinGroupId)
        coinGroups := Function.update s.coinGroups (denomination, mintCoinGroupId)
          (some { coinGroup with
            lastBlock := some nHeight, nCoins := coinGroup.nCoins + nMints }) }, mintCoinGroupId)
  else
    -- the reference to the full group has default-constructed a missing entry
    let coinGroups := Function.update s.coinGroups (denomination, mintCoinGroupId) (some coinGroup)
    return ({ s with
      latestCoinIds := Function.update s.latestCoinIds denomination (some (mintCoinGroupId + 1))
      coinGroups := Function.update coinGroups (denomination, mintCoinGroupId + 1)
        (some ⟨some nHeight, some nHeight, nMints⟩) }, mintCoinGroupId + 1)

/-- `index->sigmaMintedPubCoins[{denomination, id}].push_back(mint)` for all mints. -/
def pushMinted (index : CBlockIndex F G) (denomination : CoinDenomination) (id : Int)
    (mints : List G) : CBlockIndex F G :=
  { index with
    sigmaMintedPubCoins := Function.update index.sigmaMintedPubCoins denomination
      ((index.sigmaMintedPubCoins denomination).insert id
        ((index.sigmaMintedPubCoins denomination).getD id [] ++ mints)) }

/-- One iteration over `blockDenomMints`. -/
def addDenomMints (nHeight : Nat) (st : CSigmaState F G × CBlockIndex F G)
    (entry : CoinDenomination × List G) : Except Abort (CSigmaState F G × CBlockIndex F G) :=
  if entry.2.isEmpty then .ok st
  else do
    let (s, id) ← st.1.assignGroup nHeight entry.1 entry.2.length
    return ({ s with
      containers := entry.2.foldl (fun c mint => c.addMint mint ⟨entry.1, id, nHeight⟩)
        s.containers }, pushMinted st.2 entry.1 id entry.2)

/-- `CSigmaState::AddMintsToStateAndBlockIndex` at height `nHeight`.  The mints are
first sorted into `blockDenomMints`, an unordered map that is then walked;
`denominationOrder` is the order of that walk. -/
def addMintsToStateAndBlockIndex (denominationOrder : List CoinDenomination)
    (s : CSigmaState F G) (nHeight : Nat) (index : CBlockIndex F G)
    (mints : List (G × CoinDenomination)) : Except Abort (CSigmaState F G × CBlockIndex F G) :=
  (denominationOrder.map fun d => (d, (mints.filter (·.2 = d)).map Prod.fst)).foldlM
    (addDenomMints nHeight) (s, index)

/-- `CSigmaState::AddSpend`. -/
def addSpend (s : CSigmaState F G) (serial : F) (coinInfo : CSpendCoinInfo) : CSigmaState F G :=
  { s with containers := s.containers.addSpend serial coinInfo }

/-- One iteration of the first loop of `AddBlock`. -/
def addBlockGroup (nHeight : Nat) (s : CSigmaState F G) (denomination : CoinDenomination)
    (entry : Int × List G) : CSigmaState F G :=
  if entry.2.isEmpty then s
  else
    let coinGroup := (s.coinGroups (denomination, entry.1)).getD {}
    { coinGroups := Function.update s.coinGroups (denomination, entry.1)
        (some ⟨some (coinGroup.firstBlock.getD nHeight), some nHeight,
          coinGroup.nCoins + entry.2.length⟩)
      latestCoinIds := Function.update s.latestCoinIds denomination (some entry.1)
      containers := entry.2.foldl
        (fun c coin => c.addMint coin ⟨denomination, entry.1, nHeight⟩) s.containers }

/-- `CSigmaState::AddBlock` for a block at height `nHeight`. -/
def addBlock (nHeight : Nat) (index : CBlockIndex F G) : CSigmaState F G :=
  index.sigmaSpentSerials.foldl (fun s serial => s.addSpend serial.1 serial.2)
    (CoinDenomination.all.foldl (fun s d =>
      (index.sigmaMintedPubCoins d).toList.foldl (fun s e => s.addBlockGroup nHeight d e) s) s)

/-- The `do … while` of `RemoveBlock` that rolls `lastBlock` back.  The list starts at the
current `lastBlock`. -/
def rollBackLastBlock (denomination : CoinDenomination) (id : Int) (firstBlock : Option Nat) :
    CChain F G → Except Abort Nat
  | [] => .error .nullPointer
  | _ :: rest =>
    if some rest.length = firstBlock then .error .assertion
    else match rest with
      | [] => .error .nullPointer
      | prev :: rest' =>
        if ((prev.sigmaMintedPubCoins denomination).getD id []).isEmpty then
          rollBackLastBlock denomination id firstBlock (prev :: rest')
        else .ok rest'.length

variable (chain : CChain F G)

/-- One iteration of the first loop of `RemoveBlock`, for the tip `index` on top of `chain`. -/
def removeBlockGroup (index : CBlockIndex F G) (denomination : CoinDenomination)
    (s : CSigmaState F G) (entry : Int × List G) : Except Abort (CSigmaState F G) :=
  let coinGroup := (s.coinGroups (denomination, entry.1)).getD {}
  let nMintsToForget := entry.2.length
  if nMintsToForget = 0 then
    -- the reference has default-constructed a missing entry
    .ok { s with coinGroups := Function.update s.coinGroups (denomination, entry.1) (some coinGroup) }
  else do
    assertThat (nMintsToForget ≤ coinGroup.nCoins)
    if coinGroup.nCoins - nMintsToForget = 0 then
      let latest := (s.latestCoinIds denomination).getD 0 - 1
      return { s with
        coinGroups := Function.update s.coinGroups (denomination, entry.1) none
        latestCoinIds := Function.update s.latestCoinIds denomination
          (if latest = 0 then none else some latest) }
    else
      assertThat (coinGroup.lastBlock = some chain.length)
      let lastBlock ← rollBackLastBlock denomination entry.1 coinGroup.firstBlock (index :: chain)
      return { s with
        coinGroups := Function.update s.coinGroups (denomination, entry.1)
          (some { coinGroup with
            lastBlock := some lastBlock, nCoins := coinGroup.nCoins - nMintsToForget }) }

/-- One iteration of the `roll back mints` loop of `RemoveBlock`. -/
def removeBlockMint (denomination : CoinDenomination) (id : Int) (c : Containers F G) (coin : G) :
    Except Abort (Containers F G) := do
  assertThat ((c.mintedPubCoins coin).any fun v => v.denomination = denomination ∧
    v.coinGroupId = id)
  return c.removeMint coin

/-- `CSigmaState::RemoveBlock` on the tip `index` on top of `chain`. -/
def removeBlock (index : CBlockIndex F G) : Except Abort (CSigmaState F G) := do
  let rolled ← CoinDenomination.all.foldlM (fun s d =>
    (index.sigmaMintedPubCoins d).toList.foldlM (removeBlockGroup chain index d) s) s
  let containers ← CoinDenomination.all.foldlM (fun c d =>
    (index.sigmaMintedPubCoins d).toList.foldlM (fun c e =>
      e.2.foldlM (removeBlockMint d e.1) c) c) rolled.containers
  return { rolled with
    containers := index.sigmaSpentSerials.foldl (fun c serial => c.removeSpend serial.1) containers }

/-- `CSigmaState::Reset`, which clears every map of the state. -/
def reset (_ : CSigmaState F G) : CSigmaState F G := {}

/-- `CSigmaState::GetCoinGroupInfo`. -/
def getCoinGroupInfo (denomination : CoinDenomination) (groupId : Int) :
    Option SigmaCoinGroupInfo :=
  s.coinGroups (denomination, groupId)

/-- `CSigmaState::IsUsedCoinSerial`. -/
def isUsedCoinSerial (coinSerial : F) : Bool :=
  (s.containers.usedCoinSerials coinSerial).isSome

/-- `CSigmaState::GetMintedCoinHeightAndId`. -/
def getMintedCoinHeightAndId (pubCoin : G) : Int × Int :=
  match s.containers.mintedPubCoins pubCoin with
  | some info => (info.nHeight, info.coinGroupId)
  | none => (-1, -1)

end CSigmaState

/-- `BuildSigmaStateFromIndex`: `AddBlock` from the genesis block to the tip. -/
def buildSigmaStateFromIndex (s : CSigmaState F G) : CChain F G → CSigmaState F G
  | [] => s
  | index :: chain => (buildSigmaStateFromIndex s chain).addBlock chain.length index

/-! ## §4. The coins a spend hides among. -/

/-- What `CSigmaState::GetCoinSetForSpend` returns and writes to its
out-parameters. -/
structure CoinSet (G : Type) where
  numberOfCoins : Nat := 0
  blockHash : Uint256 := 0
  coins : List G := []

/-- The coins of a block that are not skipped join the set.  The block hash is
taken as long as no coin has been counted. -/
def takeBlock (skip : G → Bool) (hash : Uint256) (coins : List G) (out : CoinSet G) : CoinSet G :=
  let kept := coins.filter fun coin => !skip coin
  { numberOfCoins := out.numberOfCoins + kept.length
    blockHash := if out.numberOfCoins = 0 then hash else out.blockHash
    coins := out.coins ++ kept }

/-- The loop of `GetCoinSetForSpend`; the list starts at the group's last block. -/
def coinSetLoop (denomination : CoinDenomination) (coinGroupID maxHeight : Int)
    (firstBlock : Option Nat) (skip : G → Bool) :
    CChain F G → CoinSet G → Except Abort (CoinSet G)
  | [], _ => .error .nullPointer
  | block :: rest, out =>
    let coins := (block.sigmaMintedPubCoins denomination).getD coinGroupID []
    let out :=
      if ¬ coins.isEmpty ∧ (rest.length : Int) ≤ maxHeight then takeBlock skip block.hash coins out
      else out
    if some rest.length = firstBlock then .ok out
    else coinSetLoop denomination coinGroupID maxHeight firstBlock skip rest out

/-- `CSigmaState::GetCoinSetForSpend` while `chain` is the active chain. -/
def CSigmaState.getCoinSetForSpend (params : ConsensusParams G) (s : CSigmaState F G)
    (chain : CChain F G) (maxHeight : Int) (denomination : CoinDenomination)
    (coinGroupID : Int) : Except Abort (CoinSet G) :=
  match s.coinGroups (denomination, coinGroupID) with
  | none => .ok {}
  | some coinGroup =>
    let skip := fun coin =>
      decide (height chain ≥ params.nStartSigmaBlacklist) && params.sigmaBlacklist coin
    coinSetLoop denomination coinGroupID maxHeight coinGroup.firstBlock skip
      (behind chain coinGroup.lastBlock) {}

end Zcoin.Sigma
