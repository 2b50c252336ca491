/-
  Zcoin.Lelantus.State — `CLelantusState` and its `Containers`
  (`lelantus.h`, `lelantus.cpp`).

  The in-memory index of minted and spent Lelantus coins: coin groups with
  their first and last block, the coin and serial maps, the per-group counters
  behind surge protection, and the two ways a block enters the state
  (`addMintsToStateAndBlockIndex` when it is connected, `addBlock` when the
  state is rebuilt from the index) next to the one way it leaves (`removeBlock`).
-/
import Zcoin.Chain.BlockIndex

namespace Zcoin.Lelantus

open Chain Std

/-! ## §1. Data. -/

/-- `lelantus::CMintedCoinInfo`. -/
structure CMintedCoinInfo where
  coinGroupId : Int
  nHeight : Nat
  deriving DecidableEq, Repr

/-- `CLelantusState::LelantusCoinGroupInfo`; block pointers are heights. -/
structure LelantusCoinGroupInfo where
  firstBlock : Option Nat := none
  lastBlock : Option Nat := none
  nCoins : Nat := 0
  deriving DecidableEq, Repr

/-- `CLelantusState::Containers`. -/
structure Containers (F G : Type) where
  mintedPubCoins : G → Option CMintedCoinInfo := fun _ => none
  usedCoinSerials : F → Option Int := fun _ => none
  tagToPublicCoin : ExtTreeMap Uint256 G := ∅
  extendedMintMetaInfo : ExtTreeMap Int Nat := ∅
  mintMetaInfo : ExtTreeMap Int Nat := ∅
  spendMetaInfo : ExtTreeMap Int Nat := ∅
  surgeCondition : Bool := false

/-- `CLelantusState`.  The mempool part lives elsewhere in the source. -/
structure CLelantusState (F G : Type) where
  maxCoinInGroup : Nat
  startGroupSize : Nat
  coinGroups : ExtTreeMap Int LelantusCoinGroupInfo := ∅
  latestCoinId : Int := 0
  containers : Containers F G := {}

variable {F G : Type} [DecidableEq F] [DecidableEq G]

/-! ## §2. Surge detection. -/

/-- The loop of `CheckSurgeCondition` over `mintMetaInfo`, with its two
accumulators: `true` once the serials of a range of groups exceed its mints.
`mints - extendedMints` is a `size_t` difference. -/
def surgeLoop (spendMetaInfo extendedMintMetaInfo : ExtTreeMap Int Nat) :
    List (Int × Nat) → Nat → Nat → Bool
  | [], _, _ => false
  | (id, inGroup) :: groups, serials, mints =>
    let serials := serials + spendMetaInfo.getD id 0
    let mints := mints + inGroup
    if serials > mints then true
    else
      let extendedMints := extendedMintMetaInfo.getD (id + 1) 0
      if serials ≤ sizeSub mints extendedMints then
        surgeLoop spendMetaInfo extendedMintMetaInfo groups 0 extendedMints
      else
        surgeLoop spendMetaInfo extendedMintMetaInfo groups serials mints

namespace Containers

variable (c : Containers F G)

/-- The flag `CheckSurgeCondition` computes. -/
def surge : Bool :=
  surgeLoop c.spendMetaInfo c.extendedMintMetaInfo c.mintMetaInfo.toList 0 0

/-- `Containers::CheckSurgeCondition`. -/
def checkSurgeCondition : Containers F G :=
  { c with surgeCondition := c.surge }

/-! ## §3. Containers. -/

/-- `Containers::AddMint`.  Both `insert`s keep an entry that is already there. -/
def addMint (pubCoin : G) (coinInfo : CMintedCoinInfo) (tag : Uint256) : Containers F G :=
  checkSurgeCondition { c with
    mintedPubCoins :=
      if (c.mintedPubCoins pubCoin).isSome then c.mintedPubCoins
      else Function.update c.mintedPubCoins pubCoin (some coinInfo)
    tagToPublicCoin := c.tagToPublicCoin.insertIfNew tag pubCoin
    mintMetaInfo := c.mintMetaInfo.insert coinInfo.coinGroupId
      (c.mintMetaInfo.getD coinInfo.coinGroupId 0 + 1) }

/-- The scan of `RemoveMint`: the first tag that leads to `pubCoin` is erased. -/
def eraseTagOf (tags : ExtTreeMap Uint256 G) (pubCoin : G) : ExtTreeMap Uint256 G :=
  match tags.toList.find? (fun hashPair => hashPair.2 = pubCoin) with
  | some hashPair => tags.erase hashPair.1
  | none => tags

/-- `Containers::RemoveMint`. -/
def removeMint (pubCoin : G) : Containers F G :=
  match c.mintedPubCoins pubCoin with
  | none => c
  | some info => checkSurgeCondition { c with
      tagToPublicCoin := eraseTagOf c.tagToPublicCoin pubCoin
      mintMetaInfo := c.mintMetaInfo.insert info.coinGroupId
        (sizeSub (c.mintMetaInfo.getD info.coinGroupId 0) 1)
      mintedPubCoins := Function.update c.mintedPubCoins pubCoin none }

/-- `Containers::AddSpend`. -/
def addSpend (serial : F) (coinGroupId : Int) : Except Abort (Containers F G) :=
  if c.mintMetaInfo.contains coinGroupId then
    .ok (checkSurgeCondition { c with
      usedCoinSerials := Function.update c.usedCoinSerials serial (some coinGroupId)
      spendMetaInfo := c.spendMetaInfo.insert coinGroupId
        (c.spendMetaInfo.getD coinGroupId 0 + 1) })
  else .error (.threw (.invalidArgument "group id doesn't exist"))

/-- `Containers::RemoveSpend`. -/
def removeSpend (serial : F) : Containers F G :=
  match c.usedCoinSerials serial with
  | none => c
  | some coinGroupId => checkSurgeCondition { c with
      spendMetaInfo := c.spendMetaInfo.insert coinGroupId
        (sizeSub (c.spendMetaInfo.getD coinGroupId 0) 1)
      usedCoinSerials := Function.update c.usedCoinSerials serial none }

/-- `Containers::AddExtendedMints`. -/
def addExtendedMints (group : Int) (mints : Nat) : Containers F G :=
  checkSurgeCondition
    { c with extendedMintMetaInfo := c.extendedMintMetaInfo.insert group mints }

/-- `Containers::RemoveExtendedMints`. -/
def removeExtendedMints (group : Int) : Containers F G :=
  checkSurgeCondition { c with extendedMintMetaInfo := c.extendedMintMetaInfo.erase group }

/-- `Containers::Reset`: `extendedMintMetaInfo` is not among the cleared maps. -/
def reset : Containers F G :=
  { c with
    mintedPubCoins := fun _ => none
    usedCoinSerials := fun _ => none
    mintMetaInfo := ∅
    spendMetaInfo := ∅
    tagToPublicCoin := ∅
    surgeCondition := false }

end Containers

/-! ## §4. Walks over the chain. -/

/-- The loop of `CountLastNCoins`: whole blocks are taken, newest first, until
`required` coins of the group are counted. -/
def countLastNCoinsLoop (groupId : Int) (required : Nat) :
    CChain F G → Nat → Option Nat → Nat × Option Nat
  | [], coins, first => (coins, first)
  | block :: rest, coins, first =>
    if coins < required then
      if countCoinInBlock block groupId ≠ 0 then
        countLastNCoinsLoop groupId required rest (coins + countCoinInBlock block groupId)
          (some rest.length)
      else countLastNCoinsLoop groupId required rest coins first
    else (coins, first)

/-- The `do … while` of `RemoveBlock` that looks for the previous block with
mints of the group `id` or `id - 1`; the value is the final `prevGroupCount`. -/
def prevGroupCount (id : Int) : CChain F G → Nat
  | [] => 0
  | block :: rest =>
    if countCoinInBlock block id = 0 then
      if countCoinInBlock block (id - 1) = 0 then prevGroupCount id rest
      else countCoinInBlock block (id - 1)
    else 0

/-- The `do … while` of `RemoveBlock` that rolls `lastBlock` back.  The list
starts at the current `lastBlock`. -/
def rollBackLastBlock (id : Int) (firstBlock : Option Nat) :
    CChain F G → Except Abort Nat
  | [] => .error .nullPointer
  | _ :: rest =>
    if some rest.length = firstBlock then .error .assertion
    else match rest with
      | [] => .error .nullPointer
      | prev :: rest' =>
        if prev.lelantusMintedPubCoins.contains id then .ok rest'.length
        else rollBackLastBlock id firstBlock (prev :: rest')

namespace CLelantusState

variable (s : CLelantusState F G) (chain : CChain F G)

/-- `CLelantusState::CountLastNCoins`: the count and the oldest block counted. -/
def countLastNCoins (groupId : Int) (required : Nat) : Nat × Option Nat :=
  match s.coinGroups[groupId]? with
  | none => (0, none)
  | some group => countLastNCoinsLoop groupId required (behind chain group.lastBlock) 0 none

/-! ## §5. Blocks entering and leaving the state. -/

/-- The group bookkeeping of `AddMintsToStateAndBlockIndex` for a block at
height `nHeight` on top of `chain` that brings `nMints` mints. -/
def assignGroup (nHeight nMints : Nat) : Except Abort (CLelantusState F G) := do
  let latestCoinId := max 1 s.latestCoinId
  let coinGroup := s.coinGroups.getD latestCoinId {}
  if coinGroup.nCoins + nMints ≤ s.maxCoinInGroup then
    if coinGroup.nCoins = 0 then
      assertThat coinGroup.firstBlock.isNone
      assertThat coinGroup.lastBlock.isNone
      return { s with
        latestCoinId
        coinGroups := s.coinGroups.insert latestCoinId
          ⟨some nHeight, some nHeight, coinGroup.nCoins + nMints⟩ }
    else
      assertThat coinGroup.firstBlock.isSome
      assertThat coinGroup.lastBlock.isSome
      assertThat (coinGroup.lastBlock.any (· ≤ nHeight))
      return { s with
        latestCoinId
        coinGroups := s.coinGroups.insert latestCoinId
          { coinGroup with lastBlock := some nHeight, nCoins := coinGroup.nCoins + nMints } }
  else
    -- `coinGroups[latestCoinId]` has default-constructed a missing entry by now
    let s := { s with coinGroups := s.coinGroups.insert latestCoinId coinGroup }
    let newId := latestCoinId + 1
    let (coins, first) := s.countLastNCoins chain (newId - 1) s.startGroupSize
    return { s with
      latestCoinId := newId
      coinGroups := s.coinGroups.insert newId
        ⟨some (first.getD nHeight), some nHeight, coins + nMints⟩
      containers := s.containers.addExtendedMints newId coins }

/-- `index->lelantusMintedPubCoins[id].push_back(mint)`. -/
def pushMinted (minted : ExtTreeMap Int (List (G × Uint256))) (id : Int) (mint : G × Uint256) :
    ExtTreeMap Int (List (G × Uint256)) :=
  minted.insert id (minted.getD id [] ++ [mint])

/-- `CLelantusState::AddMintsToStateAndBlockIndex` on the block `index`, whose
`pprev` is the tip of `chain`; `blockMints` are the mints with their tags. -/
def addMintsToStateAndBlockIndex (index : CBlockIndex F G) (blockMints : List (G × Uint256)) :
    Except Abort (CLelantusState F G × CBlockIndex F G) := do
  let s ← s.assignGroup chain chain.length blockMints.length
  let containers := blockMints.foldl
    (fun c mint => c.addMint mint.1 ⟨s.latestCoinId, chain.length⟩ mint.2) s.containers
  let minted := blockMints.foldl (fun m mint => pushMinted m s.latestCoinId mint)
    index.lelantusMintedPubCoins
  return ({ s with containers }, { index with lelantusMintedPubCoins := minted })

/-- `CLelantusState::AddSpend`. -/
def addSpend (s : CLelantusState F G) (serial : F) (coinGroupId : Int) :
    Except Abort (CLelantusState F G) := do
  let containers ← s.containers.addSpend serial coinGroupId
  return { s with containers }

/-- One iteration of the first loop of `AddBlock`, for the coins `pubCoins` a
block at height `chain.length` on top of `chain` minted under `id`. -/
def addBlockGroup (s : CLelantusState F G) (entry : Int × List (G × Uint256)) :
    CLelantusState F G :=
  let (id, pubCoins) := entry
  if pubCoins.isEmpty then s
  else
    let coinGroup := s.coinGroups.getD id {}
    let (s, coinGroup) :=
      if coinGroup.firstBlock.isNone then
        if id > 1 then
          let (coins, first) := s.countLastNCoins chain (id - 1) s.startGroupSize
          ({ s with containers := s.containers.addExtendedMints id coins },
            { coinGroup with firstBlock := some (first.getD chain.length), nCoins := coins })
        else (s, { coinGroup with firstBlock := some chain.length })
      else (s, coinGroup)
    { s with
      coinGroups := s.coinGroups.insert id
        { coinGroup with
          lastBlock := some chain.length
          nCoins := coinGroup.nCoins + pubCoins.length }
      latestCoinId := id
      containers := pubCoins.foldl
        (fun c coin => c.addMint coin.1 ⟨id, chain.length⟩ coin.2) s.containers }

/-- `CLelantusState::AddBlock` on the block `index` on top of `chain`. -/
def addBlock (index : CBlockIndex F G) : Except Abort (CLelantusState F G) :=
  index.lelantusSpentSerials.foldlM (fun s serial => s.addSpend serial.1 serial.2)
    (index.lelantusMintedPubCoins.toList.foldl (addBlockGroup chain) s)

/-- One iteration of the first loop of `RemoveBlock`, for the tip `index` on top
of `chain`. -/
def removeBlockGroup (index : CBlockIndex F G) (s : CLelantusState F G)
    (entry : Int × List (G × Uint256)) : Except Abort (CLelantusState F G) :=
  let (id, coins) := entry
  match s.coinGroups[id]? with
  | none => .error (.threw (.invalidArgument "Group Id does not exist"))
  | some coinGroup =>
    let nMintsToForget := coins.length
    if nMintsToForget = 0 then .ok s
    else do
      assertThat (nMintsToForget ≤ coinGroup.nCoins)
      let isExtended := id > 1
      let coinGroup := { coinGroup with nCoins := coinGroup.nCoins - nMintsToForget }
      let prevCount := if isExtended then prevGroupCount id chain else 0
      let isEdgedBlock :=
        prevCount > 0 ∧ sizeSub coinGroup.nCoins prevCount < s.startGroupSize
      if (¬ isExtended ∧ coinGroup.nCoins = 0) ∨ (isExtended ∧ isEdgedBlock) then
        return { s with
          coinGroups := s.coinGroups.erase id
          latestCoinId := s.latestCoinId - 1
          containers := s.containers.removeExtendedMints id }
      else
        assertThat (coinGroup.lastBlock = some chain.length)
        let lastBlock ← rollBackLastBlock id coinGroup.firstBlock (index :: chain)
        return { s with
          coinGroups := s.coinGroups.insert id { coinGroup with lastBlock := some lastBlock } }

/-- One iteration of the `roll back mints` loop of `RemoveBlock`. -/
def removeBlockMint (id : Int) (c : Containers F G) (coin : G × Uint256) :
    Except Abort (Containers F G) := do
  assertThat ((c.mintedPubCoins coin.1).any (·.coinGroupId = id))
  return c.removeMint coin.1

/-- `CLelantusState::RemoveBlock` on the tip `index` on top of `chain`. -/
def removeBlock (index : CBlockIndex F G) : Except Abort (CLelantusState F G) := do
  let s ← index.lelantusMintedPubCoins.toList.foldlM (removeBlockGroup chain index) s
  let containers ← index.lelantusMintedPubCoins.toList.foldlM
    (fun c pubCoins => pubCoins.2.foldlM (removeBlockMint pubCoins.1) c) s.containers
  return { s with
    containers := index.lelantusSpentSerials.foldl
      (fun c serial => c.removeSpend serial.1) containers }

/-- `CLelantusState::Reset`. -/
def reset (s : CLelantusState F G) : CLelantusState F G :=
  { s with coinGroups := ∅, latestCoinId := 0, containers := s.containers.reset }

/-- `CLelantusState::GetCoinGroupInfo`. -/
def getCoinGroupInfo (groupId : Int) : Option LelantusCoinGroupInfo :=
  s.coinGroups[groupId]?

/-- `CLelantusState::IsUsedCoinSerial`. -/
def isUsedCoinSerial (coinSerial : F) : Bool :=
  (s.containers.usedCoinSerials coinSerial).isSome

/-- `CLelantusState::HasCoin`. -/
def hasCoin (pubCoin : G) : Bool :=
  (s.containers.mintedPubCoins pubCoin).isSome

/-- `CLelantusState::GetMintedCoinHeightAndId`. -/
def getMintedCoinHeightAndId (pubCoin : G) : Int × Int :=
  match s.containers.mintedPubCoins pubCoin with
  | some info => (info.nHeight, info.coinGroupId)
  | none => (-1, -1)

end CLelantusState

/-- `BuildLelantusStateFromIndex`: `AddBlock` from the genesis block to the tip. -/
def buildLelantusStateFromIndex (s : CLelantusState F G) :
    CChain F G → Except Abort (CLelantusState F G)
  | [] => .ok s
  | index :: chain => do
    let s ← buildLelantusStateFromIndex s chain
    s.addBlock chain index

end Zcoin.Lelantus
