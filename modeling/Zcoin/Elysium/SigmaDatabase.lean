/-
  Zcoin.Elysium.SigmaDatabase — the database of Sigma mints and spends
  (`elysium/sigmadb.h/.cpp`).

  LevelDB is an ordered map from byte strings.  Mint keys, history keys, the group size and
  spend keys share one key space, told apart by their first byte; numbers in keys are
  big-endian.  Counts, last groups and the next sequence number are not stored but
  recovered by seeking to a sentinel key and stepping back.

  Coins are values of an arbitrary type with the membership test `isMember`; a value is kept
  as it was before serialization.
-/
import Zcoin.Basic
import Zcoin.Lib.Except
import Zcoin.Lib.BigEndian
import Zcoin.Lib.OrderedStore

namespace Zcoin.Elysium

open Std List
open Lib Lib.BigEndian Lib.OrderedStore

/-! ## §1. Keys. -/

/-- A LevelDB key. -/
abbrev DbKey := List UInt8

/-- The bytes of a spend serial (`SerializeSpendSerial`). -/
abbrev SpendSerial := List.Vector UInt8 32

/-- `KeyType`. -/
def KeyType.mint : UInt8 := 0
def KeyType.sequence : UInt8 := 1
def KeyType.groupSize : UInt8 := 2
def KeyType.spendSerial : UInt8 := 3

/-- `CreateMintKey`: `<1 byte of type><4 bytes of property Id><1 byte of denomination>
<4 bytes of group id><2 bytes of idx>`. -/
def createMintKey (propertyId : UInt32) (denomination : UInt8) (groupId idx : Nat) : DbKey :=
  KeyType.mint :: (bigEndian 4 propertyId.toNat ++
    denomination :: (bigEndian 4 groupId ++ bigEndian 2 idx))

/-- `CreateSequenceKey`. -/
def createSequenceKey (sequence : Nat) : DbKey := KeyType.sequence :: bigEndian 8 sequence

/-- `CreateGroupSizeKey`. -/
def createGroupSizeKey : DbKey := [KeyType.groupSize]

/-- `CreateSpendSerialKey`. -/
def createSpendSerialKey (propertyId : UInt32) (denomination : UInt8) (serial : SpendSerial) :
    DbKey :=
  KeyType.spendSerial :: (bigEndian 4 propertyId.toNat ++ denomination :: serial.toList)

def MINT_KEY_SIZE : Nat := 12
def SEQUENCE_KEY_SIZE : Nat := 9
def SPEND_KEY_SIZE : Nat := 38

/-- `IsMintKey`. -/
def isMintKey (key : DbKey) : Bool := key.length = MINT_KEY_SIZE && key.head? = some KeyType.mint

/-- `IsSequenceKey`. -/
def isSequenceKey (key : DbKey) : Bool :=
  key.length = SEQUENCE_KEY_SIZE && key.head? = some KeyType.sequence

/-- `IsSpendSerialKey`. -/
def isSpendSerialKey (key : DbKey) : Bool :=
  key.length = SPEND_KEY_SIZE && key.head? = some KeyType.spendSerial

/-- The fields of a mint key. -/
structure MintKey where
  propertyId : UInt32
  denomination : UInt8
  groupId : Nat
  idx : Nat
  deriving DecidableEq, Repr

/-- `ParseMintKey`; `none` is `return false`. -/
def parseMintKey (key : DbKey) : Except Abort (Option MintKey) :=
  if key.head? = some KeyType.mint then
    if key.length ≠ MINT_KEY_SIZE then .error (.threw (.runtimeError "invalid key size"))
    else .ok (some
      { propertyId := UInt32.ofNat (readBigEndian ((key.drop 1).take 4))
        denomination := (key.drop 5).headD 0
        groupId := readBigEndian ((key.drop 6).take 4)
        idx := readBigEndian ((key.drop 10).take 2) })
  else .ok none

/-! ## §2. Values and the database. -/

/-- `OpCode`: operation code of histories. -/
inductive OpCode where
  | storeMint
  | storeSpendSerial
  deriving DecidableEq, Repr

/-- `History`. -/
structure History where
  block : Int
  op : OpCode
  data : DbKey
  deriving DecidableEq, Repr

/-- What is stored under a key. -/
inductive SigmaValue (C : Type) where
  | groupSize (n : Nat)
  | mint (pubKey : C)
  | spend (spendTx : Uint256)
  | history (h : History)
  deriving DecidableEq, Repr

/-- `SigmaDatabase`. -/
structure SigmaDatabase (C : Type) where
  store : ExtTreeMap DbKey (SigmaValue C) := ∅
  groupSize : Nat := 0

/-- Limit of sigma anonimity group, which is `2 ^ 14`. -/
def MAX_GROUP_SIZE : Nat := 16384

section Database

variable {C : Type}

/-- A thrown `std::runtime_error`. -/
def throwRuntime {α : Type} (what : String) : Except Abort α :=
  .error (.threw (.runtimeError what))

variable (db : SigmaDatabase C)

/-- `SigmaDatabase::GetGroupSize`. -/
def SigmaDatabase.getGroupSize : Except Abort Nat :=
  match db.store[createGroupSizeKey]? with
  | some (.groupSize n) => .ok n
  | some _ => throwRuntime "size of group size value is invalid"
  | none => .ok 0

/-- `SigmaDatabase::InitGroupSize`, as the constructor calls it: the database with its
`groupSize` set. -/
def SigmaDatabase.initGroupSize (groupSize : Nat) : Except Abort (SigmaDatabase C) := do
  if groupSize > MAX_GROUP_SIZE then
    .error (.threw (.invalidArgument "group size exceed limit"))
  else
    let currentGroupSize ← db.getGroupSize
    if currentGroupSize ≠ 0 then
      if groupSize ≠ 0 ∧ groupSize ≠ currentGroupSize then
        .error (.threw
          (.invalidArgument "group size input isn't equal to group size in database"))
      else return { db with groupSize := currentGroupSize }
    else
      let groupSize := if groupSize = 0 then MAX_GROUP_SIZE else groupSize
      return { store := db.store.insert createGroupSizeKey (.groupSize groupSize), groupSize }

/-- `SigmaDatabase::GetLastGroupId`. -/
def SigmaDatabase.getLastGroupId (propertyId : UInt32) (denomination : UInt8) : Except Abort Nat :=
  match seekToPrevious db.store (createMintKey propertyId denomination 0xFFFFFFFF 0xFFFF) with
  | none => .ok 0
  | some (key, _) => do
    let parsed ← parseMintKey key
    match parsed with
    | some k =>
      return if propertyId = k.propertyId ∧ denomination = k.denomination then k.groupId else 0
    | none => return 0

/-- `SigmaDatabase::GetMintCount`. -/
def SigmaDatabase.getMintCount (propertyId : UInt32) (denomination : UInt8) (groupId : Nat) :
    Except Abort Nat :=
  match seekToPrevious db.store (createMintKey propertyId denomination groupId 0xFFFF) with
  | none => .ok 0
  | some (key, _) => do
    let parsed ← parseMintKey key
    match parsed with
    | some k =>
      return if propertyId = k.propertyId ∧ denomination = k.denomination ∧
        groupId = k.groupId then k.idx + 1 else 0
    | none => return 0

/-- `SigmaDatabase::GetNextSequence`. -/
def SigmaDatabase.getNextSequence : Except Abort Nat :=
  match seekToPrevious db.store (createSequenceKey 0xFFFFFFFFFFFFFFFF) with
  | none => .ok 0
  | some (key, _) =>
    if key.head? = some KeyType.sequence then
      if key.length ≠ SEQUENCE_KEY_SIZE then throwRuntime "key size is invalid"
      else .ok ((readBigEndian (key.drop 1) + 1) % 2 ^ 64)
    else .ok 0

/-- `SigmaDatabase::AddEntry`: the entry and its history, in one batch. -/
def SigmaDatabase.addEntry (key : DbKey) (value : SigmaValue C) (block : Int) :
    Except Abort (SigmaDatabase C) := do
  let op ← (if isMintKey key then .ok OpCode.storeMint
    else if isSpendSerialKey key then .ok OpCode.storeSpendSerial
    else .error (.threw (.invalidArgument "The specified entry is not supported")))
  let next ← db.getNextSequence
  return { db with
    store := (db.store.insert key value).insert (createSequenceKey next)
      (.history ⟨block, op, key⟩) }

/-- `SigmaDatabase::RecordMint`: the group and index of the coin, and the database. -/
def SigmaDatabase.recordMint (propertyId : UInt32) (denomination : UInt8) (pubKey : C)
    (height : Int) : Except Abort ((Nat × Nat) × SigmaDatabase C) := do
  let lastGroup ← db.getLastGroupId propertyId denomination
  let mints ← db.getMintCount propertyId denomination lastGroup
  if mints > db.groupSize then throwRuntime "mints count is exceed group limit"
  else
    let (lastGroup, nextIdx) :=
      if mints = db.groupSize then ((lastGroup + 1) % 2 ^ 32, 0) else (lastGroup, mints)
    let db ← db.addEntry (createMintKey propertyId denomination lastGroup nextIdx) (.mint pubKey)
      height
    return ((lastGroup, nextIdx), db)

/-- `SigmaDatabase::RecordSpendSerial`. -/
def SigmaDatabase.recordSpendSerial (propertyId : UInt32) (denomination : UInt8)
    (serial : SpendSerial) (height : Int) (spendTx : Uint256) : Except Abort (SigmaDatabase C) :=
  db.addEntry (createSpendSerialKey propertyId denomination serial) (.spend spendTx) height

/-- `SigmaDatabase::HasSpendSerial`: the spending transaction, if there is one. -/
def SigmaDatabase.hasSpendSerial (propertyId : UInt32) (denomination : UInt8)
    (serial : SpendSerial) : Option Uint256 :=
  match db.store[createSpendSerialKey propertyId denomination serial]? with
  | some (.spend spendTx) => some spendTx
  | _ => none

/-- The loop of `DeleteAll` over the histories, newest first: the keys to delete. -/
def SigmaDatabase.deleteLoop (db : SigmaDatabase C) (startBlock : Int) :
    List (DbKey × SigmaValue C) → Except Abort (List DbKey)
  | [] => .ok []
  | (sequenceKey, value) :: rest =>
    if isSequenceKey sequenceKey then
      match value with
      | .history entry =>
        -- we iterate in the latest to oldest
        if entry.block < startBlock then .ok []
        else do
          match entry.op with
          | .storeMint => do
            let parsed ← parseMintKey entry.data
            if parsed.isNone then throwRuntime "fail to parse mint key"
            else if db.store[entry.data]?.isNone then throwRuntime "fail to get mint"
            else .ok ()
          | .storeSpendSerial =>
            if entry.data.head? = some KeyType.spendSerial ∧
                entry.data.length ≠ SPEND_KEY_SIZE then throwRuntime "invalid key size"
            else .ok ()
          let keys ← db.deleteLoop startBlock rest
          return entry.data :: sequenceKey :: keys
      | _ => .error (.threw .iosFailure)
    else .ok []

/-- `SigmaDatabase::DeleteAll`. -/
def SigmaDatabase.deleteAll (startBlock : Int) : Except Abort (SigmaDatabase C) := do
  let nextSequence ← db.getNextSequence
  if nextSequence = 0 then return db
  else
    match onward db.store (createSequenceKey (nextSequence - 1)) with
    | [] => return db
    | e :: _ => do
      let keys ← db.deleteLoop startBlock (backward db.store e.1)
      return { db with store := keys.foldl (fun s key => s.erase key) db.store }

/-- The loop of `GetAnonimityGroup`, from the `i`-th coin on. -/
def anonimityLoop (isMember : C → Bool) (propertyId : UInt32) (denomination : UInt8)
    (groupId count : Nat) : Nat → List (DbKey × SigmaValue C) → Except Abort (List C)
  | _, [] => .ok []
  | i, (key, value) :: rest =>
    if i < count then do
      let parsed ← parseMintKey key
      match parsed with
      | none => return []
      | some k =>
        if k.propertyId ≠ propertyId ∨ k.denomination ≠ denomination ∨ k.groupId ≠ groupId then
          return []
        else if k.idx ≠ i then
          throwRuntime "GetAnonimityGroup() : coin index is out of order"
        else
          match value with
          | .mint pub =>
            if isMember pub then do
              let coins ← anonimityLoop isMember propertyId denomination groupId count (i + 1)
                rest
              return pub :: coins
            else throwRuntime "GetAnonimityGroup() : coin is invalid"
          | _ => throwRuntime "ParseMint() : invalid key size"
    else .ok []

/-- `SigmaDatabase::GetAnonimityGroup`: the coins handed to `insertF`, in order. -/
def SigmaDatabase.getAnonimityGroup (isMember : C → Bool) (db : SigmaDatabase C)
    (propertyId : UInt32) (denomination : UInt8) (groupId count : Nat) : Except Abort (List C) :=
  anonimityLoop isMember propertyId denomination groupId count 0
    (onward db.store (createMintKey propertyId denomination groupId 0))

end Database

/-! ## §3. The key layout. -/

theorem toNat_lt_pow (p : UInt32) : p.toNat < 256 ^ 4 := p.toNat_lt

theorem length_createMintKey (p : UInt32) (d : UInt8) (g i : Nat) :
    (createMintKey p d g i).length = MINT_KEY_SIZE := rfl

theorem length_createSequenceKey (n : Nat) : (createSequenceKey n).length = SEQUENCE_KEY_SIZE := rfl

theorem length_createSpendSerialKey (p : UInt32) (d : UInt8) (s : SpendSerial) :
    (createSpendSerialKey p d s).length = SPEND_KEY_SIZE := by
  simp [createSpendSerialKey, SPEND_KEY_SIZE]

theorem isMintKey_createMintKey (p : UInt32) (d : UInt8) (g i : Nat) :
    isMintKey (createMintKey p d g i) = true := rfl

theorem isSpendSerialKey_createSpendSerialKey (p : UInt32) (d : UInt8) (s : SpendSerial) :
    isMintKey (createSpendSerialKey p d s) = false ∧
      isSpendSerialKey (createSpendSerialKey p d s) = true := by
  unfold isMintKey isSpendSerialKey
  rw [length_createSpendSerialKey]
  exact ⟨rfl, rfl⟩

theorem isSequenceKey_createSequenceKey (n : Nat) : isSequenceKey (createSequenceKey n) = true := by
  unfold isSequenceKey
  rw [length_createSequenceKey]
  rfl

theorem compare_types {a b : UInt8} (h : a < b) (as bs : List UInt8) :
    compare (a :: as) (b :: bs) = .lt := by
  rw [compare_cons, show compare a b = .lt from if_pos h]
  rfl

theorem not_lt_of_types {a b : UInt8} (h : a < b) (as bs : List UInt8) :
    compare (b :: bs) (a :: as) ≠ .lt := by
  intro hlt
  have hgt := OrientedCmp.gt_of_lt (compare_types h as bs)
  exact absurd (hlt.symm.trans hgt) (by decide)

theorem compare_createMintKey {p p' : UInt32} {d d' : UInt8} {g g' i i' : Nat}
    (hg : g < 2 ^ 32) (hg' : g' < 2 ^ 32) (hi : i < 2 ^ 16) (hi' : i' < 2 ^ 16) :
    compare (createMintKey p d g i) (createMintKey p' d' g' i') =
      (compare p.toNat p'.toNat).then ((compare d.toNat d'.toNat).then
        ((compare g g').then (compare i i'))) := by
  have hlen : ∀ w n m, (bigEndian w n).length = (bigEndian w m).length := by simp
  unfold createMintKey
  rw [compare_cons, compare_append (hlen 4 _ _), compare_cons, compare_append (hlen 4 _ _),
    compare_bigEndian (toNat_lt_pow p) (toNat_lt_pow p'), compare_bigEndian hg hg',
    compare_bigEndian hi hi', compare_uint8 d d']
  rfl

theorem compare_createSequenceKey {n m : Nat} (hn : n < 2 ^ 64) (hm : m < 2 ^ 64) :
    compare (createSequenceKey n) (createSequenceKey m) = compare n m := by
  unfold createSequenceKey
  rw [compare_cons, compare_bigEndian hn hm]
  rfl

theorem createMintKey_lt_iff {p p' : UInt32} {d d' : UInt8} {g g' i i' : Nat}
    (hg : g < 2 ^ 32) (hg' : g' < 2 ^ 32) (hi : i < 2 ^ 16) (hi' : i' < 2 ^ 16) :
    compare (createMintKey p d g i) (createMintKey p' d' g' i') = .lt ↔
      p.toNat < p'.toNat ∨ p.toNat = p'.toNat ∧ (d.toNat < d'.toNat ∨ d.toNat = d'.toNat ∧
        (g < g' ∨ g = g' ∧ i < i')) := by
  rw [compare_createMintKey hg hg' hi hi']
  simp only [Ordering.then_eq_lt, Nat.compare_eq_lt, Nat.compare_eq_eq]

theorem parseMintKey_createMintKey {p : UInt32} {d : UInt8} {g i : Nat} (hg : g < 2 ^ 32)
    (hi : i < 2 ^ 16) : parseMintKey (createMintKey p d g i) = .ok (some ⟨p, d, g, i⟩) := by
  have hprop : ((createMintKey p d g i).drop 1).take 4 = bigEndian 4 p.toNat := rfl
  have hdenom : (createMintKey p d g i).drop 5 = d :: (bigEndian 4 g ++ bigEndian 2 i) := rfl
  have hgroup : (createMintKey p d g i).drop 6 = bigEndian 4 g ++ bigEndian 2 i := rfl
  have hgroup' : ((createMintKey p d g i).drop 6).take 4 = bigEndian 4 g := rfl
  have hidx : ((createMintKey p d g i).drop 10).take 2 = bigEndian 2 i := rfl
  have hhead : (createMintKey p d g i).head? = some KeyType.mint := rfl
  unfold parseMintKey
  rw [if_pos hhead, if_neg (by rw [length_createMintKey]; exact fun h => h rfl), hprop, hdenom,
    hgroup', hidx, readBigEndian_bigEndian (toNat_lt_pow p), readBigEndian_bigEndian hg,
    readBigEndian_bigEndian hi, UInt32.ofNat_toNat]
  rfl

theorem createMintKey_injective {p p' : UInt32} {d d' : UInt8} {g g' i i' : Nat}
    (hg : g < 2 ^ 32) (hg' : g' < 2 ^ 32) (hi : i < 2 ^ 16) (hi' : i' < 2 ^ 16)
    (h : createMintKey p d g i = createMintKey p' d' g' i') :
    p = p' ∧ d = d' ∧ g = g' ∧ i = i' := by
  have hparse := @parseMintKey_createMintKey p d g i hg hi
  rw [h, parseMintKey_createMintKey hg' hi'] at hparse
  cases hparse
  exact ⟨rfl, rfl, rfl, rfl⟩

theorem createSpendSerialKey_injective {p p' : UInt32} {d d' : UInt8} {s s' : SpendSerial}
    (h : createSpendSerialKey p d s = createSpendSerialKey p' d' s') :
    p = p' ∧ d = d' ∧ s = s' := by
  have htail := (cons.inj h).2
  obtain ⟨hp, hrest⟩ := append_inj htail (by rw [length_bigEndian, length_bigEndian])
  obtain ⟨hd, hs⟩ := cons.inj hrest
  refine ⟨?_, hd, Subtype.ext hs⟩
  exact UInt32.toNat_inj.mp (bigEndian_injective (toNat_lt_pow p) (toNat_lt_pow p') hp)

end Zcoin.Elysium
