/-
  Zcoin.Elysium.PacketEncoder — payloads in transaction outputs (`elysium/packetencoder.h/.cpp`,
  `WalletTxBuilder` and the class B and C parts of `parseTransaction` in `elysium/elysium.cpp`).

  Class C puts the payload, behind a magic, into one push of an `OP_RETURN` output.  Class B
  cuts it into chunks of 30 bytes, each of which becomes an obfuscated public key of a multisig
  output; the last chunk is filled up with zeros, and the parser gives them back.
-/
import Zcoin.Elysium.Packet

namespace Zcoin.Elysium

open Lib Lib.Except List Nat

/-! ## §1. Outputs and settings. -/

/-- An output script: a multisig script and its keys, a script to an address, or `OP_RETURN`
with its pushes. -/
inductive TxOut where
  | multisig (nRequired : Nat) (keys : List Bytes)
  | payTo (address : Address)
  | nullData (pushes : List Bytes)
  deriving DecidableEq, Repr

/-- Whether an output carries data. -/
def TxOut.isData : TxOut → Bool
  | .multisig _ _ => true
  | .payTo _ => false
  | .nullData _ => true

/-- `PacketClass`. -/
inductive PacketClass where
  | B
  | C
  deriving DecidableEq, Repr

/-- The hash, the test of a public key and the system address. -/
structure EncoderEnv where
  sha256 : Bytes → Bytes
  length_sha256 : ∀ s, (sha256 s).length = 32
  isFullyValid : Bytes → Bool
  systemAddress : Address

/-- `InputMode`. -/
inductive InputMode where
  | normal
  | sigma
  deriving DecidableEq, Repr

/-- What the choice of the class depends on: `-datacarrier` (and whether `OP_RETURN` outputs
are allowed) and `nMaxDatacarrierBytes`. -/
structure WalletSettings where
  dataEnabled : Bool
  nMaxDatacarrierBytes : Nat

def CLASS_B_MAX_CHUNKS : Nat := 255
def CLASS_B_CHUNK_SIZE : Nat := 31
def CLASS_B_CHUNK_PAYLOAD_SIZE : Nat := 30

/-- Prefix of class C packet: "exodus". -/
def magic : Bytes := [0x65, 0x78, 0x6f, 0x64, 0x75, 0x73]

/-! ## §2. Encoding. -/

/-- `HexStr` in upper case. -/
def hexUpper (bytes : Bytes) : Bytes :=
  bytes.flatMap fun b => [hexDigit (b.toNat / 16), hexDigit (b.toNat % 16)]
where
  hexDigit (n : Nat) : UInt8 := if n < 10 then UInt8.ofNat (48 + n) else UInt8.ofNat (55 + n)

variable (env : EncoderEnv)

/-- `PacketKeyGenerator::Next`: the seed that follows; the key is the hash of the seed. -/
def nextSeed (seed : Bytes) : Bytes := hexUpper (env.sha256 seed)

/-- The loop of `KeyEncoder::Encode` that fixes the ECDSA coordinate. -/
def fixCoordinate (env : EncoderEnv) (body : Bytes) : Nat → UInt8 → Except Abort Bytes
  | 0, _ => .error (.threw (.runtimeError "Failed to generate a valid public key"))
  | n + 1, fix =>
    if env.isFullyValid (body ++ [fix]) then .ok (body ++ [fix])
    else fixCoordinate env body n (fix + 1)

/-- `KeyEncoder::Encode`; `rand` is what `GetRand` gives. -/
def encodeKey (encKey : Bytes) (rand chunk : UInt8) (payload : Bytes) : Except Abort Bytes :=
  if payload.length > CLASS_B_CHUNK_PAYLOAD_SIZE then
    .error (.threw (.invalidArgument "Invalid payload"))
  else
    let packet := chunk :: (payload ++
      List.replicate (CLASS_B_CHUNK_PAYLOAD_SIZE - payload.length) 0)
    fixCoordinate env (2 :: List.zipWith (· ^^^ ·) packet encKey) 256 rand

/-- The inner loop of `EncodeClassB`: the keys of one output, and the chunk, the seed and the
payload that are left. -/
def encodeKeys (env : EncoderEnv) (rand : Nat → UInt8) :
    Nat → Nat → Bytes → Bytes → Except Abort (List Bytes × Nat × Bytes × Bytes)
  | 0, chunk, seed, payload => .ok ([], chunk, seed, payload)
  | n + 1, chunk, seed, payload => do
    if chunk > CLASS_B_MAX_CHUNKS then
      .error (.threw (.invalidArgument "Payload too large"))
    else
      let key ← encodeKey env ((env.sha256 seed).take CLASS_B_CHUNK_SIZE) (rand chunk)
        (UInt8.ofNat chunk) (payload.take CLASS_B_CHUNK_PAYLOAD_SIZE)
      let (keys, left) ← encodeKeys env rand n (chunk + 1) (nextSeed env seed)
        (payload.drop CLASS_B_CHUNK_PAYLOAD_SIZE)
      return (key :: keys, left)

/-- The outer loop of `EncodeClassB`, while payload remains.  Every round takes at least one
byte, so that as many rounds as bytes suffice. -/
def encodeMultisigs (env : EncoderEnv) (rand : Nat → UInt8) (redeemingKey : Bytes) :
    Nat → Nat → Bytes → Bytes → Except Abort (List TxOut)
  | 0, _, _, _ => .ok []
  | rounds + 1, chunk, seed, payload =>
    if payload.isEmpty then .ok []
    else do
      let generatingKeys := if payload.length > CLASS_B_CHUNK_PAYLOAD_SIZE then 2 else 1
      let (keys, chunk, seed, payload) ← encodeKeys env rand generatingKeys chunk seed payload
      let rest ← encodeMultisigs env rand redeemingKey rounds chunk seed payload
      return .multisig 1 (redeemingKey :: keys) :: rest

/-- `EncodeClassB`. -/
def encodeClassB (rand : Nat → UInt8) (sender redeemingKey payload : Bytes) :
    Except Abort (List TxOut) := do
  let outputs ← encodeMultisigs env rand redeemingKey payload.length 1 sender payload
  return outputs ++ [.payTo env.systemAddress]

/-- The size of a push in a script. -/
def pushSize (n : Nat) : Nat :=
  if n < 76 then n + 1 else if n ≤ 0xFF then n + 2 else if n ≤ 0xFFFF then n + 3 else n + 5

variable (settings : WalletSettings)

/-- `EncodeClassC`. -/
def encodeClassC (payload : Bytes) : Except Abort (List TxOut) :=
  if 1 + pushSize (magic ++ payload).length > settings.nMaxDatacarrierBytes then
    .error (.threw (.invalidArgument "Payload is too large"))
  else .ok [.nullData [magic ++ payload]]

/-- `UseEncodingClassC`. -/
def useEncodingClassC (nDataSize : Nat) : Bool :=
  nDataSize + magic.length ≤ settings.nMaxDatacarrierBytes && settings.dataEnabled

/-- The class `WalletTxBuilder` chooses. -/
def useClassC (inputMode : InputMode) (nDataSize : Nat) : Bool :=
  !(inputMode = .normal && !useEncodingClassC settings nDataSize)

/-- The data outputs of `WalletTxBuilder`. -/
def walletOutputs (inputMode : InputMode) (rand : Nat → UInt8)
    (sender redeemingKey payload : Bytes) : Except Abort (List TxOut) :=
  if useClassC settings inputMode payload.length then encodeClassC settings payload
  else encodeClassB env rand sender redeemingKey payload

/-! ## §3. Parsing. -/

/-- Whether the first push starts with the magic. -/
def isTagged : List Bytes → Bool
  | [] => false
  | first :: _ => magic.isPrefixOf first

/-- `DeterminePacketClass`; every output type is allowed from block 0 on. -/
def determinePacketClass (vout : List TxOut) : Option PacketClass :=
  let hasOpReturn := vout.any fun out => match out with
    | .nullData pushes => isTagged pushes
    | _ => false
  let hasSysAddr := vout.any fun out => out = .payTo env.systemAddress
  let hasMultisig := vout.any fun out => match out with
    | .multisig _ _ => true
    | _ => false
  if hasOpReturn then some .C else if hasSysAddr && hasMultisig then some .B else none

/-- The keys of the multisig outputs, without the first of each. -/
def multisigScriptData (vout : List TxOut) : List Bytes :=
  vout.flatMap fun out => match out with
    | .multisig _ keys => keys.drop 1
    | _ => []

/-- Deobfuscating the packets, and the payload behind their sequence numbers. -/
def deobfuscate (env : EncoderEnv) : Bytes → List Bytes → Bytes
  | _, [] => []
  | seed, key :: keys =>
    (List.zipWith (· ^^^ ·) ((key.drop 1).take CLASS_B_CHUNK_SIZE) (env.sha256 seed)).drop 1 ++
      deobfuscate env (nextSeed env seed) keys

/-- The pushes of the tagged `OP_RETURN` outputs, the magic stripped. -/
def opReturnScriptData (vout : List TxOut) : List Bytes :=
  vout.flatMap fun out => match out with
    | .nullData (first :: pushes) =>
      if isTagged (first :: pushes) then first.drop magic.length :: pushes else []
    | _ => []

/-- The most that is taken from class C. -/
def MAX_CLASS_C : Nat := CLASS_B_MAX_CHUNKS * CLASS_B_CHUNK_SIZE

/-- The loop that extracts the payload for class C. -/
def extractClassC (payload : Bytes) : List Bytes → Bytes
  | [] => payload
  | vch :: rest =>
    if vch.isEmpty then extractClassC payload rest
    else
      let payload := payload ++ vch.take (MAX_CLASS_C - payload.length)
      if payload.length = MAX_CLASS_C then payload else extractClassC payload rest

/-- The payload `parseTransaction` finds in the outputs; `none`: no marker. -/
def parsePayload (sender : Bytes) (vout : List TxOut) : Option Bytes :=
  match determinePacketClass env vout with
  | none => none
  | some .B => some (deobfuscate env sender ((multisigScriptData vout).take CLASS_B_MAX_CHUNKS))
  | some .C => some (extractClassC [] (opReturnScriptData vout))

/-! ## §4. The outputs of a transaction. -/

/-- **The wallet's transaction**: the data outputs in their order, the other ones of the
encoder, and whatever outputs to addresses (the receiver, the change) it adds. -/
structure Embeds (outputs vout : List TxOut) : Prop where
  data : vout.filter TxOut.isData = outputs.filter TxOut.isData
  all : ∀ out ∈ outputs, out ∈ vout

theorem flatMap_filter_isData {α : Type} (f : TxOut → List α) (h : ∀ a, f (.payTo a) = [])
    (vout : List TxOut) : (vout.filter TxOut.isData).flatMap f = vout.flatMap f := by
  induction vout with
  | nil => rfl
  | cons out vout ih =>
    cases out with
    | payTo a =>
      rw [filter_cons_of_neg Bool.false_ne_true, ih, flatMap_cons, h]
      rfl
    | multisig nRequired keys =>
      rw [filter_cons_of_pos rfl, flatMap_cons, flatMap_cons, ih]
    | nullData pushes =>
      rw [filter_cons_of_pos rfl, flatMap_cons, flatMap_cons, ih]

variable {outputs vout : List TxOut} {env : EncoderEnv} {payload seed : Bytes} {n : Nat}
  {rand : Nat → UInt8} (h : Embeds outputs vout)
include h

theorem Embeds.multisigScriptData : multisigScriptData vout = multisigScriptData outputs := by
  unfold Elysium.multisigScriptData
  rw [← flatMap_filter_isData _ (fun _ => rfl) vout, h.data, flatMap_filter_isData _ fun _ => rfl]

theorem Embeds.opReturnScriptData : opReturnScriptData vout = opReturnScriptData outputs := by
  unfold Elysium.opReturnScriptData
  rw [← flatMap_filter_isData _ (fun _ => rfl) vout, h.data, flatMap_filter_isData _ fun _ => rfl]

theorem Embeds.mem {out : TxOut} (hout : out ∈ vout)
    (hdata : out.isData = true) : out ∈ outputs := by
  have hmem : out ∈ vout.filter TxOut.isData := mem_filter.mpr ⟨hout, hdata⟩
  rw [h.data] at hmem
  exact (mem_filter.mp hmem).1

omit h

/-! ## §5. Class C. -/

theorem isTagged_magic (payload : Bytes) : isTagged [magic ++ payload] = true := rfl

/-- **Class C gives back the payload**, up to the limit of the parser. -/
theorem parsePayload_classC {settings : WalletSettings}
    (hencode : encodeClassC settings payload = .ok outputs) (hvout : Embeds outputs vout)
    (sender : Bytes) (hpos : payload ≠ []) :
    parsePayload env sender vout = some (payload.take MAX_CLASS_C) := by
  have houtputs : outputs = [.nullData [magic ++ payload]] := by
    unfold encodeClassC at hencode
    split at hencode
    · cases hencode
    · cases hencode
      rfl
  subst houtputs
  have hclass : determinePacketClass env vout = some .C := by
    unfold determinePacketClass
    refine if_pos ?_
    rw [any_eq_true]
    exact ⟨.nullData [magic ++ payload], hvout.all _ mem_cons_self, isTagged_magic payload⟩
  have hdata : opReturnScriptData vout = [payload] := by
    rw [hvout.opReturnScriptData]
    show (if isTagged [magic ++ payload] = true then _ else _) ++ [] = _
    rw [if_pos (isTagged_magic payload), append_nil, drop_left]
  unfold parsePayload
  rw [hclass, hdata]
  show some (if payload.isEmpty = true then _ else _) = _
  rw [if_neg (by rw [List.isEmpty_iff]; exact hpos)]
  show some (if ([] ++ payload.take (MAX_CLASS_C - 0)).length = MAX_CLASS_C then
    [] ++ payload.take (MAX_CLASS_C - 0) else [] ++ payload.take (MAX_CLASS_C - 0)) = _
  rw [ite_self]
  rfl

/-! ## §6. Class B. -/

/-- The payload filled up to whole chunks. -/
def padded (payload : Bytes) : Bytes :=
  payload ++ List.replicate ((CLASS_B_CHUNK_PAYLOAD_SIZE -
    payload.length % CLASS_B_CHUNK_PAYLOAD_SIZE) % CLASS_B_CHUNK_PAYLOAD_SIZE) 0

theorem zipWith_xor_twice {packet hash : Bytes} (hpacket : packet.length = n)
    (hhash : n ≤ hash.length) :
    zipWith (· ^^^ ·) (zipWith (· ^^^ ·) packet (hash.take n)) hash = packet := by
  apply ext_getElem
  · simp only [length_zipWith, length_take]
    omega
  · simp

theorem fixCoordinate_ok {body key : Bytes} {fix : UInt8}
    (h : fixCoordinate env body n fix = .ok key) : ∃ last, key = body ++ [last] := by
  induction n generalizing fix with
  | zero => cases h
  | succ n ih =>
    unfold fixCoordinate at h
    split at h
    · cases h
      exact ⟨fix, rfl⟩
    · exact ih h

/-- **One chunk**: what the key hides is the payload and the zeros behind it. -/
theorem deobfuscate_encodeKey {key : Bytes} {rand chunk : UInt8}
    (h : encodeKey env ((env.sha256 seed).take CLASS_B_CHUNK_SIZE) rand chunk payload = .ok key) :
    (zipWith (· ^^^ ·) ((key.drop 1).take CLASS_B_CHUNK_SIZE) (env.sha256 seed)).drop 1 =
      payload ++ replicate (CLASS_B_CHUNK_PAYLOAD_SIZE - payload.length) 0 := by
  unfold encodeKey at h
  split at h
  · cases h
  · next hlen =>
    unfold CLASS_B_CHUNK_PAYLOAD_SIZE at hlen
    obtain ⟨last, rfl⟩ := fixCoordinate_ok h
    have hpacket : (chunk :: (payload ++
        replicate (CLASS_B_CHUNK_PAYLOAD_SIZE - payload.length) 0)).length =
        CLASS_B_CHUNK_SIZE := by
      unfold CLASS_B_CHUNK_SIZE CLASS_B_CHUNK_PAYLOAD_SIZE
      rw [length_cons, length_append, length_replicate]
      omega
    have hhash : CLASS_B_CHUNK_SIZE ≤ (env.sha256 seed).length := by
      rw [env.length_sha256]
      decide
    have hhidden : (zipWith (· ^^^ ·) (chunk :: (payload ++
        replicate (CLASS_B_CHUNK_PAYLOAD_SIZE - payload.length) 0))
        ((env.sha256 seed).take CLASS_B_CHUNK_SIZE)).length = CLASS_B_CHUNK_SIZE := by
      rw [length_zipWith, hpacket, length_take]
      omega
    rw [cons_append, drop_succ_cons, drop_zero, take_left' hhidden,
      zipWith_xor_twice hpacket hhash, drop_succ_cons, drop_zero]

theorem padded_of_lt (h : CLASS_B_CHUNK_PAYLOAD_SIZE < payload.length) :
    padded payload = payload.take CLASS_B_CHUNK_PAYLOAD_SIZE ++
      padded (payload.drop CLASS_B_CHUNK_PAYLOAD_SIZE) := by
  unfold padded
  rw [← append_assoc, take_append_drop, length_drop]
  congr 2
  unfold CLASS_B_CHUNK_PAYLOAD_SIZE at h ⊢
  omega

theorem padded_of_le (hpos : payload ≠ []) (h : payload.length ≤ CLASS_B_CHUNK_PAYLOAD_SIZE) :
    padded payload = payload ++ replicate (CLASS_B_CHUNK_PAYLOAD_SIZE - payload.length) 0 := by
  have hlen : 0 < payload.length := length_pos_of_ne_nil hpos
  unfold padded
  congr 2
  unfold CLASS_B_CHUNK_PAYLOAD_SIZE at h ⊢
  rcases lt_or_ge payload.length 30 with hlt | hge
  · rw [mod_eq_of_lt hlt, mod_eq_of_lt (by omega)]
  · omega

/-- The next `n` chunks, each filled up. -/
def chunks : Nat → Bytes → Bytes
  | 0, _ => []
  | n + 1, payload =>
    (payload.take CLASS_B_CHUNK_PAYLOAD_SIZE ++ List.replicate
      (CLASS_B_CHUNK_PAYLOAD_SIZE - (payload.take CLASS_B_CHUNK_PAYLOAD_SIZE).length) 0) ++
      chunks n (payload.drop CLASS_B_CHUNK_PAYLOAD_SIZE)

/-- **The inner loop**: `n` keys that hide the next `n` chunks. -/
theorem encodeKeys_ok {chunk chunk' : Nat} {seed' payload' : Bytes} {keys : List Bytes}
    (h : encodeKeys env rand n chunk seed payload = .ok (keys, chunk', seed', payload')) :
    keys.length = n ∧ chunk' = chunk + n ∧ (0 < n → chunk' ≤ CLASS_B_MAX_CHUNKS + 1) ∧
      seed' = (nextSeed env)^[n] seed ∧ payload' = payload.drop (CLASS_B_CHUNK_PAYLOAD_SIZE * n) ∧
      ∀ more, deobfuscate env seed (keys ++ more) =
        chunks n payload ++ deobfuscate env seed' more := by
  induction n generalizing chunk seed payload keys with
  | zero =>
    cases h
    exact ⟨rfl, rfl, fun h => absurd h (lt_irrefl 0), rfl, rfl, fun _ => rfl⟩
  | succ n ih =>
    unfold encodeKeys at h
    split at h
    · cases h
    · next hmax =>
      obtain ⟨key, hkey, h⟩ := bind_eq_ok.mp h
      obtain ⟨⟨keys', left⟩, hkeys, h⟩ := bind_eq_ok.mp h
      cases h
      obtain ⟨hlen, hchunk, hle, hseed, hpayload, hmore⟩ := ih hkeys
      refine ⟨?_, by omega, ?_, hseed, ?_, ?_⟩
      · rw [length_cons, hlen]
      · omega
      · rw [hpayload, drop_drop, mul_add, mul_one, add_comm]
      · intro more
        show _ ++ deobfuscate env (nextSeed env seed) (keys' ++ more) = _
        rw [deobfuscate_encodeKey hkey, hmore, ← append_assoc]
        rfl

theorem chunks_append_padded (hpos : payload ≠ []) :
    chunks (if payload.length > CLASS_B_CHUNK_PAYLOAD_SIZE then 2 else 1) payload ++
      padded (payload.drop (CLASS_B_CHUNK_PAYLOAD_SIZE *
        (if payload.length > CLASS_B_CHUNK_PAYLOAD_SIZE then 2 else 1))) = padded payload := by
  -- one chunk that is not empty, and what follows it
  have hstep : ∀ p : Bytes, p ≠ [] →
      (p.take CLASS_B_CHUNK_PAYLOAD_SIZE ++ replicate
        (CLASS_B_CHUNK_PAYLOAD_SIZE - (p.take CLASS_B_CHUNK_PAYLOAD_SIZE).length) 0) ++
        padded (p.drop CLASS_B_CHUNK_PAYLOAD_SIZE) = padded p := by
    intro p hp
    rcases lt_or_ge CLASS_B_CHUNK_PAYLOAD_SIZE p.length with hlt | hge
    · rw [padded_of_lt hlt, length_take, Nat.min_eq_left (Nat.le_of_lt hlt), Nat.sub_self,
        replicate_zero, append_nil]
    · rw [take_of_length_le hge, drop_of_length_le hge, padded_of_le hp hge]
      exact append_nil _
  by_cases hlong : payload.length > CLASS_B_CHUNK_PAYLOAD_SIZE
  · have hrest : payload.drop CLASS_B_CHUNK_PAYLOAD_SIZE ≠ [] := by
      intro hnil
      have hlen := congrArg length hnil
      rw [length_drop, length_nil] at hlen
      omega
    rw [if_pos hlong]
    show (_ ++ (_ ++ [])) ++ padded (payload.drop (CLASS_B_CHUNK_PAYLOAD_SIZE * 2)) = _
    rw [append_nil, append_assoc, ← hstep payload hpos,
      ← hstep (payload.drop CLASS_B_CHUNK_PAYLOAD_SIZE) hrest, drop_drop]
    rfl
  · rw [if_neg hlong]
    show (_ ++ []) ++ padded (payload.drop (CLASS_B_CHUNK_PAYLOAD_SIZE * 1)) = _
    rw [append_nil, mul_one]
    exact hstep payload hpos

/-- **The outer loop**: the keys of all outputs hide the padded payload. -/
theorem encodeMultisigs_ok {redeemingKey : Bytes} {rounds chunk : Nat}
    (hrounds : payload.length ≤ rounds) (hchunk : chunk ≤ CLASS_B_MAX_CHUNKS + 1)
    (h : encodeMultisigs env rand redeemingKey rounds chunk seed payload = .ok outputs) :
    deobfuscate env seed (multisigScriptData outputs) = padded payload ∧
      chunk + (multisigScriptData outputs).length ≤ CLASS_B_MAX_CHUNKS + 1 ∧
      (∀ out ∈ outputs, ∃ keys, out = .multisig 1 keys) ∧ (payload ≠ [] → outputs ≠ []) := by
  induction rounds generalizing chunk seed payload outputs with
  | zero =>
    have hnil : payload = [] := length_eq_zero_iff.mp (by omega)
    subst hnil
    cases h
    exact ⟨rfl, hchunk, fun _ h => (nomatch h), fun h => absurd rfl h⟩
  | succ rounds ih =>
    unfold encodeMultisigs at h
    by_cases hnil : payload = []
    · subst hnil
      cases h
      exact ⟨rfl, hchunk, fun _ h => (nomatch h), fun h => absurd rfl h⟩
    · have hlen := length_pos_of_ne_nil hnil
      rw [if_neg (by rw [List.isEmpty_iff]; exact hnil)] at h
      obtain ⟨⟨keys, chunk', seed', payload'⟩, hkeys, h⟩ := bind_eq_ok.mp h
      obtain ⟨rest, hrest, h⟩ := bind_eq_ok.mp h
      cases h
      obtain ⟨hcount, hchunk', hmax, -, hpayload', hmore⟩ := encodeKeys_ok hkeys
      have hpos : 0 < (if payload.length > CLASS_B_CHUNK_PAYLOAD_SIZE then 2 else 1) := by
        split <;> decide
      have hshort : payload'.length ≤ rounds := by
        rw [hpayload', length_drop]
        unfold CLASS_B_CHUNK_PAYLOAD_SIZE
        split <;> omega
      obtain ⟨hhidden, htotal, hall, -⟩ := ih hshort (hmax hpos) hrest
      refine ⟨?_, ?_, ?_, fun _ h => nomatch h⟩
      · show deobfuscate env seed (keys ++ multisigScriptData rest) = _
        rw [hmore, hhidden, hpayload']
        exact chunks_append_padded hnil
      · show chunk + (keys ++ multisigScriptData rest).length ≤ _
        rw [length_append, hcount]
        omega
      · exact forall_mem_cons.mpr ⟨⟨_, rfl⟩, hall⟩

/-- **Class B gives back the payload and the zeros that fill its last chunk.** -/
theorem parsePayload_classB {sender redeemingKey : Bytes}
    (hencode : encodeClassB env rand sender redeemingKey payload = .ok outputs)
    (hvout : Embeds outputs vout) (hpos : payload ≠ []) :
    parsePayload env sender vout = some (padded payload) := by
  obtain ⟨multisigs, hmultisigs, h⟩ := bind_eq_ok.mp hencode
  cases h
  obtain ⟨hhidden, htotal, hall, hsome⟩ := encodeMultisigs_ok le_rfl (by decide) hmultisigs
  have hkeys : multisigScriptData (multisigs ++ [.payTo env.systemAddress]) =
      multisigScriptData multisigs := by
    unfold Elysium.multisigScriptData
    rw [flatMap_append]
    exact append_nil _
  have hclass : determinePacketClass env vout = some .B := by
    unfold determinePacketClass
    rw [if_neg, if_pos]
    · obtain ⟨out, houts⟩ := exists_mem_of_ne_nil multisigs (hsome hpos)
      obtain ⟨keys, rfl⟩ := hall out houts
      rw [Bool.and_eq_true, any_eq_true, any_eq_true]
      refine ⟨⟨_, hvout.all _ (mem_append_right _ mem_cons_self), decide_eq_true rfl⟩,
        ⟨_, hvout.all _ (mem_append_left _ houts), rfl⟩⟩
    · -- no `OP_RETURN` output was made
      rw [any_eq_true]
      intro htagged
      obtain ⟨out, hout, htag⟩ := htagged
      cases out with
      | nullData pushes =>
        rcases mem_append.mp (hvout.mem hout rfl) with hmem | hmem
        · obtain ⟨keys, hkeys⟩ := hall _ hmem
          cases hkeys
        · cases mem_singleton.mp hmem
      | multisig nRequired keys => cases htag
      | payTo a => cases htag
  unfold parsePayload
  rw [hclass, hvout.multisigScriptData, hkeys, take_of_length_le (by omega), hhidden]

/-! ## §7. The limit of the parser. -/

theorem length_deobfuscate_le (env : EncoderEnv) (seed : Bytes) (keys : List Bytes) :
    (deobfuscate env seed keys).length ≤ CLASS_B_CHUNK_SIZE * keys.length := by
  induction keys generalizing seed with
  | nil => exact zero_le _
  | cons key keys ih =>
    have hrest := ih (nextSeed env seed)
    unfold deobfuscate
    rw [length_append, length_drop, length_zipWith, length_take,
      length_cons]
    unfold CLASS_B_CHUNK_SIZE at hrest ⊢
    omega

theorem length_extractClassC_le (h : payload.length ≤ MAX_CLASS_C) (pushes : List Bytes) :
    (extractClassC payload pushes).length ≤ MAX_CLASS_C := by
  induction pushes generalizing payload with
  | nil => exact h
  | cons vch pushes ih =>
    have hmore : (payload ++ vch.take (MAX_CLASS_C - payload.length)).length ≤ MAX_CLASS_C := by
      rw [length_append, length_take]
      omega
    unfold extractClassC
    split
    · exact ih h
    · dsimp only
      split
      · exact hmore
      · exact ih hmore

/-- **No payload that was parsed is longer.** -/
theorem length_parsePayload_le {sender raw : Bytes} (h : parsePayload env sender vout = some raw) :
    raw.length ≤ MAX_CLASS_C := by
  unfold parsePayload at h
  split at h
  · cases h
  · cases h
    have hkeys : ((multisigScriptData vout).take CLASS_B_MAX_CHUNKS).length ≤
        CLASS_B_MAX_CHUNKS := length_take_le _ _
    calc _ ≤ CLASS_B_CHUNK_SIZE * ((multisigScriptData vout).take CLASS_B_MAX_CHUNKS).length :=
          length_deobfuscate_le env sender _
      _ ≤ CLASS_B_CHUNK_SIZE * CLASS_B_MAX_CHUNKS := mul_le_mul_left _ hkeys
      _ = MAX_CLASS_C := mul_comm _ _
  · cases h
    exact length_extractClassC_le (zero_le _) _

/-! ## §7. Which payloads are encoded. -/

/-- What the key of the next chunk has in front of the coordinate that is fixed. -/
def keyBody (env : EncoderEnv) (chunk : Nat) (seed payload : Bytes) : Bytes :=
  let piece := payload.take CLASS_B_CHUNK_PAYLOAD_SIZE
  2 :: List.zipWith (· ^^^ ·) (UInt8.ofNat chunk :: (piece ++
    List.replicate (CLASS_B_CHUNK_PAYLOAD_SIZE - piece.length) 0))
    ((env.sha256 seed).take CLASS_B_CHUNK_SIZE)

/-- **A chunk that is encoded**: it has a number, and some coordinate makes a valid key. -/
def Keyed (env : EncoderEnv) (chunk : Nat) (seed payload : Bytes) : Prop :=
  chunk ≤ CLASS_B_MAX_CHUNKS ∧
    ∃ fix, env.isFullyValid (keyBody env chunk seed payload ++ [fix]) = true

/-- All chunks of a payload are encoded. -/
def AllKeyed (env : EncoderEnv) (chunk : Nat) (seed payload : Bytes) : Prop :=
  ∀ i, CLASS_B_CHUNK_PAYLOAD_SIZE * i < payload.length →
    Keyed env (chunk + i) ((nextSeed env)^[i] seed) (payload.drop (CLASS_B_CHUNK_PAYLOAD_SIZE * i))

theorem fixCoordinate_ok_iff {body : Bytes} {fix : UInt8} :
    (∃ key, fixCoordinate env body n fix = .ok key) ↔
      ∃ j < n, env.isFullyValid (body ++ [fix + UInt8.ofNat j]) = true := by
  induction n generalizing fix with
  | zero => exact iff_of_false (fun ⟨_, h⟩ => nomatch h) (fun ⟨_, h, _⟩ => nomatch h)
  | succ n ih =>
    have hnext : ∀ j, fix + UInt8.ofNat (j + 1) = fix + 1 + UInt8.ofNat j := fun j => by
      rw [Nat.add_comm, UInt8.ofNat_add, add_assoc]
      rfl
    have hfirst : fix + UInt8.ofNat 0 = fix := add_zero fix
    unfold fixCoordinate
    split
    · next hvalid => exact iff_of_true ⟨_, rfl⟩ ⟨0, succ_pos n, hfirst.symm ▸ hvalid⟩
    · next hinvalid =>
      rw [ih]
      constructor
      · rintro ⟨j, hj, hvalid⟩
        exact ⟨j + 1, by omega, hnext j ▸ hvalid⟩
      · rintro ⟨j, hj, hvalid⟩
        cases j with
        | zero => exact absurd (hfirst ▸ hvalid) hinvalid
        | succ j => exact ⟨j, by omega, hnext j ▸ hvalid⟩

theorem encodeKey_ok_iff {chunk : Nat} {fix : UInt8} :
    (∃ key, encodeKey env ((env.sha256 seed).take CLASS_B_CHUNK_SIZE) fix (UInt8.ofNat chunk)
      (payload.take CLASS_B_CHUNK_PAYLOAD_SIZE) = .ok key) ↔
      ∃ last, env.isFullyValid (keyBody env chunk seed payload ++ [last]) = true := by
  unfold encodeKey
  rw [if_neg (by rw [length_take]; omega), fixCoordinate_ok_iff]
  constructor
  · rintro ⟨j, -, hvalid⟩
    exact ⟨_, hvalid⟩
  · rintro ⟨last, hvalid⟩
    refine ⟨(last - fix).toNat, (last - fix).toNat_lt, ?_⟩
    rw [UInt8.ofNat_toNat, add_sub_cancel]
    exact hvalid

theorem encodeKeys_ok_iff {chunk : Nat} :
    (∃ left, encodeKeys env rand n chunk seed payload = .ok left) ↔
      ∀ i < n, Keyed env (chunk + i) ((nextSeed env)^[i] seed)
        (payload.drop (CLASS_B_CHUNK_PAYLOAD_SIZE * i)) := by
  induction n generalizing chunk seed payload with
  | zero => exact iff_of_true ⟨_, rfl⟩ (fun _ h => nomatch h)
  | succ n ih =>
    have hrest : (∀ i < n, Keyed env (chunk + (i + 1)) ((nextSeed env)^[i + 1] seed)
        (payload.drop (CLASS_B_CHUNK_PAYLOAD_SIZE * (i + 1)))) ↔
        ∀ i < n, Keyed env (chunk + 1 + i) ((nextSeed env)^[i] (nextSeed env seed))
          ((payload.drop CLASS_B_CHUNK_PAYLOAD_SIZE).drop (CLASS_B_CHUNK_PAYLOAD_SIZE * i)) := by
      simp only [drop_drop, mul_add, mul_one, Nat.add_comm, Nat.add_left_comm,
        Function.iterate_succ_apply]
    rw [Nat.forall_lt_succ_left, hrest, encodeKeys]
    constructor
    · rintro ⟨left, h⟩
      split at h
      · cases h
      next hmax =>
      obtain ⟨key, hkey, h⟩ := bind_eq_ok.mp h
      obtain ⟨left', hleft, -⟩ := bind_eq_ok.mp h
      exact ⟨⟨not_lt.mp hmax, encodeKey_ok_iff.mp ⟨key, hkey⟩⟩, ih.mp ⟨left', hleft⟩⟩
    · rintro ⟨⟨hmax, hvalid⟩, hleft⟩
      obtain ⟨key, hkey⟩ := (@encodeKey_ok_iff env _ _ _ (rand chunk)).mpr hvalid
      obtain ⟨left', hleft⟩ := ih.mpr hleft
      rw [if_neg (show ¬ chunk > _ from not_lt.mpr hmax)]
      exact ⟨_, bind_eq_ok.mpr ⟨key, hkey, bind_eq_ok.mpr ⟨left', hleft, rfl⟩⟩⟩

theorem allKeyed_split {chunk : Nat}
    (hfull : ∀ i < n, CLASS_B_CHUNK_PAYLOAD_SIZE * i < payload.length) :
    AllKeyed env chunk seed payload ↔
      (∀ i < n, Keyed env (chunk + i) ((nextSeed env)^[i] seed)
        (payload.drop (CLASS_B_CHUNK_PAYLOAD_SIZE * i))) ∧
      AllKeyed env (chunk + n) ((nextSeed env)^[n] seed)
        (payload.drop (CLASS_B_CHUNK_PAYLOAD_SIZE * n)) := by
  have hrest : ∀ i, Keyed env (chunk + n + i) ((nextSeed env)^[i] ((nextSeed env)^[n] seed))
      ((payload.drop (CLASS_B_CHUNK_PAYLOAD_SIZE * n)).drop (CLASS_B_CHUNK_PAYLOAD_SIZE * i)) ↔
      Keyed env (chunk + (n + i)) ((nextSeed env)^[n + i] seed)
        (payload.drop (CLASS_B_CHUNK_PAYLOAD_SIZE * (n + i))) := fun i => by
    rw [drop_drop, ← mul_add, ← Function.iterate_add_apply, Nat.add_comm i n, Nat.add_assoc]
  unfold AllKeyed
  simp only [hrest, length_drop]
  constructor
  · intro h
    exact ⟨fun i hi => h i (hfull i hi), fun i hi => h (n + i) (by rw [mul_add]; omega)⟩
  · rintro ⟨hfirst, hlater⟩ i hi
    rcases lt_or_ge i n with hlt | hge
    · exact hfirst i hlt
    · obtain ⟨j, rfl⟩ := Nat.exists_eq_add_of_le hge
      exact hlater j (by rw [mul_add] at hi; omega)

theorem encodeMultisigs_ok_iff {redeemingKey : Bytes} {rounds chunk : Nat}
    (hrounds : payload.length ≤ rounds) :
    (∃ outputs, encodeMultisigs env rand redeemingKey rounds chunk seed payload = .ok outputs) ↔
      AllKeyed env chunk seed payload := by
  induction rounds generalizing chunk seed payload with
  | zero => exact iff_of_true ⟨_, rfl⟩ (fun _ h => absurd h (by omega))
  | succ rounds ih =>
    unfold encodeMultisigs
    by_cases hnil : payload = []
    · subst hnil
      exact iff_of_true ⟨_, rfl⟩ (fun _ h => nomatch h)
    have hlen := length_pos_of_ne_nil hnil
    rw [if_neg (by rw [List.isEmpty_iff]; exact hnil)]
    dsimp only
    generalize hn : (if payload.length > CLASS_B_CHUNK_PAYLOAD_SIZE then 2 else 1) = n
    have hn' : 0 < n ∧ ∀ i < n, CLASS_B_CHUNK_PAYLOAD_SIZE * i < payload.length := by
      unfold CLASS_B_CHUNK_PAYLOAD_SIZE at hn ⊢
      split at hn <;> exact ⟨by omega, fun i hi => by omega⟩
    have hshort : (payload.drop (CLASS_B_CHUNK_PAYLOAD_SIZE * n)).length ≤ rounds := by
      rw [length_drop]
      unfold CLASS_B_CHUNK_PAYLOAD_SIZE
      omega
    rw [allKeyed_split hn'.2, ← ih hshort, ← encodeKeys_ok_iff]
    constructor
    · rintro ⟨outputs, h⟩
      obtain ⟨⟨keys, chunk', seed', payload'⟩, hkeys, h⟩ := bind_eq_ok.mp h
      obtain ⟨rest, hrest, -⟩ := bind_eq_ok.mp h
      obtain ⟨-, rfl, -, rfl, rfl, -⟩ := encodeKeys_ok hkeys
      exact ⟨⟨_, hkeys⟩, rest, hrest⟩
    · rintro ⟨⟨⟨keys, chunk', seed', payload'⟩, hkeys⟩, rest, hrest⟩
      obtain ⟨-, rfl, -, rfl, rfl, -⟩ := encodeKeys_ok hkeys
      exact ⟨_, bind_eq_ok.mpr ⟨_, hkeys, bind_eq_ok.mpr ⟨rest, hrest, rfl⟩⟩⟩

/-- **What an encoding needs.**  The size that `UseEncodingClassC` compares leaves out the bytes
that the script has beside its data. -/
def Encodes (env : EncoderEnv) (settings : WalletSettings) (sender payload : Bytes) :
    PacketClass → Prop
  | .B => AllKeyed env 1 sender payload
  | .C => 1 + pushSize (magic ++ payload).length ≤ settings.nMaxDatacarrierBytes

theorem encodeClassB_ok_iff {settings : WalletSettings} {redeemingKey : Bytes} :
    (∃ outputs, encodeClassB env rand seed redeemingKey payload = .ok outputs) ↔
      Encodes env settings seed payload .B := by
  rw [Encodes, ← encodeMultisigs_ok_iff (le_refl payload.length)]
  unfold encodeClassB
  constructor
  · rintro ⟨outputs, h⟩
    obtain ⟨multisigs, hmultisigs, -⟩ := bind_eq_ok.mp h
    exact ⟨multisigs, hmultisigs⟩
  · rintro ⟨multisigs, hmultisigs⟩
    exact ⟨_, bind_eq_ok.mpr ⟨multisigs, hmultisigs, rfl⟩⟩

theorem encodeClassC_ok_iff {settings : WalletSettings} :
    (∃ outputs, encodeClassC settings payload = .ok outputs) ↔
      Encodes env settings seed payload .C := by
  unfold encodeClassC Encodes
  split
  · next hlarge => exact iff_of_false (fun ⟨_, h⟩ => nomatch h) (by omega)
  · next hfits => exact iff_of_true ⟨_, rfl⟩ (by omega)

end Zcoin.Elysium
