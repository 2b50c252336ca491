/-
  Zcoin.Elysium.ReadBack — the interpreters on the payloads of the `CreatePayload_*` functions.

  The fixed layouts, the property creations and the alerts are read back whatever follows them;
  a property creation without any text is one byte too short.  A Sigma mint must have exactly
  the size of its mints and a Sigma spend must end with its stream.
-/
import Zcoin.Elysium.CreatePayload
import Zcoin.Elysium.PacketEncoder

namespace Zcoin.Elysium

open Lib Lib.Except Lib.BigEndian Lib.Stream List Nat

/-! ## §1. Fields of what was pushed. -/

section Fields

variable {pre rest : Bytes} {pos n : Nat}

theorem field_append_right {k : Nat} (hlen : pre.length = k) (h : k ≤ pos) :
    field (pre ++ rest) pos n = field rest (pos - k) n := by
  unfold field
  rw [drop_append, drop_of_length_le (hlen.trans_le h), nil_append, hlen]

theorem field_bigEndian {x : Nat} (h : x < 256 ^ n) (rest : Bytes) :
    field (bigEndian n x ++ rest) 0 n = x := by
  unfold field
  rw [drop_zero, take_left' (length_bigEndian n x), readBigEndian_bigEndian h]

@[simp] theorem length_push8 (x : UInt8) : (push8 x).length = 1 := rfl
@[simp] theorem length_push16 (x : UInt16) : (push16 x).length = 2 := length_bigEndian 2 _
@[simp] theorem length_push32 (x : UInt32) : (push32 x).length = 4 := length_bigEndian 4 _
@[simp] theorem length_push64 (x : UInt64) : (push64 x).length = 8 := length_bigEndian 8 _

@[simp] theorem length_pushType (v : UInt16) (t : TransactionType) : (pushType v t).length = 4 := by
  unfold pushType
  rw [length_append, length_push16, length_bigEndian]

@[simp] theorem length_pushText (s : Bytes) : (pushText s).length = s.length + 1 := by
  unfold pushText
  rw [length_append, length_singleton]

@[simp] theorem field_push8 (x : UInt8) (rest : Bytes) :
    UInt8.ofNat (field (push8 x ++ rest) 0 1) = x := by
  show UInt8.ofNat (0 * 256 + x.toNat) = x
  rw [zero_mul, zero_add, UInt8.ofNat_toNat]

@[simp] theorem field_push16 (x : UInt16) (rest : Bytes) :
    UInt16.ofNat (field (push16 x ++ rest) 0 2) = x := by
  unfold push16
  rw [field_bigEndian x.toNat_lt, UInt16.ofNat_toNat]

@[simp] theorem field_push32 (x : UInt32) (rest : Bytes) :
    UInt32.ofNat (field (push32 x ++ rest) 0 4) = x := by
  unfold push32
  rw [field_bigEndian x.toNat_lt, UInt32.ofNat_toNat]

@[simp] theorem field_push64 (x : UInt64) (rest : Bytes) :
    UInt64.ofNat (field (push64 x ++ rest) 0 8) = x := by
  unfold push64
  rw [field_bigEndian x.toNat_lt, UInt64.ofNat_toNat]

@[simp] theorem field_pushType (v : UInt16) (t : TransactionType) (h : 4 ≤ pos) :
    field (pushType v t ++ rest) pos n = field rest (pos - 4) n :=
  field_append_right (length_pushType v t) h

@[simp] theorem field_after8 (x : UInt8) (h : 1 ≤ pos) :
    field (push8 x ++ rest) pos n = field rest (pos - 1) n := field_append_right rfl h

@[simp] theorem field_after16 (x : UInt16) (h : 2 ≤ pos) :
    field (push16 x ++ rest) pos n = field rest (pos - 2) n :=
  field_append_right (length_push16 x) h

@[simp] theorem field_after32 (x : UInt32) (h : 4 ≤ pos) :
    field (push32 x ++ rest) pos n = field rest (pos - 4) n :=
  field_append_right (length_push32 x) h

@[simp] theorem field_after64 (x : UInt64) (h : 8 ≤ pos) :
    field (push64 x ++ rest) pos n = field rest (pos - 8) n :=
  field_append_right (length_push64 x) h

end Fields

/-! ## §2. The dispatch. -/

section Dispatch

variable {G : Type} {env : PacketEnv G}

theorem ofCode_code (t : TransactionType) : TransactionType.ofCode t.code = some t := by
  cases t <;> rfl

theorem code_lt (t : TransactionType) : t.code < 256 ^ 2 := by
  cases t <;> decide

/-- **The interpreter of the type that was pushed** gets the payload. -/
theorem interpretTransaction_pushType (v : UInt16) (t : TransactionType) (body : Bytes) :
    interpretTransaction env {} (pushType v t ++ body) =
      interpretType env (ofType v t) (pushType v t ++ body) t := by
  have hversion : UInt16.ofNat (field (pushType v t ++ body) 0 2) = v := by
    unfold pushType
    rw [append_assoc]
    exact field_push16 v _
  have hcode : (UInt16.ofNat (field (pushType v t ++ body) 2 2)).toNat = t.code := by
    unfold pushType
    rw [append_assoc, field_append_right (length_push16 v) le_rfl, Nat.sub_self,
      field_bigEndian (code_lt t), UInt16.toNat_ofNat']
    exact mod_eq_of_lt (code_lt t)
  rw [interpretTransaction_eq (by rw [length_append, length_pushType]; omega)]
  unfold payloadType payloadVersion
  rw [hcode, hversion, ofCode_code]
  rfl

end Dispatch

/-! ## §3. The fixed layouts: whatever follows the payload is ignored. -/

section Fixed

variable {G : Type} {env : PacketEnv G} {v : UInt16} {t : TransactionType}
  {tx : CMPTransaction G} (more : Bytes)

theorem reference_back (property : UInt32) (value : UInt64) (address : ChainAddress env) :
    interpretReference env tx (pushType v t ++ (push32 property ++ (push64 value ++
      (addressToBytes address.val ++ more)))) =
      .ok (some { tx.withValue property value with receiver := some address.val }) := by
  obtain ⟨⟨version, hash160⟩, hversion, hlen⟩ := address
  have hbytes : addressToBytes ⟨version, hash160⟩ ++ more = push8 version ++ (hash160 ++ more) :=
    rfl
  have hhash : ((pushType v t ++ (push32 property ++ (push64 value ++
      (push8 version ++ (hash160 ++ more))))).drop 17).take 20 = hash160 := by
    have hdrop : (pushType v t ++ (push32 property ++ (push64 value ++
        (push8 version ++ (hash160 ++ more))))).drop 17 = hash160 ++ more := rfl
    rw [hdrop, take_left' hlen]
  show interpretReference env tx (pushType v t ++ (push32 property ++ (push64 value ++
    (addressToBytes ⟨version, hash160⟩ ++ more)))) = _
  rw [hbytes, interpretReference_eq (by simp [hlen]; omega), hhash]
  simp
  have haddress : hashToAddress env version hash160 = some ⟨version, hash160⟩ := if_pos hversion
  rw [haddress]
  rfl

end Fixed

/-! ## §4. Strings. -/

section Strings

/-- **A terminated string is found** where it stands. -/
theorem readString_append (pre : Bytes) {s : Bytes} (hs : 0 ∉ s) (rest : Bytes) :
    readString (pre ++ (pushText s ++ rest)) pre.length = some (s, pre.length + s.length + 1) := by
  have htake : (s ++ (0 :: rest)).takeWhile (· ≠ 0) = s := by
    rw [takeWhile_append_of_pos]
    · rw [takeWhile_cons_of_neg (by decide), append_nil]
    · intro b hb
      rw [decide_eq_true_eq]
      rintro rfl
      exact hs hb
  unfold readString pushText
  rw [drop_left, append_assoc, singleton_append, htake, if_neg]
  intro heq
  have hlen := congrArg length heq
  rw [length_append, length_cons] at hlen
  omega

theorem readStrings_append {texts : List Bytes} (htexts : ∀ s ∈ texts, 0 ∉ s) (pre rest : Bytes) :
    readStrings (pre ++ (texts.flatMap pushText ++ rest)) texts.length pre.length =
      some (texts, (pre ++ texts.flatMap pushText).length) := by
  induction texts generalizing pre with
  | nil =>
    rw [flatMap_nil, append_nil]
    rfl
  | cons s texts ih =>
    have hs := htexts s mem_cons_self
    have hlen : (pre ++ pushText s).length = pre.length + s.length + 1 := by
      rw [length_append, length_pushText]
      omega
    have hrest := ih (fun s' hs' => htexts s' (mem_cons_of_mem s hs')) (pre ++ pushText s)
    rw [hlen, append_assoc, append_assoc] at hrest
    rw [flatMap_cons, append_assoc, length_cons]
    unfold readStrings
    rw [readString_append pre hs]
    dsimp only
    rw [hrest]

theorem CText.truncated_no_nul (s : CText) : 0 ∉ s.truncated :=
  fun hmem => s.property (mem_of_mem_take hmem)

theorem CText.length_truncated (s : CText) : s.truncated.length ≤ 255 := by
  unfold CText.truncated
  rw [length_take]
  omega

/-- A buffer that is empty takes the string, cut to 255 bytes. -/
theorem copyString_nil (s : Bytes) : copyString [] s = s.take 255 := by
  unfold copyString
  rw [drop_nil, append_nil]
  rfl

theorem copyString_truncated (s : CText) : copyString [] s.truncated = s.truncated := by
  rw [copyString_nil, take_of_length_le s.length_truncated]

end Strings

/-! ## §5. The property creations. -/

section Creations

variable {G : Type} {env : PacketEnv G} {v : UInt16} {t : TransactionType}
  (header : PropertyHeader) (body : Bytes)

/-- The strings in their order. -/
def PropertyTexts.all (texts : PropertyTexts) : List Bytes :=
  [texts.category.truncated, texts.subcategory.truncated, texts.name.truncated,
    texts.url.truncated, texts.data.truncated]

theorem PropertyTexts.no_nul (texts : PropertyTexts) : ∀ s ∈ texts.all, 0 ∉ s := by
  intro s hs
  unfold PropertyTexts.all at hs
  simp only [mem_cons, not_mem_nil, or_false] at hs
  rcases hs with rfl | rfl | rfl | rfl | rfl <;> exact CText.truncated_no_nul _

theorem pushProperty_append :
    pushType v t ++ (pushProperty header ++ body) =
      (pushType v t ++ (push8 header.ecosystem ++ (push16 header.propertyType ++
        push32 header.previousPropertyId))) ++
        (header.texts.all.flatMap pushText ++ body) := by
  unfold pushProperty PropertyTexts.all
  simp only [flatMap_cons, flatMap_nil, append_nil, append_assoc]

theorem issuance_back :
    interpretIssuance (ofType v t : CMPTransaction G)
      (pushType v t ++ (pushProperty header ++ body)) =
      .ok (some ((ofType v t).withProperty header, 4 + (pushProperty header).length)) := by
  have hstrings := readStrings_append header.texts.no_nul
    (pushType v t ++ (push8 header.ecosystem ++ (push16 header.propertyType ++
      push32 header.previousPropertyId))) body
  rw [← pushProperty_append, append_assoc, append_assoc, append_assoc] at hstrings
  have hlen : (pushType v t ++ (push8 header.ecosystem ++ (push16 header.propertyType ++
      (push32 header.previousPropertyId ++ header.texts.all.flatMap pushText)))).length =
      4 + (pushProperty header).length := by
    have hwhole := congrArg length (pushProperty_append (v := v) (t := t) header [])
    simp only [append_nil, length_append, length_pushType] at hwhole ⊢
    omega
  rw [hlen] at hstrings
  have hat : readStrings (pushType v t ++ (pushProperty header ++ body)) 5 11 =
      some (header.texts.all, 4 + (pushProperty header).length) := by
    rw [← hstrings]
    simp [PropertyTexts.all]
  have hlong : 11 ≤ (pushType v t ++ (pushProperty header ++ body)).length := by
    rw [pushProperty_append]
    simp
    omega
  rcases @interpretIssuance_cases G (ofType v t) _ hlong with
    ⟨hnone, -⟩ | ⟨category, subcategory, name, url, data, p, -, -, hsome, hissued⟩
  · rw [hat] at hnone
    cases hnone
  · rw [hat] at hsome
    cases hsome
    rw [hissued]
    -- the buffers of the strings were empty
    simp [issued, pushProperty, ofType, copyString_truncated]
    rfl

/-- **The body stands behind the header**, which is read back. -/
theorem property_behind {raw : Bytes} (hraw : pushType v t ++ (pushProperty header ++ body) = raw) :
    interpretIssuance (ofType v t : CMPTransaction G) raw =
      .ok (some ((ofType v t).withProperty header, 4 + (pushProperty header).length)) ∧
    (∀ {pos n}, 4 + (pushProperty header).length ≤ pos →
      field raw pos n = field body (pos - (4 + (pushProperty header).length)) n) ∧
    raw.length = 4 + (pushProperty header).length + body.length := by
  subst hraw
  refine ⟨issuance_back header body, ?_, ?_⟩
  · intro pos n hpos
    rw [field_pushType v t (by omega), field_append_right rfl (by omega), Nat.sub_sub]
  · rw [length_append, length_append, length_pushType]
    omega

end Creations

/-! ## §6. Alerts. -/

section Alerts

variable {G : Type} {env : PacketEnv G} (alertType : UInt16) (expiryValue : UInt32)

/-- **An alert is read back**, with whatever follows its text. -/
theorem alert_back (alertMessage : CText) (more : Bytes) :
    interpretAlert (ofType 65535 .alert) (pushType 65535 .alert ++ (push16 alertType ++
      (push32 expiryValue ++ (pushText alertMessage.val ++ more)))) =
      .ok (some (.elysiumAlert alertType expiryValue
        alertMessage : PayloadRequest env).interpretation) := by
  have htext := readString_append (pushType 65535 .alert ++ (push16 alertType ++
    push32 expiryValue)) alertMessage.property more
  rw [append_assoc, append_assoc] at htext
  have hten : (pushType 65535 .alert ++ (push16 alertType ++ push32 expiryValue)).length = 10 := by
    simp
  rw [hten] at htext
  rw [interpretAlert_eq (by simp; omega), htext]
  simp [ofType, copyString_nil]
  rfl

/-- **An alert whose text is not terminated** is refused. -/
theorem alert_cut {tx : CMPTransaction G} {text : Bytes} (hnul : 0 ∉ text) :
    interpretAlert tx (pushType 65535 .alert ++ (push16 alertType ++ (push32 expiryValue ++ text))) =
      .ok none := by
  have hdrop : (pushType 65535 .alert ++ (push16 alertType ++ (push32 expiryValue ++
      text))).drop 10 = text := rfl
  have hnone : readString (pushType 65535 .alert ++ (push16 alertType ++ (push32 expiryValue ++
      text))) 10 = none := by
    unfold readString
    rw [hdrop, if_pos]
    rw [takeWhile_eq_self_iff]
    intro b hb
    rw [decide_eq_true_eq]
    rintro rfl
    exact hnul hb
  by_cases hlong : 11 ≤ (pushType 65535 .alert ++ (push16 alertType ++ (push32 expiryValue ++
      text))).length
  · rw [interpretAlert_eq hlong, hnone]
    rfl
  · unfold interpretAlert
    rw [if_pos (by omega)]
    rfl

end Alerts

/-! ## §7. Mints and spends: the size must be exact. -/

section Exact

variable {G : Type} {env : PacketEnv G}

theorem readMint_append (mint : UInt8 × G) (rest : Bytes) :
    readMint env (writeMint env mint ++ rest) = .ok (mint, rest) := by
  obtain ⟨denomination, pubKey⟩ := mint
  have hone : (push8 denomination).length = 1 := rfl
  show readMint env ((push8 denomination ++ env.wire.serialize pubKey) ++ rest) = _
  unfold readMint
  rw [append_assoc, bind_ok (readBytes_append endOfData hone _),
    bind_ok (readGroupElement_append env.wire pubKey rest)]
  have hvalue : UInt8.ofNat (readBigEndian (push8 denomination)) = denomination :=
    field_push8 denomination []
  rw [hvalue]
  rfl

theorem length_writeMint (mint : UInt8 × G) : (writeMint env mint).length = elysiumMintSize := by
  unfold writeMint
  rw [length_append, length_push8, env.wire.length_serialize]
  rfl

theorem length_mintPayload (propertyId : UInt32) (mints : List (UInt8 × G)) :
    (pushType 0 .simpleMint ++ (push32 propertyId ++ (push8 (UInt8.ofNat mints.length) ++
      mints.flatMap (writeMint env)))).length = 9 + elysiumMintSize * mints.length := by
  rw [length_append, length_append, length_append,
    length_flatMap_width length_writeMint, length_pushType, length_push32, length_push8]
  omega

theorem mint_back (propertyId : UInt32) {mints : List (UInt8 × G)} (hpos : 0 < mints.length)
    (hmax : mints.length ≤ ELYSIUM_MAX_SIMPLE_MINTS) :
    interpretSimpleMint env (ofType 0 .simpleMint) (pushType 0 .simpleMint ++ (push32 propertyId ++
      (push8 (UInt8.ofNat mints.length) ++ mints.flatMap (writeMint env)))) =
      .ok (some (.simpleMint propertyId mints : PayloadRequest env).interpretation) := by
  have hlen := @length_mintPayload G env propertyId mints
  have hcount : (UInt8.ofNat mints.length).toNat = mints.length := by
    rw [UInt8.toNat_ofNat']
    unfold ELYSIUM_MAX_SIMPLE_MINTS at hmax
    exact mod_eq_of_lt (by omega)
  have hdrop : (pushType 0 .simpleMint ++ (push32 propertyId ++ (push8 (UInt8.ofNat mints.length) ++
      mints.flatMap (writeMint env)))).drop 9 = mints.flatMap (writeMint env) := rfl
  have hread := readTimes_append mints (fun mint _ => @readMint_append G env mint) []
  rw [append_nil] at hread
  unfold elysiumMintSize at hlen
  rw [interpretSimpleMint_eq (by unfold elysiumMintSize; omega), hdrop]
  simp only [field_pushType, field_after32, reduceLeDiff, reduceSub, field_push8, hcount,
    field_push32, Std.le_refl]
  rw [if_neg (by unfold elysiumMintSize; omega), hread]
  rfl

theorem readMint_length {s rest : Bytes} {mint : UInt8 × G}
    (h : readMint env s = .ok (mint, rest)) : s.length = elysiumMintSize + rest.length := by
  obtain ⟨bytes, s', hbytes, h⟩ := exists_of_bind_ok h
  obtain ⟨pubKey, s'', hkey, h⟩ := exists_of_bind_ok h
  cases h
  have hone := readBytes_length hbytes
  have hkeyLen := readGroupElement_length env.wire hkey
  unfold GROUP_ELEMENT_SIZE at hkeyLen
  unfold elysiumMintSize
  omega

variable {result : CMPTransaction G}

/-- **Only as many bytes as mints** give mints. -/
theorem mint_length {tx : CMPTransaction G} {raw : Bytes}
    (h : interpretSimpleMint env tx raw = .ok (some result)) :
    raw.length = 9 + elysiumMintSize * result.mints.length := by
  rcases lt_or_ge raw.length (9 + elysiumMintSize) with hshort | hlong
  · unfold interpretSimpleMint at h
    rw [if_pos hshort] at h
    cases h
  · rw [interpretSimpleMint_eq hlong] at h
    split at h
    · cases h
    · next hsize =>
      obtain ⟨⟨mints, rest⟩, hread, h⟩ := bind_eq_ok.mp h
      cases h
      obtain ⟨hlen, -⟩ := readTimes_length (fun _ _ _ => readMint_length) hread
      show raw.length = 9 + elysiumMintSize * mints.length
      rw [hlen]
      omega

variable (v : UInt16) (header : SpendHeader)

theorem interpretSimpleSpend_pushed (stream : Bytes) :
    interpretSimpleSpend env (ofType v .simpleSpend)
      (pushType v .simpleSpend ++ (pushSpend header ++ stream)) =
      match readSpend env ((ofType v .simpleSpend).withSpend header) stream with
      | .ok (tx, rest) => calculateSerial env tx >>= fun tx =>
        if rest.isEmpty then .ok (some tx) else .ok none
      | .error e => if e = endOfData then .ok none else .error e := by
  have hheader : spendHeader (ofType v .simpleSpend : CMPTransaction G)
      (pushType v .simpleSpend ++ (pushSpend header ++ stream)) =
      (ofType v .simpleSpend).withSpend header := by
    simp [spendHeader, pushSpend, CMPTransaction.withSpend]
  have hdrop : (pushType v .simpleSpend ++ (pushSpend header ++ stream)).drop 15 = stream := rfl
  have hrun := @interpretSimpleSpend_eq G env (ofType v .simpleSpend)
    (pushType v .simpleSpend ++ (pushSpend header ++ stream)) (by simp [pushSpend]; omega)
  rw [hheader, hdrop] at hrun
  exact hrun

variable {stream : Bytes}

/-- **A spend that is accepted** has read its stream to the end. -/
theorem spend_accepted (h : interpretSimpleSpend env (ofType v .simpleSpend)
      (pushType v .simpleSpend ++ (pushSpend header ++ stream)) = .ok (some result)) :
    ∃ tx, readSpend env ((ofType v .simpleSpend).withSpend header) stream = .ok (tx, []) ∧
      calculateSerial env tx = .ok result := by
  rw [interpretSimpleSpend_pushed] at h
  split at h
  · next tx rest hread =>
    obtain ⟨tx', hserial, h⟩ := bind_eq_ok.mp h
    split at h
    · next hend =>
      cases h
      exact ⟨tx, by rw [hread, isEmpty_iff.mp hend], hserial⟩
    · cases h
  · split at h <;> cases h

theorem spend_back {tx : CMPTransaction G}
    (hread : readSpend env ((ofType v .simpleSpend).withSpend header) stream = .ok (tx, []))
    (hserial : calculateSerial env tx = .ok result) :
    interpretSimpleSpend env (ofType v .simpleSpend)
      (pushType v .simpleSpend ++ (pushSpend header ++ stream)) = .ok (some result) := by
  rw [interpretSimpleSpend_pushed, hread]
  dsimp only
  rw [hserial]
  rfl

theorem calculateSerial_same {tx : CMPTransaction G} (h : calculateSerial env tx = .ok result) :
    result.spend = tx.spend ∧ result.ecdsaPubkey = tx.ecdsaPubkey := by
  unfold calculateSerial at h
  split at h
  · obtain ⟨serial, -, h⟩ := bind_eq_ok.mp h
    cases h
    exact ⟨rfl, rfl⟩
  · cases h
    exact ⟨rfl, rfl⟩

variable {proof : SigmaProof G} {serial : Scalar} {signature : ECDSASignature} {pubkey : Bytes}

theorem version_v0 : ((ofType 0 .simpleSpend : CMPTransaction G).withSpend header).version ≠
    MP_TX_PKT_V1 := by
  show (0 : UInt16) ≠ 1
  decide

theorem version_v1 : ((ofType 1 .simpleSpend : CMPTransaction G).withSpend header).version =
    MP_TX_PKT_V1 := rfl

theorem readSpend_v0 (hsize : (writeProof env.wire proof).length ≤ MAX_SIZE) :
    readSpend env ((ofType 0 .simpleSpend).withSpend header)
      (writeScalar serial ++ writeProof env.wire proof) =
      .ok ((.simpleSpendV0 header proof serial : PayloadRequest env).interpretation, []) := by
  obtain ⟨hf, hGk⟩ := length_vectors_le env.wire proof
  have hproof := readProof_append env.wire (le_trans hf hsize) (le_trans hGk hsize) []
  rw [append_nil] at hproof
  unfold readSpend
  rw [if_neg (version_v0 header), bind_ok (readScalar_append serial _), bind_ok hproof]
  rfl

theorem readSpend_v0_length {tx : CMPTransaction G} (hproof : tx.spend = some proof)
    (h : readSpend env ((ofType 0 .simpleSpend).withSpend header) stream = .ok (tx, [])) :
    stream.length = (writeScalar serial ++ writeProof env.wire proof).length := by
  unfold readSpend at h
  rw [if_neg (version_v0 header)] at h
  obtain ⟨serial', s, hserial, h⟩ := exists_of_bind_ok h
  obtain ⟨proof', s', hread, h⟩ := exists_of_bind_ok h
  injection h with h
  injection h with htx hs
  subst htx
  have hsame : proof' = proof := Option.some.inj hproof
  have h₁ := readScalar_length hserial
  have h₂ := readProof_length env.wire hread
  rw [hsame, hs] at h₂
  rw [length_append, length_writeScalar, h₁, h₂]
  rfl

theorem readSpend_v1 (hcompressed : compressedKey pubkey = pubkey)
    (hkey : pubkey.length = COMPRESSED_PUBLIC_KEY_SIZE)
    (hsize : (writeProof env.wire proof).length ≤ MAX_SIZE) :
    readSpend env ((ofType 1 .simpleSpend).withSpend header)
      (pubkey ++ (writeProof env.wire proof ++ writeSignature signature)) =
      .ok ({ (.simpleSpendV1 header proof signature pubkey : PayloadRequest env).interpretation with
        serial := none }, []) := by
  obtain ⟨hf, hGk⟩ := length_vectors_le env.wire proof
  have hproof := readProof_append env.wire (le_trans hf hsize) (le_trans hGk hsize)
    (writeSignature signature)
  have hsig := readSignature_append signature []
  rw [append_nil] at hsig
  unfold readSpend
  rw [if_pos (version_v1 header), bind_ok (readBytes_append endOfData hkey _), bind_ok hproof,
    bind_ok hsig, hcompressed]
  rfl

theorem calculateSerial_v1 {tx : CMPTransaction G} {serial : Scalar}
    (hversion : tx.version = MP_TX_PKT_V1)
    (hmember : memberFromSeed env (env.sha256 tx.ecdsaPubkey) = .ok serial) :
    calculateSerial env tx = .ok { tx with serial := some serial } := by
  unfold calculateSerial
  rw [if_pos hversion, hmember]
  rfl

theorem serial_back (hserial : HasSerial env pubkey) :
    calculateSerial env
      { (.simpleSpendV1 header proof signature pubkey : PayloadRequest env).interpretation with
        serial := none } =
      .ok (.simpleSpendV1 header proof signature pubkey : PayloadRequest env).interpretation := by
  obtain ⟨serial, hmember⟩ := memberFromSeed_ok_iff.mpr hserial
  refine (calculateSerial_v1 rfl hmember).trans ?_
  simp only [PayloadRequest.interpretation, hmember]
  rfl

theorem readSpend_v1_length {tx : CMPTransaction G} (hproof : tx.spend = some proof)
    (hkey : pubkey.length = COMPRESSED_PUBLIC_KEY_SIZE)
    (h : readSpend env ((ofType 1 .simpleSpend).withSpend header) stream = .ok (tx, [])) :
    stream.length = (pubkey ++ (writeProof env.wire proof ++ writeSignature signature)).length := by
  unfold readSpend at h
  rw [if_pos (version_v1 header)] at h
  obtain ⟨buffer, s, hbuffer, h⟩ := exists_of_bind_ok h
  obtain ⟨proof', s', hread, h⟩ := exists_of_bind_ok h
  obtain ⟨signature', s'', hsig, h⟩ := exists_of_bind_ok h
  injection h with h
  injection h with htx hs
  subst htx
  have hsame : proof' = proof := Option.some.inj hproof
  have h₁ := readBytes_length hbuffer
  have h₂ := readProof_length env.wire hread
  have h₃ := readParsed_length hsig
  rw [hs, length_nil] at h₃
  rw [hsame] at h₂
  rw [length_append, length_append, length_writeSignature, hkey]
  omega

end Exact

/-! ## §8. All calls. -/

variable {G : Type} {env : PacketEnv G} {req : PayloadRequest env} {payload raw more : Bytes}

/-- Mints and spends. -/
def PayloadRequest.isExact : PayloadRequest env → Bool
  | .simpleMint _ _ | .simpleSpendV0 _ _ _ | .simpleSpendV1 _ _ _ _ => true
  | _ => false

/-- The strings of a property creation. -/
def PayloadRequest.texts : PayloadRequest env → Option PropertyTexts
  | .issuanceFixed header _ _ | .issuanceVariable header _ _ _ _ _ | .issuanceManaged header _ =>
    some header.texts
  | _ => none

/-- All strings are empty. -/
def PropertyTexts.Empty (texts : PropertyTexts) : Prop :=
  texts.category.val = [] ∧ texts.subcategory.val = [] ∧ texts.name.val = [] ∧
    texts.url.val = [] ∧ texts.data.val = []

/-- A property creation without any text. -/
def PayloadRequest.Bare (req : PayloadRequest env) : Prop :=
  ∃ texts, req.texts = some texts ∧ texts.Empty

theorem length_pushProperty (header : PropertyHeader) :
    (pushProperty header).length = 12 + (min 255 header.texts.category.val.length +
      min 255 header.texts.subcategory.val.length + min 255 header.texts.name.val.length +
      min 255 header.texts.url.val.length + min 255 header.texts.data.val.length) := by
  unfold pushProperty CText.truncated
  simp only [length_append, length_push8, length_push16, length_push32, length_pushText,
    length_take]
  omega

theorem length_pushProperty_le_iff (header : PropertyHeader) :
    (pushProperty header).length ≤ 12 ↔ header.texts.Empty := by
  rw [length_pushProperty]
  unfold PropertyTexts.Empty
  simp only [← length_eq_zero_iff]
  omega

/-- **A call whose interpretation does not throw**: the deadline of a crowdsale can be logged, and
the public key of a spend has a serial. -/
def PayloadRequest.Returns : PayloadRequest env → Prop
  | .issuanceVariable _ _ _ deadline _ _ => Loggable env deadline
  | .simpleSpendV1 _ _ _ pubkey => HasSerial env pubkey
  | _ => True

/-- **Everything but mints and spends** is read back whatever follows it; a property creation
without any text needs one byte more. -/
theorem tolerant_back (hexact : req.isExact = false)
    (hpayload : createPayload env req = .ok payload) (hmore : req.Bare → more ≠ [])
    (hreturns : req.Returns) :
    interpretTransaction env {} (payload ++ more) = .ok (some req.interpretation) := by
  have hroom : ∀ header : PropertyHeader, req.texts = some header.texts →
      13 ≤ (pushProperty header).length + more.length := by
    intro header htexts
    by_cases hempty : header.texts.Empty
    · have hpos := length_pos_of_ne_nil (hmore ⟨_, htexts, hempty⟩)
      have hlen := length_pushProperty header
      omega
    · rw [← length_pushProperty_le_iff] at hempty
      omega
  cases req
  case simpleMint | simpleSpendV0 | simpleSpendV1 => cases hexact
  case sendToOwners propertyId amount distributionProperty =>
    unfold createPayload at hpayload
    unfold PayloadRequest.interpretation
    by_cases heq : propertyId = distributionProperty
    all_goals
      simp only [heq, if_true, if_false] at hpayload ⊢
      cases hpayload
      simp only [append_assoc, interpretTransaction_pushType, interpretType, interpretSendToOwners]
      rw [if_neg (by simp [ofType, MP_TX_PKT_V0]; omega)]
      simp only [ofType, MP_TX_PKT_V0, UInt16.reduceGT, if_true, if_false]
      simp (disch := simp <;> omega) only [raw32_ok, raw64_ok, ok_bind]
      simp [CMPTransaction.withValue]
  -- the interpreter of the type gets the payload as it was pushed, and reads its fields
  all_goals
    cases hpayload
    simp only [append_assoc, interpretTransaction_pushType, interpretType]
  case dexSell =>
    unfold interpretTradeOffer
    rw [if_neg (by simp [ofType, MP_TX_PKT_V0]; omega)]
    simp (disch := simp <;> omega) only [raw8_ok, raw32_ok, raw64_ok, ok_bind]
    simp [ofType, MP_TX_PKT_V0]
    rfl
  case issuanceFixed header amount sigmaStatus =>
    have hlong := hroom header rfl
    generalize hraw : pushType _ _ ++ (pushProperty header ++ _) = raw
    obtain ⟨hissued, hfield, hlen⟩ := property_behind (G := G) header _ hraw
    unfold interpretCreatePropertyFixed
    cases sigmaStatus
    all_goals
      simp [pushStatus] at hlen
      show (if raw.length < _ then _ else _) = _
      rw [if_neg (by omega), hissued, ok_bind]
      simp (disch := omega) only [raw64_ok, raw8_ok, ok_bind, isOverrun_eq_false, hfield]
      simp [pushStatus]
      rfl
  case issuanceVariable header propertyIdDesired amountPerUnit deadline earlyBonus issuerPercentage =>
    have hlong := hroom header rfl
    generalize hraw : pushType _ _ ++ (pushProperty header ++ _) = raw
    obtain ⟨hissued, hfield, hlen⟩ := property_behind (G := G) header _ hraw
    simp at hlen
    unfold interpretCreatePropertyVariable
    rw [if_neg (by omega), hissued, ok_bind]
    simp (disch := omega) only [raw64_ok, raw32_ok, raw8_ok, ok_bind, isOverrun_eq_false, hfield]
    have hlogged : logDeadline env deadline = .ok () := logDeadline_ok hreturns
    simp [hlogged]
    rfl
  case issuanceManaged header sigmaStatus =>
    have hlong := hroom header rfl
    generalize hraw : pushType _ _ ++ (pushProperty header ++ _) = raw
    obtain ⟨hissued, hfield, hlen⟩ := property_behind (G := G) header _ hraw
    unfold interpretCreatePropertyManaged
    cases sigmaStatus
    all_goals
      simp [pushStatus] at hlen
      show (if raw.length < _ then _ else _) = _
      rw [if_neg (by omega), hissued, ok_bind]
      simp (disch := omega) only [raw8_ok, ok_bind, isOverrun_eq_false, hfield]
      simp [pushStatus]
      rfl
  case freezeTokens propertyId amount address | unfreezeTokens propertyId amount address =>
    exact reference_back more propertyId amount address
  case elysiumAlert alertType expiryValue alertMessage =>
    exact alert_back alertType expiryValue alertMessage more
  all_goals
    simp only [interpretSimpleSend, interpretAcceptOfferBTC, interpretGrantTokens,
      interpretRevokeTokens, interpretPropertyValue, interpretCloseCrowdsale,
      interpretChangeIssuer, interpretEnableFreezing, interpretDisableFreezing, interpretProperty,
      interpretMetaDExTrade, interpretMetaDExCancelPrice, interpretTrade, interpretSendAll,
      interpretMetaDExCancelPair, interpretMetaDExCancelEcosystem, interpretDeactivation,
      interpretActivation, interpretCreateDenomination]
    rw [if_neg (by simp; omega)]
    simp (disch := simp <;> omega) only [raw8_ok, raw16_ok, raw32_ok, raw64_ok, ok_bind]
    simp
    rfl

/-- **Without any text and any byte more** a property creation is refused. -/
theorem bare_refused (hbare : req.Bare) (hpayload : createPayload env req = .ok payload) :
    interpretTransaction env {} payload = .ok none := by
  obtain ⟨texts, htexts, hempty⟩ := hbare
  cases req with
  | issuanceFixed header _ sigmaStatus | issuanceManaged header sigmaStatus =>
    cases htexts
    have hlen := (length_pushProperty_le_iff header).mpr hempty
    cases hpayload
    rw [interpretTransaction_pushType]
    cases sigmaStatus with
    | none | some status => exact if_pos (by simp [pushStatus]; omega)
  | issuanceVariable header propertyIdDesired amountPerUnit deadline earlyBonus issuerPercentage =>
    cases htexts
    have hlen := (length_pushProperty_le_iff header).mpr hempty
    cases hpayload
    rw [interpretTransaction_pushType]
    exact if_pos (by simp; omega)
  | _ => cases htexts

theorem createPayload_mint {propertyId : UInt32} {mints : List (UInt8 × G)}
    (h : createPayload env (.simpleMint propertyId mints) = .ok payload) :
    0 < mints.length ∧ mints.length ≤ ELYSIUM_MAX_SIMPLE_MINTS ∧
      payload = pushType 0 .simpleMint ++ (push32 propertyId ++
        (push8 (UInt8.ofNat mints.length) ++ mints.flatMap (writeMint env))) := by
  simp only [createPayload] at h
  split at h
  · cases h
  · next hmax =>
    split at h
    · cases h
    · next hpos =>
      cases h
      exact ⟨by omega, by omega, rfl⟩

theorem createPayload_spend {header : SpendHeader} {proof : SigmaProof G}
    {signature : ECDSASignature} {pubkey : Bytes}
    (h : createPayload env (.simpleSpendV1 header proof signature pubkey) = .ok payload) :
    compressedKey pubkey = pubkey ∧ pubkey.length = COMPRESSED_PUBLIC_KEY_SIZE ∧
      payload = pushType 1 .simpleSpend ++ (pushSpend header ++
        (pubkey ++ (writeProof env.wire proof ++ writeSignature signature))) := by
  simp only [createPayload] at h
  split at h
  · cases h
  · next hkey =>
    have hlen := not_not.mp hkey
    have hcompressed : compressedKey pubkey = pubkey := by
      unfold compressedKey at hlen ⊢
      split at hlen
      · next hhead => rw [if_pos hhead]
      · cases hlen
    rw [hcompressed] at hlen
    cases h
    exact ⟨hcompressed, hlen, rfl⟩

/-- **A mint or a spend is read back** from its own bytes. -/
theorem exact_back (hexact : req.isExact = true) (hpayload : createPayload env req = .ok payload)
    (hlen : payload.length ≤ MAX_SIZE) (hreturns : req.Returns) :
    interpretTransaction env {} payload = .ok (some req.interpretation) := by
  cases req with
  | simpleMint propertyId mints =>
    obtain ⟨hpos, hmax, rfl⟩ := createPayload_mint hpayload
    rw [interpretTransaction_pushType]
    exact mint_back propertyId hpos hmax
  | simpleSpendV0 header proof serial =>
    cases hpayload
    simp only [length_append] at hlen
    rw [interpretTransaction_pushType]
    exact spend_back 0 header (readSpend_v0 header (by omega)) rfl
  | simpleSpendV1 header proof signature pubkey =>
    obtain ⟨hcompressed, hkey, rfl⟩ := createPayload_spend hpayload
    simp only [length_append] at hlen
    rw [interpretTransaction_pushType]
    exact spend_back 1 header (readSpend_v1 header hcompressed hkey (by omega))
      (serial_back header hreturns)
  | _ => cases hexact

/-- The bytes before the stream of a spend. -/
def SPEND_HEADER_SIZE : Nat := 15

theorem length_spend (v : UInt16) (header : SpendHeader) :
    (pushType v .simpleSpend ++ pushSpend header).length = SPEND_HEADER_SIZE := rfl

theorem header_le (hexact : req.isExact = true) (hpayload : createPayload env req = .ok payload) :
    SPEND_HEADER_SIZE ≤ payload.length := by
  cases req with
  | simpleMint propertyId mints =>
    obtain ⟨hpos, -, rfl⟩ := createPayload_mint hpayload
    rw [length_mintPayload]
    unfold elysiumMintSize SPEND_HEADER_SIZE
    omega
  | simpleSpendV0 header proof serial =>
    cases hpayload
    rw [← append_assoc, length_append, length_spend]
    exact le_add_right _ _
  | simpleSpendV1 header proof signature pubkey =>
    obtain ⟨-, -, rfl⟩ := createPayload_spend hpayload
    rw [← append_assoc, length_append, length_spend]
    exact le_add_right _ _
  | _ => cases hexact

theorem eq_append_drop {pre s : Bytes}
    (h : raw.take SPEND_HEADER_SIZE = (pre ++ s).take SPEND_HEADER_SIZE)
    (hpre : pre.length ≤ SPEND_HEADER_SIZE) : raw = pre ++ raw.drop pre.length := by
  have htake : raw.take pre.length = pre := by
    calc raw.take pre.length = (raw.take SPEND_HEADER_SIZE).take pre.length := by
          rw [take_take, min_eq_left hpre]
      _ = (pre ++ s).take pre.length := by rw [h, take_take, min_eq_left hpre]
      _ = pre := take_left
  conv_lhs => rw [← take_append_drop pre.length raw, htake]

/-- **Other bytes that start in the same way give the mint or the spend only when they are as
many.** -/
theorem exact_length (hexact : req.isExact = true) (hpayload : createPayload env req = .ok payload)
    (hraw : raw.take SPEND_HEADER_SIZE = payload.take SPEND_HEADER_SIZE)
    (h : interpretTransaction env {} raw = .ok (some req.interpretation)) :
    raw.length = payload.length := by
  cases req with
  | simpleMint propertyId mints =>
    obtain ⟨hpos, -, rfl⟩ := createPayload_mint hpayload
    have hsplit := eq_append_drop hraw (by rw [length_pushType]; decide)
    rw [hsplit, interpretTransaction_pushType] at h
    rw [hsplit, mint_length h, length_mintPayload]
    rfl
  | simpleSpendV0 header proof serial =>
    cases hpayload
    rw [← append_assoc] at hraw
    have hsplit := eq_append_drop hraw (le_of_eq (length_spend 0 header))
    rw [append_assoc] at hsplit
    rw [hsplit, interpretTransaction_pushType] at h
    obtain ⟨tx, hread, hserial⟩ := spend_accepted 0 header h
    have hlen := @readSpend_v0_length G env header _ proof serial tx
      (calculateSerial_same hserial).1.symm hread
    rw [hsplit, length_append, length_append, hlen]
    simp only [length_append]
  | simpleSpendV1 header proof signature pubkey =>
    obtain ⟨-, hkey, rfl⟩ := createPayload_spend hpayload
    rw [← append_assoc] at hraw
    have hsplit := eq_append_drop hraw (le_of_eq (length_spend 1 header))
    rw [append_assoc] at hsplit
    rw [hsplit, interpretTransaction_pushType] at h
    obtain ⟨tx, hread, hserial⟩ := spend_accepted 1 header h
    have hlen := @readSpend_v1_length G env header _ proof signature pubkey tx
      (calculateSerial_same hserial).1.symm hkey hread
    rw [hsplit, length_append, length_append, hlen]
    simp only [length_append]
  | _ => cases hexact

/-- **What is interpreted did not throw.** -/
theorem returns_of_back (hpayload : createPayload env req = .ok payload)
    (h : interpretTransaction env {} (payload ++ more) = .ok (some req.interpretation)) :
    req.Returns := by
  cases req with
  | issuanceVariable header propertyIdDesired amountPerUnit deadline earlyBonus issuerPercentage =>
    cases hpayload
    rw [append_assoc, interpretTransaction_pushType] at h
    by_contra hnot
    replace h : interpretCreatePropertyVariable env (ofType 0 .createPropertyVariable) _ = _ := h
    unfold interpretCreatePropertyVariable at h
    split at h
    · cases h
    obtain ⟨found, -, h⟩ := bind_eq_ok.mp h
    split at h
    · cases h
    obtain ⟨property, -, h⟩ := bind_eq_ok.mp h
    obtain ⟨nValue, -, h⟩ := bind_eq_ok.mp h
    obtain ⟨deadline', -, h⟩ := bind_eq_ok.mp h
    obtain ⟨earlyBird, -, h⟩ := bind_eq_ok.mp h
    obtain ⟨percentage, -, h⟩ := bind_eq_ok.mp h
    obtain ⟨_, hlogged, h⟩ := bind_eq_ok.mp h
    split at h
    · cases h
    have hsame : deadline' = deadline :=
      congrArg CMPTransaction.deadline (Option.some.inj (Except.ok.inj h))
    obtain ⟨e, he⟩ := logDeadline_error (hsame ▸ hnot)
    cases hlogged.symm.trans he
  | simpleSpendV1 header proof signature pubkey =>
    obtain ⟨-, -, rfl⟩ := createPayload_spend hpayload
    rw [append_assoc, append_assoc, interpretTransaction_pushType] at h
    obtain ⟨tx, hread, hserial⟩ := spend_accepted 1 header h
    have hkey : pubkey = tx.ecdsaPubkey := (calculateSerial_same hserial).2
    rw [PayloadRequest.Returns, hkey]
    exact calculateSerial_ok_iff.mp ⟨_, hserial⟩ (readSpend_key hread).1
  | _ => exact trivial

end Zcoin.Elysium
