/-
  Zcoin.Elysium.SigmaWire — how Sigma proofs, scalars and signatures stand in a stream.

  `elysium/sigmaprimitives.h`, `sigma/sigmaplus_proof.h`, `sigma/r1_proof.h`,
  `secp256k1/include/{Scalar,GroupElement}.h`, `elysium/ecdsa_signature.h` and the vectors of
  `serialize.h`, over the streams of `streams.h`.  A scalar that is not below the group order
  is thrown as a string literal, a signature that does not parse as a `std::runtime_error`,
  and missing data as a `std::ios_base::failure`.
-/
import Zcoin.Lib.Stream
import Zcoin.Elysium.SmartProperty

namespace Zcoin.Elysium

open Lib Lib.Except Lib.BigEndian Lib.Stream List Nat

/-! ## §1. Values. -/

/-- The order of the group of secp256k1. -/
def groupOrder : Nat := 0xFFFFFFFFFFFFFFFFFFFFFFFFFFFFFFFEBAAEDCE6AF48A03BBFD25E8CD0364141

/-- `secp_primitives::Scalar`. -/
abbrev Scalar := Fin groupOrder

/-- `GroupElement::memoryRequired`. -/
def GROUP_ELEMENT_SIZE : Nat := 34

/-- `secp_primitives::GroupElement` and its bytes.  `deserialize` takes any bytes; it does not
look whether they are a point of the curve. -/
structure GroupWire (G : Type) where
  serialize : G → Bytes
  deserialize : Bytes → G
  length_serialize : ∀ g, (serialize g).length = GROUP_ELEMENT_SIZE
  deserialize_serialize : ∀ g, deserialize (serialize g) = g

/-- `sigma::R1Proof`. -/
structure R1Proof (G : Type) where
  A : G
  C : G
  D : G
  f : List Scalar
  ZA : Scalar
  ZC : Scalar
  deriving DecidableEq

/-- `sigma::SigmaPlusProof`, which is all of a `SigmaProof` that is written. -/
structure SigmaProof (G : Type) where
  B : G
  r1Proof : R1Proof G
  Gk : List G
  z : Scalar
  deriving DecidableEq

/-- `ECDSASignature`: the two halves of a valid one. -/
structure ECDSASignature where
  r : Scalar
  s : Scalar
  deriving DecidableEq

/-- `ECDSASignature::COMPACT_SIZE` and `CPubKey::COMPRESSED_PUBLIC_KEY_SIZE`. -/
def COMPACT_SIZE : Nat := 64
def COMPRESSED_PUBLIC_KEY_SIZE : Nat := 33

/-- `serialize.h`: `MAX_SIZE`. -/
def MAX_SIZE : Nat := 0x02000000

/-! ## §2. Reading. -/

/-- `CDataStream`, as far as it is read. -/
abbrev CDataStream (α : Type) := Reader Abort α

/-- What `CDataStream::read` throws at the end of the data. -/
def endOfData : Abort := .threw .iosFailure

/-- `ser_readdata16`, `32` and `64`, and the check that the size needs them. -/
def readCanonical (width least : Nat) : CDataStream Nat := do
  let bytes ← readBytes endOfData width
  if readBigEndian bytes.reverse < least then throw endOfData
  else return readBigEndian bytes.reverse

/-- `ReadCompactSize`. -/
def readCompactSize : CDataStream Nat := do
  let chSize ← readBytes endOfData 1
  let nSizeRet ← (
    if readBigEndian chSize < 253 then pure (readBigEndian chSize)
    else if readBigEndian chSize = 253 then readCanonical 2 253
    else if readBigEndian chSize = 254 then readCanonical 4 0x10000
    else readCanonical 8 0x100000000)
  if MAX_SIZE < nSizeRet then throw endOfData else return nSizeRet

/-- `Scalar::deserialize`. -/
def parseScalar (bytes : Bytes) : Except Abort Scalar :=
  if h : readBigEndian bytes < groupOrder then .ok ⟨readBigEndian bytes, h⟩
  else .error (.threw (.text "Scalar: decoding overflowed"))

/-- `Scalar::Unserialize`. -/
def readScalar : CDataStream Scalar := do
  let bytes ← readBytes endOfData 32
  StateT.lift (parseScalar bytes)

/-- `secp256k1_ecdsa_signature_parse_compact`. -/
def parseCompact (bytes : Bytes) : Except Abort ECDSASignature :=
  if h : readBigEndian (bytes.take 32) < groupOrder ∧ readBigEndian (bytes.drop 32) < groupOrder then
    .ok ⟨⟨_, h.1⟩, ⟨_, h.2⟩⟩
  else .error (.threw (.runtimeError "Fail to parse compacted serialized data"))

/-- `ECDSASignature::Unserialize`. -/
def readSignature : CDataStream ECDSASignature := do
  let bytes ← readBytes endOfData COMPACT_SIZE
  StateT.lift (parseCompact bytes)

section Group

variable {G : Type} (wire : GroupWire G)

/-- `GroupElement::Unserialize`. -/
def readGroupElement : CDataStream G := do
  let bytes ← readBytes endOfData GROUP_ELEMENT_SIZE
  return wire.deserialize bytes

/-- `R1Proof::SerializationOp`, reading. -/
def readR1Proof : CDataStream (R1Proof G) := do
  let A ← readGroupElement wire
  let C ← readGroupElement wire
  let D ← readGroupElement wire
  let f ← readCompactSize >>= readTimes readScalar
  let ZA ← readScalar
  let ZC ← readScalar
  return { A, C, D, f, ZA, ZC }

/-- `SigmaPlusProof::SerializationOp`, reading. -/
def readProof : CDataStream (SigmaProof G) := do
  let B ← readGroupElement wire
  let r1Proof ← readR1Proof wire
  let Gk ← readCompactSize >>= readTimes (readGroupElement wire)
  let z ← readScalar
  return { B, r1Proof, Gk, z }

end Group

/-! ## §3. Where the scalars lie. -/

/-- The size in front of a vector: `none` when it is cut off, not canonical or too large. -/
def compactSize (s : Bytes) : Option (Nat × Bytes) :=
  match readCompactSize s with
  | .ok p => some p
  | .error _ => none

/-- The layout of a vector of scalars, of one of group elements, and of a proof. -/
def scalarLayout : Layout := Layout.numbers 32 1
def elementLayout : Layout := Layout.skip GROUP_ELEMENT_SIZE
def r1ProofLayout : Layout :=
  elementLayout.seq <| elementLayout.seq <| elementLayout.seq <|
    (Layout.counted compactSize scalarLayout).seq <| scalarLayout.seq scalarLayout
def proofLayout : Layout :=
  elementLayout.seq <| r1ProofLayout.seq <|
    (Layout.counted compactSize elementLayout).seq scalarLayout

variable {s : Bytes}

theorem readCanonical_error {width least : Nat} {e : Abort}
    (h : readCanonical width least s = .error e) : e = endOfData := by
  rcases error_of_bind h with h | ⟨bytes, s', h⟩
  · exact readBytes_error h
  · split at h <;> cases h
    rfl

theorem readCompactSize_error {e : Abort} (h : readCompactSize s = .error e) : e = endOfData := by
  rcases error_of_bind h with h | ⟨chSize, s', h⟩
  · exact readBytes_error h
  rcases error_of_bind h with h | ⟨nSizeRet, s'', h⟩
  · split at h
    · cases h
    · split at h
      · exact readCanonical_error h
      · split at h
        · exact readCanonical_error h
        · exact readCanonical_error h
  · split at h <;> cases h
    rfl

theorem readCompactSize_eq (s : Bytes) :
    readCompactSize s = match compactSize s with
      | some (n, s') => .ok (n, s')
      | none => .error endOfData := by
  unfold compactSize
  cases h : readCompactSize s with
  | error e =>
    rw [readCompactSize_error h]
  | ok p => rfl

theorem follows_readScalar : Follows endOfData groupOrder readScalar scalarLayout := by
  refine follows_checked 32 1 ?_ ?_
  · intro bytes hlen hall
    have hvalue := hall 0 (by decide)
    rw [mul_zero, drop_zero, take_of_length_le (by omega)] at hvalue
    exact ⟨_, dif_pos hvalue⟩
  · intro bytes hlen hbad
    obtain ⟨i, hi, hvalue⟩ := hbad
    obtain rfl : i = 0 := by omega
    rw [mul_zero, drop_zero, take_of_length_le (by omega)] at hvalue
    exact ⟨_, dif_neg (not_lt.mpr hvalue), fun h => nomatch h⟩

theorem follows_readSignature :
    Follows endOfData groupOrder readSignature (Layout.numbers 32 2) := by
  refine follows_checked 32 2 ?_ ?_
  · intro bytes hlen hall
    have hr := hall 0 (by decide)
    have hs := hall 1 (by decide)
    rw [mul_zero, drop_zero] at hr
    rw [mul_one, take_of_length_le (by rw [length_drop]; omega)] at hs
    exact ⟨_, dif_pos ⟨hr, hs⟩⟩
  · intro bytes hlen hbad
    refine ⟨_, dif_neg ?_, fun h => nomatch h⟩
    intro hboth
    obtain ⟨i, hi, hvalue⟩ := hbad
    have hcase : i = 0 ∨ i = 1 := by omega
    rcases hcase with rfl | rfl
    · rw [mul_zero, drop_zero] at hvalue
      omega
    · rw [mul_one, take_of_length_le (by rw [length_drop]; omega)] at hvalue
      omega

section Following

variable {G : Type} (wire : GroupWire G)

theorem follows_readGroupElement :
    Follows endOfData groupOrder (readGroupElement wire) elementLayout :=
  (follows_readBytes endOfData groupOrder GROUP_ELEMENT_SIZE).map wire.deserialize

theorem follows_readR1Proof : Follows endOfData groupOrder (readR1Proof wire) r1ProofLayout := by
  refine (follows_readGroupElement wire).bind fun A => ?_
  refine (follows_readGroupElement wire).bind fun C => ?_
  refine (follows_readGroupElement wire).bind fun D => ?_
  refine (follows_counted readCompactSize_eq follows_readScalar).bind fun f => ?_
  refine follows_readScalar.bind fun ZA => ?_
  exact follows_readScalar.map (R1Proof.mk A C D f ZA)

theorem follows_readProof : Follows endOfData groupOrder (readProof wire) proofLayout := by
  refine (follows_readGroupElement wire).bind fun B => ?_
  refine (follows_readR1Proof wire).bind fun r1Proof => ?_
  refine (follows_counted readCompactSize_eq (follows_readGroupElement wire)).bind fun Gk => ?_
  exact follows_readScalar.map (SigmaProof.mk B r1Proof Gk)

end Following

/-! ## §4. Writing. -/

/-- `WriteCompactSize`. -/
def writeCompactSize (nSize : Nat) : Bytes :=
  if nSize < 253 then [UInt8.ofNat nSize]
  else if nSize ≤ 0xFFFF then 253 :: (bigEndian 2 nSize).reverse
  else if nSize ≤ 0xFFFFFFFF then 254 :: (bigEndian 4 nSize).reverse
  else 255 :: (bigEndian 8 nSize).reverse

/-- `Scalar::Serialize`. -/
def writeScalar (x : Scalar) : Bytes := bigEndian 32 x.val

/-- `ECDSASignature::Serialize`. -/
def writeSignature (sig : ECDSASignature) : Bytes := writeScalar sig.r ++ writeScalar sig.s

section Writing

variable {G : Type} (wire : GroupWire G)

/-- `R1Proof::SerializationOp`, writing. -/
def writeR1Proof (p : R1Proof G) : Bytes :=
  wire.serialize p.A ++ (wire.serialize p.C ++ (wire.serialize p.D ++
    ((writeCompactSize p.f.length ++ p.f.flatMap writeScalar) ++
      (writeScalar p.ZA ++ writeScalar p.ZC))))

/-- `SigmaPlusProof::SerializationOp`, writing. -/
def writeProof (p : SigmaProof G) : Bytes :=
  wire.serialize p.B ++ (writeR1Proof wire p.r1Proof ++
    ((writeCompactSize p.Gk.length ++ p.Gk.flatMap wire.serialize) ++ writeScalar p.z))

end Writing

theorem length_writeScalar (x : Scalar) : (writeScalar x).length = 32 := length_bigEndian 32 _

theorem readBigEndian_writeScalar (x : Scalar) : readBigEndian (writeScalar x) = x.val := by
  apply readBigEndian_bigEndian
  exact lt_trans x.isLt (by decide)

theorem readScalar_append (x : Scalar) (rest : Bytes) :
    readScalar (writeScalar x ++ rest) = .ok (x, rest) := by
  unfold readScalar
  rw [bind_ok (readBytes_append endOfData (length_writeScalar x) rest)]
  show (parseScalar (writeScalar x) >>= fun a => pure (a, rest)) = _
  have hparse : parseScalar (writeScalar x) = .ok x := by
    unfold parseScalar
    rw [dif_pos (by rw [readBigEndian_writeScalar]; exact x.isLt)]
    exact congrArg Except.ok (Fin.ext (readBigEndian_writeScalar x))
  rw [hparse]
  rfl

theorem length_writeSignature (sig : ECDSASignature) :
    (writeSignature sig).length = COMPACT_SIZE := rfl

theorem readSignature_append (sig : ECDSASignature) (rest : Bytes) :
    readSignature (writeSignature sig ++ rest) = .ok (sig, rest) := by
  have hlen := length_writeSignature sig
  have htake : (writeSignature sig).take 32 = writeScalar sig.r :=
    take_left' (length_writeScalar sig.r)
  have hdrop : (writeSignature sig).drop 32 = writeScalar sig.s :=
    drop_left' (length_writeScalar sig.r)
  have hparse : parseCompact (writeSignature sig) = .ok sig := by
    unfold parseCompact
    rw [dif_pos (by
      rw [htake, hdrop, readBigEndian_writeScalar, readBigEndian_writeScalar]
      exact ⟨sig.r.isLt, sig.s.isLt⟩)]
    apply congrArg Except.ok
    cases sig with
    | mk r s =>
      congr 1
      · exact Fin.ext ((congrArg readBigEndian htake).trans (readBigEndian_writeScalar r))
      · exact Fin.ext ((congrArg readBigEndian hdrop).trans (readBigEndian_writeScalar s))
  unfold readSignature
  rw [bind_ok (readBytes_append endOfData hlen rest)]
  show (parseCompact (writeSignature sig) >>= fun a => pure (a, rest)) = _
  rw [hparse]
  rfl

variable {n : Nat}

theorem readCanonical_append {width least : Nat} (hfits : n < 256 ^ width) (hleast : least ≤ n)
    (rest : Bytes) :
    readCanonical width least ((bigEndian width n).reverse ++ rest) = .ok (n, rest) := by
  have hlen : (bigEndian width n).reverse.length = width := by simp
  unfold readCanonical
  rw [bind_ok (readBytes_append endOfData hlen rest), reverse_reverse,
    readBigEndian_bigEndian hfits, if_neg (by omega)]
  rfl

/-- **A size is read back** unless it is too large. -/
theorem readCompactSize_append (hmax : n ≤ MAX_SIZE) (rest : Bytes) :
    readCompactSize (writeCompactSize n ++ rest) = .ok (n, rest) := by
  unfold MAX_SIZE at hmax
  have hlimit : ∀ s : Bytes,
      (if MAX_SIZE < n then throw endOfData else return n : CDataStream Nat) s = .ok (n, s) := by
    intro s
    rw [if_neg (by unfold MAX_SIZE; omega)]
    rfl
  have hfirst : ∀ (b : UInt8) (s : Bytes),
      readBytes endOfData 1 (b :: s) = .ok ([b], s) := fun b s => rfl
  have hvalue : ∀ b : UInt8, readBigEndian [b] = b.toNat := by
    intro b
    show 0 * 256 + b.toNat = b.toNat
    omega
  unfold writeCompactSize readCompactSize
  by_cases h₁ : n < 253
  · rw [if_pos h₁, singleton_append, bind_ok (hfirst _ _), hvalue]
    have hbyte : (UInt8.ofNat n).toNat = n := by
      rw [UInt8.toNat_ofNat']
      omega
    rw [hbyte, if_pos h₁]
    exact (bind_ok rfl).trans (hlimit rest)
  · rw [if_neg h₁]
    by_cases h₂ : n ≤ 0xFFFF
    · rw [if_pos h₂, cons_append, bind_ok (hfirst _ _), hvalue]
      show ((if (253 : UInt8).toNat < 253 then _ else if (253 : UInt8).toNat = 253 then
        readCanonical 2 253 else _) >>= fun n => _) _ = _
      rw [if_neg (by decide), if_pos (by decide),
        bind_ok (readCanonical_append (show n < 256 ^ 2 by omega) (by omega) rest)]
      exact hlimit rest
    · rw [if_neg h₂, if_pos (show n ≤ 0xFFFFFFFF by omega), cons_append,
        bind_ok (hfirst _ _), hvalue]
      show ((if (254 : UInt8).toNat < 253 then _ else if (254 : UInt8).toNat = 253 then _ else
        if (254 : UInt8).toNat = 254 then readCanonical 4 0x10000 else _) >>= fun n => _) _ = _
      rw [if_neg (by decide), if_neg (by decide), if_pos (by decide),
        bind_ok (readCanonical_append (show n < 256 ^ 4 by omega) (by omega) rest)]
      exact hlimit rest

section WritingBack

variable {G : Type} (wire : GroupWire G)

theorem readGroupElement_append (g : G) (rest : Bytes) :
    readGroupElement wire (wire.serialize g ++ rest) = .ok (g, rest) := by
  unfold readGroupElement
  rw [bind_ok (readBytes_append endOfData (wire.length_serialize g) rest),
    wire.deserialize_serialize]
  rfl

theorem readVector_append {α : Type} {read : CDataStream α} {write : α → Bytes}
    (h : ∀ a rest, read (write a ++ rest) = .ok (a, rest)) {values : List α}
    (hmax : values.length ≤ MAX_SIZE) (rest : Bytes) :
    (readCompactSize >>= readTimes read)
      ((writeCompactSize values.length ++ values.flatMap write) ++ rest) = .ok (values, rest) := by
  rw [append_assoc, bind_ok (readCompactSize_append hmax _)]
  exact readTimes_append values (fun a _ => h a) rest

theorem readR1Proof_append {p : R1Proof G} (hmax : p.f.length ≤ MAX_SIZE) (rest : Bytes) :
    readR1Proof wire (writeR1Proof wire p ++ rest) = .ok (p, rest) := by
  unfold readR1Proof writeR1Proof
  rw [append_assoc, bind_ok (readGroupElement_append wire p.A _),
    append_assoc, bind_ok (readGroupElement_append wire p.C _),
    append_assoc, bind_ok (readGroupElement_append wire p.D _),
    append_assoc, bind_ok (readVector_append readScalar_append hmax _),
    append_assoc, bind_ok (readScalar_append p.ZA _), bind_ok (readScalar_append p.ZC _)]
  rfl

theorem readProof_append {p : SigmaProof G} (hf : p.r1Proof.f.length ≤ MAX_SIZE)
    (hGk : p.Gk.length ≤ MAX_SIZE) (rest : Bytes) :
    readProof wire (writeProof wire p ++ rest) = .ok (p, rest) := by
  unfold readProof writeProof
  rw [append_assoc, bind_ok (readGroupElement_append wire p.B _),
    append_assoc, bind_ok (readR1Proof_append wire hf _),
    append_assoc, bind_ok (readVector_append (readGroupElement_append wire) hGk _),
    bind_ok (readScalar_append p.z _)]
  rfl

end WritingBack

/-! ## §5. What is read is as long as what is written. -/

variable {rest : Bytes}

theorem readParsed_length {α : Type} {parse : Bytes → Except Abort α} {x : α}
    (h : (readBytes endOfData n >>= fun bytes => StateT.lift (parse bytes)) s = .ok (x, rest)) :
    s.length = n + rest.length := by
  obtain ⟨bytes, s', hbytes, h⟩ := exists_of_bind_ok h
  have hs := readBytes_length hbytes
  have hrest : s' = rest := by
    have h' : (parse bytes >>= fun a => pure (a, s')) = .ok (x, rest) := h
    obtain ⟨a, -, ha⟩ := bind_eq_ok.mp h'
    cases ha
    rfl
  rw [hs, hrest]

theorem readScalar_length {x : Scalar} (h : readScalar s = .ok (x, rest)) :
    s.length = 32 + rest.length := readParsed_length h

theorem readCanonical_length {width least : Nat} (h : readCanonical width least s = .ok (n, rest)) :
    s.length = width + rest.length ∧ least ≤ n ∧ n < 256 ^ width := by
  obtain ⟨bytes, s', hbytes, h⟩ := exists_of_bind_ok h
  have hs := readBytes_length hbytes
  have hwidth : bytes.length = width := by
    unfold readBytes at hbytes
    split at hbytes
    · next hle =>
      cases hbytes
      rw [length_take]
      omega
    · cases hbytes
  split at h
  · cases h
  · cases h
    refine ⟨hs, by omega, ?_⟩
    have hlt := readBigEndian_lt bytes.reverse
    rw [length_reverse, hwidth] at hlt
    exact hlt

/-- The size was written with as many bytes as it takes, since it is canonical. -/
theorem readCompactSize_length (h : readCompactSize s = .ok (n, rest)) :
    s.length = (writeCompactSize n).length + rest.length := by
  obtain ⟨chSize, s', hfirst, h⟩ := exists_of_bind_ok h
  have hs := readBytes_length hfirst
  obtain ⟨size, s'', hsize, h⟩ := exists_of_bind_ok h
  have hlimit : size = n ∧ s'' = rest ∧ n ≤ MAX_SIZE := by
    split at h
    · cases h
    · next hle =>
      cases h
      exact ⟨rfl, rfl, not_lt.mp hle⟩
  obtain ⟨rfl, rfl, hmax⟩ := hlimit
  unfold MAX_SIZE at hmax
  unfold writeCompactSize
  split at hsize
  · next hsmall =>
    cases hsize
    rw [if_pos hsmall]
    exact hs
  · split at hsize
    · obtain ⟨hlen, hleast, hwidth⟩ := readCanonical_length hsize
      rw [if_neg (by omega), if_pos (by omega)]
      show s.length = ((bigEndian 2 size).reverse.length + 1) + s''.length
      rw [length_reverse, length_bigEndian]
      omega
    · split at hsize
      · obtain ⟨hlen, hleast, -⟩ := readCanonical_length hsize
        rw [if_neg (by omega), if_neg (by omega), if_pos (by omega)]
        show s.length = ((bigEndian 4 size).reverse.length + 1) + s''.length
        rw [length_reverse, length_bigEndian]
        omega
      · -- eight bytes stand for a size that is too large
        obtain ⟨-, hleast, -⟩ := readCanonical_length hsize
        omega

variable {G : Type} (wire : GroupWire G)

theorem readGroupElement_length {g : G} (h : readGroupElement wire s = .ok (g, rest)) :
    s.length = GROUP_ELEMENT_SIZE + rest.length := by
  obtain ⟨bytes, s', hbytes, h⟩ := exists_of_bind_ok h
  cases h
  exact readBytes_length hbytes

theorem readVector_length {α : Type} {read : CDataStream α} {write : α → Bytes} {width : Nat}
    (hread : ∀ s a rest, read s = .ok (a, rest) → s.length = width + rest.length)
    (hwrite : ∀ a, (write a).length = width) {values : List α}
    (h : (readCompactSize >>= readTimes read) s = .ok (values, rest)) :
    s.length = (writeCompactSize values.length ++ values.flatMap write).length + rest.length := by
  obtain ⟨n, s', hsize, h⟩ := exists_of_bind_ok h
  have hs := readCompactSize_length hsize
  obtain ⟨hlen, hs'⟩ := readTimes_length hread h
  rw [length_append, length_flatMap_width hwrite, hlen]
  omega

theorem readR1Proof_length {p : R1Proof G} (h : readR1Proof wire s = .ok (p, rest)) :
    s.length = (writeR1Proof wire p).length + rest.length := by
  obtain ⟨A, s₁, hA, h⟩ := exists_of_bind_ok h
  obtain ⟨C, s₂, hC, h⟩ := exists_of_bind_ok h
  obtain ⟨D, s₃, hD, h⟩ := exists_of_bind_ok h
  obtain ⟨f, s₄, hf, h⟩ := exists_of_bind_ok h
  obtain ⟨ZA, s₅, hZA, h⟩ := exists_of_bind_ok h
  obtain ⟨ZC, s₆, hZC, h⟩ := exists_of_bind_ok h
  cases h
  have h₁ := readGroupElement_length wire hA
  have h₂ := readGroupElement_length wire hC
  have h₃ := readGroupElement_length wire hD
  have h₄ := readVector_length (fun _ _ _ => readScalar_length) length_writeScalar hf
  have h₅ := readScalar_length hZA
  have h₆ := readScalar_length hZC
  unfold writeR1Proof
  simp only [length_append, wire.length_serialize, length_writeScalar] at h₄ ⊢
  omega

/-- **A proof takes as many bytes as it is written with.** -/
theorem readProof_length {p : SigmaProof G} (h : readProof wire s = .ok (p, rest)) :
    s.length = (writeProof wire p).length + rest.length := by
  obtain ⟨B, s₁, hB, h⟩ := exists_of_bind_ok h
  obtain ⟨r1Proof, s₂, hr, h⟩ := exists_of_bind_ok h
  obtain ⟨Gk, s₃, hGk, h⟩ := exists_of_bind_ok h
  obtain ⟨z, s₄, hz, h⟩ := exists_of_bind_ok h
  cases h
  have h₁ := readGroupElement_length wire hB
  have h₂ := readR1Proof_length wire hr
  have h₃ := readVector_length (fun _ _ _ => readGroupElement_length wire) wire.length_serialize hGk
  have h₄ := readScalar_length hz
  unfold writeProof
  simp only [length_append, wire.length_serialize, length_writeScalar] at h₃ ⊢
  omega

theorem length_vectors_le (p : SigmaProof G) :
    p.r1Proof.f.length ≤ (writeProof wire p).length ∧ p.Gk.length ≤ (writeProof wire p).length := by
  have hf := length_flatMap_width length_writeScalar p.r1Proof.f
  have hGk := length_flatMap_width wire.length_serialize p.Gk
  unfold GROUP_ELEMENT_SIZE at hGk
  unfold writeProof writeR1Proof
  simp only [length_append]
  omega

end Zcoin.Elysium
