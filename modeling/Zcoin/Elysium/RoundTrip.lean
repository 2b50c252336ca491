/-
  Zcoin.Elysium.RoundTrip — from the arguments of a payload through the outputs and back.

  A payload is built, put into outputs by the wallet, found again by the parser and
  interpreted.  Class B fills the last chunk with zeros, which only mints and spends mind;
  class C cuts the payload at the limit of the parser, and is chosen for some payloads that it
  does not take.

  MAIN RESULT: `roundTrip_iff`.
-/
import Zcoin.Elysium.ReadBack
import Zcoin.Elysium.PacketSafety

namespace Zcoin.Elysium

open Lib Lib.Except Lib.Stream List

/-! ## §1. What each class does to the payload. -/

section Classes

variable {G : Type} {env : PacketEnv G} {req : PayloadRequest env} {payload : Bytes}

/-- **What a call needs to survive its encoding.** -/
def Survives (req : PayloadRequest env) (payload : Bytes) : PacketClass → Prop
  | .B => (req.isExact = true → payload.length % CLASS_B_CHUNK_PAYLOAD_SIZE = 0) ∧ req.Returns
  | .C => payload.length ≤ MAX_CLASS_C ∧ ¬ req.Bare ∧ req.Returns

/-- The class `WalletTxBuilder` chooses. -/
def chosenClass (settings : WalletSettings) (inputMode : InputMode) (nDataSize : Nat) :
    PacketClass :=
  if useClassC settings inputMode nDataSize then .C else .B

theorem createPayload_ne_nil (hpayload : createPayload env req = .ok payload) : payload ≠ [] := by
  obtain ⟨v, t, body, rfl⟩ : ∃ v t body, payload = pushType v t ++ body := by
    cases req with
    | sendToOwners propertyId amount distributionProperty =>
      simp only [createPayload] at hpayload
      split at hpayload
      all_goals
        cases hpayload
        exact ⟨_, _, _, rfl⟩
    | simpleMint propertyId mints => exact ⟨_, _, _, (createPayload_mint hpayload).2.2⟩
    | simpleSpendV1 header proof signature pubkey =>
      exact ⟨_, _, _, (createPayload_spend hpayload).2.2⟩
    | _ =>
      cases hpayload
      exact ⟨_, _, _, rfl⟩
  intro hnil
  have hlen := congrArg length hnil
  rw [length_append, length_pushType, length_nil] at hlen
  omega

/-- A property creation without any text ends inside a chunk. -/
theorem bare_mod (hbare : req.Bare) (hpayload : createPayload env req = .ok payload) :
    payload.length % CLASS_B_CHUNK_PAYLOAD_SIZE ≠ 0 := by
  obtain ⟨texts, htexts, hempty⟩ := hbare
  have htwelve : ∀ header : PropertyHeader, header.texts.Empty →
      (pushProperty header).length = 12 := by
    intro header hempty
    have hle := (length_pushProperty_le_iff header).mpr hempty
    have hlen := length_pushProperty header
    omega
  cases req with
  | issuanceFixed header _ sigmaStatus | issuanceManaged header sigmaStatus =>
    cases htexts
    have hlen := htwelve header hempty
    cases hpayload
    cases sigmaStatus with
    | none | some status => simp [pushStatus, hlen, CLASS_B_CHUNK_PAYLOAD_SIZE]
  | issuanceVariable header propertyIdDesired amountPerUnit deadline earlyBonus issuerPercentage =>
    cases htexts
    have hlen := htwelve header hempty
    cases hpayload
    simp [hlen, CLASS_B_CHUNK_PAYLOAD_SIZE]
  | _ => cases htexts

variable (hpayload : createPayload env req = .ok payload)
include hpayload

theorem padded_back_iff (hlen : (padded payload).length ≤ MAX_CLASS_C) :
    interpretTransaction env {} (padded payload) = .ok (some req.interpretation) ↔
      Survives req payload .B := by
  have hpad : (padded payload).length = payload.length + (CLASS_B_CHUNK_PAYLOAD_SIZE -
      payload.length % CLASS_B_CHUNK_PAYLOAD_SIZE) % CLASS_B_CHUNK_PAYLOAD_SIZE := by
    unfold padded
    rw [length_append, length_replicate]
  cases hexact : req.isExact with
  | true =>
    have hheader := header_le hexact hpayload
    constructor
    · intro hback
      refine ⟨fun _ => ?_, returns_of_back hpayload hback⟩
      have hsame : (padded payload).length = payload.length :=
        exact_length hexact hpayload (take_append_of_le_length hheader) hback
      have hmod : payload.length % CLASS_B_CHUNK_PAYLOAD_SIZE < CLASS_B_CHUNK_PAYLOAD_SIZE :=
        Nat.mod_lt _ (by decide)
      unfold CLASS_B_CHUNK_PAYLOAD_SIZE at hpad hmod ⊢
      omega
    · intro hsurvives
      have hmod := hsurvives.1 hexact
      have hwhole : padded payload = payload := by
        unfold padded
        rw [hmod]
        exact append_nil _
      rw [hwhole] at hlen ⊢
      exact exact_back hexact hpayload (Nat.le_trans hlen (by decide)) hsurvives.2
  | false =>
    constructor
    · intro hback
      refine ⟨fun htrue => ?_, returns_of_back hpayload hback⟩
      rw [hexact] at htrue
      cases htrue
    · intro hsurvives
      refine tolerant_back hexact hpayload ?_ hsurvives.2
      intro hbare hnil
      have hmod := bare_mod hbare hpayload
      have hzero := congrArg length hnil
      rw [length_replicate, length_nil] at hzero
      unfold CLASS_B_CHUNK_PAYLOAD_SIZE at hmod hzero
      omega

/-- **What the parser cut off is missed.** -/
theorem cut_refused (hlong : MAX_CLASS_C < payload.length) :
    interpretTransaction env {} (payload.take MAX_CLASS_C) ≠ .ok (some req.interpretation) := by
  intro hback
  cases hexact : req.isExact with
  | true =>
    have hstart : (payload.take MAX_CLASS_C).take SPEND_HEADER_SIZE =
        payload.take SPEND_HEADER_SIZE := by
      rw [take_take]
      rfl
    have hsame := exact_length hexact hpayload hstart hback
    rw [length_take] at hsame
    omega
  | false =>
    -- only the text of an alert has no limit of its own
    have hheader := length_pushProperty
    unfold MAX_CLASS_C CLASS_B_MAX_CHUNKS CLASS_B_CHUNK_SIZE at hlong
    cases req with
    | elysiumAlert alertType expiryValue alertMessage =>
      cases hpayload
      have hten : (pushType 65535 .alert ++ (push16 alertType ++
          push32 expiryValue)).length = 10 := by
        simp
      have hsplit : (pushType 65535 .alert ++ (push16 alertType ++ (push32 expiryValue ++
          pushText alertMessage.val))).take MAX_CLASS_C = pushType 65535 .alert ++
          (push16 alertType ++ (push32 expiryValue ++ alertMessage.val.take 7895)) := by
        simp only [← append_assoc] at hten ⊢
        rw [take_append, hten, take_of_length_le (by rw [hten]; decide)]
        congr 1
        exact take_append_of_le_length (show 7895 ≤ _ by simp at hlong; omega)
      have hnul : 0 ∉ alertMessage.val.take 7895 :=
        fun hmem => alertMessage.property (mem_of_mem_take hmem)
      rw [hsplit, interpretTransaction_pushType] at hback
      cases (alert_cut alertType expiryValue hnul).symm.trans hback
    | sendToOwners propertyId amount distributionProperty =>
      simp only [createPayload] at hpayload
      split at hpayload <;> cases hpayload <;> simp at hlong
    | issuanceFixed header _ sigmaStatus | issuanceManaged header sigmaStatus =>
      cases hpayload
      have hlen := hheader header
      cases sigmaStatus <;> simp [pushStatus] at hlong <;> omega
    | issuanceVariable header propertyIdDesired amountPerUnit deadline earlyBonus percentage =>
      cases hpayload
      have hlen := hheader header
      simp at hlong
      omega
    | grant _ _ memo | revoke _ _ memo =>
      cases hpayload
      have hlen := memo.length_truncated
      simp at hlong
      omega
    | freezeTokens _ _ address | unfreezeTokens _ _ address =>
      cases hpayload
      simp [addressToBytes, address.property.2] at hlong
    | simpleMint | simpleSpendV0 | simpleSpendV1 => cases hexact
    | _ =>
      cases hpayload
      simp at hlong

theorem cut_back_iff :
    interpretTransaction env {} (payload.take MAX_CLASS_C) = .ok (some req.interpretation) ↔
      Survives req payload .C := by
  rcases Nat.lt_or_ge MAX_CLASS_C payload.length with hlong | hfits
  · constructor
    · intro hback
      exact absurd hback (cut_refused hpayload hlong)
    · intro hsurvives
      exact absurd hsurvives.1 (by omega)
  · rw [take_of_length_le hfits]
    constructor
    · intro hback
      refine ⟨hfits, fun hbare => ?_, ?_⟩
      · rw [bare_refused hbare hpayload] at hback
        cases hback
      · rw [← append_nil payload] at hback
        exact returns_of_back hpayload hback
    · intro hsurvives
      cases hexact : req.isExact with
      | true => exact exact_back hexact hpayload (Nat.le_trans hfits (by decide)) hsurvives.2.2
      | false =>
        have hback := @tolerant_back G env req payload [] hexact hpayload
          (fun hbare => absurd hbare hsurvives.2.1) hsurvives.2.2
        rwa [append_nil] at hback

end Classes

/-! ## §2. The whole way. -/

/-- **The round trip**: the wallet makes outputs of the payload, and from every transaction with
them the parser and the interpreter give back the values of the call. -/
def RoundTrips {G : Type} {env : PacketEnv G} (encoder : EncoderEnv) (settings : WalletSettings)
    (inputMode : InputMode) (rand : Nat → UInt8) (sender redeemingKey : Bytes)
    (req : PayloadRequest env) (payload : Bytes) : Prop :=
  ∃ outputs,
    walletOutputs encoder settings inputMode rand sender redeemingKey payload = .ok outputs ∧
    ∀ vout, Embeds outputs vout → ∃ raw, parsePayload encoder sender vout = some raw ∧
      interpretTransaction env {} raw = .ok (some req.interpretation)

theorem roundTrips_of_parsed {encode : Except Abort (List TxOut)} {encodes back : Prop}
    {parsed : List TxOut → Prop} (hencode : (∃ outputs, encode = .ok outputs) ↔ encodes)
    (hparsed : ∀ outputs, encode = .ok outputs → ∀ vout, Embeds outputs vout →
      (parsed vout ↔ back)) :
    (∃ outputs, encode = .ok outputs ∧ ∀ vout, Embeds outputs vout → parsed vout) ↔
      encodes ∧ back := by
  rw [← hencode]
  constructor
  · rintro ⟨outputs, houtputs, hback⟩
    have hself : Embeds outputs outputs := ⟨rfl, fun _ h => h⟩
    exact ⟨⟨outputs, houtputs⟩, (hparsed outputs houtputs _ hself).mp (hback _ hself)⟩
  · rintro ⟨⟨outputs, houtputs⟩, hback⟩
    exact ⟨outputs, houtputs, fun vout hvout => (hparsed outputs houtputs vout hvout).mpr hback⟩

/-- **When a payload makes the round trip**: for every call that gives a payload, every sender and
every setting of the wallet, exactly when `Encodes` and `Survives` hold in the class the wallet has
chosen. -/
theorem roundTrip_iff {G : Type} (env : PacketEnv G) (encoder : EncoderEnv)
    (settings : WalletSettings) (inputMode : InputMode) (rand : Nat → UInt8)
    (sender redeemingKey : Bytes) (req : PayloadRequest env) {payload : Bytes}
    (hpayload : createPayload env req = .ok payload) :
    RoundTrips encoder settings inputMode rand sender redeemingKey req payload ↔
      Encodes encoder settings sender payload (chosenClass settings inputMode payload.length) ∧
      Survives req payload (chosenClass settings inputMode payload.length) := by
  have hpos := createPayload_ne_nil hpayload
  unfold RoundTrips walletOutputs chosenClass
  cases hclass : useClassC settings inputMode payload.length with
  | true =>
    refine roundTrips_of_parsed encodeClassC_ok_iff fun outputs houtputs vout hvout => ?_
    have hparsed := @parsePayload_classC _ _ encoder _ _ houtputs hvout sender hpos
    rw [hparsed]
    simp only [Option.some.injEq, exists_eq_left']
    exact cut_back_iff hpayload
  | false =>
    refine roundTrips_of_parsed encodeClassB_ok_iff fun outputs houtputs vout hvout => ?_
    have hparsed := parsePayload_classB houtputs hvout hpos
    rw [hparsed]
    simp only [Option.some.injEq, exists_eq_left']
    exact padded_back_iff hpayload (length_parsePayload_le hparsed)

/-- An encoder with a hash of zeros, for which every key is valid. -/
def trivialEncoder : EncoderEnv where
  sha256 := fun _ => List.replicate 32 0
  length_sha256 := fun _ => List.length_replicate
  isFullyValid := fun _ => true
  systemAddress := ⟨82, List.replicate 20 1⟩

/-- The wallet with and without data outputs. -/
def dataWallet : WalletSettings := ⟨true, 4096⟩
def plainWallet : WalletSettings := ⟨false, 4096⟩

/-- A mint of one coin in class C. -/
def sampleMint : PayloadRequest trivialEnv := .simpleMint 3 [(0, ())]

/-- The payload of the mint. -/
def mintPayload : Bytes := [0, 0, 4, 2, 0, 0, 0, 3, 1] ++ List.replicate 35 0

theorem roundTrip_iff_mint :
    createPayload trivialEnv sampleMint = .ok mintPayload ∧
      RoundTrips trivialEncoder dataWallet .normal (fun _ => 0) [] [] sampleMint mintPayload := by
  refine ⟨rfl, (roundTrip_iff trivialEnv trivialEncoder dataWallet .normal (fun _ => 0) [] []
    sampleMint rfl).mpr ⟨?_, ?_⟩⟩
  · exact show 1 + pushSize (magic ++ mintPayload).length ≤ 4096 by decide
  · refine ⟨by decide, ?_, trivial⟩
    rintro ⟨texts, htexts, -⟩
    cases htexts

/-- **Counterexample**: the same mint from a wallet without data outputs goes through class B
and comes back with 16 zeros behind it, which the interpreter refuses.  Where data outputs may
have 50 bytes, the wallet chooses class C for it, whose script has 52. -/
theorem mint_lost_in_classB :
    ∃ outputs, createPayload trivialEnv sampleMint = .ok mintPayload ∧
      walletOutputs trivialEncoder plainWallet .normal (fun _ => 0) [] [2] mintPayload =
        .ok outputs ∧
      parsePayload trivialEncoder [] outputs = some (mintPayload ++ List.replicate 16 0) ∧
      interpretTransaction trivialEnv {} (mintPayload ++ List.replicate 16 0) = .ok none ∧
      walletOutputs trivialEncoder ⟨true, 50⟩ .normal (fun _ => 0) [] [2] mintPayload =
        .error (.threw (.invalidArgument "Payload is too large")) := by
  exact ⟨_, rfl, rfl, rfl, rfl, rfl⟩

end Zcoin.Elysium
