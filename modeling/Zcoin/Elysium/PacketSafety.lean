/-
  Zcoin.Elysium.PacketSafety — when interpreting a payload stays inside it.

  The fixed layouts are checked against the size before anything is read.  A property creation
  is checked against a minimum only, then five strings are consumed and the fields behind them
  are copied before `isOverrun` is asked; the deadline of a crowdsale is formatted for the log;
  and `interpret_SimpleSpend` catches only the failure of the stream, not what a scalar, a
  signature or the calculation of the serial throws.

  MAIN RESULT: `interpretTransaction_safe_iff`.
-/
import Zcoin.Elysium.Packet

namespace Zcoin.Elysium

open Lib Lib.Except Lib.BigEndian Lib.Stream Option

/-! ## §1. The layouts. -/

/-- The widths of the fields that follow the version and the type. -/
def fieldWidths (version : UInt16) : TransactionType → List Nat
  | .simpleSend | .acceptOfferBTC | .grantPropertyTokens | .revokePropertyTokens
  | .createDenomination => [4, 8]
  | .sendToOwners => if version = 0 then [4, 8] else [4, 8, 4]
  | .sendAll | .metadexCancelEcosystem => [1]
  | .tradeOffer => if version = 0 then [4, 8, 8, 1, 8] else [4, 8, 8, 1, 8, 1]
  | .metadexTrade | .metadexCancelPrice => [4, 8, 4, 8]
  | .metadexCancelPair => [4, 4]
  | .closeCrowdsale | .changeIssuerAddress | .enableFreezing | .disableFreezing => [4]
  | .freezePropertyTokens | .unfreezePropertyTokens => [4, 8, 1, 20]
  | .createPropertyFixed | .createPropertyVariable | .createPropertyManual => [1, 2, 4]
  | .simpleSpend => [4, 1, 4, 2]
  | .simpleMint => [4, 1]
  | .deactivation => [2]
  | .activation => [2, 4, 4]
  | .alert => [2, 4]

/-- The widths of the fields behind the five strings of a property creation. -/
def tailWidths (version : UInt16) : TransactionType → List Nat
  | .createPropertyFixed => if version = 1 then [8, 1] else [8]
  | .createPropertyVariable => [4, 8, 8, 1, 1]
  | .createPropertyManual => if version = 1 then [1] else []
  | _ => []

/-- The size a property creation is checked for; `none`: the version is not known. -/
def checkedSize (version : UInt16) : TransactionType → Option Nat
  | .createPropertyFixed => creationSize 25 26 version
  | .createPropertyVariable => some 39
  | .createPropertyManual => creationSize 17 18 version
  | _ => none

/-- The stream of a spend. -/
def spendLayout (version : UInt16) : Layout :=
  if version = MP_TX_PKT_V1 then
    (Layout.skip COMPRESSED_PUBLIC_KEY_SIZE).seq (proofLayout.seq (Layout.numbers 32 2))
  else scalarLayout.seq proofLayout

/-- The five strings of a property creation are terminated, the last one right before `p`. -/
def StringsEnd (raw : Bytes) (p : Nat) : Prop := ∃ ss, readStrings raw 5 11 = some (ss, p)

section Safety

variable {G : Type}

/-- **The payload has the layout of its type**: the fields are there, the strings are
terminated and followed by their fields, the address is one of the chain, the mints are as
many as the count says, and the stream of a spend ends with the payload. -/
def WellFormed (env : PacketEnv G) (raw : Bytes) (t : TransactionType) : Prop :=
  4 + (fieldWidths (payloadVersion raw) t).sum ≤ raw.length ∧
  match t with
  | .createPropertyFixed | .createPropertyVariable | .createPropertyManual =>
    checkedSize (payloadVersion raw) t ≠ none ∧
      ∃ p, StringsEnd raw p ∧ p + (tailWidths (payloadVersion raw) t).sum ≤ raw.length
  | .freezePropertyTokens | .unfreezePropertyTokens =>
    hashToAddress env (UInt8.ofNat (field raw 16 1)) ((raw.drop 17).take 20) ≠ none
  | .alert => readString raw 10 ≠ none
  | .simpleMint =>
    0 < (UInt8.ofNat (field raw 8 1)).toNat ∧
      raw.length = 9 + elysiumMintSize * (UInt8.ofNat (field raw 8 1)).toNat
  | .simpleSpend => (spendLayout (payloadVersion raw) (raw.drop 15)).2 = some []
  | _ => True

/-- What is logged of the fields behind the strings. -/
def TailLoggable (env : PacketEnv G) (raw : Bytes) (p : Nat) : TransactionType → Prop
  | .createPropertyVariable => Loggable env (UInt64.ofNat (field raw (p + 12) 8))
  | _ => True

/-- **The payload can be read**: behind the strings of a property creation that passes its size
check there is room for the fields, and a deadline among them can be logged; the scalars that lie
in the stream of a spend are below the group order, and the key of a spend of version 1 whose
stream is not too short has a serial. -/
def Readable (env : PacketEnv G) (raw : Bytes) (t : TransactionType) : Prop :=
  (∀ size p, checkedSize (payloadVersion raw) t = some size → size ≤ raw.length →
    StringsEnd raw p → p + (tailWidths (payloadVersion raw) t).sum ≤ raw.length ∧
      TailLoggable env raw p t) ∧
  (t = .simpleSpend → 15 ≤ raw.length →
    (∀ v ∈ (spendLayout (payloadVersion raw) (raw.drop 15)).1, v < groupOrder) ∧
    (payloadVersion raw = MP_TX_PKT_V1 →
      (spendLayout (payloadVersion raw) (raw.drop 15)).2 ≠ none →
        HasSerial env (compressedKey ((raw.drop 15).take COMPRESSED_PUBLIC_KEY_SIZE))))

/-- An interpreter that returns, and returns `true` only on a well-formed payload. -/
def Sound (env : PacketEnv G) (raw : Bytes) (t : TransactionType)
    (result : Except Abort (Interpreted G)) : Prop :=
  ∃ r, result = .ok r ∧ (r ≠ none → WellFormed env raw t)

/-- An interpreter that is sound on what can be read, and does not return on the rest. -/
def Safe (env : PacketEnv G) (raw : Bytes) (t : TransactionType)
    (result : Except Abort (Interpreted G)) : Prop :=
  (Readable env raw t → Sound env raw t result) ∧ (¬ Readable env raw t → ∃ e, result = .error e)

variable {env : PacketEnv G} {tx : CMPTransaction G} {raw : Bytes}

/-! ## §2. The fixed layouts. -/

variable {result : Except Abort (Interpreted G)} {t : TransactionType} {size : Nat}

theorem sound_none (h : result = .ok none) : Sound env raw t result :=
  ⟨none, h, fun hne => absurd rfl hne⟩

theorem safe_of_sound (hspend : t ≠ .simpleSpend)
    (hsize : checkedSize (payloadVersion raw) t = none) (hsound : Sound env raw t result) :
    Safe env raw t result := by
  refine ⟨fun _ => hsound, fun hnot => absurd ?_ hnot⟩
  refine ⟨?_, fun ht => absurd ht hspend⟩
  intro size p hsome
  rw [hsize] at hsome
  cases hsome

theorem safe_of_size {n : Nat} (hspend : t ≠ .simpleSpend)
    (hsize : checkedSize (payloadVersion raw) t = none)
    (hshort : raw.length < n → result = .ok none)
    (hlong : n ≤ raw.length → ∃ tx', result = .ok (some tx'))
    (hform : n ≤ raw.length → WellFormed env raw t) : Safe env raw t result := by
  refine safe_of_sound hspend hsize ?_
  by_cases hlen : raw.length < n
  · exact sound_none (hshort hlen)
  · obtain ⟨tx', hrun⟩ := hlong (by omega)
    exact ⟨some tx', hrun, fun _ => hform (by omega)⟩

theorem sound_reference (hform : 37 ≤ raw.length →
      hashToAddress env (UInt8.ofNat (field raw 16 1)) ((raw.drop 17).take 20) ≠ none →
      WellFormed env raw t) : Sound env raw t (interpretReference env tx raw) := by
  by_cases hlen : raw.length < 37
  · exact sound_none (if_pos hlen)
  · refine ⟨_, interpretReference_eq (by omega), fun hsome => hform (by omega) ?_⟩
    intro hnone
    rw [hnone] at hsome
    exact hsome rfl

theorem sound_alert : Sound env raw .alert (interpretAlert tx raw) := by
  by_cases hlen : raw.length < 11
  · exact sound_none (if_pos hlen)
  · refine ⟨_, interpretAlert_eq (by omega), fun hsome => ⟨?_, ?_⟩⟩
    · show 10 ≤ raw.length
      omega
    · intro hnone
      rw [hnone] at hsome
      exact hsome rfl

/-! ## §3. Mints and spends. -/

theorem readTimes_readMint (env : PacketEnv G) (n : Nat) {s : Bytes}
    (h : s.length = elysiumMintSize * n) :
    ∃ mints, readTimes (readMint env) n s = .ok (mints, []) := by
  unfold elysiumMintSize at h
  induction n generalizing s with
  | zero =>
    have hnil : s = [] := List.length_eq_zero_iff.mp (by omega)
    subst hnil
    exact ⟨[], rfl⟩
  | succ n ih =>
    have hone : readBytes endOfData 1 s = .ok (s.take 1, s.drop 1) := if_pos (by omega)
    have hkey : readGroupElement env.wire (s.drop 1) =
        .ok (env.wire.deserialize ((s.drop 1).take GROUP_ELEMENT_SIZE),
          (s.drop 1).drop GROUP_ELEMENT_SIZE) := by
      refine bind_ok (if_pos ?_)
      rw [List.length_drop]
      unfold GROUP_ELEMENT_SIZE
      omega
    have hmint : ∃ m, readMint env s = .ok (m, (s.drop 1).drop GROUP_ELEMENT_SIZE) :=
      ⟨_, (bind_ok hone).trans (bind_ok hkey)⟩
    obtain ⟨m, hmint⟩ := hmint
    obtain ⟨ms, hms⟩ := @ih ((s.drop 1).drop GROUP_ELEMENT_SIZE) (by
      rw [List.length_drop, List.length_drop]
      unfold GROUP_ELEMENT_SIZE
      omega)
    exact ⟨m :: ms, (bind_ok hmint).trans (bind_ok hms)⟩

theorem sound_simpleMint : Sound env raw .simpleMint (interpretSimpleMint env tx raw) := by
  by_cases hlen : raw.length < 9 + elysiumMintSize
  · exact sound_none (if_pos hlen)
  · rw [interpretSimpleMint_eq (by omega)]
    by_cases hsize : raw.length = 9 + elysiumMintSize * (UInt8.ofNat (field raw 8 1)).toNat
    · obtain ⟨mints, hmints⟩ := readTimes_readMint env (UInt8.ofNat (field raw 8 1)).toNat
        (show (raw.drop 9).length = _ by rw [List.length_drop]; omega)
      rw [if_neg (not_not.mpr hsize), hmints]
      refine ⟨_, rfl, fun _ => ⟨?_, ?_, hsize⟩⟩
      · show 9 ≤ raw.length
        omega
      · unfold elysiumMintSize at hlen hsize
        omega
    · exact sound_none (if_pos hsize)

/-- **The stream of a spend** follows its layout. -/
theorem follows_readSpend (env : PacketEnv G) (tx : CMPTransaction G) :
    Follows endOfData groupOrder (readSpend env tx) (spendLayout tx.version) := by
  unfold readSpend spendLayout
  by_cases hv : tx.version = MP_TX_PKT_V1
  · rw [if_pos hv, if_pos hv]
    refine (follows_readBytes _ _ COMPRESSED_PUBLIC_KEY_SIZE).bind fun pubkeyBuffer => ?_
    refine (follows_readProof env.wire).bind fun spend => ?_
    exact follows_readSignature.map _
  · rw [if_neg hv, if_neg hv]
    refine follows_readScalar.bind fun serial => ?_
    exact (follows_readProof env.wire).map _

/-- A spend: a scalar or a signature out of range escapes. -/
theorem simpleSpend_safe (hv : tx.version = payloadVersion raw) :
    Safe env raw .simpleSpend (interpretSimpleSpend env tx raw) := by
  have hreadable : Readable env raw .simpleSpend ↔ (15 ≤ raw.length →
      (∀ v ∈ (spendLayout (payloadVersion raw) (raw.drop 15)).1, v < groupOrder) ∧
      (payloadVersion raw = MP_TX_PKT_V1 →
        (spendLayout (payloadVersion raw) (raw.drop 15)).2 ≠ none →
          HasSerial env (compressedKey ((raw.drop 15).take COMPRESSED_PUBLIC_KEY_SIZE)))) :=
    ⟨fun h => h.2 rfl, fun h => ⟨fun _ _ hsome => (nomatch hsome), fun _ => h⟩⟩
  unfold Safe
  rw [hreadable]
  by_cases hlen : raw.length < 15
  · exact ⟨fun _ => sound_none (if_pos hlen), fun hnot => absurd (fun hle => by omega) hnot⟩
  have hfollows := follows_readSpend env (spendHeader tx raw)
  rw [show (spendHeader tx raw).version = payloadVersion raw from hv] at hfollows
  have hlong : 15 ≤ raw.length := by omega
  rw [interpretSimpleSpend_eq hlong, imp_iff_right hlong]
  by_cases hbelow : ∀ v ∈ (spendLayout (payloadVersion raw) (raw.drop 15)).1, v < groupOrder
  · rw [and_iff_right hbelow]
    cases hleft : (spendLayout (payloadVersion raw) (raw.drop 15)).2 with
    | none =>
      rw [hfollows.runs_short _ hbelow hleft]
      exact ⟨fun _ => sound_none (if_pos rfl), fun hnot => absurd (fun _ h => absurd rfl h) hnot⟩
    | some rest =>
      obtain ⟨tx', hread⟩ := hfollows.returns _ rest hbelow hleft
      obtain ⟨hversion, hkey⟩ := readSpend_key hread
      have hversion : tx'.version = payloadVersion raw := hversion.trans hv
      have hserial := @calculateSerial_ok_iff G env tx'
      rw [hversion] at hserial
      rw [hread]
      dsimp only
      constructor
      · intro hhas
        obtain ⟨tx'', htx⟩ := hserial.mpr fun hone => by
          rw [hkey (hv.trans hone)]
          exact hhas hone (some_ne_none rest)
        rw [htx, ok_bind]
        cases rest with
        | nil =>
          refine ⟨_, if_pos rfl, fun _ => ⟨?_, hleft⟩⟩
          show 15 ≤ raw.length
          omega
        | cons b rest => exact sound_none (if_neg Bool.false_ne_true)
      · intro hnot
        cases htx : calculateSerial env tx' with
        | error e => exact ⟨e, rfl⟩
        | ok tx'' =>
          refine absurd (fun hone _ => ?_) hnot
          rw [← hkey (hv.trans hone)]
          exact hserial.mp ⟨tx'', htx⟩ hone
  · refine ⟨fun hall => absurd hall.1 hbelow, fun _ => ?_⟩
    push Not at hbelow
    obtain ⟨e, hread, hne⟩ := hfollows.stops _ hbelow
    rw [hread]
    exact ⟨e, if_neg hne⟩

/-! ## §4. Property creations. -/

/-- A computation that reads up to a place: it returns just if the payload goes that far and
what is logged can be. -/
def ReadsUpTo {α : Type} (raw : Bytes) (place : Nat) (logged : Prop) (c : Except Abort α) : Prop :=
  (place ≤ raw.length ∧ logged → ∃ r, c = .ok r) ∧
    (¬ (place ≤ raw.length ∧ logged) → ∃ e, c = .error e)

section Reading

variable {α : Type} {pos place : Nat} {logged : Prop}

theorem readsUpTo_field {n : Nat} {β : Type} {convert : Bytes → β} {next : β → Except Abort α}
    (hle : pos + n ≤ place) (hnext : pos + n ≤ raw.length →
      ReadsUpTo raw place logged (next (convert ((raw.drop pos).take n)))) :
    ReadsUpTo raw place logged
      ((copyRaw raw pos n >>= fun bytes => pure (convert bytes)) >>= next) := by
  by_cases hlen : pos + n ≤ raw.length
  · rw [copyRaw_ok hlen]
    exact hnext hlen
  · unfold copyRaw
    rw [if_neg hlen]
    exact ⟨fun hroom => absurd hroom.1 (by omega), fun _ => ⟨_, rfl⟩⟩

theorem readsUpTo_end (h : place ≤ raw.length) (tx : CMPTransaction G) :
    ReadsUpTo raw place True (if isOverrun raw place then .ok none else .ok (some tx)) := by
  rw [isOverrun_eq_false h]
  exact ⟨fun _ => ⟨_, rfl⟩, fun hshort => absurd ⟨h, trivial⟩ hshort⟩

end Reading

theorem creationSize_cases {v0 v1 : Nat} {version : UInt16}
    (h : creationSize v0 v1 version = some size) :
    version = 1 ∧ size = v1 ∨ version ≠ 1 ∧ size = v0 := by
  unfold creationSize at h
  split at h
  · next hzero =>
    refine .inr ⟨?_, (some.inj h).symm⟩
    rw [hzero]
    decide
  · split at h
    · next hone => exact .inl ⟨hone, (some.inj h).symm⟩
    · cases h

theorem checkedSize_ge {version : UInt16} (h : checkedSize version t = some size) : 17 ≤ size := by
  cases t with
  | createPropertyFixed =>
    have hcases := creationSize_cases (show creationSize 25 26 version = some size from h)
    omega
  | createPropertyVariable =>
    cases h
    decide
  | createPropertyManual =>
    have hcases := creationSize_cases (show creationSize 17 18 version = some size from h)
    omega
  | _ => cases h

/-- **A property creation**: refused when its version is unknown or it is too short; otherwise the
strings are read and `next` copies the fields behind them, which stays inside exactly when they
are there. -/
theorem creation_safe {next : CMPTransaction G → Nat → Except Abort (Interpreted G)}
    (hspend : t ≠ .simpleSpend)
    (hresult : result = match checkedSize (payloadVersion raw) t with
      | none => .ok none
      | some size => if raw.length < size then .ok none else interpretIssuance tx raw >>= fun found =>
        match found with
        | none => pure none
        | some (tx', p) => next tx' p)
    (hform : 11 ≤ raw.length → checkedSize (payloadVersion raw) t ≠ none → ∀ p, StringsEnd raw p →
      p + (tailWidths (payloadVersion raw) t).sum ≤ raw.length → WellFormed env raw t)
    (hnext : ∀ tx' p, tx'.version = tx.version → p ≤ raw.length →
      ReadsUpTo raw (p + (tailWidths (payloadVersion raw) t).sum) (TailLoggable env raw p t)
        (next tx' p)) :
    Safe env raw t result := by
  cases hsize : checkedSize (payloadVersion raw) t with
  | none =>
    rw [hsize] at hresult
    exact safe_of_sound hspend hsize (sound_none hresult)
  | some size =>
  have hlen := checkedSize_ge hsize
  have hreadable : Readable env raw t ↔ (size ≤ raw.length → ∀ p, StringsEnd raw p →
      p + (tailWidths (payloadVersion raw) t).sum ≤ raw.length ∧ TailLoggable env raw p t) := by
    refine ⟨fun h hle p => h.1 size p hsize hle, fun h => ⟨?_, fun ht => absurd ht hspend⟩⟩
    intro size' p hsize' hle
    cases hsize.symm.trans hsize'
    exact h hle p
  unfold Safe
  rw [hreadable]
  rw [hsize] at hresult hform
  dsimp only at hresult
  by_cases hchecked : raw.length < size
  · rw [if_pos hchecked] at hresult
    exact ⟨fun _ => sound_none hresult, fun hnot => absurd (fun hle => by omega) hnot⟩
  rw [if_neg hchecked] at hresult
  rcases @interpretIssuance_cases G tx raw (by omega) with ⟨hnone, hissue⟩ |
    ⟨category, subcategory, name, url, data, p, hupto, -, hstrings, hissue⟩
  · -- a string is not terminated
    rw [hissue] at hresult
    refine ⟨fun _ => sound_none hresult, fun hnot => absurd ?_ hnot⟩
    rintro - p ⟨ss, hss⟩
    cases hnone.symm.trans hss
  · rw [hissue] at hresult
    obtain ⟨hinside, houtside⟩ :=
      hnext (issued tx raw category subcategory name url data) p rfl hupto
    constructor
    · intro hread
      have hroom := hread (by omega) p ⟨_, hstrings⟩
      obtain ⟨r, hr⟩ := hinside hroom
      exact ⟨r, hresult.trans hr, fun _ =>
        hform (by omega) (some_ne_none size) p ⟨_, hstrings⟩ hroom.1⟩
    · intro hnot
      rw [hresult]
      refine houtside fun hle => hnot ?_
      rintro - q ⟨ss, hss⟩
      cases hstrings.symm.trans hss
      exact hle

theorem createPropertyVariable_safe :
    Safe env raw .createPropertyVariable (interpretCreatePropertyVariable env tx raw) := by
  refine @creation_safe G env tx raw _ .createPropertyVariable _
    (fun h => nomatch h) rfl (fun hlen hknown p hend hroom => ⟨hlen, hknown, p, hend, hroom⟩) ?_
  intro tx' p _ _
  show ReadsUpTo raw (p + 22) (Loggable env (UInt64.ofNat (field raw (p + 12) 8))) _
  refine readsUpTo_field (by omega) fun _ => readsUpTo_field (by omega) fun _ => ?_
  refine readsUpTo_field (by omega) fun _ => readsUpTo_field (by omega) fun _ => ?_
  refine readsUpTo_field (by omega) fun hroom => ⟨fun hread => ?_, fun hnot => ?_⟩
  · obtain ⟨r, hr⟩ := (readsUpTo_end hroom _).1 ⟨hroom, trivial⟩
    exact ⟨r, (congrArg (· >>= _) (logDeadline_ok hread.2)).trans hr⟩
  · obtain ⟨e, he⟩ := logDeadline_error fun hlogged => hnot ⟨hroom, hlogged⟩
    exact ⟨e, congrArg (· >>= _) he⟩

variable (hv : tx.version = payloadVersion raw)
include hv

theorem createPropertyFixed_safe :
    Safe env raw .createPropertyFixed (interpretCreatePropertyFixed tx raw) := by
  refine @creation_safe G env tx raw _ .createPropertyFixed _
    (fun h => nomatch h) (by rw [← hv]; rfl)
    (fun hlen hknown p hend hroom => ⟨hlen, hknown, p, hend, hroom⟩) ?_
  intro tx' p hv' _
  rw [← hv, ← hv']
  show ReadsUpTo raw (p + (if tx'.version = 1 then [8, 1] else [8]).sum) True _
  by_cases hone : tx'.version = 1
  · rw [if_pos hone]
    refine readsUpTo_field (Nat.le_add_right (p + 8) 1) fun _ => ?_
    rw [if_pos hone]
    exact readsUpTo_field le_rfl fun hroom => readsUpTo_end hroom _
  · rw [if_neg hone]
    refine readsUpTo_field le_rfl fun hroom => ?_
    rw [if_neg hone]
    exact readsUpTo_end hroom _

theorem createPropertyManaged_safe :
    Safe env raw .createPropertyManual (interpretCreatePropertyManaged tx raw) := by
  refine @creation_safe G env tx raw _ .createPropertyManual _
    (fun h => nomatch h) (by rw [← hv]; rfl)
    (fun hlen hknown p hend hroom => ⟨hlen, hknown, p, hend, hroom⟩) ?_
  intro tx' p hv' hupto
  rw [← hv, ← hv']
  show ReadsUpTo raw (p + (if tx'.version = 1 then [1] else []).sum) True _
  by_cases hone : tx'.version = 1
  · rw [if_pos hone, if_pos hone]
    exact readsUpTo_field le_rfl fun hroom => readsUpTo_end hroom _
  · rw [if_neg hone, if_neg hone]
    exact readsUpTo_end hupto _

/-! ## §5. Every type. -/

/-- **Each interpreter** returns, and `true` only on a well-formed payload, when the payload
can be read; otherwise it does not return. -/
theorem interpretType_safe (t : TransactionType) : Safe env raw t (interpretType env tx raw t) := by
  cases t with
  | createPropertyFixed => exact createPropertyFixed_safe hv
  | createPropertyVariable => exact createPropertyVariable_safe
  | createPropertyManual => exact createPropertyManaged_safe hv
  | simpleSpend => exact simpleSpend_safe hv
  | simpleMint => exact safe_of_sound (by decide) rfl sound_simpleMint
  | alert => exact safe_of_sound (by decide) rfl sound_alert
  | sendToOwners | tradeOffer =>
    refine safe_of_size (by decide) rfl (fun hlen => if_pos hlen) (fun hlen => ?_)
      fun hlen => ⟨?_, trivial⟩
    · -- the last field is read from version 1 on
      refine Exists.imp (fun _ hrun => (if_neg (by omega)).trans hrun) ?_
      by_cases hzero : tx.version = MP_TX_PKT_V0
      · rw [if_pos hzero] at hlen
        have hfirst : ¬ tx.version > MP_TX_PKT_V0 := by
          rw [hzero]
          decide
        simp (disch := omega) only [raw8_ok, raw32_ok, raw64_ok, ok_bind, if_neg hfirst]
        exact ⟨_, rfl⟩
      · rw [if_neg hzero] at hlen
        have hlast : tx.version > MP_TX_PKT_V0 := UInt16.pos_iff_ne_zero.mpr hzero
        simp (disch := omega) only [raw8_ok, raw32_ok, raw64_ok, ok_bind, if_pos hlast]
        exact ⟨_, rfl⟩
    · rw [← hv]
      unfold fieldWidths
      by_cases hzero : tx.version = 0 <;> simpa [MP_TX_PKT_V0, hzero] using hlen
  | freezePropertyTokens | unfreezePropertyTokens =>
    exact safe_of_sound (by decide) rfl (sound_reference fun hlen haddress => ⟨hlen, haddress⟩)
  | simpleSend | acceptOfferBTC | grantPropertyTokens | revokePropertyTokens | closeCrowdsale
  | changeIssuerAddress | enableFreezing | disableFreezing | metadexTrade | metadexCancelPrice
  | sendAll | metadexCancelPair | metadexCancelEcosystem | createDenomination | deactivation
  | activation =>
    refine safe_of_size (by decide) rfl (fun hlen => if_pos hlen) (fun hlen => ?_)
      fun hlen => ⟨hlen, trivial⟩
    refine Exists.imp (fun _ hrun => (if_neg (by omega)).trans hrun) ?_
    simp (disch := omega) only [raw8_ok, raw16_ok, raw32_ok, raw64_ok, ok_bind]
    exact ⟨_, rfl⟩

omit hv

/-- **Interpreting a payload is safe exactly when it can be read**: no byte outside is read and
no exception escapes, and a payload that has not the layout of its type gives `false`. -/
theorem interpretTransaction_safe_iff (env : PacketEnv G) (tx : CMPTransaction G) (raw : Bytes) :
    ((∃ r, interpretTransaction env tx raw = .ok r) ∧
      ((∀ t, payloadType raw = some t → ¬ WellFormed env raw t) →
        interpretTransaction env tx raw = .ok none)) ↔
    ∀ t, payloadType raw = some t → Readable env raw t := by
  by_cases hlen : raw.length < 4
  · have hshort := @interpretTransaction_short G env tx raw hlen
    refine ⟨?_, fun _ => ⟨⟨none, hshort⟩, fun _ => hshort⟩⟩
    intro _ t _
    refine ⟨?_, fun _ hlong => by omega⟩
    intro size p hsize hle
    have := checkedSize_ge hsize
    omega
  · rw [interpretTransaction_eq (by omega)]
    cases htype : payloadType raw with
    | none => exact ⟨fun _ t ht => (nomatch ht), fun _ => ⟨⟨none, rfl⟩, fun _ => rfl⟩⟩
    | some t =>
      obtain ⟨hsafe, hnotSafe⟩ := @interpretType_safe G env { tx with
        version := payloadVersion raw
        type := (UInt16.ofNat (field raw 2 2)).toNat } raw rfl t
      constructor
      · intro h t' ht'
        cases ht'
        by_contra hnot
        obtain ⟨e, he⟩ := hnotSafe hnot
        obtain ⟨⟨r, hr⟩, -⟩ := h
        cases hr.symm.trans he
      · intro h
        obtain ⟨r, hr, hform⟩ := hsafe (h t rfl)
        refine ⟨⟨r, hr⟩, fun hmal => ?_⟩
        cases r with
        | none => exact hr
        | some tx' => exact absurd (hform (Option.some_ne_none tx')) (hmal t rfl)

end Safety

/-! ## §6. Payloads that cannot be read. -/

/-- An environment over a trivial group; the log is as it is by default. -/
def trivialEnv : PacketEnv Unit where
  wire :=
    { serialize := fun _ => List.replicate GROUP_ELEMENT_SIZE 0
      deserialize := fun _ => ()
      length_serialize := fun _ => List.length_replicate
      deserialize_serialize := fun _ => rfl }
  pubkeyAddress := 82
  scriptAddress := 7
  sha256 := fun _ => List.replicate 32 0
  rpcOnly := false
  debugPackets := true
  debugPacketsReadonly := false

/-- A fixed property creation of 25 bytes, all of them used up by the strings. -/
def stringsOnly : Bytes :=
  [0, 0, 0, 50, 1, 0, 1, 0, 0, 0, 0] ++ List.replicate 9 97 ++ List.replicate 5 0

/-- A spend whose serial is above the group order. -/
def serialAboveOrder : Bytes :=
  [0, 0, 4, 0, 0, 0, 0, 3, 0, 0, 0, 0, 0, 0, 1] ++ List.replicate 32 255

/-- A crowdsale of 39 bytes that ends in the year 36812. -/
def distantDeadline : Bytes :=
  [0, 0, 0, 51, 1, 0, 1, 0, 0, 0, 0, 97, 0, 0, 0, 0, 0] ++
    [0, 0, 0, 1, 0, 0, 0, 0, 0, 0, 0, 1, 0, 0, 1, 0, 0, 0, 0, 0, 0, 0]

/-- **Three payloads that are not refused**: the value behind the strings is read outside the
payload, and the exceptions of the scalar and of the date are not caught. -/
theorem interpretTransaction_unsafe :
    interpretTransaction trivialEnv {} stringsOnly = .error .outOfRange ∧
    interpretTransaction trivialEnv {} serialAboveOrder =
      .error (.threw (.text "Scalar: decoding overflowed")) ∧
    interpretTransaction trivialEnv {} distantDeadline =
      .error (.threw (.outOfRange "Year is out of valid range: 1400..9999")) :=
  ⟨rfl, rfl, rfl⟩

end Zcoin.Elysium
