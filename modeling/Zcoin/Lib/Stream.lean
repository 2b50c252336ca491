/-
  Zcoin.Lib.Stream — readers of byte streams and the layouts they follow.

  A reader takes what it needs from the front of a stream and fails with `short` when the
  data run out.  A layout says where the numbers of a stream lie and what is left behind
  them, without looking at their values.  A reader that checks every number against a bound
  `Follows` its layout: it gets through exactly when all the numbers are below the bound and
  the data suffice, and a number out of bounds stops it in another way than `short`.
-/
import Zcoin.Lib.BigEndian

namespace Zcoin.Lib.Stream

open Lib.BigEndian List Nat

variable {ε α β : Type}

/-! ## §1. Readers. -/

/-- A reader takes bytes from the front of a stream. -/
abbrev Reader (ε α : Type) := StateT (List UInt8) (Except ε) α

/-- The next `n` bytes. -/
def readBytes (short : ε) (n : Nat) : Reader ε (List UInt8) := fun s =>
  if n ≤ s.length then .ok (s.take n, s.drop n) else .error short

/-- `n` values, one after the other. -/
def readTimes (read : Reader ε α) : Nat → Reader ε (List α)
  | 0 => pure []
  | n + 1 => do
    let a ← read
    let rest ← readTimes read n
    return a :: rest

variable {next : α → Reader ε β} {read : Reader ε α} {s rest : List UInt8} {n : Nat}

theorem bind_ok {s' : List UInt8} {a : α} (h : read s = .ok (a, s')) :
    (read >>= next) s = next a s' := by
  show (read s >>= fun p => next p.1 p.2) = _
  rw [h]
  rfl

theorem bind_error {e : ε} (h : read s = .error e) : (read >>= next) s = .error e := by
  show (read s >>= fun p => next p.1 p.2) = _
  rw [h]
  rfl

theorem exists_of_bind_ok {b : β} (h : (read >>= next) s = .ok (b, rest)) :
    ∃ a s', read s = .ok (a, s') ∧ next a s' = .ok (b, rest) := by
  cases hread : read s with
  | error e =>
    rw [bind_error hread] at h
    cases h
  | ok p =>
    obtain ⟨a, s'⟩ := p
    rw [bind_ok hread] at h
    exact ⟨a, s', rfl, h⟩

theorem error_of_bind {e : ε} (h : (read >>= next) s = .error e) :
    read s = .error e ∨ ∃ a s', next a s' = .error e := by
  cases hread : read s with
  | error e' =>
    rw [bind_error hread] at h
    cases h
    exact .inl rfl
  | ok p =>
    rw [bind_ok hread] at h
    exact .inr ⟨_, _, h⟩

theorem readBytes_error {short e : ε} (h : readBytes short n s = .error e) : e = short := by
  unfold readBytes at h
  split at h <;> cases h
  rfl

theorem readBytes_length {short : ε} {bytes : List UInt8}
    (h : readBytes short n s = .ok (bytes, rest)) : s.length = n + rest.length := by
  unfold readBytes at h
  split at h
  · cases h
    rw [length_drop]
    omega
  · cases h

theorem readTimes_length {width : Nat}
    (hread : ∀ s a rest, read s = .ok (a, rest) → s.length = width + rest.length) {values : List α}
    (h : readTimes read n s = .ok (values, rest)) :
    values.length = n ∧ s.length = width * n + rest.length := by
  induction n generalizing s values with
  | zero =>
    cases h
    exact ⟨rfl, by omega⟩
  | succ n ih =>
    obtain ⟨a, s', ha, h⟩ := exists_of_bind_ok h
    obtain ⟨values', s'', hvalues, h⟩ := exists_of_bind_ok h
    cases h
    obtain ⟨hlen, hs'⟩ := ih hvalues
    have hs := hread s a s' ha
    refine ⟨by rw [length_cons, hlen], ?_⟩
    rw [mul_add]
    omega

theorem readBytes_append (short : ε) {bytes : List UInt8} (h : bytes.length = n)
    (rest : List UInt8) : readBytes short n (bytes ++ rest) = .ok (bytes, rest) := by
  unfold readBytes
  rw [if_pos (by rw [length_append]; omega), take_left' h, drop_left' h]

variable {write : α → List UInt8}

theorem length_flatMap_width {width : Nat} (hwrite : ∀ a, (write a).length = width)
    (values : List α) : (values.flatMap write).length = width * values.length := by
  rw [length_flatMap]
  have hsum : values.map (fun a => (write a).length) = replicate values.length width := by
    rw [map_congr_left fun a _ => hwrite a, map_const']
  rw [hsum, sum_replicate, smul_eq_mul, mul_comm]

theorem readTimes_append (values : List α)
    (h : ∀ a ∈ values, ∀ rest, read (write a ++ rest) = .ok (a, rest)) (rest : List UInt8) :
    readTimes read values.length (values.flatMap write ++ rest) = .ok (values, rest) := by
  induction values with
  | nil => rfl
  | cons a values ih =>
    rw [flatMap_cons, append_assoc, length_cons]
    show (read >>= fun a => readTimes read values.length >>= fun rest => pure (a :: rest)) _ = _
    rw [bind_ok (h a mem_cons_self _),
      bind_ok (ih (fun b hb => h b (mem_cons_of_mem a hb)))]
    rfl

/-! ## §2. Layouts. -/

/-- The numbers of a stream, and what is left; `none` when the data run out. -/
abbrev Layout := List UInt8 → List Nat × Option (List UInt8)

namespace Layout

/-- Nothing is read. -/
def done : Layout := fun s => ([], some s)

/-- `n` bytes that hold no number. -/
def skip (n : Nat) : Layout := fun s =>
  ([], if n ≤ s.length then some (s.drop n) else none)

/-- Numbers of `n` bytes each, which are read together. -/
def numbers (n : Nat) (k : Nat) : Layout := fun s =>
  if n * k ≤ s.length then
    ((List.range k).map fun i => readBigEndian ((s.drop (n * i)).take n), some (s.drop (n * k)))
  else ([], none)

/-- One layout after the other. -/
def seq (l m : Layout) : Layout := fun s =>
  match (l s).2 with
  | none => ((l s).1, none)
  | some s' => ((l s).1 ++ (m s').1, (m s').2)

/-- A layout `n` times. -/
def times (l : Layout) : Nat → Layout
  | 0 => done
  | n + 1 => l.seq (times l n)

/-- A layout as often as a size in front of it says; `none`: there is no such size. -/
def counted (size : List UInt8 → Option (Nat × List UInt8)) (l : Layout) : Layout := fun s =>
  match size s with
  | none => ([], none)
  | some (n, s') => l.times n s'

end Layout

/-! ## §3. Following a layout. -/

/-- **The reader follows the layout**: with all numbers below the bound it returns exactly
when the data suffice, and fails with `short` otherwise; a number out of bounds stops it in
another way. -/
structure Follows (short : ε) (bound : Nat) (read : Reader ε α) (l : Layout) : Prop where
  returns : ∀ s s', (∀ v ∈ (l s).1, v < bound) → (l s).2 = some s' → ∃ a, read s = .ok (a, s')
  runs_short : ∀ s, (∀ v ∈ (l s).1, v < bound) → (l s).2 = none → read s = .error short
  stops : ∀ s, (∃ v ∈ (l s).1, bound ≤ v) → ∃ e, read s = .error e ∧ e ≠ short

variable {short : ε} {bound : Nat} {read : Reader ε α} {next : α → Reader ε β} {l m : Layout}

/-- What a reader returns for one stream, against what the layout finds in it. -/
def FollowsAt (short : ε) (bound : Nat) (result : Except ε (α × List UInt8))
    (found : List Nat × Option (List UInt8)) : Prop :=
  ((∀ v ∈ found.1, v < bound) → match found.2 with
    | some s' => ∃ a, result = .ok (a, s')
    | none => result = .error short) ∧
  ((∃ v ∈ found.1, bound ≤ v) → ∃ e, result = .error e ∧ e ≠ short)

theorem follows_iff : Follows short bound read l ↔ ∀ s, FollowsAt short bound (read s) (l s) := by
  constructor
  · intro h s
    refine ⟨fun hall => ?_, h.stops s⟩
    cases hleft : (l s).2 with
    | none => exact h.runs_short s hall hleft
    | some s' => exact h.returns s s' hall hleft
  · intro h
    refine ⟨fun s s' hall hleft => ?_, fun s hall hleft => ?_, fun s => (h s).2⟩
    · simpa only [hleft] using (h s).1 hall
    · simpa only [hleft] using (h s).1 hall

theorem followsAt_nil {result : Except ε (α × List UInt8)} {left : Option (List UInt8)}
    (h : match left with
      | some s' => ∃ a, result = .ok (a, s')
      | none => result = .error short) : FollowsAt short bound result ([], left) :=
  ⟨fun _ => h, fun ⟨_, hv, _⟩ => nomatch hv⟩

theorem follows_pure (short : ε) (bound : Nat) (a : α) :
    Follows short bound (pure a : Reader ε α) Layout.done :=
  follows_iff.mpr fun _ => followsAt_nil ⟨a, rfl⟩

theorem follows_readBytes (short : ε) (bound n : Nat) :
    Follows short bound (readBytes short n) (Layout.skip n) := by
  refine follows_iff.mpr fun s => followsAt_nil ?_
  unfold readBytes
  by_cases hlen : n ≤ s.length
  · rw [if_pos hlen, if_pos hlen]
    exact ⟨s.take n, rfl⟩
  · rw [if_neg hlen, if_neg hlen]

variable (hread : Follows short bound read l)
include hread

/-- **One reader after the other** follows the two layouts. -/
theorem Follows.bind (hnext : ∀ a, Follows short bound (next a) m) :
    Follows short bound (read >>= next) (l.seq m) := by
  rw [follows_iff]
  intro s
  obtain ⟨hbelow, habove⟩ := follows_iff.mp hread s
  unfold Layout.seq
  by_cases hfirst : ∃ v ∈ (l s).1, bound ≤ v
  · -- the first number out of bounds is the one that stops the reading
    obtain ⟨e, he, hne⟩ := habove hfirst
    rw [bind_error he]
    refine ⟨fun hall => ?_, fun _ => ⟨e, rfl, hne⟩⟩
    obtain ⟨v, hv, hle⟩ := hfirst
    have hlt : v < bound := by
      apply hall
      split
      · exact hv
      · exact mem_append_left _ hv
    omega
  · have hall : ∀ v ∈ (l s).1, v < bound := by
      intro v hv
      by_contra hle
      exact hfirst ⟨v, hv, by omega⟩
    have hrun := hbelow hall
    cases hleft : (l s).2 with
    | none =>
      rw [hleft] at hrun
      rw [bind_error hrun]
      exact ⟨fun _ => rfl, fun hbad => absurd hbad hfirst⟩
    | some t =>
      rw [hleft] at hrun
      obtain ⟨a, ha⟩ := hrun
      obtain ⟨hbelow', habove'⟩ := follows_iff.mp (hnext a) t
      rw [bind_ok ha]
      refine ⟨fun hboth => hbelow' fun v hv => hboth v (mem_append_right _ hv), ?_⟩
      rintro ⟨v, hv, hle⟩
      rcases mem_append.mp hv with hv | hv
      · exact absurd ⟨v, hv, hle⟩ hfirst
      · exact habove' ⟨v, hv, hle⟩

theorem Follows.map (f : α → β) :
    Follows short bound (read >>= fun a => pure (f a)) l where
  returns := by
    intro s s' hall hleft
    obtain ⟨a, ha⟩ := hread.returns s s' hall hleft
    exact ⟨f a, bind_ok ha⟩
  runs_short := by
    intro s hall hleft
    exact bind_error (hread.runs_short s hall hleft)
  stops := by
    intro s hbad
    obtain ⟨e, he, hne⟩ := hread.stops s hbad
    exact ⟨e, bind_error he, hne⟩

theorem follows_readTimes (n : Nat) : Follows short bound (readTimes read n) (l.times n) := by
  induction n with
  | zero => exact follows_pure short bound []
  | succ n ih =>
    refine hread.bind ?_
    intro a
    exact ih.map (cons a)

omit hread

theorem follows_counted {readSize : Reader ε Nat} {size : List UInt8 → Option (Nat × List UInt8)}
    (hsize : ∀ s, readSize s = match size s with
      | some (n, s') => .ok (n, s')
      | none => .error short)
    (hread : Follows short bound read l) :
    Follows short bound (readSize >>= readTimes read) (Layout.counted size l) := by
  rw [follows_iff]
  intro s
  have hs := hsize s
  unfold Layout.counted
  cases hn : size s with
  | none =>
    rw [hn] at hs
    exact followsAt_nil (bind_error hs)
  | some p =>
    rw [hn] at hs
    rw [bind_ok hs]
    exact follows_iff.mp (follows_readTimes hread p.1) p.2

theorem follows_checked (n k : Nat) {check : List UInt8 → Except ε α}
    (hok : ∀ bytes : List UInt8, bytes.length = n * k →
      (∀ i < k, readBigEndian ((bytes.drop (n * i)).take n) < bound) → ∃ a, check bytes = .ok a)
    (hbad : ∀ bytes : List UInt8, bytes.length = n * k →
      (∃ i < k, bound ≤ readBigEndian ((bytes.drop (n * i)).take n)) →
      ∃ e, check bytes = .error e ∧ e ≠ short) :
    Follows short bound (readBytes short (n * k) >>= fun bytes => StateT.lift (check bytes))
      (Layout.numbers n k) := by
  -- a number of the first `n * k` bytes is the number at that place of the stream
  have hplace : ∀ (s : List UInt8), ∀ i < k,
      ((s.take (n * k)).drop (n * i)).take n = (s.drop (n * i)).take n := by
    intro s i hi
    have hfit : n * i + n ≤ n * k := by
      have : n * (i + 1) ≤ n * k := mul_le_mul_left n hi
      rw [mul_add, mul_one] at this
      exact this
    rw [drop_take, take_take]
    congr 1
    omega
  rw [follows_iff]
  intro s
  unfold Layout.numbers
  by_cases hlen : n * k ≤ s.length
  · have htake : (s.take (n * k)).length = n * k := by simpa using hlen
    have hrun : (readBytes short (n * k) >>= fun bytes => StateT.lift (check bytes)) s =
        check (s.take (n * k)) >>= fun a => pure (a, s.drop (n * k)) := bind_ok (if_pos hlen)
    rw [if_pos hlen, hrun]
    constructor
    · intro hall
      obtain ⟨a, ha⟩ := hok (s.take (n * k)) htake (by
        intro i hi
        rw [hplace s i hi]
        exact hall _ (mem_map.mpr ⟨i, mem_range.mpr hi, rfl⟩))
      rw [ha]
      exact ⟨a, rfl⟩
    · rintro ⟨v, hv, hle⟩
      obtain ⟨i, hi, rfl⟩ := mem_map.mp hv
      have hi' := mem_range.mp hi
      obtain ⟨e, he, hne⟩ := hbad (s.take (n * k)) htake ⟨i, hi', by
        rw [hplace s i hi']
        exact hle⟩
      rw [he]
      exact ⟨e, rfl, hne⟩
  · rw [if_neg hlen]
    exact followsAt_nil (bind_error (if_neg hlen))

end Zcoin.Lib.Stream
