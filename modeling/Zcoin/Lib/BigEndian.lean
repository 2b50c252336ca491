/-
  Zcoin.Lib.BigEndian — fixed-width big-endian numbers and the order of byte strings.

  Byte strings are ordered lexicographically (`compare` on `List UInt8`).  A number written
  with the most significant byte first compares like the number, and strings of one layout
  compare field by field.
-/
import Mathlib

namespace Zcoin.Lib.BigEndian

open List Nat

/-! ## §1. Writing and reading. -/

/-- The `w` lowest bytes of `n`, most significant first. -/
def bigEndian : Nat → Nat → List UInt8
  | 0, _ => []
  | w + 1, n => UInt8.ofNat (n / 256 ^ w) :: bigEndian w n

/-- The number a byte string stands for. -/
def readBigEndian (bytes : List UInt8) : Nat := bytes.foldl (fun acc b => acc * 256 + b.toNat) 0

@[simp] theorem length_bigEndian (w n : Nat) : (bigEndian w n).length = w := by
  induction w with
  | zero => rfl
  | succ w ih =>
    show (bigEndian w n).length + 1 = w + 1
    rw [ih]

theorem foldl_bigEndian (w n acc : Nat) :
    (bigEndian w n).foldl (fun acc b => acc * 256 + b.toNat) acc = acc * 256 ^ w + n % 256 ^ w := by
  induction w generalizing acc with
  | zero =>
    show acc = acc * 1 + n % 1
    rw [mod_one]
    omega
  | succ w ih =>
    have hdigit : (UInt8.ofNat (n / 256 ^ w)).toNat = n / 256 ^ w % 256 := UInt8.toNat_ofNat'
    have hmod : n % 256 ^ (w + 1) = n % 256 ^ w + 256 ^ w * (n / 256 ^ w % 256) := by
      rw [pow_succ, mod_mul]
    show (bigEndian w n).foldl _ (acc * 256 + (UInt8.ofNat (n / 256 ^ w)).toNat) = _
    rw [ih, hdigit, hmod]
    ring

theorem readBigEndian_bigEndian {w n : Nat} (h : n < 256 ^ w) :
    readBigEndian (bigEndian w n) = n := by
  unfold readBigEndian
  rw [foldl_bigEndian, zero_mul, zero_add, mod_eq_of_lt h]

theorem readBigEndian_lt (bytes : List UInt8) : readBigEndian bytes < 256 ^ bytes.length := by
  induction bytes using reverseRecOn with
  | nil => exact one_pos
  | append_singleton bytes b ih =>
    unfold readBigEndian at ih ⊢
    rw [foldl_append, length_append, length_singleton, pow_succ]
    show (bytes.foldl _ 0) * 256 + b.toNat < _
    have hb := b.toNat_lt
    omega

/-- Only the `w` lowest bytes are written. -/
theorem bigEndian_mod (w n : Nat) : bigEndian w (n % 256 ^ w) = bigEndian w n := by
  suffices hgen : ∀ v ≤ w, bigEndian v (n % 256 ^ w) = bigEndian v n from hgen w le_rfl
  intro v
  induction v with
  | zero =>
    intro _
    rfl
  | succ v ih =>
    intro hv
    show UInt8.ofNat (n % 256 ^ w / 256 ^ v) :: bigEndian v (n % 256 ^ w) =
      UInt8.ofNat (n / 256 ^ v) :: bigEndian v n
    rw [ih (by omega)]
    congr 1
    apply UInt8.toNat_inj.mp
    rw [UInt8.toNat_ofNat', UInt8.toNat_ofNat']
    show n % 256 ^ w / 256 ^ v % 256 = n / 256 ^ v % 256
    have hsplit : 256 ^ w = 256 ^ v * (256 * 256 ^ (w - v - 1)) := by
      rw [← pow_succ', ← pow_add]
      congr 1
      omega
    rw [hsplit, mod_mul_right_div_self, mod_mul_right_mod]

/-! ## §2. Comparing. -/

theorem compare_cons (a b : UInt8) (as bs : List UInt8) :
    compare (a :: as) (b :: bs) = (compare a b).then (compare as bs) :=
  List.compareLex_cons_cons

theorem compare_append {as bs : List UInt8} (h : as.length = bs.length) (cs ds : List UInt8) :
    compare (as ++ cs) (bs ++ ds) = (compare as bs).then (compare cs ds) := by
  induction as generalizing bs with
  | nil =>
    cases bs with
    | nil => rfl
    | cons b bs => cases h
  | cons a as ih =>
    cases bs with
    | nil => cases h
    | cons b bs =>
      rw [cons_append, cons_append, compare_cons, compare_cons,
        ih (succ.inj h), Ordering.then_assoc]

theorem compare_uint8 (a b : UInt8) : compare a b = compare a.toNat b.toNat := by
  rcases lt_trichotomy a.toNat b.toNat with h | h | h
  · rw [Nat.compare_eq_lt.mpr h]
    exact if_pos (UInt8.lt_iff_toNat_lt.mpr h)
  · have : a = b := UInt8.toNat_inj.mp h
    subst this
    rw [Nat.compare_eq_eq.mpr rfl]
    exact Std.ReflOrd.compare_self
  · rw [Nat.compare_eq_gt.mpr h]
    exact Std.OrientedCmp.gt_of_lt (if_pos (UInt8.lt_iff_toNat_lt.mpr h))

theorem compare_div_mod (n m k : Nat) :
    compare n m = (compare (n / k) (m / k)).then (compare (n % k) (m % k)) := by
  have hn := div_add_mod n k
  have hm := div_add_mod m k
  rcases Nat.eq_zero_or_pos k with rfl | hk
  · simp
  rcases lt_trichotomy (n / k) (m / k) with h | h | h
  · rw [Nat.compare_eq_lt.mpr h, Ordering.lt_then, Nat.compare_eq_lt]
    exact lt_of_div_lt_div h
  · rw [Nat.compare_eq_eq.mpr h, Ordering.eq_then]
    rw [h] at hn
    rcases lt_trichotomy (n % k) (m % k) with h' | h' | h'
    · rw [Nat.compare_eq_lt.mpr h', Nat.compare_eq_lt]
      omega
    · rw [Nat.compare_eq_eq.mpr h', Nat.compare_eq_eq]
      omega
    · rw [Nat.compare_eq_gt.mpr h', Nat.compare_eq_gt]
      omega
  · rw [Nat.compare_eq_gt.mpr h, Ordering.gt_then, Nat.compare_eq_gt]
    exact lt_of_div_lt_div h

/-- **Big-endian numbers compare like the numbers.** -/
theorem compare_bigEndian {w n m : Nat} (hn : n < 256 ^ w) (hm : m < 256 ^ w) :
    compare (bigEndian w n) (bigEndian w m) = compare n m := by
  induction w generalizing n m with
  | zero =>
    have hn0 : n = 0 := by omega
    have hm0 : m = 0 := by omega
    rw [hn0, hm0]
    rfl
  | succ w ih =>
    have hpos : 0 < 256 ^ w := Nat.pow_pos (by decide)
    have hdigit : ∀ k, k < 256 ^ (w + 1) → (UInt8.ofNat (k / 256 ^ w)).toNat = k / 256 ^ w := by
      intro k hk
      rw [UInt8.toNat_ofNat']
      apply mod_eq_of_lt
      rw [div_lt_iff_lt_mul hpos]
      rw [Nat.pow_succ'] at hk
      exact hk
    show compare (UInt8.ofNat (n / 256 ^ w) :: bigEndian w n)
      (UInt8.ofNat (m / 256 ^ w) :: bigEndian w m) = _
    rw [compare_cons, compare_uint8, hdigit n hn, hdigit m hm, ← bigEndian_mod w n,
      ← bigEndian_mod w m, ih (mod_lt _ hpos) (mod_lt _ hpos),
      ← compare_div_mod n m (256 ^ w)]

theorem bigEndian_injective {w n m : Nat} (hn : n < 256 ^ w) (hm : m < 256 ^ w)
    (h : bigEndian w n = bigEndian w m) : n = m := by
  rw [← readBigEndian_bigEndian hn, h, readBigEndian_bigEndian hm]

end Zcoin.Lib.BigEndian
