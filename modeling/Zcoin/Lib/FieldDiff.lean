/-
  Zcoin.Lib.FieldDiff — codecs, and the difference of two records field by field.

  A codec is an encoder with the proof that its decoder undoes it, with an arbitrary rest of
  the stream behind, so that codecs can be put one after another.

  A record is laid out as a list of independent fields, each with a bit of its own.  The
  difference of two records is the mask of the fields that differ with their new
  values; laid over the first record it gives the second.
-/
import Mathlib

namespace Zcoin.Lib

/-- An encoder, a decoder, and the values that survive the round trip. -/
structure Codec (τ α : Type) where
  encode : α → List τ
  decode : List τ → Option (α × List τ)
  dom : α → Prop
  decode_encode : ∀ a, dom a → ∀ rest, decode (encode a ++ rest) = some (a, rest)

namespace Codec

variable {τ α β : Type}

/-- One token. -/
def atom (write : α → τ) (read : τ → Option α) (h : ∀ a, read (write a) = some a) :
    Codec τ α where
  encode a := [write a]
  decode input :=
    match input with
    | [] => none
    | t :: rest => (read t).map fun a => (a, rest)
  dom _ := True
  decode_encode := by
    intro a _ rest
    show (read (write a)).map _ = _
    rw [h]
    rfl

/-- Two values, one after the other. -/
def pair (c : Codec τ α) (d : Codec τ β) : Codec τ (α × β) where
  encode p := c.encode p.1 ++ d.encode p.2
  decode input :=
    (c.decode input).bind fun p => (d.decode p.2).map fun q => ((p.1, q.1), q.2)
  dom p := c.dom p.1 ∧ d.dom p.2
  decode_encode := by
    intro p hp rest
    rw [List.append_assoc, c.decode_encode p.1 hp.1]
    show (d.decode (d.encode p.2 ++ rest)).map _ = _
    rw [d.decode_encode p.2 hp.2]
    rfl

/-- A value read through another one. -/
def via (c : Codec τ α) (make : α → β) (parts : β → α) (h : ∀ b, make (parts b) = b) :
    Codec τ β where
  encode b := c.encode (parts b)
  decode input := (c.decode input).map fun p => (make p.1, p.2)
  dom b := c.dom (parts b)
  decode_encode := by
    intro b hb rest
    rw [c.decode_encode (parts b) hb]
    show some (make (parts b), rest) = _
    rw [h]

/-- `n` values. -/
def decodeMany (c : Codec τ α) : Nat → List τ → Option (List α × List τ)
  | 0, input => some ([], input)
  | n + 1, input =>
    (c.decode input).bind fun p => (decodeMany c n p.2).map fun q => (p.1 :: q.1, q.2)

theorem decodeMany_encode (c : Codec τ α) {l : List α} (hl : ∀ a ∈ l, c.dom a) (rest : List τ) :
    c.decodeMany l.length (l.flatMap c.encode ++ rest) = some (l, rest) := by
  induction l with
  | nil => rfl
  | cons a l ih =>
    have htail := ih fun b hb => hl b (List.mem_cons_of_mem a hb)
    rw [List.flatMap_cons, List.append_assoc, List.length_cons]
    show (c.decode (c.encode a ++ _)).bind _ = _
    rw [c.decode_encode a (hl a List.mem_cons_self)]
    show (c.decodeMany l.length (l.flatMap c.encode ++ rest)).map _ = _
    rw [htail]
    rfl

/-- A list behind its length. -/
def counted (size : Codec τ Nat) (c : Codec τ α) : Codec τ (List α) where
  encode l := size.encode l.length ++ l.flatMap c.encode
  decode input := (size.decode input).bind fun p => c.decodeMany p.1 p.2
  dom l := size.dom l.length ∧ ∀ a ∈ l, c.dom a
  decode_encode := by
    intro l hl rest
    rw [List.append_assoc, size.decode_encode _ hl.1]
    exact c.decodeMany_encode hl.2 rest

end Codec

open List

/-- One field of a record `σ`: its value, its bit and how it is written. -/
structure Field (σ τ : Type) (w : Nat) where
  α : Type
  deq : DecidableEq α
  codec : Codec τ α
  get : σ → α
  set : α → σ → σ
  bit : BitVec w

namespace Field

variable {σ τ : Type} {w : Nat}

/-- `a.f != b.f`. -/
def differs (a b : σ) (f : Field σ τ w) : Bool :=
  haveI := f.deq
  f.get a ≠ f.get b

theorem differs_eq_false_iff {a b : σ} {f : Field σ τ w} :
    f.differs a b = false ↔ f.get a = f.get b := by
  unfold differs
  simp

variable (fields : List (Field σ τ w))

/-- The chosen fields of `src`, written into `s`. -/
def setSelected (sel : Field σ τ w → Bool) (src s : σ) : σ :=
  fields.foldl (fun s f => if sel f then f.set (f.get src) s else s) s

/-- The chosen fields of `src` in a stream. -/
def writeSelected (sel : Field σ τ w → Bool) (src : σ) : List τ :=
  (fields.filter sel).flatMap fun f => f.codec.encode (f.get src)

/-- The chosen fields, read into `s`. -/
def readSelected (sel : Field σ τ w → Bool) :
    List (Field σ τ w) → σ → List τ → Option (σ × List τ)
  | [], s, input => some (s, input)
  | f :: fields, s, input =>
    if sel f then
      (f.codec.decode input).bind fun p => readSelected sel fields (f.set p.1 s) p.2
    else readSelected sel fields s input

theorem readSelected_writeSelected {fields : List (Field σ τ w)} (sel : Field σ τ w → Bool)
    (src s : σ) (rest : List τ) (hdom : ∀ f ∈ fields, ∀ v, f.codec.dom v) :
    readSelected sel fields s (writeSelected fields sel src ++ rest) =
      some (setSelected fields sel src s, rest) := by
  induction fields generalizing s with
  | nil => rfl
  | cons f fields ih =>
    have htail := fun s => ih s fun g hg => hdom g (mem_cons_of_mem f hg)
    unfold readSelected writeSelected setSelected
    rw [filter_cons, foldl_cons]
    by_cases hsel : sel f = true
    · rw [if_pos hsel, if_pos hsel, if_pos hsel, flatMap_cons, append_assoc,
        f.codec.decode_encode _ (hdom f mem_cons_self _)]
      exact htail (f.set (f.get src) s)
    · rw [if_neg hsel, if_neg hsel, if_neg hsel]
      exact htail s

end Field

/-- **A record as its fields**: they are independent and make up the record. -/
structure Layout (σ τ : Type) (w : Nat) where
  fields : List (Field σ τ w)
  get_set : ∀ f ∈ fields, ∀ v s, f.get (f.set v s) = v
  frame : fields.Pairwise fun f g =>
    (∀ v s, f.get (g.set v s) = f.get s) ∧ ∀ v s, g.get (f.set v s) = g.get s
  bits : fields.Pairwise fun f g => f.bit &&& g.bit = 0#w
  bit_ne : ∀ f ∈ fields, f.bit ≠ 0#w
  dom : ∀ f ∈ fields, ∀ v, f.codec.dom v
  ext : ∀ s s' : σ, (∀ f ∈ fields, f.get s = f.get s') → s = s'

/-- A mask, and a record of which only the masked fields count. -/
structure FieldDiff (σ : Type) (w : Nat) where
  fields : BitVec w := 0#w
  state : σ

namespace Layout

variable {σ τ : Type} {w : Nat} (L : Layout σ τ w) {f : Field σ τ w}

/-- Setting other fields leaves `f`. -/
theorem get_frame {fields : List (Field σ τ w)}
    (hother : ∀ g ∈ fields, ∀ v s, f.get (g.set v s) = f.get s) (sel : Field σ τ w → Bool)
    (src s : σ) : f.get (Field.setSelected fields sel src s) = f.get s := by
  refine foldlRecOn (motive := fun s' => f.get s' = f.get s) fields _ rfl ?_
  intro s' hs' g hg
  rw [← hs']
  split
  · exact hother g hg _ _
  · rfl

/-- Each field of the result comes from `src` or is kept, as it was chosen. -/
theorem get_setSelected (sel : Field σ τ w → Bool) (src s : σ) (hf : f ∈ L.fields) :
    f.get (Field.setSelected L.fields sel src s) = if sel f then f.get src else f.get s := by
  obtain ⟨before, after, hfields⟩ := append_of_mem hf
  have hframe := L.frame
  rw [hfields, pairwise_append, pairwise_cons] at hframe
  obtain ⟨-, ⟨hafter, -⟩, hbefore⟩ := hframe
  unfold Field.setSelected
  rw [hfields, foldl_append, foldl_cons]
  refine (get_frame (fun g hg => (hafter g hg).1) sel src _).trans ?_
  split
  · exact L.get_set f hf _ _
  · exact get_frame (fun g hg => (hbefore g hg f mem_cons_self).2) sel src s

/-! ## The difference. -/

/-- The line of the constructor for one field. -/
def diffLine (a b : σ) (d : FieldDiff σ w) (f : Field σ τ w) : FieldDiff σ w :=
  if f.differs a b then ⟨d.fields ||| f.bit, f.set (f.get b) d.state⟩ else d

/-- The difference from `a` to `b`; `init` fills the fields that do not count. -/
def between (init a b : σ) : FieldDiff σ w := L.fields.foldl (diffLine a b) { state := init }

/-- `fields & Field_f`. -/
def masks (d : FieldDiff σ w) (f : Field σ τ w) : Bool := d.fields &&& f.bit ≠ 0#w

/-- The masked fields of the difference, written into `target`. -/
def applyTo (d : FieldDiff σ w) (target : σ) : σ :=
  Field.setSelected L.fields (masks d) d.state target

theorem between_state (init a b : σ) :
    (L.between init a b).state = Field.setSelected L.fields (Field.differs a b) b init := by
  refine (foldl_hom FieldDiff.state fun d f => ?_).symm
  unfold diffLine
  split
  · rfl
  · rfl

/-- Lines of other fields leave the bit of `f`. -/
theorem mask_frame {fields : List (Field σ τ w)} (a b : σ)
    (hother : ∀ g ∈ fields, g.bit &&& f.bit = 0#w) (d : FieldDiff σ w) :
    (fields.foldl (diffLine a b) d).fields &&& f.bit = d.fields &&& f.bit := by
  refine foldlRecOn (motive := fun d' : FieldDiff σ w => d'.fields &&& f.bit = d.fields &&& f.bit)
    fields _ rfl ?_
  intro d' hd' g hg
  rw [← hd']
  unfold diffLine
  split
  · show (d'.fields ||| g.bit) &&& f.bit = _
    rw [BitVec.and_comm, BitVec.and_or_distrib_left, BitVec.and_comm,
      BitVec.and_comm f.bit g.bit, hother g hg, BitVec.or_zero]
  · rfl

theorem masks_between (init a b : σ) (hf : f ∈ L.fields) :
    masks (L.between init a b) f = f.differs a b := by
  obtain ⟨before, after, hfields⟩ := append_of_mem hf
  have hbits := L.bits
  rw [hfields, pairwise_append, pairwise_cons] at hbits
  obtain ⟨-, ⟨hafter, -⟩, hbefore⟩ := hbits
  have hclear := mask_frame a b (fun g hg => hbefore g hg f mem_cons_self) { state := init }
  unfold masks between
  rw [hfields, foldl_append, foldl_cons,
    mask_frame a b fun g hg => BitVec.and_comm f.bit g.bit ▸ hafter g hg]
  generalize before.foldl (diffLine a b) { state := init } = d at hclear ⊢
  rw [BitVec.zero_and] at hclear
  unfold diffLine
  cases hdiff : f.differs a b with
  | false =>
    rw [if_neg Bool.false_ne_true, hclear]
    simp
  | true =>
    show decide ((d.fields ||| f.bit) &&& f.bit ≠ 0#w) = true
    rw [BitVec.and_comm, BitVec.and_or_distrib_left, BitVec.and_comm, hclear,
      BitVec.zero_or, BitVec.and_self]
    exact decide_eq_true (L.bit_ne f hf)

/-- **The difference from `a` to `b` leads from `a` to `b`.** -/
theorem applyTo_between (init a b : σ) : L.applyTo (L.between init a b) a = b := by
  apply L.ext
  intro f hf
  unfold applyTo
  rw [L.get_setSelected _ _ _ hf, L.masks_between init a b hf, L.between_state,
    L.get_setSelected _ _ _ hf]
  cases hdiff : f.differs a b with
  | true => rfl
  | false => exact Field.differs_eq_false_iff.mp hdiff

theorem eq_of_between_fields (init : σ) {a b : σ} (hzero : (L.between init a b).fields = 0#w) :
    a = b := by
  have happly := L.applyTo_between init a b
  have hnone : ∀ f : Field σ τ w, masks (L.between init a b) f = false := by
    intro f
    unfold masks
    rw [hzero]
    simp
  rw [← happly]
  apply L.ext
  intro f hf
  unfold applyTo
  rw [L.get_setSelected _ _ _ hf, hnone f]
  rfl

theorem between_self_fields (init a : σ) : (L.between init a a).fields = 0#w := by
  have hline : ∀ f : Field σ τ w, diffLine a a { state := init } f = { state := init } := by
    intro f
    unfold diffLine
    rw [Field.differs_eq_false_iff.mpr rfl]
    rfl
  unfold between
  rw [foldl_fixed' hline]

/-! ## The stream. -/

/-- The whole record, field after field; read into `init`. -/
def recordCodec (init : σ) : Codec τ σ where
  encode s := Field.writeSelected L.fields (fun _ => true) s
  decode input := Field.readSelected (fun _ => true) L.fields init input
  dom _ := True
  decode_encode := by
    intro s _ rest
    have hself : Field.setSelected L.fields (fun _ => true) s init = s := by
      apply L.ext
      intro f hf
      rw [L.get_setSelected _ _ _ hf]
      rfl
    rw [Field.readSelected_writeSelected _ _ _ _ L.dom, hself]

/-- A difference: its mask, then the masked fields.  The other fields are not written and
come back as in `init`. -/
def diffCodec (mask : Codec τ (BitVec w)) (init : σ) : Codec τ (FieldDiff σ w) where
  encode d := mask.encode d.fields ++ Field.writeSelected L.fields (masks d) d.state
  decode input := (mask.decode input).bind fun p =>
    (Field.readSelected (masks ⟨p.1, init⟩) L.fields init p.2).map fun q => (⟨p.1, q.1⟩, q.2)
  dom d := mask.dom d.fields ∧ Field.setSelected L.fields (masks d) d.state init = d.state
  decode_encode := by
    intro d hd rest
    rw [List.append_assoc, mask.decode_encode _ hd.1]
    have hread := Field.readSelected_writeSelected (masks d) d.state init rest L.dom
    rw [hd.2] at hread
    show (Field.readSelected (masks d) L.fields init _).map _ = _
    rw [hread]
    rfl

theorem diffCodec_dom (mask : Codec τ (BitVec w)) (init a b : σ)
    (hmask : mask.dom (L.between init a b).fields) :
    (L.diffCodec mask init).dom (L.between init a b) := by
  refine ⟨hmask, ?_⟩
  apply L.ext
  intro f hf
  rw [L.get_setSelected _ _ _ hf, L.between_state, L.get_setSelected _ _ _ hf,
    L.masks_between init a b hf]
  cases f.differs a b with
  | true => rfl
  | false => rfl

end Layout

end Zcoin.Lib
