import Mathlib
import ScalarSsa.Proofs.Machine.Refinement

/-!
# Doubles up to the sign of zero

**Definitions.** `ZeroLike` relates every double to itself and the two zeros to each other.

**Results.** `zeroLike_of_beq`: doubles that compare equal are related, so this is all that
a comparison of numbers can identify.  `tolerance_zeroLike`: arithmetic carries the relation
along, and comparisons cannot see it.  `hostCarries_zeroLike`: so do the functions of the
host, the sine and the cosine under the condition that they do.
-/

namespace ScalarSsa

open Float.Model
open Float.Model.UnpackedFloat

/-- Two doubles are the same or both zeros. -/
def ZeroLike (x y : Float) : Prop :=
  x = y ∨ (x = 0.0 ∨ x = -0.0) ∧ (y = 0.0 ∨ y = -0.0)

namespace Double

/-! ## The parts of a double -/

section Parts

variable (b : BitVec Format.binary64.numBits)

theorem toNat_unpackMantissa :
    (unpackMantissa b).toNat = b.toNat % 2 ^ 52 := by
  simp [unpackMantissa, BitVec.extractLsb_toNat]

theorem toNat_unpackExponent :
    (unpackExponent b).toNat = b.toNat / 2 ^ 52 % 2 ^ 11 := by
  simp [unpackExponent, BitVec.extractLsb_toNat, Nat.shiftRight_eq_div_pow]

theorem toNat_unpackSign :
    (unpackSign b).toNat = b.toNat / 2 ^ 63 % 2 := by
  simp [unpackSign, BitVec.extractLsb_toNat, Nat.shiftRight_eq_div_pow]

end Parts

theorem bits_eq_of_parts
    {a b : BitVec Format.binary64.numBits}
    (hsign : unpackSign a = unpackSign b)
    (hexponent : unpackExponent a = unpackExponent b)
    (hmantissa : unpackMantissa a = unpackMantissa b) :
    a = b := by
  have hsign' := congrArg BitVec.toNat hsign
  have hexponent' := congrArg BitVec.toNat hexponent
  have hmantissa' := congrArg BitVec.toNat hmantissa
  rw [toNat_unpackSign, toNat_unpackSign] at hsign'
  rw [toNat_unpackExponent, toNat_unpackExponent] at hexponent'
  rw [toNat_unpackMantissa, toNat_unpackMantissa] at hmantissa'
  have ha : a.toNat < 2 ^ 64 := a.isLt
  have hb : b.toNat < 2 ^ 64 := b.isLt
  exact BitVec.eq_of_toNat_eq (by omega)

theorem sign_ofBitVec_inj
    {s t : BitVec 1}
    (h : Sign.ofBitVec s = Sign.ofBitVec t) :
    s = t := by
  unfold Sign.ofBitVec at h
  by_cases hs : s = 0#1
  · by_cases ht : t = 0#1
    · rw [hs, ht]
    · rw [if_pos hs, if_neg ht] at h
      cases h
  · by_cases ht : t = 0#1
    · rw [if_neg hs, if_pos ht] at h
      cases h
    · bv_omega

/-- What the parts of a double stand for. -/
inductive Unpacks (b : BitVec Format.binary64.numBits) : UnpackedFloat → Prop
  | infinity
      (hexponent : unpackExponent b = -1#_)
      (hmantissa : unpackMantissa b = 0#_) :
      Unpacks b (.infinity (Sign.ofBitVec (unpackSign b)))
  | notANumber
      (hexponent : unpackExponent b = -1#_)
      (hmantissa : unpackMantissa b ≠ 0#_) :
      Unpacks b .notANumber
  | zero
      (hexponent : unpackExponent b = 0#_)
      (hmantissa : unpackMantissa b = 0#_) :
      Unpacks b (.zero (Sign.ofBitVec (unpackSign b)))
  | subnormal
      (hexponent : unpackExponent b = 0#_)
      {m : Nat}
      {e : Int}
      (hm : m = (unpackMantissa b).toNat)
      (hpos : 0 < m) :
      Unpacks b (.finite (Sign.ofBitVec (unpackSign b)) m e hpos)
  | normal
      {m : Nat}
      {e : Int}
      (hm : m = 2 ^ 52 + (unpackMantissa b).toNat)
      (he : e = (unpackExponent b).toNat - 1075)
      (hpos : 0 < m) :
      Unpacks b (.finite (Sign.ofBitVec (unpackSign b)) m e hpos)

theorem unpacks_unpack
    (b : BitVec Format.binary64.numBits) :
    Unpacks b (UnpackedFloat.unpack Format.binary64 b) := by
  unfold UnpackedFloat.unpack
  simp only
  split
  · next hexponent =>
      split
      · next hmantissa => exact .infinity hexponent hmantissa
      · next hmantissa => exact .notANumber hexponent hmantissa
  · split
    · next hexponent =>
        split
        · next hmantissa => exact .zero hexponent hmantissa
        · next hmantissa => exact .subnormal hexponent rfl _
    · next hexponent =>
        refine .normal ?_ rfl _
        have hlt : (unpackMantissa b).toNat < 2 ^ 52 := (unpackMantissa b).isLt
        rw [BitVec.toNat_append, ← Nat.shiftLeft_add_eq_or_of_lt hlt]
        rfl

/-- A double is determined by what its parts stand for. -/
theorem bits_eq_of_unpacks
    {a b : BitVec Format.binary64.numBits}
    (ha : Format.binary64.Valid a)
    (hb : Format.binary64.Valid b)
    {u v : UnpackedFloat}
    (hau : Unpacks a u)
    (hbv : Unpacks b v)
    (h : u = v) :
    a = b := by
  have hlt : (unpackMantissa a).toNat < 2 ^ 52 := (unpackMantissa a).isLt
  have hlt' : (unpackMantissa b).toNat < 2 ^ 52 := (unpackMantissa b).isLt
  cases hau with
  | infinity hexponent hmantissa =>
      cases hbv with
      | infinity hexponent' hmantissa' =>
          have hsign := sign_ofBitVec_inj (UnpackedFloat.infinity.inj h)
          exact bits_eq_of_parts hsign (hexponent.trans hexponent'.symm)
            (hmantissa.trans hmantissa'.symm)
      | _ => cases h
  | notANumber hexponent hmantissa =>
      cases hbv with
      | notANumber hexponent' hmantissa' =>
          exact (ha.eq_packedNaN hexponent hmantissa).trans
            (hb.eq_packedNaN hexponent' hmantissa').symm
      | _ => cases h
  | zero hexponent hmantissa =>
      cases hbv with
      | zero hexponent' hmantissa' =>
          have hsign := sign_ofBitVec_inj (UnpackedFloat.zero.inj h)
          exact bits_eq_of_parts hsign (hexponent.trans hexponent'.symm)
            (hmantissa.trans hmantissa'.symm)
      | _ => cases h
  | subnormal hexponent hm hpos =>
      cases hbv with
      | subnormal hexponent' hm' hpos' =>
          obtain ⟨hsign, hmantissa, -⟩ := UnpackedFloat.finite.inj h
          rw [hm, hm'] at hmantissa
          exact bits_eq_of_parts (sign_ofBitVec_inj hsign) (hexponent.trans hexponent'.symm)
            (BitVec.eq_of_toNat_eq hmantissa)
      | normal hm' he' hpos' =>
          -- the implicit bit tells them apart
          obtain ⟨-, hmantissa, -⟩ := UnpackedFloat.finite.inj h
          omega
      | _ => cases h
  | normal hm he hpos =>
      cases hbv with
      | normal hm' he' hpos' =>
          obtain ⟨hsign, hmantissa, hexponent⟩ := UnpackedFloat.finite.inj h
          exact bits_eq_of_parts (sign_ofBitVec_inj hsign)
            (BitVec.eq_of_toNat_eq (by omega))
            (BitVec.eq_of_toNat_eq (by omega))
      | subnormal hexponent' hm' hpos' =>
          obtain ⟨-, hmantissa, -⟩ := UnpackedFloat.finite.inj h
          omega
      | _ => cases h

/-- What a double stands for. -/
def unpacked (x : Float) : UnpackedFloat :=
  x.toModel.unpack

theorem eq_of_unpacked_eq
    {x y : Float}
    (h : unpacked x = unpacked y) :
    x = y := by
  obtain ⟨⟨a, ha⟩⟩ := x
  obtain ⟨⟨b, hb⟩⟩ := y
  have hbits : a.toBitVec = b.toBitVec :=
    bits_eq_of_unpacks ha hb (unpacks_unpack _) (unpacks_unpack _) h
  obtain rfl : a = b := UInt64.toBitVec_inj.1 hbits
  rfl

/-! ## Zeros -/

/-- Two numbers are the same or both zeros. -/
inductive Alike : UnpackedFloat → UnpackedFloat → Prop
  | refl (u : UnpackedFloat) : Alike u u
  | zeros (s t : Sign) : Alike (.zero s) (.zero t)

theorem unpacked_zero :
    unpacked 0.0 = .zero .positive :=
  rfl

theorem unpacked_neg_zero :
    unpacked (-0.0) = .zero .negative :=
  rfl

theorem eq_zero_iff
    {x : Float} :
    x = 0.0 ∨ x = -0.0 ↔ ∃ s, unpacked x = .zero s := by
  constructor
  · rintro (rfl | rfl)
    · exact ⟨_, unpacked_zero⟩
    · exact ⟨_, unpacked_neg_zero⟩
  · rintro ⟨s, hs⟩
    cases s with
    | positive => exact .inl (eq_of_unpacked_eq hs)
    | negative => exact .inr (eq_of_unpacked_eq hs)

theorem zeroLike_iff
    {x y : Float} :
    ZeroLike x y ↔ Alike (unpacked x) (unpacked y) := by
  unfold ZeroLike
  rw [eq_zero_iff, eq_zero_iff]
  constructor
  · rintro (rfl | ⟨⟨s, hs⟩, t, ht⟩)
    · exact .refl _
    · rw [hs, ht]
      exact .zeros s t
  · intro h
    generalize hu : unpacked x = u at h
    generalize hv : unpacked y = v at h
    cases h with
    | refl => exact .inl (eq_of_unpacked_eq (hu.trans hv.symm))
    | zeros s t => exact .inr ⟨⟨s, rfl⟩, t, rfl⟩

theorem alike_of_finite
    {s : Sign}
    {m n : Nat}
    {d e : Int}
    {hm : 0 < m}
    {hn : 0 < n}
    (h : (compare d e).then (compare m n) = .eq) :
    Alike (.finite s m d hm) (.finite s n e hn) := by
  obtain ⟨hd, hm⟩ := Ordering.then_eq_eq.1 h
  obtain rfl := compare_eq_iff_eq.1 hd
  obtain rfl := compare_eq_iff_eq.1 hm
  exact .refl _

/-- Numbers that compare equal are the same or both zeros. -/
theorem alike_of_compare
    {u v : UnpackedFloat}
    (h : u.compare v = some .eq) :
    Alike u v := by
  cases u with
  | notANumber => cases h
  | infinity s =>
      cases v with
      | infinity t => cases s <;> cases t <;> first | exact .refl _ | cases h
      | _ => cases s <;> cases h
  | zero s =>
      cases v with
      | infinity t => cases t <;> cases h
      | notANumber => cases h
      | zero t => exact .zeros s t
      | finite t => cases t <;> cases h
  | finite s m d =>
      cases v with
      | infinity t => cases s <;> cases t <;> cases h
      | notANumber => cases s <;> cases h
      | zero t => cases s <;> cases h
      | finite t n e =>
          cases s with
          | positive =>
              cases t with
              | positive => exact alike_of_finite (Option.some.inj h)
              | negative => cases h
          | negative =>
              cases t with
              | positive => cases h
              | negative =>
                  exact alike_of_finite (Ordering.swap_eq_eq.1 (Option.some.inj h))

/-! ## Operations -/

theorem Alike.trans
    {u v w : UnpackedFloat}
    (h : Alike u v)
    (h' : Alike v w) :
    Alike u w := by
  cases h with
  | refl => exact h'
  | zeros s t =>
      cases h' with
      | refl => exact .zeros s t
      | zeros _ r => exact .zeros s r

section Operations

variable {spec : Format} (s t : Sign) (u : UnpackedFloat)

theorem alike_zero_add :
    Alike (UnpackedFloat.add spec (.zero s) u) (UnpackedFloat.add spec (.zero t) u) := by
  cases u with
  | zero r => cases r <;> cases s <;> cases t <;> constructor
  | _ => exact .refl _

theorem alike_add_zero :
    Alike (UnpackedFloat.add spec u (.zero s)) (UnpackedFloat.add spec u (.zero t)) := by
  cases u with
  | zero r => cases r <;> cases s <;> cases t <;> constructor
  | _ => exact .refl _

theorem alike_zero_sub :
    Alike (UnpackedFloat.sub spec (.zero s) u) (UnpackedFloat.sub spec (.zero t) u) := by
  cases u with
  | zero r => cases r <;> cases s <;> cases t <;> constructor
  | _ => exact .refl _

theorem alike_sub_zero :
    Alike (UnpackedFloat.sub spec u (.zero s)) (UnpackedFloat.sub spec u (.zero t)) := by
  cases u with
  | zero r => cases r <;> cases s <;> cases t <;> constructor
  | _ => exact .refl _

theorem alike_zero_mul :
    Alike (UnpackedFloat.mul spec (.zero s) u) (UnpackedFloat.mul spec (.zero t) u) := by
  cases u with
  | zero r => exact .zeros _ _
  | finite r => exact .zeros _ _
  | _ => exact .refl _

theorem alike_mul_zero :
    Alike (UnpackedFloat.mul spec u (.zero s)) (UnpackedFloat.mul spec u (.zero t)) := by
  cases u with
  | zero r => exact .zeros _ _
  | finite r => exact .zeros _ _
  | _ => exact .refl _

theorem compare_zero_left :
    UnpackedFloat.compare (.zero s) u = UnpackedFloat.compare (.zero t) u := by
  cases u with
  | infinity r => cases r <;> rfl
  | finite r => cases r <;> rfl
  | _ => rfl

theorem compare_zero_right :
    UnpackedFloat.compare u (.zero s) = UnpackedFloat.compare u (.zero t) := by
  cases u with
  | infinity r => cases r <;> rfl
  | finite r => cases r <;> rfl
  | _ => rfl

end Operations

/-- An operation that cannot tell zeros apart on either side carries the relation along. -/
theorem alike_of_zeros
    {op : UnpackedFloat → UnpackedFloat → UnpackedFloat}
    (hleft : ∀ s t u, Alike (op (.zero s) u) (op (.zero t) u))
    (hright : ∀ s t u, Alike (op u (.zero s)) (op u (.zero t)))
    {u u' v v' : UnpackedFloat}
    (hu : Alike u u')
    (hv : Alike v v') :
    Alike (op u v) (op u' v') := by
  refine Alike.trans (v := op u' v) ?_ ?_
  · cases hu with
    | refl => exact .refl _
    | zeros s t => exact hleft s t v
  · cases hv with
    | refl => exact .refl _
    | zeros s t => exact hright s t u'

theorem compare_of_alike
    {u u' v v' : UnpackedFloat}
    (hu : Alike u u')
    (hv : Alike v v') :
    u.compare v = u'.compare v' := by
  calc
    u.compare v = u'.compare v := by
      cases hu with
      | refl => rfl
      | zeros s t => exact compare_zero_left s t v
    _ = u'.compare v' := by
      cases hv with
      | refl => rfl
      | zeros s t => exact compare_zero_right s t u'

theorem isNaN_of_alike
    {u u' : UnpackedFloat}
    (hu : Alike u u') :
    u.isNaN = u'.isNaN := by
  cases hu with
  | refl => rfl
  | zeros s t => rfl

theorem alike_sqrt
    {spec : Format}
    {u u' : UnpackedFloat}
    (hu : Alike u u') :
    Alike (UnpackedFloat.sqrt spec u) (UnpackedFloat.sqrt spec u') := by
  cases hu with
  | refl => exact .refl _
  | zeros s t => exact .zeros s t

theorem lt_iff_compare
    {x y : Float} :
    x < y ↔ (unpacked x).compare (unpacked y) = some .lt := by
  have hlt : x < y ↔ ((unpacked x).compare (unpacked y) == some .lt) = true :=
    decide_eq_true_iff
  rw [hlt, beq_iff_eq]

/-- Numbers that are alike are packed into doubles that are. -/
theorem zeroLike_pack
    {u v : UnpackedFloat}
    (h : Alike u v) :
    ZeroLike (.ofModel (Float.Model.pack u)) (.ofModel (Float.Model.pack v)) := by
  cases h with
  | refl => exact .inl rfl
  | zeros s t =>
      have hzero : ∀ s, (Float.ofModel (Float.Model.pack (.zero s)) : Float) = 0.0 ∨
          (Float.ofModel (Float.Model.pack (.zero s)) : Float) = -0.0 := by
        intro s
        cases s with
        | positive => exact .inl rfl
        | negative => exact .inr rfl
      exact .inr ⟨hzero s, hzero t⟩

end Double

/-- Doubles that compare equal are the same or both zeros. -/
theorem zeroLike_of_beq
    {x y : Float}
    (h : (x == y) = true) :
    ZeroLike x y := by
  rw [Double.zeroLike_iff]
  refine Double.alike_of_compare ?_
  have hcompare : ((Double.unpacked x).compare (Double.unpacked y) == some .eq) = true := h
  exact beq_iff_eq.1 hcompare

namespace Machine

open Double

/-- The sign of zero is carried along by arithmetic and not seen by comparisons. -/
theorem tolerance_zeroLike :
    Tolerance ZeroLike where
  refl _ := .inl rfl
  trans x y z hxy hyz := by
    rw [zeroLike_iff] at hxy hyz ⊢
    exact hxy.trans hyz
  arith op x x' y y' hx hy := by
    rw [zeroLike_iff] at hx hy
    cases op with
    | add => exact zeroLike_pack (alike_of_zeros alike_zero_add alike_add_zero hx hy)
    | sub => exact zeroLike_pack (alike_of_zeros alike_zero_sub alike_sub_zero hx hy)
    | mul => exact zeroLike_pack (alike_of_zeros alike_zero_mul alike_mul_zero hx hy)
  compare pred x x' y y' hx hy := by
    rw [zeroLike_iff] at hx hy
    have hnan : x.isNaN = x'.isNaN := isNaN_of_alike hx
    have hnan' : y.isNaN = y'.isNaN := isNaN_of_alike hy
    have hcompare := compare_of_alike hx hy
    have hlt : x < y ↔ x' < y' := by
      rw [lt_iff_compare, lt_iff_compare, hcompare]
    have heq : (x == y) = (x' == y') := by
      have hbeq : ∀ x y : Float,
          (x == y) = ((unpacked x).compare (unpacked y) == some .eq) := fun _ _ => rfl
      rw [hbeq, hbeq, hcompare]
    cases pred with
    | ult => simp only [Comparison.holds, hnan, hnan', hlt]
    | one => simp only [Comparison.holds, hnan, hnan', bne, heq]

/-- A function of the host carries the relation along. -/
theorem hostCarries_of_apply
    {rel : Float → Float → Prop}
    {name : String}
    (h : ∀ host, HostFunction.named? name = some host → ∀ x y, rel x y →
      rel (host.apply x) (host.apply y)) :
    HostCarries rel name := by
  intro args args' hargs
  unfold HostCall.result
  cases hnamed : HostFunction.named? name with
  | none => exact .error _
  | some host =>
      cases hargs with
      | nil => exact .error _
      | cons hx _ => exact .ok (h host hnamed _ _ hx)

theorem named?_eq_some
    {name : String}
    {host : HostFunction}
    (h : HostFunction.named? name = some host) :
    host.name = name := by
  simpa using List.find?_some h

/-- Only of the sine and the cosine it has to be assumed that they respect zeros. -/
theorem hostCarries_zeroLike
    {name : String}
    (h : ∀ host ∈ [HostFunction.sin, .cos], host.name = name →
      ZeroLike (host.apply 0.0) (host.apply (-0.0))) :
    HostCarries ZeroLike name := by
  refine hostCarries_of_apply ?_
  intro host hnamed x y hxy
  have hopaque : host ∈ [HostFunction.sin, .cos] →
      ZeroLike (host.apply x) (host.apply y) := by
    intro hmem
    have hzero := h host hmem (named?_eq_some hnamed)
    have hsymm : ZeroLike (host.apply (-0.0)) (host.apply 0.0) := by
      rcases hzero with heq | ⟨hx, hy⟩
      · exact .inl heq.symm
      · exact .inr ⟨hy, hx⟩
    rcases hxy with rfl | ⟨rfl | rfl, rfl | rfl⟩
    · exact .inl rfl
    · exact .inl rfl
    · exact hzero
    · exact hsymm
    · exact .inl rfl
  cases host with
  | sin => exact hopaque (by simp)
  | cos => exact hopaque (by simp)
  | sqrt =>
      rw [zeroLike_iff] at hxy
      exact zeroLike_pack (alike_sqrt hxy)
  | putchard => exact .inl rfl
  | printd => exact .inl rfl

end Machine

end ScalarSsa
