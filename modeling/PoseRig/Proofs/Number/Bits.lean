import Mathlib
import PoseRig.Number.Scalar

/-!
# Scalars and their bits

A scalar is determined by its sign and its magnitude bits, and negating a finite one flips the sign
alone. Both follow from one law: taking the components of finite bits apart and packing them again
gives the same bits.
-/

set_option autoImplicit false

namespace PoseRig.Scalar

open Float.Model (Format)
open Float.Model.UnpackedFloat

abbrev signOf (b : BitVec 32) : BitVec 1 := @unpackSign Format.binary32 b

abbrev exponentOf (b : BitVec 32) : BitVec 8 := @unpackExponent Format.binary32 b

abbrev mantissaOf (b : BitVec 32) : BitVec 23 := @unpackMantissa Format.binary32 b

theorem toNat_packComponents (s : Sign) (e : BitVec 8) (m : BitVec 23) :
    (packComponents Format.binary32 s e m).toNat =
      (s.toBitVec.toNat * 2 ^ 8 + e.toNat) * 2 ^ 23 + m.toNat := by
  show (s.toBitVec ++ e ++ m).toNat = _
  rw [BitVec.toNat_append, BitVec.toNat_append, ← Nat.shiftLeft_add_eq_or_of_lt e.isLt,
    ← Nat.shiftLeft_add_eq_or_of_lt m.isLt, Nat.shiftLeft_eq, Nat.shiftLeft_eq]

theorem toNat_mantissaOf (b : BitVec 32) : (mantissaOf b).toNat = b.toNat % 2 ^ 23 := by
  simp [unpackMantissa]

theorem toNat_exponentOf (b : BitVec 32) : (exponentOf b).toNat = b.toNat / 2 ^ 23 % 2 ^ 8 := by
  simp [unpackExponent, Nat.shiftRight_eq_div_pow]

theorem toNat_signOf (b : BitVec 32) : (signOf b).toNat = b.toNat / 2 ^ 31 % 2 := by
  simp [unpackSign, Nat.shiftRight_eq_div_pow]

theorem toBitVec_ofBitVec (v : BitVec 1) : (Sign.ofBitVec v).toBitVec = v := by
  revert v
  decide

theorem packComponents_unpack (b : BitVec 32) :
    packComponents Format.binary32 (Sign.ofBitVec (signOf b)) (exponentOf b)
      (mantissaOf b) = b := by
  apply BitVec.eq_of_toNat_eq
  rw [toNat_packComponents, toBitVec_ofBitVec, toNat_mantissaOf, toNat_exponentOf, toNat_signOf]
  have hb := b.isLt
  omega

theorem pack_subnormal (s : Sign) (m : BitVec 23) (hm : 0 < m.toNat) :
    pack Format.binary32 (.finite s m.toNat (-149) hm) =
      packComponents Format.binary32 s 0#8 m := by
  have hlog : m.toNat.log2 < 23 := (Nat.log2_lt (Nat.ne_of_gt hm)).mpr m.isLt
  unfold pack
  dsimp only
  rw [if_neg (by decide), if_neg (by show ¬ m.toNat.log2 + 1 = 24; omega)]
  congr 1
  simp

theorem pack_normal (s : Sign) (e : BitVec 8) (m : BitVec 23) (he : e ≠ -1#8)
    (h : 0 < (1#1 ++ m).toNat) :
    pack Format.binary32 (.finite s (1#1 ++ m).toNat (e.toNat - 150) h) =
      packComponents Format.binary32 s e m := by
  have hm : (1#1 ++ m).toNat = 2 ^ 23 + m.toNat := by
    rw [BitVec.toNat_append, ← Nat.shiftLeft_add_eq_or_of_lt m.isLt, Nat.shiftLeft_eq]
    rfl
  have hlog : (1#1 ++ m).toNat.log2 = 23 := by
    rw [hm, Nat.log2_eq_iff (by omega)]
    have := m.isLt
    omega
  have hbias : ((e.toNat : Int) - 150 + (Format.binary32.exponentBias : Nat) + (23 : Nat)).toNat =
      e.toNat := by
    show ((e.toNat : Int) - 150 + (127 : Nat) + (23 : Nat)).toNat = e.toNat
    omega
  have hfinite : ¬ 2 ^ 8 ≤ e.toNat + 1 := by
    intro hle
    apply he
    apply BitVec.eq_of_toNat_eq
    have := e.isLt
    show e.toNat = 255
    omega
  unfold pack
  dsimp only
  rw [hbias, hlog, hm, if_neg hfinite, if_pos (show 23 + 1 = Format.binary32.mantissaBits from rfl)]
  congr 1
  · simp
  · apply BitVec.eq_of_toNat_eq
    have := m.isLt
    rw [BitVec.toNat_ofNat]
    omega

theorem pack_unpack {b : BitVec 32} (h : exponentOf b ≠ -1#8) :
    pack Format.binary32 (unpack Format.binary32 b) = b := by
  apply Eq.trans _ (packComponents_unpack b)
  unfold unpack
  dsimp only
  rw [if_neg h]
  by_cases he : @unpackExponent Format.binary32 b = 0#8
  · rw [if_pos he]
    by_cases hm : @unpackMantissa Format.binary32 b = 0#23
    · rw [dif_pos hm, exponentOf, he, mantissaOf, hm]
      rfl
    · have hexp : ((0#8).toNat : Int) - (Format.binary32.exponentBias + (23 : Nat)) + 1 = -149 := by
        decide
      rw [dif_neg hm, exponentOf, he, hexp]
      exact pack_subnormal _ _ _
  · rw [if_neg he]
    exact pack_normal _ _ _ h _

theorem exponentOf_ne {b : BitVec 32} (h : b.toNat % signBit < Binary.single.infinity) :
    exponentOf b ≠ -1#8 := by
  intro he
  have hexp : (exponentOf b).toNat = 255 := by
    rw [he]
    rfl
  rw [toNat_exponentOf] at hexp
  simp only [signBit, Binary.single] at h
  omega

theorem toBits_inj {x y : Scalar} (h : x.toBits = y.toBits) : x = y := by
  obtain ⟨⟨bx, hx⟩⟩ := x
  obtain ⟨⟨by', hy⟩⟩ := y
  obtain rfl : bx = by' := h
  rfl

theorem ofMagnitude_self {x : Scalar} (h : isFinite x = true) :
    ofMagnitude (isNegative x) (magnitude x) = x := by
  have hbits : (if isNegative x then magnitude x + signBit else magnitude x) = x.toBits.toNat := by
    have hlt := x.toBits.toNat_lt
    unfold isNegative magnitude signBit
    by_cases hs : 0x80000000 ≤ x.toBits.toNat
    · rw [if_pos (decide_eq_true hs)]
      omega
    · rw [if_neg (by simpa using hs)]
      omega
  rw [ofMagnitude, hbits, UInt32.ofNat_toNat]
  apply toBits_inj
  have hfinite : exponentOf x.toBits.toBitVec ≠ -1#8 := exponentOf_ne (of_decide_eq_true h)
  exact congrArg UInt32.ofBitVec (pack_unpack hfinite)

theorem unpack_neg {b c : BitVec 32} (hm : mantissaOf c = mantissaOf b)
    (he : exponentOf c = exponentOf b) (hb : signOf b = 0#1) (hc : signOf c = 1#1) :
    unpack Format.binary32 c = (unpack Format.binary32 b).neg := by
  have hm' : @unpackMantissa Format.binary32 c = @unpackMantissa Format.binary32 b := hm
  have he' : @unpackExponent Format.binary32 c = @unpackExponent Format.binary32 b := he
  have hb' : @unpackSign Format.binary32 b = 0#1 := hb
  have hc' : @unpackSign Format.binary32 c = 1#1 := hc
  unfold unpack
  dsimp only
  simp only [hm', he', hb', hc']
  by_cases h₁ : @unpackExponent Format.binary32 b = -1#8
  · rw [if_pos h₁, if_pos h₁]
    by_cases h₂ : @unpackMantissa Format.binary32 b = 0#23
    · rw [if_pos h₂, if_pos h₂]
      rfl
    · rw [if_neg h₂, if_neg h₂]
      rfl
  · rw [if_neg h₁, if_neg h₁]
    by_cases h₃ : @unpackExponent Format.binary32 b = 0#8
    · rw [if_pos h₃, if_pos h₃]
      by_cases h₂ : @unpackMantissa Format.binary32 b = 0#23
      · rw [dif_pos h₂, dif_pos h₂]
        rfl
      · rw [dif_neg h₂, dif_neg h₂]
        rfl
    · rw [if_neg h₃, if_neg h₃]
      rfl

theorem neg_ofMagnitude {bits : Nat} (h : bits < Binary.single.infinity) :
    -ofMagnitude false bits = ofMagnitude true bits := by
  have hlt : bits < 0x7F800000 := h
  have hb : (BitVec.ofNat 32 bits).toNat = bits := by
    rw [BitVec.toNat_ofNat, Nat.mod_eq_of_lt (by omega)]
  have hc : (BitVec.ofNat 32 (bits + signBit)).toNat = bits + 2 ^ 31 := by
    rw [BitVec.toNat_ofNat, Nat.mod_eq_of_lt (by unfold signBit; omega)]
    rfl
  have hfinite : exponentOf (BitVec.ofNat 32 bits) ≠ -1#8 := by
    apply exponentOf_ne
    rw [hb, Nat.mod_eq_of_lt (by unfold signBit; omega)]
    exact h
  have hneg : unpack Format.binary32 (BitVec.ofNat 32 (bits + signBit)) =
      (unpack Format.binary32 (BitVec.ofNat 32 bits)).neg := by
    apply unpack_neg
    · apply BitVec.eq_of_toNat_eq
      rw [toNat_mantissaOf, toNat_mantissaOf, hb, hc]
      omega
    · apply BitVec.eq_of_toNat_eq
      rw [toNat_exponentOf, toNat_exponentOf, hb, hc]
      omega
    · apply BitVec.eq_of_toNat_eq
      rw [toNat_signOf, hb, Nat.div_eq_of_lt (by omega)]
      rfl
    · apply BitVec.eq_of_toNat_eq
      rw [toNat_signOf, hc, Nat.add_div_right _ (by omega), Nat.div_eq_of_lt (by omega)]
      rfl
  apply toBits_inj
  apply congrArg UInt32.ofBitVec
  show pack Format.binary32 (unpack Format.binary32
      (pack Format.binary32 (unpack Format.binary32 (BitVec.ofNat 32 bits)))).neg =
    pack Format.binary32 (unpack Format.binary32 (BitVec.ofNat 32 (bits + signBit)))
  rw [pack_unpack hfinite, hneg]

end PoseRig.Scalar
