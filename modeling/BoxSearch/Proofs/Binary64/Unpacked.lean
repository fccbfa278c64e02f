import Mathlib

/-!
# The place of a binary64 datum on the line

Unpacking a word gives a sign with a mantissa and an exponent in canonical form: the mantissa has
53 bits unless the exponent is the least one. In that form the comparison of exponents, then of
mantissas, is the comparison of the numbers, and packing is undone by unpacking.
-/
set_option autoImplicit false

namespace BoxSearch.Binary64

open Float.Model Float.Model.UnpackedFloat

structure Stored (m : Nat) (e : Int) : Prop where
  positive : 0 < m
  small : m < 2 ^ 53
  least : -1074 ≤ e
  greatest : e ≤ 971
  leading : 2 ^ 52 ≤ m ∨ e = -1074

def Canonical : UnpackedFloat → Prop
  | .finite _ m e _ => Stored m e
  | _ => True

/-- The number, or infinity, that a datum stands for. -/
noncomputable def place : UnpackedFloat → EReal
  | .infinity .positive => ⊤
  | .infinity .negative => ⊥
  | .notANumber => 0
  | .zero _ => 0
  | .finite .positive m e _ => (((m : ℝ) * 2 ^ e : ℝ) : EReal)
  | .finite .negative m e _ => ((-((m : ℝ) * 2 ^ e) : ℝ) : EReal)

/-! ## Words -/

theorem toNat_unpackMantissa (b : BitVec 64) :
    (@unpackMantissa Format.binary64 b).toNat = b.toNat % 2 ^ 52 := by
  simp [unpackMantissa]

theorem toNat_unpackExponent (b : BitVec 64) :
    (@unpackExponent Format.binary64 b).toNat = b.toNat / 2 ^ 52 % 2 ^ 11 := by
  simp [unpackExponent, Nat.shiftRight_eq_div_pow]

def ofFields (s : Sign) (field fraction : Nat) : UnpackedFloat :=
  if field = 2047 then (if fraction = 0 then .infinity s else .notANumber)
  else if field = 0 then
    (if h : fraction = 0 then .zero s else .finite s fraction (-1074) (Nat.pos_of_ne_zero h))
  else .finite s (2 ^ 52 + fraction) ((field : Int) - 1075) (by positivity)

def signOf (b : BitVec 64) : Sign := Sign.ofBitVec (@unpackSign Format.binary64 b)

theorem signOf_eq (b : BitVec 64) :
    signOf b = if b.toNat < 2 ^ 63 then .positive else .negative := by
  have bound := b.isLt
  have bit : (@unpackSign Format.binary64 b).toNat = b.toNat / 2 ^ 63 := by
    simp [unpackSign, Nat.shiftRight_eq_div_pow]
    omega
  have zero : @unpackSign Format.binary64 b = 0#1 ↔ b.toNat < 2 ^ 63 := by
    rw [← BitVec.toNat_inj, bit]
    simp only [BitVec.toNat_ofNat]
    omega
  simp only [signOf, Sign.ofBitVec, zero]

theorem unpack_eq (b : BitVec 64) :
    unpack Format.binary64 b =
      ofFields (signOf b) (b.toNat / 2 ^ 52 % 2 ^ 11) (b.toNat % 2 ^ 52) := by
  have ones : @unpackExponent Format.binary64 b = -1#11 ↔
      b.toNat / 2 ^ 52 % 2 ^ 11 = 2047 := by
    rw [← BitVec.toNat_inj, toNat_unpackExponent]
    exact Iff.rfl
  have zeros : @unpackExponent Format.binary64 b = 0#11 ↔
      b.toNat / 2 ^ 52 % 2 ^ 11 = 0 := by
    rw [← BitVec.toNat_inj, toNat_unpackExponent]
    exact Iff.rfl
  have fraction : @unpackMantissa Format.binary64 b = 0#52 ↔ b.toNat % 2 ^ 52 = 0 := by
    rw [← BitVec.toNat_inj, toNat_unpackMantissa]
    exact Iff.rfl
  have leading : (1#1 ++ @unpackMantissa Format.binary64 b).toNat =
      2 ^ 52 + b.toNat % 2 ^ 52 := by
    rw [BitVec.toNat_append, ← Nat.shiftLeft_add_eq_or_of_lt (BitVec.isLt _),
      toNat_unpackMantissa]
    rfl
  have bias : ((Format.binary64.exponentBias : Nat) : Int) +
      Format.binary64.mantissaBitsWithoutImplicit = 1075 := rfl
  unfold UnpackedFloat.unpack ofFields
  simp only [ones, zeros, fraction, leading, toNat_unpackMantissa, toNat_unpackExponent, bias]
  split
  · rfl
  · split
    · rename_i zero
      split
      · rfl
      · have least : ((b.toNat / 2 ^ 52 % 2 ^ 11 : Nat) : Int) - 1075 + 1 = -1074 := by omega
        simp only [least, signOf]
    · rfl

theorem canonical_ofFields {s : Sign} {field fraction : Nat} (hfield : field < 2 ^ 11)
    (hfraction : fraction < 2 ^ 52) : Canonical (ofFields s field fraction) := by
  unfold ofFields
  split
  · split <;> exact trivial
  · split
    · split
      · exact trivial
      · exact ⟨by omega, by omega, by omega, by omega, Or.inr rfl⟩
    · exact ⟨by omega, by omega, by omega, by omega, Or.inl (by omega)⟩

theorem canonical_unpack (b : BitVec 64) : Canonical (unpack Format.binary64 b) := by
  rw [unpack_eq]
  exact canonical_ofFields (Nat.mod_lt _ (by norm_num)) (Nat.mod_lt _ (by norm_num))

/-! ## Packing -/

theorem unpackSign_packComponents {spec : Format} (s : Sign) (e : BitVec spec.exponentBits)
    (m : BitVec spec.mantissaBitsWithoutImplicit) :
    unpackSign (packComponents spec s e m) = s.toBitVec := by
  ext i hi
  obtain rfl : i = 0 := by omega
  simp [unpackSign, packComponents, BitVec.getLsbD_append, BitVec.getElem_append]

theorem unpack_packComponents (s : Sign) (e : BitVec 11) (m : BitVec 52) :
    unpack Format.binary64 (packComponents Format.binary64 s e m) =
      ofFields s e.toNat m.toNat := by
  have sign : signOf (packComponents Format.binary64 s e m) = s := by
    rw [signOf, unpackSign_packComponents]
    cases s <;> rfl
  rw [unpack_eq, sign, ← toNat_unpackExponent, ← toNat_unpackMantissa,
    unpackExponent_packComponents, unpackMantissa_packComponents]

theorem unpack_pack {u : UnpackedFloat} (canonical : Canonical u) :
    unpack Format.binary64 (UnpackedFloat.pack Format.binary64 u) = u := by
  cases u with
  | infinity s => exact unpack_packComponents s _ _
  | notANumber => rfl
  | zero s => exact unpack_packComponents s _ _
  | finite s m e positive =>
      obtain ⟨-, small, least, greatest, leading⟩ := canonical
      have bias : e + (Format.binary64.exponentBias : Nat) +
          (Format.binary64.mantissaBitsWithoutImplicit : Nat) = e + 1075 := by
        change e + 1023 + 52 = e + 1075
        omega
      have fits : ¬2 ^ 11 ≤ (e + 1075).toNat + 1 := by omega
      have bits : Format.binary64.mantissaBits = 53 := rfl
      simp only [UnpackedFloat.pack, bias, fits, if_false, bits]
      by_cases normal : 2 ^ 52 ≤ m
      · have length : m.log2 + 1 = 53 := by
          have below := (Nat.log2_lt positive.ne').mpr small
          have above := (Nat.le_log2 positive.ne').mpr normal
          omega
        rw [if_pos length, unpack_packComponents]
        simp only [BitVec.toNat_ofNat]
        rw [Nat.mod_eq_of_lt (by omega), ofFields, if_neg (by omega), if_neg (by omega)]
        have mantissa : 2 ^ 52 + m % 2 ^ 52 = m := by omega
        have exponent : (((e + 1075).toNat : Nat) : Int) - 1075 = e := by omega
        simp only [mantissa, exponent]
      · obtain rfl : e = -1074 := leading.resolve_left normal
        have length : m.log2 + 1 ≠ 53 := by
          have below := (Nat.log2_lt positive.ne').mpr (Nat.lt_of_not_le normal)
          omega
        rw [if_neg length, unpack_packComponents]
        simp only [BitVec.toNat_ofNat]
        rw [Nat.mod_eq_of_lt (by omega : m < 2 ^ 52), ofFields, if_neg (by norm_num),
          if_pos (by norm_num), dif_neg positive.ne']

/-! ## Comparison -/

theorem scaled_compare {m m' : Nat} {e e' : Int} (h : Stored m e) (h' : Stored m' e') :
    ((compare e e').then (compare m m')).Compares ((m : ℝ) * 2 ^ e) ((m' : ℝ) * 2 ^ e') := by
  have below : ∀ {m m' : Nat} {e e' : Int}, Stored m e → Stored m' e' → e < e' →
      (m : ℝ) * 2 ^ e < (m' : ℝ) * 2 ^ e' := by
    intro m m' e e' h h' lower
    have normal : 2 ^ 52 ≤ m' := by
      have := h.least
      exact h'.leading.resolve_right (by omega)
    have small : (m : ℝ) < 2 ^ 53 := by exact_mod_cast h.small
    have large : (2 : ℝ) ^ 52 ≤ m' := by exact_mod_cast normal
    have power : (2 : ℝ) ^ (e + 1) ≤ 2 ^ e' := zpow_le_zpow_right₀ (by norm_num) (by omega)
    have positive : (0 : ℝ) < 2 ^ e := zpow_pos (by norm_num) e
    calc (m : ℝ) * 2 ^ e < 2 ^ 53 * 2 ^ e := mul_lt_mul_of_pos_right small positive
      _ = 2 ^ 52 * 2 ^ (e + 1) := by rw [zpow_add₀ (by norm_num)]; ring
      _ ≤ m' * 2 ^ e' := mul_le_mul large power (zpow_pos (by norm_num) _).le (Nat.cast_nonneg m')
  rcases lt_trichotomy e e' with lower | same | upper
  · rw [compare_lt_iff_lt.mpr lower]
    exact below h h' lower
  · subst same
    have positive : (0 : ℝ) < 2 ^ e := zpow_pos (by norm_num) e
    rw [compare_eq_iff_eq.mpr rfl, Ordering.eq_then]
    rcases lt_trichotomy m m' with less | same | greater
    · rw [compare_lt_iff_lt.mpr less]
      exact mul_lt_mul_of_pos_right (by exact_mod_cast less) positive
    · rw [compare_eq_iff_eq.mpr same, same]
      rfl
    · rw [compare_gt_iff_gt.mpr greater]
      exact mul_lt_mul_of_pos_right (by exact_mod_cast greater) positive
  · rw [compare_gt_iff_gt.mpr upper]
    exact below h' h upper

theorem compare_nan_left (v : UnpackedFloat) : UnpackedFloat.compare .notANumber v = none := by
  rw [UnpackedFloat.compare.eq_def]

theorem compare_nan_right (u : UnpackedFloat) : UnpackedFloat.compare u .notANumber = none := by
  cases u <;> rw [UnpackedFloat.compare.eq_def]

theorem scaled_pos {m : Nat} {e : Int} (positive : 0 < m) : (0 : ℝ) < (m : ℝ) * 2 ^ e :=
  mul_pos (by exact_mod_cast positive) (zpow_pos (by norm_num) e)

theorem scaled_neg {m : Nat} {e : Int} (positive : 0 < m) : -((m : ℝ) * 2 ^ e) < 0 :=
  neg_neg_of_pos (scaled_pos positive)

theorem compares_coe {o : Ordering} {x y : ℝ} (h : o.Compares x y) :
    o.Compares (x : EReal) (y : EReal) := by
  cases o with
  | lt => exact EReal.coe_lt_coe_iff.mpr h
  | eq => exact congrArg Real.toEReal h
  | gt => exact EReal.coe_lt_coe_iff.mpr h

theorem compares_neg {o : Ordering} {x y : ℝ} (h : o.Compares x y) : o.swap.Compares (-x) (-y) := by
  cases o with
  | lt => exact neg_lt_neg h
  | eq => exact congrArg Neg.neg h
  | gt => exact neg_lt_neg h

/-- Data that compare do so as their places. -/
theorem compares_place {u v : UnpackedFloat} {o : Ordering} (hu : Canonical u) (hv : Canonical v)
    (h : u.compare v = some o) : o.Compares (place u) (place v) := by
  by_cases u_nan : u = .notANumber
  · rw [u_nan, compare_nan_left] at h
    cases h
  by_cases v_nan : v = .notANumber
  · rw [v_nan, compare_nan_right] at h
    cases h
  rcases u with (_ | _) | _ | _ | ⟨(_ | _), m, e, m_pos⟩ <;>
    rcases v with (_ | _) | _ | _ | ⟨(_ | _), m', e', m_pos'⟩
  all_goals
    first
    | exact absurd rfl u_nan
    | exact absurd rfl v_nan
    | obtain rfl := Option.some.inj h
  all_goals
    first
    | rfl
    | exact bot_lt_top
    | exact EReal.bot_lt_coe _
    | exact EReal.coe_lt_top _
    | exact EReal.coe_pos.mpr (scaled_pos m_pos)
    | exact EReal.coe_pos.mpr (scaled_pos m_pos')
    | exact EReal.coe_neg'.mpr (scaled_neg m_pos)
    | exact EReal.coe_neg'.mpr (scaled_neg m_pos')
    | exact compares_coe (compares_neg (scaled_compare hu hv))
    | exact compares_coe (scaled_compare hu hv)
    | exact EReal.coe_lt_coe_iff.mpr ((scaled_neg m_pos).trans (scaled_pos m_pos'))
    | exact EReal.coe_lt_coe_iff.mpr ((scaled_neg m_pos').trans (scaled_pos m_pos))

theorem exists_compare {u v : UnpackedFloat} (hu : u ≠ .notANumber) (hv : v ≠ .notANumber) :
    ∃ o, u.compare v = some o := by
  rcases u with (_ | _) | _ | _ | ⟨(_ | _), _, _, _⟩ <;>
    rcases v with (_ | _) | _ | _ | ⟨(_ | _), _, _, _⟩
  all_goals
    first
    | exact absurd rfl hu
    | exact absurd rfl hv
    | exact ⟨_, rfl⟩

theorem compare_eq_iff {u v : UnpackedFloat} {o : Ordering} (hu : Canonical u)
    (hv : Canonical v) : u.compare v = some o ↔
      u ≠ .notANumber ∧ v ≠ .notANumber ∧ o.Compares (place u) (place v) := by
  constructor
  · intro h
    refine ⟨?_, ?_, compares_place hu hv h⟩
    · rintro rfl
      rw [compare_nan_left] at h
      cases h
    · rintro rfl
      rw [compare_nan_right] at h
      cases h
  · rintro ⟨u_number, v_number, related⟩
    obtain ⟨o', h⟩ := exists_compare u_number v_number
    rw [h, (compares_place hu hv h).inj related]

/-! ## Signs -/

theorem canonical_neg {u : UnpackedFloat} (h : Canonical u) : Canonical u.neg := by
  cases u <;> exact h

theorem canonical_abs {u : UnpackedFloat} (h : Canonical u) : Canonical u.abs := by
  cases u <;> exact h

theorem neg_eq_nan {u : UnpackedFloat} : u.neg = .notANumber ↔ u = .notANumber := by
  cases u <;> simp [UnpackedFloat.neg]

theorem abs_eq_nan {u : UnpackedFloat} : u.abs = .notANumber ↔ u = .notANumber := by
  cases u <;> simp [UnpackedFloat.abs]

theorem place_neg (u : UnpackedFloat) : place u.neg = -place u := by
  rcases u with (_ | _) | _ | _ | ⟨(_ | _), m, e, _⟩
  · exact EReal.neg_bot.symm
  · exact EReal.neg_top.symm
  · exact neg_zero.symm
  · exact neg_zero.symm
  · change (((m : ℝ) * 2 ^ e : ℝ) : EReal) = -((-((m : ℝ) * 2 ^ e) : ℝ) : EReal)
    rw [← EReal.coe_neg, neg_neg]
  · exact EReal.coe_neg _

theorem place_abs (u : UnpackedFloat) : place u.abs = max (place u) (-place u) := by
  rcases u with (_ | _) | _ | _ | ⟨(_ | _), m, e, positive⟩
  · change (⊤ : EReal) = max ⊥ (-⊥)
    rw [EReal.neg_bot, max_eq_right bot_le]
  · change (⊤ : EReal) = max ⊤ (-⊤)
    rw [max_eq_left le_top]
  · change (0 : EReal) = max 0 (-0)
    rw [neg_zero, max_self]
  · change (0 : EReal) = max 0 (-0)
    rw [neg_zero, max_self]
  · have below : (-((m : ℝ) * 2 ^ e)) ≤ (m : ℝ) * 2 ^ e :=
      (scaled_neg positive).le.trans (scaled_pos positive).le
    change (((m : ℝ) * 2 ^ e : ℝ) : EReal) = max ((-((m : ℝ) * 2 ^ e) : ℝ) : EReal)
      (-((-((m : ℝ) * 2 ^ e) : ℝ) : EReal))
    rw [← EReal.coe_neg, neg_neg, max_eq_right (EReal.coe_le_coe_iff.mpr below)]
  · have below : (-((m : ℝ) * 2 ^ e)) ≤ (m : ℝ) * 2 ^ e :=
      (scaled_neg positive).le.trans (scaled_pos positive).le
    change (((m : ℝ) * 2 ^ e : ℝ) : EReal) = max (((m : ℝ) * 2 ^ e : ℝ) : EReal)
      (-(((m : ℝ) * 2 ^ e : ℝ) : EReal))
    rw [← EReal.coe_neg, max_eq_left (EReal.coe_le_coe_iff.mpr below)]

end BoxSearch.Binary64
