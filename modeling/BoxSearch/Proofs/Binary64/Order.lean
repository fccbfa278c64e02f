import BoxSearch.Proofs.Scalar.Order
import BoxSearch.Proofs.Binary64.Unpacked
import BoxSearch.Binary64.Directed

/-!
# The order of binary64 numbers

Words without a sign ascend together with the numbers that they store, up to the infinity. So the
adjacent numbers are those of the adjacent words, and the total order sorts numbers by place.
-/
set_option autoImplicit false

namespace BoxSearch.Binary64

open Float.Model Float.Model.UnpackedFloat
open Scalar (IsNumber)

/-! ## The order of the words -/

def rung (k : Nat) : UnpackedFloat := ofFields .positive (k / 2 ^ 52) (k % 2 ^ 52)

def top : Nat := 2047 * 2 ^ 52

theorem rung_top : rung top = .infinity .positive := rfl

theorem rung_zero : rung 0 = .zero .positive := rfl

/-- The words between zero and infinity store a mantissa above the ones of the lower words. -/
theorem rung_finite {k : Nat} (positive : 0 < k) (below : k < top) :
    ∃ (m : Nat) (e : Int) (h : 0 < m), rung k = .finite .positive m e h ∧ Stored m e ∧
      ((k < 2 ^ 52 ∧ e = -1074 ∧ m = k) ∨
        (2 ^ 52 ≤ k ∧ e = ((k / 2 ^ 52 : Nat) : Int) - 1075 ∧ m = 2 ^ 52 + k % 2 ^ 52)) := by
  rw [top] at below
  have stored : Canonical (rung k) := canonical_ofFields (by omega) (Nat.mod_lt _ (by norm_num))
  rw [rung, ofFields, if_neg (by omega)] at stored ⊢
  by_cases small : k < 2 ^ 52
  · have fraction : k % 2 ^ 52 = k := Nat.mod_eq_of_lt small
    rw [if_pos (by omega), dif_neg (by omega)] at stored ⊢
    exact ⟨_, _, by omega, rfl, stored, Or.inl ⟨small, rfl, fraction⟩⟩
  · rw [if_neg (by omega)] at stored ⊢
    exact ⟨_, _, by omega, rfl, stored, Or.inr ⟨by omega, rfl, rfl⟩⟩

theorem place_rung_lt {k k' : Nat} (less : k < k') (bounded : k' ≤ top) :
    place (rung k) < place (rung k') := by
  rcases bounded.eq_or_lt with rfl | below
  · rw [rung_top]
    rcases Nat.eq_zero_or_pos k with rfl | positive
    · exact EReal.zero_lt_top
    · obtain ⟨m, e, h, datum, -⟩ := rung_finite positive less
      rw [datum]
      exact EReal.coe_lt_top _
  · obtain ⟨m', e', h', datum', stored', fields'⟩ := rung_finite (by omega) below
    rcases Nat.eq_zero_or_pos k with rfl | positive
    · rw [datum']
      exact EReal.coe_pos.mpr (scaled_pos h')
    · obtain ⟨m, e, h, datum, stored, fields⟩ := rung_finite positive (less.trans below)
      rw [datum, datum']
      refine EReal.coe_lt_coe_iff.mpr ?_
      have order : (compare e e').then (compare m m') = .lt := by
        rcases lt_trichotomy e e' with lower | same | upper
        · rw [compare_lt_iff_lt.mpr lower]
          rfl
        · rw [compare_eq_iff_eq.mpr same, Ordering.eq_then, compare_lt_iff_lt]
          omega
        · omega
      have related := scaled_compare stored stored'
      rw [order] at related
      exact related

theorem place_rung_le {k k' : Nat} (le : k ≤ k') (bounded : k' ≤ top) :
    place (rung k) ≤ place (rung k') := by
  rcases le.eq_or_lt with rfl | less
  · exact le_rfl
  · exact (place_rung_lt less bounded).le

theorem ofFields_negative (field fraction : Nat) :
    ofFields .negative field fraction = (ofFields .positive field fraction).neg := by
  unfold ofFields
  split
  · split <;> rfl
  · split
    · split <;> rfl
    · rfl

theorem rung_eq_nan {k : Nat} (bounded : k < 2 ^ 63) : rung k = .notANumber ↔ top < k := by
  rw [rung, ofFields, top]
  by_cases last : k / 2 ^ 52 = 2047
  · rw [if_pos last]
    split
    · simp only [reduceCtorEq, false_iff]
      omega
    · simp only [true_iff]
      omega
  · rw [if_neg last]
    have outside : ¬2047 * 2 ^ 52 < k := by omega
    rw [iff_false_right outside]
    split
    · split <;> exact UnpackedFloat.noConfusion
    · exact UnpackedFloat.noConfusion

/-! ## Numbers -/

def datum (x : Float) : UnpackedFloat := x.toModel.unpack

def rungOf (x : Float) : Nat := x.toBits.toNat % 2 ^ 63

theorem canonical_datum (x : Float) : Canonical (datum x) := canonical_unpack _

theorem datum_ofModel_pack {u : UnpackedFloat} (canonical : Canonical u) :
    datum (.ofModel (Float.Model.pack u)) = u := unpack_pack canonical

theorem datum_ofBits (b : UInt64) :
    datum (Float.ofBits b) = UnpackedFloat.unpack Format.binary64 b.toBitVec :=
  unpack_pack (canonical_unpack _)

theorem datum_neg (x : Float) : datum (-x) = (datum x).neg :=
  datum_ofModel_pack (canonical_neg (canonical_datum x))

theorem datum_abs (x : Float) : datum x.abs = (datum x).abs :=
  datum_ofModel_pack (canonical_abs (canonical_datum x))

theorem unpack_word (b : UInt64) :
    UnpackedFloat.unpack Format.binary64 b.toBitVec =
      if b.toNat < 2 ^ 63 then rung (b.toNat % 2 ^ 63) else (rung (b.toNat % 2 ^ 63)).neg := by
  have word : b.toBitVec.toNat = b.toNat := rfl
  have bound := b.toNat_lt
  have field : b.toNat % 2 ^ 63 / 2 ^ 52 = b.toNat / 2 ^ 52 % 2 ^ 11 := by omega
  have fraction : b.toNat % 2 ^ 63 % 2 ^ 52 = b.toNat % 2 ^ 52 := by omega
  rw [unpack_eq, signOf_eq, word, rung, field, fraction]
  split
  · rfl
  · exact ofFields_negative _ _

theorem lt_iff_compare (x y : Float) :
    x < y ↔ (datum x).compare (datum y) = some .lt := by
  change (decide (x.toModel.unpack.lt y.toModel.unpack = true)) = true ↔ _
  rw [decide_eq_true_iff, UnpackedFloat.lt, beq_iff_eq]
  rfl

theorem le_iff_compare (x y : Float) :
    x ≤ y ↔ (datum x).compare (datum y) = some .lt ∨ (datum x).compare (datum y) = some .eq := by
  change (decide (x.toModel.unpack.le y.toModel.unpack = true)) = true ↔ _
  rw [decide_eq_true_iff, UnpackedFloat.le]
  change ((datum x).compare (datum y)).any (·.isLE) = true ↔ _
  rcases (datum x).compare (datum y) with _ | (_ | _ | _) <;> simp

theorem beq_iff_compare (x y : Float) :
    (x == y) = true ↔ (datum x).compare (datum y) = some .eq := by
  change (x.toModel.unpack.compare y.toModel.unpack == some .eq) = true ↔ _
  rw [beq_iff_eq]
  rfl

theorem isNumber_iff (x : Float) : IsNumber x ↔ datum x ≠ .notANumber := by
  have self : (x == x) = true ↔ datum x ≠ .notANumber := by
    rw [beq_iff_compare, compare_eq_iff (canonical_datum x) (canonical_datum x)]
    exact ⟨fun h => h.1, fun h => ⟨h, h, rfl⟩⟩
  rw [← self, IsNumber, Scalar.isNaN, Bool.not_eq_false']

noncomputable def value (x : Float) : EReal := place (datum x)

theorem lt_iff (x y : Float) : x < y ↔ IsNumber x ∧ IsNumber y ∧ value x < value y := by
  rw [lt_iff_compare, compare_eq_iff (canonical_datum x) (canonical_datum y), isNumber_iff,
    isNumber_iff]
  rfl

theorem beq_iff (x y : Float) :
    (x == y) = true ↔ IsNumber x ∧ IsNumber y ∧ value x = value y := by
  rw [beq_iff_compare, compare_eq_iff (canonical_datum x) (canonical_datum y), isNumber_iff,
    isNumber_iff]
  rfl

theorem le_iff (x y : Float) : x ≤ y ↔ IsNumber x ∧ IsNumber y ∧ value x ≤ value y := by
  rw [le_iff_compare, compare_eq_iff (canonical_datum x) (canonical_datum y),
    compare_eq_iff (canonical_datum x) (canonical_datum y), ← isNumber_iff, ← isNumber_iff,
    le_iff_lt_or_eq, ← and_or_left, ← and_or_left]
  rfl

/-! ## Adjacent numbers -/

theorem datum_eq_rung (x : Float) :
    datum x = if x.toBits.toNat < 2 ^ 63 then rung (rungOf x) else (rung (rungOf x)).neg :=
  unpack_word x.toBits

theorem number_iff_rungOf (x : Float) : IsNumber x ↔ rungOf x ≤ top := by
  have bounded : rungOf x < 2 ^ 63 := Nat.mod_lt _ (by norm_num)
  have nan : datum x = .notANumber ↔ top < rungOf x := by
    rw [datum_eq_rung]
    split
    · exact rung_eq_nan bounded
    · rw [neg_eq_nan]
      exact rung_eq_nan bounded
  rw [isNumber_iff, Ne, nan, not_lt]

theorem value_eq_rung (x : Float) :
    value x = if x.toBits.toNat < 2 ^ 63 then place (rung (rungOf x))
      else -place (rung (rungOf x)) := by
  rw [value, datum_eq_rung]
  split
  · rfl
  · exact place_neg _

theorem value_ofBits (b : UInt64) :
    value (Float.ofBits b) = if b.toNat < 2 ^ 63 then place (rung (b.toNat % 2 ^ 63))
      else -place (rung (b.toNat % 2 ^ 63)) := by
  rw [value, datum_ofBits, unpack_word]
  split
  · rfl
  · exact place_neg _

theorem number_ofBits (b : UInt64) (bounded : b.toNat % 2 ^ 63 ≤ top) :
    IsNumber (Float.ofBits b) := by
  have small : b.toNat % 2 ^ 63 < 2 ^ 63 := Nat.mod_lt _ (by norm_num)
  rw [isNumber_iff, datum_ofBits, unpack_word]
  split
  · rw [Ne, rung_eq_nan small, not_lt]
    exact bounded
  · rw [Ne, neg_eq_nan, rung_eq_nan small, not_lt]
    exact bounded

theorem isNaN_eq_false {x : Float} (number : IsNumber x) : x.isNaN = false := by
  rw [isNumber_iff] at number
  change (datum x).isNaN = false
  cases h : datum x with
  | notANumber => exact absurd h number
  | infinity | zero | finite => rfl

theorem infinity_toBits : infinity.toBits.toNat = top := by decide +kernel

theorem neg_infinity_toBits : (-infinity).toBits.toNat = 2 ^ 63 + top := by decide +kernel

theorem value_infinity : value infinity = ⊤ := by
  have word : top % 2 ^ 63 = top := by decide
  have positive : top < 2 ^ 63 := by decide
  rw [value_eq_rung, rungOf, infinity_toBits, word, if_pos positive, rung_top]
  rfl

theorem value_word (x : Float) : value x = value (Float.ofBits x.toBits) := by
  rw [value_eq_rung, value_ofBits, rungOf]

theorem value_zero_word {b : UInt64} (zero : b.toNat = 0 ∨ b.toNat = 2 ^ 63) :
    value (Float.ofBits b) = 0 := by
  have start : b.toNat % 2 ^ 63 = 0 := by omega
  rw [value_ofBits, start, rung_zero]
  split
  · rfl
  · exact neg_zero

theorem ascend_positive {b b' : UInt64} (less : b.toNat < b'.toNat) (bounded : b'.toNat ≤ top) :
    IsNumber (Float.ofBits b) ∧ IsNumber (Float.ofBits b') ∧
      value (Float.ofBits b) < value (Float.ofBits b') := by
  have limit : top = 2047 * 2 ^ 52 := rfl
  refine ⟨number_ofBits b (by omega), number_ofBits b' (by omega), ?_⟩
  rw [value_ofBits, value_ofBits, if_pos (by omega), if_pos (by omega)]
  exact place_rung_lt (by omega) (by omega)

theorem ascend_negative {b b' : UInt64} (less : b'.toNat < b.toNat) (sign : 2 ^ 63 ≤ b'.toNat)
    (bounded : b.toNat ≤ 2 ^ 63 + top) :
    IsNumber (Float.ofBits b) ∧ IsNumber (Float.ofBits b') ∧
      value (Float.ofBits b) < value (Float.ofBits b') := by
  have limit : top = 2047 * 2 ^ 52 := rfl
  refine ⟨number_ofBits b (by omega), number_ofBits b' (by omega), ?_⟩
  rw [value_ofBits, value_ofBits, if_neg (by omega), if_neg (by omega)]
  exact EReal.neg_lt_neg_iff.mpr (place_rung_lt (by omega) (by omega))

theorem word_of_number {x : Float} (number : IsNumber x) :
    x.toBits.toNat ≤ top ∨ 2 ^ 63 ≤ x.toBits.toNat ∧ x.toBits.toNat ≤ 2 ^ 63 + top := by
  have bounded := (number_iff_rungOf x).mp number
  have word := x.toBits.toNat_lt
  have limit : top = 2047 * 2 ^ 52 := rfl
  rw [rungOf] at bounded
  omega

theorem toNat_succ {b : UInt64} (room : b.toNat < 2 ^ 64 - 1) :
    (b + 1).toNat = b.toNat + 1 := by
  rw [UInt64.toNat_add]
  change (b.toNat + 1) % 2 ^ 64 = _
  omega

theorem toNat_pred {b : UInt64} (positive : 0 < b.toNat) : (b - 1).toNat = b.toNat - 1 := by
  rw [UInt64.toNat_sub_of_le _ _ (by rw [UInt64.le_iff_toNat_le]; exact positive)]
  rfl

/-- A number below the infinity lies below the next one. -/
theorem nextUp_above {x : Float} (number : IsNumber x) (below : x.toBits ≠ infinity.toBits) :
    IsNumber (nextUp x) ∧ value x < value (nextUp x) := by
  have word := word_of_number number
  have limit : top = 2047 * 2 ^ 52 := rfl
  have sign : signBit.toNat = 2 ^ 63 := rfl
  have not_top : x.toBits.toNat ≠ top := fun same =>
    below (UInt64.toNat_inj.mp (same.trans infinity_toBits.symm))
  rw [value_word x]
  unfold nextUp
  simp only [isNaN_eq_false number, Bool.false_or, beq_iff_eq, below, if_false, Bool.or_eq_true,
    UInt64.lt_iff_toNat_lt, ← UInt64.toNat_inj, sign, UInt64.toNat_zero]
  split
  · rename_i zero
    have one : (1 : UInt64).toNat = 1 := rfl
    have step : IsNumber (Float.ofBits 0) ∧ IsNumber (Float.ofBits 1) ∧
        value (Float.ofBits 0) < value (Float.ofBits 1) :=
      ascend_positive (by rw [one]; decide) (by omega)
    rw [value_zero_word (Or.inl rfl)] at step
    rw [value_zero_word zero]
    exact step.2
  · split
    · have next : (x.toBits + 1).toNat = x.toBits.toNat + 1 := toNat_succ (by omega)
      exact (ascend_positive (by omega) (by omega)).2
    · have next : (x.toBits - 1).toNat = x.toBits.toNat - 1 := toNat_pred (by omega)
      exact (ascend_negative (by omega) (by omega) (by omega)).2

theorem nextDown_below {x : Float} (number : IsNumber x)
    (above : x.toBits ≠ (-infinity).toBits) :
    IsNumber (nextDown x) ∧ value (nextDown x) < value x := by
  have word := word_of_number number
  have limit : top = 2047 * 2 ^ 52 := rfl
  have sign : signBit.toNat = 2 ^ 63 := rfl
  have not_bottom : x.toBits.toNat ≠ 2 ^ 63 + top := fun same =>
    above (UInt64.toNat_inj.mp (same.trans neg_infinity_toBits.symm))
  rw [value_word x]
  unfold nextDown
  simp only [isNaN_eq_false number, Bool.false_or, beq_iff_eq, above, if_false, Bool.or_eq_true,
    UInt64.lt_iff_toNat_lt, ← UInt64.toNat_inj, sign, UInt64.toNat_zero]
  split
  · rename_i zero
    have next : (signBit + 1).toNat = 2 ^ 63 + 1 := rfl
    have step : IsNumber (Float.ofBits (signBit + 1)) ∧ IsNumber (Float.ofBits signBit) ∧
        value (Float.ofBits (signBit + 1)) < value (Float.ofBits signBit) :=
      ascend_negative (by omega) (by omega) (by omega)
    rw [value_zero_word (Or.inr sign)] at step
    rw [value_zero_word zero]
    exact ⟨step.1, step.2.2⟩
  · split
    · have next : (x.toBits - 1).toNat = x.toBits.toNat - 1 := toNat_pred (by omega)
      obtain ⟨lower, -, less⟩ : IsNumber (Float.ofBits (x.toBits - 1)) ∧
          IsNumber (Float.ofBits x.toBits) ∧ _ := ascend_positive (by omega) (by omega)
      exact ⟨lower, less⟩
    · have next : (x.toBits + 1).toNat = x.toBits.toNat + 1 := toNat_succ (by omega)
      obtain ⟨lower, -, less⟩ : IsNumber (Float.ofBits (x.toBits + 1)) ∧
          IsNumber (Float.ofBits x.toBits) ∧ _ :=
        ascend_negative (by omega) (by omega) (by omega)
      exact ⟨lower, less⟩

/-! ## The total order -/

theorem toNat_rank (x : Float) :
    (rank x).toNat = if x.toBits.toNat < 2 ^ 63 then x.toBits.toNat + 2 ^ 63
      else 2 ^ 64 - 1 - x.toBits.toNat := by
  have bound := x.toBits.toNat_lt
  have sign : signBit.toNat = 2 ^ 63 := rfl
  unfold rank
  simp only [UInt64.lt_iff_toNat_lt, sign]
  split
  · rw [UInt64.toNat_add, sign]
    omega
  · rw [UInt64.toNat_not]
    rfl

theorem totalCompare_isLE (x y : Float) :
    (totalCompare x y).isLE = true ↔ (rank x).toNat ≤ (rank y).toNat := by
  rw [totalCompare, ← UInt64.le_iff_toNat_le]
  exact Std.isLE_compare

theorem place_rung_nonneg (k : Nat) (bounded : k ≤ top) : 0 ≤ place (rung k) :=
  place_rung_le (Nat.zero_le k) bounded

theorem value_le_of_rank {x y : Float} (hx : IsNumber x) (hy : IsNumber y)
    (h : (rank x).toNat ≤ (rank y).toNat) : value x ≤ value y := by
  have limit : top = 2047 * 2 ^ 52 := rfl
  have wordX := word_of_number hx
  have wordY := word_of_number hy
  rw [toNat_rank, toNat_rank] at h
  rw [value_eq_rung, value_eq_rung, rungOf, rungOf]
  by_cases x_positive : x.toBits.toNat < 2 ^ 63
  · rw [if_pos x_positive] at h ⊢
    by_cases y_positive : y.toBits.toNat < 2 ^ 63
    · rw [if_pos y_positive] at h ⊢
      exact place_rung_le (by omega) (by omega)
    · rw [if_neg y_positive] at h
      omega
  · rw [if_neg x_positive] at h ⊢
    by_cases y_positive : y.toBits.toNat < 2 ^ 63
    · rw [if_pos y_positive]
      have below : -place (rung (x.toBits.toNat % 2 ^ 63)) ≤ 0 := by
        rw [EReal.neg_le, neg_zero]
        exact place_rung_nonneg _ (by omega)
      exact below.trans (place_rung_nonneg _ (by omega))
    · rw [if_neg y_positive] at h ⊢
      exact EReal.neg_le_neg_iff.mpr (place_rung_le (by omega) (by omega))

/-! ## The instances -/

theorem zero_toBits : (0 : Float).toBits = 0 := by decide +kernel

theorem scalar_zero : (Scalar.ofNat 0 : Float) = 0 := by decide +kernel

theorem value_zero : value 0 = 0 := by
  rw [value_word, zero_toBits]
  exact value_zero_word (Or.inl rfl)

theorem unit_toBits : (Scalar.ofNat 1 : Float).toBits.toNat = 1023 * 2 ^ 52 := by decide +kernel

theorem value_unit : value (Scalar.ofNat 1 : Float) = 1 := by
  have same : (1 : EReal) = ((1 : ℝ) : EReal) := rfl
  have positive : (Scalar.ofNat 1 : Float).toBits.toNat < 2 ^ 63 := by
    rw [unit_toBits]
    norm_num
  rw [value_eq_rung, if_pos positive, rungOf, unit_toBits, same]
  change ((((2 ^ 52 + 0 : Nat) : ℝ) * 2 ^ (1023 - 1075 : Int) : ℝ) : EReal) = _
  norm_num

theorem number_largest : IsNumber largest :=
  number_ofBits _ (by decide +kernel)

theorem number_nextUp {x : Float} (number : IsNumber x) : IsNumber (nextUp x) := by
  by_cases last : x.toBits = infinity.toBits
  · have same : nextUp x = x := by
      unfold nextUp
      simp [last]
    rw [same]
    exact number
  · exact (nextUp_above number last).1

noncomputable instance : OrderedScalar Float where
  value := value
  lt_iff := lt_iff _ _
  le_iff := le_iff _ _
  beq_iff := beq_iff _ _
  number_infinity := number_ofBits _ (by decide +kernel)
  value_infinity := value_infinity
  number_zero := by
    change IsNumber (Scalar.ofNat 0 : Float)
    rw [scalar_zero, number_iff_rungOf, rungOf, zero_toBits]
    exact Nat.zero_le _
  value_zero := by
    change value (Scalar.ofNat 0 : Float) = 0
    rw [scalar_zero, value_zero]
  number_one := by
    change IsNumber (Scalar.ofNat 1 : Float)
    rw [number_iff_rungOf, rungOf, unit_toBits, top]
    norm_num
  value_one := value_unit
  number_neg := by
    intro x number
    rw [isNumber_iff] at number ⊢
    rw [datum_neg, Ne, neg_eq_nan]
    exact number
  value_neg := by
    intro x _
    rw [value, datum_neg]
    exact place_neg _
  number_magnitude := by
    intro x
    rw [isNumber_iff, isNumber_iff]
    change datum x.abs ≠ _ ↔ _
    rw [datum_abs, Ne, abs_eq_nan]
  value_magnitude := by
    intro x _
    change place (datum x.abs) = _
    rw [datum_abs]
    exact place_abs _
  number_largest := number_largest
  number_nextUp := number_nextUp
  totalCompare_swap x y := by
    change (compare (rank x) (rank y)).swap = compare (rank y) (rank x)
    exact Std.OrientedCmp.eq_swap.symm
  totalCompare_trans := by
    intro x y z
    change (totalCompare x y).isLE = true → (totalCompare y z).isLE = true →
      (totalCompare x z).isLE = true
    rw [totalCompare_isLE, totalCompare_isLE, totalCompare_isLE]
    omega
  value_le_of_totalCompare := by
    intro x y hx hy h
    exact value_le_of_rank hx hy ((totalCompare_isLE x y).mp h)

instance : SteppingScalar Float where
  lt_nextUp := by
    intro x finite
    obtain ⟨number, not_top, -⟩ := Scalar.isFinite_iff.mp finite
    have below : x.toBits ≠ infinity.toBits := by
      intro same
      refine not_top ?_
      change value x = ⊤
      rw [value_word, same, ← value_word, value_infinity]
    exact (Scalar.lt_iff_value number (number_nextUp number)).mpr (nextUp_above number below).2
  nextDown_lt := by
    intro x finite
    obtain ⟨number, -, not_bottom⟩ := Scalar.isFinite_iff.mp finite
    have above : x.toBits ≠ (-infinity).toBits := by
      intro same
      refine not_bottom ?_
      change value x = ⊥
      rw [value_word, same, ← value_word]
      have bottom : OrderedScalar.value (-Scalar.infinity : Float) = ⊥ := Scalar.value_negInfinity
      exact bottom
    obtain ⟨lower, less⟩ := nextDown_below number above
    exact (Scalar.lt_iff_value lower number).mpr less

end BoxSearch.Binary64
