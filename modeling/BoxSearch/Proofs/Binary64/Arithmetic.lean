import BoxSearch.Proofs.Binary64.Order
import BoxSearch.Proofs.Interval.Split

/-!
# When binary64 arithmetic gives numbers

Rounding a number gives a number, so that a sum, a difference or a product only fails to be one
when the operation itself does: on infinities of opposite effect, or on zero times infinity.
-/
set_option autoImplicit false

namespace BoxSearch.Binary64

open Float.Model Float.Model.UnpackedFloat
open Scalar (IsNumber)

/-! ## Rounding and packing -/

theorem ofFields_number {s : Sign} {field fraction : Nat}
    (inside : field = 2047 → fraction = 0) : ofFields s field fraction ≠ .notANumber := by
  unfold ofFields
  split
  · rename_i last
    rw [if_pos (inside last)]
    exact UnpackedFloat.noConfusion
  · split
    · split <;> exact UnpackedFloat.noConfusion
    · exact UnpackedFloat.noConfusion

theorem unpack_pack_number {u : UnpackedFloat} (number : u ≠ .notANumber) :
    unpack Format.binary64 (UnpackedFloat.pack Format.binary64 u) ≠ .notANumber := by
  cases u with
  | notANumber => exact absurd rfl number
  | infinity s =>
      rw [UnpackedFloat.pack, packedInfinity, unpack_packComponents]
      exact ofFields_number fun _ => rfl
  | zero s =>
      rw [UnpackedFloat.pack, packedZero, unpack_packComponents]
      exact ofFields_number fun _ => rfl
  | finite s m e positive =>
      rw [UnpackedFloat.pack]
      dsimp only
      split
      · rw [packedInfinity, unpack_packComponents]
        exact ofFields_number fun _ => rfl
      · rename_i small
        split
        · rw [unpack_packComponents]
          refine ofFields_number fun last => ?_
          rw [BitVec.toNat_ofNat] at last
          omega
        · rw [unpack_packComponents]
          exact ofFields_number fun last => absurd last (by decide)

theorem roundWithAccuracy_number (spec : Format) (s : Sign) (m : Nat) (e : Int) (a : Accuracy) :
    roundWithAccuracy spec s m e a ≠ .notANumber := by
  rw [roundWithAccuracy]
  dsimp only
  split <;> exact UnpackedFloat.noConfusion

theorem normalize_number (spec : Format) (m e : Int) (s : Sign) :
    normalize spec m e s ≠ .notANumber := by
  unfold UnpackedFloat.normalize
  split
  · exact roundWithAccuracy_number _ _ _ _ _
  · exact UnpackedFloat.noConfusion
  · exact roundWithAccuracy_number _ _ _ _ _

/-! ## The operations -/

theorem add_number {u v : UnpackedFloat} (finite : u.isFinite = true) (number : v ≠ .notANumber) :
    UnpackedFloat.add Format.binary64 u v ≠ .notANumber := by
  cases u with
  | infinity | notANumber => cases finite
  | zero s =>
      cases v with
      | notANumber => exact absurd rfl number
      | infinity | finite => exact UnpackedFloat.noConfusion
      | zero s' =>
          rw [UnpackedFloat.add]
          split <;> exact UnpackedFloat.noConfusion
  | finite s m e positive =>
      cases v with
      | notANumber => exact absurd rfl number
      | infinity | zero => exact UnpackedFloat.noConfusion
      | finite => exact normalize_number _ _ _ _

theorem sub_eq_add (spec : Format) (u v : UnpackedFloat) :
    UnpackedFloat.sub spec u v = UnpackedFloat.add spec u v.neg := by
  cases u with
  | infinity | notANumber | zero => cases v <;> rfl
  | finite s m e =>
      cases v with
      | infinity | notANumber | zero => rfl
      | finite t n f =>
          have opposite (j k : Int) : s.apply j - t.apply k = s.apply j + (-t).apply k := by
            cases t
            · exact Int.sub_neg (s.apply j) k
            · exact Int.sub_eq_add_neg
          rw [UnpackedFloat.sub, UnpackedFloat.neg, UnpackedFloat.add]
          dsimp only
          rw [opposite]

theorem sub_number {u v : UnpackedFloat} (finite : u.isFinite = true) (number : v ≠ .notANumber) :
    UnpackedFloat.sub Format.binary64 u v ≠ .notANumber := by
  rw [sub_eq_add]
  exact add_number finite (neg_eq_nan.not.mpr number)

theorem mul_number {s : Sign} {m : Nat} {e : Int} {positive : 0 < m} {v : UnpackedFloat}
    (number : v ≠ .notANumber) :
    UnpackedFloat.mul Format.binary64 (.finite s m e positive) v ≠ .notANumber := by
  cases v with
  | notANumber => exact absurd rfl number
  | infinity | zero => exact UnpackedFloat.noConfusion
  | finite => exact roundWithAccuracy_number _ _ _ _ _

theorem mul_number_of_finite {u v : UnpackedFloat} (hu : u.isFinite = true)
    (hv : v.isFinite = true) : UnpackedFloat.mul Format.binary64 u v ≠ .notANumber := by
  cases u with
  | infinity | notANumber => cases hu
  | zero s =>
      cases v with
      | infinity | notANumber => cases hv
      | zero | finite => exact UnpackedFloat.noConfusion
  | finite s m e positive =>
      refine mul_number fun undefined => ?_
      rw [undefined] at hv
      cases hv

theorem datum_add (x y : Float) : datum (x + y) =
    unpack Format.binary64 (UnpackedFloat.pack Format.binary64
      (UnpackedFloat.add Format.binary64 (datum x) (datum y))) := rfl

theorem datum_sub (x y : Float) : datum (x - y) =
    unpack Format.binary64 (UnpackedFloat.pack Format.binary64
      (UnpackedFloat.sub Format.binary64 (datum x) (datum y))) := rfl

theorem datum_mul (x y : Float) : datum (x * y) =
    unpack Format.binary64 (UnpackedFloat.pack Format.binary64
      (UnpackedFloat.mul Format.binary64 (datum x) (datum y))) := rfl

theorem isFinite_datum {x : Float} (finite : Scalar.isFinite x = true) :
    (datum x).isFinite = true := by
  obtain ⟨number, not_top, not_bottom⟩ := Scalar.isFinite_iff.mp finite
  rw [isNumber_iff] at number
  change place (datum x) ≠ ⊤ at not_top
  change place (datum x) ≠ ⊥ at not_bottom
  rcases h : datum x with (_ | _) | _ | _ | _
  · exact absurd (congrArg place h) not_bottom
  · exact absurd (congrArg place h) not_top
  · exact absurd h number
  · rfl
  · rfl

theorem finite_of_between {x : Float} (number : IsNumber x) (positive : 0 < value x)
    (below : value x < ⊤) :
    ∃ (s : Sign) (m : Nat) (e : Int) (h : 0 < m), datum x = .finite s m e h := by
  rw [isNumber_iff] at number
  rw [value] at positive below
  rcases h : datum x with (_ | _) | _ | _ | ⟨s, m, e, m_pos⟩
  · rw [h] at positive
    exact absurd positive not_lt_bot
  · rw [h] at below
    exact absurd below (lt_irrefl ⊤)
  · exact absurd h number
  · rw [h] at positive
    exact absurd positive (lt_irrefl 0)
  · exact ⟨s, m, e, m_pos, rfl⟩

instance : SplittingScalar Float where
  number_interpolate := by
    intro x y r hx hy _ positive below
    obtain ⟨-, number, positive⟩ := OrderedScalar.lt_iff.mp positive
    obtain ⟨-, -, below⟩ := OrderedScalar.lt_iff.mp below
    rw [OrderedScalar.value_zero] at positive
    obtain ⟨s, m, e, m_pos, ratio⟩ :=
      finite_of_between number positive (below.trans_le le_top)
    have hy := sub_number (isFinite_datum hy)
      ((isNumber_iff x).mp (Scalar.isFinite_iff.mp hx).1)
    rw [isNumber_iff, datum_add]
    refine unpack_pack_number (add_number (isFinite_datum hx) ?_)
    rw [datum_mul, ratio]
    refine unpack_pack_number (mul_number ?_)
    rw [datum_sub]
    exact unpack_pack_number hy

end BoxSearch.Binary64
