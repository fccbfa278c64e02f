import BoxSearch.Proofs.Interval.Directed

/-!
# Integers with infinities

The smallest arithmetic in which all laws hold: sums and products of integers are exact, and every
integer has a neighbour on either side. Quotients, literals and elementary functions are rounded
down, the exponential and the logarithm being those to the base two.
-/
set_option autoImplicit false

namespace BoxSearch

open Scalar (IsNumber)

inductive ExtendedInt where
  | bot
  | int (z : Int)
  | top
deriving DecidableEq, Repr

namespace ExtendedInt

def leq : ExtendedInt → ExtendedInt → Bool
  | bot, _ => true
  | _, top => true
  | int z, int w => decide (z ≤ w)
  | _, _ => false

def neg : ExtendedInt → ExtendedInt
  | bot => top
  | int z => int (-z)
  | top => bot

/-- The sum, where the infinity on the left wins over the opposite one. -/
def add : ExtendedInt → ExtendedInt → ExtendedInt
  | bot, _ => bot
  | top, _ => top
  | int _, bot => bot
  | int z, int w => int (z + w)
  | int _, top => top

def ofSign (sign : Int) : ExtendedInt :=
  if 0 < sign then top else if sign < 0 then bot else int 0

def mul : ExtendedInt → ExtendedInt → ExtendedInt
  | int z, int w => int (z * w)
  | top, int w => ofSign w
  | bot, int w => ofSign (-w)
  | int z, top => ofSign z
  | int z, bot => ofSign (-z)
  | top, top => top
  | bot, bot => top
  | top, bot => bot
  | bot, top => bot

def div : ExtendedInt → ExtendedInt → ExtendedInt
  | int z, int w => int (z / w)
  | _, int w => ofSign w
  | _, _ => int 0

instance : Scalar ExtendedInt where
  add := add
  sub x y := add x (neg y)
  mul := mul
  div := div
  neg := neg
  lt x y := leq y x = false
  le x y := leq x y = true
  beq x y := decide (x = y)
  ofScientific m s e := int (if s then m / 10 ^ e else m * 10 ^ e)
  decideLt _ _ := inferInstanceAs (Decidable (_ = false))
  decideLe _ _ := inferInstanceAs (Decidable (_ = true))
  infinity := top
  largest := int (2 ^ 62)
  magnitude
    | int z => int |z|
    | _ => top
  nextUp
    | int z => int (z + 1)
    | x => x
  nextDown
    | int z => int (z - 1)
    | x => x
  addDown x y := if x = bot ∨ y = bot then bot else add x y
  addUp x y := if x = top ∨ y = top then top else add x y
  mulDown := mul
  mulUp := mul
  divDown := div
  divUp := div
  sqrt
    | int z => int z.toNat.sqrt
    | x => x
  exp
    | int z => int (if z < 0 then 0 else 2 ^ z.toNat)
    | bot => int 0
    | top => top
  log
    | int z => int z.toNat.log2
    | x => x
  totalCompare x y := if leq x y then (if leq y x then .eq else .lt) else .gt

/-! ## The order -/

noncomputable def value : ExtendedInt → EReal
  | bot => ⊥
  | int z => ((z : ℝ) : EReal)
  | top => ⊤

theorem isNumber (x : ExtendedInt) : IsNumber x := by
  change (!decide (x = x)) = false
  simp

theorem leq_iff {x y : ExtendedInt} : leq x y = true ↔ value x ≤ value y := by
  cases x <;> cases y <;> simp [leq, value]

theorem value_injective {x y : ExtendedInt} (same : value x = value y) : x = y := by
  cases x <;> cases y <;> simp_all [value]

theorem value_neg (x : ExtendedInt) : value (neg x) = -value x := by
  cases x <;> simp [neg, value]

theorem leq_total (x y : ExtendedInt) : leq x y = true ∨ leq y x = true := by
  rw [leq_iff, leq_iff]
  exact le_total _ _

theorem isLE_compare {x y : ExtendedInt} : (Scalar.totalCompare x y).isLE = leq x y := by
  change (if leq x y then (if leq y x then Ordering.eq else .lt) else .gt).isLE = leq x y
  cases leq x y <;> cases leq y x <;> rfl

noncomputable instance : OrderedScalar ExtendedInt where
  value := value
  lt_iff {x y} := by
    change leq y x = false ↔ _
    rw [← not_le, ← leq_iff, Bool.not_eq_true]
    exact ⟨fun below => ⟨isNumber x, isNumber y, below⟩, fun h => h.2.2⟩
  le_iff {x y} := by
    change leq x y = true ↔ _
    rw [← leq_iff]
    exact ⟨fun below => ⟨isNumber x, isNumber y, below⟩, fun h => h.2.2⟩
  beq_iff {x y} := by
    change decide (x = y) = true ↔ _
    rw [decide_eq_true_iff]
    exact ⟨fun same => ⟨isNumber x, isNumber y, same ▸ rfl⟩, fun h => value_injective h.2.2⟩
  number_infinity := isNumber _
  value_infinity := rfl
  number_zero := isNumber _
  value_zero := by
    change value (int (if false = true then _ else ((0 : Nat) : Int) * 10 ^ 0)) = 0
    simp [value]
  number_one := isNumber _
  value_one := by
    change value (int (if false = true then _ else ((1 : Nat) : Int) * 10 ^ 0)) = 1
    simp [value]
  number_neg _ := isNumber _
  value_neg _ := value_neg _
  number_magnitude := iff_of_true (isNumber _) (isNumber _)
  value_magnitude {x} _ := by
    cases x with
    | bot => exact (max_eq_right (bot_le.trans_eq rfl)).symm
    | int z =>
        change (((|z| : ℤ) : ℝ) : EReal) = max (((z : ℝ) : EReal)) (-((z : ℝ) : EReal))
        rw [Int.cast_abs, abs_eq_max_neg, ← EReal.coe_neg, EReal.coe_strictMono.monotone.map_max]
    | top => exact (max_eq_left le_top).symm
  number_largest := isNumber _
  number_nextUp _ := isNumber _
  totalCompare_swap x y := by
    change (if leq x y then (if leq y x then Ordering.eq else .lt) else .gt).swap =
      if leq y x then (if leq x y then Ordering.eq else .lt) else .gt
    have total := leq_total x y
    cases first : leq x y <;> cases second : leq y x <;> simp_all
  totalCompare_trans {x y z} first second := by
    rw [isLE_compare, leq_iff] at first second ⊢
    exact first.trans second
  value_le_of_totalCompare _ _ below := by
    rw [isLE_compare] at below
    exact leq_iff.mp below

/-! ## Exact operations -/

theorem value_ofSign {z : Int} :
    value (ofSign z) = ⊤ * ((z : ℝ) : EReal) := by
  unfold ofSign
  rcases lt_trichotomy 0 z with pos | rfl | neg
  · rw [if_pos pos, EReal.top_mul_coe_of_pos (by exact_mod_cast pos)]
    rfl
  · simp [value]
  · rw [if_neg neg.not_gt, if_pos neg, EReal.top_mul_coe_of_neg (by exact_mod_cast neg)]
    rfl

theorem value_ofSign_neg {z : Int} :
    value (ofSign (-z)) = ⊥ * ((z : ℝ) : EReal) := by
  rw [value_ofSign, Int.cast_neg, EReal.coe_neg, mul_neg, ← neg_mul, EReal.neg_top]

theorem value_mul (x y : ExtendedInt) : value (mul x y) = value x * value y := by
  match x, y with
  | int z, int w => exact (congrArg _ (Int.cast_mul z w)).trans (EReal.coe_mul _ _)
  | top, int w => exact value_ofSign
  | bot, int w => exact value_ofSign_neg
  | int z, top => exact value_ofSign.trans (mul_comm _ _)
  | int z, bot => exact value_ofSign_neg.trans (mul_comm _ _)
  | top, top => exact EReal.top_mul_top.symm
  | bot, bot => exact EReal.bot_mul_bot.symm
  | top, bot => exact EReal.top_mul_bot.symm
  | bot, top => exact EReal.bot_mul_top.symm

theorem mem_int {z w : Int} {t : ℝ} :
    t ∈ (⟨int z, int w⟩ : Interval ExtendedInt) ↔ (z : ℝ) ≤ t ∧ t ≤ w :=
  ⟨fun member =>
    ⟨EReal.coe_le_coe_iff.mp member.lo_le, EReal.coe_le_coe_iff.mp member.le_hi⟩,
    fun between => ⟨isNumber _, isNumber _, EReal.coe_le_coe_iff.mpr between.1,
      EReal.coe_le_coe_iff.mpr between.2⟩⟩

theorem isFinite_cases {x : ExtendedInt} (finite : Scalar.isFinite x = true) :
    ∃ z, x = int z := by
  cases x with
  | bot => exact absurd finite (by decide)
  | int z => exact ⟨z, rfl⟩
  | top => exact absurd finite (by decide)

instance : SteppingScalar ExtendedInt where
  lt_nextUp {x} finite := by
    obtain ⟨z, rfl⟩ := isFinite_cases finite
    change decide (z + 1 ≤ z) = false
    simp
  nextDown_lt {x} finite := by
    obtain ⟨z, rfl⟩ := isFinite_cases finite
    change decide (z ≤ z - 1) = false
    simp

instance : DirectedScalar ExtendedInt where
  number_addDown _ _ := isNumber _
  number_addUp _ _ := isNumber _
  number_mulDown _ _ := isNumber _
  number_mulUp _ _ := isNumber _
  addDown_le {x y p q} _ _ hx hy := by
    change value (if x = bot ∨ y = bot then bot else add x y) ≤ _
    split
    · exact bot_le
    · rename_i finite
      match x, y with
      | int z, int w =>
          have sum := add_le_add (EReal.coe_le_coe_iff.mp hx) (EReal.coe_le_coe_iff.mp hy)
          exact EReal.coe_le_coe_iff.mpr ((Int.cast_add z w).trans_le sum)
      | top, _ => exact absurd hx (not_le.mpr (EReal.coe_lt_top p))
      | _, top => exact absurd hy (not_le.mpr (EReal.coe_lt_top q))
      | bot, _ => exact absurd (Or.inl rfl) finite
      | _, bot => exact absurd (Or.inr rfl) finite
  le_addUp {x y p q} _ _ hx hy := by
    change _ ≤ value (if x = top ∨ y = top then top else add x y)
    split
    · exact le_top
    · rename_i finite
      match x, y with
      | int z, int w =>
          have sum := add_le_add (EReal.coe_le_coe_iff.mp hx) (EReal.coe_le_coe_iff.mp hy)
          exact EReal.coe_le_coe_iff.mpr (sum.trans_eq (Int.cast_add z w).symm)
      | bot, _ => exact absurd hx (not_le.mpr (EReal.bot_lt_coe p))
      | _, bot => exact absurd hy (not_le.mpr (EReal.bot_lt_coe q))
      | top, _ => exact absurd (Or.inl rfl) finite
      | _, top => exact absurd (Or.inr rfl) finite
  mulDown_le _ _ := (value_mul _ _).le
  le_mulUp _ _ := (value_mul _ _).ge

end ExtendedInt

end BoxSearch
