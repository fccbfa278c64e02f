import BoxSearch.Proofs.Interval.Split

/-!
# Parts of boxes

The cells of a search are boxes inside boxes. An interval with a number strictly inside is split at
one, so that both halves are parts of it with a bound moved inward, and the representative point of
a part lies in the whole.
-/
set_option autoImplicit false

namespace BoxSearch

open OrderedScalar Scalar Checked

/-- No finite number exceeds the largest one, the mean of two finite numbers is a number, and every
number below the infinity has a next one. -/
class RepresentingScalar (α : Type) [Scalar α] : Prop where
  le_largest : ∀ {x : α}, isFinite x = true → x ≤ largest
  number_mean : ∀ {x y : α}, isFinite x = true → isFinite y = true →
    IsNumber (0.5 * x + 0.5 * y)
  lt_next : ∀ {x : α}, x < infinity → x < nextUp x

variable {α : Type} [Scalar α] [OrderedScalar α]

namespace Scalar
variable {u v w : α}

theorem le_trans (first : u ≤ v) (second : v ≤ w) : u ≤ w := by
  rw [le_iff] at first second ⊢
  exact ⟨first.1, second.2.1, first.2.2.trans second.2.2⟩

theorem le_of_lt (less : u < v) : u ≤ v := by
  rw [lt_iff] at less
  exact le_iff.mpr ⟨less.1, less.2.1, less.2.2.le⟩

theorem le_refl (number : IsNumber u) : u ≤ u := le_iff.mpr ⟨number, number, le_rfl⟩

theorem not_lt_self (u : α) : ¬u < u := fun less => lt_irrefl _ (lt_iff.mp less).2.2

theorem lt_of_not_le (hu : IsNumber u) (hv : IsNumber v) (above : ¬u ≤ v) : v < u := by
  rw [le_iff_value hu hv, not_le] at above
  exact (lt_iff_value hv hu).mpr above

theorem isFinite_neg (finite : isFinite v = true) : isFinite (-v) = true := by
  rw [isFinite_iff] at finite ⊢
  obtain ⟨number, not_top, not_bottom⟩ := finite
  refine ⟨number_neg number, ?_, ?_⟩
  · rwa [value_neg number, Ne, EReal.neg_eq_top_iff]
  · rwa [value_neg number, Ne, EReal.neg_eq_bot_iff]

theorem isFinite_between (hu : isFinite u = true) (hw : isFinite w = true) (lower : u ≤ v)
    (upper : v ≤ w) : isFinite v = true := by
  rw [le_iff] at lower upper
  rw [isFinite_iff] at hu hw ⊢
  refine ⟨lower.2.1, fun top => hw.2.1 ?_, fun bottom => hu.2.2 ?_⟩
  · exact top_le_iff.mp (top.symm.trans_le upper.2.2)
  · exact le_bot_iff.mp (lower.2.2.trans_eq bottom)

theorem real_nonneg (nonneg : 0 ≤ v) (finite : isFinite v = true) : 0 ≤ real v := by
  rw [le_iff, value_zero, ← coe_real finite, EReal.coe_nonneg] at nonneg
  exact nonneg.2.2

theorem real_pos (positive : 0 < v) (finite : isFinite v = true) : 0 < real v := by
  rw [lt_iff, value_zero, ← coe_real finite, EReal.coe_pos] at positive
  exact positive.2.2

theorem real_le_one (small : v ≤ 1) (finite : isFinite v = true) : real v ≤ 1 := by
  rw [le_iff, value_one, ← coe_real finite] at small
  exact EReal.coe_le_coe_iff.mp small.2.2

theorem clamp_mem (hu : IsNumber u) (hw : IsNumber w) (hv : IsNumber v) (ordered : u ≤ w) :
    u ≤ clamp u w v ∧ clamp u w v ≤ w := by
  unfold clamp
  split
  · exact ⟨le_refl hu, ordered⟩
  · rename_i above
    rw [lt_iff_value hv hu, not_lt] at above
    split
    · exact ⟨ordered, le_refl hw⟩
    · rename_i below
      rw [lt_iff_value hw hv, not_lt] at below
      exact ⟨(le_iff_value hu hv).mpr above, (le_iff_value hv hw).mpr below⟩

end Scalar

namespace Interval
variable {x y z l r : Interval α} {v ratio split : α}

structure Inside (x y : Interval α) : Prop where
  proper : x.Proper
  lo_le : y.lo ≤ x.lo
  hi_le : x.hi ≤ y.hi

omit [OrderedScalar α] in
theorem contains_iff : x.contains v = true ↔ x.lo ≤ v ∧ v ≤ x.hi := by
  rw [contains, Bool.and_eq_true, decide_eq_true_iff, decide_eq_true_iff]

theorem Proper.inside (proper : x.Proper) : x.Inside x :=
  ⟨proper, le_refl proper.lo_number, le_refl proper.hi_number⟩

theorem Proper.lo_le_hi (proper : x.Proper) : x.lo ≤ x.hi :=
  le_iff.mpr ⟨proper.lo_number, proper.hi_number, proper.ordered⟩

theorem Inside.trans (first : x.Inside y) (second : y.Inside z) : x.Inside z :=
  ⟨first.proper, le_trans second.lo_le first.lo_le, le_trans first.hi_le second.hi_le⟩

theorem Inside.contains (inside : x.Inside y) (member : x.contains v = true) :
    y.contains v = true := by
  rw [contains_iff] at member ⊢
  exact ⟨le_trans inside.lo_le member.1, le_trans member.2 inside.hi_le⟩

theorem Inside.mem {t : ℝ} (inside : x.Inside y) (member : t ∈ x) : t ∈ y := by
  obtain ⟨number_lo, -, lower⟩ := le_iff.mp inside.lo_le
  obtain ⟨-, number_hi, upper⟩ := le_iff.mp inside.hi_le
  exact ⟨number_lo, number_hi, lower.trans member.lo_le, member.le_hi.trans upper⟩

theorem mem_real_of_contains (finite : isFinite v = true) (member : x.contains v = true) :
    real v ∈ x := by
  obtain ⟨lower, upper⟩ := contains_iff.mp member
  rw [le_iff, ← coe_real finite] at lower upper
  exact ⟨lower.1, upper.2.1, lower.2.2, upper.2.2⟩

theorem proper_of_finite {u v : α} (hu : isFinite u = true) (hv : isFinite v = true)
    (ordered : u ≤ v) : (⟨u, v⟩ : Interval α).Proper := by
  obtain ⟨number_u, u_ne_top, -⟩ := isFinite_iff.mp hu
  obtain ⟨number_v, -, v_ne_bottom⟩ := isFinite_iff.mp hv
  exact ⟨number_u, number_v, (le_iff.mp ordered).2.2, u_ne_top, v_ne_bottom⟩

theorem proper_of_point (made : point v = .ok x) : x.Proper := by
  rw [point] at made
  split at made
  · rename_i finite
    obtain rfl := Except.ok.inj made
    exact proper_of_finite finite finite (le_refl (isFinite_iff.mp finite).1)
  · cases made

theorem inside_point (finite : isFinite v = true)
    (member : x.contains v = true) : (⟨v, v⟩ : Interval α).Inside x := by
  rw [contains_iff] at member
  exact ⟨proper_of_finite finite finite (le_refl (isFinite_iff.mp finite).1), member.1, member.2⟩

theorem normalized_of_live {lo hi : α} (live : (normalized lo hi).isEmpty = false) :
    normalized lo hi = ⟨lo, hi⟩ := by
  rw [normalized, ofBounds?] at live ⊢
  split
  · rename_i refused
    rw [if_pos refused] at live
    cases live.symm.trans isEmpty_empty
  · rfl

theorem inside_intersect (hx : x.Valid) (hy : y.Valid) (live : (x.intersect y).isEmpty = false) :
    (x.intersect y).Inside x := by
  rw [intersect] at live ⊢
  split
  · rename_i empty
    rw [if_pos empty] at live
    cases live.symm.trans isEmpty_empty
  · rename_i both
    rw [if_neg both] at live
    rw [Bool.or_eq_true, not_or, Bool.not_eq_true, Bool.not_eq_true] at both
    have proper_x := hx.proper_of_not_empty both.1
    have proper_y := hy.proper_of_not_empty both.2
    have proper := (valid_normalized _ _).proper_of_not_empty live
    rw [normalized_of_live live] at proper ⊢
    refine ⟨proper, le_iff.mpr ⟨proper_x.lo_number, proper.lo_number, ?_⟩,
      le_iff.mpr ⟨proper.hi_number, proper_x.hi_number, ?_⟩⟩
    · exact (le_max_left _ _).trans_eq (value_max proper_x.lo_number proper_y.lo_number).symm
    · exact (value_min proper_x.hi_number proper_y.hi_number).trans_le (min_le_left _ _)

theorem Proper.isFinite_lo (proper : x.Proper) (bounded : (x.lo == -infinity) = false) :
    isFinite x.lo = true := by
  refine isFinite_iff.mpr ⟨proper.lo_number, proper.lo_ne_top, fun bottom => ?_⟩
  rw [(beq_iff_value proper.lo_number number_negInfinity).mpr
    (bottom.trans value_negInfinity.symm)] at bounded
  cases bounded

theorem Proper.isFinite_hi (proper : x.Proper) (bounded : (x.hi == infinity) = false) :
    isFinite x.hi = true := by
  refine isFinite_iff.mpr ⟨proper.hi_number, fun top => ?_, proper.hi_ne_bot⟩
  rw [(beq_iff_value proper.hi_number number_infinity).mpr
    (top.trans value_infinity.symm)] at bounded
  cases bounded

theorem Proper.isFinite_of_contains (proper : x.Proper) (bounded : x.isUnbounded = false)
    (member : x.contains v = true) : isFinite v = true := by
  rw [isUnbounded, proper.isEmpty_eq_false, Bool.not_false, Bool.true_and,
    Bool.or_eq_false_iff] at bounded
  rw [contains_iff] at member
  exact isFinite_between (proper.isFinite_lo bounded.1) (proper.isFinite_hi bounded.2) member.1
    member.2

variable [RepresentingScalar α]

theorem Proper.contains_mid (proper : x.Proper) (success : x.mid = .ok v) :
    x.contains v = true := by
  have lower : ∀ {u : α}, (x.lo == -infinity) = true → IsNumber u → x.lo ≤ u := by
    intro u bottom number
    rw [beq_iff_value proper.lo_number number_negInfinity, value_negInfinity] at bottom
    exact le_iff.mpr ⟨proper.lo_number, number, bottom ▸ bot_le⟩
  have upper : ∀ {u : α}, (x.hi == infinity) = true → IsNumber u → u ≤ x.hi := by
    intro u top number
    rw [beq_iff_value proper.hi_number number_infinity, value_infinity] at top
    exact le_iff.mpr ⟨number, proper.hi_number, top ▸ le_top⟩
  rw [mid, proper.isEmpty_eq_false, if_neg Bool.false_ne_true] at success
  rw [contains_iff]
  cases bottom : x.lo == -infinity with
  | true =>
      cases top : x.hi == infinity with
      | true =>
          rw [bottom, top] at success
          obtain rfl := Except.ok.inj success
          exact ⟨lower bottom number_zero, upper top number_zero⟩
      | false =>
          rw [bottom, top] at success
          obtain rfl := Except.ok.inj success
          have least := RepresentingScalar.le_largest (isFinite_neg (proper.isFinite_hi top))
          refine ⟨lower bottom (number_neg number_largest), ?_⟩
          rw [le_iff, value_neg proper.hi_number, EReal.neg_le] at least
          rw [le_iff_value (number_neg number_largest) proper.hi_number,
            value_neg number_largest]
          exact least.2.2
  | false =>
      have finite := proper.isFinite_lo bottom
      cases top : x.hi == infinity with
      | true =>
          rw [bottom, top] at success
          obtain rfl := Except.ok.inj success
          exact ⟨RepresentingScalar.le_largest finite, upper top number_largest⟩
      | false =>
          rw [bottom, top] at success
          dsimp only at success
          split at success
          · obtain rfl := Except.ok.inj success
            exact ⟨le_refl proper.lo_number, proper.lo_le_hi⟩
          · obtain rfl := Except.ok.inj success
            exact clamp_mem proper.lo_number proper.hi_number
              (RepresentingScalar.number_mean finite (proper.isFinite_hi top)) proper.lo_le_hi

theorem Proper.isFinite_mid (proper : x.Proper) (bounded : x.isUnbounded = false)
    (success : x.mid = .ok v) : isFinite v = true :=
  proper.isFinite_of_contains bounded (proper.contains_mid success)

variable [SplittingScalar α]

theorem Proper.between_of_bisect (proper : x.Proper) (success : x.bisect ratio = .ok (l, r)) :
    ∃ s : α, l = ⟨x.lo, s⟩ ∧ r = ⟨s, x.hi⟩ ∧ x.lo < s ∧ s < x.hi := by
  rw [bisect] at success
  split at success
  · cases success
  · rename_i bisectable
    dsimp only at success
    split at success
    · cases success
    · rename_i fraction
      obtain ⟨s, found, success⟩ := bind_eq_ok.mp success
      obtain ⟨rfl, rfl⟩ := Prod.mk.inj (Except.ok.inj success)
      simp only [Bool.not_eq_true', Bool.not_eq_false, Bool.and_eq_true, decide_eq_true_eq]
        at fraction
      simp only [isBisectable, Bool.not_eq_true', Bool.not_eq_false, Bool.and_eq_true,
        decide_eq_true_eq] at bisectable
      obtain ⟨t, member⟩ := proper.exists_mem
      have number := number_splitPoint member fraction.1 fraction.2 found
      refine ⟨s, rfl, rfl, ?_⟩
      obtain ⟨first, -, choice⟩ := splitPoint_eq_ok found
      rcases choice with ⟨inside, rfl⟩ | between | rfl
      · rw [not_or] at inside
        exact ⟨lt_of_not_le number proper.lo_number inside.1,
          lt_of_not_le proper.hi_number number inside.2⟩
      · exact between
      · refine ⟨RepresentingScalar.lt_next ?_, bisectable.2⟩
        rw [lt_iff_value proper.lo_number number_infinity, value_infinity]
        exact lt_top_iff_ne_top.mpr proper.lo_ne_top

theorem Proper.inside_of_bisect (proper : x.Proper) (success : x.bisect ratio = .ok (l, r)) :
    l.Inside x ∧ r.Inside x := by
  obtain ⟨s, rfl, rfl, above, below⟩ := proper.between_of_bisect success
  have lower := lt_iff.mp above
  have upper := lt_iff.mp below
  refine ⟨⟨⟨proper.lo_number, lower.2.1, lower.2.2.le, proper.lo_ne_top, ?_⟩,
    le_refl proper.lo_number, le_of_lt below⟩, ⟨⟨lower.2.1, proper.hi_number, upper.2.2.le, ?_,
    proper.hi_ne_bot⟩, le_of_lt above, le_refl proper.hi_number⟩⟩
  · exact (bot_le.trans_lt lower.2.2).ne'
  · exact (upper.2.2.trans_le le_top).ne

end Interval

namespace Box
variable {b c d l r : Box α} {p : List α}

/-- What can be stored: every component is the empty interval or bounds a set of reals. -/
def Valid (b : Box α) : Prop := ∀ x ∈ b.components, x.Valid

def Within (b c : Box α) : Prop := List.Forall₂ Interval.Inside b.components c.components

theorem Within.dim (within : b.Within c) : b.dim = c.dim := List.Forall₂.length_eq within

theorem Within.proper (within : b.Within c) : ∀ x ∈ b.components, x.Proper := by
  intro x hx
  obtain ⟨i, hi, rfl⟩ := List.getElem_of_mem hx
  have aligned := List.forall₂_iff_get.mp within
  exact (aligned.2 i hi (aligned.1 ▸ hi)).proper

theorem Within.valid (within : b.Within c) : b.Valid := fun x hx => Or.inr (within.proper x hx)

theorem live_of_proper (proper : ∀ x ∈ b.components, x.Proper) : b.isEmpty = false := by
  rw [isEmpty, List.any_eq_false]
  exact fun x hx => ne_true_of_eq_false (proper x hx).isEmpty_eq_false

theorem within_self (proper : ∀ x ∈ b.components, x.Proper) : b.Within b :=
  List.forall₂_same.mpr fun x hx => (proper x hx).inside

theorem Within.trans (first : b.Within c) (second : c.Within d) : b.Within d := by
  obtain ⟨bs⟩ := b
  obtain ⟨cs⟩ := c
  obtain ⟨ds⟩ := d
  change List.Forall₂ _ bs cs at first
  induction first generalizing ds with
  | nil =>
      cases second
      exact .nil
  | cons hx _ ih =>
      cases second with
      | cons hy rest => exact .cons (hx.trans hy) (ih _ rest)

theorem Valid.proper (valid : b.Valid) (live : b.isEmpty = false) :
    ∀ x ∈ b.components, x.Proper := by
  intro x hx
  rw [isEmpty, List.any_eq_false] at live
  exact (valid x hx).proper_of_not_empty (Bool.eq_false_iff.mpr (live x hx))

theorem isEmpty_emptied (empty : b.isEmpty = true) : b.emptied.isEmpty = true := by
  obtain ⟨x, hx, -⟩ := List.any_eq_true.mp empty
  exact List.any_eq_true.mpr
    ⟨.empty, List.mem_map.mpr ⟨x, hx, rfl⟩, Interval.isEmpty_empty⟩

theorem within_intersect (hb : b.Valid) (hc : c.Valid) (dim : b.dim = c.dim)
    (live : (b.intersect c).isEmpty = false) : (b.intersect c).Within b := by
  rw [intersect] at live ⊢
  split
  · rename_i empty
    rw [if_pos empty] at live
    cases live.symm.trans (isEmpty_emptied empty)
  · rename_i shared
    rw [isEmpty, List.any_eq_true] at shared
    refine List.forall₂_iff_get.mpr ⟨?_, fun i hi hi' => ?_⟩
    · exact List.length_zipWith.trans (min_eq_left dim.le)
    · have both := Bool.eq_false_iff.mpr fun empty => shared ⟨_, List.getElem_mem hi, empty⟩
      rw [List.get_eq_getElem, List.get_eq_getElem]
      rw [List.getElem_zipWith] at both ⊢
      exact Interval.inside_intersect (hb _ (List.getElem_mem _)) (hc _ (List.getElem_mem _)) both

omit [OrderedScalar α] in
theorem containsPoint_iff : b.containsPoint p = true ↔
    List.Forall₂ (fun x v => x.contains v = true) b.components p := by
  rw [containsPoint, Bool.and_eq_true, beq_iff_eq, List.all_eq_true, List.forall₂_iff_zip, eq_comm]
  exact and_congr_right fun _ => ⟨fun all {x v} pair => all (x, v) pair, fun all q pair => all pair⟩

theorem Within.containsPoint (within : b.Within c) (member : b.containsPoint p = true) :
    c.containsPoint p = true := by
  rw [containsPoint_iff] at member ⊢
  obtain ⟨bs⟩ := b
  obtain ⟨cs⟩ := c
  change List.Forall₂ _ bs cs at within
  induction within generalizing p with
  | nil =>
      cases member
      exact .nil
  | cons hx _ ih =>
      cases member with
      | cons hv rest => exact .cons (hx.contains hv) (ih rest)

theorem Within.mem {t : List ℝ} (within : b.Within c) (member : t ∈ b) : t ∈ c := by
  rw [mem_def] at member ⊢
  obtain ⟨bs⟩ := b
  obtain ⟨cs⟩ := c
  change List.Forall₂ _ bs cs at within
  induction within generalizing t with
  | nil =>
      cases member
      exact .nil
  | cons hx _ ih =>
      cases member with
      | cons ht rest => exact .cons (hx.mem ht) (ih rest)

omit [OrderedScalar α] in
theorem length_of_containsPoint (member : b.containsPoint p = true) : p.length = b.dim :=
  (List.Forall₂.length_eq (containsPoint_iff.mp member)).symm

theorem within_set {j : Nat} {x z : Interval α} (proper : ∀ x ∈ b.components, x.Proper)
    (position : b.components[j]? = some x) (inside : z.Inside x) :
    (⟨b.components.set j z⟩ : Box α).Within b := by
  refine List.forall₂_iff_get.mpr ⟨List.length_set, fun i hi hi' => ?_⟩
  simp only [List.get_eq_getElem, List.getElem_set]
  split
  · rename_i same
    subst same
    rw [List.getElem?_eq_getElem hi'] at position
    exact Option.some.inj position ▸ inside
  · exact (proper _ (List.getElem_mem hi')).inside

variable [RepresentingScalar α]

theorem containsPoint_mid (proper : ∀ x ∈ b.components, x.Proper) (success : b.mid = .ok p) :
    b.containsPoint p = true := by
  rw [containsPoint_iff]
  have points := List.forall₂_iff_zip.mp (forall₂_of_mapM success)
  refine List.forall₂_iff_zip.mpr ⟨points.1, fun {x v} pair => ?_⟩
  exact (proper x (List.of_mem_zip pair).1).contains_mid (points.2 pair)

theorem within_of_bisect [SplittingScalar α] {var : Nat} {ratio : α}
    (proper : ∀ x ∈ b.components, x.Proper) (success : b.bisect var ratio = .ok (l, r)) :
    l.Within b ∧ r.Within b := by
  obtain ⟨x, component, success⟩ := bind_eq_ok.mp success
  obtain ⟨⟨left, right⟩, halves, success⟩ := bind_eq_ok.mp success
  obtain ⟨rfl, rfl⟩ := Prod.mk.inj (Except.ok.inj success)
  have position := elementAt_eq_ok.mp component
  have proper_x := proper x (List.mem_of_getElem? position)
  obtain ⟨first, second⟩ := proper_x.inside_of_bisect halves
  exact ⟨within_set proper position first, within_set proper position second⟩

end Box

end BoxSearch
