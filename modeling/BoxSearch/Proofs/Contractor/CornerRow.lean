import BoxSearch.Proofs.Linear.CertifiedBound
import BoxSearch.Proofs.Model.Enclosure
import BoxSearch.Contractor.CornerLinearizer

/-!
# Rows from corners hold

Between a point of the box and the expansion point the function changes by a sum of slopes times
coordinate differences. A row replaces each slope by an end of its enclosure. The corner tells the
sign of the coordinate difference, so that the right end only moves the sum to the safe side.
Where the anchor has left its corner the slope is exact, and it does not matter which end is used.
-/
set_option autoImplicit false

namespace BoxSearch

open OrderedScalar Scalar

variable {α : Type} [Scalar α] [OrderedScalar α]

namespace RowSide

/-- The comparison with zero that a row of this side serves. -/
def Accepts (side : RowSide) (t : ℝ) : Prop :=
  match side with
  | .le => t ≤ 0
  | .ge => 0 ≤ t

/-- The first real is an estimate of the second one on the safe side. -/
def Estimates (side : RowSide) (a b : ℝ) : Prop :=
  match side with
  | .le => a ≤ b
  | .ge => b ≤ a

theorem estimates_refl (side : RowSide) (a : ℝ) : side.Estimates a a := by
  cases side <;> exact le_refl a

theorem Estimates.add {side : RowSide} {a b a' b' : ℝ} (first : side.Estimates a b)
    (second : side.Estimates a' b') : side.Estimates (a + a') (b + b') := by
  cases side <;> exact add_le_add first second

end RowSide

namespace Expansion
variable {ex : Expansion α} {corner : Corner} {side : RowSide} {f : List ℝ → ℝ} {n : Nat}

/-! ## Anchors -/

/-- The slope along a variable is known to be a single number. -/
def Exact (ex : Expansion α) (j : Nat) : Prop :=
  ex.function.dependsOn j = .ok false ∨
    ∃ g, ex.gradient.components[j]? = some g ∧ g.isDegenerate = true

/-- A coordinate lies on the side of the anchor that the corner promises, unless the slope is
exact. -/
structure Anchored (ex : Expansion α) (corner : Corner) (j : Nat) (t : ℝ) (v : α) : Prop where
  finite : isFinite v = true
  known : ∃ reads, ex.function.dependsOn j = .ok reads
  placed : ex.Exact j ∨ if corner.getD j false then t ≤ real v else real v ≤ t

/-- Anchors and coordinates of a point, both in the range of their variable, from `j` on. -/
inductive Anchors (ex : Expansion α) (corner : Corner) :
    Nat → List (Interval α) → List ℝ → List α → Prop
  | nil (j : Nat) : Anchors ex corner j [] [] []
  | cons {j : Nat} {x : Interval α} {t : ℝ} {v : α} {xs : List (Interval α)} {ts : List ℝ}
      {vs : List α} : ex.Anchored corner j t v → t ∈ x → real v ∈ x →
      Anchors ex corner (j + 1) xs ts vs → Anchors ex corner j (x :: xs) (t :: ts) (v :: vs)

theorem real_lo_le {x : Interval α} {t : ℝ} (member : t ∈ x) (finite : isFinite x.lo = true) :
    real x.lo ≤ t := by
  have := member.lo_le
  rwa [← coe_real finite, EReal.coe_le_coe_iff] at this

theorem le_real_hi {x : Interval α} {t : ℝ} (member : t ∈ x) (finite : isFinite x.hi = true) :
    t ≤ real x.hi := by
  have := member.le_hi
  rwa [← coe_real finite, EReal.coe_le_coe_iff] at this

theorem real_lo_mem {x : Interval α} {t : ℝ} (member : t ∈ x) (finite : isFinite x.lo = true) :
    real x.lo ∈ x :=
  ⟨member.lo_number, member.hi_number, (coe_real finite).ge,
    (EReal.coe_le_coe_iff.mpr (real_lo_le member finite)).trans member.le_hi⟩

theorem real_hi_mem {x : Interval α} {t : ℝ} (member : t ∈ x) (finite : isFinite x.hi = true) :
    real x.hi ∈ x :=
  ⟨member.lo_number, member.hi_number,
    member.lo_le.trans (EReal.coe_le_coe_iff.mpr (le_real_hi member finite)),
    (coe_real finite).le⟩

def bound (x : Interval α) (atUpper : Bool) : α := if atUpper then x.hi else x.lo

theorem bound_mem {x : Interval α} {t : ℝ} (member : t ∈ x) : ∀ {atUpper : Bool},
    isFinite (bound x atUpper) = true → real (bound x atUpper) ∈ x
  | true, finite => real_hi_mem member finite
  | false, finite => real_lo_mem member finite

omit [OrderedScalar α] in
theorem anchor_cases {x : Interval α} {atUpper exactSlope : Bool} {v : α}
    (found : anchor x atUpper exactSlope = some v) :
    (v = bound x atUpper ∧ isFinite v = true) ∨
      exactSlope = true ∧ ((v = bound x (!atUpper) ∧ isFinite v = true) ∨
        v = 0 ∧ isFinite x.lo = false ∧ isFinite x.hi = false) := by
  cases atUpper <;> simp only [anchor, Bool.false_eq_true, if_true, if_false] at found
  all_goals
    split at found
    · rename_i finite
      obtain rfl := Option.some.inj found
      exact Or.inl ⟨rfl, finite⟩
    · rename_i preferred
      split at found
      · cases found
      · rename_i inexact
        refine Or.inr ⟨by simpa using inexact, ?_⟩
        split at found
        · rename_i finite
          obtain rfl := Option.some.inj found
          exact Or.inl ⟨rfl, finite⟩
        · rename_i other
          obtain rfl := Option.some.inj found
          rw [Bool.not_eq_true] at preferred other
          exact Or.inr ⟨rfl, by assumption, by assumption⟩

theorem anchor_placed {x : Interval α} {atUpper exactSlope : Bool} {v : α} {t : ℝ}
    (found : anchor x atUpper exactSlope = some v) (member : t ∈ x) :
    isFinite v = true ∧ real v ∈ x ∧
      (exactSlope = true ∨ if atUpper then t ≤ real v else real v ≤ t) := by
  rcases anchor_cases found with ⟨rfl, finite⟩ | ⟨exact, ⟨rfl, finite⟩ | ⟨rfl, lo, hi⟩⟩
  · refine ⟨finite, bound_mem member finite, Or.inr ?_⟩
    cases atUpper with
    | true => exact le_real_hi member finite
    | false => exact real_lo_le member finite
  · exact ⟨finite, bound_mem member finite, Or.inl exact⟩
  · exact ⟨isFinite_zero, real_zero (α := α) ▸
      (Interval.proper_of_mem member).mem_of_unbounded lo hi 0, Or.inl exact⟩

omit [OrderedScalar α] in
theorem exactness_of_anchors {j : Nat} {x : Interval α} {xs : List (Interval α)}
    {result : Option (List α)} (success : ex.anchors corner j (x :: xs) = .ok result) :
    ∃ reads exactSlope, ex.function.dependsOn j = .ok reads ∧ (exactSlope = true → ex.Exact j) ∧
      (match anchor x (corner.getD j false) exactSlope with
        | none => pure none
        | some v => do return (← ex.anchors corner (j + 1) xs).map (v :: ·)) =
          Except.ok result := by
  rw [anchors] at success
  obtain ⟨reads, asked, success⟩ := Checked.bind_eq_ok.mp success
  cases reads with
  | false => exact ⟨false, true, asked, fun _ => Or.inl asked, success⟩
  | true =>
      obtain ⟨g, found, success⟩ := Checked.bind_eq_ok.mp success
      exact ⟨true, g.isDegenerate, asked, fun degenerate =>
        Or.inr ⟨g, Checked.elementAt_eq_ok.mp found, degenerate⟩, success⟩

omit [OrderedScalar α] in
theorem anchors_cons {j : Nat} {x : Interval α} {xs : List (Interval α)} {vs : List α}
    (success : ex.anchors corner j (x :: xs) = .ok (some vs)) :
    ∃ reads exactSlope v rest, ex.function.dependsOn j = .ok reads ∧
      (exactSlope = true → ex.Exact j) ∧ anchor x (corner.getD j false) exactSlope = some v ∧
      ex.anchors corner (j + 1) xs = .ok (some rest) ∧ vs = v :: rest := by
  obtain ⟨reads, exactSlope, asked, exact, success⟩ := exactness_of_anchors success
  split at success
  · cases success
  · rename_i v found
    obtain ⟨rest, later, success⟩ := Checked.bind_eq_ok.mp success
    cases rest with
    | none => cases success
    | some rest =>
        obtain rfl := Option.some.inj (Except.ok.inj success)
        exact ⟨reads, exactSlope, v, rest, asked, exact, found, later, rfl⟩

theorem anchors_of_success : ∀ {xs : List (Interval α)} {j : Nat} {ts : List ℝ} {vs : List α},
    ex.anchors corner j xs = .ok (some vs) → List.Forall₂ (· ∈ ·) ts xs →
    Anchors ex corner j xs ts vs := by
  intro xs
  induction xs with
  | nil =>
      intro j ts vs success members
      cases members
      obtain rfl := Option.some.inj (Except.ok.inj success)
      exact .nil j
  | cons x xs ih =>
      intro j ts vs success members
      cases members with
      | @cons t _ ts _ head tail =>
        obtain ⟨reads, exactSlope, v, rest, asked, exact, found, later, rfl⟩ :=
          anchors_cons success
        obtain ⟨finite, inside, placed⟩ := anchor_placed found head
        exact .cons ⟨finite, ⟨reads, asked⟩, placed.imp_left exact⟩ head inside (ih later tail)

/-! ## Differences as sums of slopes -/

/-- A real slope from the enclosure of one variable, which is zero for a variable that the
function does not read and the only one if the slope is exact. -/
structure Steep (ex : Expansion α) (j : Nat) (slope : Interval α) (s : ℝ) : Prop where
  ignored : ex.function.dependsOn j = .ok false → s = 0
  member : ex.function.dependsOn j = .ok true → s ∈ slope
  unique : ex.function.dependsOn j = .ok true → ex.Exact j → ∀ r : ℝ, r ∈ slope → r = s

/-- Real slopes with the coordinates and anchors that they connect, from variable `j` on. -/
inductive Terms (ex : Expansion α) (corner : Corner) :
    Nat → List (Interval α) → List ℝ → List ℝ → List α → Prop
  | nil (j : Nat) (slopes : List (Interval α)) : Terms ex corner j slopes [] [] []
  | cons {j : Nat} {slope : Interval α} {s t : ℝ} {v : α} {slopes : List (Interval α)}
      {ss ts : List ℝ} {vs : List α} : ex.Anchored corner j t v → ex.Steep j slope s →
      Terms ex corner (j + 1) slopes ss ts vs →
      Terms ex corner j (slope :: slopes) (s :: ss) (t :: ts) (v :: vs)

theorem eq_of_mem_degenerate {x : Interval α} {r s : ℝ} (degenerate : x.isDegenerate = true)
    (hr : r ∈ x) (hs : s ∈ x) : r = s := by
  have same := (beq_iff_value hr.lo_number hr.hi_number).mp degenerate
  have above := (hr.le_hi.trans_eq same.symm).trans hs.lo_le
  have below := (hs.le_hi.trans_eq same.symm).trans hr.lo_le
  exact le_antisymm (EReal.coe_le_coe_iff.mp above) (EReal.coe_le_coe_iff.mp below)

theorem Exact.unique {j : Nat} {g : Interval α} {r s : ℝ} (exact : ex.Exact j)
    (reads : ex.function.dependsOn j = .ok true) (found : ex.gradient.components[j]? = some g)
    (hr : r ∈ g) (hs : s ∈ g) : r = s := by
  rcases exact with ignored | ⟨g', found', degenerate⟩
  · cases reads.symm.trans ignored
  · obtain rfl := Option.some.inj (found.symm.trans found')
    exact eq_of_mem_degenerate degenerate hr hs

/-- What is known about the expansion of a function of `n` variables. -/
structure Sound (ex : Expansion α) (n : Nat) (f : List ℝ → ℝ) : Prop where
  encloses : ex.function.Encloses n f
  gradient : ex.function.gradient ex.box = .ok ex.gradient

/-- A box in which the variables before the others are fixed at some numbers. -/
structure Fixing (ex : Expansion α) (n : Nat) (b : Box α) (fixed xs : List (Interval α))
    (pre ts : List ℝ) : Prop where
  components : b.components = fixed ++ xs
  before : List.Forall₂ (· ∈ ·) pre fixed
  inside : ∀ y : List ℝ, y ∈ b → y ∈ ex.box
  length : (pre ++ ts).length = n

theorem Fixing.mem {b : Box α} {fixed xs : List (Interval α)} {pre ts us : List ℝ}
    (fixing : ex.Fixing n b fixed xs pre ts) (members : List.Forall₂ (· ∈ ·) us xs) :
    pre ++ us ∈ b := by
  rw [Box.mem_def, fixing.components]
  exact List.rel_append fixing.before members

theorem Fixing.step {b c : Box α} {fixed xs : List (Interval α)} {x point : Interval α}
    {pre ts : List ℝ} {t : ℝ} {v : α} (fixing : ex.Fixing n b fixed (x :: xs) pre (t :: ts))
    (made : Interval.point v = .ok point) (inside : real v ∈ x)
    (set : b.setComponent pre.length point = .ok c) :
    ex.Fixing n c (fixed ++ [point]) xs (pre ++ [real v]) ts := by
  rw [Box.setComponent] at set
  split at set
  · obtain rfl := Except.ok.inj set
    have components : b.components.set pre.length point = fixed ++ point :: xs := by
      rw [fixing.components, fixing.before.length_eq]
      simp
    refine ⟨by rw [components]; simp, ?_, ?_, by simpa using fixing.length⟩
    · exact List.rel_append fixing.before (.cons (Interval.mem_point made).2 .nil)
    · intro y member
      refine fixing.inside y ?_
      rw [Box.mem_def] at member ⊢
      rw [components] at member
      rw [fixing.components]
      have first := List.forall₂_take_append _ _ _ member
      have second := List.forall₂_drop_append _ _ _ member
      rw [← List.take_append_drop fixed.length y]
      refine List.rel_append first ?_
      generalize y.drop fixed.length = rest at second ⊢
      cases second with
      | @cons u _ us _ head tail =>
        refine .cons ?_ tail
        obtain ⟨finite, at_v⟩ := Interval.mem_point made
        have place : u = real v := by
          rw [Interval.point_ok finite] at made
          obtain rfl := Except.ok.inj made
          have lower := head.lo_le
          have upper := head.le_hi
          rw [← coe_real finite, EReal.coe_le_coe_iff] at lower upper
          exact le_antisymm upper lower
        exact place ▸ inside
  · cases set

/-- Moving one variable to its anchor takes one slope. -/
theorem slope_of_derivative (sound : ex.Sound n f) {b : Box α} {j : Nat} {pre ts : List ℝ}
    {t u : ℝ} {slope : Interval α} (hj : pre.length = j) (length : (pre ++ t :: ts).length = n)
    (inside : ∀ y : List ℝ, y ∈ b → y ∈ ex.box) (member : pre ++ t :: ts ∈ b)
    (moved : pre ++ u :: ts ∈ b) (reads : ex.function.dependsOn j = .ok true)
    (success : ex.function.derivative j b = .ok slope) :
    ∃ s, ex.Steep j slope s ∧ f (pre ++ t :: ts) - f (pre ++ u :: ts) = s * (t - u) := by
  subst hj
  have set_u : (pre ++ t :: ts).set pre.length u = pre ++ u :: ts := by simp
  have position : (pre ++ t :: ts)[pre.length]? = some t := by simp
  obtain ⟨s, hs, difference⟩ := sound.encloses.derivative member (set_u.symm ▸ moved) length
    position success
  refine ⟨s, ⟨?_, fun _ => hs, ?_⟩, set_u ▸ difference⟩
  · intro ignored
    cases reads.symm.trans ignored
  · intro _ exact r hr
    rcases id exact with ignored | ⟨g, found, -⟩
    · cases reads.symm.trans ignored
    · have subset := sound.encloses.derivative_subset ⟨_, member, length⟩ inside sound.gradient
        found success
      exact exact.unique reads found (subset r hr) (subset s hs)

theorem value_of_ignored (sound : ex.Sound n f) {j : Nat} {pre ts : List ℝ} {t u : ℝ}
    (hj : pre.length = j) (length : (pre ++ t :: ts).length = n)
    (ignored : ex.function.dependsOn j = .ok false) :
    f (pre ++ u :: ts) = f (pre ++ t :: ts) := by
  subst hj
  have := sound.encloses.dependsOn (t := u) length ignored
  simpa using this

theorem Anchors.members {xs : List (Interval α)} {j : Nat} {ts : List ℝ} {vs : List α}
    (anchors : Anchors ex corner j xs ts vs) : List.Forall₂ (· ∈ ·) ts xs := by
  induction anchors with
  | nil => exact .nil
  | cons _ head _ _ ih => exact .cons head ih

theorem Anchors.reals_members {xs : List (Interval α)} {j : Nat} {ts : List ℝ} {vs : List α}
    (anchors : Anchors ex corner j xs ts vs) : List.Forall₂ (· ∈ ·) (reals vs) xs := by
  induction anchors with
  | nil => exact .nil
  | cons _ _ head _ ih => exact .cons head ih

theorem Anchors.finite {xs : List (Interval α)} {j : Nat} {ts : List ℝ} {vs : List α}
    (anchors : Anchors ex corner j xs ts vs) : ∀ v ∈ vs, isFinite v = true := by
  induction anchors with
  | nil => exact fun v hv => absurd hv List.not_mem_nil
  | cons anchored _ _ _ ih => exact List.forall_mem_cons.mpr ⟨anchored.finite, ih⟩

/-- The slopes over boxes that are fixed variable by variable lead from a point of the box to the
anchors. -/
theorem terms_of_fixedSlopes (sound : ex.Sound n f) : ∀ {vs : List α} {j : Nat} {b : Box α}
    {fixed xs slopes : List (Interval α)} {pre ts : List ℝ},
    ex.fixedSlopes j vs b = .ok slopes → Anchors ex corner j xs ts vs → pre.length = j →
    ex.Fixing n b fixed xs pre ts →
    ∃ ss, Terms ex corner j slopes ss ts vs ∧
      f (pre ++ ts) - f (pre ++ reals vs) = dot ss (displacement ts (reals vs)) := by
  intro vs
  induction vs with
  | nil =>
      intro j b fixed xs slopes pre ts _ anchors _ _
      cases anchors
      exact ⟨[], .nil j slopes, by simp [reals]⟩
  | cons v vs ih =>
      intro j b fixed xs slopes pre ts success anchors hj fixing
      cases anchors with
      | @cons _ x t _ xs ts _ anchored head inside rest =>
        rw [fixedSlopes] at success
        obtain ⟨reads, asked, success⟩ := Checked.bind_eq_ok.mp success
        have chosen : ∃ slope, ((reads = true ∧ ex.function.derivative j b = .ok slope) ∨
            reads = false) ∧ (do
              let fixed ← b.setComponent j (← Interval.point v)
              return slope :: (← ex.fixedSlopes (j + 1) vs fixed)) = Except.ok slopes := by
          cases reads with
          | true =>
              obtain ⟨slope, found, success⟩ := Checked.bind_eq_ok.mp success
              exact ⟨slope, Or.inl ⟨rfl, found⟩, success⟩
          | false =>
              obtain ⟨slope, -, success⟩ := Checked.bind_eq_ok.mp success
              exact ⟨slope, Or.inr rfl, success⟩
        obtain ⟨slope, taken, success⟩ := chosen
        obtain ⟨point, made, success⟩ := Checked.bind_eq_ok.mp success
        obtain ⟨c, set, success⟩ := Checked.bind_eq_ok.mp success
        obtain ⟨slopes, later, success⟩ := Checked.bind_eq_ok.mp success
        obtain rfl := Except.ok.inj success
        obtain ⟨ss, terms, sum⟩ := ih later rest (by simp [hj])
          (fixing.step made inside (hj ▸ set))
        have first : ∃ s, ex.Steep j slope s ∧
            f (pre ++ t :: ts) - f (pre ++ real v :: ts) = s * (t - real v) := by
          rcases taken with ⟨rfl, found⟩ | rfl
          · exact slope_of_derivative sound hj fixing.length fixing.inside
              (fixing.mem (.cons head rest.members)) (fixing.mem (.cons inside rest.members))
              asked found
          · refine ⟨0, ⟨fun _ => rfl, ?_, ?_⟩, ?_⟩
            · intro reads
              cases asked.symm.trans reads
            · intro reads
              cases asked.symm.trans reads
            · rw [value_of_ignored (u := real v) sound hj fixing.length asked, sub_self, zero_mul]
        obtain ⟨s, steep, difference⟩ := first
        refine ⟨s :: ss, .cons anchored steep terms, ?_⟩
        rw [List.append_assoc, List.append_assoc] at sum
        rw [reals, List.map_cons, displacement_cons, dot_cons, ← difference, ← reals, ← sum]
        simp

noncomputable def mixed (ex : Expansion α) : Nat → List ℝ → List α → List ℝ
  | j, t :: ts, v :: vs =>
    (match ex.function.dependsOn j with
      | .ok false => t
      | _ => real v) :: ex.mixed (j + 1) ts vs
  | _, _, _ => []

theorem Anchors.mixed_members {xs : List (Interval α)} {j : Nat} {ts : List ℝ} {vs : List α}
    (anchors : Anchors ex corner j xs ts vs) : List.Forall₂ (· ∈ ·) (ex.mixed j ts vs) xs := by
  induction anchors with
  | nil => exact .nil
  | cons _ head inside _ ih =>
      refine .cons ?_ ih
      split
      · exact head
      · exact inside

theorem value_mixed (sound : ex.Sound n f) {xs : List (Interval α)} {j : Nat} {ts : List ℝ}
    {vs : List α} (anchors : Anchors ex corner j xs ts vs) : ∀ {pre : List ℝ}, pre.length = j →
    (pre ++ ts).length = n → f (pre ++ ex.mixed j ts vs) = f (pre ++ reals vs) := by
  induction anchors with
  | nil => exact fun _ _ => rfl
  | @cons j x t v xs ts vs anchored _ _ rest ih =>
      intro pre hj length
      have tail : f ((pre ++ [real v]) ++ ex.mixed (j + 1) ts vs) =
          f ((pre ++ [real v]) ++ reals vs) := ih (by simp [hj]) (by simpa using length)
      rw [List.append_assoc, List.append_assoc] at tail
      refine Eq.trans ?_ tail
      rw [mixed]
      split
      · rename_i ignored
        have size : (pre ++ real v :: ex.mixed (j + 1) ts vs).length = n := by
          rw [← length, List.length_append, List.length_append, List.length_cons,
            List.length_cons, rest.mixed_members.length_eq, rest.members.length_eq]
        exact value_of_ignored sound hj size ignored
      · rfl

/-- Slopes from the whole gradient lead from a point to the anchors, when those of variables that
the function does not read are dropped. -/
theorem terms_of_gradient {xs : List (Interval α)} {j : Nat} {ts : List ℝ} {vs : List α}
    (anchors : Anchors ex corner j xs ts vs) : ∀ {gs : List (Interval α)} {ss : List ℝ},
    List.Forall₂ (· ∈ ·) ss gs → ss.length = ts.length → gs = ex.gradient.components.drop j →
    ∃ ss', Terms ex corner j gs ss' ts vs ∧
      dot ss (displacement ts (ex.mixed j ts vs)) = dot ss' (displacement ts (reals vs)) := by
  induction anchors with
  | nil j =>
      intro gs ss _ length _
      obtain rfl := List.eq_nil_of_length_eq_zero length
      exact ⟨[], .nil j gs, rfl⟩
  | @cons j x t v xs ts vs anchored _ _ rest ih =>
      intro gs ss slopes length suffix
      cases slopes with
      | nil => simp at length
      | @cons s g ss gs head tail =>
        have position : ex.gradient.components[j]? = some g := by
          have := congrArg (·[0]?) suffix
          simpa using this.symm
        have suffix' : gs = ex.gradient.components.drop (j + 1) := by
          rw [← List.tail_drop, ← suffix, List.tail_cons]
        obtain ⟨ss', terms, sum⟩ := ih tail (Nat.succ.inj (by simpa using length)) suffix'
        obtain ⟨reads, asked⟩ := anchored.known
        cases reads with
        | true =>
            refine ⟨s :: ss', .cons anchored ⟨?_, fun _ => head, ?_⟩ terms, ?_⟩
            · intro ignored
              cases asked.symm.trans ignored
            · intro _ exact r hr
              exact exact.unique asked position hr head
            · rw [mixed, asked, reals, List.map_cons, displacement_cons, displacement_cons,
                dot_cons, dot_cons, sum, reals]
        | false =>
            refine ⟨0 :: ss', .cons anchored ⟨fun _ => rfl, ?_, ?_⟩ terms, ?_⟩
            · intro reads
              cases asked.symm.trans reads
            · intro reads
              cases asked.symm.trans reads
            · rw [mixed, asked, reals, List.map_cons, displacement_cons, displacement_cons,
                dot_cons, dot_cons, sum, reals, sub_self, mul_zero, zero_mul]

/-- In either mode the slopes lead from a point of the box to the anchors. -/
theorem terms_of_slopes (sound : ex.Sound n f) {mode : SlopeMode} {slopes : List (Interval α)}
    {x : List ℝ} {vs : List α} (length : x.length = n)
    (anchors : Anchors ex corner 0 ex.box.components x vs)
    (success : ex.slopes mode vs = .ok slopes) :
    ∃ ss, Terms ex corner 0 slopes ss x vs ∧
      f x - f (reals vs) = dot ss (displacement x (reals vs)) := by
  cases mode with
  | taylor =>
      obtain rfl := Except.ok.inj success
      obtain ⟨ss, slopes, size, difference⟩ := sound.encloses.gradient
        (Box.mem_def.mpr anchors.members) (Box.mem_def.mpr anchors.mixed_members) length
        sound.gradient
      obtain ⟨ss', terms, sum⟩ := terms_of_gradient anchors slopes (size.trans length.symm) rfl
      have same : f ([] ++ ex.mixed 0 x vs) = f ([] ++ reals vs) :=
        value_mixed sound anchors rfl length
      exact ⟨ss', terms, by rw [← sum, ← difference]; exact congrArg (f x - ·) same.symm⟩
  | hansen =>
      have fixing : ex.Fixing n ex.box [] ex.box.components [] x :=
        ⟨rfl, .nil, fun _ member => member, length⟩
      exact terms_of_fixedSlopes sound success anchors rfl fixing

/-! ## Rows -/

/-- The end of a slope that a row takes estimates its share of the difference. -/
theorem estimates_coefficient {j : Nat} {slope : Interval α} {s t : ℝ} {v : α}
    (anchored : ex.Anchored corner j t v) (steep : ex.Steep j slope s)
    (reads : ex.function.dependsOn j = .ok true)
    (finite : isFinite (coefficient side (corner.getD j false) slope) = true) :
    side.Estimates (real (coefficient side (corner.getD j false) slope) * (t - real v))
      (s * (t - real v)) := by
  have member := steep.member reads
  unfold coefficient at finite ⊢
  rcases anchored.placed with exact | placed
  · have same : real (if side.takesLowerSlope (corner.getD j false) then slope.lo
        else slope.hi) = s := by
      split at finite
      · rename_i lower
        rw [if_pos lower]
        exact steep.unique reads exact _ (real_lo_mem member finite)
      · rename_i upper
        rw [if_neg upper]
        exact steep.unique reads exact _ (real_hi_mem member finite)
    rw [same]
    exact side.estimates_refl _
  · revert placed finite
    cases corner.getD j false <;> cases side <;> intro finite placed
    · exact mul_le_mul_of_nonneg_right (real_lo_le member finite) (sub_nonneg.mpr placed)
    · exact mul_le_mul_of_nonneg_right (le_real_hi member finite) (sub_nonneg.mpr placed)
    · exact mul_le_mul_of_nonpos_right (le_real_hi member finite) (sub_nonpos.mpr placed)
    · exact mul_le_mul_of_nonpos_right (real_lo_le member finite) (sub_nonpos.mpr placed)

/-- Along the anchors the coefficients and the rest estimate what the slopes give. -/
theorem exists_rest [EnclosingScalar α] {slopes sls : List (Interval α)} {j : Nat}
    {ss ts : List ℝ} {vs : List α} (terms : Terms ex corner j sls ss ts vs) :
    ∀ {value rest : Interval α} {cs : List α} {w : ℝ}, sls = slopes.drop j →
      ex.coefficients side corner slopes j vs value = .ok (some (cs, rest)) → w ∈ value →
      ∃ r : ℝ, r ∈ rest ∧ side.Estimates (dot (reals cs) ts + r)
        (w + dot ss (displacement ts (reals vs))) := by
  induction terms with
  | nil j sls =>
      intro value rest cs w _ success member
      obtain ⟨rfl, rfl⟩ := Prod.mk.inj (Option.some.inj (Except.ok.inj success))
      refine ⟨w, member, ?_⟩
      rw [reals, List.map_nil, dot_nil_left, dot_nil_left, zero_add, add_zero]
      exact side.estimates_refl w
  | @cons j slope s t v sls ss ts vs anchored steep _ ih =>
      intro value rest cs w suffix success member
      have suffix' : sls = slopes.drop (j + 1) := by
        rw [← List.tail_drop, ← suffix, List.tail_cons]
      rw [coefficients] at success
      obtain ⟨reads, asked, success⟩ := Checked.bind_eq_ok.mp success
      cases reads with
      | true =>
          obtain ⟨slope', found, success⟩ := Checked.bind_eq_ok.mp success
          obtain rfl : slope = slope' := by
            have position := congrArg (·[0]?) suffix
            rw [Checked.elementAt_eq_ok] at found
            simpa [found] using position
          split at success
          · cases Except.ok.inj success
          · obtain ⟨c, pointed, success⟩ := Checked.bind_eq_ok.mp success
            obtain ⟨product, multiplied, success⟩ := Checked.bind_eq_ok.mp success
            obtain ⟨tail, later, success⟩ := Checked.bind_eq_ok.mp success
            cases tail with
            | none => cases Except.ok.inj success
            | some tail =>
                obtain ⟨rfl, rfl⟩ := Prod.mk.inj (Option.some.inj (Except.ok.inj success))
                obtain ⟨finite, inside⟩ := Interval.mem_point pointed
                have share := estimates_coefficient anchored steep asked finite
                obtain ⟨r, hr, estimate⟩ := ih suffix' later
                  (Interval.mem_sub member (Interval.mem_mulScalar multiplied inside))
                refine ⟨r, hr, ?_⟩
                rw [reals, List.map_cons, reals, List.map_cons, displacement_cons, dot_cons,
                  dot_cons]
                convert share.add (estimate.add (side.estimates_refl
                  (real (coefficient side (corner.getD j false) slope) * real v))) using 1
                · rw [reals]
                  ring
                · rw [reals]
                  ring
      | false =>
          obtain ⟨tail, later, success⟩ := Checked.bind_eq_ok.mp success
          cases tail with
          | none => cases Except.ok.inj success
          | some tail =>
              obtain ⟨rfl, rfl⟩ := Prod.mk.inj (Option.some.inj (Except.ok.inj success))
              obtain ⟨r, hr, estimate⟩ := ih suffix' later member
              refine ⟨r, hr, ?_⟩
              rw [steep.ignored asked, reals, List.map_cons, reals, List.map_cons,
                displacement_cons, dot_cons, dot_cons, real_zero, zero_mul, zero_mul, zero_add,
                zero_add]
              exact estimate

end Expansion

/-! ## Soundness -/

namespace LinearRow
variable [EnclosingScalar α] {r : LinearRow α} {b : Box α} {x : List ℝ}

/-- A row is only called crossed if it holds at no point of the box. -/
theorem not_holds_of_isCrossed (crossed : r.isCrossed b = .ok true) (member : x ∈ b) :
    ¬r.Holds x := by
  intro holds
  rw [isCrossed, activity] at crossed
  obtain ⟨image, found, crossed⟩ := Checked.bind_eq_ok.mp crossed
  have inside := Box.mem_dot found member
  have apart := Except.ok.inj crossed
  rw [Interval.isEmpty_of_mem inside, Bool.false_or, Bool.or_eq_true, decide_eq_true_iff,
    decide_eq_true_iff] at apart
  rcases apart with below | above
  · exact absurd (inside.le_hi.trans_lt (lt_iff.mp below).2.2) (not_lt.mpr holds.lo_le)
  · exact absurd ((lt_iff.mp above).2.2.trans_le inside.lo_le) (not_lt.mpr holds.le_hi)

end LinearRow

/-- The point is not ruled out. -/
def CornerRow.Admits (row : CornerRow α) (x : List ℝ) : Prop :=
  match row with
  | .row r => r.Holds x
  | .useless => True
  | .infeasible => False

def Relaxed.Admits (relaxed : Relaxed α) (x : List ℝ) : Prop :=
  match relaxed with
  | .rows rs => ∀ r ∈ rs, r.Holds x
  | .infeasible => False

namespace Expansion
variable [EnclosingScalar α] {ex : Expansion α} {mode : SlopeMode} {side : RowSide}
  {f : List ℝ → ℝ} {x : List ℝ}

def rowOf (side : RowSide) (coeffs : List α) (rest : Interval α) : LinearRow α :=
  match side with
  | .le => .le coeffs (-rest).hi
  | .ge => .ge coeffs (-rest).lo

omit [EnclosingScalar α] in
theorem holds_rowOf {coeffs : List α} {rest : Interval α} {r value : ℝ} (hr : r ∈ rest)
    (estimate : side.Estimates (dot (reals coeffs) x + r) value) (accepted : side.Accepts value) :
    (rowOf side coeffs rest).Holds x := by
  have negated := Interval.mem_neg hr
  cases side with
  | le =>
      have below : dot (reals coeffs) x ≤ -r :=
        le_neg_iff_add_nonpos_right.mpr (estimate.trans accepted)
      exact ⟨number_negInfinity, negated.hi_number, value_negInfinity.trans_le bot_le,
        (EReal.coe_le_coe_iff.mpr below).trans negated.le_hi⟩
  | ge =>
      have above : -r ≤ dot (reals coeffs) x :=
        neg_le_iff_add_nonneg.mpr (accepted.trans estimate)
      exact ⟨negated.lo_number, number_infinity,
        negated.lo_le.trans (EReal.coe_le_coe_iff.mpr above), le_top.trans_eq value_infinity.symm⟩

/-- The row at a corner holds wherever the function compares to zero as required. -/
theorem admits_of_rowAt (sound : ex.Sound x.length f) {corner : Corner} {row : CornerRow α}
    (success : ex.rowAt mode side corner = .ok row) (member : x ∈ ex.box)
    (accepted : side.Accepts (f x)) : row.Admits x := by
  rw [rowAt] at success
  obtain ⟨found, anchored, success⟩ := Checked.bind_eq_ok.mp success
  cases found with
  | none =>
      obtain rfl := Except.ok.inj success
      exact trivial
  | some vs =>
      have anchors := anchors_of_success anchored (Box.mem_def.mp member)
      obtain ⟨slopes, taken, success⟩ := Checked.bind_eq_ok.mp success
      obtain ⟨ss, terms, difference⟩ := terms_of_slopes sound rfl anchors taken
      obtain ⟨value, evaluated, success⟩ := Checked.bind_eq_ok.mp success
      have at_anchors : f (reals vs) ∈ value := by
        refine sound.encloses.evalPoint anchors.finite ?_ evaluated
        rw [← List.length_map (f := real), ← reals, anchors.reals_members.length_eq,
          anchors.members.length_eq]
      obtain ⟨expanded, collected, success⟩ := Checked.bind_eq_ok.mp success
      cases expanded with
      | none =>
          obtain rfl := Except.ok.inj success
          exact trivial
      | some expanded =>
          obtain ⟨coeffs, rest⟩ := expanded
          obtain ⟨r, hr, estimate⟩ := exists_rest terms rfl collected at_anchors
          rw [← difference, add_sub_cancel] at estimate
          have holds := holds_rowOf hr estimate accepted
          change (if rest.isEmpty = true then pure .useless else
            if (!isFinite (rowOf side coeffs rest).lower &&
              !isFinite (rowOf side coeffs rest).upper) = true then pure .useless else do
            if ← (rowOf side coeffs rest).isCrossed ex.box then return .infeasible
            if ← (rowOf side coeffs rest).isImplied ex.box then return .useless
            return .row (rowOf side coeffs rest)) = Except.ok row at success
          rw [Interval.isEmpty_of_mem hr] at success
          split at success
          · contradiction
          · split at success
            · obtain rfl := Except.ok.inj success
              exact trivial
            · obtain ⟨crossed, tested, success⟩ := Checked.bind_eq_ok.mp success
              cases crossed with
              | true => exact absurd holds (LinearRow.not_holds_of_isCrossed tested member)
              | false =>
                  obtain ⟨implied, -, success⟩ := Checked.bind_eq_ok.mp success
                  split at success
                  · obtain rfl := Except.ok.inj success
                    exact trivial
                  · obtain rfl := Except.ok.inj success
                    exact holds

theorem admits_of_rowsAt (sound : ex.Sound x.length f) (member : x ∈ ex.box)
    (accepted : side.Accepts (f x)) : ∀ {corners : List Corner} {relaxed : Relaxed α},
    ex.rowsAt mode side corners = .ok relaxed → relaxed.Admits x := by
  intro corners
  induction corners with
  | nil =>
      intro relaxed success
      obtain rfl := Except.ok.inj success
      exact fun r hr => absurd hr List.not_mem_nil
  | cons corner corners ih =>
      intro relaxed success
      rw [rowsAt] at success
      obtain ⟨row, first, success⟩ := Checked.bind_eq_ok.mp success
      have admitted := admits_of_rowAt sound first member accepted
      cases row with
      | infeasible => exact admitted.elim
      | useless => exact ih success
      | row r =>
          obtain ⟨rest, later, success⟩ := Checked.bind_eq_ok.mp success
          have others := ih later
          cases rest with
          | infeasible => exact others.elim
          | rows rs =>
              obtain rfl := Except.ok.inj success
              exact List.forall_mem_cons.mpr ⟨admitted, others⟩

end Expansion

namespace CornerLinearizer
variable [EnclosingScalar α] {l : CornerLinearizer α} {x : List ℝ} {f : List ℝ → ℝ}

theorem accepts_of_rowSides {op : Comparison} {t : ℝ} (accepted : op.Accepts t) :
    ∀ side ∈ op.rowSides, side.Accepts t := by
  cases op with
  | le => exact List.forall_mem_singleton.mpr accepted
  | ge => exact List.forall_mem_singleton.mpr accepted
  | eq => exact List.forall_mem_cons.mpr ⟨le_of_eq accepted,
      List.forall_mem_singleton.mpr (ge_of_eq accepted)⟩

omit [OrderedScalar α] [EnclosingScalar α] in
theorem relaxSides_cons {ex : Expansion α} {linear : Bool} {side : RowSide}
    {sides : List RowSide} {draws : CornerDraws} {result : Relaxed α × CornerDraws}
    (success : l.relaxSides ex linear (side :: sides) draws = .ok result) :
    ∃ corners draws', (do
      match ← ex.rowsAt l.mode side corners with
      | .infeasible => return (.infeasible, draws')
      | .rows rs =>
        match ← l.relaxSides ex linear sides draws' with
        | (.infeasible, draws') => return (.infeasible, draws')
        | (.rows more, draws') => return (.rows (rs ++ more), draws')) =
          (Except.ok result : Checked α _) := by
  rw [relaxSides] at success
  split at success
  · exact ⟨_, _, success⟩
  · obtain ⟨⟨corners, draws'⟩, -, success⟩ := Checked.bind_eq_ok.mp success
    exact ⟨corners, draws', success⟩

theorem admits_of_relaxSides {ex : Expansion α} {linear : Bool} (sound : ex.Sound x.length f)
    (member : x ∈ ex.box) : ∀ {sides : List RowSide} {draws : CornerDraws}
    {result : Relaxed α × CornerDraws}, l.relaxSides ex linear sides draws = .ok result →
    (∀ side ∈ sides, side.Accepts (f x)) → result.1.Admits x := by
  intro sides
  induction sides with
  | nil =>
      intro draws result success _
      obtain rfl := Except.ok.inj success
      exact fun r hr => absurd hr List.not_mem_nil
  | cons side sides ih =>
      intro draws result success accepted
      obtain ⟨first, others⟩ := List.forall_mem_cons.mp accepted
      obtain ⟨corners, draws', success⟩ := relaxSides_cons success
      obtain ⟨relaxed, found, success⟩ := Checked.bind_eq_ok.mp success
      have admitted := Expansion.admits_of_rowsAt sound member first found
      cases relaxed with
      | infeasible => exact admitted.elim
      | rows rs =>
          obtain ⟨⟨rest, draws''⟩, later, success⟩ := Checked.bind_eq_ok.mp success
          have admitted' := ih later others
          cases rest with
          | infeasible => exact admitted'.elim
          | rows more =>
              obtain rfl := Except.ok.inj success
              exact List.forall_mem_append.mpr ⟨admitted, admitted'⟩

/-- The rows of a relaxation hold at every point of the box that satisfies the constraint, and a
box with such a point is never refuted. -/
theorem admits_of_relax {F : Evaluator α} {op : Comparison} {b : Box α} {draws : CornerDraws}
    {result : Relaxed α × CornerDraws} (encloses : F.Encloses x.length f)
    (success : l.relax F op b draws = .ok result) (member : x ∈ b)
    (accepted : op.Accepts (f x)) : result.1.Admits x := by
  have nothing : (Relaxed.rows [] : Relaxed α).Admits x := fun r hr => absurd hr List.not_mem_nil
  rw [relax, Box.isEmpty_of_mem member] at success
  obtain ⟨image, evaluated, success⟩ := Checked.bind_eq_ok.mp success
  obtain ⟨feasible, found, success⟩ := Checked.bind_eq_ok.mp success
  have inside := encloses.eval member rfl evaluated
  have meets := Interval.intersects_of_mem inside (Comparison.mem_feasible accepted found)
  rw [Interval.isEmpty_of_mem inside, meets] at success
  split at success
  · contradiction
  · split at success
    · obtain rfl := Except.ok.inj success
      exact nothing
    · obtain ⟨gradient, expanded, success⟩ := Checked.bind_eq_ok.mp success
      obtain ⟨vars, -, success⟩ := Checked.bind_eq_ok.mp success
      cases vars with
      | none =>
          obtain rfl := Except.ok.inj success
          exact nothing
      | some nonlinear =>
          have sound : (⟨F, b, gradient, nonlinear⟩ : Expansion α).Sound x.length f :=
            ⟨encloses, expanded⟩
          exact admits_of_relaxSides sound member success (accepts_of_rowSides accepted)

end CornerLinearizer

end BoxSearch
