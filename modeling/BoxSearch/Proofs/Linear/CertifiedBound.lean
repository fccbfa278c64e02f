import Mathlib.Tactic.Ring
import BoxSearch.Proofs.Checked
import BoxSearch.Proofs.Scalar.ExtendedInt
import BoxSearch.Linear.Certificate

/-!
# Certified bounds hold

At a point that satisfies the rows, a row combination encloses a list of coefficients `a` and the
real `a · x`, whichever multipliers were used: every step adds a multiple of a row to both, or
nothing. The bound then encloses `a · x + (c - a) · x = c · x`.
-/
set_option autoImplicit false

namespace BoxSearch

open OrderedScalar Scalar

variable {α : Type} [Scalar α] [OrderedScalar α]

namespace LinearRow

def Holds (r : LinearRow α) (x : List ℝ) : Prop :=
  dot (reals r.coeffs) x ∈ (⟨r.lower, r.upper⟩ : Interval α)

/-- A row over `n` variables with finite coefficients and sides in order. -/
structure WellFormed (n : Nat) (r : LinearRow α) : Prop where
  length : r.coeffs.length = n
  finite : ∀ a ∈ r.coeffs, isFinite a = true
  sides : (⟨r.lower, r.upper⟩ : Interval α).Proper

theorem isFinite_usableMultiplier (r : LinearRow α) (y : α) :
    isFinite (r.usableMultiplier y) = true := by
  unfold usableMultiplier
  split
  · exact isFinite_zero
  · rename_i usable
    simp only [Bool.or_eq_true, not_or, Bool.not_eq_true', Bool.not_eq_false] at usable
    exact usable.1.1

end LinearRow

namespace RowCombination
variable {s t : RowCombination α} {r : LinearRow α} {y : α} {x : List ℝ}

/-- Some reals in the coefficients have their sum at the point between the sides. -/
def Encloses (s : RowCombination α) (x : List ℝ) : Prop :=
  ∃ a : List ℝ, List.Forall₂ (· ∈ ·) a s.coeffs ∧ dot a x ∈ s.sides

theorem encloses_start (n : Nat) (x : List ℝ) :
    Encloses (⟨.zero, List.replicate n .zero⟩ : RowCombination α) x := by
  refine ⟨List.replicate n 0, ?_, ?_⟩
  · induction n with
    | zero => exact .nil
    | succ n ih => exact .cons Interval.mem_zero ih
  · rw [dot_replicate_zero]
    exact Interval.mem_zero

omit [OrderedScalar α] in
/-- One position of a sum: left alone for a zero coefficient, else moved by a product. -/
theorem addCoeffs_cons {z : Interval α} {zs ys : List (Interval α)} {a : α} {as : List α}
    (success : addCoeffs y (z :: zs) (a :: as) = .ok ys) :
    ∃ z' rest, addCoeffs y zs as = .ok rest ∧ ys = z' :: rest ∧
      ((a == 0) = true ∧ z' = z ∨ ∃ pointed product, Interval.point a = .ok pointed ∧
        pointed.mulScalar y = .ok product ∧ z' = z + product) := by
  rw [addCoeffs] at success
  split at success
  · rename_i zero
    obtain ⟨_, kept, success⟩ := Checked.bind_eq_ok.mp success
    obtain rfl := Except.ok.inj kept
    obtain ⟨rest, later, success⟩ := Checked.bind_eq_ok.mp success
    exact ⟨z, rest, later, (Except.ok.inj success).symm, Or.inl ⟨zero, rfl⟩⟩
  · obtain ⟨pointed, hpoint, success⟩ := Checked.bind_eq_ok.mp success
    obtain ⟨product, hproduct, success⟩ := Checked.bind_eq_ok.mp success
    obtain ⟨_, moved, success⟩ := Checked.bind_eq_ok.mp success
    obtain rfl := Except.ok.inj moved
    obtain ⟨rest, later, success⟩ := Checked.bind_eq_ok.mp success
    exact ⟨_, rest, later, (Except.ok.inj success).symm,
      Or.inr ⟨pointed, product, hpoint, hproduct, rfl⟩⟩

omit [OrderedScalar α] in
theorem addCoeffs_nil {as : List α} {ys : List (Interval α)}
    (success : addCoeffs y [] as = .ok ys) : ys = [] := by
  cases as <;> exact (Except.ok.inj success).symm

omit [OrderedScalar α] in
theorem addCoeffs_length : ∀ {xs : List (Interval α)} {as : List α} {ys : List (Interval α)},
    addCoeffs y xs as = .ok ys → ys.length = xs.length := by
  intro xs
  induction xs with
  | nil =>
      intro as ys success
      rw [addCoeffs_nil success]
  | cons z zs ih =>
      intro as ys success
      cases as with
      | nil => rw [← Except.ok.inj success]
      | cons a as =>
          obtain ⟨z', rest, later, rfl, -⟩ := addCoeffs_cons success
          rw [List.length_cons, List.length_cons, ih later]

variable [EnclosingScalar α]

/-- Adding multiples of coefficients to the enclosures adds as much to the sum. -/
theorem addCoeffs_encloses : ∀ {xs : List (Interval α)} {as : List α} {ys : List (Interval α)}
    {w x : List ℝ}, addCoeffs y xs as = .ok ys → List.Forall₂ (· ∈ ·) w xs →
    x.length = xs.length →
    ∃ w', List.Forall₂ (· ∈ ·) w' ys ∧ dot w' x = dot w x + real y * dot (reals as) x := by
  intro xs
  induction xs with
  | nil =>
      intro as ys w x success members length
      cases members
      obtain rfl := List.eq_nil_of_length_eq_zero length
      exact ⟨[], addCoeffs_nil success ▸ .nil, by simp⟩
  | cons z zs ih =>
      intro as ys w x success members length
      cases members with
      | @cons u _ us _ head tail =>
        cases as with
        | nil =>
            obtain rfl := Except.ok.inj success
            exact ⟨u :: us, .cons head tail, by simp [reals]⟩
        | cons a as =>
            obtain ⟨t, ts, rfl⟩ : ∃ t ts, x = t :: ts := by
              cases x with
              | nil => simp at length
              | cons t ts => exact ⟨t, ts, rfl⟩
            obtain ⟨z', rest, later, rfl, moved⟩ := addCoeffs_cons success
            obtain ⟨ws, members, sum⟩ :=
              ih later tail (Nat.succ.inj (by simpa using length))
            have head' : u + real a * real y ∈ z' := by
              rcases moved with ⟨zero, rfl⟩ | ⟨pointed, product, hpoint, hproduct, rfl⟩
              · rw [real_of_beq_zero zero, zero_mul, add_zero]
                exact head
              · exact Interval.mem_add head
                  (Interval.mem_mulScalar hproduct (Interval.mem_point hpoint).2)
            refine ⟨_ :: ws, .cons head' members, ?_⟩
            rw [reals, List.map_cons, dot_cons, dot_cons, dot_cons, sum, reals]
            ring

/-- A row that holds at the point can be added with any multiplier. -/
theorem addRow_encloses (success : s.addRow r y = .ok t) (inv : s.Encloses x)
    (holds : r.Holds x) (length : x.length = s.coeffs.length) :
    t.Encloses x ∧ t.coeffs.length = s.coeffs.length := by
  obtain ⟨a, members, sum⟩ := inv
  rw [addRow] at success
  split at success
  · obtain rfl := Except.ok.inj success
    exact ⟨⟨a, members, sum⟩, rfl⟩
  · obtain ⟨sides, hsides, success⟩ := Checked.bind_eq_ok.mp success
    obtain ⟨product, hproduct, success⟩ := Checked.bind_eq_ok.mp success
    obtain ⟨coeffs, hcoeffs, success⟩ := Checked.bind_eq_ok.mp success
    obtain rfl := Except.ok.inj success
    obtain ⟨a', members', sum'⟩ := addCoeffs_encloses hcoeffs members length
    have row : dot (reals r.coeffs) x ∈ sides := Interval.eq_of_ofBounds hsides ▸ holds
    refine ⟨⟨a', members', ?_⟩, ?_⟩
    · rw [sum', mul_comm]
      exact Interval.mem_add sum (Interval.mem_mulScalar hproduct row)
    · exact addCoeffs_length hcoeffs

theorem foldlM_encloses : ∀ {pairs : List (LinearRow α × α)} {s t : RowCombination α},
    pairs.foldlM (fun s r => s.addRow r.1 r.2) s = .ok t → s.Encloses x →
    (∀ r ∈ pairs, r.1.Holds x) → x.length = s.coeffs.length →
    t.Encloses x ∧ t.coeffs.length = s.coeffs.length := by
  intro pairs
  induction pairs with
  | nil =>
      intro s t success inv _ _
      obtain rfl := Except.ok.inj success
      exact ⟨inv, rfl⟩
  | cons r pairs ih =>
      intro s t success inv holds length
      rw [List.foldlM_cons] at success
      obtain ⟨s', first, success⟩ := Checked.bind_eq_ok.mp success
      obtain ⟨inv', same⟩ := addRow_encloses first inv (holds r List.mem_cons_self) length
      obtain ⟨final, size⟩ := ih success inv'
        (fun r' hr' => holds r' (List.mem_cons_of_mem r hr')) (length.trans same.symm)
      exact ⟨final, size.trans same⟩

theorem ofRows_encloses {rows : List (LinearRow α)} {multipliers : List α}
    (success : ofRows rows multipliers x.length = .ok t) (holds : ∀ r ∈ rows, r.Holds x) :
    t.Encloses x ∧ t.coeffs.length = x.length := by
  have start : (List.replicate x.length (Interval.zero : Interval α)).length = x.length :=
    List.length_replicate
  obtain ⟨inv, length⟩ := foldlM_encloses success (encloses_start x.length x)
    (fun r hr => holds r.1 (List.of_mem_zip hr).1) start.symm
  exact ⟨inv, length.trans start⟩

/-- The reduced objective moves the enclosed sum from the combined coefficients to the objective's
own. -/
theorem addReduced_encloses : ∀ {cs : List α} {as xs : List (Interval α)}
    {bound result : Interval α} {w x : List ℝ} {b : ℝ},
    addReduced cs as xs bound = .ok result → List.Forall₂ (· ∈ ·) w as →
    List.Forall₂ (· ∈ ·) x xs → cs.length = xs.length → as.length = xs.length → b ∈ bound →
    b + (dot (reals cs) x - dot w x) ∈ result := by
  intro cs
  induction cs with
  | nil =>
      intro as xs bound result w x b success hw hx length _ hb
      obtain rfl := Except.ok.inj success
      obtain rfl := List.eq_nil_of_length_eq_zero length.symm
      cases hx
      simpa using hb
  | cons c cs ih =>
      intro as xs bound result w x b success hw hx length length' hb
      cases hx with
      | nil => simp at length
      | @cons t z ts zs head tail =>
        cases hw with
        | nil => simp at length'
        | @cons u a us as' weight weights =>
          rw [addReduced] at success
          obtain ⟨pointed, hpoint, success⟩ := Checked.bind_eq_ok.mp success
          have reduced : real c - u ∈ pointed - a :=
            Interval.mem_sub (Interval.mem_point hpoint).2 weight
          have moved : b + (real c - u) * t ∈
              if (pointed - a).isZero then bound else bound + (pointed - a) * z := by
            split
            · rename_i zero
              rw [Interval.eq_zero_of_isZero zero reduced, zero_mul, add_zero]
              exact hb
            · exact Interval.mem_add hb (Interval.mem_mul reduced head)
          have rest := ih success weights tail (Nat.succ.inj (by simpa using length))
            (Nat.succ.inj (by simpa using length')) moved
          rw [reals, List.map_cons, dot_cons, dot_cons]
          convert rest using 1
          rw [reals]
          ring

/-- The products of the combined coefficients that are not zero add up to the whole sum. -/
theorem exists_products : ∀ {as xs : List (Interval α)} {w x : List ℝ},
    List.Forall₂ (· ∈ ·) w as → List.Forall₂ (· ∈ ·) x xs →
    ∃ ps : List ℝ, List.Forall₂ (· ∈ ·) ps
      (((as.zip xs).filter fun t => !t.1.isZero).map fun t => t.1 * t.2) ∧ ps.sum = dot w x := by
  intro as
  induction as with
  | nil =>
      intro xs w x hw _
      cases hw
      exact ⟨[], .nil, rfl⟩
  | cons a as ih =>
      intro xs w x hw hx
      cases hw with
      | @cons u _ us _ weight weights =>
        cases hx with
        | nil => exact ⟨[], .nil, (dot_nil_right _).symm⟩
        | @cons t z ts zs head tail =>
          obtain ⟨ps, members, sum⟩ := ih weights tail
          rw [List.zip_cons_cons, dot_cons]
          by_cases zero : a.isZero = true
          · rw [List.filter_cons_of_neg (by simp [zero])]
            refine ⟨ps, members, ?_⟩
            rw [sum, Interval.eq_zero_of_isZero zero weight, zero_mul, zero_add]
          · rw [List.filter_cons_of_pos (by simp [zero])]
            exact ⟨u * t :: ps, .cons (Interval.mem_mul weight head) members, by
              rw [List.sum_cons, sum]⟩

/-! ## Combinations always exist -/

omit [OrderedScalar α] [EnclosingScalar α] in
theorem addCoeffs_ok (finite : isFinite y = true) : ∀ (xs : List (Interval α)) {as : List α},
    (∀ a ∈ as, isFinite a = true) → ∃ ys, addCoeffs y xs as = .ok ys := by
  intro xs
  induction xs with
  | nil =>
      intro as _
      cases as <;> exact ⟨[], rfl⟩
  | cons z zs ih =>
      intro as coefficients
      cases as with
      | nil => exact ⟨_, rfl⟩
      | cons a as =>
          obtain ⟨rest, later⟩ := ih fun a' ha' => coefficients a' (List.mem_cons_of_mem a ha')
          rw [addCoeffs, later, Interval.point_ok (coefficients a List.mem_cons_self)]
          split
          · exact ⟨_, rfl⟩
          · change ∃ ys, (do
              let product ← Interval.mulScalar ⟨a, a⟩ y
              _) = Except.ok ys
            rw [Interval.mulScalar_ok finite]
            exact ⟨_, rfl⟩

omit [EnclosingScalar α] in
theorem addRow_ok {n : Nat} (wellFormed : r.WellFormed n) (s : RowCombination α) (y : α) :
    ∃ t, s.addRow r y = .ok t ∧ (s.sides.Valid → t.sides.Valid) := by
  have finite := r.isFinite_usableMultiplier y
  obtain ⟨coeffs, hcoeffs⟩ := addCoeffs_ok finite s.coeffs wellFormed.finite
  rw [addRow, LinearRow.sides, Interval.ofBounds_ok wellFormed.sides, hcoeffs]
  split
  · exact ⟨s, rfl, id⟩
  · change ∃ t, (do
      let product ← Interval.mulScalar ⟨r.lower, r.upper⟩ (r.usableMultiplier y)
      _) = Except.ok t ∧ _
    rw [Interval.mulScalar_ok finite]
    exact ⟨_, rfl, fun _ => Interval.valid_add⟩

omit [EnclosingScalar α] in
theorem foldlM_ok {n : Nat} : ∀ {pairs : List (LinearRow α × α)} (s : RowCombination α),
    (∀ r ∈ pairs, r.1.WellFormed n) → s.sides.Valid →
    ∃ t, pairs.foldlM (fun s r => s.addRow r.1 r.2) s = .ok t ∧ t.sides.Valid := by
  intro pairs
  induction pairs with
  | nil => exact fun s _ valid => ⟨s, rfl, valid⟩
  | cons r pairs ih =>
      intro s wellFormed valid
      obtain ⟨t, first, kept⟩ := addRow_ok (wellFormed r List.mem_cons_self) s r.2
      rw [List.foldlM_cons, first]
      exact ih t (fun r' hr' => wellFormed r' (List.mem_cons_of_mem r hr')) (kept valid)

omit [EnclosingScalar α] in
theorem addReduced_ok : ∀ {cs : List α} (as xs : List (Interval α)) {bound : Interval α},
    (∀ c ∈ cs, isFinite c = true) → bound.Valid →
    ∃ result, addReduced cs as xs bound = .ok result ∧ result.Valid := by
  intro cs
  induction cs with
  | nil => exact fun as xs bound _ valid => ⟨bound, rfl, valid⟩
  | cons c cs ih =>
      intro as xs bound finite valid
      match as, xs with
      | [], _ => exact ⟨bound, rfl, valid⟩
      | _ :: _, [] => exact ⟨bound, rfl, valid⟩
      | a :: as, x :: xs =>
          rw [addReduced, Interval.point_ok (finite c List.mem_cons_self)]
          refine ih as xs (fun c' hc' => finite c' (List.mem_cons_of_mem c hc')) ?_
          split
          · exact valid
          · exact Interval.valid_add

end RowCombination

/-! ## The bound -/

section
variable {rows : List (LinearRow α)} {objective multipliers : List α} {b : Box α} {bound : α}
  {x : List ℝ}

/-- A computed bound is not above the objective at a point of the box that satisfies the rows. -/
theorem le_of_certifiedLowerBound [EnclosingScalar α]
    (success : certifiedLowerBound rows objective b multipliers = .ok bound)
    (length : objective.length = b.dim) (member : x ∈ b) (holds : ∀ r ∈ rows, r.Holds x) :
    IsNumber bound ∧ value bound ≤ dot (reals objective) x := by
  rw [certifiedLowerBound] at success
  obtain ⟨s, combined, success⟩ := Checked.bind_eq_ok.mp success
  obtain ⟨range, added, success⟩ := Checked.bind_eq_ok.mp success
  rw [← Box.length_of_mem member] at combined
  obtain ⟨⟨w, weights, sum⟩, size⟩ := RowCombination.ofRows_encloses combined holds
  have enclosed := RowCombination.addReduced_encloses added weights (Box.mem_def.mp member) length
    (size.trans (Box.length_of_mem member)) sum
  rw [add_sub_cancel] at enclosed
  rw [Interval.isEmpty_of_mem enclosed] at success
  obtain rfl := Except.ok.inj success
  exact ⟨enclosed.lo_number, enclosed.lo_le⟩

/-- Rows that are refuted over a box hold at none of its points. -/
theorem not_holds_of_certifiesInfeasibility [EnclosingScalar α] {direction : List α}
    (refuted : certifiesInfeasibility rows b direction = .ok true) (member : x ∈ b) :
    ¬∀ r ∈ rows, r.Holds x := by
  intro holds
  rw [certifiesInfeasibility] at refuted
  split at refuted
  · cases refuted
  · obtain ⟨s, combined, refuted⟩ := Checked.bind_eq_ok.mp refuted
    rw [← Box.length_of_mem member] at combined
    obtain ⟨⟨w, weights, sum⟩, -⟩ := RowCombination.ofRows_encloses combined holds
    obtain ⟨ps, members, products⟩ := RowCombination.exists_products weights (Box.mem_def.mp member)
    have zero := Interval.mem_sub (Interval.mem_sum members) sum
    rw [products, sub_self] at zero
    have contained := Interval.contains_of_mem zero number_zero value_zero
    have absurd := Except.ok.inj refuted
    rw [contained, Bool.not_true, Bool.and_false] at absurd
    exact Bool.noConfusion absurd

theorem ofRows_ok {n : Nat} (wellFormed : ∀ r ∈ rows, r.WellFormed n) (multipliers : List α) :
    ∃ s, RowCombination.ofRows rows multipliers n = .ok s ∧ s.sides.Valid :=
  RowCombination.foldlM_ok ⟨.zero, List.replicate n .zero⟩
    (fun r hr => wellFormed r.1 (List.of_mem_zip hr).1) Interval.valid_zero

theorem certifiedLowerBound_ok (multipliers : List α) (b : Box α)
    (wellFormed : ∀ r ∈ rows, r.WellFormed b.dim) (finite : ∀ c ∈ objective, isFinite c = true) :
    ∃ bound, certifiedLowerBound rows objective b multipliers = .ok bound ∧ IsNumber bound := by
  obtain ⟨s, combined, valid⟩ := ofRows_ok wellFormed multipliers
  obtain ⟨range, added, valid⟩ :=
    RowCombination.addReduced_ok s.coeffs b.components finite valid
  rw [certifiedLowerBound, combined]
  change ∃ bound, (do
    let bound ← RowCombination.addReduced objective s.coeffs b.components s.sides
    _) = Except.ok bound ∧ _
  rw [added]
  refine ⟨_, rfl, ?_⟩
  split
  · exact number_negInfinity
  · rename_i live
    exact (valid.proper_of_not_empty (by simpa using live)).lo_number

/-- No multipliers certify an infinite lower bound. -/
theorem certifiedLowerBound_ne_top (wellFormed : ∀ r ∈ rows, r.WellFormed b.dim)
    (finite : ∀ c ∈ objective, isFinite c = true)
    (success : certifiedLowerBound rows objective b multipliers = .ok bound) :
    value bound ≠ ⊤ := by
  obtain ⟨s, combined, valid⟩ := ofRows_ok wellFormed multipliers
  obtain ⟨range, added, valid⟩ :=
    RowCombination.addReduced_ok s.coeffs b.components finite valid
  rw [certifiedLowerBound, Checked.bind_of_ok combined, Checked.bind_of_ok added] at success
  obtain rfl := Except.ok.inj success
  split
  · rw [value_negInfinity]
    exact bot_ne_top
  · rename_i live
    exact (valid.proper_of_not_empty (by simpa using live)).lo_ne_top

/-- For every list of multipliers the bound exists, and it is not above the objective at any point
of the box that satisfies the rows. -/
theorem certifiedLowerBound_sound [EnclosingScalar α]
    (wellFormed : ∀ r ∈ rows, r.WellFormed b.dim) (length : objective.length = b.dim)
    (finite : ∀ c ∈ objective, isFinite c = true) :
    ∃ bound, certifiedLowerBound rows objective b multipliers = .ok bound ∧ IsNumber bound ∧
      ∀ x ∈ b, (∀ r ∈ rows, r.Holds x) → value bound ≤ dot (reals objective) x := by
  obtain ⟨bound, success, number⟩ := certifiedLowerBound_ok multipliers b wellFormed finite
  exact ⟨bound, success, number, fun x member holds =>
    (le_of_certifiedLowerBound success length member holds).2⟩

theorem certifiesInfeasibility_ok (direction : List α) (b : Box α)
    (wellFormed : ∀ r ∈ rows, r.WellFormed b.dim) :
    ∃ refuted, certifiesInfeasibility rows b direction = .ok refuted := by
  obtain ⟨s, combined, -⟩ := ofRows_ok wellFormed direction
  rw [certifiesInfeasibility, combined]
  split
  · exact ⟨_, rfl⟩
  · exact ⟨_, rfl⟩

/-- For every direction, of whatever length and content, there is a verdict, and rows that are
refuted hold together at no point of the box. -/
theorem certifiesInfeasibility_sound [EnclosingScalar α] {direction : List α}
    (wellFormed : ∀ r ∈ rows, r.WellFormed b.dim) :
    ∃ refuted, certifiesInfeasibility rows b direction = .ok refuted ∧
      (refuted = true → ∀ x ∈ b, ¬∀ r ∈ rows, r.Holds x) := by
  obtain ⟨refuted, success⟩ := certifiesInfeasibility_ok direction b wellFormed
  refine ⟨refuted, success, ?_⟩
  rintro rfl x member
  exact not_holds_of_certifiesInfeasibility success member

end

def halfPlane : LinearRow ExtendedInt := ⟨1, [1, 1], Scalar.infinity⟩

theorem halfPlane_bound :
    certifiedLowerBound [halfPlane] [1, 1] (Box.entire 2) [1] = .ok 1 ∧
      ∀ x ∈ (Box.entire 2 : Box ExtendedInt), (∀ r ∈ [halfPlane], r.Holds x) →
        1 ≤ dot (reals [(1 : ExtendedInt), 1]) x := by
  have ones : ∀ a ∈ [(1 : ExtendedInt), 1], isFinite a = true := by decide
  have wellFormed : ∀ r ∈ [halfPlane], r.WellFormed (Box.entire 2 : Box ExtendedInt).dim := by
    intro r hr
    obtain rfl := List.mem_singleton.mp hr
    have sides : (⟨1, Scalar.infinity⟩ : Interval ExtendedInt).Proper :=
      ⟨ExtendedInt.isNumber _, ExtendedInt.isNumber _, le_top, EReal.coe_ne_top _, top_ne_bot⟩
    exact ⟨rfl, ones, sides⟩
  have found : certifiedLowerBound [halfPlane] [1, 1] (Box.entire 2) [1] = .ok 1 := rfl
  obtain ⟨bound, success, -, sound⟩ := certifiedLowerBound_sound wellFormed rfl ones
  obtain rfl := Except.ok.inj (success.symm.trans found)
  refine ⟨found, fun x member holds => ?_⟩
  have below := sound x member holds
  rw [value_one] at below
  exact EReal.coe_le_coe_iff.mp below

def oppositePlane : LinearRow ExtendedInt := .le [1, 1] 0

/-- The difference of the two rows leaves no variable, and its sides leave out zero. -/
theorem apartPlanes_refuted :
    certifiesInfeasibility [halfPlane, oppositePlane] (Box.entire 2) [1, -1] = .ok true ∧
      ∀ x ∈ (Box.entire 2 : Box ExtendedInt),
        ¬∀ r ∈ [halfPlane, oppositePlane], r.Holds x := by
  have ones : ∀ a ∈ [(1 : ExtendedInt), 1], isFinite a = true := by decide
  have wellFormed : ∀ r ∈ [halfPlane, oppositePlane],
      r.WellFormed (Box.entire 2 : Box ExtendedInt).dim := by
    intro r hr
    rcases List.mem_cons.mp hr with rfl | hr
    · exact ⟨rfl, ones, ⟨ExtendedInt.isNumber _, ExtendedInt.isNumber _, le_top,
        EReal.coe_ne_top _, top_ne_bot⟩⟩
    · obtain rfl := List.mem_singleton.mp hr
      exact ⟨rfl, ones, ⟨ExtendedInt.isNumber _, ExtendedInt.isNumber _, bot_le, bot_ne_top,
        EReal.coe_ne_bot _⟩⟩
  have found : certifiesInfeasibility [halfPlane, oppositePlane] (Box.entire 2) [1, -1] =
      .ok true := rfl
  obtain ⟨refuted, success, sound⟩ := certifiesInfeasibility_sound wellFormed
  exact ⟨found, sound (Except.ok.inj (success.symm.trans found))⟩

end BoxSearch
