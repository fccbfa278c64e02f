import BoxSearch.Proofs.Binary64.Sampling
import BoxSearch.Proofs.Interval.Enclosure
import BoxSearch.Search.Bisector

/-!
# Splitting

An interval with a number inside always splits, whatever its bounds: the split point falls back on a
number strictly inside when rounding moves it onto a bound. A bisector therefore makes progress
whenever it finds an eligible component, and it finds one whenever there is one. The two boxes have
nothing in common but the split plane.
-/
set_option autoImplicit false

namespace BoxSearch

open OrderedScalar Scalar Checked

/-- A sum rounded up is a number whatever it is a sum of, and one half is a proper fraction. -/
class MeasuringScalar (α : Type) [Scalar α] : Prop where
  number_addUp : ∀ x y : α, IsNumber (addUp x y)
  half_between : (0 : α) < 0.5 ∧ (0.5 : α) < 1

variable {α : Type} [Scalar α] [OrderedScalar α]

theorem Scalar.lt_of_le_of_lt {x y z : α} (first : x ≤ y) (second : y < z) : x < z := by
  rw [le_iff] at first
  rw [lt_iff] at second ⊢
  exact ⟨first.1, second.2.1, first.2.2.trans_lt second.2.2⟩

/-! ## Widths in binary64 -/

namespace Binary64

theorem number_of_isNaN {x : Float} (number : x.isNaN = false) : IsNumber x := by
  rw [isNumber_iff]
  intro nan
  change (datum x).isNaN = false at number
  rw [nan] at number
  cases number

theorem number_stepUp (x : Float) : IsNumber (stepUp x) := by
  rw [stepUp]
  split
  · exact OrderedScalar.number_infinity
  · rename_i number
    exact number_nextUp (number_of_isNaN (Bool.eq_false_iff.mpr number))

/-- A sum that is no number or infinite is stepped up, which gives a number. -/
theorem number_addUp (x y : Float) : IsNumber (addUp x y) := by
  unfold addUp
  dsimp only
  split
  · split
    · rename_i above
      exact (OrderedScalar.lt_iff.mp above).2.1
    · exact number_stepUp _
  · rename_i finite
    rw [Bool.not_eq_true', Bool.not_eq_false] at finite
    have number := Scalar.number_of_isFinite ((isFinite_iff_datum (x + y)).mpr finite)
    split
    · exact number_nextUp number
    · exact number

instance : MeasuringScalar Float where
  number_addUp := number_addUp
  half_between := by decide +kernel

end Binary64

/-! ## Intervals -/

namespace Interval
variable {x : Interval α} {t : ℝ} {minWidth ratio s : α}

/-- The interval is wider than the minimum, and some number lies strictly inside. -/
def Eligible (x : Interval α) (minWidth : α) : Prop := minWidth < x.width ∧ x.isBisectable = true

theorem number_width [MeasuringScalar α] (x : Interval α) : IsNumber x.width := by
  rw [width]
  split
  · exact number_zero
  · exact MeasuringScalar.number_addUp _ _

omit [OrderedScalar α] in
theorem exists_mid (live : x.isEmpty = false) : ∃ v, x.mid = .ok v := by
  rw [mid, live, if_neg Bool.false_ne_true]
  split
  · exact ⟨_, rfl⟩
  · exact ⟨_, rfl⟩
  · exact ⟨_, rfl⟩
  · split
    · exact ⟨_, rfl⟩
    · exact ⟨_, rfl⟩

omit [OrderedScalar α] in
theorem exists_splitPoint (live : x.isEmpty = false) (ratio : α) :
    ∃ s, x.splitPoint ratio = .ok s := by
  have inward : ∀ first : α, ∃ s, (if first ≤ x.lo ∨ x.hi ≤ first then
      if x.lo < 0.5 * x.lo + 0.5 * x.hi ∧ 0.5 * x.lo + 0.5 * x.hi < x.hi then
        pure (0.5 * x.lo + 0.5 * x.hi)
      else pure (nextUp x.lo)
    else pure first : Checked α α) = .ok s := by
    intro first
    split
    · split
      · exact ⟨_, rfl⟩
      · exact ⟨_, rfl⟩
    · exact ⟨_, rfl⟩
  rw [splitPoint]
  split
  · obtain ⟨first, central⟩ := exists_mid live
    rw [central]
    exact inward first
  · exact inward _

variable [RepresentingScalar α] [SplittingScalar α]

/-- An interval with a number inside splits at a number strictly inside. -/
theorem Valid.exists_bisect (valid : x.Valid) (bisectable : x.isBisectable = true)
    (positive : 0 < ratio) (small : ratio < 1) :
    ∃ s, x.bisect ratio = .ok (⟨x.lo, s⟩, ⟨s, x.hi⟩) ∧ x.lo < s ∧ s < x.hi := by
  have live : x.isEmpty = false := by
    rw [isBisectable, Bool.and_eq_true, Bool.not_eq_true'] at bisectable
    exact bisectable.1
  obtain ⟨s, found⟩ := exists_splitPoint live ratio
  have split : x.bisect ratio = .ok (⟨x.lo, s⟩, ⟨s, x.hi⟩) := by
    simp only [bisect, bisectable, positive, small, found, Bool.not_true, Bool.false_eq_true,
      decide_true, Bool.and_self, if_false]
    rfl
  obtain ⟨s', same, -, above, below⟩ := (valid.proper_of_not_empty live).between_of_bisect split
  obtain rfl : s = s' := congrArg Interval.hi same
  exact ⟨s, split, above, below⟩

end Interval

/-! ## Boxes -/

/-- The boxes lie in `b` and are cut from it by a plane across the inside of one component: they
cover `b`, both lack a part of it, have only points of the plane in common and agree with `b` in
every other component. -/
structure Box.Halved (b : Box α) (var : Nat) (split : α) (l r : Box α) : Prop where
  component : ∃ x, b.components[var]? = some x ∧ x.lo < split ∧ split < x.hi ∧
    l.components[var]? = some ⟨x.lo, split⟩ ∧ r.components[var]? = some ⟨split, x.hi⟩
  left_within : l.Within b
  right_within : r.Within b
  cover : ∀ t, t ∈ b → t ∈ l ∨ t ∈ r
  meet : ∀ t, t ∈ l → t ∈ r → t[var]? = some (real split)
  left_strict : ∃ t, t ∈ b ∧ t ∉ l
  right_strict : ∃ t, t ∈ b ∧ t ∉ r
  others : ∀ j, j ≠ var → l.components[j]? = b.components[j]? ∧ r.components[j]? = b.components[j]?

namespace Box
variable {b : Box α} {var : Nat} {x : Interval α} {ratio s : α}

/-- Some point of a box has a given coordinate of one component. -/
theorem exists_mem_at (proper : ∀ x ∈ b.components, x.Proper)
    (position : b.components[var]? = some x) {t : ℝ} (inside : t ∈ x) :
    ∃ p : List ℝ, p ∈ b ∧ p[var]? = some t := by
  obtain ⟨p, member⟩ := exists_mem proper
  have bounded : var < p.length := by
    rw [length_of_mem member]
    exact (List.getElem?_eq_some_iff.mp position).1
  exact ⟨p.set var t, set_mem member position inside, List.getElem?_set_self bounded⟩

variable [RepresentingScalar α] [SplittingScalar α]

theorem exists_halved (proper : ∀ x ∈ b.components, x.Proper)
    (position : b.components[var]? = some x) (bisectable : x.isBisectable = true)
    (positive : 0 < ratio) (small : ratio < 1) :
    ∃ s l r, b.bisect var ratio = .ok (l, r) ∧ b.Halved var s l r := by
  have proper_x := proper x (List.mem_of_getElem? position)
  have bounded := (List.getElem?_eq_some_iff.mp position).1
  obtain ⟨s, split, above, below⟩ :=
    Interval.Valid.exists_bisect (Or.inr proper_x) bisectable positive small
  have success : b.bisect var ratio =
      .ok (⟨b.components.set var ⟨x.lo, s⟩⟩, ⟨b.components.set var ⟨s, x.hi⟩⟩) := by
    rw [bisect, component, elementAt_eq_ok.mpr position]
    change (x.bisect ratio >>= fun _ => _) = _
    rw [split]
    rfl
  have replaced : ∀ z, (b.components.set var z)[var]? = some z := fun z =>
    List.getElem?_set_self bounded
  have coordinate : ∀ {z : Interval α} {t : List ℝ},
      t ∈ (⟨b.components.set var z⟩ : Box α) → ∃ u, t[var]? = some u ∧ u ∈ z := fun member =>
    mem_component (elementAt_eq_ok.mpr (replaced _)) member
  obtain ⟨left_within, right_within⟩ := within_of_bisect proper success
  refine ⟨s, _, _, success, ⟨x, position, above, below, replaced _, replaced _⟩, left_within,
    right_within, fun t => mem_or_mem_of_bisect success, ?_, ?_, ?_, fun j other => ?_⟩
  · intro t left right
    obtain ⟨u, found, upper⟩ := coordinate left
    obtain ⟨u', found', lower⟩ := coordinate right
    rw [found] at found' ⊢
    obtain rfl := Option.some.inj found'
    rw [real_of_value (le_antisymm lower.lo_le upper.le_hi)]
  · obtain ⟨u, inside, beyond⟩ := proper_x.exists_lt_mem (lt_iff.mp below).2.2
    obtain ⟨t, member, found⟩ := exists_mem_at proper position inside
    refine ⟨t, member, fun left => ?_⟩
    obtain ⟨u', found', upper⟩ := coordinate left
    rw [found] at found'
    obtain rfl := Option.some.inj found'
    exact absurd upper.le_hi (not_le.mpr beyond)
  · obtain ⟨u, inside, beyond⟩ := proper_x.exists_mem_lt (lt_iff.mp above).2.2
    obtain ⟨t, member, found⟩ := exists_mem_at proper position inside
    refine ⟨t, member, fun right => ?_⟩
    obtain ⟨u', found', lower⟩ := coordinate right
    rw [found] at found'
    obtain rfl := Option.some.inj found'
    exact absurd lower.lo_le (not_le.mpr beyond)
  · exact ⟨List.getElem?_set_ne (Ne.symm other), List.getElem?_set_ne (Ne.symm other)⟩

end Box

/-! ## The first of the largest scores -/

namespace Box
variable {β : Type} {score : β → Option α} {xs : List β} {x : β} {i : Nat} {s t : α}

structure FirstMax (score : β → Option α) (xs : List β) (i : Nat) (s : α) : Prop where
  attained : ∃ x, xs[i]? = some x ∧ score x = some s
  le : ∀ (j : Nat) (y : β) (t : α), xs[j]? = some y → score y = some t → t ≤ s
  first : ∀ (j : Nat) (y : β) (t : α), j < i → xs[j]? = some y → score y = some t → t < s

theorem getElem?_concat_cases {j : Nat} {y : β} (found : (xs ++ [x])[j]? = some y) :
    xs[j]? = some y ∨ j = xs.length ∧ y = x := by
  by_cases inside : j < xs.length
  · rw [List.getElem?_append_left inside] at found
    exact Or.inl found
  · have bounded := (List.getElem?_eq_some_iff.mp found).1
    rw [List.length_append, List.length_singleton] at bounded
    obtain rfl : j = xs.length := by omega
    exact Or.inr ⟨rfl, by simpa using found.symm⟩

omit [OrderedScalar α] in
theorem FirstMax.concat_smaller (largest : FirstMax score xs i s)
    (smaller : ∀ t, score x = some t → t ≤ s) : FirstMax score (xs ++ [x]) i s := by
  obtain ⟨z, at_i, scored⟩ := largest.attained
  have bounded := (List.getElem?_eq_some_iff.mp at_i).1
  refine ⟨⟨z, ?_, scored⟩, fun j y t found scored_y => ?_, fun j y t before found => ?_⟩
  · rw [List.getElem?_append_left bounded]
    exact at_i
  · rcases getElem?_concat_cases found with old | ⟨-, rfl⟩
    · exact largest.le j y t old scored_y
    · exact smaller t scored_y
  · rw [List.getElem?_append_left (before.trans bounded)] at found
    exact largest.first j y t before found

theorem FirstMax.concat_larger (scored : score x = some t) (number : IsNumber t)
    (larger : ∀ (j : Nat) (y : β) (u : α), xs[j]? = some y → score y = some u → u < t) :
    FirstMax score (xs ++ [x]) xs.length t := by
  refine ⟨⟨x, by simp, scored⟩, fun j y u found scored_y => ?_, fun j y u before found => ?_⟩
  · rcases getElem?_concat_cases found with old | ⟨-, rfl⟩
    · exact le_of_lt (larger j y u old scored_y)
    · rw [scored] at scored_y
      exact Option.some.inj scored_y ▸ le_refl number
  · rw [List.getElem?_append_left before] at found
    exact larger j y u found

/-- The scan behind `argmax`: how many elements it has seen and the best of them. -/
def scan (score : β → Option α) (xs : List β) : Nat × Option (Nat × α) :=
  xs.foldl (fun acc x => (acc.1 + 1,
    match score x, acc.2 with
    | none, best => best
    | some s, none => some (acc.1, s)
    | some s, some (i, t) => if s ≤ t then some (i, t) else some (acc.1, s))) (0, none)

omit [OrderedScalar α] in
theorem argmax_eq_scan (score : β → Option α) (xs : List β) :
    argmax score xs = ((scan score xs).2).map Prod.fst := rfl

/-- What the scan has found is the first of the largest scores, or no element has one. -/
theorem scan_spec (numbers : ∀ x ∈ xs, ∀ s, score x = some s → IsNumber s) :
    (scan score xs).1 = xs.length ∧
      ((scan score xs).2 = none ∧ (∀ x ∈ xs, score x = none) ∨
        ∃ i s, (scan score xs).2 = some (i, s) ∧ FirstMax score xs i s) := by
  induction xs using List.reverseRecOn with
  | nil => exact ⟨rfl, Or.inl ⟨rfl, List.forall_mem_nil _⟩⟩
  | append_singleton xs x ih =>
      obtain ⟨seen, best⟩ := ih fun y hy => numbers y (List.mem_append_left _ hy)
      have step : scan score (xs ++ [x]) = ((scan score xs).1 + 1,
          match score x, (scan score xs).2 with
          | none, best => best
          | some s, none => some ((scan score xs).1, s)
          | some s, some (i, t) => if s ≤ t then some (i, t) else some ((scan score xs).1, s)) :=
        List.foldl_append
      rw [step, seen]
      refine ⟨by simp, ?_⟩
      have number_x := numbers x (List.mem_append_right _ List.mem_cons_self)
      rcases best with ⟨none_yet, unscored⟩ | ⟨i, t, found, largest⟩
      · rw [none_yet]
        cases scored : score x with
        | none =>
            refine Or.inl ⟨rfl, fun y hy => ?_⟩
            rcases List.mem_append.mp hy with old | last
            · exact unscored y old
            · rw [List.mem_singleton.mp last, scored]
        | some s =>
            refine Or.inr ⟨xs.length, s, rfl, FirstMax.concat_larger scored (number_x s scored) ?_⟩
            intro j y u old scored_y
            rw [unscored y (List.mem_of_getElem? old)] at scored_y
            cases scored_y
      · rw [found]
        cases scored : score x with
        | none => exact Or.inr ⟨i, t, rfl, largest.concat_smaller (by simp [scored])⟩
        | some s =>
            dsimp only
            by_cases smaller : s ≤ t
            · rw [if_pos smaller]
              refine Or.inr ⟨i, t, rfl, largest.concat_smaller fun u same => ?_⟩
              rw [scored] at same
              exact Option.some.inj same ▸ smaller
            · rw [if_neg smaller]
              have number_t : IsNumber t := by
                obtain ⟨z, at_i, scored_z⟩ := largest.attained
                exact numbers z (List.mem_append_left _ (List.mem_of_getElem? at_i)) t scored_z
              have above := lt_of_not_le (number_x s scored) number_t smaller
              refine Or.inr ⟨xs.length, s, rfl,
                FirstMax.concat_larger scored (number_x s scored) fun j y u old scored_y => ?_⟩
              exact lt_of_le_of_lt (largest.le j y u old scored_y) above

theorem argmax_eq_none (numbers : ∀ x ∈ xs, ∀ s, score x = some s → IsNumber s) :
    argmax score xs = none ↔ ∀ x ∈ xs, score x = none := by
  rw [argmax_eq_scan]
  rcases (scan_spec numbers).2 with ⟨none_found, unscored⟩ | ⟨i, s, found, largest⟩
  · simp only [none_found, Option.map_none, true_iff]
    exact unscored
  · obtain ⟨x, at_i, scored⟩ := largest.attained
    simp only [found, Option.map_some, reduceCtorEq, false_iff]
    intro unscored
    rw [unscored x (List.mem_of_getElem? at_i)] at scored
    cases scored

theorem argmax_eq_some (numbers : ∀ x ∈ xs, ∀ s, score x = some s → IsNumber s)
    (success : argmax score xs = some i) : ∃ s, FirstMax score xs i s := by
  rw [argmax_eq_scan] at success
  rcases (scan_spec numbers).2 with ⟨none_found, -⟩ | ⟨j, s, found, largest⟩
  · rw [none_found] at success
    cases success
  · rw [found] at success
    obtain rfl : j = i := Option.some.inj success
    exact ⟨s, largest⟩

end Box

/-! ## Bisectors -/

namespace Bisector
variable {b : Box α} {minWidth : α} {next var : Nat}

def Regular : Bisector α → Prop
  | largestFirst ratio => 0 < ratio ∧ ratio < 1
  | roundRobin _ => True

/-- The variable is eligible; the choice among wide components is the first of the widest. -/
def Prefers (s : Bisector α) (b : Box α) (minWidth : α) (var : Nat) : Prop :=
  ∃ x, b.components[var]? = some x ∧ x.Eligible minWidth ∧
    match s with
    | largestFirst _ => ∀ (j : Nat) (y : Interval α), b.components[j]? = some y →
        y.Eligible minWidth → y.width ≤ x.width ∧ (j < var → y.width < x.width)
    | roundRobin _ => True

theorem exists_rotated (next : Nat) {j n : Nat} (inside : j < n) : ∃ k < n, (next + k) % n = j := by
  have rest : next % n < n := Nat.mod_lt next (by omega)
  have parts : n * (next / n) + next % n = next := Nat.div_add_mod next n
  by_cases ahead : next % n ≤ j
  · have turned : next + (j - next % n) = j + n * (next / n) := by omega
    refine ⟨j - next % n, by omega, ?_⟩
    rw [turned, Nat.add_mul_mod_self_left, Nat.mod_eq_of_lt inside]
  · have turned : next + (j + n - next % n) = j + n * (next / n + 1) := by
      rw [Nat.mul_add, Nat.mul_one]
      omega
    exact ⟨j + n - next % n, by omega,
      by rw [turned, Nat.add_mul_mod_self_left, Nat.mod_eq_of_lt inside]⟩

omit [OrderedScalar α] in
theorem eligible_iff {x : Interval α} :
    (decide (minWidth < x.width) && x.isBisectable) = true ↔ x.Eligible minWidth := by
  rw [Bool.and_eq_true, decide_eq_true_iff]
  rfl

omit [OrderedScalar α] in
theorem nextEligible_eq_none (next : Nat) :
    nextEligible b minWidth next = none ↔ ∀ x ∈ b.components, ¬x.Eligible minWidth := by
  rw [nextEligible, List.find?_eq_none]
  constructor
  · intro refused x hx eligible
    obtain ⟨j, inside, rfl⟩ := List.getElem_of_mem hx
    obtain ⟨k, bounded, turned⟩ := exists_rotated next inside
    have listed : (next + k) % b.dim ∈ (List.range b.dim).map fun k => (next + k) % b.dim :=
      List.mem_map.mpr ⟨k, List.mem_range.mpr bounded, rfl⟩
    have refused_j := refused _ listed
    rw [Box.dim, turned, List.getElem?_eq_getElem inside, Option.any_some] at refused_j
    exact refused_j (eligible_iff.mpr eligible)
  · intro refused j _ accepted
    obtain ⟨x, found, eligible⟩ := (Option.any_eq_true _ _).mp accepted
    exact refused x (List.mem_of_getElem? found) (eligible_iff.mp eligible)

omit [OrderedScalar α] in
theorem nextEligible_eq_some (success : nextEligible b minWidth next = some var) :
    ∃ x, b.components[var]? = some x ∧ x.Eligible minWidth := by
  have accepted := List.find?_some (p := fun j : Nat => (b.components[j]?).any
    fun x : Interval α => decide (minWidth < x.width) && x.isBisectable) success
  obtain ⟨x, found, eligible⟩ := (Option.any_eq_true _ _).mp accepted
  exact ⟨x, found, eligible_iff.mp eligible⟩

variable [MeasuringScalar α]

theorem score_eq_some (number : IsNumber minWidth) {x : Interval α} {t : α} :
    (if x.width ≤ minWidth ∨ !x.isBisectable then none else some x.width) = some t ↔
      x.Eligible minWidth ∧ x.width = t := by
  have wider : ¬x.width ≤ minWidth ↔ minWidth < x.width := by
    rw [le_iff_value x.number_width number, lt_iff_value number x.number_width, not_le]
  split
  · rename_i narrow
    simp only [reduceCtorEq, false_iff, not_and]
    intro eligible
    rcases narrow with narrow | flat
    · exact absurd narrow (wider.mpr eligible.1)
    · rw [eligible.2] at flat
      cases flat
  · rename_i wide
    rw [not_or, wider, Bool.not_eq_true', Bool.not_eq_false] at wide
    rw [Option.some_inj]
    exact ⟨fun same => ⟨wide, same⟩, And.right⟩

theorem widestEligible_eq_none (number : IsNumber minWidth) :
    widestEligible b minWidth = none ↔ ∀ x ∈ b.components, ¬x.Eligible minWidth := by
  rw [widestEligible, Box.argmax_eq_none]
  · refine forall₂_congr fun x _ => ?_
    rw [Option.eq_none_iff_forall_ne_some]
    simp only [ne_eq, score_eq_some number, not_and]
    exact ⟨fun none eligible => none _ eligible rfl,
      fun refused _ eligible => absurd eligible refused⟩
  · intro x _ t scored
    exact ((score_eq_some number).mp scored).2 ▸ x.number_width

theorem widestEligible_eq_some (number : IsNumber minWidth) {ratio : α}
    (success : widestEligible b minWidth = some var) :
    (largestFirst ratio).Prefers b minWidth var := by
  obtain ⟨t, largest⟩ := Box.argmax_eq_some (fun x _ t scored =>
    ((score_eq_some number).mp scored).2 ▸ x.number_width) success
  obtain ⟨x, found, scored⟩ := largest.attained
  obtain ⟨eligible, rfl⟩ := (score_eq_some number).mp scored
  refine ⟨x, found, eligible, fun j y at_j eligible_y => ?_⟩
  have scored_y := (score_eq_some number).mpr ⟨eligible_y, rfl⟩
  exact ⟨largest.le j y _ at_j scored_y, fun before => largest.first j y _ before at_j scored_y⟩

theorem choose_eq_none (s : Bisector α) (number : IsNumber minWidth) :
    (s.choose b minWidth).1 = none ↔ ∀ x ∈ b.components, ¬x.Eligible minWidth := by
  cases s with
  | largestFirst ratio => exact widestEligible_eq_none number
  | roundRobin next =>
      rw [← nextEligible_eq_none next, choose]
      cases nextEligible b minWidth next <;> simp

theorem choose_eq_some (s : Bisector α) (number : IsNumber minWidth)
    (success : (s.choose b minWidth).1 = some var) : s.Prefers b minWidth var := by
  cases s with
  | largestFirst ratio => exact widestEligible_eq_some number success
  | roundRobin next =>
      rw [choose] at success
      cases found : nextEligible b minWidth next with
      | none =>
          rw [found] at success
          cases success
      | some j =>
          rw [found] at success
          obtain rfl : j = var := Option.some.inj success
          obtain ⟨x, at_j, eligible⟩ := nextEligible_eq_some found
          exact ⟨x, at_j, eligible, trivial⟩

omit [OrderedScalar α] in
theorem Regular.ratio_between {s : Bisector α} (regular : s.Regular) (b : Box α) (minWidth : α) :
    0 < (s.choose b minWidth).2.ratio ∧ (s.choose b minWidth).2.ratio < 1 := by
  cases s with
  | largestFirst r => exact regular
  | roundRobin next =>
      rw [choose]
      split <;> exact MeasuringScalar.half_between

end Bisector

variable [RepresentingScalar α] [SplittingScalar α] [MeasuringScalar α]

/-- Every interval with a number inside splits strictly inside, and a bisector splits every box with
an eligible component, so that both cells of a split are smaller than the cell. Depths are those
that 64 bits can count. -/
theorem splitting_progresses :
    (∀ (x : Interval α) (ratio : α), x.Valid → x.isBisectable = true → 0 < ratio → ratio < 1 →
      ∃ s, x.bisect ratio = .ok (⟨x.lo, s⟩, ⟨s, x.hi⟩) ∧ x.lo < s ∧ s < x.hi) ∧
    ∀ (s : Bisector α) (b : Box α) (minWidth : α), s.Regular → b.Valid → b.isEmpty = false →
      IsNumber minWidth →
      ((s.choose b minWidth).1 = none ↔ ∀ x ∈ b.components, ¬x.Eligible minWidth) ∧
      ∀ var, (s.choose b minWidth).1 = some var → s.Prefers b minWidth var ∧
        ∀ c : Cell α, c.domain = b → c.depth + 1 < 2 ^ 64 → ∃ split left right,
          (s.choose b minWidth).2.split c var = .ok (left, right) ∧
          left.depth = c.depth + 1 ∧ right.depth = c.depth + 1 ∧
          b.Halved var split left.domain right.domain := by
  refine ⟨fun x ratio valid => valid.exists_bisect, ?_⟩
  intro s b minWidth regular valid live number
  refine ⟨s.choose_eq_none number, fun var chosen => ?_⟩
  have prefers := s.choose_eq_some number chosen
  refine ⟨prefers, ?_⟩
  rintro c rfl -
  obtain ⟨x, position, eligible, -⟩ := prefers
  obtain ⟨positive, small⟩ := regular.ratio_between c.domain minWidth
  obtain ⟨split, l, r, success, halved⟩ :=
    Box.exists_halved (valid.proper live) position eligible.2 positive small
  refine ⟨split, .ofDomain l (c.depth + 1), .ofDomain r (c.depth + 1), ?_, rfl, rfl, halved⟩
  rw [Bisector.split, Cell.bisect, success]
  rfl

namespace Overflowing

def box : Box Float := ⟨[⟨1, 1.0000000000000004⟩, .entire, ⟨-largest, largest⟩]⟩

theorem valid_box : box.Valid := by
  intro x listed
  rcases listed with _ | ⟨_, _ | ⟨_, _ | ⟨_, ⟨⟩⟩⟩⟩
  · exact Or.inr (Interval.proper_of_finite (by decide +kernel) (by decide +kernel)
      (by decide +kernel))
  · exact Or.inr (Interval.proper_of_mem (Interval.mem_entire 0))
  · exact Or.inr (Interval.proper_of_finite (by decide +kernel) (by decide +kernel)
      (by decide +kernel))

/-- The last two widths are both infinite, and the first of them is split. -/
theorem line_split :
    (Bisector.largestFirst (0.25 : Float)).Regular ∧ box.isEmpty = false ∧
    ((Bisector.largestFirst 0.25).choose box 0).1 = some 1 ∧
    (∃ split left right,
      (Bisector.largestFirst 0.25).split (.ofDomain box 7) 1 = .ok (left, right) ∧
      left.depth = 8 ∧ right.depth = 8 ∧ box.Halved 1 split left.domain right.domain) ∧
    ∃ s, (⟨1, 1.0000000000000004⟩ : Interval Float).bisect 0.25 =
      .ok (⟨1, s⟩, ⟨s, 1.0000000000000004⟩) ∧ 1 < s ∧ s < 1.0000000000000004 := by
  have regular : (Bisector.largestFirst (0.25 : Float)).Regular := by
    constructor <;> decide +kernel
  have live : box.isEmpty = false := by decide +kernel
  have chosen : ((Bisector.largestFirst 0.25).choose box 0).1 = some 1 := by decide +kernel
  obtain ⟨intervals, boxes⟩ := splitting_progresses (α := Float)
  obtain ⟨-, splits⟩ := boxes _ box 0 regular valid_box live number_zero
  refine ⟨regular, live, chosen, (splits 1 chosen).2 (.ofDomain box 7) rfl (by decide), ?_⟩
  exact intervals ⟨1, 1.0000000000000004⟩ 0.25 (valid_box _ List.mem_cons_self) (by decide +kernel)
    regular.1 regular.2

end Overflowing

end BoxSearch
