import Mathlib.Order.CompleteLattice.Basic
import BoxSearch.Proofs.Agreement.Admissible
import BoxSearch.Proofs.Binary64.Order

/-!
# The hull of the points in enough boxes

A point in `q` boxes has admissible cells on both sides of it in every dimension, and the reals of
an admissible cell are coordinates of such points. The first and the last admissible cell of a
dimension therefore end at the infimum and at the supremum of the points.
-/
set_option autoImplicit false

namespace BoxSearch.Agreement

open OrderedScalar Scalar

variable {α : Type} [Scalar α] [OrderedScalar α]

/-! ## The ends of the hull -/

omit [Scalar α] [OrderedScalar α] in
/-- In a sorted list the first accepted element comes before all accepted ones. -/
theorem find?_first {β : Type} {r : β → β → Prop} {accept : β → Bool} {xs : List β} {b c : β}
    (sorted : xs.Pairwise r) (found : xs.find? accept = some b) (hc : c ∈ xs)
    (accepted : accept c = true) : c = b ∨ r b c := by
  obtain ⟨-, before, after, rfl, rejected⟩ := List.find?_eq_some_iff_append.mp found
  rcases List.mem_append.mp hc with early | late
  · have := rejected c early
    simp [accepted] at this
  · rcases List.mem_cons.mp late with same | late
    · exact Or.inl same
    · have tail := (List.pairwise_append.mp sorted).2.1
      exact Or.inr ((List.pairwise_cons.mp tail).1 c late)

theorem gridCells_sorted (q d : Nat) (boxes : List (Box α)) :
    (gridCells q (column boxes d)).Pairwise fun c c' =>
      value c.extent.lo ≤ value c'.extent.lo ∧ value c.extent.hi ≤ value c'.extent.hi := by
  rw [gridCells]
  refine List.Pairwise.filter _ (List.pairwise_map.mpr ?_)
  exact (stretches_sorted (ascending_breakpoints (column boxes d))).imp fun h => h

def range (q n : Nat) (boxes : List (Box α)) (d : Nat) : Option (Interval α) :=
  sweep q ((columns n boxes).map (gridCells q)) d

omit [OrderedScalar α] in
theorem cells_at {q n d : Nat} {boxes : List (Box α)} (dims : ∀ b ∈ boxes, b.dim = n)
    (hd : d < n) :
    ((columns n boxes).map (gridCells q)).getD d [] = gridCells q (column boxes d) := by
  rw [columns_eq dims]
  simp [List.getD_eq_getElem?_getD, hd]

omit [OrderedScalar α] in
theorem range_none {q n d : Nat} {boxes : List (Box α)} (dims : ∀ b ∈ boxes, b.dim = n)
    (hd : d < n) (nothing : range q n boxes d = none) :
    ∀ c ∈ gridCells q (column boxes d), ¬admissible q n boxes d c = true := by
  rw [range, sweep, cells_at dims hd] at nothing
  intro c hc accepted
  split at nothing
  · simp at nothing
  · rename_i missing
    have some_first : ∃ first, (gridCells q (column boxes d)).find? (admissible q n boxes d) =
        some first := Option.isSome_iff_exists.mp (List.find?_isSome.mpr ⟨c, hc, accepted⟩)
    have some_last : ∃ last,
        (gridCells q (column boxes d)).reverse.find? (admissible q n boxes d) = some last :=
      Option.isSome_iff_exists.mp
        (List.find?_isSome.mpr ⟨c, List.mem_reverse.mpr hc, accepted⟩)
    obtain ⟨first, hfirst⟩ := some_first
    obtain ⟨last, hlast⟩ := some_last
    exact missing first last hfirst hlast

theorem range_some {q n d : Nat} {boxes : List (Box α)} {x : Interval α}
    (dims : ∀ b ∈ boxes, b.dim = n) (hd : d < n) (found : range q n boxes d = some x) :
    ∃ first ∈ gridCells q (column boxes d), ∃ last ∈ gridCells q (column boxes d),
      admissible q n boxes d first = true ∧ admissible q n boxes d last = true ∧
      x = ⟨first.extent.lo, last.extent.hi⟩ ∧
      ∀ c ∈ gridCells q (column boxes d), admissible q n boxes d c = true →
        value x.lo ≤ value c.extent.lo ∧ value c.extent.hi ≤ value x.hi := by
  rw [range, sweep, cells_at dims hd] at found
  split at found
  · rename_i first last hfirst hlast
    obtain rfl := Option.some.inj found
    have sorted := gridCells_sorted q d boxes
    have backwards := List.pairwise_reverse.mpr (sorted.imp fun h => h)
    refine ⟨first, List.mem_of_find?_eq_some hfirst, last,
      List.mem_reverse.mp (List.mem_of_find?_eq_some hlast), List.find?_some hfirst,
      List.find?_some hlast, rfl, fun c hc accepted => ⟨?_, ?_⟩⟩
    · rcases find?_first sorted hfirst hc accepted with rfl | later
      · exact le_rfl
      · exact later.1
    · rcases find?_first backwards hlast (List.mem_reverse.mpr hc) accepted with rfl | earlier
      · exact le_rfl
      · exact earlier.2
  · simp at found

theorem proper_extent [SteppingScalar α] {q d : Nat} {boxes : List (Box α)} {c : GridCell α}
    (hc : c ∈ gridCells q (column boxes d)) : c.extent.Proper := by
  obtain ⟨s, hs, rfl, -⟩ := mem_gridCells.mp hc
  have ascending := ascending_breakpoints (column boxes d)
  exact (isStretch_of_mem ascending s hs).proper ascending

theorem range_proper [SteppingScalar α] {q n d : Nat} {boxes : List (Box α)} {x : Interval α}
    (dims : ∀ b ∈ boxes, b.dim = n) (hd : d < n) (found : range q n boxes d = some x) :
    x.Proper := by
  obtain ⟨first, hfirst, last, hlast, accepted, -, rfl, between⟩ := range_some dims hd found
  have proper := proper_extent hfirst
  exact ⟨proper.lo_number, (proper_extent hlast).hi_number,
    proper.ordered.trans (between first hfirst accepted).2, proper.lo_ne_top,
    (proper_extent hlast).hi_ne_bot⟩

theorem range_ne_none [SteppingScalar α] {q n d : Nat} {boxes : List (Box α)} {p : List ℝ}
    (dims : ∀ b ∈ boxes, b.dim = n) (hd : d < n) (hp : p ∈ agreeing q boxes) :
    range q n boxes d ≠ none := by
  intro nothing
  obtain ⟨s, hs, -, represents⟩ :=
    (covers_stretches (ascending_breakpoints (column boxes d)) (p.getD d 0)).exists_lo_le
  obtain ⟨c, hc, admitted, -⟩ := exists_admissible dims hd hp hs represents
  exact range_none dims hd nothing c hc admitted

theorem mem_range [SteppingScalar α] {q n d : Nat} {boxes : List (Box α)} {x : Interval α}
    {p : List ℝ} (dims : ∀ b ∈ boxes, b.dim = n) (hd : d < n)
    (found : range q n boxes d = some x) (hp : p ∈ agreeing q boxes) : p.getD d 0 ∈ x := by
  have proper := range_proper dims hd found
  obtain ⟨-, -, -, -, -, -, -, between⟩ := range_some dims hd found
  have cover := covers_stretches (ascending_breakpoints (column boxes d)) (p.getD d 0)
  refine ⟨proper.lo_number, proper.hi_number, ?_, ?_⟩
  · obtain ⟨s, hs, below, represents⟩ := cover.exists_lo_le
    obtain ⟨c, hc, admitted, extent⟩ := exists_admissible dims hd hp hs represents
    exact (extent ▸ (between c hc admitted).1).trans below
  · obtain ⟨s, hs, above, represents⟩ := cover.exists_le_hi
    obtain ⟨c, hc, admitted, extent⟩ := exists_admissible dims hd hp hs represents
    exact above.trans (extent ▸ (between c hc admitted).2)

theorem range_lo [SteppingScalar α] {q n d : Nat} {boxes : List (Box α)} {x : Interval α}
    (live : Live n boxes) (hd : d < n) (found : range q n boxes d = some x) :
    value x.lo = ⨅ p ∈ agreeing q boxes, ((p.getD d 0 : ℝ) : EReal) := by
  apply le_antisymm
  · exact le_iInf₂ fun p hp => (mem_range live.dims hd found hp).lo_le
  · obtain ⟨first, hfirst, last, -, accepted, -, rfl, -⟩ := range_some live.dims hd found
    refine le_of_forall_gt fun u above => ?_
    obtain ⟨t, ht, below⟩ := (proper_extent hfirst).exists_mem_lt above
    obtain ⟨p, hp, rfl⟩ := exists_agreeing live hd hfirst accepted ht
    exact (iInf₂_le p hp).trans_lt below

theorem range_hi [SteppingScalar α] {q n d : Nat} {boxes : List (Box α)} {x : Interval α}
    (live : Live n boxes) (hd : d < n) (found : range q n boxes d = some x) :
    value x.hi = ⨆ p ∈ agreeing q boxes, ((p.getD d 0 : ℝ) : EReal) := by
  apply le_antisymm
  · obtain ⟨first, -, last, hlast, -, accepted, rfl, -⟩ := range_some live.dims hd found
    refine le_of_forall_lt fun u below => ?_
    obtain ⟨t, ht, above⟩ := (proper_extent hlast).exists_lt_mem below
    obtain ⟨p, hp, rfl⟩ := exists_agreeing live hd hlast accepted ht
    have le_supremum : ((p.getD d 0 : ℝ) : EReal) ≤
        ⨆ p ∈ agreeing q boxes, ((p.getD d 0 : ℝ) : EReal) := le_iSup₂_of_le p hp le_rfl
    exact above.trans_le le_supremum
  · exact iSup₂_le fun p hp => (mem_range live.dims hd found hp).le_hi

/-! ## The hull -/

omit [Scalar α] [OrderedScalar α] in
theorem exists_of_mapM_none {β γ : Type} {f : β → Option γ} : ∀ {xs : List β},
    xs.mapM f = none → ∃ x ∈ xs, f x = none := by
  intro xs
  induction xs with
  | nil =>
      intro none
      exact absurd none (Option.some_ne_none _)
  | cons x xs ih =>
      intro none
      rw [List.mapM_cons] at none
      cases head : f x with
      | none => exact ⟨x, List.mem_cons_self, head⟩
      | some y =>
          cases tail : xs.mapM f with
          | none =>
              obtain ⟨x', member, missing⟩ := ih tail
              exact ⟨x', List.mem_cons_of_mem x member, missing⟩
          | some rest => simp [head, tail] at none

/-- The least box around a set of points, in normal form. -/
structure IsHull (n : Nat) (points : Set (List ℝ)) (hull : Box α) : Prop where
  dim : hull.dim = n
  valid : ∀ x ∈ hull.components, x.Valid
  lower : ∀ d < n, value (slice d hull).lo = ⨅ p ∈ points, ((p.getD d 0 : ℝ) : EReal)
  upper : ∀ d < n, value (slice d hull).hi = ⨆ p ∈ points, ((p.getD d 0 : ℝ) : EReal)
  empty_iff : (hull = Box.empty n ∧ hull.isEmpty = true) ↔ points = ∅

omit [OrderedScalar α] in
theorem slice_empty (n d : Nat) : slice d (Box.empty n : Box α) = .empty := by
  rw [slice, List.getD_eq_getElem?_getD]
  rcases Nat.lt_or_ge d n with inside | outside
  · simp [Box.empty, Box.filled, inside]
  · simp [Box.empty, Box.filled, Nat.not_lt.mpr outside]

theorem isHull_empty {n : Nat} (positive : 0 < n) : IsHull n ∅ (Box.empty n : Box α) where
  dim := by simp [Box.dim, Box.empty, Box.filled]
  valid x hx := by
    rw [Box.empty, Box.filled, List.mem_replicate] at hx
    exact Or.inl hx.2
  lower d _ := by
    rw [slice_empty]
    simp [Interval.empty]
  upper d _ := by
    rw [slice_empty]
    simp [Interval.empty]
  empty_iff := by
    refine iff_of_true ⟨rfl, ?_⟩ rfl
    rw [Box.isEmpty, List.any_eq_true]
    refine ⟨.empty, ?_, Interval.isEmpty_empty⟩
    rw [Box.empty, Box.filled, List.mem_replicate]
    exact ⟨positive.ne', rfl⟩

omit [OrderedScalar α] in
theorem hull_eq (q n : Nat) (boxes : List (Box α)) :
    hull q n boxes = match (List.range n).mapM (range q n boxes) with
      | some ranges => ⟨ranges⟩
      | none => .empty n := rfl

omit [OrderedScalar α] in
theorem range_eq_slice {q n : Nat} {boxes : List (Box α)} {ranges : List (Interval α)}
    (found : (List.range n).mapM (range q n boxes) = some ranges) :
    ranges.length = n ∧ ∀ d < n, range q n boxes d = some (slice d ⟨ranges⟩) := by
  have each := Checked.forall₂_of_mapM_of_bind Option.some.inj Option.bind_eq_some_iff.mp found
  have length : ranges.length = n := by simpa using each.length_eq.symm
  refine ⟨length, fun d hd => ?_⟩
  have := (List.forall₂_iff_get.mp each).2 d (by simpa using hd) (by omega)
  simpa [slice, List.getD_eq_getElem?_getD, length, hd] using this

theorem mem_hull [SteppingScalar α] {q n : Nat} {boxes : List (Box α)} {p : List ℝ}
    (dims : ∀ b ∈ boxes, b.dim = n) (length : p.length = n) (hp : p ∈ agreeing q boxes) :
    p ∈ hull q n boxes := by
  rw [hull_eq]
  cases found : (List.range n).mapM (range q n boxes) with
  | none =>
      obtain ⟨d, hd, nothing⟩ := exists_of_mapM_none found
      exact absurd nothing (range_ne_none dims (List.mem_range.mp hd) hp)
  | some ranges =>
      obtain ⟨size, swept⟩ := range_eq_slice found
      exact (mem_box_iff size).mpr ⟨length, fun d hd => mem_range dims hd (swept d hd) hp⟩

theorem isHull_hull [SteppingScalar α] {q n : Nat} {boxes : List (Box α)} (live : Live n boxes)
    (enough : q ≤ boxes.length) : IsHull n (agreeing q boxes) (hull q n boxes) := by
  classical
  rw [hull_eq]
  cases found : (List.range n).mapM (range q n boxes) with
  | none =>
      obtain ⟨d, hd, nothing⟩ := exists_of_mapM_none found
      rw [List.mem_range] at hd
      have no_point : agreeing q boxes = ∅ :=
        Set.eq_empty_of_forall_notMem fun p hp => range_ne_none live.dims hd hp nothing
      rw [no_point]
      exact isHull_empty (by omega)
  | some ranges =>
      obtain ⟨length, swept⟩ := range_eq_slice found
      have proper : ∀ x ∈ ranges, x.Proper := by
        intro x hx
        obtain ⟨d, inside, rfl⟩ := List.getElem_of_mem hx
        have here := swept d (by omega)
        simp only [slice, List.getD_eq_getElem?_getD, List.getElem?_eq_getElem inside,
          Option.getD_some] at here
        exact range_proper live.dims (by omega) here
      have some_point : (agreeing q boxes).Nonempty := by
        rcases Nat.eq_zero_or_pos n with zero | positive
        · refine ⟨[], enough.trans_eq (List.countP_eq_length.mpr fun b hb => ?_).symm⟩
          rw [decide_eq_true_iff, mem_box_iff (live.dims b hb)]
          exact ⟨zero.symm, by omega⟩
        · obtain ⟨first, hfirst, -, -, accepted, -⟩ :=
            range_some live.dims positive (swept 0 positive)
          obtain ⟨t, ht⟩ := (proper_extent hfirst).exists_mem
          obtain ⟨p, hp, -⟩ := exists_agreeing live positive hfirst accepted ht
          exact ⟨p, hp⟩
      refine ⟨length, fun x hx => Or.inr (proper x hx), fun d hd => range_lo live hd (swept d hd),
        fun d hd => range_hi live hd (swept d hd), iff_of_false ?_ some_point.ne_empty⟩
      rintro ⟨-, crossed⟩
      rw [Box.isEmpty, List.any_eq_true] at crossed
      obtain ⟨x, hx, crossed⟩ := crossed
      rw [(proper x hx).isEmpty_eq_false] at crossed
      exact Bool.noConfusion crossed

theorem support_live (boxes : List (Box α)) (p : List ℝ) :
    support (boxes.filter fun b => !b.isEmpty) p = support boxes p := by
  classical
  rw [support, support, List.countP_filter]
  refine List.countP_congr fun b _ => ?_
  rw [Bool.and_eq_true, decide_eq_true_iff]
  refine ⟨fun h => h.1, fun member => ⟨member, ?_⟩⟩
  rw [Box.isEmpty_of_mem member]
  rfl

theorem live_filter {n : Nat} {boxes : List (Box α)} (dims : ∀ b ∈ boxes, b.dim = n)
    (valid : ∀ b ∈ boxes, ∀ x ∈ b.components, x.Valid) :
    Live n (boxes.filter fun b => !b.isEmpty) where
  dims b hb := dims b (List.mem_filter.mp hb).1
  proper b hb d hd := by
    obtain ⟨member, live⟩ := List.mem_filter.mp hb
    have inside : d < b.components.length := by
      have := dims b member
      rw [Box.dim] at this
      omega
    have component : slice d b ∈ b.components := by
      simp only [slice, List.getD_eq_getElem?_getD, List.getElem?_eq_getElem inside,
        Option.getD_some]
      exact List.getElem_mem inside
    refine (valid b member _ component).proper_of_not_empty ?_
    rw [Box.isEmpty, Bool.not_eq_true', List.any_eq_false] at live
    simpa using live _ component

/-- No point in `q` of the boxes is lost, whatever the boxes are. -/
theorem mem_of_qIntersection [SteppingScalar α] {q : Nat} {boxes : List (Box α)} {hull : Box α}
    {p : List ℝ} (success : qIntersection boxes q = .ok hull) (hp : p ∈ agreeing q boxes) :
    p ∈ hull := by
  classical
  have live_points : p ∈ agreeing q (boxes.filter fun b => !b.isEmpty) := by
    change q ≤ support _ p
    rw [support_live]
    exact hp
  have enough : q ≤ (boxes.filter fun b => !b.isEmpty).length :=
    le_trans live_points List.countP_le_length
  rw [qIntersection] at success
  split at success
  · cases success
  rename_i positive
  split at success
  · cases success
  simp only at success
  split at success
  · cases success
  · rename_i agreed
    rw [if_neg (by omega)] at success
    obtain rfl := Except.ok.inj success
    have dims : ∀ b ∈ boxes, b.dim = (boxes.head?.map Box.dim).getD 0 := by
      intro b hb
      obtain ⟨i, inside, rfl⟩ := List.getElem_of_mem hb
      have accepted := List.find?_eq_none.mp agreed (boxes[i], i)
        (List.mem_zipIdx_iff_getElem?.mpr (List.getElem?_eq_getElem inside))
      simpa using accepted
    have some_box : 0 < support boxes p := (Nat.pos_of_ne_zero positive).trans_le hp
    obtain ⟨b, hb, member⟩ := List.countP_pos_iff.mp some_box
    have length : p.length = b.dim := Box.length_of_mem (of_decide_eq_true member)
    exact mem_hull (fun b hb => dims b (List.mem_filter.mp hb).1) (length.trans (dims b hb))
      live_points

/-- The q-intersection is the least box around the points in at least `q` of the boxes, whatever
mixture of bounded, unbounded, degenerate and empty components the boxes have. -/
theorem qIntersection_isHull [SteppingScalar α] {n q : Nat} {boxes : List (Box α)}
    (dims : ∀ b ∈ boxes, b.dim = n) (valid : ∀ b ∈ boxes, ∀ x ∈ b.components, x.Valid)
    (positive : 1 ≤ q) (enough : q ≤ boxes.length) :
    ∃ hull, qIntersection boxes q = .ok hull ∧ IsHull n (agreeing q boxes) hull := by
  have live := live_filter dims valid
  have same_points : agreeing q (boxes.filter fun b => !b.isEmpty) = agreeing q boxes := by
    ext p
    change q ≤ support _ p ↔ q ≤ support _ p
    rw [support_live]
  have head : (boxes.head?.map Box.dim).getD 0 = n := by
    match boxes, enough with
    | [], enough =>
        rw [List.length_nil] at enough
        omega
    | b :: rest, _ => exact dims b List.mem_cons_self
  have one_dimension : boxes.zipIdx.find? (fun b => b.1.dim != n) = none := by
    rw [List.find?_eq_none]
    intro b member
    simp [dims b.1 (List.fst_mem_of_mem_zipIdx member)]
  rw [qIntersection, if_neg (by omega), if_neg (by omega)]
  simp only [head, one_dimension]
  by_cases few : (boxes.filter fun b => !b.isEmpty).length < q
  · have no_point : agreeing q boxes = ∅ := by
      refine Set.eq_empty_of_forall_notMem fun p hp => ?_
      rw [← same_points] at hp
      exact absurd (le_trans hp List.countP_le_length) (by omega)
    have positive : 0 < n := by
      refine Nat.pos_of_ne_zero fun zero => ?_
      have all_live : (boxes.filter fun b => !b.isEmpty) = boxes := by
        refine List.filter_eq_self.mpr fun b hb => ?_
        have none : b.components = [] := List.eq_nil_of_length_eq_zero ((dims b hb).trans zero)
        simp [Box.isEmpty, none]
      rw [all_live] at few
      omega
    rw [if_pos few, no_point]
    exact ⟨_, rfl, isHull_empty positive⟩
  · rw [if_neg few, ← same_points]
    exact ⟨_, rfl, isHull_hull live (by omega)⟩

def sightings : List (Box Float) :=
  [⟨[.normalized 0 2, .normalized 0 2]⟩, ⟨[.normalized 1 3, .normalized 1 3]⟩,
    ⟨[.normalized (-1) Scalar.infinity, .normalized 2 2]⟩, ⟨[.normalized 0 1, .normalized 5 4]⟩]

theorem sightings_isHull :
    ∃ hull, qIntersection sightings 2 = .ok hull ∧ IsHull 2 (agreeing 2 sightings) hull := by
  refine qIntersection_isHull ?_ ?_ (by decide) (by decide)
  · simp [sightings, Box.dim]
  · intro b hb x hx
    simp only [sightings, List.mem_cons, List.not_mem_nil, or_false] at hb
    rcases hb with rfl | rfl | rfl | rfl <;>
      · simp only [List.mem_cons, List.not_mem_nil, or_false] at hx
        rcases hx with rfl | rfl <;> exact Interval.valid_normalized _ _

end BoxSearch.Agreement
