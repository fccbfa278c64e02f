import Mathlib.Data.List.Pairwise
import BoxSearch.Proofs.Interval.Membership
import BoxSearch.Contractor.QIntersection

/-!
# The cells of one dimension

The breakpoints are strictly ascending and hold every finite bound. A stretch between them is
decided by its representative: an interval with bounds at the breakpoints that contains the
representative holds the whole stretch, and every real has stretches on both sides of it whose
representatives lie in every such interval around it.
-/
set_option autoImplicit false

namespace BoxSearch.Agreement

open OrderedScalar Scalar

variable {α : Type} [Scalar α] [OrderedScalar α]

/-! ## Breakpoints -/

structure Ascending (vs : List α) : Prop where
  finite : ∀ v ∈ vs, isFinite v = true
  sorted : vs.Pairwise fun v w => value v < value w

theorem Ascending.tail {v : α} {vs : List α} (h : Ascending (v :: vs)) : Ascending vs :=
  ⟨fun w hw => h.finite w (List.mem_cons_of_mem v hw), (List.pairwise_cons.mp h.sorted).2⟩

theorem Ascending.head_lt {v w : α} {vs : List α} (h : Ascending (v :: vs)) (hw : w ∈ vs) :
    value v < value w := (List.pairwise_cons.mp h.sorted).1 w hw

omit [OrderedScalar α] in
theorem dropRepeats_subset (vs : List α) : ∀ v ∈ dropRepeats vs, v ∈ vs := by
  induction vs using dropRepeats.induct with
  | case1 x y rest same ih =>
      rw [dropRepeats, if_pos same]
      intro v hv
      rcases List.mem_cons.mp (ih v hv) with rfl | later
      · exact List.mem_cons_self
      · exact List.mem_cons_of_mem _ (List.mem_cons_of_mem _ later)
  | case2 x y rest differ ih =>
      rw [dropRepeats, if_neg differ]
      intro v hv
      rcases List.mem_cons.mp hv with rfl | later
      · exact List.mem_cons_self
      · exact List.mem_cons_of_mem _ (ih v later)
  | case3 vs _ =>
      rw [dropRepeats]
      · exact fun v hv => hv
      · assumption

theorem dropRepeats_places (vs : List α) :
    ∀ v ∈ vs, ∃ w ∈ dropRepeats vs, value w = value v := by
  induction vs using dropRepeats.induct with
  | case1 x y rest same ih =>
      rw [dropRepeats, if_pos same]
      intro v hv
      rcases List.mem_cons.mp hv with rfl | later
      · exact ih v List.mem_cons_self
      · rcases List.mem_cons.mp later with rfl | later
        · obtain ⟨w, hw, place⟩ := ih x List.mem_cons_self
          exact ⟨w, hw, place.trans (beq_iff.mp same).2.2⟩
        · exact ih v (List.mem_cons_of_mem x later)
  | case2 x y rest differ ih =>
      rw [dropRepeats, if_neg differ]
      intro v hv
      rcases List.mem_cons.mp hv with rfl | later
      · exact ⟨v, List.mem_cons_self, rfl⟩
      · obtain ⟨w, hw, place⟩ := ih v later
        exact ⟨w, List.mem_cons_of_mem x hw, place⟩
  | case3 vs _ =>
      rw [dropRepeats]
      · exact fun v hv => ⟨v, hv, rfl⟩
      · assumption

theorem dropRepeats_sorted (vs : List α) (numbers : ∀ v ∈ vs, IsNumber v)
    (sorted : vs.Pairwise fun v w => value v ≤ value w) :
    (dropRepeats vs).Pairwise fun v w => value v < value w := by
  induction vs using dropRepeats.induct with
  | case1 x y rest same ih =>
      rw [dropRepeats, if_pos same]
      obtain ⟨head, tail⟩ := List.pairwise_cons.mp sorted
      refine ih (fun v hv => ?_) (List.pairwise_cons.mpr ⟨fun v hv => ?_, ?_⟩)
      · rcases List.mem_cons.mp hv with rfl | later
        · exact numbers v List.mem_cons_self
        · exact numbers v (List.mem_cons_of_mem _ (List.mem_cons_of_mem _ later))
      · exact head v (List.mem_cons_of_mem y hv)
      · exact (List.pairwise_cons.mp tail).2
  | case2 x y rest differ ih =>
      rw [dropRepeats, if_neg differ]
      obtain ⟨head, tail⟩ := List.pairwise_cons.mp sorted
      have xNumber : IsNumber x := numbers x List.mem_cons_self
      have yNumber : IsNumber y := numbers y (by simp)
      have step : value x < value y := by
        refine lt_of_le_of_ne (head y List.mem_cons_self) fun equal => ?_
        exact differ ((beq_iff_value xNumber yNumber).mpr equal)
      refine List.pairwise_cons.mpr ⟨fun v hv => ?_, ih ?_ tail⟩
      · rcases List.mem_cons.mp (dropRepeats_subset _ v hv) with rfl | later
        · exact step
        · exact step.trans_le ((List.pairwise_cons.mp tail).1 v later)
      · exact fun v hv => numbers v (List.mem_cons_of_mem x hv)
  | case3 vs short =>
      rw [dropRepeats]
      · match vs, short with
        | [], _ => exact List.Pairwise.nil
        | [v], _ => exact List.pairwise_singleton _ v
        | v :: w :: rest, short => exact (short v w rest rfl).elim
      · assumption

theorem ascending_breakpoints (xs : List (Interval α)) : Ascending (breakpoints xs) := by
  let bounds := (xs.flatMap fun x => [x.lo, x.hi]).filter Scalar.isFinite
  let sorted := bounds.mergeSort fun a b => (Scalar.totalCompare a b).isLE
  have finite : ∀ v ∈ sorted, isFinite v = true := by
    intro v hv
    exact (List.mem_filter.mp (List.mem_mergeSort.mp hv)).2
  have ordered : sorted.Pairwise fun v w => (Scalar.totalCompare v w).isLE = true := by
    refine List.pairwise_mergeSort ?_ ?_ bounds
    · intro a b c
      exact totalCompare_trans
    · intro a b
      rw [Bool.or_eq_true]
      exact totalCompare_total a b
  refine ⟨fun v hv => finite v (dropRepeats_subset _ v hv), dropRepeats_sorted _ ?_ ?_⟩
  · exact fun v hv => number_of_isFinite (finite v hv)
  · refine List.Pairwise.imp_of_mem (fun {v w} hv hw le => ?_) ordered
    exact value_le_of_totalCompare (number_of_isFinite (finite v hv))
      (number_of_isFinite (finite w hw)) le

theorem place_of_bound {xs : List (Interval α)} {x : Interval α} {v : α} (hx : x ∈ xs)
    (hv : v = x.lo ∨ v = x.hi) (finite : isFinite v = true) :
    ∃ w ∈ breakpoints xs, value w = value v := by
  apply dropRepeats_places
  rw [List.mem_mergeSort, List.mem_filter, List.mem_flatMap]
  exact ⟨⟨x, hx, by simpa using hv⟩, finite⟩

/-- The bounds are infinite or at breakpoints. -/
structure CutAt (vs : List α) (x : Interval α) : Prop extends x.Proper where
  lo_break : value x.lo = ⊥ ∨ ∃ v ∈ vs, value v = value x.lo
  hi_break : value x.hi = ⊤ ∨ ∃ v ∈ vs, value v = value x.hi

theorem cutAt_breakpoints {xs : List (Interval α)} {x : Interval α} (hx : x ∈ xs)
    (proper : x.Proper) : CutAt (breakpoints xs) x where
  toProper := proper
  lo_break := by
    by_cases bottom : value x.lo = ⊥
    · exact Or.inl bottom
    · exact Or.inr (place_of_bound hx (Or.inl rfl)
        (isFinite_iff.mpr ⟨proper.lo_number, proper.lo_ne_top, bottom⟩))
  hi_break := by
    by_cases top : value x.hi = ⊤
    · exact Or.inl top
    · exact Or.inr (place_of_bound hx (Or.inr rfl)
        (isFinite_iff.mpr ⟨proper.hi_number, top, proper.hi_ne_bot⟩))

/-- No breakpoint lies strictly between the two places. -/
def Gap (vs : List α) (l u : EReal) : Prop := ∀ v ∈ vs, value v ≤ l ∨ u ≤ value v

theorem CutAt.lo_le_of_gap {vs : List α} {x : Interval α} {l u : EReal} (cut : CutAt vs x)
    (gap : Gap vs l u) (below : value x.lo < u) : value x.lo ≤ l := by
  rcases cut.lo_break with bottom | ⟨v, hv, place⟩
  · rw [bottom]
    exact bot_le
  · rcases gap v hv with low | high
    · exact place ▸ low
    · exact absurd (place ▸ high) (not_le.mpr below)

theorem CutAt.le_hi_of_gap {vs : List α} {x : Interval α} {l u : EReal} (cut : CutAt vs x)
    (gap : Gap vs l u) (above : l < value x.hi) : u ≤ value x.hi := by
  rcases cut.hi_break with top | ⟨v, hv, place⟩
  · rw [top]
    exact le_top
  · rcases gap v hv with low | high
    · exact absurd (place ▸ low) (not_le.mpr above)
    · exact place ▸ high

/-! ## Stretches -/

/-- A stretch whose ends are not part of it, with its representative. The representative of an
outer stretch may be the infinity it reaches to. -/
structure OpenStretch (vs : List α) (s : Interval α × α) : Prop where
  proper : s.1.Proper
  number : IsNumber s.2
  gap : Gap vs (value s.1.lo) (value s.1.hi)
  lo_lt : value s.1.lo < value s.2 ∨ value s.1.lo = ⊥
  lt_hi : value s.2 < value s.1.hi ∨ value s.1.hi = ⊤

/-- A breakpoint, or a stretch between breakpoints. -/
def IsStretch (vs : List α) (s : Interval α × α) : Prop :=
  (∃ v ∈ vs, s = (⟨v, v⟩, v)) ∨ OpenStretch vs s

theorem proper_point {v : α} (finite : isFinite v = true) : (⟨v, v⟩ : Interval α).Proper := by
  obtain ⟨number, notTop, notBottom⟩ := isFinite_iff.mp finite
  exact ⟨number, number, le_rfl, notTop, notBottom⟩

theorem IsStretch.proper {vs : List α} {s : Interval α × α} (hs : IsStretch vs s)
    (ascending : Ascending vs) : s.1.Proper := by
  rcases hs with ⟨v, hv, rfl⟩ | between
  · exact proper_point (ascending.finite v hv)
  · exact between.proper

/-- An interval that contains the representative of a stretch holds the stretch. -/
theorem IsStretch.mem_of_contains {vs : List α} {s : Interval α × α} {x : Interval α} {t : ℝ}
    (hs : IsStretch vs s) (cut : CutAt vs x) (hx : x.contains s.2 = true) (ht : t ∈ s.1) :
    t ∈ x := by
  rw [Interval.contains, Bool.and_eq_true, decide_eq_true_iff, decide_eq_true_iff, le_iff,
    le_iff] at hx
  obtain ⟨⟨loNumber, -, lower⟩, -, hiNumber, upper⟩ := hx
  rcases hs with ⟨v, -, rfl⟩ | between
  · exact ⟨loNumber, hiNumber, lower.trans ht.lo_le, ht.le_hi.trans upper⟩
  · refine ⟨loNumber, hiNumber, le_trans ?_ ht.lo_le, ht.le_hi.trans ?_⟩
    · refine cut.lo_le_of_gap between.gap ?_
      rcases between.lt_hi with below | top
      · exact lower.trans_lt below
      · exact top ▸ lt_top_iff_ne_top.mpr cut.lo_ne_top
    · refine cut.le_hi_of_gap between.gap ?_
      rcases between.lo_lt with above | bottom
      · exact above.trans_le upper
      · exact bottom ▸ bot_lt_iff_ne_bot.mpr cut.hi_ne_bot

/-- The representative lies in every interval around the real. -/
def Represents (vs : List α) (s : Interval α × α) (t : ℝ) : Prop :=
  ∀ x, CutAt vs x → t ∈ x → x.contains s.2 = true

theorem contains_iff {x : Interval α} {v : α} (proper : x.Proper) (number : IsNumber v) :
    x.contains v = true ↔ value x.lo ≤ value v ∧ value v ≤ value x.hi := by
  rw [Interval.contains, Bool.and_eq_true, decide_eq_true_iff, decide_eq_true_iff,
    le_iff_value proper.lo_number number, le_iff_value number proper.hi_number]

theorem OpenStretch.represents {vs : List α} {s : Interval α × α} {t : ℝ}
    (between : OpenStretch vs s) (lower : value s.1.lo < t) (upper : (t : EReal) < value s.1.hi) :
    Represents vs s t := by
  intro x cut ht
  rw [contains_iff cut.toProper between.number]
  have low := cut.lo_le_of_gap between.gap (ht.lo_le.trans_lt upper)
  have high := cut.le_hi_of_gap between.gap (lower.trans_le ht.le_hi)
  constructor
  · rcases between.lo_lt with above | bottom
    · exact low.trans above.le
    · exact (le_bot_iff.mp (bottom ▸ low)).trans_le bot_le
  · rcases between.lt_hi with below | top
    · exact below.le.trans high
    · exact le_top.trans_eq (top_le_iff.mp (top ▸ high)).symm

/-- How the stretches from a place on lie around a real: at a breakpoint, inside a stretch, or
in a gap without a representative, between two breakpoints. -/
inductive Covers (vs : List α) (stretches : List (Interval α × α)) (t : ℝ) : Prop where
  | at_break (v : α) (finite : isFinite v = true) (member : (⟨v, v⟩, v) ∈ stretches)
      (place : value v = t)
  | inside (s : Interval α × α) (member : s ∈ stretches) (between : OpenStretch vs s)
      (lower : value s.1.lo < t) (upper : (t : EReal) < value s.1.hi)
  | skipped (v w : α) (v_finite : isFinite v = true) (w_finite : isFinite w = true)
      (v_member : (⟨v, v⟩, v) ∈ stretches) (w_member : (⟨w, w⟩, w) ∈ stretches)
      (lower : value v < t) (upper : (t : EReal) < value w) (gap : Gap vs (value v) (value w))

theorem Covers.mono {vs : List α} {some all : List (Interval α × α)} {t : ℝ}
    (h : Covers vs some t) (subset : ∀ s ∈ some, s ∈ all) : Covers vs all t := by
  cases h with
  | at_break v finite member place => exact .at_break v finite (subset _ member) place
  | inside s member between lower upper => exact .inside s (subset _ member) between lower upper
  | skipped v w v_finite w_finite v_member w_member lower upper gap =>
      exact .skipped v w v_finite w_finite (subset _ v_member) (subset _ w_member) lower upper gap

/-- Some stretch with a representative of the real does not lie above it. -/
theorem Covers.exists_lo_le {vs : List α} {stretches : List (Interval α × α)} {t : ℝ}
    (h : Covers vs stretches t) :
    ∃ s ∈ stretches, value s.1.lo ≤ t ∧ Represents vs s t := by
  cases h with
  | at_break v finite member place =>
      refine ⟨_, member, place.le, fun x cut ht => ?_⟩
      rw [contains_iff cut.toProper (number_of_isFinite finite), place]
      exact ⟨ht.lo_le, ht.le_hi⟩
  | inside s member between lower upper =>
      exact ⟨s, member, lower.le, between.represents lower upper⟩
  | skipped v w v_finite w_finite v_member w_member lower upper gap =>
      refine ⟨_, v_member, lower.le, fun x cut ht => ?_⟩
      rw [contains_iff cut.toProper (number_of_isFinite v_finite)]
      exact ⟨cut.lo_le_of_gap gap (ht.lo_le.trans_lt upper), lower.le.trans ht.le_hi⟩

/-- Some stretch with a representative of the real does not lie below it. -/
theorem Covers.exists_le_hi {vs : List α} {stretches : List (Interval α × α)} {t : ℝ}
    (h : Covers vs stretches t) :
    ∃ s ∈ stretches, (t : EReal) ≤ value s.1.hi ∧ Represents vs s t := by
  cases h with
  | at_break v finite member place =>
      refine ⟨_, member, place.ge, fun x cut ht => ?_⟩
      rw [contains_iff cut.toProper (number_of_isFinite finite), place]
      exact ⟨ht.lo_le, ht.le_hi⟩
  | inside s member between lower upper =>
      exact ⟨s, member, upper.le, between.represents lower upper⟩
  | skipped v w v_finite w_finite v_member w_member lower upper gap =>
      refine ⟨_, w_member, upper.le, fun x cut ht => ?_⟩
      rw [contains_iff cut.toProper (number_of_isFinite w_finite)]
      exact ⟨ht.lo_le.trans upper.le, cut.le_hi_of_gap gap (lower.trans_le ht.le_hi)⟩

/-- `v :: rest` are the breakpoints from `v` on. -/
structure Remaining (vs : List α) (v : α) (rest : List α) : Prop where
  ascending : Ascending (v :: rest)
  head_mem : v ∈ vs
  rest_mem : ∀ w ∈ rest, w ∈ vs
  passed : ∀ w ∈ vs, value w ≤ value v ∨ w ∈ rest

theorem remaining_first {v : α} {rest : List α} (h : Ascending (v :: rest)) :
    Remaining (v :: rest) v rest where
  ascending := h
  head_mem := List.mem_cons_self
  rest_mem _ hw := List.mem_cons_of_mem v hw
  passed w hw := by
    rcases List.mem_cons.mp hw with rfl | later
    · exact Or.inl le_rfl
    · exact Or.inr later

namespace Remaining
variable {vs rest : List α} {v next : α}

theorem finite (h : Remaining vs v rest) : isFinite v = true :=
  h.ascending.finite v List.mem_cons_self

theorem step (h : Remaining vs v (next :: rest)) : Remaining vs next rest where
  ascending := h.ascending.tail
  head_mem := h.rest_mem next List.mem_cons_self
  rest_mem w hw := h.rest_mem w (List.mem_cons_of_mem next hw)
  passed w hw := by
    rcases h.passed w hw with low | later
    · exact Or.inl (low.trans (h.ascending.head_lt List.mem_cons_self).le)
    · rcases List.mem_cons.mp later with rfl | later
      · exact Or.inl le_rfl
      · exact Or.inr later

theorem gap (h : Remaining vs v (next :: rest)) : Gap vs (value v) (value next) := by
  intro w hw
  rcases h.passed w hw with low | later
  · exact Or.inl low
  · rcases List.mem_cons.mp later with rfl | later
    · exact Or.inr le_rfl
    · exact Or.inr (h.ascending.tail.head_lt later).le

theorem gap_last (h : Remaining vs v []) : Gap vs (value v) ⊤ := by
  intro w hw
  rcases h.passed w hw with low | later
  · exact Or.inl low
  · simp at later

theorem open_gap {middle : α} (h : Remaining vs v (next :: rest))
    (inside : v < middle ∧ middle < next) :
    OpenStretch vs ((⟨v, next⟩ : Interval α), middle) := by
  obtain ⟨vNumber, middleNumber, lower⟩ := lt_iff.mp inside.1
  obtain ⟨-, nextNumber, upper⟩ := lt_iff.mp inside.2
  obtain ⟨-, vTop, -⟩ := isFinite_iff.mp h.finite
  obtain ⟨-, -, nextBottom⟩ := isFinite_iff.mp h.step.finite
  exact ⟨⟨vNumber, nextNumber, (lower.trans upper).le, vTop, nextBottom⟩, middleNumber, h.gap,
    Or.inl lower, Or.inl upper⟩

variable [SteppingScalar α]

theorem open_last (h : Remaining vs v []) :
    OpenStretch vs ((⟨v, infinity⟩ : Interval α), nextUp v) := by
  obtain ⟨vNumber, vTop, -⟩ := isFinite_iff.mp h.finite
  obtain ⟨-, upNumber, above⟩ := lt_iff.mp (SteppingScalar.lt_nextUp h.finite)
  refine ⟨⟨vNumber, number_infinity, ?_, vTop, ?_⟩, upNumber, ?_, Or.inl above, ?_⟩
  · rw [value_infinity]
    exact le_top
  · rw [value_infinity]
    exact top_ne_bot
  · rw [value_infinity]
    exact h.gap_last
  · exact Or.inr value_infinity

theorem isStretch : ∀ {rest : List α} {v : α}, Remaining vs v rest →
    ∀ s ∈ stretchesFrom v rest, IsStretch vs s := by
  intro rest
  induction rest with
  | nil =>
      intro v h s hs
      rw [stretchesFrom, List.mem_pair] at hs
      rcases hs with rfl | rfl
      · exact Or.inl ⟨v, h.head_mem, rfl⟩
      · exact Or.inr h.open_last
  | cons next rest ih =>
      intro v h s hs
      rw [stretchesFrom, List.mem_cons, List.mem_append] at hs
      rcases hs with rfl | gap | later
      · exact Or.inl ⟨v, h.head_mem, rfl⟩
      · split at gap
        · rename_i inside
          rw [List.mem_singleton] at gap
          exact Or.inr (gap ▸ h.open_gap inside)
        · simp at gap
      · exact ih h.step s later

omit [OrderedScalar α] [SteppingScalar α] in
theorem mem_stretchesFrom_self (v : α) (rest : List α) :
    ((⟨v, v⟩ : Interval α), v) ∈ stretchesFrom v rest := by
  cases rest <;> exact List.mem_cons_self

theorem covers (t : ℝ) : ∀ {rest : List α} {v : α}, Remaining vs v rest → value v ≤ t →
    Covers vs (stretchesFrom v rest) t := by
  intro rest
  induction rest with
  | nil =>
      intro v h from_v
      rcases from_v.eq_or_lt with place | above
      · exact .at_break v h.finite (mem_stretchesFrom_self v []) place
      · refine .inside _ ?_ h.open_last above ?_
        · rw [stretchesFrom]
          exact List.mem_cons_of_mem _ List.mem_cons_self
        · rw [value_infinity]
          exact EReal.coe_lt_top t
  | cons next rest ih =>
      intro v h from_v
      have later : ∀ s ∈ stretchesFrom next rest, s ∈ stretchesFrom v (next :: rest) := by
        intro s hs
        rw [stretchesFrom]
        exact List.mem_cons_of_mem _ (List.mem_append_right _ hs)
      rcases from_v.eq_or_lt with place | above
      · exact .at_break v h.finite (mem_stretchesFrom_self v _) place
      · rcases le_or_gt (value next) (t : EReal) with from_next | below
        · exact (ih h.step from_next).mono later
        · by_cases inside : v < 0.5 * v + 0.5 * next ∧ 0.5 * v + 0.5 * next < next
          · refine .inside _ ?_ (h.open_gap inside) above below
            rw [stretchesFrom]
            simp [inside]
          · exact .skipped v next h.finite h.step.finite (mem_stretchesFrom_self v _)
              (later _ (mem_stretchesFrom_self next rest)) above below h.gap

end Remaining

variable [SteppingScalar α]

theorem open_first {v : α} {rest : List α} (h : Ascending (v :: rest)) :
    OpenStretch (v :: rest) ((⟨-infinity, v⟩ : Interval α), nextDown v) := by
  obtain ⟨vNumber, -, vBottom⟩ := isFinite_iff.mp (h.finite v List.mem_cons_self)
  obtain ⟨downNumber, -, below⟩ :=
    lt_iff.mp (SteppingScalar.nextDown_lt (h.finite v List.mem_cons_self))
  refine ⟨⟨number_negInfinity, vNumber, ?_, ?_, vBottom⟩, downNumber, ?_, ?_, Or.inl below⟩
  · rw [value_negInfinity]
    exact bot_le
  · rw [value_negInfinity]
    exact bot_ne_top
  · intro w hw
    rcases List.mem_cons.mp hw with rfl | later
    · exact Or.inr le_rfl
    · exact Or.inr (h.head_lt later).le
  · exact Or.inr value_negInfinity

omit [SteppingScalar α] in
theorem open_entire : OpenStretch [] ((.entire : Interval α), (0 : α)) := by
  refine ⟨⟨number_negInfinity, number_infinity, ?_, ?_, ?_⟩, number_zero, ?_, ?_, ?_⟩
  · change value (-infinity : α) ≤ _
    rw [value_negInfinity]
    exact bot_le
  · change value (-infinity : α) ≠ _
    rw [value_negInfinity]
    exact bot_ne_top
  · change value (infinity : α) ≠ _
    rw [value_infinity]
    exact top_ne_bot
  · intro v hv
    simp at hv
  · exact Or.inr value_negInfinity
  · exact Or.inr value_infinity

theorem isStretch_of_mem {vs : List α} (h : Ascending vs) :
    ∀ s ∈ stretches vs, IsStretch vs s := by
  cases vs with
  | nil =>
      intro s hs
      rw [stretches, List.mem_singleton] at hs
      exact Or.inr (hs ▸ open_entire)
  | cons first rest =>
      intro s hs
      rw [stretches, List.mem_cons] at hs
      rcases hs with rfl | later
      · exact Or.inr (open_first h)
      · exact (remaining_first h).isStretch s later

theorem covers_stretches {vs : List α} (h : Ascending vs) (t : ℝ) :
    Covers vs (stretches vs) t := by
  cases vs with
  | nil =>
      refine .inside _ List.mem_cons_self open_entire ?_ ?_
      · change value (-infinity : α) < _
        rw [value_negInfinity]
        exact EReal.bot_lt_coe t
      · change _ < value (infinity : α)
        rw [value_infinity]
        exact EReal.coe_lt_top t
  | cons first rest =>
      rcases le_or_gt (value first) (t : EReal) with from_first | below
      · exact ((remaining_first h).covers t from_first).mono fun s hs =>
          List.mem_cons_of_mem _ hs
      · refine .inside _ List.mem_cons_self (open_first h) ?_ below
        change value (-infinity : α) < _
        rw [value_negInfinity]
        exact EReal.bot_lt_coe t

/-! ## The order of the stretches -/

/-- Neither end of the first stretch lies above the same end of the second. -/
def NotAfter (s t : Interval α × α) : Prop :=
  value s.1.lo ≤ value t.1.lo ∧ value s.1.hi ≤ value t.1.hi

omit [SteppingScalar α] in
theorem le_ends_of_mem : ∀ {rest : List α} {v : α}, Ascending (v :: rest) →
    ∀ s ∈ stretchesFrom v rest, value v ≤ value s.1.lo ∧ value v ≤ value s.1.hi := by
  intro rest
  induction rest with
  | nil =>
      intro v h s hs
      rw [stretchesFrom, List.mem_pair] at hs
      rcases hs with rfl | rfl
      · exact ⟨le_rfl, le_rfl⟩
      · rw [value_infinity]
        exact ⟨le_rfl, le_top⟩
  | cons next rest ih =>
      intro v h s hs
      have step := (h.head_lt List.mem_cons_self).le
      rw [stretchesFrom, List.mem_cons, List.mem_append] at hs
      rcases hs with rfl | gap | later
      · exact ⟨le_rfl, le_rfl⟩
      · split at gap
        · rw [List.mem_singleton] at gap
          exact gap ▸ ⟨le_rfl, step⟩
        · simp at gap
      · have beyond := ih h.tail s later
        exact ⟨step.trans beyond.1, step.trans beyond.2⟩

omit [SteppingScalar α] in
theorem stretchesFrom_sorted : ∀ {rest : List α} {v : α}, Ascending (v :: rest) →
    (stretchesFrom v rest).Pairwise NotAfter := by
  intro rest
  induction rest with
  | nil =>
      intro v h
      rw [stretchesFrom, List.pairwise_pair]
      refine ⟨le_rfl, ?_⟩
      rw [value_infinity]
      exact le_top
  | cons next rest ih =>
      intro v h
      have step := (h.head_lt List.mem_cons_self).le
      have tail : ∀ s ∈ stretchesFrom next rest, value next ≤ value s.1.lo ∧
          value next ≤ value s.1.hi := le_ends_of_mem h.tail
      rw [stretchesFrom, List.pairwise_cons, List.pairwise_append]
      refine ⟨fun s hs => ?_, ?_, ih h.tail, fun s hs t ht => ?_⟩
      · rcases List.mem_append.mp hs with gap | later
        · split at gap
          · rw [List.mem_singleton] at gap
            exact gap ▸ ⟨le_rfl, step⟩
          · simp at gap
        · exact ⟨step.trans (tail s later).1, step.trans (tail s later).2⟩
      · split
        · exact List.pairwise_singleton _ _
        · exact List.Pairwise.nil
      · split at hs
        · rw [List.mem_singleton] at hs
          exact hs ▸ ⟨step.trans (tail t ht).1, (tail t ht).2⟩
        · simp at hs

omit [SteppingScalar α] in
theorem stretches_sorted {vs : List α} (h : Ascending vs) :
    (stretches vs).Pairwise NotAfter := by
  cases vs with
  | nil => exact List.pairwise_singleton _ _
  | cons first rest =>
      rw [stretches, List.pairwise_cons]
      refine ⟨fun s hs => ⟨?_, (le_ends_of_mem h s hs).2⟩, stretchesFrom_sorted h⟩
      rw [value_negInfinity]
      exact bot_le

end BoxSearch.Agreement
