import Mathlib.Logic.Function.Basic
import Mathlib.Data.List.InsertIdx
import BoxSearch.Proofs.Agreement.Grid

/-!
# Admissible cells

Choosing one stretch per dimension picks a cell of the grid. A cell is admissible when its
representative lies in `q` boxes, and then each of its reals is a coordinate of a point in `q`
boxes; conversely every strip that represents a point in `q` boxes is admissible.
-/
set_option autoImplicit false

namespace BoxSearch.Agreement

open OrderedScalar Scalar

variable {α : Type} [Scalar α]

/-! ## Choices of cells -/

def slice (d : Nat) (b : Box α) : Interval α := b.components.getD d .empty

def column (boxes : List (Box α)) (d : Nat) : List (Interval α) := boxes.map (slice d)

def strips (boxes : List (Box α)) (d : Nat) : List (Interval α × α) :=
  stretches (breakpoints (column boxes d))

theorem columns_eq {n : Nat} {boxes : List (Box α)} (dims : ∀ b ∈ boxes, b.dim = n) :
    columns n boxes = (List.range n).map (column boxes) := by
  refine List.map_congr_left fun d hd => ?_
  rw [List.mem_range] at hd
  rw [column, ← List.filterMap_eq_map]
  refine List.filterMap_congr fun b hb => ?_
  have inside : d < b.components.length := by
    have := dims b hb
    rw [Box.dim] at this
    omega
  simp only [Function.comp_apply, slice, List.getD_eq_getElem?_getD,
    List.getElem?_eq_getElem inside, Option.getD_some]

theorem mem_gridCells {q d : Nat} {boxes : List (Box α)} {c : GridCell α} :
    c ∈ gridCells q (column boxes d) ↔ ∃ s ∈ strips boxes d,
      c = ⟨s.1, boxes.map fun b => (slice d b).contains s.2⟩ ∧
        q ≤ boxes.countP fun b => (slice d b).contains s.2 := by
  simp only [gridCells, column, strips, List.mem_filter, List.mem_map, List.map_map,
    decide_eq_true_eq, Function.comp_def]
  constructor
  · rintro ⟨⟨s, hs, rfl⟩, enough⟩
    refine ⟨s, hs, rfl, ?_⟩
    simpa [List.countP_map, Function.comp_def] using enough
  · rintro ⟨s, hs, rfl, enough⟩
    refine ⟨⟨s, hs, rfl⟩, ?_⟩
    simpa [List.countP_map, Function.comp_def] using enough

/-- The box contains the representative chosen in each of the dimensions. -/
def meetsAll (pick : Nat → Interval α × α) (ds : List Nat) (b : Box α) : Bool :=
  ds.all fun d => (slice d b).contains (pick d).2

theorem meetsAll_update {pick : Nat → Interval α × α} {ds : List Nat} {d : Nat}
    {s : Interval α × α} (fresh : d ∉ ds) (b : Box α) :
    meetsAll (Function.update pick d s) ds b = meetsAll pick ds b := by
  rw [meetsAll, meetsAll, Bool.eq_iff_iff, List.all_eq_true, List.all_eq_true]
  refine forall_congr' fun e => forall_congr' fun he => ?_
  rw [Function.update_of_ne]
  rintro rfl
  exact fresh he

/-- A completion is a choice of one strip per dimension whose representatives share `q` boxes. -/
theorem completes_iff {q : Nat} {boxes : List (Box α)} : ∀ {ds : List Nat}, ds.Nodup →
    ∀ f : Box α → Bool,
    (completes q (ds.map fun d => gridCells q (column boxes d)) (boxes.map f) = true ↔
      ∃ pick : Nat → Interval α × α, (∀ d ∈ ds, pick d ∈ strips boxes d) ∧
        q ≤ boxes.countP fun b => f b && meetsAll pick ds b) := by
  intro ds
  induction ds with
  | nil =>
      intro _ f
      rw [List.map_nil, completes, decide_eq_true_iff, List.countP_map]
      constructor
      · intro enough
        refine ⟨fun _ => (.empty, 0), by simp, ?_⟩
        simpa [meetsAll, Function.comp_def] using enough
      · rintro ⟨pick, -, enough⟩
        simpa [meetsAll, Function.comp_def] using enough
  | cons d ds ih =>
      intro nodup f
      obtain ⟨fresh, nodup⟩ := List.nodup_cons.mp nodup
      have narrowed : ∀ s : Interval α × α,
          List.zipWith (· && ·) (boxes.map f) (boxes.map fun b => (slice d b).contains s.2) =
            boxes.map fun b => f b && (slice d b).contains s.2 := by
        intro s
        rw [List.zipWith_map, List.zipWith_self]
      rw [List.map_cons, completes, Bool.and_eq_true, decide_eq_true_iff, List.any_eq_true,
        List.countP_map]
      constructor
      · rintro ⟨-, c, hc, rest⟩
        obtain ⟨s, hs, rfl, -⟩ := mem_gridCells.mp hc
        rw [narrowed, ih nodup] at rest
        obtain ⟨pick, picked, enough⟩ := rest
        refine ⟨Function.update pick d s, fun e he => ?_, enough.trans ?_⟩
        · by_cases same : e = d
          · subst same
            rw [Function.update_self]
            exact hs
          · rw [Function.update_of_ne same]
            exact picked e ((List.mem_cons.mp he).resolve_left same)
        · refine List.countP_mono_left fun b _ agrees => ?_
          have here : (slice d b).contains (Function.update pick d s d).2 =
              (slice d b).contains s.2 := by rw [Function.update_self]
          have others : meetsAll (Function.update pick d s) ds b = meetsAll pick ds b :=
            meetsAll_update fresh b
          rw [meetsAll] at others ⊢
          rw [List.all_cons, here, others]
          simpa [Bool.and_assoc] using agrees
      · rintro ⟨pick, picked, enough⟩
        have split : ∀ b, (f b && meetsAll pick (d :: ds) b) = true →
            f b = true ∧ (slice d b).contains (pick d).2 = true ∧ meetsAll pick ds b = true := by
          intro b agrees
          rw [meetsAll, List.all_cons, Bool.and_eq_true, Bool.and_eq_true] at agrees
          exact agrees
        refine ⟨enough.trans ?_, _, mem_gridCells.mpr ⟨pick d, picked d List.mem_cons_self, rfl,
          enough.trans ?_⟩, ?_⟩
        · exact List.countP_mono_left fun b _ agrees => (split b agrees).1
        · exact List.countP_mono_left fun b _ agrees => (split b agrees).2.1
        · rw [narrowed, ih nodup]
          refine ⟨pick, fun e he => picked e (List.mem_cons_of_mem d he), enough.trans ?_⟩
          refine List.countP_mono_left fun b _ agrees => ?_
          obtain ⟨candidate, here, others⟩ := split b agrees
          simp [candidate, here, others]

/-! ## Points and admissible cells -/

variable [OrderedScalar α]

open Classical in
noncomputable def support (boxes : List (Box α)) (p : List ℝ) : Nat :=
  boxes.countP fun b => decide (p ∈ b)

/-- The points in at least `q` of the boxes. -/
def agreeing (q : Nat) (boxes : List (Box α)) : Set (List ℝ) := {p | q ≤ support boxes p}

theorem mem_box_iff {n : Nat} {b : Box α} (dim : b.dim = n) {p : List ℝ} :
    p ∈ b ↔ p.length = n ∧ ∀ d < n, p.getD d 0 ∈ slice d b := by
  subst dim
  rw [Box.mem_def, List.forall₂_iff_get]
  refine and_congr_right fun length => forall_congr' fun d => ?_
  have length : p.length = b.components.length := length
  constructor
  · intro member inside
    have inside : d < b.components.length := inside
    have := member (by omega) inside
    simpa [slice, List.getD_eq_getElem?_getD, length, inside] using this
  · intro member _ inside
    have := member inside
    simpa [slice, List.getD_eq_getElem?_getD, length, inside] using this

/-- Boxes of one dimension whose components all hold reals. -/
structure Live (n : Nat) (boxes : List (Box α)) : Prop where
  dims : ∀ b ∈ boxes, b.dim = n
  proper : ∀ b ∈ boxes, ∀ d < n, (slice d b).Proper

theorem Live.cut {n d : Nat} {boxes : List (Box α)} {b : Box α} (live : Live n boxes)
    (hb : b ∈ boxes) (hd : d < n) : CutAt (breakpoints (column boxes d)) (slice d b) :=
  cutAt_breakpoints (List.mem_map_of_mem hb) (live.proper b hb d hd)

def admissible (q n : Nat) (boxes : List (Box α)) (d : Nat) (c : GridCell α) : Bool :=
  completes q (((columns n boxes).map (gridCells q)).eraseIdx d) c.members

def others (n d : Nat) : List Nat := (List.range n).eraseIdx d

theorem nodup_others (n d : Nat) : (others n d).Nodup :=
  List.nodup_range.sublist (List.eraseIdx_sublist _ _)

theorem mem_others {n d e : Nat} : e ∈ others n d ↔ e < n ∧ e ≠ d := by
  rw [others, List.mem_eraseIdx_iff_getElem?]
  constructor
  · rintro ⟨i, ne, found⟩
    obtain ⟨inside, rfl⟩ := List.getElem?_eq_some_iff.mp found
    rw [List.length_range] at inside
    rw [List.getElem_range]
    exact ⟨inside, ne⟩
  · rintro ⟨inside, ne⟩
    exact ⟨e, ne, List.getElem?_range inside⟩

omit [OrderedScalar α] in
theorem admissible_iff {q n d : Nat} {boxes : List (Box α)} (dims : ∀ b ∈ boxes, b.dim = n)
    (s : Interval α × α) :
    admissible q n boxes d ⟨s.1, boxes.map fun b => (slice d b).contains s.2⟩ = true ↔
      ∃ pick : Nat → Interval α × α, (∀ e ∈ others n d, pick e ∈ strips boxes e) ∧
        q ≤ boxes.countP fun b => (slice d b).contains s.2 && meetsAll pick (others n d) b := by
  rw [admissible, columns_eq dims, List.map_map, List.eraseIdx_map]
  exact completes_iff (nodup_others n d) _

/-- Every strip of a dimension that represents a point in `q` boxes is admissible. -/
theorem exists_admissible [SteppingScalar α] {q n d : Nat} {boxes : List (Box α)}
    (dims : ∀ b ∈ boxes, b.dim = n) (hd : d < n) {p : List ℝ} (hp : p ∈ agreeing q boxes)
    {s : Interval α × α} (hs : s ∈ strips boxes d)
    (represents : Represents (breakpoints (column boxes d)) s (p.getD d 0)) :
    ∃ c ∈ gridCells q (column boxes d), admissible q n boxes d c = true ∧ c.extent = s.1 := by
  classical
  have strip : ∀ e, ∃ s ∈ strips boxes e,
      Represents (breakpoints (column boxes e)) s (p.getD e 0) := by
    intro e
    obtain ⟨s, member, -, represents⟩ :=
      (covers_stretches (ascending_breakpoints (column boxes e)) (p.getD e 0)).exists_lo_le
    exact ⟨s, member, represents⟩
  choose pick picked chosen using strip
  have contained : ∀ b ∈ boxes, p ∈ b → (slice d b).contains s.2 = true ∧
      meetsAll pick (others n d) b = true := by
    intro b hb member
    obtain ⟨-, components⟩ := (mem_box_iff (dims b hb)).mp member
    have cut : ∀ e < n, CutAt (breakpoints (column boxes e)) (slice e b) := fun e he =>
      cutAt_breakpoints (List.mem_map_of_mem hb) (Interval.proper_of_mem (components e he))
    refine ⟨represents _ (cut d hd) (components d hd), ?_⟩
    rw [meetsAll, List.all_eq_true]
    intro e he
    have inside := (mem_others.mp he).1
    exact chosen e _ (cut e inside) (components e inside)
  refine ⟨_, mem_gridCells.mpr ⟨s, hs, rfl, le_trans hp ?_⟩, ?_, rfl⟩
  · refine List.countP_mono_left fun b hb member => ?_
    exact (contained b hb (of_decide_eq_true member)).1
  · rw [admissible_iff dims]
    refine ⟨pick, fun e _ => picked e, le_trans hp ?_⟩
    refine List.countP_mono_left fun b hb member => ?_
    obtain ⟨here, elsewhere⟩ := contained b hb (of_decide_eq_true member)
    rw [here, elsewhere]
    rfl

/-- Every real of an admissible cell is a coordinate of a point in `q` boxes. -/
theorem exists_agreeing [SteppingScalar α] {q n d : Nat} {boxes : List (Box α)}
    (live : Live n boxes) (hd : d < n) {c : GridCell α} (hc : c ∈ gridCells q (column boxes d))
    (accepted : admissible q n boxes d c = true) {t : ℝ} (ht : t ∈ c.extent) :
    ∃ p ∈ agreeing q boxes, p.getD d 0 = t := by
  classical
  obtain ⟨s, hs, rfl, -⟩ := mem_gridCells.mp hc
  obtain ⟨pick, picked, enough⟩ := (admissible_iff live.dims s).mp accepted
  have isStretch : ∀ e, ∀ s ∈ strips boxes e, IsStretch (breakpoints (column boxes e)) s :=
    fun e => isStretch_of_mem (ascending_breakpoints (column boxes e))
  have real : ∀ e, ∃ r : ℝ, e ∈ others n d → r ∈ (pick e).1 := by
    intro e
    by_cases he : e ∈ others n d
    · obtain ⟨r, hr⟩ := ((isStretch e _ (picked e he)).proper
        (ascending_breakpoints (column boxes e))).exists_mem
      exact ⟨r, fun _ => hr⟩
    · exact ⟨0, fun h => absurd h he⟩
  choose r hr using real
  let p := (List.range n).map fun e => if e = d then t else r e
  have entry : ∀ e < n, p.getD e 0 = if e = d then t else r e := by
    intro e he
    simp [p, List.getD_eq_getElem?_getD, he]
  refine ⟨p, le_trans enough ?_, by rw [entry d hd, if_pos rfl]⟩
  refine List.countP_mono_left fun b hb agrees => decide_eq_true ?_
  rw [Bool.and_eq_true, meetsAll, List.all_eq_true] at agrees
  rw [mem_box_iff (live.dims b hb)]
  refine ⟨by simp [p], fun e he => ?_⟩
  rw [entry e he]
  by_cases same : e = d
  · subst same
    rw [if_pos rfl]
    exact (isStretch e s hs).mem_of_contains (live.cut hb he) agrees.1 ht
  · rw [if_neg same]
    have other := mem_others.mpr ⟨he, same⟩
    exact (isStretch e _ (picked e other)).mem_of_contains (live.cut hb he)
      (agrees.2 e other) (hr e other)

end BoxSearch.Agreement
