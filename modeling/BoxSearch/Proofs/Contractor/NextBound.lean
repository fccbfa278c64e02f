import BoxSearch.Proofs.Binary64.Operations
import BoxSearch.Proofs.Interval.Parts
import BoxSearch.Proofs.Scalar.ExtendedInt
import BoxSearch.Contractor.Relaxation

/-!
# The next bound of a round

A scan looks at every side of the box once. It settles the sides that the last point touches and
keeps the closest of the others, the first one if several are equally close. The distances compare
because they are differences of finite numbers and numbers.
-/
set_option autoImplicit false

namespace BoxSearch

open OrderedScalar Scalar Checked

/-- A finite number less any number is a number. -/
class SubtractingScalar (α : Type) [Scalar α] : Prop where
  number_sub : ∀ {x y : α}, isFinite x = true → IsNumber y → IsNumber (x - y)

instance : SubtractingScalar Float := ⟨Binary64.number_sub⟩

instance : SubtractingScalar ExtendedInt := ⟨fun _ _ => ExtendedInt.isNumber _⟩

theorem Box.exists_component {α : Type} {b : Box α} {j : Nat} (inside : j < b.dim) :
    ∃ x ∈ b.components, b.component j = .ok x := by
  obtain ⟨x, position⟩ : ∃ x, b.components[j]? = some x := ⟨_, List.getElem?_eq_getElem inside⟩
  exact ⟨x, List.mem_of_getElem? position, elementAt_eq_ok.mpr position⟩

/-- A finite coordinate for each of `n` variables. -/
structure FinitePoint {α : Type} [Scalar α] (n : Nat) (point : List α) : Prop where
  length : point.length = n
  finite : ∀ t ∈ point, isFinite t = true

/-! ## Sides -/

namespace BoundRef
variable {n : Nat} {r q : BoundRef}

def index (r : BoundRef) : Nat := 2 * r.var + r.upper.toNat

theorem mem_all : r ∈ all n ↔ r.var < n := by
  rw [all, List.mem_flatMap]
  constructor
  · rintro ⟨j, inside, side⟩
    rw [List.mem_range] at inside
    rcases List.mem_pair.mp side with rfl | rfl
    · exact inside
    · exact inside
  · intro inside
    refine ⟨r.var, List.mem_range.mpr inside, ?_⟩
    obtain ⟨j, upper⟩ := r
    cases upper with
    | false => exact List.mem_cons_self
    | true => exact List.mem_cons_of_mem _ List.mem_cons_self

theorem all_succ (n : Nat) : all (n + 1) = all n ++ [⟨n, false⟩, ⟨n, true⟩] := by
  rw [all, List.range_succ, List.flatMap_append, List.flatMap_singleton]
  rfl

theorem length_all (n : Nat) : (all n).length = 2 * n := by
  induction n with
  | zero => rfl
  | succ n ih =>
      rw [all_succ, List.length_append, ih]
      rfl

theorem pairwise_all (n : Nat) : (all n).Pairwise fun q r => q.index < r.index := by
  induction n with
  | zero => exact List.Pairwise.nil
  | succ n ih =>
      rw [all_succ, List.pairwise_append]
      refine ⟨ih, ?_, ?_⟩
      · refine List.pairwise_pair.mpr ?_
        exact Nat.lt_succ_self (2 * n)
      · intro q hq r hr
        have below : q.var < n := mem_all.mp hq
        have bit : q.upper.toNat ≤ 1 := Bool.toNat_le q.upper
        have above : 2 * n ≤ r.index := by
          rcases List.mem_pair.mp hr with rfl | rfl
          · exact Nat.le_add_right _ _
          · exact Nat.le_add_right _ _
        rw [index]
        omega

variable {α : Type} [Scalar α] {b : Box α} {primal : Option (List α)} {tolerance : α}

/-- How far the last point is from the side, infinitely far before there is a point. -/
def distance (b : Box α) (primal : Option (List α)) (r : BoundRef) : Checked α α :=
  match primal with
  | none => return Scalar.infinity
  | some point => do
    let value ← r.value b
    return Scalar.magnitude ((← elementAt point r.var) - value)

def Touched (tolerance : α) (b : Box α) (primal : Option (List α)) (r : BoundRef) : Prop :=
  ∃ value distance, primal.isSome = true ∧ r.value b = .ok value ∧
    r.distance b primal = .ok distance ∧ isWithin value distance tolerance = true

variable [OrderedScalar α]

theorem exists_value (proper : ∀ x ∈ b.components, x.Proper) (inside : r.var < b.dim) :
    ∃ bound, r.value b = .ok bound ∧ IsNumber bound := by
  obtain ⟨x, member, component⟩ := Box.exists_component inside
  rw [BoundRef.value, bind_of_ok component]
  refine ⟨_, rfl, ?_⟩
  split
  · exact (proper x member).hi_number
  · exact (proper x member).lo_number

theorem exists_distance [SubtractingScalar α] (proper : ∀ x ∈ b.components, x.Proper)
    (inside : r.var < b.dim) (finite : ∀ point ∈ primal, FinitePoint b.dim point) :
    ∃ d, r.distance b primal = .ok d ∧ IsNumber d := by
  cases primal with
  | none => exact ⟨_, rfl, number_infinity⟩
  | some point =>
      obtain ⟨length, coordinates⟩ := finite point rfl
      obtain ⟨bound, found, number⟩ := exists_value proper inside
      obtain ⟨t, position⟩ : ∃ t, point[r.var]? = some t :=
        ⟨_, List.getElem?_eq_getElem (length ▸ inside)⟩
      have coordinate : (elementAt point r.var : Checked α α) = .ok t :=
        elementAt_eq_ok.mpr position
      rw [distance, bind_of_ok found, bind_of_ok coordinate]
      have finite' := coordinates t (List.mem_of_getElem? position)
      exact ⟨_, rfl, number_magnitude.mpr (SubtractingScalar.number_sub finite' number)⟩

end BoundRef

variable {α : Type} [Scalar α] {b : Box α} {primal : Option (List α)} {tolerance : α}

namespace Relaxation

/-- A side that is not settled and closest to the point among those that were seen, and the first
one at its distance. -/
structure Closest (b : Box α) (primal : Option (List α)) (seen settled : List BoundRef)
    (r : BoundRef) (d : α) : Prop where
  mem : r ∈ seen
  unsettled : r ∉ settled
  distance : r.distance b primal = .ok d
  least : ∀ q ∈ seen, q ∉ settled → ∃ e, q.distance b primal = .ok e ∧ d ≤ e ∧
    (q.index < r.index → d < e)

/-- What a scan knows after some of the sides, if the given ones were settled before it. -/
structure Scanned (tolerance : α) (b : Box α) (primal : Option (List α))
    (settled seen : List BoundRef) (s : Scan α) : Prop where
  skipped : ∃ skipped, s.settled = skipped ++ settled ∧
    ∀ r ∈ skipped, r ∈ seen ∧ r ∉ settled ∧ r.Touched tolerance b primal
  complete : s.closest = none → ∀ r ∈ seen, r ∈ s.settled
  closest : ∀ r d, s.closest = some (r, d) → Closest b primal seen s.settled r d

def Scan.offer (s : Scan α) (r : BoundRef) (d : α) : Scan α :=
  let isCloser := match s.closest with
    | none => true
    | some (_, d') => decide (d < d')
  if isCloser then { s with closest := some (r, d) } else s

variable {settled seen : List BoundRef} {s : Scan α} {r : BoundRef} {d : α}

theorem Closest.congr (closest : Closest b primal seen settled r d) {settled' : List BoundRef}
    (same : ∀ q, q ∈ settled ↔ q ∈ settled') : Closest b primal seen settled' r d where
  mem := closest.mem
  unsettled known := closest.unsettled ((same r).mpr known)
  distance := closest.distance
  least q hq unknown := closest.least q hq fun known => unknown ((same q).mp known)

theorem scanned_start : Scanned tolerance b primal settled [] ⟨none, settled⟩ where
  skipped := ⟨[], rfl, fun _ h => absurd h List.not_mem_nil⟩
  complete _ _ h := absurd h List.not_mem_nil
  closest _ _ h := by cases h

/-! ## One side -/

/-- One more side that is settled or not closer leaves the closest one in place. -/
theorem Closest.append (closest : Closest b primal seen settled r d) {q : BoundRef}
    (farther : q ∉ settled → ∃ e, q.distance b primal = .ok e ∧ d ≤ e ∧
      (q.index < r.index → d < e)) : Closest b primal (seen ++ [q]) settled r d where
  mem := List.mem_append_left _ closest.mem
  unsettled := closest.unsettled
  distance := closest.distance
  least := List.forall_mem_append.mpr ⟨closest.least, List.forall_mem_singleton.mpr farther⟩

theorem Closest.settle (closest : Closest b primal seen settled r d) {q : BoundRef}
    (other : r ≠ q) : Closest b primal seen (q :: settled) r d where
  mem := closest.mem
  unsettled known := closest.unsettled (List.mem_of_ne_of_mem other known)
  distance := closest.distance
  least p hp unknown := closest.least p hp fun known => unknown (List.mem_cons_of_mem q known)

theorem Scanned.skipped_append (scanned : Scanned tolerance b primal settled seen s)
    (r : BoundRef) : ∃ skipped, s.settled = skipped ++ settled ∧
      ∀ q ∈ skipped, q ∈ seen ++ [r] ∧ q ∉ settled ∧ q.Touched tolerance b primal := by
  obtain ⟨skipped, split, touched⟩ := scanned.skipped
  exact ⟨skipped, split, fun q hq =>
    ⟨List.mem_append_left _ (touched q hq).1, (touched q hq).2⟩⟩

theorem Scanned.pass (scanned : Scanned tolerance b primal settled seen s)
    (known : r ∈ s.settled) : Scanned tolerance b primal settled (seen ++ [r]) s where
  skipped := scanned.skipped_append r
  complete empty := List.forall_mem_append.mpr
    ⟨scanned.complete empty, List.forall_mem_singleton.mpr known⟩
  closest p d found :=
    (scanned.closest p d found).append fun unknown => absurd known unknown

theorem Scanned.skip (scanned : Scanned tolerance b primal settled seen s)
    (new : r ∉ s.settled) (later : ∀ q ∈ seen, q.index < r.index)
    (touched : r.Touched tolerance b primal) :
    Scanned tolerance b primal settled (seen ++ [r]) { s with settled := r :: s.settled } := by
  obtain ⟨skipped, split, others⟩ := scanned.skipped_append r
  refine ⟨⟨r :: skipped, congrArg (r :: ·) split, ?_⟩, fun empty => ?_, fun p d found => ?_⟩
  · have first : r ∉ settled := fun old => new (split ▸ List.mem_append_right _ old)
    exact List.forall_mem_cons.mpr
      ⟨⟨List.mem_append_right _ List.mem_cons_self, first, touched⟩, others⟩
  · exact List.forall_mem_append.mpr
      ⟨fun q hq => List.mem_cons_of_mem r (scanned.complete empty q hq),
        List.forall_mem_singleton.mpr List.mem_cons_self⟩
  · have closest := scanned.closest p d found
    have other : p ≠ r := fun same => (same ▸ later p closest.mem).false
    exact (closest.settle other).append fun unknown => absurd List.mem_cons_self unknown

/-- An unsettled side is skipped if the point touches it and compared otherwise. -/
theorem look_eq {point : List α} {bound : α} (new : r ∉ s.settled)
    (found : r.value b = .ok bound) (distance : r.distance b (some point) = .ok d) :
    look tolerance b (some point) s r =
      .ok (if isWithin bound d tolerance then { s with settled := r :: s.settled }
        else s.offer r d) := by
  obtain ⟨_, found', distance⟩ := bind_eq_ok.mp distance
  obtain rfl := Except.ok.inj (found.symm.trans found')
  obtain ⟨t, coordinate, distance⟩ := bind_eq_ok.mp distance
  obtain rfl := Except.ok.inj distance
  rw [look, if_neg (by simpa using new), bind_of_ok found]
  dsimp only
  rw [bind_of_ok coordinate]
  split
  · rfl
  · rw [Scan.offer]
    rfl

variable [OrderedScalar α]

theorem closest_append (new : r ∉ settled) (distance : r.distance b primal = .ok d)
    (number : IsNumber d)
    (farther : ∀ q ∈ seen, q ∉ settled → ∃ e, q.distance b primal = .ok e ∧ d < e) :
    Closest b primal (seen ++ [r]) settled r d where
  mem := List.mem_append_right _ List.mem_cons_self
  unsettled := new
  distance := distance
  least := by
    refine List.forall_mem_append.mpr
      ⟨fun q hq unknown => ?_, List.forall_mem_singleton.mpr fun _ => ?_⟩
    · obtain ⟨e, away, below⟩ := farther q hq unknown
      exact ⟨e, away, le_of_lt below, fun _ => below⟩
    · exact ⟨d, distance, le_refl number, fun before => absurd before (lt_irrefl _)⟩

/-- A side that stays is compared with the closest one so far, which wins a tie. -/
theorem Scanned.offer (scanned : Scanned tolerance b primal settled seen s)
    (new : r ∉ s.settled) (later : ∀ q ∈ seen, q.index < r.index)
    (distance : r.distance b primal = .ok d) (number : IsNumber d) :
    Scanned tolerance b primal settled (seen ++ [r]) (s.offer r d) := by
  have skipped := scanned.skipped_append r
  rw [Scan.offer]
  cases leader : s.closest with
  | none =>
      refine ⟨skipped, (nomatch ·), fun q e found => ?_⟩
      obtain ⟨rfl, rfl⟩ := Prod.mk.inj (Option.some.inj found)
      exact closest_append new distance number fun q hq unknown =>
        absurd (scanned.complete leader q hq) unknown
  | some best =>
      obtain ⟨p, d'⟩ := best
      have closest := scanned.closest p d' leader
      dsimp only
      split
      · rename_i closer
        have closer := (lt_iff.mp (of_decide_eq_true closer)).2.2
        refine ⟨skipped, (nomatch ·), fun q e found => ?_⟩
        obtain ⟨rfl, rfl⟩ := Prod.mk.inj (Option.some.inj found)
        refine closest_append new distance number fun q hq unknown => ?_
        obtain ⟨e, away, below, -⟩ := closest.least q hq unknown
        obtain ⟨-, number', below⟩ := le_iff.mp below
        exact ⟨e, away, lt_iff.mpr ⟨number, number', closer.trans_le below⟩⟩
      · rename_i farther
        have number' : IsNumber d' := by
          obtain ⟨e, -, below, -⟩ := closest.least p closest.mem closest.unsettled
          exact (le_iff.mp below).1
        have above : d' ≤ d := by
          rw [le_iff_value number' number, ← not_lt, ← lt_iff_value number number']
          exact fun closer => farther (decide_eq_true closer)
        refine ⟨skipped, fun empty => absurd (leader.symm.trans empty) (by simp),
          fun q e found => ?_⟩
        obtain ⟨rfl, rfl⟩ := Prod.mk.inj (Option.some.inj (leader.symm.trans found))
        exact closest.append fun _ => ⟨d, distance, above, fun before =>
          absurd before (later p closest.mem).not_gt⟩

variable [SubtractingScalar α]

theorem Scanned.exists_look (scanned : Scanned tolerance b primal settled seen s)
    (proper : ∀ x ∈ b.components, x.Proper) (inside : r.var < b.dim)
    (finite : ∀ point ∈ primal, FinitePoint b.dim point)
    (later : ∀ q ∈ seen, q.index < r.index) :
    ∃ s', look tolerance b primal s r = .ok s' ∧
      Scanned tolerance b primal settled (seen ++ [r]) s' := by
  by_cases new : r ∈ s.settled
  · refine ⟨s, ?_, scanned.pass new⟩
    rw [look, if_pos (by simpa using new)]
    rfl
  · obtain ⟨bound, found, -⟩ := BoundRef.exists_value proper inside
    obtain ⟨d, distance, number⟩ := BoundRef.exists_distance proper inside finite
    cases primal with
    | some point =>
        refine ⟨_, look_eq new found distance, ?_⟩
        split
        · rename_i within
          exact scanned.skip new later ⟨bound, d, rfl, found, distance, within⟩
        · exact scanned.offer new later distance number
    | none =>
        -- every distance is infinite, so the first unsettled side stays the closest one
        obtain rfl := Except.ok.inj distance
        have offered := scanned.offer new later distance number
        refine ⟨s.offer r infinity, ?_, offered⟩
        rw [look, if_neg (by simpa using new), bind_of_ok found, Scan.offer]
        cases leader : s.closest with
        | none => rfl
        | some best =>
            obtain ⟨p, d⟩ := best
            obtain rfl : infinity = d := Except.ok.inj (scanned.closest p d leader).distance
            simp only [decide_eq_false (not_lt_self (infinity : α))]
            rfl

/-! ## All sides -/

theorem Scanned.exists_foldlM (proper : ∀ x ∈ b.components, x.Proper)
    (finite : ∀ point ∈ primal, FinitePoint b.dim point) :
    ∀ {rest seen : List BoundRef} {s : Scan α}, Scanned tolerance b primal settled seen s →
      (seen ++ rest).Pairwise (fun q r => q.index < r.index) → (∀ r ∈ rest, r.var < b.dim) →
      ∃ s', rest.foldlM (look tolerance b primal) s = .ok s' ∧
        Scanned tolerance b primal settled (seen ++ rest) s' := by
  intro rest
  induction rest with
  | nil =>
      intro seen s scanned _ _
      exact ⟨s, rfl, (List.append_nil seen).symm ▸ scanned⟩
  | cons r rest ih =>
      intro seen s scanned ordered inside
      have later : ∀ q ∈ seen, q.index < r.index := fun q hq =>
        (List.pairwise_append.mp ordered).2.2 q hq r List.mem_cons_self
      obtain ⟨s', looked, scanned'⟩ :=
        scanned.exists_look proper (inside r List.mem_cons_self) finite later
      rw [List.append_cons] at ordered ⊢
      rw [List.foldlM_cons, bind_of_ok looked]
      exact ih scanned' ordered fun q hq => inside q (List.mem_cons_of_mem r hq)

/-- The next bound exists unless every side is settled, and then it is the closest one. -/
theorem exists_nextBound (tolerance : α) (proper : ∀ x ∈ b.components, x.Proper)
    (finite : ∀ point ∈ primal, FinitePoint b.dim point) (settled : List BoundRef) :
    ∃ s, nextBound tolerance b primal settled = .ok s ∧
      Scanned tolerance b primal settled (BoundRef.all b.dim) s :=
  scanned_start.exists_foldlM proper finite (BoundRef.pairwise_all b.dim)
    fun _ => BoundRef.mem_all.mp

end Relaxation

end BoxSearch
