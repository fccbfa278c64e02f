import BoxSearch.Proofs.Search.Bisection

/-!
# Fairness of the turns

A round robin jumps over runs of ineligible components, and which components are eligible changes
from box to box. What decides when a variable has its turn is how far it lies ahead of the pointer,
counted around: an eligible variable that is not chosen has come nearer by the choice, and no
variable further ahead is chosen before it. The variable that was chosen last lies furthest ahead.
-/
set_option autoImplicit false

namespace BoxSearch

open Scalar

namespace Bisector

/-! ## Distances -/

/-- How far the variable lies ahead of the pointer, counted around `n` variables. -/
def ahead (n next var : Nat) : Nat :=
  if next % n ≤ var then var - next % n else var + n - next % n

section Distance
variable {n next var other k : Nat}

theorem ahead_add (near : k < n) : ahead n next ((next + k) % n) = k := by
  have rest : next % n < n := Nat.mod_lt next (by omega)
  rw [Nat.add_mod_eq_ite, Nat.mod_eq_of_lt near]
  unfold ahead
  split <;> split <;> omega

theorem ahead_lt (inside : var < n) : ahead n next var < n := by
  obtain ⟨k, near, rfl⟩ := exists_rotated next inside
  rwa [ahead_add near]

theorem add_ahead (next : Nat) (inside : var < n) : (next + ahead n next var) % n = var := by
  obtain ⟨k, near, rfl⟩ := exists_rotated next inside
  rw [ahead_add near]

theorem eq_of_ahead_eq (inside : var < n) (inside_other : other < n)
    (same : ahead n next var = ahead n next other) : var = other := by
  rw [← add_ahead next inside, same, add_ahead next inside_other]

theorem add_one_mod_eq (inside : var < n) :
    (var + 1) % n = if var + 1 = n then 0 else var + 1 := by
  split
  · rename_i last
    rw [last, Nat.mod_self]
  · exact Nat.mod_eq_of_lt (by omega)

/-- The pointer moves behind a variable, and those further ahead come nearer by as much. -/
theorem ahead_behind (inside : var < n) (inside_other : other < n)
    (nearer : ahead n next other < ahead n next var) :
    ahead n ((other + 1) % n) var + ahead n next other + 1 = ahead n next var := by
  have rest : next % n < n := Nat.mod_lt next (by omega)
  unfold ahead at nearer ⊢
  rw [Nat.mod_mod, add_one_mod_eq inside_other]
  split at nearer <;> split at nearer <;> split <;> split <;> omega

/-- Behind a variable, every other one lies nearer. -/
theorem ahead_lt_of_ne (inside : var < n) (inside_other : other < n) (different : other ≠ var) :
    ahead n ((var + 1) % n) other < ahead n ((var + 1) % n) var := by
  unfold ahead
  rw [Nat.mod_mod, add_one_mod_eq inside]
  split <;> split <;> split <;> omega

end Distance

/-! ## Choices -/

variable {α : Type} [Scalar α]

def EligibleAt (b : Box α) (minWidth : α) (var : Nat) : Prop :=
  ∃ x, b.components[var]? = some x ∧ x.Eligible minWidth

def choices (minWidth : α) : Bisector α → List (Box α) → List (Option Nat)
  | _, [] => []
  | s, b :: rest => (s.choose b minWidth).1 :: choices minWidth (s.choose b minWidth).2 rest

section Choices
variable {b : Box α} {boxes : List (Box α)} {minWidth : α} {n next var other i j : Nat}

theorem EligibleAt.lt_dim (eligible : EligibleAt b minWidth var) : var < b.dim := by
  obtain ⟨x, found, -⟩ := eligible
  exact (List.getElem?_eq_some_iff.mp found).1

/-- No eligible variable lies nearer than the one that is found. -/
theorem ahead_le_of_nextEligible (found : nextEligible b minWidth next = some var)
    (eligible : EligibleAt b minWidth other) :
    ahead b.dim next var ≤ ahead b.dim next other := by
  rw [nextEligible, List.find?_map, Option.map_eq_some_iff] at found
  obtain ⟨k, first, rfl⟩ := found
  obtain ⟨-, bounded, skipped⟩ := List.find?_range_eq_some.mp first
  rw [ahead_add (List.mem_range.mp bounded)]
  by_contra nearer
  have refused := skipped _ (not_le.mp nearer)
  obtain ⟨x, found, wide⟩ := eligible
  rw [Function.comp_apply, add_ahead next (EligibleAt.lt_dim ⟨x, found, wide⟩), found,
    Option.any_some, eligible_iff.mpr wide] at refused
  cases refused

/-- An eligible variable is chosen, unless one that lies nearer is, and the pointer moves behind the
chosen one. -/
theorem choose_of_eligibleAt (next : Nat) (eligible : EligibleAt b minWidth var) :
    ∃ chosen < b.dim, (roundRobin next).choose b minWidth =
        (some chosen, roundRobin ((chosen + 1) % b.dim)) ∧
      (chosen = var ∨ ahead b.dim next chosen < ahead b.dim next var) := by
  cases found : nextEligible b minWidth next with
  | none =>
      obtain ⟨x, at_var, wide⟩ := eligible
      exact absurd wide ((nextEligible_eq_none next).mp found x (List.mem_of_getElem? at_var))
  | some chosen =>
      have inside := EligibleAt.lt_dim (nextEligible_eq_some found)
      refine ⟨chosen, inside, ?_, ?_⟩
      · rw [choose, found]
      · rcases (ahead_le_of_nextEligible found eligible).eq_or_lt with same | nearer
        · exact Or.inl (eq_of_ahead_eq inside eligible.lt_dim same)
        · exact Or.inr nearer

/-- A choice leaves a round robin, with the pointer behind the chosen variable if there is one. -/
theorem exists_roundRobin_of_choose (b : Box α) (minWidth : α) (next : Nat) :
    ∃ after, ((roundRobin next).choose b minWidth).2 = roundRobin after ∧
      ∀ chosen, ((roundRobin next).choose b minWidth).1 = some chosen →
        chosen < b.dim ∧ after = (chosen + 1) % b.dim := by
  cases found : nextEligible b minWidth next with
  | none =>
      refine ⟨next, ?_, fun chosen chose => ?_⟩
      · rw [choose, found]
      · rw [choose, found] at chose
        cases chose
  | some var =>
      refine ⟨(var + 1) % b.dim, ?_, fun chosen chose => ?_⟩
      · rw [choose, found]
      · rw [choose, found] at chose
        obtain rfl : var = chosen := Option.some.inj chose
        exact ⟨EligibleAt.lt_dim (nextEligible_eq_some found), rfl⟩

/-- A variable that stays eligible is chosen at the latest when there have been as many choices as
it lies ahead. -/
theorem some_mem_choices (sized : ∀ b ∈ boxes, b.dim = n)
    (eligible : ∀ b ∈ boxes, EligibleAt b minWidth var)
    (enough : ahead n next var < boxes.length) :
    some var ∈ choices minWidth (roundRobin next) boxes := by
  induction boxes generalizing next with
  | nil => cases enough
  | cons b rest ih =>
      have same : b.dim = n := sized b List.mem_cons_self
      have eligible_b := eligible b List.mem_cons_self
      obtain ⟨chosen, inside, chose, turn⟩ := choose_of_eligibleAt next eligible_b
      have inside_var := eligible_b.lt_dim
      rw [same] at chose inside turn inside_var
      rw [choices, chose]
      rcases turn with rfl | nearer
      · exact List.mem_cons_self
      · refine List.mem_cons_of_mem _ (ih (fun b hb => sized b (List.mem_cons_of_mem _ hb))
          (fun b hb => eligible b (List.mem_cons_of_mem _ hb)) ?_)
        have closer := ahead_behind inside_var inside nearer
        rw [List.length_cons] at enough
        omega

/-- A variable that stays eligible is chosen before any variable that lies further ahead. -/
theorem chosen_before (sized : ∀ b ∈ boxes, b.dim = n) (inside : var < n)
    (nearer : ahead n next other < ahead n next var)
    (chose : (choices minWidth (roundRobin next) boxes)[j]? = some (some var))
    (eligible : ∀ k ≤ j, ∀ b, boxes[k]? = some b → EligibleAt b minWidth other) :
    ∃ k < j, (choices minWidth (roundRobin next) boxes)[k]? = some (some other) := by
  induction boxes generalizing next j with
  | nil => cases chose
  | cons b rest ih =>
      have same : b.dim = n := sized b List.mem_cons_self
      have eligible_b := eligible 0 (Nat.zero_le j) b rfl
      obtain ⟨first, inside_first, found, turn⟩ := choose_of_eligibleAt next eligible_b
      have inside_other := eligible_b.lt_dim
      rw [same] at found inside_first turn inside_other
      rw [choices, found] at chose ⊢
      cases j with
      | zero =>
          obtain rfl : first = var := Option.some.inj (Option.some.inj chose)
          rcases turn with rfl | before
          · exact absurd nearer (lt_irrefl _)
          · exact absurd before nearer.asymm
      | succ j =>
          rcases turn with rfl | before
          · exact ⟨0, Nat.succ_pos j, rfl⟩
          · have closer := ahead_behind inside_other inside_first before
            have closer_var := ahead_behind inside inside_first (before.trans nearer)
            obtain ⟨k, earlier, at_k⟩ := ih (fun b hb => sized b (List.mem_cons_of_mem _ hb))
              (by omega) chose fun k early b found =>
                eligible (k + 1) (Nat.succ_le_succ early) b found
            exact ⟨k + 1, Nat.succ_lt_succ earlier, at_k⟩

/-- Between two choices of one variable, every other one that stays eligible is chosen. -/
theorem chosen_between (sized : ∀ b ∈ boxes, b.dim = n) (later : i < j)
    (chose : (choices minWidth (roundRobin next) boxes)[i]? = some (some var))
    (again : (choices minWidth (roundRobin next) boxes)[j]? = some (some var))
    (eligible : ∀ k b, i ≤ k → k ≤ j → boxes[k]? = some b → EligibleAt b minWidth other) :
    ∃ k, i ≤ k ∧ k < j ∧ (choices minWidth (roundRobin next) boxes)[k]? = some (some other) := by
  induction boxes generalizing next i j with
  | nil => cases chose
  | cons b rest ih =>
      have same : b.dim = n := sized b List.mem_cons_self
      have sized_rest : ∀ b ∈ rest, b.dim = n := fun b hb => sized b (List.mem_cons_of_mem _ hb)
      obtain ⟨after, moved, behind⟩ := exists_roundRobin_of_choose b minWidth next
      obtain ⟨j, rfl⟩ : ∃ before, j = before + 1 := ⟨j - 1, by omega⟩
      rw [choices, moved] at chose again ⊢
      cases i with
      | zero =>
          obtain ⟨inside, rfl⟩ := behind var (Option.some.inj chose)
          rw [same] at inside again ⊢
          by_cases turn : var = other
          · exact ⟨0, Nat.le_refl 0, later, by rw [← turn]; exact chose⟩
          · have inside_other := (eligible 0 b (Nat.le_refl 0) (Nat.zero_le _) rfl).lt_dim
            rw [same] at inside_other
            obtain ⟨k, earlier, at_k⟩ := chosen_before sized_rest inside
              (ahead_lt_of_ne inside inside_other (Ne.symm turn)) again
              fun k early b found =>
                eligible (k + 1) b (Nat.zero_le _) (Nat.succ_le_succ early) found
            exact ⟨k + 1, Nat.zero_le _, Nat.succ_lt_succ earlier, at_k⟩
      | succ i =>
          obtain ⟨k, from_i, earlier, at_k⟩ := ih sized_rest (Nat.lt_of_succ_lt_succ later)
            chose again fun k b late early found =>
              eligible (k + 1) b (Nat.succ_le_succ late) (Nat.succ_le_succ early) found
          exact ⟨k + 1, Nat.succ_le_succ from_i, Nat.succ_lt_succ earlier, at_k⟩

/-- A round robin starves no variable: one that stays eligible is chosen in as many choices as there
are variables, and it is chosen between any two choices of another one. -/
theorem roundRobin_fair (next : Nat) (minWidth : α) (positive : 1 ≤ n)
    (sized : ∀ b ∈ boxes, b.dim = n) :
    (boxes.length = n → ∀ var : Nat, (∀ b ∈ boxes, EligibleAt b minWidth var) →
      some var ∈ choices minWidth (roundRobin next) boxes) ∧
    ∀ i j var : Nat, i < j →
      (choices minWidth (roundRobin next) boxes)[i]? = some (some var) →
      (choices minWidth (roundRobin next) boxes)[j]? = some (some var) →
      ∀ other : Nat, (∀ k b, i ≤ k → k ≤ j → boxes[k]? = some b → EligibleAt b minWidth other) →
      ∃ k, i ≤ k ∧ k < j ∧
        (choices minWidth (roundRobin next) boxes)[k]? = some (some other) := by
  refine ⟨fun counted var eligible => ?_, fun i j var later chose again other eligible =>
    chosen_between sized later chose again eligible⟩
  have inside : var < n := by
    obtain ⟨b, hb⟩ := List.exists_mem_of_length_pos (counted ▸ positive)
    rw [← sized b hb]
    exact (eligible b hb).lt_dim
  exact some_mem_choices sized eligible ((ahead_lt inside).trans_eq counted.symm)

end Choices

end Bisector

namespace ThinMiddle

def boxes : List (Box Float) :=
  [⟨[⟨0, 1⟩, ⟨0, 1e-9⟩, ⟨2, 3⟩]⟩, ⟨[⟨0, 0.5⟩, ⟨0, 1e-9⟩, ⟨2, 3⟩]⟩, ⟨[⟨0, 0.5⟩, ⟨0, 1⟩, ⟨2, 3⟩]⟩]

theorem last_eligible : ∀ b ∈ boxes, Bisector.EligibleAt b 1e-7 2 := by
  intro b listed
  rcases listed with _ | ⟨_, _ | ⟨_, _ | ⟨_, ⟨⟩⟩⟩⟩ <;>
    exact ⟨⟨2, 3⟩, rfl, Bisector.eligible_iff.mp (by decide +kernel)⟩

theorem last_in_turn :
    (∀ b ∈ boxes, b.dim = 3) ∧
    Bisector.choices 1e-7 (.roundRobin 0) boxes = [some 0, some 2, some 0] ∧
    some 2 ∈ Bisector.choices 1e-7 (.roundRobin 0) boxes ∧
    ∃ k, 0 ≤ k ∧ k < 2 ∧ (Bisector.choices 1e-7 (.roundRobin 0) boxes)[k]? = some (some 2) := by
  have sized : ∀ b ∈ boxes, b.dim = 3 := by decide
  have chosen : Bisector.choices 1e-7 (.roundRobin 0) boxes = [some 0, some 2, some 0] := by
    decide +kernel
  obtain ⟨in_turn, between⟩ :=
    Bisector.roundRobin_fair (α := Float) 0 1e-7 (by decide : 1 ≤ 3) sized
  refine ⟨sized, chosen, in_turn rfl 2 last_eligible, between 0 2 0 (by decide) ?_ ?_ 2 ?_⟩
  · rw [chosen]
    rfl
  · rw [chosen]
    rfl
  · exact fun k b _ _ found => last_eligible b (List.mem_of_getElem? found)

end ThinMiddle

end BoxSearch
