import Mathlib.Data.List.Basic
import BoxSearch.Binary64.Directed
import BoxSearch.Proofs.Linear.Program

/-!
# What a failed update leaves behind

Every update says whether it fails before it changes a program, except for the one that makes a
multiple of one variable the objective: it has dropped the old objective by then. All other failed
updates leave the program as it was, so that they can be left out of any sequence of updates.
-/
set_option autoImplicit false

namespace BoxSearch

inductive Mutation (α : Type) where
  | addColumn (c : LinearColumn α)
  | addRow (r : LinearRow α)
  | setObjective (j : Nat) (c : α)
  | setSingleObjective (j : Nat) (c : α)
  | setColumnBounds (j : Nat) (lower upper : α)
  | setRowSides (i : Nat) (lower upper : α)
  | clearRows
  | clear

namespace Mutation
variable {α : Type} [Scalar α]

def perform : Mutation α → ProgramUpdate α (Option Nat)
  | addColumn c => some <$> LinearProgram.addColumn c
  | addRow r => some <$> LinearProgram.addRow r
  | setObjective j c => do LinearProgram.setObjective j c; return none
  | setSingleObjective j c => do LinearProgram.setSingleObjective j c; return none
  | setColumnBounds j lower upper => do LinearProgram.setColumnBounds j lower upper; return none
  | setRowSides i lower upper => do LinearProgram.setRowSides i lower upper; return none
  | clearRows => do LinearProgram.clearRows; return none
  | clear => do LinearProgram.clear; return none

/-- Why the update fails on a program, if it does. -/
def refusal (p : LinearProgram α) : Mutation α → Option LpError
  | addRow r =>
      if r.coeffs.length = p.columns.length then none
      else some (.rowLength p.columns.length r.coeffs.length)
  | setObjective j _ | setSingleObjective j _ | setColumnBounds j _ _ =>
      if j < p.columns.length then none else some (.columnPosition j p.columns.length)
  | setRowSides i _ _ => if i < p.rows.length then none else some (.rowPosition i p.rows.length)
  | addColumn _ | clearRows | clear => none

/-- The program that the update leaves if it fails. -/
def leftover (p : LinearProgram α) : Mutation α → LinearProgram α
  | setSingleObjective _ _ =>
      { p with columns := p.columns.map fun col => { col with objective := 0 } }
  | _ => p

def SetsSingle (m : Mutation α) : Prop := ∃ j c, m = setSingleObjective j c

theorem leftover_of_not_setsSingle (p : LinearProgram α) {m : Mutation α} (other : ¬m.SetsSingle) :
    m.leftover p = p := by
  cases m with
  | setSingleObjective j c => exact absurd ⟨j, c, rfl⟩ other
  | _ => rfl

/-- What is left differs from the program only if there was an objective to lose. -/
theorem leftover_eq_iff (p : LinearProgram α) (m : Mutation α) :
    m.leftover p = p ↔ ¬(m.SetsSingle ∧ ∃ col ∈ p.columns, col.objective ≠ 0) := by
  by_cases single : m.SetsSingle
  · obtain ⟨j, c, rfl⟩ := single
    have lost : ∀ cols : List (LinearColumn α),
        cols.map (fun col => { col with objective := 0 }) = cols ↔
          ¬∃ col ∈ cols, col.objective ≠ 0 := by
      intro cols
      induction cols with
      | nil => simp
      | cons col cols ih =>
          have kept : ({ col with objective := 0 } : LinearColumn α) = col ↔ col.objective = 0 := by
            cases col
            simp [eq_comm]
          rw [List.map_cons, List.cons.injEq, ih, kept]
          simp
    rw [and_iff_right ⟨j, c, rfl⟩, ← lost]
    cases p
    simp [leftover]
  · exact iff_of_true (leftover_of_not_setsSingle p single) fun both => single both.1

end Mutation

namespace LinearProgram
variable {α : Type} [Scalar α]

def step (p : LinearProgram α) (m : Mutation α) : Except LpError (Option Nat) × LinearProgram α :=
  m.perform.run.run p

omit [Scalar α] in
theorem run_addRow (r : LinearRow α) (p : LinearProgram α) :
    (addRow r).run.run p =
      if r.coeffs.length = p.columns.length then
        (.ok p.rows.length, { p with rows := p.rows ++ [r] })
      else (.error (.rowLength p.columns.length r.coeffs.length), p) := by
  rw [addRow, run_bind]
  change StateT.run (ExceptT.run (if _ then _ else _ : ProgramUpdate α Nat)) p = _
  split
  · rfl
  · rename_i same
    exact (if_pos (Decidable.not_not.mp same)).symm

omit [Scalar α] in
theorem run_modifyColumn (j : Nat) (f : LinearColumn α → LinearColumn α) (p : LinearProgram α) :
    (modifyColumn j f).run.run p =
      if h : j < p.columns.length then
        (.ok (), { p with columns := p.columns.set j (f p.columns[j]) })
      else (.error (.columnPosition j p.columns.length), p) := by
  rw [modifyColumn, run_bind]
  change StateT.run (ExceptT.run (_ : ProgramUpdate α Unit)) p = _
  split
  · rename_i position
    rw [dif_neg (Nat.not_lt.mpr (List.getElem?_eq_none_iff.mp position))]
    rfl
  · rename_i c position
    obtain ⟨inside, rfl⟩ := List.getElem?_eq_some_iff.mp position
    rw [dif_pos inside]
    rfl

omit [Scalar α] in
theorem run_setRowSides (i : Nat) (lower upper : α) (p : LinearProgram α) :
    (setRowSides i lower upper).run.run p =
      if h : i < p.rows.length then
        (.ok (), { p with rows := p.rows.set i { p.rows[i] with lower, upper } })
      else (.error (.rowPosition i p.rows.length), p) := by
  rw [setRowSides, run_bind]
  change StateT.run (ExceptT.run (_ : ProgramUpdate α Unit)) p = _
  split
  · rename_i position
    rw [dif_neg (Nat.not_lt.mpr (List.getElem?_eq_none_iff.mp position))]
    rfl
  · rename_i r position
    obtain ⟨inside, rfl⟩ := List.getElem?_eq_some_iff.mp position
    rw [dif_pos inside]
    rfl

/-- What a call did on a program: it failed for its reason and left its leftover, or it answered. -/
inductive Called (p : LinearProgram α) (m : Mutation α) :
    Except LpError (Option Nat) × LinearProgram α → Prop where
  | failed {e : LpError} (refused : m.refusal p = some e) : Called p m (.error e, m.leftover p)
  | done (accepted : m.refusal p = none) (answer : Option Nat) (q : LinearProgram α) :
      Called p m (.ok answer, q)

theorem called (p : LinearProgram α) (m : Mutation α) : Called p m (p.step m) := by
  -- the three updates of a column, on a program with the same number of columns
  have column (j : Nat) (f : LinearColumn α → LinearColumn α)
      (same : (m.leftover p).columns.length = p.columns.length)
      (reason : m.refusal p = if j < p.columns.length then none
        else some (.columnPosition j p.columns.length)) :
      Called p m ((modifyColumn j f >>= fun _ => pure none : ProgramUpdate α (Option Nat)).run.run
        (m.leftover p)) := by
    rw [run_bind, run_modifyColumn]
    split at reason
    · rename_i inside
      rw [dif_pos (same ▸ inside)]
      exact .done reason _ _
    · rename_i outside
      rw [dif_neg (same ▸ outside), same]
      exact .failed reason
  cases m with
  | addColumn | clearRows | clear => exact .done rfl _ _
  | addRow r =>
      rw [step, Mutation.perform, map_eq_pure_bind, run_bind, run_addRow]
      by_cases same : r.coeffs.length = p.columns.length
      · rw [if_pos same]
        exact .done (m := .addRow r) (if_pos same) _ _
      · rw [if_neg same]
        exact .failed (m := .addRow r) (if_neg same)
  | setRowSides i lower upper =>
      rw [step, Mutation.perform, run_bind, run_setRowSides]
      by_cases inside : i < p.rows.length
      · rw [dif_pos inside]
        exact .done (m := .setRowSides i lower upper) (if_pos inside) _ _
      · rw [dif_neg inside]
        exact .failed (m := .setRowSides i lower upper) (if_neg inside)
  | setObjective j c => exact column j _ rfl rfl
  | setColumnBounds j lower upper => exact column j _ rfl rfl
  | setSingleObjective j c => exact column j _ (List.length_map _) rfl

/-- A call fails exactly for its reason, and then it leaves its leftover. -/
theorem step_eq_error_iff {p q : LinearProgram α} {m : Mutation α} {e : LpError} :
    p.step m = (.error e, q) ↔ m.refusal p = some e ∧ q = m.leftover p := by
  generalize ran : p.step m = out
  have called := called p m
  rw [ran] at called
  cases called with
  | failed refused =>
      rw [refused, Prod.mk.injEq, Except.error.injEq, Option.some.injEq, eq_comm (a := q)]
  | done accepted answer q' =>
      rw [accepted]
      simp

/-! ## Sequences of updates -/

def after (p : LinearProgram α) (ms : List (Mutation α)) : LinearProgram α :=
  ms.foldl (fun p m => (p.step m).2) p

/-- A failed update of any program that updates can reach leaves it as it was, unless the update
makes a multiple of one variable the objective. That one loses the objective and nothing else. -/
theorem failed_update (ms : List (Mutation α)) {m : Mutation α} {e : LpError}
    {q : LinearProgram α} (failed : (empty.after ms).step m = (.error e, q)) :
    m.refusal (empty.after ms) = some e ∧
      (q = empty.after ms ↔
        ¬(m.SetsSingle ∧ ∃ col ∈ (empty.after ms).columns, col.objective ≠ 0)) ∧
      (m.SetsSingle → q.objective = (empty.after ms).objective.map fun _ => 0) ∧
      q.rows = (empty.after ms).rows ∧
      q.columns.map (fun col => (col.lower, col.upper)) =
        (empty.after ms).columns.map fun col => (col.lower, col.upper) := by
  obtain ⟨reason, rfl⟩ := step_eq_error_iff.mp failed
  refine ⟨reason, m.leftover_eq_iff _, ?_, ?_, ?_⟩
  · rintro ⟨j, c, rfl⟩
    simp [Mutation.leftover, objective]
  · cases m <;> rfl
  · cases m with
    | setSingleObjective j c => simp [Mutation.leftover]
    | _ => rfl

/-- The update that fails on a program with an objective loses it. -/
theorem failed_update_single :
    (empty.after [Mutation.addColumn ⟨1, 0, 1⟩]).step (.setSingleObjective 5 2) =
        (.error (.columnPosition 5 1), (⟨[⟨0, 0, 1⟩], []⟩ : LinearProgram Float)) ∧
      (⟨[⟨0, 0, 1⟩], []⟩ : LinearProgram Float) ≠ empty.after [Mutation.addColumn ⟨1, 0, 1⟩] := by
  have ran : (empty.after [Mutation.addColumn ⟨1, 0, 1⟩]).step (.setSingleObjective 5 2) =
      (.error (.columnPosition 5 1), (⟨[⟨0, 0, 1⟩], []⟩ : LinearProgram Float)) := rfl
  refine ⟨ran, (failed_update _ ran).2.1.not.mpr (not_not.mpr ?_)⟩
  refine ⟨⟨5, 2, rfl⟩, ⟨1, 0, 1⟩, List.mem_singleton.mpr rfl, fun same => ?_⟩
  exact absurd (congrArg Float.toBits same) (by decide +kernel)

end LinearProgram

end BoxSearch
