import BoxSearch.Scalar
import BoxSearch.Linear.Program

/-!
# The columns of a program

Appending columns is the only update that changes how many columns a program has. All others keep
that number, also when they fail.
-/
set_option autoImplicit false

namespace BoxSearch.LinearProgram

variable {α β γ : Type}

theorem run_bind (u : ProgramUpdate α β) (f : β → ProgramUpdate α γ) (p : LinearProgram α) :
    (u >>= f).run.run p = match u.run.run p with
      | (.ok a, q) => (f a).run.run q
      | (.error e, q) => (.error e, q) := by
  change (match u.run.run p with | (a, q) => StateT.run (ExceptT.bindCont f a) q) = _
  generalize u.run.run p = out
  obtain ⟨e | a, q⟩ := out
  · rfl
  · rfl

theorem columns_addRow (r : LinearRow α) (p : LinearProgram α) :
    ((discard (addRow r)).run.run p).2.columns = p.columns := by
  have discarded : discard (addRow r) = addRow r >>= fun _ => pure () := by
    rw [discard, map_const, Function.comp_apply, map_eq_pure_bind]
  have kept : ((addRow r).run.run p).2.columns = p.columns := by
    rw [addRow, run_bind]
    change (StateT.run (ExceptT.run (if _ then _ else _ : ProgramUpdate α Nat)) p).2.columns = _
    split
    · rfl
    · rfl
  rw [discarded, run_bind]
  generalize (addRow r).run.run p = added at kept
  obtain ⟨e | a, q⟩ := added
  · exact kept
  · exact kept

theorem columns_addRows : ∀ (rows : List (LinearRow α)) (p : LinearProgram α),
    ((rows.forM fun r => discard (addRow r)).run.run p).2.columns = p.columns := by
  intro rows
  induction rows with
  | nil => exact fun p => rfl
  | cons r rows ih =>
      intro p
      have kept := columns_addRow r p
      change ((discard (addRow r) >>= fun _ =>
        rows.forM fun r => discard (addRow r)).run.run p).2.columns = _
      rw [run_bind]
      generalize (discard (addRow r)).run.run p = added at kept
      obtain ⟨e | a, q⟩ := added
      · exact kept
      · exact (ih q).trans kept

theorem exists_addColumns (f : β → LinearColumn α) : ∀ (xs : List β) (p : LinearProgram α),
    ∃ q, (xs.forM fun x => discard (addColumn (f x))).run.run p = (.ok (), q) ∧
      q.columns.length = p.columns.length + xs.length := by
  intro xs
  induction xs with
  | nil => exact fun p => ⟨p, rfl, rfl⟩
  | cons x xs ih =>
      intro p
      obtain ⟨q, ran, length⟩ := ih { p with columns := p.columns ++ [f x] }
      refine ⟨q, ran, length.trans ?_⟩
      rw [List.length_append, List.length_singleton, List.length_cons]
      omega

theorem exists_modifyColumn (p : LinearProgram α) (j : Nat)
    (f : LinearColumn α → LinearColumn α) :
    ∃ result q, (modifyColumn j f).run.run p = (result, q) ∧
      q.columns.length = p.columns.length ∧ (j < p.columns.length → result = .ok ()) := by
  rw [modifyColumn, run_bind]
  change ∃ result q, StateT.run (ExceptT.run (_ : ProgramUpdate α Unit)) p = (result, q) ∧ _
  split
  · rename_i position
    refine ⟨_, p, rfl, rfl, fun inside => ?_⟩
    exact absurd inside (Nat.not_lt.mpr (List.getElem?_eq_none_iff.mp position))
  · exact ⟨_, _, rfl, List.length_set, fun _ => rfl⟩

theorem exists_setSingleObjective [Scalar α] (p : LinearProgram α) (j : Nat) (c : α) :
    ∃ result q, (setSingleObjective j c).run.run p = (result, q) ∧
      q.columns.length = p.columns.length ∧ (j < p.columns.length → result = .ok ()) := by
  obtain ⟨result, q, ran, length, success⟩ := exists_modifyColumn
    { p with columns := p.columns.map fun col => { col with objective := 0 } } j
    fun col => { col with objective := c }
  rw [List.length_map] at length success
  exact ⟨result, q, ran, length, success⟩

end BoxSearch.LinearProgram
