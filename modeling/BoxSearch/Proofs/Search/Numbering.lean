import BoxSearch.Proofs.Search.Balance
import BoxSearch.Proofs.Search.Reachable

/-!
# Room for the numbers of cells

A search opens the root and then two cells in every iteration at most, and a restart makes all
numbers free again. As long as the iterations since the last restart are fewer than `2 ^ 63`, the
buffer has had a number for every cell that came in.
-/
set_option autoImplicit false

namespace BoxSearch

open Scalar Checked

variable {κ α : Type} [Scalar α] [OrderedScalar α]

omit [OrderedScalar α] in
theorem Box.Splits.length_le {b : Box α} {parts : List (Box α)} (splits : b.Splits parts) :
    parts.length ≤ 2 := by
  rcases splits with rfl | ⟨_, _, _, _, -, some_of⟩
  · exact Nat.zero_le _
  · exact some_of.length_le

/-! ## Cells that have come in -/

namespace CellBuffer
variable {b b' : CellBuffer α} {c : Cell α} {n more : Nat}

/-- At most `n` cells have come in since the last flush. -/
def Received (n : Nat) (b : CellBuffer α) : Prop :=
  ∃ m, b.Represents .lowerBound m ∧ m.nextAge ≤ n

omit [OrderedScalar α] in
theorem Received.mono (received : b.Received n) (le : n ≤ more) : b.Received more := by
  obtain ⟨m, same, few⟩ := received
  exact ⟨m, same, few.trans le⟩

theorem Received.push (received : b.Received n) (success : b.push c = .ok b') :
    b'.Received (n + 1) := by
  obtain ⟨m, same, few⟩ := received
  exact ⟨_, same.push success, Nat.succ_le_succ few⟩

theorem Received.pop (received : b.Received n) (success : b.pop = .ok (c, b')) :
    b'.Received n := by
  obtain ⟨m, same, few⟩ := received
  obtain ⟨_, -, -, next⟩ := same.pop success
  exact ⟨_, next, few⟩

theorem Received.setIncumbent (received : b.Received n) (loup : α) :
    (b.setIncumbent loup).Received n := by
  obtain ⟨m, same, few⟩ := received
  exact ⟨_, same.setIncumbent loup, few⟩

theorem Received.evict (received : b.Received n) (bound : α) : (b.evict bound).2.Received n := by
  obtain ⟨m, same, few⟩ := received
  obtain ⟨_, next, -⟩ := same.evict bound
  exact ⟨_, next, few⟩

omit [OrderedScalar α] in
theorem Faithful.received_flush (faithful : b.Faithful) : b.flush.Received 0 := by
  obtain ⟨m, same⟩ := faithful
  exact ⟨_, same.flush, Nat.le_refl 0⟩

end CellBuffer

/-! ## Searches -/

namespace Optimizer
variable [Contractor κ α] {p : Problem α} {k : κ} {settings : SearchConfig α}
  {first o o' : Optimizer κ α} {b : Box α} {opened : List (Box α)} {dropped : List (Dropped α)}
  {n : Nat}

theorem Effects.received (received : o.buffer.Received n)
    (effects : Effects b o opened dropped o') : o'.buffer.Received (n + opened.length) := by
  induction effects generalizing n with
  | opens _ pushed => exact received.push pushed
  | @drops o d _ =>
      obtain ⟨_, same⟩ := eq_of_recordEpsBox o d.lower
      rw [same]
      exact received
  | improves _ _ => exact (received.setIncumbent _).evict _
  | trans _ _ ih₁ ih₂ =>
      rw [List.length_append, ← Nat.add_assoc]
      exact ih₂ (ih₁ received)
  | _ => exact received

omit [OrderedScalar α] in
theorem Effects.iterations (effects : Effects b o opened dropped o') :
    o'.statistics.iterations = o.statistics.iterations := by
  induction effects with
  | counts _ same => exact same
  | drops _ =>
      rw [recordEpsBox]
      dsimp only
      split <;> rfl
  | trans _ _ ih₁ ih₂ => exact ih₂.trans ih₁
  | _ => rfl

theorem Iterates.received (received : o.buffer.Received n) (iterates : o.Iterates dropped o') :
    o'.buffer.Received (n + 2) := by
  cases iterates with
  | @take c o₁ _ _ contractor opened _ taken _ _ splits effects =>
      obtain ⟨buffer, popped, -, same⟩ := alike_takeCell taken
      change o₁.buffer = buffer at same
      have left := received.pop popped
      rw [← same] at left
      have after := effects.received (o := { o₁ with contractor }) left
      exact after.mono (Nat.add_le_add_left splits.length_le n)

omit [OrderedScalar α] in
theorem Iterates.iterations (iterates : o.Iterates dropped o') :
    o'.statistics.iterations = saturatingAdd o.statistics.iterations 1 := by
  cases iterates with
  | take taken _ _ _ effects =>
      obtain ⟨buffer, -, rfl⟩ := takeCell_eq_ok taken
      refine effects.iterations.trans ?_
      rw [raiseUplo]
      dsimp only
      split <;> rfl

/-- The root has come in and two cells for every iteration, if these are counted. Before the start
no cell has. -/
structure Counted (o : Optimizer κ α) : Prop where
  received : o.statistics.iterations < 2 ^ 63 →
    o.buffer.Received (2 * o.statistics.iterations + 1)
  fresh : o.status = .init → o.buffer.Received 0

omit [OrderedScalar α] [Contractor κ α] in
theorem Counted.of_fresh (fresh : o.buffer.Received 0) : o.Counted where
  received _ := fresh.mono (Nat.zero_le _)
  fresh _ := fresh

theorem Counted.moves (counted : o.Counted) (moves : o.Moves dropped o') : o'.Counted := by
  cases moves with
  | start init _ _ some_of _ effects =>
      have opened := effects.received (counted.fresh init)
      refine ⟨fun _ => opened.mono ?_, nofun⟩
      have one := some_of.length_le
      rw [List.length_singleton] at one
      change _ ≤ 2 * _ + 1
      omega
  | @iterate _ _ t _ _ _ running _ _ iterates =>
      have status := (congrArg Prod.snd iterates.standing).trans running
      refine ⟨fun few => ?_, fun init => SearchStatus.noConfusion (status.symm.trans init)⟩
      -- a counter below the middle of its range has counted one more
      have one : t.search.statistics.iterations = o.statistics.iterations + 1 := by
        have next := iterates.iterations
        rw [saturatingAdd] at next
        split at next
        · exact next
        · rw [next, counterLimit] at few
          omega
      rw [one] at few ⊢
      exact iterates.received (counted.received (by omega))
  | resume _ _ _ => exact ⟨counted.received, nofun⟩
  | stop _ stops =>
      have ne_init := stops.ne_init
      obtain ⟨uplo, pendingLimit, rfl⟩ := stops.eq_raised
      exact ⟨counted.received, fun init => absurd init ne_init⟩
  | interrupt _ => exact ⟨counted.received, nofun⟩
  | clock => exact ⟨counted.received, counted.fresh⟩

theorem History.counted (faithful : first.buffer.Faithful) (fresh : first.buffer.Received 0)
    (history : History first o dropped) : o.Counted := by
  induction history with
  | begin => exact .of_fresh fresh
  | move _ moves ih => exact ih.moves moves
  | restart history _ _ _ =>
      exact .of_fresh ((history.faithful faithful).received_flush.setIncumbent _)

theorem Reachable.history (reached : Reachable p k settings o) : ∃ bisector first dropped,
    ofParts p k bisector settings = .ok (.ok first) ∧ History first o dropped := by
  induction reached with
  | begin made => exact ⟨_, _, _, made, .begin⟩
  | run _ success ih =>
      obtain ⟨bisector, first, _, made, history⟩ := ih
      obtain ⟨_, later⟩ := history.run success
      exact ⟨bisector, first, _, made, later⟩
  | restart _ success ih =>
      obtain ⟨bisector, first, _, made, history⟩ := ih
      obtain ⟨_, later⟩ := history.restarted success
      exact ⟨bisector, first, _, made, later⟩
  | optimize _ _ success ih =>
      obtain ⟨bisector, first, _, made, history⟩ := ih
      obtain ⟨_, later⟩ := history.optimize success
      exact ⟨bisector, first, _, made, later⟩
  | enter _ enters ih =>
      obtain ⟨bisector, first, _, made, history⟩ := ih
      cases enters with
      | start init known pushed =>
          obtain ⟨_, _, some_of, live, effects⟩ := effects_pushRoot pushed
          exact ⟨bisector, first, _, made,
            history.move (.start init known pushed some_of live effects)⟩
      | resume begun unmet left =>
          exact ⟨bisector, first, _, made, history.move (.resume begun unmet left)⟩
  | step _ steps ih =>
      obtain ⟨bisector, first, _, made, history⟩ := ih
      cases steps with
      | iterate running going success =>
          obtain ⟨_, path, -⟩ := path_of_iteration running going success
          exact ⟨bisector, first, _, made, history.path path⟩

/-- With fewer than `2 ^ 63` iterations since the last restart there was a number for every cell. -/
theorem Reachable.numbered (reached : Reachable p k settings o)
    (few : o.statistics.iterations < 2 ^ 63) :
    ∃ m, o.buffer.Represents .lowerBound m ∧ m.Numbered := by
  obtain ⟨_, _, _, made, history⟩ := reached.history
  obtain ⟨buffer, chosen, rfl⟩ := ofParts_eq_ok made
  have start := represents_bufferOf chosen
  obtain ⟨m, same, count⟩ :=
    (history.counted ⟨_, start⟩ ⟨_, start, Nat.le_refl 0⟩).received few
  refine ⟨m, same, count.trans ?_⟩
  omega

end Optimizer

end BoxSearch
