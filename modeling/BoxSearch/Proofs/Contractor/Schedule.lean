import BoxSearch.Proofs.Contractor.NextBound
import BoxSearch.Proofs.Contractor.Shrinking
import BoxSearch.Proofs.Contractor.Twins
import BoxSearch.Proofs.Linear.Program
import BoxSearch.Linear.Scripted

/-!
# The schedule of a round

The solves of a round are its turns. Each turn takes the side that is closest to the last point
of the turns before it, measured in the box that they have left, among the sides that none of them
has solved for or skipped. So no side has two turns, and a round that completes has dealt with
every side.
-/
set_option autoImplicit false

namespace BoxSearch

open OrderedScalar Scalar Checked

/-! ## Turns -/

structure Turn (α : Type) where
  box : Box α
  skipped : List BoundRef
  target : BoundRef
  answer : Except LpError (LpAnswer α)

namespace Turn
variable {α : Type}

def point? (t : Turn α) : Option (List α) := t.answer.toOption.bind LpAnswer.point?

def lastPoint (turns : List (Turn α)) : Option (List α) :=
  turns.foldl (fun last t => t.point?.or last) none

def finished (turns : List (Turn α)) : List BoundRef := turns.flatMap fun t => t.target :: t.skipped

theorem lastPoint_append (turns : List (Turn α)) (t : Turn α) :
    lastPoint (turns ++ [t]) = t.point?.or (lastPoint turns) := by
  rw [lastPoint, List.foldl_append]
  rfl

theorem mem_finished_append {turns : List (Turn α)} {t : Turn α} {r : BoundRef} :
    r ∈ finished (turns ++ [t]) ↔ r ∈ finished turns ∨ r = t.target ∨ r ∈ t.skipped := by
  rw [finished, List.flatMap_append, List.flatMap_singleton, List.mem_append, List.mem_cons]
  rfl

theorem target_mem_finished {turns : List (Turn α)} {t : Turn α} (mem : t ∈ turns) :
    t.target ∈ finished turns :=
  List.mem_flatMap.mpr ⟨t, mem, List.mem_cons_self⟩

/-- The sides are new ones of the box, and the last point touches them. -/
def Skips [Scalar α] (tolerance : α) (n : Nat) (earlier : List (Turn α)) (b : Box α)
    (skipped : List BoundRef) : Prop :=
  ∀ r ∈ skipped, r.var < n ∧ r ∉ finished earlier ∧ r.Touched tolerance b (lastPoint earlier)

/-- The side of a turn is the closest one that is left, and what was skipped on the way to it is
touched by the last point. -/
structure Scheduled [Scalar α] (tolerance : α) (n : Nat) (earlier : List (Turn α)) (t : Turn α) :
    Prop where
  skipped : Skips tolerance n earlier t.box t.skipped
  closest : ∃ d, Relaxation.Closest t.box (lastPoint earlier) (BoundRef.all n)
    (t.skipped ++ finished earlier) t.target d

theorem Scheduled.new [Scalar α] {tolerance : α} {n : Nat} {earlier : List (Turn α)} {t : Turn α}
    (scheduled : t.Scheduled tolerance n earlier) :
    t.target.var < n ∧ t.target ∉ finished earlier := by
  obtain ⟨d, closest⟩ := scheduled.closest
  exact ⟨BoundRef.mem_all.mp closest.mem,
    fun old => closest.unsettled (List.mem_append_right _ old)⟩

def AllScheduled [Scalar α] (tolerance : α) (n : Nat) (earlier turns : List (Turn α)) : Prop :=
  ∀ before t after, turns = before ++ t :: after → t.Scheduled tolerance n (earlier ++ before)

section
variable [Scalar α] {tolerance : α} {n : Nat} {earlier turns : List (Turn α)} {t : Turn α}

theorem allScheduled_nil : AllScheduled tolerance n earlier [] := by
  rintro (_ | ⟨u, before⟩) t after split
  · cases split
  · cases split

theorem allScheduled_cons : AllScheduled tolerance n earlier (t :: turns) ↔
    t.Scheduled tolerance n earlier ∧ AllScheduled tolerance n (earlier ++ [t]) turns := by
  constructor
  · intro scheduled
    refine ⟨List.append_nil earlier ▸ scheduled [] t turns rfl, fun before u after split => ?_⟩
    rw [← List.append_cons]
    exact scheduled (t :: before) u after (congrArg (t :: ·) split)
  · rintro ⟨first, rest⟩ (_ | ⟨u, before⟩) v after split
    · obtain ⟨rfl, -⟩ := List.cons.inj split
      exact (List.append_nil earlier).symm ▸ first
    · obtain ⟨rfl, tail⟩ := List.cons.inj split
      rw [List.append_cons]
      exact rest before v after tail

theorem AllScheduled.new (scheduled : AllScheduled tolerance n earlier turns) (mem : t ∈ turns) :
    t.target.var < n ∧ t.target ∉ finished earlier := by
  obtain ⟨before, after, split⟩ := List.append_of_mem mem
  obtain ⟨inside, new⟩ := (scheduled before t after split).new
  refine ⟨inside, fun old => new ?_⟩
  rw [finished, List.flatMap_append]
  exact List.mem_append_left _ old

/-- No side is solved for twice. -/
theorem AllScheduled.nodup : ∀ {turns earlier : List (Turn α)},
    AllScheduled tolerance n earlier turns → (turns.map target).Nodup := by
  intro turns
  induction turns with
  | nil => exact fun _ => List.nodup_nil
  | cons t turns ih =>
      intro earlier scheduled
      obtain ⟨-, rest⟩ := allScheduled_cons.mp scheduled
      refine List.nodup_cons.mpr ⟨fun again => ?_, ih rest⟩
      obtain ⟨u, mem, same⟩ := List.mem_map.mp again
      exact (rest.new mem).2 (mem_finished_append.mpr (Or.inr (Or.inl same)))

/-- As many turns as there are sides leave none out. -/
theorem AllScheduled.mem_finished (scheduled : AllScheduled tolerance n earlier turns)
    (full : turns.length = 2 * n) {r : BoundRef} (inside : r ∈ BoundRef.all n) :
    r ∈ finished turns := by
  have sides : turns.map target ⊆ BoundRef.all n := by
    intro q hq
    obtain ⟨t, mem, rfl⟩ := List.mem_map.mp hq
    exact BoundRef.mem_all.mpr (scheduled.new mem).1
  have size : (BoundRef.all n).length ≤ (turns.map target).length := by
    rw [BoundRef.length_all, List.length_map, full]
  have all := (scheduled.nodup.subperm sides).perm_of_length_le size
  obtain ⟨t, mem, rfl⟩ := List.mem_map.mp (all.mem_iff.mpr inside)
  exact target_mem_finished mem

end

end Turn

namespace Relaxation
variable {α : Type} [Scalar α] {σ : Type}

def RoundState.aimed (s : RoundState σ α) (r : BoundRef) : RoundState σ α :=
  (s.update (LinearProgram.setSingleObjective r.var 1)).2

/-- A turn from one state to the next: a side is chosen, the solver is asked for it once, and the
answer is used. It may end the round. -/
structure Takes [LpSolver σ α] (tolerance : α) (rows : List (LinearRow α)) (s : RoundState σ α)
    (t : Turn α) (ended : Option RoundEnd) (s' : RoundState σ α) : Prop where
  box : t.box = s.box
  chosen : ∃ d, nextBound tolerance s.box s.primal s.settled =
    .ok ⟨some (t.target, d), t.skipped ++ s.settled⟩
  asked : LpSolver.solve s.solver (s.aimed t.target).program t.target.sense =
    (t.answer, s'.solver)
  used : solveBound rows t.target { s with settled := t.target :: (t.skipped ++ s.settled) } =
    .ok (ended, s')

/-- The turns of a round from one state to another. Only the last one may end the round. -/
inductive Played [LpSolver σ α] (tolerance : α) (rows : List (LinearRow α)) :
    RoundState σ α → List (Turn α) → Option RoundEnd → RoundState σ α → Prop
  | stop (s : RoundState σ α) : Played tolerance rows s [] none s
  | last {s s' : RoundState σ α} {t : Turn α} {ended : RoundEnd}
      (taken : Takes tolerance rows s t (some ended) s') :
      Played tolerance rows s [t] (some ended) s'
  | turn {s s₁ s' : RoundState σ α} {t : Turn α} {turns : List (Turn α)}
      {ended : Option RoundEnd} (taken : Takes tolerance rows s t none s₁)
      (rest : Played tolerance rows s₁ turns ended s') :
      Played tolerance rows s (t :: turns) ended s'

/-- While an invariant of the solver holds, it is kept by every solve of a program in `n`
variables, and the points found are finite and have `n` coordinates. -/
structure FindsFinite [LpSolver σ α] (good : σ → Prop) (n : Nat) : Prop where
  keeps : ∀ {solver : σ} {p : LinearProgram α}, good solver → p.columns.length = n →
    ∀ sense, good (LpSolver.solve solver p sense).2
  finite : ∀ {solver : σ} {p : LinearProgram α}, good solver → p.columns.length = n →
    ∀ sense answer, (LpSolver.solve solver p sense).1 = .ok answer →
      ∀ point ∈ answer.point?, FinitePoint n point

/-! ## What a solve leaves alone -/

theorem columns_load (b : Box α) (rows : List (LinearRow α)) (p : LinearProgram α) :
    ((load b rows).run.run p).2.columns.length = b.dim := by
  obtain ⟨q, ran, length⟩ := LinearProgram.exists_addColumns
    (fun x => (⟨0, x.lo, x.hi⟩ : LinearColumn α)) b.components .empty
  have loaded : (load b rows).run.run p =
      (rows.forM fun r => discard (LinearProgram.addRow r)).run.run q := by
    change ((b.components.forM fun x => discard (LinearProgram.addColumn ⟨0, x.lo, x.hi⟩)) >>=
      fun _ => rows.forM fun r => discard (LinearProgram.addRow r)).run.run .empty = _
    rw [LinearProgram.run_bind, ran]
  rw [loaded, LinearProgram.columns_addRows, length]
  exact Nat.zero_add _

variable {s s' : RoundState σ α} {rows : List (LinearRow α)} {r : BoundRef}
  {answer : LpAnswer α} {ended : Option RoundEnd} {n : Nat} {tolerance : α}
  {good : σ → Prop}

section Solve
variable [OrderedScalar α]

/-- A state that differs in a smaller box and in the program. -/
structure RoundState.Narrows (s' s : RoundState σ α) : Prop where
  box : s'.box.Within s.box
  settled : s'.settled = s.settled
  primal : s'.primal = s.primal
  solver : s'.solver = s.solver
  columns : s'.program.columns.length = s.program.columns.length

theorem narrows_self (proper : ∀ x ∈ s.box.components, x.Proper) : s.Narrows s :=
  ⟨Box.within_self proper, rfl, rfl, rfl, rfl⟩

theorem narrows_of_useAnswer (success : useAnswer rows r answer s = .ok (ended, s'))
    (proper : ∀ x ∈ s.box.components, x.Proper) :
    ended ≠ some .completed ∧ s'.Narrows { s with primal := answer.point?.or s.primal } := by
  have unchanged := narrows_self (s := { s with primal := answer.point?.or s.primal }) proper
  cases used_of_useAnswer success with
  | kept going => exact ⟨by rcases going with rfl | rfl <;> simp, unchanged⟩
  | crossed | refuted => exact ⟨by simp, unchanged⟩
  | tightened component _ compared set changed going =>
      rw [Box.setComponent] at set
      split at set
      · obtain rfl := Except.ok.inj set
        have within := Box.within_set proper (elementAt_eq_ok.mp component)
          (inside_of_compareBound compared)
        obtain ⟨_, q, ran, length, -⟩ := LinearProgram.exists_modifyColumn s.program r.var _
        obtain ⟨-, rfl⟩ := Prod.mk.inj (ran.symm.trans changed)
        exact ⟨by rcases going with rfl | ⟨e, rfl⟩ <;> simp, within, rfl, rfl, rfl, length⟩
      · cases set

omit [OrderedScalar α] in
theorem solveBound_eq [LpSolver σ α] (inside : r.var < s.program.columns.length) :
    solveBound rows r s = match LpSolver.solve s.solver (s.aimed r).program r.sense with
      | (.error _, solver) => .ok (none, { s.aimed r with solver })
      | (.ok answer, solver) => useAnswer rows r answer { s.aimed r with solver } := by
  obtain ⟨result, q, ran, -, success⟩ :=
    LinearProgram.exists_setSingleObjective s.program r.var (1 : α)
  obtain rfl := success inside
  rw [solveBound, RoundState.aimed, update_eq, ran]
  rfl

omit [OrderedScalar α] in
theorem columns_aimed (s : RoundState σ α) (r : BoundRef) :
    (s.aimed r).program.columns.length = s.program.columns.length := by
  obtain ⟨result, q, ran, length, -⟩ :=
    LinearProgram.exists_setSingleObjective s.program r.var (1 : α)
  rw [RoundState.aimed, update_eq, ran]
  exact length

theorem narrows_of_solveBound [LpSolver σ α] (success : solveBound rows r s = .ok (ended, s'))
    (inside : r.var < s.program.columns.length) (proper : ∀ x ∈ s.box.components, x.Proper)
    {t : Turn α} (asked : (LpSolver.solve s.solver (s.aimed r).program r.sense).1 = t.answer) :
    ended ≠ some .completed ∧ s'.Narrows { s with
      primal := t.point?.or s.primal
      solver := (LpSolver.solve s.solver (s.aimed r).program r.sense).2 } := by
  rw [solveBound_eq inside] at success
  rw [Turn.point?, ← asked]
  split at success
  · rename_i solved
    obtain ⟨rfl, rfl⟩ := Prod.mk.inj (Except.ok.inj success)
    rw [solved]
    exact ⟨by simp, Box.within_self proper, rfl, rfl, rfl, columns_aimed s r⟩
  · rename_i solved
    rw [solved]
    obtain ⟨goes, box, settled, primal, solver, columns⟩ := narrows_of_useAnswer success proper
    exact ⟨goes, box, settled, primal, solver, columns.trans (columns_aimed s r)⟩

/-! ## Every answer can be used -/

theorem isFinite_boundObjective (n : Nat) (r : BoundRef) :
    ∀ c ∈ (boundObjective n r : List α), isFinite c = true := by
  intro c hc
  rcases List.mem_or_eq_of_mem_set hc with hc | rfl
  · rw [List.eq_of_mem_replicate hc]
    exact isFinite_zero
  · split
    · exact isFinite_neg isFinite_one
    · exact isFinite_one

theorem exists_compareBound {current : Interval α} {certified : α} (proper : current.Proper)
    (number : IsNumber certified) (below : value certified ≠ ⊤) :
    ∃ proved, compareBound r current certified = .ok proved := by
  obtain ⟨lo_number, hi_number, -, lo_ne_top, hi_ne_bot⟩ := proper
  rw [compareBound]
  split
  · have negated := number_neg number
    dsimp only
    split
    · exact ⟨_, rfl⟩
    · rename_i above
      split
      · rw [lt_iff_value negated lo_number, not_lt] at above
        have finite : value (-certified) ≠ ⊥ := by
          rwa [value_neg number, Ne, EReal.neg_eq_bot_iff]
        have made : (⟨current.lo, -certified⟩ : Interval α).Proper :=
          ⟨lo_number, negated, above, lo_ne_top, finite⟩
        rw [bind_of_ok (Interval.ofBounds_ok made)]
        exact ⟨_, rfl⟩
      · exact ⟨_, rfl⟩
  · split
    · exact ⟨_, rfl⟩
    · rename_i inside
      split
      · rw [lt_iff_value hi_number number, not_lt] at inside
        have made : (⟨certified, current.hi⟩ : Interval α).Proper :=
          ⟨number, hi_number, inside, below, hi_ne_bot⟩
        rw [bind_of_ok (Interval.ofBounds_ok made)]
        exact ⟨_, rfl⟩
      · exact ⟨_, rfl⟩

theorem exists_useAnswer (wellFormed : ∀ row ∈ rows, row.WellFormed s.box.dim)
    (proper : ∀ x ∈ s.box.components, x.Proper) (inside : r.var < s.box.dim)
    (answer : LpAnswer α) : ∃ result, useAnswer rows r answer s = .ok result := by
  rw [useAnswer]
  split
  · obtain ⟨current, member, component⟩ := Box.exists_component inside
    dsimp only
    rw [bind_of_ok component]
    split
    · rename_i dual _ _
      have finite := isFinite_boundObjective (α := α) s.box.dim r
      obtain ⟨certified, bounded, number⟩ :=
        certifiedLowerBound_ok dual s.box wellFormed finite
      have below := certifiedLowerBound_ne_top wellFormed finite bounded
      obtain ⟨proved, compared⟩ := exists_compareBound (proper current member) number below
      rw [bind_of_ok bounded, bind_of_ok compared]
      cases proved with
      | noSolution => exact ⟨_, rfl⟩
      | unchanged => exact ⟨_, rfl⟩
      | tightened z =>
          have set : s.box.setComponent r.var z = .ok ⟨s.box.components.set r.var z⟩ :=
            if_pos inside
          dsimp only
          rw [bind_of_ok set]
          split
          · exact ⟨_, rfl⟩
          · exact ⟨_, rfl⟩
    · exact ⟨_, rfl⟩
  · split
    · exact ⟨_, rfl⟩
    · rename_i direction _
      obtain ⟨refuted, tested⟩ := certifiesInfeasibility_ok direction s.box wellFormed
      rw [bind_of_ok tested]
      split
      · exact ⟨_, rfl⟩
      · exact ⟨_, rfl⟩
  · exact ⟨_, rfl⟩
  · exact ⟨_, rfl⟩
  · exact ⟨_, rfl⟩

theorem exists_solveBound [LpSolver σ α] (wellFormed : ∀ row ∈ rows, row.WellFormed s.box.dim)
    (proper : ∀ x ∈ s.box.components, x.Proper) (inside : r.var < s.box.dim)
    (columns : r.var < s.program.columns.length) :
    ∃ result, solveBound rows r s = .ok result := by
  rw [solveBound_eq columns]
  split
  · exact ⟨_, rfl⟩
  · rename_i answer solver _
    exact exists_useAnswer (s := { s.aimed r with solver }) wellFormed proper inside answer

end Solve

/-! ## The run of a round -/

section Run
variable [OrderedScalar α] [LpSolver σ α]

structure Reached (good : σ → Prop) (n : Nat) (earlier : List (Turn α)) (s : RoundState σ α) :
    Prop where
  proper : ∀ x ∈ s.box.components, x.Proper
  dim : s.box.dim = n
  columns : s.program.columns.length = n
  solver : good s.solver
  finite : ∀ point ∈ s.primal, FinitePoint n point
  settled : ∀ r, r ∈ s.settled ↔ r ∈ Turn.finished earlier
  primal : s.primal = Turn.lastPoint earlier

variable {earlier : List (Turn α)}

omit [LpSolver σ α] in
/-- The scan of a state continues the schedule. -/
theorem Reached.exists_scan [SubtractingScalar α] (reached : Reached good n earlier s)
    (tolerance : α) :
    ∃ scan skipped, nextBound tolerance s.box s.primal s.settled = .ok scan ∧
      Scanned tolerance s.box s.primal s.settled (BoundRef.all n) scan ∧
      scan.settled = skipped ++ s.settled ∧
      Turn.Skips tolerance n earlier s.box skipped := by
  obtain ⟨proper, dim, -, -, finite, settled, primal⟩ := reached
  obtain ⟨scan, chosen, scanned⟩ := exists_nextBound tolerance proper (dim ▸ finite) s.settled
  rw [dim] at scanned
  obtain ⟨skipped, split, touched⟩ := scanned.skipped
  refine ⟨scan, skipped, chosen, scanned, split, fun q hq => ?_⟩
  obtain ⟨mem, new, near⟩ := touched q hq
  exact ⟨BoundRef.mem_all.mp mem, fun old => new ((settled q).mpr old), primal ▸ near⟩

/-- The choice of a side follows the schedule, and its solve leads to the next state. -/
theorem Reached.turn [SubtractingScalar α] (finds : FindsFinite good n)
    (reached : Reached good n earlier s) {scan : Scan α} {skipped : List BoundRef} {d : α}
    (chosen : nextBound tolerance s.box s.primal s.settled = .ok scan)
    (scanned : Scanned tolerance s.box s.primal s.settled (BoundRef.all n) scan)
    (split : scan.settled = skipped ++ s.settled)
    (skips : Turn.Skips tolerance n earlier s.box skipped)
    (found : scan.closest = some (r, d))
    (used : solveBound rows r { s with settled := r :: scan.settled } = .ok (ended, s')) :
    ended ≠ some .completed ∧ ∃ t, Takes tolerance rows s t ended s' ∧
      t.Scheduled tolerance n earlier ∧ Reached good n (earlier ++ [t]) s' := by
  obtain ⟨proper, dim, columns, solver, finite, settled, primal⟩ := reached
  have closest := scanned.closest r d found
  have inside : r.var < n := BoundRef.mem_all.mp closest.mem
  have length := (columns_aimed s r).trans columns
  generalize asked : LpSolver.solve s.solver (s.aimed r).program r.sense = solved
  obtain ⟨answer, solver'⟩ := solved
  have kept := finds.keeps solver length r.sense
  have pointed := finds.finite solver length r.sense
  rw [asked] at kept pointed
  rw [split] at used
  obtain ⟨goes, box, settled', primal', solver_eq, columns'⟩ :=
    narrows_of_solveBound (t := ⟨s.box, skipped, r, answer⟩) used (columns ▸ inside) proper
      (congrArg Prod.fst asked)
  have solver_eq : s'.solver = solver' := solver_eq.trans (congrArg Prod.snd asked)
  refine ⟨goes, ⟨s.box, skipped, r, answer⟩, ⟨rfl, ⟨d, ?_⟩, ?_, used⟩, ⟨skips, d, ?_⟩, ?_⟩
  · rw [chosen, ← found, ← split]
  · exact asked.trans (congrArg _ solver_eq.symm)
  · refine primal ▸ closest.congr fun q => ?_
    rw [split, List.mem_append, List.mem_append, settled q]
  · refine ⟨box.proper, box.dim.trans dim, columns'.trans columns, solver_eq ▸ kept, ?_, ?_, ?_⟩
    · intro point hpoint
      rw [primal', Turn.point?] at hpoint
      rcases Option.or_eq_some_iff.mp hpoint with hpoint | ⟨-, hpoint⟩
      · obtain ⟨a, ha, hpoint⟩ := Option.bind_eq_some_iff.mp hpoint
        cases answer with
        | error e => cases ha
        | ok answer =>
            obtain rfl := Option.some.inj ha
            exact pointed answer rfl point hpoint
      · exact finite point hpoint
    · intro q
      rw [settled', Turn.mem_finished_append, List.mem_cons, List.mem_append, settled q]
      tauto
    · rw [primal', Turn.lastPoint_append, primal]

theorem exists_solveBounds [SubtractingScalar α] (finds : FindsFinite good n)
    (wellFormed : ∀ row ∈ rows, row.WellFormed n) :
    ∀ {fuel : Nat} {earlier : List (Turn α)} {s : RoundState σ α}, Reached good n earlier s →
      ∃ result, solveBounds tolerance rows fuel s = .ok result := by
  intro fuel
  induction fuel with
  | zero => exact fun _ => ⟨_, rfl⟩
  | succ fuel ih =>
      intro earlier s reached
      have dim := reached.dim
      obtain ⟨scan, skipped, chosen, scanned, split, skips⟩ := reached.exists_scan tolerance
      rw [solveBounds, bind_of_ok chosen]
      cases found : scan.closest with
      | none => exact ⟨_, rfl⟩
      | some best =>
          obtain ⟨r, d⟩ := best
          have inside : r.var < n := BoundRef.mem_all.mp (scanned.closest r d found).mem
          obtain ⟨⟨ended, s₁⟩, used⟩ := exists_solveBound
            (s := { s with settled := r :: scan.settled }) (dim ▸ wellFormed) reached.proper
            (dim.symm ▸ inside) (reached.columns.symm ▸ inside)
          dsimp only
          rw [bind_of_ok used]
          cases ended with
          | some ended => exact ⟨_, rfl⟩
          | none =>
              obtain ⟨-, t, -, -, reached'⟩ :=
                reached.turn finds chosen scanned split skips found used
              exact ih reached'

/-- A run from a state that was reached consists of turns, after which some more sides may have
been skipped. -/
theorem exists_turns [SubtractingScalar α] (finds : FindsFinite good n) :
    ∀ {fuel : Nat} {earlier : List (Turn α)} {s final : RoundState σ α} {ended : RoundEnd},
      Reached good n earlier s → solveBounds tolerance rows fuel s = .ok (ended, final) →
      ∃ turns stopped last rest, Played tolerance rows s turns stopped last ∧
        ended = stopped.getD .completed ∧
        final = { last with settled := rest ++ last.settled } ∧ turns.length ≤ fuel ∧
        Turn.AllScheduled tolerance n earlier turns ∧
        Turn.Skips tolerance n (earlier ++ turns) last.box rest ∧
        (ended = .completed → turns.length = fuel ∨
          ∀ r ∈ BoundRef.all n, r ∈ Turn.finished (earlier ++ turns) ∨ r ∈ rest) := by
  intro fuel
  induction fuel with
  | zero =>
      intro earlier s final ended _ success
      obtain ⟨rfl, rfl⟩ := Prod.mk.inj (Except.ok.inj success)
      exact ⟨[], none, s, [], .stop s, rfl, rfl, Nat.le_refl 0, Turn.allScheduled_nil,
        List.forall_mem_nil _, fun _ => Or.inl rfl⟩
  | succ fuel ih =>
      intro earlier s final ended reached success
      obtain ⟨scan, skipped, chosen, scanned, split, skips⟩ := reached.exists_scan tolerance
      rw [solveBounds, bind_of_ok chosen] at success
      cases found : scan.closest with
      | none =>
          rw [found] at success
          obtain ⟨rfl, rfl⟩ := Prod.mk.inj (Except.ok.inj success)
          refine ⟨[], none, s, skipped, .stop s, rfl, split ▸ rfl, Nat.zero_le _,
            Turn.allScheduled_nil, (List.append_nil earlier).symm ▸ skips,
            fun _ => Or.inr fun q hq => ?_⟩
          rw [List.append_nil, ← reached.settled q, ← or_comm, ← List.mem_append, ← split]
          exact scanned.complete found q hq
      | some best =>
          obtain ⟨r, d⟩ := best
          rw [found] at success
          obtain ⟨⟨result, s₁⟩, used, success⟩ := bind_eq_ok.mp success
          obtain ⟨goes, t, taken, scheduled, reached'⟩ :=
            reached.turn finds chosen scanned split skips found used
          cases result with
          | some result =>
              obtain ⟨rfl, rfl⟩ := Prod.mk.inj (Except.ok.inj success)
              exact ⟨[t], some _, s₁, [], .last taken, rfl, rfl,
                Nat.succ_le_succ (Nat.zero_le fuel),
                Turn.allScheduled_cons.mpr ⟨scheduled, Turn.allScheduled_nil⟩,
                List.forall_mem_nil _, fun completed => absurd (congrArg some completed) goes⟩
          | none =>
              obtain ⟨turns, stopped, last, rest, played, same, rfl, bounded, scheduled', skips',
                covered⟩ := ih reached' success
              rw [List.append_assoc] at skips' covered
              exact ⟨t :: turns, stopped, last, rest, .turn taken played, same, rfl,
                Nat.succ_le_succ bounded, Turn.allScheduled_cons.mpr ⟨scheduled, scheduled'⟩,
                skips', fun completed => (covered completed).imp_left (congrArg Nat.succ)⟩

/-- The solves of a round go from side to side. Each takes the closest of the sides that are left,
the first of them if several are equally close, and the sides left out were touched by the last
point when they were skipped. If the round completes, then no side is left. -/
theorem solveBounds_schedule [SubtractingScalar α] {b : Box α} (finds : FindsFinite good b.dim)
    (proper : ∀ x ∈ b.components, x.Proper) {program : LinearProgram α}
    (columns : program.columns.length = b.dim) {solver : σ} (start : good solver)
    (tolerance : α) (rows : List (LinearRow α)) :
    ((∀ row ∈ rows, row.WellFormed b.dim) → ∃ result,
      solveBounds tolerance rows (2 * b.dim) ⟨b, [], none, program, solver⟩ = .ok result) ∧
    ∀ ended final,
      solveBounds tolerance rows (2 * b.dim) ⟨b, [], none, program, solver⟩ =
        .ok (ended, final) →
      ∃ turns stopped last rest,
        Played tolerance rows ⟨b, [], none, program, solver⟩ turns stopped last ∧
        ended = stopped.getD .completed ∧
        final = { last with settled := rest ++ last.settled } ∧
        turns.length ≤ 2 * b.dim ∧ (turns.map Turn.target).Nodup ∧
        (∀ before t after, turns = before ++ t :: after →
          t.Scheduled tolerance b.dim before) ∧
        Turn.Skips tolerance b.dim turns last.box rest ∧
        (ended = .completed → ∀ r ∈ BoundRef.all b.dim,
          r ∈ Turn.finished turns ∨ r ∈ rest) := by
  have reached : Reached good b.dim [] (⟨b, [], none, program, solver⟩ : RoundState σ α) :=
    ⟨proper, rfl, columns, start, (by simp), fun _ => Iff.rfl, rfl⟩
  refine ⟨fun wellFormed => exists_solveBounds finds wellFormed reached,
    fun ended final success => ?_⟩
  obtain ⟨turns, stopped, last, rest, played, ended_eq, same, bounded, scheduled, skips,
    covered⟩ := exists_turns finds reached success
  refine ⟨turns, stopped, last, rest, played, ended_eq, same, bounded, scheduled.nodup, scheduled,
    skips, fun completed r inside => ?_⟩
  rcases covered completed with full | covered
  · exact Or.inl (scheduled.mem_finished full inside)
  · exact covered r inside

end Run

/-! ## Prepared answers -/

/-- Every point among the replies is finite and has `n` coordinates. -/
def Replies (n : Nat) (s : ScriptedSolver α) : Prop :=
  ∀ reply ∈ s.replies, ∀ answer, reply.result = .ok answer →
    ∀ point ∈ answer.point?, FinitePoint n point

omit [Scalar α] in
/-- An answer is one of the replies or worthless, and no reply is added. -/
theorem take_cases (column : Nat) (sense : Sense) : ∀ replies : List (Reply α),
    (ScriptedSolver.take column sense replies).2 ⊆ replies ∧
      ((ScriptedSolver.take column sense replies).1 = .ok (.bare .unknown) ∨
        ∃ reply ∈ replies, (ScriptedSolver.take column sense replies).1 = reply.result) := by
  intro replies
  induction replies with
  | nil => exact ⟨List.Subset.refl [], Or.inl rfl⟩
  | cons reply replies ih =>
      rw [ScriptedSolver.take]
      split
      · refine ⟨?_, Or.inr ⟨reply, List.mem_cons_self, rfl⟩⟩
        split
        · exact List.Subset.refl _
        · exact List.subset_cons_self reply replies
      · obtain ⟨kept, worthless | ⟨other, mem, same⟩⟩ := ih
        · exact ⟨List.cons_subset_cons reply kept, Or.inl worthless⟩
        · exact ⟨List.cons_subset_cons reply kept,
            Or.inr ⟨other, List.mem_cons_of_mem reply mem, same⟩⟩

theorem findsFinite_replies (n : Nat) : FindsFinite (Replies n : ScriptedSolver α → Prop) n where
  keeps {solver p} replies _ sense := by
    obtain ⟨kept, -⟩ := take_cases (p.firstObjective.getD 0) sense solver.replies
    exact fun reply mem => replies reply (kept mem)
  finite {solver p} replies _ sense answer same := by
    obtain ⟨-, worthless | ⟨reply, mem, taken⟩⟩ :=
      take_cases (p.firstObjective.getD 0) sense solver.replies
    · obtain rfl := Except.ok.inj (worthless.symm.trans same)
      exact fun point absent => nomatch absent
    · exact replies reply mem answer (taken.symm.trans same)

namespace Cut

def row : LinearRow ExtendedInt := .le [1, 1] 5

def square : Box ExtendedInt := ⟨[⟨.int 0, .int 10⟩, ⟨.int 0, .int 10⟩]⟩

def solver : ScriptedSolver ExtendedInt := ⟨[
  ⟨0, .minimize, false, .ok ⟨.optimal, some 0, some [0, 0], none, none⟩⟩,
  ⟨0, .maximize, false, .ok ⟨.optimal, some 5, some [5, 0], some [-1], none⟩⟩]⟩

def program : LinearProgram ExtendedInt := ((load square [row]).run.run .empty).2

theorem origin_mem : [0, 0] ∈ square :=
  .cons (ExtendedInt.mem_int.mpr (by norm_num))
    (.cons (ExtendedInt.mem_int.mpr (by norm_num)) .nil)

theorem replies : Replies 2 solver := by
  intro reply mem answer same point offered
  rcases List.mem_pair.mp mem with rfl | rfl
  · obtain rfl := Except.ok.inj same
    obtain rfl := Option.some.inj offered
    exact ⟨rfl, by decide⟩
  · obtain rfl := Except.ok.inj same
    obtain rfl := Option.some.inj offered
    exact ⟨rfl, by decide⟩

theorem wellFormed : ∀ r ∈ [row], r.WellFormed square.dim := by
  intro r hr
  obtain rfl := List.mem_singleton.mp hr
  exact ⟨rfl, by decide, ⟨ExtendedInt.isNumber _, ExtendedInt.isNumber _, bot_le, bot_ne_top,
    EReal.coe_ne_bot _⟩⟩

theorem columns_program : program.columns.length = square.dim := columns_load square [row] .empty

/-- One side is skipped, and one of the three solves moves a bound. -/
theorem square_schedule :
    ∃ ended final,
      solveBounds 1 [row] (2 * square.dim) ⟨square, [], none, program, solver⟩ =
        .ok (ended, final) ∧ final.box = ⟨[⟨.int 0, .int 5⟩, ⟨.int 0, .int 10⟩]⟩ ∧
      ∃ turns stopped last rest,
        Played 1 [row] ⟨square, [], none, program, solver⟩ turns stopped last ∧
        ended = stopped.getD .completed ∧
        final = { last with settled := rest ++ last.settled } ∧
        turns.length ≤ 4 ∧ (turns.map Turn.target).Nodup ∧
        (∀ before t after, turns = before ++ t :: after → t.Scheduled 1 2 before) ∧
        Turn.Skips 1 2 turns last.box rest ∧
        ∀ r ∈ BoundRef.all 2, r ∈ Turn.finished turns ∨ r ∈ rest := by
  obtain ⟨returns, runs⟩ := solveBounds_schedule (b := square) (findsFinite_replies 2)
    (Box.proper_of_mem origin_mem) columns_program replies 1 [row]
  obtain ⟨⟨ended, final⟩, ran⟩ := returns wellFormed
  obtain ⟨turns, stopped, last, rest, played, ended_eq, same, bounded, distinct, scheduled, skips,
    covered⟩ := runs ended final ran
  obtain ⟨completed, tightened⟩ : ended = .completed ∧
      final.box = ⟨[⟨.int 0, .int 5⟩, ⟨.int 0, .int 10⟩]⟩ := by
    obtain ⟨rfl, rfl⟩ := Prod.mk.inj (Except.ok.inj ran)
    exact ⟨rfl, rfl⟩
  exact ⟨ended, final, ran, tightened, turns, stopped, last, rest, played, ended_eq, same,
    bounded, distinct, scheduled, skips, covered completed⟩

end Cut

end Relaxation

end BoxSearch
