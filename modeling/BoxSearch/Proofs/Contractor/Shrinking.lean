import BoxSearch.Proofs.Agreement.Hull
import BoxSearch.Proofs.Contractor.Relaxation
import BoxSearch.Proofs.Interval.Functions
import BoxSearch.Proofs.Search.Certificate

/-!
# No contractor makes a box larger

Whatever the linear solver answers, a plan whose measurements have the dimension of its boxes
leaves a part of the box that it is given. A relaxation moves a bound only inward, and an agreement
meets the box with what enough of its members have left.
-/
set_option autoImplicit false

namespace BoxSearch

open OrderedScalar Scalar Checked

variable {α : Type} [Scalar α] [OrderedScalar α]

/-! ## Parts of a box -/

theorem Interval.proper_of_ofBounds {lo hi : α} {x : Interval α}
    (success : ofBounds lo hi = .ok x) : x.Proper := by
  have made : ofBounds? lo hi = some x := by
    rw [ofBounds] at success
    split at success
    · rename_i accepted
      rw [accepted, Except.ok.inj success]
    · cases success
  have valid : x.Valid := by
    have normal := valid_normalized lo hi
    rwa [normalized, made] at normal
  refine valid.proper_of_not_empty (Bool.eq_false_iff.mpr fun empty => ?_)
  obtain rfl := eq_of_ofBounds success
  rw [ofBounds?, if_pos] at made
  · cases made
  · rw [Interval.isEmpty] at empty
    simp [empty]

theorem Interval.Inside.live {x y : Interval α} (inside : x.Inside y) : y.isEmpty = false := by
  obtain ⟨t, member⟩ := inside.proper.exists_mem
  exact isEmpty_of_mem (inside.mem member)

namespace Box
variable {b c d : Box α}

/-- What can be left of a box. An empty rest has the dimension of the box and need not lie in it. -/
structure PartOf (b c : Box α) : Prop where
  valid : b.Valid
  dim : b.dim = c.dim
  within : b.isEmpty = false → b.Within c

theorem Valid.partOf (valid : b.Valid) : b.PartOf b :=
  ⟨valid, rfl, fun live => within_self (valid.proper live)⟩

theorem Within.live (within : b.Within c) : c.isEmpty = false := by
  rw [isEmpty, List.any_eq_false]
  intro y hy
  obtain ⟨i, hi, rfl⟩ := List.getElem_of_mem hy
  have aligned := List.forall₂_iff_get.mp within
  exact Bool.eq_false_iff.mp (aligned.2 i (aligned.1 ▸ hi) hi).live

theorem PartOf.trans (first : b.PartOf c) (second : c.PartOf d) : b.PartOf d :=
  ⟨first.valid, first.dim.trans second.dim, fun live =>
    (first.within live).trans (second.within (first.within live).live)⟩

theorem partOf_intersect (hb : b.Valid) (hc : c.Valid) (dim : b.dim = c.dim) :
    (b.intersect c).PartOf b := by
  have size : (b.components.zipWith Interval.intersect c.components).length = b.dim :=
    List.length_zipWith.trans (min_eq_left dim.le)
  refine ⟨?_, ?_, within_intersect hb hc dim⟩
  · intro x hx
    rw [intersect] at hx
    split at hx
    · obtain ⟨_, -, rfl⟩ := List.mem_map.mp hx
      exact Interval.valid_empty
    · obtain ⟨i, hi, rfl⟩ := List.getElem_of_mem hx
      rw [List.getElem_zipWith]
      exact Interval.valid_intersect
  · rw [intersect]
    split
    · exact (List.length_map _).trans size
    · exact size

theorem partOf_set {j : Nat} {x z : Interval α} (valid : b.Valid)
    (position : b.components[j]? = some x) (inside : z.Inside x) :
    (⟨b.components.set j z⟩ : Box α).PartOf b := by
  refine ⟨fun y hy => ?_, List.length_set, fun live => within_set ?_ position inside⟩
  · rcases List.mem_or_eq_of_mem_set hy with hy | rfl
    · exact valid y hy
    · exact Or.inr inside.proper
  · intro y hy
    refine (valid y hy).proper_of_not_empty ?_
    obtain ⟨i, hi, rfl⟩ := List.getElem_of_mem hy
    by_cases same : i = j
    · subst same
      rw [List.getElem?_eq_getElem hi] at position
      exact Option.some.inj position ▸ inside.live
    · rw [isEmpty, List.any_eq_false] at live
      have kept : b.components[i] ∈ b.components.set j z := by
        refine List.mem_of_getElem? (i := i) ?_
        rw [List.getElem?_set_ne (Ne.symm same), List.getElem?_eq_getElem hi]
      exact Bool.eq_false_iff.mpr (live _ kept)

theorem partOf_setComponent {j : Nat} {x z : Interval α} (valid : b.Valid)
    (component : b.component j = .ok x) (set : b.setComponent j z = .ok c) (inside : z.Inside x) :
    c.PartOf b := by
  rw [setComponent] at set
  split at set
  · obtain rfl := Except.ok.inj set
    exact partOf_set valid (elementAt_eq_ok.mp component) inside
  · cases set

end Box

/-- The box that is left, if one is, is a part of the given one. -/
def Narrowing.Shrinks (outcome : Narrowing α) (b : Box α) : Prop :=
  ∀ b', outcome = .narrowed b' → b'.PartOf b

theorem Narrowing.shrinks_noSolution (b : Box α) : (noSolution : Narrowing α).Shrinks b := by
  rintro _ ⟨⟩

theorem Narrowing.shrinks_unavailable (b : Box α) : (unavailable : Narrowing α).Shrinks b := by
  rintro _ ⟨⟩

theorem Narrowing.shrinks_failed (e : LpError) (b : Box α) :
    (failed e : Narrowing α).Shrinks b := by
  rintro _ ⟨⟩

theorem Box.PartOf.shrinks {b c : Box α} {outcome : Narrowing α} (part : c.PartOf b)
    (shrinks : outcome.Shrinks c) : outcome.Shrinks b := fun b' same =>
  (shrinks b' same).trans part

theorem Box.PartOf.shrinks_narrowed {b c : Box α} (part : c.PartOf b) :
    (Narrowing.narrowed c).Shrinks b := by
  rintro _ ⟨⟩
  exact part

/-! ## Agreements -/

theorem Agreement.valid_of_qIntersection [SteppingScalar α] {n q : Nat} {boxes : List (Box α)}
    {hull : Box α} (dims : ∀ b ∈ boxes, b.dim = n) (valid : ∀ b ∈ boxes, b.Valid)
    (success : qIntersection boxes q = .ok hull) : hull.Valid ∧ hull.dim = n := by
  rw [qIntersection] at success
  split at success
  · cases success
  · rename_i positive
    split at success
    · cases success
    · rename_i enough
      have head : (boxes.head?.map Box.dim).getD 0 = n := by
        cases boxes with
        | nil =>
            rw [List.length_nil] at enough
            omega
        | cons b rest => exact dims b List.mem_cons_self
      dsimp only at success
      rw [head] at success
      split at success
      · cases success
      · split at success
        · obtain rfl := Except.ok.inj success
          refine ⟨fun x hx => Or.inl (List.eq_of_mem_replicate hx), List.length_replicate⟩
        · rename_i some_live
          obtain rfl := Except.ok.inj success
          have least := isHull_hull (live_filter dims valid) (not_lt.mp some_live)
          exact ⟨least.valid, least.dim⟩

namespace ContractorPlan

theorem shrinks_meet {b c : Box α} (hb : b.Valid) (hc : c.Valid) (dim : b.dim = c.dim) :
    (meet b c).Shrinks b := by
  intro b' narrowed
  rw [meet] at narrowed
  split at narrowed
  · cases narrowed
  · obtain rfl := Narrowing.narrowed.inj narrowed
    exact Box.partOf_intersect hb hc dim

theorem shrinks_agree [SteppingScalar α] {q : Nat} {b : Box α} {images : List (Box α)}
    (valid : b.Valid) (parts : ∀ c ∈ images, c.PartOf b) : (agree q b images).Shrinks b := by
  rw [agree]
  split
  · exact Narrowing.shrinks_noSolution b
  · split
    · rename_i hull found
      obtain ⟨valid', dim⟩ := Agreement.valid_of_qIntersection (fun c hc => (parts c hc).dim)
        (fun c hc => (parts c hc).valid) found
      exact shrinks_meet valid valid' dim.symm
    · exact Narrowing.shrinks_unavailable b

end ContractorPlan

/-! ## Relaxations -/

namespace Relaxation
variable {r : Relaxation α} {rows : List (LinearRow α)} {σ : Type}

theorem inside_of_compareBound {ref : BoundRef} {current z : Interval α} {certified : α}
    (success : compareBound ref current certified = .ok (.tightened z)) : z.Inside current := by
  rw [compareBound] at success
  split at success
  · dsimp only at success
    split at success
    · cases success
    · split at success
      · rename_i lower
        obtain ⟨x, made, same⟩ := bind_eq_ok.mp success
        obtain rfl := Proved.tightened.inj (Except.ok.inj same)
        have proper := Interval.proper_of_ofBounds made
        obtain rfl := Interval.eq_of_ofBounds made
        exact ⟨proper, le_refl proper.lo_number, le_of_lt lower⟩
      · cases success
  · split at success
    · cases success
    · split at success
      · rename_i higher
        obtain ⟨x, made, same⟩ := bind_eq_ok.mp success
        obtain rfl := Proved.tightened.inj (Except.ok.inj same)
        have proper := Interval.proper_of_ofBounds made
        obtain rfl := Interval.eq_of_ofBounds made
        exact ⟨proper, le_of_lt higher, le_refl proper.hi_number⟩
      · cases success

theorem partOf_of_useAnswer {ref : BoundRef} {answer : LpAnswer α} {s : RoundState σ α}
    {result : Option RoundEnd × RoundState σ α}
    (success : useAnswer rows ref answer s = .ok result) (valid : s.box.Valid) :
    result.2.box.PartOf s.box := by
  obtain ⟨ended, s'⟩ := result
  cases used_of_useAnswer success with
  | kept | crossed | refuted => exact valid.partOf
  | tightened component _ compared set =>
      exact Box.partOf_setComponent valid component set (inside_of_compareBound compared)

variable [LpSolver σ α]

theorem partOf_of_solveBound {ref : BoundRef} {s : RoundState σ α}
    {result : Option RoundEnd × RoundState σ α} (success : solveBound rows ref s = .ok result)
    (valid : s.box.Valid) : result.2.box.PartOf s.box := by
  rw [solveBound] at success
  split at success
  · rename_i updated
    obtain rfl := Except.ok.inj success
    exact (RoundState.box_of_update updated).symm ▸ valid.partOf
  · rename_i updated
    have same := RoundState.box_of_update updated
    split at success
    · obtain rfl := Except.ok.inj success
      exact same.symm ▸ valid.partOf
    · have part := partOf_of_useAnswer success (same.symm ▸ valid)
      exact same ▸ part

theorem partOf_of_solveBounds {tolerance : α} :
    ∀ {n : Nat} {s : RoundState σ α} {result : RoundEnd × RoundState σ α},
      solveBounds tolerance rows n s = .ok result → s.box.Valid →
      result.2.box.PartOf s.box := by
  intro n
  induction n with
  | zero =>
      intro s result success valid
      obtain rfl := Except.ok.inj success
      exact valid.partOf
  | succ n ih =>
      intro s result success valid
      rw [solveBounds] at success
      obtain ⟨scan, -, success⟩ := bind_eq_ok.mp success
      split at success
      · obtain rfl := Except.ok.inj success
        exact valid.partOf
      · obtain ⟨⟨ended, s'⟩, solved, success⟩ := bind_eq_ok.mp success
        have part := partOf_of_solveBound solved valid
        cases ended with
        | some ended =>
            obtain rfl := Except.ok.inj success
            exact part
        | none => exact (ih success part.valid).trans part

theorem partOf_of_round {b : Box α} {state state' : RelaxationState σ α}
    {ended : RoundEnd × Box α} (success : r.round b state = .ok (some ended, state'))
    (valid : b.Valid) : ended.2.PartOf b := by
  rw [round] at success
  obtain ⟨found, -, success⟩ := bind_eq_ok.mp success
  dsimp only at success
  split at success
  · obtain ⟨same, -⟩ := Prod.mk.inj (Except.ok.inj success)
    exact Option.some.inj same ▸ valid.partOf
  · split at success
    · cases (Prod.mk.inj (Except.ok.inj success)).1
    · split at success
      · obtain ⟨same, -⟩ := Prod.mk.inj (Except.ok.inj success)
        exact Option.some.inj same ▸ valid.partOf
      · obtain ⟨⟨result, s⟩, solved, success⟩ := bind_eq_ok.mp success
        obtain ⟨same, -⟩ := Prod.mk.inj (Except.ok.inj success)
        exact Option.some.inj same ▸ partOf_of_solveBounds solved valid

section Rounds
variable {π : Type} {pre : π → Box α → Journaled α (Narrowing α × π)} {n : Nat}

/-- The other contractor leaves parts of boxes of dimension `n`. -/
def Reduces (n : Nat) (pre : π → Box α → Journaled α (Narrowing α × π)) : Prop :=
  ∀ {memory memory' : π} {b : Box α} {outcome : Narrowing α} {j j' : Journal α}, b.Valid →
    b.dim = n → (pre memory b).run j = .ok ((outcome, memory'), j') → outcome.Shrinks b

theorem Reduces.runPre (reduces : Reduces n pre) {memory memory' : π} {b : Box α}
    {outcome : Narrowing α} {j j' : Journal α} (valid : b.Valid) (dim : b.dim = n)
    (success : (runPre pre memory b).run j = .ok ((outcome, memory'), j')) :
    outcome.Shrinks b := by
  obtain ⟨⟨inner, memory₁⟩, j₁, ran, success⟩ := run_bind_eq_ok.mp success
  split at success
  · obtain ⟨rfl, -⟩ := Prod.mk.inj (run_pure_eq_ok.mp success).1
    exact valid.partOf.shrinks_narrowed
  · obtain ⟨rfl, -⟩ := Prod.mk.inj (run_pure_eq_ok.mp success).1
    exact reduces valid dim ran

omit [LpSolver σ α] in
theorem shrinks_of_goOn {b : Box α} {outcome : Narrowing α} {ended : RoundEnd} {ends : Prop}
    [Decidable ends] {again : Box α → Journaled α (Contraction σ π α)}
    {state : RelaxationState σ α} {memory : π} {result : Contraction σ π α} {j j' : Journal α}
    (success : StateT.run (match outcome, ended with
      | .narrowed b, .completed =>
        if ends then pure ⟨.narrowed b, state, memory⟩ else again b
      | outcome, _ => pure ⟨outcome, state, memory⟩) j = .ok (result, j'))
    (shrinks : outcome.Shrinks b)
    (further : ∀ c : Box α, c.PartOf b → (again c).run j = .ok (result, j') →
      result.outcome.Shrinks b) : result.outcome.Shrinks b := by
  have stops : ∀ {o : Narrowing α}, o.Shrinks b →
      StateT.run (pure ⟨o, state, memory⟩ : Journaled α (Contraction σ π α)) j =
        .ok (result, j') → result.outcome.Shrinks b := by
    intro o shrinks success
    obtain rfl := (run_pure_eq_ok.mp success).1
    exact shrinks
  cases outcome with
  | narrowed c =>
      cases ended with
      | completed =>
          dsimp only at success
          split at success
          · exact stops shrinks success
          · exact further c (shrinks c rfl) success
      | stopped => exact stops shrinks success
      | noSolution => exact stops shrinks success
      | failed e => exact stops shrinks success
  | noSolution => exact stops shrinks success
  | unavailable => exact stops shrinks success
  | failed e => exact stops shrinks success

theorem Reduces.rounds (reduces : Reduces n pre) :
    ∀ {k : Nat} {b : Box α} {state : RelaxationState σ α} {memory : π}
      {result : Contraction σ π α} {j j' : Journal α}, b.Valid → b.dim = n →
      (rounds r pre k b state memory).run j = .ok (result, j') → result.outcome.Shrinks b := by
  intro k
  induction k with
  | zero =>
      intro b state memory result j j' valid dim success
      obtain rfl := (run_pure_eq_ok.mp success).1
      exact valid.partOf.shrinks_narrowed
  | succ k ih =>
      intro b state memory result j j' valid dim success
      rw [Relaxation.rounds] at success
      obtain ⟨⟨ended, state'⟩, j₁, turned, success⟩ := run_bind_eq_ok.mp success
      have turned := (run_liftM_eq_ok.mp turned).1
      cases ended with
      | none =>
          obtain rfl := (run_pure_eq_ok.mp success).1
          exact valid.partOf.shrinks_narrowed
      | some ended =>
          have part := partOf_of_round turned valid
          obtain ⟨ended, after⟩ := ended
          cases ended with
          | noSolution =>
              obtain rfl := (run_pure_eq_ok.mp success).1
              exact Narrowing.shrinks_noSolution b
          | failed e =>
              obtain rfl := (run_pure_eq_ok.mp success).1
              exact Narrowing.shrinks_failed e b
          | completed | stopped =>
              have further : ∀ {c : Box α} {memory : π} {i : Journal α}, c.PartOf after →
                  (Relaxation.rounds r pre k c state' memory).run i = .ok (result, j') →
                  result.outcome.Shrinks after := fun inside ran =>
                inside.shrinks (ih inside.valid ((inside.dim.trans part.dim).trans dim) ran)
              dsimp only at success
              split at success
              · obtain ⟨⟨outcome, memory'⟩, j₂, ran, success⟩ := run_bind_eq_ok.mp success
                have shrinks := reduces.runPre part.valid (part.dim.trans dim) ran
                exact part.shrinks (shrinks_of_goOn success shrinks fun _ => further)
              · obtain ⟨⟨outcome, memory'⟩, j₂, ran, success⟩ := run_bind_eq_ok.mp success
                have shrinks : outcome.Shrinks after := by
                  obtain ⟨rfl, -⟩ := Prod.mk.inj (run_pure_eq_ok.mp ran).1
                  exact part.valid.partOf.shrinks_narrowed
                exact part.shrinks (shrinks_of_goOn success shrinks fun _ => further)

theorem Reduces.contract (reduces : Reduces n pre) {b : Box α} {state : RelaxationState σ α}
    {memory : π} {result : Contraction σ π α} {j j' : Journal α} (valid : b.Valid)
    (dim : b.dim = n) (success : (r.contract pre b state memory).run j = .ok (result, j')) :
    result.outcome.Shrinks b := by
  rw [Relaxation.contract] at success
  split at success
  · obtain rfl := (run_pure_eq_ok.mp success).1
    exact Narrowing.shrinks_noSolution b
  · split at success
    · obtain rfl := (run_pure_eq_ok.mp success).1
      exact Narrowing.shrinks_unavailable b
    · obtain ⟨⟨outcome, memory'⟩, j₂, ran, success⟩ := run_bind_eq_ok.mp success
      have shrinks := reduces.runPre valid dim ran
      split at success
      · rename_i same
        obtain ⟨rfl, rfl⟩ := Prod.mk.inj same
        have part := shrinks _ rfl
        exact part.shrinks (reduces.rounds part.valid (part.dim.trans dim) success)
      · rename_i same
        obtain ⟨rfl, rfl⟩ := Prod.mk.inj same
        obtain rfl := (run_pure_eq_ok.mp success).1
        exact shrinks

end Rounds

end Relaxation

/-! ## Plans -/

namespace ContractorPlan

mutual

/-- The measurements of a plan can be stored and have the given dimension, and no member of it
answers with a fixed box. -/
def Fits (n : Nat) : ContractorPlan α → Prop
  | intersection measurement => measurement.Valid ∧ measurement.dim = n
  | check _ => True
  | sequence members => FitAll n members
  | agreement _ members => FitAll n members
  | relaxation _ pre => pre.Fits n
  | fixed _ outcome => ∀ b, outcome ≠ .narrowed b
  | observed _ inner => inner.Fits n

def FitAll (n : Nat) : List (ContractorPlan α) → Prop
  | [] => True
  | c :: cs => c.Fits n ∧ FitAll n cs

end

/-- The image of one more member is added to those of the others. -/
theorem parts_of_map {b image : Box α} {images : List (Box α)}
    {rest : Except LpError (List (Box α))} (same : rest.map (image :: ·) = .ok images)
    (part : image.PartOf b) (parts : ∀ found, rest = .ok found → ∀ c ∈ found, c.PartOf b) :
    ∀ c ∈ images, c.PartOf b := by
  cases rest with
  | error e => cases same
  | ok found =>
      obtain rfl := Except.ok.inj same
      exact List.forall_mem_cons.mpr ⟨part, parts found rfl⟩

variable {σ : Type} {n : Nat}

mutual

theorem shrinks_of_contract [SteppingScalar α] [LpSolver σ α] :
    ∀ (c : ContractorPlan α) {m m' : c.Memory σ} {b : Box α}
    {outcome : Narrowing α} {j j' : Journal α}, c.Fits n → b.Valid → b.dim = n →
    (c.contract m b).run j = .ok ((outcome, m'), j') → outcome.Shrinks b
  | intersection measurement, m, m', b, outcome, j, j', fits, valid, dim, success => by
      rw [contract] at success
      rw [Fits] at fits
      obtain ⟨rfl, -⟩ := Prod.mk.inj (run_pure_eq_ok.mp success).1
      exact shrinks_meet valid fits.1 (dim.trans fits.2.symm)
  | check p, m, m', b, outcome, j, j', _, valid, _, success => by
      rw [contract] at success
      obtain ⟨⟨violated, probe⟩, j₁, -, success⟩ := run_bind_eq_ok.mp success
      obtain ⟨rfl, -⟩ := Prod.mk.inj (run_pure_eq_ok.mp success).1
      split
      · exact Narrowing.shrinks_noSolution b
      · exact valid.partOf.shrinks_narrowed
  | sequence members, m, m', b, outcome, j, j', fits, valid, dim, success => by
      rw [contract] at success
      rw [Fits] at fits
      exact shrinks_of_contractInTurn members fits valid dim success
  | agreement q members, m, m', b, outcome, j, j', fits, valid, dim, success => by
      rw [contract] at success
      rw [Fits] at fits
      split at success
      · obtain ⟨rfl, -⟩ := Prod.mk.inj (run_pure_eq_ok.mp success).1
        exact Narrowing.shrinks_noSolution b
      · obtain ⟨⟨images, m₁⟩, j₁, ran, success⟩ := run_bind_eq_ok.mp success
        cases images with
        | error e =>
            obtain ⟨rfl, -⟩ := Prod.mk.inj (run_pure_eq_ok.mp success).1
            exact Narrowing.shrinks_failed e b
        | ok images =>
            obtain ⟨rfl, -⟩ := Prod.mk.inj (run_pure_eq_ok.mp success).1
            exact shrinks_agree valid (parts_of_contractEach members fits valid dim ran)
  | relaxation r pre, m, m', b, outcome, j, j', fits, valid, dim, success => by
      rw [contract] at success
      rw [Fits] at fits
      obtain ⟨result, j₁, ran, success⟩ := run_bind_eq_ok.mp success
      obtain ⟨rfl, -⟩ := Prod.mk.inj (run_pure_eq_ok.mp success).1
      have reduces : Relaxation.Reduces n (fun (m : pre.Memory σ) b => pre.contract m b) :=
        fun valid dim success => shrinks_of_contract pre fits valid dim success
      exact reduces.contract valid dim ran
  | fixed name answer, m, m', b, outcome, j, j', fits, _, _, success => by
      rw [contract] at success
      rw [Fits] at fits
      obtain ⟨rfl, -⟩ := Prod.mk.inj (run_pure_eq_ok.mp success).1
      exact fun b' same => absurd same (fits b')
  | observed label inner, m, m', b, outcome, j, j', fits, valid, dim, success => by
      rw [contract] at success
      rw [Fits] at fits
      obtain ⟨_, _, _, success⟩ := run_bind_eq_ok.mp success
      exact shrinks_of_contract inner fits valid dim success

theorem shrinks_of_contractInTurn [SteppingScalar α] [LpSolver σ α] :
    ∀ (cs : List (ContractorPlan α)) {m m' : Memories σ cs}
    {b : Box α} {outcome : Narrowing α} {j j' : Journal α}, FitAll n cs → b.Valid → b.dim = n →
    (contractInTurn cs m b).run j = .ok ((outcome, m'), j') → outcome.Shrinks b
  | [], m, m', b, outcome, j, j', _, valid, _, success => by
      rw [contractInTurn] at success
      obtain ⟨rfl, -⟩ := Prod.mk.inj (run_pure_eq_ok.mp success).1
      exact valid.partOf.shrinks_narrowed
  | c :: cs, m, m', b, outcome, j, j', fits, valid, dim, success => by
      rw [contractInTurn] at success
      rw [FitAll] at fits
      obtain ⟨⟨inner, m₁⟩, j₁, ran, success⟩ := run_bind_eq_ok.mp success
      have shrinks := shrinks_of_contract c fits.1 valid dim ran
      cases inner with
      | narrowed b₁ =>
          have part := shrinks b₁ rfl
          obtain ⟨⟨final, rest⟩, j₂, later, success⟩ := run_bind_eq_ok.mp success
          obtain ⟨rfl, -⟩ := Prod.mk.inj (run_pure_eq_ok.mp success).1
          exact part.shrinks
            (shrinks_of_contractInTurn cs fits.2 part.valid (part.dim.trans dim) later)
      | unavailable =>
          obtain ⟨⟨final, rest⟩, j₂, later, success⟩ := run_bind_eq_ok.mp success
          obtain ⟨rfl, -⟩ := Prod.mk.inj (run_pure_eq_ok.mp success).1
          exact shrinks_of_contractInTurn cs fits.2 valid dim later
      | noSolution =>
          obtain ⟨rfl, -⟩ := Prod.mk.inj (run_pure_eq_ok.mp success).1
          exact shrinks
      | failed e =>
          obtain ⟨rfl, -⟩ := Prod.mk.inj (run_pure_eq_ok.mp success).1
          exact shrinks

theorem parts_of_contractEach [SteppingScalar α] [LpSolver σ α] :
    ∀ (cs : List (ContractorPlan α)) {m m' : Memories σ cs}
    {b : Box α} {images : List (Box α)} {j j' : Journal α}, FitAll n cs → b.Valid → b.dim = n →
    (contractEach cs m b).run j = .ok ((.ok images, m'), j') → ∀ c ∈ images, c.PartOf b
  | [], m, m', b, images, j, j', _, _, _, success => by
      rw [contractEach] at success
      obtain ⟨same, -⟩ := Prod.mk.inj (run_pure_eq_ok.mp success).1
      obtain rfl := Except.ok.inj same
      exact List.forall_mem_nil _
  | c :: cs, m, m', b, images, j, j', fits, valid, dim, success => by
      rw [contractEach] at success
      rw [FitAll] at fits
      obtain ⟨⟨inner, m₁⟩, j₁, ran, success⟩ := run_bind_eq_ok.mp success
      have shrinks := shrinks_of_contract c fits.1 valid dim ran
      cases inner with
      | failed e => cases (Prod.mk.inj (run_pure_eq_ok.mp success).1).1
      | noSolution =>
          obtain ⟨⟨rest, m₂⟩, j₂, later, success⟩ := run_bind_eq_ok.mp success
          obtain ⟨rfl, -⟩ := Prod.mk.inj (run_pure_eq_ok.mp success).1
          exact parts_of_contractEach cs fits.2 valid dim later
      | unavailable =>
          obtain ⟨⟨rest, m₂⟩, j₂, later, success⟩ := run_bind_eq_ok.mp success
          obtain ⟨same, -⟩ := Prod.mk.inj (run_pure_eq_ok.mp success).1
          refine parts_of_map same valid.partOf ?_
          rintro found rfl
          exact parts_of_contractEach cs fits.2 valid dim later
      | narrowed image =>
          obtain ⟨⟨rest, m₂⟩, j₂, later, success⟩ := run_bind_eq_ok.mp success
          obtain ⟨same, -⟩ := Prod.mk.inj (run_pure_eq_ok.mp success).1
          refine parts_of_map same (shrinks image rfl) ?_
          rintro found rfl
          exact parts_of_contractEach cs fits.2 valid dim later

end

end ContractorPlan

/-- In all its states a contractor with such a plan leaves nothing or a part of a box. -/
theorem PlannedContractor.shrinks_of_fits [SteppingScalar α] {σ : Type} [LpSolver σ α] {n : Nat}
    {first : PlannedContractor σ α} (fits : first.plan.Fits n) : Contractor.Shrinks n first := by
  intro k k' b b' j j' used valid dim success
  obtain ⟨⟨outcome, m'⟩, _, ran, success⟩ := run_bind_eq_ok.mp success
  obtain ⟨rfl, -⟩ := Prod.mk.inj (run_pure_eq_ok.mp success).1
  have part := ContractorPlan.shrinks_of_contract k.plan (plan_of_used used ▸ fits) valid dim ran
    b' rfl
  by_cases empty : b'.isEmpty = true
  · exact Or.inl empty
  · exact Or.inr (part.within (Bool.eq_false_iff.mpr empty))

end BoxSearch
