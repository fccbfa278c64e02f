import BoxSearch.Proofs.Model.Sameness

/-!
# Memory that does not show

A box with memory is questioned and changed in any order. It answers as a box without memory over
its current domain would, and between two changes it evaluates no function twice.
-/
set_option autoImplicit false

namespace BoxSearch

open Checked

variable {α : Type} [Scalar α]

inductive Question (α : Type) where
  | objectiveImage
  | constraintImage (i : Nat)
  | certainlyFeasible (tolerance : α)
  | certainlyInfeasible

inductive Answer (α : Type) where
  | image (image : Interval α)
  | verdict (holds : Bool)

def Evaluable.ask {β : Type} [Evaluable β α] (p : Problem α) (b : β) :
    Question α → Evaluation α (Answer α × β)
  | .objectiveImage => do
      let (image, b) ← Evaluable.objectiveImage p b
      return (.image image, b)
  | .constraintImage i => do
      let (image, b) ← Evaluable.constraintImage p i b
      return (.image image, b)
  | .certainlyFeasible tolerance => do
      let (holds, b) ← Evaluable.certainlyFeasible p tolerance b
      return (.verdict holds, b)
  | .certainlyInfeasible => do
      let (holds, b) ← Evaluable.certainlyInfeasible p b
      return (.verdict holds, b)

/-- The answer of a box without memory over a domain. -/
def Question.answer (p : Problem α) (domain : Box α) (q : Question α) : Checked α (Answer α) :=
  Prod.fst <$> (Evaluable.ask p (PlainBox.mk domain) q).value

/-- What can be done with a box: questions, and accesses that may change its domain. -/
inductive BoxCall (α : Type) where
  | ask (q : Question α)
  | modify (change : Box α → Box α)
  | replace (domain : Box α)

/-- The answers to a sequence of calls, each given by a new box over the current domain. -/
def BoxCall.answers (p : Problem α) : Box α → List (BoxCall α) → Checked α (List (Answer α))
  | _, [] => return []
  | domain, .ask q :: calls => do
      let answer ← q.answer p domain
      return answer :: (← answers p domain calls)
  | domain, .modify change :: calls => answers p (change domain) calls
  | _, .replace domain :: calls => answers p domain calls

def CachedBox.perform (p : Problem α) :
    CachedBox α → List (BoxCall α) → Evaluation α (List (Answer α) × CachedBox α)
  | b, [] => return ([], b)
  | b, .ask q :: calls => do
      let (answer, b) ← Evaluable.ask p b q
      let (answers, b) ← perform p b calls
      return (answer :: answers, b)
  | b, .modify change :: calls => perform p (b.modifyDomain change) calls
  | b, .replace domain :: calls => perform p (b.modifyDomain fun _ => domain) calls

/-! ## The same answers -/

theorem Evaluable.Simulates.ask {β γ : Type} [Evaluable β α] [Evaluable γ α] {p : Problem α}
    {R : β → γ → Prop} (sim : Simulates p R) {b : β} {c : γ} (related : R b c) (q : Question α) :
    Evaluation.Matches (Alike R) (ask p b q) (ask p c q) := by
  cases q with
  | objectiveImage =>
      apply (sim.objective related).bind
      rintro ⟨image, b⟩ ⟨_, c⟩ ⟨rfl, related⟩
      exact Stateful.matches_pure ⟨rfl, related⟩
  | constraintImage i =>
      apply (sim.constraint i related).bind
      rintro ⟨image, b⟩ ⟨_, c⟩ ⟨rfl, related⟩
      exact Stateful.matches_pure ⟨rfl, related⟩
  | certainlyFeasible tolerance =>
      apply (sim.certainlyFeasible related).bind
      rintro ⟨holds, b⟩ ⟨_, c⟩ ⟨rfl, related⟩
      exact Stateful.matches_pure ⟨rfl, related⟩
  | certainlyInfeasible =>
      apply (sim.certainlyInfeasible related).bind
      rintro ⟨holds, b⟩ ⟨_, c⟩ ⟨rfl, related⟩
      exact Stateful.matches_pure ⟨rfl, related⟩

/-- A box with memory answers like a new one over its domain, which does not change. -/
theorem CachedBox.matches_answer {p : Problem α} {b : CachedBox α} (current : b.Current p)
    (q : Question α) (log : List Target) :
    Checked.Matches (fun r answer => r.1.1 = answer ∧ r.1.2.domain = b.domain ∧ r.1.2.Current p)
      ((Evaluable.ask p b q).run log) (q.answer p b.domain) := by
  have sim := (CachedBox.transparent p).simulates ((PlainBox.transparent p).over b.domain)
  have related : Evaluable.SameDomain (CachedBox.Current p)
      (fun c : PlainBox α => c.domain = b.domain ∧ True) b ⟨b.domain⟩ :=
    ⟨rfl, current, rfl, trivial⟩
  have both := sim.ask related q log [] trivial
  rw [Question.answer, Evaluation.map_value]
  have plain := both.map (f := id) (g := fun r => r.1.1)
    (S := fun r answer => r.1.1 = answer ∧ r.1.2.domain = b.domain ∧ r.1.2.Current p) (by
      rintro r r' ⟨⟨same, ⟨shared, kept, there, -⟩⟩, -⟩
      exact ⟨same, shared.trans there, kept⟩)
  rwa [id_map] at plain

/-- Every sequence of calls gives the answers that new boxes over the current domains give. -/
theorem CachedBox.matches_answers {p : Problem α} : ∀ (calls : List (BoxCall α))
    {b : CachedBox α} (log : List Target), b.Current p →
    Checked.Matches (fun r answers => r.1.1 = answers ∧ r.1.2.Current p)
      ((b.perform p calls).run log) (BoxCall.answers p b.domain calls) := by
  intro calls
  induction calls with
  | nil =>
      intro b log current
      exact .ok ⟨rfl, current⟩
  | cons call calls ih =>
      intro b log current
      cases call with
      | ask q =>
          rw [perform, BoxCall.answers, StateT.run_bind]
          apply (CachedBox.matches_answer current q log).bind
          rintro ⟨⟨answer, b'⟩, log'⟩ _ ⟨rfl, same, current'⟩
          have rest := ih log' current'
          dsimp only at same ⊢
          rw [same] at rest
          rw [StateT.run_bind]
          apply rest.bind
          rintro ⟨⟨answers, b''⟩, log''⟩ _ ⟨rfl, current''⟩
          exact .ok ⟨rfl, current''⟩
      | modify change => exact ih log (current_ofDomain p _)
      | replace domain => exact ih log (current_ofDomain p _)

/-! ## No evaluation twice -/

namespace CachedBox
variable {p : Problem α} {δ ε : Type}

def Knows (p : Problem α) (b : CachedBox α) : Target → Prop
  | .objective => b.objective.isSome
  | .constraint i => ∃ image, (b.slots p)[i]? = some (some image)

/-- Between two states of a box the given functions were evaluated, each once, and all images that
were found are remembered. -/
structure Learns (p : Problem α) (b b' : CachedBox α) (evaluated : List Target) : Prop where
  nodup : evaluated.Nodup
  unknown : ∀ t ∈ evaluated, ¬b.Knows p t
  learnt : ∀ t ∈ evaluated, b'.Knows p t
  kept : ∀ t, b.Knows p t → b'.Knows p t

omit [Scalar α] in
theorem Learns.nothing {b b' : CachedBox α} (kept : ∀ t, b.Knows p t → b'.Knows p t) :
    Learns p b b' [] :=
  ⟨List.nodup_nil, by simp, by simp, kept⟩

omit [Scalar α] in
theorem Learns.one {b b' : CachedBox α} {t : Target} (unknown : ¬b.Knows p t)
    (learnt : b'.Knows p t) (kept : ∀ t, b.Knows p t → b'.Knows p t) : Learns p b b' [t] :=
  ⟨List.nodup_cons.mpr ⟨by simp, List.nodup_nil⟩, by simpa using unknown, by simpa using learnt,
    kept⟩

omit [Scalar α] in
theorem Learns.trans {b₁ b₂ b₃ : CachedBox α} {first second : List Target}
    (h : Learns p b₁ b₂ first) (h' : Learns p b₂ b₃ second) : Learns p b₁ b₃ (first ++ second) where
  nodup := by
    rw [List.nodup_append]
    refine ⟨h.nodup, h'.nodup, ?_⟩
    -- what the first part has evaluated is known to the second
    rintro t before _ after rfl
    exact h'.unknown t after (h.learnt t before)
  unknown := by
    intro t member known
    obtain before | after := List.mem_append.mp member
    · exact h.unknown t before known
    · exact h'.unknown t after (h.kept t known)
  learnt := by
    intro t member
    obtain before | after := List.mem_append.mp member
    · exact h'.kept t (h.learnt t before)
    · exact h'.learnt t after
  kept t known := h'.kept t (h.kept t known)

/-- Whatever the computation evaluates was not known, and is evaluated once. -/
def Sparing (p : Problem α) (b : CachedBox α) (x : Evaluation α (δ × CachedBox α)) : Prop :=
  ∀ (log log' : List Target) (answer : δ) (b' : CachedBox α),
    x.run log = .ok ((answer, b'), log') →
    ∃ evaluated, log' = log ++ evaluated ∧ Learns p b b' evaluated

omit [Scalar α] in
theorem sparing_pure (b : CachedBox α) (answer : δ) : Sparing p b (pure (answer, b)) := by
  intro log log' answer' b' success
  obtain ⟨same, rfl⟩ := run_pure_eq_ok.mp success
  obtain ⟨-, rfl⟩ := Prod.mk.inj same
  exact ⟨[], by simp, .nothing fun _ known => known⟩

omit [Scalar α] in
theorem Sparing.bind {b : CachedBox α} {x : Evaluation α (δ × CachedBox α)}
    {f : δ × CachedBox α → Evaluation α (ε × CachedBox α)} (first : Sparing p b x)
    (rest : ∀ answer b', Sparing p b' (f (answer, b'))) : Sparing p b (x >>= f) := by
  intro log log' answer b' success
  obtain ⟨⟨answer₁, b₁⟩, log₁, ran, success⟩ := run_bind_eq_ok.mp success
  obtain ⟨evaluated, rfl, learns⟩ := first _ _ _ _ ran
  obtain ⟨evaluated', rfl, learns'⟩ := rest answer₁ b₁ _ _ _ _ success
  exact ⟨evaluated ++ evaluated', List.append_assoc .., learns.trans learns'⟩

omit [Scalar α] in
theorem sparing_lookup {b : CachedBox α} {x : Checked α ε}
    {f : ε → Evaluation α (δ × CachedBox α)} (rest : ∀ answer, Sparing p b (f answer)) :
    Sparing p b ((liftM x : Evaluation α ε) >>= f) := by
  intro log log' answer b' success
  rw [Stateful.run_lookup_bind] at success
  obtain ⟨answer₁, -, success⟩ := bind_eq_ok.mp success
  exact rest answer₁ _ _ _ _ success

omit [Scalar α] in
theorem sparing_ite {b : CachedBox α} {c : Prop} [Decidable c]
    {x y : Evaluation α (δ × CachedBox α)} (yes : Sparing p b x) (no : Sparing p b y) :
    Sparing p b (if c then x else y) := by
  by_cases h : c
  · rwa [if_pos h]
  · rwa [if_neg h]

theorem sparing_objectiveImage (b : CachedBox α) : Sparing p b (objectiveImage p b) := by
  rw [objectiveImage]
  cases remembered : b.objective with
  | some image => exact sparing_pure b image
  | none =>
      intro log log' image b' success
      simp only [StateT.run_bind, p.run_measureObjective] at success
      obtain ⟨⟨_, log₁⟩, measured, success⟩ := bind_eq_ok.mp success
      obtain ⟨found, -, same⟩ := map_eq_ok.mp measured
      obtain ⟨rfl, rfl⟩ := Prod.mk.inj same
      obtain ⟨same, rfl⟩ := run_pure_eq_ok.mp success
      obtain ⟨-, rfl⟩ := Prod.mk.inj same
      have kept : ∀ t, b.Knows p t →
          CachedBox.Knows p { b with objective := some found } t := by
        intro t known
        cases t with
        | objective => rfl
        | constraint i => exact known
      by_cases given : p.objective.isSome
      · refine ⟨[.objective], if_pos given, .one ?_ rfl kept⟩
        rw [Knows, remembered]
        exact Bool.false_ne_true
      · exact ⟨[], by rw [if_neg given, List.append_nil], .nothing kept⟩

omit [Scalar α] in
theorem sparing_constraintImage (b : CachedBox α) (i : Nat) :
    Sparing p b (constraintImage p i b) := by
  intro log log' image b' success
  simp only [constraintImage, Stateful.run_lookup_bind] at success
  obtain ⟨slot, looked, success⟩ := bind_eq_ok.mp success
  have position := elementAt_eq_ok.mp looked
  have size := length_slots p b
  cases slot with
  | some image' =>
      obtain ⟨same, rfl⟩ := run_pure_eq_ok.mp success
      obtain ⟨rfl, rfl⟩ := Prod.mk.inj same
      refine ⟨[], by simp, .nothing ?_⟩
      intro t known
      cases t with
      | objective => exact known
      | constraint j => rwa [Knows, slots_eq size]
  | none =>
      simp only [StateT.run_bind, p.run_measureConstraint] at success
      obtain ⟨⟨_, log₁⟩, measured, success⟩ := bind_eq_ok.mp success
      obtain ⟨found, -, same⟩ := map_eq_ok.mp measured
      obtain ⟨rfl, rfl⟩ := Prod.mk.inj same
      obtain ⟨same, rfl⟩ := run_pure_eq_ok.mp success
      obtain ⟨-, rfl⟩ := Prod.mk.inj same
      have inside : i < (b.slots p).length := (List.getElem?_eq_some_iff.mp position).1
      have size' : ((b.slots p).set i (some found)).length = p.constraints.length :=
        List.length_set.trans size
      refine ⟨[.constraint i], rfl, .one ?_ ?_ ?_⟩
      · rintro ⟨remembered, known⟩
        rw [position] at known
        cases known
      · rw [Knows, slots_eq size']
        exact ⟨found, List.getElem?_set_self inside⟩
      · intro t known
        cases t with
        | objective => exact known
        | constraint j =>
            rw [Knows, slots_eq size']
            by_cases same : i = j
            · subst same
              exact ⟨found, List.getElem?_set_self inside⟩
            · rwa [List.getElem?_set_ne same]

theorem sparing_allSatisfied {tolerance : α} : ∀ (n i : Nat) (b : CachedBox α),
    Sparing p b (Evaluable.allSatisfied p tolerance n i b) := by
  intro n
  induction n with
  | zero => exact fun i b => sparing_pure b true
  | succ n ih =>
      intro i b
      apply (sparing_constraintImage b i).bind
      intro image b'
      apply sparing_lookup
      intro c
      apply sparing_lookup
      intro satisfied
      exact sparing_ite (ih (i + 1) b') (sparing_pure b' false)

theorem sparing_anyViolated : ∀ (n i : Nat) (b : CachedBox α),
    Sparing p b (Evaluable.anyViolated p n i b) := by
  intro n
  induction n with
  | zero => exact fun i b => sparing_pure b false
  | succ n ih =>
      intro i b
      apply (sparing_constraintImage b i).bind
      intro image b'
      apply sparing_lookup
      intro c
      apply sparing_lookup
      intro violated
      exact sparing_ite (sparing_pure b' true) (ih (i + 1) b')

theorem sparing_ask (b : CachedBox α) (q : Question α) : Sparing p b (Evaluable.ask p b q) := by
  cases q with
  | objectiveImage =>
      exact (sparing_objectiveImage b).bind fun image b' => sparing_pure b' (Answer.image image)
  | constraintImage i =>
      exact (sparing_constraintImage b i).bind fun image b' => sparing_pure b' (Answer.image image)
  | certainlyFeasible tolerance =>
      exact (sparing_allSatisfied _ 0 b).bind fun holds b' => sparing_pure b' (Answer.verdict holds)
  | certainlyInfeasible =>
      have tested : Sparing p b (Evaluable.certainlyInfeasible p b) :=
        sparing_ite (sparing_pure b true) (sparing_anyViolated _ 0 b)
      exact tested.bind fun holds b' => sparing_pure b' (Answer.verdict holds)

/-- As long as the domain does not change, nothing is evaluated twice. -/
theorem sparing_perform : ∀ (questions : List (Question α)) (b : CachedBox α),
    Sparing p b (b.perform p (questions.map .ask)) := by
  intro questions
  induction questions with
  | nil => exact fun b => sparing_pure b []
  | cons q questions ih =>
      intro b
      apply (sparing_ask b q).bind
      intro answer b'
      apply (ih b').bind
      intro answers b''
      exact sparing_pure b'' (answer :: answers)

end CachedBox

end BoxSearch
