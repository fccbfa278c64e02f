import BoxSearch.Journal

/-!
# Two runs of one computation

A computation is run twice, from states that differ in what it does not look at, and with a budget
that is larger the second time. The second run then answers as the first one does, up to a relation
between their states, unless the first one was cut short. Journals do not take part.
-/
set_option autoImplicit false

namespace BoxSearch

variable {α β β' γ γ' δ : Type}

namespace Checked

/-- Whatever becomes of the first computation also becomes of the second one, which may go on
where the first one has spent its budget. -/
inductive Follows (R : β → β' → Prop) : Checked α β → Checked α β' → Prop
  | ok {b : β} {b' : β'} : R b b' → Follows R (.ok b) (.ok b')
  | fault {e : Fault α} : Follows R (.error e) (.error e)
  | budget {y : Checked α β'} : Follows R (.error .budget) y

variable {R : β → β' → Prop} {S : γ → γ' → Prop} {x : Checked α β} {y : Checked α β'}

theorem Follows.refl (x : Checked α β) : Follows Eq x x := by
  cases x with
  | error e => exact .fault
  | ok b => exact .ok rfl

theorem Follows.bind {f : β → Checked α γ} {g : β' → Checked α γ'} (first : Follows R x y)
    (rest : ∀ b b', R b b' → Follows S (f b) (g b')) : Follows S (x >>= f) (y >>= g) := by
  cases first with
  | ok related => exact rest _ _ related
  | fault => exact .fault
  | budget => exact .budget

theorem Follows.same {x : Checked α β} {f : β → Checked α γ} {g : β → Checked α γ'}
    (rest : ∀ b, Follows S (f b) (g b)) : Follows S (x >>= f) (x >>= g) := by
  refine (Follows.refl x).bind ?_
  rintro b _ rfl
  exact rest b

theorem Follows.mono {R' : β → β' → Prop} (follows : Follows R x y)
    (weaker : ∀ b b', R b b' → R' b b') : Follows R' x y := by
  cases follows with
  | ok related => exact .ok (weaker _ _ related)
  | fault => exact .fault
  | budget => exact .budget

theorem follows_ite {c : Prop} [Decidable c] {x' : Checked α β} {y' : Checked α β'}
    (yes : Follows R x y) (no : Follows R x' y') :
    Follows R (if c then x else x') (if c then y else y') := by
  by_cases h : c
  · rwa [if_pos h, if_pos h]
  · rwa [if_neg h, if_neg h]

theorem Follows.answer {b : β} (follows : Follows R x y) (success : x = .ok b) :
    ∃ b', y = .ok b' ∧ R b b' := by
  cases follows with
  | ok related =>
      obtain rfl := Except.ok.inj success
      exact ⟨_, rfl, related⟩
  | fault => cases success
  | budget => cases success

/-- Computations that follow each other agree in all that related answers have in common. -/
theorem Follows.map_eq {R' : β' → β → Prop} {f : β → δ} {g : β' → δ} (there : Follows R x y)
    (back : Follows R' y x) (common : ∀ b b', R b b' → f b = g b') : x.map f = y.map g := by
  cases there with
  | ok related => exact congrArg Except.ok (common _ _ related)
  | fault => rfl
  | budget =>
      cases back with
      | fault => rfl
      | budget => rfl

end Checked

namespace Journaled

/-- The same for computations with a journal, whatever the journals say. -/
def Follows (R : β → β' → Prop) (x : Journaled α β) (y : Journaled α β') : Prop :=
  ∀ j k, Checked.Follows (fun r r' => R r.1 r'.1) (x.run j) (y.run k)

variable {R : β → β' → Prop} {S : γ → γ' → Prop} {x : Journaled α β} {y : Journaled α β'}

theorem follows_pure {b : β} {b' : β'} (related : R b b') :
    Follows R (pure b : Journaled α β) (pure b') :=
  fun _ _ => .ok related

theorem follows_liftM {x : Checked α β} {y : Checked α β'} (follows : Checked.Follows R x y) :
    Follows R (liftM x : Journaled α β) (liftM y) := by
  intro j k
  cases follows with
  | ok related => exact .ok related
  | fault => exact .fault
  | budget => exact .budget

/-- What is written to the journals or read from them may differ. -/
theorem follows_ofJournal (m : StateM (Journal α) β) (m' : StateM (Journal α) β') :
    Follows (fun _ _ => True) (ofJournal m) (ofJournal m') :=
  fun _ _ => .ok trivial

theorem follows_note (n n' : Note α) : Follows (fun _ _ => True) (note n) (note n') :=
  fun _ _ => .ok trivial

theorem Follows.bind {f : β → Journaled α γ} {g : β' → Journaled α γ'} (first : Follows R x y)
    (rest : ∀ b b', R b b' → Follows S (f b) (g b')) : Follows S (x >>= f) (y >>= g) := by
  intro j k
  rw [StateT.run_bind, StateT.run_bind]
  exact (first j k).bind fun r r' related => rest r.1 r'.1 related r.2 r'.2

theorem follows_ite {c : Prop} [Decidable c] {x' : Journaled α β} {y' : Journaled α β'}
    (yes : Follows R x y) (no : Follows R x' y') :
    Follows R (if c then x else x') (if c then y else y') := by
  by_cases h : c
  · rwa [if_pos h, if_pos h]
  · rwa [if_neg h, if_neg h]

theorem follows_same {x : Checked α β} {f : β → Journaled α γ} {g : β → Journaled α γ'}
    (rest : ∀ b, Follows S (f b) (g b)) :
    Follows S ((liftM x : Journaled α β) >>= f) ((liftM x : Journaled α β) >>= g) := by
  refine (follows_liftM (.refl x)).bind ?_
  rintro b _ rfl
  exact rest b

/-- The computation has an answer, whatever the journal says. -/
def Yields (P : β → Prop) (x : Journaled α β) : Prop := ∀ j, ∃ b k, x.run j = .ok (b, k) ∧ P b

variable {P : β → Prop} {Q : γ → Prop}

theorem yields_pure {b : β} (holds : P b) : Yields P (pure b : Journaled α β) :=
  fun j => ⟨b, j, rfl, holds⟩

theorem yields_ofJournal {m : StateM (Journal α) β} (holds : ∀ j, P (m.run j).1) :
    Yields P (ofJournal m) :=
  fun j => ⟨(m.run j).1, (m.run j).2, rfl, holds j⟩

theorem Yields.bind {f : β → Journaled α γ} (first : Yields P x)
    (rest : ∀ b, P b → Yields Q (f b)) : Yields Q (x >>= f) := by
  intro j
  obtain ⟨b, k, ran, holds⟩ := first j
  obtain ⟨c, l, ran', holds'⟩ := rest b holds k
  refine ⟨c, l, ?_, holds'⟩
  rw [StateT.run_bind, ran]
  exact ran'

/-- What follows an answer has an answer. -/
theorem Follows.yields {b : β} {j k : Journal α} (follows : Follows R x y)
    (success : x.run j = .ok (b, k)) : Yields (R b) y := by
  intro l
  obtain ⟨⟨b', l'⟩, ran, related⟩ := (follows j l).answer success
  exact ⟨b', l', ran, related⟩

theorem Yields.follows {P' : β' → Prop} (yields : Yields P x) (yields' : Yields P' y) :
    Follows (fun b b' => P b ∧ P' b') x y := by
  intro j k
  obtain ⟨b, j', ran, holds⟩ := yields j
  obtain ⟨b', k', ran', holds'⟩ := yields' k
  rw [ran, ran']
  exact .ok ⟨holds, holds'⟩

end Journaled

end BoxSearch
