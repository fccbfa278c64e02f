import BoxSearch.Fault

/-!
# Two computations with the same outcome

A computation is run twice, from states that differ in what does not show. Either both runs
answer, with answers that are related as well, or both stop for the same reason.
-/
set_option autoImplicit false

namespace BoxSearch

variable {α β β' γ γ' δ σ : Type}

namespace Checked

inductive Matches (R : β → β' → Prop) : Checked α β → Checked α β' → Prop
  | ok {b : β} {b' : β'} : R b b' → Matches R (.ok b) (.ok b')
  | fault {e : Fault α} : Matches R (.error e) (.error e)

variable {R : β → β' → Prop} {S : γ → γ' → Prop} {x : Checked α β} {y : Checked α β'}

theorem Matches.refl (x : Checked α β) : Matches Eq x x := by
  cases x with
  | error e => exact .fault
  | ok b => exact .ok rfl

theorem Matches.bind {f : β → Checked α γ} {g : β' → Checked α γ'} (first : Matches R x y)
    (rest : ∀ b b', R b b' → Matches S (f b) (g b')) : Matches S (x >>= f) (y >>= g) := by
  cases first with
  | ok related => exact rest _ _ related
  | fault => exact .fault

theorem Matches.same {x : Checked α β} {f : β → Checked α γ} {g : β → Checked α γ'}
    (rest : ∀ b, x = .ok b → Matches S (f b) (g b)) : Matches S (x >>= f) (x >>= g) := by
  cases x with
  | error e => exact .fault
  | ok b => exact rest b rfl

theorem Matches.ite {c : Prop} [Decidable c] {x' : Checked α β} {y' : Checked α β'}
    (yes : c → Matches R x y) (no : ¬c → Matches R x' y') :
    Matches R (if c then x else x') (if c then y else y') := by
  by_cases h : c
  · rw [if_pos h, if_pos h]
    exact yes h
  · rw [if_neg h, if_neg h]
    exact no h

theorem Matches.mono {R' : β → β' → Prop} (both : Matches R x y)
    (weaker : ∀ b b', R b b' → R' b b') : Matches R' x y := by
  cases both with
  | ok related => exact .ok (weaker _ _ related)
  | fault => exact .fault

theorem Matches.map {f : β → γ} {g : β' → γ'} (both : Matches R x y)
    (images : ∀ b b', R b b' → S (f b) (g b')) : Matches S (f <$> x) (g <$> y) := by
  cases both with
  | ok related => exact .ok (images _ _ related)
  | fault => exact .fault

/-- What is known of the answers apart from each other can be added to the relation. -/
theorem Matches.strengthen {P : β → Prop} {Q : β' → Prop} (both : Matches R x y)
    (left : ∀ b, x = .ok b → P b) (right : ∀ b', y = .ok b' → Q b') :
    Matches (fun b b' => R b b' ∧ P b ∧ Q b') x y := by
  cases both with
  | ok related => exact .ok ⟨related, left _ rfl, right _ rfl⟩
  | fault => exact .fault

theorem Matches.map_eq {f : β → δ} {g : β' → δ} (both : Matches R x y)
    (common : ∀ b b', R b b' → f b = g b') : x.map f = y.map g := by
  cases both with
  | ok related => exact congrArg Except.ok (common _ _ related)
  | fault => rfl

theorem Matches.answer {b : β} (both : Matches R x y) (success : x = .ok b) :
    ∃ b', y = .ok b' ∧ R b b' := by
  cases both with
  | ok related =>
      obtain rfl := Except.ok.inj success
      exact ⟨_, rfl, related⟩
  | fault => cases success

theorem matches_of_map_eq {f : β → δ} {g : β' → δ} (same : x.map f = y.map g) :
    Matches (fun b b' => f b = g b') x y := by
  cases x with
  | error e =>
      cases y with
      | error e' =>
          obtain rfl := Except.error.inj same
          exact .fault
      | ok b' => cases same
  | ok b =>
      cases y with
      | error e' => cases same
      | ok b' => exact .ok (Except.ok.inj same)

end Checked

namespace Stateful

/-- Computations with a state that match from all related states, and end in such states. -/
def Matches (T : σ → σ → Prop) (R : β → β' → Prop) (x : StateT σ (Except (Fault α)) β)
    (y : StateT σ (Except (Fault α)) β') : Prop :=
  ∀ s s', T s s' → Checked.Matches (fun r r' => R r.1 r'.1 ∧ T r.2 r'.2) (x.run s) (y.run s')

variable {T : σ → σ → Prop} {R : β → β' → Prop} {S : γ → γ' → Prop}
  {x : StateT σ (Except (Fault α)) β} {y : StateT σ (Except (Fault α)) β'}

theorem run_lookup_bind (x : Checked α β) (f : β → StateT σ (Except (Fault α)) γ) (s : σ) :
    ((liftM x : StateT σ (Except (Fault α)) β) >>= f).run s = x >>= fun b => (f b).run s := by
  cases x <;> rfl

theorem matches_pure {b : β} {b' : β'} (related : R b b') :
    Matches T R (pure b : StateT σ (Except (Fault α)) β) (pure b') :=
  fun _ _ states => .ok ⟨related, states⟩

theorem matches_liftM {x : Checked α β} {y : Checked α β'} (both : Checked.Matches R x y) :
    Matches T R (liftM x : StateT σ (Except (Fault α)) β) (liftM y) := by
  intro s s' states
  cases both with
  | ok related => exact .ok ⟨related, states⟩
  | fault => exact .fault

theorem Matches.bind {f : β → StateT σ (Except (Fault α)) γ}
    {g : β' → StateT σ (Except (Fault α)) γ'} (first : Matches T R x y)
    (rest : ∀ b b', R b b' → Matches T S (f b) (g b')) : Matches T S (x >>= f) (y >>= g) := by
  intro s s' states
  rw [StateT.run_bind, StateT.run_bind]
  apply (first s s' states).bind
  intro r r' related
  exact rest r.1 r'.1 related.1 r.2 r'.2 related.2

theorem Matches.mono {R' : β → β' → Prop} (both : Matches T R x y)
    (weaker : ∀ b b', R b b' → R' b b') : Matches T R' x y :=
  fun s s' states => (both s s' states).mono fun _ _ related => ⟨weaker _ _ related.1, related.2⟩

theorem matches_ite {c : Prop} [Decidable c] {x' : StateT σ (Except (Fault α)) β}
    {y' : StateT σ (Except (Fault α)) β'} (yes : c → Matches T R x y)
    (no : ¬c → Matches T R x' y') : Matches T R (if c then x else x') (if c then y else y') := by
  by_cases h : c
  · rw [if_pos h, if_pos h]
    exact yes h
  · rw [if_neg h, if_neg h]
    exact no h

theorem matches_lookup {x : Checked α β} {f : β → StateT σ (Except (Fault α)) γ}
    {g : β → StateT σ (Except (Fault α)) γ'} (rest : ∀ b, Matches T S (f b) (g b)) :
    Matches T S ((liftM x : StateT σ (Except (Fault α)) β) >>= f)
      ((liftM x : StateT σ (Except (Fault α)) β) >>= g) := by
  apply (matches_liftM (.refl x)).bind
  rintro b _ rfl
  exact rest b

theorem matches_same {x : StateT σ (Except (Fault α)) β} {f : β → StateT σ (Except (Fault α)) γ}
    {g : β → StateT σ (Except (Fault α)) γ'}
    (rest : ∀ b s s', x.run s = .ok (b, s') → Matches Eq S (f b) (g b)) :
    Matches Eq S (x >>= f) (x >>= g) := by
  rintro s _ rfl
  rw [StateT.run_bind, StateT.run_bind]
  apply Checked.Matches.same
  rintro ⟨b, s'⟩ success
  exact rest b s s' success s' s' rfl

/-- Matching computations from one state are the same to an observer of their answers. -/
theorem Matches.run_eq {x y : StateT σ (Except (Fault α)) β} (both : Matches Eq Eq x y) (s : σ) :
    x.run s = y.run s := by
  have ends := both s s rfl
  generalize x.run s = e, y.run s = e' at ends
  cases ends with
  | ok related => exact congrArg Except.ok (Prod.ext related.1 related.2)
  | fault => rfl

end Stateful

end BoxSearch
