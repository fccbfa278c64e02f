import Mathlib.Data.List.Forall2
import BoxSearch.Fault

/-!
# Reading a successful computation backwards

A checked computation that has a result is taken apart into the results of its parts.
-/
set_option autoImplicit false

namespace BoxSearch.Checked

theorem bind_eq_ok {ε β γ : Type} {x : Except ε β} {f : β → Except ε γ} {c : γ} :
    x >>= f = .ok c ↔ ∃ b, x = .ok b ∧ f b = .ok c := by
  cases x with
  | error e =>
      constructor
      · intro h
        cases h
      · rintro ⟨b, h, -⟩
        cases h
  | ok b =>
      constructor
      · intro h
        exact ⟨b, rfl, h⟩
      · rintro ⟨b', h, h'⟩
        exact Except.ok.inj h ▸ h'

theorem bind_of_ok {ε β γ : Type} {x : Except ε β} {b : β} (success : x = .ok b)
    (f : β → Except ε γ) : x >>= f = f b := by
  rw [success]
  rfl

theorem bind_of_error {ε β γ : Type} {x : Except ε β} {e : ε} (failure : x = .error e)
    (f : β → Except ε γ) : x >>= f = .error e := by
  rw [failure]
  rfl

theorem map_eq_ok {ε β γ : Type} {x : Except ε β} {f : β → γ} {c : γ} :
    f <$> x = .ok c ↔ ∃ b, x = .ok b ∧ f b = c := by
  rw [map_eq_pure_bind, bind_eq_ok]
  exact exists_congr fun b => and_congr_right fun _ =>
    ⟨Except.ok.inj, congrArg Except.ok⟩

theorem run_bind_eq_ok {ε σ β γ : Type} {x : StateT σ (Except ε) β}
    {f : β → StateT σ (Except ε) γ} {s : σ} {r : γ × σ} :
    (x >>= f).run s = .ok r ↔ ∃ b t, x.run s = .ok (b, t) ∧ (f b).run t = .ok r := by
  rw [StateT.run_bind, bind_eq_ok]
  constructor
  · rintro ⟨⟨b, t⟩, first, rest⟩
    exact ⟨b, t, first, rest⟩
  · rintro ⟨b, t, first, rest⟩
    exact ⟨(b, t), first, rest⟩

theorem run_liftM_eq_ok {ε σ β : Type} {x : Except ε β} {s t : σ} {b : β} :
    (liftM x : StateT σ (Except ε) β).run s = .ok (b, t) ↔ x = .ok b ∧ t = s := by
  cases x with
  | error e =>
      constructor
      · intro h
        cases h
      · rintro ⟨h, -⟩
        cases h
  | ok a =>
      change Except.ok (a, s) = Except.ok (b, t) ↔ Except.ok a = Except.ok b ∧ t = s
      simp [eq_comm]

theorem run_pure_eq_ok {ε σ β : Type} {a b : β} {s t : σ} :
    (pure a : StateT σ (Except ε) β).run s = .ok (b, t) ↔ a = b ∧ t = s := by
  change Except.ok (a, s) = Except.ok (b, t) ↔ _
  simp [eq_comm]

/-- In a monad in which a sequence returns only if both of its parts do. -/
theorem forall₂_of_mapM_of_bind {m : Type → Type} [Monad m] [LawfulMonad m]
    (inj : ∀ {β : Type} {a b : β}, (pure a : m β) = pure b → a = b)
    (parts : ∀ {β γ : Type} {x : m β} {f : β → m γ} {c : γ}, x >>= f = pure c →
      ∃ b, x = pure b ∧ f b = pure c) {β γ : Type} {f : β → m γ} :
    ∀ {xs : List β} {ys : List γ}, xs.mapM f = pure ys →
      List.Forall₂ (fun x y => f x = pure y) xs ys := by
  intro xs
  induction xs with
  | nil =>
      intro ys all
      obtain rfl := inj all
      exact .nil
  | cons x xs ih =>
      intro ys all
      rw [List.mapM_cons] at all
      obtain ⟨y, head, all⟩ := parts all
      obtain ⟨rest, tail, all⟩ := parts all
      obtain rfl := inj all
      exact .cons head (ih tail)

theorem forall₂_of_mapM {ε β γ : Type} {f : β → Except ε γ} {xs : List β} {ys : List γ}
    (all : xs.mapM f = .ok ys) : List.Forall₂ (fun x y => f x = .ok y) xs ys :=
  forall₂_of_mapM_of_bind Except.ok.inj bind_eq_ok.mp all

theorem mapM_ok {ε β γ : Type} {f : β → Except ε γ} : ∀ {xs : List β},
    (∀ x ∈ xs, ∃ y, f x = .ok y) → ∃ ys, xs.mapM f = .ok ys := by
  intro xs
  induction xs with
  | nil => exact fun _ => ⟨[], rfl⟩
  | cons x xs ih =>
      intro each
      obtain ⟨y, head⟩ := each x List.mem_cons_self
      obtain ⟨ys, tail⟩ := ih fun z hz => each z (List.mem_cons_of_mem x hz)
      refine ⟨y :: ys, ?_⟩
      rw [List.mapM_cons, head, tail]
      rfl

theorem any_eq_true {ε β : Type} {x : Except ε β} {P : β → Bool} :
    x.toOption.any P = true ↔ ∃ b, x = .ok b ∧ P b = true := by
  cases x with
  | error e => simp [Except.toOption]
  | ok b => simp [Except.toOption]

theorem elementAt_eq_ok {α β : Type} {xs : List β} {i : Nat} {x : β} :
    (elementAt xs i : Checked α β) = .ok x ↔ xs[i]? = some x := by
  rw [elementAt]
  cases xs[i]? <;> simp

end BoxSearch.Checked
