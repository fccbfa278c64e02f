import BoxSearch.Model.Expression
import BoxSearch.Proofs.Interval.Functions
import BoxSearch.Proofs.Scalar.Coarse

/-!
# What an expression encloses

An expression stands for a real function that is defined at some points. Wherever it is defined,
its value lies in the interval that it evaluates to over a box around the point, and every interval
on the way is empty or has bounds in order.
-/
set_option autoImplicit false

namespace BoxSearch

open OrderedScalar Scalar Checked

variable {α : Type} [Scalar α] [OrderedScalar α]

namespace Expression

/-! ## Values -/

mutual

/-- The value at a real point, unless some part of the expression is not defined there. An interval
that is no single number, an intersection and a hull have no value. -/
noncomputable def value? (x : List ℝ) : Expression α → Option ℝ
  | coordinate j => x[j]?
  | literal c => if (c.lo == c.hi) = true ∧ isFinite c.lo = true then some (real c.lo) else none
  | neg e => return -(← e.value? x)
  | sqr e => return (← e.value? x) ^ 2
  | sqrt e => do
    let t ← e.value? x
    if 0 ≤ t then some (Real.sqrt t) else none
  | exp e => return Real.exp (← e.value? x)
  | log e => do
    let t ← e.value? x
    if 0 < t then some (Real.log t) else none
  | abs e => return |← e.value? x|
  | pow e n => return (← e.value? x) ^ n
  | add e f => return (← e.value? x) + (← f.value? x)
  | sub e f => return (← e.value? x) - (← f.value? x)
  | mul e f => return (← e.value? x) * (← f.value? x)
  | div e f => do
    let t ← e.value? x
    let u ← f.value? x
    if u = 0 then none else some (t / u)
  | min e f => return Min.min (← e.value? x) (← f.value? x)
  | max e f => return Max.max (← e.value? x) (← f.value? x)
  | intersect _ _ => none
  | hull _ _ => none
  | addScalar e c => do
    let t ← e.value? x
    if isFinite c = true then some (t + real c) else none
  | subScalar e c => do
    let t ← e.value? x
    if isFinite c = true then some (t - real c) else none
  | mulScalar e c => do
    let t ← e.value? x
    if isFinite c = true then some (t * real c) else none
  | sum es => return (← values? x es).sum
  | dot es coeffs => do
    let ts ← values? x es
    if ∀ c ∈ coeffs, isFinite c = true then some (BoxSearch.dot (reals coeffs) ts) else none

noncomputable def values? (x : List ℝ) : List (Expression α) → Option (List ℝ)
  | [] => some []
  | e :: es => do
    let t ← e.value? x
    return t :: (← values? x es)

end

/-- The interval exists and holds the value, if there is one. -/
def Holds (result : Checked α (Interval α)) (v : Option ℝ) : Prop :=
  ∀ t, v = some t → ∃ z, result = .ok z ∧ t ∈ z

section
variable {r s : Checked α (Interval α)} {v w : Option ℝ} {b : Box α} {x : List ℝ}

/-- An operation on intervals follows a partial operation on reals. -/
theorem Holds.bind {G : Interval α → Checked α (Interval α)} {F : ℝ → Option ℝ} (holds : Holds r v)
    (follows : ∀ {t : ℝ} {z : Interval α}, t ∈ z → Holds (G z) (F t)) :
    Holds (r >>= G) (v >>= F) := by
  intro u result
  obtain ⟨t, defined, result⟩ := Option.bind_eq_some_iff.mp result
  obtain ⟨z, found, member⟩ := holds t defined
  rw [found]
  exact follows member u result

theorem holds_pure {z : Interval α} {t : ℝ} (member : t ∈ z) :
    Holds (pure z) (pure t) := by
  intro u same
  obtain rfl := Option.some.inj same
  exact ⟨z, rfl, member⟩

theorem Holds.map {G : Interval α → Interval α} {F : ℝ → ℝ} (holds : Holds r v)
    (follows : ∀ {t : ℝ} {z : Interval α}, t ∈ z → F t ∈ G z) :
    Holds (do return G (← r)) (do return F (← v)) :=
  holds.bind fun member => holds_pure (follows member)

theorem Holds.map₂ {G : Interval α → Interval α → Interval α} {F : ℝ → ℝ → ℝ}
    (first : Holds r v) (second : Holds s w)
    (follows : ∀ {t u : ℝ} {y z : Interval α}, t ∈ y → u ∈ z → F t u ∈ G y z) :
    Holds (do return G (← r) (← s)) (do return F (← v) (← w)) :=
  first.bind fun member => second.map fun member' => follows member member'

theorem holds_if {p : Prop} [Decidable p] {t : ℝ} (holds : p → Holds r (some t)) :
    Holds r (if p then some t else none) := by
  intro u same
  split at same
  · rename_i h
    exact holds h u same
  · cases same

theorem holds_literal (c : Interval α) : Holds (.ok c)
    (if (c.lo == c.hi) = true ∧ isFinite c.lo = true then some (real c.lo) else none) := by
  refine holds_if fun ⟨same, finite⟩ => holds_pure ?_
  obtain ⟨lo_number, hi_number, same⟩ := beq_iff.mp same
  exact ⟨lo_number, hi_number, (coe_real finite).ge, (coe_real finite).trans same |>.le⟩

theorem holds_point {c : α} {t : ℝ} {G : Interval α → Interval α}
    (follows : ∀ {y : Interval α}, real c ∈ y → t ∈ G y) :
    Holds (do return G (← Interval.point c)) (if isFinite c = true then some t else none) := by
  refine holds_if fun finite => ?_
  have made := Interval.point_ok finite
  rw [made]
  exact holds_pure (follows (Interval.mem_point made).2)

theorem holds_dot [DirectedScalar α] {zs : List (Interval α)} {ts : List ℝ} {coeffs : List α}
    (members : List.Forall₂ (· ∈ ·) ts zs) (finite : ∀ c ∈ coeffs, isFinite c = true) :
    Holds (Box.dot ⟨zs⟩ coeffs) (some (BoxSearch.dot (reals coeffs) ts)) := by
  intro t same
  obtain rfl := Option.some.inj same
  obtain ⟨image, success⟩ := Box.dot_ok (b := ⟨zs⟩) finite
  exact ⟨image, success, Box.mem_dot success members⟩

mutual

/-- Evaluation follows the real function, operation by operation. -/
theorem holds_eval [DirectedScalar α] [DividingScalar α] [ElementaryScalar α] (member : x ∈ b) :
    ∀ e : Expression α, Holds (e.eval b) (e.value? x)
  | coordinate j => by
      intro t position
      have inside : j < x.length := (List.getElem?_eq_some_iff.mp position).1
      have inside' : j < b.components.length := inside.trans_eq (Box.length_of_mem member)
      have success : b.component j = .ok b.components[j] :=
        elementAt_eq_ok.mpr (List.getElem?_eq_getElem inside')
      obtain ⟨t', position', held⟩ := Box.mem_component success member
      obtain rfl := Option.some.inj (position.symm.trans position')
      exact ⟨_, success, held⟩
  | literal c => holds_literal c
  | neg e => (holds_eval member e).map Interval.mem_neg
  | sqr e => (holds_eval member e).map fun held => by
      rw [pow_two]
      exact Interval.mem_sqr held
  | sqrt e => (holds_eval member e).bind fun held =>
      holds_if fun nonneg => holds_pure (Interval.mem_sqrt held nonneg)
  | exp e => (holds_eval member e).map Interval.mem_exp
  | log e => (holds_eval member e).bind fun held =>
      holds_if fun positive => holds_pure (Interval.mem_log held positive)
  | abs e => (holds_eval member e).map Interval.mem_abs
  | pow e n => (holds_eval member e).map (Interval.mem_pow n)
  | add e f => (holds_eval member e).map₂ (holds_eval member f) Interval.mem_add
  | sub e f => (holds_eval member e).map₂ (holds_eval member f) Interval.mem_sub
  | mul e f => (holds_eval member e).map₂ (holds_eval member f) Interval.mem_mul
  | div e f => (holds_eval member e).bind fun held => (holds_eval member f).bind fun held' => by
      intro t result
      split at result
      · cases result
      · rename_i nonzero
        exact holds_pure (Interval.mem_div held held' nonzero) t result
  | min e f => (holds_eval member e).map₂ (holds_eval member f) Interval.mem_min
  | max e f => (holds_eval member e).map₂ (holds_eval member f) Interval.mem_max
  | intersect _ _ => fun _ none => by cases none
  | hull _ _ => fun _ none => by cases none
  | addScalar e c => (holds_eval member e).bind fun held => holds_point (Interval.mem_add held)
  | subScalar e c => (holds_eval member e).bind fun held => holds_point (Interval.mem_sub held)
  | mulScalar e c => (holds_eval member e).bind fun held => holds_point (Interval.mem_mul held)
  | sum es => by
      intro t defined
      obtain ⟨ts, found, defined⟩ := Option.bind_eq_some_iff.mp defined
      obtain ⟨zs, success, members⟩ := members_evalAll member es ts found
      obtain rfl := Option.some.inj defined
      rw [eval, success]
      exact ⟨Interval.sum zs, rfl, Interval.mem_sum members⟩
  | dot es coeffs => by
      intro t defined
      obtain ⟨ts, found, defined⟩ := Option.bind_eq_some_iff.mp defined
      obtain ⟨zs, success, members⟩ := members_evalAll member es ts found
      rw [eval, success]
      exact holds_if (holds_dot members) t defined

theorem members_evalAll [DirectedScalar α] [DividingScalar α] [ElementaryScalar α]
    (member : x ∈ b) : ∀ (es : List (Expression α)) (ts : List ℝ), values? x es = some ts →
      ∃ zs, evalAll b es = .ok zs ∧ List.Forall₂ (· ∈ ·) ts zs
  | [], ts, defined => by
      obtain rfl := Option.some.inj defined
      exact ⟨[], rfl, .nil⟩
  | e :: es, ts, defined => by
      obtain ⟨t, found, defined⟩ := Option.bind_eq_some_iff.mp defined
      obtain ⟨ts', found', defined⟩ := Option.bind_eq_some_iff.mp defined
      obtain rfl := Option.some.inj defined
      obtain ⟨z, success, held⟩ := holds_eval member e t found
      obtain ⟨zs, success', members⟩ := members_evalAll member es ts' found'
      rw [evalAll, success]
      change ∃ zs', (do
        let rest ← evalAll b es
        return z :: rest) = Except.ok zs' ∧ _
      rw [success']
      exact ⟨z :: zs, rfl, .cons held members⟩

end

end

/-! ## Every interval on the way -/

/-- The expressions whose intervals an evaluation takes as operands or builds as partial sums. -/
def operands : Expression α → List (Expression α)
  | coordinate _ => []
  | literal _ => []
  | neg e => [e]
  | sqr e => [e]
  | sqrt e => [e]
  | exp e => [e]
  | log e => [e]
  | abs e => [e]
  | pow e _ => [e, abs e]
  | add e f => [e, f]
  | sub e f => [e, f]
  | mul e f => [e, f]
  | div e f => [e, f]
  | min e f => [e, f]
  | max e f => [e, f]
  | intersect e f => [e, f]
  | hull e f => [e, f]
  | addScalar e _ => [e]
  | subScalar e _ => [e]
  | mulScalar e _ => [e]
  | sum es => es ++ es.inits.map sum
  | dot es coeffs =>
    es ++ List.zipWith mulScalar es coeffs ++ es.inits.map fun first => dot first coeffs

/-- The expression is evaluated on the way to the value of another one. -/
inductive Part : Expression α → Expression α → Prop
  | refl (e : Expression α) : Part e e
  | of_operand {c d e : Expression α} : d ∈ e.operands → Part c d → Part c e

omit [Scalar α] [OrderedScalar α] in
theorem Part.trans {c d e : Expression α} (inner : c.Part d) (outer : d.Part e) : c.Part e := by
  induction outer with
  | refl => exact inner
  | of_operand operand _ ih => exact .of_operand operand ih

/-- Every interval that is written in the expression is empty or has bounds in order. -/
def ValidLiterals (e : Expression α) : Prop := ∀ c : Interval α, (literal c).Part e → c.Valid

theorem ValidLiterals.part {d e : Expression α} (valid : e.ValidLiterals) (part : d.Part e) :
    d.ValidLiterals :=
  fun c inner => valid c (inner.trans part)

theorem ValidLiterals.operand {d e : Expression α} (valid : e.ValidLiterals)
    (operand : d ∈ e.operands) : d.ValidLiterals :=
  valid.part (.of_operand operand (.refl d))

theorem ValidLiterals.of_operands {e : Expression α} (compound : ∀ c, literal c ≠ e)
    (operands : ∀ d ∈ e.operands, d.ValidLiterals) : e.ValidLiterals := by
  intro c part
  cases part with
  | refl => exact absurd rfl (compound c)
  | of_operand operand part => exact operands _ operand c part

theorem validLiterals_literal {c : Interval α} (valid : c.Valid) :
    (literal c).ValidLiterals := by
  intro d part
  cases part with
  | refl => exact valid
  | of_operand operand _ => cases operand

theorem validLiterals_coordinate (j : Nat) : (coordinate j : Expression α).ValidLiterals :=
  .of_operands nofun nofun

section
variable {r s : Checked α (Interval α)} {b : Box α} {z : Interval α}

theorem valid_of_map {G : Interval α → Interval α} (success : (do return G (← r)) = .ok z)
    (valid : ∀ {y : Interval α}, r = .ok y → (G y).Valid) : z.Valid := by
  obtain ⟨y, found, success⟩ := bind_eq_ok.mp success
  exact Except.ok.inj success ▸ valid found

theorem valid_of_map₂ {G : Interval α → Interval α → Interval α}
    (success : (do return G (← r) (← s)) = .ok z)
    (valid : ∀ {y w : Interval α}, r = .ok y → s = .ok w → (G y w).Valid) : z.Valid := by
  obtain ⟨y, found, success⟩ := bind_eq_ok.mp success
  exact valid_of_map success fun found' => valid found found'

/-- Over valid components an expression with valid literals has a valid interval, if it has one.
Only negation, the first power and the hull pass on the bounds that they are given. -/
theorem valid_eval (components : ∀ y ∈ b.components, y.Valid) :
    ∀ (e : Expression α) (z : Interval α), e.ValidLiterals → e.eval b = .ok z → z.Valid
  | coordinate _, z, _, success =>
      components z (List.mem_of_getElem? (elementAt_eq_ok.mp success))
  | literal c, _, literals, success => Except.ok.inj success ▸ literals c (.refl _)
  | neg e, _, literals, success => valid_of_map success fun found =>
      (valid_eval components e _ (literals.operand List.mem_cons_self) found).neg
  | pow e n, _, literals, success => valid_of_map success fun found =>
      (valid_eval components e _ (literals.operand List.mem_cons_self) found).pow n
  | hull e f, _, literals, success => valid_of_map₂ success fun found found' =>
      (valid_eval components e _ (literals.operand List.mem_cons_self) found).hull
        (valid_eval components f _
          (literals.operand (List.mem_cons_of_mem e List.mem_cons_self)) found')
  | sqr _, _, _, success => valid_of_map success fun _ => Interval.valid_sqr
  | sqrt _, _, _, success => valid_of_map success fun _ => Interval.valid_sqrt
  | exp _, _, _, success => valid_of_map success fun _ => Interval.valid_exp
  | log _, _, _, success => valid_of_map success fun _ => Interval.valid_log
  | abs _, _, _, success => valid_of_map success fun _ => Interval.valid_abs
  | add _ _, _, _, success => valid_of_map₂ success fun _ _ => Interval.valid_add
  | sub _ _, _, _, success => valid_of_map₂ success fun _ _ => Interval.valid_sub
  | mul _ _, _, _, success => valid_of_map₂ success fun _ _ => Interval.valid_mul
  | div _ _, _, _, success => valid_of_map₂ success fun _ _ => Interval.valid_div
  | min _ _, _, _, success => valid_of_map₂ success fun _ _ => Interval.valid_min
  | max _ _, _, _, success => valid_of_map₂ success fun _ _ => Interval.valid_max
  | intersect _ _, _, _, success => valid_of_map₂ success fun _ _ => Interval.valid_intersect
  | addScalar _ _, _, _, success => valid_of_map₂ success fun _ _ => Interval.valid_add
  | subScalar _ _, _, _, success => valid_of_map₂ success fun _ _ => Interval.valid_sub
  | mulScalar _ _, _, _, success => valid_of_map₂ success fun _ _ => Interval.valid_mul
  | sum _, _, _, success => by
      obtain ⟨ys, -, success⟩ := bind_eq_ok.mp success
      exact Except.ok.inj success ▸ Interval.valid_sum ys
  | dot _ _, _, _, success => by
      obtain ⟨ys, -, success⟩ := bind_eq_ok.mp success
      obtain ⟨ts, -, success⟩ := bind_eq_ok.mp success
      exact Except.ok.inj success ▸ Interval.valid_sum ts

end

/-- Over a box of valid intervals, an expression evaluates to an interval that holds its value at
every point of the box where it has one, by way of valid intervals only. -/
theorem mem_eval_of_value [DirectedScalar α] [DividingScalar α] [ElementaryScalar α]
    {e : Expression α} {b : Box α} (literals : e.ValidLiterals)
    (components : ∀ y ∈ b.components, y.Valid) :
    (∀ x ∈ b, ∀ t, e.value? x = some t → ∃ image, e.eval b = .ok image ∧ t ∈ image) ∧
      ∀ d : Expression α, d.Part e → ∀ image, d.eval b = .ok image → image.Valid :=
  ⟨fun _ member => holds_eval member e,
    fun d part image => valid_eval components d image (literals.part part)⟩

def rootOverCube : Expression Coarse :=
  div (sqrt (coordinate 1)) (sub (pow (coordinate 0) 3) (literal ⟨.one, .one⟩))

def quadrant : Box Coarse := ⟨[⟨.minusOne, .zero⟩, ⟨.zero, .one⟩]⟩

theorem rootOverCube_mem : rootOverCube.ValidLiterals ∧ (∀ y ∈ quadrant.components, y.Valid) ∧
    [-1 / 2, 1 / 4] ∈ quadrant ∧ rootOverCube.value? [-1 / 2, 1 / 4] = some (-4 / 9) ∧
    rootOverCube.eval quadrant = .ok ⟨.bot, .zero⟩ ∧
    -4 / 9 ∈ (⟨.bot, .zero⟩ : Interval Coarse) ∧
    ∀ image, (sqrt (coordinate 1) : Expression Coarse).eval quadrant = .ok image →
      image.Valid := by
  have first : (-1 / 2 : ℝ) ∈ (⟨.minusOne, .zero⟩ : Interval Coarse) := by
    refine ⟨Coarse.isNumber _, Coarse.isNumber _, ?_, ?_⟩
    · exact Coarse.value_minusOne.trans_le (EReal.coe_le_coe_iff.mpr (by norm_num))
    · exact (EReal.coe_le_coe_iff.mpr (by norm_num)).trans Coarse.value_zero.ge
  have second : (1 / 4 : ℝ) ∈ (⟨.zero, .one⟩ : Interval Coarse) := by
    refine ⟨Coarse.isNumber _, Coarse.isNumber _, ?_, ?_⟩
    · exact Coarse.value_zero.trans_le (EReal.coe_le_coe_iff.mpr (by norm_num))
    · exact (EReal.coe_le_coe_iff.mpr (by norm_num)).trans Coarse.value_one.ge
  have member : [-1 / 2, 1 / 4] ∈ quadrant := .cons first (.cons second .nil)
  have components : ∀ y ∈ quadrant.components, y.Valid := by
    intro y hy
    rcases List.mem_cons.mp hy with rfl | hy
    · exact Or.inr (Interval.proper_of_mem first)
    · obtain rfl := List.mem_singleton.mp hy
      exact Or.inr (Interval.proper_of_mem second)
  have literals : rootOverCube.ValidLiterals := by
    have root : (sqrt (coordinate 1 : Expression Coarse)).ValidLiterals :=
      .of_operands nofun (List.forall_mem_singleton.mpr (validLiterals_coordinate 1))
    have size : (abs (coordinate 0 : Expression Coarse)).ValidLiterals :=
      .of_operands nofun (List.forall_mem_singleton.mpr (validLiterals_coordinate 0))
    have cube : (pow (coordinate 0 : Expression Coarse) 3).ValidLiterals :=
      .of_operands nofun (List.forall_mem_cons.mpr
        ⟨validLiterals_coordinate 0, List.forall_mem_singleton.mpr size⟩)
    have one := validLiterals_literal (Interval.valid_one (α := Coarse))
    have denominator := ValidLiterals.of_operands (e := sub _ _) nofun
      (List.forall_mem_cons.mpr ⟨cube, List.forall_mem_singleton.mpr one⟩)
    exact .of_operands nofun
      (List.forall_mem_cons.mpr ⟨root, List.forall_mem_singleton.mpr denominator⟩)
  have defined : rootOverCube.value? [-1 / 2, 1 / 4] = some (-4 / 9) := by
    have numerator : Real.sqrt (1 / 4) = 1 / 2 := by
      rw [show (1 / 4 : ℝ) = (1 / 2) ^ 2 by norm_num]
      exact Real.sqrt_sq (by norm_num)
    have root : (sqrt (coordinate 1) : Expression Coarse).value? [-1 / 2, 1 / 4] =
        some (1 / 2) := by
      rw [← numerator]
      exact if_pos (by norm_num)
    have one : (literal ⟨.one, .one⟩ : Expression Coarse).value? [-1 / 2, 1 / 4] = some 1 := by
      rw [← real_one (α := Coarse)]
      exact if_pos (by decide)
    have denominator : (sub (pow (coordinate 0) 3) (literal ⟨.one, .one⟩) :
        Expression Coarse).value? [-1 / 2, 1 / 4] = some (-9 / 8) := by
      have cube : (-1 / 2 : ℝ) ^ 3 - 1 = -9 / 8 := by norm_num
      rw [value?, one, ← cube]
      rfl
    rw [rootOverCube, value?, root, denominator]
    have ratio : (1 / 2 : ℝ) / (-9 / 8) = -4 / 9 := by norm_num
    rw [← ratio]
    exact if_neg (by norm_num)
  have root : (sqrt (coordinate 1)).Part rootOverCube := .of_operand List.mem_cons_self (.refl _)
  have found : rootOverCube.eval quadrant = .ok ⟨.bot, .zero⟩ := rfl
  obtain ⟨holds, valid⟩ := mem_eval_of_value literals components
  obtain ⟨image, evaluated, inside⟩ := holds _ member _ defined
  obtain rfl := Except.ok.inj (evaluated.symm.trans found)
  exact ⟨literals, components, member, defined, found, inside, valid _ root⟩

end Expression

end BoxSearch
