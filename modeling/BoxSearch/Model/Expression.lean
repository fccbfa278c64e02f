import BoxSearch.Model.Evaluator

/-!
# Expressions

An expression over the components of a box is evaluated from left to right in interval
arithmetic, which makes the evaluator of a function and of its gradient.
-/
set_option autoImplicit false

namespace BoxSearch

inductive Expression (α : Type) where
  | coordinate (j : Nat)
  | literal (x : Interval α)
  | neg (e : Expression α)
  | sqr (e : Expression α)
  | sqrt (e : Expression α)
  | exp (e : Expression α)
  | log (e : Expression α)
  | abs (e : Expression α)
  | pow (e : Expression α) (n : Nat)
  | add (e f : Expression α)
  | sub (e f : Expression α)
  | mul (e f : Expression α)
  | div (e f : Expression α)
  | min (e f : Expression α)
  | max (e f : Expression α)
  | intersect (e f : Expression α)
  | hull (e f : Expression α)
  | addScalar (e : Expression α) (c : α)
  | subScalar (e : Expression α) (c : α)
  | mulScalar (e : Expression α) (c : α)
  | sum (es : List (Expression α))
  | dot (es : List (Expression α)) (coeffs : List α)

namespace Expression
variable {α : Type} [Scalar α]

mutual

def eval (b : Box α) : Expression α → Checked α (Interval α)
  | coordinate j => b.component j
  | literal x => .ok x
  | neg e => return -(← e.eval b)
  | sqr e => return (← e.eval b).sqr
  | sqrt e => return (← e.eval b).sqrt
  | exp e => return (← e.eval b).exp
  | log e => return (← e.eval b).log
  | abs e => return (← e.eval b).abs
  | pow e n => return (← e.eval b).pow n
  | add e f => return (← e.eval b) + (← f.eval b)
  | sub e f => return (← e.eval b) - (← f.eval b)
  | mul e f => return (← e.eval b) * (← f.eval b)
  | div e f => return (← e.eval b) / (← f.eval b)
  | min e f => return (← e.eval b).min (← f.eval b)
  | max e f => return (← e.eval b).max (← f.eval b)
  | intersect e f => return (← e.eval b).intersect (← f.eval b)
  | hull e f => return (← e.eval b).hull (← f.eval b)
  | addScalar e c => do (← e.eval b).addScalar c
  | subScalar e c => do (← e.eval b).subScalar c
  | mulScalar e c => do (← e.eval b).mulScalar c
  | sum es => return Interval.sum (← evalAll b es)
  | dot es coeffs => do Box.dot ⟨← evalAll b es⟩ coeffs

def evalAll (b : Box α) : List (Expression α) → Checked α (List (Interval α))
  | [] => .ok []
  | e :: es => do
    let x ← e.eval b
    return x :: (← evalAll b es)

end

def function (arity : Nat) (value : Expression α) (gradient : List (Expression α)) :
    Enclosed α where
  arity
  range b := value.eval b
  slopes b := return ⟨← evalAll b gradient⟩
  isLinear := false
  support := none

end Expression

end BoxSearch
