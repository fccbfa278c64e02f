import BoxSearch.Exchange.Problem
import BoxSearch.Exchange.SimplexSolver
import BoxSearch.Linear.SingleRow

/-!
# Described rows, solvers and contractors
-/
set_option autoImplicit false

namespace BoxSearch

/-! ## Rows and programs -/

instance : ToDatum (LinearColumn Float) :=
  ⟨fun c => datum [c.objective, c.lower, c.upper]⟩

instance : ToDatum (LinearRow Float) :=
  ⟨fun r => .list [datum r.lower, datum r.coeffs, datum r.upper]⟩

instance : ToDatum (LinearProgram Float) :=
  ⟨fun p => .record [("columns", datum p.columns), ("rows", datum p.rows)]⟩

instance : FromDatum (LinearRow Float) where
  read
    | .list [.text "<=", coeffs, upper] => return .le (← read coeffs) (← read upper)
    | .list [.text ">=", coeffs, lower] => return .ge (← read coeffs) (← read lower)
    | .list [.text "range", coeffs, lower, upper] =>
      return ⟨← read lower, ← read coeffs, ← read upper⟩
    | _ => .error (.malformed "a row")

instance : FromDatum Sense where
  read
    | .text "min" => .ok .minimize
    | .text "max" => .ok .maximize
    | _ => .error (.malformed "a sense")

/-! ## Solvers -/

def LpStatus.all : List LpStatus := [.optimal, .infeasible, .unbounded, .limitReached, .unknown]

instance : FromDatum LpStatus where
  read d := do
    let name ← (read d : Reading String)
    match LpStatus.all.find? fun s => s.toText == name with
    | some s => return s
    | none => throw (.malformed "a status")

instance : FromDatum (Reply Float) where
  read d := do
    let result : Except LpError (LpAnswer Float) ←
      match ← (d.get "fail" : Reading (Option String)) with
      | some reason => pure (.error (.solver reason))
      | none => do
        pure (.ok {
          status := ← d.getD "status" .optimal
          value := ← d.get "value"
          primal := ← d.get "primal"
          dual := ← d.get "dual"
          direction := ← d.get "direction" })
    return ⟨← d.get "col", ← d.get "sense", ← d.getD "repeat" false, result⟩

instance : FromDatum SimplexSolver where
  read d := do
    let s := SimplexSolver.standard
    return ⟨← d.getD "max_iter" s.maxIterations, ← d.getD "time_limit" s.timeLimit⟩

inductive AnySolver where
  | simplex (s : SimplexSolver)
  | scripted (s : ScriptedSolver Float)
  | singleRow (s : SingleRowSolver Float)

instance : LpSolver AnySolver Float where
  name
    | .simplex s => LpSolver.name s
    | .scripted s => LpSolver.name s
    | .singleRow s => LpSolver.name s
  solve
    | .simplex s, p, sense => (LpSolver.solve s p sense).map id .simplex
    | .scripted s, p, sense => (LpSolver.solve s p sense).map id .scripted
    | .singleRow s, p, sense => (LpSolver.solve s p sense).map id .singleRow

instance : FromDatum AnySolver where
  read d := do
    match ← (d.get "k" : Reading String) with
    | "clarabel" => return .simplex (← read d)
    | "scripted" => return .scripted ⟨← d.get "script"⟩
    | "onerow" => return .singleRow ⟨⟩
    | _ => throw (.malformed "a solver")

/-! ## Linearizers -/

instance : FromDatum CornerPolicy where
  read
    | .text "lower" => .ok .lower
    | .text "upper" => .ok .upper
    | .text "random" => .ok .random
    | .text "opposite" => .ok .opposite
    | .text "mono" => .ok .monotone
    | .text "k4" => .ok .spread
    | .list [.text "best", cutoff] => return .best (← read cutoff)
    | _ => .error (.malformed "a corner policy")

instance : FromDatum SlopeMode where
  read
    | .text "taylor" => .ok .taylor
    | .text "hansen" => .ok .hansen
    | _ => .error (.malformed "a slope mode")

instance : FromDatum (CornerLinearizer Float) where
  read d := do
    let l : CornerLinearizer Float ←
      match ← (d.get "policies" : Reading (Option (List CornerPolicy))) with
      | some policies => (CornerLinearizer.ofPolicies policies : Checked Float _)
      | none => pure .standard
    let config := (d.field? "config").getD .null
    return { l with
      mode := ← d.getD "mode" l.mode
      maxSlopeWidth := ← config.getD "max_diam_deriv" l.maxSlopeWidth
      linearTolerance := ← config.getD "linear_tolerance" l.linearTolerance
      seed := ← d.getD "seed" (← config.getD "seed" l.seed) }

instance : FromDatum (RelaxationConfig Float) where
  read d := do
    let c : RelaxationConfig Float := .standard
    return {
      maxWidth := ← d.getD "max_diam_box" c.maxWidth
      repeatRatio := ← d.getD "ratio_fp" c.repeatRatio
      preRatio := ← d.getD "ratio_fp2" c.preRatio
      maxRounds := ← d.getD "max_rounds" c.maxRounds
      skipTolerance := ← d.getD "skip_tolerance" c.skipTolerance }

/-! ## Contractors -/

abbrev AnyContractor := PlannedContractor (RecordedSolver AnySolver) Float

def readRelaxation (p : Problem Float) (d : Datum) : Reading (Relaxation Float) := do
  let r := Relaxation.ofParts p (← read d)
  let r := { r with config := ← d.getD "relax_config" r.config }
  return if ← d.getD "goal" false then r.withGoal else r

def readNarrowing (d : Datum) : Reading (Narrowing Float) := do
  match ← (read d : Reading String) with
  | "empty" => return .noSolution
  | "unavailable" => return .unavailable
  | _ => return .failed (.solver "scripted failure")

def readContractorWithin (p : Problem Float) : Nat → Datum → Reading AnyContractor
  | 0, _ => throw (.malformed "a contractor")
  | depth + 1, d => do
    let members := do (← (d.get "of" : Reading (List Datum))).mapM (readContractorWithin p depth)
    let pre := do
      match d.field? "pre" with
      | some c => readContractorWithin p depth c
      | none => pure (.sequence [])
    match ← (d.get "k" : Reading String) with
    | "box" => return .intersection (← d.get "box")
    | "check" => return .check p
    | "seq" => return .sequence (← members)
    | "qinter" =>
      let q ← (d.get "q" : Reading Nat)
      (PlannedContractor.agreement q (← members) : Except AgreementError AnyContractor)
    | "relax" =>
      let r ← readRelaxation p d
      let solver ← (d.get "solver" : Reading AnySolver)
      return .relaxation r ⟨solver, []⟩ (← pre)
    | "relax_default" =>
      return .relaxation (← readRelaxation p d) ⟨.simplex .standard, []⟩ (.sequence [])
    | "fail" => return .fixed "Fail" (← readNarrowing (← d.get "with"))
    | "spy" =>
      let label ← (d.get "id" : Reading String)
      return .observed label (← readContractorWithin p depth (← d.get "of"))
    | _ => throw (.malformed "a contractor")

mutual

def Datum.depth : Datum → Nat
  | .list items => Datum.depths items + 1
  | .record fields => Datum.fieldDepths fields + 1
  | _ => 0

def Datum.depths : List Datum → Nat
  | [] => 0
  | d :: ds => max d.depth (Datum.depths ds)

def Datum.fieldDepths : List (String × Datum) → Nat
  | [] => 0
  | (_, d) :: fs => max d.depth (Datum.fieldDepths fs)

end

def readContractor (p : Problem Float) (d : Datum) : Reading AnyContractor :=
  readContractorWithin p (d.depth + 1) d

end BoxSearch
