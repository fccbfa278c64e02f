import BoxSearch.Contractor.Plan
import BoxSearch.Report.Linear
import BoxSearch.Report.Model

/-!
# Written contractors
-/
set_option autoImplicit false

namespace BoxSearch

def AgreementError.message : AgreementError → String
  | .zero => "q must be at least 1"
  | .tooMany q boxes =>
    "q = " ++ toString q ++ " exceeds the number of boxes " ++ toString boxes
  | .dimension index expected found =>
    "box " ++ toString index ++ " has dimension " ++ toString found ++ ", expected " ++
      toString expected

def SlopeMode.toText : SlopeMode → String
  | .taylor => "Taylor"
  | .hansen => "Hansen"

def CornerPolicy.toText : CornerPolicy → String
  | .lower => "Lower"
  | .upper => "Upper"
  | .random => "Random"
  | .opposite => "RandomOpposite"
  | .best cutoff => "Best(cutoff: " ++ toString cutoff ++ ")"
  | .monotone => "Monotonicity"
  | .spread => "K4"

namespace CornerLinearizer

def name : String := "CornerLinearizer"

def toText {α : Type} (l : CornerLinearizer α) : String :=
  "CornerLinearizer(mode: " ++ l.mode.toText ++ ", policies: [" ++
    String.intercalate ", " (l.policies.map CornerPolicy.toText) ++ "])"

end CornerLinearizer

namespace RelaxationConfig

def toText (c : RelaxationConfig Float) : String :=
  "RelaxationConfig(max_diam_box: " ++ Text.plain.write c.maxWidth ++ ", ratio_fp: " ++
    Text.plain.write c.repeatRatio ++ ", ratio_fp2: " ++ Text.plain.write c.preRatio ++
    ", max_rounds: " ++ toString c.maxRounds ++ ", skip_tolerance: " ++
    Text.plain.write c.skipTolerance ++ ")"

def describe (c : RelaxationConfig Float) : String :=
  Text.record "RelaxationConfig"
    [("max_diam_box", Text.literal.write c.maxWidth),
      ("ratio_fp", Text.literal.write c.repeatRatio),
      ("ratio_fp2", Text.literal.write c.preRatio), ("max_rounds", toString c.maxRounds),
      ("skip_tolerance", Text.literal.write c.skipTolerance)]

end RelaxationConfig

def Relaxation.describe (r : Relaxation Float) (solver : String) (goal : Float) : String :=
  Text.record "LinearRelaxationContractor"
    [("linearizer", Text.quoted CornerLinearizer.name), ("solver", Text.quoted solver),
      ("config", r.config.describe), ("use_goal", Text.flag r.useGoal),
      ("goal", Text.literal.write goal)]

def namesText (names : List String) : String := Text.list (names.map Text.quoted)

def ContractorPlan.toText {α : Type} (c : ContractorPlan α) : String :=
  "Contractor(" ++ c.name ++ ")"

def ContractorPlan.describe {α : Type} : ContractorPlan α → Option String
  | sequence members => some (namesText (members.map name))
  | agreement q members =>
    some (Text.record "QInterContractor"
      [("q", toString q), ("contractors", namesText (members.map name))])
  | _ => none

end BoxSearch
