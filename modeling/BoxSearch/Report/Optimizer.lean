import BoxSearch.Report.Contractor
import BoxSearch.Report.Search
import BoxSearch.Search.Monitor
import BoxSearch.Search.Run

/-!
# Written monitors and optimizers
-/
set_option autoImplicit false

namespace BoxSearch

def PruneReason.toText : PruneReason → String
  | .infeasible => "Infeasible"
  | .objectiveCut => "ObjectiveCut"
  | .firstOrder => "FirstOrder"
  | .precision => "Precision"

namespace Monitor

def toText (m : Monitor) : String := "SearchMonitor(" ++ m.name ++ ")"

def describeMembers (members : List Monitor) : String := namesText (members.map name)

def reportText (interval mask : Nat) : String :=
  "LogMonitor(log_interval: " ++ toString (interval / nanosPerSecond) ++
    "s, clock_check_mask: " ++ toString mask ++ ")"

end Monitor

def OptimizerError.message : OptimizerError → String
  | .missingObjective => "the system has no objective function"
  | .missingDomain => "the optimizer has no initial domain; call `optimize` first"
  | .percentage value => "critpr must be at most 100, got " ++ toString value
  | .model e => e.message
  | .buffer e => e.message
  | .lp e => e.message

namespace Optimizer
variable {κ : Type}

def toText (o : Optimizer κ Float) : String :=
  "Optimizer(" ++ o.status.toText ++ ", f* in [" ++ Text.plain.write o.uplo ++ ", " ++
    Text.plain.write o.loup ++ "], " ++ toString o.buffer.size ++ " open cells)"

def describe [Contractor κ Float] (o : Optimizer κ Float) : String :=
  Text.record "Optimizer"
    [("contractor", Text.quoted (Contractor.name o.contractor)),
      ("bisector", Text.quoted o.bisector.name), ("config", o.config.describe),
      ("status", o.status.describe), ("loup", Text.literal.write o.loup),
      ("uplo", Text.literal.write o.uplo), ("buffer", o.buffer.toText)]

end Optimizer

end BoxSearch
