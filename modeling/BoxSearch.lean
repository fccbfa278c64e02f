import BoxSearch.Contractor.Basic
import BoxSearch.Exchange.Contractor
import BoxSearch.Exchange.Search
import BoxSearch.Linear.Certificate
import BoxSearch.Model.Expression
import BoxSearch.Report.Contractor
import BoxSearch.Report.Linear
import BoxSearch.Report.Search
import BoxSearch.Search.Incumbent
import BoxSearch.Proofs.Contractor.Linearization
import BoxSearch.Proofs.Contractor.Plan
import BoxSearch.Proofs.Model.Expression
import BoxSearch.Proofs.Search.Bracket
import BoxSearch.Proofs.Search.Resumption
import BoxSearch.Proofs.Search.Target
import BoxSearch.Proofs.Search.Termination
import BoxSearch.Proofs.Search.Verdict
import BoxSearch.Proofs.Matches
import BoxSearch.Proofs.Model.Caching
import BoxSearch.Proofs.Search.CellMemory
import BoxSearch.Proofs.Search.Transcript
import BoxSearch.Proofs.Search.SecondOrder
import BoxSearch.Proofs.Search.Bisection
import BoxSearch.Proofs.Search.Fairness
import BoxSearch.Proofs.Search.Frontier
import BoxSearch.Proofs.Search.FirstOrder
import BoxSearch.Proofs.Search.Halving
import BoxSearch.Proofs.Search.Probing
import BoxSearch.Proofs.Search.Pinning
import BoxSearch.Proofs.Contractor.SlopeModes
import BoxSearch.Proofs.Contractor.AffineRows
import BoxSearch.Proofs.Contractor.Schedule
import BoxSearch.Proofs.Interval.EvenPowers
import BoxSearch.Proofs.Linear.Updates
import BoxSearch.Proofs.Search.UndefinedCosts
