import CapacityControl.Scalar.Extended
import CapacityControl.Scalar.Binary64
import CapacityControl.Text.Blank
import CapacityControl.Text.Numeral
import CapacityControl.Metric
import CapacityControl.Stats.Estimator
import CapacityControl.Stats.Smoother
import CapacityControl.Fuzzy.RuleText.Grammar
import CapacityControl.Control.Surface
import CapacityControl.Control.Counters
import CapacityControl.Control.Share
import CapacityControl.Control.Intervals
import CapacityControl.Control.Machine
import CapacityControl.Control.Warning
import CapacityControl.Document.Json.Read
import CapacityControl.Document.Fuzzy
import CapacityControl.Control.Core
import CapacityControl.Control.Controller
import CapacityControl.Control.Manager
import CapacityControl.Control.Station
import CapacityControl.Document.File
import CapacityControl.Proofs.Exact.Arithmetic
import CapacityControl.Proofs.Fuzzy.Degree
import CapacityControl.Proofs.Fuzzy.Centre
import CapacityControl.Proofs.Surface.Response
import CapacityControl.Proofs.Surface.Blend
import CapacityControl.Proofs.Surface.Balance
import CapacityControl.Proofs.Surface.Coverage
import CapacityControl.Proofs.Surface.Direction
import CapacityControl.Proofs.Control.Alone
import CapacityControl.Proofs.Control.Share
import CapacityControl.Proofs.Control.Actuation
import CapacityControl.Proofs.Control.Settings
import CapacityControl.Proofs.Control.Reachable
import CapacityControl.Proofs.Control.AllOrNothing
import CapacityControl.Proofs.Stats.Markers
import CapacityControl.Proofs.Stats.Estimate
import CapacityControl.Proofs.Control.Run
import CapacityControl.Proofs.Control.Outcome
import CapacityControl.Proofs.Stats.Stream
import CapacityControl.Proofs.Fuzzy.Condition
import CapacityControl.Proofs.Fuzzy.Sentence
import CapacityControl.Proofs.Control.Calls
import CapacityControl.Proofs.Control.Logging
import CapacityControl.Proofs.Control.Applying
import CapacityControl.Proofs.Control.Configuring
import CapacityControl.Proofs.Control.Draining
import CapacityControl.Proofs.Control.Attribution
import CapacityControl.Proofs.Control.Forgetting
import CapacityControl.Proofs.Control.Resetting
import CapacityControl.Proofs.Control.Lagging
import CapacityControl.Proofs.Control.Independence
import CapacityControl.Proofs.Control.Bookkeeping
import CapacityControl.Proofs.Control.Schedule
import CapacityControl.Proofs.Fuzzy.Assembly
import CapacityControl.Proofs.Fuzzy.Bounds
import CapacityControl.Proofs.Fuzzy.Inference
import CapacityControl.Proofs.Control.Baseline
import CapacityControl.Proofs.Control.UnitInvariance
import CapacityControl.Proofs.Fuzzy.Growth
import CapacityControl.Proofs.Surface.Assembly
import CapacityControl.Proofs.Surface.Ordering
import CapacityControl.Proofs.Document.Saving
import CapacityControl.Proofs.Fuzzy.Cycle
import CapacityControl.Proofs.Fuzzy.Rearranging
import CapacityControl.Proofs.Stats.Equivariance
import CapacityControl.Proofs.Stats.Quantile
import CapacityControl.Proofs.Stats.Level
import CapacityControl.Proofs.Stats.Trend
import CapacityControl.Proofs.Control.Delivery
import CapacityControl.Proofs.Control.DeadBand
import CapacityControl.Proofs.Fuzzy.Duality
import CapacityControl.Proofs.Fuzzy.Spacing
import CapacityControl.Proofs.Fuzzy.Profile
import CapacityControl.Proofs.Fuzzy.Similarity
import CapacityControl.Proofs.Fuzzy.Words
import CapacityControl.Proofs.Fuzzy.Naming
import CapacityControl.Proofs.Stats.Mean
