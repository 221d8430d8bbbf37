import Velorix.Engine.Fencing
import Velorix.Meta.Owners
import Velorix.Meta.Seals
import Velorix.Control.PublisherRuns
import Velorix.Admission.FenceRuns
import Velorix.Worker.Views
import Velorix.Manifest.FenceRuns
import Velorix.Operator.AggregateRuns
import Velorix.View.TrackingRuns
import Velorix.View.SemiAntiRestore
import Velorix.Native.ExistenceRuns
import Velorix.Api.ReplayFrontiers
import Velorix.Delta.TypedCodec
import Velorix.Engine.ProcessedSpans
import Velorix.View.Dependencies
import Velorix.View.Pages
import Velorix.View.RecursiveClosure
import Velorix.Expression.Timestamps
import Velorix.View.FrameBounds
import Velorix.View.TopK
import Velorix.View.TemporalJoin
