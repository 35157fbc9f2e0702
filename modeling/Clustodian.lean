import Clustodian.Chaos.Termination
import Clustodian.Controller.Acceptance
import Clustodian.Controller.Election
import Clustodian.Controller.Inputs
import Clustodian.Controller.Pipeline
import Clustodian.Coordination.Apply
import Clustodian.Coordination.Cursor
import Clustodian.Coordination.Instances
import Clustodian.Coordination.Lockstep
import Clustodian.Coordination.Marker
import Clustodian.Coordination.SegmentPairs
import Clustodian.Coordination.Watch
import Clustodian.Coordination.Watermark
import Clustodian.Model.SessionCalls
import Clustodian.Model.TransitionTable
import Clustodian.Observer.Waiting
import Clustodian.Participant.FrontierRuns
import Clustodian.Participant.Runtime
import Clustodian.Planner.CrushDigest
import Clustodian.Planner.CrushSelect
import Clustodian.Planner.Placement
import Clustodian.Planner.Quotas
import Clustodian.Planner.CrushAttempts
import Clustodian.Planner.CrushFlat
import Clustodian.Planner.CrushPlacement
