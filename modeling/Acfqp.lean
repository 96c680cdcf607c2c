import Acfqp.Recovery.HybridSoundness
import Acfqp.Confidence.Boundaries
import Acfqp.Confidence.JointCoverage
import Acfqp.Planning.BehavioralOptima
import Acfqp.Planning.BehavioralEnvelope
import Acfqp.Gate.OneShot
import Acfqp.Route.Outcome
import Acfqp.Graph.Termination
import Acfqp.Access.Laws
import Acfqp.Domains.RelativeSurvivor
import Acfqp.Fallback.Certificates
import Acfqp.Voi.Fantasy
import Acfqp.Coordinates.Optimality
import Acfqp.Coverage.Enumeration
import Acfqp.Recovery.FailedProof
import Acfqp.Recovery.CausalCompleteness
import Acfqp.Planning.Materialize
import Acfqp.Portable.Solver
import Acfqp.Refinement.Atomic
import Acfqp.Domains.D4
import Acfqp.Domains.LmbEquivariance
import Acfqp.Domains.Solvable
import Acfqp.ExactGround.Exhaustive
import Acfqp.Robust.FailureReasons
import Acfqp.SharedCap.Runs
import Acfqp.LocalSolver.Front
import Acfqp.OutputBytes.Solver
