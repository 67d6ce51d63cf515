import ProtocolLearner.Lib.Machine
import ProtocolLearner.Lib.Lloyd
import ProtocolLearner.Lib.RunLengths
import ProtocolLearner.Lib.Simulation
import ProtocolLearner.Lib.Network
import ProtocolLearner.Scalar
import ProtocolLearner.KMeans
import ProtocolLearner.Operations
import ProtocolLearner.Throws
import ProtocolLearner.Points
import ProtocolLearner.Assignment
import ProtocolLearner.Convergence
import ProtocolLearner.Descent
import ProtocolLearner.Centroids
import ProtocolLearner.Reordering
import ProtocolLearner.Worker
import ProtocolLearner.Wakeups
import ProtocolLearner.Algos
import ProtocolLearner.Analysers
import ProtocolLearner.Learner
import ProtocolLearner.Client
import ProtocolLearner.Handlers
import ProtocolLearner.Observation
import ProtocolLearner.Relay
import ProtocolLearner.ReturnPort
import ProtocolLearner.Sinks
import ProtocolLearner.Network
import ProtocolLearner.Wiring
import ProtocolLearner.RoundTrip
import ProtocolLearner.Delivery
import ProtocolLearner.Passes
import ProtocolLearner.EmptyGroups
import ProtocolLearner.Clustering
import ProtocolLearner.Linearization
import ProtocolLearner.Idle
import ProtocolLearner.Lookups
import ProtocolLearner.TwoMeans
import ProtocolLearner.Traffic
import ProtocolLearner.EngineRuns
import ProtocolLearner.Standstill
import ProtocolLearner.Divisors
import ProtocolLearner.Arrivals
