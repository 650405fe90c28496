import A2aItk.Python.Text
import A2aItk.Traversal.Hierholzer
import A2aItk.Traversal.EulerCircuits
import A2aItk.Traversal.TestSuite
import A2aItk.Traversal.AgentSemantics
import A2aItk.Traversal.Contract
import A2aItk.Traversal.Subgraphs
import A2aItk.Scenarios.Schema
import A2aItk.Scenarios.Coverage
import A2aItk.Scenarios.Exclusions
import A2aItk.Execution.Selection
import A2aItk.Execution.ExplicitEdges
import A2aItk.Execution.Runner
import A2aItk.Execution.Accounting
import A2aItk.Launcher.Cache
import A2aItk.Launcher.PinSafety
import A2aItk.Launcher.TreeFiles
import A2aItk.Launcher.SentinelSafety
import A2aItk.Acts.Paths
import A2aItk.Python.Effects
import A2aItk.Acts.Scope
import A2aItk.Scenarios.Traversable
import A2aItk.Execution.TwoStage
import A2aItk.Python.Objects
import A2aItk.Verification.PushNotification
import A2aItk.Verification.Replies
import A2aItk.Verification.Occurrences
import A2aItk.Verification.Traversals
import A2aItk.Verification.Vacuity
import A2aItk.Scenarios.Conservation
import A2aItk.Acts.Assertions
import A2aItk.Acts.Satisfaction
import A2aItk.Acts.Agreement
import A2aItk.Acts.NamedFields
import A2aItk.Acts.PathText
import A2aItk.Acts.Located
import A2aItk.Acts.Templates
import A2aItk.Acts.Schema
import A2aItk.Python.Patterns
import A2aItk.Acts.Results
import A2aItk.Acts.Gate
import A2aItk.Acts.Expectations
import A2aItk.Acts.Until
import A2aItk.Acts.Streams
import A2aItk.Acts.Resolution
import A2aItk.Acts.Exchanges
import A2aItk.Acts.Runner
import A2aItk.Acts.TestRuns
import A2aItk.Acts.Deviations
import A2aItk.Acts.SkipReasons
import A2aItk.Acts.Reruns
import A2aItk.Acts.OwnExceptions
import A2aItk.Acts.BrokenExchanges
import A2aItk.Acts.Corpus
import A2aItk.Acts.Report
import A2aItk.Acts.Verdicts
import A2aItk.Traversal.ClosedTours
import A2aItk.Scenarios.Trimming
import A2aItk.Scenarios.Declarations
import A2aItk.Scenarios.Names
import A2aItk.Scenarios.Explanations
import A2aItk.Scenarios.Loader
import A2aItk.Notifications.Delivery
import A2aItk.Acts.ErrorBindings
import A2aItk.Python.Validation
import A2aItk.Acts.Documents
import A2aItk.Acts.Loading
import A2aItk.Acts.Includes
import A2aItk.Acts.Lossless
import A2aItk.Launcher.Cluster
import A2aItk.Launcher.Teardown
import A2aItk.Acts.Transcripts
import A2aItk.Acts.PassingSteps
import A2aItk.Acts.DeclaredBlocks
import A2aItk.Acts.PathTiles
import A2aItk.Acts.PathInstances
import A2aItk.Acts.Quantifiers
import A2aItk.Acts.JsonEquality
import A2aItk.Acts.AssertionOrder
import A2aItk.Acts.KeyOrder
import A2aItk.Acts.Substitution
import A2aItk.Acts.Polling
import A2aItk.Acts.UntilOperands
import A2aItk.Acts.UntilText
import A2aItk.Python.Simulation
import A2aItk.Acts.Worlds
import A2aItk.Acts.TestShape
import A2aItk.Acts.StateOrder
import A2aItk.Acts.Captures
import A2aItk.Acts.StreamBounds
import A2aItk.Acts.EarlyStops
import A2aItk.Acts.IncludeOrder
import A2aItk.Multigraph.DepthFirst
import A2aItk.Launcher.CacheKeys
import A2aItk.Launcher.TargetSpec
import A2aItk.Launcher.Ports
import A2aItk.Launcher.PortSafety
import A2aItk.Launcher.Errors
import A2aItk.Launcher.StartAll
import A2aItk.Launcher.FailureContainment
import A2aItk.Launcher.Checkouts
import A2aItk.Launcher.PinAccounting
import A2aItk.Launcher.Eviction
import A2aItk.Launcher.Snapshots
import A2aItk.Launcher.EvictionPolicy
import A2aItk.Dashboard.Texts
import A2aItk.Dashboard.Summary
import A2aItk.Python.Grouping
import A2aItk.Dashboard.Quoted
import A2aItk.Dashboard.Conformance
import A2aItk.Dashboard.ConformanceTable
import A2aItk.Python.Digits
import A2aItk.Dashboard.Pairwise
import A2aItk.Dashboard.ArrowFlips
import A2aItk.Dashboard.PairGroups
import A2aItk.Metrics.ProcessResults
import A2aItk.Scenarios.MatrixFile
import A2aItk.Launcher.Refs
import A2aItk.Launcher.ResolvedRefs
import A2aItk.Python.Replace
import A2aItk.Acts.PathTemplates
import A2aItk.Python.Entries
import A2aItk.Python.Heap
import A2aItk.Acts.Adaptation
import A2aItk.Acts.ParamPositions
import A2aItk.Acts.HeaderCase
import A2aItk.Acts.RequiredFields
import A2aItk.Python.Monitors
import A2aItk.Python.Windows
import A2aItk.Acts.ConformanceRuns
import A2aItk.Acts.SerialRuns
import A2aItk.Acts.ConformanceResults
import A2aItk.Acts.BindingRuns
import A2aItk.Acts.Dispatchers
import A2aItk.Acts.Sessions
import A2aItk.Acts.RequestMeaning
import A2aItk.Metrics.History
import A2aItk.Metrics.ConformanceHistory
import A2aItk.Metrics.ConformanceNights
import A2aItk.Launcher.Planning
import A2aItk.Execution.LaunchedRuns
