import UltraTorrent.Scheduler.Displacement
import UltraTorrent.Scheduler.OrderIndependence
import UltraTorrent.Scheduler.HostClock
import UltraTorrent.Workflows.WorkflowExecution
import UltraTorrent.Workflows.ExecutionPlanner
import UltraTorrent.Library.Kleene
import UltraTorrent.Library.Walk
import UltraTorrent.Library.Fallible
import UltraTorrent.Scheduler.Occupancy
import UltraTorrent.Scheduler.Priority
import UltraTorrent.Scheduler.Policy
import UltraTorrent.Scheduler.Planner
import UltraTorrent.Scheduler.Capacity
import UltraTorrent.Scheduler.ActionBudget
import UltraTorrent.Scheduler.PartialFacts
import UltraTorrent.Scheduler.WarrantedActions
import UltraTorrent.Scheduler.Inheritance
import UltraTorrent.Cleanup.FactAssembly
import UltraTorrent.Scheduler.WalkSteps
import UltraTorrent.Scheduler.PolicyService
import UltraTorrent.Cleanup.PushdownSoundness
import UltraTorrent.Rtorrent.Bencode
import UltraTorrent.Library.Keyed
import UltraTorrent.TransferLedger.SyncLoop
import UltraTorrent.TransferLedger.Conservation
import UltraTorrent.Cleanup.ProtectionMatcher
import UltraTorrent.Files.PathSafety
import UltraTorrent.Cleanup.ProtectionService
import UltraTorrent.Cleanup.CandidateFingerprint
import UltraTorrent.Cleanup.PlanExecutor
import UltraTorrent.Cleanup.ProtectionCoverage
import UltraTorrent.Scheduler.Schedule
import UltraTorrent.Scheduler.Preview
import UltraTorrent.Scheduler.Reconciliation
import UltraTorrent.Scheduler.Sweeps
import UltraTorrent.Scheduler.Ownership
import UltraTorrent.Scheduler.SeedStops
import UltraTorrent.Scheduler.Hysteresis
import UltraTorrent.Cleanup.PolicyValidator
import UltraTorrent.Cleanup.CandidateDiscovery
import UltraTorrent.Cleanup.RunScope
import UltraTorrent.Library.Interleaving
import UltraTorrent.Library.Table
import UltraTorrent.Cleanup.PlanStore
import UltraTorrent.Cleanup.PlanService
import UltraTorrent.Cleanup.PlanRuns
import UltraTorrent.Cleanup.OpenPlans
import UltraTorrent.Intake.TerminalStates
import UltraTorrent.Intake.Timeline
import UltraTorrent.Torrents.Listing
import UltraTorrent.Torrents.Parking
import UltraTorrent.Torrents.ReturnTrips
import UltraTorrent.Intake.Reconciler
import UltraTorrent.Library.FileTree
import UltraTorrent.Library.Text
import UltraTorrent.Intake.ImportStage
import UltraTorrent.Intake.RepeatableImport
import UltraTorrent.Files.HeldItems
import UltraTorrent.Files.Trash
import UltraTorrent.Library.HoldingArea
import UltraTorrent.Acquisition.Approvals
import UltraTorrent.Acquisition.OneDownload
import UltraTorrent.Acquisition.MissingEpisodes
import UltraTorrent.Acquisition.Rescan
import UltraTorrent.Remediation.PlanBuilder
import UltraTorrent.Remediation.Plans
import UltraTorrent.Remediation.StatusPaths
import UltraTorrent.Remediation.ApprovedWork
import UltraTorrent.Remediation.LivePlans
import UltraTorrent.Acquisition.DeadReleases
import UltraTorrent.Acquisition.StrandedEpisodes
import UltraTorrent.Network.OutboundGuard
import UltraTorrent.MediaDiscovery.AutoAddBudget
import UltraTorrent.MediaServerAnalytics.SeparateViewings
import UltraTorrent.MediaServerAnalytics.SessionPoll
import UltraTorrent.MediaIntelligence.SilencedFindings
import UltraTorrent.MediaIntelligence.UpgradeCandidates
import UltraTorrent.Subtitles.MissingScan
import UltraTorrent.Subtitles.RevertibleSync
import UltraTorrent.Jobs.PlatformJobService
import UltraTorrent.Jobs.JobPaths
import UltraTorrent.Jobs.HandlerEnds
import UltraTorrent.Jobs.OneBody
import UltraTorrent.Workflows.LoopInvariant
import UltraTorrent.Workflows.DispatchRounds
import UltraTorrent.Workflows.ResumeRaces
import UltraTorrent.Workflows.SubworkflowNesting
import UltraTorrent.Workflows.WorkflowValidator
import UltraTorrent.Workflows.PublishedVersions
import UltraTorrent.Library.TopologicalSort
import UltraTorrent.Library.Dataflow
import UltraTorrent.Workflows.ResolvedGraph
import UltraTorrent.Workflows.WorkflowSimulator
import UltraTorrent.Workflows.GraphProgram
import UltraTorrent.Workflows.SimulatedRuns
import UltraTorrent.Workflows.ExecutedRuns
import UltraTorrent.Workflows.DryRuns
import UltraTorrent.Scheduler.OpenWindows
import UltraTorrent.Scheduler.RateCeilings
import UltraTorrent.TransferLedger.ConsecutiveListings
import UltraTorrent.Jobs.JobEvents
import UltraTorrent.Jobs.ReturnedBodies
import UltraTorrent.Rtorrent.BencodeGrammar
import UltraTorrent.Rtorrent.StrictBencode
import UltraTorrent.Library.BitGroups
import UltraTorrent.Library.UriComponent
import UltraTorrent.Torrents.Magnet
import UltraTorrent.Library.Segments
import UltraTorrent.Scheduler.StagingCleanup
import UltraTorrent.Workflows.SettledExecutions
import UltraTorrent.Jobs.Checkpoints
import UltraTorrent.Workflows.EnabledWorkflows
import UltraTorrent.Cleanup.MeasuredDecisions
import UltraTorrent.Cleanup.TypedComparisons
import UltraTorrent.Cleanup.PinnedState
import UltraTorrent.Cleanup.MissedDrift
import UltraTorrent.Cleanup.UnchangedFiles
import UltraTorrent.Workflows.BoundedWaits
import UltraTorrent.Workflows.EdgePorts
import UltraTorrent.Workflows.DecidedNodes
import UltraTorrent.Workflows.FiniteLoops
import UltraTorrent.Workflows.AccountedRuns
import UltraTorrent.Workflows.SwallowedFailures
import UltraTorrent.Library.BestOf
import UltraTorrent.Cleanup.PlaybackAggregate
import UltraTorrent.Cleanup.ReimportedPlays
import UltraTorrent.Cleanup.CandidateRanking
import UltraTorrent.Library.Utf8
import UltraTorrent.Files.PreviewText
import UltraTorrent.Cleanup.CompletedScans
import UltraTorrent.Library.WhiteSpace
import UltraTorrent.Library.CanonicalPath
import UltraTorrent.Files.PathIdentity
import UltraTorrent.Library.Replacement
import UltraTorrent.MediaRenamer.RenderTemplate
import UltraTorrent.MediaRenamer.RenderedSegments
import UltraTorrent.Library.RegExp
import UltraTorrent.MediaRenamer.TorrentName
import UltraTorrent.Library.NodePath
import UltraTorrent.MediaRenamer.Languages
import UltraTorrent.MediaRenamer.FileClassification
import UltraTorrent.MediaRenamer.Planner
import UltraTorrent.Library.Passes
import UltraTorrent.MediaRenamer.CleanedBatches
import UltraTorrent.MediaRenamer.EpisodeSegment
import UltraTorrent.MediaRenamer.EpisodeTemplates
import UltraTorrent.MediaRenamer.EpisodeDestinations
import UltraTorrent.Intake.Migration
import UltraTorrent.Intake.PathMappingRegistry
import UltraTorrent.Library.IPv4Network
import UltraTorrent.Library.NumericLiteral
import UltraTorrent.Library.RunRewriting
import UltraTorrent.MediaIntelligence.QualityCompliance
import UltraTorrent.MediaIntelligence.UnknownQuality
import UltraTorrent.Common.HtmlText
import UltraTorrent.Network.Allowlist
import UltraTorrent.Subtitles.RetimedTimes
import UltraTorrent.Subtitles.RetimedCues
import UltraTorrent.Subtitles.SidecarTags
import UltraTorrent.Subtitles.Zip
import UltraTorrent.Acquisition.DecisionEngine
import UltraTorrent.Acquisition.DownloadAction
import UltraTorrent.Acquisition.NeighbouringEpisodes
import UltraTorrent.Library.Collation
import UltraTorrent.MediaIntelligence.PolicyPrecedence
import UltraTorrent.MediaIntelligence.UpgradeSearch
import UltraTorrent.Media.WatchCoalesce
import UltraTorrent.Media.DuplicateRecommendation
import UltraTorrent.MediaRenamer.SanitizedAgain
import UltraTorrent.MediaServerAnalytics.NewsletterSchedule
import UltraTorrent.Library.Pruning
import UltraTorrent.ModuleRegistry.EnabledModules
import UltraTorrent.Auth.RefreshTokens
import UltraTorrent.Auth.SignIn
import UltraTorrent.Redis.DistributedLock
import UltraTorrent.Notifications.Deliveries
import UltraTorrent.DomainEvents.EventBus
