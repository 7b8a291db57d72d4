import Hunter.Guarantees.ChainStats
import Hunter.Guarantees.CostSamples
import Hunter.Guarantees.DeletedRepos
import Hunter.Guarantees.DepScans
import Hunter.Guarantees.HeldFixes
import Hunter.Guarantees.Ingests
import Hunter.Guarantees.LiveTrees
import Hunter.Guarantees.Overrides
import Hunter.Guarantees.Selections
import Hunter.Guarantees.StampedHarvest
import Hunter.Guarantees.Strandings
import Hunter.Guarantees.Suppressions
import Hunter.Guarantees.HarvestRecords
import Hunter.Guarantees.WellFormed
import Hunter.Scavenge.Metering
import Hunter.Scavenge.Caps
import Hunter.Guarantees.Attention
import Hunter.Guarantees.HandOvers
import Hunter.Guarantees.Streaks
import Hunter.Guarantees.Settlements
import Hunter.Guarantees.IngestCounts
import Hunter.Guarantees.Rescans
import Hunter.Guarantees.PrEnds
import Hunter.Guarantees.Branches
import Hunter.Scavenge.Priority
import Hunter.Scavenge.RetryTimes
import Hunter.Guarantees.MissingSessions
import Hunter.Guarantees.Timestamps
import Hunter.Guarantees.SshUrls
import Hunter.Guarantees.PrUrls
import Hunter.Guarantees.HostGuard
import Hunter.Guarantees.Declines
import Hunter.Guarantees.Feedback
import Hunter.Guarantees.Fingerprints
import Hunter.Effect.Oracle
import Hunter.Rotation.Refines
import Hunter.Rotation.Select
import Hunter.Guarantees.Previews
import Hunter.Calendar
import Hunter.Elide
import Hunter.Guarantees.DiffFences
import Hunter.Guarantees.FeedbackOrder
import Hunter.Guarantees.Instants
import Hunter.Guarantees.Prompts
import Hunter.Guarantees.RollForward
import Hunter.Guarantees.Recoveries
import Hunter.Guarantees.LostResumes
import Hunter.Guarantees.Sessions
import Hunter.Guarantees.Cookies
import Hunter.Guarantees.Attempts
import Hunter.Guarantees.Watermarks
import Hunter.Server.Wake
import Hunter.Guarantees.Wakes
import Hunter.Guarantees.Approvals
import Hunter.Guarantees.RepoNotes
import Hunter.Scavenge.Watchdog
