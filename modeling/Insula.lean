import Insula.LeaseStatements
import Insula.LeaseResurrection
import Insula.LeaseExclusion
import Insula.UpgradeRepin
import Insula.UpgradePlans
import Insula.CronExclusion
import Insula.OpenRestores
import Insula.PowerDnsWrites
import Insula.ResticStamps
import Insula.ResticPrunes
import Insula.BundleCompleteness
import Insula.ClusterConcurrency
import Insula.DeliveryOnce
import Insula.DeliveryScan
import Insula.DispatcherOnce
import Insula.RefreshRotation
import Insula.TotpEnabled
import Insula.TotpAttempts
import Insula.GatewaySessions
import Insula.WafExclusions
import Insula.RegistryAddresses
import Insula.DigestPasses
import Insula.ArtefactPrunes
import Insula.WatchCacheVouching
import Insula.ReservedHostnames
import Insula.RelocationTickets
import Insula.PeerFileRuns
import Insula.DeployInputs
import Insula.MigrationRuns
import Insula.ResourceEdits
import Insula.IntervalSets
import Insula.DataExport
import Insula.BandwidthCap
import Insula.QuiesceRestore
import Insula.LifecycleCompletion
import Insula.LifecycleHistory
import Insula.HostMigrationOrder
import Insula.ResticTotals
import Insula.AutomationRuns
import Insula.RestoreAllOrNothing
import Insula.FailureStreak
import Insula.DeploymentPages
import Insula.SetRoundTrips
import Insula.TrustedExclusions
import Insula.TargetCapacity
import Insula.ImageNormalForm
import Insula.RecordImports
import Insula.ComposePorts
import Insula.ResourceAllocation
import Insula.K3sUpgrades
import Insula.ReleaseSelection
import Insula.HookOrder
import Insula.CachedOffsets
import Insula.CronForward
import Insula.UnquiesceHolds
import Insula.Base32
import Insula.SessionLimits
import Insula.DirtyGovernor
import Insula.ChunkedUpload
import Insula.CloneSite
import Insula.CanonicalJson
import Insula.ResultGrids
import Insula.ListCursors
import Insula.TenantSearch
import Insula.ChallengeNames
import Insula.VersionOrder
import Insula.UpgradeChain
