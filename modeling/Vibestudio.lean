import Vibestudio.ContentAddressing.CanonicalJson
import Vibestudio.ContentAddressing.SnapshotDigest
import Vibestudio.ContentAddressing.WorktreeManifest
import Vibestudio.Durable.SchemaInstall
import Vibestudio.Rpc.StreamCodec
import Vibestudio.Rpc.FrameDecoder
import Vibestudio.Rpc.WireJson
import Vibestudio.Server.AcquisitionClaims
import Vibestudio.Server.AdmissionRuns
import Vibestudio.Server.BuildSlotQueue
import Vibestudio.Server.EvalKernelDrain
import Vibestudio.Server.GrantWithdrawals
import Vibestudio.Server.NetworkDestination
import Vibestudio.Server.PanelAttemptRuns
import Vibestudio.Server.PanelLeaseTable
import Vibestudio.Server.ProtectedMainLocks
import Vibestudio.Server.PublicationJournal
import Vibestudio.Server.SchedulerQuiescence
import Vibestudio.Server.SessionRegistry
import Vibestudio.Server.SharedBuildCoordinator
import Vibestudio.Server.StateTrigger
import Vibestudio.Server.TaskAuthorityRegistry
import Vibestudio.Shared.AuthorityEvaluation
import Vibestudio.Shared.CanonicalJson
import Vibestudio.Shared.ChannelEnvelopePaging
import Vibestudio.Shared.EntityCache
import Vibestudio.Shared.LeaseViews
import Vibestudio.Shared.LineDiff
import Vibestudio.Shared.TreeObjects
import Vibestudio.Shared.WorktreeTree
import Vibestudio.WorkspaceState.PanelPlacement
import Vibestudio.WorkspaceState.PanelTreePages
import Vibestudio.WorkspaceState.SlotPointers
import Vibestudio.WorkspaceState.SourceSchedules
import Vibestudio.Server.ConnectionRegistry
import Vibestudio.ContentAddressing.Sha256Numbers
import Vibestudio.Server.VersionClosure
import Vibestudio.Shared.SubtreeHash
import Vibestudio.Js.LiveMap
import Vibestudio.Rpc.RecoveryCoordinator
import Vibestudio.Shared.KeyedSerializer
import Vibestudio.Server.IdleGrants
import Vibestudio.Sequence.Comparator
import Vibestudio.Git.TrackedRefs
import Vibestudio.Shared.ConnectionGrants
import Vibestudio.Server.UnitAdmissionStore
import Vibestudio.Server.UnitAdmissionTransactions
import Vibestudio.Server.UnitAdmissionRuns
