import Undelete.ForStd.RecordMap
import Undelete.ForStd.Except
import Undelete.ForStd.Intervals
import Undelete.ForStd.Wp
import Undelete.ForStd.Trace
import Undelete.ForStd.UntilStop
import Undelete.Native.Core
import Undelete.Native.Extract
import Undelete.Native.FileImage
import Undelete.Native.Source
import Undelete.Native.Ntfs.Boot
import Undelete.Native.Ntfs.Attr
import Undelete.Native.Ntfs.Stream
import Undelete.Native.Ntfs.Budget
import Undelete.Native.Ntfs.Extents
import Undelete.Native.Ntfs.Namespace
import Undelete.Native.Ntfs.Scan
import Undelete.Native.Fat.Scan
import Undelete.Native.Restore.Plan
import Undelete.Native.Restore.Stream
import Undelete.Native.Restore.Journal
import Undelete.Native.Restore.Path
import Undelete.Native.Restore.Manifest
import Undelete.Native.Restore.Job
import Undelete.Native.Restore.Transaction
import Undelete.Native.Broker.Codec
import Undelete.Native.Broker.Serve
import Undelete.Native.Broker.Client
import Undelete.Native.Carve.Jpeg
import Undelete.Native.Carve.Scan
import Undelete.Spec.EvidenceCorrect
import Undelete.Spec.ExtractCorrect
import Undelete.Spec.StreamCorrect
import Undelete.Spec.StreamTargets
import Undelete.Spec.RunlistCorrect
import Undelete.Spec.RunsCorrect
import Undelete.Spec.ExtentsCorrect
import Undelete.Spec.StreamReadCorrect
import Undelete.Spec.AnswersAccepted
import Undelete.Spec.AttrCorrect
import Undelete.Spec.MftPassCorrect
import Undelete.Spec.ScanPlanCorrect
import Undelete.Spec.PassInvariant
import Undelete.Spec.CandidateCorrect
import Undelete.Spec.PlanCorrect
import Undelete.Spec.FatExtentsCorrect
import Undelete.Spec.ScanAdmits
import Undelete.Spec.StateCorrect
import Undelete.Spec.FileImageCorrect
import Undelete.Spec.FragmentsCorrect
import Undelete.Spec.NamespaceCorrect
import Undelete.Spec.PathCorrect
import Undelete.Spec.CompleteCorrect
import Undelete.Spec.RecordCorrect
import Undelete.Spec.ResidentCorrect
import Undelete.Spec.BrokerReadCorrect
import Undelete.Spec.BrokerSessionCorrect
import Undelete.Spec.JournalEncodingCorrect
import Undelete.Spec.SidecarCorrect
import Undelete.Spec.RestoreJobCorrect
import Undelete.Spec.ChunkingCorrect
import Undelete.Spec.JpegCorrect
import Undelete.Spec.CarveScan
import Undelete.Spec.InspectExact
import Undelete.Spec.CarveExact
import Undelete.Spec.ServeCorrect
import Undelete.Spec.ServeTrace
import Undelete.Spec.ClientCorrect
import Undelete.Spec.ClientContract
import Undelete.Spec.ClientServe
import Undelete.Spec.CoverageCorrect
import Undelete.Native.Desktop.Results
import Undelete.Native.Desktop.RestorePlan
import Undelete.Spec.PlanOutcome
import Undelete.Spec.PlanTargets
import Undelete.Spec.EligibilityCorrect
import Undelete.Native.Desktop.Storage
import Undelete.Native.Desktop.Coordinator
import Undelete.Native.Desktop.RestoreJob
import Undelete.ForStd.Decimal
import Undelete.Spec.SelectionCorrect
import Undelete.Spec.ContractCorrect
import Undelete.Spec.CoordinatorSafe
import Undelete.Spec.PageOrder
import Undelete.Spec.DerivedIds
import Undelete.Spec.PageServed
import Undelete.Spec.CursorCorrect
import Undelete.Spec.MbrCorrect
import Undelete.ForStd.Reach
import Undelete.Native.Desktop.StorageScan
import Undelete.Spec.StorageScanCorrect
import Undelete.Native.Desktop.ResultsWorkspace
import Undelete.Spec.ResultsWorkspaceCorrect
import Undelete.Native.Desktop.RestoreWorkflow
import Undelete.Native.Desktop.Rows
import Undelete.Native.Desktop.Contract
import Undelete.Spec.RestoreWorkflowCorrect
import Undelete.Spec.FatChainCorrect
import Undelete.Spec.AttrListCorrect
import Undelete.Spec.TextContract
import Undelete.Spec.TrustedPrefixCorrect
import Undelete.Spec.SafePathCorrect
import Undelete.Spec.CollisionCorrect
import Undelete.Native.Deep
import Undelete.Spec.DeepMergeCorrect
import Undelete.Native.RawVolume
import Undelete.Spec.QueriesAccepted
import Undelete.Spec.RawVolumeCorrect
import Undelete.Native.Score
import Undelete.Spec.ScoreSweep
import Undelete.Spec.ScoreCorrect
import Undelete.ForStd.RecordTotal
import Undelete.Spec.RetentionCorrect
import Undelete.Native.Desktop.RestoreContract
import Undelete.Native.Desktop.RestoreWorker
import Undelete.Spec.ObserverCorrect
import Undelete.Spec.SnapshotContract
import Undelete.Spec.SnapshotsAccepted
import Undelete.Spec.StreamFaults
import Undelete.Spec.CursorProgress
