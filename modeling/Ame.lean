import Ame.Theorems.QueueCapacity
import Ame.Theorems.RootOutcome
import Ame.Theorems.PageOrder
import Ame.Theorems.TerminalFrames
import Ame.Theorems.Publication
import Ame.Theorems.PlanOrder
import Ame.Theorems.PlanAccepted
import Ame.Theorems.Handoff
import Ame.Theorems.WriteAdmission
import Ame.Theorems.PreviewStore
import Ame.Theorems.IdentityCoverage
import Ame.Theorems.RequestCodec
import Ame.Theorems.ResponseCodec
import Ame.Theorems.VolumeResponse
import Ame.Theorems.Settlement
import Ame.Theorems.DeltaBatch
import Ame.Theorems.Nomination
import Ame.Theorems.Cohorts
import Ame.Theorems.Scheme
import Ame.Theorems.SimilarGroups
import Ame.Theorems.GalleryPaging
import Ame.Theorems.TimeJump
import Ame.Theorems.ContextGraph
import Ame.Theorems.MergeOrder
import Ame.Theorems.QueueFreshness
import Ame.Theorems.PageCoverage
import Ame.Theorems.UsnParsing
import Ame.Theorems.RawPages
import Ame.Theorems.RegistryRuns
import Ame.Theorems.TextSearch
