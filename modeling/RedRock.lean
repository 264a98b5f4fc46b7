import RedRock.Reentry
import RedRock.Admission
import RedRock.MasterStream
import RedRock.RdbPipe
import RedRock.Backlog
import RedRock.AofFeed
import RedRock.AofReplay
import RedRock.AofDiff
import RedRock.ForkService
import RedRock.RewriteRelease
import RedRock.CurrentClient
import RedRock.CheckAof
import RedRock.RequestStream
import RedRock.Watch
import RedRock.BlockedPops
import RedRock.AggregatesFilled
import RedRock.SlotIndex
import RedRock.SlotOwnership
import RedRock.QuicklistTrim
import RedRock.ElectionSafety
import RedRock.StreamRuns
import RedRock.CheckArgs
import RedRock.PoolRuns
import RedRock.DumpSafe
import RedRock.ScanType
import RedRock.BlockedTarget
import RedRock.SortResidency
import RedRock.RawIntset
import RedRock.Bitops
import RedRock.BulkTransfer
import RedRock.IntegerText
import RedRock.Quoting
import RedRock.Strings
import RedRock.ExpireTimes
import RedRock.Hyperloglog
