import Kmon.Verified.Run
import Kmon.Verified.Pool
import Kmon.Verified.GoMap
import Kmon.Ports.Config
import Kmon.Ports.InfoStore
import Kmon.Ports.PidListener
import Kmon.Ports.PidTracking
import Kmon.Ports.NotifyOrder
import Kmon.Verified.GoSlice
import Kmon.Verified.Layout
import Kmon.Ports.Records
import Kmon.Ports.PerfRecords
import Kmon.Ports.ControlRecords
import Kmon.Ports.MapEntries
import Kmon.Ports.BiostatProbe
import Kmon.Verified.ReadReset
import Kmon.Ports.ExportRounds
import Kmon.Verified.BucketTable
import Kmon.Ports.RewriteLoops
import Kmon.Ports.ContainerCache
import Kmon.Ports.EventBuffer
import Kmon.Ports.TcpreqProbe
import Kmon.Ports.ConnectionEvents
import Kmon.Ports.AcceptThreads
import Kmon.Ports.TracedConnections
import Kmon.Ports.ControlValues
import Kmon.Ports.ConfigDelivery
import Kmon.Ports.Points
import Kmon.Ports.InfluxExport
import Kmon.Ports.TcpreqCollector
import Kmon.Ports.LiveConnections
import Kmon.Verified.KeyedStream
import Kmon.Ports.StateDurations
import Kmon.Ports.CacheEntries
import Kmon.Ports.StoreHistory
import Kmon.Verified.Text
import Kmon.Ports.Stacks
import Kmon.Ports.OffcpuCollector
import Kmon.Ports.TcpdropCollector
import Kmon.Ports.StackFields
import Kmon.Ports.StoredPoints
import Kmon.Ports.MissingCollectors
import Kmon.Ports.FcountRuns
import Kmon.Ports.OffcpuProbe
import Kmon.Verified.ElementTable
import Kmon.Ports.CompletionSteps
import Kmon.Ports.CompletionRaces
import Kmon.Ports.ListenerOrder
import Kmon.Ports.ExporterSetup
import Kmon.Ports.FileReader
import Kmon.Ports.ListenerDeltas
import Kmon.Verified.DrainLoop
import Kmon.Ports.BiostatCollector
import Kmon.Ports.DrainedTables
import Kmon.Ports.ConnectionStreams
import Kmon.Ports.DropPoints
import Kmon.Ports.RequestFlags
import Kmon.Ports.HistogramPoints
import Kmon.Ports.LatencyBins
import Kmon.Ports.WarnTimes
import Kmon.Verified.Blocks
import Kmon.Ports.FileWrites
import Kmon.Ports.PodPids
import Kmon.Verified.BitSmear
import Kmon.Ports.Log2Table
import Kmon.Verified.Lines
import Kmon.Ports.KernelSymbols
import Kmon.Verified.Json
import Kmon.Ports.ElasticBulk
import Kmon.Verified.Runes
import Kmon.Ports.ElasticResponse
import Kmon.Verified.WhileLoop
import Kmon.Ports.WaitPeriod
import Kmon.Verified.Writes
import Kmon.Ports.LongAddresses
import Kmon.Verified.LockOrder
import Kmon.Ports.Goroutines
import Kmon.Ports.LockDiscipline
import Kmon.Ports.SetupOrder
import Kmon.Ports.DataRaces
import Kmon.Ports.Registrations
import Kmon.Ports.ComingLoops
import Kmon.Ports.Terminates
import Kmon.Ports.ProgramEnd
import Kmon.Ports.HandOvers
import Kmon.Ports.Settling
import Kmon.Ports.Shutdown
import Kmon.Verified.Exporter
import Kmon.Verified.Weight
import Kmon.Ports.OffcpuTotals
import Kmon.Verified.Words
import Kmon.Ports.StackBytes
import Kmon.Ports.ManagerEntries
import Kmon.Verified.Atoi
import Kmon.Ports.CgroupPids
import Kmon.Ports.BiostatTotals
import Kmon.Ports.TracedPids
import Kmon.Ports.DurationTotals
import Kmon.Ports.FcountTotals
