import Snapevent.Core.Book
import Snapevent.Lib.KWayMerge
import Snapevent.Load.Event
import Snapevent.Load.Merge
import Snapevent.Load.Lanes
import Snapevent.Load.Grouping
import Snapevent.Lib.KeySort
import Snapevent.Load.Dedup
import Snapevent.Load.Stream
import Snapevent.Process.Verify
import Snapevent.Process.Ticker
import Snapevent.Load.Replay
import Snapevent.Load.RoundTrip
import Snapevent.Load.Range
import Snapevent.Lib.FoldM
import Snapevent.Process.Collected
import Snapevent.EndToEnd.GapOrder
import Snapevent.Kalshi.SeqTracker
import Snapevent.Kalshi.Session
import Snapevent.Load.Abandoned
import Snapevent.Kalshi.GapCompleteness
import Snapevent.Cli.Capture
import Snapevent.Process.Run
import Snapevent.EndToEnd.DropSafety
import Snapevent.Kalshi.Handled
import Snapevent.EndToEnd.WrittenLanes
import Snapevent.EndToEnd.Announcement
import Snapevent.Process.VerifyRun
import Snapevent.Process.VerifyWindow
import Snapevent.Process.VerifyVerdicts
import Snapevent.Process.VerifyTrust
import Snapevent.Process.VerifyCalls
import Snapevent.Process.VerifyLag
import Snapevent.EndToEnd.WrittenLag
import Snapevent.EndToEnd.Conservation
import Snapevent.Lib.Windows
import Snapevent.Process.Coverage
import Snapevent.KdpData.Coverage
import Snapevent.Load.Accepted
import Snapevent.EndToEnd.MergedTicker
import Snapevent.EndToEnd.HoleReplay
import Snapevent.EndToEnd.SuspectRule
import Snapevent.Kalshi.Connections
import Snapevent.EndToEnd.History
import Snapevent.Kalshi.Continuity
import Snapevent.Lib.Json
import Snapevent.Lib.JsonTorn
import Snapevent.Core.Units
import Snapevent.Lib.JsonInteger
import Snapevent.Lib.SortedMap
import Snapevent.Core.Value
import Snapevent.Kalshi.Protocol
import Snapevent.Kalshi.Verbatim
import Snapevent.Kalshi.Rest
import Snapevent.Cli.Scheduled
import Snapevent.Cli.EventTime
import Snapevent.Cli.Universe
import Snapevent.Cli.UniverseRun
import Snapevent.Cli.Pipeline
import Snapevent.Core.Stored
import Snapevent.Lib.Lines
import Snapevent.Lib.Utf8
import Snapevent.Store.Jsonl
import Snapevent.Store.Days
import Snapevent.Store.Torn
import Snapevent.Lib.TornLog
import Snapevent.Cli.Checkpoint
import Snapevent.Cli.Backfill
import Snapevent.Cli.BackfillCheckpoint
import Snapevent.EndToEnd.TradeReplay
import Snapevent.Store.TornDirectory
import Snapevent.EndToEnd.BackfilledTapes
import Snapevent.Core.ParseUnits
import Snapevent.Lib.MapTotal
import Snapevent.Core.ExactBook
import Snapevent.Core.Bookkeeping
import Snapevent.EndToEnd.PositiveLevels
import Snapevent.EndToEnd.ReplayArithmetic
import Snapevent.Kalshi.Backoff
import Snapevent.Kalshi.Reconnect
import Snapevent.Cli.EventStart
import Snapevent.EndToEnd.Provenance
import Snapevent.Cli.SweepPlan
import Snapevent.Cli.Schedule
import Snapevent.Kalshi.RateLimit
import Snapevent.Process.Display
import Snapevent.Cli.StrikeBand
import Snapevent.Cli.Discovery
import Snapevent.Process.Output
import Snapevent.Lib.Machine
import Snapevent.Deploy.Archive
import Snapevent.Deploy.Removal
import Snapevent.Deploy.RawBackup
import Snapevent.EndToEnd.BookTop
import Snapevent.Load.BookAt
import Snapevent.Load.Manifest
import Snapevent.KdpData.Index
import Snapevent.Lib.Strides
import Snapevent.Deploy.StreamBackfill
import Snapevent.Deploy.StreamedChunks
import Snapevent.Lib.MaxBy
import Snapevent.Cli.Hourly
import Snapevent.Cli.HourlyRun
import Snapevent.Cli.PipelineHalt
import Snapevent.Cli.CaptureUnit
import Snapevent.Lib.Throttle
import Snapevent.Deploy.Health
import Snapevent.KdpData.Tars
import Snapevent.Lib.Serial
import Snapevent.Cli.ScheduledRun
