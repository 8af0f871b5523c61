import KogmoRtdb.Lib.Lts
import KogmoRtdb.Lib.Extent
import KogmoRtdb.Lib.Bytes
import KogmoRtdb.Lib.ByteList
import KogmoRtdb.Lib.Ring
import KogmoRtdb.Lib.Calendar
import KogmoRtdb.Lib.Scanf
import KogmoRtdb.Lib.TreeWalk
import KogmoRtdb.Lib.Archive
import KogmoRtdb.Types
import KogmoRtdb.Db
import KogmoRtdb.DataPath.Search
import KogmoRtdb.DataPath.Record
import KogmoRtdb.DataPath.WordModel
import KogmoRtdb.DataPath.TornRead
import KogmoRtdb.DataPath.CopySize
import KogmoRtdb.DataPath.Objdata
import KogmoRtdb.DataPath.HistSearch
import KogmoRtdb.DataPath.CommitOrder
import KogmoRtdb.Lib.AllocLog
import KogmoRtdb.Lib.Prog
import KogmoRtdb.Meta.World
import KogmoRtdb.Meta.Searchinfo
import KogmoRtdb.Meta.Purge
import KogmoRtdb.Meta.Delete
import KogmoRtdb.Meta.Insert
import KogmoRtdb.Meta.InsertExits
import KogmoRtdb.Meta.Init
import KogmoRtdb.Meta.LockDiscipline
import KogmoRtdb.Meta.Effects
import KogmoRtdb.Meta.Api
import KogmoRtdb.Meta.Ownership
import KogmoRtdb.Meta.OwnRing
import KogmoRtdb.Meta.Lifetime
import KogmoRtdb.Meta.DeleteTree
import KogmoRtdb.Meta.SearchLists
import KogmoRtdb.Meta.PurgeRetry
import KogmoRtdb.Meta.RefusedFrees
import KogmoRtdb.Meta.SlotAccess
import KogmoRtdb.Meta.SlotRings
import KogmoRtdb.Meta.SlotSafety
import KogmoRtdb.Procs.PurgeProcs
import KogmoRtdb.Procs.Cleanup
import KogmoRtdb.Meta.Retention
import KogmoRtdb.Procs.Retention
import KogmoRtdb.Lib.Tally
import KogmoRtdb.Meta.BlockSizes
import KogmoRtdb.Meta.Accounting
import KogmoRtdb.Meta.ObjectIds
import KogmoRtdb.Meta.Unique
import KogmoRtdb.Meta.Visibility
import KogmoRtdb.Meta.DumpTree
import KogmoRtdb.Meta.SearchDiff
import KogmoRtdb.Meta.NameBuffer
import KogmoRtdb.Record.AviIdx
import KogmoRtdb.Record.AviCodec
import KogmoRtdb.DataPath.ObjdataPtr
import KogmoRtdb.DataPath.ObjdataSlot
import KogmoRtdb.Meta.InvalidIds
import KogmoRtdb.Lib.Marking
import KogmoRtdb.Meta.Cascade
import KogmoRtdb.Procs.Disconnect
import KogmoRtdb.Trace.Queue
import KogmoRtdb.DataPath.Writer
import KogmoRtdb.DataPath.PtrWrite
import KogmoRtdb.DataPath.ReadDeny
import KogmoRtdb.DataPath.Waitnext
import KogmoRtdb.DataPath.Withhold
import KogmoRtdb.DataPath.DataTimeSearch
import KogmoRtdb.DataPath.CommitStamps
import KogmoRtdb.DataPath.RingHistory
import KogmoRtdb.DataPath.SlotWalk
import KogmoRtdb.DataPath.SlotJump
import KogmoRtdb.DataPath.Visible
import KogmoRtdb.Record.Recorder
import KogmoRtdb.Record.Fidelity
import KogmoRtdb.Record.Passes
import KogmoRtdb.Record.MetaEvents
import KogmoRtdb.Record.AviRaw
import KogmoRtdb.Record.Logging
import KogmoRtdb.Record.TimeIdx
import KogmoRtdb.Record.TimeIdxFile
import KogmoRtdb.Record.OidMap
import KogmoRtdb.Time.Text
import KogmoRtdb.Udp.Protocol
import KogmoRtdb.Udp.Server
import KogmoRtdb.Udp.Buffers
import KogmoRtdb.History.Stored
import KogmoRtdb.History.Table
import KogmoRtdb.History.Refinement
import KogmoRtdb.History.Repeat
import KogmoRtdb.Udp.Database
import KogmoRtdb.Udp.Client
import KogmoRtdb.Udp.Library
import KogmoRtdb.Meta.DeleteCascade
import KogmoRtdb.Record.PlayBuffers
import KogmoRtdb.Record.PlayPairs
import KogmoRtdb.Record.PlayFile
import KogmoRtdb.Record.RoundTrip
import KogmoRtdb.Lib.Gaps
import KogmoRtdb.Lib.Circular
import KogmoRtdb.Rtmalloc.Suba
import KogmoRtdb.Rtmalloc.FreeList
import KogmoRtdb.Rtmalloc.FirstFit
import KogmoRtdb.Rtmalloc.Joining
import KogmoRtdb.Rtmalloc.Serving
import KogmoRtdb.Rtmalloc.Heap
import KogmoRtdb.Rtmalloc.Contract
import KogmoRtdb.Rtmalloc.Memory
import KogmoRtdb.Rtmalloc.Running
import KogmoRtdb.Lib.Monitor
import KogmoRtdb.Notify.Blocks
import KogmoRtdb.Notify.RingSteps
import KogmoRtdb.Notify.Numbers
import KogmoRtdb.Notify.Placement
import KogmoRtdb.Notify.Wakeups
import KogmoRtdb.Notify.Shared
import KogmoRtdb.Notify.Committers
import KogmoRtdb.Notify.Table
import KogmoRtdb.Notify.Waiters
import KogmoRtdb.Notify.System
import KogmoRtdb.Notify.Locks
import KogmoRtdb.Notify.TableSteps
import KogmoRtdb.Notify.WatchedSlot
import KogmoRtdb.Notify.Rounds
import KogmoRtdb.Notify.Deleted
