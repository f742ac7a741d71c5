import Fix8.Lib.Act
import Fix8.Lib.Loop
import Fix8.Lib.Run
import Fix8.Lib.Tiling
import Fix8.Lib.OrdMap
import Fix8.Lib.Lanes
import Fix8.Codec.Encode
import Fix8.Codec.Proof.Checksum
import Fix8.Session.Proof.Gap
import Fix8.Session.Proof.Partition
import Fix8.Session.Proof.Recovery
import Fix8.Session.Proof.Control
import Fix8.Session.Proof.Batch
import Fix8.Persist.Proof.Reload
import Fix8.Persist.Proof.Range
import Fix8.Persist.Proof.FailedPut
import Fix8.Session.Proof.Unique
import Fix8.Session.Proof.Agreement
import Fix8.Codec.Proof.Seqnum
import Fix8.Codec.Proof.Scan
import Fix8.Codec.Proof.IntText
import Fix8.Codec.Proof.DateTime
import Fix8.Codec.Proof.Frame
import Fix8.Codec.Proof.Tag
import Fix8.Codec.Proof.Accepted
import Fix8.Compiler.Proof.Selection
import Fix8.Compiler.Proof.Sharing
import Fix8.Compiler.Proof.Merge
import Fix8.Compiler.Proof.Ordering
import Fix8.Compiler.Proof.Separator
import Fix8.Session.Proof.Admission
import Fix8.Session.Proof.Silence
import Fix8.Session.Proof.Failure
import Fix8.Session.Proof.ResendState
import Fix8.Codec.Proof.Length
import Fix8.Codec.Proof.Data
import Fix8.Connection.Proof.Buffered
import Fix8.Connection.Proof.Framing
import Fix8.Codec.Proof.Pointers
import Fix8.Codec.Proof.Stream
import Fix8.Codec.Proof.Placed
import Fix8.Codec.Proof.Assembled
import Fix8.Codec.Proof.Cycle
import Fix8.Codec.Proof.Copy
import Fix8.Codec.Proof.Clone
import Fix8.Codec.Proof.Regular
import Fix8.Codec.Proof.Forced
import Fix8.Codec.Proof.Decoded
import Fix8.Codec.Proof.Move
import Fix8.Codec.Proof.Realm
import Fix8.Codec.Proof.Inserts
import Fix8.Codec.Proof.RangeInsert
import Fix8.Codec.Proof.DateReads
import Fix8.Session.Proof.Schedule
import Fix8.Compiler.Proof.Find
import Fix8.Persist.Proof.Rotate
import Fix8.Session.Proof.Failover
import Fix8.Session.Proof.SessionID
import Fix8.Compiler.Proof.Xlate
import Fix8.Compiler.Proof.Attrs
import Fix8.Session.Proof.Timer
import Fix8.Session.Proof.Logger
import Fix8.Queue.Proof.Ring
import Fix8.Queue.Proof.Unbounded
import Fix8.Queue.Proof.Mpmc
import Fix8.Codec.Proof.RoundTrip
import Fix8.Connection.Proof.Transfer
import Fix8.Connection.Proof.Pipeline
import Fix8.Session.Proof.Writer
import Fix8.Codec.Proof.PassThrough
import Fix8.Codec.Proof.Ends
