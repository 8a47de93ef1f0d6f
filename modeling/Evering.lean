import Evering.Interleave.Prog
import Evering.Interleave.Machine
import Evering.Interleave.Protocol
import Evering.Interleave.Solo
import Evering.Word.Bits
import Evering.Target
import Evering.Cursor.Laps
import Evering.Pool.State
import Evering.Pool.Model
import Evering.Pool.Ledger
import Evering.Pool.Custody
import Evering.Pool.Specs
import Evering.Pool.Authority
import Evering.Queue.Control
import Evering.Queue.Model
import Evering.Queue.Invariant
import Evering.Queue.Custody
import Evering.Queue.Steps
import Evering.Queue.Specs
import Evering.Queue.RepairSpecs
import Evering.Queue.Delivery
import Evering.Queue.Repair
import Evering.Queue.Repairable
import Evering.Directory.Model
import Evering.Directory.Reading
import Evering.Directory.Finish
import Evering.Interleave.Report
import Evering.Queue.Closing
import Evering.Channel.Role
import Evering.Channel.Authority
import Evering.Directory.Tenancy
import Evering.Directory.Open
import Evering.Memory.Bitmap
import Evering.Memory.Links
import Evering.Memory.Tiling
import Evering.Talc.Model
import Evering.Talc.Bins
import Evering.Talc.Search
import Evering.Talc.Chunks
import Evering.Talc.Operations
import Evering.Talc.Claim
import Evering.Talc.Blocks
import Evering.Interleave.Focus
import Evering.Directory.Scan
import Evering.Session.Model
import Evering.Queue.Rest
import Evering.Session.Drain
import Evering.Session.Runs
import Evering.Session.Quiescent
import Evering.Session.Reap
import Evering.Root.Participants
import Evering.Signals.Model
import Evering.Signals.Wake
import Evering.Header.Admit
import Evering.Signals.Waiters
import Evering.Header.Mapped
import Evering.Pool.Geometry
import Evering.Header.Record
import Evering.Session.Open
import Evering.Interleave.Shows
import Evering.Queue.Reapers
import Evering.Directory.Identity
import Evering.Directory.Rollback
import Evering.Schema
import Evering.Talc.Sizes
import Evering.Talc.Complete
import Evering.Bisect
import Evering.Pool.Create
import Evering.Pool.Recorded
import Evering.Pool.Reserve
import Evering.Interleave.Straight
import Evering.Typed.Model
import Evering.Typed.Received
import Evering.Typed.RoundTrip
import Evering.Directory.FailStop
import Evering.Directory.Failure
import Evering.Talc.Availability
import Evering.Typed.Identity
import Evering.Word.Bytes
import Evering.Channel.Wire
import Evering.Handoff.Frame
import Evering.Handoff.Unix
import Evering.Handoff.Windows
import Evering.Session.Construct
import Evering.Queue.Busy
import Evering.Runtime.Ready
