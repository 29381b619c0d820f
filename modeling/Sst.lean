import Sst.Lib.Transition
import Sst.Lib.Word
import Sst.Lib.Window
import Sst.Lib.Search
import Sst.Lib.Framing
import Sst.Flow.State
import Sst.Flow.Transmit
import Sst.Flow.Congestion
import Sst.Flow.Receive
import Sst.Flow.Trace
import Sst.Flow.Replay
import Sst.Flow.Accounting
import Sst.Flow.Duplex
import Sst.Flow.Action
import Sst.Flow.Pending
import Sst.Flow.LateAck
import Sst.Flow.Timer
import Sst.Flow.Window
import Sst.Flow.AckRun
import Sst.Flow.Coverage
import Sst.Flow.LossResponse
import Sst.Stream.Receive
import Sst.Stream.Position
import Sst.Stream.Reassembly
import Sst.Stream.Write
import Sst.Stream.Markings
import Sst.Stream.Merging
import Sst.Stream.EndOfStream
import Sst.Stream.Counters
import Sst.Stream.BoundedRead
import Sst.Stream.TxPosition
import Sst.Strm.Migration
import Sst.Strm.Scheduling
import Sst.Strm.Grant
import Sst.Strm.Alloc
import Sst.Strm.EndToEnd
import Sst.Key.Initiator
import Sst.Key.Responder
import Sst.Key.Agreement
import Sst.Key.Duplicates
import Sst.KeyHost.Cancel
import Sst.KeyHost.Final
import Sst.KeyHost.Alone
import Sst.KeyHost.HolePunch
import Sst.Reg.Provenance
import Sst.Reg.Codec
import Sst.Reg.Search
import Sst.RegCli.Stable
import Sst.RegCli.Local
import Sst.RegCli.Final
import Sst.RegCli.Endpoints
import Sst.RegCli.Malformed
import Sst.Seg.Startup
import Sst.Shell.AsyncFile
import Sst.Shell.Framing
import Sst.Shell.SendData
import Sst.Sock.Demux
import Sst.Armor.Aes
import Sst.Xdr.KeyMessage
import Sst.Ident.Binding
import Sst.Armor.Blocks
import Sst.Time.Timer
import Sst.Route.Squeeze
import Sst.Base64.Decode
import Sst.Base64.Encode
import Sst.Respond.Robust
import Sst.Sim.Runs
