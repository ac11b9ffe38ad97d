import Dwnx.Lib.Exec
import Dwnx.Lib.KeyMap
import Dwnx.Lib.Pq
import Dwnx.PriorityQueue
import Dwnx.Map
import Dwnx.SkipList
import Dwnx.Ksl.Keys
import Dwnx.GapSet
import Dwnx.Room
import Dwnx.Ticket
import Dwnx.Varint
import Dwnx.Basic
import Dwnx.Conv
import Dwnx.TransportParams
import Dwnx.Params
import Dwnx.Idtr
import Dwnx.RecordReader
import Dwnx.Qre
import Dwnx.Ratelim
import Dwnx.Strm
import Dwnx.Conn.Basic
import Dwnx.Conn.App
import Dwnx.Conn.Recv
import Dwnx.Conn.Write
import Dwnx.Conn.Read
import Dwnx.Conn.Api
import Dwnx.Lts.Run
import Dwnx.Lts.Names
import Dwnx.Refine.Write
import Dwnx.Refine.Read
import Dwnx.Refine.Api
import Dwnx.Runs
import Dwnx.Life
import Dwnx.Wire
import Dwnx.Frd
import Dwnx.Codec
import Dwnx.Lts.Limits
import Dwnx.Lts.Ends
import Dwnx.Lts.Notices
import Dwnx.Lts.Hearing
import Dwnx.Lts.Sending
import Dwnx.Lts.Credit
import Dwnx.Reading
import Dwnx.Flow
import Dwnx.Limits
import Dwnx.Notices
import Dwnx.Hearing
import Dwnx.Credit
import Dwnx.Ctrl
import Dwnx.Accounting
import Dwnx.Format
import Dwnx.Scan
import Dwnx.Canon
import Dwnx.Bucket
import Dwnx.Fmt
import Dwnx.Lib.Duplex
import Dwnx.Lib.Rising
import Dwnx.Emit
import Dwnx.Records
import Dwnx.Chunks
import Dwnx.Logged
import Dwnx.Accepted
import Dwnx.Taken
import Dwnx.Net
import Dwnx.Delivered
import Dwnx.Lts.Allowed
import Dwnx.Lts.Window
import Dwnx.Allowed
import Dwnx.Grams
import Dwnx.Due
import Dwnx.Progress
