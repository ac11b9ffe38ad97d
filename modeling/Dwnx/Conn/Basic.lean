import Dwnx.Idtr
import Dwnx.Lib.Exec
import Dwnx.Lib.KeyMap
import Dwnx.Lib.Pq
import Dwnx.Qre
import Dwnx.Ratelim
import Dwnx.RecordReader
import Dwnx.Strm

/-!
# The connection and its environment

The state of a connection is split in two: `Conn` is what the protocol functions
work on, `Reader` the position of the parser, which only `connRead` and
`connWriteConnectionClose` touch (`Endp` has both).

The environment decides what the code does not: what the callbacks do (`app`),
whether an allocation succeeds (`alloc`), the order in which the hash table is
walked (`order`, and `walk` where callbacks change the table meanwhile). What it
sees of the connection is the history (`trace`): the callbacks, the frames that are
logged, the application's calls and what they come to. With the history goes a second
record that the code does not keep, the stream objects that were freed (`closed`).
-/

namespace Dwnx

/-! ## Connection -/

structure ConnFlags where
  qxTransportParametersSeen : Bool
  qxTransportParametersSent : Bool
  earlyTransportParamsSet : Bool
  earlyDataRejected : Bool
  deriving DecidableEq

/-- The limit on the streams of one kind that the peer may open. -/
structure RxStreams where
  /-- The limit granted, and not announced yet. -/
  unsentMaxStreams : ℕ
  maxStreams : ℕ
  deriving DecidableEq

/-- The streams of one kind that the local endpoint opens. -/
structure TxStreams where
  maxStreams : ℕ
  nextStreamId : ℕ
  deriving DecidableEq

/-- The pings received: the last request, and the last one answered. -/
structure RxPing where
  lastSeq : ℤ
  lastRespSeq : ℤ
  deriving DecidableEq

/-- `dwnx_conn.rx`, less the reader. -/
structure ConnRx where
  /-- The limit granted, and not announced yet. -/
  unsentMaxOffset : ℕ
  offset : ℕ
  maxOffset : ℕ
  window : ℕ
  ping : RxPing
  bidi : RxStreams
  uni : RxStreams

/-- `dwnx_conn.tx` -/
structure ConnTx where
  strmq : Pq ℕ
  qre : Qre
  offset : ℕ
  maxOffset : ℕ
  lastBlockedOffset : ℕ
  pingLastSeq : ℤ
  bidi : TxStreams
  uni : TxStreams

/-- `dwnx_conn` -/
structure Conn where
  server : Bool
  localParams : TransportParams
  remoteParams : TransportParams
  bidiIdtr : Idtr
  uniIdtr : Idtr
  rx : ConnRx
  tx : ConnTx
  glitchRlim : Ratelim
  strms : KeyMap ℕ Strm
  /-- `dwnx_conn.log.last_ts` -/
  lastTs : ℕ
  idleTs : ℕ
  flags : ConnFlags

/-! ## History -/

/-- The functions that an application may call from a callback. -/
inductive AppCall
  | openBidiStream
  | openUniStream
  | shutdownStream (streamId appErrorCode : ℕ)
  | shutdownStreamWrite (streamId appErrorCode : ℕ)
  | shutdownStreamRead (streamId appErrorCode : ℕ)
  | extendMaxStreamOffset (streamId datalen : ℕ)
  | extendMaxOffset (datalen : ℕ)
  | extendMaxStreamsBidi (n : ℕ)
  | extendMaxStreamsUni (n : ℕ)
  deriving DecidableEq

/-- The limits of the connection on what the peer sends. -/
inductive Limit
  | data
  | streamsBidi
  | streamsUni
  deriving DecidableEq

inductive Event
  -- the callbacks, with their arguments; a code of `streamClose` is none if the
  -- flag for it is not set
  | recvTransportParams (params : TransportParams)
  | streamOpen (streamId : ℕ)
  | recvStreamData (fin : Bool) (streamId offset : ℕ) (data : List UInt8)
  | streamClose (streamId : ℕ) (rxAppErrorCode txAppErrorCode : Option ℕ)
  | streamReset (streamId finalSize appErrorCode : ℕ)
  | recvStopSending (streamId appErrorCode : ℕ)
  | extendMaxStreamData (streamId maxData : ℕ)
  | extendMaxLocalStreamsBidi (maxStreams : ℕ)
  | extendMaxLocalStreamsUni (maxStreams : ℕ)
  | streamStopSending (streamId appErrorCode : ℕ)
  | extendMaxRemoteStreamsBidi (maxStreams : ℕ)
  | extendMaxRemoteStreamsUni (maxStreams : ℕ)
  | writeStreamDataOffset (streamId offset len : ℕ)
  | recvDatagram (fin : Bool) (dgramlen offset : ℕ) (data : List UInt8)
  -- the frames logged
  | txFr (fr : Frame)
  | rxFr (fr : Frame)
  -- the calls of the application, other than from a callback
  | appCall (call : AppCall)
  | writeStream (streamId : ℕ)
  | writeDatagram
  | earlyDataRejected
  -- what the calls come to: an identifier handed out for a bidirectional stream (or, if
  -- not `bidi`, a unidirectional one), a RESET_STREAM (or, if not `reset`, a STOP_SENDING)
  -- scheduled, a limit extended, the stream that the loop over the queue comes to, and
  -- that it is about to pop, a message about to be written, the room in the record before
  -- a callback announces a frame, the data accepted, and the data received but not
  -- delivered
  | opened (bidi : Bool) (streamId : ℕ)
  | scheduled (reset : Bool) (streamId appErrorCode : ℕ)
  | extended (limit : Limit) (n : ℕ)
  | strmqTop (streamId : ℕ)
  | strmqPop (streamId : ℕ)
  | writeStreamFrame (streamId : ℕ)
  | room (left : ℕ)
  | accepted (streamId : ℕ) (data : List UInt8) (fin : Bool)
  | discarded (streamId len : ℕ)
  deriving DecidableEq

/-! ## Environment -/

/-- Where memory is allocated. -/
inductive Alloc
  | strm
  | map
  | strmq
  | idtr
  | buf
  deriving DecidableEq

/-- What a callback does: the functions it calls, and whether it returns 0. -/
structure Reply where
  calls : List AppCall
  ok : Bool
  deriving DecidableEq

structure Env where
  /-- What the callback of an event does, by what was before. -/
  app : List Event → Event → Reply
  /-- Whether an allocation succeeds. -/
  alloc : Alloc → Conn → Bool
  /-- The order in which `dwnx_map_each` visits the streams of the table. -/
  order : List ℕ → List ℕ
  order_perm : ∀ ids, (order ids).Perm ids
  /-- The visits while callbacks add to the table, which moves the entries. -/
  walk : List ℕ → List ℕ
  /-- The passes of the loop over the queue, besides one for every stream queued
      before it, that callbacks may cause. -/
  fuel : ℕ

/-- The callbacks return 0 and call nothing; memory does not run out. -/
structure Env.Passive (env : Env) : Prop where
  app : ∀ trace e, env.app trace e = ⟨[], true⟩
  alloc : ∀ a conn, env.alloc a conn = true
  walk : ∀ ids, (env.walk ids).Perm ids

/-! ## Computations -/

structure St where
  conn : Conn
  trace : List Event
  /-- The stream objects freed. -/
  closed : List Strm
  /-- The output parameters of the write functions; none is `-1`. -/
  pdatalen : Option ℕ
  paccepted : Bool

abbrev M := Exec Env Err St

/-- The position of the parser. -/
structure Reader where
  vird : VarintReader
  rcrd : RecordReader
  deriving DecidableEq

structure Endp where
  reader : Reader
  st : St

abbrev R := Exec Env Err Endp

/-- A computation that leaves the parser alone. -/
def liftM {α : Type} (x : M α) : R α := Exec.zoom Endp.st (fun st e => { e with st := st }) x

def modifyConn (f : Conn → Conn) : M Unit := modify fun s => { s with conn := f s.conn }

/-- Adds `e` to the history. -/
def emit (e : Event) : M Unit := modify fun s => { s with trace := s.trace ++ [e] }

def alloc (a : Alloc) : M Unit := do
  if !(← read).alloc a (← get).conn then throw .nomem

def assertThat (a : Assertion) (c : Prop) [Decidable c] : M Unit :=
  if c then pure () else throw (.fault (.assertion a))

/-! ## Streams -/

/-- `conn_local_stream` -/
def Conn.localStream (conn : Conn) (streamId : ℕ) : Bool :=
  decide (streamId % 2 = 1) == conn.server

/-- `dwnx_conn_find_stream` -/
def Conn.findStream (conn : Conn) (streamId : ℕ) : Option Strm := conn.strms.find streamId

/-- The stream object a pointer points to. Pointers are stream identifiers. -/
def deref (strm : ℕ) : M Strm := do
  match (← get).conn.findStream strm with
  | some s => return s
  | none => throw (.fault .useAfterFree)

/-- Writes to the stream object a pointer points to. -/
def modifyStrm (strm : ℕ) (f : Strm → Strm) : M Unit := do
  let _ ← deref strm
  modifyConn fun conn => { conn with strms := conn.strms.modify strm f }

/-! ## The queue -/

/-- `cycle_less` -/
def cycleLess (strms : KeyMap ℕ Strm) (lhs rhs : ℕ) : Bool :=
  match strms.find lhs, strms.find rhs with
  | some ls, some rs =>
    if ls.cycle = rs.cycle then ls.streamId < rs.streamId else sub64 rs.cycle ls.cycle ≤ 1
  | _, _ => false

/-- `dwnx_strm_is_tx_queued` -/
def Conn.isTxQueued (conn : Conn) (strm : ℕ) : Bool := (conn.tx.strmq.index strm).isSome

/-- `dwnx_conn_tx_strmq_top` -/
def connTxStrmqTop : M ℕ := do
  match (← get).conn.tx.strmq.q with
  | strm :: _ => return strm
  | [] => throw (.fault (.assertion .pqEmpty))

/-- `dwnx_conn_tx_strmq_first_cycle` -/
def connTxStrmqFirstCycle : M ℕ := do
  match (← get).conn.tx.strmq.q with
  | strm :: _ => return (← deref strm).cycle
  | [] => return 0

/-- The queue without its top item, whose index says that it is not queued. -/
def Conn.popStrmq (conn : Conn) (strm : ℕ) : Pq ℕ :=
  let pq := conn.tx.strmq.pop (cycleLess conn.strms)
  { pq with index := Function.update pq.index strm none }

/-- `dwnx_conn_tx_strmq_pop` -/
def connTxStrmqPop : M Unit := do
  let strm ← connTxStrmqTop
  let _ ← deref strm
  modifyConn fun conn => { conn with tx.strmq := conn.popStrmq strm }

/-- `dwnx_conn_tx_strmq_push` -/
def connTxStrmqPush (strm : ℕ) : M Unit := do
  alloc .strmq
  modifyConn fun conn =>
    { conn with tx.strmq := conn.tx.strmq.push (cycleLess conn.strms) strm }

/-- `dwnx_conn_tx_strmq_push_if_not` -/
def connTxStrmqPushIfNot (strm : ℕ) : M Unit := do
  let _ ← deref strm
  if (← get).conn.isTxQueued strm then return
  let cycle ← connTxStrmqFirstCycle
  modifyStrm strm fun s => { s with cycle := cycle }
  connTxStrmqPush strm

end Dwnx
