import Dwnx.Conn.Basic

/-!
# What the application may call at any time

Opening and shutting down streams, and extending windows: the functions that an
application may also call from within a callback (`connApply`), and then the
callbacks themselves.
-/

namespace Dwnx

/-! ## Creating streams -/

/-- The limits of a new stream, received and sent. -/
def Conn.initialMaxStreamData (conn : Conn) (streamId : ℕ) : ℕ × ℕ :=
  if bidiStream streamId then
    if conn.localStream streamId then
      (conn.localParams.initialMaxStreamDataBidiLocal,
        conn.remoteParams.initialMaxStreamDataBidiRemote)
    else
      (conn.localParams.initialMaxStreamDataBidiRemote,
        conn.remoteParams.initialMaxStreamDataBidiLocal)
  else if conn.localStream streamId then (0, conn.remoteParams.initialMaxStreamDataUni)
  else (conn.localParams.initialMaxStreamDataUni, 0)

/-- The object of a new stream; one direction of a unidirectional stream is shut. -/
def Conn.newStrm (conn : Conn) (streamId : ℕ) : Strm :=
  let (maxRxOffset, maxTxOffset) := conn.initialMaxStreamData streamId
  let strm := Strm.init streamId maxRxOffset maxTxOffset
  -- a unidirectional stream has one direction only
  if bidiStream streamId then strm
  else if conn.localStream streamId then { strm with flags.shutRd := true }
  else { strm with flags.shutWr := true }

/-- `dwnx_conn_create_stream` -/
def connCreateStream (streamId : ℕ) : M Unit := do
  alloc .strm
  alloc .map
  -- `dwnx_map_insert` asserts that the key is new
  assertThat .mapKey ((← get).conn.findStream streamId = none)
  modifyConn fun conn => { conn with
    strms := conn.strms.insert streamId (conn.newStrm streamId)
    tx.strmq.index := Function.update conn.tx.strmq.index streamId none }

/-- `dwnx_conn_get_streams_bidi_left`, `dwnx_conn_get_streams_uni_left` -/
def TxStreams.left (streams : TxStreams) : ℕ :=
  let n := ordStreamId streams.nextStreamId
  if n > streams.maxStreams then 0 else streams.maxStreams - n + 1

/-- `dwnx_conn_open_bidi_stream`, with the identifier it stores for the caller. -/
def connOpenBidiStream : M ℕ := do
  if (← get).conn.tx.bidi.left = 0 then throw .streamIdBlocked
  let streamId := (← get).conn.tx.bidi.nextStreamId
  connCreateStream streamId
  modifyConn fun conn => { conn with tx.bidi.nextStreamId := streamId + 4 }
  return streamId

/-- `dwnx_conn_open_uni_stream`, with the identifier it stores for the caller. -/
def connOpenUniStream : M ℕ := do
  if (← get).conn.tx.uni.left = 0 then throw .streamIdBlocked
  let streamId := (← get).conn.tx.uni.nextStreamId
  connCreateStream streamId
  modifyConn fun conn => { conn with tx.uni.nextStreamId := streamId + 4 }
  return streamId

/-! ## Shutting streams down -/

/-- `conn_reset_stream` -/
def connResetStream (strm appErrorCode : ℕ) : M Unit := do
  modifyStrm strm fun s => { s with
    flags.sendResetStream := true
    flags.txResetStreamAppErrorCodeSet := true
    tx.resetStreamAppErrorCode := appErrorCode }
  emit (.scheduled true strm appErrorCode)
  connTxStrmqPushIfNot strm

/-- `conn_stop_sending` -/
def connStopSending (strm appErrorCode : ℕ) : M Unit := do
  modifyStrm strm fun s => { s with
    flags.sendStopSending := true
    flags.txStopSendingAppErrorCodeSet := true
    tx.stopSendingAppErrorCode := appErrorCode }
  emit (.scheduled false strm appErrorCode)
  connTxStrmqPushIfNot strm

/-- `conn_shutdown_stream_write` -/
def shutdownStreamWrite (strm appErrorCode : ℕ) : M Unit := do
  if (← deref strm).flags.shutWr then return
  modifyStrm strm fun s => { s with flags.shutWr := true, flags.resetStream := true }
  connResetStream strm appErrorCode

/-- `conn_shutdown_stream_read` -/
def shutdownStreamRead (strm appErrorCode : ℕ) : M Unit := do
  let s ← deref strm
  -- asked for before, or the peer has ended the stream
  if s.flags.stopSending ∨ s.flags.shutRd then return
  modifyStrm strm fun s => { s with flags.stopSending := true }
  connStopSending strm appErrorCode

/-- `dwnx_conn_shutdown_stream` -/
def connShutdownStream (streamId appErrorCode : ℕ) : M Unit := do
  let conn := (← get).conn
  if conn.findStream streamId = none then return
  Exec.when (bidiStream streamId ∨ !conn.localStream streamId)
    (shutdownStreamRead streamId appErrorCode)
  Exec.when (bidiStream streamId ∨ conn.localStream streamId)
    (shutdownStreamWrite streamId appErrorCode)

/-- `dwnx_conn_shutdown_stream_write` -/
def connShutdownStreamWrite (streamId appErrorCode : ℕ) : M Unit := do
  let conn := (← get).conn
  if !bidiStream streamId ∧ !conn.localStream streamId then throw .invalidArgument
  if conn.findStream streamId = none then return
  shutdownStreamWrite streamId appErrorCode

/-- `dwnx_conn_shutdown_stream_read` -/
def connShutdownStreamRead (streamId appErrorCode : ℕ) : M Unit := do
  let conn := (← get).conn
  if !bidiStream streamId ∧ conn.localStream streamId then throw .invalidArgument
  if conn.findStream streamId = none then return
  shutdownStreamRead streamId appErrorCode

/-! ## Extending windows -/

/-- The limit `m` raised by `n`, and no further than to `bound`. -/
def extendLimit (bound m n : ℕ) : ℕ := if n > bound ∨ m > bound - n then bound else m + n

/-- `dwnx_conn_extend_max_stream_offset` -/
def connExtendMaxStreamOffset (streamId datalen : ℕ) : M Unit := do
  let conn := (← get).conn
  if !bidiStream streamId ∧ conn.localStream streamId then throw .invalidArgument
  if conn.findStream streamId = none then return
  modifyStrm streamId fun s => { s with
    rx.unsentMaxOffset := extendLimit maxVarint s.rx.unsentMaxOffset datalen }
  let s ← deref streamId
  Exec.when (!s.flags.shutRd ∧ !s.flags.stopSending ∧ s.shouldSendMaxStreamData)
    (connTxStrmqPushIfNot streamId)

/-- `dwnx_conn_extend_max_offset` -/
def connExtendMaxOffset (datalen : ℕ) : M Unit := modifyConn fun conn =>
  { conn with rx.unsentMaxOffset := extendLimit maxVarint conn.rx.unsentMaxOffset datalen }

/-- `dwnx_conn_extend_max_streams_bidi` -/
def connExtendMaxStreamsBidi (n : ℕ) : M Unit := modifyConn fun conn =>
  { conn with rx.bidi.unsentMaxStreams := extendLimit maxStreams conn.rx.bidi.unsentMaxStreams n }

/-- `dwnx_conn_extend_max_streams_uni` -/
def connExtendMaxStreamsUni (n : ℕ) : M Unit := modifyConn fun conn =>
  { conn with rx.uni.unsentMaxStreams := extendLimit maxStreams conn.rx.uni.unsentMaxStreams n }

/-! ## Callbacks -/

/-- Carries out a call of the application. -/
def connApply : AppCall → M Unit
  | .openBidiStream => do
    let streamId ← connOpenBidiStream
    emit (.opened true streamId)
  | .openUniStream => do
    let streamId ← connOpenUniStream
    emit (.opened false streamId)
  | .shutdownStream streamId appErrorCode => connShutdownStream streamId appErrorCode
  | .shutdownStreamWrite streamId appErrorCode => connShutdownStreamWrite streamId appErrorCode
  | .shutdownStreamRead streamId appErrorCode => connShutdownStreamRead streamId appErrorCode
  | .extendMaxStreamOffset streamId datalen => connExtendMaxStreamOffset streamId datalen
  | .extendMaxOffset datalen => do
    emit (.extended .data datalen)
    connExtendMaxOffset datalen
  | .extendMaxStreamsBidi n => do
    emit (.extended .streamsBidi n)
    connExtendMaxStreamsBidi n
  | .extendMaxStreamsUni n => do
    emit (.extended .streamsUni n)
    connExtendMaxStreamsUni n

/-- Carries out a call from a callback. The return code goes to the application,
    which makes its callback fail if the code is fatal. -/
def connApplyWithin (call : AppCall) : M Unit :=
  tryCatch (connApply call) fun e =>
    if e.isFault then throw e else if e.isFatal then throw .callbackFailure else pure ()

/-- Runs the callback of `e`, one of the `conn_call_*` functions. -/
def callback (e : Event) : M Unit := do
  let reply := (← read).app (← get).trace e
  -- the event is logged before the calls that the callback makes
  emit e
  reply.calls.forM connApplyWithin
  if !reply.ok then throw .callbackFailure

/-- The codes that `conn_call_stream_close` passes on: a code of the local
    endpoint is preferred to one received. -/
def Strm.closeEvent (strm : Strm) : Event :=
  .streamClose strm.streamId
    (if strm.flags.txStopSendingAppErrorCodeSet then some strm.tx.stopSendingAppErrorCode
      else if strm.flags.rxAppErrorCodeSet then some strm.rx.appErrorCode
      else none)
    (if strm.flags.txResetStreamAppErrorCodeSet then some strm.tx.resetStreamAppErrorCode
      else none)

end Dwnx
