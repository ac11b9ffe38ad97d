import Dwnx.Conn.App

/-!
# Received frames

What a frame does once it is complete, one function for every kind of frame. The
functions about a stream first check that the peer may name it, then find its
object or, for a stream that the peer opens, create it.
-/

namespace Dwnx

/-! ## Closing streams -/

/-- `dwnx_conn_close_stream` -/
def connCloseStream (strm : ℕ) : M Unit := do
  callback (← deref strm).closeEvent
  let s ← deref strm
  modify fun st => { st with closed := st.closed ++ [s] }
  let conn := (← get).conn
  modifyConn fun conn => { conn with strms := conn.strms.erase strm }
  -- the object is freed, and the queue may not go on to hold it
  match conn.tx.strmq.index strm with
  | none => pure ()
  | some i =>
    assertThat .pqIndex (conn.tx.strmq.q[i]? = some strm)
    modifyConn fun c => { c with tx.strmq := c.tx.strmq.remove (cycleLess conn.strms) strm }

/-- `dwnx_conn_close_stream_if_shut_rdwr` -/
def connCloseStreamIfShutRdwr (strm : ℕ) : M Unit := do
  if !(← deref strm).shouldCloseStream then return
  connCloseStream strm

/-! ## Glitches -/

/-- Takes a token for a frame that is legal but useless. -/
def connDrainGlitch (ts : ℕ) : M Unit := do
  let (rlim, ok) ← Exec.ofExcept ((← get).conn.glitchRlim.drain 1 ts)
  modifyConn fun conn => { conn with glitchRlim := rlim }
  if !ok then throw .internal

/-! ## Finding the stream of a frame -/

/-- The peer may send data on the stream: the check of the frames that it sends
    as the sender of data. -/
def Conn.checkRx (conn : Conn) (streamId : ℕ) : Except Err Unit :=
  if bidiStream streamId then
    if conn.localStream streamId then
      if conn.tx.bidi.nextStreamId ≤ streamId then .error .streamState else .ok ()
    else if conn.rx.bidi.maxStreams < ordStreamId streamId then .error .streamLimit
    else .ok ()
  else if conn.localStream streamId then .error .streamState
  else if conn.rx.uni.maxStreams < ordStreamId streamId then .error .streamLimit
  else .ok ()

/-- The peer may receive data on the stream: the check of the frames that it
    sends as the receiver of data. -/
def Conn.checkTx (conn : Conn) (streamId : ℕ) : Except Err Unit :=
  if bidiStream streamId then
    if conn.localStream streamId then
      if conn.tx.bidi.nextStreamId ≤ streamId then .error .streamState else .ok ()
    else if conn.rx.bidi.maxStreams < ordStreamId streamId then .error .streamLimit
    else .ok ()
  else if !conn.localStream streamId ∨ conn.tx.uni.nextStreamId ≤ streamId then
    .error .streamState
  else .ok ()

def Conn.idtr (conn : Conn) (streamId : ℕ) : Idtr :=
  if bidiStream streamId then conn.bidiIdtr else conn.uniIdtr

def Conn.setIdtr (conn : Conn) (streamId : ℕ) (idtr : Idtr) : Conn :=
  if bidiStream streamId then { conn with bidiIdtr := idtr } else { conn with uniIdtr := idtr }

/-- Opens the identifier of a stream of the peer: false if it was opened before. -/
def connIdtrOpen (streamId : ℕ) : M Bool := do
  match (← get).conn.idtr streamId |>.openId streamId with
  | .ok idtr =>
    alloc .idtr
    modifyConn fun conn => conn.setIdtr streamId idtr
    return true
  | .error (.fault f) => throw (.fault f)
  | .error e =>
    assertThat .streamInUse (e = .streamInUse)
    return false

/-- Creates the object of a stream of the peer, and tells the application. -/
def connAcceptStream (streamId : ℕ) : M Unit := do
  connCreateStream streamId
  callback (.streamOpen streamId)

/-! ## Frames from the sender of data -/

/-- The part of `conn_recv_stream` after the stream is found. -/
def recvStream (strm : ℕ) (fr : FrameStream) : M Unit := do
  let s ← deref strm
  -- the data of a stream comes in order
  if s.flags.shutRd ∨ s.rx.lastOffset ≠ fr.offset then throw .proto
  let frEndOffset := add64 fr.offset fr.len
  let conn := (← get).conn
  if s.rx.maxOffset < frEndOffset ∨ sub64 conn.rx.maxOffset conn.rx.offset < fr.len then
    throw .flowControl
  modifyConn fun conn => { conn with rx.offset := add64 conn.rx.offset fr.len }
  modifyStrm strm fun s => { s with rx.lastOffset := frEndOffset }
  Exec.when fr.fin do
    -- otherwise the last piece of the data ends the stream
    Exec.when (fr.len = 0) do
      modifyStrm strm fun s => { s with flags.shutRd := true }
      callback (.recvStreamData true strm fr.offset [])
    connCloseStreamIfShutRdwr strm

/-- `conn_recv_stream` -/
def connRecvStream (fr : FrameStream) : M Unit := do
  let conn := (← get).conn
  Exec.ofExcept (conn.checkRx fr.streamId)
  if sub64 maxVarint fr.len < fr.offset then throw .flowControl
  Exec.when (conn.findStream fr.streamId = none) do
    if conn.localStream fr.streamId then throw .proto
    if !(← connIdtrOpen fr.streamId) then throw .proto
    connAcceptStream fr.streamId
  recvStream fr.streamId fr

/-- `conn_recv_stream_data` -/
def connRecvStreamData (strm : ℕ) (fin : Bool) (offset : ℕ) (data : List UInt8) : M Unit := do
  let s ← deref strm
  if s.flags.stopSending then do
    -- data that nobody reads gives its credit back at once
    emit (.discarded strm data.length)
    connExtendMaxOffset data.length
  else callback (.recvStreamData fin strm offset data)
  Exec.when fin do
    modifyStrm strm fun s => { s with flags.shutRd := true }
    connCloseStreamIfShutRdwr strm

/-- The part of `conn_recv_reset_stream` after the stream is found. -/
def recvResetStream (strm : ℕ) (fr : FrameResetStream) : M Unit := do
  let s ← deref strm
  if s.flags.shutRd then throw .proto
  if s.rx.lastOffset ≠ fr.finalSize then throw .finalSize
  callback (.streamReset fr.streamId fr.finalSize fr.appErrorCode)
  modifyStrm strm fun s => { s with
    flags.shutRd := true
    flags.resetStreamRecved := true
    flags.rxAppErrorCodeSet := true
    rx.appErrorCode := fr.appErrorCode }
  connCloseStreamIfShutRdwr strm

/-- `conn_recv_reset_stream` -/
def connRecvResetStream (fr : FrameResetStream) : M Unit := do
  let conn := (← get).conn
  Exec.ofExcept (conn.checkRx fr.streamId)
  Exec.when (conn.findStream fr.streamId = none) do
    if conn.localStream fr.streamId then throw .proto
    if !(← connIdtrOpen fr.streamId) then throw .proto
    if fr.finalSize ≠ 0 then throw .finalSize
    -- the stream is reset before its object is created
    connAcceptStream fr.streamId
  recvResetStream fr.streamId fr

/-- `conn_recv_stream_data_blocked` -/
def connRecvStreamDataBlocked (fr : FrameStreamDataBlocked) : M Unit := do
  let conn := (← get).conn
  Exec.ofExcept (conn.checkRx fr.streamId)
  match conn.findStream fr.streamId with
  | none =>
    if conn.localStream fr.streamId then throw .proto
    if ← Exec.ofExcept ((conn.idtr fr.streamId).isOpen fr.streamId) then throw .proto
    if fr.maxStreamData ≠ 0 then throw .proto
  | some s => if s.flags.shutRd ∨ s.rx.lastOffset ≠ fr.maxStreamData then throw .proto

/-! ## Frames from the receiver of data -/

/-- The part of `conn_recv_stop_sending` after the stream is found. -/
def recvStopSending (strm : ℕ) (fr : FrameStopSending) (ts : ℕ) : M Unit := do
  if (← deref strm).flags.stopSendingRecved then connDrainGlitch ts
  else do
    callback (.recvStopSending fr.streamId fr.appErrorCode)
    -- no RESET_STREAM is required after a FIN or a RESET_STREAM of our own
    Exec.when (!(← deref strm).flags.shutWr) do
      modifyStrm strm fun s => { s with flags.resetStream := true }
      connResetStream strm fr.appErrorCode
    modifyStrm strm fun s => { s with flags.shutWr := true, flags.stopSendingRecved := true }

/-- `conn_recv_stop_sending` -/
def connRecvStopSending (fr : FrameStopSending) (ts : ℕ) : M Unit := do
  let conn := (← get).conn
  Exec.ofExcept (conn.checkTx fr.streamId)
  if conn.findStream fr.streamId = none then
    -- the stream is closed already: the frame is of no use
    if conn.localStream fr.streamId then connDrainGlitch ts
    else if !(← connIdtrOpen fr.streamId) then connDrainGlitch ts
    else do
      connAcceptStream fr.streamId
      recvStopSending fr.streamId fr ts
  else recvStopSending fr.streamId fr ts

/-- The part of `conn_recv_max_stream_data` after the stream is found. -/
def recvMaxStreamData (strm : ℕ) (fr : FrameMaxStreamData) (ts : ℕ) : M Unit := do
  if (← deref strm).tx.maxOffset ≥ fr.maxStreamData then throw .proto
  modifyStrm strm fun s => { s with tx.maxOffset := fr.maxStreamData }
  if (← deref strm).flags.shutWr then connDrainGlitch ts
  else callback (.extendMaxStreamData fr.streamId fr.maxStreamData)

/-- `conn_recv_max_stream_data` -/
def connRecvMaxStreamData (fr : FrameMaxStreamData) (ts : ℕ) : M Unit := do
  let conn := (← get).conn
  Exec.ofExcept (conn.checkTx fr.streamId)
  if conn.findStream fr.streamId = none then
    -- the stream is closed already: the frame is of no use
    if conn.localStream fr.streamId then connDrainGlitch ts
    else if !(← connIdtrOpen fr.streamId) then connDrainGlitch ts
    else do
      connAcceptStream fr.streamId
      recvMaxStreamData fr.streamId fr ts
  else recvMaxStreamData fr.streamId fr ts

/-! ## Frames about the connection -/

/-- `conn_recv_max_data` -/
def connRecvMaxData (fr : FrameMaxData) : M Unit := do
  if (← get).conn.tx.maxOffset ≥ fr.maxData then throw .proto
  modifyConn fun conn => { conn with tx.maxOffset := fr.maxData }

/-- `conn_recv_max_streams` -/
def connRecvMaxStreams (fr : FrameMaxStreams) : M Unit := do
  if fr.maxStreams > maxStreams then throw .frameEncoding
  if fr.type = FrameType.maxStreamsBidi then
    if (← get).conn.tx.bidi.maxStreams ≥ fr.maxStreams then throw .proto
    modifyConn fun conn => { conn with tx.bidi.maxStreams := fr.maxStreams }
    callback (.extendMaxLocalStreamsBidi fr.maxStreams)
  else
    if (← get).conn.tx.uni.maxStreams ≥ fr.maxStreams then throw .proto
    modifyConn fun conn => { conn with tx.uni.maxStreams := fr.maxStreams }
    callback (.extendMaxLocalStreamsUni fr.maxStreams)

/-- `conn_recv_streams_blocked` -/
def connRecvStreamsBlocked (fr : FrameStreamsBlocked) : M Unit := do
  let conn := (← get).conn
  if fr.type = FrameType.streamsBlockedBidi then
    if fr.maxStreams > conn.rx.bidi.maxStreams then throw .streamLimit
  else if fr.maxStreams > conn.rx.uni.maxStreams then throw .streamLimit

/-- `conn_recv_data_blocked` -/
def connRecvDataBlocked (fr : FrameDataBlocked) : M Unit := do
  if fr.maxData > (← get).conn.rx.maxOffset then throw .flowControl

/-- `conn_recv_qx_ping` -/
def connRecvQxPing (fr : FrameQxPing) (ts : ℕ) : M Unit := do
  let conn := (← get).conn
  if fr.type = FrameType.qxPingResponse then
    if conn.tx.pingLastSeq < fr.seq then throw .proto
  else
    if conn.rx.ping.lastSeq ≥ fr.seq then throw .proto
    connDrainGlitch ts
    modifyConn fun conn => { conn with rx.ping.lastSeq := fr.seq }

/-! ## Transport parameters -/

/-- `dwnx_conn_validate_early_transport_params` -/
def connValidateEarlyTransportParams (early : TransportParams) : M Unit := do
  let conn := (← get).conn
  let params := conn.remoteParams
  assertThat .client (conn.server = false)
  -- what early data was sent under may not be taken back
  if early.initialMaxData > params.initialMaxData ∨
      early.initialMaxStreamDataBidiLocal > params.initialMaxStreamDataBidiLocal ∨
      early.initialMaxStreamDataBidiRemote > params.initialMaxStreamDataBidiRemote ∨
      early.initialMaxStreamDataUni > params.initialMaxStreamDataUni ∨
      early.initialMaxStreamsBidi > params.initialMaxStreamsBidi ∨
      early.initialMaxStreamsUni > params.initialMaxStreamsUni ∨
      early.maxDatagramFrameSize > params.maxDatagramFrameSize then
    throw .proto

/-- `set_max_stream_offset`, for a stream that the walk comes to. -/
def setMaxStreamOffset (strm : ℕ) : M Unit := do
  let conn := (← get).conn
  match conn.findStream strm with
  | none => pure ()
  | some s =>
    assertThat .client (conn.server = false)
    assertThat .localStream (conn.localStream s.streamId)
    let maxOffset :=
      if bidiStream s.streamId then conn.remoteParams.initialMaxStreamDataBidiRemote
      else conn.remoteParams.initialMaxStreamDataUni
    Exec.when (s.tx.maxOffset < maxOffset) do
      modifyStrm strm fun s => { s with tx.maxOffset := maxOffset }
      if (← deref strm).flags.shutWr then return
      callback (.extendMaxStreamData s.streamId maxOffset)

/-- `conn_recv_transport_params` -/
def connRecvTransportParams (data : List UInt8) : M Unit := do
  let conn := (← get).conn
  let params ← Exec.ofExcept (transportParamsDecode data)
  modifyConn fun conn => { conn with remoteParams := params }
  emit (.rxFr (.qxTransportParameters params))
  if params.maxRecordSize < defaultMaxRecordSize then throw .malformedTransportParam
  Exec.when conn.flags.earlyTransportParamsSet (connValidateEarlyTransportParams conn.remoteParams)
  modifyConn fun conn => { conn with
    tx.bidi.maxStreams := params.initialMaxStreamsBidi
    tx.uni.maxStreams := params.initialMaxStreamsUni
    tx.maxOffset := params.initialMaxData }
  -- the streams opened in early data
  Exec.when (!conn.server) do
    ((← read).walk (← get).conn.strms.keys).forM setMaxStreamOffset
  callback (.recvTransportParams params)
  let max := (← get).conn.tx.bidi.maxStreams
  Exec.when (max ≠ 0) (callback (.extendMaxLocalStreamsBidi max))
  let max := (← get).conn.tx.uni.maxStreams
  Exec.when (max ≠ 0) (callback (.extendMaxLocalStreamsUni max))

/-- `conn_recv_datagram` -/
def connRecvDatagram (fin : Bool) (dgramlen offset : ℕ) (data : List UInt8) : M Unit :=
  callback (.recvDatagram fin dgramlen offset data)

end Dwnx
