import Dwnx.Conn.Recv

/-!
# Writing records

A write function starts a record unless one is under construction, beginning
with the frames the connection has to send (`connWriteCtrlFrames`), then adds the
application's message, and either asks for more or finishes the record.
-/

namespace Dwnx

/-! ## Frames -/

/-- `dwnx_qre_encode_frame`, on the record of the connection. -/
def encodeFrame (fr : Frame) : M Unit := do
  let qre ← Exec.ofExcept ((← get).conn.tx.qre.encodeFrame fr)
  modifyConn fun conn => { conn with tx.qre := qre }
  emit (.txFr fr)

/-- Runs `x`, and says whether it ended for lack of room. -/
def isNobuf (x : M Unit) : M Bool :=
  tryCatch (do x; return false) fun e => if e = .nobuf then pure true else throw e

/-- `dwnx_conn_write_data_blocked` -/
def connWriteDataBlocked : M Unit := do
  let tx := (← get).conn.tx
  -- not blocked, or the peer has been told at this offset
  if tx.offset < tx.maxOffset ∨ tx.offset = tx.lastBlockedOffset then return
  assertThat .dataBlocked (tx.offset = tx.maxOffset)
  encodeFrame (.dataBlocked ⟨tx.offset⟩)
  modifyConn fun conn => { conn with tx.lastBlockedOffset := conn.tx.offset }

/-- `dwnx_conn_write_stream_data_blocked` -/
def connWriteStreamDataBlocked (strm : ℕ) : M Unit := do
  let s ← deref strm
  if s.tx.offset < s.tx.maxOffset ∨ s.tx.offset = s.tx.lastBlockedOffset then return
  assertThat .streamDataBlocked (s.tx.offset = s.tx.maxOffset)
  encodeFrame (.streamDataBlocked ⟨s.streamId, s.tx.offset⟩)
  modifyStrm strm fun s => { s with tx.lastBlockedOffset := s.tx.offset }

/-- Writes the frames about the credit of a stream, or leaves them for later. -/
def writeBlocked (strm : ℕ) : M Unit :=
  tryCatch (do connWriteDataBlocked; connWriteStreamDataBlocked strm) fun e => do
    if e.isFault then throw e
    -- the frames have no other way to fail
    assertThat .nobuf (e = .nobuf)
    modifyStrm strm fun s => { s with flags.sendStreamDataBlocked := true }
    connTxStrmqPushIfNot strm

/-- The callback that comes before the frame that it is about. -/
def announce (e : Event) : M Unit := do
  emit (.room (← get).conn.tx.qre.left)
  callback e

/-- `dwnx_conn_write_max_streams`, for the bidirectional streams. -/
def writeMaxStreamsBidi : M Unit := do
  let bidi := (← get).conn.rx.bidi
  Exec.when (bidi.unsentMaxStreams > bidi.maxStreams) do
    announce (.extendMaxRemoteStreamsBidi bidi.unsentMaxStreams)
    -- the callback may have raised the limit further
    encodeFrame (.maxStreams ⟨FrameType.maxStreamsBidi, (← get).conn.rx.bidi.unsentMaxStreams⟩)
    modifyConn fun conn => { conn with rx.bidi.maxStreams := conn.rx.bidi.unsentMaxStreams }

/-- `dwnx_conn_write_max_streams`, for the unidirectional streams. -/
def writeMaxStreamsUni : M Unit := do
  let uni := (← get).conn.rx.uni
  Exec.when (uni.unsentMaxStreams > uni.maxStreams) do
    announce (.extendMaxRemoteStreamsUni uni.unsentMaxStreams)
    -- the callback may have raised the limit further
    encodeFrame (.maxStreams ⟨FrameType.maxStreamsUni, (← get).conn.rx.uni.unsentMaxStreams⟩)
    modifyConn fun conn => { conn with rx.uni.maxStreams := conn.rx.uni.unsentMaxStreams }

/-- `dwnx_conn_write_max_streams` -/
def connWriteMaxStreams : M Unit := do
  writeMaxStreamsBidi
  writeMaxStreamsUni

/-! ## Control frames -/

/-- Writes the RESET_STREAM frame of the stream on top of the queue. True if the
    stream is closed by it. -/
def writeResetStream (strm : ℕ) : M Bool := do
  let s ← deref strm
  if !s.flags.sendResetStream then return false
  encodeFrame (.resetStream ⟨s.streamId, s.tx.resetStreamAppErrorCode, s.tx.offset⟩)
  modifyStrm strm fun s => { s with flags.sendResetStream := false }
  if !(← deref strm).shouldCloseStream then return false
  connTxStrmqPop
  connCloseStream strm
  return true

/-- Writes the STOP_SENDING frame of a stream, unless it has been overtaken. -/
def writeStopSending (strm : ℕ) : M Unit := do
  let s ← deref strm
  Exec.when s.flags.sendStopSending do
    Exec.when (!s.flags.shutRd) do
      announce (.streamStopSending s.streamId s.tx.stopSendingAppErrorCode)
      -- the code is read again, the callback may have changed it
      let s ← deref strm
      encodeFrame (.stopSending ⟨s.streamId, s.tx.stopSendingAppErrorCode⟩)
    modifyStrm strm fun s => { s with flags.sendStopSending := false }

/-- Writes the MAX_STREAM_DATA frame of a stream. -/
def writeMaxStreamData (strm : ℕ) : M Unit := do
  let s ← deref strm
  Exec.when (!s.flags.shutRd ∧ !s.flags.stopSending ∧ s.shouldSendMaxStreamData) do
    encodeFrame (.maxStreamData ⟨s.streamId, s.rx.unsentMaxOffset⟩)
    modifyStrm strm fun s => { s with rx.maxOffset := s.rx.unsentMaxOffset }

/-- Writes the frames about the credit of a stream that were left for later. -/
def writeStreamDataBlocked (strm : ℕ) : M Unit := do
  let s ← deref strm
  Exec.when s.flags.sendStreamDataBlocked do
    Exec.when (!s.flags.shutWr) do
      connWriteDataBlocked
      connWriteStreamDataBlocked strm
    modifyStrm strm fun s => { s with flags.sendStreamDataBlocked := false }

/-- One pass over the stream on top of the queue. -/
def writeStrmqTop : M Unit := do
  let strm ← connTxStrmqTop
  emit (.strmqTop strm)
  if ← writeResetStream strm then return
  writeStopSending strm
  writeMaxStreamData strm
  writeStreamDataBlocked strm
  emit (.strmqPop strm)
  -- whichever stream is on top by now
  connTxStrmqPop

/-- The loop over the queue. -/
def writeStrmq : ℕ → M Unit
  | 0 => do if (← get).conn.tx.strmq.q ≠ [] then throw (.fault .outOfFuel)
  | n + 1 => do
    if (← get).conn.tx.strmq.q = [] then return
    writeStrmqTop
    writeStrmq n

/-- The MAX_DATA frame of `dwnx_conn_write_ctrl_frames`. -/
def writeMaxData : M Unit := do
  let rx := (← get).conn.rx
  -- `conn_should_send_max_data`
  Exec.when (rx.window < mul64 4 (sub64 rx.unsentMaxOffset rx.maxOffset)) do
    encodeFrame (.maxData ⟨rx.unsentMaxOffset⟩)
    modifyConn fun conn => { conn with rx.maxOffset := conn.rx.unsentMaxOffset }

/-- The QX_PING response of `dwnx_conn_write_ctrl_frames`. -/
def writeQxPing : M Unit := do
  let ping := (← get).conn.rx.ping
  Exec.when (ping.lastSeq > ping.lastRespSeq) do
    encodeFrame (.qxPing ⟨FrameType.qxPingResponse, ping.lastSeq.toNat⟩)
    modifyConn fun conn => { conn with rx.ping.lastRespSeq := conn.rx.ping.lastSeq }

/-- `dwnx_conn_write_ctrl_frames` -/
def connWriteCtrlFrames : M Unit := do
  writeMaxData
  writeQxPing
  writeStrmq ((← read).fuel + (← get).conn.tx.strmq.q.length)
  connWriteMaxStreams

/-! ## Messages -/

/-- `conn_enforce_flow_control`: as much of `len` bytes as there is credit for. -/
def Conn.enforceFlowControl (conn : Conn) (s : Strm) (len : ℕ) : ℕ :=
  -- `conn_fc_credits`
  min len (min (sub64 s.tx.maxOffset s.tx.offset) (sub64 conn.tx.maxOffset conn.tx.offset))

/-- The part of `dwnx_conn_write_stream_frame` for a stream without credit. -/
def writeStreamNoCredit (strm : ℕ) : M Unit := do
  writeBlocked strm
  let s ← deref strm
  -- no error where only the connection is out of credit
  if s.tx.maxOffset = s.tx.offset then throw .streamDataBlocked

/-- The part of `dwnx_conn_write_stream_frame` that writes the first `wdatalen`
    bytes; there is credit for `ndatalen`. -/
def writeStreamData (strm : ℕ) (finFlag : Bool) (datav : Vecs) (ndatalen wdatalen : ℕ) :
    M Unit := do
  let datalen := datav.flatten.length
  let s ← deref strm
  let fin := finFlag && datalen == wdatalen
  let flags := FrameType.streamLenBit + (if s.tx.offset = 0 then 0 else FrameType.streamOffBit) +
    (if fin then FrameType.streamFinBit else 0)
  tryCatch (encodeFrame (.stream ⟨flags, fin, s.streamId, s.tx.offset, wdatalen, datav⟩))
    fun e => throw (if e.isFault then e else .fault .unreachable)
  callback (.writeStreamDataOffset s.streamId s.tx.offset wdatalen)
  modifyStrm strm fun s => { s with
    flags.anySent := true
    tx.offset := add64 s.tx.offset wdatalen }
  modifyConn fun conn => { conn with tx.offset := add64 conn.tx.offset wdatalen }
  if fin then do
    modifyStrm strm fun s => { s with flags.shutWr := true }
    connCloseStreamIfShutRdwr strm
  -- cut short for credit, not for room
  else Exec.when (ndatalen < datalen) (writeBlocked strm)
  emit (.accepted strm (datav.flatten.take wdatalen) fin)
  modify fun st => { st with pdatalen := some wdatalen }

/-- `dwnx_conn_write_stream_frame` -/
def connWriteStreamFrame (strm : ℕ) (finFlag : Bool) (datav : Vecs) : M Unit := do
  emit (.writeStreamFrame strm)
  let datalen := datav.flatten.length
  let s ← deref strm
  let conn := (← get).conn
  let ndatalen := conn.enforceFlowControl s datalen
  -- an empty STREAM frame is allowed
  if ndatalen = 0 ∧ datalen ≠ 0 then writeStreamNoCredit strm
  else
    match ← Exec.ofExcept (conn.tx.qre.streamMaxDatalen s.streamId s.tx.offset ndatalen) with
    | none => throw .nobuf
    | some wdatalen =>
      if wdatalen = 0 ∧ datalen ≠ 0 then throw .nobuf
      else writeStreamData strm finFlag datav ndatalen wdatalen

/-- `dwnx_conn_write_datagram_frame` -/
def connWriteDatagramFrame (datav : Vecs) : M Unit := do
  encodeFrame (.datagram ⟨FrameType.datagramLen, datav.flatten.length, datav⟩)
  modify fun st => { st with paccepted := true }

/-- `dwnx_vmsg` -/
inductive Vmsg
  | stream (strm : ℕ) (finFlag : Bool) (data : Vecs)
  | datagram (data : Vecs)
  deriving DecidableEq

/-- The message of a write function. If it is written with room to spare, the
    application is asked for more. -/
def writeVmsg (vmsg : Vmsg) : M Unit := do
  let nobuf ← isNobuf (match vmsg with
    | .stream strm finFlag data => connWriteStreamFrame strm finFlag data
    | .datagram data => connWriteDatagramFrame data)
  Exec.when (!nobuf) do
    if (← get).conn.tx.qre.left ≠ 0 then throw .writeMore

/-! ## Records -/

/-- `dwnx_conn_write_transport_params` -/
def connWriteTransportParams : M Unit := do
  encodeFrame (.qxTransportParameters (← get).conn.localParams)

/-- Starts a record with the frames the connection has to send. True if there is
    no room for all of them. -/
def startRecord (destlen : ℕ) : M Bool := do
  let qre ← Exec.ofExcept (Qre.start destlen)
  modifyConn fun conn => { conn with tx.qre := qre }
  Exec.when (!(← get).conn.flags.qxTransportParametersSent) do
    -- parameters that do not fit leave no record behind
    tryCatch connWriteTransportParams fun e => do
      modifyConn fun conn => { conn with tx.qre := conn.tx.qre.reset }
      throw e
    modifyConn fun conn => { conn with flags.qxTransportParametersSent := true }
  isNobuf connWriteCtrlFrames

/-- `dwnx_qre_final`, on the record of the connection. -/
def finalRecord (ts : ℕ) : M (List UInt8) := do
  let record ← Exec.ofExcept (← get).conn.tx.qre.final
  modifyConn fun conn => { conn with tx.qre := conn.tx.qre.reset }
  Exec.when (record ≠ []) (modifyConn fun conn => { conn with idleTs := ts })
  return record

/-- `dwnx_conn_write_vmsg`; the result is the record written to the buffer. -/
def connWriteVmsg (destlen : ℕ) (vmsg : Option Vmsg) (ts : ℕ) : M (List UInt8) := do
  if destlen ≤ qreRecordlenSize then throw .nobuf
  let nobuf ← if (← get).conn.tx.qre.started then pure false else startRecord destlen
  match vmsg with
  | none => pure ()
  | some vmsg => Exec.when (!nobuf) (writeVmsg vmsg)
  -- the message may have raised the limits
  let _ ← isNobuf connWriteMaxStreams
  finalRecord ts

/-- `conn_update_timestamp` -/
def connUpdateTimestamp (ts : ℕ) : M Unit := do
  assertThat .timestamp ((← get).conn.lastTs ≤ ts)
  modifyConn fun conn => { conn with lastTs := ts }

/-- The stream identifier `-1`, with which no stream data is written. -/
def noStream : ℕ := uint64Max

/-- `dwnx_vec_len_varint`; none if the length is not a varint. -/
def vecLenVarint (datav : Vecs) : Option ℕ :=
  datav.foldlM
    (fun res data =>
      if data.length > sub64 maxVarint res then none else some (add64 res data.length))
    0

/-- The message of a call of `dwnx_conn_writev_stream`: none if there is nothing
    to be sent on the stream. -/
def streamVmsg (streamId : ℕ) (finFlag : Bool) (datav : Vecs) : M (Option Vmsg) := do
  let conn := (← get).conn
  match conn.findStream streamId with
  | none => throw .streamNotFound
  | some s =>
    if s.flags.shutWr then throw .streamShutWr
    match vecLenVarint datav with
    | none => throw .invalidArgument
    | some datalen =>
      -- an empty frame is sent only to open the stream or to end it
      if datalen = 0 ∧ !finFlag ∧ s.flags.anySent then return none
      if datalen > sub64 maxVarint s.tx.offset ∨ datalen > sub64 maxVarint conn.tx.offset then
        throw .invalidArgument
      return some (.stream streamId finFlag datav)

/-- `dwnx_conn_writev_stream` -/
def connWritevStream (destlen : ℕ) (finFlag : Bool) (streamId : ℕ) (datav : Vecs) (ts : ℕ) :
    M (List UInt8) := do
  emit (.writeStream streamId)
  connUpdateTimestamp ts
  modify fun st => { st with pdatalen := none }
  let vmsg ← if streamId = noStream then pure none else streamVmsg streamId finFlag datav
  connWriteVmsg destlen vmsg ts

/-- `dwnx_conn_write_record` -/
def connWriteRecord (destlen ts : ℕ) : M (List UInt8) :=
  connWritevStream destlen false noStream [] ts

/-- `dwnx_conn_writev_datagram` -/
def connWritevDatagram (destlen : ℕ) (datav : Vecs) (ts : ℕ) : M (List UInt8) := do
  emit .writeDatagram
  connUpdateTimestamp ts
  modify fun st => { st with paccepted := false }
  let maxDatagramFrameSize := (← get).conn.remoteParams.maxDatagramFrameSize
  if maxDatagramFrameSize = 0 then throw .invalidState
  match vecLenVarint datav with
  | none => throw .invalidArgument
  | some datalen =>
    let framelen ← Exec.ofExcept (frameDatagramFramelen datalen)
    if min maxDatagramFrameSize defaultMaxRecordSize < framelen then throw .invalidArgument
    connWriteVmsg destlen (some (.datagram datav)) ts

end Dwnx
