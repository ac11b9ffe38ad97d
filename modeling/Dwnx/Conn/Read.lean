import Dwnx.Conn.Write

/-!
# Reading bytes

`connRead` takes a chunk of the bytes of the peer, cut anywhere. A step of its
loop (`connReadStep`) reads one field, as far as the bytes go, and either
returns from the call or leaves the rest of the chunk. Where the source falls
through to the next field, the loop comes back here: both stop when no bytes are
left.
-/

namespace Dwnx

/-! ## The reader -/

def modifyReader (f : Reader → Reader) : R Unit := modify fun e => { e with reader := f e.reader }

def modifyRcrd (f : RecordReader → RecordReader) : R Unit :=
  modifyReader fun reader => { reader with rcrd := f reader.rcrd }

def setState (state : ReadState) : R Unit := modifyRcrd fun rcrd => { rcrd with state := state }

def modifyFr (f : FrameUnion → FrameUnion) : R Unit :=
  modifyRcrd fun rcrd => { rcrd with fr := f rcrd.fr }

/-- What a step of the loop leaves: the rest of the chunk, or none if the call
    returns 0. -/
abbrev Rest := Option (List UInt8)

/-- Goes `n` bytes further, in the chunk and in the record. -/
def consume (n : ℕ) (p : List UInt8) : R (List UInt8) := do
  if p.length < n ∨ (← get).reader.rcrd.recordLeft < n then throw (.fault .outOfBounds)
  modifyRcrd fun rcrd => { rcrd with recordLeft := rcrd.recordLeft - n }
  return p.drop n

/-- Goes `n` bytes further, in the chunk, the record and the field. -/
def consumeField (n : ℕ) (p : List UInt8) : R (List UInt8) := do
  if (← get).reader.rcrd.fieldLeft < n then throw (.fault .outOfBounds)
  modifyRcrd fun rcrd => { rcrd with fieldLeft := rcrd.fieldLeft - n }
  consume n p

/-- Reads a field that is a varint, and goes on with it and its length once it is
    complete. -/
def readVarint (p : List UInt8) (k : ℕ → ℕ → List UInt8 → R Rest) : R Rest := do
  let reader := (← get).reader
  let len := reader.rcrd.avail p.length
  let (nread, vird) :=
    varintReaderRead reader.vird (p.take len) (reader.rcrd.recordLeft == len)
  modifyReader fun reader => { reader with vird := vird }
  match nread with
  | .error (.fault f) => throw (.fault f)
  | .error _ => throw .frameEncoding
  | .ok nread =>
    let p ← consume nread p
    if !vird.done then return none
    modifyReader fun reader => { reader with vird := .reset }
    k vird.acc vird.vlen p

/-- Another field must follow in the record. -/
def requireMore : R Unit := do
  if (← get).reader.rcrd.recordLeft = 0 then throw .frameEncoding

/-- Goes on to the field of `state`, which must follow in the record. -/
def nextField (state : ReadState) (p : List UInt8) : R Rest := do
  requireMore
  setState state
  return some p

/-- The label `frame_done`. -/
def frameDone (ts : ℕ) (p : List UInt8) : R Rest := do
  modifyRcrd .reset
  Exec.when ((← get).reader.rcrd.state = .recordSize)
    (liftM (modifyConn fun conn => { conn with idleTs := ts }))
  return some p

/-- The last field of a frame is read: the frame is logged and handled. -/
def finishFrame (ts : ℕ) (fr : Frame) (handle : M Unit) (p : List UInt8) : R Rest := do
  liftM (emit (.rxFr fr))
  liftM handle
  frameDone ts p

/-! ## Frames with data -/

/-- The header of a STREAM frame is read, and `len` bytes of data follow. -/
def streamHeader (ts len : ℕ) (p : List UInt8) : R Rest := do
  modifyFr fun fr => { fr with stream.len := len }
  modifyRcrd fun rcrd => { rcrd with fieldLeft := len }
  let fr := (← get).reader.rcrd.fr.stream
  liftM (emit (.rxFr (.stream fr)))
  liftM (connRecvStream fr)
  -- an empty frame has no data to wait for
  if (← get).reader.rcrd.fieldLeft = 0 then frameDone ts p
  else do
    setState .streamData
    return some p

/-- `DWNX_RECORD_READ_STATE_STREAM_DATA` -/
def readStreamData (ts : ℕ) (p : List UInt8) : R Rest := do
  let rcrd := (← get).reader.rcrd
  match (← get).st.conn.findStream rcrd.fr.stream.streamId with
  | none => throw (.fault (.assertion .streamOfData))
  | some s =>
    let len := rcrd.fieldAvail p.length
    liftM (connRecvStreamData rcrd.fr.stream.streamId (rcrd.fr.stream.fin && rcrd.fieldLeft == len)
      (sub64 s.rx.lastOffset rcrd.fieldLeft) (p.take len))
    let p ← consumeField len p
    if (← get).reader.rcrd.fieldLeft ≠ 0 then return none
    frameDone ts p

/-- `DWNX_RECORD_READ_STATE_DATAGRAM_DATA` -/
def readDatagramData (ts : ℕ) (p : List UInt8) : R Rest := do
  let rcrd := (← get).reader.rcrd
  let len := rcrd.fieldAvail p.length
  liftM (connRecvDatagram (rcrd.fieldLeft == len) rcrd.fr.datagram.len
    (sub64 rcrd.fr.datagram.len rcrd.fieldLeft) (p.take len))
  let p ← consumeField len p
  if (← get).reader.rcrd.fieldLeft ≠ 0 then return none
  frameDone ts p

/-! ## Buffered fields -/

/-- Room for a field of `n` bytes that is not complete in the chunk. -/
def bufInit (n : ℕ) : R Unit := do
  liftM (alloc .buf)
  modifyRcrd fun rcrd => { rcrd with buf := ⟨[], n⟩ }

/-- Moves bytes of the chunk to the buffer. -/
def bufFill (p : List UInt8) : R (List UInt8) := do
  let len := (← get).reader.rcrd.bufAvail p.length
  modifyRcrd fun rcrd => { rcrd with buf.data := rcrd.buf.data ++ p.take len }
  consume len p

/-- The length of the transport parameters is read. -/
def transportParametersLen (ts n : ℕ) (p : List UInt8) : R Rest := do
  if n > (← get).reader.rcrd.recordLeft then throw .frameEncoding
  if n = 0 then do
    liftM (connRecvTransportParams [])
    frameDone ts p
  -- the parameters are in the chunk as a whole, and are not copied
  else if n ≤ p.length then do
    liftM (connRecvTransportParams (p.take n))
    let p ← consume n p
    frameDone ts p
  else do
    bufInit n
    setState .qxTransportParametersParams
    return some p

/-- `DWNX_RECORD_READ_STATE_QX_TRANSPORT_PARAMETERS_PARAMS` -/
def readTransportParametersParams (ts : ℕ) (p : List UInt8) : R Rest := do
  let p ← bufFill p
  let buf := (← get).reader.rcrd.buf
  if buf.left ≠ 0 then return none
  liftM (connRecvTransportParams buf.data)
  frameDone ts p

/-- A CONNECTION_CLOSE frame is complete. -/
def connectionClosed (reason : List UInt8) : R Rest := do
  modifyFr fun fr => { fr with connectionClose.reason := reason }
  let fr := (← get).reader.rcrd.fr.connectionClose
  liftM (emit (.rxFr (.connectionClose fr)))
  setState .draining
  -- the rest of the chunk is not looked at
  throw .draining

/-- The error code of a CONNECTION_CLOSE frame is read. -/
def connectionCloseErrorCode (errorCode : ℕ) (p : List UInt8) : R Rest := do
  modifyFr fun fr => { fr with connectionClose.errorCode := errorCode }
  if (← get).reader.rcrd.fr.connectionClose.type = FrameType.connectionCloseApp then
    nextField .connectionCloseReasonlen p
  else nextField .connectionCloseFrameType p

/-- The length of the reason of a CONNECTION_CLOSE frame is read. -/
def connectionCloseReasonlen (n : ℕ) (p : List UInt8) : R Rest := do
  if n > (← get).reader.rcrd.recordLeft then throw .frameEncoding
  modifyFr fun fr => { fr with connectionClose.reasonlen := n }
  if n ≤ p.length then connectionClosed (p.take n)
  else do
    bufInit n
    setState .connectionCloseReason
    return some p

/-- `DWNX_RECORD_READ_STATE_CONNECTION_CLOSE_REASON` -/
def readConnectionCloseReason (p : List UInt8) : R Rest := do
  let _ ← bufFill p
  let buf := (← get).reader.rcrd.buf
  if buf.left ≠ 0 then return none
  connectionClosed buf.data

/-! ## Records and frame types -/

/-- `DWNX_RECORD_READ_STATE_RECORD_SIZE` -/
def readRecordSize (p : List UInt8) : R Rest := do
  let (nread, vird) := varintReaderRead (← get).reader.vird p false
  modifyReader fun reader => { reader with vird := vird }
  let nread ← Exec.ofExcept nread
  if nread = 0 ∨ p.length < nread then throw (.fault (.assertion .nread))
  if !vird.done then return none
  modifyReader fun reader => { reader with vird := .reset }
  -- an empty record is refused as one that is too long is
  if vird.acc > (← get).st.conn.localParams.maxRecordSize ∨ vird.acc = 0 then throw .frameEncoding
  modifyRcrd fun rcrd => { rcrd with recordLeft := vird.acc, state := .frameType }
  return some (p.drop nread)

/-- The number of zero bytes with which `p` begins, among the first `n`. -/
def paddingLen (n : ℕ) (p : List UInt8) : ℕ := ((p.take n).takeWhile (· = 0)).length

/-- The type of a frame is read, a varint of `vlen` bytes. -/
def frameType (ts type vlen : ℕ) (p : List UInt8) : R Rest := do
  modifyRcrd fun rcrd => { rcrd with typelen := vlen }
  let seen := (← get).st.conn.flags.qxTransportParametersSeen
  let recordLeft := (← get).reader.rcrd.recordLeft
  let maxDatagramFrameSize := (← get).st.conn.localParams.maxDatagramFrameSize
  -- the transport parameters come first, and only once
  if !seen ∧ type ≠ FrameType.qxTransportParameters then throw .proto
  if type = FrameType.qxTransportParameters then
    if seen then throw .proto
    liftM (modifyConn fun conn => { conn with flags.qxTransportParametersSeen := true })
    nextField .qxTransportParametersLen p
  else if type = FrameType.qxPingRequest ∨ type = FrameType.qxPingResponse then
    requireMore
    modifyFr fun fr => { fr with qxPing.type := type }
    nextField .qxPingSeq p
  else if type = FrameType.padding then
    -- a run of zero bytes is logged as one frame
    let n := paddingLen recordLeft p
    let p ← consume n p
    finishFrame ts (.padding (n + 1)) (pure ()) p
  else if type = FrameType.resetStream then nextField .resetStreamStreamId p
  else if type = FrameType.stopSending then nextField .stopSendingStreamId p
  else if type = FrameType.maxData then nextField .maxDataMaxData p
  else if type = FrameType.maxStreamData then nextField .maxStreamDataStreamId p
  else if type = FrameType.maxStreamsBidi ∨ type = FrameType.maxStreamsUni then
    requireMore
    modifyFr fun fr => { fr with maxStreams.type := type }
    nextField .maxStreamsMaxStreams p
  else if type = FrameType.dataBlocked then nextField .dataBlockedOffset p
  else if type = FrameType.streamDataBlocked then nextField .streamDataBlockedStreamId p
  else if type = FrameType.streamsBlockedBidi ∨ type = FrameType.streamsBlockedUni then
    requireMore
    modifyFr fun fr => { fr with streamsBlocked.type := type }
    nextField .streamsBlockedMaxStreams p
  else if type = FrameType.connectionClose ∨ type = FrameType.connectionCloseApp then
    requireMore
    modifyFr fun fr => { fr with connectionClose.type := type }
    nextField .connectionCloseErrorCode p
  else if type = FrameType.datagram then
    -- without a length the data goes on to the end of the record
    if maxDatagramFrameSize = 0 ∨ maxDatagramFrameSize < vlen + recordLeft then throw .proto
    modifyFr fun fr => { fr with datagram.type := type, datagram.len := recordLeft }
    if recordLeft = 0 then do
      liftM (connRecvDatagram true 0 0 [])
      frameDone ts p
    else do
      modifyRcrd fun rcrd => { rcrd with fieldLeft := recordLeft }
      setState .datagramData
      return some p
  else if type = FrameType.datagramLen then
    if maxDatagramFrameSize ≤ vlen then throw .proto
    requireMore
    modifyFr fun fr => { fr with datagram.type := type }
    nextField .datagramLen p
  else if type / 8 = 1 then
    -- the type is `DWNX_FRAME_STREAM` but for its last three bits
    requireMore
    modifyFr fun fr => { fr with
      stream.flags := type % 8
      stream.fin := decide (type % 8 % 2 = 1) }
    nextField .streamStreamId p
  else throw .frameEncoding

/-! ## Fields -/

/-- The offset is the next field of the STREAM frame. -/
def FrameStream.hasOffset (fr : FrameStream) : Bool := fr.flags / 4 % 2 = 1

/-- The length is a field of the STREAM frame. -/
def FrameStream.hasLength (fr : FrameStream) : Bool := fr.flags / 2 % 2 = 1

/-- The stream identifier of a STREAM frame is read. -/
def streamStreamId (ts id : ℕ) (p : List UInt8) : R Rest := do
  -- the identifier lies where `frame_type` does in the union
  modifyFr fun fr => { fr with stream.streamId := id, connectionClose.frameType := id }
  let fr := (← get).reader.rcrd.fr.stream
  if fr.hasOffset then nextField .streamOffset p
  else if fr.hasLength then do
    requireMore
    modifyFr fun fr => { fr with stream.offset := 0 }
    nextField .streamLength p
  else do
    modifyFr fun fr => { fr with stream.offset := 0 }
    streamHeader ts (← get).reader.rcrd.recordLeft p

/-- The offset of a STREAM frame is read. -/
def streamOffset (ts offset : ℕ) (p : List UInt8) : R Rest := do
  modifyFr fun fr => { fr with stream.offset := offset }
  if (← get).reader.rcrd.fr.stream.hasLength then nextField .streamLength p
  else streamHeader ts (← get).reader.rcrd.recordLeft p

/-- The length of a STREAM frame is read. -/
def streamLength (ts len : ℕ) (p : List UInt8) : R Rest := do
  if len > (← get).reader.rcrd.recordLeft then throw .frameEncoding
  streamHeader ts len p

/-- The length of a DATAGRAM frame is read, a varint of `vlen` bytes. -/
def datagramLen (ts len vlen : ℕ) (p : List UInt8) : R Rest := do
  let rcrd := (← get).reader.rcrd
  -- the limit is on the frame as a whole, its type and length included
  if add64 (rcrd.typelen + vlen) len > (← get).st.conn.localParams.maxDatagramFrameSize then
    throw .proto
  if len > rcrd.recordLeft then throw .frameEncoding
  modifyFr fun fr => { fr with datagram.len := len }
  modifyRcrd fun rcrd => { rcrd with fieldLeft := len }
  let fr := (← get).reader.rcrd.fr.datagram
  liftM (emit (.rxFr (.datagram fr)))
  if len = 0 then do
    liftM (connRecvDatagram true 0 0 [])
    frameDone ts p
  else do
    setState .datagramData
    return some p

/-- A field `v` of the frame is read, and `state` is the next one. -/
def storeField (f : FrameUnion → FrameUnion) (state : ReadState) (p : List UInt8) : R Rest := do
  modifyFr f
  nextField state p

/-- The last field of a frame is read, which is then handled. -/
def lastField (ts : ℕ) (f : FrameUnion → FrameUnion) (frame : FrameUnion → Frame)
    (handle : FrameUnion → M Unit) (p : List UInt8) : R Rest := do
  modifyFr f
  let fr := (← get).reader.rcrd.fr
  finishFrame ts (frame fr) (handle fr) p

/-! ## The loop -/

/-- The `switch` of `dwnx_conn_read`, over a chunk that is not empty. -/
def readState (ts : ℕ) (state : ReadState) (p : List UInt8) : R Rest :=
  match state with
  | .recordSize => readRecordSize p
  | .frameType => readVarint p (frameType ts)
  | .qxTransportParametersLen => readVarint p fun n _ => transportParametersLen ts n
  | .qxTransportParametersParams => readTransportParametersParams ts p
  | .qxPingSeq => readVarint p fun v _ =>
    lastField ts (fun fr => { fr with qxPing.seq := v }) (fun fr => .qxPing fr.qxPing)
      fun fr => connRecvQxPing fr.qxPing ts
  | .streamStreamId => readVarint p fun v _ => streamStreamId ts v
  | .streamOffset => readVarint p fun v _ => streamOffset ts v
  | .streamLength => readVarint p fun v _ => streamLength ts v
  | .streamData => readStreamData ts p
  | .resetStreamStreamId => readVarint p fun v _ =>
    storeField (fun fr => { fr with resetStream.streamId := v }) .resetStreamAppErrorCode
  | .resetStreamAppErrorCode => readVarint p fun v _ =>
    storeField
      (fun fr => { fr with resetStream.appErrorCode := v, connectionClose.frameType := v })
      .resetStreamFinalSize
  | .resetStreamFinalSize => readVarint p fun v _ =>
    lastField ts (fun fr => { fr with resetStream.finalSize := v })
      (fun fr => .resetStream fr.resetStream) fun fr => connRecvResetStream fr.resetStream
  | .stopSendingStreamId => readVarint p fun v _ =>
    storeField (fun fr => { fr with stopSending.streamId := v }) .stopSendingAppErrorCode
  | .stopSendingAppErrorCode => readVarint p fun v _ =>
    lastField ts
      (fun fr => { fr with stopSending.appErrorCode := v, connectionClose.frameType := v })
      (fun fr => .stopSending fr.stopSending) fun fr => connRecvStopSending fr.stopSending ts
  | .maxDataMaxData => readVarint p fun v _ =>
    lastField ts (fun fr => { fr with maxData.maxData := v }) (fun fr => .maxData fr.maxData)
      fun fr => connRecvMaxData fr.maxData
  | .maxStreamDataStreamId => readVarint p fun v _ =>
    storeField (fun fr => { fr with maxStreamData.streamId := v }) .maxStreamDataMaxStreamData
  | .maxStreamDataMaxStreamData => readVarint p fun v _ =>
    lastField ts
      (fun fr => { fr with maxStreamData.maxStreamData := v, connectionClose.frameType := v })
      (fun fr => .maxStreamData fr.maxStreamData)
      fun fr => connRecvMaxStreamData fr.maxStreamData ts
  | .maxStreamsMaxStreams => readVarint p fun v _ =>
    lastField ts (fun fr => { fr with maxStreams.maxStreams := v })
      (fun fr => .maxStreams fr.maxStreams) fun fr => connRecvMaxStreams fr.maxStreams
  | .dataBlockedOffset => readVarint p fun v _ =>
    lastField ts (fun fr => { fr with dataBlocked.maxData := v })
      (fun fr => .dataBlocked fr.dataBlocked) fun fr => connRecvDataBlocked fr.dataBlocked
  | .streamDataBlockedStreamId => readVarint p fun v _ =>
    storeField (fun fr => { fr with streamDataBlocked.streamId := v }) .streamDataBlockedOffset
  | .streamDataBlockedOffset => readVarint p fun v _ =>
    lastField ts
      (fun fr => { fr with streamDataBlocked.maxStreamData := v, connectionClose.frameType := v })
      (fun fr => .streamDataBlocked fr.streamDataBlocked)
      fun fr => connRecvStreamDataBlocked fr.streamDataBlocked
  | .streamsBlockedMaxStreams => readVarint p fun v _ =>
    lastField ts (fun fr => { fr with streamsBlocked.maxStreams := v })
      (fun fr => .streamsBlocked fr.streamsBlocked)
      fun fr => connRecvStreamsBlocked fr.streamsBlocked
  | .connectionCloseErrorCode => readVarint p fun v _ => connectionCloseErrorCode v
  | .connectionCloseFrameType => readVarint p fun v _ =>
    storeField (fun fr => { fr with connectionClose.frameType := v }) .connectionCloseReasonlen
  | .connectionCloseReasonlen => readVarint p fun n _ => connectionCloseReasonlen n
  | .connectionCloseReason => readConnectionCloseReason p
  | .datagramLen => readVarint p (datagramLen ts)
  | .datagramData => readDatagramData ts p
  | .draining => throw .draining
  | .closing => throw .closing

/-- One pass of the loop of `dwnx_conn_read`. -/
def connReadStep (ts : ℕ) (p : List UInt8) : R Rest := do
  readState ts (← get).reader.rcrd.state p

/-- The loop of `dwnx_conn_read`. A pass that does not return reads a byte, so
    there are at most as many as there are bytes. -/
def readLoop (ts : ℕ) : ℕ → List UInt8 → R Unit
  | _, [] => pure ()
  | 0, _ => throw (.fault .outOfFuel)
  | n + 1, p => do
    match ← connReadStep ts p with
    | none => return
    | some p => readLoop ts n p

/-- `dwnx_conn_read` -/
def connRead (data : List UInt8) (ts : ℕ) : R Unit := do
  liftM (connUpdateTimestamp ts)
  if data = [] then
    match (← get).reader.rcrd.state with
    | .draining => throw .draining
    | .closing => throw .closing
    | _ => return
  else readLoop ts data.length data

end Dwnx
