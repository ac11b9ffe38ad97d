import Dwnx.Frame

/-!
# The state of the record parser

Bytes arrive in chunks cut anywhere, so the parser stops and resumes in the
middle of a record, a frame, a field and a varint. `VarintReader` keeps a varint
that is only partly there, `RecordReader` the rest: the field to be read next,
the frame read so far, and what is left of the record and the field.
-/

namespace Dwnx

/-! ## Varints -/

/-- `dwnx_varint_reader`. The accumulator holds the bytes read so far at the
    place they have in the complete integer, which the source keeps in network
    byte order until it is complete. -/
structure VarintReader where
  acc : ℕ
  /-- The number of bytes still to be read. -/
  left : ℕ
  vlen : ℕ
  deriving DecidableEq, Repr

/-- `dwnx_varint_reader_reset` -/
def VarintReader.reset : VarintReader := ⟨0, 0, 0⟩

/-- `dwnx_varint_reader_done` -/
def VarintReader.done (vird : VarintReader) : Bool := vird.left == 0

/-- `dwnx_varint_reader_read`: the number of bytes read, and the reader, which is
    written to even where the call fails; `fin` says that no bytes follow. -/
def varintReaderRead (vird : VarintReader) (data : List UInt8) (fin : Bool) :
    Except Err ℕ × VarintReader :=
  match data with
  | [] => (.error (.fault (.assertion .emptyRange)), vird)
  | b :: _ =>
    if vird.left = 0 then
      if vird.acc ≠ 0 ∨ vird.vlen ≠ 0 then (.error (.fault (.assertion .readerReset)), vird)
      else
        let vlen := getUvarintlen b
        let len := min vlen data.length
        if vlen ≤ len then (.ok vlen, ⟨beNat (data.take vlen) % 2 ^ (8 * vlen - 2), 0, vlen⟩)
        else if fin then (.error .invalidArgument, { vird with vlen := vlen })
        else (.ok len,
          ⟨beNat (data.take len) % 2 ^ (8 * len - 2) * 256 ^ (vlen - len), vlen - len, vlen⟩)
    else
      let len := min vird.left data.length
      let left := vird.left - len
      let vird := ⟨vird.acc + beNat (data.take len) * 256 ^ left, left, vird.vlen⟩
      if left ≠ 0 ∧ fin then (.error .invalidArgument, vird) else (.ok len, vird)

/-! ## Records -/

/-- `dwnx_record_read_state` -/
inductive ReadState
  | recordSize
  | frameType
  | qxTransportParametersLen
  | qxTransportParametersParams
  | qxPingSeq
  | streamStreamId
  | streamOffset
  | streamLength
  | streamData
  | resetStreamStreamId
  | resetStreamAppErrorCode
  | resetStreamFinalSize
  | stopSendingStreamId
  | stopSendingAppErrorCode
  | maxDataMaxData
  | maxStreamDataStreamId
  | maxStreamDataMaxStreamData
  | maxStreamsMaxStreams
  | dataBlockedOffset
  | streamDataBlockedStreamId
  | streamDataBlockedOffset
  | streamsBlockedMaxStreams
  | connectionCloseErrorCode
  | connectionCloseFrameType
  | connectionCloseReasonlen
  | connectionCloseReason
  | datagramLen
  | datagramData
  | draining
  | closing
  deriving DecidableEq, Repr

/-- The frame being received, one member for every kind. The members are apart
    here where the union of the source overlays them; PADDING and
    QX_TRANSPORT_PARAMETERS keep nothing from one call to the next. One field may be
    read that was not stored for the same frame, the frame type of CONNECTION_CLOSE:
    what other members store in its place is stored there, too. -/
structure FrameUnion where
  qxPing : FrameQxPing
  stream : FrameStream
  resetStream : FrameResetStream
  stopSending : FrameStopSending
  maxData : FrameMaxData
  maxStreamData : FrameMaxStreamData
  maxStreams : FrameMaxStreams
  dataBlocked : FrameDataBlocked
  streamDataBlocked : FrameStreamDataBlocked
  streamsBlocked : FrameStreamsBlocked
  connectionClose : FrameConnectionClose
  datagram : FrameDatagram
  deriving DecidableEq, Repr

/-- The frame of a connection that has not received any. -/
def FrameUnion.zero : FrameUnion where
  qxPing := ⟨0, 0⟩
  stream := ⟨0, false, 0, 0, 0, []⟩
  resetStream := ⟨0, 0, 0⟩
  stopSending := ⟨0, 0⟩
  maxData := ⟨0⟩
  maxStreamData := ⟨0, 0⟩
  maxStreams := ⟨0, 0⟩
  dataBlocked := ⟨0⟩
  streamDataBlocked := ⟨0, 0⟩
  streamsBlocked := ⟨0, 0⟩
  connectionClose := ⟨0, 0, 0, 0, []⟩
  datagram := ⟨0, 0, []⟩

/-- `dwnx_buf`: the bytes buffered, of those there is room for. -/
structure Buf where
  data : List UInt8
  size : ℕ
  deriving DecidableEq, Repr

/-- `dwnx_buf_left` -/
def Buf.left (buf : Buf) : ℕ := buf.size - buf.data.length

/-- `dwnx_record_reader` -/
structure RecordReader where
  state : ReadState
  fr : FrameUnion
  /-- The length of the frame type. -/
  typelen : ℕ
  /-- The number of bytes left in the record. -/
  recordLeft : ℕ
  /-- The number of bytes left in the field, for the fields that count it. -/
  fieldLeft : ℕ
  buf : Buf
  deriving DecidableEq, Repr

namespace RecordReader

/-- The reader of a new connection. -/
def init : RecordReader := ⟨.recordSize, .zero, 0, 0, 0, ⟨[], 0⟩⟩

/-- `record_reader_next_frame` -/
def nextFrame (rcrd : RecordReader) : RecordReader :=
  { rcrd with buf := ⟨[], 0⟩, state := .frameType, typelen := 0, fieldLeft := 0 }

/-- `dwnx_record_reader_reset` -/
def reset (rcrd : RecordReader) : RecordReader :=
  if rcrd.recordLeft ≠ 0 then rcrd.nextFrame else { rcrd.nextFrame with state := .recordSize }

/-- `dwnx_record_reader_avail` -/
def avail (rcrd : RecordReader) (len : ℕ) : ℕ := min len rcrd.recordLeft

/-- `dwnx_record_reader_field_avail` -/
def fieldAvail (rcrd : RecordReader) (len : ℕ) : ℕ := min rcrd.fieldLeft (rcrd.avail len)

/-- `dwnx_record_reader_buf_avail` -/
def bufAvail (rcrd : RecordReader) (len : ℕ) : ℕ := min rcrd.buf.left (rcrd.avail len)

end RecordReader

end Dwnx
