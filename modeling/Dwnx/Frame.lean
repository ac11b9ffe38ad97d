import Dwnx.TransportParams

/-!
# Frames

The frames of a record and their encoders. An encoder computes the length of the
frame, refuses with `DWNX_ERR_NOBUF` if there is no room for it, and then writes
the frame: some varints, the first of them the frame type, and a payload.
-/

namespace Dwnx

/-! ## Frame types -/

namespace FrameType

/-- `DWNX_FRAME_QX_TRANSPORT_PARAMETERS` -/
def qxTransportParameters : ℕ := 0x3F5153300D0A0D0A
/-- `DWNX_FRAME_QX_PING_REQUEST` -/
def qxPingRequest : ℕ := 0x348C67529EF8C7BD
/-- `DWNX_FRAME_QX_PING_RESPONSE` -/
def qxPingResponse : ℕ := 0x348C67529EF8C7BE
/-- `DWNX_FRAME_PADDING` -/
def padding : ℕ := 0x00
/-- `DWNX_FRAME_RESET_STREAM` -/
def resetStream : ℕ := 0x04
/-- `DWNX_FRAME_STOP_SENDING` -/
def stopSending : ℕ := 0x05
/-- `DWNX_FRAME_STREAM` -/
def stream : ℕ := 0x08
/-- `DWNX_FRAME_MAX_DATA` -/
def maxData : ℕ := 0x10
/-- `DWNX_FRAME_MAX_STREAM_DATA` -/
def maxStreamData : ℕ := 0x11
/-- `DWNX_FRAME_MAX_STREAMS_BIDI` -/
def maxStreamsBidi : ℕ := 0x12
/-- `DWNX_FRAME_MAX_STREAMS_UNI` -/
def maxStreamsUni : ℕ := 0x13
/-- `DWNX_FRAME_DATA_BLOCKED` -/
def dataBlocked : ℕ := 0x14
/-- `DWNX_FRAME_STREAM_DATA_BLOCKED` -/
def streamDataBlocked : ℕ := 0x15
/-- `DWNX_FRAME_STREAMS_BLOCKED_BIDI` -/
def streamsBlockedBidi : ℕ := 0x16
/-- `DWNX_FRAME_STREAMS_BLOCKED_UNI` -/
def streamsBlockedUni : ℕ := 0x17
/-- `DWNX_FRAME_CONNECTION_CLOSE` -/
def connectionClose : ℕ := 0x1C
/-- `DWNX_FRAME_CONNECTION_CLOSE_APP` -/
def connectionCloseApp : ℕ := 0x1D
/-- `DWNX_FRAME_DATAGRAM` -/
def datagram : ℕ := 0x30
/-- `DWNX_FRAME_DATAGRAM_LEN` -/
def datagramLen : ℕ := 0x31

/-- The bits of a STREAM frame type. -/
def streamFinBit : ℕ := 0x01
/-- The LEN bit: the frame has a length. -/
def streamLenBit : ℕ := 0x02
/-- The OFF bit: the frame has an offset. -/
def streamOffBit : ℕ := 0x04

end FrameType

/-! ## Frames -/

/-- A buffer as a sequence of vectors, `dwnx_vec`. -/
abbrev Vecs := List (List UInt8)

/-- `dwnx_frame_qx_ping` -/
structure FrameQxPing where
  type : ℕ
  seq : ℕ
  deriving DecidableEq, Repr

/-- `dwnx_frame_stream` -/
structure FrameStream where
  flags : ℕ
  fin : Bool
  streamId : ℕ
  offset : ℕ
  len : ℕ
  /-- The data; of a frame received, it is passed on as it arrives. -/
  data : Vecs
  deriving DecidableEq, Repr

/-- `dwnx_frame_reset_stream` -/
structure FrameResetStream where
  streamId : ℕ
  appErrorCode : ℕ
  finalSize : ℕ
  deriving DecidableEq, Repr

/-- `dwnx_frame_stop_sending` -/
structure FrameStopSending where
  streamId : ℕ
  appErrorCode : ℕ
  deriving DecidableEq, Repr

/-- `dwnx_frame_max_data` -/
structure FrameMaxData where
  maxData : ℕ
  deriving DecidableEq, Repr

/-- `dwnx_frame_max_stream_data` -/
structure FrameMaxStreamData where
  streamId : ℕ
  maxStreamData : ℕ
  deriving DecidableEq, Repr

/-- `dwnx_frame_max_streams`; the type says which kind of streams. -/
structure FrameMaxStreams where
  type : ℕ
  maxStreams : ℕ
  deriving DecidableEq, Repr

/-- `dwnx_frame_data_blocked` -/
structure FrameDataBlocked where
  maxData : ℕ
  deriving DecidableEq, Repr

/-- `dwnx_frame_stream_data_blocked` -/
structure FrameStreamDataBlocked where
  streamId : ℕ
  maxStreamData : ℕ
  deriving DecidableEq, Repr

/-- `dwnx_frame_streams_blocked`; the type says which kind of streams. -/
structure FrameStreamsBlocked where
  type : ℕ
  maxStreams : ℕ
  deriving DecidableEq, Repr

/-- `dwnx_frame_connection_close`; only the first of its types has a frame type. -/
structure FrameConnectionClose where
  type : ℕ
  errorCode : ℕ
  frameType : ℕ
  reasonlen : ℕ
  reason : List UInt8
  deriving DecidableEq, Repr

/-- `dwnx_frame_datagram`; one of its types has a length. -/
structure FrameDatagram where
  type : ℕ
  len : ℕ
  data : Vecs
  deriving DecidableEq, Repr

/-- `dwnx_frame` -/
inductive Frame
  | qxTransportParameters (params : TransportParams)
  | qxPing (fr : FrameQxPing)
  | padding (len : ℕ)
  | resetStream (fr : FrameResetStream)
  | stopSending (fr : FrameStopSending)
  | stream (fr : FrameStream)
  | maxData (fr : FrameMaxData)
  | maxStreamData (fr : FrameMaxStreamData)
  | maxStreams (fr : FrameMaxStreams)
  | dataBlocked (fr : FrameDataBlocked)
  | streamDataBlocked (fr : FrameStreamDataBlocked)
  | streamsBlocked (fr : FrameStreamsBlocked)
  | connectionClose (fr : FrameConnectionClose)
  | datagram (fr : FrameDatagram)
  deriving DecidableEq, Repr

/-! ## Encoding -/

/-- Writes the varints `vs` and a payload of `len` bytes, if there is room. -/
def encodeVarints (outlen : ℕ) (vs : List ℕ) (len : ℕ) (payload : List UInt8) :
    Except Err (List UInt8) := do
  let lens ← vs.mapM putUvarintlen
  if outlen < lens.sum + len then throw .nobuf
  if payload.length ≠ len then throw (.fault (.assertion .encodedLen))
  return vs.flatMap putUvarint ++ payload

/-- `dwnx_frame_encode_qx_transport_parameters`: the parameters are encoded twice, first for
    their length. -/
def frameEncodeQxTransportParameters (outlen : ℕ) (params : TransportParams) :
    Except Err (List UInt8) := do
  let paramslen ← transportParamsLen params
  let lens ← [FrameType.qxTransportParameters, paramslen].mapM putUvarintlen
  if outlen < lens.sum + paramslen then throw .nobuf
  encodeVarints outlen [FrameType.qxTransportParameters, paramslen] paramslen
    (← transportParamsEncode paramslen params)

/-- `dwnx_frame_encode_qx_ping` -/
def frameEncodeQxPing (outlen : ℕ) (fr : FrameQxPing) : Except Err (List UInt8) :=
  encodeVarints outlen [fr.type, fr.seq] 0 []

/-- `dwnx_frame_encode_padding`: each frame is one zero byte. -/
def frameEncodePadding (outlen len : ℕ) : Except Err (List UInt8) :=
  encodeVarints outlen [] len (List.replicate len 0)

/-- The STREAM frame type with the bits for the fields that are written. -/
def FrameStream.typeByte (fr : FrameStream) : ℕ :=
  FrameType.stream + FrameType.streamLenBit + (if fr.fin then FrameType.streamFinBit else 0) +
    (if fr.offset = 0 then 0 else FrameType.streamOffBit)

/-- `dwnx_frame_encode_stream`: the length is always written, the offset unless it is 0. -/
def frameEncodeStream (outlen : ℕ) (fr : FrameStream) : Except Err (List UInt8) :=
  encodeVarints outlen
    ([fr.typeByte, fr.streamId] ++ (if fr.offset = 0 then [] else [fr.offset]) ++ [fr.len])
    fr.len (fr.data.flatten.take fr.len)

/-- `dwnx_frame_encode_reset_stream` -/
def frameEncodeResetStream (outlen : ℕ) (fr : FrameResetStream) : Except Err (List UInt8) :=
  encodeVarints outlen [FrameType.resetStream, fr.streamId, fr.appErrorCode, fr.finalSize] 0 []

/-- `dwnx_frame_encode_stop_sending` -/
def frameEncodeStopSending (outlen : ℕ) (fr : FrameStopSending) : Except Err (List UInt8) :=
  encodeVarints outlen [FrameType.stopSending, fr.streamId, fr.appErrorCode] 0 []

/-- `dwnx_frame_encode_max_data` -/
def frameEncodeMaxData (outlen : ℕ) (fr : FrameMaxData) : Except Err (List UInt8) :=
  encodeVarints outlen [FrameType.maxData, fr.maxData] 0 []

/-- `dwnx_frame_encode_max_stream_data` -/
def frameEncodeMaxStreamData (outlen : ℕ) (fr : FrameMaxStreamData) : Except Err (List UInt8) :=
  encodeVarints outlen [FrameType.maxStreamData, fr.streamId, fr.maxStreamData] 0 []

/-- `dwnx_frame_encode_max_streams` -/
def frameEncodeMaxStreams (outlen : ℕ) (fr : FrameMaxStreams) : Except Err (List UInt8) :=
  encodeVarints outlen [fr.type, fr.maxStreams] 0 []

/-- `dwnx_frame_encode_data_blocked` -/
def frameEncodeDataBlocked (outlen : ℕ) (fr : FrameDataBlocked) : Except Err (List UInt8) :=
  encodeVarints outlen [FrameType.dataBlocked, fr.maxData] 0 []

/-- `dwnx_frame_encode_stream_data_blocked` -/
def frameEncodeStreamDataBlocked (outlen : ℕ) (fr : FrameStreamDataBlocked) :
    Except Err (List UInt8) :=
  encodeVarints outlen [FrameType.streamDataBlocked, fr.streamId, fr.maxStreamData] 0 []

/-- `dwnx_frame_encode_streams_blocked` -/
def frameEncodeStreamsBlocked (outlen : ℕ) (fr : FrameStreamsBlocked) : Except Err (List UInt8) :=
  encodeVarints outlen [fr.type, fr.maxStreams] 0 []

/-- `dwnx_frame_encode_connection_close` -/
def frameEncodeConnectionClose (outlen : ℕ) (fr : FrameConnectionClose) :
    Except Err (List UInt8) :=
  encodeVarints outlen
    ([fr.type, fr.errorCode] ++
      (if fr.type = FrameType.connectionClose then [fr.frameType] else []) ++ [fr.reasonlen])
    fr.reasonlen fr.reason

/-- `dwnx_frame_encode_datagram`, which asserts that the data has the length given. -/
def frameEncodeDatagram (outlen : ℕ) (fr : FrameDatagram) : Except Err (List UInt8) := do
  if fr.len ≠ fr.data.flatten.length then throw (.fault (.assertion .encodedLen))
  encodeVarints outlen ([fr.type] ++ (if fr.type = FrameType.datagramLen then [fr.len] else []))
    fr.len fr.data.flatten

/-- `dwnx_frame_encode` -/
def frameEncode (outlen : ℕ) : Frame → Except Err (List UInt8)
  | .qxTransportParameters params => frameEncodeQxTransportParameters outlen params
  | .qxPing fr => frameEncodeQxPing outlen fr
  | .padding len => frameEncodePadding outlen len
  | .resetStream fr => frameEncodeResetStream outlen fr
  | .stopSending fr => frameEncodeStopSending outlen fr
  | .stream fr => frameEncodeStream outlen fr
  | .maxData fr => frameEncodeMaxData outlen fr
  | .maxStreamData fr => frameEncodeMaxStreamData outlen fr
  | .maxStreams fr => frameEncodeMaxStreams outlen fr
  | .dataBlocked fr => frameEncodeDataBlocked outlen fr
  | .streamDataBlocked fr => frameEncodeStreamDataBlocked outlen fr
  | .streamsBlocked fr => frameEncodeStreamsBlocked outlen fr
  | .connectionClose fr => frameEncodeConnectionClose outlen fr
  | .datagram fr => frameEncodeDatagram outlen fr

/-- `dwnx_frame_datagram_framelen`: the length of a DATAGRAM frame of `len` bytes. -/
def frameDatagramFramelen (len : ℕ) : Except Err ℕ := do
  return 1 + (← putUvarintlen len) + len

end Dwnx
