import Dwnx.Basic

/-!
# Streams

The object of a stream: the limits and offsets of its two directions, and flags
that say which direction is closed, how, and which frames are still to be sent.
-/

namespace Dwnx

/-- `dwnx_strm.flags`, the `DWNX_STRM_FLAG_*` bits. -/
structure StrmFlags where
  shutRd : Bool
  shutWr : Bool
  /-- RESET_STREAM is sent from the local endpoint. -/
  resetStream : Bool
  resetStreamRecved : Bool
  /-- STOP_SENDING is sent from the local endpoint. -/
  stopSending : Bool
  sendStopSending : Bool
  sendResetStream : Bool
  stopSendingRecved : Bool
  rxAppErrorCodeSet : Bool
  txResetStreamAppErrorCodeSet : Bool
  txStopSendingAppErrorCodeSet : Bool
  sendStreamDataBlocked : Bool
  /-- Any STREAM frame, an empty one too, has been sent. -/
  anySent : Bool
  deriving DecidableEq, Repr

/-- `DWNX_STRM_FLAG_NONE` -/
def StrmFlags.none : StrmFlags :=
  ⟨false, false, false, false, false, false, false, false, false, false, false, false, false⟩

/-- `dwnx_strm.rx` -/
structure StrmRx where
  /-- The offset up to which data has been received. -/
  lastOffset : ℕ
  maxOffset : ℕ
  /-- The limit granted, and not announced yet. -/
  unsentMaxOffset : ℕ
  window : ℕ
  appErrorCode : ℕ
  deriving DecidableEq, Repr

/-- `dwnx_strm.tx` -/
structure StrmTx where
  offset : ℕ
  maxOffset : ℕ
  lastBlockedOffset : ℕ
  stopSendingAppErrorCode : ℕ
  resetStreamAppErrorCode : ℕ
  deriving DecidableEq, Repr

/-- `dwnx_strm`. The index in the queue is kept by the queue. -/
structure Strm where
  streamId : ℕ
  cycle : ℕ
  rx : StrmRx
  tx : StrmTx
  flags : StrmFlags
  deriving DecidableEq, Repr

namespace Strm

/-- `dwnx_strm_init` -/
def init (streamId maxRxOffset maxTxOffset : ℕ) : Strm where
  streamId := streamId
  cycle := 0
  rx := ⟨0, maxRxOffset, maxRxOffset, maxRxOffset, 0⟩
  tx := ⟨0, maxTxOffset, uint64Max, 0, 0⟩
  flags := .none

/-- `dwnx_strm_should_close_stream` -/
def shouldCloseStream (strm : Strm) : Bool :=
  strm.flags.shutRd && strm.flags.shutWr && !strm.flags.sendResetStream

/-- `strm_should_send_max_stream_data` -/
def shouldSendMaxStreamData (strm : Strm) : Bool :=
  strm.rx.window < mul64 4 (sub64 strm.rx.unsentMaxOffset strm.rx.maxOffset)

end Strm

/-! ## Stream identifiers -/

/-- `bidi_stream`. Identifiers are the integers from 0 to `2 ^ 64 - 1`; the
    upper half stands for the negative ones. -/
def bidiStream (streamId : ℕ) : Bool := streamId / 2 % 2 = 0

/-- `dwnx_ord_stream_id` -/
def ordStreamId (streamId : ℕ) : ℕ := streamId / 4 + 1

end Dwnx
