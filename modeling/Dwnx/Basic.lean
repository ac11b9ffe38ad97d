import Mathlib.Tactic

/-!
# Error codes, constants and 64-bit arithmetic

The negative return codes of the library, and with them the ways in which a
call may go wrong that the C code has no code for (`Fault`): a failed assertion,
an unreachable marker, a read outside the buffer, the use of a freed stream
object. A fault is an outcome like any other, so that its absence is a theorem.
-/

namespace Dwnx

/-- The assertions of the modelled functions. -/
inductive Assertion
  /-- `dwnx_put_uvarintlen`: the integer fits. -/
  | uvarintlen
  /-- `dwnx_put_uvarintw`: the integer fits the width. -/
  | uvarintw
  /-- The encoders: as many bytes were written as announced. -/
  | encodedLen
  /-- The decoders: as many bytes were read as announced. -/
  | decodedLen
  /-- `dwnx_varint_reader_read`: there is something to read. -/
  | emptyRange
  /-- `dwnx_varint_reader_read`: the reader was reset. -/
  | readerReset
  /-- `dwnx_conn_read`: the varint reader made progress. -/
  | nread
  /-- `dwnx_conn_read`: the stream of the data exists. -/
  | streamOfData
  /-- `dwnx_gaptr_is_pushed`: there is a gap. -/
  | gap
  /-- `dwnx_idtr_open` fails only with `DWNX_ERR_STREAM_IN_USE`. -/
  | streamInUse
  /-- `dwnx_map_insert` and `dwnx_map_remove`: the key is free, resp. used. -/
  | mapKey
  /-- `dwnx_pq_top`, `dwnx_pq_pop`: the queue is not empty. -/
  | pqEmpty
  /-- `dwnx_pq_remove`: the item is where its index says. -/
  | pqIndex
  /-- `dwnx_qre_start`: there is room for the record length. -/
  | recordLen
  /-- `dwnx_qre_stream_max_datalen`: the record is not too large. -/
  | recordLeft
  /-- `ratelim_update`, `conn_update_timestamp`: time does not run backwards. -/
  | timestamp
  /-- `dwnx_conn_write_data_blocked`: the credit is used up exactly. -/
  | dataBlocked
  /-- `dwnx_conn_write_stream_data_blocked`: the credit is used up exactly. -/
  | streamDataBlocked
  /-- `conn_new`: the parameters are in range. -/
  | transportParams
  /-- The functions for clients are not called by a server. -/
  | client
  /-- `set_max_stream_offset`: the stream is a local one. -/
  | localStream
  /-- Only `DWNX_ERR_NOBUF` keeps a blocked frame from being written. -/
  | nobuf
  deriving DecidableEq, Repr

/-- What stands in for an abort or for undefined behaviour. -/
inductive Fault
  | assertion (a : Assertion)
  | unreachable
  /-- A byte outside the buffer, the record or the field. -/
  | outOfBounds
  /-- A stream object that was freed. -/
  | useAfterFree
  /-- The passes allowed to a loop have run out. -/
  | outOfFuel
  deriving DecidableEq, Repr

/-- The `DWNX_ERR_*` codes the modelled functions return. -/
inductive Err
  | invalidArgument
  | nobuf
  | proto
  | invalidState
  | streamIdBlocked
  | streamInUse
  | streamDataBlocked
  | flowControl
  | streamLimit
  | finalSize
  | malformedTransportParam
  | frameEncoding
  | streamShutWr
  | streamNotFound
  | streamState
  | closing
  | draining
  | internal
  | writeMore
  | idleClose
  | nomem
  | callbackFailure
  | fault (f : Fault)
  deriving DecidableEq, Repr

namespace Err

/-- Codes below `DWNX_ERR_FATAL`. -/
def isFatal : Err → Bool
  | nomem | callbackFailure => true
  | _ => false

def isFault : Err → Bool
  | fault _ => true
  | _ => false

/-- The codes after which a call leaves the connection in use: the refusals,
    and the two by which a write function asks to be called again. -/
def isBenign : Err → Bool
  | invalidArgument | nobuf | invalidState | streamIdBlocked | streamDataBlocked | streamShutWr
  | streamNotFound | writeMore => true
  | _ => false

end Err

/-- `DWNX_MAX_VARINT` -/
def maxVarint : ℕ := 2 ^ 62 - 1

/-- `DWNX_MAX_STREAMS` -/
def maxStreams : ℕ := 2 ^ 60

/-- `DWNX_DEFAULT_MAX_RECORD_SIZE` -/
def defaultMaxRecordSize : ℕ := 16382

/-- `UINT64_MAX` -/
def uint64Max : ℕ := 2 ^ 64 - 1

/-- `DWNX_MILLISECONDS`, in nanoseconds. -/
def milliseconds : ℕ := 1000000

/-- `DWNX_SECONDS`, in nanoseconds. -/
def seconds : ℕ := 1000000000

/-! ## Unsigned 64-bit arithmetic -/

/-- Sum of 64-bit integers. -/
def add64 (a b : ℕ) : ℕ := (a + b) % 2 ^ 64

/-- Difference of 64-bit integers, wrapping below `0`. -/
def sub64 (a b : ℕ) : ℕ := (a + (2 ^ 64 - b)) % 2 ^ 64

/-- Product of 64-bit integers. -/
def mul64 (a b : ℕ) : ℕ := a * b % 2 ^ 64

theorem add64_eq {a b : ℕ} (h : a + b < 2 ^ 64) : add64 a b = a + b := Nat.mod_eq_of_lt h

theorem sub64_eq {a b : ℕ} (h : b ≤ a) (ha : a < 2 ^ 64) : sub64 a b = a - b := by
  unfold sub64
  omega

theorem mul64_eq {a b : ℕ} (h : a * b < 2 ^ 64) : mul64 a b = a * b := Nat.mod_eq_of_lt h

end Dwnx
