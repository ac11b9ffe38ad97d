import Dwnx.Frame

/-!
# The record encoder

A record is a length in two bytes, and frames. The encoder collects frames in
the application's buffer behind the place of the length, and writes the length
last. Between two calls of a write function a record may be under construction
(`started`).
-/

namespace Dwnx

/-- `DWNX_QRE_RECORDLEN_SIZE` -/
def qreRecordlenSize : ℕ := 2

/-- `dwnx_qre`: the size of the buffer, and the frames written to it. -/
structure Qre where
  started : Bool
  buflen : ℕ
  frames : List UInt8
  deriving DecidableEq, Repr

namespace Qre

/-- `dwnx_qre_init` -/
def init : Qre := ⟨false, 0, []⟩

/-- `dwnx_qre_left` -/
def left (qre : Qre) : ℕ := qre.buflen - qreRecordlenSize - qre.frames.length

/-- `dwnx_qre_start` -/
def start (buflen : ℕ) : Except Err Qre :=
  if buflen < qreRecordlenSize then .error (.fault (.assertion .recordLen))
  else .ok ⟨true, min buflen (qreRecordlenSize + defaultMaxRecordSize), []⟩

/-- `dwnx_qre_stream_max_datalen`; none if not even an empty frame fits. -/
def streamMaxDatalen (qre : Qre) (streamId offset len : ℕ) : Except Err (Option ℕ) := do
  let n := 1 + (← putUvarintlen streamId) + (← if offset = 0 then .ok 0 else putUvarintlen offset)
  if qre.left > defaultMaxRecordSize then throw (.fault (.assertion .recordLeft))
  if qre.left ≤ n then return none
  let left := qre.left - n
  if left > 2 + 63 ∧ len > 63 then return some (min (min len 16383) (left - 2))
  return some (min (min len 63) (left - 1))

/-- `dwnx_qre_encode_frame` -/
def encodeFrame (qre : Qre) (fr : Frame) : Except Err Qre := do
  return { qre with frames := qre.frames ++ (← frameEncode qre.left fr) }

/-- `dwnx_qre_final`: the record, empty if it has no frames. -/
def final (qre : Qre) : Except Err (List UInt8) :=
  if qre.frames = [] then .ok []
  else do return (← putUvarintw2 qre.frames.length) ++ qre.frames

/-- `dwnx_qre_reset` -/
def reset (qre : Qre) : Qre := { qre with started := false }

end Qre

end Dwnx
