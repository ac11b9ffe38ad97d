import Dwnx.Wire

/-!
# Decoding a frame in one go

`frdDecode` reads a frame from a buffer that begins with it. The decoders go over the
fields twice: they first sum up the lengths, and refuse a frame that the buffer cuts
short, and then read the values.
-/

namespace Dwnx

/-! ## The two passes -/

/-- Goes over the integer at `p`, of which one byte is counted in `len` already. -/
def passUvarint (payloadlen len : ℕ) (p : List UInt8) : Except Err (ℕ × List UInt8) := do
  let n ← uvarintlenAt p
  let len := len + (n - 1)
  if payloadlen < len then throw .frameEncoding
  return (len, p.drop n)

/-- Goes over an integer of which nothing is counted yet. -/
def passNext (payloadlen len : ℕ) (p : List UInt8) : Except Err (ℕ × List UInt8) := do
  if payloadlen < len + 1 then throw .frameEncoding
  passUvarint payloadlen (len + 1) p

/-- Goes over the integer at `p` and the bytes of which it is the number: the width of
    the integer, the number, and the length of the frame. -/
def passLength (payloadlen len : ℕ) (p : List UInt8) : Except Err (ℕ × ℕ × ℕ) := do
  let n ← uvarintlenAt p
  let (len, _) ← passUvarint payloadlen len p
  let (vi, _) ← uvarintAt p
  if payloadlen - len < vi then throw .frameEncoding
  return (n, vi, len + vi)

/-- Goes over a length of which nothing is counted yet, and the bytes. -/
def passNextLength (payloadlen len : ℕ) (p : List UInt8) : Except Err (ℕ × ℕ × ℕ) := do
  if payloadlen < len + 1 then throw .frameEncoding
  passLength payloadlen (len + 1) p

def passUvarints (payloadlen : ℕ) : ℕ → ℕ → List UInt8 → Except Err (ℕ × List UInt8)
  | 0, len, p => return (len, p)
  | k + 1, len, p => do
    let (len, p) ← passUvarint payloadlen len p
    passUvarints payloadlen k len p

def readUvarints : ℕ → List UInt8 → Except Err (List ℕ × List UInt8)
  | 0, p => return ([], p)
  | k + 1, p => do
    let (v, p) ← uvarintAt p
    let (vs, p) ← readUvarints k p
    return (v :: vs, p)

/-- The frame `fr` of `len` bytes, of which `p` is the end. -/
def decoded (payload p : List UInt8) (len : ℕ) (fr : Frame) : Except Err (Frame × ℕ) := do
  if payload.length - p.length ≠ len then throw (.fault (.assertion .decodedLen))
  return (fr, len)

/-- The `k` integers of a frame that has a type of one byte and nothing else. -/
def decodeUvarints (k : ℕ) (payload : List UInt8) (fr : List ℕ → Frame) :
    Except Err (Frame × ℕ) := do
  let len := 1 + k
  if payload.length < len then throw .frameEncoding
  let (len, _) ← passUvarints payload.length k len (payload.drop 1)
  let (vs, p) ← readUvarints k (payload.drop 1)
  decoded payload p len (fr vs)

/-! ## Decoders -/

/-- The type of a frame that has one of one byte. -/
def typeAt (payload : List UInt8) : Except Err ℕ :=
  match payload with
  | [] => .error (.fault .outOfBounds)
  | b :: _ => .ok b.toNat

/-- `dwnx_frame_decode_padding` -/
def frameDecodePadding (payload : List UInt8) : Except Err (Frame × ℕ) := do
  let len := 1 + ((payload.drop 1).takeWhile (· = 0)).length
  return (.padding len, len)

/-- `dwnx_frame_decode_qx_transport_parameters` -/
def frameDecodeQxTransportParameters (payload : List UInt8) : Except Err (Frame × ℕ) := do
  let len := 1 + 1
  if payload.length < len then throw .frameEncoding
  let (len, p) ← passUvarint payload.length len payload
  let (n, paramslen, len) ← passLength payload.length len p
  let (_, p) ← uvarintAt payload
  let p := p.drop n
  match transportParamsDecode (p.take paramslen) with
  | .error (.fault f) => throw (.fault f)
  | .error _ => throw .frameEncoding
  | .ok params => decoded payload (p.drop paramslen) len (.qxTransportParameters params)

/-- `dwnx_frame_decode_qx_ping` -/
def frameDecodeQxPing (payload : List UInt8) : Except Err (Frame × ℕ) := do
  let len := 1 + 1
  if payload.length < len then throw .frameEncoding
  let (len, _) ← passUvarints payload.length 2 len payload
  let (type, p) ← uvarintAt payload
  let (seq, p) ← uvarintAt p
  decoded payload p len (.qxPing ⟨type, seq⟩)

/-- A bit of the type is set. -/
def FrameType.hasBit (type bit : ℕ) : Bool := type / bit % 2 = 1

/-- The first pass over what follows the type of a STREAM frame: the width of the length, the
    length, and the length of the frame. -/
def passStream (payloadlen len type : ℕ) (p : List UInt8) : Except Err (ℕ × ℕ × ℕ) := do
  let (len, p) ← passUvarint payloadlen len p
  let (len, p) ←
    bif FrameType.hasBit type FrameType.streamOffBit then passNext payloadlen len p
    else pure (len, p)
  bif FrameType.hasBit type FrameType.streamLenBit then passNextLength payloadlen len p
  else pure (0, 0, payloadlen)

/-- The second pass: the fields of a STREAM frame, and what is left. -/
def readStream (type ndatalen datalen : ℕ) (p : List UInt8) :
    Except Err (FrameStream × List UInt8) := do
  let (streamId, p) ← uvarintAt p
  let (offset, p) ←
    bif FrameType.hasBit type FrameType.streamOffBit then uvarintAt p else pure (0, p)
  let (datalen, p) :=
    bif FrameType.hasBit type FrameType.streamLenBit then (datalen, p.drop ndatalen)
    else (p.length, p)
  let fr :=
    { flags := type - FrameType.stream
      fin := FrameType.hasBit type FrameType.streamFinBit
      streamId := streamId
      offset := offset
      len := datalen
      data := if datalen ≠ 0 then [p.take datalen] else [] }
  return (fr, p.drop datalen)

/-- `dwnx_frame_decode_stream` -/
def frameDecodeStream (payload : List UInt8) : Except Err (Frame × ℕ) := do
  let len := 1 + 1
  if payload.length < len then throw .frameEncoding
  let type ← typeAt payload
  let (ndatalen, datalen, len) ← passStream payload.length len type (payload.drop 1)
  let (fr, p) ← readStream type ndatalen datalen (payload.drop 1)
  decoded payload p len (.stream fr)

/-- `dwnx_frame_decode_reset_stream` -/
def frameDecodeResetStream (payload : List UInt8) : Except Err (Frame × ℕ) :=
  decodeUvarints 3 payload fun vs => .resetStream ⟨vs.getD 0 0, vs.getD 1 0, vs.getD 2 0⟩

/-- `dwnx_frame_decode_stop_sending` -/
def frameDecodeStopSending (payload : List UInt8) : Except Err (Frame × ℕ) :=
  decodeUvarints 2 payload fun vs => .stopSending ⟨vs.getD 0 0, vs.getD 1 0⟩

/-- `dwnx_frame_decode_max_data` -/
def frameDecodeMaxData (payload : List UInt8) : Except Err (Frame × ℕ) :=
  decodeUvarints 1 payload fun vs => .maxData ⟨vs.getD 0 0⟩

/-- `dwnx_frame_decode_max_stream_data` -/
def frameDecodeMaxStreamData (payload : List UInt8) : Except Err (Frame × ℕ) :=
  decodeUvarints 2 payload fun vs => .maxStreamData ⟨vs.getD 0 0, vs.getD 1 0⟩

/-- `dwnx_frame_decode_max_streams` -/
def frameDecodeMaxStreams (payload : List UInt8) : Except Err (Frame × ℕ) := do
  let type ← typeAt payload
  decodeUvarints 1 payload fun vs => .maxStreams ⟨type, vs.getD 0 0⟩

/-- `dwnx_frame_decode_data_blocked` -/
def frameDecodeDataBlocked (payload : List UInt8) : Except Err (Frame × ℕ) :=
  decodeUvarints 1 payload fun vs => .dataBlocked ⟨vs.getD 0 0⟩

/-- `dwnx_frame_decode_stream_data_blocked` -/
def frameDecodeStreamDataBlocked (payload : List UInt8) : Except Err (Frame × ℕ) :=
  decodeUvarints 2 payload fun vs => .streamDataBlocked ⟨vs.getD 0 0, vs.getD 1 0⟩

/-- `dwnx_frame_decode_streams_blocked` -/
def frameDecodeStreamsBlocked (payload : List UInt8) : Except Err (Frame × ℕ) := do
  let type ← typeAt payload
  decodeUvarints 1 payload fun vs => .streamsBlocked ⟨type, vs.getD 0 0⟩

/-- The first pass over what follows the type of a CONNECTION_CLOSE frame. -/
def passConnectionClose (payloadlen len type : ℕ) (p : List UInt8) :
    Except Err (ℕ × ℕ × ℕ) := do
  let (len, p) ← passUvarint payloadlen len p
  -- here the length is not checked before the next byte is read
  let (len, p) ←
    bif type == FrameType.connectionClose then passUvarint payloadlen (len + 1) p
    else pure (len, p)
  passLength payloadlen len p

/-- The second pass over a CONNECTION_CLOSE frame. -/
def readConnectionClose (type nreasonlen reasonlen : ℕ) (p : List UInt8) :
    Except Err (FrameConnectionClose × List UInt8) := do
  let (errorCode, p) ← uvarintAt p
  let (frameType, p) ←
    bif type == FrameType.connectionClose then uvarintAt p else pure (0, p)
  let p := p.drop nreasonlen
  return (⟨type, errorCode, frameType, reasonlen, p.take reasonlen⟩, p.drop reasonlen)

/-- `dwnx_frame_decode_connection_close` -/
def frameDecodeConnectionClose (payload : List UInt8) : Except Err (Frame × ℕ) := do
  let len := 1 + 1 + 1
  if payload.length < len then throw .frameEncoding
  let type ← typeAt payload
  let (nreasonlen, reasonlen, len) ← passConnectionClose payload.length len type (payload.drop 1)
  let (fr, p) ← readConnectionClose type nreasonlen reasonlen (payload.drop 1)
  decoded payload p len (.connectionClose fr)

/-- `dwnx_frame_decode_datagram` -/
def frameDecodeDatagram (payload : List UInt8) : Except Err (Frame × ℕ) := do
  let len := 1
  let type ← typeAt payload
  let p := payload.drop 1
  let (n, datalen, len) ←
    bif type == FrameType.datagramLen then passNextLength payload.length len p
    else pure (0, p.length, payload.length)
  let p := p.drop n
  decoded payload (p.drop datalen) len (.datagram
    ⟨type, datalen, if datalen ≠ 0 then [p.take datalen] else []⟩)

/-- `dwnx_frd_decode`: the frame and its length. -/
def frdDecode (payload : List UInt8) : Except Err (Frame × ℕ) :=
  match payload with
  | [] => .error .frameEncoding
  | b :: _ =>
    let type := b.toNat
    if type = FrameType.padding then frameDecodePadding payload
    else if type = FrameType.resetStream then frameDecodeResetStream payload
    else if type = FrameType.stopSending then frameDecodeStopSending payload
    else if type = FrameType.maxData then frameDecodeMaxData payload
    else if type = FrameType.maxStreamData then frameDecodeMaxStreamData payload
    else if type = FrameType.maxStreamsBidi ∨ type = FrameType.maxStreamsUni then
      frameDecodeMaxStreams payload
    else if type = FrameType.dataBlocked then frameDecodeDataBlocked payload
    else if type = FrameType.streamDataBlocked then frameDecodeStreamDataBlocked payload
    else if type = FrameType.streamsBlockedBidi ∨ type = FrameType.streamsBlockedUni then
      frameDecodeStreamsBlocked payload
    else if type = FrameType.connectionClose ∨ type = FrameType.connectionCloseApp then
      frameDecodeConnectionClose payload
    else if type = FrameType.datagram ∨ type = FrameType.datagramLen then
      frameDecodeDatagram payload
    -- the type is `DWNX_FRAME_STREAM` but for its last three bits
    else if type / 8 = 1 then frameDecodeStream payload
    else if getUvarintlen b > payload.length then .error .frameEncoding
    else do
      let (longType, _) ← uvarintAt payload
      if longType = FrameType.qxTransportParameters then frameDecodeQxTransportParameters payload
      else if longType = FrameType.qxPingRequest ∨ longType = FrameType.qxPingResponse then
        frameDecodeQxPing payload
      else throw .frameEncoding

/-! ## The format of a frame -/

/-- `k` integers, one after the other. -/
def getUvarints : ℕ → List UInt8 → Option (List ℕ × List UInt8)
  | 0, p => some ([], p)
  | k + 1, p => do
    let (v, p) ← getUvarint p
    let (vs, p) ← getUvarints k p
    return (v :: vs, p)

/-- A length, and as many bytes. -/
def getBytes (p : List UInt8) : Option (List UInt8 × List UInt8) := do
  let (n, p) ← getUvarint p
  if p.length < n then none else some (p.take n, p.drop n)

/-- A sequence of vectors that holds the bytes `data`. -/
def vecsOf (data : List UInt8) : Vecs := if data.length ≠ 0 then [data] else []

/-- Data in vectors is the data. -/
@[simp] theorem flatten_vecsOf (data : List UInt8) : (vecsOf data).flatten = data := by
  unfold vecsOf
  split
  · exact List.flatten_singleton
  · next h => exact (List.length_eq_zero_iff.1 (not_not.1 h)).symm

/-- What follows the type of a STREAM frame. -/
def getStream (type : ℕ) (p : List UInt8) : Option (FrameStream × List UInt8) := do
  let (streamId, p) ← getUvarint p
  let (offset, p) ←
    bif FrameType.hasBit type FrameType.streamOffBit then getUvarint p else some (0, p)
  let (data, p) ← bif FrameType.hasBit type FrameType.streamLenBit then getBytes p else some (p, [])
  return (⟨type - FrameType.stream, FrameType.hasBit type FrameType.streamFinBit, streamId, offset,
    data.length, vecsOf data⟩, p)

/-- What follows the type of a CONNECTION_CLOSE frame. -/
def getConnectionClose (type : ℕ) (p : List UInt8) :
    Option (FrameConnectionClose × List UInt8) := do
  let (errorCode, p) ← getUvarint p
  let (frameType, p) ←
    bif type == FrameType.connectionClose then getUvarint p else some (0, p)
  let (reason, p) ← getBytes p
  return (⟨type, errorCode, frameType, reason.length, reason⟩, p)

/-- The frame of which the type is read. -/
def getBody (type : ℕ) (p : List UInt8) : Option (Frame × List UInt8) :=
  let fields (k : ℕ) (fr : List ℕ → Frame) := (getUvarints k p).map fun vp => (fr vp.1, vp.2)
  if type = FrameType.qxTransportParameters then do
    let (data, p) ← getBytes p
    let params ← (transportParamsDecode data).toOption
    return (.qxTransportParameters params, p)
  else if type = FrameType.qxPingRequest ∨ type = FrameType.qxPingResponse then
    fields 1 fun vs => .qxPing ⟨type, vs.getD 0 0⟩
  else if type = FrameType.padding then
    let n := (p.takeWhile (· = 0)).length
    some (.padding (1 + n), p.drop n)
  else if type = FrameType.resetStream then
    fields 3 fun vs => .resetStream ⟨vs.getD 0 0, vs.getD 1 0, vs.getD 2 0⟩
  else if type = FrameType.stopSending then
    fields 2 fun vs => .stopSending ⟨vs.getD 0 0, vs.getD 1 0⟩
  else if type = FrameType.maxData then fields 1 fun vs => .maxData ⟨vs.getD 0 0⟩
  else if type = FrameType.maxStreamData then
    fields 2 fun vs => .maxStreamData ⟨vs.getD 0 0, vs.getD 1 0⟩
  else if type = FrameType.maxStreamsBidi ∨ type = FrameType.maxStreamsUni then
    fields 1 fun vs => .maxStreams ⟨type, vs.getD 0 0⟩
  else if type = FrameType.dataBlocked then fields 1 fun vs => .dataBlocked ⟨vs.getD 0 0⟩
  else if type = FrameType.streamDataBlocked then
    fields 2 fun vs => .streamDataBlocked ⟨vs.getD 0 0, vs.getD 1 0⟩
  else if type = FrameType.streamsBlockedBidi ∨ type = FrameType.streamsBlockedUni then
    fields 1 fun vs => .streamsBlocked ⟨type, vs.getD 0 0⟩
  else if type = FrameType.connectionClose ∨ type = FrameType.connectionCloseApp then
    (getConnectionClose type p).map fun fp => (.connectionClose fp.1, fp.2)
  else if type = FrameType.datagram then some (.datagram ⟨type, p.length, vecsOf p⟩, [])
  else if type = FrameType.datagramLen then
    (getBytes p).map fun dp => (.datagram ⟨type, dp.1.length, vecsOf dp.1⟩, dp.2)
  else if type / 8 = 1 then (getStream type p).map fun fp => (.stream fp.1, fp.2)
  else none

/-- A frame, of which the type is in its shortest form. -/
def getFrame (payload : List UInt8) : Option (Frame × List UInt8) := do
  let (type, p) ← getUvarint payload
  if payload.length - p.length ≠ uvarintLen type then none
  getBody type p

/-! ## The decoders read the format -/

/-- A frame that is cut short is refused. -/
def orRefuse {α : Type} (x : Option α) : Except Err α :=
  match x with
  | none => .error .frameEncoding
  | some a => .ok a

section

variable {payloadlen len k : ℕ} {p r : List UInt8}

/-- The first pass over an integer, where `k` bytes after it are counted in `len`. -/
theorem passUvarint_eq (hlen : len + p.length = payloadlen + (k + 1)) (hp : 0 < p.length) :
    passUvarint payloadlen len p =
      orRefuse ((getUvarint p).bind fun vr =>
        if vr.2.length < k then none else some (payloadlen + k - vr.2.length, vr.2)) := by
  obtain ⟨b, p, rfl⟩ := List.exists_cons_of_length_pos hp
  have hb := getUvarintlen_pos b
  change (if payloadlen < len + (getUvarintlen b - 1) then _ else _) = _
  rcases Nat.lt_or_ge (b :: p).length (getUvarintlen b) with hlt | hle
  · have hnone : getUvarint (b :: p) = none := if_pos hlt
    rw [hnone, if_pos (by omega)]
    rfl
  · obtain ⟨v, hv⟩ := getUvarint_cons hle
    have hdrop := List.length_drop (i := getUvarintlen b) (l := b :: p)
    rw [hv, Option.bind_some]
    by_cases hroom : ((b :: p).drop (getUvarintlen b)).length < k
    · rw [if_pos hroom, if_pos (by omega)]
      rfl
    · rw [if_neg hroom, if_neg (by omega)]
      exact congrArg (fun len => Except.ok (len, (b :: p).drop (getUvarintlen b)))
        (by dsimp only; omega)

theorem length_getUvarints {vs : List ℕ} (h : getUvarints k p = some (vs, r)) :
    r.length + k ≤ p.length := by
  induction k generalizing p vs with
  | zero =>
    cases h
    exact le_rfl
  | succ k ih =>
    simp only [getUvarints, Option.bind_eq_bind, Option.bind_eq_some_iff, Prod.exists] at h
    obtain ⟨v, q, hv, ws, q', hws, h⟩ := h
    cases h
    obtain ⟨n, hn, hle, rfl⟩ := getUvarint_suffix hv
    have := ih hws
    rw [List.length_drop] at this
    omega

theorem getUvarints_eq_none (h : p.length < k) : getUvarints k p = none := by
  by_contra hne
  obtain ⟨vr, hvr⟩ := Option.ne_none_iff_exists'.1 hne
  have := length_getUvarints hvr
  omega

theorem passUvarints_eq (hlen : len + p.length = payloadlen + k) (hk : k ≤ p.length) :
    passUvarints payloadlen k len p =
      orRefuse ((getUvarints k p).map fun vr => (payloadlen - vr.2.length, vr.2)) := by
  induction k generalizing len p with
  | zero =>
    rw [passUvarints, getUvarints, Option.map_some]
    exact congrArg (fun len => Except.ok (len, p)) (by dsimp only; omega)
  | succ k ih =>
    rw [passUvarints, passUvarint_eq hlen (by omega)]
    cases hv : getUvarint p with
    | none => simp [getUvarints, hv, orRefuse, bind, Except.bind]
    | some vr =>
      rw [Option.bind_some]
      by_cases hroom : vr.2.length < k
      · simp [getUvarints, hv, getUvarints_eq_none hroom, orRefuse, if_pos hroom, bind, Except.bind]
      · rw [if_neg hroom]
        obtain ⟨n, hn, hle, heq⟩ := getUvarint_suffix (v := vr.1) (r := vr.2) hv
        have hdrop := List.length_drop (i := n) (l := p)
        change passUvarints payloadlen k (payloadlen + k - vr.2.length) vr.2 = _
        rw [ih (by rw [heq] at hroom ⊢; omega) (Nat.le_of_not_lt hroom)]
        cases hvs : getUvarints k vr.2 <;> simp [getUvarints, hv, hvs]

theorem readUvarints_of_some {vs : List ℕ} (h : getUvarints k p = some (vs, r)) :
    readUvarints k p = .ok (vs, r) := by
  induction k generalizing p vs with
  | zero =>
    cases h
    rfl
  | succ k ih =>
    simp only [getUvarints, Option.bind_eq_bind, Option.bind_eq_some_iff, Prod.exists] at h
    obtain ⟨v, q, hv, ws, q', hws, h⟩ := h
    cases h
    rw [readUvarints, uvarintAt_of_some hv]
    change (readUvarints k q >>= _) = _
    rw [ih hws]
    rfl

theorem decoded_eq {payload : List UInt8} {fr : Frame} (h : payload.length - p.length = len) :
    decoded payload p len fr = .ok (fr, len) := by
  unfold decoded
  rw [if_neg (not_not.2 h)]
  rfl

end

/-- A frame of the format, with its length. -/
def withLength (payload : List UInt8) (x : Option (Frame × List UInt8)) : Except Err (Frame × ℕ) :=
  orRefuse (x.map fun fp => (fp.1, payload.length - fp.2.length))

theorem decodeUvarints_eq {k : ℕ} {b : UInt8} {p : List UInt8} {fr : List ℕ → Frame} :
    decodeUvarints k (b :: p) fr =
      withLength (b :: p) ((getUvarints k p).map fun vp => (fr vp.1, vp.2)) := by
  unfold decodeUvarints
  by_cases hlen : (b :: p).length < 1 + k
  · rw [getUvarints_eq_none (by rw [List.length_cons] at hlen; omega)]
    exact if_pos hlen
  · rw [List.length_cons] at hlen
    have hpass : passUvarints (b :: p).length k (1 + k) p =
        orRefuse ((getUvarints k p).map fun vr => ((b :: p).length - vr.2.length, vr.2)) :=
      passUvarints_eq (by rw [List.length_cons]; omega) (by omega)
    dsimp only
    rw [if_neg (by rw [List.length_cons]; omega), List.drop_one, List.tail_cons]
    simp only [bind, Except.bind]
    rw [hpass]
    cases hvs : getUvarints k p with
    | none => rfl
    | some vr =>
      dsimp only [Option.map, orRefuse]
      rw [readUvarints_of_some hvs]
      exact decoded_eq rfl

theorem getBytes_of_some {p d r : List UInt8} (h : getBytes p = some (d, r)) :
    getUvarint p = some (d.length, d ++ r) := by
  simp only [getBytes, Option.bind_eq_bind, Option.bind_eq_some_iff, Prod.exists] at h
  obtain ⟨n, q, hn, h⟩ := h
  split at h
  · cases h
  · next hle =>
    obtain ⟨rfl, rfl⟩ := Prod.mk.inj (Option.some.inj h)
    rw [hn, List.take_append_drop, List.length_take_of_le (Nat.le_of_not_lt hle)]

/-- The first pass over a length and the bytes of which it is the number. -/
theorem passLength_eq {payloadlen len : ℕ} {p : List UInt8} (hlen : len + p.length = payloadlen + 1)
    (hp : p ≠ []) :
    passLength payloadlen len p = orRefuse ((getBytes p).map fun dr =>
      (p.length - (dr.1 ++ dr.2).length, dr.1.length, payloadlen - dr.2.length)) := by
  obtain ⟨b, p, rfl⟩ := List.exists_cons_of_ne_nil hp
  have hpos := List.length_pos_iff.2 hp
  change (passUvarint payloadlen len (b :: p) >>= _) = _
  rw [passUvarint_eq (k := 0) hlen hpos]
  cases hv : getUvarint (b :: p) with
  | none => simp [getBytes, hv, orRefuse, bind, Except.bind]
  | some vr =>
    obtain ⟨v, r⟩ := vr
    obtain ⟨n, hn, hle, heq⟩ := getUvarint_suffix hv
    have hwidth : getUvarintlen b = (b :: p).length - r.length := by
      simp only [getUvarint] at hv
      split at hv
      · cases hv
      · obtain ⟨-, rfl⟩ := Prod.mk.inj (Option.some.inj hv)
        rw [List.length_drop]
        omega
    have hdrop := List.length_drop (i := n) (l := b :: p)
    rw [← heq] at hdrop
    rw [Option.bind_some, if_neg (Nat.not_lt_zero _)]
    change (uvarintAt (b :: p) >>= _) = _
    rw [uvarintAt_of_some hv]
    change (if payloadlen - (payloadlen + 0 - r.length) < v then _ else _) = _
    simp only [getBytes, hv, Option.bind_eq_bind, Option.bind_some]
    by_cases hroom : r.length < v
    · rw [if_pos hroom, if_pos (by omega)]
      rfl
    · rw [if_neg hroom, if_neg (by omega), hwidth]
      simp only [Option.map_some, orRefuse, List.take_append_drop, List.length_drop,
        List.length_take_of_le (Nat.le_of_not_lt hroom)]
      exact congrArg (fun len => Except.ok ((b :: p).length - r.length, v, len)) (by omega)

theorem passNext_eq {payloadlen len : ℕ} {p : List UInt8} (hlen : len + p.length = payloadlen) :
    passNext payloadlen len p =
      orRefuse ((getUvarint p).map fun vr => (payloadlen - vr.2.length, vr.2)) := by
  unfold passNext
  cases p with
  | nil => exact if_pos (by rw [List.length_nil] at hlen; omega)
  | cons b p =>
    rw [List.length_cons] at hlen
    rw [if_neg (by omega)]
    change passUvarint payloadlen (len + 1) (b :: p) = _
    rw [passUvarint_eq (k := 0) (by rw [List.length_cons]; omega) (by simp)]
    cases getUvarint (b :: p) <;> rfl

/-- What `getBytes` leaves, in terms of the width of the length. -/
theorem drop_getBytes {p d r : List UInt8} (h : getBytes p = some (d, r)) :
    p.drop (p.length - (d ++ r).length) = d ++ r := by
  obtain ⟨n, hn, hle, heq⟩ := getUvarint_suffix (getBytes_of_some h)
  rw [heq, List.length_drop]
  congr 1
  omega

theorem vecsOf_eq (data : List UInt8) :
    (if data.length ≠ 0 then [data.take data.length] else []) = vecsOf data := by
  rw [List.take_length]
  rfl

theorem passNextLength_eq {payloadlen len : ℕ} {p : List UInt8}
    (hlen : len + p.length = payloadlen) :
    passNextLength payloadlen len p = orRefuse ((getBytes p).map fun dr =>
      (p.length - (dr.1 ++ dr.2).length, dr.1.length, payloadlen - dr.2.length)) := by
  unfold passNextLength
  cases p with
  | nil => exact if_pos (by rw [List.length_nil] at hlen; omega)
  | cons b p =>
    rw [List.length_cons] at hlen
    rw [if_neg (by omega)]
    change passLength payloadlen (len + 1) (b :: p) = _
    exact passLength_eq (by rw [List.length_cons]; omega) (List.cons_ne_nil b p)

/-- The bytes of a length-prefixed field, found by the width of the length. -/
theorem getBytes_drop {p d r : List UInt8} (h : getBytes p = some (d, r)) :
    (p.drop (p.length - (d ++ r).length)).take d.length = d ∧
      (p.drop (p.length - (d ++ r).length)).drop d.length = r := by
  rw [drop_getBytes h]
  exact ⟨List.take_left, List.drop_left⟩

/-- The first pass over an integer that is there if `c` says so. -/
theorem passOptional_eq (c : Bool) {payloadlen len : ℕ} {p : List UInt8}
    (hlen : len + p.length = payloadlen) :
    (bif c then passNext payloadlen len p else pure (len, p)) =
      orRefuse ((bif c then getUvarint p else some (0, p)).map fun vr =>
        (payloadlen - vr.2.length, vr.2)) := by
  cases c with
  | false => exact congrArg (fun len => Except.ok (len, p)) (by dsimp only; omega)
  | true => exact passNext_eq hlen

theorem readOptional_of_some {c : Bool} {v : ℕ} {p r : List UInt8}
    (h : (bif c then getUvarint p else some (0, p)) = some (v, r)) :
    (bif c then uvarintAt p else pure (0, p)) = .ok (v, r) ∧ r.length ≤ p.length := by
  cases c with
  | false =>
    cases h
    exact ⟨rfl, le_rfl⟩
  | true =>
    obtain ⟨n, hn, hle, rfl⟩ := getUvarint_suffix h
    exact ⟨uvarintAt_of_some h, by rw [List.length_drop]; omega⟩

/-- The first pass over the data of a frame that goes to the end unless `c`. -/
theorem passData_eq (c : Bool) {payloadlen len : ℕ} {p : List UInt8}
    (hlen : len + p.length = payloadlen) :
    (bif c then passNextLength payloadlen len p else pure (0, 0, payloadlen)) =
      orRefuse ((bif c then getBytes p else some (p, [])).map fun dr =>
        (bif c then p.length - (dr.1 ++ dr.2).length else 0, bif c then dr.1.length else 0,
          payloadlen - dr.2.length)) := by
  cases c with
  | false => rfl
  | true => exact passNextLength_eq hlen

theorem length_getUvarint {v : ℕ} {p r : List UInt8} (h : getUvarint p = some (v, r)) :
    r.length < p.length := by
  obtain ⟨n, hn, hle, rfl⟩ := getUvarint_suffix h
  rw [List.length_drop]
  omega

theorem frameDecodeStream_eq (b : UInt8) (p : List UInt8) :
    frameDecodeStream (b :: p) =
      withLength (b :: p) ((getStream b.toNat p).map fun fp => (.stream fp.1, fp.2)) := by
  have hlen : (b :: p).length = p.length + 1 := rfl
  -- A frame of one byte has no stream identifier.
  rcases p.eq_nil_or_concat' with rfl | ⟨p', c, hp⟩
  · rfl
  have hpos : 0 < p.length := by rw [hp, List.length_append, List.length_singleton]; omega
  have hdrop : (b :: p).drop 1 = p := rfl
  unfold frameDecodeStream getStream passStream readStream
  dsimp only
  rw [if_neg (by omega), hdrop]
  simp only [typeAt, bind, Except.bind]
  rw [passUvarint_eq (k := 0) (by omega) hpos]
  generalize FrameType.hasBit b.toNat FrameType.streamOffBit = hasOffset
  generalize FrameType.hasBit b.toNat FrameType.streamLenBit = hasLength
  cases hid : getUvarint p with
  | none => rfl
  | some vr =>
    obtain ⟨id, p₁⟩ := vr
    have h₁ := length_getUvarint hid
    simp only [Option.bind_some, if_neg (Nat.not_lt_zero _), orRefuse, Nat.add_zero,
      uvarintAt_of_some hid]
    rw [passOptional_eq hasOffset (by omega)]
    cases hoffset : (bif hasOffset then getUvarint p₁ else some (0, p₁)) with
    | none => rfl
    | some vr =>
      obtain ⟨offset, p₂⟩ := vr
      obtain ⟨hread, h₂⟩ := readOptional_of_some hoffset
      simp only [Option.map_some, orRefuse, Option.bind_some, hread]
      rw [passData_eq hasLength (by omega)]
      cases hdata : (bif hasLength then getBytes p₂ else some (p₂, [])) with
      | none => rfl
      | some dr =>
        obtain ⟨data, r⟩ := dr
        simp only [Option.map_some, orRefuse, Option.bind_some, pure, Except.pure]
        -- Without a length the data runs to the end.
        cases hasLength with
        | false =>
          cases hdata
          simp only [cond_false, List.drop_length, vecsOf_eq]
          exact decoded_eq rfl
        | true =>
          obtain ⟨htake, hrest⟩ := getBytes_drop hdata
          simp only [cond_true, htake, hrest]
          exact decoded_eq rfl

/-- The first pass over an integer that is there if `c` says so, and before a length. -/
theorem passBefore_eq (c : Bool) {payloadlen len : ℕ} {p : List UInt8}
    (hlen : len + p.length = payloadlen + 1) (hp : 0 < p.length) :
    (bif c then passUvarint payloadlen (len + 1) p else pure (len, p)) =
      orRefuse ((bif c then getUvarint p else some (0, p)).bind fun vr =>
        if vr.2.length < 1 then none else some (payloadlen + 1 - vr.2.length, vr.2)) := by
  cases c with
  | false =>
    simp only [cond_false, Option.bind_some, if_neg (Nat.not_lt.2 hp)]
    exact congrArg (fun len => Except.ok (len, p)) (by omega)
  | true => exact passUvarint_eq (k := 1) (by omega) hp

/-- A CONNECTION_CLOSE frame does not end with its error code. -/
theorem getConnectionClose_short {type : ℕ} {p : List UInt8}
    (h : ∀ e r, getUvarint p = some (e, r) → r = []) : getConnectionClose type p = none := by
  unfold getConnectionClose
  cases he : getUvarint p with
  | none => rfl
  | some vr =>
    obtain ⟨e, r⟩ := vr
    obtain rfl := h e r he
    cases hc : type == FrameType.connectionClose <;> rfl

theorem frameDecodeConnectionClose_eq (b : UInt8) (p : List UInt8) :
    frameDecodeConnectionClose (b :: p) = withLength (b :: p)
      ((getConnectionClose b.toNat p).map fun fp => (.connectionClose fp.1, fp.2)) := by
  have hlen : (b :: p).length = p.length + 1 := rfl
  have hdrop : (b :: p).drop 1 = p := rfl
  have hnil : getBytes [] = none := rfl
  unfold frameDecodeConnectionClose passConnectionClose readConnectionClose
  dsimp only
  rcases Nat.lt_or_ge (b :: p).length (1 + 1 + 1) with hshort | hroom
  · -- no room for both integers
    have hnone : getConnectionClose b.toNat p = none := getConnectionClose_short fun e r he =>
      List.length_eq_zero_iff.1 (by have := length_getUvarint he; omega)
    rw [if_pos hshort, hnone]
    rfl
  · rw [if_neg (by omega), hdrop]
    simp only [typeAt, bind, Except.bind]
    rw [passUvarint_eq (k := 1) (by omega) (by omega)]
    cases herror : getUvarint p with
    | none => rw [getConnectionClose_short fun e r he => by rw [he] at herror; cases herror]; rfl
    | some vr =>
      obtain ⟨errorCode, p₁⟩ := vr
      have h₁ := length_getUvarint herror
      simp only [Option.bind_some]
      by_cases hp₁ : p₁.length < 1
      · have hnone : getConnectionClose b.toNat p = none :=
          getConnectionClose_short fun e r he => by
          obtain ⟨-, rfl⟩ := Prod.mk.inj (Option.some.inj (herror.symm.trans he))
          exact List.length_eq_zero_iff.1 (by omega)
        rw [if_pos hp₁, hnone]
        rfl
      · unfold getConnectionClose
        generalize (b.toNat == FrameType.connectionClose) = hasFrameType
        simp only [herror, bind, Option.bind_some, if_neg hp₁, orRefuse, uvarintAt_of_some herror]
        rw [passBefore_eq hasFrameType (by omega) (by omega)]
        cases hft : (bif hasFrameType then getUvarint p₁ else some (0, p₁)) with
        | none => rfl
        | some vr =>
          obtain ⟨frameType, p₂⟩ := vr
          obtain ⟨hread, h₂⟩ := readOptional_of_some hft
          simp only [Option.bind_some, hread]
          by_cases hp₂ : p₂.length < 1
          · obtain rfl : p₂ = [] := List.length_eq_zero_iff.1 (by omega)
            rw [hnil]
            rfl
          · simp only [if_neg hp₂, orRefuse]
            rw [passLength_eq (by omega) (List.length_pos_iff.1 (by omega))]
            cases hreason : getBytes p₂ with
            | none => rfl
            | some dr =>
              obtain ⟨reason, r⟩ := dr
              obtain ⟨htake, hrest⟩ := getBytes_drop hreason
              simp only [Option.map_some, orRefuse, Option.bind_some, pure, Except.pure, htake,
                hrest]
              exact decoded_eq rfl

theorem frameDecodeDatagram_eq (b : UInt8) (p : List UInt8) :
    frameDecodeDatagram (b :: p) = withLength (b :: p)
      ((bif b.toNat == FrameType.datagramLen then getBytes p else some (p, [])).map fun dr =>
        (.datagram ⟨b.toNat, dr.1.length, vecsOf dr.1⟩, dr.2)) := by
  have hlen : (b :: p).length = p.length + 1 := rfl
  have hdrop : (b :: p).drop 1 = p := rfl
  unfold frameDecodeDatagram
  simp only [typeAt, bind, Except.bind, hdrop]
  generalize (b.toNat == FrameType.datagramLen) = hasLength
  cases hasLength with
  | false =>
    simp only [cond_false, pure, Except.pure, List.drop_zero, List.drop_length, vecsOf_eq,
      Option.map_some]
    exact decoded_eq rfl
  | true =>
    simp only [cond_true]
    rw [passNextLength_eq (by omega)]
    cases hdata : getBytes p with
    | none => rfl
    | some dr =>
      obtain ⟨data, r⟩ := dr
      obtain ⟨htake, hrest⟩ := getBytes_drop hdata
      simp only [Option.map_some, orRefuse, htake, hrest]
      exact decoded_eq rfl

theorem frameDecodePadding_eq (b : UInt8) (p : List UInt8) :
    frameDecodePadding (b :: p) = withLength (b :: p)
      (some (.padding (1 + (p.takeWhile (· = 0)).length),
        p.drop (p.takeWhile (· = 0)).length)) := by
  have hle := ( List.takeWhile_prefix (l := p) (· = 0)).length_le
  change Except.ok (_, _) = Except.ok (_, _)
  simp only [List.drop_one, List.tail_cons, List.length_drop, List.length_cons]
  congr 2
  omega

section

variable {payload p : List UInt8} {type : ℕ}

theorem frameDecodeQxPing_eq (h : getUvarint payload = some (type, p)) :
    frameDecodeQxPing payload = withLength payload
      ((getUvarints 1 p).map fun vp => (.qxPing ⟨type, vp.1.getD 0 0⟩, vp.2)) := by
  have hlt := length_getUvarint h
  unfold frameDecodeQxPing
  dsimp only
  by_cases hlen : payload.length < 1 + 1
  · rw [if_pos hlen, getUvarints_eq_none (by omega)]
    rfl
  · rw [if_neg hlen]
    simp only [bind, Except.bind]
    rw [passUvarints_eq (by omega) (by omega)]
    cases hseq : getUvarint p with
    | none => simp [getUvarints, h, hseq, orRefuse, withLength]
    | some vr =>
      simp only [getUvarints, h, hseq, uvarintAt_of_some h, uvarintAt_of_some hseq, orRefuse,
        Option.bind_eq_bind, Option.bind_some, Option.pure_def, Option.map_some]
      exact decoded_eq rfl

theorem frameDecodeQxTransportParameters_eq (h : getUvarint payload = some (type, p)) :
    frameDecodeQxTransportParameters payload = withLength payload
      ((getBytes p).bind fun dp => (transportParamsDecode dp.1).toOption.map fun params =>
        (.qxTransportParameters params, dp.2)) := by
  have hlt := length_getUvarint h
  have hnil : getBytes [] = none := rfl
  unfold frameDecodeQxTransportParameters
  dsimp only
  by_cases hlen : payload.length < 1 + 1
  · obtain rfl : p = [] := List.length_eq_zero_iff.1 (by omega)
    rw [if_pos hlen, hnil]
    rfl
  · rw [if_neg hlen]
    simp only [bind, Except.bind]
    rw [passUvarint_eq (k := 1) (by omega) (by omega), h, Option.bind_some]
    dsimp only
    by_cases hp : p.length < 1
    · obtain rfl : p = [] := List.length_eq_zero_iff.1 (by omega)
      rw [if_pos hp, hnil]
      rfl
    · simp only [if_neg hp, orRefuse]
      rw [passLength_eq (by omega) (List.length_pos_iff.1 (by omega))]
      cases hdata : getBytes p with
      | none => rfl
      | some dr =>
        obtain ⟨data, r⟩ := dr
        obtain ⟨htake, hrest⟩ := getBytes_drop hdata
        simp only [Option.map_some, orRefuse, uvarintAt_of_some h, htake, hrest, Option.bind_some]
        cases hdec : transportParamsDecode data with
        | error e =>
          rw [transportParamsDecode_err hdec]
          rfl
        | ok params => exact decoded_eq rfl

end

theorem getUvarint_byte {b : UInt8} (hb : b.toNat < 64) (p : List UInt8) :
    getUvarint (b :: p) = some (b.toNat, p) := by
  have hlen : getUvarintlen b = 1 := by rw [getUvarintlen_eq, Nat.div_eq_of_lt hb]; rfl
  have hnat : beNat [b] = b.toNat := by simp [beNat]
  rw [getUvarint]
  simp only [hlen, List.length_cons, List.take_succ_cons, List.take_zero, List.drop_succ_cons,
    List.drop_zero, hnat]
  rw [if_neg (by omega), Nat.mod_eq_of_lt (by omega)]

/-- An integer takes no less than its shortest form. -/
theorem uvarintLen_le_of_get {b : UInt8} {p r : List UInt8} {v : ℕ}
    (h : getUvarint (b :: p) = some (v, r)) :
    uvarintLen v ≤ getUvarintlen b ∧ (b :: p).length - r.length = getUvarintlen b := by
  simp only [getUvarint] at h
  split at h
  · cases h
  · next hle =>
    obtain ⟨rfl, rfl⟩ := Prod.mk.inj (Option.some.inj h)
    have hlt := Nat.mod_lt (beNat ((b :: p).take (getUvarintlen b)))
      (Nat.two_pow_pos (8 * getUvarintlen b - 2))
    refine ⟨?_, by rw [List.length_drop]; omega⟩
    have hmem := getUvarintlen_mem b
    simp only [List.mem_cons, List.not_mem_nil, or_false] at hmem
    generalize beNat ((b :: p).take (getUvarintlen b)) % 2 ^ (8 * getUvarintlen b - 2) = v at hlt
    unfold uvarintLen
    rcases hmem with hn | hn | hn | hn <;> rw [hn] at hlt ⊢ <;> split_ifs <;> omega

/-- Types of more than one byte. -/
theorem getBody_long {type : ℕ} (h : 64 ≤ type) (hp : type ≠ FrameType.qxTransportParameters)
    (hreq : type ≠ FrameType.qxPingRequest) (hres : type ≠ FrameType.qxPingResponse)
    (p : List UInt8) : getBody type p = none := by
  have hne {t : ℕ} (ht : t < 64) : ¬type = t := by omega
  unfold getBody
  dsimp only
  rw [if_neg hp, if_neg (not_or.2 ⟨hreq, hres⟩), if_neg (hne (by decide)), if_neg (hne (by decide)),
    if_neg (hne (by decide)), if_neg (hne (by decide)), if_neg (hne (by decide)),
    if_neg (not_or.2 ⟨hne (by decide), hne (by decide)⟩), if_neg (hne (by decide)),
    if_neg (hne (by decide)), if_neg (not_or.2 ⟨hne (by decide), hne (by decide)⟩),
    if_neg (not_or.2 ⟨hne (by decide), hne (by decide)⟩), if_neg (hne (by decide)),
    if_neg (hne (by decide)), if_neg (by omega)]

theorem getFrame_byte {b : UInt8} (hb : b.toNat < 64) (p : List UInt8) :
    getFrame (b :: p) = getBody b.toNat p := by
  have hone : uvarintLen b.toNat = 1 := if_pos hb
  unfold getFrame
  simp only [getUvarint_byte hb, Option.bind_eq_bind, Option.bind_some, hone, List.length_cons]
  exact if_neg (by omega)

theorem withLength_ite {c : Prop} [Decidable c] {payload : List UInt8}
    {x y : Except Err (Frame × ℕ)} {u v : Option (Frame × List UInt8)}
    (hx : c → x = withLength payload u) (hy : ¬c → y = withLength payload v) :
    (if c then x else y) = withLength payload (if c then u else v) := by
  split
  · next h => exact hx h
  · next h => exact hy h

theorem typeAt_cons {b : UInt8} {p : List UInt8} {f : ℕ → Except Err (Frame × ℕ)} :
    (typeAt (b :: p) >>= f) = f b.toNat := rfl

/-- Types of one byte. -/
theorem frdDecode_byte {b : UInt8} (hb : b.toNat < 64) (p : List UInt8) :
    frdDecode (b :: p) = withLength (b :: p) (getBody b.toNat p) := by
  have hne {t : ℕ} (ht : 64 ≤ t) : ¬b.toNat = t := by omega
  have hlen : ¬getUvarintlen b > (b :: p).length := by
    rw [getUvarintlen_eq, Nat.div_eq_of_lt hb]
    exact Nat.not_lt.2 (Nat.succ_pos _)
  conv_rhs =>
    unfold getBody
    dsimp only
    rw [if_neg (hne (by decide)), if_neg (not_or.2 ⟨hne (by decide), hne (by decide)⟩)]
  refine withLength_ite (fun _ => frameDecodePadding_eq b p) fun _ => ?_
  refine withLength_ite (fun _ => decodeUvarints_eq) fun _ => ?_
  refine withLength_ite (fun _ => decodeUvarints_eq) fun _ => ?_
  refine withLength_ite (fun _ => decodeUvarints_eq) fun _ => ?_
  refine withLength_ite (fun _ => decodeUvarints_eq) fun _ => ?_
  refine withLength_ite (fun _ => typeAt_cons.trans decodeUvarints_eq) fun _ => ?_
  refine withLength_ite (fun _ => decodeUvarints_eq) fun _ => ?_
  refine withLength_ite (fun _ => decodeUvarints_eq) fun _ => ?_
  refine withLength_ite (fun _ => typeAt_cons.trans decodeUvarints_eq) fun _ => ?_
  refine withLength_ite (fun _ => frameDecodeConnectionClose_eq b p) fun _ => ?_
  by_cases hgram : b.toNat = FrameType.datagram
  · have hbit : (b.toNat == FrameType.datagramLen) = false := by rw [hgram]; rfl
    rw [if_pos (.inl hgram), if_pos hgram, frameDecodeDatagram_eq, hbit]
    rfl
  rw [if_neg hgram]
  have hor : b.toNat = FrameType.datagram ∨ b.toNat = FrameType.datagramLen ↔
      b.toNat = FrameType.datagramLen := or_iff_right hgram
  rw [if_congr hor rfl rfl]
  refine withLength_ite (fun h => ?_) fun _ => ?_
  · have hbit : (b.toNat == FrameType.datagramLen) = true := beq_iff_eq.2 h
    rw [frameDecodeDatagram_eq, hbit]
    rfl
  refine withLength_ite (fun _ => frameDecodeStream_eq b p) fun _ => ?_
  rw [if_neg hlen, uvarintAt_of_some (getUvarint_byte hb p)]
  change (if _ then _ else _) = _
  rw [if_neg (hne (by decide)), if_neg (not_or.2 ⟨hne (by decide), hne (by decide)⟩)]
  rfl

theorem getBody_params (p : List UInt8) : getBody FrameType.qxTransportParameters p =
    (getBytes p).bind fun dp => (transportParamsDecode dp.1).toOption.map fun params =>
      (.qxTransportParameters params, dp.2) := by
  change ((getBytes p).bind fun dp => (transportParamsDecode dp.1).toOption.bind _) = _
  congr 1
  funext dp
  cases (transportParamsDecode dp.1).toOption <;> rfl

/-- Types of more than one byte. -/
theorem frdDecode_long {b : UInt8} (hb : 64 ≤ b.toNat) (p : List UInt8) :
    frdDecode (b :: p) = withLength (b :: p) (getFrame (b :: p)) := by
  -- The first byte is none of the types of one byte.
  have hne {t : ℕ} (ht : t < 64) : ¬b.toNat = t := by omega
  have htwo : 2 ≤ getUvarintlen b := by
    rw [getUvarintlen_eq]
    exact Nat.le_self_pow (by omega) 2
  unfold frdDecode
  dsimp only
  rw [if_neg (hne (by decide)), if_neg (hne (by decide)), if_neg (hne (by decide)),
    if_neg (hne (by decide)), if_neg (hne (by decide)),
    if_neg (not_or.2 ⟨hne (by decide), hne (by decide)⟩), if_neg (hne (by decide)),
    if_neg (hne (by decide)), if_neg (not_or.2 ⟨hne (by decide), hne (by decide)⟩),
    if_neg (not_or.2 ⟨hne (by decide), hne (by decide)⟩),
    if_neg (not_or.2 ⟨hne (by decide), hne (by decide)⟩), if_neg (by omega)]
  unfold getFrame
  cases hv : getUvarint (b :: p) with
  | none =>
    rw [if_pos (getUvarint_eq_none.1 hv b rfl)]
    rfl
  | some vr =>
    obtain ⟨v, r⟩ := vr
    obtain ⟨hmin, hwidth⟩ := uvarintLen_le_of_get hv
    have hle : ¬getUvarintlen b > (b :: p).length := by omega
    have h8 := getUvarintlen_le b
    rw [if_neg hle, uvarintAt_of_some hv]
    change (if v = _ then _ else if _ then _ else _) = _
    simp only [Option.bind_eq_bind, Option.bind_some, hwidth]
    -- Types of eight bytes.
    by_cases hp : v = FrameType.qxTransportParameters
    · subst hp
      have h8 : uvarintLen FrameType.qxTransportParameters = 8 := rfl
      rw [if_pos rfl, if_neg (by omega), getBody_params]
      exact frameDecodeQxTransportParameters_eq hv
    rw [if_neg hp]
    by_cases hping : v = FrameType.qxPingRequest ∨ v = FrameType.qxPingResponse
    · have h8 : uvarintLen v = 8 := by rcases hping with rfl | rfl <;> rfl
      rw [if_pos hping, if_neg (by omega), frameDecodeQxPing_eq hv]
      unfold getBody
      dsimp only
      rw [if_neg hp, if_pos hping]
    · rw [if_neg hping]
      split
      · rfl
      -- No other type is written in more than one byte.
      · next hshort =>
        have h64 : 64 ≤ v := by
          by_contra hlt
          rw [uvarintLen, if_pos (by omega)] at hshort
          omega
        rw [not_or] at hping
        rw [getBody_long h64 hp hping.1 hping.2]
        rfl

/-- The decoder reads the frame at the front of the buffer, if there is one. -/
theorem frdDecode_eq (payload : List UInt8) :
    frdDecode payload = withLength payload (getFrame payload) := by
  cases payload with
  | nil => rfl
  | cons b p =>
    rcases Nat.lt_or_ge b.toNat 64 with hb | hb
    · rw [frdDecode_byte hb, getFrame_byte hb]
    · exact frdDecode_long hb p

end Dwnx
