import Dwnx.Conv

/-!
# Transport parameters

The parameters an endpoint announces in its first frame, as pairs of an
identifier and a length-prefixed value. Parameters with their default value are
left out by the encoder; the decoder skips the identifiers it does not know and
refuses those QMux forbids. `decode_encode` is the round trip; it loses what the
idle timeout has beyond whole milliseconds.
-/

namespace Dwnx

/-- `dwnx_transport_params`; the idle timeout is in nanoseconds. -/
structure TransportParams where
  initialMaxStreamsBidi : ℕ
  initialMaxStreamsUni : ℕ
  initialMaxStreamDataBidiLocal : ℕ
  initialMaxStreamDataBidiRemote : ℕ
  initialMaxStreamDataUni : ℕ
  initialMaxData : ℕ
  maxIdleTimeout : ℕ
  maxRecordSize : ℕ
  maxDatagramFrameSize : ℕ
  deriving DecidableEq, Repr

/-- `dwnx_transport_params_default` -/
def TransportParams.default : TransportParams where
  initialMaxStreamsBidi := 0
  initialMaxStreamsUni := 0
  initialMaxStreamDataBidiLocal := 0
  initialMaxStreamDataBidiRemote := 0
  initialMaxStreamDataUni := 0
  initialMaxData := 0
  maxIdleTimeout := 0
  maxRecordSize := defaultMaxRecordSize
  maxDatagramFrameSize := 0

/-! ## Identifiers -/

namespace TransportParamId

/-- `DWNX_TRANSPORT_PARAM_ORIGINAL_DESTINATION_CONNECTION_ID` -/
def originalDestinationConnectionId : ℕ := 0x00
/-- `DWNX_TRANSPORT_PARAM_MAX_IDLE_TIMEOUT` -/
def maxIdleTimeout : ℕ := 0x01
/-- `DWNX_TRANSPORT_PARAM_STATELESS_RESET_TOKEN` -/
def statelessResetToken : ℕ := 0x02
/-- `DWNX_TRANSPORT_PARAM_MAX_UDP_PAYLOAD_SIZE` -/
def maxUdpPayloadSize : ℕ := 0x03
/-- `DWNX_TRANSPORT_PARAM_INITIAL_MAX_DATA` -/
def initialMaxData : ℕ := 0x04
/-- `DWNX_TRANSPORT_PARAM_INITIAL_MAX_STREAM_DATA_BIDI_LOCAL` -/
def initialMaxStreamDataBidiLocal : ℕ := 0x05
/-- `DWNX_TRANSPORT_PARAM_INITIAL_MAX_STREAM_DATA_BIDI_REMOTE` -/
def initialMaxStreamDataBidiRemote : ℕ := 0x06
/-- `DWNX_TRANSPORT_PARAM_INITIAL_MAX_STREAM_DATA_UNI` -/
def initialMaxStreamDataUni : ℕ := 0x07
/-- `DWNX_TRANSPORT_PARAM_INITIAL_MAX_STREAMS_BIDI` -/
def initialMaxStreamsBidi : ℕ := 0x08
/-- `DWNX_TRANSPORT_PARAM_INITIAL_MAX_STREAMS_UNI` -/
def initialMaxStreamsUni : ℕ := 0x09
/-- `DWNX_TRANSPORT_PARAM_ACK_DELAY_EXPONENT` -/
def ackDelayExponent : ℕ := 0x0A
/-- `DWNX_TRANSPORT_PARAM_MAX_ACK_DELAY` -/
def maxAckDelay : ℕ := 0x0B
/-- `DWNX_TRANSPORT_PARAM_DISABLE_ACTIVE_MIGRATION` -/
def disableActiveMigration : ℕ := 0x0C
/-- `DWNX_TRANSPORT_PARAM_PREFERRED_ADDRESS` -/
def preferredAddress : ℕ := 0x0D
/-- `DWNX_TRANSPORT_PARAM_ACTIVE_CONNECTION_ID_LIMIT` -/
def activeConnectionIdLimit : ℕ := 0x0E
/-- `DWNX_TRANSPORT_PARAM_INITIAL_SOURCE_CONNECTION_ID` -/
def initialSourceConnectionId : ℕ := 0x0F
/-- `DWNX_TRANSPORT_PARAM_RETRY_SOURCE_CONNECTION_ID` -/
def retrySourceConnectionId : ℕ := 0x10
/-- `DWNX_TRANSPORT_PARAM_MAX_DATAGRAM_FRAME_SIZE` -/
def maxDatagramFrameSize : ℕ := 0x20
/-- `DWNX_TRANSPORT_PARAM_MAX_RECORD_SIZE` -/
def maxRecordSize : ℕ := 0x0571C59429CD0845

/-- The identifiers whose appearance is an error. -/
def forbidden : List ℕ :=
  [maxUdpPayloadSize, statelessResetToken, ackDelayExponent, preferredAddress,
    disableActiveMigration, originalDestinationConnectionId, retrySourceConnectionId,
    initialSourceConnectionId, maxAckDelay, activeConnectionIdLimit]

end TransportParamId

/-! ## Encoding -/

/-- The parameter `id` with its value, where `c` says that it is written. -/
def param (c : Prop) [Decidable c] (id value : ℕ) : List (ℕ × ℕ) := if c then [(id, value)] else []

/-- The parameters that are written, in the order in which they are. -/
def TransportParams.written (params : TransportParams) : List (ℕ × ℕ) :=
  param (params.initialMaxStreamDataBidiLocal ≠ 0)
      TransportParamId.initialMaxStreamDataBidiLocal params.initialMaxStreamDataBidiLocal ++
    param (params.initialMaxStreamDataBidiRemote ≠ 0)
      TransportParamId.initialMaxStreamDataBidiRemote params.initialMaxStreamDataBidiRemote ++
    param (params.initialMaxStreamDataUni ≠ 0)
      TransportParamId.initialMaxStreamDataUni params.initialMaxStreamDataUni ++
    param (params.initialMaxData ≠ 0) TransportParamId.initialMaxData params.initialMaxData ++
    param (params.initialMaxStreamsBidi ≠ 0)
      TransportParamId.initialMaxStreamsBidi params.initialMaxStreamsBidi ++
    param (params.initialMaxStreamsUni ≠ 0)
      TransportParamId.initialMaxStreamsUni params.initialMaxStreamsUni ++
    param (params.maxIdleTimeout ≠ 0)
      TransportParamId.maxIdleTimeout (params.maxIdleTimeout / milliseconds) ++
    param (params.maxRecordSize ≠ defaultMaxRecordSize)
      TransportParamId.maxRecordSize params.maxRecordSize ++
    param (params.maxDatagramFrameSize ≠ 0)
      TransportParamId.maxDatagramFrameSize params.maxDatagramFrameSize

/-- The length of a single parameter. -/
def varintParamlen (id param : ℕ) : Except Err ℕ := do
  let valuelen ← putUvarintlen param
  return (← putUvarintlen id) + (← putUvarintlen valuelen) + valuelen

/-- A single parameter, encoded. -/
def writeVarintParam (id value : ℕ) : Except Err (List UInt8) := do
  let valuelen ← putUvarintlen value
  return putUvarint id ++ putUvarint valuelen ++ putUvarint value

/-- `dwnx_transport_params_encode` without a destination: the length it takes. -/
def transportParamsLen (params : TransportParams) : Except Err ℕ := do
  return (← params.written.mapM fun e => varintParamlen e.1 e.2).sum

/-- `dwnx_transport_params_encode` -/
def transportParamsEncode (destlen : ℕ) (params : TransportParams) :
    Except Err (List UInt8) := do
  let len ← transportParamsLen params
  if destlen < len then throw .nobuf
  let p := (← params.written.mapM fun e => writeVarintParam e.1 e.2).flatten
  if p.length ≠ len then throw (.fault (.assertion .encodedLen))
  return p

/-! ## Decoding -/

/-- `decode_varint`, which returns -1 (`none`) for an integer that is cut short. -/
def decodeVarint (p : List UInt8) : Except Err (Option (ℕ × List UInt8)) := do
  if p = [] then return none
  let len ← uvarintlenAt p
  if p.length < len then return none
  return some (← uvarintAt p)

/-- `decode_varint_param`: a length-prefixed value, whose length must be that of the value. -/
def decodeVarintParam (p : List UInt8) : Except Err (Option (ℕ × List UInt8)) := do
  match ← decodeVarint p with
  | none => return none
  | some (valuelen, p) =>
    if p = [] then return none
    if p.length < valuelen then return none
    let len ← uvarintlenAt p
    if len ≠ valuelen then return none
    return some (← uvarintAt p)

/-- `p` after `n` bytes, which must not be beyond the end of the buffer. -/
def advance (p : List UInt8) (n : ℕ) : Except Err (List UInt8) :=
  if p.length < n then .error (.fault .outOfBounds) else .ok (p.drop n)

/-- Stores the value of the parameter `id`, if it is one that has an integer
    value: `none` for any other identifier, `some none` for a value out of range. -/
def TransportParams.store (dest : TransportParams) (id value : ℕ) :
    Option (Option TransportParams) :=
  if id = TransportParamId.initialMaxStreamDataBidiLocal then
    some (some { dest with initialMaxStreamDataBidiLocal := value })
  else if id = TransportParamId.initialMaxStreamDataBidiRemote then
    some (some { dest with initialMaxStreamDataBidiRemote := value })
  else if id = TransportParamId.initialMaxStreamDataUni then
    some (some { dest with initialMaxStreamDataUni := value })
  else if id = TransportParamId.initialMaxData then
    some (some { dest with initialMaxData := value })
  else if id = TransportParamId.initialMaxStreamsBidi then
    some (if value > maxStreams then none else some { dest with initialMaxStreamsBidi := value })
  else if id = TransportParamId.initialMaxStreamsUni then
    some (if value > maxStreams then none else some { dest with initialMaxStreamsUni := value })
  else if id = TransportParamId.maxIdleTimeout then
    some (some { dest with
      maxIdleTimeout :=
        if value > uint64Max / milliseconds then uint64Max / milliseconds * milliseconds
        else mul64 value milliseconds })
  else if id = TransportParamId.maxRecordSize then
    some (some { dest with maxRecordSize := value })
  else if id = TransportParamId.maxDatagramFrameSize then
    some (some { dest with maxDatagramFrameSize := value })
  else none

/-- Decodes one parameter from `p` into `dest`. -/
def decodeParam (dest : TransportParams) (p : List UInt8) :
    Except Err (TransportParams × List UInt8) := do
  match ← decodeVarint p with
  | none => throw .malformedTransportParam
  | some (paramType, p) =>
    if (dest.store paramType 0).isSome then
      match ← decodeVarintParam p with
      | none => throw .malformedTransportParam
      | some (value, p) =>
        match dest.store paramType value with
        | some (some dest) => return (dest, p)
        | _ => throw .malformedTransportParam
    else if paramType ∈ TransportParamId.forbidden then throw .malformedTransportParam
    else
      -- an unknown parameter is skipped
      match ← decodeVarint p with
      | none => throw .malformedTransportParam
      | some (valuelen, p) =>
        if p.length < valuelen then throw .malformedTransportParam
        return (dest, ← advance p valuelen)

/-- The loop of `dwnx_transport_params_decode`, with at most `fuel` passes, and the test
    that nothing is left. -/
def decodeParams (fuel : ℕ) (dest : TransportParams) (p : List UInt8) :
    Except Err TransportParams :=
  if 2 ≤ p.length then
    match fuel with
    | 0 => throw (.fault .outOfFuel)
    | fuel + 1 => do
      let (dest, p) ← decodeParam dest p
      decodeParams fuel dest p
  else if p = [] then return dest
  else throw .malformedTransportParam

/-- `dwnx_transport_params_decode` -/
def transportParamsDecode (data : List UInt8) : Except Err TransportParams :=
  decodeParams data.length .default data

/-! ## What the decoder reads -/

/-- The parts of a computation that succeeds. -/
theorem exists_of_bind {α β : Type} {x : Except Err α} {f : α → Except Err β} {b : β}
    (h : (x >>= f) = .ok b) : ∃ a, x = .ok a ∧ f a = .ok b := by
  cases x with
  | error e => cases h
  | ok a => exact ⟨a, rfl, h⟩

/-- A length-prefixed value that fills its length. -/
def getVarintParam (p : List UInt8) : Option (ℕ × List UInt8) := do
  let (valuelen, p) ← getUvarint p
  match p with
  | [] => none
  | b :: _ => if p.length < valuelen ∨ getUvarintlen b ≠ valuelen then none else getUvarint p

/-- No byte beyond the end of the buffer is read. -/
theorem decodeVarint_eq (p : List UInt8) : decodeVarint p = .ok (getUvarint p) := by
  cases p with
  | nil => rfl
  | cons b p =>
    rw [decodeVarint, if_neg (List.cons_ne_nil b p)]
    change (if _ then _ else _) = _
    by_cases hlen : (b :: p).length < getUvarintlen b
    · rw [if_pos hlen, getUvarint, if_pos hlen]
      rfl
    · obtain ⟨v, hv⟩ := getUvarint_cons (Nat.le_of_not_lt hlen)
      rw [if_neg hlen, uvarintAt_of_some hv, hv]
      rfl

/-- A value is read only where the length says that it is there. -/
theorem decodeVarintParam_eq (p : List UInt8) :
    decodeVarintParam p = .ok (getVarintParam p) := by
  rw [decodeVarintParam, decodeVarint_eq, getVarintParam]
  cases getUvarint p with
  | none => rfl
  | some vq =>
    obtain ⟨valuelen, q⟩ := vq
    cases q with
    | nil => rfl
    | cons b q =>
      change (if b :: q = [] then .ok none else if (b :: q).length < valuelen then .ok none else
          if getUvarintlen b ≠ valuelen then .ok none else some <$> uvarintAt (b :: q)) =
        Except.ok (if (b :: q).length < valuelen ∨ getUvarintlen b ≠ valuelen then none
          else getUvarint (b :: q))
      rw [if_neg (List.cons_ne_nil b q)]
      by_cases hlen : (b :: q).length < valuelen
      · rw [if_pos hlen, if_pos (.inl hlen)]
      · rw [if_neg hlen]
        by_cases hfill : getUvarintlen b ≠ valuelen
        · rw [if_pos hfill, if_pos (.inr hfill)]
        · obtain ⟨v, hv⟩ := getUvarint_cons (b := b) (p := q) (by omega)
          rw [if_neg hfill, if_neg (not_or.2 ⟨hlen, hfill⟩), uvarintAt_of_some hv, hv]
          rfl

/-- A parameter is decoded without a fault. -/
theorem decodeParam_reads (dest : TransportParams) (p : List UInt8) :
    decodeParam dest p =
      match getUvarint p with
      | none => .error .malformedTransportParam
      | some (paramType, p) =>
        if (dest.store paramType 0).isSome then
          match getVarintParam p with
          | none => .error .malformedTransportParam
          | some (value, p) =>
            match dest.store paramType value with
            | some (some dest) => .ok (dest, p)
            | _ => .error .malformedTransportParam
        else if paramType ∈ TransportParamId.forbidden then .error .malformedTransportParam
        else
          match getUvarint p with
          | none => .error .malformedTransportParam
          | some (valuelen, p) =>
            if p.length < valuelen then .error .malformedTransportParam
            else .ok (dest, p.drop valuelen) := by
  rw [decodeParam, decodeVarint_eq]
  cases getUvarint p with
  | none => rfl
  | some vq =>
    obtain ⟨paramType, q⟩ := vq
    change (if _ then _ else _) = if _ then _ else _
    split
    · rw [decodeVarintParam_eq]
      cases getVarintParam q with
      | none => rfl
      | some vr =>
        change (match dest.store paramType vr.1 with | some (some dest) => _ | _ => _) =
          match dest.store paramType vr.1 with | some (some dest) => _ | _ => _
        rcases dest.store paramType vr.1 with _ | _ | d <;> rfl
    · split
      · rfl
      · rw [decodeVarint_eq]
        cases getUvarint q with
        | none => rfl
        | some vr =>
          change (if _ then _ else _) = if _ then _ else _
          split
          · rfl
          · next hlen =>
            rw [advance, if_neg hlen]
            rfl

/-- A parameter is refused in one way. -/
theorem decodeParam_err {dest : TransportParams} {p : List UInt8} {e : Err}
    (h : decodeParam dest p = .error e) : e = .malformedTransportParam := by
  rw [decodeParam_reads] at h
  split at h
  · exact (Except.error.inj h).symm
  split at h
  · split at h
    · exact (Except.error.inj h).symm
    split at h
    · cases h
    · exact (Except.error.inj h).symm
  split at h
  · exact (Except.error.inj h).symm
  split at h
  · exact (Except.error.inj h).symm
  split at h
  · exact (Except.error.inj h).symm
  · cases h

/-- Every parameter takes bytes. -/
theorem decodeParam_length {dest dest' : TransportParams} {p r : List UInt8}
    (h : decodeParam dest p = .ok (dest', r)) : r.length < p.length := by
  have hget {p r : List UInt8} {v : ℕ} (hv : getUvarint p = some (v, r)) :
      r.length < p.length := by
    obtain ⟨n, hn, hle, rfl⟩ := getUvarint_suffix hv
    rw [List.length_drop]
    omega
  rw [decodeParam_reads] at h
  split at h
  · cases h
  next id q hid =>
  have hid := hget hid
  split at h
  · split at h
    · cases h
    next v r' hv =>
    split at h
    · obtain ⟨-, rfl⟩ := Prod.mk.inj (Except.ok.inj h)
      simp only [getVarintParam, Option.bind_eq_bind, Option.bind_eq_some_iff, Prod.exists] at hv
      obtain ⟨valuelen, q', hlen, hv⟩ := hv
      have hlen := hget hlen
      split at hv
      · cases hv
      split at hv
      · cases hv
      · have hv := hget hv
        omega
    · cases h
  split at h
  · cases h
  split at h
  · cases h
  next valuelen q' hlen =>
  have hlen := hget hlen
  split at h
  · cases h
  · obtain ⟨-, rfl⟩ := Prod.mk.inj (Except.ok.inj h)
    rw [List.length_drop]
    omega

/-- The loop is over, or makes a pass. -/
theorem decodeParams_cases {fuel : ℕ} {dest params : TransportParams} {p : List UInt8}
    (h : decodeParams fuel dest p = .ok params) :
    p = [] ∧ dest = params ∨ ∃ n d r, fuel = n + 1 ∧ decodeParam dest p = .ok (d, r) ∧
      decodeParams n d r = .ok params := by
  unfold decodeParams at h
  split at h
  · cases fuel with
    | zero => cases h
    | succ n =>
      obtain ⟨⟨d, r⟩, hd, h⟩ := exists_of_bind h
      exact .inr ⟨n, d, r, rfl, hd, h⟩
  · split at h
    · next hp => exact .inl ⟨hp, Except.ok.inj h⟩
    · cases h

/-- The loop ends, and its only error is its own. -/
theorem decodeParams_err {fuel : ℕ} {dest : TransportParams} {p : List UInt8} {e : Err}
    (hfuel : p.length ≤ fuel) (h : decodeParams fuel dest p = .error e) :
    e = .malformedTransportParam := by
  induction fuel generalizing dest p with
  | zero =>
    rw [decodeParams, if_neg (by omega), if_pos (List.length_eq_zero_iff.1 (by omega))] at h
    cases h
  | succ fuel ih =>
    rw [decodeParams] at h
    split at h
    · cases hp : decodeParam dest p with
      | error e' =>
        rw [hp] at h
        obtain rfl := Except.error.inj h
        exact decodeParam_err hp
      | ok dr =>
        rw [hp] at h
        have hlt := decodeParam_length hp
        exact ih (by omega) h
    · split at h
      · cases h
      · exact (Except.error.inj h).symm

/-- Decoding ends, reads no byte beyond the end, and refuses what is malformed. -/
theorem transportParamsDecode_err {data : List UInt8} {e : Err}
    (h : transportParamsDecode data = .error e) : e = .malformedTransportParam :=
  decodeParams_err le_rfl h

/-! ## Round trip -/

/-- A list of which each element succeeds. -/
theorem mapM_ok {α β : Type} {f : α → Except Err β} {g : α → β} {l : List α}
    (h : ∀ x ∈ l, f x = .ok (g x)) : l.mapM f = .ok (l.map g) := by
  induction l with
  | nil => rfl
  | cons x l ih =>
    rw [List.mapM_cons, h x (List.mem_cons_self ..),
      ih fun y hy => h y (List.mem_cons_of_mem _ hy)]
    rfl

/-- The elements of a list that succeeds. -/
theorem exists_of_mapM {α β : Type} {f : α → Except Err β} {l : List α} {ys : List β}
    (h : l.mapM f = .ok ys) {x : α} (hx : x ∈ l) : ∃ y, f x = .ok y := by
  induction l generalizing ys with
  | nil => cases hx
  | cons a l ih =>
    rw [List.mapM_cons] at h
    obtain ⟨y, hy, h⟩ := exists_of_bind h
    obtain ⟨zs, hzs, -⟩ := exists_of_bind h
    rcases List.mem_cons.1 hx with rfl | hx
    exacts [⟨y, hy⟩, ih hzs hx]

/-- The bytes of a single parameter. -/
def paramBytes (e : ℕ × ℕ) : List UInt8 :=
  putUvarint e.1 ++ putUvarint (uvarintLen e.2) ++ putUvarint e.2

/-- The bytes of the parameters. -/
def TransportParams.bytes (params : TransportParams) : List UInt8 :=
  (params.written.map paramBytes).flatten

/-- All values are small enough to be written as varints. -/
structure TransportParams.InRange (params : TransportParams) : Prop where
  initialMaxStreamsBidi : params.initialMaxStreamsBidi ≤ maxStreams
  initialMaxStreamsUni : params.initialMaxStreamsUni ≤ maxStreams
  initialMaxStreamDataBidiLocal : params.initialMaxStreamDataBidiLocal ≤ maxVarint
  initialMaxStreamDataBidiRemote : params.initialMaxStreamDataBidiRemote ≤ maxVarint
  initialMaxStreamDataUni : params.initialMaxStreamDataUni ≤ maxVarint
  initialMaxData : params.initialMaxData ≤ maxVarint
  maxIdleTimeout : params.maxIdleTimeout < 2 ^ 64
  maxRecordSize : params.maxRecordSize ≤ maxVarint
  maxDatagramFrameSize : params.maxDatagramFrameSize ≤ maxVarint

/-- The parameters that are written are varints. -/
theorem written_le {params : TransportParams} (h : params.InRange) {e : ℕ × ℕ}
    (he : e ∈ params.written) : e.1 ≤ maxVarint ∧ e.2 ≤ maxVarint := by
  have := h.initialMaxStreamsBidi
  have := h.initialMaxStreamsUni
  have := h.maxIdleTimeout
  have hms : params.maxIdleTimeout / milliseconds ≤ maxVarint := by
    unfold milliseconds maxVarint
    omega
  have hs : maxStreams ≤ maxVarint := by decide
  simp only [TransportParams.written, List.mem_append] at he
  have hp {c : Prop} [Decidable c] {id v : ℕ} (he : e ∈ param c id v) : e = (id, v) := by
    unfold param at he
    split at he <;> simp_all
  rcases he with (((((((he | he) | he) | he) | he) | he) | he) | he) | he <;> rw [hp he] <;>
    dsimp only
  exacts [⟨by decide, h.initialMaxStreamDataBidiLocal⟩,
    ⟨by decide, h.initialMaxStreamDataBidiRemote⟩, ⟨by decide, h.initialMaxStreamDataUni⟩,
    ⟨by decide, h.initialMaxData⟩, ⟨by decide, by omega⟩, ⟨by decide, by omega⟩,
    ⟨by decide, hms⟩, ⟨by decide, h.maxRecordSize⟩, ⟨by decide, h.maxDatagramFrameSize⟩]

/-- A length is a varint. -/
theorem uvarintLen_le_maxVarint (n : ℕ) : uvarintLen n ≤ maxVarint :=
  (uvarintLen_le n).trans (by decide)

/-- A parameter is its identifier, the length of its value and the value. -/
theorem length_paramBytes (e : ℕ × ℕ) :
    (paramBytes e).length = uvarintLen e.1 + uvarintLen (uvarintLen e.2) + uvarintLen e.2 := by
  simp [paramBytes, Nat.add_assoc]

/-- All that is written of the parameters is a varint. -/
def TransportParams.Writable (params : TransportParams) : Prop :=
  ∀ e ∈ params.written, e.1 ≤ maxVarint ∧ e.2 ≤ maxVarint

/-- The dry run finds the length of what is written. -/
theorem transportParamsLen_eq {params : TransportParams} (h : params.Writable) :
    transportParamsLen params = .ok params.bytes.length := by
  have hlen : params.written.mapM (fun e => varintParamlen e.1 e.2) =
      .ok (params.written.map fun e => (paramBytes e).length) := by
    refine mapM_ok fun e he => ?_
    obtain ⟨h1, h2⟩ := h e he
    rw [varintParamlen, putUvarintlen_eq h1, putUvarintlen_eq h2, length_paramBytes]
    simp only [bind, Except.bind, putUvarintlen_eq (uvarintLen_le_maxVarint e.2)]
    rfl
  rw [transportParamsLen, hlen, TransportParams.bytes, List.length_flatten, List.map_map]
  rfl

/-- What has a length is a varint. -/
theorem le_of_putUvarintlen {n len : ℕ} (h : putUvarintlen n = .ok len) : n ≤ maxVarint := by
  unfold putUvarintlen at h
  split at h
  · unfold maxVarint
    omega
  · cases h

/-- Nothing that is written is too large, if the length is known. -/
theorem writable_of_len {params : TransportParams} {n : ℕ} (h : transportParamsLen params = .ok n) :
    params.Writable := by
  intro e he
  obtain ⟨lens, hlens, -⟩ := exists_of_bind h
  obtain ⟨len, hlen⟩ := exists_of_mapM hlens he
  obtain ⟨vlen, hvlen, hlen⟩ := exists_of_bind hlen
  obtain ⟨idlen, hidlen, -⟩ := exists_of_bind hlen
  exact ⟨le_of_putUvarintlen hidlen, le_of_putUvarintlen hvlen⟩

/-- With enough room, the encoder writes the bytes of the parameters. -/
theorem transportParamsEncode_eq {params : TransportParams} (h : params.Writable) {destlen : ℕ}
    (hd : params.bytes.length ≤ destlen) :
    transportParamsEncode destlen params = .ok params.bytes := by
  have hw : params.written.mapM (fun e => writeVarintParam e.1 e.2) =
      .ok (params.written.map paramBytes) := by
    refine mapM_ok fun e he => ?_
    rw [writeVarintParam, putUvarintlen_eq (h e he).2]
    rfl
  rw [transportParamsEncode, transportParamsLen_eq h]
  simp only [bind, Except.bind, hw, if_neg (by omega : ¬destlen < params.bytes.length)]
  rw [if_neg (by simp [TransportParams.bytes])]
  rfl

/-- A value that is written is read again. -/
theorem getVarintParam_putUvarint {v : ℕ} (h : v ≤ maxVarint) (r : List UInt8) :
    getVarintParam (putUvarint (uvarintLen v) ++ (putUvarint v ++ r)) = some (v, r) := by
  have hg := getUvarint_putUvarint h r
  have hlen : (putUvarint v ++ r).length = uvarintLen v + r.length := by simp
  simp only [getVarintParam, getUvarint_putUvarint (uvarintLen_le_maxVarint v),
    Option.bind_eq_bind, Option.bind_some]
  split
  · next heq => exact absurd (List.append_eq_nil_iff.1 heq).1 (putUvarint_ne_nil v)
  · next b bs heq =>
    have hb : getUvarintlen b = uvarintLen v := by
      rw [heq, getUvarint] at hg
      split at hg
      · cases hg
      · have hdrop := (Prod.mk.inj (Option.some.inj hg)).2
        have := congrArg List.length hdrop
        rw [List.length_drop, ← heq, hlen] at this
        have : getUvarintlen b ≤ (b :: bs).length := by omega
        rw [← heq, hlen] at this
        omega
    rw [if_neg (by omega), hg]

/-- Whether a parameter is stored depends on the identifier alone. -/
theorem isSome_store (dest : TransportParams) (id v w : ℕ) :
    (dest.store id v).isSome = (dest.store id w).isSome := by
  unfold TransportParams.store
  split_ifs <;> simp only [Option.isSome_some, Option.isSome_none]

/-- Decoding a parameter that was written stores its value. -/
theorem decodeParam_eq {dest dest' : TransportParams} {e : ℕ × ℕ} (h1 : e.1 ≤ maxVarint)
    (h2 : e.2 ≤ maxVarint) (hs : dest.store e.1 e.2 = some (some dest')) (r : List UInt8) :
    decodeParam dest (paramBytes e ++ r) = .ok (dest', r) := by
  have hsome : (dest.store e.1 0).isSome := by rw [isSome_store dest e.1 0 e.2, hs]; rfl
  simp only [decodeParam_reads, paramBytes, List.append_assoc, getUvarint_putUvarint h1, hsome,
    if_true, getVarintParam_putUvarint h2, hs]

/-- Decoding parameters that were written stores their values one by one. -/
theorem decodeParams_eq {es : List (ℕ × ℕ)} {dest dest' : TransportParams} {n : ℕ}
    (hle : ∀ e ∈ es, e.1 ≤ maxVarint ∧ e.2 ≤ maxVarint)
    (hs : es.foldl (fun d e => d.bind fun d => (d.store e.1 e.2).join) (some dest) = some dest')
    (hn : es.length ≤ n) : decodeParams n dest (es.map paramBytes).flatten = .ok dest' := by
  induction es generalizing dest n with
  | nil =>
    obtain rfl := Option.some.inj hs
    cases n <;> rfl
  | cons e es ih =>
    obtain ⟨n, rfl⟩ : ∃ m, n = m + 1 := ⟨n - 1, by rw [List.length_cons] at hn; omega⟩
    obtain ⟨h1, h2⟩ := hle e (List.mem_cons_self ..)
    rw [List.foldl_cons, Option.bind_some] at hs
    obtain ⟨d, hd⟩ : ∃ d, (dest.store e.1 e.2).join = some d := by
      cases hj : (dest.store e.1 e.2).join with
      | some d => exact ⟨d, rfl⟩
      | none =>
        rw [hj] at hs
        have hnone (es : List (ℕ × ℕ)) : es.foldl (fun d e => d.bind fun d : TransportParams =>
            (d.store e.1 e.2).join) none = none := by
          induction es with
          | nil => rfl
          | cons e es ih => rwa [List.foldl_cons, Option.bind_none]
        rw [hnone] at hs
        cases hs
    have hst : dest.store e.1 e.2 = some (some d) := Option.join_eq_some_iff.1 hd
    rw [hd] at hs
    have hlen : 2 ≤ ((paramBytes e) ++ (es.map paramBytes).flatten).length := by
      have := uvarintLen_pos e.1
      have := uvarintLen_pos e.2
      rw [List.length_append, length_paramBytes]
      omega
    rw [List.map_cons, List.flatten_cons, decodeParams, if_pos hlen, decodeParam_eq h1 h2 hst]
    exact ih (fun e he => hle e (List.mem_cons_of_mem _ he)) hs
      (by rw [List.length_cons] at hn; omega)

/-- What decoding makes of the parameters: the idle timeout in whole milliseconds. -/
def TransportParams.received (params : TransportParams) : TransportParams :=
  { params with maxIdleTimeout := params.maxIdleTimeout / milliseconds * milliseconds }

/-- A parameter that is written, or left out for its default. -/
theorem foldl_param {c : Prop} [Decidable c] {id v : ℕ} {d t : TransportParams}
    (hs : c → (d.store id v).join = some t) (hd : ¬c → d = t) (es : List (ℕ × ℕ)) :
    (param c id v ++ es).foldl (fun d e => d.bind fun d => (d.store e.1 e.2).join) (some d) =
      es.foldl (fun d e => d.bind fun d => (d.store e.1 e.2).join) (some t) := by
  unfold param
  split
  · next hc => rw [List.singleton_append, List.foldl_cons, Option.bind_some, hs hc]
  · next hc => rw [hd hc, List.nil_append]

/-- A limit on streams is stored. -/
theorem store_initialMaxStreamsBidi {d : TransportParams} {v : ℕ} (h : v ≤ maxStreams) :
    (d.store TransportParamId.initialMaxStreamsBidi v).join =
      some { d with initialMaxStreamsBidi := v } := by
  have : ¬v > maxStreams := by omega
  simp [TransportParams.store, TransportParamId.initialMaxStreamsBidi, this,
    TransportParamId.initialMaxStreamDataBidiLocal, TransportParamId.initialMaxStreamDataBidiRemote,
    TransportParamId.initialMaxStreamDataUni, TransportParamId.initialMaxData]

/-- A limit on streams is stored. -/
theorem store_initialMaxStreamsUni {d : TransportParams} {v : ℕ} (h : v ≤ maxStreams) :
    (d.store TransportParamId.initialMaxStreamsUni v).join =
      some { d with initialMaxStreamsUni := v } := by
  have : ¬v > maxStreams := by omega
  simp [TransportParams.store, TransportParamId.initialMaxStreamsUni, this,
    TransportParamId.initialMaxStreamDataBidiLocal, TransportParamId.initialMaxStreamDataBidiRemote,
    TransportParamId.initialMaxStreamDataUni, TransportParamId.initialMaxData,
    TransportParamId.initialMaxStreamsBidi]

/-- The idle timeout is stored as nanoseconds. -/
theorem store_maxIdleTimeout {d : TransportParams} {v : ℕ} (h : v < 2 ^ 64) :
    (d.store TransportParamId.maxIdleTimeout (v / milliseconds)).join =
      some { d with maxIdleTimeout := v / milliseconds * milliseconds } := by
  have hms : ¬v / milliseconds > uint64Max / milliseconds :=
    Nat.not_lt.2 (Nat.div_le_div_right (by unfold uint64Max; omega))
  have hmul : mul64 (v / milliseconds) milliseconds = v / milliseconds * milliseconds := by
    have := Nat.div_mul_le_self v milliseconds
    exact mul64_eq (by omega)
  simp [TransportParams.store, TransportParamId.maxIdleTimeout, hms, hmul,
    TransportParamId.initialMaxStreamDataBidiLocal, TransportParamId.initialMaxStreamDataBidiRemote,
    TransportParamId.initialMaxStreamDataUni, TransportParamId.initialMaxData,
    TransportParamId.initialMaxStreamsBidi, TransportParamId.initialMaxStreamsUni]

/-- The round trip of the transport parameters. -/
theorem decode_encode {params : TransportParams} (h : params.InRange) :
    transportParamsDecode params.bytes = .ok params.received := by
  have hle := fun e he => written_le h (e := e) he
  have hlen : params.written.length ≤ params.bytes.length := by
    have hes (es : List (ℕ × ℕ)) : es.length ≤ (es.map paramBytes).flatten.length := by
      induction es with
      | nil => simp
      | cons e es ih =>
        have := uvarintLen_pos e.1
        have := length_paramBytes e
        rw [List.map_cons, List.flatten_cons, List.length_append, List.length_cons]
        omega
    exact hes _
  refine decodeParams_eq hle ?_ hlen
  have hb := h.initialMaxStreamsBidi
  have hu := h.initialMaxStreamsUni
  obtain ⟨bidi, uni, bidiLocal, bidiRemote, dataUni, data, idle, size, dgram⟩ := params
  simp only [TransportParams.written, List.append_assoc, TransportParams.default,
    TransportParams.received] at *
  rw [← List.append_nil (param (dgram ≠ 0) _ _)]
  let d := defaultMaxRecordSize
  have hidle : idle / milliseconds * milliseconds ≠ 0 → idle ≠ 0 := by
    rintro h rfl
    exact h (by simp)
  rw [foldl_param (t := ⟨0, 0, bidiLocal, 0, 0, 0, 0, d, 0⟩) (fun _ => rfl)
    (by simp +contextual [d]),
    foldl_param (t := ⟨0, 0, bidiLocal, bidiRemote, 0, 0, 0, d, 0⟩) (fun _ => rfl)
      (by simp +contextual),
    foldl_param (t := ⟨0, 0, bidiLocal, bidiRemote, dataUni, 0, 0, d, 0⟩) (fun _ => rfl)
      (by simp +contextual),
    foldl_param (t := ⟨0, 0, bidiLocal, bidiRemote, dataUni, data, 0, d, 0⟩) (fun _ => rfl)
      (by simp +contextual),
    foldl_param (t := ⟨bidi, 0, bidiLocal, bidiRemote, dataUni, data, 0, d, 0⟩)
      (fun _ => store_initialMaxStreamsBidi hb) (by simp +contextual),
    foldl_param (t := ⟨bidi, uni, bidiLocal, bidiRemote, dataUni, data, 0, d, 0⟩)
      (fun _ => store_initialMaxStreamsUni hu) (by simp +contextual),
    foldl_param (t := ⟨bidi, uni, bidiLocal, bidiRemote, dataUni, data,
      idle / milliseconds * milliseconds, d, 0⟩)
      (fun _ => store_maxIdleTimeout h.maxIdleTimeout) (by simp +contextual),
    foldl_param (t := ⟨bidi, uni, bidiLocal, bidiRemote, dataUni, data,
      idle / milliseconds * milliseconds, size, 0⟩) (fun _ => rfl) (by simp +contextual [d]),
    foldl_param (t := ⟨bidi, uni, bidiLocal, bidiRemote, dataUni, data,
      idle / milliseconds * milliseconds, size, dgram⟩) (fun _ => rfl) (by simp +contextual)]
  rfl

end Dwnx
