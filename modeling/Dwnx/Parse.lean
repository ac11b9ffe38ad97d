import Dwnx.Lts.Step

/-!
# The parser by itself

A pass of the loop of `connRead` reads one field, and then may have the connection
do something (`Act`). What is read, and where the parser is left, depend on the bytes
alone and on whether the transport parameters of the peer have begun: `Parse.pass`
says how.

A varint that is partly there is one of the bytes read so far (`virdOf`), so that it
makes no difference where the bytes were cut (`varintReaderRead_virdOf`).
-/

namespace Dwnx

/-! ## Varints -/

/-- The varint reader after the bytes `bs`, the beginning of a varint. -/
def virdOf (bs : List UInt8) : VarintReader :=
  match bs with
  | [] => .reset
  | b :: _ =>
    let left := getUvarintlen b - bs.length
    ⟨beNat bs % 2 ^ (8 * bs.length - 2) * 256 ^ left, left, getUvarintlen b⟩

@[simp] theorem virdOf_nil : virdOf [] = .reset := rfl

/-- The varint reader when no bytes follow `bs` and then `data`, and the varint has not
    ended. Of the first bytes of a varint it keeps only how long the varint is. -/
def virdCut (bs data : List UInt8) : VarintReader :=
  match bs with
  | [] => ⟨0, 0, (virdOf data).vlen⟩
  | _ :: _ => virdOf (bs ++ data)

/-- The top bits of the first byte do not count. -/
theorem beNat_append_mod {b : UInt8} {bs cs : List UInt8} :
    beNat ((b :: bs) ++ cs) % 2 ^ (8 * (bs.length + 1 + cs.length) - 2) =
      beNat (b :: bs) % 2 ^ (8 * (bs.length + 1) - 2) * 256 ^ cs.length + beNat cs := by
  have hpow : 2 ^ (8 * (bs.length + 1 + cs.length) - 2) =
      256 ^ cs.length * 2 ^ (8 * (bs.length + 1) - 2) := by
    rw [show 8 * (bs.length + 1 + cs.length) - 2 =
      8 * cs.length + (8 * (bs.length + 1) - 2) by omega, pow_add, pow_mul]
    norm_num
  have hlt := beNat_lt cs
  rw [beNat_append, hpow, Nat.mod_mul, Nat.mul_add_mod_self_right, Nat.mod_eq_of_lt hlt,
    Nat.add_comm (beNat (b :: bs) * _), Nat.add_mul_div_right _ _ (by positivity),
    Nat.div_eq_of_lt hlt, Nat.zero_add]
  ring

/-- A varint is read the same, wherever its bytes are cut. -/
theorem varintReaderRead_virdOf {bs data : List UInt8} (fin : Bool) (hbs : getUvarint bs = none)
    (hd : data ≠ []) :
    varintReaderRead (virdOf bs) data fin =
      match getUvarint (bs ++ data) with
      | some (v, rest) =>
        (.ok (data.length - rest.length), ⟨v, 0, (bs ++ data).length - rest.length⟩)
      | none =>
        if fin then (.error .invalidArgument, virdCut bs data)
        else (.ok data.length, virdOf (bs ++ data)) := by
  obtain ⟨d, data, rfl⟩ := List.exists_cons_of_ne_nil hd
  cases bs with
  | nil =>
    simp only [varintReaderRead, virdOf_nil, VarintReader.reset, List.nil_append, getUvarint,
      ne_eq, not_true_eq_false, or_self, if_true, if_false]
    -- The first byte of the varint says how long it is. The chunk ends before it does.
    rcases Nat.lt_or_ge (d :: data).length (getUvarintlen d) with hlt | hle
    · have hmin : min (getUvarintlen d) (d :: data).length = (d :: data).length :=
        Nat.min_eq_right hlt.le
      rw [hmin, if_neg (Nat.not_le.2 hlt), if_pos hlt, List.take_length]
      rfl
    -- The varint is in the chunk.
    · have hmin : min (getUvarintlen d) (d :: data).length = getUvarintlen d := Nat.min_eq_left hle
      have hlen : (d :: data).length - ((d :: data).drop (getUvarintlen d)).length =
          getUvarintlen d := by
        rw [List.length_drop]
        omega
      rw [hmin, if_pos le_rfl, if_neg (Nat.not_lt.2 hle)]
      dsimp only
      rw [hlen]
  | cons b bs =>
    -- The bytes read so far stand in the accumulator, shifted by what is missing.
    have hlt : (b :: bs).length < getUvarintlen b := getUvarint_eq_none.1 hbs b rfl
    generalize hn : getUvarintlen b = n at hlt
    rw [List.length_cons] at hlt
    have hget : getUvarint (b :: bs ++ d :: data) =
        if (b :: bs ++ d :: data).length < n then none
        else some (beNat ((b :: bs ++ d :: data).take n) % 2 ^ (8 * n - 2),
          (b :: bs ++ d :: data).drop n) := by
      rw [List.cons_append, getUvarint, hn]
    have hvird : virdOf (b :: bs) =
        ⟨beNat (b :: bs) % 2 ^ (8 * (bs.length + 1) - 2) * 256 ^ (n - (bs.length + 1)),
          n - (bs.length + 1), n⟩ := by
      rw [virdOf, hn]
      rfl
    have hne : n - (bs.length + 1) ≠ 0 := by omega
    have hlen : (b :: bs ++ d :: data).length = bs.length + 1 + (d :: data).length := by
      rw [List.length_append, List.length_cons]
    rw [hget, hvird, hlen]
    simp only [varintReaderRead, hne, if_false]
    -- The varint is still not complete: what is missing shifts it less.
    rcases Nat.lt_or_ge (bs.length + 1 + (d :: data).length) n with hlt' | hle
    · have hmin : min (n - (bs.length + 1)) (d :: data).length = (d :: data).length := by omega
      have hleft : n - (bs.length + 1) - (d :: data).length ≠ 0 := by omega
      have hpow : n - (bs.length + 1) =
          (d :: data).length + (n - (bs.length + 1 + (d :: data).length)) := by omega
      have hnew : (⟨beNat (b :: bs) % 2 ^ (8 * (bs.length + 1) - 2) * 256 ^ (n - (bs.length + 1)) +
          beNat (d :: data) * 256 ^ (n - (bs.length + 1) - (d :: data).length),
          n - (bs.length + 1) - (d :: data).length, n⟩ : VarintReader) =
          virdOf (b :: bs ++ d :: data) := by
        rw [List.cons_append, virdOf, hn, ← List.cons_append, hlen, beNat_append_mod, Nat.sub_sub,
          hpow, pow_add]
        congr 1
        ring_nf
      rw [hmin, if_pos hlt', List.take_length, hnew]
      cases fin with
      | true =>
        rw [if_pos ⟨hleft, rfl⟩]
        rfl
      | false =>
        rw [if_neg (by simp)]
        rfl
    -- The varint is complete, and nothing is shifted.
    · have hmin : min (n - (bs.length + 1)) (d :: data).length = n - (bs.length + 1) := by omega
      have htake : (b :: bs ++ d :: data).take n =
          b :: bs ++ (d :: data).take (n - (bs.length + 1)) := by
        rw [List.take_append, List.take_of_length_le (by rw [List.length_cons]; omega)]
        rfl
      have hcs : ((d :: data).take (n - (bs.length + 1))).length = n - (bs.length + 1) := by
        rw [List.length_take]
        omega
      have hmod := @beNat_append_mod b bs ((d :: data).take (n - (bs.length + 1)))
      rw [hcs, show bs.length + 1 + (n - (bs.length + 1)) = n by omega] at hmod
      rw [hmin, if_neg (by simp), if_neg (Nat.not_lt.2 hle), htake, hmod, Nat.sub_self, pow_zero,
        mul_one]
      dsimp only
      rw [List.length_drop, hlen]
      congr 2
      · omega
      · omega

/-- A varint of which there are some bytes, but not all. -/
theorem virdOf_done {bs : List UInt8} (hbs : getUvarint bs = none) (hne : bs ≠ []) :
    (virdOf bs).done = false := by
  obtain ⟨b, bs, rfl⟩ := List.exists_cons_of_ne_nil hne
  have := getUvarint_eq_none.1 hbs b rfl
  exact beq_false_of_ne (Nat.sub_pos_of_lt this).ne'

/-! ## What the connection is to do -/

/-- What the connection does once a field is read. -/
inductive Act
  | nothing
  /-- The transport parameters begin. -/
  | seen
  | log (fr : Frame)
  /-- A frame is logged and handled. -/
  | frame (fr : Frame)
  | params (data : List UInt8)
  /-- Data of a stream, of which `left` bytes were to come. -/
  | piece (streamId : ℕ) (fin : Bool) (left : ℕ) (data : List UInt8)
  | datagram (fin : Bool) (dgramlen offset : ℕ) (data : List UInt8)
  /-- A DATAGRAM frame without data is logged and handled. -/
  | emptyDatagram (fr : FrameDatagram)
  | alloc
  deriving DecidableEq

/-- The handler of a frame whose last field is read. -/
def connRecvFrame (ts : ℕ) : Frame → M Unit
  | .qxPing fr => connRecvQxPing fr ts
  | .stream fr => connRecvStream fr
  | .resetStream fr => connRecvResetStream fr
  | .stopSending fr => connRecvStopSending fr ts
  | .maxData fr => connRecvMaxData fr
  | .maxStreamData fr => connRecvMaxStreamData fr ts
  | .maxStreams fr => connRecvMaxStreams fr
  | .dataBlocked fr => connRecvDataBlocked fr
  | .streamDataBlocked fr => connRecvStreamDataBlocked fr
  | .streamsBlocked fr => connRecvStreamsBlocked fr
  | _ => pure ()

/-- What the connection does for an act. -/
def Act.perform (ts : ℕ) : Act → M Unit
  | .nothing => pure ()
  | .seen => modifyConn fun conn => { conn with flags.qxTransportParametersSeen := true }
  | .log fr => emit (.rxFr fr)
  | .frame fr => do
    emit (.rxFr fr)
    connRecvFrame ts fr
  | .params data => connRecvTransportParams data
  | .piece streamId fin left data => do
    match (← get).conn.findStream streamId with
    | none => throw (.fault (.assertion .streamOfData))
    | some s => connRecvStreamData streamId fin (sub64 s.rx.lastOffset left) data
  | .datagram fin dgramlen offset data => connRecvDatagram fin dgramlen offset data
  | .emptyDatagram fr => do
    emit (.rxFr (.datagram fr))
    connRecvDatagram true 0 0 []
  | .alloc => Dwnx.alloc .buf

/-- What a pass of the loop comes to: an act, with the parser at `reader`, which then
    goes on to `next`. -/
structure Parsed where
  reader : Reader
  act : Act
  next : Reader
  /-- A frame is complete. -/
  complete : Bool
  result : Except Err Rest

/-- Carries out what was read. -/
def Parsed.run (ts : ℕ) (x : Parsed) : R Rest := do
  modifyReader fun _ => x.reader
  liftM (x.act.perform ts)
  modifyReader fun _ => x.next
  Exec.when (x.complete = true ∧ x.next.rcrd.state = .recordSize)
    (liftM (modifyConn fun conn => { conn with idleTs := ts }))
  Exec.ofExcept x.result

/-! ## The parser -/

namespace Parse

/-- The record is refused. -/
def fail (reader : Reader) (e : Err) : Parsed := ⟨reader, .nothing, reader, false, .error e⟩

/-- The chunk is used up. -/
def stop (reader : Reader) : Parsed := ⟨reader, .nothing, reader, false, .ok none⟩

/-- Something else is read next. -/
def goto (reader : Reader) (act : Act) (state : ReadState) (p : List UInt8) : Parsed :=
  ⟨reader, act, { reader with rcrd.state := state }, false, .ok (some p)⟩

/-- Another field must follow in the record. -/
def goOn (reader : Reader) (state : ReadState) (p : List UInt8) : Parsed :=
  if reader.rcrd.recordLeft = 0 then fail reader .frameEncoding else goto reader .nothing state p

/-- A frame is complete. -/
def done (reader : Reader) (act : Act) (p : List UInt8) : Parsed :=
  ⟨reader, act, { reader with rcrd := reader.rcrd.reset }, true, .ok (some p)⟩

/-- Reads a varint of the record, and goes on with it, its length, the reader and the
    rest once it is complete. -/
def field (reader : Reader) (p : List UInt8) (k : ℕ → ℕ → Reader → List UInt8 → Parsed) : Parsed :=
  let len := reader.rcrd.avail p.length
  match varintReaderRead reader.vird (p.take len) (reader.rcrd.recordLeft == len) with
  | (.error _, vird) => fail { reader with vird := vird } .frameEncoding
  | (.ok nread, vird) =>
    let reader := { reader with rcrd.recordLeft := reader.rcrd.recordLeft - nread }
    if vird.done then k vird.acc vird.vlen { reader with vird := .reset } (p.drop nread)
    else stop { reader with vird := vird }

/-- The header of a STREAM frame with `len` bytes of data is complete. -/
def streamHeader (reader : Reader) (len : ℕ) (p : List UInt8) : Parsed :=
  let reader := { reader with rcrd.fr.stream.len := len, rcrd.fieldLeft := len }
  if len = 0 then done reader (.frame (.stream reader.rcrd.fr.stream)) p
  else goto reader (.frame (.stream reader.rcrd.fr.stream)) .streamData p

/-- After the stream identifier of a STREAM frame, come those fields that its type says. -/
def streamStreamId (id : ℕ) (reader : Reader) (p : List UInt8) : Parsed :=
  let reader := { reader with
    rcrd.fr.stream.streamId := id
    rcrd.fr.connectionClose.frameType := id }
  if reader.rcrd.fr.stream.hasOffset then goOn reader .streamOffset p
  else if reader.rcrd.fr.stream.hasLength then
    if reader.rcrd.recordLeft = 0 then fail reader .frameEncoding
    else goto { reader with rcrd.fr.stream.offset := 0 } .nothing .streamLength p
  else streamHeader { reader with rcrd.fr.stream.offset := 0 } reader.rcrd.recordLeft p

/-- After the offset of a STREAM frame. -/
def streamOffset (offset : ℕ) (reader : Reader) (p : List UInt8) : Parsed :=
  let reader := { reader with rcrd.fr.stream.offset := offset }
  if reader.rcrd.fr.stream.hasLength then goOn reader .streamLength p
  else streamHeader reader reader.rcrd.recordLeft p

/-- The data of a STREAM frame is within the record. -/
def streamLength (len : ℕ) (reader : Reader) (p : List UInt8) : Parsed :=
  if len > reader.rcrd.recordLeft then fail reader .frameEncoding else streamHeader reader len p

/-- The reader after `len` bytes of a field of which the length is known. -/
def advance (reader : Reader) (len : ℕ) : Reader :=
  { reader with
    rcrd.fieldLeft := reader.rcrd.fieldLeft - len
    rcrd.recordLeft := reader.rcrd.recordLeft - len }

/-- The bytes of a field of which the length is known, as far as they are there. -/
def bytes (reader : Reader) (p : List UInt8) (act : ℕ → Act) : Parsed :=
  let len := reader.rcrd.fieldAvail p.length
  let next := advance reader len
  if reader.rcrd.fieldLeft = len then
    ⟨reader, act len, { next with rcrd := next.rcrd.reset }, true, .ok (some (p.drop len))⟩
  else ⟨reader, act len, next, false, .ok none⟩

/-- The data of a STREAM frame, as far as it is there. -/
def streamData (reader : Reader) (p : List UInt8) : Parsed :=
  let rcrd := reader.rcrd
  bytes reader p fun len => .piece rcrd.fr.stream.streamId
    (rcrd.fr.stream.fin && rcrd.fieldLeft == len) rcrd.fieldLeft (p.take len)

/-- The data of a DATAGRAM frame, as far as it is there. -/
def datagramData (reader : Reader) (p : List UInt8) : Parsed :=
  let rcrd := reader.rcrd
  bytes reader p fun len => .datagram (rcrd.fieldLeft == len) rcrd.fr.datagram.len
    (sub64 rcrd.fr.datagram.len rcrd.fieldLeft) (p.take len)

/-- A DATAGRAM frame is within the limit of the endpoint, and its data within the record. -/
def datagramLen (params : TransportParams) (len vlen : ℕ) (reader : Reader) (p : List UInt8) :
    Parsed :=
  if add64 (reader.rcrd.typelen + vlen) len > params.maxDatagramFrameSize then fail reader .proto
  else if len > reader.rcrd.recordLeft then fail reader .frameEncoding
  else
    let reader := { reader with rcrd.fr.datagram.len := len, rcrd.fieldLeft := len }
    if len = 0 then done reader (.emptyDatagram reader.rcrd.fr.datagram) p
    else goto reader (.log (.datagram reader.rcrd.fr.datagram)) .datagramData p

/-- Room for a field of `n` bytes that is not complete in the chunk. -/
def buffer (reader : Reader) (n : ℕ) (state : ReadState) (p : List UInt8) : Parsed :=
  ⟨reader, .alloc, { reader with rcrd.buf := ⟨[], n⟩, rcrd.state := state }, false, .ok (some p)⟩

/-- The reader with `len` bytes of the chunk buffered. -/
def fill (reader : Reader) (len : ℕ) (p : List UInt8) : Reader :=
  { reader with
    rcrd.buf.data := reader.rcrd.buf.data ++ p.take len
    rcrd.recordLeft := reader.rcrd.recordLeft - len }

/-- Transport parameters that are not all in the chunk are buffered. -/
def transportParametersLen (n : ℕ) (reader : Reader) (p : List UInt8) : Parsed :=
  if n > reader.rcrd.recordLeft then fail reader .frameEncoding
  else if n = 0 then done reader (.params []) p
  else if n ≤ p.length then
    let next := { reader with rcrd.recordLeft := reader.rcrd.recordLeft - n }
    ⟨reader, .params (p.take n), { next with rcrd := next.rcrd.reset }, true, .ok (some (p.drop n))⟩
  else buffer reader n .qxTransportParametersParams p

/-- More of the transport parameters is buffered. -/
def transportParametersParams (reader : Reader) (p : List UInt8) : Parsed :=
  let len := reader.rcrd.bufAvail p.length
  let reader := fill reader len p
  if reader.rcrd.buf.left = 0 then done reader (.params reader.rcrd.buf.data) (p.drop len)
  else stop reader

/-- The CONNECTION_CLOSE frame is complete, and nothing is read after it. -/
def connectionClosed (reader : Reader) (reason : List UInt8) : Parsed :=
  let reader := { reader with rcrd.fr.connectionClose.reason := reason }
  ⟨reader, .log (.connectionClose reader.rcrd.fr.connectionClose),
    { reader with rcrd.state := .draining }, false, .error .draining⟩

/-- Only the first type of CONNECTION_CLOSE has a frame type. -/
def connectionCloseErrorCode (errorCode : ℕ) (reader : Reader) (p : List UInt8) : Parsed :=
  let reader := { reader with rcrd.fr.connectionClose.errorCode := errorCode }
  if reader.rcrd.fr.connectionClose.type = FrameType.connectionCloseApp then
    goOn reader .connectionCloseReasonlen p
  else goOn reader .connectionCloseFrameType p

/-- A reason that is not all in the chunk is buffered. -/
def connectionCloseReasonlen (n : ℕ) (reader : Reader) (p : List UInt8) : Parsed :=
  if n > reader.rcrd.recordLeft then fail reader .frameEncoding
  else
    let reader := { reader with rcrd.fr.connectionClose.reasonlen := n }
    if n ≤ p.length then connectionClosed reader (p.take n)
    else buffer reader n .connectionCloseReason p

/-- More of the reason is buffered. -/
def connectionCloseReason (reader : Reader) (p : List UInt8) : Parsed :=
  let reader := fill reader (reader.rcrd.bufAvail p.length) p
  if reader.rcrd.buf.left = 0 then connectionClosed reader reader.rcrd.buf.data else stop reader

/-- The size of a record, which is neither 0 nor above the limit of the endpoint. -/
def recordSize (params : TransportParams) (reader : Reader) (p : List UInt8) : Parsed :=
  match varintReaderRead reader.vird p false with
  | (.error e, vird) => fail { reader with vird := vird } e
  | (.ok nread, vird) =>
    if vird.done then
      let reader := { reader with vird := .reset }
      if vird.acc > params.maxRecordSize ∨ vird.acc = 0 then fail reader .frameEncoding
      else goto { reader with rcrd.recordLeft := vird.acc } .nothing .frameType (p.drop nread)
    else stop { reader with vird := vird }

/-- The type of a frame, and then a field of it. -/
def typed (reader : Reader) (fr : FrameUnion) (state : ReadState) (p : List UInt8) : Parsed :=
  if reader.rcrd.recordLeft = 0 then fail reader .frameEncoding
  else goto { reader with rcrd.fr := fr } .nothing state p

/-- What a frame of the type starts with, if it may come now. -/
def frameType (seen : Bool) (params : TransportParams) (type vlen : ℕ) (reader : Reader)
    (p : List UInt8) : Parsed :=
  let reader := { reader with rcrd.typelen := vlen }
  let fr := reader.rcrd.fr
  let left := reader.rcrd.recordLeft
  if !seen ∧ type ≠ FrameType.qxTransportParameters then fail reader .proto
  else if type = FrameType.qxTransportParameters then
    if seen then fail reader .proto
    else if left = 0 then ⟨reader, .seen, reader, false, .error .frameEncoding⟩
    else goto reader .seen .qxTransportParametersLen p
  else if type = FrameType.qxPingRequest ∨ type = FrameType.qxPingResponse then
    typed reader { fr with qxPing.type := type } .qxPingSeq p
  else if type = FrameType.padding then
    let n := paddingLen left p
    done { reader with rcrd.recordLeft := left - n } (.log (.padding (n + 1))) (p.drop n)
  else if type = FrameType.resetStream then goOn reader .resetStreamStreamId p
  else if type = FrameType.stopSending then goOn reader .stopSendingStreamId p
  else if type = FrameType.maxData then goOn reader .maxDataMaxData p
  else if type = FrameType.maxStreamData then goOn reader .maxStreamDataStreamId p
  else if type = FrameType.maxStreamsBidi ∨ type = FrameType.maxStreamsUni then
    typed reader { fr with maxStreams.type := type } .maxStreamsMaxStreams p
  else if type = FrameType.dataBlocked then goOn reader .dataBlockedOffset p
  else if type = FrameType.streamDataBlocked then goOn reader .streamDataBlockedStreamId p
  else if type = FrameType.streamsBlockedBidi ∨ type = FrameType.streamsBlockedUni then
    typed reader { fr with streamsBlocked.type := type } .streamsBlockedMaxStreams p
  else if type = FrameType.connectionClose ∨ type = FrameType.connectionCloseApp then
    typed reader { fr with connectionClose.type := type } .connectionCloseErrorCode p
  else if type = FrameType.datagram then
    if params.maxDatagramFrameSize = 0 ∨ params.maxDatagramFrameSize < vlen + left then
      fail reader .proto
    else
      let reader := { reader with rcrd.fr.datagram.type := type, rcrd.fr.datagram.len := left }
      if left = 0 then done reader (.datagram true 0 0 []) p
      else goto { reader with rcrd.fieldLeft := left } .nothing .datagramData p
  else if type = FrameType.datagramLen then
    if params.maxDatagramFrameSize ≤ vlen then fail reader .proto
    else typed reader { fr with datagram.type := type } .datagramLen p
  else if type / 8 = 1 then
    typed reader { fr with
      stream.flags := type % 8
      stream.fin := decide (type % 8 % 2 = 1) } .streamStreamId p
  else fail reader .frameEncoding

/-- A field that is a varint and only stored, and what follows it: another field, or
    the frame. -/
inductive Plain
  | field (store : ℕ → FrameUnion → FrameUnion) (state : ReadState)
  | last (store : ℕ → FrameUnion → FrameUnion) (frame : FrameUnion → Frame)

/-- The fields that are only stored. -/
def plain : ReadState → Option Plain
  | .qxPingSeq => some (.last (fun v fr => { fr with qxPing.seq := v }) fun fr => .qxPing fr.qxPing)
  | .resetStreamStreamId => some (.field (fun v fr => { fr with resetStream.streamId := v })
    .resetStreamAppErrorCode)
  | .resetStreamAppErrorCode => some (.field
    (fun v fr => { fr with resetStream.appErrorCode := v, connectionClose.frameType := v })
    .resetStreamFinalSize)
  | .resetStreamFinalSize => some (.last (fun v fr => { fr with resetStream.finalSize := v })
    fun fr => .resetStream fr.resetStream)
  | .stopSendingStreamId => some (.field (fun v fr => { fr with stopSending.streamId := v })
    .stopSendingAppErrorCode)
  | .stopSendingAppErrorCode => some (.last
    (fun v fr => { fr with stopSending.appErrorCode := v, connectionClose.frameType := v })
    fun fr => .stopSending fr.stopSending)
  | .maxDataMaxData => some (.last (fun v fr => { fr with maxData.maxData := v })
    fun fr => .maxData fr.maxData)
  | .maxStreamDataStreamId => some (.field (fun v fr => { fr with maxStreamData.streamId := v })
    .maxStreamDataMaxStreamData)
  | .maxStreamDataMaxStreamData => some (.last
    (fun v fr => { fr with maxStreamData.maxStreamData := v, connectionClose.frameType := v })
    fun fr => .maxStreamData fr.maxStreamData)
  | .maxStreamsMaxStreams => some (.last (fun v fr => { fr with maxStreams.maxStreams := v })
    fun fr => .maxStreams fr.maxStreams)
  | .dataBlockedOffset => some (.last (fun v fr => { fr with dataBlocked.maxData := v })
    fun fr => .dataBlocked fr.dataBlocked)
  | .streamDataBlockedStreamId => some (.field
    (fun v fr => { fr with streamDataBlocked.streamId := v }) .streamDataBlockedOffset)
  | .streamDataBlockedOffset => some (.last
    (fun v fr => { fr with streamDataBlocked.maxStreamData := v, connectionClose.frameType := v })
    fun fr => .streamDataBlocked fr.streamDataBlocked)
  | .streamsBlockedMaxStreams => some (.last
    (fun v fr => { fr with streamsBlocked.maxStreams := v })
    fun fr => .streamsBlocked fr.streamsBlocked)
  | .connectionCloseFrameType => some (.field
    (fun v fr => { fr with connectionClose.frameType := v }) .connectionCloseReasonlen)
  | _ => none

/-- Stores the value `v` of the field. -/
def Plain.parse (v : ℕ) (reader : Reader) (p : List UInt8) : Plain → Parsed
  | .field store state => goOn { reader with rcrd.fr := store v reader.rcrd.fr } state p
  | .last store frame =>
    let reader := { reader with rcrd.fr := store v reader.rcrd.fr }
    done reader (.frame (frame reader.rcrd.fr)) p

/-- One pass of the loop of `connRead`, over a chunk that is not empty. -/
def pass (seen : Bool) (params : TransportParams) (reader : Reader) (p : List UInt8) : Parsed :=
  match plain reader.rcrd.state with
  | some x => field reader p fun v _ reader p => x.parse v reader p
  | none =>
    match reader.rcrd.state with
    | .recordSize => recordSize params reader p
    | .frameType => field reader p (frameType seen params)
    | .qxTransportParametersLen => field reader p fun n _ => transportParametersLen n
    | .qxTransportParametersParams => transportParametersParams reader p
    | .streamStreamId => field reader p fun v _ => streamStreamId v
    | .streamOffset => field reader p fun v _ => streamOffset v
    | .streamLength => field reader p fun v _ => streamLength v
    | .streamData => streamData reader p
    | .connectionCloseErrorCode => field reader p fun v _ => connectionCloseErrorCode v
    | .connectionCloseReasonlen => field reader p fun n _ => connectionCloseReasonlen n
    | .connectionCloseReason => connectionCloseReason reader p
    | .datagramLen => field reader p (datagramLen params)
    | .datagramData => datagramData reader p
    | .closing => fail reader .closing
    | _ => fail reader .draining

end Parse

/-! ## What the parser keeps to -/

/-- The fields of the frames are varints. -/
structure FrameUnion.Bounded (fr : FrameUnion) : Prop where
  qxPing : (Frame.qxPing fr.qxPing).Bounded
  stream : (Frame.stream fr.stream).Bounded
  resetStream : (Frame.resetStream fr.resetStream).Bounded
  stopSending : (Frame.stopSending fr.stopSending).Bounded
  maxData : (Frame.maxData fr.maxData).Bounded
  maxStreamData : (Frame.maxStreamData fr.maxStreamData).Bounded
  maxStreams : (Frame.maxStreams fr.maxStreams).Bounded
  dataBlocked : (Frame.dataBlocked fr.dataBlocked).Bounded
  streamDataBlocked : (Frame.streamDataBlocked fr.streamDataBlocked).Bounded
  streamsBlocked : (Frame.streamsBlocked fr.streamsBlocked).Bounded

/-- The fields of no frame yet. -/
theorem FrameUnion.bounded_zero : FrameUnion.zero.Bounded := by
  constructor <;> simp [zero, Frame.Bounded]

/-- The parser is between two bytes: its varint is one that is partly read, and there
    is something to read in the record. -/
structure Reader.Readable (reader : Reader) : Prop where
  vird : ∃ bs, reader.vird = virdOf bs ∧ getUvarint bs = none
  recordLeft : reader.rcrd.state ≠ .recordSize → reader.rcrd.state ≠ .draining →
    reader.rcrd.state ≠ .closing → 0 < reader.rcrd.recordLeft

/-- There is something to read of a field of which the length is known, and all of it
    is in the record. -/
def RecordReader.FieldOk (rcrd : RecordReader) : Prop :=
  match rcrd.state with
  | .streamData | .datagramData => 0 < rcrd.fieldLeft ∧ rcrd.fieldLeft ≤ rcrd.recordLeft
  | .qxTransportParametersParams | .connectionCloseReason =>
    rcrd.fieldLeft = 0 ∧ 0 < rcrd.buf.left ∧ rcrd.buf.left ≤ rcrd.recordLeft
  | .draining | .closing => rcrd.fieldLeft ≤ rcrd.recordLeft
  | _ => rcrd.fieldLeft = 0

/-- No varint is read in a field of which the length is known. -/
def ReadState.isBytes : ReadState → Bool
  | .streamData | .datagramData | .qxTransportParametersParams | .connectionCloseReason => true
  | _ => false

/-- The reader between two passes, over a record that it has not read in full. -/
structure Reader.Ok (reader : Reader) : Prop extends Reader.Readable reader where
  record : reader.rcrd.recordLeft ≤ maxVarint
  fr : reader.rcrd.fr.Bounded
  field : reader.rcrd.FieldOk
  bytes : reader.rcrd.state.isBytes = true → reader.vird = .reset

/-- No field goes beyond the record. -/
theorem RecordReader.FieldOk.le {rcrd : RecordReader} (h : rcrd.FieldOk) :
    rcrd.fieldLeft ≤ rcrd.recordLeft := by
  unfold FieldOk at h
  split at h
  · exact h.2
  · exact h.2
  · exact h.1.le.trans (Nat.zero_le _)
  · exact h.1.le.trans (Nat.zero_le _)
  · exact h
  · exact h
  · exact h.le.trans (Nat.zero_le _)

/-- The transport parameters are being read. -/
def ReadState.isParams : ReadState → Bool
  | .qxTransportParametersLen | .qxTransportParametersParams => true
  | _ => false

/-- The parser is between two frames. -/
def ReadState.isStart : ReadState → Bool
  | .recordSize | .frameType => true
  | _ => false

/-- The connection sends and receives no more. -/
def ReadState.isOver : ReadState → Bool
  | .draining | .closing => true
  | _ => false

/-- The transport parameters of the peer begin before all else (`seen`), and nothing
    is read after that until they are complete (`params`). -/
def ReadState.Phase (state : ReadState) (seen params : Bool) : Prop :=
  if state.isOver then True
  else if state.isStart then seen = params
  else if state.isParams then seen = true ∧ params = false
  else seen = true ∧ params = true

/-- The data of a STREAM frame that the parser is in the middle of. -/
def Reader.body (reader : Reader) : Option Body :=
  if reader.rcrd.state = .streamData then
    some ⟨reader.rcrd.fr.stream.streamId, reader.rcrd.fieldLeft, reader.rcrd.fr.stream.fin⟩
  else none

/-- What a frame leaves to be read. -/
def Frame.body : Frame → Option Body
  | .stream fr => if fr.len = 0 then none else some ⟨fr.streamId, fr.len, fr.fin⟩
  | _ => none

/-- The frame has a handler, and all of it can be trusted to be varints. -/
def Frame.Handled (fr : Frame) : Prop :=
  fr.Bounded ∧ ∀ params, fr ≠ .qxTransportParameters params

/-- What an act says about the transport parameters, the data before it (`body`) and
    the data after it (`body'`). -/
def Act.Sound (seen params : Bool) (body body' : Option Body) : Act → Prop
  | .nothing => body' = body
  | .seen => seen = false ∧ params = false ∧ body = none ∧ body' = none
  | .log fr =>
    params = true ∧ fr.Handled ∧ (∀ conn : Conn, conn.Ignores fr) ∧ body = none ∧ body' = none
  | .frame fr => params = true ∧ fr.Handled ∧ body = none ∧ body' = fr.body
  | .params _ => seen = true ∧ params = false ∧ body = none ∧ body' = none
  | .piece id fin left data =>
    params = true ∧ data ≠ [] ∧ data.length ≤ left ∧
      ∃ fin', fin = (fin' && left == data.length) ∧ body = some ⟨id, left, fin'⟩ ∧
        body' = if left = data.length then none else some ⟨id, left - data.length, fin'⟩
  | .datagram .. => params = true ∧ body = none ∧ body' = none
  | .emptyDatagram _ => params = true ∧ body = none ∧ body' = none
  | .alloc => body = none ∧ body' = none

/-- The act is that the transport parameters begin, resp. that they are complete. -/
def Act.isSeen : Act → Bool
  | .seen => true
  | _ => false

/-- The act is that the transport parameters are complete. -/
def Act.isParams : Act → Bool
  | .params _ => true
  | _ => false

/-- A pass that is as it should be, of a chunk of `len` bytes. -/
structure Parsed.Sound (seen params : Bool) (body : Option Body) (len : ℕ) (x : Parsed) : Prop where
  act : ∃ body', x.act.Sound seen params body body' ∧
    ∀ rest, x.result = .ok rest → x.next.body = body'
  next : ∀ rest, x.result = .ok rest → x.next.Ok ∧
    x.next.rcrd.state.Phase (seen || x.act.isSeen) (params || x.act.isParams)
  fault : ∀ err, x.result = .error err → err.isFault = false ∧ err.isFatal = false
  progress : ∀ q, x.result = .ok (some q) → q.length < len

/-- Once transport parameters are complete, the pass ends with no error. -/
def Parsed.Certain (x : Parsed) : Prop :=
  ∀ data, x.act = .params data → ∃ q, x.result = .ok (some q)

namespace Parse

variable {seen params : Bool} {body : Option Body} {len : ℕ} {reader : Reader} {p : List UInt8}

/-- A refusal is no fault. -/
theorem sound_fail {err : Err} (hf : err.isFault = false) (ht : err.isFatal = false) :
    (fail reader err).Sound seen params body len where
  act := ⟨body, rfl, nofun⟩
  next := nofun
  fault := by
    rintro _ ⟨⟩
    exact ⟨hf, ht⟩
  progress := nofun

/-- Either branch is taken. -/
theorem sound_ite {c : Prop} [Decidable c] {x y : Parsed} (hx : c → x.Sound seen params body len)
    (hy : ¬c → y.Sound seen params body len) :
    (if c then x else y).Sound seen params body len := by
  split
  · next h => exact hx h
  · next h => exact hy h

/-- The reader in the middle of a record, after a varint. -/
structure Mid (reader : Reader) : Prop where
  vird : reader.vird = .reset
  record : reader.rcrd.recordLeft ≤ maxVarint
  fr : reader.rcrd.fr.Bounded
  field : reader.rcrd.fieldLeft = 0

/-- No field of known length is being read. -/
theorem fieldOk_of_eq {rcrd : RecordReader} (h : rcrd.fieldLeft = 0)
    (hs : rcrd.state.isBytes = false) :
    rcrd.FieldOk := by
  unfold RecordReader.FieldOk
  cases hst : rcrd.state <;> first
    | exact h
    | exact h.le.trans (Nat.zero_le _)
    | (rw [hst] at hs; cases hs)

/-- No field of which the length is known is being read. -/
theorem fieldLeft_eq (h : reader.Ok) (hs : reader.rcrd.state.isBytes = false)
    (ho : reader.rcrd.state.isOver = false) : reader.rcrd.fieldLeft = 0 := by
  have := h.field
  unfold RecordReader.FieldOk at this
  cases hst : reader.rcrd.state <;> rw [hst] at this hs ho <;> first
    | exact this
    | (cases hs; done)
    | cases ho

/-- The reader goes on to a field within the record. -/
theorem Mid.ok (h : Mid reader) (hleft : reader.rcrd.recordLeft ≠ 0) {state : ReadState}
    (hs : state.isBytes = false) : Reader.Ok { reader with rcrd.state := state } where
  vird := ⟨[], h.vird, rfl⟩
  recordLeft _ _ _ := Nat.pos_of_ne_zero hleft
  record := h.record
  fr := h.fr
  field := fieldOk_of_eq h.field hs
  bytes hb := by
    rw [show state.isBytes = true from hb] at hs
    cases hs

/-- No data of a STREAM frame is being read. -/
theorem body_goto {state : ReadState} (hs : state ≠ .streamData) :
    Reader.body { reader with rcrd.state := state } = none := if_neg hs

/-- A varint is read next. -/
theorem sound_goto (h : Mid reader) (hleft : reader.rcrd.recordLeft ≠ 0) {state : ReadState}
    (hs : state.isBytes = false) (hp : state.Phase seen params) (hq : p.length < len) :
    (goto reader .nothing state p).Sound seen params none len where
  act := ⟨none, rfl, fun _ _ => body_goto (by rintro rfl; cases hs)⟩
  next _ _ := by
    refine ⟨h.ok hleft hs, ?_⟩
    change state.Phase (seen || false) (params || false)
    rwa [Bool.or_false, Bool.or_false]
  fault := nofun
  progress := by
    rintro _ ⟨⟩
    exact hq

/-- A varint is read next, unless the record ends. -/
theorem sound_goOn (h : Mid reader) {state : ReadState} (hs : state.isBytes = false)
    (hp : state.Phase seen params) (hq : p.length < len) :
    (goOn reader state p).Sound seen params none len := by
  unfold goOn
  split
  · exact sound_fail rfl rfl
  · next hleft => exact sound_goto h hleft hs hp hq

/-- The reader goes on to the next frame or record. -/
theorem Mid.reset (h : Mid reader) : Reader.Ok { reader with rcrd := reader.rcrd.reset } := by
  unfold RecordReader.reset
  split
  · next hleft =>
    have hm : Mid { reader with rcrd := reader.rcrd.nextFrame } := ⟨h.vird, h.record, h.fr, rfl⟩
    exact hm.ok hleft rfl
  · exact ⟨⟨⟨[], h.vird, rfl⟩, fun hn => absurd rfl hn⟩, h.record, h.fr, rfl, nofun⟩

/-- After a frame, a frame or a record starts. -/
theorem reset_start (rcrd : RecordReader) : rcrd.reset.state.isStart = true := by
  unfold RecordReader.reset
  split <;> rfl

/-- After a frame, no data is being read. -/
theorem body_reset : Reader.body { reader with rcrd := reader.rcrd.reset } = none := by
  have := reset_start reader.rcrd
  refine if_neg fun h => ?_
  rw [show reader.rcrd.reset.state = .streamData from h] at this
  cases this

/-- Where a frame starts, all parameters that have begun have come. -/
theorem phase_of_start {state : ReadState} (h : state.isStart = true) :
    state.Phase seen params ↔ seen = params := by
  cases state <;> simp [ReadState.Phase, ReadState.isOver, ReadState.isStart] at h ⊢

/-- A frame is complete. -/
theorem sound_reset {r : Reader} {a : Act} {q : List UInt8} (h : Mid reader)
    (hact : a.Sound seen params body none)
    (hp : (seen || a.isSeen) = (params || a.isParams)) (hq : q.length < len) :
    Parsed.Sound seen params body len
      ⟨r, a, { reader with rcrd := reader.rcrd.reset }, true, .ok (some q)⟩ where
  act := ⟨none, hact, fun _ _ => body_reset⟩
  next _ _ := ⟨h.reset, (phase_of_start (reset_start _)).2 hp⟩
  fault := nofun
  progress := by
    rintro _ ⟨⟩
    exact hq

/-- The header of a STREAM frame leaves its data to be read. -/
theorem sound_streamHeader (h : Mid reader) (hp : seen = true ∧ params = true)
    {n : ℕ} (hn : n ≤ reader.rcrd.recordLeft) (hq : p.length < len) :
    (streamHeader reader n p).Sound seen params none len := by
  have hle := hn.trans h.record
  have hb : (Frame.stream { reader.rcrd.fr.stream with len := n }).Bounded :=
    ⟨h.fr.stream.1, h.fr.stream.2.1, hle⟩
  have hfr : FrameUnion.Bounded { reader.rcrd.fr with stream.len := n } :=
    { h.fr with stream := hb }
  obtain ⟨rfl, rfl⟩ := hp
  unfold streamHeader
  dsimp only
  split
  · next h0 =>
    exact sound_reset ⟨h.vird, h.record, hfr, h0⟩
      ⟨rfl, ⟨hb, nofun⟩, rfl, by simp [Frame.body, h0]⟩ rfl hq
  · next h0 =>
    refine ⟨⟨_, ⟨rfl, ⟨hb, nofun⟩, rfl, rfl⟩, fun _ _ => ?_⟩, fun _ _ => ⟨?_, ⟨rfl, rfl⟩⟩, nofun,
      ?_⟩
    · simp [goto, Reader.body, Frame.body, h0]
    · exact ⟨⟨⟨[], h.vird, rfl⟩, fun _ _ _ => (Nat.pos_of_ne_zero h0).trans_le hn⟩, h.record, hfr,
        ⟨Nat.pos_of_ne_zero h0, hn⟩, fun _ => h.vird⟩
    · rintro _ ⟨⟩
      exact hq

/-- After the stream identifier of a STREAM frame. -/
theorem sound_streamStreamId (h : Mid reader) (hp : seen = true ∧ params = true) {id : ℕ}
    (hid : id ≤ maxVarint) (hq : p.length < len) :
    (streamStreamId id reader p).Sound seen params none len := by
  have hm : Mid { reader with
      rcrd.fr.stream.streamId := id
      rcrd.fr.connectionClose.frameType := id } :=
    ⟨h.vird, h.record, { h.fr with stream := ⟨hid, h.fr.stream.2⟩ }, h.field⟩
  have hm₀ : Mid { reader with
      rcrd.fr.stream.streamId := id
      rcrd.fr.connectionClose.frameType := id
      rcrd.fr.stream.offset := 0 } :=
    ⟨h.vird, h.record, { h.fr with stream := ⟨hid, Nat.zero_le _, h.fr.stream.2.2⟩ }, h.field⟩
  unfold streamStreamId
  dsimp only
  split
  · exact sound_goOn hm rfl hp hq
  split
  · split
    · exact sound_fail rfl rfl
    · next hleft => exact sound_goto hm₀ hleft rfl hp hq
  · exact sound_streamHeader hm₀ hp le_rfl hq

/-- After the offset of a STREAM frame. -/
theorem sound_streamOffset (h : Mid reader) (hp : seen = true ∧ params = true) {offset : ℕ}
    (ho : offset ≤ maxVarint) (hq : p.length < len) :
    (streamOffset offset reader p).Sound seen params none len := by
  have hm : Mid { reader with rcrd.fr.stream.offset := offset } :=
    ⟨h.vird, h.record, { h.fr with stream := ⟨h.fr.stream.1, ho, h.fr.stream.2.2⟩ }, h.field⟩
  unfold streamOffset
  dsimp only
  split
  · exact sound_goOn hm rfl hp hq
  · exact sound_streamHeader hm hp le_rfl hq

/-- After the length of a STREAM frame. -/
theorem sound_streamLength (h : Mid reader) (hp : seen = true ∧ params = true) {n : ℕ}
    (hq : p.length < len) : (streamLength n reader p).Sound seen params none len := by
  unfold streamLength
  split
  · exact sound_fail rfl rfl
  · next hn => exact sound_streamHeader h hp (Nat.le_of_not_lt hn) hq

/-- After the length of a DATAGRAM frame. -/
theorem sound_datagramLen {tp : TransportParams} (h : Mid reader) (hp : seen = true ∧ params = true)
    {n vlen : ℕ} (hq : p.length < len) :
    (datagramLen tp n vlen reader p).Sound seen params none len := by
  unfold datagramLen
  split
  · exact sound_fail rfl rfl
  split
  · exact sound_fail rfl rfl
  next hn =>
  have hm : FrameUnion.Bounded { reader.rcrd.fr with datagram.len := n } := { h.fr with }
  dsimp only
  split
  · next h0 =>
    obtain ⟨rfl, rfl⟩ := hp
    exact sound_reset ⟨h.vird, h.record, hm, h0⟩ ⟨rfl, rfl, rfl⟩ rfl hq
  · next h0 =>
    have hn := Nat.le_of_not_lt hn
    obtain ⟨rfl, rfl⟩ := hp
    refine ⟨⟨none, ⟨rfl, ⟨trivial, nofun⟩, fun _ => trivial, rfl, rfl⟩, fun _ _ => body_goto nofun⟩,
      fun _ _ =>
      ⟨⟨⟨⟨[], h.vird, rfl⟩, fun _ _ _ => (Nat.pos_of_ne_zero h0).trans_le hn⟩, h.record, hm,
        ⟨Nat.pos_of_ne_zero h0, hn⟩, fun _ => h.vird⟩, ⟨rfl, rfl⟩⟩, nofun, ?_⟩
    rintro _ ⟨⟩
    exact hq

/-- The rest of a field does not fit in the chunk. -/
theorem sound_buffer (h : Mid reader) {n : ℕ} {state : ReadState} (hn : n ≤ reader.rcrd.recordLeft)
    (h0 : n ≠ 0)
    (hs : state = .qxTransportParametersParams ∨ state = .connectionCloseReason)
    (hp : state.Phase seen params) (hq : p.length < len) :
    (buffer reader n state p).Sound seen params none len where
  act := ⟨none, ⟨rfl, rfl⟩, fun _ _ => if_neg (by rcases hs with rfl | rfl <;> nofun)⟩
  next _ _ := by
    refine ⟨⟨⟨⟨[], h.vird, rfl⟩, fun _ _ _ => ?_⟩, h.record, h.fr, ?_, fun _ => h.vird⟩, ?_⟩
    · exact (Nat.pos_of_ne_zero h0).trans_le hn
    · rcases hs with rfl | rfl <;> exact ⟨h.field, Nat.pos_of_ne_zero h0, hn⟩
    · change state.Phase (seen || false) (params || false)
      rwa [Bool.or_false, Bool.or_false]
  fault := nofun
  progress := by
    rintro _ ⟨⟩
    exact hq

/-- After the length of the transport parameters. -/
theorem sound_transportParametersLen (h : Mid reader) (hp : seen = true ∧ params = false) {n : ℕ}
    (hq : p.length < len) : (transportParametersLen n reader p).Sound seen params none len := by
  obtain ⟨rfl, rfl⟩ := hp
  unfold transportParametersLen
  split
  · exact sound_fail rfl rfl
  next hn =>
  split
  · exact sound_reset (a := .params _) h ⟨rfl, rfl, rfl, rfl⟩ rfl hq
  next h0 =>
  split
  · have hm : Mid { reader with rcrd.recordLeft := reader.rcrd.recordLeft - n } :=
      ⟨h.vird, (Nat.sub_le ..).trans h.record, h.fr, h.field⟩
    exact sound_reset (a := .params _) hm ⟨rfl, rfl, rfl, rfl⟩ rfl
      (lt_of_le_of_lt (by rw [List.length_drop]; omega) hq)
  · exact sound_buffer h (Nat.le_of_not_lt hn) h0 (.inl rfl) ⟨rfl, rfl⟩ hq

/-- A connection that is closed reads no more. -/
theorem sound_connectionClosed {reason : List UInt8} (hp : params = true) :
    (connectionClosed reader reason).Sound seen params none len where
  act := ⟨none, ⟨hp, ⟨trivial, nofun⟩, fun _ => trivial, rfl, rfl⟩, nofun⟩
  next := nofun
  fault := by
    rintro _ ⟨⟩
    exact ⟨rfl, rfl⟩
  progress := nofun

/-- After the error code of CONNECTION_CLOSE. -/
theorem sound_connectionCloseErrorCode (h : Mid reader) (hp : seen = true ∧ params = true)
    {errorCode : ℕ} (hq : p.length < len) :
    (connectionCloseErrorCode errorCode reader p).Sound seen params none len := by
  have hm : Mid { reader with rcrd.fr.connectionClose.errorCode := errorCode } :=
    ⟨h.vird, h.record, { h.fr with }, h.field⟩
  unfold connectionCloseErrorCode
  dsimp only
  split <;> exact sound_goOn hm rfl hp hq

/-- After the length of the reason of CONNECTION_CLOSE. -/
theorem sound_connectionCloseReasonlen (h : Mid reader) (hp : seen = true ∧ params = true) {n : ℕ}
    (hq : p.length < len) : (connectionCloseReasonlen n reader p).Sound seen params none len := by
  have hm : Mid { reader with rcrd.fr.connectionClose.reasonlen := n } :=
    ⟨h.vird, h.record, { h.fr with }, h.field⟩
  unfold connectionCloseReasonlen
  split
  · exact sound_fail rfl rfl
  next hn =>
  dsimp only
  split
  · exact sound_connectionClosed hp.2
  · exact sound_buffer hm (Nat.le_of_not_lt hn) (by omega) (.inr rfl) hp hq

/-- After the type of a frame. -/
theorem sound_typed (h : Mid reader) {fr : FrameUnion} (hfr : fr.Bounded) {state : ReadState}
    (hs : state.isBytes = false) (hp : state.Phase seen params) (hq : p.length < len) :
    (typed reader fr state p).Sound seen params none len := by
  unfold typed
  split
  · exact sound_fail rfl rfl
  · next hleft =>
    have hm : Mid { reader with rcrd.fr := fr } := ⟨h.vird, h.record, hfr, h.field⟩
    exact sound_goto hm hleft hs hp hq

/-- There is something in the chunk of a field of which the length is known. -/
theorem fieldAvail_pos (h : reader.Ok)
    (hs : reader.rcrd.state = .streamData ∨ reader.rcrd.state = .datagramData) (hne : p ≠ []) :
    0 < reader.rcrd.fieldAvail p.length ∧
      reader.rcrd.fieldAvail p.length ≤ reader.rcrd.fieldLeft ∧
      reader.rcrd.fieldAvail p.length ≤ p.length ∧
      reader.rcrd.fieldLeft ≤ reader.rcrd.recordLeft := by
  have := List.length_pos_of_ne_nil hne
  obtain ⟨h0, hle⟩ :
      0 < reader.rcrd.fieldLeft ∧ reader.rcrd.fieldLeft ≤ reader.rcrd.recordLeft := by
    have := h.field
    unfold RecordReader.FieldOk at this
    rcases hs with hs | hs <;> rwa [hs] at this
  unfold RecordReader.fieldAvail RecordReader.avail
  omega

/-- Bytes of a field of which the length is known, as far as they are there. -/
theorem sound_bytes (h : reader.Ok)
    (hs : reader.rcrd.state = .streamData ∨ reader.rcrd.state = .datagramData)
    (hp : seen = true ∧ params = true) (hne : p ≠ []) {act : ℕ → Act}
    (hplain : ∀ len, (act len).isSeen = false ∧ (act len).isParams = false)
    (hact : (act (reader.rcrd.fieldAvail p.length)).Sound seen params body
      (if reader.rcrd.fieldLeft = reader.rcrd.fieldAvail p.length then none
        else (advance reader (reader.rcrd.fieldAvail p.length)).body)) :
    (bytes reader p act).Sound seen params body p.length := by
  obtain ⟨hpos, hfield, hlen, hle⟩ := fieldAvail_pos h hs hne
  have hvird := h.bytes (by rcases hs with hs | hs <;> rw [hs] <;> rfl)
  obtain ⟨hseen, hparams⟩ := hplain (reader.rcrd.fieldAvail p.length)
  have hrecord := (Nat.sub_le reader.rcrd.recordLeft (reader.rcrd.fieldAvail p.length)).trans
    h.record
  obtain ⟨rfl, rfl⟩ := hp
  unfold bytes
  dsimp only
  split
  · next heq =>
    rw [if_pos heq] at hact
    refine sound_reset ⟨hvird, hrecord, h.fr, Nat.sub_eq_zero_of_le heq.le⟩ hact rfl ?_
    rw [List.length_drop]
    omega
  · next hneq =>
    rw [if_neg hneq] at hact
    refine ⟨⟨_, hact, fun _ _ => rfl⟩, fun _ _ =>
      ⟨⟨⟨⟨[], hvird, rfl⟩, fun _ _ _ => ?_⟩, hrecord, h.fr, ?_,
      fun _ => hvird⟩, ?_⟩, nofun, nofun⟩
    · change 0 < reader.rcrd.recordLeft - reader.rcrd.fieldAvail p.length
      omega
    · have : 0 < reader.rcrd.fieldLeft - reader.rcrd.fieldAvail p.length ∧
          reader.rcrd.fieldLeft - reader.rcrd.fieldAvail p.length ≤
            reader.rcrd.recordLeft - reader.rcrd.fieldAvail p.length := by omega
      have hstate : (advance reader (reader.rcrd.fieldAvail p.length)).rcrd.state =
        reader.rcrd.state := rfl
      unfold RecordReader.FieldOk
      rw [hstate]
      rcases hs with hs | hs <;> rw [hs] <;> exact this
    · change reader.rcrd.state.Phase _ _
      rcases hs with hs | hs <;> rw [hs] <;> exact ⟨rfl, rfl⟩

/-- The data of a STREAM frame. -/
theorem sound_streamData (h : reader.Ok) (hs : reader.rcrd.state = .streamData)
    (hp : seen = true ∧ params = true) (hne : p ≠ []) :
    (streamData reader p).Sound seen params reader.body p.length := by
  obtain ⟨hpos, hfield, hlen, hle⟩ := fieldAvail_pos h (.inl hs) hne
  have htake : (p.take (reader.rcrd.fieldAvail p.length)).length =
      reader.rcrd.fieldAvail p.length := by
    rw [List.length_take]
    omega
  have hbody : (advance reader (reader.rcrd.fieldAvail p.length)).body =
      some ⟨reader.rcrd.fr.stream.streamId, reader.rcrd.fieldLeft - reader.rcrd.fieldAvail p.length,
        reader.rcrd.fr.stream.fin⟩ := if_pos hs
  unfold streamData
  refine sound_bytes h (.inl hs) hp hne (fun _ => ⟨rfl, rfl⟩) ?_
  refine ⟨hp.2, List.ne_nil_of_length_pos (by rw [htake]; exact hpos), by rw [htake]; exact hfield,
      reader.rcrd.fr.stream.fin, ?_, if_pos hs, ?_⟩
  · rw [htake]
  · rw [htake, hbody]

/-- The data of a DATAGRAM frame. -/
theorem sound_datagramData (h : reader.Ok) (hs : reader.rcrd.state = .datagramData)
    (hp : seen = true ∧ params = true) (hne : p ≠ []) :
    (datagramData reader p).Sound seen params none p.length := by
  have hbody : (advance reader (reader.rcrd.fieldAvail p.length)).body = none :=
    if_neg (by change reader.rcrd.state ≠ _; rw [hs]; nofun)
  unfold datagramData
  refine sound_bytes h (.inr hs) hp hne (fun _ => ⟨rfl, rfl⟩) ?_
  rw [hbody, ite_self]
  exact ⟨hp.2, rfl, rfl⟩

/-- A buffered field goes on. -/
structure Filled (reader : Reader) (p : List UInt8) (len : ℕ) : Prop where
  mid : Mid (fill reader len p)
  more : (fill reader len p).rcrd.buf.left ≠ 0 → (fill reader len p).Ok
  drop : (p.drop len).length < p.length

/-- The buffer is full, or there is more to come in the record. -/
theorem filled (h : reader.Ok)
    (hs : reader.rcrd.state = .qxTransportParametersParams ∨
      reader.rcrd.state = .connectionCloseReason) (hne : p ≠ []) :
    Filled reader p (reader.rcrd.bufAvail p.length) := by
  obtain ⟨hfield, h0, hle⟩ : reader.rcrd.fieldLeft = 0 ∧ 0 < reader.rcrd.buf.left ∧
      reader.rcrd.buf.left ≤ reader.rcrd.recordLeft := by
    have := h.field
    unfold RecordReader.FieldOk at this
    rcases hs with hs | hs <;> rwa [hs] at this
  have hvird := h.bytes (by rcases hs with hs | hs <;> rw [hs] <;> rfl)
  have hpos := List.length_pos_of_ne_nil hne
  have hpos' : 0 < reader.rcrd.bufAvail p.length ∧
      reader.rcrd.bufAvail p.length ≤ reader.rcrd.buf.left ∧
      reader.rcrd.bufAvail p.length ≤ p.length := by
    unfold RecordReader.bufAvail RecordReader.avail
    omega
  have hmid : Mid (fill reader (reader.rcrd.bufAvail p.length) p) :=
    ⟨hvird, (Nat.sub_le ..).trans h.record, h.fr, hfield⟩
  have hleft : (fill reader (reader.rcrd.bufAvail p.length) p).rcrd.buf.left =
      reader.rcrd.buf.left - reader.rcrd.bufAvail p.length := by
    simp only [fill, Buf.left, List.length_append, List.length_take]
    omega
  refine ⟨hmid, fun hmore => ⟨⟨⟨[], hvird, rfl⟩, fun _ _ _ => ?_⟩, hmid.record, hmid.fr, ?_,
    fun _ => hvird⟩, ?_⟩
  · change 0 < reader.rcrd.recordLeft - reader.rcrd.bufAvail p.length
    omega
  · have hbuf : 0 < (fill reader (reader.rcrd.bufAvail p.length) p).rcrd.buf.left ∧
        (fill reader (reader.rcrd.bufAvail p.length) p).rcrd.buf.left ≤
          reader.rcrd.recordLeft - reader.rcrd.bufAvail p.length := by omega
    have hstate : (fill reader (reader.rcrd.bufAvail p.length) p).rcrd.state = reader.rcrd.state :=
      rfl
    unfold RecordReader.FieldOk
    rw [hstate]
    rcases hs with hs | hs <;> rw [hs] <;> exact ⟨hfield, hbuf⟩
  · rw [List.length_drop]
    omega

/-- The transport parameters. -/
theorem sound_transportParametersParams (h : reader.Ok)
    (hs : reader.rcrd.state = .qxTransportParametersParams) (hp : seen = true ∧ params = false)
    (hne : p ≠ []) :
    (transportParametersParams reader p).Sound seen params none p.length := by
  have hf := filled h (.inl hs) hne
  obtain ⟨rfl, rfl⟩ := hp
  unfold transportParametersParams
  dsimp only
  split
  · exact sound_reset (a := .params _) hf.mid ⟨rfl, rfl, rfl, rfl⟩ rfl hf.drop
  · next hmore =>
    refine ⟨⟨none, rfl, fun _ _ => if_neg ?_⟩, fun _ _ => ⟨hf.more hmore, ?_⟩, nofun, nofun⟩
    · change reader.rcrd.state ≠ _
      rw [hs]
      nofun
    · change reader.rcrd.state.Phase true false
      rw [hs]
      exact ⟨rfl, rfl⟩

/-- The reason of CONNECTION_CLOSE. -/
theorem sound_connectionCloseReason (h : reader.Ok)
    (hs : reader.rcrd.state = .connectionCloseReason) (hp : seen = true ∧ params = true)
    (hne : p ≠ []) :
    (connectionCloseReason reader p).Sound seen params none p.length := by
  have hf := filled h (.inr hs) hne
  obtain ⟨rfl, rfl⟩ := hp
  unfold connectionCloseReason
  dsimp only
  split
  · exact sound_connectionClosed rfl
  · next hmore =>
    refine ⟨⟨none, rfl, fun _ _ => if_neg ?_⟩, fun _ _ => ⟨hf.more hmore, ?_⟩, nofun, nofun⟩
    · change reader.rcrd.state ≠ _
      rw [hs]
      nofun
    · change reader.rcrd.state.Phase true true
      rw [hs]
      exact ⟨rfl, rfl⟩

/-- The size of a record. -/
theorem sound_recordSize {tp : TransportParams} (h : reader.Ok)
    (hs : reader.rcrd.state = .recordSize) (hp : seen = params) (hne : p ≠ []) :
    (recordSize tp reader p).Sound seen params none p.length := by
  obtain ⟨bs, hv, hbs⟩ := h.vird
  unfold recordSize
  rw [hv, varintReaderRead_virdOf _ hbs hne]
  cases hget : getUvarint (bs ++ p) with
  | none =>
    have hnot := virdOf_done hget (List.append_ne_nil_of_right_ne_nil bs hne)
    dsimp only
    rw [if_neg (by simp)]
    dsimp only
    rw [hnot]
    refine ⟨⟨none, rfl, fun _ _ => if_neg (by simp [stop, hs])⟩, fun _ _ =>
      ⟨⟨⟨⟨_, rfl, hget⟩, fun hn => absurd hs hn⟩, h.record, h.fr, h.field, ?_⟩, ?_⟩, nofun, nofun⟩
    · simp [stop, hs, ReadState.isBytes]
    · change reader.rcrd.state.Phase (seen || false) (params || false)
      rwa [hs, phase_of_start rfl, Bool.or_false, Bool.or_false]
  | some x =>
    obtain ⟨v, rest⟩ := x
    obtain ⟨n, hn, hle, rfl⟩ := getUvarint_append_suffix hbs hget
    have hvar := getUvarint_le hget
    simp only [VarintReader.done, beq_self_eq_true, if_true]
    split
    · exact sound_fail rfl rfl
    · next hok =>
      have hfield := fieldLeft_eq h (by rw [hs]; rfl) (by rw [hs]; rfl)
      have hm : Mid ⟨.reset, { reader.rcrd with recordLeft := v }⟩ := ⟨rfl, hvar, h.fr, hfield⟩
      refine sound_goto hm (not_or.1 hok).2 rfl ((phase_of_start (by rfl)).2 hp) ?_
      simp only [List.length_drop]
      omega

/-- A varint of the record is part of it, and what follows it may rely on that. -/
theorem sound_field (h : reader.Ok) (hs : reader.rcrd.state.isBytes = false)
    (hs₁ : reader.rcrd.state ≠ .recordSize) (hs₂ : reader.rcrd.state.isOver = false)
    (hp : reader.rcrd.state.Phase seen params) (hne : p ≠ [])
    {k : ℕ → ℕ → Reader → List UInt8 → Parsed}
    (hk : ∀ v vlen reader' q, Mid reader' → v ≤ maxVarint → q.length < p.length →
      (k v vlen reader' q).Sound seen params none p.length) :
    (field reader p k).Sound seen params none p.length := by
  have hpos := List.length_pos_of_ne_nil hne
  have hleft : 0 < reader.rcrd.recordLeft := h.recordLeft hs₁
    (by rintro e; simp [e, ReadState.isOver] at hs₂)
    (by rintro e; simp [e, ReadState.isOver] at hs₂)
  have hav : 0 < reader.rcrd.avail p.length ∧ reader.rcrd.avail p.length ≤ p.length ∧
      reader.rcrd.avail p.length ≤ reader.rcrd.recordLeft := by
    unfold RecordReader.avail
    omega
  have hlen : (p.take (reader.rcrd.avail p.length)).length = reader.rcrd.avail p.length := by
    rw [List.length_take]
    omega
  have htake : p.take (reader.rcrd.avail p.length) ≠ [] :=
    List.ne_nil_of_length_pos (by rw [hlen]; exact hav.1)
  have hfield := fieldLeft_eq h hs hs₂
  obtain ⟨bs, hv, hbs⟩ := h.vird
  unfold field
  dsimp only
  rw [hv, varintReaderRead_virdOf _ hbs htake]
  -- The varint is not complete: an error at the end of the record.
  cases hget : getUvarint (bs ++ p.take (reader.rcrd.avail p.length)) with
  | none =>
    have hnot := virdOf_done hget (List.append_ne_nil_of_right_ne_nil bs htake)
    dsimp only
    by_cases hfin : (reader.rcrd.recordLeft == reader.rcrd.avail p.length) = true
    · rw [if_pos hfin]
      exact sound_fail rfl rfl
    · rw [if_neg hfin]
      dsimp only
      rw [hnot, if_neg (by simp), hlen]
      have hne : reader.rcrd.recordLeft ≠ reader.rcrd.avail p.length := by simpa using hfin
      refine ⟨⟨none, rfl, fun _ _ => if_neg ?_⟩, fun _ _ => ⟨⟨⟨⟨_, rfl, hget⟩, fun _ _ _ => ?_⟩,
        (Nat.sub_le ..).trans h.record, h.fr, ?_, ?_⟩, ?_⟩, nofun, nofun⟩
      · change reader.rcrd.state ≠ _
        rintro e
        rw [e] at hs
        cases hs
      · change 0 < reader.rcrd.recordLeft - reader.rcrd.avail p.length
        omega
      · exact fieldOk_of_eq hfield hs
      · intro hb
        rw [show reader.rcrd.state.isBytes = true from hb] at hs
        cases hs
      · change reader.rcrd.state.Phase (seen || false) (params || false)
        rwa [Bool.or_false, Bool.or_false]
  | some x =>
    obtain ⟨v, rest⟩ := x
    obtain ⟨n, hn, hle, rfl⟩ := getUvarint_append_suffix hbs hget
    simp only [VarintReader.done, beq_self_eq_true, if_true]
    refine hk _ _ _ _ ⟨rfl, (Nat.sub_le ..).trans h.record, h.fr, hfield⟩ (getUvarint_le hget) ?_
    rw [hlen] at hle
    simp only [List.length_drop, hlen]
    omega

/-- After the frame type. -/
theorem sound_frameType {tp : TransportParams} (h : Mid reader) (hp : seen = params) {type vlen : ℕ}
    (hq : p.length < len) : (frameType seen tp type vlen reader p).Sound seen params none len := by
  have hm : Mid { reader with rcrd.typelen := vlen } := ⟨h.vird, h.record, h.fr, h.field⟩
  have hpad : (p.drop (paddingLen reader.rcrd.recordLeft p)).length < len := by
    rw [List.length_drop]
    omega
  subst hp
  refine sound_ite (fun _ => sound_fail rfl rfl) fun hseen => ?_
  -- The transport parameters come first, and once.
  refine sound_ite (fun _ => ?_) fun htype => ?_
  · refine sound_ite (fun _ => sound_fail rfl rfl) fun hseen => ?_
    rw [Bool.not_eq_true] at hseen
    subst hseen
    refine sound_ite (fun _ => ?_) fun hleft => ?_
    · refine ⟨⟨none, ⟨rfl, rfl, rfl, rfl⟩, nofun⟩, nofun, ?_, nofun⟩
      rintro _ ⟨⟩
      exact ⟨rfl, rfl⟩
    · refine ⟨⟨none, ⟨rfl, rfl, rfl, rfl⟩, fun _ _ => body_goto nofun⟩,
        fun _ _ => ⟨hm.ok hleft rfl, ⟨rfl, rfl⟩⟩, nofun, ?_⟩
      rintro _ ⟨⟩
      exact hq
  -- Any other frame comes after them.
  have hp : seen = true ∧ seen = true := by
    cases seen
    · simp [htype] at hseen
    · exact ⟨rfl, rfl⟩
  have hnext {state : ReadState} (hs : state.isBytes = false) (hp : state.Phase seen seen) :=
    sound_goOn hm hs hp hq
  have htyped {fr : FrameUnion} (hfr : fr.Bounded) {state : ReadState} (hs : state.isBytes = false)
    (hp : state.Phase seen seen) := sound_typed hm hfr hs hp hq
  refine sound_ite (fun _ => htyped (by exact { h.fr with }) (by rfl) (by exact hp)) fun _ => ?_
  -- Padding is complete at once.
  refine sound_ite (fun _ => ?_) fun _ => ?_
  · have hm' : Mid { reader with
        rcrd.typelen := vlen
        rcrd.recordLeft := reader.rcrd.recordLeft - paddingLen reader.rcrd.recordLeft p } :=
      ⟨h.vird, (Nat.sub_le ..).trans h.record, h.fr, h.field⟩
    exact sound_reset (a := .log _) hm' ⟨hp.1, ⟨trivial, nofun⟩, fun _ => trivial, rfl, rfl⟩ rfl
      hpad
  refine sound_ite (fun _ => hnext rfl hp) fun _ => ?_
  refine sound_ite (fun _ => hnext rfl hp) fun _ => ?_
  refine sound_ite (fun _ => hnext rfl hp) fun _ => ?_
  refine sound_ite (fun _ => hnext rfl hp) fun _ => ?_
  refine sound_ite (fun _ => htyped (by exact { h.fr with }) (by rfl) (by exact hp)) fun _ => ?_
  refine sound_ite (fun _ => hnext rfl hp) fun _ => ?_
  refine sound_ite (fun _ => hnext rfl hp) fun _ => ?_
  refine sound_ite (fun _ => htyped (by exact { h.fr with }) (by rfl) (by exact hp)) fun _ => ?_
  refine sound_ite (fun _ => htyped (by exact { h.fr with }) (by rfl) (by exact hp)) fun _ => ?_
  -- A datagram without a length takes the rest of the record.
  refine sound_ite (fun _ => ?_) fun _ => ?_
  · have hm' : Mid { reader with
        rcrd.typelen := vlen
        rcrd.fr.datagram.type := type
        rcrd.fr.datagram.len := reader.rcrd.recordLeft } :=
        ⟨h.vird, h.record, { h.fr with }, h.field⟩
    refine sound_ite (fun _ => sound_fail rfl rfl) fun _ => ?_
    refine sound_ite (fun _ => ?_) fun hleft => ?_
    · exact sound_reset (a := .datagram ..) hm' ⟨hp.1, rfl, rfl⟩ rfl hq
    · have hpos := Nat.pos_of_ne_zero hleft
      refine ⟨⟨none, rfl, fun _ _ => body_goto nofun⟩, fun _ _ => ⟨⟨⟨⟨[], h.vird, rfl⟩,
        fun _ _ _ => hpos⟩, h.record, hm'.fr, ⟨hpos, le_rfl⟩, fun _ => h.vird⟩, ?_⟩, nofun, ?_⟩
      · rw [hp.1]
        exact ⟨rfl, rfl⟩
      · rintro _ ⟨⟩
        exact hq
  refine sound_ite (fun _ => ?_) fun _ => ?_
  · exact sound_ite (fun _ => sound_fail rfl rfl) fun _ => htyped (by exact { h.fr with }) (by rfl)
      (by exact hp)
  refine sound_ite (fun _ => htyped (by exact { h.fr with }) (by rfl) (by exact hp))
    fun _ => sound_fail rfl rfl

/-- A field that is only stored is followed by one, and the frame is handled if it was
    the last. -/
structure Plain.Ok (x : Plain) : Prop where
  bounded : ∀ v fr, v ≤ maxVarint → fr.Bounded → match x with
    | .field store _ => (store v fr).Bounded
    | .last store frame => (store v fr).Bounded ∧ (frame (store v fr)).Handled ∧
      (frame (store v fr)).body = none
  next : match x with
    | .field _ state => state.isBytes = false ∧ state.isStart = false ∧ state.isOver = false ∧
      state.isParams = false
    | .last .. => True

/-- The fields that are only stored keep to the invariant. -/
theorem plain_ok {state : ReadState} {x : Plain} (h : plain state = some x) :
    x.Ok ∧ state.isBytes = false ∧ state.isStart = false ∧ state.isOver = false ∧
      state.isParams = false := by
  cases state <;> cases h <;>
    refine ⟨⟨fun v fr hv hfr => ?_, by simp [ReadState.isBytes, ReadState.isStart,
      ReadState.isOver, ReadState.isParams]⟩, rfl, rfl, rfl, rfl⟩
  case qxPingSeq => exact ⟨{ hfr with qxPing := hv }, ⟨hv, nofun⟩, rfl⟩
  case resetStreamStreamId => exact { hfr with resetStream := ⟨hv, hfr.resetStream.2⟩ }
  case resetStreamAppErrorCode =>
    exact { hfr with resetStream := ⟨hfr.resetStream.1, hv, hfr.resetStream.2.2⟩ }
  case resetStreamFinalSize =>
    have hb := hfr.resetStream
    exact ⟨{ hfr with resetStream := ⟨hb.1, hb.2.1, hv⟩ }, ⟨⟨hb.1, hb.2.1, hv⟩, nofun⟩, rfl⟩
  case stopSendingStreamId => exact { hfr with stopSending := ⟨hv, hfr.stopSending.2⟩ }
  case stopSendingAppErrorCode =>
    have hb := hfr.stopSending
    exact ⟨{ hfr with stopSending := ⟨hb.1, hv⟩ }, ⟨⟨hb.1, hv⟩, nofun⟩, rfl⟩
  case maxDataMaxData => exact ⟨{ hfr with maxData := hv }, ⟨hv, nofun⟩, rfl⟩
  case maxStreamDataStreamId => exact { hfr with maxStreamData := ⟨hv, hfr.maxStreamData.2⟩ }
  case maxStreamDataMaxStreamData =>
    have hb := hfr.maxStreamData
    exact ⟨{ hfr with maxStreamData := ⟨hb.1, hv⟩ }, ⟨⟨hb.1, hv⟩, nofun⟩, rfl⟩
  case maxStreamsMaxStreams => exact ⟨{ hfr with maxStreams := hv }, ⟨hv, nofun⟩, rfl⟩
  case dataBlockedOffset => exact ⟨{ hfr with dataBlocked := hv }, ⟨hv, nofun⟩, rfl⟩
  case streamDataBlockedStreamId =>
    exact { hfr with streamDataBlocked := ⟨hv, hfr.streamDataBlocked.2⟩ }
  case streamDataBlockedOffset =>
    have hb := hfr.streamDataBlocked
    exact ⟨{ hfr with streamDataBlocked := ⟨hb.1, hv⟩ }, ⟨⟨hb.1, hv⟩, nofun⟩, rfl⟩
  case streamsBlockedMaxStreams => exact ⟨{ hfr with streamsBlocked := hv }, ⟨hv, nofun⟩, rfl⟩
  case connectionCloseFrameType => exact { hfr with }

/-- Within a frame that is not the parameters. -/
theorem phase_of_mid {state : ReadState} (h₁ : state.isStart = false) (h₂ : state.isOver = false)
    (h₃ : state.isParams = false) : state.Phase seen params ↔ seen = true ∧ params = true := by
  simp [ReadState.Phase, h₁, h₂, h₃]

/-- After a field that is only stored. -/
theorem sound_plain {x : Plain} (h : Mid reader) (hx : x.Ok) (hp : seen = true ∧ params = true)
    {v : ℕ} (hv : v ≤ maxVarint) (hq : p.length < len) :
    (x.parse v reader p).Sound seen params none len := by
  have hb := hx.bounded v _ hv h.fr
  have hnext := hx.next
  cases x with
  | field store state =>
    obtain ⟨h1, h2, h3, h4⟩ := hnext
    have hm : Mid { reader with rcrd.fr := store v reader.rcrd.fr } :=
      ⟨h.vird, h.record, hb, h.field⟩
    exact sound_goOn hm h1 ((phase_of_mid h2 h3 h4).2 hp) hq
  | last store frame =>
    obtain ⟨hfr, hhandled, hbody⟩ := hb
    obtain ⟨rfl, rfl⟩ := hp
    exact sound_reset (a := .frame _) ⟨h.vird, h.record, hfr, h.field⟩
      ⟨rfl, hhandled, rfl, hbody.symm⟩
      rfl hq

/-- A pass of the parser is as it should be. -/
theorem pass_sound (tp : TransportParams) (h : reader.Ok)
    (hp : reader.rcrd.state.Phase seen params) (hne : p ≠ [])
    (hover : reader.rcrd.state.isOver = false) :
    (pass seen tp reader p).Sound seen params reader.body p.length := by
  unfold pass
  -- No state but that of the data of a STREAM frame has data left.
  cases hplain : plain reader.rcrd.state with
  | some x =>
    obtain ⟨hx, h1, h2, h3, h4⟩ := plain_ok hplain
    have hbody : reader.body = none := if_neg (by rintro e; rw [e] at h1; cases h1)
    rw [hbody]
    refine sound_field h h1 (by rintro e; rw [e] at h2; cases h2) h3 hp hne ?_
    exact fun _ _ _ _ hm hv hq => sound_plain hm hx ((phase_of_mid h2 h3 h4).1 hp) hv hq
  | none =>
    dsimp only
    have hbody (hs : reader.rcrd.state ≠ .streamData) : reader.body = none := if_neg hs
    generalize hs : reader.rcrd.state = state at hp hplain hover hbody
    have hread (h1 : state.isBytes = false) (h2 : state ≠ .recordSize) (h3 : state ≠ .streamData)
        {k : ℕ → ℕ → Reader → List UInt8 → Parsed}
        (hk : ∀ v vlen reader' q, Mid reader' → v ≤ maxVarint → q.length < p.length →
          (k v vlen reader' q).Sound seen params none p.length) :
        (field reader p k).Sound seen params reader.body p.length := by
      rw [hbody h3]
      subst hs
      exact sound_field h h1 h2 hover hp hne hk
    cases state <;> try first
      | (cases hplain; done)
      | (cases hover; done)
    case recordSize =>
      rw [hbody nofun]
      exact sound_recordSize h hs hp hne
    case frameType => exact hread rfl nofun nofun fun _ _ _ _ hm _ hq => sound_frameType hm hp hq
    case qxTransportParametersLen =>
      exact hread rfl nofun nofun fun _ _ _ _ hm _ hq => sound_transportParametersLen hm hp hq
    case qxTransportParametersParams =>
      rw [hbody nofun]
      exact sound_transportParametersParams h hs hp hne
    case streamStreamId =>
      exact hread rfl nofun nofun fun _ _ _ _ hm hv hq => sound_streamStreamId hm hp hv hq
    case streamOffset =>
      exact hread rfl nofun nofun fun _ _ _ _ hm hv hq => sound_streamOffset hm hp hv hq
    case streamLength =>
      exact hread rfl nofun nofun fun _ _ _ _ hm _ hq => sound_streamLength hm hp hq
    case streamData => exact sound_streamData h hs hp hne
    case connectionCloseErrorCode =>
      exact hread rfl nofun nofun fun _ _ _ _ hm _ hq => sound_connectionCloseErrorCode hm hp hq
    case connectionCloseReasonlen =>
      exact hread rfl nofun nofun fun _ _ _ _ hm _ hq => sound_connectionCloseReasonlen hm hp hq
    case connectionCloseReason =>
      rw [hbody nofun]
      exact sound_connectionCloseReason h hs hp hne
    case datagramLen =>
      exact hread rfl nofun nofun fun _ _ _ _ hm _ hq => sound_datagramLen hm hp hq
    case datagramData =>
      rw [hbody nofun]
      exact sound_datagramData h hs hp hne

/-! ## Transport parameters -/

/-- Either branch is taken. -/
theorem certain_ite {c : Prop} [Decidable c] {x y : Parsed} (hx : x.Certain) (hy : y.Certain) :
    (if c then x else y).Certain := by
  split
  · exact hx
  · exact hy

/-- A varint is read first. -/
theorem certain_field {reader : Reader} {p : List UInt8}
    {k : ℕ → ℕ → Reader → List UInt8 → Parsed} (hk : ∀ v vlen r q, (k v vlen r q).Certain) :
    (field reader p k).Certain := by
  unfold field
  dsimp only
  split
  · exact nofun
  · exact certain_ite (hk _ _ _ _) nofun

/-- The parser has no objection of its own to transport parameters that are complete. -/
theorem pass_certain (seen : Bool) (tp : TransportParams) (reader : Reader) (p : List UInt8) :
    (pass seen tp reader p).Certain := by
  unfold pass
  split
  · next x _ =>
    refine certain_field fun v _ r q => ?_
    cases x with
    | field store state => exact certain_ite nofun nofun
    | last store frame => exact nofun
  · split
    case h_2 =>
      refine certain_field fun type vlen r q => ?_
      unfold frameType
      dsimp only
      repeat' apply certain_ite
      all_goals exact nofun
    all_goals first
      | refine certain_field fun v vlen r q => ?_
      | skip
    all_goals
      simp only [Parsed.Certain, recordSize, transportParametersLen, transportParametersParams,
        streamStreamId, streamOffset, streamLength, streamData, connectionCloseErrorCode,
        connectionCloseReasonlen, connectionCloseReason, datagramLen, datagramData, goOn,
        streamHeader, bytes, connectionClosed, buffer]
      repeat' split
      all_goals
        intro _ h
        first
          | exact ⟨_, rfl⟩
          | cases h

end Parse

end Dwnx
