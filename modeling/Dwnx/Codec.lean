import Dwnx.Frd

/-!
# The round trip of the frames

A frame that was encoded is decoded to the same frame (`frame_roundTrip`), up to what is
not written: the cut of the data into vectors, the idle timeout beyond whole
milliseconds, the frame type in a CONNECTION_CLOSE frame of the application.
-/

namespace Dwnx

/-- The frames of which `dwnx_frame_encode` has the types, with fields that are in range. -/
def Frame.Supported : Frame → Prop
  | .qxTransportParameters params => params.InRange
  | .qxPing fr =>
    (fr.type = FrameType.qxPingRequest ∨ fr.type = FrameType.qxPingResponse) ∧ fr.seq ≤ maxVarint
  | .padding len => 1 ≤ len
  | .resetStream fr =>
    fr.streamId ≤ maxVarint ∧ fr.appErrorCode ≤ maxVarint ∧ fr.finalSize ≤ maxVarint
  | .stopSending fr => fr.streamId ≤ maxVarint ∧ fr.appErrorCode ≤ maxVarint
  | .stream fr =>
    fr.streamId ≤ maxVarint ∧ fr.offset ≤ maxVarint ∧ fr.len ≤ maxVarint ∧
      fr.len ≤ fr.data.flatten.length
  | .maxData fr => fr.maxData ≤ maxVarint
  | .maxStreamData fr => fr.streamId ≤ maxVarint ∧ fr.maxStreamData ≤ maxVarint
  | .maxStreams fr =>
    (fr.type = FrameType.maxStreamsBidi ∨ fr.type = FrameType.maxStreamsUni) ∧
      fr.maxStreams ≤ maxVarint
  | .dataBlocked fr => fr.maxData ≤ maxVarint
  | .streamDataBlocked fr => fr.streamId ≤ maxVarint ∧ fr.maxStreamData ≤ maxVarint
  | .streamsBlocked fr =>
    (fr.type = FrameType.streamsBlockedBidi ∨ fr.type = FrameType.streamsBlockedUni) ∧
      fr.maxStreams ≤ maxVarint
  | .connectionClose fr =>
    (fr.type = FrameType.connectionClose ∨ fr.type = FrameType.connectionCloseApp) ∧
      fr.errorCode ≤ maxVarint ∧
      (fr.type = FrameType.connectionClose → fr.frameType ≤ maxVarint) ∧
      fr.reasonlen ≤ maxVarint ∧ fr.reason.length = fr.reasonlen
  | .datagram fr =>
    (fr.type = FrameType.datagram ∨ fr.type = FrameType.datagramLen) ∧ fr.len ≤ maxVarint ∧
      fr.data.flatten.length = fr.len

/-- What is decoded of a frame. -/
def Frame.received : Frame → Frame
  | .qxTransportParameters params => .qxTransportParameters params.received
  | .stream fr => .stream { fr with
      flags := fr.typeByte - FrameType.stream
      data := vecsOf (fr.data.flatten.take fr.len) }
  | .connectionClose fr => .connectionClose { fr with
      frameType := if fr.type = FrameType.connectionClose then fr.frameType else 0 }
  | .datagram fr => .datagram { fr with data := vecsOf fr.data.flatten }
  | fr => fr

/-- What may come after the frame: a DATAGRAM frame without a length goes to the end, and
    PADDING goes on as long as there are zeros. -/
def Frame.Before (R : List UInt8) : Frame → Prop
  | .padding _ => R.head? ≠ some 0
  | .datagram fr => fr.type = FrameType.datagram → R = []
  | _ => True

/-! ## Fields that were written -/

theorem getUvarints_putUvarint {vs : List ℕ} (h : ∀ v ∈ vs, v ≤ maxVarint) (R : List UInt8) :
    getUvarints vs.length (vs.flatMap putUvarint ++ R) = some (vs, R) := by
  induction vs with
  | nil => rfl
  | cons v vs ih =>
    rw [List.length_cons, List.flatMap_cons, List.append_assoc, getUvarints,
      getUvarint_putUvarint (h v List.mem_cons_self)]
    simp [ih fun w hw => h w (List.mem_cons_of_mem _ hw)]

theorem getBytes_putUvarint {d : List UInt8} (h : d.length ≤ maxVarint) (R : List UInt8) :
    getBytes (putUvarint d.length ++ (d ++ R)) = some (d, R) := by
  simp [getBytes, getUvarint_putUvarint h]

/-- The type that was written is read, and what follows it. -/
theorem getFrame_putUvarint {type : ℕ} (h : type ≤ maxVarint) (p : List UInt8) :
    getFrame (putUvarint type ++ p) = getBody type p := by
  unfold getFrame
  simp only [getUvarint_putUvarint h, Option.bind_eq_bind, Option.bind_some, List.length_append,
    length_putUvarint]
  exact if_neg (by omega)

/-- A frame of integers only. -/
theorem getFrame_varints {t : ℕ} {v : List ℕ} {fr : Frame} {f : List ℕ → Frame}
    (hw : fr.wire = (t :: v).flatMap putUvarint ++ []) (h : ∀ n ∈ t :: v, n ≤ maxVarint)
    (hbody : ∀ p, getBody t p = (getUvarints v.length p).map fun vp => (f vp.1, vp.2))
    (hf : f v = fr) (R : List UInt8) : getFrame (fr.wire ++ R) = some (fr, R) := by
  rw [hw, List.append_nil, List.flatMap_cons, List.append_assoc,
    getFrame_putUvarint (h t List.mem_cons_self), hbody,
    getUvarints_putUvarint fun n hn => h n (List.mem_cons_of_mem _ hn), Option.map_some, hf]

/-- The encoded parameters are short. -/
theorem length_bytes_le (params : TransportParams) : params.bytes.length ≤ maxVarint := by
  have hparam (c : Prop) [Decidable c] (id v : ℕ) : (param c id v).length ≤ 1 := by
    unfold param
    split <;> simp
  have hwritten : params.written.length ≤ 9 := by
    simp only [TransportParams.written, List.length_append]
    have := fun c [Decidable c] id v => hparam c id v
    grind
  have hbytes (es : List (ℕ × ℕ)) : (es.map paramBytes).flatten.length ≤ 24 * es.length := by
    induction es with
    | nil => simp
    | cons e es ih =>
      have := uvarintLen_le e.1
      have := uvarintLen_le (uvarintLen e.2)
      have := uvarintLen_le e.2
      rw [List.map_cons, List.flatten_cons, List.length_append, length_paramBytes, List.length_cons]
      omega
  have h24 := hbytes params.written
  unfold maxVarint
  unfold TransportParams.bytes
  omega

/-! ## STREAM frames -/

theorem typeByte_eq (fr : FrameStream) :
    fr.typeByte = 10 + (if fr.fin then 1 else 0) + (if fr.offset = 0 then 0 else 4) := rfl

theorem typeByte_bits (fr : FrameStream) :
    fr.typeByte < 64 ∧ fr.typeByte / 8 = 1 ∧
      FrameType.hasBit fr.typeByte FrameType.streamFinBit = fr.fin ∧
      FrameType.hasBit fr.typeByte FrameType.streamLenBit = true ∧
      FrameType.hasBit fr.typeByte FrameType.streamOffBit = decide (fr.offset ≠ 0) := by
  rw [typeByte_eq]
  by_cases h : fr.offset = 0
  · rw [if_pos h, decide_eq_false (not_not.2 h)]
    cases fr.fin <;> decide
  · rw [if_neg h, decide_eq_true h]
    cases fr.fin <;> decide

theorem getStream_wire {fr : FrameStream} (h : (Frame.stream fr).Supported) (R : List UInt8) :
    getStream fr.typeByte (putUvarint fr.streamId ++
      ((if fr.offset = 0 then [] else putUvarint fr.offset) ++
        (putUvarint fr.len ++ (fr.data.flatten.take fr.len ++ R)))) =
      some ({ fr with
        flags := fr.typeByte - FrameType.stream
        data := vecsOf (fr.data.flatten.take fr.len) }, R) := by
  obtain ⟨hid, hoffset, hlen, hdata⟩ := h
  obtain ⟨-, -, hfin, hlenBit, hoffBit⟩ := typeByte_bits fr
  have htake := List.length_take_of_le hdata
  have hbytes := getBytes_putUvarint (d := fr.data.flatten.take fr.len) (by omega) R
  rw [htake] at hbytes
  unfold getStream
  rw [hfin, hlenBit, hoffBit]
  by_cases hzero : fr.offset = 0
  · simp [getUvarint_putUvarint hid, hzero, hbytes, htake, -List.length_take]
  · simp [getUvarint_putUvarint hid, getUvarint_putUvarint hoffset, hzero, hbytes,
      htake, -List.length_take]

/-- What is read after the type of a STREAM frame. -/
theorem getBody_stream (fr : FrameStream) (p : List UInt8) :
    getBody fr.typeByte p = (getStream fr.typeByte p).map fun fp => (.stream fp.1, fp.2) := by
  obtain ⟨hlt, heighth, -⟩ := typeByte_bits fr
  have hne {t : ℕ} (ht : t < 8 ∨ 16 ≤ t) : ¬fr.typeByte = t := by omega
  unfold getBody
  dsimp only
  rw [if_neg (hne (by decide)), if_neg (not_or.2 ⟨hne (by decide), hne (by decide)⟩),
    if_neg (hne (by decide)), if_neg (hne (by decide)), if_neg (hne (by decide)),
    if_neg (hne (by decide)), if_neg (hne (by decide)),
    if_neg (not_or.2 ⟨hne (by decide), hne (by decide)⟩), if_neg (hne (by decide)),
    if_neg (hne (by decide)), if_neg (not_or.2 ⟨hne (by decide), hne (by decide)⟩),
    if_neg (not_or.2 ⟨hne (by decide), hne (by decide)⟩), if_neg (hne (by decide)),
    if_neg (hne (by decide)), if_pos heighth]

theorem getFrame_stream {fr : FrameStream} (h : (Frame.stream fr).Supported) (R : List UInt8) :
    getFrame ((Frame.stream fr).wire ++ R) = some ((Frame.stream fr).received, R) := by
  have hle : fr.typeByte ≤ maxVarint := by
    have := (typeByte_bits fr).1
    unfold maxVarint
    omega
  have hwire : (Frame.stream fr).wire ++ R = putUvarint fr.typeByte ++ (putUvarint fr.streamId ++
      ((if fr.offset = 0 then [] else putUvarint fr.offset) ++
        (putUvarint fr.len ++ (fr.data.flatten.take fr.len ++ R)))) := by
    by_cases hzero : fr.offset = 0 <;> simp [Frame.wire, Frame.varints, Frame.payload, hzero]
  rw [hwire, getFrame_putUvarint hle, getBody_stream, getStream_wire h]
  rfl

/-! ## Other frames with bytes -/

theorem getFrame_params {params : TransportParams}
    (h : (Frame.qxTransportParameters params).Supported) (R : List UInt8) :
    getFrame ((Frame.qxTransportParameters params).wire ++ R) =
      some ((Frame.qxTransportParameters params).received, R) := by
  have hlen := length_bytes_le params
  have hwire : (Frame.qxTransportParameters params).wire ++ R =
      putUvarint FrameType.qxTransportParameters ++
        (putUvarint params.bytes.length ++ (params.bytes ++ R)) := by
    simp [Frame.wire, Frame.varints, Frame.payload]
  rw [hwire, getFrame_putUvarint (by decide), getBody_params, getBytes_putUvarint hlen]
  change (transportParamsDecode params.bytes).toOption.map _ = _
  rw [decode_encode h]
  rfl

/-- The zeros of a PADDING frame end where something else begins. -/
theorem getFrame_padding {len : ℕ} (h : (Frame.padding len).Supported) {R : List UInt8}
    (hR : (Frame.padding len).Before R) :
    getFrame ((Frame.padding len).wire ++ R) = some ((Frame.padding len).received, R) := by
  obtain ⟨n, rfl⟩ : ∃ n, len = n + 1 := ⟨len - 1, (Nat.sub_add_cancel h).symm⟩
  have hwire : (Frame.padding (n + 1)).wire ++ R = 0 :: (List.replicate n 0 ++ R) := rfl
  have hzero : R.takeWhile (· = (0 : UInt8)) = [] := by
    cases R with
    | nil => rfl
    | cons c R =>
      have hc : ¬c = 0 := fun hc => hR (by rw [hc]; rfl)
      rw [List.takeWhile_cons, if_neg (by simpa using hc)]
  have hrun : (List.replicate n 0 ++ R).takeWhile (· = (0 : UInt8)) = List.replicate n 0 := by
    rw [List.takeWhile_append_of_pos (by simp), hzero, List.append_nil]
  rw [hwire, getFrame_byte (by decide)]
  change some (Frame.padding _, _) = _
  rw [hrun, List.length_replicate, List.drop_left' (List.length_replicate ..), Nat.add_comm]
  rfl

/-- Both frames that close a connection: the second has no frame type. -/
theorem getFrame_connectionClose {fr : FrameConnectionClose}
    (h : (Frame.connectionClose fr).Supported) (R : List UInt8) :
    getFrame ((Frame.connectionClose fr).wire ++ R) =
      some ((Frame.connectionClose fr).received, R) := by
  obtain ⟨type, errorCode, frameType, reasonlen, reason⟩ := fr
  obtain ⟨htype, herror, hft, hlen, hreason⟩ := h
  dsimp only at htype herror hft hlen hreason
  subst hreason
  have hbytes := getBytes_putUvarint hlen R
  rcases htype with rfl | rfl
  · have hwire : (Frame.connectionClose
        ⟨FrameType.connectionClose, errorCode, frameType, reason.length, reason⟩).wire ++ R =
        putUvarint FrameType.connectionClose ++ (putUvarint errorCode ++ (putUvarint frameType ++
          (putUvarint reason.length ++ (reason ++ R)))) := by
      simp [Frame.wire, Frame.varints, Frame.payload]
    have hget : getConnectionClose FrameType.connectionClose (putUvarint errorCode ++
        (putUvarint frameType ++ (putUvarint reason.length ++ (reason ++ R)))) =
        some (⟨FrameType.connectionClose, errorCode, frameType, reason.length, reason⟩, R) := by
      simp [getConnectionClose, getUvarint_putUvarint herror, getUvarint_putUvarint (hft rfl),
        hbytes]
    rw [hwire, getFrame_putUvarint (by decide)]
    change (getConnectionClose FrameType.connectionClose _).map _ = _
    rw [hget]
    rfl
  · have hwire : (Frame.connectionClose
        ⟨FrameType.connectionCloseApp, errorCode, frameType, reason.length, reason⟩).wire ++ R =
        putUvarint FrameType.connectionCloseApp ++ (putUvarint errorCode ++
          (putUvarint reason.length ++ (reason ++ R))) := by
      simp [Frame.wire, Frame.varints, Frame.payload, FrameType.connectionClose,
        FrameType.connectionCloseApp]
    have hget : getConnectionClose FrameType.connectionCloseApp (putUvarint errorCode ++
        (putUvarint reason.length ++ (reason ++ R))) =
        some (⟨FrameType.connectionCloseApp, errorCode, 0, reason.length, reason⟩, R) := by
      simp [getConnectionClose, getUvarint_putUvarint herror, hbytes, FrameType.connectionClose,
        FrameType.connectionCloseApp]
    rw [hwire, getFrame_putUvarint (by decide)]
    change (getConnectionClose FrameType.connectionCloseApp _).map _ = _
    rw [hget]
    rfl

/-- A DATAGRAM frame without a length goes to the end. -/
theorem getFrame_datagram {fr : FrameDatagram} (h : (Frame.datagram fr).Supported)
    {R : List UInt8} (hR : (Frame.datagram fr).Before R) :
    getFrame ((Frame.datagram fr).wire ++ R) = some ((Frame.datagram fr).received, R) := by
  obtain ⟨type, len, data⟩ := fr
  obtain ⟨htype, hlen, hdata⟩ := h
  dsimp only at htype hlen hdata
  subst hdata
  rcases htype with rfl | rfl
  · obtain rfl : R = [] := hR rfl
    have hwire : (Frame.datagram ⟨FrameType.datagram, data.flatten.length, data⟩).wire ++ [] =
        putUvarint FrameType.datagram ++ data.flatten := by
      simp [Frame.wire, Frame.varints, Frame.payload, FrameType.datagram, FrameType.datagramLen]
    rw [hwire, getFrame_putUvarint (by decide)]
    rfl
  · have hwire : (Frame.datagram ⟨FrameType.datagramLen, data.flatten.length, data⟩).wire ++ R =
        putUvarint FrameType.datagramLen ++
          (putUvarint data.flatten.length ++ (data.flatten ++ R)) := by
      simp [Frame.wire, Frame.varints, Frame.payload]
    rw [hwire, getFrame_putUvarint (by decide)]
    change (getBytes _).map _ = _
    rw [getBytes_putUvarint hlen]
    rfl

/-! ## All frames -/

/-- A frame of a type, one of two, and one integer. -/
theorem getFrame_typed {type₁ type₂ type v : ℕ} {fr : Frame} {f : ℕ → List ℕ → Frame}
    (htype : type = type₁ ∨ type = type₂) (hle : type₁ ≤ maxVarint ∧ type₂ ≤ maxVarint)
    (hv : v ≤ maxVarint) (hw : fr.wire = [type, v].flatMap putUvarint ++ [])
    (hbody : ∀ t, t = type₁ ∨ t = type₂ → ∀ p, getBody t p =
      (getUvarints 1 p).map fun vp => (f t vp.1, vp.2))
    (hf : f type [v] = fr) (R : List UInt8) : getFrame (fr.wire ++ R) = some (fr, R) := by
  have hle' : type ≤ maxVarint := by
    rcases htype with rfl | rfl
    · exact hle.1
    · exact hle.2
  exact getFrame_varints hw (List.forall_mem_cons.2 ⟨hle', by simpa using hv⟩)
    (hbody type htype) hf R

/-- The frame that was written is the one at the front. -/
theorem getFrame_wire {fr : Frame} (h : fr.Supported) {R : List UInt8} (hR : fr.Before R) :
    getFrame (fr.wire ++ R) = some (fr.received, R) := by
  have htypes {type : ℕ} {vs : List ℕ} (htype : type ≤ maxVarint) (hvs : ∀ v ∈ vs, v ≤ maxVarint) :
      ∀ v ∈ type :: vs, v ≤ maxVarint := List.forall_mem_cons.2 ⟨htype, hvs⟩
  cases fr with
  | qxTransportParameters params => exact getFrame_params h R
  | padding len => exact getFrame_padding h hR
  | stream fr => exact getFrame_stream h R
  | connectionClose fr => exact getFrame_connectionClose h R
  | datagram fr => exact getFrame_datagram h hR
  | qxPing fr =>
    obtain ⟨type, seq⟩ := fr
    refine getFrame_typed h.1 (by decide) h.2 (f := fun t vs => .qxPing ⟨t, vs.getD 0 0⟩) rfl ?_
      rfl R
    rintro t (rfl | rfl) p <;> rfl
  | maxStreams fr =>
    obtain ⟨type, maxStreams⟩ := fr
    refine getFrame_typed h.1 (by decide) h.2 (f := fun t vs => .maxStreams ⟨t, vs.getD 0 0⟩) rfl ?_
      rfl R
    rintro t (rfl | rfl) p <;> rfl
  | streamsBlocked fr =>
    obtain ⟨type, maxStreams⟩ := fr
    refine getFrame_typed h.1 (by decide) h.2
      (f := fun t vs => .streamsBlocked ⟨t, vs.getD 0 0⟩) rfl ?_ rfl R
    rintro t (rfl | rfl) p <;> rfl
  | resetStream fr =>
    obtain ⟨streamId, appErrorCode, finalSize⟩ := fr
    exact getFrame_varints (t := FrameType.resetStream) (v := [streamId, appErrorCode, finalSize])
      (f := fun vs => .resetStream ⟨vs.getD 0 0, vs.getD 1 0, vs.getD 2 0⟩) rfl
      (htypes (by decide) (by simpa [Frame.Supported] using h)) (fun p => rfl) rfl R
  | stopSending fr =>
    obtain ⟨streamId, appErrorCode⟩ := fr
    exact getFrame_varints (t := FrameType.stopSending) (v := [streamId, appErrorCode])
      (f := fun vs => .stopSending ⟨vs.getD 0 0, vs.getD 1 0⟩) rfl
      (htypes (by decide) (by simpa [Frame.Supported] using h)) (fun p => rfl) rfl R
  | maxData fr =>
    obtain ⟨maxData⟩ := fr
    exact getFrame_varints (t := FrameType.maxData) (v := [maxData])
      (f := fun vs => .maxData ⟨vs.getD 0 0⟩) rfl
      (htypes (by decide) (by simpa [Frame.Supported] using h)) (fun p => rfl) rfl R
  | maxStreamData fr =>
    obtain ⟨streamId, maxStreamData⟩ := fr
    exact getFrame_varints (t := FrameType.maxStreamData) (v := [streamId, maxStreamData])
      (f := fun vs => .maxStreamData ⟨vs.getD 0 0, vs.getD 1 0⟩) rfl
      (htypes (by decide) (by simpa [Frame.Supported] using h)) (fun p => rfl) rfl R
  | dataBlocked fr =>
    obtain ⟨maxData⟩ := fr
    exact getFrame_varints (t := FrameType.dataBlocked) (v := [maxData])
      (f := fun vs => .dataBlocked ⟨vs.getD 0 0⟩) rfl
      (htypes (by decide) (by simpa [Frame.Supported] using h)) (fun p => rfl) rfl R
  | streamDataBlocked fr =>
    obtain ⟨streamId, maxStreamData⟩ := fr
    exact getFrame_varints (t := FrameType.streamDataBlocked) (v := [streamId, maxStreamData])
      (f := fun vs => .streamDataBlocked ⟨vs.getD 0 0, vs.getD 1 0⟩) rfl
      (htypes (by decide) (by simpa [Frame.Supported] using h)) (fun p => rfl) rfl R

/-- A frame in range can be written. -/
theorem Frame.Supported.encodable {fr : Frame} (h : fr.Supported) : fr.Encodable := by
  cases fr with
  | qxTransportParameters params =>
    refine ⟨?_, fun e he => written_le h he⟩
    simpa [Frame.varints] using ⟨by decide, length_bytes_le params⟩
  | padding len => exact ⟨nofun, trivial⟩
  | qxPing fr =>
    have htype : fr.type ≤ maxVarint := by rcases h.1 with h | h <;> rw [h] <;> decide
    exact ⟨by simpa [Frame.varints] using ⟨htype, h.2⟩, trivial⟩
  | maxStreams fr =>
    have htype : fr.type ≤ maxVarint := by rcases h.1 with h | h <;> rw [h] <;> decide
    exact ⟨by simpa [Frame.varints] using ⟨htype, h.2⟩, trivial⟩
  | streamsBlocked fr =>
    have htype : fr.type ≤ maxVarint := by rcases h.1 with h | h <;> rw [h] <;> decide
    exact ⟨by simpa [Frame.varints] using ⟨htype, h.2⟩, trivial⟩
  | stream fr =>
    obtain ⟨hid, hoffset, hlen, hdata⟩ := h
    have htype : fr.typeByte ≤ maxVarint := by
      have := (typeByte_bits fr).1
      unfold maxVarint
      omega
    refine ⟨?_, hdata⟩
    by_cases hzero : fr.offset = 0 <;> simp [Frame.varints, hzero, htype, hid, hoffset, hlen]
  | connectionClose fr =>
    obtain ⟨htype, herror, hft, hlen, hreason⟩ := h
    refine ⟨?_, hreason⟩
    rcases htype with htype | htype
    · have := hft htype
      simp only [Frame.varints, htype, if_true]
      simpa [herror, hlen, this] using by decide
    · simp only [Frame.varints, htype]
      simpa [herror, hlen, FrameType.connectionClose, FrameType.connectionCloseApp] using by decide
  | datagram fr =>
    obtain ⟨htype, hlen, hdata⟩ := h
    refine ⟨?_, hdata.symm⟩
    rcases htype with htype | htype
    · simpa [Frame.varints, htype, FrameType.datagram, FrameType.datagramLen] using by decide
    · simp only [Frame.varints, htype, if_true]
      simpa [hlen] using by decide
  | resetStream fr => exact ⟨by simpa [Frame.varints] using ⟨by decide, h⟩, trivial⟩
  | stopSending fr => exact ⟨by simpa [Frame.varints] using ⟨by decide, h⟩, trivial⟩
  | maxData fr => exact ⟨by simpa [Frame.varints] using ⟨by decide, h⟩, trivial⟩
  | maxStreamData fr => exact ⟨by simpa [Frame.varints] using ⟨by decide, h⟩, trivial⟩
  | dataBlocked fr => exact ⟨by simpa [Frame.varints] using ⟨by decide, h⟩, trivial⟩
  | streamDataBlocked fr => exact ⟨by simpa [Frame.varints] using ⟨by decide, h⟩, trivial⟩

/-- The encoder refuses a buffer that is too short, and no other. -/
theorem frameEncode_exact {fr : Frame} (h : fr.Encodable) (outlen : ℕ) :
    frameEncode outlen fr = if outlen < fr.wire.length then .error .nobuf else .ok fr.wire := by
  split
  · next hroom => exact frameEncode_nobuf h hroom
  · next hroom => exact frameEncode_iff.2 ⟨h, rfl, Nat.le_of_not_lt hroom⟩

/-- The decoder makes a frame of its encoding, whatever follows. -/
theorem frdDecode_wire {fr : Frame} (h : fr.Supported) {R : List UInt8} (hR : fr.Before R) :
    frdDecode (fr.wire ++ R) = .ok (fr.received, fr.wire.length) := by
  rw [frdDecode_eq, getFrame_wire h hR, withLength, Option.map_some, List.length_append,
    Nat.add_sub_cancel]
  rfl

/-- The round trip. A frame has one encoding, which the encoder writes wherever there is
    room for it, and of which the decoder makes the same frame, whatever follows. -/
theorem frame_roundTrip {fr : Frame} (h : fr.Supported) :
    ∃ bs : List UInt8,
      (∀ outlen, frameEncode outlen fr = if outlen < bs.length then .error .nobuf else .ok bs) ∧
        ∀ R, fr.Before R → frdDecode (bs ++ R) = .ok (fr.received, bs.length) := by
  refine ⟨fr.wire, frameEncode_exact h.encodable, fun R hR => ?_⟩
  exact frdDecode_wire h hR

/-- A STREAM frame with an offset and without a FIN, of two vectors of which the end is not sent. -/
theorem frame_roundTrip_stream : ∃ bs : List UInt8,
    (∀ outlen, frameEncode outlen (.stream ⟨0, false, 4, 70, 3, [[1, 2], [3, 4]]⟩) =
      if outlen < bs.length then .error .nobuf else .ok bs) ∧
      ∀ R, Frame.Before R (.stream ⟨0, false, 4, 70, 3, [[1, 2], [3, 4]]⟩) →
        frdDecode (bs ++ R) = .ok (.stream ⟨6, false, 4, 70, 3, [[1, 2, 3]]⟩, bs.length) :=
  @frame_roundTrip (.stream ⟨0, false, 4, 70, 3, [[1, 2], [3, 4]]⟩) (by
    refine ⟨?_, ?_, ?_, ?_⟩ <;> decide)

end Dwnx
