import Dwnx.Qre

/-!
# Frames on the wire

A frame is a sequence of varints, and a payload. `frameEncode_iff`: the encoder writes
exactly these bytes, if the integers are varints, the lengths are those of the data
and there is room.
-/

namespace Dwnx

/-- The varints with which a frame begins. -/
def Frame.varints : Frame → List ℕ
  | .qxTransportParameters params => [FrameType.qxTransportParameters, params.bytes.length]
  | .qxPing fr => [fr.type, fr.seq]
  | .padding _ => []
  | .resetStream fr => [FrameType.resetStream, fr.streamId, fr.appErrorCode, fr.finalSize]
  | .stopSending fr => [FrameType.stopSending, fr.streamId, fr.appErrorCode]
  | .stream fr =>
    [fr.typeByte, fr.streamId] ++ (if fr.offset = 0 then [] else [fr.offset]) ++ [fr.len]
  | .maxData fr => [FrameType.maxData, fr.maxData]
  | .maxStreamData fr => [FrameType.maxStreamData, fr.streamId, fr.maxStreamData]
  | .maxStreams fr => [fr.type, fr.maxStreams]
  | .dataBlocked fr => [FrameType.dataBlocked, fr.maxData]
  | .streamDataBlocked fr => [FrameType.streamDataBlocked, fr.streamId, fr.maxStreamData]
  | .streamsBlocked fr => [fr.type, fr.maxStreams]
  | .connectionClose fr =>
    [fr.type, fr.errorCode] ++
      (if fr.type = FrameType.connectionClose then [fr.frameType] else []) ++ [fr.reasonlen]
  | .datagram fr => [fr.type] ++ (if fr.type = FrameType.datagramLen then [fr.len] else [])

/-- What follows the varints. -/
def Frame.payload : Frame → List UInt8
  | .qxTransportParameters params => params.bytes
  | .padding len => List.replicate len 0
  | .stream fr => fr.data.flatten.take fr.len
  | .connectionClose fr => fr.reason
  | .datagram fr => fr.data.flatten
  | _ => []

/-- The bytes of a frame. -/
def Frame.wire (fr : Frame) : List UInt8 := fr.varints.flatMap putUvarint ++ fr.payload

/-- The lengths in a frame are those of its data. -/
def Frame.LengthsOk : Frame → Prop
  | .qxTransportParameters params => params.Writable
  | .stream fr => fr.len ≤ fr.data.flatten.length
  | .connectionClose fr => fr.reason.length = fr.reasonlen
  | .datagram fr => fr.len = fr.data.flatten.length
  | _ => True

/-- The frame can be written, given the room. -/
structure Frame.Encodable (fr : Frame) : Prop where
  varints : ∀ v ∈ fr.varints, v ≤ maxVarint
  lengths : fr.LengthsOk

theorem length_flatMap_putUvarint (vs : List ℕ) :
    (vs.flatMap putUvarint).length = (vs.map uvarintLen).sum := by
  rw [List.length_flatMap]
  congr 1
  exact List.map_congr_left fun v _ => length_putUvarint v

theorem encodeVarints_iff {outlen len : ℕ} {vs : List ℕ} {payload bs : List UInt8} :
    encodeVarints outlen vs len payload = .ok bs ↔
      (∀ v ∈ vs, v ≤ maxVarint) ∧ payload.length = len ∧
        bs = vs.flatMap putUvarint ++ payload ∧ bs.length ≤ outlen := by
  constructor
  · intro h
    obtain ⟨lens, hlens, h⟩ := exists_of_bind h
    have hle (v : ℕ) (hv : v ∈ vs) : v ≤ maxVarint := by
      obtain ⟨len, hlen⟩ := exists_of_mapM hlens hv
      exact le_of_putUvarintlen hlen
    obtain rfl : vs.map uvarintLen = lens :=
      Except.ok.inj ((mapM_ok fun v hv => putUvarintlen_eq (hle v hv)).symm.trans hlens)
    dsimp only at h
    split at h
    · cases h
    split at h
    · cases h
    · next hroom hlen =>
      cases h
      refine ⟨hle, not_not.1 hlen, rfl, ?_⟩
      rw [List.length_append, length_flatMap_putUvarint]
      omega
  · rintro ⟨hle, hlen, rfl, hroom⟩
    rw [List.length_append, length_flatMap_putUvarint] at hroom
    unfold encodeVarints
    rw [mapM_ok (g := uvarintLen) fun v hv => putUvarintlen_eq (hle v hv)]
    change (if _ then _ else _) = _
    rw [if_neg (by omega), if_neg (not_not.2 hlen)]
    rfl

/-- Transport parameters are written if all of them are varints. -/
theorem frameEncode_params_iff {outlen : ℕ} {params : TransportParams} {bs : List UInt8}
    (hw : params.Writable) : frameEncodeQxTransportParameters outlen params = .ok bs ↔
      encodeVarints outlen [FrameType.qxTransportParameters, params.bytes.length]
        params.bytes.length params.bytes = .ok bs := by
  by_cases hle : params.bytes.length ≤ maxVarint
  · have hlens : [FrameType.qxTransportParameters, params.bytes.length].mapM putUvarintlen =
        .ok ([FrameType.qxTransportParameters, params.bytes.length].map uvarintLen) :=
      mapM_ok fun v hv => putUvarintlen_eq (by
        rcases List.mem_pair.1 hv with rfl | rfl
        exacts [by decide, hle])
    unfold frameEncodeQxTransportParameters encodeVarints
    rw [transportParamsLen_eq hw]
    simp only [bind, Except.bind, hlens, transportParamsEncode_eq hw le_rfl]
    split <;> simp_all
  · refine iff_of_false (fun h => ?_) fun h => hle ((encodeVarints_iff.1 h).1 _ (by simp))
    obtain ⟨n, hn, h⟩ := exists_of_bind h
    obtain rfl := Except.ok.inj ((transportParamsLen_eq hw).symm.trans hn)
    obtain ⟨lens, hlens, -⟩ := exists_of_bind h
    obtain ⟨len, hlen⟩ := exists_of_mapM hlens (List.mem_cons_of_mem _ (List.mem_singleton_self _))
    exact hle (le_of_putUvarintlen hlen)

/-- The encoder writes the bytes of a frame, and nothing else. -/
theorem frameEncode_iff {outlen : ℕ} {fr : Frame} {bs : List UInt8} :
    frameEncode outlen fr = .ok bs ↔ fr.Encodable ∧ bs = fr.wire ∧ bs.length ≤ outlen := by
  have hvarints {len : ℕ} (hlen : fr.LengthsOk ↔ fr.payload.length = len) :
      encodeVarints outlen fr.varints len fr.payload = .ok bs ↔
        fr.Encodable ∧ bs = fr.wire ∧ bs.length ≤ outlen := by
    rw [encodeVarints_iff, ← hlen, Frame.wire]
    exact ⟨fun ⟨h1, h2, h⟩ => ⟨⟨h1, h2⟩, h⟩, fun ⟨⟨h1, h2⟩, h⟩ => ⟨h1, h2, h⟩⟩
  cases fr with
  | qxTransportParameters params =>
    change frameEncodeQxTransportParameters outlen params = .ok bs ↔ _
    have hparams (hw : params.Writable) := hvarints (iff_of_true hw rfl)
    constructor
    · intro h
      obtain ⟨n, hn, -⟩ := exists_of_bind h
      exact (hparams (writable_of_len hn)).1 ((frameEncode_params_iff (writable_of_len hn)).1 h)
    · intro h
      exact (frameEncode_params_iff h.1.lengths).2 ((hparams h.1.lengths).2 h)
  | datagram fr =>
    change frameEncodeDatagram outlen fr = .ok bs ↔ _
    unfold frameEncodeDatagram
    by_cases hlen : fr.len = fr.data.flatten.length
    · rw [if_neg (not_not.2 hlen)]
      exact hvarints (iff_of_true hlen hlen.symm)
    · rw [if_pos hlen]
      exact ⟨nofun, fun h => absurd h.1.lengths hlen⟩
  | stream fr => exact hvarints (by simp [Frame.LengthsOk, Frame.payload])
  | padding n => exact hvarints (by simp [Frame.LengthsOk, Frame.payload])
  | connectionClose fr => exact hvarints Iff.rfl
  | _ => exact hvarints (by simp [Frame.LengthsOk, Frame.payload])

theorem encodeVarints_nobuf {outlen len : ℕ} {vs : List ℕ} {payload : List UInt8}
    (hle : ∀ v ∈ vs, v ≤ maxVarint) (hroom : outlen < (vs.map uvarintLen).sum + len) :
    encodeVarints outlen vs len payload = .error .nobuf := by
  unfold encodeVarints
  rw [mapM_ok (g := uvarintLen) fun v hv => putUvarintlen_eq (hle v hv)]
  change (if _ then _ else _) = _
  rw [if_pos hroom]
  rfl

/-- Without room the encoder refuses. -/
theorem frameEncode_nobuf {outlen : ℕ} {fr : Frame} (h : fr.Encodable)
    (hroom : outlen < fr.wire.length) : frameEncode outlen fr = .error .nobuf := by
  rw [Frame.wire, List.length_append, length_flatMap_putUvarint] at hroom
  have hlen := h.lengths
  cases fr with
  | qxTransportParameters params =>
    change frameEncodeQxTransportParameters outlen params = .error .nobuf
    unfold frameEncodeQxTransportParameters
    have hlens : [FrameType.qxTransportParameters, params.bytes.length].mapM putUvarintlen =
        .ok ([FrameType.qxTransportParameters, params.bytes.length].map uvarintLen) :=
      mapM_ok fun v hv => putUvarintlen_eq (h.varints v hv)
    rw [transportParamsLen_eq hlen]
    simp only [bind, Except.bind, hlens]
    split
    · rfl
    · next hn => exact absurd hroom hn
  | datagram fr =>
    change frameEncodeDatagram outlen fr = .error .nobuf
    have hlen : fr.len = fr.data.flatten.length := hlen
    unfold frameEncodeDatagram
    rw [if_neg (not_not.2 hlen)]
    refine encodeVarints_nobuf h.varints ?_
    rwa [Frame.payload, ← hlen] at hroom
  | stream fr =>
    refine encodeVarints_nobuf h.varints ?_
    rwa [Frame.payload, List.length_take_of_le hlen] at hroom
  | padding n =>
    rw [Frame.payload, List.length_replicate] at hroom
    exact encodeVarints_nobuf h.varints hroom
  | connectionClose fr =>
    have hlen : fr.reason.length = fr.reasonlen := hlen
    rw [Frame.payload, hlen] at hroom
    exact encodeVarints_nobuf h.varints hroom
  | _ => exact encodeVarints_nobuf h.varints hroom

theorem Frame.varints_ne_nil {fr : Frame} (h : ∀ n, fr ≠ .padding n) : fr.varints ≠ [] := by
  cases fr with
  | padding n => exact absurd rfl (h n)
  | _ => exact List.cons_ne_nil _ _

/-- A frame other than PADDING has bytes. -/
theorem Frame.wire_pos {fr : Frame} (h : ∀ n, fr ≠ .padding n) : 0 < fr.wire.length := by
  obtain ⟨v, vs, hv⟩ := List.exists_cons_of_ne_nil (varints_ne_nil h)
  have := uvarintLen_pos v
  rw [wire, hv, List.flatMap_cons, List.length_append, List.length_append, length_putUvarint]
  omega

theorem Qre.encodeFrame_iff {qre qre' : Qre} {fr : Frame} :
    qre.encodeFrame fr = .ok qre' ↔
      fr.Encodable ∧ fr.wire.length ≤ qre.left ∧
        qre' = { qre with frames := qre.frames ++ fr.wire } := by
  constructor
  · intro h
    obtain ⟨bs, hbs, h⟩ := exists_of_bind h
    obtain ⟨hfr, rfl, hlen⟩ := frameEncode_iff.1 hbs
    cases h
    exact ⟨hfr, hlen, rfl⟩
  · rintro ⟨hfr, hlen, rfl⟩
    rw [encodeFrame, frameEncode_iff.2 ⟨hfr, rfl, hlen⟩]
    rfl

theorem Qre.encodeFrame_nobuf {qre : Qre} {fr : Frame} (h : fr.Encodable)
    (hroom : qre.left < fr.wire.length) : qre.encodeFrame fr = .error .nobuf := by
  rw [encodeFrame, frameEncode_nobuf h hroom]
  rfl

end Dwnx
