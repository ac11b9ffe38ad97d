import Dwnx.Codec
import Dwnx.Scan
import Dwnx.Params

/-!
# Decoding any bytes

`dwnx_frd_decode` is given bytes that come from anywhere.

* `frdDecode_canonical`: it refuses them or takes a frame from the front, and then the
  frame is encoded and decoded to the same;
* `frdDecode_oversized`: but for STREAM frames of more data than a varint can count.
-/

namespace Dwnx

/-! ## Parsers of what is in front -/

section
variable {α β : Type}

/-- What `f` finds, if it is a `P`, does not depend on what comes after it. -/
def ReadsFront (P : α → Prop) (f : List UInt8 → Option (α × List UInt8)) : Prop :=
  ∀ p a r, f p = some (a, r) → P a → ∃ b, p = b ++ r ∧ ∀ q, f (b ++ q) = some (a, q)

/-- A value that takes no bytes. -/
theorem readsFront_some (a : α) (P : α → Prop) : ReadsFront P fun p => some (a, p) := by
  rintro p _ _ ⟨⟩ -
  exact ⟨[], rfl, fun _ => rfl⟩

/-- A refusal. -/
theorem readsFront_none (P : α → Prop) : ReadsFront P fun _ => none := nofun

/-- One part is read after another. -/
theorem ReadsFront.bind {P : β → Prop} {f : List UInt8 → Option (α × List UInt8)}
    {g : α → List UInt8 → Option (β × List UInt8)} (hf : ReadsFront (fun _ => True) f)
    (hg : ∀ a, ReadsFront P (g a)) : ReadsFront P fun p => (f p).bind fun x => g x.1 x.2 := by
  intro p b r h hb
  obtain ⟨⟨a, q⟩, hfp, hgq⟩ := Option.bind_eq_some_iff.1 h
  obtain ⟨l, rfl, hl⟩ := hf p a q hfp trivial
  obtain ⟨m, rfl, hm⟩ := hg a q b r hgq hb
  refine ⟨l ++ m, (List.append_assoc ..).symm, fun q' => ?_⟩
  dsimp only
  rw [List.append_assoc, hl, Option.bind_some]
  exact hm q'

/-- What is read may be turned into something else. -/
theorem ReadsFront.map {P : β → Prop} {f : List UInt8 → Option (α × List UInt8)}
    (hf : ReadsFront (fun _ => True) f) (g : α → β) :
    ReadsFront P fun p => (f p).map fun x => (g x.1, x.2) := by
  intro p b r h _
  obtain ⟨⟨a, q⟩, hfp, h⟩ := Option.map_eq_some_iff.1 h
  obtain ⟨rfl, rfl⟩ := Prod.mk.inj h
  obtain ⟨l, rfl, hl⟩ := hf p a q hfp trivial
  refine ⟨l, rfl, fun q' => ?_⟩
  dsimp only
  rw [hl, Option.map_some]

/-- Which of two is read is known before. -/
theorem ReadsFront.ite {P : α → Prop} {f g : List UInt8 → Option (α × List UInt8)} {c : Prop}
    [Decidable c] (hf : c → ReadsFront P f) (hg : ReadsFront P g) :
    ReadsFront P fun p => if c then f p else g p := by
  split
  · next hc => exact hf hc
  · exact hg

/-- Nothing is asked of what is not read. -/
theorem ReadsFront.of_not {P : α → Prop} {f : List UInt8 → Option (α × List UInt8)}
    (h : ∀ p a r, f p = some (a, r) → ¬P a) : ReadsFront P f :=
  fun p a r hf ha => absurd ha (h p a r hf)

end

/-- A varint. -/
theorem readsFront_getUvarint : ReadsFront (fun _ => True) getUvarint := by
  intro p v r h _
  obtain ⟨l, rfl, hl, -⟩ := exists_of_getUvarint h
  exact ⟨l, rfl, fun q => getUvarint_append hl⟩

/-- Some varints. -/
theorem readsFront_getUvarints (k : ℕ) : ReadsFront (fun _ => True) (getUvarints k) := by
  induction k with
  | zero => exact readsFront_some [] _
  | succ k ih =>
    exact readsFront_getUvarint.bind fun v => ih.bind fun vs => readsFront_some (v :: vs) _

/-- A fixed number of bytes. -/
theorem readsFront_take (n : ℕ) : ReadsFront (fun _ => True)
    fun p : List UInt8 => if p.length < n then none else some (p.take n, p.drop n) := by
  intro p d r h _
  dsimp only at h
  split at h
  · cases h
  next hle =>
  obtain ⟨rfl, rfl⟩ := Prod.mk.inj (Option.some.inj h)
  have hlen : (p.take n).length = n := List.length_take_of_le (Nat.le_of_not_lt hle)
  refine ⟨_, (List.take_append_drop n p).symm, fun q => ?_⟩
  dsimp only
  rw [if_neg (by rw [List.length_append]; omega), List.take_left' hlen, List.drop_left' hlen]

/-- Bytes with their length before them. -/
theorem readsFront_getBytes : ReadsFront (fun _ => True) getBytes :=
  readsFront_getUvarint.bind readsFront_take

/-- A varint that may be absent. -/
theorem readsFront_optional (c : Bool) :
    ReadsFront (fun _ => True) fun p => bif c then getUvarint p else some (0, p) := by
  cases c with
  | false => exact readsFront_some 0 _
  | true => exact readsFront_getUvarint

/-- The fields of CONNECTION_CLOSE. -/
theorem readsFront_getConnectionClose (type : ℕ) :
    ReadsFront (fun _ => True) (getConnectionClose type) :=
  readsFront_getUvarint.bind fun errorCode =>
    (readsFront_optional _).bind fun frameType =>
      readsFront_getBytes.bind fun reason =>
        readsFront_some
          (⟨type, errorCode, frameType, reason.length, reason⟩ : FrameConnectionClose) _

/-- A STREAM frame with a length. -/
theorem readsFront_getStream {type : ℕ}
    (hlen : FrameType.hasBit type FrameType.streamLenBit = true) :
    ReadsFront (fun _ => True) (getStream type) := by
  unfold getStream
  rw [hlen]
  exact readsFront_getUvarint.bind fun streamId => (readsFront_optional _).bind fun offset =>
    readsFront_getBytes.bind fun data => readsFront_some (⟨type - FrameType.stream,
      FrameType.hasBit type FrameType.streamFinBit, streamId, offset, data.length, vecsOf data⟩ :
      FrameStream) _

/-- The frame ends where the bytes end, or where other bytes than zeros begin. -/
def Frame.RunsOn : Frame → Prop
  | .padding _ => True
  | .stream fr => FrameType.hasBit fr.flags FrameType.streamLenBit = false
  | .datagram fr => fr.type = FrameType.datagram
  | _ => False

/-- Every frame but those that run to the end of the record. -/
theorem readsFront_getBody (type : ℕ) : ReadsFront (fun fr => ¬fr.RunsOn) (getBody type) := by
  have hfields (k : ℕ) (f : List ℕ → Frame) : ReadsFront (fun fr => ¬fr.RunsOn)
      fun p => (getUvarints k p).map fun x => (f x.1, x.2) := (readsFront_getUvarints k).map f
  have hparams (data : List UInt8) : ReadsFront (fun fr => ¬fr.RunsOn) fun p =>
      (transportParamsDecode data).toOption.bind fun params =>
        some (Frame.qxTransportParameters params, p) := by
    cases (transportParamsDecode data).toOption with
    | none => exact readsFront_none _
    | some params => exact readsFront_some (Frame.qxTransportParameters params) _
  have hdata : ReadsFront (fun fr => ¬fr.RunsOn) fun p => (getBytes p).map fun x =>
      (Frame.datagram ⟨type, x.1.length, vecsOf x.1⟩, x.2) :=
    readsFront_getBytes.map fun d => Frame.datagram ⟨type, d.length, vecsOf d⟩
  unfold getBody
  dsimp only
  refine .ite (fun _ => readsFront_getBytes.bind hparams) <|
    .ite (fun _ => hfields 1 fun vs => .qxPing ⟨type, vs.getD 0 0⟩) <|
    .ite (fun _ => .of_not ?_) <|
    .ite (fun _ => hfields 3 fun vs => .resetStream ⟨vs.getD 0 0, vs.getD 1 0, vs.getD 2 0⟩) <|
    .ite (fun _ => hfields 2 fun vs => .stopSending ⟨vs.getD 0 0, vs.getD 1 0⟩) <|
    .ite (fun _ => hfields 1 fun vs => .maxData ⟨vs.getD 0 0⟩) <|
    .ite (fun _ => hfields 2 fun vs => .maxStreamData ⟨vs.getD 0 0, vs.getD 1 0⟩) <|
    .ite (fun _ => hfields 1 fun vs => .maxStreams ⟨type, vs.getD 0 0⟩) <|
    .ite (fun _ => hfields 1 fun vs => .dataBlocked ⟨vs.getD 0 0⟩) <|
    .ite (fun _ => hfields 2 fun vs => .streamDataBlocked ⟨vs.getD 0 0, vs.getD 1 0⟩) <|
    .ite (fun _ => hfields 1 fun vs => .streamsBlocked ⟨type, vs.getD 0 0⟩) <|
    .ite (fun _ => (readsFront_getConnectionClose type).map Frame.connectionClose) <|
    .ite (fun hdatagram => .of_not ?_) <| .ite (fun _ => hdata) <|
    .ite (fun hstream => ?_) (readsFront_none _)
  · rintro p fr r ⟨⟩
    exact not_not.2 trivial
  · rintro p fr r ⟨⟩
    exact not_not.2 hdatagram
  · cases hlen : FrameType.hasBit type FrameType.streamLenBit with
    | true => exact (readsFront_getStream hlen).map Frame.stream
    | false =>
      refine .of_not fun p fr r h => not_not.2 ?_
      obtain ⟨⟨s, q⟩, hs, h⟩ := Option.map_eq_some_iff.1 h
      obtain ⟨rfl, rfl⟩ := Prod.mk.inj h
      simp only [getStream, Option.bind_eq_bind, Option.bind_eq_some_iff, Prod.exists] at hs
      obtain ⟨_, _, -, _, _, -, _, _, -, hs⟩ := hs
      obtain ⟨rfl, -⟩ := Prod.mk.inj (Option.some.inj hs)
      -- the flags are the low bits of the type
      change FrameType.hasBit (type - FrameType.stream) FrameType.streamLenBit = false
      have hsame : (type - FrameType.stream) / FrameType.streamLenBit % 2 =
          type / FrameType.streamLenBit % 2 := by
        unfold FrameType.stream FrameType.streamLenBit
        omega
      rw [← hlen, FrameType.hasBit, FrameType.hasBit, hsame]

/-! ## Frames that were decoded -/

/-- A frame of more data than a varint counts. -/
def Frame.Oversized : Frame → Prop
  | .stream fr => maxVarint < fr.len
  | _ => False

/-- The frames are the same, but for the bits of a STREAM frame that say which fields it has. -/
def Frame.SameButBits : Frame → Frame → Prop
  | .stream fr, fr' => ∃ flags, fr' = .stream { fr with flags := flags } ∧
      flags ||| (FrameType.streamLenBit + FrameType.streamOffBit) =
        fr.flags ||| (FrameType.streamLenBit + FrameType.streamOffBit)
  | fr, fr' => fr' = fr

/-- What is true of a frame that was decoded. -/
def Frame.Decoded : Frame → Prop
  | .qxTransportParameters params => params.InRange ∧ params.received = params
  | .stream fr => fr.streamId ≤ maxVarint ∧ fr.offset ≤ maxVarint ∧
      (∃ data, fr.data = vecsOf data ∧ fr.len = data.length) ∧
      ∃ type, type / 8 = 1 ∧ fr.flags = type - FrameType.stream ∧
        fr.fin = FrameType.hasBit type FrameType.streamFinBit
  | .connectionClose fr => (Frame.connectionClose fr).Supported ∧
      (fr.type = FrameType.connectionCloseApp → fr.frameType = 0)
  | .datagram fr => (fr.type = FrameType.datagram ∨
      fr.type = FrameType.datagramLen ∧ fr.len ≤ maxVarint) ∧
      ∃ data, fr.data = vecsOf data ∧ fr.len = data.length
  | fr => fr.Supported

/-- Varints that are read are varints. -/
theorem getUvarints_le {k : ℕ} {p r : List UInt8} {vs : List ℕ}
    (h : getUvarints k p = some (vs, r)) :
    ∀ i, vs.getD i 0 ≤ maxVarint := by
  induction k generalizing p vs r with
  | zero =>
    obtain ⟨rfl, -⟩ := Prod.mk.inj (Option.some.inj h)
    exact fun _ => Nat.zero_le _
  | succ k ih =>
    simp only [getUvarints, Option.bind_eq_bind, Option.bind_eq_some_iff, Prod.exists] at h
    obtain ⟨v, q, hv, ws, q', hws, h⟩ := h
    obtain ⟨rfl, -⟩ := Prod.mk.inj (Option.some.inj h)
    intro i
    cases i with
    | zero => exact getUvarint_le hv
    | succ i => exact ih hws i

/-- The length of bytes that are read is a varint. -/
theorem getBytes_le {p d r : List UInt8} (h : getBytes p = some (d, r)) : d.length ≤ maxVarint := by
  simp only [getBytes, Option.bind_eq_bind, Option.bind_eq_some_iff, Prod.exists] at h
  obtain ⟨n, q, hn, h⟩ := h
  split at h
  · cases h
  · obtain ⟨rfl, -⟩ := Prod.mk.inj (Option.some.inj h)
    exact (List.length_take_le _ _).trans (getUvarint_le hn)

/-- An absent varint is 0. -/
theorem optional_le {c : Bool} {p r : List UInt8} {v : ℕ}
    (h : (bif c then getUvarint p else some (0, p)) = some (v, r)) :
    v ≤ maxVarint ∧ (c = false → v = 0) := by
  cases c with
  | false =>
    obtain ⟨rfl, -⟩ := Prod.mk.inj (Option.some.inj h)
    exact ⟨Nat.zero_le _, fun _ => rfl⟩
  | true => exact ⟨getUvarint_le h, nofun⟩

/-- The fields of a STREAM frame are varints. -/
theorem getStream_decoded {type : ℕ} {p r : List UInt8} {fr : FrameStream} (htype : type / 8 = 1)
    (h : getStream type p = some (fr, r)) : (Frame.stream fr).Decoded := by
  simp only [getStream, Option.bind_eq_bind, Option.bind_eq_some_iff, Prod.exists] at h
  obtain ⟨id, q, hid, offset, q', hoffset, data, q'', -, h⟩ := h
  obtain ⟨rfl, -⟩ := Prod.mk.inj (Option.some.inj h)
  exact ⟨getUvarint_le hid, (optional_le hoffset).1, ⟨data, rfl, rfl⟩, type, htype, rfl, rfl⟩

/-- The fields of CONNECTION_CLOSE are varints. -/
theorem getConnectionClose_decoded {type : ℕ} {p r : List UInt8} {fr : FrameConnectionClose}
    (htype : type = FrameType.connectionClose ∨ type = FrameType.connectionCloseApp)
    (h : getConnectionClose type p = some (fr, r)) : (Frame.connectionClose fr).Decoded := by
  simp only [getConnectionClose, Option.bind_eq_bind, Option.bind_eq_some_iff, Prod.exists] at h
  obtain ⟨code, q, hcode, ftype, q', hftype, reason, q'', hreason, h⟩ := h
  obtain ⟨rfl, -⟩ := Prod.mk.inj (Option.some.inj h)
  obtain ⟨hle, hzero⟩ := optional_le hftype
  refine ⟨⟨htype, getUvarint_le hcode, fun _ => hle, getBytes_le hreason, rfl⟩, ?_⟩
  rintro rfl
  exact hzero rfl

/-- A frame that is read is one that the decoder makes. -/
theorem getBody_decoded {type : ℕ} {p r : List UInt8} {fr : Frame}
    (h : getBody type p = some (fr, r)) : fr.Decoded := by
  have hfields {k : ℕ} {f : List ℕ × List UInt8 → Frame × List UInt8}
      (h : (getUvarints k p).map f = some (fr, r))
      (hf : ∀ vs q, (∀ i, vs.getD i 0 ≤ maxVarint) → (f (vs, q)).1.Decoded) : fr.Decoded := by
    obtain ⟨⟨vs, q⟩, hvs, h⟩ := Option.map_eq_some_iff.1 h
    have hdecoded := hf vs q (getUvarints_le hvs)
    rwa [h] at hdecoded
  have hite {c : Prop} [Decidable c] {x y : Option (Frame × List UInt8)}
      (hx : c → x = some (fr, r) → fr.Decoded) (hy : y = some (fr, r) → fr.Decoded)
      (h : (if c then x else y) = some (fr, r)) : fr.Decoded := by
    by_cases hc : c
    · exact hx hc ((if_pos hc).symm.trans h)
    · exact hy ((if_neg hc).symm.trans h)
  unfold getBody at h
  dsimp only at h
  revert h
  refine hite (fun _ h => ?_) <| hite (fun htype h => ?_) <| hite (fun _ h => ?_) <|
    hite (fun _ h => ?_) <| hite (fun _ h => ?_) <| hite (fun _ h => ?_) <| hite (fun _ h => ?_) <|
    hite (fun htype h => ?_) <| hite (fun _ h => ?_) <| hite (fun _ h => ?_) <|
    hite (fun htype h => ?_) <| hite (fun htype h => ?_) <| hite (fun htype h => ?_) <|
    hite (fun htype h => ?_) <| hite (fun htype h => ?_) nofun
  · obtain ⟨⟨data, q⟩, -, h⟩ := Option.bind_eq_some_iff.1 h
    obtain ⟨params, hparams, h⟩ := Option.bind_eq_some_iff.1 h
    obtain ⟨rfl, -⟩ := Prod.mk.inj (Option.some.inj h)
    cases hdecode : transportParamsDecode data with
    | error e =>
      rw [hdecode] at hparams
      cases hparams
    | ok params' =>
      rw [hdecode] at hparams
      obtain rfl := Option.some.inj hparams
      exact inRange_of_decode hdecode
  · exact hfields h fun vs q hvs => ⟨htype, hvs 0⟩
  · obtain ⟨rfl, -⟩ := Prod.mk.inj (Option.some.inj h)
    exact Nat.le_add_right 1 _
  · exact hfields h fun vs q hvs => ⟨hvs 0, hvs 1, hvs 2⟩
  · exact hfields h fun vs q hvs => ⟨hvs 0, hvs 1⟩
  · exact hfields h fun vs q hvs => hvs 0
  · exact hfields h fun vs q hvs => ⟨hvs 0, hvs 1⟩
  · exact hfields h fun vs q hvs => ⟨htype, hvs 0⟩
  · exact hfields h fun vs q hvs => hvs 0
  · exact hfields h fun vs q hvs => ⟨hvs 0, hvs 1⟩
  · exact hfields h fun vs q hvs => ⟨htype, hvs 0⟩
  · obtain ⟨⟨c, q⟩, hc, h⟩ := Option.map_eq_some_iff.1 h
    obtain ⟨rfl, -⟩ := Prod.mk.inj h
    exact getConnectionClose_decoded htype hc
  · obtain ⟨rfl, -⟩ := Prod.mk.inj (Option.some.inj h)
    exact ⟨.inl htype, p, rfl, rfl⟩
  · obtain ⟨⟨d, q⟩, hd, h⟩ := Option.map_eq_some_iff.1 h
    obtain ⟨rfl, -⟩ := Prod.mk.inj h
    exact ⟨.inr ⟨htype, getBytes_le hd⟩, d, rfl, rfl⟩
  · obtain ⟨⟨s, q⟩, hs, h⟩ := Option.map_eq_some_iff.1 h
    obtain ⟨rfl, -⟩ := Prod.mk.inj h
    exact getStream_decoded htype hs

/-! ## Encoding what was decoded -/

/-- The bits of the type of a STREAM frame that are not about its fields. -/
theorem flags_eq {type offset : ℕ} (h : type / 8 = 1) :
    (10 + (if FrameType.hasBit type FrameType.streamFinBit then 1 else 0) +
      (if offset = 0 then 0 else 4) - FrameType.stream) |||
        (FrameType.streamLenBit + FrameType.streamOffBit) =
      (type - FrameType.stream) ||| (FrameType.streamLenBit + FrameType.streamOffBit) := by
  have hlo : 8 ≤ type := by omega
  have hhi : type < 16 := by omega
  split
  all_goals
    split
    all_goals
      interval_cases type
      all_goals first | rfl | (next h => cases h) | (next h => exact absurd rfl h)

/-- Nothing follows the last frame. -/
theorem Frame.before_nil (fr : Frame) : fr.Before [] := by
  cases fr with
  | padding len => exact Option.some_ne_none _ ∘ Eq.symm
  | datagram fr => exact fun _ => rfl
  | _ => trivial

/-- What is written of a frame that was decoded is that frame again. -/
theorem Frame.Decoded.roundTrip {fr : Frame} (h : fr.Decoded) (hsize : ¬fr.Oversized) :
    ∃ bs : List UInt8,
      (∀ outlen, frameEncode outlen fr = if outlen < bs.length then .error .nobuf else .ok bs) ∧
      ∃ fr', frdDecode bs = .ok (fr', bs.length) ∧ fr.SameButBits fr' := by
  -- What can be sent is encoded and read again.
  have hsupported (hs : fr.Supported) (hsame : fr.SameButBits fr.received) :
      ∃ bs : List UInt8,
        (∀ outlen, frameEncode outlen fr = if outlen < bs.length then .error .nobuf else .ok bs) ∧
        ∃ fr', frdDecode bs = .ok (fr', bs.length) ∧ fr.SameButBits fr' := by
    have hdec := frdDecode_wire hs fr.before_nil
    rw [List.append_nil] at hdec
    exact ⟨fr.wire, frameEncode_exact hs.encodable, _, hdec, hsame⟩
  cases fr with
  | qxTransportParameters params =>
    exact hsupported h.1 (congrArg Frame.qxTransportParameters h.2)
  | stream fr =>
    -- The type of a STREAM frame is chosen anew: it has a length, and an offset if not 0.
    obtain ⟨hid, hoffset, ⟨data, hdata, hlen⟩, type, htype, hflags, hfin⟩ := h
    have hflat : fr.data.flatten = data := by rw [hdata, flatten_vecsOf]
    refine hsupported ⟨hid, hoffset, Nat.le_of_not_lt hsize, by rw [hflat, hlen]⟩
      ⟨fr.typeByte - FrameType.stream, ?_, ?_⟩
    · rw [Frame.received, hflat, hlen, List.take_length, hdata]
    · rw [hflags, ← flags_eq htype, typeByte_eq, hfin]
  | connectionClose fr =>
    refine hsupported h.1 (congrArg Frame.connectionClose ?_)
    obtain ⟨type, errorCode, frameType, reasonlen, reason⟩ := fr
    congr 1
    -- A frame type that the type does not have is 0.
    rcases h.1.1 with htype | htype
    · exact if_pos htype
    · have hzero : frameType = 0 := h.2 htype
      rw [hzero]
      exact ite_self 0
  | datagram fr =>
    obtain ⟨htype, data, hdata, hlen⟩ := h
    obtain ⟨type, len, vecs⟩ := fr
    dsimp only at htype hdata hlen
    subst hdata hlen
    rcases htype with rfl | ⟨rfl, hle⟩
    · -- without a length, the data goes to the end
      have hwire : (Frame.datagram ⟨FrameType.datagram, data.length, vecsOf data⟩).wire =
          putUvarint FrameType.datagram ++ data := by
        rw [Frame.wire, Frame.payload, flatten_vecsOf]
        rfl
      have henc : (Frame.datagram ⟨FrameType.datagram, data.length, vecsOf data⟩).Encodable := by
        refine ⟨fun v hv => ?_, (congrArg List.length (flatten_vecsOf data)).symm⟩
        obtain rfl : v = FrameType.datagram := List.mem_singleton.1 hv
        decide
      have hdec : getFrame (Frame.datagram ⟨FrameType.datagram, data.length, vecsOf data⟩).wire =
          some (.datagram ⟨FrameType.datagram, data.length, vecsOf data⟩, []) := by
        rw [hwire, getFrame_putUvarint (by decide)]
        rfl
      refine ⟨_, frameEncode_exact henc, _, ?_, rfl⟩
      rw [frdDecode_eq, hdec]
      rfl
    · refine hsupported ⟨.inr rfl, hle, congrArg List.length (flatten_vecsOf data)⟩ ?_
      rw [Frame.received, flatten_vecsOf]
      rfl
  | _ => exact hsupported h rfl

/-- A frame is in front of the bytes, or they are refused. What comes after it does not matter,
    and it is encoded to bytes that are decoded to it. -/
theorem frdDecode_canonical (payload : List UInt8) :
    frdDecode payload = .error .frameEncoding ∨
      ∃ fr n, frdDecode payload = .ok (fr, n) ∧ 1 ≤ n ∧ n ≤ payload.length ∧
        (¬fr.RunsOn → ∀ q, frdDecode (payload.take n ++ q) = .ok (fr, n)) ∧
        (¬fr.Oversized → ∃ bs : List UInt8,
          (∀ outlen, frameEncode outlen fr =
            if outlen < bs.length then .error .nobuf else .ok bs) ∧
          ∃ fr', frdDecode bs = .ok (fr', bs.length) ∧ fr.SameButBits fr') := by
  rw [frdDecode_eq]
  cases hget : getFrame payload with
  | none => exact .inl rfl
  | some x =>
  obtain ⟨fr, r⟩ := x
  obtain ⟨hsuf, hlt⟩ := suffix_getFrame hget
  obtain ⟨type, p, htype, hmin, hbody⟩ := getFrame_eq_some hget
  refine .inr ⟨fr, payload.length - r.length, rfl, Nat.sub_pos_of_lt hlt, Nat.sub_le _ _,
    fun hfront q => ?_, (getBody_decoded hbody).roundTrip⟩
  obtain ⟨t, rfl, ht, -⟩ := exists_of_getUvarint htype
  obtain ⟨b, rfl, hb⟩ := readsFront_getBody type p fr r hbody hfront
  have htake : (t ++ (b ++ r)).take ((t ++ (b ++ r)).length - r.length) = t ++ b := by
    rw [← List.append_assoc, List.length_append, Nat.add_sub_cancel, List.take_left]
  have hlen : (t ++ (b ++ q)).length - (b ++ q).length = uvarintLen type := by
    rw [List.length_append, Nat.add_sub_cancel] at hmin ⊢
    exact hmin
  have hfr : getFrame (t ++ (b ++ q)) = some (fr, q) := by
    rw [getFrame, getUvarint_append ht]
    exact (if_neg (not_not.2 hlen)).trans (hb q)
  rw [htake, List.append_assoc, frdDecode_eq, hfr, withLength, Option.map_some]
  simp only [List.length_append, orRefuse]
  congr 2
  omega

/-- Nothing is written of a STREAM frame with more data than a varint counts. -/
theorem frdDecode_oversized : ∃ fr n,
    frdDecode (8 :: 0 :: List.replicate (maxVarint + 1) 0) = .ok (fr, n) ∧
      ∀ outlen bs, frameEncode outlen fr ≠ .ok bs := by
  have hframe (data : List UInt8) : getFrame (8 :: 0 :: data) =
      some (.stream ⟨0, false, 0, 0, data.length, vecsOf data⟩, []) := by
    rw [getFrame_byte (by decide)]
    rfl
  refine ⟨_, _, by rw [frdDecode_eq, hframe]; rfl, fun outlen bs h => ?_⟩
  have hle := (frameEncode_iff.1 h).1.varints (List.replicate (maxVarint + 1) (0 : UInt8)).length
    (List.mem_append_right _ (List.mem_singleton_self _))
  rw [List.length_replicate] at hle
  exact absurd hle (Nat.not_succ_le_self _)

end Dwnx
