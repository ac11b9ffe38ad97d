import Dwnx.Records

/-!
# Records one after the other, wherever they are cut

A chunk may go beyond the record that the parser stands in. Then it is read as if it
ended with the record, and the rest of it is left (`Parse.lenient_followed`), so that
a parser that is to read records reads all of their frames, whatever the chunks are
(`Parse.lenient_stream`).
-/

namespace Dwnx

variable {frs : List Frame} {fr : Frame} {p q : List UInt8}

/-! ## The frames of a record -/

/-- The bytes of a frame are read as the frame, and leave the rest. -/
theorem Frame.Sendable.getFrame (h : fr.Sendable) (R : List UInt8) :
    Dwnx.getFrame (fr.wire ++ R) = some (fr.received, R) := by
  refine getFrame_wire h.1 ?_
  rcases h.2 with ⟨params, rfl⟩ | hord
  · trivial
  · cases fr with
    | padding => exact hord.elim
    | datagram fr =>
      have htype : fr.type = FrameType.datagramLen := hord
      rintro hd
      rw [htype] at hd
      cases hd
    | _ => trivial

/-- A frame has bytes. -/
theorem Frame.Sendable.wire_pos (h : fr.Sendable) : 0 < fr.wire.length := by
  refine Frame.wire_pos fun n hn => ?_
  rcases h.2 with ⟨params, rfl⟩ | hord
  · cases hn
  · rw [hn] at hord
    exact hord

/-- No frame that is sent so closes the connection. -/
theorem Frame.Sendable.isClose (h : fr.Sendable) : fr.received.isClose = false := by
  rcases h.2 with ⟨params, rfl⟩ | hord
  · rfl
  · cases fr <;> first
      | rfl
      | exact hord.elim

/-- Frames have bytes. -/
theorem wireOf_ne_nil (hne : frs ≠ []) (h : ∀ fr ∈ frs, fr.Sendable) : wireOf frs ≠ [] := by
  obtain ⟨fr, frs, rfl⟩ := List.exists_cons_of_ne_nil hne
  intro hnil
  have hpos := (h fr List.mem_cons_self).wire_pos
  rw [wireOf, List.flatMap_cons, List.append_eq_nil_iff] at hnil
  rw [hnil.1] at hpos
  exact absurd hpos (Nat.lt_irrefl 0)

/-- What is taken in of frames that are sent. -/
def tokensOf (frs : List Frame) : List Token := frs.flatMap fun fr => fr.received.tokens

/-- The parts of frames follow each other. -/
theorem tokensOf_append (l m : List Frame) : tokensOf (l ++ m) = tokensOf l ++ tokensOf m :=
  List.flatMap_append

/-- A record spells its frames, and nothing else. -/
theorem spells_wireOf (hne : frs ≠ []) (h : ∀ fr ∈ frs, fr.Sendable) :
    Spells (nextAhead (wireOf frs)) (tokensOf frs) .ended := by
  induction frs with
  | nil => exact absurd rfl hne
  | cons fr frs ih =>
    have hfr := h fr List.mem_cons_self
    have hfrs : ∀ fr ∈ frs, fr.Sendable := fun fr hmem => h fr (List.mem_cons_of_mem _ hmem)
    refine spells_next (hfr.getFrame (wireOf frs)) ?_
    rw [Frame.ahead, hfr.isClose, tokensOf, List.flatMap_cons]
    cases frs with
    | nil =>
      rw [List.flatMap_nil, List.append_nil]
      exact .ended _
    | cons fr' frs =>
      have hnil := List.cons_ne_nil fr' frs
      exact .frame (wireOf_ne_nil hnil hfrs) (ih hnil hfrs)

/-- The frames of a record are decoded one after the other. -/
theorem frdDecodeAll_wireOf (h : ∀ fr ∈ frs, fr.Sendable) (n : ℕ) (hn : (wireOf frs).length ≤ n) :
    frdDecodeAll n (wireOf frs) = (frs.map Frame.received, []) := by
  induction frs generalizing n with
  | nil => cases n <;> rfl
  | cons fr frs ih =>
    have hfr := h fr List.mem_cons_self
    have hwire : wireOf (fr :: frs) = fr.wire ++ wireOf frs := List.flatMap_cons
    have hpos := hfr.wire_pos
    rw [hwire, List.length_append] at hn
    obtain ⟨m, rfl⟩ : ∃ m, n = m + 1 := ⟨n - 1, by omega⟩
    obtain ⟨len, hdec, hdrop, -⟩ := frdDecode_of_some (hfr.getFrame (wireOf frs))
    rw [hwire, frdDecodeAll, hdec]
    dsimp only
    rw [hdrop, ih (fun fr hmem => h fr (List.mem_cons_of_mem _ hmem)) m (by omega)]
    rfl

/-- A record starts with its size. -/
theorem getUvarint_recordOf (hlen : (wireOf frs).length ≤ defaultMaxRecordSize) (q : List UInt8) :
    getUvarint (recordOf frs ++ q) = some ((wireOf frs).length, wireOf frs ++ q) := by
  rw [recordOf, List.append_assoc]
  refine getUvarint_putTagged (k := 1) (by omega) ?_ _
  unfold defaultMaxRecordSize at hlen
  omega

/-- The frames of a record that is put out. -/
structure IsRecord (frs : List Frame) : Prop where
  ne_nil : frs ≠ []
  length : (wireOf frs).length ≤ defaultMaxRecordSize
  sendable : ∀ fr ∈ frs, fr.Sendable

namespace Parse

variable {params : TransportParams} {reader : Reader} {seen : Bool} {t : List UInt8}
  {ts : List Token}

/-! ## What follows the record -/

/-- The chunk goes on after the record, and so there is something left of it. -/
structure Followed (q : List UInt8) (x y : Parsed) : Prop where
  eq : y = { x with result := x.result.map (Option.map (· ++ q)) }
  left : x.result ≠ .ok none

/-- An outcome that does not depend on the bytes that follow. -/
theorem followed_some {act : Act} {reader next : Reader} {complete : Bool} :
    Followed q ⟨reader, act, next, complete, .ok (some p)⟩
      ⟨reader, act, next, complete, .ok (some (p ++ q))⟩ := ⟨rfl, by simp⟩

/-- A failure does not depend on them. -/
theorem followed_error {act : Act} {reader next : Reader} {complete : Bool} {err : Err} :
    Followed q ⟨reader, act, next, complete, .error err⟩
      ⟨reader, act, next, complete, .error err⟩ :=
  ⟨rfl, by simp⟩

/-- Nor does the choice between two branches. -/
theorem followed_ite {c : Prop} [Decidable c] {x x' y y' : Parsed} (hx : c → Followed q x x')
    (hy : ¬c → Followed q y y') : Followed q (if c then x else y) (if c then x' else y') := by
  split
  · next hc => exact hx hc
  · next hc => exact hy hc

/-- Whether the record ends does not depend on them. -/
theorem followed_goOn (state : ReadState) :
    Followed q (goOn reader state p) (goOn reader state (p ++ q)) :=
  followed_ite (fun _ => followed_error) fun _ => followed_some

/-- Nor does the state after a frame type. -/
theorem followed_typed (fr : FrameUnion) (state : ReadState) :
    Followed q (typed reader fr state p) (typed reader fr state (p ++ q)) :=
  followed_ite (fun _ => followed_error) fun _ => followed_some

/-- What is left of the record is there already. -/
theorem avail_append (h : reader.rcrd.recordLeft ≤ p.length) :
    reader.rcrd.avail (p ++ q).length = reader.rcrd.avail p.length := by
  unfold RecordReader.avail
  rw [List.length_append]
  omega

/-- The header of a STREAM frame. -/
theorem followed_streamHeader (len : ℕ) :
    Followed q (streamHeader reader len p) (streamHeader reader len (p ++ q)) :=
  followed_ite (fun _ => followed_some) fun _ => followed_some

/-- The stream identifier of a STREAM frame. -/
theorem followed_streamStreamId (id : ℕ) :
    Followed q (streamStreamId id reader p) (streamStreamId id reader (p ++ q)) :=
  followed_ite (fun _ => followed_goOn _) fun _ =>
    followed_ite (fun _ => followed_ite (fun _ => followed_error) fun _ => followed_some) fun _ =>
      followed_streamHeader _

/-- The offset of a STREAM frame. -/
theorem followed_streamOffset (offset : ℕ) :
    Followed q (streamOffset offset reader p) (streamOffset offset reader (p ++ q)) :=
  followed_ite (fun _ => followed_goOn _) fun _ => followed_streamHeader _

/-- The length of a STREAM frame. -/
theorem followed_streamLength (len : ℕ) :
    Followed q (streamLength len reader p) (streamLength len reader (p ++ q)) :=
  followed_ite (fun _ => followed_error) fun _ => followed_streamHeader _

/-- The error code of CONNECTION_CLOSE. -/
theorem followed_connectionCloseErrorCode (errorCode : ℕ) :
    Followed q (connectionCloseErrorCode errorCode reader p)
      (connectionCloseErrorCode errorCode reader (p ++ q)) :=
  followed_ite (fun _ => followed_goOn _) fun _ => followed_goOn _

/-- The length of a DATAGRAM frame. -/
theorem followed_datagramLen (len vlen : ℕ) :
    Followed q (datagramLen params len vlen reader p)
      (datagramLen params len vlen reader (p ++ q)) :=
  followed_ite (fun _ => followed_error) fun _ => followed_ite (fun _ => followed_error) fun _ =>
    followed_ite (fun _ => followed_some) fun _ => followed_some

/-- A field that ends within the record. -/
theorem followed_bytes {act act' : ℕ → Act}
    (hfield : reader.rcrd.fieldLeft ≤ reader.rcrd.recordLeft)
    (h : reader.rcrd.recordLeft ≤ p.length) (hact : ∀ len ≤ p.length, act' len = act len) :
    Followed q (bytes reader p act) (bytes reader (p ++ q) act') := by
  have hlen : reader.rcrd.fieldAvail p.length = reader.rcrd.fieldLeft := by
    unfold RecordReader.fieldAvail RecordReader.avail
    omega
  have hlen' : reader.rcrd.fieldAvail (p ++ q).length = reader.rcrd.fieldLeft := by
    rw [← hlen, RecordReader.fieldAvail, avail_append h]
    rfl
  have hle := hfield.trans h
  unfold bytes
  dsimp only
  rw [hlen, hlen', if_pos rfl, if_pos rfl, hact _ hle, List.drop_append_of_le_length hle]
  exact followed_some

/-- The data of a STREAM frame ends with the record at the latest. -/
theorem followed_streamData (hfield : reader.rcrd.fieldLeft ≤ reader.rcrd.recordLeft)
    (h : reader.rcrd.recordLeft ≤ p.length) :
    Followed q (streamData reader p) (streamData reader (p ++ q)) := by
  unfold streamData
  refine followed_bytes hfield h ?_
  intro len hlen
  rw [List.take_append_of_le_length hlen]

/-- The data of a DATAGRAM frame ends with the record at the latest. -/
theorem followed_datagramData (hfield : reader.rcrd.fieldLeft ≤ reader.rcrd.recordLeft)
    (h : reader.rcrd.recordLeft ≤ p.length) :
    Followed q (datagramData reader p) (datagramData reader (p ++ q)) := by
  unfold datagramData
  refine followed_bytes hfield h ?_
  intro len hlen
  rw [List.take_append_of_le_length hlen]

/-- A buffer is filled from what is left of the record. -/
theorem fill_append {len : ℕ} (hlen : len ≤ p.length) :
    fill reader len (p ++ q) = fill reader len p := by
  rw [fill, List.take_append_of_le_length hlen, fill]

/-- What is left to be buffered is there. -/
theorem bufAvail_of_le (hbuf : reader.rcrd.buf.left ≤ reader.rcrd.recordLeft)
    (h : reader.rcrd.recordLeft ≤ p.length) :
    reader.rcrd.bufAvail p.length = reader.rcrd.buf.left ∧
      reader.rcrd.bufAvail (p ++ q).length = reader.rcrd.buf.left ∧
      (fill reader reader.rcrd.buf.left p).rcrd.buf.left = 0 := by
  have hlen : reader.rcrd.bufAvail p.length = reader.rcrd.buf.left := by
    unfold RecordReader.bufAvail RecordReader.avail
    omega
  refine ⟨hlen, ?_, ?_⟩
  · rw [← hlen, RecordReader.bufAvail, avail_append h]
    rfl
  · change reader.rcrd.buf.size - (reader.rcrd.buf.data ++ p.take _).length = 0
    rw [List.length_append, List.length_take, Nat.min_eq_left (hbuf.trans h)]
    unfold Buf.left
    omega

/-- The transport parameters. -/
theorem followed_transportParametersParams (hbuf : reader.rcrd.buf.left ≤ reader.rcrd.recordLeft)
    (h : reader.rcrd.recordLeft ≤ p.length) :
    Followed q (transportParametersParams reader p)
      (transportParametersParams reader (p ++ q)) := by
  obtain ⟨hlen, hlen', hfull⟩ := bufAvail_of_le (q := q) hbuf h
  have hle := hbuf.trans h
  unfold transportParametersParams
  dsimp only
  rw [hlen, hlen', fill_append hle, List.drop_append_of_le_length hle, if_pos hfull, if_pos hfull]
  exact followed_some

/-- The reason of CONNECTION_CLOSE. -/
theorem followed_connectionCloseReason (hbuf : reader.rcrd.buf.left ≤ reader.rcrd.recordLeft)
    (h : reader.rcrd.recordLeft ≤ p.length) :
    Followed q (connectionCloseReason reader p) (connectionCloseReason reader (p ++ q)) := by
  obtain ⟨hlen, hlen', hfull⟩ := bufAvail_of_le (q := q) hbuf h
  unfold connectionCloseReason
  dsimp only
  rw [hlen, hlen', fill_append (hbuf.trans h), if_pos hfull]
  exact followed_error

/-- All of the parameters are in the chunk. -/
theorem followed_transportParametersLen (n : ℕ) (h : reader.rcrd.recordLeft ≤ p.length) :
    Followed q (transportParametersLen n reader p) (transportParametersLen n reader (p ++ q)) := by
  refine followed_ite (fun _ => followed_error) fun hn =>
    followed_ite (fun _ => followed_some) fun _ => ?_
  have hle : n ≤ p.length := (Nat.le_of_not_gt hn).trans h
  have hle' : n ≤ (p ++ q).length := by
    rw [List.length_append]
    exact hle.trans (Nat.le_add_right ..)
  rw [if_pos hle, if_pos hle', List.take_append_of_le_length hle, List.drop_append_of_le_length hle]
  exact followed_some

/-- The length of the reason of CONNECTION_CLOSE. -/
theorem followed_connectionCloseReasonlen (n : ℕ) (h : reader.rcrd.recordLeft ≤ p.length) :
    Followed q (connectionCloseReasonlen n reader p)
      (connectionCloseReasonlen n reader (p ++ q)) := by
  refine followed_ite (fun _ => followed_error) fun hn => ?_
  have hle : n ≤ p.length := (Nat.le_of_not_gt hn).trans h
  have hle' : n ≤ (p ++ q).length := by
    rw [List.length_append]
    exact hle.trans (Nat.le_add_right ..)
  dsimp only
  rw [if_pos hle, if_pos hle', List.take_append_of_le_length hle]
  exact followed_error

/-- A frame type, after which a frame may run to the end of the record. -/
theorem followed_frameType (type vlen : ℕ) (h : reader.rcrd.recordLeft ≤ p.length) :
    Followed q (frameType seen params type vlen reader p)
      (frameType seen params type vlen reader (p ++ q)) := by
  have hpad : paddingLen reader.rcrd.recordLeft (p ++ q) = paddingLen reader.rcrd.recordLeft p := by
    rw [paddingLen, List.take_append_of_le_length h, paddingLen]
  have hle : paddingLen reader.rcrd.recordLeft p ≤ p.length := by
    unfold paddingLen
    refine (List.takeWhile_prefix _).length_le.trans ?_
    rw [List.length_take]
    exact Nat.min_le_right ..
  refine followed_ite (fun _ => followed_error) fun _ => followed_ite (fun _ => ?_) fun _ => ?_
  · exact followed_ite (fun _ => followed_error) fun _ =>
      followed_ite (fun _ => followed_error) fun _ => followed_some
  refine followed_ite (fun _ => followed_typed _ _) fun _ => followed_ite (fun _ => ?_) fun _ => ?_
  · dsimp only
    rw [hpad, List.drop_append_of_le_length hle]
    exact followed_some
  refine followed_ite (fun _ => followed_goOn _) fun _ => ?_
  refine followed_ite (fun _ => followed_goOn _) fun _ => ?_
  refine followed_ite (fun _ => followed_goOn _) fun _ => ?_
  refine followed_ite (fun _ => followed_goOn _) fun _ => ?_
  refine followed_ite (fun _ => followed_typed _ _) fun _ => ?_
  refine followed_ite (fun _ => followed_goOn _) fun _ => ?_
  refine followed_ite (fun _ => followed_goOn _) fun _ => ?_
  refine followed_ite (fun _ => followed_typed _ _) fun _ => ?_
  refine followed_ite (fun _ => followed_typed _ _) fun _ => ?_
  refine followed_ite (fun _ => ?_) fun _ => ?_
  · exact followed_ite (fun _ => followed_error) fun _ =>
      followed_ite (fun _ => followed_some) fun _ => followed_some
  refine followed_ite (fun _ => ?_) fun _ => ?_
  · exact followed_ite (fun _ => followed_error) fun _ => followed_typed _ _
  exact followed_ite (fun _ => followed_typed _ _) fun _ => followed_error

/-- A field that is a varint. -/
theorem followed_field {k k' : ℕ → ℕ → Reader → List UInt8 → Parsed}
    (hvird : ∃ bs, reader.vird = virdOf bs ∧ getUvarint bs = none) (hp : p ≠ [])
    (h0 : 0 < reader.rcrd.recordLeft) (h : reader.rcrd.recordLeft ≤ p.length)
    (hk : ∀ v vlen (reader : Reader) p, reader.rcrd.recordLeft ≤ p.length →
      Followed q (k v vlen reader p) (k' v vlen reader (p ++ q))) :
    Followed q (field reader p k) (field reader (p ++ q) k') := by
  obtain ⟨bs, hbs, hget⟩ := hvird
  have hle : reader.rcrd.avail p.length ≤ p.length := Nat.min_le_left ..
  have hpos : 0 < (p.take (reader.rcrd.avail p.length)).length := by
    have := List.length_pos_of_ne_nil hp
    rw [List.length_take]
    unfold RecordReader.avail
    omega
  unfold field
  dsimp only
  rw [avail_append h, List.take_append_of_le_length hle, hbs,
    varintReaderRead_virdOf _ hget (List.ne_nil_of_length_pos hpos)]
  generalize hd : p.take (reader.rcrd.avail p.length) = d
  cases hv : getUvarint (bs ++ d) with
  | none =>
    -- the varint ends with the record at the latest
    have hfin : (reader.rcrd.recordLeft == reader.rcrd.avail p.length) = true := by
      rw [RecordReader.avail, Nat.min_eq_right h, beq_self_eq_true]
    dsimp only
    rw [hfin, if_pos rfl]
    exact followed_error
  | some x =>
    obtain ⟨v, rest⟩ := x
    have hnread : d.length - rest.length ≤ p.length := by
      rw [← hd, List.length_take]
      omega
    dsimp only
    rw [List.drop_append_of_le_length hnread]
    refine hk _ _ _ _ ?_
    change reader.rcrd.recordLeft - _ ≤ _
    rw [List.length_drop]
    omega

/-- A field of a frame that is handled once it is complete. -/
theorem followed_plain {x : Plain} (v : ℕ) :
    Followed q (x.parse v reader p) (x.parse v reader (p ++ q)) := by
  cases x with
  | field store state => exact followed_goOn _
  | last store frame => exact followed_some

/-- A pass within a record that ends in the chunk. -/
theorem followed_pass (hok : reader.Ok) (hs : reader.rcrd.state ≠ .recordSize) (hp : p ≠ [])
    (h0 : 0 < reader.rcrd.recordLeft) (h : reader.rcrd.recordLeft ≤ p.length) :
    Followed q (pass seen params reader p) (pass seen params reader (p ++ q)) := by
  have hvarint {k k' : ℕ → ℕ → Reader → List UInt8 → Parsed}
      (hk : ∀ v vlen (reader : Reader) p, reader.rcrd.recordLeft ≤ p.length →
        Followed q (k v vlen reader p) (k' v vlen reader (p ++ q))) :=
    followed_field hok.vird hp h0 h hk
  have hfield := hok.field
  unfold pass
  cases plain reader.rcrd.state with
  | some x => exact hvarint fun v _ _ _ _ => followed_plain v
  | none =>
    dsimp only
    cases hstate : reader.rcrd.state with
    | recordSize => exact absurd hstate hs
    | frameType => exact hvarint fun _ _ _ _ h => followed_frameType _ _ h
    | qxTransportParametersLen => exact hvarint fun _ _ _ _ h => followed_transportParametersLen _ h
    | qxTransportParametersParams =>
      rw [RecordReader.FieldOk, hstate] at hfield
      exact followed_transportParametersParams hfield.2.2 h
    | streamStreamId => exact hvarint fun _ _ _ _ _ => followed_streamStreamId _
    | streamOffset => exact hvarint fun _ _ _ _ _ => followed_streamOffset _
    | streamLength => exact hvarint fun _ _ _ _ _ => followed_streamLength _
    | streamData => exact followed_streamData hok.field.le h
    | connectionCloseErrorCode =>
      exact hvarint fun _ _ _ _ _ => followed_connectionCloseErrorCode _
    | connectionCloseReasonlen =>
      exact hvarint fun _ _ _ _ h => followed_connectionCloseReasonlen _ h
    | connectionCloseReason =>
      rw [RecordReader.FieldOk, hstate] at hfield
      exact followed_connectionCloseReason hfield.2.2 h
    | datagramLen => exact hvarint fun _ _ _ _ _ => followed_datagramLen _ _
    | datagramData => exact followed_datagramData hok.field.le h
    | _ => exact followed_error

/-- A pass within a record does not depend on the bytes after the record. -/
theorem lenient_followed (hok : reader.Ok) (hs : reader.rcrd.state ≠ .recordSize) (hp : p ≠ [])
    (h0 : 0 < reader.rcrd.recordLeft) (h : reader.rcrd.recordLeft ≤ p.length) :
    Followed q (lenient params reader p) (lenient params reader (p ++ q)) := by
  refine followed_ite (fun _ => ?_) fun _ => followed_pass hok hs hp h0 h
  exact followed_field hok.vird hp h0 h fun type _ _ _ h => followed_frameType _ _ h

/-- The length of a record that is there to its end. -/
theorem followed_recordSize {b : List UInt8} (hv : reader.vird = virdOf b)
    (hb : getUvarint b = none) (hp : p ≠ []) (hget : getUvarint (b ++ p) ≠ none) :
    Followed q (recordSize params reader p) (recordSize params reader (p ++ q)) := by
  obtain ⟨⟨v, r⟩, hvr⟩ := Option.ne_none_iff_exists'.1 hget
  obtain ⟨n, -, hn, rfl⟩ := getUvarint_append_suffix hb hvr
  have hpq : getUvarint (b ++ (p ++ q)) = some (v, p.drop n ++ q) := by
    rw [← List.append_assoc]
    exact getUvarint_append hvr
  have hlen : (p ++ q).length - (p.drop n ++ q).length = p.length - (p.drop n).length := by
    rw [List.length_append, List.length_append]
    omega
  have hread : p.length - (p.drop n).length = n := by
    rw [List.length_drop]
    omega
  have hvlen : (b ++ (p ++ q)).length - (p.drop n ++ q).length =
      (b ++ p).length - (p.drop n).length := by
    simp only [List.length_append]
    omega
  unfold recordSize
  rw [hv, varintReaderRead_virdOf _ hb hp, hvr,
    varintReaderRead_virdOf _ hb (List.append_ne_nil_of_left_ne_nil hp q), hpq]
  dsimp only
  rw [hlen, hread, hvlen, List.drop_append_of_le_length hn]
  simp only [VarintReader.done, beq_self_eq_true, if_true]
  exact followed_ite (fun _ => followed_error) fun _ => followed_some

/-! ## Records -/

/-- The parser is to read `q`, the rest of a record and then records, which spell `ts`. -/
def Streams (params : TransportParams) (reader : Reader) (q : List UInt8) (ts : List Token) :
    Prop :=
  ∃ (p : List UInt8) (ts' : List Token) (records : List (List Frame)),
    q = p ++ records.flatMap recordOf ∧ ts = ts' ++ tokensOf records.flatten ∧
      (∀ frs ∈ records, IsRecord frs) ∧ Goes params reader p ts' .ended

/-- Between records, no frame has been begun. -/
theorem Streams.of_idle {records : List (List Frame)} (hok : reader.Ok)
    (hs : reader.rcrd.state = .recordSize) (hv : reader.vird = .reset)
    (h : ∀ frs ∈ records, IsRecord frs) :
    Streams params reader (records.flatMap recordOf) (tokensOf records.flatten) :=
  ⟨[], [], records, rfl, rfl, h, hok, .record (.start hs hv)⟩

/-- Where there is something to read, there is something of a record. -/
theorem Streams.ne_nil (hmax : defaultMaxRecordSize ≤ params.maxRecordSize)
    (h : Streams params reader q ts) (hq : q ≠ []) :
    ∃ (p : List UInt8) (ts' : List Token) (records : List (List Frame)),
      q = p ++ records.flatMap recordOf ∧ ts = ts' ++ tokensOf records.flatten ∧
        (∀ frs ∈ records, IsRecord frs) ∧ Goes params reader p ts' .ended ∧ p ≠ [] := by
  obtain ⟨p, ts', records, rfl, rfl, hrecords, hgoes⟩ := h
  by_cases hp : p = []
  · -- a record begins
    subst hp
    obtain ⟨rfl, -, hs, hv⟩ := hgoes.nil
    cases records with
    | nil => exact absurd rfl hq
    | cons frs records =>
      have hfrs := hrecords frs List.mem_cons_self
      refine ⟨recordOf frs, tokensOf frs, records, by simp, ?_, ?_, ⟨hgoes.ok, ?_⟩, ?_⟩
      · rw [List.flatten_cons, tokensOf_append, List.nil_append]
      · exact fun frs hmem => hrecords frs (List.mem_cons_of_mem _ hmem)
      · have hget := getUvarint_recordOf hfrs.length []
        rw [List.append_nil, List.append_nil] at hget
        exact .header (b := []) hs hv rfl hget (wireOf_ne_nil hfrs.ne_nil hfrs.sendable)
          (hfrs.length.trans hmax) (spells_wireOf hfrs.ne_nil hfrs.sendable)
      · exact List.append_ne_nil_of_right_ne_nil _ (wireOf_ne_nil hfrs.ne_nil hfrs.sendable)
  · exact ⟨p, ts', records, rfl, rfl, hrecords, hgoes, hp⟩

/-- A pass over a chunk that goes on after the record. -/
theorem Goes.followed (h : Goes params reader p ts .ended) (hp : p ≠ []) :
    Followed q (lenient params reader p) (lenient params reader (p ++ q)) := by
  cases h.awaits with
  | record ha =>
    cases ha with
    | start => exact absurd rfl hp
    | mid hv hb hleft hne hin hs =>
      refine lenient_followed h.ok hin.state.1 hp ?_ hleft.le
      rw [hleft]
      exact List.length_pos_of_ne_nil hp
  | header hs hv hb hget =>
    have hpass (p : List UInt8) : lenient params reader p =
        recordSize { params with maxDatagramFrameSize := uint64Max } reader p := by
      unfold lenient pass
      rw [hs]
      rfl
    rw [hpass, hpass]
    exact followed_recordSize hv hb hp (by rw [hget]; simp)

/-- A pass reads frames of the records, and no more than the chunk. -/
theorem lenient_stream (hmax : defaultMaxRecordSize ≤ params.maxRecordSize)
    (h : Streams params reader (p ++ t) ts) (hp : p ≠ []) :
    ∃ r ts', (lenient params reader p).outcome = .ok r ∧
      ts = (lenient params reader p).act.tokens ++ ts' ∧
      Streams params (lenient params reader p).next (r.getD [] ++ t) ts' ∧
      ∀ q, r = some q → q.length < p.length := by
  obtain ⟨x, ts₁, records, hsplit, rfl, hrecords, hgoes, hx⟩ :=
    h.ne_nil hmax (List.append_ne_nil_of_left_ne_nil hp t)
  rcases List.append_eq_append_iff.1 hsplit with ⟨t', rfl, ht⟩ | ⟨q, rfl, hq⟩
  · -- the chunk is within the record
    have hpass := lenient_takes hgoes hp
    cases hout : (lenient params reader p).outcome with
    | error err =>
      rw [hout] at hpass
      exact hpass.2.elim
    | ok r =>
      rw [hout] at hpass
      obtain ⟨⟨ts₂, rfl, hnext⟩, hless⟩ := hpass
      refine ⟨r, ts₂ ++ tokensOf records.flatten, rfl, List.append_assoc .., ?_, hless⟩
      exact ⟨r.getD [] ++ t', ts₂, records, by rw [ht, List.append_assoc], rfl, hrecords, hnext⟩
  · -- the chunk goes on after the record
    have hfollowed := hgoes.followed (q := q) hx
    have hpass := lenient_takes (t := []) (by rw [List.append_nil]; exact hgoes) hx
    cases hout : (lenient params reader x).outcome with
    | error err =>
      rw [hout] at hpass
      exact hpass.2.elim
    | ok r =>
      rw [hout] at hpass
      obtain ⟨⟨ts₂, rfl, hnext⟩, hless⟩ := hpass
      have hresult : (lenient params reader x).result = .ok r ∧
          (lenient params reader x).act.check = .ok () := by
        unfold Parsed.outcome at hout
        cases hc : (lenient params reader x).act.check with
        | error err => rw [hc] at hout; cases hout
        | ok u => rw [hc] at hout; exact ⟨hout, rfl⟩
      cases r with
      | none => exact absurd hresult.1 hfollowed.left
      | some x' =>
        rw [hfollowed.eq, Parsed.outcome]
        dsimp only
        rw [hresult.1, hresult.2]
        refine ⟨some (x' ++ q), ts₂ ++ tokensOf records.flatten, rfl, List.append_assoc .., ?_, ?_⟩
        · rw [Option.getD_some, List.append_nil] at hnext
          exact ⟨x', ts₂, records, by rw [Option.getD_some, List.append_assoc, hq], rfl, hrecords,
            hnext⟩
        · rintro _ ⟨⟩
          have := hless x' rfl
          rw [List.length_append, List.length_append]
          omega

end Parse

/-! ## What an endpoint puts out -/

section
variable {env : Env} {server : Bool} {settings : Settings} {params : TransportParams} {e : Endp}
  {inp out : List UInt8}

/-- Transport parameters are sent once. -/
theorem Frame.Ordinary.not_params {fr : Frame} (h : fr.Ordinary) (params : TransportParams) :
    fr ≠ .qxTransportParameters params := by
  rintro rfl
  exact h

/-- All that an endpoint puts out is records, which are not empty and decode to the frames
    that it logged as sent, in that order, but for those of the record under construction.
    The first frame, and no other, has the transport parameters. -/
theorem endpoint_records (hp : Created params)
    (h : (endpoint env Call.Plain).Run (.new server settings params) e inp out) :
    ∃ (done : List (List Frame)) (cur : List Frame), out = done.flatMap recordOf ∧
      sentFrames e.st.trace = done.flatten ++ cur ∧
      (e.st.conn.tx.qre.started = false → cur = []) ∧
      (∀ frs ∈ done, 0 < (wireOf frs).length ∧ (wireOf frs).length ≤ defaultMaxRecordSize ∧
        frdDecodeAll (wireOf frs).length (wireOf frs) = (frs.map Frame.received, [])) ∧
      (sentFrames e.st.trace = [] ∨
        ∃ frs, sentFrames e.st.trace = .qxTransportParameters e.st.conn.localParams :: frs ∧
          ∀ fr ∈ frs, ∀ params, fr ≠ .qxTransportParameters params) := by
  obtain ⟨done, cur, hrec⟩ := endpoint_recorded hp h
  have hsends := hrec.sends hp (hp.run h).localParams
  refine ⟨done, cur, hrec.out, hrec.sent, hrec.idle, fun frs hfrs => ?_, ?_⟩
  · obtain ⟨hne, hlen⟩ := hrec.full frs hfrs
    have hall : ∀ fr ∈ frs, fr.Sendable := by
      intro fr hfr
      refine hsends.sendable fr ?_
      rw [hrec.sent]
      exact List.mem_append_left _ (List.mem_flatten.2 ⟨frs, hfrs, hfr⟩)
    exact ⟨List.length_pos_of_ne_nil (wireOf_ne_nil hne hall), hlen,
      frdDecodeAll_wireOf hall _ le_rfl⟩
  · rcases hsends.first with hnone | ⟨frs, hfrs, hord⟩
    · exact .inl hnone
    · exact .inr ⟨frs, hfrs, fun fr hfr => (hord fr hfr).not_params⟩

end

/-- A client opens a stream, and writes to it twice. -/
def streamCalls : List Call :=
  [.read firstRecord 0, .app .openBidiStream, .writevStream 100 false 0 [[1, 2], [3]] 0,
    .writevStream 100 true 0 [[4]] 0, .writeRecord 100 0]

/-- They are in one record. -/
theorem endpoint_records_stream : ∃ (out : List UInt8) (done : List (List Frame)),
    out.length = 44 ∧ out = done.flatMap recordOf ∧
      ∀ frs ∈ done, frdDecodeAll (wireOf frs).length (wireOf frs) =
        (frs.map Frame.received, []) := by
  have hany : (putOut Env.quiet streamCalls (.new false smallSettings smallParams) []).any
      (fun x => x.2.length == 44) = true := by decide +kernel
  obtain ⟨e, inp, out, hrun, hlen⟩ := exists_putOut hany
  obtain ⟨done, cur, hout, -, -, hdone, -⟩ :=
    endpoint_records ⟨by decide, by decide, by decide, by decide⟩ hrun
  exact ⟨out, done, beq_iff_eq.1 hlen, hout, fun frs hfrs => (hdone frs hfrs).2.2⟩

end Dwnx
