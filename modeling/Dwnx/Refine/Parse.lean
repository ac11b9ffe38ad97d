import Dwnx.Parse
import Dwnx.Refine.Basic

/-!
# The code is the parser

A pass of the loop of `connRead` is a pass of the parser, and the act it comes to
(`wp_connReadStep`).
-/

namespace Dwnx

section

open Exec

variable {ts : ℕ} {env : Env} {e : Endp} {reader : Reader} {st : St} {p : List UInt8}
  {Q : Rest → Endp → Prop} {E : Err → Endp → Prop}

/-- A step of the connection leaves the parser alone. -/
@[simp] theorem wp_liftM {α : Type} (x : M α) {Q : α → Endp → Prop} :
    wp (liftM x) Q E env e =
      wp x (fun a t => Q a ⟨e.reader, t⟩) (fun err t => E err ⟨e.reader, t⟩) env e.st :=
  wp_zoom ..

/-- A change of the parser leaves the connection alone. -/
@[simp] theorem wp_modifyReader (f : Reader → Reader) {Q : Unit → Endp → Prop} :
    wp (modifyReader f) Q E env e = Q () ⟨f e.reader, e.st⟩ := rfl

/-- So does one of the record reader. -/
@[simp] theorem wp_modifyRcrd (f : RecordReader → RecordReader) {Q : Unit → Endp → Prop} :
    wp (modifyRcrd f) Q E env e = Q () ⟨⟨e.reader.vird, f e.reader.rcrd⟩, e.st⟩ := rfl

/-- And one of the frame that is read. -/
@[simp] theorem wp_modifyFr (f : FrameUnion → FrameUnion) {Q : Unit → Endp → Prop} :
    wp (modifyFr f) Q E env e =
      Q () ⟨⟨e.reader.vird, { e.reader.rcrd with fr := f e.reader.rcrd.fr }⟩, e.st⟩ := rfl

/-- And one of the field to be read next. -/
@[simp] theorem wp_setState (state : ReadState) {Q : Unit → Endp → Prop} :
    wp (setState state) Q E env e =
      Q () ⟨⟨e.reader.vird, { e.reader.rcrd with state := state }⟩, e.st⟩ := rfl

/-- Carrying out what was read: the act, then the parser goes on, and the end of a record is
    noted. -/
theorem Parsed.wp_run (x : Parsed) :
    wp (x.run ts) Q E env e ↔
      wp (x.act.perform ts)
        (fun _ t => wp (ofExcept x.result) Q E env ⟨x.next,
          if x.complete = true ∧ x.next.rcrd.state = .recordSize then { t with conn.idleTs := ts }
          else t⟩)
        (fun err t => E err ⟨x.reader, t⟩) env e.st := by
  simp only [Parsed.run, wp_bind, wp_modifyReader, wp_liftM, wp_when]
  apply iff_of_eq
  congr 1
  funext _ t
  split <;> rfl

/-- The parser starts from a reader of its own. -/
theorem wp_run_congr (x : Parsed) (r : Reader) :
    wp (x.run ts) Q E env ⟨r, e.st⟩ ↔ wp (x.run ts) Q E env e := by
  rw [Parsed.wp_run, Parsed.wp_run]

/-- Both read what they read after the same test. -/
theorem wp_ite_run {c : Prop} [Decidable c] {x y : R Rest} {x' y' : Parsed}
    (hx : c → (wp x Q E env e ↔ wp (x'.run ts) Q E env e))
    (hy : ¬c → (wp y Q E env e ↔ wp (y'.run ts) Q E env e)) :
    wp (if c then x else y) Q E env e ↔ wp ((if c then x' else y').run ts) Q E env e := by
  split
  · next h => exact hx h
  · next h => exact hy h

variable (ts) in
/-- Going on to a field that must follow in the record. -/
theorem wp_nextField (state : ReadState) :
    wp (nextField state p) Q E env e ↔ wp ((Parse.goOn e.reader state p).run ts) Q E env e := by
  rw [Parsed.wp_run, nextField, requireMore, Parse.goOn]
  simp only [wp_bind, wp_get', wp_ite]
  split <;> simp [Parse.fail, Parse.goto, Act.perform]

/-- The label `frame_done`: the time is noted if the record ends. -/
theorem wp_frameDone :
    wp (frameDone ts p) Q E env e ↔
      Q (some p) ⟨{ e.reader with rcrd := e.reader.rcrd.reset },
        if e.reader.rcrd.reset.state = .recordSize then { e.st with conn.idleTs := ts }
        else e.st⟩ := by
  simp only [frameDone, wp_bind, wp_modifyRcrd, wp_get', wp_when, wp_liftM, wp_modifyConn, wp_pure]
  split <;> rfl

/-- A pass that completes a frame carries out its act, and then goes to `frame_done`. -/
theorem wp_done (act : Act) :
    wp ((Parse.done e.reader act p).run ts) Q E env e ↔
      wp (act.perform ts) (fun _ t => wp (frameDone ts p) Q E env ⟨e.reader, t⟩)
        (fun err t => E err ⟨e.reader, t⟩) env e.st := by
  simp only [Parsed.wp_run, Parse.done, wp_frameDone, wp_ofExcept, true_and]

/-- The header of a STREAM frame is complete. -/
theorem wp_streamHeader (len : ℕ) :
    wp (streamHeader ts len p) Q E env e ↔
      wp ((Parse.streamHeader e.reader len p).run ts) Q E env e := by
  unfold Parse.streamHeader
  dsimp only
  split
  · next h =>
    rw [Parsed.wp_run]
    simp [streamHeader, Parse.done, Act.perform, connRecvFrame, wp_frameDone, h]
  · next h =>
    rw [Parsed.wp_run]
    simp [streamHeader, Parse.goto, Act.perform, connRecvFrame, h]

/-- The flags of a STREAM frame tell which field follows its stream. -/
theorem wp_streamStreamId (id : ℕ) :
    wp (streamStreamId ts id p) Q E env e ↔
      wp ((Parse.streamStreamId id e.reader p).run ts) Q E env e := by
  simp only [streamStreamId, Parse.streamStreamId, wp_bind, wp_modifyFr, wp_get', wp_ite,
    wp_nextField ts, requireMore, wp_throw, wp_streamHeader]
  split
  · simp [Parsed.wp_run]
  split
  · split <;> simp [Parsed.wp_run, Parse.fail, Parse.goto, Parse.goOn, Act.perform, *]
  · simp [Parsed.wp_run]

/-- The offset of a STREAM frame is read. -/
theorem wp_streamOffset (offset : ℕ) :
    wp (streamOffset ts offset p) Q E env e ↔
      wp ((Parse.streamOffset offset e.reader p).run ts) Q E env e := by
  simp only [streamOffset, Parse.streamOffset, wp_bind, wp_modifyFr, wp_get', wp_ite,
    wp_nextField ts, wp_streamHeader]
  split <;> simp [Parsed.wp_run]

/-- The length of a STREAM frame is read: it must not go beyond the record. -/
theorem wp_streamLength (len : ℕ) :
    wp (streamLength ts len p) Q E env e ↔
      wp ((Parse.streamLength len e.reader p).run ts) Q E env e := by
  simp only [streamLength, Parse.streamLength, wp_bind, wp_get', wp_ite, wp_throw, wp_streamHeader]
  split <;> simp [Parsed.wp_run, Parse.fail, Act.perform]

/-- The length of a DATAGRAM frame is read: it must be within the limit and the record. -/
theorem wp_datagramLen (len vlen : ℕ) :
    wp (datagramLen ts len vlen p) Q E env e ↔
      wp ((Parse.datagramLen e.st.conn.localParams len vlen e.reader p).run ts) Q E env e := by
  simp only [datagramLen, Parse.datagramLen, wp_bind, wp_get', wp_ite, wp_throw, wp_modifyFr,
    wp_modifyRcrd, wp_liftM, wp_emit]
  split
  · simp [Parsed.wp_run, Parse.fail, Act.perform]
  split
  · simp [Parsed.wp_run, Parse.fail, Act.perform]
  split
  · simp [Parsed.wp_run, Parse.done, Act.perform, wp_frameDone]
  · simp [Parsed.wp_run, Parse.goto, Act.perform]

/-- Bytes that are in the chunk and in the record are taken from both. -/
theorem wp_consume {n : ℕ} (hp : n ≤ p.length) (hleft : n ≤ e.reader.rcrd.recordLeft)
    {Q : List UInt8 → Endp → Prop} :
    wp (consume n p) Q E env e ↔
      Q (p.drop n) ⟨{ e.reader with rcrd.recordLeft := e.reader.rcrd.recordLeft - n }, e.st⟩ := by
  simp only [consume, wp_bind, wp_get', wp_ite, wp_modifyRcrd, wp_pure]
  rw [if_neg (by omega)]

/-- Bytes of a field are taken from it, too. -/
theorem wp_consumeField {n : ℕ} (hp : n ≤ p.length) (hleft : n ≤ e.reader.rcrd.recordLeft)
    (hfield : n ≤ e.reader.rcrd.fieldLeft) {Q : List UInt8 → Endp → Prop} :
    wp (consumeField n p) Q E env e ↔
      Q (p.drop n) ⟨{ e.reader with
        rcrd.fieldLeft := e.reader.rcrd.fieldLeft - n
        rcrd.recordLeft := e.reader.rcrd.recordLeft - n }, e.st⟩ := by
  simp only [consumeField, wp_bind, wp_get', wp_ite, wp_modifyRcrd]
  rw [if_neg (by omega)]
  exact wp_consume (by exact hp) (by exact hleft)

/-- What is available is in the chunk and in the record. -/
theorem RecordReader.avail_le (rcrd : RecordReader) (len : ℕ) :
    rcrd.avail len ≤ len ∧ rcrd.avail len ≤ rcrd.recordLeft :=
    ⟨Nat.min_le_left .., Nat.min_le_right ..⟩

/-- What is available of a field is in the chunk, the record and the field. -/
theorem RecordReader.fieldAvail_le (rcrd : RecordReader) (len : ℕ) :
    rcrd.fieldAvail len ≤ len ∧ rcrd.fieldAvail len ≤ rcrd.recordLeft ∧
      rcrd.fieldAvail len ≤ rcrd.fieldLeft := by
  have := rcrd.avail_le len
  unfold fieldAvail
  omega

/-- What is available for the buffer is in the chunk and the record, and fits. -/
theorem RecordReader.bufAvail_le (rcrd : RecordReader) (len : ℕ) :
    rcrd.bufAvail len ≤ len ∧ rcrd.bufAvail len ≤ rcrd.recordLeft ∧
      rcrd.bufAvail len ≤ rcrd.buf.left := by
  have := rcrd.avail_le len
  unfold bufAvail
  omega

/-- The bytes of a field are handed on as they come, and the frame ends with the last of
    them. -/
theorem wp_bytes (act : ℕ → Act) :
    wp ((Parse.bytes e.reader p act).run ts) Q E env e ↔
      wp ((act (e.reader.rcrd.fieldAvail p.length)).perform ts)
        (fun _ t => wp (do
          let p ← consumeField (e.reader.rcrd.fieldAvail p.length) p
          if (← get).reader.rcrd.fieldLeft ≠ 0 then return none
          frameDone ts p) Q E env ⟨e.reader, t⟩)
        (fun err t => E err ⟨e.reader, t⟩) env e.st := by
  obtain ⟨h1, h2, h3⟩ := e.reader.rcrd.fieldAvail_le p.length
  have hrest (t : St) : wp (do
          let p ← consumeField (e.reader.rcrd.fieldAvail p.length) p
          if (← get).reader.rcrd.fieldLeft ≠ 0 then return none
          frameDone ts p) Q E env ⟨e.reader, t⟩ ↔
      if e.reader.rcrd.fieldLeft - e.reader.rcrd.fieldAvail p.length ≠ 0 then
        Q none ⟨Parse.advance e.reader (e.reader.rcrd.fieldAvail p.length), t⟩
      else wp (frameDone ts (p.drop (e.reader.rcrd.fieldAvail p.length))) Q E env
        ⟨Parse.advance e.reader (e.reader.rcrd.fieldAvail p.length), t⟩ := by
    rw [wp_bind, wp_consumeField (e := ⟨e.reader, t⟩) h1 h2 h3, wp_bind, wp_get', wp_ite]
    rfl
  simp only [hrest]
  unfold Parse.bytes
  dsimp only
  split
  · next heq => simp [Parsed.wp_run, wp_frameDone, heq]
  · next hne =>
    have : e.reader.rcrd.fieldLeft - e.reader.rcrd.fieldAvail p.length ≠ 0 := by omega
    simp [Parsed.wp_run, this]

/-- Data of a stream, which must be there. -/
theorem wp_readStreamData :
    wp (readStreamData ts p) Q E env e ↔
      wp ((Parse.streamData e.reader p).run ts) Q E env e := by
  rw [Parse.streamData, wp_bytes, readStreamData, wp_bind, wp_get', wp_bind, wp_get', Act.perform,
    wp_bind, wp_get']
  cases e.st.conn.findStream e.reader.rcrd.fr.stream.streamId with
  | none => rfl
  | some s =>
    dsimp only
    rw [wp_bind, wp_liftM]

/-- Data of a datagram. -/
theorem wp_readDatagramData :
    wp (readDatagramData ts p) Q E env e ↔
      wp ((Parse.datagramData e.reader p).run ts) Q E env e := by
  rw [Parse.datagramData, wp_bytes, readDatagramData, wp_bind, wp_get', wp_bind, wp_liftM]
  rfl

/-- Bytes of the chunk are buffered. -/
theorem wp_bufFill {Q : List UInt8 → Endp → Prop} :
    wp (bufFill p) Q E env e ↔
      Q (p.drop (e.reader.rcrd.bufAvail p.length))
        ⟨Parse.fill e.reader (e.reader.rcrd.bufAvail p.length) p, e.st⟩ := by
  obtain ⟨h1, h2, -⟩ := e.reader.rcrd.bufAvail_le p.length
  simp only [bufFill, wp_bind, wp_get', wp_modifyRcrd]
  exact wp_consume (by exact h1) (by exact h2)

/-- The length of the transport parameters is read: they are decoded at once if the chunk
    has them all. -/
theorem wp_transportParametersLen (n : ℕ) :
    wp (transportParametersLen ts n p) Q E env e ↔
      wp ((Parse.transportParametersLen n e.reader p).run ts) Q E env e := by
  simp only [transportParametersLen, Parse.transportParametersLen, wp_bind, wp_get', wp_ite,
    wp_throw]
  split
  · simp [Parsed.wp_run, Parse.fail, Act.perform]
  next hle =>
  split
  · rw [wp_done]
    simp [Act.perform]
  split
  · next hp =>
    rw [Parsed.wp_run]
    simp only [wp_liftM, Act.perform]
    apply iff_of_eq
    congr 1
    funext _ t
    rw [wp_consume (e := ⟨e.reader, t⟩) hp (Nat.le_of_not_lt hle), wp_frameDone]
    simp
  · simp [bufInit, Parse.buffer, Parsed.wp_run, Act.perform]

/-- Transport parameters that came in parts are decoded once the last part is there. -/
theorem wp_readTransportParametersParams :
    wp (readTransportParametersParams ts p) Q E env e ↔
      wp ((Parse.transportParametersParams e.reader p).run ts) Q E env e := by
  simp only [readTransportParametersParams, Parse.transportParametersParams, wp_bind, wp_bufFill,
    wp_get', wp_ite, wp_pure, wp_liftM]
  split
  · next h => simp [Parsed.wp_run, Parse.stop, Act.perform]
  · next h =>
    rw [if_pos (not_not.1 h)]
    simp [Parsed.wp_run, Parse.done, Act.perform, wp_frameDone]

variable (ts) in
/-- A CONNECTION_CLOSE frame is complete, and nothing is read after it. -/
theorem wp_connectionClosed (reason : List UInt8) :
    wp (connectionClosed reason) Q E env e ↔
      wp ((Parse.connectionClosed e.reader reason).run ts) Q E env e := by
  simp [connectionClosed, Parse.connectionClosed, Parsed.wp_run, Act.perform]

/-- A CONNECTION_CLOSE frame of the application has no frame type. -/
theorem wp_connectionCloseErrorCode (errorCode : ℕ) :
    wp (connectionCloseErrorCode errorCode p) Q E env e ↔
      wp ((Parse.connectionCloseErrorCode errorCode e.reader p).run ts) Q E env e := by
  simp only [connectionCloseErrorCode, Parse.connectionCloseErrorCode, wp_bind, wp_modifyFr,
    wp_get', wp_ite, wp_nextField ts]
  split <;> simp [Parsed.wp_run]

/-- The length of the reason is read: the frame is complete if the chunk has it all. -/
theorem wp_connectionCloseReasonlen (n : ℕ) :
    wp (connectionCloseReasonlen n p) Q E env e ↔
      wp ((Parse.connectionCloseReasonlen n e.reader p).run ts) Q E env e := by
  simp only [connectionCloseReasonlen, Parse.connectionCloseReasonlen, wp_bind, wp_get', wp_ite,
    wp_throw, wp_modifyFr]
  split
  · simp [Parsed.wp_run, Parse.fail, Act.perform]
  split
  · rw [wp_connectionClosed ts]
    simp [Parsed.wp_run]
  · simp [bufInit, Parse.buffer, Parsed.wp_run, Act.perform]

/-- A reason that came in parts is complete once the last part is there. -/
theorem wp_readConnectionCloseReason :
    wp (readConnectionCloseReason p) Q E env e ↔
      wp ((Parse.connectionCloseReason e.reader p).run ts) Q E env e := by
  simp only [readConnectionCloseReason, Parse.connectionCloseReason, wp_bind, wp_bufFill, wp_get',
    wp_ite, wp_pure]
  split
  · next h => simp [Parsed.wp_run, Parse.stop, Act.perform]
  · next h =>
    rw [if_pos (not_not.1 h), wp_connectionClosed ts]
    simp [Parsed.wp_run]

/-- A field that is only stored, and another follows. -/
theorem wp_storeField (f : FrameUnion → FrameUnion) (state : ReadState) :
    wp (storeField f state p) Q E env e ↔
      wp ((Parse.goOn { e.reader with rcrd.fr := f e.reader.rcrd.fr } state p).run ts) Q E
        env e := by
  simp only [storeField, wp_bind, wp_modifyFr, wp_nextField ts]
  simp [Parsed.wp_run]

/-- The last field of a frame, which is then logged and handled. -/
theorem wp_lastField {f : FrameUnion → FrameUnion} {frame : FrameUnion → Frame}
    {handle : FrameUnion → M Unit} (hh : ∀ fr, handle fr = connRecvFrame ts (frame fr)) :
    wp (lastField ts f frame handle p) Q E env e ↔
      wp ((Parse.done { e.reader with rcrd.fr := f e.reader.rcrd.fr }
        (.frame (frame (f e.reader.rcrd.fr))) p).run ts) Q E env e := by
  simp only [lastField, finishFrame, wp_bind, wp_modifyFr, wp_get', wp_liftM, wp_emit, hh]
  simp [Parsed.wp_run, Parse.done, Act.perform, wp_frameDone]

/-- A pass that fails does nothing else. -/
theorem wp_throw_fail (err : Err) :
    wp (throw err : R Rest) Q E env e ↔ wp ((Parse.fail e.reader err).run ts) Q E env e := by
  simp [Parsed.wp_run, Parse.fail, Act.perform]

/-- The type of a frame is stored, and a field must follow. -/
theorem wp_typed (f : FrameUnion → FrameUnion) (state : ReadState) :
    wp (do requireMore; modifyFr f; nextField state p) Q E env e ↔
      wp ((Parse.typed e.reader (f e.reader.rcrd.fr) state p).run ts) Q E env e := by
  rw [wp_bind, requireMore, wp_bind, wp_get', wp_ite, Parse.typed]
  split
  · simp [Parsed.wp_run, Parse.fail, Act.perform]
  · next h =>
    rw [wp_pure, wp_bind, wp_modifyFr, wp_nextField ts]
    simp [Parsed.wp_run, Parse.goOn, Parse.goto, h]

/-- The type of a frame is read, and decides what is read next. -/
theorem wp_frameType (type vlen : ℕ) :
    wp (frameType ts type vlen p) Q E env e ↔
      wp ((Parse.frameType e.st.conn.flags.qxTransportParametersSeen e.st.conn.localParams type vlen
        e.reader p).run ts) Q E env e := by
  have hpad : paddingLen e.reader.rcrd.recordLeft p ≤ p.length ∧
      paddingLen e.reader.rcrd.recordLeft p ≤ e.reader.rcrd.recordLeft := by
    have := ((p.take e.reader.rcrd.recordLeft).takeWhile_sublist (· = 0)).length_le
    rw [List.length_take] at this
    unfold paddingLen
    omega
  unfold frameType
  rw [wp_bind, wp_modifyRcrd, wp_bind, wp_get', wp_bind, wp_get', wp_bind, wp_get']
  refine .trans ?_ (wp_run_congr _ { e.reader with rcrd.typelen := vlen })
  refine wp_ite_run (fun h => wp_throw_fail _) fun h => ?_
  refine wp_ite_run (fun _ => ?_) fun _ => ?_
  · refine wp_ite_run (fun _ => wp_throw_fail _) fun _ => ?_
    rw [wp_bind, wp_liftM, wp_modifyConn, wp_nextField ts]
    by_cases h : e.reader.rcrd.recordLeft = 0
    · simp [Parsed.wp_run, Parse.goOn, Parse.fail, Act.perform, h]
    · simp [Parsed.wp_run, Parse.goOn, Parse.goto, Act.perform, h]
  refine wp_ite_run (fun _ => wp_typed _ _) fun _ => ?_
  refine wp_ite_run (fun _ => ?_) fun _ => ?_
  · rw [wp_bind, wp_consume (by exact hpad.1) (by exact hpad.2), finishFrame]
    simp [Parsed.wp_run, Parse.done, Act.perform, wp_frameDone]
  refine wp_ite_run (fun _ => wp_nextField ts _) fun _ => ?_
  refine wp_ite_run (fun _ => wp_nextField ts _) fun _ => ?_
  refine wp_ite_run (fun _ => wp_nextField ts _) fun _ => ?_
  refine wp_ite_run (fun _ => wp_nextField ts _) fun _ => ?_
  refine wp_ite_run (fun _ => wp_typed _ _) fun _ => ?_
  refine wp_ite_run (fun _ => wp_nextField ts _) fun _ => ?_
  refine wp_ite_run (fun _ => wp_nextField ts _) fun _ => ?_
  refine wp_ite_run (fun _ => wp_typed _ _) fun _ => ?_
  refine wp_ite_run (fun _ => wp_typed _ _) fun _ => ?_
  refine wp_ite_run (fun _ => ?_) fun _ => ?_
  · refine wp_ite_run (fun _ => wp_throw_fail _) fun _ => ?_
    rw [wp_bind, wp_modifyFr]
    refine .trans (wp_ite_run (fun _ => ?_) fun _ => ?_) (wp_run_congr ..)
    · refine .trans ?_ (wp_done _).symm
      rw [wp_bind, wp_liftM]
      rfl
    · simp [Parsed.wp_run, Parse.goto, Act.perform]
  refine wp_ite_run (fun _ => ?_) fun _ => ?_
  · exact wp_ite_run (fun _ => wp_throw_fail _) fun _ => wp_typed _ _
  exact wp_ite_run (fun _ => wp_typed _ _) fun _ => wp_throw_fail _

/-- A varint of the record is read, as far as the chunk goes. -/
theorem wp_readVarint (h : ∃ bs, e.reader.vird = virdOf bs ∧ getUvarint bs = none)
    (hleft : 0 < e.reader.rcrd.recordLeft) (hp : p ≠ [])
    {k : ℕ → ℕ → List UInt8 → R Rest} {k' : ℕ → ℕ → Reader → List UInt8 → Parsed}
    (hk : ∀ v vlen q reader, wp (k v vlen q) Q E env ⟨reader, e.st⟩ ↔
      wp ((k' v vlen reader q).run ts) Q E env ⟨reader, e.st⟩) :
    wp (readVarint p k) Q E env e ↔ wp ((Parse.field e.reader p k').run ts) Q E env e := by
  obtain ⟨bs, hv, hbs⟩ := h
  obtain ⟨hle₁, hle₂⟩ := e.reader.rcrd.avail_le p.length
  have hlen : 0 < e.reader.rcrd.avail p.length := by
    have := List.length_pos_of_ne_nil hp
    unfold RecordReader.avail
    omega
  have hne : p.take (e.reader.rcrd.avail p.length) ≠ [] := by
    refine List.ne_nil_of_length_pos ?_
    rw [List.length_take]
    omega
  have hread := varintReaderRead_virdOf (e.reader.rcrd.recordLeft == e.reader.rcrd.avail p.length)
    hbs hne
  rw [← hv] at hread
  unfold readVarint Parse.field
  rw [wp_bind, wp_get']
  dsimp only
  rw [hread, wp_bind, wp_modifyReader]
  cases hget : getUvarint (bs ++ p.take (e.reader.rcrd.avail p.length)) with
  | none =>
    dsimp only
    cases hfin : e.reader.rcrd.recordLeft == e.reader.rcrd.avail p.length with
    | true => exact (wp_throw_fail _).trans (wp_run_congr ..)
    | false =>
      rw [if_neg (by simp)]
      have hnot := virdOf_done hget (List.append_ne_nil_of_right_ne_nil bs hne)
      have hle := List.length_take_le (e.reader.rcrd.avail p.length) p
      dsimp only
      rw [wp_bind, wp_consume (by exact hle.trans hle₁) (by exact hle.trans hle₂), hnot]
      simp [Parsed.wp_run, Parse.stop, Act.perform]
  | some x =>
    have hle : (p.take (e.reader.rcrd.avail p.length)).length - x.2.length ≤
        e.reader.rcrd.avail p.length := (Nat.sub_le ..).trans (List.length_take_le ..)
    dsimp only
    rw [wp_bind, wp_consume (by exact hle.trans hle₁) (by exact hle.trans hle₂), wp_ite,
      if_neg (by simp [VarintReader.done]), wp_bind, wp_modifyReader]
    exact (hk ..).trans (wp_run_congr ..)

variable (ts) in
/-- A pass of the loop is a pass of the parser, and then the act it comes to. -/
theorem wp_connReadStep (h : e.reader.Readable) (hp : p ≠ []) :
    wp (connReadStep ts p) Q E env e ↔
      wp ((Parse.pass e.st.conn.flags.qxTransportParametersSeen e.st.conn.localParams
        e.reader p).run
        ts) Q E env e := by
  have hread {k : ℕ → ℕ → List UInt8 → R Rest} {k' : ℕ → ℕ → Reader → List UInt8 → Parsed}
      (h1 : e.reader.rcrd.state ≠ .recordSize) (h2 : e.reader.rcrd.state ≠ .draining)
      (h3 : e.reader.rcrd.state ≠ .closing)
      (hk : ∀ v vlen q reader, wp (k v vlen q) Q E env ⟨reader, e.st⟩ ↔
        wp ((k' v vlen reader q).run ts) Q E env ⟨reader, e.st⟩) :
      wp (readVarint p k) Q E env e ↔ wp ((Parse.field e.reader p k').run ts) Q E env e :=
    wp_readVarint h.vird (h.recordLeft h1 h2 h3) hp hk
  rw [connReadStep, wp_bind, wp_get', Parse.pass]
  generalize hs : e.reader.rcrd.state = state at hread
  cases state <;> simp only [readState, Parse.plain, Parse.Plain.parse]
  case recordSize =>
    obtain ⟨bs, hv, hbs⟩ := h.vird
    have hread := varintReaderRead_virdOf false hbs hp
    rw [← hv] at hread
    rw [readRecordSize, wp_bind, wp_get', Parse.recordSize, hread]
    dsimp only
    rw [wp_bind, wp_modifyReader, wp_bind, wp_ofExcept]
    cases hget : getUvarint (bs ++ p) with
    | none =>
      have hnot := virdOf_done hget (List.append_ne_nil_of_right_ne_nil bs hp)
      have hlen := List.length_pos_of_ne_nil hp
      dsimp only
      rw [if_neg (by simp)]
      dsimp only
      rw [wp_ite, if_neg (by omega), wp_ite, hnot]
      simp [Parsed.wp_run, Parse.stop, Act.perform]
    | some x =>
      obtain ⟨n, hn, hle, hrest⟩ := getUvarint_append_suffix hbs hget
      have hlt : x.2.length < p.length := by
        rw [hrest, List.length_drop]
        omega
      dsimp only
      rw [wp_ite, if_neg (by omega), wp_ite, if_neg (by simp [VarintReader.done]), wp_bind,
        wp_modifyReader, wp_bind, wp_get']
      refine .trans ?_ (wp_run_congr _ { e.reader with vird := .reset })
      refine wp_ite_run (fun _ => wp_throw_fail _) fun _ => ?_
      simp [Parsed.wp_run, Parse.goto, Act.perform]
  case frameType => exact hread (by simp) (by simp) (by simp) fun _ _ _ _ => wp_frameType ..
  case qxTransportParametersLen =>
    exact hread (by simp) (by simp) (by simp) fun v _ _ _ => wp_transportParametersLen v
  case qxTransportParametersParams => exact wp_readTransportParametersParams
  case streamStreamId =>
    exact hread (by simp) (by simp) (by simp) fun v _ _ _ => wp_streamStreamId v
  case streamOffset => exact hread (by simp) (by simp) (by simp) fun v _ _ _ => wp_streamOffset v
  case streamLength => exact hread (by simp) (by simp) (by simp) fun v _ _ _ => wp_streamLength v
  case streamData => exact wp_readStreamData
  case connectionCloseErrorCode =>
    exact hread (by simp) (by simp) (by simp) fun v _ _ _ => wp_connectionCloseErrorCode v
  case connectionCloseReasonlen =>
    exact hread (by simp) (by simp) (by simp) fun v _ _ _ => wp_connectionCloseReasonlen v
  case connectionCloseReason => exact wp_readConnectionCloseReason
  case datagramLen => exact hread (by simp) (by simp) (by simp) fun _ _ _ _ => wp_datagramLen ..
  case datagramData => exact wp_readDatagramData
  case draining => exact wp_throw_fail _
  case closing => exact wp_throw_fail _
  all_goals
    refine hread (by simp) (by simp) (by simp) fun _ _ _ _ => ?_
    first
    | exact wp_storeField ..
    | exact wp_lastField fun _ => rfl

end

end Dwnx
