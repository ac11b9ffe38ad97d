import Dwnx.Codec
import Dwnx.Refine.Read

/-!
# The frames that are written

Of all that the functions of a connection do, only the encoding of a frame touches the
record under construction, and it logs the frame. `Emits` relates states between which
events of some kind were logged, and the record has grown by the frames that were
encoded. Every function moves the state along it, whatever the callbacks do: with quiet
events (`Event.isQuiet`), what was received, and what was encoded.
-/

namespace Dwnx

open Exec

variable {env : Env} {K : Event → Prop} {st t : St} {id : ℕ} {α : Type}

/-! ## The relation -/

/-- The frame that was encoded. -/
def Event.sent? : Event → Option Frame
  | .txFr fr => some fr
  | _ => none

/-- Not a frame, encoded or received, nor data that was accepted or received, nor the end of
    early data. -/
def Event.isQuiet : Event → Bool
  | .txFr _ | .accepted .. | .rxFr _ | .recvDatagram .. | .discarded .. => false
  | .earlyDataRejected => false
  | .recvStreamData _ _ _ data => data.isEmpty
  | _ => true

/-- A kind of events, with those that are quiet. -/
class Kind (K : Event → Prop) : Prop where
  quiet : ∀ {e : Event}, e.isQuiet = true → K e

instance : Kind fun e => e.isQuiet = true := ⟨fun h => h⟩

/-- What is logged by a connection that only receives. -/
def Event.isInward : Event → Bool
  | .txFr _ | .accepted .. | .earlyDataRejected => false
  | _ => true

instance : Kind fun e => e.isInward = true := ⟨fun {e} h => by cases e <;> first | rfl | cases h⟩

/-- The frames that were encoded. -/
def sentFrames (trace : List Event) : List Frame := trace.filterMap Event.sent?

/-- The data of a DATAGRAM frame. -/
def Frame.gram? : Frame → Option (List UInt8)
  | .datagram fr => some fr.data.flatten
  | _ => none

/-- The datagrams that were sent. -/
def sentGrams (trace : List Event) : List (List UInt8) :=
  (sentFrames trace).filterMap Frame.gram?

/-- The bytes of frames. -/
def wireOf (frs : List Frame) : List UInt8 := frs.flatMap Frame.wire

/-- The frames of a connection, once it has sent its transport parameters. -/
def Frame.Ordinary : Frame → Prop
  | .qxPing fr => fr.type = FrameType.qxPingResponse
  | .maxStreams fr => fr.type = FrameType.maxStreamsBidi ∨ fr.type = FrameType.maxStreamsUni
  | .datagram fr => fr.type = FrameType.datagramLen
  | .qxTransportParameters _ | .padding _ | .streamsBlocked _ | .connectionClose _ => False
  | _ => True

/-- What is logged by a connection that writes. -/
def Event.Outward : Event → Prop
  | .txFr fr => fr.Ordinary
  | .accepted .. => True
  | e => e.isQuiet = true

instance : Kind Event.Outward := ⟨fun {e} h => by cases e <;> first | exact h | cases h⟩

/-- The frame has data of the application. -/
def Frame.hasData : Frame → Bool
  | .stream _ | .datagram _ => true
  | _ => false

@[simp] theorem sentFrames_nil : sentFrames [] = [] := rfl

/-- Frames are encoded one after another. -/
theorem sentFrames_append (l m : List Event) :
    sentFrames (l ++ m) = sentFrames l ++ sentFrames m := List.filterMap_append

/-- Datagrams are sent one after another. -/
theorem sentGrams_append (l m : List Event) :
    sentGrams (l ++ m) = sentGrams l ++ sentGrams m := by
  rw [sentGrams, sentFrames_append, List.filterMap_append]
  rfl

@[simp] theorem wireOf_nil : wireOf [] = [] := rfl

/-- The bytes of frames follow each other. -/
theorem wireOf_append (l m : List Frame) : wireOf (l ++ m) = wireOf l ++ wireOf m :=
  List.flatMap_append

/-- Events of the kind `K` were logged in between, and the record grew by the frames
    encoded. Whether a datagram is said to be accepted depends on datagrams alone. -/
structure Emits (K : Event → Prop) (st t : St) : Prop where
  frames : ∃ evs, t.trace = st.trace ++ evs ∧
    t.conn.tx.qre.frames = st.conn.tx.qre.frames ++ wireOf (sentFrames evs) ∧
    (∀ fr ∈ sentFrames evs, fr.Encodable) ∧ ∀ e ∈ evs, K e
  room : st.conn.tx.qre.frames.length ≤ st.conn.tx.qre.buflen - qreRecordlenSize →
    t.conn.tx.qre.frames.length ≤ t.conn.tx.qre.buflen - qreRecordlenSize
  started : t.conn.tx.qre.started = st.conn.tx.qre.started
  buflen : t.conn.tx.qre.buflen = st.conn.tx.qre.buflen
  server : t.conn.server = st.conn.server
  localParams : t.conn.localParams = st.conn.localParams
  sent : t.conn.flags.qxTransportParametersSent = st.conn.flags.qxTransportParametersSent
  paccepted : sentGrams t.trace = sentGrams st.trace → t.paccepted = st.paccepted

/-- A frame was encoded if it was logged. -/
theorem mem_sentFrames {evs : List Event} {fr : Frame} :
    fr ∈ sentFrames evs ↔ .txFr fr ∈ evs := by
  refine List.mem_filterMap.trans ⟨?_, fun h => ⟨_, h, rfl⟩⟩
  rintro ⟨e, he, hsent⟩
  cases e <;> cases hsent
  exact he

/-- Nothing is logged in no step. -/
theorem Emits.refl (st : St) : Emits K st st :=
  ⟨⟨[], by simp, by simp, by simp, by simp⟩, fun h => h, rfl, rfl, rfl, rfl, rfl, fun _ => rfl⟩

instance : IsPreorder St (Emits K) where
  refl := Emits.refl
  trans a b d h h' := by
    obtain ⟨l, hl, hframes, henc, hall⟩ := h.frames
    obtain ⟨m, hm, hframes', henc', hall'⟩ := h'.frames
    refine ⟨⟨l ++ m, ?_, ?_, ?_, ?_⟩, fun hr => h'.room (h.room hr),
      h'.started.trans h.started, h'.buflen.trans h.buflen,
      h'.server.trans h.server, h'.localParams.trans h.localParams, h'.sent.trans h.sent,
      fun hgrams => ?_⟩
    · rw [hm, hl, List.append_assoc]
    · rw [hframes', hframes, sentFrames_append, wireOf_append, List.append_assoc]
    · intro fr hfr
      rw [sentFrames_append] at hfr
      exact (List.mem_append.1 hfr).elim (henc fr) (henc' fr)
    · intro e he
      exact (List.mem_append.1 he).elim (hall e) (hall' e)
    · -- no datagram was sent in either step
      have hlen := congrArg List.length hgrams
      rw [hm, hl, sentGrams_append, sentGrams_append, List.length_append, List.length_append]
        at hlen
      have hl₀ : sentGrams l = [] := List.length_eq_zero_iff.1 (by omega)
      have hm₀ : sentGrams m = [] := List.length_eq_zero_iff.1 (by omega)
      refine (h'.paccepted ?_).trans (h.paccepted ?_)
      · rw [hm, sentGrams_append, hm₀, List.append_nil]
      · rw [hl, sentGrams_append, hl₀, List.append_nil]

/-- What is logged in two steps is of the kind, and the record grows by the frames of
    both. -/
theorem Emits.trans {u : St} (h : Emits K st t) (h' : Emits K t u) : Emits K st u :=
  trans_of (Emits K) h h'

/-- Only quiet events were logged. -/
abbrev Calm (st t : St) : Prop := Emits (fun e => e.isQuiet = true) st t

/-- Nothing was encoded. -/
abbrev Hears (st t : St) : Prop := Emits (fun e => e.isInward = true) st t

/-- The rest of the connection may change. -/
theorem Emits.of_conn {conn : Conn} (hq : conn.tx.qre = st.conn.tx.qre)
    (hs : conn.server = st.conn.server) (hp : conn.localParams = st.conn.localParams)
    (hf : conn.flags.qxTransportParametersSent = st.conn.flags.qxTransportParametersSent) :
    Emits K st { st with conn := conn } :=
  ⟨⟨[], by simp, by simp [hq], by simp, by simp⟩, by rw [hq]; exact fun h => h, by rw [hq],
    by rw [hq], hs, hp, hf, fun _ => rfl⟩

/-- An event of the kind is logged that is no frame encoded. -/
theorem Emits.emit {e : Event} (hsent : e.sent? = none) (he : K e) :
    Emits K st { st with trace := st.trace ++ [e] } :=
  ⟨⟨[e], rfl, by simp [sentFrames, hsent], by simp [sentFrames, hsent], by simpa using he⟩,
    fun h => h, rfl, rfl, rfl, rfl, rfl, fun _ => rfl⟩

/-- The kind may be a wider one. -/
theorem Emits.mono {K' : Event → Prop} (h : Emits K st t) (hK : ∀ e, K e → K' e) :
    Emits K' st t := by
  obtain ⟨evs, htrace, hframes, henc, hall⟩ := h.frames
  exact { h with frames := ⟨evs, htrace, hframes, henc, fun e he => hK e (hall e he)⟩ }

/-- What a call returns to its caller has no part in it. -/
theorem Emits.outputs {closed : List Strm} {pdatalen : Option ℕ} :
    Emits K st { st with closed := closed, pdatalen := pdatalen } :=
  ⟨⟨[], by simp, by simp, by simp, by simp⟩, fun h => h, rfl, rfl, rfl, rfl, rfl, fun _ => rfl⟩

/-- A frame is encoded and logged. -/
theorem Emits.encode {fr : Frame} (henc : fr.Encodable)
    (hroom : fr.wire.length ≤ st.conn.tx.qre.left) (hfr : K (.txFr fr)) :
    Emits K st { st with
      conn.tx.qre.frames := st.conn.tx.qre.frames ++ fr.wire
      trace := st.trace ++ [.txFr fr] } := by
  refine ⟨⟨[.txFr fr], rfl, ?_, ?_, ?_⟩, fun hr => ?_, rfl, rfl, rfl, rfl, rfl, fun _ => rfl⟩
  · simp [sentFrames, Event.sent?, wireOf]
  · simpa [sentFrames, Event.sent?] using henc
  · simpa using hfr
  · rw [Qre.left] at hroom
    change (st.conn.tx.qre.frames ++ fr.wire).length ≤ st.conn.tx.qre.buflen - qreRecordlenSize
    rw [List.length_append]
    omega

/-! ## Primitives -/

/-- A computation that moves the state along `Emits`. -/
abbrev MovesEmits (K : Event → Prop) (env : Env) (x : M α) : Prop :=
  Moves (Emits K) (fun _ => True) env x

/-- A failure logs nothing. -/
theorem movesEmits_throw (e : Err) : MovesEmits K env (throw e : M α) := .throw trivial

/-- A change of the connection that leaves alone what `Emits` is about. -/
theorem movesEmits_modifyConn {f : Conn → Conn}
    (h : ∀ st : St, Emits K st { st with conn := f st.conn }) : MovesEmits K env (modifyConn f) := h

/-- An event is logged that is no frame encoded. -/
theorem movesEmits_log {e : Event} (hsent : e.sent? = none) (he : K e) :
    MovesEmits K env (emit e) := fun _ => .emit hsent he

/-- A quiet event is logged. -/
theorem movesEmits_emit [Kind K] {e : Event} (he : e.isQuiet = true) :
    MovesEmits K env (emit e) := by
  refine movesEmits_log ?_ (Kind.quiet he)
  cases e <;> first
    | rfl
    | cases he

/-- A stream is looked up. -/
theorem movesEmits_deref : MovesEmits K env (deref id) := by
  refine Moves.bind .get fun st => ?_
  split
  exacts [.pure _, movesEmits_throw _]

/-- A change of a stream. -/
theorem movesEmits_modifyStrm (f : Strm → Strm) : MovesEmits K env (modifyStrm id f) :=
  movesEmits_deref.bind fun _ => movesEmits_modifyConn fun _ => .of_conn rfl rfl rfl rfl

/-- Memory is allocated. -/
theorem movesEmits_alloc (a : Alloc) : MovesEmits K env (alloc a) :=
  Moves.bind .read fun _ => Moves.bind .get fun _ => .ite (movesEmits_throw _) (.pure _)

/-- An assertion logs nothing. -/
theorem movesEmits_assertThat (a : Assertion) (p : Prop) [Decidable p] :
    MovesEmits K env (assertThat a p) := .ite (.pure _) (movesEmits_throw _)

/-- A pure computation logs nothing. -/
theorem movesEmits_ofExcept (x : Except Err α) : MovesEmits K env (Exec.ofExcept x) :=
  .ofExcept fun _ _ => trivial

/-- A frame is encoded, and logged if there is room for it. -/
theorem movesEmits_encodeFrame {fr : Frame} (hfr : K (.txFr fr)) :
    MovesEmits K env (encodeFrame fr) := by
  intro st
  refine wp_encodeFrame_of (fun q hq => ?_) fun _ _ => ⟨.refl st, trivial⟩
  obtain ⟨henc, hroom, rfl⟩ := Qre.encodeFrame_iff.1 hq
  exact .encode henc hroom hfr

/-- The first stream of the queue is looked up. -/
theorem movesEmits_connTxStrmqTop : MovesEmits K env connTxStrmqTop := by
  refine Moves.bind .get fun st => ?_
  split
  exacts [.pure _, movesEmits_throw _]

/-- The first stream leaves the queue. -/
theorem movesEmits_connTxStrmqPop : MovesEmits K env connTxStrmqPop :=
  movesEmits_connTxStrmqTop.bind fun _ => movesEmits_deref.bind fun _ =>
    movesEmits_modifyConn fun _ => .of_conn rfl rfl rfl rfl

/-- A stream enters the queue. -/
theorem movesEmits_connTxStrmqPushIfNot : MovesEmits K env (connTxStrmqPushIfNot id) := by
  refine movesEmits_deref.bind fun _ => Moves.bind .get fun _ => .ite (.pure _) ?_
  refine Moves.bind (Moves.bind .get fun _ => ?_) fun _ => ?_
  · split
    exacts [movesEmits_deref.bind fun _ => .pure _, .pure _]
  · exact (movesEmits_modifyStrm _).bind fun _ => (movesEmits_alloc _).bind fun _ =>
      movesEmits_modifyConn fun _ => .of_conn rfl rfl rfl rfl

/-! ## Where no callback runs -/

/-- `conn_create_stream` -/
theorem movesEmits_connCreateStream : MovesEmits K env (connCreateStream id) :=
  (movesEmits_alloc _).bind fun _ => (movesEmits_alloc _).bind fun _ => Moves.bind .get fun _ =>
    (movesEmits_assertThat _ _).bind fun _ =>
      movesEmits_modifyConn fun _ => .of_conn rfl rfl rfl rfl

/-- `conn_extend_max_offset` -/
theorem movesEmits_connExtendMaxOffset (datalen : ℕ) :
    MovesEmits K env (connExtendMaxOffset datalen) :=
  movesEmits_modifyConn fun _ => .of_conn rfl rfl rfl rfl

/-- The identifiers of the peer are noted. -/
theorem Emits.setIdtr (idtr : Idtr) :
    Emits K st { st with conn := st.conn.setIdtr id idtr } := by
  unfold Conn.setIdtr
  split <;> exact .of_conn rfl rfl rfl rfl

/-- An identifier of the peer is used. -/
theorem movesEmits_connIdtrOpen : MovesEmits K env (connIdtrOpen id) := by
  refine Moves.bind .get fun _ => ?_
  split
  · exact (movesEmits_alloc _).bind fun _ =>
      (movesEmits_modifyConn fun _ => .setIdtr _).bind fun _ => .pure _
  · exact movesEmits_throw _
  · exact (movesEmits_assertThat _ _).bind fun _ => .pure _

/-- `conn_drain_glitch` -/
theorem movesEmits_connDrainGlitch (ts : ℕ) : MovesEmits K env (connDrainGlitch ts) :=
  Moves.bind .get fun _ => (movesEmits_ofExcept _).bind fun _ =>
    (movesEmits_modifyConn fun _ => .of_conn rfl rfl rfl rfl).bind fun _ =>
      .ite (movesEmits_throw _) (.pure _)

/-- Nothing is encoded in answer to STREAM_DATA_BLOCKED. -/
theorem movesEmits_connRecvStreamDataBlocked (fr : FrameStreamDataBlocked) :
    MovesEmits K env (connRecvStreamDataBlocked fr) := by
  refine Moves.bind .get fun _ => (movesEmits_ofExcept _).bind fun _ => ?_
  split
  · exact .ite (movesEmits_throw _) <| (movesEmits_ofExcept _).bind fun _ =>
      .ite (movesEmits_throw _) (.ite (movesEmits_throw _) (.pure _))
  · exact .ite (movesEmits_throw _) (.pure _)

/-- A QX_PING is only noted, to be answered later. -/
theorem movesEmits_connRecvQxPing (fr : FrameQxPing) (ts : ℕ) :
    MovesEmits K env (connRecvQxPing fr ts) :=
  Moves.bind .get fun _ => .ite (.ite (movesEmits_throw _) (.pure _)) <|
    .ite (movesEmits_throw _) <| (movesEmits_connDrainGlitch _).bind fun _ =>
      movesEmits_modifyConn fun _ => .of_conn rfl rfl rfl rfl

/-- A frame that does not fit is left for later. -/
theorem movesEmits_isNobuf {x : M Unit} (hx : MovesEmits K env x) :
    MovesEmits K env (isNobuf x) :=
  .tryCatch (hx.bind fun _ => .pure _) fun _ _ => .ite (.pure _) (movesEmits_throw _)

/-- A frame is encoded, and the connection told so. -/
theorem movesEmits_encode {fr : Frame} (hfr : K (.txFr fr)) {f : Conn → Conn}
    (h : ∀ st : St, Emits K st { st with conn := f st.conn }) :
    MovesEmits K env (do encodeFrame fr; modifyConn f) :=
  (movesEmits_encodeFrame hfr).bind fun _ => movesEmits_modifyConn h

section

variable (hK : ∀ fr : Frame, fr.Ordinary → fr.hasData = false → K (.txFr fr))

include hK

/-- DATA_BLOCKED has no data of the application. -/
theorem movesEmits_connWriteDataBlocked : MovesEmits K env connWriteDataBlocked :=
  Moves.bind .get fun _ => .ite (.pure _) <| (movesEmits_assertThat _ _).bind fun _ =>
    movesEmits_encode (by exact hK _ (by trivial) rfl)
      (by exact fun _ => .of_conn rfl rfl rfl rfl)

/-- STREAM_DATA_BLOCKED has no data of the application. -/
theorem movesEmits_connWriteStreamDataBlocked :
    MovesEmits K env (connWriteStreamDataBlocked id) :=
  movesEmits_deref.bind fun _ => .ite (.pure _) <| (movesEmits_assertThat _ _).bind fun _ =>
    (movesEmits_encodeFrame (by exact hK _ (by trivial) rfl)).bind fun _ => movesEmits_modifyStrm _

/-- The frames that say that data is held back. -/
theorem movesEmits_writeBlocked : MovesEmits K env (writeBlocked id) :=
  .tryCatch ((movesEmits_connWriteDataBlocked hK).bind fun _ =>
    (movesEmits_connWriteStreamDataBlocked hK)) fun _ _ =>
      .ite (movesEmits_throw _) <| (movesEmits_assertThat _ _).bind fun _ =>
        (movesEmits_modifyStrm _).bind fun _ => movesEmits_connTxStrmqPushIfNot

/-- MAX_STREAM_DATA has no data of the application. -/
theorem movesEmits_writeMaxStreamData : MovesEmits K env (writeMaxStreamData id) :=
  movesEmits_deref.bind fun _ => .when <|
    (movesEmits_encodeFrame (by exact hK _ (by trivial) rfl)).bind fun _ => movesEmits_modifyStrm _

/-- STREAM_DATA_BLOCKED of a scheduled stream. -/
theorem movesEmits_writeStreamDataBlocked :
    MovesEmits K env (writeStreamDataBlocked id) :=
  movesEmits_deref.bind fun _ => .when <|
    (Moves.when <| (movesEmits_connWriteDataBlocked hK).bind fun _ =>
      (movesEmits_connWriteStreamDataBlocked hK)).bind fun _ => movesEmits_modifyStrm _

end

/-! ## The calls of the application -/

variable [Kind K]

omit [Kind K] in
/-- To open a stream encodes nothing. -/
theorem movesEmits_connOpenBidiStream : MovesEmits K env connOpenBidiStream :=
  Moves.bind .get fun _ => .ite (movesEmits_throw _) <| Moves.bind .get fun _ =>
    movesEmits_connCreateStream.bind fun _ =>
      (movesEmits_modifyConn fun _ => .of_conn rfl rfl rfl rfl).bind fun _ => .pure _

omit [Kind K] in
/-- To open a stream encodes nothing. -/
theorem movesEmits_connOpenUniStream : MovesEmits K env connOpenUniStream :=
  Moves.bind .get fun _ => .ite (movesEmits_throw _) <| Moves.bind .get fun _ =>
    movesEmits_connCreateStream.bind fun _ =>
      (movesEmits_modifyConn fun _ => .of_conn rfl rfl rfl rfl).bind fun _ => .pure _

/-- A reset is only scheduled. -/
theorem movesEmits_connResetStream (appErrorCode : ℕ) :
    MovesEmits K env (connResetStream id appErrorCode) :=
  (movesEmits_modifyStrm _).bind fun _ => (movesEmits_emit rfl).bind fun _ =>
    movesEmits_connTxStrmqPushIfNot

/-- The end of writing has a reset scheduled. -/
theorem movesEmits_shutdownStreamWrite (appErrorCode : ℕ) :
    MovesEmits K env (shutdownStreamWrite id appErrorCode) :=
  movesEmits_deref.bind fun _ => .ite (.pure _) <| (movesEmits_modifyStrm _).bind fun _ =>
    movesEmits_connResetStream _

/-- The end of reading has a STOP_SENDING scheduled. -/
theorem movesEmits_shutdownStreamRead (appErrorCode : ℕ) :
    MovesEmits K env (shutdownStreamRead id appErrorCode) :=
  movesEmits_deref.bind fun _ => .ite (.pure _) <| (movesEmits_modifyStrm _).bind fun _ =>
    (movesEmits_modifyStrm _).bind fun _ => (movesEmits_emit rfl).bind fun _ =>
      movesEmits_connTxStrmqPushIfNot

/-- The calls of the application only schedule what is sent later. -/
theorem movesEmits_connApply (call : AppCall) : MovesEmits K env (connApply call) := by
  cases call with
  | openBidiStream => exact movesEmits_connOpenBidiStream.bind fun _ => movesEmits_emit rfl
  | openUniStream => exact movesEmits_connOpenUniStream.bind fun _ => movesEmits_emit rfl
  | shutdownStream streamId appErrorCode =>
    exact Moves.bind .get fun _ => .ite (.pure _) <|
      (Moves.when (movesEmits_shutdownStreamRead _)).bind fun _ =>
        .when (movesEmits_shutdownStreamWrite _)
  | shutdownStreamWrite streamId appErrorCode =>
    exact Moves.bind .get fun _ => .ite (movesEmits_throw _) <| .ite (.pure _)
      (movesEmits_shutdownStreamWrite _)
  | shutdownStreamRead streamId appErrorCode =>
    exact Moves.bind .get fun _ => .ite (movesEmits_throw _) <| .ite (.pure _)
      (movesEmits_shutdownStreamRead _)
  | extendMaxStreamOffset streamId datalen =>
    exact Moves.bind .get fun _ => .ite (movesEmits_throw _) <| .ite (.pure _) <|
      (movesEmits_modifyStrm _).bind fun _ => movesEmits_deref.bind fun _ =>
        .when movesEmits_connTxStrmqPushIfNot
  | extendMaxOffset datalen =>
    exact (movesEmits_emit rfl).bind fun _ => movesEmits_connExtendMaxOffset _
  | extendMaxStreamsBidi n =>
    exact (movesEmits_emit rfl).bind fun _ =>
      movesEmits_modifyConn fun _ => .of_conn rfl rfl rfl rfl
  | extendMaxStreamsUni n =>
    exact (movesEmits_emit rfl).bind fun _ =>
      movesEmits_modifyConn fun _ => .of_conn rfl rfl rfl rfl

/-- The calls of a callback only schedule what is sent later. -/
theorem movesEmits_connApplyWithin (call : AppCall) : MovesEmits K env (connApplyWithin call) :=
  .tryCatch (movesEmits_connApply call) fun _ _ =>
    .ite (movesEmits_throw _) (.ite (movesEmits_throw _) (.pure _))

/-- A callback encodes nothing, whatever it calls. -/
theorem movesEmits_callback_of {e : Event} (hsent : e.sent? = none) (he : K e) :
    MovesEmits K env (callback e) := by
  have hcalls (calls : List AppCall) : MovesEmits K env (calls.forM connApplyWithin) := by
    induction calls with
    | nil => exact .pure _
    | cons call calls ih => exact (movesEmits_connApplyWithin call).bind fun _ => ih
  exact Moves.bind .read fun _ => Moves.bind .get fun _ => (movesEmits_log hsent he).bind fun _ =>
    (hcalls _).bind fun _ => .ite (movesEmits_throw _) (.pure _)

/-- A callback whose event is quiet. -/
theorem movesEmits_callback {e : Event} (he : e.isQuiet = true) :
    MovesEmits K env (callback e) := by
  refine movesEmits_callback_of ?_ (Kind.quiet he)
  cases e <;> first
    | rfl
    | cases he

/-- A stream is closed and the application told so. -/
theorem movesEmits_connCloseStream : MovesEmits K env (connCloseStream id) := by
  refine movesEmits_deref.bind fun _ => (movesEmits_callback rfl).bind fun _ => ?_
  refine movesEmits_deref.bind fun _ => Moves.bind (Moves.modify fun _ => .outputs) fun _ => ?_
  refine Moves.bind .get fun _ => (movesEmits_modifyConn fun _ => ?_).bind fun _ => ?_
  · exact .of_conn rfl rfl rfl rfl
  split
  · exact .pure _
  · exact (movesEmits_assertThat _ _).bind fun _ =>
      movesEmits_modifyConn fun _ => .of_conn rfl rfl rfl rfl

/-- A stream that both sides have ended is closed. -/
theorem movesEmits_connCloseStreamIfShutRdwr :
    MovesEmits K env (connCloseStreamIfShutRdwr id) :=
  movesEmits_deref.bind fun _ => .ite (.pure _) movesEmits_connCloseStream

/-! ## Received frames -/

/-- A stream of the peer is accepted and the application told so. -/
theorem movesEmits_connAcceptStream : MovesEmits K env (connAcceptStream id) :=
  movesEmits_connCreateStream.bind fun _ => movesEmits_callback rfl

/-- Nothing is encoded in answer to STREAM. -/
theorem movesEmits_connRecvStream (fr : FrameStream) : MovesEmits K env (connRecvStream fr) := by
  have hrecv : MovesEmits K env (recvStream fr.streamId fr) :=
    movesEmits_deref.bind fun _ => .ite (movesEmits_throw _) <| Moves.bind .get fun _ =>
      .ite (movesEmits_throw _) <|
        (movesEmits_modifyConn fun _ => .of_conn rfl rfl rfl rfl).bind fun _ =>
          (movesEmits_modifyStrm _).bind fun _ => .when <|
            (Moves.when <| (movesEmits_modifyStrm _).bind fun _ => movesEmits_callback rfl).bind
              fun _ => movesEmits_connCloseStreamIfShutRdwr
  exact Moves.bind .get fun _ => (movesEmits_ofExcept _).bind fun _ =>
    .ite (movesEmits_throw _) <| (Moves.when <| .ite (movesEmits_throw _) <|
      movesEmits_connIdtrOpen.bind fun _ => .ite (movesEmits_throw _)
        movesEmits_connAcceptStream).bind fun _ => hrecv

/-- The end of the data of a stream. -/
theorem movesEmits_recvFin (fin : Bool) : MovesEmits K env (Exec.when (fin = true) do
    modifyStrm id fun s => { s with flags.shutRd := true }
    connCloseStreamIfShutRdwr id) :=
  .when <| (movesEmits_modifyStrm _).bind fun _ => movesEmits_connCloseStreamIfShutRdwr

/-- Nothing is encoded in answer to RESET_STREAM. -/
theorem movesEmits_connRecvResetStream (fr : FrameResetStream) :
    MovesEmits K env (connRecvResetStream fr) := by
  have hrecv : MovesEmits K env (recvResetStream fr.streamId fr) :=
    movesEmits_deref.bind fun _ => .ite (movesEmits_throw _) <| .ite (movesEmits_throw _) <|
      (movesEmits_callback rfl).bind fun _ => (movesEmits_modifyStrm _).bind fun _ =>
        movesEmits_connCloseStreamIfShutRdwr
  exact Moves.bind .get fun _ => (movesEmits_ofExcept _).bind fun _ =>
    (Moves.when <| .ite (movesEmits_throw _) <| movesEmits_connIdtrOpen.bind fun _ =>
      .ite (movesEmits_throw _) <| .ite (movesEmits_throw _)
        movesEmits_connAcceptStream).bind fun _ => hrecv

/-- STOP_SENDING has a reset scheduled. -/
theorem movesEmits_connRecvStopSending (fr : FrameStopSending) (ts : ℕ) :
    MovesEmits K env (connRecvStopSending fr ts) := by
  have hrecv : MovesEmits K env (recvStopSending fr.streamId fr ts) :=
    movesEmits_deref.bind fun _ => .ite (movesEmits_connDrainGlitch _) <|
      (movesEmits_callback rfl).bind fun _ => movesEmits_deref.bind fun _ =>
        (Moves.when <| (movesEmits_modifyStrm _).bind fun _ =>
          movesEmits_connResetStream _).bind fun _ => movesEmits_modifyStrm _
  exact Moves.bind .get fun _ => (movesEmits_ofExcept _).bind fun _ =>
    .ite (.ite (movesEmits_connDrainGlitch _) <| movesEmits_connIdtrOpen.bind fun _ =>
      .ite (movesEmits_connDrainGlitch _) <| movesEmits_connAcceptStream.bind fun _ => hrecv) hrecv

/-- Nothing is encoded in answer to MAX_STREAM_DATA. -/
theorem movesEmits_connRecvMaxStreamData (fr : FrameMaxStreamData) (ts : ℕ) :
    MovesEmits K env (connRecvMaxStreamData fr ts) := by
  have hrecv : MovesEmits K env (recvMaxStreamData fr.streamId fr ts) :=
    movesEmits_deref.bind fun _ => .ite (movesEmits_throw _) <|
      (movesEmits_modifyStrm _).bind fun _ => movesEmits_deref.bind fun _ =>
        .ite (movesEmits_connDrainGlitch _) (movesEmits_callback rfl)
  exact Moves.bind .get fun _ => (movesEmits_ofExcept _).bind fun _ =>
    .ite (.ite (movesEmits_connDrainGlitch _) <| movesEmits_connIdtrOpen.bind fun _ =>
      .ite (movesEmits_connDrainGlitch _) <| movesEmits_connAcceptStream.bind fun _ => hrecv) hrecv

/-- Nothing is encoded in answer to MAX_STREAMS. -/
theorem movesEmits_connRecvMaxStreams (fr : FrameMaxStreams) :
    MovesEmits K env (connRecvMaxStreams fr) :=
  .ite (movesEmits_throw _) <| .ite
    (Moves.bind .get fun _ => .ite (movesEmits_throw _) <|
      (movesEmits_modifyConn fun _ => .of_conn rfl rfl rfl rfl).bind fun _ =>
        movesEmits_callback rfl)
    (Moves.bind .get fun _ => .ite (movesEmits_throw _) <|
      (movesEmits_modifyConn fun _ => .of_conn rfl rfl rfl rfl).bind fun _ =>
        movesEmits_callback rfl)

/-- No frame is encoded by the handler of another. -/
theorem movesEmits_connRecvFrame (ts : ℕ) (fr : Frame) :
    MovesEmits K env (connRecvFrame ts fr) := by
  cases fr with
  | qxPing fr => exact movesEmits_connRecvQxPing _ _
  | stream fr => exact movesEmits_connRecvStream _
  | resetStream fr => exact movesEmits_connRecvResetStream _
  | stopSending fr => exact movesEmits_connRecvStopSending _ _
  | maxData fr =>
    exact Moves.bind .get fun _ => .ite (movesEmits_throw _) <|
      movesEmits_modifyConn fun _ => .of_conn rfl rfl rfl rfl
  | maxStreamData fr => exact movesEmits_connRecvMaxStreamData _ _
  | maxStreams fr => exact movesEmits_connRecvMaxStreams _
  | dataBlocked fr => exact Moves.bind .get fun _ => .ite (movesEmits_throw _) (.pure _)
  | streamDataBlocked fr => exact movesEmits_connRecvStreamDataBlocked _
  | streamsBlocked fr =>
    exact Moves.bind .get fun _ => .ite (.ite (movesEmits_throw _) (.pure _))
      (.ite (movesEmits_throw _) (.pure _))
  | qxTransportParameters | padding | connectionClose | datagram => exact .pure _

/-- A stream gets the limit that the peer set for its kind. -/
theorem movesEmits_setMaxStreamOffset : MovesEmits K env (setMaxStreamOffset id) := by
  refine Moves.bind .get fun _ => ?_
  dsimp only
  split
  · exact .pure _
  · exact (movesEmits_assertThat _ _).bind fun _ => (movesEmits_assertThat _ _).bind fun _ =>
      .when <| (movesEmits_modifyStrm _).bind fun _ => movesEmits_deref.bind fun _ =>
        .ite (.pure _) (movesEmits_callback rfl)

/-- The parameters are logged once they are decoded. -/
theorem wp_connRecvTransportParams_calm (data : List UInt8) :
    wp (connRecvTransportParams data)
      (fun _ t => ∃ params, transportParamsDecode data = .ok params ∧
        Calm { st with trace := st.trace ++ [.rxFr (.qxTransportParameters params)] } t)
      (fun _ _ => True) env st := by
  have hstrms (ids : List ℕ) : MovesEmits (fun e => e.isQuiet = true) env
      (ids.forM setMaxStreamOffset) := by
    induction ids with
    | nil => exact .pure _
    | cons id ids ih => exact movesEmits_setMaxStreamOffset.bind fun _ => ih
  rw [connRecvTransportParams, wp_bind, wp_get', wp_bind, wp_ofExcept]
  cases hdec : transportParamsDecode data with
  | error err => trivial
  | ok params =>
    dsimp only
    rw [wp_bind, wp_modifyConn, wp_bind, wp_emit]
    have hrest {x : M Unit} {conn : Conn} (hx : MovesEmits (fun e => e.isQuiet = true) env x)
        (hq : conn.tx.qre = st.conn.tx.qre) (hs : conn.server = st.conn.server)
        (hp : conn.localParams = st.conn.localParams)
        (hf : conn.flags.qxTransportParametersSent = st.conn.flags.qxTransportParametersSent) :
        wp x (fun _ t => ∃ params', Except.ok params = (.ok params' : Except Err _) ∧
            Calm { st with trace := st.trace ++ [.rxFr (.qxTransportParameters params')] } t)
          (fun _ _ => True) env
          { st with
            conn := conn
            trace := st.trace ++ [.rxFr (.qxTransportParameters params)] } := by
      have hconn : Calm
          { st with trace := st.trace ++ [.rxFr (.qxTransportParameters params)] }
          { st with
            conn := conn
            trace := st.trace ++ [.rxFr (.qxTransportParameters params)] } := .of_conn hq hs hp hf
      exact wp_mono (hx _) (fun _ t ht => ⟨params, rfl, hconn.trans ht⟩) fun _ _ _ => trivial
    refine hrest ?_ rfl rfl rfl rfl
    refine .ite (movesEmits_throw _) (Moves.bind (.when ?_) fun _ => ?_)
    · exact Moves.bind .get fun _ => (movesEmits_assertThat _ _).bind fun _ =>
        .ite (movesEmits_throw _) (.pure _)
    refine (movesEmits_modifyConn fun _ => ?_).bind fun _ => ?_
    · exact .of_conn rfl rfl rfl rfl
    refine Moves.bind (.when <| Moves.bind .read fun _ => Moves.bind .get fun _ => hstrms _)
      fun _ => (movesEmits_callback rfl).bind fun _ => Moves.bind .get fun _ => ?_
    exact Moves.bind (.when (movesEmits_callback rfl)) fun _ => Moves.bind .get fun _ =>
      .when (movesEmits_callback rfl)

/-! ## What is logged of an act -/

/-- What the connection logs of an act, before all that is quiet. -/
inductive Act.Logs : Act → List Event → Prop
  | nothing : Logs .nothing []
  | seen : Logs .seen []
  | alloc : Logs .alloc []
  | log (fr : Frame) : Logs (.log fr) [.rxFr fr]
  | frame (fr : Frame) : Logs (.frame fr) [.rxFr fr]
  | params {data : List UInt8} {params : TransportParams}
    (h : transportParamsDecode data = .ok params) :
    Logs (.params data) [.rxFr (.qxTransportParameters params)]
  | piece (streamId : ℕ) (fin : Bool) (left offset : ℕ) (data : List UInt8) :
    Logs (.piece streamId fin left data) [.recvStreamData fin streamId offset data]
  | skip (streamId : ℕ) (fin : Bool) (left : ℕ) (data : List UInt8) :
    Logs (.piece streamId fin left data) [.discarded streamId data.length]
  | datagram (fin : Bool) (dgramlen offset : ℕ) (data : List UInt8) :
    Logs (.datagram fin dgramlen offset data) [.recvDatagram fin dgramlen offset data]
  | emptyDatagram (fr : FrameDatagram) :
    Logs (.emptyDatagram fr) [.rxFr (.datagram fr), .recvDatagram true 0 0 []]

/-- After the event of a callback, only its calls are logged. -/
theorem wp_callback_calm (e : Event) :
    wp (callback e) (fun _ t => Calm { st with trace := st.trace ++ [e] } t) (fun _ _ => True)
      env st := by
  have hcalls (calls : List AppCall) : MovesEmits (fun e => e.isQuiet = true) env
      (calls.forM connApplyWithin) := by
    induction calls with
    | nil => exact .pure _
    | cons call calls ih => exact (movesEmits_connApplyWithin call).bind fun _ => ih
  rw [callback, wp_bind, wp_read, wp_bind, wp_get', wp_bind, wp_emit]
  refine wp_mono (Moves.bind (hcalls _) (fun _ => Moves.ite (movesEmits_throw _) (.pure _)) _)
    (fun _ _ h => h) fun _ _ _ => trivial

/-- No act logs a frame encoded. -/
theorem Act.Logs.isInward {act : Act} {evs : List Event} (h : act.Logs evs) :
    ∀ e ∈ evs, e.isInward = true ∧ e.sent? = none := by
  cases h <;> simp [Event.isInward, Event.sent?]

/-- Each act is logged, and nothing else that is not quiet. -/
theorem perform_emits (ts : ℕ) (act : Act) (st : St) :
    wp (act.perform ts) (fun _ t => ∃ evs, act.Logs evs ∧
      Calm { st with trace := st.trace ++ evs } t)
      (fun _ _ => True) env st := by
  have hquiet {x : M Unit} (hx : MovesEmits (fun e => e.isQuiet = true) env x) {st' : St}
      {evs : List Event} (hst : st' = { st with trace := st.trace ++ evs }) (hact : act.Logs evs) :
      wp x (fun _ t => ∃ evs, act.Logs evs ∧
        Calm { st with trace := st.trace ++ evs } t)
        (fun _ _ => True) env st' := by
    subst hst
    exact wp_mono (hx _) (fun _ t ht => ⟨evs, hact, ht⟩) fun _ _ _ => trivial
  have hnil : st = { st with trace := st.trace ++ [] } := by rw [List.append_nil]
  cases act with
  | nothing => exact hquiet (.pure ()) hnil .nothing
  | seen =>
    refine hquiet (movesEmits_modifyConn
      (f := fun conn => { conn with flags.qxTransportParametersSeen := true }) fun _ => ?_)
      hnil .seen
    exact .of_conn rfl rfl rfl rfl
  | log fr => exact ⟨_, .log fr, .refl _⟩
  | frame fr =>
    rw [Act.perform, wp_bind, wp_emit]
    exact hquiet (movesEmits_connRecvFrame ts fr) rfl (.frame fr)
  | params data =>
    refine wp_mono (wp_connRecvTransportParams_calm data) ?_ fun _ _ h => h
    rintro _ t ⟨params, hdec, ht⟩
    exact ⟨_, .params hdec, ht⟩
  | piece streamId fin left data =>
    rw [Act.perform, wp_bind, wp_get']
    split
    · trivial
    next s hf =>
      rw [connRecvStreamData, wp_bind, wp_deref hf, wp_ite]
      split
      · rw [wp_bind, wp_emit, wp_bind]
        exact hquiet ((movesEmits_connExtendMaxOffset _).bind fun _ => movesEmits_recvFin fin) rfl
          (.skip streamId fin left data)
      · rw [wp_bind]
        refine wp_mono (wp_callback_calm _) (fun _ t ht => ?_) fun _ _ h => h
        refine wp_mono (movesEmits_recvFin (K := fun e => e.isQuiet = true) fin t)
          (fun _ t' ht' => ?_) fun _ _ _ => trivial
        exact ⟨_, .piece streamId fin left _ data, ht.trans ht'⟩
  | datagram fin dgramlen offset data =>
    exact wp_mono (wp_callback_calm _) (fun _ t ht => ⟨_, .datagram .., ht⟩) fun _ _ h => h
  | emptyDatagram fr =>
    rw [Act.perform, wp_bind, wp_emit]
    refine wp_mono (wp_callback_calm _) (fun _ t ht => ⟨_, .emptyDatagram fr, ?_⟩) fun _ _ h => h
    rw [List.append_assoc] at ht
    exact ht
  | alloc => exact hquiet (movesEmits_alloc .buf) hnil .alloc

/-- What is read has the connection encode nothing. -/
theorem perform_hears (ts : ℕ) (act : Act) (st : St) :
    wp (act.perform ts) (fun _ t => Hears st t) (fun _ _ => True) env st := by
  refine wp_mono (perform_emits ts act st) ?_ fun _ _ h => h
  rintro _ t ⟨evs, hlogs, ht⟩
  have hnil : sentFrames evs = [] :=
    List.filterMap_eq_nil_iff.2 fun e he => (hlogs.isInward e he).2
  have hevs : Hears st { st with trace := st.trace ++ evs } :=
    ⟨⟨evs, rfl, by simp [hnil], by simp [hnil], fun e he => (hlogs.isInward e he).1⟩, fun h => h,
      rfl, rfl, rfl, rfl, rfl, fun _ => rfl⟩
  exact hevs.trans (ht.mono fun e he => Kind.quiet (K := fun e => e.isInward = true) he)

/-! ## Control frames -/

/-- The callback that is run before a frame is written. -/
theorem movesEmits_announce {e : Event} (he : e.isQuiet = true) :
    MovesEmits K env (announce e) :=
  Moves.bind .get fun _ => (movesEmits_emit rfl).bind fun _ => movesEmits_callback he

section

variable (hK : ∀ fr : Frame, fr.Ordinary → fr.hasData = false → K (.txFr fr))

include hK

/-- MAX_STREAMS has no data of the application. -/
theorem movesEmits_connWriteMaxStreams : MovesEmits K env connWriteMaxStreams := by
  have hbidi : MovesEmits K env writeMaxStreamsBidi :=
    Moves.bind .get fun _ => .when <| (movesEmits_announce rfl).bind fun _ =>
      Moves.bind .get fun _ =>
        movesEmits_encode (by exact hK _ (by exact .inl rfl) rfl)
          (by exact fun _ => .of_conn rfl rfl rfl rfl)
  have huni : MovesEmits K env writeMaxStreamsUni :=
    Moves.bind .get fun _ => .when <| (movesEmits_announce rfl).bind fun _ =>
      Moves.bind .get fun _ =>
        movesEmits_encode (by exact hK _ (by exact .inr rfl) rfl)
          (by exact fun _ => .of_conn rfl rfl rfl rfl)
  exact hbidi.bind fun _ => huni

/-- RESET_STREAM has no data of the application. -/
theorem movesEmits_writeResetStream : MovesEmits K env (writeResetStream id) :=
  movesEmits_deref.bind fun _ => .ite (.pure _) <|
    (movesEmits_encodeFrame (by exact hK _ (by trivial) rfl)).bind fun _ =>
    (movesEmits_modifyStrm _).bind fun _ => movesEmits_deref.bind fun _ => .ite (.pure _) <|
      movesEmits_connTxStrmqPop.bind fun _ => movesEmits_connCloseStream.bind fun _ => .pure _

/-- STOP_SENDING has no data of the application. -/
theorem movesEmits_writeStopSending : MovesEmits K env (writeStopSending id) :=
  movesEmits_deref.bind fun _ => .when <|
    (Moves.when <| (movesEmits_announce rfl).bind fun _ => movesEmits_deref.bind fun _ =>
      movesEmits_encodeFrame (by exact hK _ (by trivial) rfl)).bind fun _ => movesEmits_modifyStrm _

/-- The frames of the first stream of the queue. -/
theorem movesEmits_writeStrmqTop : MovesEmits K env writeStrmqTop :=
  movesEmits_connTxStrmqTop.bind fun _ => (movesEmits_emit rfl).bind fun _ =>
    (movesEmits_writeResetStream hK).bind fun _ => .ite (.pure _) <|
      (movesEmits_writeStopSending hK).bind fun _ =>
      (movesEmits_writeMaxStreamData hK).bind fun _ =>
      (movesEmits_writeStreamDataBlocked hK).bind fun _ =>
        (movesEmits_emit rfl).bind fun _ => movesEmits_connTxStrmqPop

/-- The frames of the queue, a stream at a time. -/
theorem movesEmits_writeStrmq (n : ℕ) : MovesEmits K env (writeStrmq n) := by
  induction n with
  | zero => exact Moves.bind .get fun _ => .ite (movesEmits_throw _) (.pure _)
  | succ n ih =>
    exact Moves.bind .get fun _ => .ite (.pure _) ((movesEmits_writeStrmqTop hK).bind fun _ => ih)

/-- The control frames of a record. -/
theorem movesEmits_connWriteCtrlFrames : MovesEmits K env connWriteCtrlFrames := by
  have hdata : MovesEmits K env writeMaxData :=
    Moves.bind .get fun _ => .when <|
      movesEmits_encode (by exact hK _ (by trivial) rfl)
        (by exact fun _ => .of_conn rfl rfl rfl rfl)
  have hping : MovesEmits K env writeQxPing :=
    Moves.bind .get fun _ => .when <|
      movesEmits_encode (by exact hK _ (by rfl) rfl)
        (by exact fun _ => .of_conn rfl rfl rfl rfl)
  exact hdata.bind fun _ => hping.bind fun _ => Moves.bind .read fun _ => Moves.bind .get fun _ =>
    (movesEmits_writeStrmq hK _).bind fun _ => (movesEmits_connWriteMaxStreams hK)

end

/-! ## Messages -/

section

variable (hK : ∀ fr : Frame, fr.Ordinary → fr.gram? = none → K (.txFr fr))
  (hdata : ∀ id data fin, K (.accepted id data fin))

include hK

omit [Kind K] in
/-- Frames without data of the application are no datagrams. -/
theorem kind_of_noGram (fr : Frame) (h : fr.Ordinary) (hfr : fr.hasData = false) : K (.txFr fr) :=
  hK fr h (by cases fr <;> first | rfl | cases hfr)

include hdata

/-- The data of a stream, with its STREAM frame and what was accepted. -/
theorem movesEmits_writeStreamData (finFlag : Bool) (datav : Vecs) (ndatalen wdatalen : ℕ) :
    MovesEmits K env (writeStreamData id finFlag datav ndatalen wdatalen) := by
  have hend (fin : Bool) : MovesEmits K env (do
      emit (.accepted id (datav.flatten.take wdatalen) fin)
      modify fun st => { st with pdatalen := some wdatalen }) :=
    (movesEmits_log rfl (hdata _ _ _)).bind fun _ => Moves.modify fun _ => .outputs
  refine movesEmits_deref.bind fun _ => ?_
  refine Moves.bind (.tryCatch (movesEmits_encodeFrame (hK _ (by trivial) rfl)) fun _ _ =>
    movesEmits_throw _) fun _ => (movesEmits_callback rfl).bind fun _ =>
      (movesEmits_modifyStrm _).bind fun _ => ?_
  refine (movesEmits_modifyConn ?_).bind fun _ => ?_
  · exact fun _ => .of_conn rfl rfl rfl rfl
  dsimp only
  exact .ite ((movesEmits_modifyStrm _).bind fun _ =>
      movesEmits_connCloseStreamIfShutRdwr.bind fun _ => hend _)
    ((Moves.when (movesEmits_writeBlocked (kind_of_noGram hK))).bind fun _ => hend _)

/-- The STREAM frame of a call, or the notice that the data is held back. -/
theorem movesEmits_connWriteStreamFrame (finFlag : Bool) (datav : Vecs) :
    MovesEmits K env (connWriteStreamFrame id finFlag datav) := by
  have hnone : MovesEmits K env (writeStreamNoCredit id) :=
    (movesEmits_writeBlocked (kind_of_noGram hK)).bind fun _ => movesEmits_deref.bind fun _ =>
      .ite (movesEmits_throw _) (.pure _)
  refine (movesEmits_emit rfl).bind fun _ => movesEmits_deref.bind fun _ =>
    Moves.bind .get fun _ => .ite hnone <| (movesEmits_ofExcept _).bind fun r => ?_
  cases r with
  | none => exact movesEmits_throw _
  | some _ => exact .ite (movesEmits_throw _) (movesEmits_writeStreamData hK hdata _ _ _ _)

/-- The message of a call with data of a stream. -/
theorem movesEmits_writeVmsg_stream (strm : ℕ) (finFlag : Bool) (data : Vecs) :
    MovesEmits K env (writeVmsg (.stream strm finFlag data)) :=
  (movesEmits_isNobuf (movesEmits_connWriteStreamFrame hK hdata _ _)).bind fun _ =>
    .when <| Moves.bind .get fun _ => .ite (movesEmits_throw _) (.pure _)

end

omit [Kind K] in
/-- A datagram is said to be accepted once its frame is encoded. -/
theorem movesEmits_connWriteDatagramFrame {datav : Vecs}
    (hK : K (.txFr (.datagram ⟨FrameType.datagramLen, datav.flatten.length, datav⟩))) :
    MovesEmits K env (connWriteDatagramFrame datav) := by
  intro st
  rw [connWriteDatagramFrame, wp_bind]
  refine wp_encodeFrame_of (fun q hq => ?_) fun _ _ => ⟨.refl st, trivial⟩
  obtain ⟨henc, hroom, rfl⟩ := Qre.encodeFrame_iff.1 hq
  refine { Emits.encode henc hroom hK with paccepted := fun hgrams => ?_ }
  have hlen := congrArg List.length hgrams
  simp [sentGrams, sentFrames, Event.sent?, Frame.gram?] at hlen

omit [Kind K] in
/-- The message of a call with a datagram. -/
theorem movesEmits_writeVmsg_datagram {datav : Vecs}
    (hK : K (.txFr (.datagram ⟨FrameType.datagramLen, datav.flatten.length, datav⟩))) :
    MovesEmits K env (writeVmsg (.datagram datav)) :=
  (movesEmits_isNobuf (movesEmits_connWriteDatagramFrame hK)).bind fun _ =>
    .when <| Moves.bind .get fun _ => .ite (movesEmits_throw _) (.pure _)

/-- The message of a call, a STREAM or a DATAGRAM frame. -/
theorem movesEmits_writeVmsg (vmsg : Vmsg) : MovesEmits Event.Outward env (writeVmsg vmsg) := by
  cases vmsg with
  | stream strm finFlag data =>
    exact movesEmits_writeVmsg_stream (fun _ h _ => h) (fun _ _ _ => trivial) _ _ _
  | datagram data => exact movesEmits_writeVmsg_datagram rfl

end Dwnx
