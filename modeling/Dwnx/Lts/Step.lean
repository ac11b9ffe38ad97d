import Dwnx.Lib.History
import Dwnx.Lts.Changes
import Dwnx.Wire

/-!
# The endpoint as a transition system

What an endpoint does, one step at a time: a step is what happens between two
moments at which the application may intervene. A configuration (`Cfg`) is the
state of the connection and what a call is in the middle of.

* `StrmStep`: the steps that change one stream, each with what it requires;
* `Step`: all steps. Those by which bytes of the peer come in are labelled.

The transition system allows more than the code does: it says what is needed of
the order of things and no more. If `quiet`, callbacks call nothing.
-/

namespace Dwnx

/-! ## Configurations -/

/-- What a call is in the middle of. -/
inductive Pending
  | idle
  /-- A frame has been logged that has not taken effect. -/
  | received (fr : Frame)
  /-- A STREAM frame has been encoded that is not accounted for. -/
  | sent (streamId len : ℕ) (fin : Bool)
  /-- A direction of the stream has ended, and maybe the stream. -/
  | shut (streamId : ℕ)
  /-- The application has been told that the stream is closed. -/
  | closing (streamId : ℕ)
  /-- The application has been told of a frame that is about to be encoded. -/
  | announced (fr : Frame)

/-- The data of a STREAM frame that is still to be received. -/
structure Body where
  streamId : ℕ
  left : ℕ
  fin : Bool

/-- A configuration: the state, and what of the run the invariants speak of. -/
structure Cfg where
  st : St
  pending : Pending
  body : Option Body
  /-- The stream that a write function is about to write data of. -/
  writing : Option ℕ
  /-- The data of a STREAM frame whose acceptance is not reported yet. -/
  unaccepted : Option (ℕ × List UInt8 × Bool)
  /-- The transport parameters of the peer have been received. -/
  params : Bool
  /-- The records written. -/
  out : List UInt8

namespace Cfg

/-- The connection. -/
abbrev conn (c : Cfg) : Conn := c.st.conn

/-- The history goes on with `l`. -/
def log (c : Cfg) (l : List Event) : Cfg := { c with st.trace := c.st.trace ++ l }

section
variable (c : Cfg) (l : List Event)

@[simp] theorem log_conn : (c.log l).st.conn = c.st.conn := rfl
@[simp] theorem log_trace : (c.log l).st.trace = c.st.trace ++ l := rfl
@[simp] theorem log_closed : (c.log l).st.closed = c.st.closed := rfl
@[simp] theorem log_pending : (c.log l).pending = c.pending := rfl
@[simp] theorem log_body : (c.log l).body = c.body := rfl
@[simp] theorem log_writing : (c.log l).writing = c.writing := rfl
@[simp] theorem log_unaccepted : (c.log l).unaccepted = c.unaccepted := rfl
@[simp] theorem log_params : (c.log l).params = c.params := rfl
@[simp] theorem log_out : (c.log l).out = c.out := rfl

end

/-- The application may call functions; not from a callback, if all is quiet. -/
def Free (c : Cfg) (quiet : Prop) : Prop := quiet → c.pending = .idle ∧ c.writing = none

end Cfg

/-! ## Frames and events -/

/-- The integers of a frame received are varints. -/
def Frame.Bounded : Frame → Prop
  | .qxPing fr => fr.seq ≤ maxVarint
  | .resetStream fr =>
    fr.streamId ≤ maxVarint ∧ fr.appErrorCode ≤ maxVarint ∧ fr.finalSize ≤ maxVarint
  | .stopSending fr => fr.streamId ≤ maxVarint ∧ fr.appErrorCode ≤ maxVarint
  | .stream fr => fr.streamId ≤ maxVarint ∧ fr.offset ≤ maxVarint ∧ fr.len ≤ maxVarint
  | .maxData fr => fr.maxData ≤ maxVarint
  | .maxStreamData fr => fr.streamId ≤ maxVarint ∧ fr.maxStreamData ≤ maxVarint
  | .maxStreams fr => fr.maxStreams ≤ maxVarint
  | .dataBlocked fr => fr.maxData ≤ maxVarint
  | .streamDataBlocked fr => fr.streamId ≤ maxVarint ∧ fr.maxStreamData ≤ maxVarint
  | .streamsBlocked fr => fr.maxStreams ≤ maxVarint
  | _ => True

/-- The stream that a frame is about. -/
def Frame.streamId? : Frame → Option ℕ
  | .resetStream fr => some fr.streamId
  | .stopSending fr => some fr.streamId
  | .stream fr => some fr.streamId
  | .maxStreamData fr => some fr.streamId
  | .streamDataBlocked fr => some fr.streamId
  | _ => none

/-- The frame is sent by the receiver of data. -/
def Frame.ofReceiver : Frame → Bool
  | .stopSending _ => true
  | .maxStreamData _ => true
  | _ => false

/-- The integers of transport parameters are varints. -/
structure TransportParams.Bounded (params : TransportParams) : Prop where
  initialMaxStreamsBidi : params.initialMaxStreamsBidi ≤ maxVarint
  initialMaxStreamsUni : params.initialMaxStreamsUni ≤ maxVarint
  initialMaxStreamDataBidiLocal : params.initialMaxStreamDataBidiLocal ≤ maxVarint
  initialMaxStreamDataBidiRemote : params.initialMaxStreamDataBidiRemote ≤ maxVarint
  initialMaxStreamDataUni : params.initialMaxStreamDataUni ≤ maxVarint
  initialMaxData : params.initialMaxData ≤ maxVarint

/-- What is known of transport parameters that were decoded. -/
structure TransportParams.Decoded (params : TransportParams) : Prop extends params.Bounded where
  maxStreamsBidi : params.initialMaxStreamsBidi ≤ maxStreams
  maxStreamsUni : params.initialMaxStreamsUni ≤ maxStreams

/-- The limit on the data of unidirectional streams is a varint, without which the
    parameters cannot be announced. -/
def TransportParams.UniBounded (params : TransportParams) : Prop :=
  params.initialMaxStreamDataUni ≤ maxVarint

instance (params : TransportParams) : Decidable params.UniBounded :=
  inferInstanceAs (Decidable (_ ≤ _))

/-- No limit is below the one remembered. -/
structure TransportParams.Within (early params : TransportParams) : Prop where
  initialMaxData : early.initialMaxData ≤ params.initialMaxData
  initialMaxStreamDataBidiLocal :
    early.initialMaxStreamDataBidiLocal ≤ params.initialMaxStreamDataBidiLocal
  initialMaxStreamDataBidiRemote :
    early.initialMaxStreamDataBidiRemote ≤ params.initialMaxStreamDataBidiRemote
  initialMaxStreamDataUni : early.initialMaxStreamDataUni ≤ params.initialMaxStreamDataUni
  initialMaxStreamsBidi : early.initialMaxStreamsBidi ≤ params.initialMaxStreamsBidi
  initialMaxStreamsUni : early.initialMaxStreamsUni ≤ params.initialMaxStreamsUni

/-- A frame that has no effect on the connection. -/
def Conn.Ignores (conn : Conn) : Frame → Prop
  | .stopSending fr =>
    (conn.findStream fr.streamId = none ∧
      (conn.localStream fr.streamId = true ∨ (conn.idtr fr.streamId).Opened fr.streamId)) ∨
    ∃ s, conn.findStream fr.streamId = some s ∧ s.flags.stopSendingRecved = true
  | .maxStreamData fr =>
    conn.findStream fr.streamId = none ∧
      (conn.localStream fr.streamId = true ∨ (conn.idtr fr.streamId).Opened fr.streamId)
  | .stream _ => False
  | .resetStream _ => False
  | .maxData _ => False
  | .maxStreams _ => False
  | .qxTransportParameters _ => False
  | .qxPing fr => fr.type ≠ FrameType.qxPingRequest
  | _ => True

/-- The stream that a callback is about. -/
def Event.streamId? : Event → Option ℕ
  | .streamOpen streamId => some streamId
  | .recvStreamData _ streamId _ _ => some streamId
  | .streamClose streamId _ _ => some streamId
  | .streamReset streamId _ _ => some streamId
  | .recvStopSending streamId _ => some streamId
  | .extendMaxStreamData streamId _ => some streamId
  | .streamStopSending streamId _ => some streamId
  | .writeStreamDataOffset streamId _ _ => some streamId
  | _ => none

/-- The events that go with no change of the connection. -/
def Event.Plain : Event → Prop
  | .recvTransportParams _ => True
  | .streamReset .. => True
  | .recvStopSending .. => True
  | .extendMaxStreamData .. => True
  | .extendMaxLocalStreamsBidi _ => True
  | .extendMaxLocalStreamsUni _ => True
  | .writeStreamDataOffset .. => True
  | .recvDatagram .. => True
  | .txFr (.connectionClose _) => True
  | .appCall _ => True
  | .writeDatagram => True
  | .strmqTop _ => True
  | .strmqPop _ => True
  | .writeStreamFrame _ => True
  | _ => False

/-- The events of the application's calls. -/
def Event.ofApp : Event → Bool
  | .opened .. => true
  | .scheduled .. => true
  | .extended .. => true
  | _ => false

/-- The STREAM frame of the stream is being written. -/
def Event.isWriteStream (streamId : ℕ) : Event → Bool
  | .writeStream id => id = streamId
  | _ => false

/-- The loop over the queue comes to the next stream. -/
def Event.isStrmqTop : Event → Bool
  | .strmqTop _ => true
  | _ => false

/-- Data of the stream was accepted. -/
def Event.isAccepted (streamId : ℕ) : Event → Bool
  | .accepted id _ _ => id = streamId
  | _ => false

/-- A RESET_STREAM of the stream has been scheduled since it was last checked,
    at the start of a call to write to it, that its sending side is open. -/
def LateReset (trace : List Event) (streamId : ℕ) : Prop :=
  ∃ code, Event.scheduled true streamId code ∈ since (Event.isWriteStream streamId) trace

/-- A STREAM frame with FIN has been encoded that is not accounted for. -/
def FinInFlight (trace : List Event) (streamId : ℕ) : Prop :=
  ∃ fr, fr.fin = true ∧ fr.streamId = streamId ∧
    Event.txFr (.stream fr) ∈ since (Event.isAccepted streamId) trace

/-- No call writes to a stream reset meanwhile, and none is reset by the callback
    that tells the offset of its FIN. -/
def ResetsInTime (trace : List Event) : Prop :=
  Along (fun pre e =>
    (∀ id, e = .writeStreamFrame id → ¬LateReset pre id) ∧
    ∀ id code, e = .scheduled true id code → ¬FinInFlight pre id) trace

/-- A frame of a stream up to `streamId` has been scheduled since the loop over the
    queue came to the stream that it is at, by the callback for its STOP_SENDING. -/
def Overtaken (trace : List Event) (streamId : ℕ) : Prop :=
  ∃ reset id code, id ≤ streamId ∧
    Event.scheduled reset id code ∈ since Event.isStrmqTop trace

/-- No stream is popped whose STOP_SENDING callback, just before, scheduled a frame
    of the same stream or of one before it. -/
def StopsUndisturbed (trace : List Event) : Prop :=
  Along (fun pre e => ∀ id, e = .strmqPop id → ¬Overtaken pre id) trace

/-! ### Histories by computation -/

/-- The stream whose STREAM frame is about to be written. -/
def Event.writing? : Event → Option ℕ
  | .writeStreamFrame id => some id
  | _ => none

/-- The stream a RESET_STREAM is scheduled for. -/
def Event.reset? : Event → Option ℕ
  | .scheduled true id _ => some id
  | _ => none

/-- The stream that ends with the STREAM frame encoded. -/
def Event.fin? : Event → Option ℕ
  | .txFr (.stream fr) => if fr.fin then some fr.streamId else none
  | _ => none

/-- The stream that is about to be popped. -/
def Event.popping? : Event → Option ℕ
  | .strmqPop id => some id
  | _ => none

/-- The stream a frame is scheduled for. -/
def Event.scheduled? : Event → Option ℕ
  | .scheduled _ id _ => some id
  | _ => none

variable {e : Event} {streamId : ℕ}

/-- The event that says what is being written. -/
theorem Event.writing?_eq_some : e.writing? = some streamId ↔ e = .writeStreamFrame streamId := by
  cases e <;> simp [Event.writing?]

/-- The events that schedule a RESET_STREAM. -/
theorem Event.reset?_eq_some :
    e.reset? = some streamId ↔ ∃ code, e = .scheduled true streamId code := by
  cases e with
  | scheduled reset id code => cases reset <;> simp [Event.reset?]
  | _ => simp [Event.reset?]

/-- The frame that ends a stream. -/
theorem Event.fin?_eq_some : e.fin? = some streamId ↔
    ∃ fr, fr.fin = true ∧ fr.streamId = streamId ∧ e = .txFr (.stream fr) := by
  cases e with
  | txFr fr => cases fr <;> simp [Event.fin?]
  | _ => simp [Event.fin?]

/-- The event that says what is about to be popped. -/
theorem Event.popping?_eq_some : e.popping? = some streamId ↔ e = .strmqPop streamId := by
  cases e <;> simp [Event.popping?]

/-- The events that schedule a frame. -/
theorem Event.scheduled?_eq_some :
    e.scheduled? = some streamId ↔ ∃ reset code, e = .scheduled reset streamId code := by
  cases e <;> simp [Event.scheduled?]

instance (trace : List Event) : Decidable (LateReset trace streamId) :=
  decidable_of_iff
    (∃ e ∈ since (Event.isWriteStream streamId) trace, e.reset? = some streamId) <| by
      simp only [LateReset, Event.reset?_eq_some]
      constructor
      · rintro ⟨_, he, code, rfl⟩
        exact ⟨code, he⟩
      · rintro ⟨code, he⟩
        exact ⟨_, he, code, rfl⟩

instance (trace : List Event) : Decidable (FinInFlight trace streamId) :=
  decidable_of_iff (∃ e ∈ since (Event.isAccepted streamId) trace, e.fin? = some streamId) <| by
    simp only [FinInFlight, Event.fin?_eq_some]
    constructor
    · rintro ⟨_, he, fr, hfin, hid, rfl⟩
      exact ⟨fr, hfin, hid, he⟩
    · rintro ⟨fr, hfin, hid, he⟩
      exact ⟨_, he, fr, hfin, hid, rfl⟩

instance (trace : List Event) : Decidable (Overtaken trace streamId) :=
  decidable_of_iff
    (∃ e ∈ since Event.isStrmqTop trace, ∃ id ∈ e.scheduled?, id ≤ streamId) <| by
      simp only [Overtaken, Option.mem_def, Event.scheduled?_eq_some]
      constructor
      · rintro ⟨_, he, id, ⟨reset, code, rfl⟩, hle⟩
        exact ⟨reset, id, code, hle, he⟩
      · rintro ⟨reset, id, code, hle, he⟩
        exact ⟨_, he, id, ⟨reset, code, rfl⟩, hle⟩

instance (trace : List Event) : Decidable (ResetsInTime trace) :=
  decidable_of_iff (Along (fun pre e => (∀ id ∈ e.writing?, ¬LateReset pre id) ∧
      ∀ id ∈ e.reset?, ¬FinInFlight pre id) trace) <| by
    simp only [ResetsInTime, Option.mem_def, Event.writing?_eq_some, Event.reset?_eq_some,
      forall_exists_index]

instance (trace : List Event) : Decidable (StopsUndisturbed trace) :=
  decidable_of_iff (Along (fun pre e => ∀ id ∈ e.popping?, ¬Overtaken pre id) trace) <| by
    simp only [StopsUndisturbed, Option.mem_def, Event.popping?_eq_some]

/-- Nothing is left to be sent for the stream, but data. -/
def Strm.NothingToSend (s : Strm) : Prop :=
  s.flags.sendResetStream = false ∧ s.flags.sendStopSending = false ∧
    s.flags.sendStreamDataBlocked = false ∧
    (s.flags.shutRd = true ∨ s.flags.stopSending = true ∨ s.shouldSendMaxStreamData = false)

/-- A frame `fr` that was announced is encoded as `fr'`, the limits being what they are now. -/
def Conn.Due (conn : Conn) (fr fr' : Frame) : Prop :=
  match fr with
  | .maxStreams fr => fr' = .maxStreams ⟨fr.type,
      if fr.type = FrameType.maxStreamsBidi then conn.rx.bidi.unsentMaxStreams
      else conn.rx.uni.unsentMaxStreams⟩
  | fr => fr' = fr

/-- The limit on the data sent, by the parameters that the peer announced. -/
def Conn.initialMaxTxOffset (conn : Conn) (streamId : ℕ) : ℕ :=
  (conn.initialMaxStreamData streamId).2

/-! ## Steps of one stream -/

/-- What a step depends on from outside: the clock is read, something of the peer
    comes in, the beginning of its transport parameters, a complete frame or a piece of
    data, or early data is set up or rejected. -/
inductive Label
  | tau
  | time
  | seen
  | rx (fr : Frame)
  | piece (data : List UInt8)
  | early
  | reject

/-- What may become of the stream `id`, which is `s`: it turns into another
    object, is queued or not, and the rest of the configuration changes with it. -/
inductive StrmStep (quiet : Prop) (c : Cfg) (id : ℕ) (s : Strm) : Strm → Bool → Cfg → Prop
  -- the application
  | shutWrite (code : ℕ) (hfree : c.Free quiet) (hshut : s.flags.shutWr = false)
      (hdir : bidiStream id = true ∨ c.conn.localStream id = true) :
      StrmStep quiet c id s
        { s with
          flags.shutWr := true
          flags.resetStream := true
          flags.sendResetStream := true
          flags.txResetStreamAppErrorCodeSet := true
          tx.resetStreamAppErrorCode := code } true
        (c.log [.scheduled true id code])
  | shutRead (code : ℕ) (hfree : c.Free quiet) (hstop : s.flags.stopSending = false)
      (hshut : s.flags.shutRd = false)
      (hdir : bidiStream id = true ∨ c.conn.localStream id = false) :
      StrmStep quiet c id s
        { s with
          flags.stopSending := true
          flags.sendStopSending := true
          flags.txStopSendingAppErrorCodeSet := true
          tx.stopSendingAppErrorCode := code } true
        (c.log [.scheduled false id code])
  | extend (n : ℕ) {s' : Strm} {pushed : Bool} (hfree : c.Free quiet)
      (hs' : s' = { s with
        rx.unsentMaxOffset := extendLimit maxVarint s.rx.unsentMaxOffset n })
      (hpushed : pushed = true ↔
        s.flags.shutRd = false ∧ s.flags.stopSending = false ∧ s'.shouldSendMaxStreamData = true) :
      StrmStep quiet c id s s' pushed c
  -- received frames
  | recvStream (fr : FrameStream) (hp : c.pending = .received (.stream fr)) (hid : fr.streamId = id)
      (hshut : s.flags.shutRd = false) (hoff : s.rx.lastOffset = fr.offset)
      (hmax : fr.offset + fr.len ≤ s.rx.maxOffset)
      (hconn : c.conn.rx.offset + fr.len ≤ c.conn.rx.maxOffset)
      (hne : fr.fin = true → fr.len ≠ 0) :
      StrmStep quiet c id s { s with rx.lastOffset := fr.offset + fr.len } false
        { c with
          st.conn.rx.offset := c.conn.rx.offset + fr.len
          pending := .idle
          body := if fr.len = 0 then none else some ⟨id, fr.len, fr.fin⟩ }
  | recvFin (fr : FrameStream) (hp : c.pending = .received (.stream fr)) (hid : fr.streamId = id)
      (hshut : s.flags.shutRd = false) (hoff : s.rx.lastOffset = fr.offset)
      (hmax : fr.offset ≤ s.rx.maxOffset) (hlen : fr.len = 0) (hfin : fr.fin = true) :
      StrmStep quiet c id s { s with rx.lastOffset := fr.offset, flags.shutRd := true } false
        { c.log [.recvStreamData true id fr.offset []] with pending := .shut id, body := none }
  | finData (hp : c.pending = .idle) (hbody : c.body = some ⟨id, 0, true⟩) :
      StrmStep quiet c id s { s with flags.shutRd := true } false
        { c with pending := .shut id, body := none }
  | recvReset (fr : FrameResetStream) (hp : c.pending = .received (.resetStream fr))
      (hid : fr.streamId = id) (hshut : s.flags.shutRd = false)
      (hoff : s.rx.lastOffset = fr.finalSize) :
      StrmStep quiet c id s
        { s with
          flags.shutRd := true
          flags.resetStreamRecved := true
          flags.rxAppErrorCodeSet := true
          rx.appErrorCode := fr.appErrorCode } false
        { c with pending := .shut id }
  | stopReset (fr : FrameStopSending) (hp : c.pending = .received (.stopSending fr))
      (hid : fr.streamId = id) (hrecved : s.flags.stopSendingRecved = false)
      (hshut : s.flags.shutWr = false)
      (hdir : bidiStream id = true ∨ c.conn.localStream id = true) :
      StrmStep quiet c id s
        { s with
          flags.shutWr := true
          flags.resetStream := true
          flags.sendResetStream := true
          flags.txResetStreamAppErrorCodeSet := true
          flags.stopSendingRecved := true
          tx.resetStreamAppErrorCode := fr.appErrorCode } true
        { c.log [.scheduled true id fr.appErrorCode] with pending := .idle }
  | stopShut (fr : FrameStopSending) (hp : c.pending = .received (.stopSending fr))
      (hid : fr.streamId = id) (hrecved : s.flags.stopSendingRecved = false)
      (hshut : s.flags.shutWr = true)
      (hdir : bidiStream id = true ∨ c.conn.localStream id = true) :
      StrmStep quiet c id s { s with flags.stopSendingRecved := true } false
        { c with pending := .idle }
  | maxStreamData (fr : FrameMaxStreamData) (hp : c.pending = .received (.maxStreamData fr))
      (hid : fr.streamId = id) (hmax : s.tx.maxOffset < fr.maxStreamData)
      (hdir : bidiStream id = true ∨ c.conn.localStream id = true) :
      StrmStep quiet c id s { s with tx.maxOffset := fr.maxStreamData } false
        { c with pending := .idle }
  | raise (params : TransportParams) (hp : c.pending = .received (.qxTransportParameters params))
      (hlocal : c.conn.localStream id = true)
      (hmax : s.tx.maxOffset < c.conn.initialMaxTxOffset id) :
      StrmStep quiet c id s { s with tx.maxOffset := c.conn.initialMaxTxOffset id } false c
  -- frames written
  | txReset (q : Qre) (hp : c.pending = .idle) (hsend : s.flags.sendResetStream = true)
      (henc : c.conn.tx.qre.encodeFrame
        (.resetStream ⟨id, s.tx.resetStreamAppErrorCode, s.tx.offset⟩) = .ok q) :
      StrmStep quiet c id s { s with flags.sendResetStream := false } false
        { c.log [.txFr (.resetStream ⟨id, s.tx.resetStreamAppErrorCode, s.tx.offset⟩)] with
          st.conn.tx.qre := q
          pending := .shut id }
  | txStop (q : Qre)
      (hp : c.pending = .announced (.stopSending ⟨id, s.tx.stopSendingAppErrorCode⟩))
      (hsend : s.flags.sendStopSending = true)
      (hshut : s.flags.shutRd = false)
      (henc : c.conn.tx.qre.encodeFrame
        (.stopSending ⟨id, s.tx.stopSendingAppErrorCode⟩) = .ok q) :
      StrmStep quiet c id s { s with flags.sendStopSending := false } false
        { c.log [.txFr (.stopSending ⟨id, s.tx.stopSendingAppErrorCode⟩)] with
          st.conn.tx.qre := q
          pending := .idle }
  | clearStop (hp : c.pending = .idle) (hshut : s.flags.shutRd = true) :
      StrmStep quiet c id s { s with flags.sendStopSending := false } false c
  | txMaxStreamData (q : Qre) (hp : c.pending = .idle) (hshut : s.flags.shutRd = false)
      (hstop : s.flags.stopSending = false) (hsend : s.shouldSendMaxStreamData = true)
      (huni : c.conn.localParams.UniBounded)
      (henc : c.conn.tx.qre.encodeFrame (.maxStreamData ⟨id, s.rx.unsentMaxOffset⟩) = .ok q) :
      StrmStep quiet c id s { s with rx.maxOffset := s.rx.unsentMaxOffset } false
        { c.log [.txFr (.maxStreamData ⟨id, s.rx.unsentMaxOffset⟩)] with st.conn.tx.qre := q }
  | txStreamDataBlocked (q : Qre) (hp : c.pending = .idle) (hmax : s.tx.offset = s.tx.maxOffset)
      (hnew : s.tx.offset ≠ s.tx.lastBlockedOffset)
      (hshut : quiet → s.flags.shutWr = false)
      (henc : c.conn.tx.qre.encodeFrame (.streamDataBlocked ⟨id, s.tx.offset⟩) = .ok q) :
      StrmStep quiet c id s { s with tx.lastBlockedOffset := s.tx.offset } false
        { c.log [.txFr (.streamDataBlocked ⟨id, s.tx.offset⟩)] with st.conn.tx.qre := q }
  | clearBlocked : StrmStep quiet c id s { s with flags.sendStreamDataBlocked := false } false c
  | setBlocked : StrmStep quiet c id s { s with flags.sendStreamDataBlocked := true } true c
  | recordSent (len : ℕ) (fin : Bool) (hp : c.pending = .sent id len fin)
      (hmax : s.tx.offset + len ≤ s.tx.maxOffset)
      (hconn : c.conn.tx.offset + len ≤ c.conn.tx.maxOffset) :
      StrmStep quiet c id s
        { s with
          flags.anySent := true
          flags.shutWr := s.flags.shutWr || fin
          tx.offset := s.tx.offset + len } false
        { c with
          st.conn.tx.offset := c.conn.tx.offset + len
          pending := if fin then .shut id else .idle
          writing := if fin then none else c.writing }

/-! ## Steps -/

/-- A step. If `quiet`, callbacks call nothing. -/
inductive Step (quiet : Prop) : Label → Cfg → Cfg → Prop
  | strm {c c' : Cfg} {id : ℕ} {s s' : Strm} {pushed : Bool} {conn : Conn}
      (h : StrmStep quiet c id s s' pushed c') (hc : Changes c'.conn conn id s s' pushed) :
      Step quiet .tau c { c' with st.conn := conn }
  -- the application
  | openBidi {c : Cfg} (hfree : c.Free quiet) (hleft : c.conn.tx.bidi.left ≠ 0) :
      Step quiet .tau c
        { c.log [.opened true c.conn.tx.bidi.nextStreamId] with
          st.conn.strms := c.conn.strms.insert c.conn.tx.bidi.nextStreamId
            (c.conn.newStrm c.conn.tx.bidi.nextStreamId)
          st.conn.tx.strmq.index :=
            Function.update c.conn.tx.strmq.index c.conn.tx.bidi.nextStreamId none
          st.conn.tx.bidi.nextStreamId := c.conn.tx.bidi.nextStreamId + 4 }
  | openUni {c : Cfg} (hfree : c.Free quiet) (hleft : c.conn.tx.uni.left ≠ 0) :
      Step quiet .tau c
        { c.log [.opened false c.conn.tx.uni.nextStreamId] with
          st.conn.strms := c.conn.strms.insert c.conn.tx.uni.nextStreamId
            (c.conn.newStrm c.conn.tx.uni.nextStreamId)
          st.conn.tx.strmq.index :=
            Function.update c.conn.tx.strmq.index c.conn.tx.uni.nextStreamId none
          st.conn.tx.uni.nextStreamId := c.conn.tx.uni.nextStreamId + 4 }
  | extendOffset {c : Cfg} (n : ℕ) :
      Step quiet .tau c
        { c.log [.extended .data n] with
          st.conn.rx.unsentMaxOffset := extendLimit maxVarint c.conn.rx.unsentMaxOffset n }
  | extendStreamsBidi {c : Cfg} (n : ℕ) :
      Step quiet .tau c
        { c.log [.extended .streamsBidi n] with
          st.conn.rx.bidi.unsentMaxStreams :=
            extendLimit maxStreams c.conn.rx.bidi.unsentMaxStreams n }
  | extendStreamsUni {c : Cfg} (n : ℕ) :
      Step quiet .tau c
        { c.log [.extended .streamsUni n] with
          st.conn.rx.uni.unsentMaxStreams :=
            extendLimit maxStreams c.conn.rx.uni.unsentMaxStreams n }
  | event {c : Cfg} (e : Event) (he : e.Plain) (hp : ∀ fr, c.pending ≠ .announced fr)
      (hid : ∀ id, e.streamId? = some id →
        c.conn.findStream id ≠ none ∧ c.pending ≠ .closing id) :
      Step quiet .tau c (c.log [e])
  -- received frames
  | rx {c : Cfg} (fr : Frame) (hp : c.pending = .idle) (hw : c.writing = none)
      (hbody : c.body = none) (hb : fr.Bounded) (hparams : c.params = true)
      (hfr : ∀ params, fr ≠ .qxTransportParameters params) :
      Step quiet (.rx fr) c { c.log [.rxFr fr] with pending := .received fr }
  | rxParams {c : Cfg} (params : TransportParams) (hp : c.pending = .idle) (hw : c.writing = none)
      (hbody : c.body = none) (hseen : c.conn.flags.qxTransportParametersSeen = true)
      (hparams : c.params = false) (hb : params.Decoded)
      (hearly : c.conn.flags.earlyTransportParamsSet = true → c.conn.remoteParams.Within params) :
      Step quiet (.rx (.qxTransportParameters params)) c
        { c.log [.rxFr (.qxTransportParameters params)] with
          st.conn.remoteParams := params
          st.conn.tx.bidi.maxStreams := params.initialMaxStreamsBidi
          st.conn.tx.uni.maxStreams := params.initialMaxStreamsUni
          st.conn.tx.maxOffset := params.initialMaxData
          pending := .received (.qxTransportParameters params)
          params := true }
  | paramsDone {c : Cfg} {params : TransportParams}
      (hp : c.pending = .received (.qxTransportParameters params))
      (hraised : quiet → ∀ id s, c.conn.strms.find id = some s →
        c.conn.initialMaxTxOffset id ≤ s.tx.maxOffset) :
      Step quiet .tau c { c with pending := .idle }
  | accept {c : Cfg} {fr : Frame} {id : ℕ} {idtr : Idtr} (hp : c.pending = .received fr)
      (hid : fr.streamId? = some id) (hlocal : c.conn.localStream id = false)
      (hnone : c.conn.strms.find id = none)
      (hdir : fr.ofReceiver = true → bidiStream id = true)
      (hbidi : bidiStream id = true → ordStreamId id ≤ c.conn.rx.bidi.maxStreams)
      (huni : bidiStream id = false → ordStreamId id ≤ c.conn.rx.uni.maxStreams)
      (hopen : (c.conn.idtr id).openId id = .ok idtr) :
      Step quiet .tau c
        { c.log [.streamOpen id] with
          st.conn := { c.conn.setIdtr id idtr with
            strms := c.conn.strms.insert id (c.conn.newStrm id)
            tx.strmq.index := Function.update c.conn.tx.strmq.index id none } }
  | ignore {c : Cfg} {fr : Frame} (hp : c.pending = .received fr) (h : c.conn.Ignores fr) :
      Step quiet .tau c { c with pending := .idle }
  | recvMaxData {c : Cfg} {fr : FrameMaxData} (hp : c.pending = .received (.maxData fr))
      (hmax : c.conn.tx.maxOffset < fr.maxData) :
      Step quiet .tau c { c with st.conn.tx.maxOffset := fr.maxData, pending := .idle }
  | recvMaxStreamsBidi {c : Cfg} {fr : FrameMaxStreams}
      (hp : c.pending = .received (.maxStreams fr))
      (htype : fr.type = FrameType.maxStreamsBidi)
      (hmax : c.conn.tx.bidi.maxStreams < fr.maxStreams)
      (hle : fr.maxStreams ≤ maxStreams) :
      Step quiet .tau c { c with st.conn.tx.bidi.maxStreams := fr.maxStreams, pending := .idle }
  | recvMaxStreamsUni {c : Cfg} {fr : FrameMaxStreams} (hp : c.pending = .received (.maxStreams fr))
      (htype : fr.type ≠ FrameType.maxStreamsBidi) (hmax : c.conn.tx.uni.maxStreams < fr.maxStreams)
      (hle : fr.maxStreams ≤ maxStreams) :
      Step quiet .tau c { c with st.conn.tx.uni.maxStreams := fr.maxStreams, pending := .idle }
  | recvPing {c : Cfg} {fr : FrameQxPing} (hp : c.pending = .received (.qxPing fr))
      (hseq : c.conn.rx.ping.lastSeq < fr.seq) :
      Step quiet .tau c { c with st.conn.rx.ping.lastSeq := fr.seq, pending := .idle }
  -- received data
  | piece {c : Cfg} {id left : ℕ} {fin : Bool} {s : Strm} (data : List UInt8)
      (hp : c.pending = .idle) (hbody : c.body = some ⟨id, left, fin⟩)
      (hfind : c.conn.strms.find id = some s) (hne : data ≠ []) (hlen : data.length ≤ left)
      (hstop : s.flags.stopSending = false) :
      Step quiet (.piece data) c
        { c.log [.recvStreamData (fin && left == data.length) id (s.rx.lastOffset - left) data] with
          body := some ⟨id, left - data.length, fin⟩ }
  | skip {c : Cfg} {id left : ℕ} {fin : Bool} {s : Strm} (data : List UInt8)
      (hp : c.pending = .idle) (hbody : c.body = some ⟨id, left, fin⟩)
      (hfind : c.conn.strms.find id = some s) (hlen : data.length ≤ left)
      (hstop : s.flags.stopSending = true) :
      Step quiet (.piece data) c
        { c.log [.discarded id data.length] with
          st.conn.rx.unsentMaxOffset :=
            extendLimit maxVarint c.conn.rx.unsentMaxOffset data.length
          body := some ⟨id, left - data.length, fin⟩ }
  | bodyDone {c : Cfg} {id : ℕ} (hp : c.pending = .idle) (hbody : c.body = some ⟨id, 0, false⟩) :
      Step quiet .tau c { c with body := none }
  -- the end of a stream
  | settle {c : Cfg} {id : ℕ} (hp : c.pending = .shut id)
      (h : ∀ s, c.conn.strms.find id = some s → s.shouldCloseStream = false) :
      Step quiet .tau c { c with pending := .idle }
  | close {c : Cfg} {id : ℕ} {s : Strm} (hp : c.pending = .shut id)
      (hfind : c.conn.strms.find id = some s) (h : s.shouldCloseStream = true) :
      Step quiet .tau c { c.log [s.closeEvent] with pending := .closing id }
  | erase {c : Cfg} {id : ℕ} {s : Strm} (hp : c.pending = .closing id)
      (hfind : c.conn.strms.find id = some s) :
      Step quiet .tau c
        { c with
          st.closed := c.st.closed ++ [s]
          st.conn.strms := c.conn.strms.erase id
          st.conn.tx.strmq := deleteStrmTxStrmq c.conn.strms c.conn.tx.strmq id
          pending := .idle }
  -- the queue
  | pop {c : Cfg} {id : ℕ} {s : Strm} (hhead : c.conn.tx.strmq.q[0]? = some id)
      (hfind : c.conn.strms.find id = some s)
      (hquiet : quiet → s.shouldCloseStream = true ∨ s.NothingToSend)
      (hstops : StopsUndisturbed c.st.trace →
        s.flags.sendResetStream = false ∧
        (s.flags.sendStopSending = true → s.flags.shutRd = true)) :
      Step quiet .tau c { c with st.conn.tx.strmq := c.conn.popStrmq id }
  -- frames announced, and left for another record
  | announceStop {c : Cfg} {id : ℕ} {s : Strm} (hp : c.pending = .idle)
      (hfind : c.conn.strms.find id = some s) (hsend : s.flags.sendStopSending = true)
      (hshut : s.flags.shutRd = false) :
      Step quiet .tau c
        { c.log [.room c.conn.tx.qre.left, .streamStopSending id s.tx.stopSendingAppErrorCode] with
          pending := .announced (.stopSending ⟨id, s.tx.stopSendingAppErrorCode⟩) }
  | announceBidi {c : Cfg} (hp : c.pending = .idle)
      (hmax : c.conn.rx.bidi.maxStreams < c.conn.rx.bidi.unsentMaxStreams) :
      Step quiet .tau c
        { c.log [.room c.conn.tx.qre.left,
            .extendMaxRemoteStreamsBidi c.conn.rx.bidi.unsentMaxStreams] with
          pending := .announced
            (.maxStreams ⟨FrameType.maxStreamsBidi, c.conn.rx.bidi.unsentMaxStreams⟩) }
  | announceUni {c : Cfg} (hp : c.pending = .idle)
      (hmax : c.conn.rx.uni.maxStreams < c.conn.rx.uni.unsentMaxStreams) :
      Step quiet .tau c
        { c.log [.room c.conn.tx.qre.left,
            .extendMaxRemoteStreamsUni c.conn.rx.uni.unsentMaxStreams] with
          pending := .announced
            (.maxStreams ⟨FrameType.maxStreamsUni, c.conn.rx.uni.unsentMaxStreams⟩) }
  | putOff {c : Cfg} {fr fr' : Frame} (hp : c.pending = .announced fr)
      (hfr : c.conn.Due fr fr') (hroom : c.conn.tx.qre.left < fr'.wire.length) :
      Step quiet .tau c { c with pending := .idle }
  -- frames written
  | txParams {c : Cfg} (q : Qre) (hp : c.pending = .idle) (huni : c.conn.localParams.UniBounded)
      (henc : c.conn.tx.qre.encodeFrame (.qxTransportParameters c.conn.localParams) = .ok q) :
      Step quiet .tau c
        { c.log [.txFr (.qxTransportParameters c.conn.localParams)] with
          st.conn.tx.qre := q
          st.conn.flags.qxTransportParametersSent := true }
  | txMaxData {c : Cfg} (q : Qre) (hp : c.pending = .idle)
      (hmax : c.conn.rx.maxOffset < c.conn.rx.unsentMaxOffset)
      (henc : c.conn.tx.qre.encodeFrame (.maxData ⟨c.conn.rx.unsentMaxOffset⟩) = .ok q) :
      Step quiet .tau c
        { c.log [.txFr (.maxData ⟨c.conn.rx.unsentMaxOffset⟩)] with
          st.conn.tx.qre := q
          st.conn.rx.maxOffset := c.conn.rx.unsentMaxOffset }
  | txPing {c : Cfg} (q : Qre) (hp : c.pending = .idle)
      (hseq : c.conn.rx.ping.lastRespSeq < c.conn.rx.ping.lastSeq)
      (henc : c.conn.tx.qre.encodeFrame
        (.qxPing ⟨FrameType.qxPingResponse, c.conn.rx.ping.lastSeq.toNat⟩) = .ok q) :
      Step quiet .tau c
        { c.log [.txFr (.qxPing ⟨FrameType.qxPingResponse, c.conn.rx.ping.lastSeq.toNat⟩)] with
          st.conn.tx.qre := q
          st.conn.rx.ping.lastRespSeq := c.conn.rx.ping.lastSeq }
  | txDataBlocked {c : Cfg} (q : Qre) (hp : c.pending = .idle)
      (hmax : c.conn.tx.offset = c.conn.tx.maxOffset)
      (hnew : c.conn.tx.offset ≠ c.conn.tx.lastBlockedOffset)
      (henc : c.conn.tx.qre.encodeFrame (.dataBlocked ⟨c.conn.tx.offset⟩) = .ok q) :
      Step quiet .tau c
        { c.log [.txFr (.dataBlocked ⟨c.conn.tx.offset⟩)] with
          st.conn.tx.qre := q
          st.conn.tx.lastBlockedOffset := c.conn.tx.offset }
  | txMaxStreamsBidi {c : Cfg} {n : ℕ} (q : Qre)
      (hp : c.pending = .announced (.maxStreams ⟨FrameType.maxStreamsBidi, n⟩))
      (hmax : c.conn.rx.bidi.maxStreams < c.conn.rx.bidi.unsentMaxStreams)
      (henc : c.conn.tx.qre.encodeFrame
        (.maxStreams ⟨FrameType.maxStreamsBidi, c.conn.rx.bidi.unsentMaxStreams⟩) = .ok q) :
      Step quiet .tau c
        { c.log [.txFr (.maxStreams
            ⟨FrameType.maxStreamsBidi, c.conn.rx.bidi.unsentMaxStreams⟩)] with
          st.conn.tx.qre := q
          st.conn.rx.bidi.maxStreams := c.conn.rx.bidi.unsentMaxStreams
          pending := .idle }
  | txMaxStreamsUni {c : Cfg} {n : ℕ} (q : Qre)
      (hp : c.pending = .announced (.maxStreams ⟨FrameType.maxStreamsUni, n⟩))
      (hmax : c.conn.rx.uni.maxStreams < c.conn.rx.uni.unsentMaxStreams)
      (henc : c.conn.tx.qre.encodeFrame
        (.maxStreams ⟨FrameType.maxStreamsUni, c.conn.rx.uni.unsentMaxStreams⟩) = .ok q) :
      Step quiet .tau c
        { c.log [.txFr (.maxStreams
            ⟨FrameType.maxStreamsUni, c.conn.rx.uni.unsentMaxStreams⟩)] with
          st.conn.tx.qre := q
          st.conn.rx.uni.maxStreams := c.conn.rx.uni.unsentMaxStreams
          pending := .idle }
  | txStream {c : Cfg} {id : ℕ} {s : Strm} (q : Qre) (fr : FrameStream) (hp : c.pending = .idle)
      (hw : c.writing = some id) (hfind : c.conn.strms.find id = some s) (hid : fr.streamId = id)
      (hoff : fr.offset = s.tx.offset) (hlen : fr.len ≤ fr.data.flatten.length)
      (hmax : s.tx.offset + fr.len ≤ s.tx.maxOffset)
      (hconn : c.conn.tx.offset + fr.len ≤ c.conn.tx.maxOffset)
      (hquiet : quiet → s.flags.shutWr = false)
      (hresets : ResetsInTime c.st.trace → s.flags.shutWr = false)
      (henc : c.conn.tx.qre.encodeFrame (.stream fr) = .ok q) :
      Step quiet .tau c
        { c.log [.txFr (.stream fr)] with
          st.conn.tx.qre := q
          pending := .sent id fr.len fr.fin
          unaccepted := some (id, fr.data.flatten.take fr.len, fr.fin) }
  | accepted {c : Cfg} {id : ℕ} {data : List UInt8} {fin : Bool} (hp : c.pending = .idle)
      (h : c.unaccepted = some (id, data, fin)) :
      Step quiet .tau c { c.log [.accepted id data fin] with unaccepted := none }
  | txDatagram {c : Cfg} (q : Qre) (fr : FrameDatagram) (hp : c.pending = .idle)
      (htype : fr.type = FrameType.datagramLen)
      (henc : c.conn.tx.qre.encodeFrame (.datagram fr) = .ok q) :
      Step quiet .tau c { c.log [.txFr (.datagram fr)] with st.conn.tx.qre := q }
  -- records
  | start {c : Cfg} {destlen : ℕ} {q : Qre} (hp : c.pending = .idle)
      (hs : c.conn.tx.qre.started = false)
      (hq : Qre.start destlen = .ok q) :
      Step quiet .tau c { c with st.conn.tx.qre := q }
  | abandon {c : Cfg} (hp : c.pending = .idle) (h : c.conn.tx.qre.frames = []) :
      Step quiet .tau c { c with st.conn.tx.qre := c.conn.tx.qre.reset }
  | finish {c : Cfg} {record : List UInt8} (hp : c.pending = .idle)
      (hf : c.conn.tx.qre.final = .ok record) :
      Step quiet .tau c
        { c with st.conn.tx.qre := c.conn.tx.qre.reset, out := c.out ++ record }
  -- calls
  | beginCall {c : Cfg} (id : ℕ) (hp : c.pending = .idle) :
      Step quiet .tau c { c.log [.writeStream id] with writing := none }
  | beginWrite {c : Cfg} {id : ℕ} {s : Strm} {l : List Event} (hp : c.pending = .idle)
      (hl : c.st.trace = l ++ [.writeStream id]) (hfind : c.conn.strms.find id = some s)
      (hshut : s.flags.shutWr = false) :
      Step quiet .tau c { c with writing := some id }
  | endWrite {c : Cfg} (hp : c.pending = .idle) : Step quiet .tau c { c with writing := none }
  -- the rest
  | glitch {c : Cfg} {rlim : Ratelim} (hts : rlim.ts ≤ c.conn.lastTs) :
      Step quiet .tau c { c with st.conn.glitchRlim := rlim }
  | time {c : Cfg} {ts : ℕ} (hts : c.conn.lastTs ≤ ts) :
      Step quiet .time c { c with st.conn.lastTs := ts }
  | idleTime {c : Cfg} (ts : ℕ) : Step quiet .tau c { c with st.conn.idleTs := ts }
  | seen {c : Cfg} : Step quiet .seen c { c with st.conn.flags.qxTransportParametersSeen := true }
  | outputs {c : Cfg} (pdatalen : Option ℕ) (paccepted : Bool) :
      Step quiet .tau c { c with st.pdatalen := pdatalen, st.paccepted := paccepted }
  | set0rtt {c : Cfg} {params remote : TransportParams} (hclient : c.conn.server = false)
      (hp : c.pending = .idle) (hb : params.Bounded) (hstrms : c.conn.strms = .empty)
      (hclosed : c.st.closed = []) (hbidi : c.conn.tx.bidi.nextStreamId / 4 = 0)
      (huni : c.conn.tx.uni.nextStreamId / 4 = 0)
      (hremote : remote = { TransportParams.default with
        initialMaxStreamsBidi := params.initialMaxStreamsBidi
        initialMaxStreamsUni := params.initialMaxStreamsUni
        initialMaxStreamDataBidiLocal := params.initialMaxStreamDataBidiLocal
        initialMaxStreamDataBidiRemote := params.initialMaxStreamDataBidiRemote
        initialMaxStreamDataUni := params.initialMaxStreamDataUni
        initialMaxData := params.initialMaxData
        maxDatagramFrameSize := params.maxDatagramFrameSize }) :
      Step quiet .early c
        { c with
          st.conn.remoteParams := remote
          st.conn.tx.bidi.maxStreams := params.initialMaxStreamsBidi
          st.conn.tx.uni.maxStreams := params.initialMaxStreamsUni
          st.conn.tx.maxOffset := params.initialMaxData
          st.conn.flags.earlyTransportParamsSet := true }
  | reject {c : Cfg} {ids : List ℕ} (hclient : c.conn.server = false) (hparams : c.params = false)
      (hp : c.pending = .idle) (hw : c.writing = none) (hu : c.unaccepted = none)
      (hids : ids.Perm c.conn.strms.keys) :
      Step quiet .reject c
        { c.log [.earlyDataRejected] with
          st.closed := []
          st.conn := { c.conn with
            flags.earlyDataRejected := true
            flags.earlyTransportParamsSet := false
            flags.qxTransportParametersSent := false
            remoteParams := .default
            strms := .empty
            tx.strmq := ids.foldl (deleteStrmTxStrmq c.conn.strms) c.conn.tx.strmq
            tx.bidi := ⟨0, 0⟩
            tx.uni := ⟨0, 2⟩
            tx.offset := 0
            tx.maxOffset := 0
            tx.lastBlockedOffset := uint64Max
            rx.unsentMaxOffset := c.conn.localParams.initialMaxData
            rx.maxOffset := c.conn.localParams.initialMaxData
            rx.bidi := ⟨c.conn.localParams.initialMaxStreamsBidi,
              c.conn.localParams.initialMaxStreamsBidi⟩
            rx.uni := ⟨c.conn.localParams.initialMaxStreamsUni,
              c.conn.localParams.initialMaxStreamsUni⟩ } }

end Dwnx
