import Dwnx.Lts.Step

/-!
# What holds of every configuration

The invariants on which the code relies, and the proof that no step breaks them.

* `Strm.Ok`: what holds of one stream, whatever the others are;
* `Conn.FlowOk`: the flow control accounts;
* `Conn.IdsOk`: which stream identifiers are in use;
* `Cfg.PhaseOk`: what holds until the transport parameters have come;
* `Cfg.PendingOk`: what a call in the middle of something relies on;
* `Inv`, with `Step.inv`: all of it.
-/

namespace Dwnx

/-! ## Streams -/

/-- What holds of the stream `id` of a connection. -/
structure Strm.Ok (conn : Conn) (id : ℕ) (s : Strm) : Prop where
  txOffset : s.tx.offset ≤ s.tx.maxOffset
  txMaxOffset : s.tx.maxOffset ≤ maxVarint
  lastOffset : s.rx.lastOffset ≤ s.rx.maxOffset
  rxMaxOffset : conn.localParams.UniBounded → s.rx.maxOffset ≤ s.rx.unsentMaxOffset
  unsentMaxOffset : conn.localParams.UniBounded → s.rx.unsentMaxOffset ≤ maxVarint
  sendResetStream : s.flags.sendResetStream = true →
    s.flags.shutWr = true ∧ s.flags.resetStream = true ∧
      s.flags.txResetStreamAppErrorCodeSet = true
  stopSendingRecved : s.flags.stopSendingRecved = true → s.flags.shutWr = true
  resetStreamRecved : s.flags.resetStreamRecved = true → s.flags.shutRd = true
  sendStopSending : s.flags.sendStopSending = true → s.flags.stopSending = true
  localUni : bidiStream id = false → conn.localStream id = true → s.flags.shutRd = true
  remoteUni : bidiStream id = false → conn.localStream id = false → s.flags.shutWr = true

/-- The streams of the table are as they should be. -/
def Conn.StrmsOk (conn : Conn) : Prop := ∀ id s, conn.strms.find id = some s → s.Ok conn id

/-! ## Flow control -/

/-- What was sent, resp. received, is the sum over the streams, closed ones
    included, and within the limits. -/
structure Conn.FlowOk (conn : Conn) (closed : List Strm) : Prop where
  txSum : conn.tx.offset =
    conn.strms.sumOf (·.tx.offset) + (closed.map (·.tx.offset)).sum
  txOffset : conn.tx.offset ≤ conn.tx.maxOffset
  txMaxOffset : conn.tx.maxOffset ≤ maxVarint
  rxSum : conn.rx.offset =
    conn.strms.sumOf (·.rx.lastOffset) + (closed.map (·.rx.lastOffset)).sum
  rxOffset : conn.rx.offset ≤ conn.rx.maxOffset
  rxMaxOffset : conn.rx.maxOffset ≤ conn.rx.unsentMaxOffset
  unsentMaxOffset : conn.rx.unsentMaxOffset ≤ maxVarint

/-- No stream has received more than the connection. -/
theorem Conn.FlowOk.lastOffset_le {conn : Conn} {closed : List Strm} (h : conn.FlowOk closed)
    {id : ℕ} {s : Strm} (hf : conn.strms.find id = some s) : s.rx.lastOffset ≤ maxVarint := by
  have hle := KeyMap.le_sumOf (f := (·.rx.lastOffset)) hf
  have := h.rxSum
  have := (h.rxOffset.trans h.rxMaxOffset).trans h.unsentMaxOffset
  omega

/-! ## Identifiers -/

/-- The limit on the streams of the peer of the kind of `id`. -/
def Conn.rxMaxStreams (conn : Conn) (id : ℕ) : ℕ :=
  if bidiStream id then conn.rx.bidi.maxStreams else conn.rx.uni.maxStreams

/-- The next local stream of the kind of `id`. -/
def Conn.nextStreamId (conn : Conn) (id : ℕ) : ℕ :=
  if bidiStream id then conn.tx.bidi.nextStreamId else conn.tx.uni.nextStreamId

/-- A local stream has been handed out, a remote one opened and is within the limit. -/
structure Conn.IdsOk (conn : Conn) : Prop where
  bidiNext : conn.tx.bidi.nextStreamId % 4 = if conn.server then 1 else 0
  uniNext : conn.tx.uni.nextStreamId % 4 = if conn.server then 3 else 2
  bidiLimit : conn.tx.bidi.nextStreamId / 4 ≤ conn.tx.bidi.maxStreams
  uniLimit : conn.tx.uni.nextStreamId / 4 ≤ conn.tx.uni.maxStreams
  localId : ∀ id s, conn.strms.find id = some s → conn.localStream id = true →
    id < conn.nextStreamId id
  remoteId : ∀ id s, conn.strms.find id = some s → conn.localStream id = false →
    id ≤ maxVarint ∧ (conn.idtr id).Opened id ∧ ordStreamId id ≤ conn.rxMaxStreams id
  bidiRoom : conn.bidiIdtr.HasRoom
  uniRoom : conn.uniIdtr.HasRoom
  bidiMaxStreams : conn.rx.bidi.maxStreams ≤ conn.rx.bidi.unsentMaxStreams
  uniMaxStreams : conn.rx.uni.maxStreams ≤ conn.rx.uni.unsentMaxStreams
  bidiUnsent : conn.rx.bidi.unsentMaxStreams ≤ maxStreams
  uniUnsent : conn.rx.uni.unsentMaxStreams ≤ maxStreams

/-- There is room for any identifier. -/
theorem Conn.IdsOk.hasRoom {conn : Conn} (h : conn.IdsOk) (id : ℕ) : (conn.idtr id).HasRoom := by
  unfold idtr
  split
  exacts [h.bidiRoom, h.uniRoom]

/-! ## The transport parameters -/

/-- What is known of the limits of the local endpoint. -/
structure TransportParams.Usable (params : TransportParams) : Prop where
  initialMaxStreamsBidi : params.initialMaxStreamsBidi ≤ maxStreams
  initialMaxStreamsUni : params.initialMaxStreamsUni ≤ maxStreams
  initialMaxStreamDataBidiLocal : params.initialMaxStreamDataBidiLocal ≤ maxVarint
  initialMaxStreamDataBidiRemote : params.initialMaxStreamDataBidiRemote ≤ maxVarint
  initialMaxStreamDataUni : params.initialMaxStreamDataUni ≤ uint64Max
  initialMaxData : params.initialMaxData ≤ maxVarint

/-- Before the parameters of the peer have come, only the remembered ones count,
    and nothing has been received. -/
structure Cfg.PhaseOk (c : Cfg) : Prop where
  localParams : c.conn.localParams.Usable
  remoteParams : c.conn.remoteParams.Bounded
  seen : c.params = true → c.conn.flags.qxTransportParametersSeen = true
  sent : c.conn.flags.qxTransportParametersSent = true → c.conn.localParams.UniBounded
  client : c.conn.flags.earlyTransportParamsSet = true → c.conn.server = false
  default : c.params = false → c.conn.flags.earlyTransportParamsSet = false →
    c.conn.remoteParams = .default
  maxOffset : c.params = false → c.conn.tx.maxOffset = c.conn.remoteParams.initialMaxData
  bidi : c.params = false →
    c.conn.tx.bidi.maxStreams = c.conn.remoteParams.initialMaxStreamsBidi
  uni : c.params = false →
    c.conn.tx.uni.maxStreams = c.conn.remoteParams.initialMaxStreamsUni
  rxOffset : c.params = false → c.conn.rx.offset = 0
  strms : c.params = false → ∀ id s, c.conn.strms.find id = some s →
    c.conn.localStream id = true ∧ s.tx.maxOffset = c.conn.initialMaxTxOffset id
  raising : ∀ params, c.pending = .received (.qxTransportParameters params) →
    c.conn.remoteParams = params ∧
      ∀ id s, c.conn.strms.find id = some s → c.conn.localStream id = true

/-! ## What is pending -/

/-- The stream whose data is received, or which is about to go, is there. -/
structure Cfg.PendingOk (c : Cfg) : Prop where
  received : ∀ fr, c.pending = .received fr →
    fr.Bounded ∧ c.params = true ∧ c.writing = none ∧ c.body = none
  sent : ∀ id len fin, c.pending = .sent id len fin →
    c.writing = some id ∧ ∃ data, c.unaccepted = some (id, data, fin) ∧ data.length = len
  body : ∀ id left fin, c.body = some ⟨id, left, fin⟩ →
    c.params = true ∧ ∃ s, c.conn.strms.find id = some s ∧ s.flags.shutRd = false ∧
      left ≤ s.rx.lastOffset
  closing : ∀ id, c.pending = .closing id →
    ∃ s, c.conn.strms.find id = some s ∧ s.shouldCloseStream = true
  closable : ∀ id s, c.conn.strms.find id = some s → s.shouldCloseStream = true →
    c.pending = .shut id ∨ c.pending = .closing id

/-- What holds of every configuration. -/
structure Inv (c : Cfg) : Prop where
  queue : c.conn.QueueOk
  strms : c.conn.StrmsOk
  flow : c.conn.FlowOk c.st.closed
  ids : c.conn.IdsOk
  phase : c.PhaseOk
  pending : c.PendingOk
  time : c.conn.glitchRlim.ts ≤ c.conn.lastTs

/-- Only the identifiers of the kind are set. -/
theorem Conn.setIdtr_eq (conn : Conn) (id : ℕ) (idtr : Idtr) :
    conn.setIdtr id idtr = { conn with
      bidiIdtr := if bidiStream id then idtr else conn.bidiIdtr
      uniIdtr := if bidiStream id then conn.uniIdtr else idtr } := by
  unfold setIdtr
  split <;> rfl

/-! ## New streams -/

/-- A limit that has been announced is not announced again. -/
theorem Strm.shouldSendMaxStreamData_of_eq {s : Strm} (h : s.rx.unsentMaxOffset = s.rx.maxOffset)
    (hle : s.rx.maxOffset ≤ uint64Max) : s.shouldSendMaxStreamData = false := by
  have : s.rx.maxOffset < 2 ^ 64 := hle.trans_lt (by decide)
  rw [shouldSendMaxStreamData, h, sub64_eq le_rfl this, Nat.sub_self]
  simp [mul64]

/-- A limit is not extended beyond the bound. -/
theorem extendLimit_le (bound m n : ℕ) : extendLimit bound m n ≤ bound := by
  unfold extendLimit
  split_ifs <;> omega

/-- A limit is not lowered. -/
theorem le_extendLimit {bound m : ℕ} (h : m ≤ bound) (n : ℕ) : m ≤ extendLimit bound m n := by
  unfold extendLimit
  split_ifs <;> omega

section
variable (conn : Conn) (id : ℕ)

@[simp] theorem Conn.newStrm_streamId : (conn.newStrm id).streamId = id := by
  unfold newStrm
  dsimp only
  split_ifs <;> rfl

@[simp] theorem Conn.newStrm_cycle : (conn.newStrm id).cycle = 0 := by
  unfold newStrm
  dsimp only
  split_ifs <;> rfl

/-- Nothing of a new stream has come. -/
theorem Conn.newStrm_rx :
    (conn.newStrm id).rx =
      ⟨0, (conn.initialMaxStreamData id).1, (conn.initialMaxStreamData id).1,
        (conn.initialMaxStreamData id).1, 0⟩ := by
  unfold newStrm
  dsimp only
  split_ifs <;> rfl

/-- Nothing of a new stream has been sent. -/
theorem Conn.newStrm_tx :
    (conn.newStrm id).tx = ⟨0, conn.initialMaxTxOffset id, uint64Max, 0, 0⟩ := by
  unfold newStrm initialMaxTxOffset
  dsimp only
  split_ifs <;> rfl

/-- A new stream has no flags but for the direction that it lacks. -/
theorem Conn.newStrm_flags :
    (conn.newStrm id).flags =
      { StrmFlags.none with
        shutRd := !bidiStream id && conn.localStream id
        shutWr := !bidiStream id && !conn.localStream id } := by
  unfold newStrm
  dsimp only
  cases bidiStream id <;> cases conn.localStream id <;> rfl

/-- The initial limit is a varint. -/
theorem Conn.initialMaxTxOffset_le (hr : conn.remoteParams.Bounded) :
    conn.initialMaxTxOffset id ≤ maxVarint := by
  unfold initialMaxTxOffset initialMaxStreamData
  split_ifs
  exacts [hr.initialMaxStreamDataBidiRemote, hr.initialMaxStreamDataBidiLocal,
    hr.initialMaxStreamDataUni, Nat.zero_le _]

/-- The initial limit is a varint. -/
theorem Conn.initialMaxStreamData_le (hl : conn.localParams.Usable) :
    (conn.initialMaxStreamData id).1 ≤ uint64Max ∧
      (conn.localParams.UniBounded → (conn.initialMaxStreamData id).1 ≤ maxVarint) := by
  have hle : maxVarint ≤ uint64Max := by decide
  unfold initialMaxStreamData
  split_ifs
  · exact ⟨hl.initialMaxStreamDataBidiLocal.trans hle, fun _ => hl.initialMaxStreamDataBidiLocal⟩
  · exact ⟨hl.initialMaxStreamDataBidiRemote.trans hle, fun _ => hl.initialMaxStreamDataBidiRemote⟩
  · exact ⟨Nat.zero_le _, fun _ => Nat.zero_le _⟩
  · exact ⟨hl.initialMaxStreamDataUni, fun h => h⟩

/-- A new stream is as it should be. -/
theorem Conn.newStrm_ok (hl : conn.localParams.Usable) (hr : conn.remoteParams.Bounded) :
    (conn.newStrm id).Ok conn id := by
  have h1 := conn.initialMaxTxOffset_le id hr
  have h2 := (conn.initialMaxStreamData_le id hl).2
  constructor <;>
    simp +contextual [conn.newStrm_rx, conn.newStrm_tx, conn.newStrm_flags, StrmFlags.none, h1, h2]

/-- A new stream is not to be closed. -/
theorem Conn.newStrm_shouldCloseStream : (conn.newStrm id).shouldCloseStream = false := by
  rw [Strm.shouldCloseStream, conn.newStrm_flags]
  cases bidiStream id <;> cases conn.localStream id <;> rfl

/-- A new stream has nothing to be sent. -/
theorem Conn.newStrm_nothingToSend (hl : conn.localParams.Usable) :
    (conn.newStrm id).NothingToSend := by
  refine ⟨?_, ?_, ?_, .inr (.inr ?_)⟩
  · rw [conn.newStrm_flags]
    rfl
  · rw [conn.newStrm_flags]
    rfl
  · rw [conn.newStrm_flags]
    rfl
  · refine Strm.shouldSendMaxStreamData_of_eq ?_ ?_
    · rw [conn.newStrm_rx]
    · rw [conn.newStrm_rx]
      exact (conn.initialMaxStreamData_le id hl).1
end

end Dwnx
