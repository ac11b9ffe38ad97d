import Dwnx.Conn.Read

/-!
# The connection as the application sees it

Creating a connection, early data, the end of a connection, and the calls that
an application makes one after another (`Call`). A run (`Run`) is a sequence of
calls, each with a result after which the connection is still in use.
-/

namespace Dwnx

/-! ## Creation -/

/-- The members of `dwnx_settings` that matter here. -/
structure Settings where
  glitchRatelimBurst : ℕ
  glitchRatelimRate : ℕ
  initialTs : ℕ
  deriving DecidableEq

/-- The assertions of `conn_new`. -/
def TransportParams.Asserted (params : TransportParams) : Prop :=
  params.initialMaxStreamDataBidiLocal ≤ maxVarint ∧
  params.initialMaxStreamDataBidiRemote ≤ maxVarint ∧
  params.initialMaxData ≤ maxVarint ∧
  params.initialMaxStreamsBidi ≤ maxStreams ∧
  params.initialMaxStreamsUni ≤ maxStreams ∧
  params.maxIdleTimeout ≠ uint64Max ∧
  params.maxIdleTimeout / milliseconds ≤ maxVarint ∧
  params.maxRecordSize ≤ maxVarint ∧
  defaultMaxRecordSize ≤ params.maxRecordSize

instance (params : TransportParams) : Decidable params.Asserted :=
  inferInstanceAs (Decidable (_ ∧ _))

/-- The connection that `conn_new` makes. -/
def Conn.new (server : Bool) (settings : Settings) (params : TransportParams) : Conn where
  server := server
  localParams := { params with maxRecordSize := defaultMaxRecordSize }
  remoteParams := .default
  bidiIdtr := .init
  uniIdtr := .init
  rx :=
    { unsentMaxOffset := params.initialMaxData
      offset := 0
      maxOffset := params.initialMaxData
      window := params.initialMaxData
      ping := ⟨-1, -1⟩
      bidi := ⟨params.initialMaxStreamsBidi, params.initialMaxStreamsBidi⟩
      uni := ⟨params.initialMaxStreamsUni, params.initialMaxStreamsUni⟩ }
  tx :=
    { strmq := .init
      qre := .init
      offset := 0
      maxOffset := 0
      lastBlockedOffset := uint64Max
      pingLastSeq := -1
      bidi := ⟨0, if server then 1 else 0⟩
      uni := ⟨0, if server then 3 else 2⟩ }
  glitchRlim := .init settings.glitchRatelimBurst settings.glitchRatelimRate settings.initialTs
  strms := .empty
  lastTs := settings.initialTs
  idleTs := settings.initialTs
  flags := ⟨false, false, false, false⟩

/-- The endpoint of a new connection. -/
def Endp.new (server : Bool) (settings : Settings) (params : TransportParams) : Endp where
  reader := ⟨.reset, .init⟩
  st := ⟨.new server settings params, [], [], none, false⟩

/-- `dwnx_conn_server_new`, `dwnx_conn_client_new` -/
def connNew (server : Bool) (settings : Settings) (params : TransportParams) : Except Err Endp :=
  if params.Asserted then .ok (.new server settings params)
  else .error (.fault (.assertion .transportParams))

/-! ## Early data -/

/-- `dwnx_conn_set_0rtt_remote_transport_params` -/
def connSet0rttRemoteTransportParams (params : TransportParams) : M Unit := do
  assertThat .client ((← get).conn.server = false)
  modifyConn fun conn => { conn with
    remoteParams := { TransportParams.default with
      initialMaxStreamsBidi := params.initialMaxStreamsBidi
      initialMaxStreamsUni := params.initialMaxStreamsUni
      initialMaxStreamDataBidiLocal := params.initialMaxStreamDataBidiLocal
      initialMaxStreamDataBidiRemote := params.initialMaxStreamDataBidiRemote
      initialMaxStreamDataUni := params.initialMaxStreamDataUni
      initialMaxData := params.initialMaxData
      maxDatagramFrameSize := params.maxDatagramFrameSize }
    tx.bidi.maxStreams := params.initialMaxStreamsBidi
    tx.uni.maxStreams := params.initialMaxStreamsUni
    tx.maxOffset := params.initialMaxData
    flags.earlyTransportParamsSet := true }

/-- `delete_strm_tx_strmq`, on the queue. -/
def deleteStrmTxStrmq (strms : KeyMap ℕ Strm) (pq : Pq ℕ) (strm : ℕ) : Pq ℕ :=
  match pq.index strm with
  | none => pq
  | some _ => pq.remove (cycleLess strms) strm

/-- `dwnx_conn_discard_early_data_state` -/
def connDiscardEarlyDataState : M Unit := do
  assertThat .client ((← get).conn.server = false)
  let ids := (← read).order (← get).conn.strms.keys
  modifyConn fun conn => { conn with
    flags.earlyTransportParamsSet := false
    flags.qxTransportParametersSent := false
    remoteParams := .default
    strms := .empty
    tx.strmq := ids.foldl (deleteStrmTxStrmq conn.strms) conn.tx.strmq
    tx.bidi := ⟨0, 0⟩
    tx.uni := ⟨0, 2⟩
    tx.offset := 0
    tx.maxOffset := 0
    tx.lastBlockedOffset := uint64Max
    rx.unsentMaxOffset := conn.localParams.initialMaxData
    rx.maxOffset := conn.localParams.initialMaxData
    rx.bidi := ⟨conn.localParams.initialMaxStreamsBidi, conn.localParams.initialMaxStreamsBidi⟩
    rx.uni := ⟨conn.localParams.initialMaxStreamsUni, conn.localParams.initialMaxStreamsUni⟩ }
  -- the streams of rejected early data count no more
  modify fun st => { st with closed := [] }

/-- `dwnx_conn_tls_early_data_rejected` -/
def connTlsEarlyDataRejected : M Unit := do
  assertThat .client ((← get).conn.server = false)
  if (← get).conn.flags.earlyDataRejected then return
  emit .earlyDataRejected
  modifyConn fun conn => { conn with flags.earlyDataRejected := true }
  connDiscardEarlyDataState

/-- `dwnx_conn_get_max_data_left` -/
def Conn.maxDataLeft (conn : Conn) : ℕ := sub64 conn.tx.maxOffset conn.tx.offset

/-! ## The end of a connection -/

/-- `dwnx_conn_get_idle_expiry` -/
def Conn.idleExpiry (conn : Conn) : ℕ :=
  let timeout :=
    if conn.remoteParams.maxIdleTimeout = 0 ∨
        (conn.localParams.maxIdleTimeout ≠ 0 ∧
          conn.localParams.maxIdleTimeout < conn.remoteParams.maxIdleTimeout) then
      conn.localParams.maxIdleTimeout
    else conn.remoteParams.maxIdleTimeout
  if timeout = 0 ∨ conn.idleTs > uint64Max - timeout then uint64Max else conn.idleTs + timeout

/-- `dwnx_conn_handle_expiry` -/
def connHandleExpiry (ts : ℕ) : M Unit := do
  connUpdateTimestamp ts
  if (← get).conn.idleExpiry ≤ ts then throw .idleClose

/-- `dwnx_ccerr_type` -/
inductive CcerrType
  | transport
  | application
  | idleClose
  deriving DecidableEq

/-- `dwnx_ccerr` -/
structure Ccerr where
  type : CcerrType
  errorCode : ℕ
  frameType : ℕ
  reason : List UInt8
  deriving DecidableEq

/-- The frame for `ccerr`. -/
def Ccerr.frame (ccerr : Ccerr) : FrameConnectionClose where
  type :=
    if ccerr.type = .application then FrameType.connectionCloseApp else FrameType.connectionClose
  errorCode := ccerr.errorCode
  frameType := if ccerr.type = .application then 0 else ccerr.frameType
  reasonlen := ccerr.reason.length
  reason := ccerr.reason

/-- `dwnx_conn_write_connection_close`; the record has an encoder of its own. -/
def connWriteConnectionClose (destlen : ℕ) (ccerr : Ccerr) (ts : ℕ) : R (List UInt8) := do
  liftM (connUpdateTimestamp ts)
  let state := (← get).reader.rcrd.state
  if state = .draining ∨ state = .closing then return []
  if destlen ≤ qreRecordlenSize then throw .nobuf
  if ccerr.type = .idleClose then return []
  let qre ← Exec.ofExcept (Qre.start destlen)
  let qre ← Exec.ofExcept (qre.encodeFrame (.connectionClose ccerr.frame))
  liftM (emit (.txFr (.connectionClose ccerr.frame)))
  let record ← Exec.ofExcept qre.final
  setState .closing
  return record

/-! ## Runs -/

/-- A call of the application, other than from a callback. -/
inductive Call
  | read (data : List UInt8) (ts : ℕ)
  | writevStream (destlen : ℕ) (finFlag : Bool) (streamId : ℕ) (datav : Vecs) (ts : ℕ)
  | writevDatagram (destlen : ℕ) (datav : Vecs) (ts : ℕ)
  | writeRecord (destlen ts : ℕ)
  | writeConnectionClose (destlen : ℕ) (ccerr : Ccerr) (ts : ℕ)
  | handleExpiry (ts : ℕ)
  | app (call : AppCall)
  | set0rttRemoteTransportParams (params : TransportParams)
  | tlsEarlyDataRejected

/-- Carries out a call; the result is the record that it writes. -/
def Call.run : Call → R (List UInt8)
  | read data ts => do
    connRead data ts
    return []
  | writevStream destlen finFlag streamId datav ts =>
    liftM (connWritevStream destlen finFlag streamId datav ts)
  | writevDatagram destlen datav ts => liftM (connWritevDatagram destlen datav ts)
  | writeRecord destlen ts => liftM (connWriteRecord destlen ts)
  | writeConnectionClose destlen ccerr ts => connWriteConnectionClose destlen ccerr ts
  | handleExpiry ts => do
    liftM (connHandleExpiry ts)
    return []
  | app call => liftM do
    emit (.appCall call)
    connApply call
    return []
  | set0rttRemoteTransportParams params => liftM do
    connSet0rttRemoteTransportParams params
    return []
  | tlsEarlyDataRejected => liftM do
    connTlsEarlyDataRejected
    return []

/-- The connection is still in use after the call: it returned no error, or, not
    being a read, only a refusal or a request to be called again. -/
def Call.Continues (call : Call) : Except Err (List UInt8) → Prop
  | .ok _ => True
  | .error e => e.isBenign ∧ ∀ data ts, call ≠ .read data ts

/-- The endpoints that calls allowed by `P` lead to, from `e₀`. -/
inductive Reach (env : Env) (P : Call → Endp → Prop) (e₀ : Endp) : Endp → Prop
  | init : Reach env P e₀ e₀
  | call {e e' : Endp} {call : Call} {r : Except Err (List UInt8)} (h : Reach env P e₀ e)
      (hP : P call e) (hrun : call.run env e = (r, e')) (hr : call.Continues r) :
      Reach env P e₀ e'

end Dwnx
