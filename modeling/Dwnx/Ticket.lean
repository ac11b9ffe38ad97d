import Dwnx.Conn.Api
import Dwnx.Params

/-!
# The transport parameters of a ticket

A client remembers the transport parameters of a server with the ticket that it resumes
from, and sends early data by them before the server has sent its own.

* `transportParams_roundTrip`: what is encoded is decoded again, also by way of a ticket.
-/

namespace Dwnx

variable {params : TransportParams}

/-! ## Tickets -/

/-- The parameters that early data goes by: those of the server. -/
def Conn.ticketSource (conn : Conn) : TransportParams :=
  if conn.server then conn.localParams else conn.remoteParams

/-- `dwnx_conn_encode_0rtt_transport_params` -/
def Conn.encode0rttTransportParams (conn : Conn) (destlen : ℕ) : Except Err (List UInt8) :=
  let src := conn.ticketSource
  let params := { TransportParams.default with
    initialMaxStreamsBidi := src.initialMaxStreamsBidi
    initialMaxStreamsUni := src.initialMaxStreamsUni
    initialMaxStreamDataBidiLocal := src.initialMaxStreamDataBidiLocal
    initialMaxStreamDataBidiRemote := src.initialMaxStreamDataBidiRemote
    initialMaxStreamDataUni := src.initialMaxStreamDataUni
    initialMaxData := src.initialMaxData
    maxDatagramFrameSize := src.maxDatagramFrameSize }
  let params := if conn.server then { params with maxIdleTimeout := src.maxIdleTimeout } else params
  transportParamsEncode destlen params

/-- `dwnx_conn_decode_and_set_0rtt_transport_params` -/
def connDecodeAndSet0rttTransportParams (data : List UInt8) : M Unit := do
  assertThat .client ((← get).conn.server = false)
  let params ← Exec.ofExcept (transportParamsDecode data)
  connSet0rttRemoteTransportParams params

/-! ## Round trips -/

/-- The encoder refuses a buffer that is too short, and no other. -/
theorem transportParamsEncode_exact (h : params.InRange) (destlen : ℕ) :
    transportParamsEncode destlen params =
      if destlen < params.bytes.length then .error .nobuf else .ok params.bytes := by
  have hw : params.Writable := fun e he => written_le h he
  split
  · next hlt =>
    rw [transportParamsEncode, transportParamsLen_eq hw]
    exact if_pos hlt
  · next hle => exact transportParamsEncode_eq hw (Nat.le_of_not_lt hle)

/-- What a client has by a ticket. -/
def Conn.resumed (conn : Conn) (src : TransportParams) : Conn :=
  { conn with
    remoteParams := { TransportParams.default with
      initialMaxStreamsBidi := src.initialMaxStreamsBidi
      initialMaxStreamsUni := src.initialMaxStreamsUni
      initialMaxStreamDataBidiLocal := src.initialMaxStreamDataBidiLocal
      initialMaxStreamDataBidiRemote := src.initialMaxStreamDataBidiRemote
      initialMaxStreamDataUni := src.initialMaxStreamDataUni
      initialMaxData := src.initialMaxData
      maxDatagramFrameSize := src.maxDatagramFrameSize }
    tx.bidi.maxStreams := src.initialMaxStreamsBidi
    tx.uni.maxStreams := src.initialMaxStreamsUni
    tx.maxOffset := src.initialMaxData
    flags.earlyTransportParamsSet := true }

/-- The limits of the source are installed. -/
theorem ticket_roundTrip {conn : Conn} (h : conn.ticketSource.InRange) :
    ∃ ticket : List UInt8,
      (∀ destlen, conn.encode0rttTransportParams destlen =
        if destlen < ticket.length then .error .nobuf else .ok ticket) ∧
      ∀ env st, st.conn.server = false →
        connDecodeAndSet0rttTransportParams ticket env st =
          (.ok (), { st with conn := st.conn.resumed conn.ticketSource }) := by
  obtain ⟨idle, hidle, hencode⟩ : ∃ idle < 2 ^ 64, ∀ destlen,
      conn.encode0rttTransportParams destlen = transportParamsEncode destlen
        { conn.ticketSource with
          maxIdleTimeout := idle
          maxRecordSize := defaultMaxRecordSize } := by
    unfold Conn.encode0rttTransportParams
    cases conn.server with
    | true => exact ⟨_, h.maxIdleTimeout, fun _ => rfl⟩
    | false => exact ⟨0, by decide, fun _ => rfl⟩
  have hrange : { conn.ticketSource with
      maxIdleTimeout := idle
      maxRecordSize := defaultMaxRecordSize : TransportParams }.InRange :=
    { h with
      maxIdleTimeout := hidle
      maxRecordSize := (by decide : defaultMaxRecordSize ≤ maxVarint) }
  refine ⟨_, fun destlen => (hencode destlen).trans (transportParamsEncode_exact hrange destlen),
    fun env st hserver => ?_⟩
  have hwp : Exec.wp (connDecodeAndSet0rttTransportParams
      (TransportParams.bytes { conn.ticketSource with
        maxIdleTimeout := idle
        maxRecordSize := defaultMaxRecordSize }))
      (fun _ t => t = { st with conn := st.conn.resumed conn.ticketSource }) (fun _ _ => False)
      env st := by
    simp only [connDecodeAndSet0rttTransportParams, connSet0rttRemoteTransportParams, assertThat,
      Exec.wp_bind, Exec.wp_get', hserver, if_true, Exec.wp_pure, Exec.wp_ofExcept,
      decode_encode hrange]
    rfl
  obtain ⟨_, t, hrun, rfl⟩ := hwp.exists_ok
  exact hrun

/-- The round trip of the transport parameters, directly and by way of a ticket. -/
theorem transportParams_roundTrip :
    (∀ params : TransportParams, params.InRange → ∃ bs : List UInt8,
      transportParamsLen params = .ok bs.length ∧
      (∀ destlen, transportParamsEncode destlen params =
        if destlen < bs.length then .error .nobuf else .ok bs) ∧
      transportParamsDecode bs = .ok { params with
        maxIdleTimeout := params.maxIdleTimeout / milliseconds * milliseconds }) ∧
    ∀ conn : Conn, (conn.server = true → conn.localParams.InRange) →
      (conn.server = false → ∃ data, transportParamsDecode data = .ok conn.remoteParams) →
      ∃ ticket : List UInt8,
        (∀ destlen, conn.encode0rttTransportParams destlen =
          if destlen < ticket.length then .error .nobuf else .ok ticket) ∧
        ∀ env st, st.conn.server = false →
          connDecodeAndSet0rttTransportParams ticket env st =
            (.ok (), { st with conn := st.conn.resumed conn.ticketSource }) := by
  refine ⟨fun params h => ⟨params.bytes, ?_, transportParamsEncode_exact h, decode_encode h⟩,
    fun conn hlocal hremote => ticket_roundTrip ?_⟩
  · exact transportParamsLen_eq fun e he => written_le h he
  · unfold Conn.ticketSource
    cases hserver : conn.server with
    | true => exact hlocal hserver
    | false =>
      obtain ⟨data, hdata⟩ := hremote hserver
      exact (inRange_of_decode hdata).1

/-- Parameters with an idle timeout that is no whole number of milliseconds. -/
def roundedParams : TransportParams :=
  { TransportParams.default with initialMaxData := 200, maxIdleTimeout := 1500000 }

theorem transportParams_roundTrip_rounded : ∃ bs : List UInt8,
    transportParamsEncode bs.length roundedParams = .ok bs ∧
      transportParamsDecode bs = .ok { roundedParams with maxIdleTimeout := 1000000 } := by
  obtain ⟨bs, -, hencode, hdecode⟩ := transportParams_roundTrip.1 roundedParams
    ⟨by decide, by decide, by decide, by decide, by decide, by decide, by decide, by decide,
      by decide⟩
  exact ⟨bs, (hencode _).trans (if_neg (lt_irrefl _)), hdecode⟩

end Dwnx
