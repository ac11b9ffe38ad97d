import Dwnx.Reading

/-!
# Flow control

* `flowExact`: the accounts are exact, and no subtraction of them wraps.
-/

namespace Dwnx

open Exec

variable {env : Env} {server : Bool} {settings : Settings} {params : TransportParams} {e e' : Endp}

/-! ## Accounts -/

/-- The accounts of the data sent and received: within the limits, and the sums over
    all streams that were ever opened. -/
structure St.Balanced (st : St) : Prop where
  txOffset : st.conn.tx.offset ≤ st.conn.tx.maxOffset
  txMaxOffset : st.conn.tx.maxOffset ≤ maxVarint
  txStrm : ∀ id s, st.conn.findStream id = some s →
    s.tx.offset ≤ s.tx.maxOffset ∧ s.tx.maxOffset ≤ maxVarint
  txSum : st.conn.tx.offset =
    st.conn.strms.sumOf (·.tx.offset) + (st.closed.map (·.tx.offset)).sum
  rxOffset : st.conn.rx.offset ≤ st.conn.rx.maxOffset
  rxMaxOffset : st.conn.rx.maxOffset ≤ st.conn.rx.unsentMaxOffset
  unsentMaxOffset : st.conn.rx.unsentMaxOffset ≤ maxVarint
  rxStrm : ∀ id s, st.conn.findStream id = some s →
    s.rx.lastOffset ≤ s.rx.maxOffset ∧ s.rx.maxOffset ≤ s.rx.unsentMaxOffset ∧
      s.rx.unsentMaxOffset ≤ maxVarint
  rxSum : st.conn.rx.offset =
    st.conn.strms.sumOf (·.rx.lastOffset) + (st.closed.map (·.rx.lastOffset)).sum

/-- What the code computes with the accounts is what it means: nothing wraps. -/
structure Conn.Exact (conn : Conn) : Prop where
  enforceFlowControl : ∀ id s len, conn.findStream id = some s →
    conn.enforceFlowControl s len =
      min len (min (s.tx.maxOffset - s.tx.offset) (conn.tx.maxOffset - conn.tx.offset))
  maxDataLeft : conn.maxDataLeft = conn.tx.maxOffset - conn.tx.offset
  /-- `conn_max_data_violated` -/
  maxDataViolated : ∀ len, sub64 conn.rx.maxOffset conn.rx.offset < len ↔
    conn.rx.maxOffset < conn.rx.offset + len
  /-- `conn_should_send_max_data` -/
  shouldSendMaxData :
    conn.rx.window < mul64 4 (sub64 conn.rx.unsentMaxOffset conn.rx.maxOffset) ↔
      conn.rx.window < 4 * (conn.rx.unsentMaxOffset - conn.rx.maxOffset)
  shouldSendMaxStreamData : ∀ id s, conn.findStream id = some s →
    (s.shouldSendMaxStreamData = true ↔ s.rx.window < 4 * (s.rx.unsentMaxOffset - s.rx.maxOffset))

theorem sub64_eq_of_le {a b : ℕ} (h : b ≤ a) (ha : a ≤ maxVarint) : sub64 a b = a - b :=
  sub64_eq h (ha.trans_lt (by decide))

/-- Four times a difference of offsets does not wrap. -/
theorem mul64_four_sub {a b : ℕ} (h : b ≤ a) (ha : a ≤ maxVarint) :
    mul64 4 (sub64 a b) = 4 * (a - b) := by
  rw [sub64_eq_of_le h ha]
  have : maxVarint = 2 ^ 62 - 1 := rfl
  exact mul64_eq (by omega)

theorem St.Balanced.exact {st : St} (h : st.Balanced) : st.conn.Exact where
  enforceFlowControl id s len hf := by
    obtain ⟨h1, h2⟩ := h.txStrm id s hf
    rw [Conn.enforceFlowControl, sub64_eq_of_le h1 h2, sub64_eq_of_le h.txOffset h.txMaxOffset]
  maxDataLeft := sub64_eq_of_le h.txOffset h.txMaxOffset
  maxDataViolated len := by
    have hle := h.rxOffset
    rw [sub64_eq_of_le hle (h.rxMaxOffset.trans h.unsentMaxOffset)]
    omega
  shouldSendMaxData := by rw [mul64_four_sub h.rxMaxOffset h.unsentMaxOffset]
  shouldSendMaxStreamData id s hf := by
    obtain ⟨-, h1, h2⟩ := h.rxStrm id s hf
    rw [Strm.shouldSendMaxStreamData, decide_eq_true_iff, mul64_four_sub h1 h2]

/-- The local parameters are those that the connection was created with. -/
theorem Run.localParams (h : Run env server settings params e) :
    e.st.conn.localParams = { params with maxRecordSize := defaultMaxRecordSize } := by
  obtain ⟨c, hc, -, heq⟩ := h.keep
    (P := fun c => c.conn.localParams = { params with maxRecordSize := defaultMaxRecordSize }) rfl
    fun l c c' _ hp hstep => hstep.localParams.trans hp
  rw [hc.st]
  exact heq

theorem balanced_of_sound {quiet : Prop} {c : Cfg} (hs : Sound quiet c)
    (huni : c.conn.localParams.UniBounded) : c.st.Balanced where
  txOffset := hs.flow.txOffset
  txMaxOffset := hs.flow.txMaxOffset
  txStrm id s hf := ⟨(hs.strms id s hf).txOffset, (hs.strms id s hf).txMaxOffset⟩
  txSum := hs.flow.txSum
  rxOffset := hs.flow.rxOffset
  rxMaxOffset := hs.flow.rxMaxOffset
  unsentMaxOffset := hs.flow.unsentMaxOffset
  rxStrm id s hf :=
    have h := hs.strms id s hf
    ⟨h.lastOffset, h.rxMaxOffset huni, h.unsentMaxOffset huni⟩
  rxSum := hs.flow.rxSum

/-- Between the calls of a run the accounts are exact, and no call finds that it has
    written more than it was allowed to. -/
theorem flowExact (huni : params.UniBounded) (h : Run env server settings params e) :
    e.st.Balanced ∧ e.st.conn.Exact ∧
      ∀ call : Call, call.Legal e →
        (call.run env e).1 ≠ .error (.fault (.assertion .dataBlocked)) ∧
          (call.run env e).1 ≠ .error (.fault (.assertion .streamDataBlocked)) := by
  have hlocal := h.localParams
  obtain ⟨c, hc, hs⟩ := h.steps
  have hb : e.st.Balanced := by
    rw [hc.st] at hlocal ⊢
    refine balanced_of_sound hs ?_
    rw [hlocal]
    exact huni
  refine ⟨hb, hb.exact, fun call hl => ⟨fun herr => ?_, fun herr => ?_⟩⟩
  · obtain ⟨_, -, hspec⟩ := h.spec hl
    exact (hspec.of_error (Prod.ext herr rfl)).dataBlocked rfl
  · obtain ⟨_, -, hspec⟩ := h.spec hl
    exact (hspec.of_error (Prod.ext herr rfl)).streamDataBlocked rfl

/-- A client that has sent and received some data. -/
def dataRun : RunTo Env.quiet fun e => e.st.conn.tx.offset == 3 && e.st.conn.rx.offset == 1 where
  calls := [.app .openBidiStream, .writevStream 100 true 0 [[1, 2, 3]] 0,
    .read [64, 4, 10, 1, 1, 65] 0]
  any := by decide +kernel

theorem flowExact_data : ∃ e, Run Env.quiet false smallSettings smallParams e ∧
    e.st.conn.tx.offset = 3 ∧ e.st.conn.rx.offset = 1 ∧ e.st.Balanced := by
  obtain ⟨e, h, hp⟩ := dataRun.exists_run
  simp only [Bool.and_eq_true, beq_iff_eq] at hp
  exact ⟨e, h, hp.1, hp.2, (flowExact (by decide) h).1⟩

end Dwnx
