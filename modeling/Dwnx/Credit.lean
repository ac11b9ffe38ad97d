import Dwnx.Flow
import Dwnx.Hearing
import Dwnx.Lts.Credit

/-!
# Limits on receiving

* `credit_conserved`: what is granted to the peer is what the transport parameters and the
  application grant, and what is received and not passed on;
* `credit_rises`: the limits announced rise, and the last one is enforced;
* `credit_exact`: both of a run in which no early data is rejected, where every byte received
  is passed on or granted again.
-/

namespace Dwnx

variable {env : Env} {server : Bool} {settings : Settings} {params : TransportParams} {e : Endp}

theorem Run.server_eq (h : Run env server settings params e) : e.st.conn.server = server := by
  obtain ⟨c, hc, -, heq⟩ := h.keep (P := fun c => c.conn.server = server) rfl
    fun l c c' _ hp hstep => hstep.server.trans hp
  rw [hc.st]
  exact heq

/-- The limits of the transport parameters. -/
theorem Run.rxInitial (h : Run env server settings params e) (k : Credit) :
    e.st.conn.rxInitial k = params.credit server k := by
  rw [Conn.rxInitial, h.localParams, h.server_eq]
  cases k <;> rfl

theorem Run.granted (h : Run env server settings params e) (k : Limit) :
    e.st.conn.unsentLimit k =
      min k.credit.bound (params.credit server k.credit + given k (recent e.st.trace)) := by
  have hnew := (h.sound_new env.Passive).phase.localParams
  have hinit : (Cfg.new server settings params).GivenOk k := by
    cases k with
    | data => exact (Nat.min_eq_right hnew.initialMaxData).symm
    | streamsBidi => exact (Nat.min_eq_right hnew.initialMaxStreamsBidi).symm
    | streamsUni => exact (Nat.min_eq_right hnew.initialMaxStreamsUni).symm
  obtain ⟨c, hat, -, hc⟩ := h.keep hinit fun _ _ _ hs hc hstep => hstep.givenOk hs.toInv hc
  rw [← h.rxInitial, hat.st]
  exact hc

/-- What is granted to the peer, announced or not, is what the transport parameters and the
    application have granted, and the data that was received and is not passed on, up to the
    greatest limit that there is. -/
theorem credit_conserved (h : Run env server settings params e) (k : Limit) :
    e.st.conn.unsentLimit k =
      min k.credit.bound (params.credit server k.credit + given k (recent e.st.trace)) :=
  h.granted k

theorem Run.creditOk (h : Run env server settings params e) (k : Credit) :
    ∃ c, At (Steps env.Passive (Cfg.new server settings params)) e c ∧ c.CreditOk k := by
  have hinit : (Cfg.new server settings params).CreditOk k := by
    refine ⟨⟨_, .single _, fun n hn => ?_⟩, by rintro _ ⟨⟩, fun _ _ _ => rfl⟩
    cases k with
    | stream id => cases hn
    | _ => exact Option.some.inj hn
  obtain ⟨c, hat, -, hc⟩ := h.keep hinit fun _ _ _ hs hc hstep => hstep.creditOk hs.toInv hc
  exact ⟨c, hat, hc⟩

/-- The limits that frames announce rise, and the last one is the limit that is enforced. -/
theorem Run.rises (h : Run env server settings params e) (k : Credit) :
    ∃ v, Rising (params.credit server k :: credits k (recent e.st.trace)) v ∧
      ∀ n, e.st.conn.rxLimit k = some n → n = v := by
  obtain ⟨c, hat, hc⟩ := h.creditOk k
  obtain ⟨v, hv, hlast⟩ := hc.rises
  rw [← h.rxInitial, hat.st]
  exact ⟨v, hv, fun n hn => (hlast n hn).symm⟩

/-- The limits that frames announce rise from those of the transport parameters, none is
    above the greatest that there is, and the last one is the limit that is enforced. -/
theorem credit_rises (h : Run env server settings params e) (k : Credit) :
    ∃ v, Rising (params.credit server k :: credits k (recent e.st.trace)) v ∧
      (∀ n, e.st.conn.rxLimit k = some n → n = v) ∧
      ∀ n ∈ credits k (recent e.st.trace), n ≤ k.bound := by
  obtain ⟨v, hv, hlast⟩ := h.rises k
  obtain ⟨c, hat, hc⟩ := h.creditOk k
  exact ⟨v, hv, hlast, hat.st ▸ hc.bound⟩

/-- A client extends its limit on data, announces it, and stops reading a stream. -/
def grantedRun : RunTo Env.quiet fun e => credits .data (recent e.st.trace) == [300] &&
    given .data (recent e.st.trace) == 101 where
  calls := [.app (.extendMaxOffset 100), .writeRecord 100 0, .writeRecord 100 0,
    .read [64, 4, 10, 1, 1, 65] 0, .app (.shutdownStreamRead 1 7),
    .read [64, 5, 14, 1, 1, 1, 66] 0]
  any := by decide +kernel

theorem credit_conserved_granted : ∃ e, Run Env.quiet false smallSettings smallParams e ∧
    given .data (recent e.st.trace) = 101 ∧ e.st.conn.rx.unsentMaxOffset = 301 := by
  obtain ⟨e, h, hp⟩ := grantedRun.exists_run
  rw [Bool.and_eq_true, beq_iff_eq, beq_iff_eq] at hp
  refine ⟨e, h, hp.2, (credit_conserved h .data).trans ?_⟩
  rw [hp.2]
  rfl

theorem credit_rises_granted : ∃ e, Run Env.quiet false smallSettings smallParams e ∧
    credits .data (recent e.st.trace) = [300] ∧ e.st.conn.rx.maxOffset = 300 := by
  obtain ⟨e, h, hp⟩ := grantedRun.exists_run
  rw [Bool.and_eq_true, beq_iff_eq, beq_iff_eq] at hp
  obtain ⟨v, hv, hlast, -⟩ := credit_rises h .data
  have hv := hv.last
  rw [hp.1] at hv
  exact ⟨e, h, hp.1, (hlast _ rfl).trans (Option.some.inj hv).symm⟩

/-! ## Every byte -/

/-- What is still to come of the STREAM frame that the parser is in the middle of. -/
def Reader.toCome (reader : Reader) : ℕ :=
  match reader.body with
  | some b => b.left
  | none => 0

/-- The data received is what was passed on, what was dropped, and, as long as anything is
    read, what is still to come of the STREAM frame that the parser is in the middle of. -/
theorem Run.received (h : Run env server settings params e) :
    ∃ left, passedLen e.st.trace + droppedLen e.st.trace + left = e.st.conn.rx.offset ∧
      (e.reader.rcrd.state.isOver = false → left = e.reader.toCome) := by
  obtain ⟨c, hat, -, hc⟩ := h.keep (P := Cfg.ReceivedOk) rfl
    fun _ _ _ hs hc hstep => hstep.receivedOk hs.toInv hc
  refine ⟨c.toCome, ?_, fun hover => ?_⟩
  · rw [hat.st, passedLen, droppedLen, ← List.sum_map_add]
    exact hc
  · rw [Cfg.toCome, hat.reader.body hover]
    rfl

/-- What is granted of connection data is what the transport parameters and the application
    have granted, and what came for streams that were read no more, up to the greatest limit
    that there is. Every byte received is passed on, in its place, or dropped, and then it is
    of such a stream. The limits announced rise, none is above the greatest, and the last one
    is enforced. -/
theorem credit_exact (h : Run env server settings params e)
    (hr : ∀ ev ∈ e.st.trace, ev.isRejected = false) :
    e.st.conn.rx.unsentMaxOffset =
      min maxVarint (params.initialMaxData + (extendedLen e.st.trace + droppedLen e.st.trace)) ∧
    Along Event.HeardWell e.st.trace ∧
    (∃ left, passedLen e.st.trace + droppedLen e.st.trace + left = e.st.conn.rx.offset ∧
      (e.reader.rcrd.state.isOver = false → left = e.reader.toCome)) ∧
    ∀ k, ∃ v, Rising (params.credit server k :: credits k e.st.trace) v ∧
      (∀ n, e.st.conn.rxLimit k = some n → n = v) ∧ ∀ n ∈ credits k e.st.trace, n ≤ k.bound := by
  have hrecent : recent e.st.trace = e.st.trace := recent_of_unrejected hr
  refine ⟨?_, ?_, h.received, fun k => ?_⟩
  · have hgiven := h.granted .data
    rw [hrecent, given_data] at hgiven
    exact hgiven
  · obtain ⟨c, hat, -, hc, -⟩ := h.hearOk
    rw [hat.st]
    exact hc.events
  · obtain ⟨v, hv, hlast⟩ := h.rises k
    obtain ⟨c, hat, hc⟩ := h.creditOk k
    have hbound := hat.st ▸ hc.bound
    rw [hrecent] at hv hbound
    exact ⟨v, hv, hlast, hbound⟩

/-- A client extends its limit on data, and stops reading a stream between two frames. -/
def droppedRun : RunTo Env.quiet fun e => e.st.trace.all (fun ev => !ev.isRejected) &&
    extendedLen e.st.trace == 100 && passedLen e.st.trace == 1 && droppedLen e.st.trace == 1 where
  calls := [.app (.extendMaxOffset 100), .read [64, 4, 10, 1, 1, 65] 0,
    .app (.shutdownStreamRead 1 7), .read [64, 5, 14, 1, 1, 1, 66] 0]
  any := by decide +kernel

theorem credit_exact_dropped : ∃ e, Run Env.quiet false smallSettings smallParams e ∧
    passedLen e.st.trace = 1 ∧ droppedLen e.st.trace = 1 ∧ e.st.conn.rx.unsentMaxOffset = 301 := by
  obtain ⟨e, h, hp⟩ := droppedRun.exists_run
  simp only [Bool.and_eq_true, beq_iff_eq, List.all_eq_true, Bool.not_eq_true'] at hp
  obtain ⟨⟨⟨hr, hextended⟩, hpassed⟩, hdropped⟩ := hp
  obtain ⟨hcredit, -⟩ := credit_exact h hr
  rw [hextended, hdropped] at hcredit
  exact ⟨e, h, hpassed, hdropped, hcredit⟩

end Dwnx
