import Dwnx.Lts.Stopping
import Dwnx.Runs

/-!
# What the application hears

* `heard_in_order`: whatever the peer sends, the data of a stream is passed on in order,
  without a gap, until its end or until the application stops reading it.
* `stop_heeded`: the application hears nothing of a stream that it has stopped reading, if no
  empty frame ends that stream.
-/

namespace Dwnx

variable {env : Env} {server : Bool} {settings : Settings} {params : TransportParams} {e : Endp}

theorem Cfg.hearOk_new : (Cfg.new server settings params).HearOk where
  events := along_nil
  unused _ _ := ⟨rfl, by rintro ⟨_, ⟨⟩⟩, by rintro ⟨_, _, ⟨⟩⟩⟩
  strm _ _ := by rintro ⟨⟩
  ends _ _ _ := by rintro ⟨⟩
  body _ _ := by rintro ⟨⟩
  pending _ := by rintro ⟨⟩

theorem Run.hearOk (h : Run env server settings params e) :
    ∃ c, At (Steps env.Passive (Cfg.new server settings params)) e c ∧
      Sound env.Passive c ∧ c.HearOk ∧ c.EndsCame := by
  refine h.keep ⟨Cfg.hearOk_new, by rintro _ ⟨⟩⟩ fun _ _ _ hs hc hstep => ?_
  exact ⟨hstep.hearOk hs.toInv hc.1, hstep.endsCame hs.toInv hc.1 hc.2⟩

/-- The data is passed on in order, and what frames with FIN say of the end is what is told. -/
theorem Run.inOrder (h : Run env server settings params e) :
    Along Event.HeardWell e.st.trace ∧
      (∀ id offset data, Event.recvStreamData true id offset data ∈ recent e.st.trace →
        offset + data.length = heardLen (recent e.st.trace) id) ∧
      ∀ fr : FrameStream, Event.rxFr (.stream fr) ∈ recent e.st.trace → fr.fin = true →
        FinHeard (recent e.st.trace) fr.streamId ∨ Stopped (recent e.st.trace) fr.streamId ∨
          heardLen (recent e.st.trace) fr.streamId < fr.offset + fr.len := by
  obtain ⟨c, hat, -, hc, hends⟩ := h.hearOk
  rw [hat.st]
  refine ⟨hc.events, hc.ends, fun fr hmem hfin => ?_⟩
  rcases hends fr hmem hfin with h | h | h | ⟨left, hpos, -, h⟩
  · cases hat.between.pending.symm.trans h
  · exact .inl h
  · exact .inr (.inl h)
  · exact .inr (.inr (h ▸ Nat.lt_add_of_pos_right hpos))

/-- Whatever the peer sends, and whatever callbacks do, the data of a stream that is passed
    on begins where the data heard of before ended; an empty piece comes only with the end;
    nothing comes after the end, which is told once, where a frame with FIN said it is. Once
    such a frame has come, the end is told as soon as the data before it has come. Once the
    application has stopped reading, no data is passed on, and before that none is dropped. -/
theorem heard_in_order (h : Run env server settings params e) :
    Along Event.HeardWell e.st.trace ∧
      (∀ id offset data, Event.recvStreamData true id offset data ∈ recent e.st.trace →
        offset + data.length = heardLen (recent e.st.trace) id) ∧
      (∀ fr : FrameStream, Event.rxFr (.stream fr) ∈ recent e.st.trace → fr.fin = true →
        FinHeard (recent e.st.trace) fr.streamId ∨ Stopped (recent e.st.trace) fr.streamId ∨
          heardLen (recent e.st.trace) fr.streamId < fr.offset + fr.len) ∧
      ∀ id s, e.st.conn.findStream id = some s →
        heardLen (recent e.st.trace) id ≤ s.rx.lastOffset ∧
        (Stopped (recent e.st.trace) id ↔ s.flags.stopSending = true) := by
  obtain ⟨hevents, hends, hcame⟩ := h.inOrder
  refine ⟨hevents, hends, hcame, fun id s hf => ?_⟩
  obtain ⟨c, hat, -, hc, -⟩ := h.hearOk
  rw [hat.st] at hf ⊢
  obtain ⟨hlen, hstop, -⟩ := hc.strm id s hf
  exact ⟨Nat.le_of_add_right_le hlen.le, hstop⟩

/-- A client stops reading a stream of the server after the first byte. -/
def stoppedReading : RunTo Env.quiet fun e =>
    .discarded 1 1 ∈ e.st.trace && heardLen (recent e.st.trace) 1 == 2 where
  calls := [.read [64, 4, 10, 1, 1, 65] 0, .app (.shutdownStreamRead 1 7),
    .read [64, 5, 14, 1, 1, 1, 66] 0]
  any := by decide +kernel

theorem heard_in_order_stopped : ∃ e, Run Env.quiet false smallSettings smallParams e ∧
    Event.discarded 1 1 ∈ e.st.trace ∧ heardLen (recent e.st.trace) 1 = 2 ∧
    Along Event.HeardWell e.st.trace := by
  obtain ⟨e, h, hp⟩ := stoppedReading.exists_run
  rw [Bool.and_eq_true, decide_eq_true_eq, beq_iff_eq] at hp
  exact ⟨e, h, hp.1, hp.2, (heard_in_order h).1⟩

/-! ## Streams that are read no more -/

theorem Cfg.endsShut_new : (Cfg.new server settings params).EndsShut where
  unused _ := by rintro ⟨⟩
  strm _ _ := by rintro ⟨⟩

theorem Cfg.heedOk_new : (Cfg.new server settings params).HeedOk where
  events := along_nil
  received _ := by rintro ⟨⟩

theorem Run.heeded (h : Run env server settings params e) :
    ∃ c, At (Steps env.Passive (Cfg.new server settings params)) e c ∧ Sound env.Passive c ∧
      c.HearOk ∧ c.EndsShut ∧ (Along Event.InTime c.st.trace → c.HeedOk) := by
  refine h.keep ⟨Cfg.hearOk_new, Cfg.endsShut_new, fun _ => Cfg.heedOk_new⟩
    fun _ _ _ hs hc hstep => ?_
  obtain ⟨hhear, hshut, hheed⟩ := hc
  refine ⟨hstep.hearOk hs.toInv hhear, hstep.endsShut hs.toInv hshut, fun hin => ?_⟩
  obtain ⟨evs, htrace, -⟩ := hstep.trace
  exact hstep.heedOk hs.toInv hhear hin (hheed (htrace ▸ hin).of_append)

/-- The application hears nothing of a stream after it has stopped reading it, unless an
    empty frame ends the stream. Whether there is data in it or not, a frame with FIN shuts
    the stream as soon as its data has come. -/
theorem stop_heeded (h : Run env server settings params e) (hin : Along Event.InTime e.st.trace) :
    Along Event.Heeds e.st.trace ∧
      (∀ id s, e.st.conn.findStream id = some s →
        (Stopped (recent e.st.trace) id ↔ s.flags.stopSending = true)) ∧
      (e.reader.rcrd.state.isOver = false → ∀ (fr : FrameStream) s,
        Event.rxFr (.stream fr) ∈ recent e.st.trace → fr.fin = true →
        e.st.conn.findStream fr.streamId = some s →
        s.flags.shutRd = true ∨ ∃ left, e.reader.body = some ⟨fr.streamId, left, true⟩) := by
  obtain ⟨c, hat, -, hhear, hshut, hheed⟩ := h.heeded
  rw [hat.st] at hin ⊢
  refine ⟨(hheed hin).events, fun id s hf => (hhear.strm id s hf).stopped,
    fun hover fr s hmem hfin hf => ?_⟩
  rcases hshut.strm fr s hmem hfin hf with h | h | h
  · cases hat.between.pending.symm.trans h
  · exact .inl h
  · exact .inr (hat.reader.body hover ▸ h)

/-- A STREAM frame with FIN and no data came. -/
def Event.isEmptyEnd : Event → Bool
  | .rxFr (.stream fr) => fr.fin && fr.len == 0
  | _ => false

theorem inTime_of_no_emptyEnd {trace : List Event} (h : ∀ e ∈ trace, e.isEmptyEnd = false) :
    Along Event.InTime trace := by
  have hnot {fr : FrameStream} (hmem : Event.rxFr (.stream fr) ∈ trace) {pre : List Event}
      (hempty : fr.EmptyEnd pre) : False := by
    have := h _ hmem
    rw [Event.isEmptyEnd, hempty.1, hempty.2.1] at this
    cases this
  intro pre e post htrace
  cases e with
  | rxFr fr =>
    cases fr with
    | stream fr => exact fun hempty => (hnot (by simp [htrace]) hempty).elim
    | _ => trivial
  | scheduled reset id code =>
    cases reset with
    | false =>
      intro fr hlast hempty
      obtain ⟨e, he, hrx⟩ := List.mem_filterMap.1 (List.mem_of_getLast? hlast)
      cases e with
      | rxFr fr' =>
        cases hrx
        have hpre : Event.rxFr (.stream fr) ∈ pre := (List.rtakeWhile_suffix _ _).subset he
        exact (hnot (by simp [htrace, hpre]) hempty).elim
      | _ => cases hrx
    | true => trivial
  | _ => trivial

/-- A client stops reading a stream of the server, which ends with data. -/
def stoppedEnd : RunTo Env.quiet fun e =>
    .discarded 1 1 ∈ e.st.trace && (e.st.conn.findStream 1).any (·.flags.shutRd) &&
      e.st.trace.all fun e => !e.isEmptyEnd where
  calls := [.read [64, 4, 10, 1, 1, 65] 0, .app (.shutdownStreamRead 1 7),
    .read [64, 5, 15, 1, 1, 1, 66] 0]
  any := by decide +kernel

theorem stop_heeded_data : ∃ e, Run Env.quiet false smallSettings smallParams e ∧
    Event.discarded 1 1 ∈ e.st.trace ∧ (e.st.conn.findStream 1).any (·.flags.shutRd) = true ∧
      Along Event.Heeds e.st.trace := by
  obtain ⟨e, h, hp⟩ := stoppedEnd.exists_run
  simp only [Bool.and_eq_true, decide_eq_true_eq, List.all_eq_true, Bool.not_eq_true'] at hp
  exact ⟨e, h, hp.1.1, hp.1.2, (stop_heeded h (inTime_of_no_emptyEnd hp.2)).1⟩

/-- A stream ends with an empty frame after the client has stopped reading it. -/
def stoppedEmptyEnd : RunTo Env.quiet fun e =>
    e.st.trace.getLast? = some (.recvStreamData true 1 1 []) &&
      .scheduled false 1 7 ∈ recent e.st.trace.dropLast where
  calls := [.read [64, 4, 10, 1, 1, 65] 0, .app (.shutdownStreamRead 1 7),
    .read [64, 4, 15, 1, 1, 0] 0]
  any := by decide +kernel

theorem not_stop_heeded : ∃ e, Run Env.quiet false smallSettings smallParams e ∧
    ¬Along Event.Heeds e.st.trace := by
  obtain ⟨e, h, hp⟩ := stoppedEmptyEnd.exists_run
  rw [Bool.and_eq_true, decide_eq_true_eq, decide_eq_true_eq] at hp
  obtain ⟨hlast, hstop⟩ := hp
  obtain ⟨pre, htrace⟩ := List.getLast?_eq_some_iff.1 hlast
  rw [htrace, List.dropLast_concat] at hstop
  refine ⟨e, h, fun hheeds => ?_⟩
  rw [htrace] at hheeds
  exact (along_concat.1 hheeds).2 ⟨7, hstop⟩

end Dwnx
