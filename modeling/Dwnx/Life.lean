import Dwnx.Lts.Ends
import Dwnx.Runs

/-!
# The life of a stream

What holds of the streams and of the queue between the calls of a run, and in what
order frames and callbacks about one stream come.

* `lifeCycle`: the flags, the queue and the identifiers;
* `identifiers_live_once`: what the history says of identifiers;
* `scheduledQueued`: frames that are scheduled are not lost, with the exception shown
  by `not_scheduledQueued`;
* `terminated`: nothing is sent on a stream after its end, with the exception shown by
  `not_terminated`.
-/

namespace Dwnx

variable {env : Env} {server : Bool} {settings : Settings} {params : TransportParams} {e : Endp}

/-! ## Streams, queue and identifiers -/

/-- What the functions of the connection keep about streams and the queue, with
    callbacks that call nothing. -/
structure Conn.LifeCycle (conn : Conn) : Prop where
  /-- The entries of the queue are the streams whose index says so. -/
  mem_queue : ∀ id, id ∈ conn.tx.strmq.q ↔
    (∃ s, conn.findStream id = some s) ∧ conn.isTxQueued id = true
  index : ∀ i id, conn.tx.strmq.q[i]? = some id → conn.tx.strmq.index id = some i
  cycle : ∀ id s id' s', conn.findStream id = some s → conn.findStream id' = some s' →
    s.cycle = s'.cycle
  queued : ∀ id s, conn.findStream id = some s →
    s.flags.sendResetStream = true ∨ s.flags.sendStopSending = true ∨
      s.flags.sendStreamDataBlocked = true ∨
      s.flags.shutRd = false ∧ s.flags.stopSending = false ∧ s.shouldSendMaxStreamData = true →
    conn.isTxQueued id = true
  shouldCloseStream : ∀ id s, conn.findStream id = some s → s.shouldCloseStream = false
  sendResetStream : ∀ id s, conn.findStream id = some s → s.flags.sendResetStream = true →
    s.flags.shutWr = true ∧ s.flags.resetStream = true
  stopSendingRecved : ∀ id s, conn.findStream id = some s → s.flags.stopSendingRecved = true →
    s.flags.shutWr = true
  resetStreamRecved : ∀ id s, conn.findStream id = some s → s.flags.resetStreamRecved = true →
    s.flags.shutRd = true
  localUni : ∀ id s, conn.findStream id = some s → bidiStream id = false →
    conn.localStream id = true → s.flags.shutRd = true
  remoteUni : ∀ id s, conn.findStream id = some s → bidiStream id = false →
    conn.localStream id = false → s.flags.shutWr = true
  localId : ∀ id s, conn.findStream id = some s → conn.localStream id = true →
    id < conn.nextStreamId id
  remoteId : ∀ id s, conn.findStream id = some s → conn.localStream id = false →
    (conn.idtr id).Opened id ∧ ordStreamId id ≤ conn.rxMaxStreams id

/-- A queued stream is one whose index says so. -/
theorem Conn.QueueOk.mem_iff {conn : Conn} (h : conn.QueueOk) (id : ℕ) :
    id ∈ conn.tx.strmq.q ↔ (∃ s, conn.findStream id = some s) ∧ conn.isTxQueued id = true := by
  constructor
  · intro hm
    obtain ⟨s, hs⟩ := h.found id hm
    exact ⟨⟨s, hs⟩, (h.isTxQueued_iff hs).2 hm⟩
  · rintro ⟨⟨s, hs⟩, hq⟩
    exact h.queued id s hs hq

theorem lifeCycle_of_sound {c : Cfg} (hs : Sound env.Passive c) (hp : env.Passive)
    (hidle : c.pending = .idle) : c.conn.LifeCycle := by
  have hclose (id : ℕ) (s : Strm) (hf : c.conn.findStream id = some s) :
      s.shouldCloseStream = false := by
    by_contra hn
    rcases hs.pending.closable id s hf (by simpa using hn) with h | h <;>
      rw [hidle] at h <;> cases h
  exact {
    mem_queue := hs.queue.mem_iff
    index := hs.queue.wf
    cycle := fun id s id' s' h h' => (hs.queue.cycle id s h).trans (hs.queue.cycle id' s' h').symm
    queued := fun id s hf hsend => by
      refine (hs.queue.isTxQueued_iff hf).2 (hs.queued hp id s hf (hclose id s hf) fun hn => ?_)
      obtain ⟨h1, h2, h3, h4⟩ := hn
      rcases hsend with h | h | h | ⟨hr, ht, h⟩
      · simp [h1] at h
      · simp [h2] at h
      · simp [h3] at h
      · simp [hr, ht, h] at h4
    shouldCloseStream := hclose
    sendResetStream := fun id s hf h =>
      have := (hs.strms id s hf).sendResetStream h
      ⟨this.1, this.2.1⟩
    stopSendingRecved := fun id s hf => (hs.strms id s hf).stopSendingRecved
    resetStreamRecved := fun id s hf => (hs.strms id s hf).resetStreamRecved
    localUni := fun id s hf => (hs.strms id s hf).localUni
    remoteUni := fun id s hf => (hs.strms id s hf).remoteUni
    localId := hs.ids.localId
    remoteId := fun id s hf hl => (hs.ids.remoteId id s hf hl).2 }

/-- Between the calls of a run, streams and queue are as they should be. -/
theorem lifeCycle (hp : env.Passive) (h : Run env server settings params e) :
    e.st.conn.LifeCycle := by
  obtain ⟨c, hc, hs⟩ := h.steps
  rw [hc.st]
  exact lifeCycle_of_sound hs hp hc.between.pending

/-- A stream with a STOP_SENDING scheduled is queued. -/
def stoppedRun : RunTo Env.quiet fun e => e.st.conn.tx.strmq.q == [0] where
  calls := [.app .openBidiStream, .app (.shutdownStreamRead 0 5)]
  any := by decide +kernel

theorem lifeCycle_stopped : ∃ e, Run Env.quiet false smallSettings smallParams e ∧
    e.st.conn.tx.strmq.q = [0] ∧ e.st.conn.LifeCycle := by
  obtain ⟨e, h, hp⟩ := stoppedRun.exists_run
  exact ⟨e, h, beq_iff_eq.1 hp, lifeCycle Env.quiet_passive h⟩

/-! ## Identifiers -/

theorem Run.names (h : Run env server settings params e) :
    ∃ c, At (Steps env.Passive (Cfg.new server settings params)) e c ∧ Sound env.Passive c ∧
      c.RemoteOk ∧ c.LocalOk ∧ c.KindOk := by
  refine h.keep ⟨⟨along_nil, fun _ _ _ _ _ => nofun, fun _ _ _ h => absurd h ?_, fun _ _ h => ?_⟩,
    ⟨nofun, List.nodup_nil, fun id => ?_⟩, nofun⟩
    fun l c c' hs hc hstep => ⟨hstep.remoteOk hs.toInv hc.1, hstep.localOk hs.toInv hc.2.1,
      hstep.kindOk hs.toInv hc.2.2⟩
  · rw [Conn.idtr]
    split <;> exact Idtr.not_opened_init _
  · exact absurd rfl h
  · change 0 = Conn.nextStreamId (Conn.new server settings params) id / 4
    unfold Conn.nextStreamId
    cases server <;> cases bidiStream id <;> simp [Conn.new]

/-- A stream of the peer is opened once, before any callback names it, closed at most
    once, and not heard of again. The identifiers handed out are distinct, of the local
    endpoint and of the kind asked for, and no more than the peer allows. -/
theorem identifiers_live_once (h : Run env server settings params e) :
    (∀ pre ev post, e.st.trace = pre ++ ev :: post → ∀ id, e.st.conn.localStream id = false →
      ev.streamId? = some id → ev.InOrder pre id) ∧
    (∀ id rx tx, e.st.conn.localStream id = false →
      Event.streamClose id rx tx ∈ e.st.trace → e.st.conn.findStream id = none) ∧
    (openedIds e.st.trace).Nodup ∧
    (∀ bidi id, Event.opened bidi id ∈ e.st.trace →
      e.st.conn.localStream id = true ∧ bidiStream id = bidi) ∧
    (∀ id ∈ openedIds e.st.trace, e.st.conn.localStream id = true) ∧
    ((openedIds e.st.trace).countP (fun id => bidiStream id = true) ≤
        e.st.conn.tx.bidi.maxStreams ∧
      bidiStream e.st.conn.tx.bidi.nextStreamId = true) ∧
    (openedIds e.st.trace).countP (fun id => bidiStream id = false) ≤
        e.st.conn.tx.uni.maxStreams ∧
      bidiStream e.st.conn.tx.uni.nextStreamId = false := by
  obtain ⟨c, hc, hs, hremote, hlocal, hkind⟩ := h.names
  rw [hc.st]
  obtain ⟨hbidi, -⟩ := hs.ids.bidi_next
  obtain ⟨huni, -⟩ := hs.ids.uni_next
  refine ⟨hremote.order, fun id rx tx hl he => ?_, hlocal.nodup,
    hkind, fun id hid => (hlocal.isLocal id hid).1, ⟨?_, hbidi⟩, ?_, huni⟩
  · by_contra hf
    refine hremote.closed id hl hf ?_ rx tx he
    rw [hc.between.pending]
    nofun
  · have := hlocal.count c.conn.tx.bidi.nextStreamId
    simp only [hbidi, Conn.nextStreamId, if_true] at this
    exact this.trans_le hs.ids.bidiLimit
  · have := hlocal.count c.conn.tx.uni.nextStreamId
    simp only [huni, Conn.nextStreamId, Bool.false_eq_true, if_false] at this
    exact this.trans_le hs.ids.uniLimit

/-- Two streams are opened by a client, and the server is heard of another. -/
def namesRun : RunTo Env.quiet fun e =>
    openedIds e.st.trace == [0, 2] && .opened false 2 ∈ e.st.trace &&
      .streamOpen 1 ∈ e.st.trace where
  calls := [.app .openBidiStream, .app .openUniStream, .read [64, 4, 10, 1, 1, 65] 0]
  any := by decide +kernel

theorem identifiers_live_once_open : ∃ e, Run Env.quiet false smallSettings smallParams e ∧
    openedIds e.st.trace = [0, 2] ∧ (openedIds e.st.trace).Nodup ∧
    Event.opened false 2 ∈ e.st.trace ∧ bidiStream 2 = false ∧
    Event.streamOpen 1 ∈ e.st.trace := by
  obtain ⟨e, h, hp⟩ := namesRun.exists_run
  simp only [Bool.and_eq_true, beq_iff_eq, decide_eq_true_eq] at hp
  obtain ⟨⟨hids, hopened⟩, hremote⟩ := hp
  obtain ⟨-, -, hnodup, hkind, -⟩ := identifiers_live_once h
  exact ⟨e, h, hids, hnodup, hopened, (hkind false 2 hopened).2, hremote⟩

/-! ## Scheduled frames -/

/-- A stream with a RESET_STREAM or a STOP_SENDING scheduled is in the queue, where its
    index says. -/
def Conn.ScheduledQueued (conn : Conn) : Prop :=
  ∀ id s, conn.findStream id = some s → s.Scheduled →
    ∃ i, conn.tx.strmq.index id = some i ∧ conn.tx.strmq.q[i]? = some id

/-- No frame scheduled is lost, as long as no stream is popped after the callback about its
    STOP_SENDING has scheduled a frame of the same stream or of one before it. -/
theorem scheduledQueued (h : Run env server settings params e)
    (hstops : StopsUndisturbed e.st.trace) : e.st.conn.ScheduledQueued := by
  obtain ⟨c, hc, hs⟩ := h.steps
  rw [hc.st] at hstops ⊢
  intro id s hf hsend
  exact hs.queue.wf.mem_iff.1 (hs.send hstops id s hf hsend)

/-- The callback about a STOP_SENDING resets the stream. -/
def Env.resetsOnStop : Env := { Env.quiet with
  app := fun _ e => match e with
    | .streamStopSending id code => ⟨[.shutdownStreamWrite id code], true⟩
    | _ => ⟨[], true⟩ }

/-- The RESET_STREAM scheduled by the callback is lost with the place in the queue. -/
def lostRun : RunTo Env.resetsOnStop fun e =>
    (e.st.conn.findStream 0).any (·.flags.sendResetStream) && e.st.conn.tx.strmq.q.isEmpty where
  calls := [.app .openBidiStream, .app (.shutdownStreamRead 0 5), .writeRecord 100 0]
  any := by decide +kernel

theorem not_scheduledQueued : ∃ e, Run Env.resetsOnStop false smallSettings smallParams e ∧
    ¬e.st.conn.ScheduledQueued := by
  obtain ⟨e, h, hp⟩ := lostRun.exists_run
  rw [Bool.and_eq_true, Option.any_eq_true, List.isEmpty_iff] at hp
  obtain ⟨⟨s, hf, hsend⟩, hq⟩ := hp
  refine ⟨e, h, fun hall => ?_⟩
  obtain ⟨i, -, hi⟩ := hall 0 s hf (.inl hsend)
  rw [hq] at hi
  cases hi

/-- The callback about the STOP_SENDING of the first stream resets the second one. -/
def Env.resetsNext : Env := { Env.quiet with
  app := fun _ e => match e with
    | .streamStopSending 0 _ => ⟨[.shutdownStreamWrite 4 9], true⟩
    | _ => ⟨[], true⟩
  fuel := 1 }

/-- The stream that the callback resets waits for the next record, as there is room for
    the STOP_SENDING only. -/
def nextRun : RunTo Env.resetsNext fun e =>
    e.st.conn.tx.strmq.q == [4] && .txFr (.stopSending ⟨0, 5⟩) ∈ e.st.trace &&
      StopsUndisturbed e.st.trace where
  calls := [.app .openBidiStream, .app .openBidiStream, .writeRecord 100 0,
    .app (.shutdownStreamRead 0 5), .writeRecord 5 0]
  any := by decide +kernel

theorem scheduledQueued_reset : ∃ e, Run Env.resetsNext false smallSettings smallParams e ∧
    Event.txFr (.stopSending ⟨0, 5⟩) ∈ e.st.trace ∧ e.st.conn.tx.strmq.q = [4] ∧
    e.st.conn.ScheduledQueued := by
  obtain ⟨e, h, hp⟩ := nextRun.exists_run
  simp only [Bool.and_eq_true, beq_iff_eq, decide_eq_true_eq] at hp
  obtain ⟨⟨hq, hstop⟩, hundisturbed⟩ := hp
  exact ⟨e, h, hstop, hq, scheduledQueued h hundisturbed⟩

/-! ## The end of sending -/

theorem Run.ends (h : Run env server settings params e) :
    ∃ c, At (Steps env.Passive (Cfg.new server settings params)) e c ∧ Sound env.Passive c ∧
      (ResetsInTime c.st.trace → c.EndsOk) := by
  refine h.keep (fun _ => ⟨along_nil, fun _ ⟨_, h, _⟩ => ?_, nofun⟩)
    fun l c c' hs hc hstep hres => ?_
  · cases h
  · obtain ⟨evs, htrace, -⟩ := hstep.trace
    exact hstep.endsOk hs.toInv (hc (htrace ▸ hres).of_append) hres

/-- Nothing is sent on a stream after its end, and no stream object is used that is
    gone, unless a callback resets a stream too late. -/
theorem terminated (h : Run env server settings params e) (hres : ResetsInTime e.st.trace) :
    Terminated e.st.trace ∧ ∀ call : Call, call.Legal e →
      ResetsInTime (call.run env e).2.st.trace →
      (call.run env e).1 ≠ .error (.fault .useAfterFree) := by
  obtain ⟨c, hc, -, hends⟩ := h.ends
  rw [hc.st] at hres ⊢
  refine ⟨(hends hres).terminated, fun call hl hin herr => ?_⟩
  obtain ⟨c, -, hspec⟩ := h.spec hl
  exact (hspec.of_error (Prod.ext herr rfl)).useAfterFree rfl hin

/-- The callback about the limit on streams resets a stream. -/
def Env.resetsOnLimit : Env := { Env.quiet with
  app := fun _ e => match e with
    | .extendMaxRemoteStreamsBidi _ => ⟨[.shutdownStreamWrite 0 7], true⟩
    | _ => ⟨[], true⟩ }

/-- A stream that is reset by a callback while data with FIN is being written to it is
    reset after its FIN. -/
def lateRun : RunTo Env.resetsOnLimit fun e =>
    e.st.trace.getLast? = some (.strmqPop 0) &&
      e.st.trace.dropLast.getLast? = some (.txFr (.resetStream ⟨0, 7, 3⟩)) &&
      .txFr (.stream ⟨3, true, 0, 0, 3, [[1, 2, 3]]⟩) ∈
        since Event.isRejected e.st.trace.dropLast.dropLast where
  calls := [.app .openBidiStream, .app (.extendMaxStreamsBidi 4),
    .writevStream 100 true 0 [[1, 2, 3]] 0, .writeRecord 100 0, .writeRecord 100 0]
  any := by decide +kernel

theorem not_terminated : ∃ e, Run Env.resetsOnLimit false smallSettings smallParams e ∧
    ¬Terminated e.st.trace := by
  obtain ⟨e, h, hp⟩ := lateRun.exists_run
  simp only [Bool.and_eq_true, decide_eq_true_eq] at hp
  obtain ⟨⟨hpop, hreset⟩, hfin⟩ := hp
  obtain ⟨l, htrace⟩ := List.getLast?_eq_some_iff.1 hpop
  rw [htrace, List.dropLast_concat] at hreset hfin
  obtain ⟨pre, rfl⟩ := List.getLast?_eq_some_iff.1 hreset
  rw [List.dropLast_concat] at hfin
  refine ⟨e, h, fun hall => ?_⟩
  rw [htrace] at hall
  exact hall.of_append pre _ [] rfl _ 0 rfl rfl ⟨_, hfin, rfl, rfl⟩

/-- A stream that is reset by the callback while another one is ended with FIN. -/
def timelyRun : RunTo Env.resetsOnLimit fun e =>
    .txFr (.resetStream ⟨0, 7, 0⟩) ∈ since Event.isRejected e.st.trace &&
      .txFr (.stream ⟨3, true, 4, 0, 3, [[1, 2, 3]]⟩) ∈ since Event.isRejected e.st.trace &&
      ResetsInTime e.st.trace where
  calls := [.app .openBidiStream, .app .openBidiStream, .app (.extendMaxStreamsBidi 4),
    .writevStream 100 true 4 [[1, 2, 3]] 0, .writeRecord 100 0, .writeRecord 100 0]
  any := by decide +kernel

theorem terminated_fin : ∃ e, Run Env.resetsOnLimit false smallSettings smallParams e ∧
    Ended e.st.trace 0 ∧ Ended e.st.trace 4 ∧ Terminated e.st.trace := by
  obtain ⟨e, h, hp⟩ := timelyRun.exists_run
  simp only [Bool.and_eq_true, decide_eq_true_eq] at hp
  obtain ⟨⟨hreset, hfin⟩, hintime⟩ := hp
  exact ⟨e, h, ⟨_, hreset, rfl⟩, ⟨_, hfin, rfl, rfl⟩, (terminated h hintime).1⟩

end Dwnx
