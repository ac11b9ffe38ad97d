import Dwnx.Reading
import Dwnx.Lts.Limits

/-!
# Send limits

* `send_limits`: limits never move backwards, a frame that does not move one forward is
  refused, and so are transport parameters below those remembered.
-/

namespace Dwnx

open Exec

variable {env : Env} {server : Bool} {settings : Settings} {params early : TransportParams}
  {c c₀ : Cfg} {e e' e₀ : Endp} {ts : ℕ} {data p : List UInt8}

/-! ## Runs that go forward -/

/-- Early data is set up at most once, before any stream is opened and before the
    parameters of the peer have been taken in, and it is not rejected. -/
def Call.Forward (call : Call) (e : Endp) : Prop :=
  match call with
  | .set0rttRemoteTransportParams params =>
    params.Bounded ∧ e.st.Unused ∧ e.st.conn.flags.earlyTransportParamsSet = false ∧
      ∀ tp, Event.rxFr (.qxTransportParameters tp) ∉ e.st.trace
  | .tlsEarlyDataRejected => False
  | _ => True

theorem Call.Forward.legal {call : Call} (h : call.Forward e) : call.Legal e := by
  cases call with
  | set0rttRemoteTransportParams params => exact ⟨h.1, h.2.1⟩
  | tlsEarlyDataRejected => exact h.elim
  | _ => trivial

/-- What a call of such a run does. -/
theorem Call.Forward.spec {call : Call} (h₀ : Sound env.Passive c₀)
    (hc : At (Forwards env.Passive c₀) e c) (h : call.Forward e) :
    wp call.run (fun r e' => ∃ c', At (Forwards env.Passive c₀) e' c' ∧
      c'.out = c.out ++ call.adds r)
      (RunErr (Forwards env.Passive c₀) c call) env e := by
  refine Call.spec (Forwards.timed h₀) hc (fun l c c' hc hs he hr => hc.tail (hs.forward he hr))
    call h.legal ?_ ?_
  · rintro ⟨params, rfl⟩ c' hs
    obtain ⟨-, -, hset, hnone⟩ := h
    rw [hc.st] at hset hnone
    refine hc.mem.tail ⟨.early, hs, nofun, fun _ => ⟨Bool.eq_false_iff.2 fun hparams => ?_, hset⟩⟩
    obtain ⟨tp, htp⟩ := (hc.mem.steps.sound h₀).params hparams
    exact hnone tp htp
  · rintro rfl
    exact h.elim

theorem reach_forwards (h₀ : Sound env.Passive c₀) (he₀ : At (Forwards env.Passive c₀) e₀ c)
    (h : Reach env Call.Forward e₀ e) : ∃ c, At (Forwards env.Passive c₀) e c := by
  induction h with
  | init => exact ⟨c, he₀⟩
  | @call e e' call r _ hforward hrun hr ih =>
    obtain ⟨c, hc⟩ := ih
    have hspec := hforward.spec h₀ hc
    cases r with
    | ok r =>
      obtain ⟨c', hc', -⟩ := hspec.of_ok hrun
      exact ⟨c', hc'⟩
    | error err =>
      obtain ⟨c', hc', -⟩ := (hspec.of_error hrun).benign hr.1 hr.2
      exact ⟨c', hc'⟩

/-- Such a run, from a new connection. -/
structure ForwardRun (env : Env) (server : Bool) (settings : Settings) (params : TransportParams)
    (e : Endp) : Prop where
  created : ∃ e₀, connNew server settings params = .ok e₀ ∧ Reach env Call.Forward e₀ e
  uni : params.initialMaxStreamDataUni ≤ uint64Max

theorem Reach.mono {P Q : Call → Endp → Prop} (hPQ : ∀ call e, P call e → Q call e)
    (h : Reach env P e₀ e) : Reach env Q e₀ e := by
  induction h with
  | init => exact .init
  | call _ hP hrun hr ih => exact ih.call (hPQ _ _ hP) hrun hr

theorem ForwardRun.run (h : ForwardRun env server settings params e) :
    Run env server settings params e where
  created := by
    obtain ⟨e₀, hnew, hreach⟩ := h.created
    exact ⟨e₀, hnew, hreach.mono fun _ _ h => h.legal⟩
  uni := h.uni

theorem ForwardRun.forwards (h : ForwardRun env server settings params e) :
    ∃ c, At (Forwards env.Passive (Cfg.new server settings params)) e c := by
  obtain ⟨e₀, hnew, hreach⟩ := h.created
  obtain rfl : .new server settings params = e₀ := by
    unfold connNew at hnew
    split at hnew <;> cases hnew
    rfl
  exact reach_forwards (h.run.sound_new _) { @at_new env server settings params with mem := .refl }
    hreach

/-! ## Frames that move no limit forward -/

/-- The value of the frame is not above the limit that it is about. -/
def Frame.Stale (conn : Conn) : Frame → Prop
  | .maxData fr => fr.maxData ≤ conn.tx.maxOffset
  | .maxStreams fr =>
    fr.maxStreams ≤
      if fr.type = FrameType.maxStreamsBidi then conn.tx.bidi.maxStreams else conn.tx.uni.maxStreams
  | .maxStreamData fr =>
    (bidiStream fr.streamId = true ∨ conn.localStream fr.streamId = true) ∧
      ∃ s, conn.findStream fr.streamId = some s ∧ fr.maxStreamData ≤ s.tx.maxOffset
  | _ => False

/-- The pass that the parser makes next. -/
def Endp.pass (e : Endp) (p : List UInt8) : Parsed :=
  Parse.pass e.st.conn.flags.qxTransportParametersSeen e.st.conn.localParams e.reader p

/-- A stream with a sending side passes the check of the frames about it. -/
theorem Conn.IdsOk.checkTx {conn : Conn} (h : conn.IdsOk) {id : ℕ} {s : Strm}
    (hdir : bidiStream id = true ∨ conn.localStream id = true)
    (hf : conn.strms.find id = some s) : conn.checkTx id = .ok () := by
  unfold Conn.checkTx
  cases hl : conn.localStream id with
  | true =>
    have hlt := h.localId id s hf hl
    unfold Conn.nextStreamId at hlt
    cases hb : bidiStream id <;> simpa [hb] using hlt
  | false =>
    have hb : bidiStream id = true := hdir.resolve_right (by rw [hl]; nofun)
    have hord := (h.remoteId id s hf hl).2.2
    unfold Conn.rxMaxStreams at hord
    simpa [hb] using hord

/-- Such a frame is refused. -/
theorem connRecvFrame_stale {fr : Frame} (hI : Inv c) (hstreams : c.StreamsOk)
    (hparams : c.params = true) {st : St} (hst : st.conn = c.conn) (h : fr.Stale c.conn) :
    wp (connRecvFrame ts fr) (fun _ _ => False) (fun err t => err = .proto ∧ t = st) env st := by
  obtain ⟨hbidi, huni⟩ := hstreams hparams
  cases fr with
  | maxData fr =>
    have h : fr.maxData ≤ c.conn.tx.maxOffset := h
    simp [connRecvFrame, connRecvMaxData, hst, h]
  | maxStreams fr =>
    simp only [Frame.Stale] at h
    simp only [connRecvFrame, connRecvMaxStreams, wp_bind, wp_get', wp_ite, wp_throw, hst]
    split at h
    · rw [if_neg (Nat.not_lt.2 (h.trans hbidi)), if_pos ‹_›, if_pos h]
      exact ⟨trivial, trivial⟩
    · rw [if_neg (Nat.not_lt.2 (h.trans huni)), if_neg ‹_›, if_pos h]
      exact ⟨trivial, trivial⟩
  | maxStreamData fr =>
    obtain ⟨hdir, s, hf, hle⟩ := h
    have hfind : st.conn.strms.find fr.streamId = some s := hst ▸ hf
    simp only [connRecvFrame, connRecvMaxStreamData, wp_bind, wp_get', wp_ite, hst,
      hI.ids.checkTx hdir hf, wp_ofExcept, if_neg (hf ▸ Option.some_ne_none s), recvMaxStreamData,
      wp_deref hfind, if_pos hle, wp_throw, and_self]
  | _ => exact h.elim

/-- What the parser does next is what the configuration allows. -/
theorem At.act {G : Cfg → Prop} (h : At G e c) (hp : p ≠ []) {act : Act}
    (hact : (e.pass p).act = act) (hne : act ≠ .nothing) :
    ∃ body', act.Sound c.conn.flags.qxTransportParametersSeen c.params c.body body' := by
  have hpass : e.pass p = c.pass e.reader p := by rw [Endp.pass, h.st, Cfg.pass]
  rw [hpass] at hact
  cases hover : e.reader.rcrd.state.isOver with
  | true =>
    refine absurd ?_ hne
    rw [← hact]
    unfold Cfg.pass Parse.pass
    cases hs : e.reader.rcrd.state <;> rw [hs] at hover <;> first
      | (cases hover; done)
      | rfl
  | false =>
    obtain ⟨body', hs, -⟩ :=
      (Parse.pass_sound c.conn.localParams h.reader.ok h.reader.phase hp hover).act
    rw [← h.reader.body hover] at hs
    exact ⟨body', hact ▸ hs⟩

/-- A pass that comes to a frame which moves no limit forward. -/
theorem connReadStep_stale {G : Cfg → Prop} (h : At G e c) (hI : Inv c) (hstreams : c.StreamsOk)
    (hp : p ≠ []) {fr : Frame} (hact : (e.pass p).act = .frame fr) (hstale : fr.Stale e.st.conn) :
    ∃ e', connReadStep ts p env e = (.error .proto, e') ∧ e'.st.conn = e.st.conn := by
  obtain ⟨_, hparams, -⟩ := h.act hp hact nofun
  rw [h.st] at hstale
  apply wp.exists_error
  rw [wp_connReadStep ts h.reader.ok.toReadable hp]
  change wp ((e.pass p).run ts) _ _ _ _
  rw [Parsed.wp_run, hact, Act.perform, wp_bind, wp_emit]
  refine wp_mono (connRecvFrame_stale hI hstreams hparams (by rw [h.st]) hstale)
    (fun _ _ h => h.elim) ?_
  rintro _ _ ⟨rfl, rfl⟩
  exact ⟨rfl, rfl⟩

/-! ## Transport parameters -/

/-- None of the limits remembered is above that of `params`. -/
def TransportParams.Keeps (early params : TransportParams) : Prop :=
  early.Within params ∧ early.maxDatagramFrameSize ≤ params.maxDatagramFrameSize

/-- What is remembered of `params`. -/
def TransportParams.remembered (params : TransportParams) : TransportParams :=
  { TransportParams.default with
    initialMaxStreamsBidi := params.initialMaxStreamsBidi
    initialMaxStreamsUni := params.initialMaxStreamsUni
    initialMaxStreamDataBidiLocal := params.initialMaxStreamDataBidiLocal
    initialMaxStreamDataBidiRemote := params.initialMaxStreamDataBidiRemote
    initialMaxStreamDataUni := params.initialMaxStreamDataUni
    initialMaxData := params.initialMaxData
    maxDatagramFrameSize := params.maxDatagramFrameSize }

theorem TransportParams.keeps_remembered : early.remembered.Keeps params ↔ early.Keeps params := by
  constructor
  · rintro ⟨⟨h1, h2, h3, h4, h5, h6⟩, h7⟩
    exact ⟨⟨h1, h2, h3, h4, h5, h6⟩, h7⟩
  · rintro ⟨⟨h1, h2, h3, h4, h5, h6⟩, h7⟩
    exact ⟨⟨h1, h2, h3, h4, h5, h6⟩, h7⟩

theorem deref_ne_internal {id : ℕ} {st : St} {Q : Strm → St → Prop} (hQ : ∀ s, Q s st) :
    wp (deref id) Q (fun err _ => err ≠ .internal) env st := by
  simp only [deref, wp_bind, wp_get']
  split
  · exact hQ _
  · simp

/-- The glitches of the peer are other frames. -/
theorem setMaxStreamOffset_ne_internal (hp : env.Passive) (id : ℕ) {st : St} :
    wp (setMaxStreamOffset id) (fun _ _ => True) (fun err _ => err ≠ .internal) env st := by
  simp only [setMaxStreamOffset, wp_bind, wp_get']
  split
  · trivial
  · next s hf =>
    simp only [wp_bind, wp_assertThat, wp_when, wp_modifyStrm hf]
    split
    · split
      · have hderef {st : St} {n : ℕ} : wp (deref id)
            (fun a t => wp (if a.flags.shutWr = true then pure () else
              callback (.extendMaxStreamData s.streamId n)) (fun _ _ => True)
              (fun err _ => err ≠ .internal) env t) (fun err _ => err ≠ .internal) env st :=
          deref_ne_internal fun a => by
            rw [wp_ite, wp_callback_passive hp]
            split <;> trivial
        split <;> split <;> first
          | exact hderef
          | trivial
      · simp
    · simp

theorem connRecvTransportParams_ne_internal (hp : env.Passive) {bytes : List UInt8} {st : St}
    (hd : transportParamsDecode bytes = .ok params) :
    wp (connRecvTransportParams bytes) (fun _ _ => True) (fun err _ => err ≠ .internal) env st := by
  have hwalk (ids : List ℕ) (st : St) : wp (ids.forM setMaxStreamOffset) (fun _ _ => True)
      (fun err _ => err ≠ .internal) env st := by
    induction ids generalizing st with
    | nil => trivial
    | cons id ids ih =>
      change wp (setMaxStreamOffset id >>= fun _ => ids.forM setMaxStreamOffset) _ _ _ _
      rw [wp_bind]
      exact wp_mono (setMaxStreamOffset_ne_internal hp id) (fun _ t _ => ih t) fun _ _ h => h
  have hvalidate (early : TransportParams) (st : St) :
      wp (connValidateEarlyTransportParams early) (fun _ _ => True)
      (fun err _ => err ≠ .internal) env st := by
    simp only [connValidateEarlyTransportParams, wp_bind, wp_get', wp_assertThat, wp_ite, wp_throw]
    repeat' split
    all_goals trivial
  have hrest (st : St) : wp (callback (.recvTransportParams params)) (fun _ t =>
      wp (Exec.when (t.conn.tx.bidi.maxStreams ≠ 0)
        (callback (.extendMaxLocalStreamsBidi t.conn.tx.bidi.maxStreams))) (fun _ t =>
        wp (Exec.when (t.conn.tx.uni.maxStreams ≠ 0)
          (callback (.extendMaxLocalStreamsUni t.conn.tx.uni.maxStreams))) (fun _ _ => True)
          (fun err _ => err ≠ .internal) env t)
        (fun err _ => err ≠ .internal) env t)
      (fun err _ => err ≠ .internal) env st := by
    simp only [wp_callback_passive hp, wp_when]
    repeat' split
    all_goals trivial
  simp only [connRecvTransportParams, wp_bind, wp_get', wp_ofExcept, hd, wp_modifyConn, wp_emit,
    wp_ite, wp_throw]
  split
  · simp
  refine wp_mono (Q := fun _ _ => True) ?_ (fun _ t _ => ?_) fun _ _ h => h
  · rw [wp_when]
    split
    · exact hvalidate _ _
    · trivial
  refine wp_mono (Q := fun _ _ => True) ?_ (fun _ t _ => hrest t) fun _ _ h => h
  rw [wp_when]
  split
  · simp only [wp_bind, wp_read, wp_get']
    exact hwalk _ _
  · trivial

/-- Parameters below those remembered are refused. -/
theorem connRecvTransportParams_below {bytes : List UInt8} {st : St}
    (hd : transportParamsDecode bytes = .ok params)
    (hsize : defaultMaxRecordSize ≤ params.maxRecordSize)
    (hclient : st.conn.server = false) (hset : st.conn.flags.earlyTransportParamsSet = true)
    (hbelow : ¬st.conn.remoteParams.Keeps params) :
    wp (connRecvTransportParams bytes) (fun _ _ => False)
      (fun err t => err = .proto ∧ t.conn = { st.conn with remoteParams := params }) env st := by
  simp only [connRecvTransportParams, wp_bind, wp_get', wp_ofExcept, hd, wp_modifyConn, wp_emit,
    wp_ite, wp_throw]
  rw [if_neg (Nat.not_lt.2 hsize), wp_when, if_pos hset]
  simp only [connValidateEarlyTransportParams, wp_bind, wp_get', wp_assertThat, wp_ite, wp_throw]
  rw [if_pos hclient, if_pos]
  · exact ⟨trivial, trivial⟩
  · by_contra hn
    refine hbelow ⟨?_, by omega⟩
    constructor <;> omega

/-- A pass that comes to the parameters of the peer. -/
theorem connReadStep_params {G : Cfg → Prop} (hp : env.Passive) (hG : Closed env.Passive G)
    (h : At G e c) (hts : c.conn.lastTs = ts) (hne : p ≠ [])
    (hrx : ∀ l c', Step env.Passive l c c' → (c.pass e.reader p).act.Receives l → G c')
    {bytes : List UInt8} (hact : (e.pass p).act = .params bytes)
    (hd : transportParamsDecode bytes = .ok params)
    (hsize : defaultMaxRecordSize ≤ params.maxRecordSize)
    (hkeeps : c.conn.flags.earlyTransportParamsSet = true → c.conn.remoteParams.Keeps params) :
    ∃ rest e', connReadStep ts p env e = (.ok rest, e') := by
  have hpass : c.pass e.reader p = e.pass p := by rw [Endp.pass, h.st, Cfg.pass]
  have hspec := connReadStep_spec True hG h.mem h.st h.between hts.symm h.reader hne hrx fun _ => by
    rw [hpass, hact]
    obtain ⟨q, hq⟩ := Parse.pass_certain _ _ _ _ _ hact
    refine ⟨fun err herr => ?_, params, hd, hsize, hkeeps⟩
    cases hq.symm.trans herr
  have hinternal : wp (connReadStep ts p) (fun _ _ => True) (fun err _ => err ≠ .internal)
      env e := by
    rw [wp_connReadStep ts h.reader.ok.toReadable hne]
    change wp ((e.pass p).run ts) _ _ _ _
    rw [Parsed.wp_run, hact]
    refine wp_mono (connRecvTransportParams_ne_internal hp hd) (fun _ t _ => ?_) fun _ _ h => h
    obtain ⟨q, hq⟩ := Parse.pass_certain _ _ _ _ _ hact
    have hq : (e.pass p).result = .ok (some q) := hq
    rw [wp_ofExcept, hq]
    trivial
  have hend : wp (connReadStep ts p) (fun _ _ => True) (fun _ _ => False) env e := by
    refine wp_mono (wp_and hspec hinternal) (fun _ _ _ => trivial) ?_
    rintro err _ ⟨⟨-, hfatal, hok⟩, hne⟩
    rcases hok trivial with h | h
    · exact hne h
    · rw [hfatal hp] at h
      cases h
  obtain ⟨rest, e', hrun, -⟩ := hend.exists_ok
  exact ⟨rest, e', hrun⟩

/-! ## The limits -/

/-- What was sent, and the streams opened, are within the limits. -/
structure Conn.SentWithin (conn : Conn) : Prop where
  offset : conn.tx.offset ≤ conn.tx.maxOffset
  bidi : conn.tx.bidi.nextStreamId / 4 ≤ conn.tx.bidi.maxStreams
  uni : conn.tx.uni.nextStreamId / 4 ≤ conn.tx.uni.maxStreams
  strms : ∀ id s, conn.findStream id = some s → s.tx.offset ≤ s.tx.maxOffset

theorem Sound.sentWithin {quiet : Prop} (h : Sound quiet c) : c.conn.SentWithin where
  offset := h.flow.txOffset
  bidi := h.ids.bidiLimit
  uni := h.ids.uniLimit
  strms id s hf := (h.strms id s hf).txOffset

/-- The run remembered `early` at some point, before which and after which it goes
    forward. -/
def Remembered (env : Env) (server : Bool) (settings : Settings) (params early : TransportParams)
    (e : Endp) : Prop :=
  ∃ e₁ e₂, ForwardRun env server settings params e₁ ∧
    (Call.set0rttRemoteTransportParams early).Forward e₁ ∧
    (Call.set0rttRemoteTransportParams early).run env e₁ = (.ok [], e₂) ∧
    Reach env Call.Forward e₂ e

theorem Remembered.config (h : Remembered env server settings params early e) :
    ∃ c, Sound env.Passive c ∧ At (Forwards env.Passive c) e c ∧ c.Remembers early.remembered := by
  obtain ⟨e₁, e₂, h₁, hforward, hrun, hreach⟩ := h
  obtain ⟨c₁, hc₁⟩ := h₁.forwards
  have h₀ := h₁.run.sound_new env.Passive
  obtain ⟨c₂, hc₂, -⟩ := (hforward.spec h₀ hc₁).of_ok hrun
  have hs := hc₂.mem.steps.sound h₀
  have hset : wp (Call.set0rttRemoteTransportParams early).run (fun _ e' =>
      e'.st.conn.flags.earlyTransportParamsSet = true ∧
        e'.st.conn.remoteParams = early.remembered) (fun _ _ => True) env e₁ := by
    simp only [Call.run, connSet0rttRemoteTransportParams, wp_liftM, wp_bind, wp_get',
      wp_assertThat, wp_modifyConn, wp_pure]
    split
    · exact ⟨trivial, rfl⟩
    · trivial
  have hset := hset.of_ok hrun
  rw [hc₂.st] at hset
  obtain ⟨c, hc⟩ := reach_forwards hs { hc₂ with mem := .refl } hreach
  obtain ⟨hs', hremembers⟩ := hc.mem.keep (P := fun c => c.Remembers early.remembered) hs
    (fun _ _ _ hp hf => hf.remembers hp) fun _ => hset
  exact ⟨c, hs', { hc with mem := .refl }, hremembers⟩

/-- Forward steps take in whatever the peer sends. -/
theorem Forwards.rx (l : Label) (c c' : Cfg) (h : Forwards env.Passive c₀ c)
    (hs : Step env.Passive l c c') (he : l ≠ .early) (hr : l ≠ .reject) :
    Forwards env.Passive c₀ c' := h.tail (hs.forward he hr)

/-- A client accepts the parameters of the peer if they keep what it remembers, and
    refuses them if not. -/
theorem Remembered.accepts (hp : env.Passive) (h : Remembered env server settings params early e)
    (hts : e.st.conn.lastTs ≤ ts) (hpass : Passes env ts e data e' p) (hne : p ≠ [])
    {bytes : List UInt8} {tp : TransportParams} (hact : (e'.pass p).act = .params bytes)
    (hd : transportParamsDecode bytes = .ok tp) (hsize : defaultMaxRecordSize ≤ tp.maxRecordSize) :
    (early.Keeps tp → ∃ rest e'', connReadStep ts p env e' = (.ok rest, e'')) ∧
    (¬early.Keeps tp → ∃ e'', connReadStep ts p env e' = (.error .proto, e'') ∧
      connRead data ts env e = (.error .proto, e'') ∧
      e''.st.conn = { e'.st.conn with remoteParams := tp }) := by
  obtain ⟨c, hs, hc, hremembers⟩ := h.config
  have hG := Forwards.timed hs
  obtain ⟨c', hc'⟩ := passes_at hG Forwards.rx hc hts hpass
  obtain ⟨hs', hremembers⟩ := hc'.mem.1.keep (P := fun c => c.Remembers early.remembered) hs
    (fun _ _ _ hp hf => hf.remembers hp) hremembers
  obtain ⟨_, -, hparams, -⟩ := hc'.act hne hact nofun
  obtain ⟨hset, hremote⟩ := hremembers hparams
  constructor
  · intro hkeeps
    refine connReadStep_params hp (hG.at ts) hc' hc'.mem.2 hne (fun l c'' hstep hl => ?_) hact hd
      hsize fun _ => ?_
    · exact ⟨Forwards.rx l _ _ hc'.mem.1 hstep hl.ne_early hl.ne_reject,
        (hstep.lastTs hl.ne_time).trans hc'.mem.2⟩
    · rw [hremote]
      exact TransportParams.keeps_remembered.2 hkeeps
  · intro hbelow
    have hrun : wp (connReadStep ts p) (fun _ _ => False) (fun err e'' => err = .proto ∧
        e''.st.conn = { e'.st.conn with remoteParams := tp }) env e' := by
      rw [wp_connReadStep ts hc'.reader.ok.toReadable hne]
      change wp ((e'.pass p).run ts) _ _ _ _
      rw [Parsed.wp_run, hact]
      rw [← TransportParams.keeps_remembered, ← hremote] at hbelow
      rw [hc'.st]
      exact wp_mono (connRecvTransportParams_below hd hsize (hs'.phase.client hset) hset hbelow)
        (fun _ _ h => h.elim) fun _ _ h => h
    obtain ⟨e'', hrun, hconn⟩ := hrun.exists_error
    exact ⟨e'', hrun, connRead_of_error hG Forwards.rx hc hts hpass hne hrun, hconn⟩

/-- The limits on sending never move backwards, and what was sent stays within them. A
    frame whose value is not above its limit is refused and changes nothing, and so are
    transport parameters with a limit below the one remembered, and no others. -/
theorem send_limits (hp : env.Passive) (h : ForwardRun env server settings params e) :
    e.st.conn.SentWithin ∧
    (∀ e', Reach env Call.Forward e e' → e.st.conn.LimitsLe e'.st.conn) ∧
    ∀ ts data e' p, e.st.conn.lastTs ≤ ts → Passes env ts e data e' p →
      e.st.conn.LimitsLe e'.st.conn ∧ e'.st.conn.SentWithin ∧
      (p ≠ [] →
        (∀ fr, (e'.pass p).act = .frame fr → fr.Stale e'.st.conn →
          ∃ e'', connRead data ts env e = (.error .proto, e'') ∧ e''.st.conn = e'.st.conn) ∧
        ∀ early bytes tp, Remembered env server settings params early e →
          (e'.pass p).act = .params bytes → transportParamsDecode bytes = .ok tp →
          defaultMaxRecordSize ≤ tp.maxRecordSize →
          ((∃ rest e'', connReadStep ts p env e' = (.ok rest, e'')) ↔ early.Keeps tp) ∧
          (¬early.Keeps tp → ∃ e'', connRead data ts env e = (.error .proto, e'') ∧
            e''.st.conn = { e'.st.conn with remoteParams := tp })) := by
  obtain ⟨c, hc⟩ := h.forwards
  have h₀ := h.run.sound_new env.Passive
  have hs := hc.mem.steps.sound h₀
  have hG := Forwards.timed hs
  have hstart : At (Forwards env.Passive c) e c := { hc with mem := .refl }
  have hlimits {c' : Cfg} (hc' : Forwards env.Passive c c') : e.st.conn.LimitsLe c'.conn := by
    rw [hc.st]
    exact (hc'.raises hs).limitsLe hs.ids
  refine ⟨?_, fun e' hreach => ?_, fun ts data e' p hts hpass => ?_⟩
  · rw [hc.st]
    exact hs.sentWithin
  · obtain ⟨c', hc'⟩ := reach_forwards hs hstart hreach
    rw [hc'.st]
    exact hlimits hc'.mem
  obtain ⟨c', hc'⟩ := passes_at hG Forwards.rx hstart hts hpass
  have hs' := hc'.mem.1.steps.sound hs
  refine ⟨?_, ?_, fun hne => ⟨fun fr hact hstale => ?_, ?_⟩⟩
  · rw [hc'.st]
    exact hlimits hc'.mem.1
  · rw [hc'.st]
    exact hs'.sentWithin
  · have hstreams := (Forwards.keep (P := Cfg.StreamsOk) (hc.mem.trans hc'.mem.1) h₀
      (fun _ _ _ hp hf => hf.streamsOk hp) nofun).2
    obtain ⟨e'', hrun, hconn⟩ := connReadStep_stale hc' hs'.toInv hstreams hne hact hstale
    exact ⟨e'', connRead_of_error hG Forwards.rx hstart hts hpass hne hrun, hconn⟩
  · intro early bytes tp hremembered hact hd hsize
    obtain ⟨haccept, hrefuse⟩ := hremembered.accepts hp hts hpass hne hact hd hsize
    refine ⟨⟨fun ⟨rest, e'', hok⟩ => ?_, haccept⟩, fun hbelow => ?_⟩
    · by_contra hbelow
      obtain ⟨_, herr, -⟩ := hrefuse hbelow
      cases (congrArg Prod.fst hok).symm.trans (congrArg Prod.fst herr)
    · obtain ⟨e'', -, hread, hconn⟩ := hrefuse hbelow
      exact ⟨e'', hread, hconn⟩

theorem RunTo.exists_forwardRun {p : Endp → Bool} (r : RunTo env p) :
    ∃ e, ForwardRun env false smallSettings smallParams e ∧ p e = true := by
  have h := r.any
  cases hr : runCalls env (.read firstRecord 0 :: r.calls)
    (.new false smallSettings smallParams) with
  | none =>
    rw [hr] at h
    cases h
  | some e =>
    rw [hr] at h
    refine ⟨e, ⟨⟨_, if_pos (by decide), reach_runCalls (fun call e hc => ?_) .init hr⟩, by decide⟩,
      h⟩
    cases call <;> trivial

/-- A client that may send 200 bytes refuses to be told that it may send 5. -/
def staleRun : RunTo Env.quiet fun e =>
    let x := connReadStep 0 [64, 2, 16, 5] Env.quiet (e.tick 0)
    let y := connReadStep 0 [16, 5] Env.quiet x.2
    e.st.conn.lastTs = 0 ∧ e.st.conn.tx.maxOffset = 200 ∧ x.1 = .ok (some [16, 5]) ∧
      y.1 = .ok (some [5]) ∧ (y.2.pass [5]).act = .frame (.maxData ⟨5⟩) ∧
      y.2.st.conn.tx.maxOffset = 200 where
  calls := []
  any := by decide +kernel

theorem send_limits_stale : ∃ e e', ForwardRun Env.quiet false smallSettings smallParams e ∧
    e.st.conn.tx.maxOffset = 200 ∧ connRead [64, 2, 16, 5] 0 Env.quiet e = (.error .proto, e') ∧
    e'.st.conn.tx.maxOffset = 200 := by
  obtain ⟨e, h, hp⟩ := staleRun.exists_forwardRun
  simp only [decide_eq_true_eq] at hp
  obtain ⟨hts, hmax, hx, hy, hact, hmax'⟩ := hp
  have hpass := ((@Passes.start Env.quiet 0 e _).pass (List.cons_ne_nil _ _)
    (Prod.ext hx rfl)).pass (List.cons_ne_nil _ _) (Prod.ext hy rfl)
  obtain ⟨e', hread, hconn⟩ := (((send_limits Env.quiet_passive h).2.2 0 _ _ _ hts.le hpass).2.2
    (List.cons_ne_nil _ _)).1 _ hact (by rw [Frame.Stale, hmax']; decide)
  refine ⟨e, e', h, hmax, hread, ?_⟩
  rw [hconn]
  exact hmax'

/-- Early data that is set up before any stream is opened, but after the parameters of
    the peer have come, takes limits back. -/
def earlyRun : RunTo Env.quiet fun e =>
    let x := (Call.set0rttRemoteTransportParams { smallParams with initialMaxData := 100 }).run
      Env.quiet e
    e.st.conn.strms.entries.length = 0 ∧ e.st.closed.length = 0 ∧
      e.st.conn.tx.bidi.nextStreamId = 0 ∧ e.st.conn.tx.uni.nextStreamId = 2 ∧
      e.st.conn.flags.earlyTransportParamsSet = false ∧ x.1 = .ok [] ∧
      e.st.conn.tx.maxOffset = 200 ∧ x.2.st.conn.tx.maxOffset = 100 where
  calls := []
  any := by decide +kernel

theorem not_send_limits : ∃ e e', ForwardRun Env.quiet false smallSettings smallParams e ∧
    (Call.set0rttRemoteTransportParams { smallParams with initialMaxData := 100 }).Legal e ∧
    e.st.conn.flags.earlyTransportParamsSet = false ∧
    (Call.set0rttRemoteTransportParams { smallParams with initialMaxData := 100 }).run Env.quiet e =
      (.ok [], e') ∧
    ¬e.st.conn.LimitsLe e'.st.conn := by
  obtain ⟨e, h, hp⟩ := earlyRun.exists_forwardRun
  simp only [decide_eq_true_eq] at hp
  obtain ⟨hstrms, hclosed, hbidi, huni, hset, hok, hmax, hmax'⟩ := hp
  refine ⟨e, _, h, ⟨by constructor <;> decide, ?_, ?_, ?_, ?_⟩, hset, Prod.ext hok rfl,
    fun hle => ?_⟩
  · exact KeyMap.eq_empty hstrms
  · exact List.eq_nil_of_length_eq_zero hclosed
  · omega
  · omega
  · have hle := hle.maxOffset.trans_eq hmax'
    omega

end Dwnx
