import Dwnx.Refine.App

/-!
# Received frames take steps

A frame that is complete has been logged; its handler takes it from there to the
end of its effect, or fails. The handlers fail with no fault, and for a frame that
is acceptable (`Conn.Accepts`) only if the peer has been too annoying, or a
callback or an allocation failed.

* `connCloseStreamIfShutRdwr_spec`: the end of a stream;
* `connRecvStream_spec` and so on, one for every frame.
-/

namespace Dwnx

open Exec

variable {env : Env} {G : Cfg → Prop} {c : Cfg} {id : ℕ} {s s' : Strm} {ok : Prop}

/-- The stream of a frame, as it is or as it will be when it is created. -/
def Conn.strmFor (conn : Conn) (id : ℕ) : Strm := (conn.strms.find id).getD (conn.newStrm id)

/-- A stream that is there. -/
theorem Conn.strmFor_of_find {conn : Conn} (h : conn.strms.find id = some s) :
    conn.strmFor id = s := by rw [strmFor, h, Option.getD_some]

/-- A stream that is yet to be created. -/
theorem Conn.strmFor_of_none {conn : Conn} (h : conn.strms.find id = none) :
    conn.strmFor id = conn.newStrm id := by rw [strmFor, h, Option.getD_none]

/-- The stream is there, or the peer may open it. -/
def Conn.Available (conn : Conn) (id : ℕ) : Prop :=
  conn.strms.find id = none → conn.localStream id = false ∧ ¬(conn.idtr id).Opened id

/-- A frame that the connection does not object to. -/
def Conn.Accepts (conn : Conn) : Frame → Prop
  | .stream fr =>
    conn.checkRx fr.streamId = .ok () ∧ conn.Available fr.streamId ∧
      fr.offset + fr.len ≤ maxVarint ∧
      (conn.strmFor fr.streamId).flags.shutRd = false ∧
      (conn.strmFor fr.streamId).rx.lastOffset = fr.offset ∧
      fr.offset + fr.len ≤ (conn.strmFor fr.streamId).rx.maxOffset ∧
      conn.rx.offset + fr.len ≤ conn.rx.maxOffset
  | .resetStream fr =>
    conn.checkRx fr.streamId = .ok () ∧ conn.Available fr.streamId ∧
      (conn.strmFor fr.streamId).flags.shutRd = false ∧
      (conn.strmFor fr.streamId).rx.lastOffset = fr.finalSize
  | .streamDataBlocked fr =>
    conn.checkRx fr.streamId = .ok () ∧ conn.Available fr.streamId ∧
      (conn.strmFor fr.streamId).flags.shutRd = false ∧
      (conn.strmFor fr.streamId).rx.lastOffset = fr.maxStreamData
  | .stopSending fr => conn.checkTx fr.streamId = .ok ()
  | .maxStreamData fr =>
    conn.checkTx fr.streamId = .ok () ∧
      (conn.Available fr.streamId →
        (conn.strmFor fr.streamId).tx.maxOffset < fr.maxStreamData)
  | .maxData fr => conn.tx.maxOffset < fr.maxData
  | .maxStreams fr =>
    fr.maxStreams ≤ maxStreams ∧
      (fr.type = FrameType.maxStreamsBidi → conn.tx.bidi.maxStreams < fr.maxStreams) ∧
      (fr.type ≠ FrameType.maxStreamsBidi → conn.tx.uni.maxStreams < fr.maxStreams)
  | .streamsBlocked fr =>
    (fr.type = FrameType.streamsBlockedBidi → fr.maxStreams ≤ conn.rx.bidi.maxStreams) ∧
      (fr.type ≠ FrameType.streamsBlockedBidi → fr.maxStreams ≤ conn.rx.uni.maxStreams)
  | .dataBlocked fr => fr.maxData ≤ conn.rx.maxOffset
  | .qxPing fr =>
    (fr.type = FrameType.qxPingResponse → (fr.seq : ℤ) ≤ conn.tx.pingLastSeq) ∧
      (fr.type ≠ FrameType.qxPingResponse → conn.rx.ping.lastSeq < fr.seq)
  | .qxTransportParameters params =>
    defaultMaxRecordSize ≤ params.maxRecordSize ∧
      (conn.flags.earlyTransportParamsSet = true → conn.remoteParams.Within params ∧
        conn.remoteParams.maxDatagramFrameSize ≤ params.maxDatagramFrameSize)
  | _ => True

/-- How a handler may fail, where `ok` says that the frame is acceptable. -/
def RecvErr (env : Env) (ok : Prop) (e : Err) : Prop :=
  e.isFault = false ∧ (env.Passive → e.isFatal = false) ∧ (ok → e = .internal ∨ e.isFatal = true)

/-- A callback may fail. -/
theorem RecvErr.callbackFailure (hp : ¬env.Passive) : RecvErr env ok .callbackFailure :=
  ⟨rfl, fun h => absurd h hp, fun _ => .inr rfl⟩

/-- Memory may run out. -/
theorem RecvErr.nomem (hp : ¬env.Passive) : RecvErr env ok .nomem :=
  ⟨rfl, fun h => absurd h hp, fun _ => .inr rfl⟩

/-- The error that never comes is no refusal. -/
theorem RecvErr.internal : RecvErr env ok .internal := ⟨rfl, fun _ => rfl, fun _ => .inl rfl⟩

/-- A refusal, of a frame that is not acceptable. -/
theorem RecvErr.refuse {e : Err} (hf : e.isFault = false) (ht : e.isFatal = false) (hn : ¬ok) :
    RecvErr env ok e := ⟨hf, fun _ => ht, fun h => absurd h hn⟩

section

variable (hG : Closed env.Passive G) (h : G c)

include hG

/-! ## Callbacks about streams -/

include h in
/-- A callback that goes with no change of the connection. -/
theorem plainCallback_spec {e : Event} (he : e.Plain) (hid : e.streamId? = none)
    (hann : ∀ fr, c.pending ≠ .announced fr) :
    wp (callback e) (fun _ t => G { c with st := t })
      (fun e _ => RecvErr env ok e) env c.st := by
  have h₁ := hG.step _ _ h (.event e he hann (by simp [hid]))
  refine wp_mono (callback_spec hG h₁) (fun _ t ht => ht.1.1) ?_
  rintro _ _ ⟨rfl, hp⟩
  exact .callbackFailure hp

include h in
/-- A callback about a stream that goes with no change of the connection. -/
theorem streamCallback_spec {e : Event} (he : e.Plain) (hid : e.streamId? = some id)
    (hf : c.conn.strms.find id = some s) (hp : c.pending ≠ .closing id)
    (hann : ∀ fr, c.pending ≠ .announced fr) :
    wp (callback e)
      (fun _ t => G { c with st := t } ∧ (∃ b, t.conn.strms.find id = some b ∧
        ∃ l, AppStrm l id s b) ∧ (∃ l, AppRel (c.log [e]).st t l) ∧
        (env.Passive → t = (c.log [e]).st))
      (fun e _ => e = .callbackFailure ∧ ¬env.Passive) env c.st := by
  have h₁ := hG.step _ _ h (.event e he hann fun k hk => by
    obtain rfl := Option.some.inj (hid.symm.trans hk)
    exact ⟨Option.ne_none_iff_exists'.2 ⟨s, hf⟩, hp⟩)
  refine wp_mono (callback_spec hG h₁) ?_ fun _ _ h => h
  rintro _ t ⟨⟨ht, l, hl⟩, hquiet⟩
  obtain ⟨b, hb, hab⟩ := hl.strms id s hf
  exact ⟨ht, ⟨b, hb, l, hab⟩, ⟨l, hl⟩, hquiet⟩

/-! ## Closing streams -/

include h in
/-- The stream is removed, and the application told. -/
theorem connCloseStream_spec (hp : c.pending = .shut id) (hf : c.conn.strms.find id = some s)
    (hs : s.shouldCloseStream = true) :
    wp (connCloseStream id) (fun _ t => G { c with st := t, pending := .idle })
      (fun e _ => e = .callbackFailure ∧ ¬env.Passive) env c.st := by
  simp only [connCloseStream, wp_bind, wp_deref hf]
  have h₁ : G (Cfg.log { c with pending := .closing id } [s.closeEvent]) :=
    hG.step _ _ h (.close hp hf hs)
  refine wp_mono (callback_spec (c := { c with pending := .closing id }) hG h₁) ?_ fun _ _ h => h
  rintro _ t ⟨⟨ht, l, hl⟩, -⟩
  obtain ⟨b, hb, -⟩ := hl.strms id s hf
  have hI := hG.inv _ ht
  have hstep := hG.step _ _ ht (.erase rfl hb)
  rw [wp_deref hb]
  simp only [wp_modify, wp_get', wp_modifyConn]
  split
  · next hi =>
    rw [deleteStrmTxStrmq_of_none hi] at hstep
    exact hstep
  · next i hi =>
    rw [deleteStrmTxStrmq_of_some hi] at hstep
    have hm : id ∈ t.conn.tx.strmq.q := hI.queue.indexOk hb (by
      change (t.conn.tx.strmq.index id).isSome = true
      rw [hi]
      rfl)
    obtain ⟨j, hj, hjq⟩ := hI.queue.wf.mem_iff.1 hm
    obtain rfl := Option.some.inj (hi.symm.trans hj)
    rw [wp_bind]
    exact wp_assertThat_of hjq hstep

include h in
/-- After the end of one direction, the stream goes if the other has ended, too. -/
theorem connCloseStreamIfShutRdwr_spec (hp : c.pending = .shut id)
    (hf : c.conn.strms.find id = some s) :
    wp (connCloseStreamIfShutRdwr id) (fun _ t => G { c with st := t, pending := .idle })
      (fun e _ => e = .callbackFailure ∧ ¬env.Passive) env c.st := by
  simp only [connCloseStreamIfShutRdwr, wp_bind, wp_deref hf, wp_ite, wp_pure]
  split
  · next hs =>
    refine hG.step _ _ h (.settle hp fun a ha => ?_)
    obtain rfl := Option.some.inj (hf.symm.trans ha)
    simpa using hs
  · next hs => exact connCloseStream_spec hG h hp hf (by simpa using hs)

omit hG in
/-- A stream that is not to be closed stays. -/
theorem wp_connCloseStreamIfShutRdwr_of {st : St} (hf : st.conn.strms.find id = some s)
    (hs : s.shouldCloseStream = false) {Q : Unit → St → Prop} {E : Err → St → Prop} (hQ : Q () st) :
    wp (connCloseStreamIfShutRdwr id) Q E env st := by
  simp only [connCloseStreamIfShutRdwr, wp_bind, wp_deref hf, wp_ite, hs, Bool.not_false, if_true,
    wp_pure]
  exact hQ

/-- A stream is to be closed only while it is being closed. -/
theorem shouldCloseStream_of_idle (h : G c) (hp : c.pending = .idle)
    (hf : c.conn.strms.find id = some s) : s.shouldCloseStream = false := by
  by_contra hs
  rcases (hG.inv c h).pending.closable id s hf (by simpa using hs) with h | h <;>
    rw [hp] at h <;> cases h

/-! ## Glitches -/

omit hG in
/-- The bucket is filled, and gives the tokens if it has them. -/
theorem Ratelim.drain_ok {rlim : Ratelim} {ts : ℕ} (h : rlim.ts ≤ ts) (n : ℕ) :
    ∃ r b, rlim.drain n ts = .ok (r, b) ∧ r.ts ≤ ts := by
  obtain ⟨r, hr, hts⟩ : ∃ r, rlim.update ts = .ok r ∧ r.ts ≤ ts := by
    unfold update
    rw [if_neg (by omega)]
    split
    · exact ⟨_, rfl, h⟩
    · dsimp only
      split_ifs <;> exact ⟨_, rfl, le_rfl⟩
  unfold drain
  rw [hr]
  by_cases ht : r.tokens < n
  · exact ⟨r, false, by simp [bind, Except.bind, ht, pure, Except.pure], hts⟩
  · exact ⟨{ r with tokens := r.tokens - n }, true,
      by simp [bind, Except.bind, ht, pure, Except.pure], hts⟩

include h in
/-- A frame without an effect is paid for, or refused. -/
theorem connDrainGlitch_spec :
    wp (connDrainGlitch c.conn.lastTs)
      (fun _ t => ∃ rlim, t = { c.st with conn.glitchRlim := rlim } ∧ G { c with st := t })
      (fun e _ => e = .internal) env c.st := by
  obtain ⟨rlim, b, hr, hts⟩ := Ratelim.drain_ok (hG.inv c h).time 1
  simp only [connDrainGlitch, wp_bind, wp_get', wp_ofExcept, hr, wp_modifyConn, wp_ite, wp_throw,
    wp_pure]
  split
  · trivial
  · exact ⟨rlim, rfl, hG.step _ _ h (.glitch hts)⟩

/-! ## Finding the stream of a frame -/

omit hG in
/-- A stream that the peer may not send on is refused, no worse. -/
theorem checkRx_err {conn : Conn} {e : Err} (h : conn.checkRx id = .error e) :
    e.isFault = false ∧ e.isFatal = false := by
  unfold Conn.checkRx at h
  split_ifs at h <;> cases h <;> exact ⟨rfl, rfl⟩

omit hG in
/-- A stream that the peer may not receive on is refused, no worse. -/
theorem checkTx_err {conn : Conn} {e : Err} (h : conn.checkTx id = .error e) :
    e.isFault = false ∧ e.isFatal = false := by
  unfold Conn.checkTx at h
  split_ifs at h <;> cases h <;> exact ⟨rfl, rfl⟩

omit hG in
/-- A stream of the peer is within the limit for it. -/
theorem checkRx_ok {conn : Conn} (h : conn.checkRx id = .ok ()) (hl : conn.localStream id = false) :
    (bidiStream id = true → ordStreamId id ≤ conn.rx.bidi.maxStreams) ∧
      (bidiStream id = false → ordStreamId id ≤ conn.rx.uni.maxStreams) := by
  unfold Conn.checkRx at h
  constructor
  · intro hb
    by_contra hn
    simp [hb, hl, Nat.lt_of_not_le hn] at h
  · intro hb
    by_contra hn
    simp [hb, hl, Nat.lt_of_not_le hn] at h

omit hG in
/-- A stream that the peer receives on is bidirectional or local. -/
theorem checkTx_ok {conn : Conn} (h : conn.checkTx id = .ok ()) :
    (bidiStream id = true ∨ conn.localStream id = true) ∧
      (conn.localStream id = false → ordStreamId id ≤ conn.rx.bidi.maxStreams) := by
  unfold Conn.checkTx at h
  constructor
  · by_contra hn
    obtain ⟨hb, hl⟩ := not_or.1 hn
    simp [hb, hl] at h
  · intro hl
    by_contra hn
    cases hb : bidiStream id <;> simp [hb, hl, Nat.lt_of_not_le hn] at h

/-- The stream `id` is there, as the application may have left it. -/
structure Found (c : Cfg) (id : ℕ) (t : St) (s : Strm) : Prop where
  find : t.conn.strms.find id = some s
  strm : ∃ l, AppStrm l id (c.conn.strmFor id) s
  offset : t.conn.rx.offset = c.conn.rx.offset
  maxOffset : t.conn.rx.maxOffset = c.conn.rx.maxOffset
  lastTs : t.conn.lastTs = c.conn.lastTs
  localStream : t.conn.localStream id = c.conn.localStream id

omit hG in
/-- Whether the peer has ended the stream is not for the application to change. -/
theorem Found.shutRd {t : St} (h : Found c id t s) :
    s.flags.shutRd = (c.conn.strmFor id).flags.shutRd := by
  obtain ⟨l, hl⟩ := h.strm
  exact hl.shutRd

omit hG in
/-- How much has come is not for the application to change. -/
theorem Found.rx {t : St} (h : Found c id t s) :
    s.rx.lastOffset = (c.conn.strmFor id).rx.lastOffset ∧
      s.rx.maxOffset = (c.conn.strmFor id).rx.maxOffset := by
  obtain ⟨l, hl⟩ := h.strm
  rw [hl.rx]
  exact ⟨rfl, rfl⟩

omit hG in
/-- The stream is as it was found. -/
theorem Found.of_find (hf : c.conn.strms.find id = some s) : Found c id c.st s :=
  ⟨hf, ⟨[], Conn.strmFor_of_find hf ▸ .refl ..⟩, rfl, rfl, rfl, rfl⟩

variable (ok) in
include h in
/-- The identifier is used now, or was used before. -/
theorem connIdtrOpen_spec (hle : id ≤ maxVarint) :
    wp (connIdtrOpen id)
      (fun b t => (b = true → ∃ idtr, (c.conn.idtr id).openId id = .ok idtr ∧
        t = { c.st with conn := c.conn.setIdtr id idtr }) ∧
        (b = false → t = c.st ∧ (c.conn.idtr id).Opened id))
      (fun e _ => RecvErr env ok e) env c.st := by
  have hroom := (hG.inv c h).ids.hasRoom id
  simp only [connIdtrOpen, wp_bind, wp_get']
  by_cases ho : (c.conn.idtr id).Opened id
  · rw [Idtr.openId_of_opened hroom hle ho]
    simp only [wp_bind]
    exact wp_assertThat_of rfl ⟨by simp, fun _ => ⟨rfl, ho⟩⟩
  · rw [Idtr.openId_of_not_opened hroom hle ho]
    simp only [wp_bind]
    exact wp_alloc_of .idtr ⟨fun _ => ⟨_, rfl, rfl⟩, by simp⟩ .nomem

include h in
/-- A stream of the peer is created, and the application told. -/
theorem connAcceptStream_spec {fr : Frame} {idtr : Idtr} (hp : c.pending = .received fr)
    (hid : fr.streamId? = some id) (hlocal : c.conn.localStream id = false)
    (hnone : c.conn.strms.find id = none) (hdir : fr.ofReceiver = true → bidiStream id = true)
    (hbidi : bidiStream id = true → ordStreamId id ≤ c.conn.rx.bidi.maxStreams)
    (huni : bidiStream id = false → ordStreamId id ≤ c.conn.rx.uni.maxStreams)
    (hopen : (c.conn.idtr id).openId id = .ok idtr) :
    wp (connAcceptStream id) (fun _ t => G { c with st := t } ∧ ∃ s, Found c id t s)
      (fun e _ => RecvErr env ok e) env { c.st with conn := c.conn.setIdtr id idtr } := by
  have hstep := hG.step _ _ h (.accept hp hid hlocal hnone hdir hbidi huni hopen)
  rw [Conn.setIdtr_eq] at hstep ⊢
  rw [connAcceptStream, wp_bind, connCreateStream, wp_bind]
  refine wp_alloc_of .strm ?_ .nomem
  rw [wp_bind]
  refine wp_alloc_of .map ?_ .nomem
  simp only [wp_bind, wp_get']
  refine wp_assertThat_of hnone ?_
  rw [wp_modifyConn]
  refine wp_mono (callback_spec (c := { c with st.conn := { c.conn with
    bidiIdtr := if bidiStream id then idtr else c.conn.bidiIdtr
    uniIdtr := if bidiStream id then c.conn.uniIdtr else idtr
    strms := c.conn.strms.insert id (c.conn.newStrm id)
    tx.strmq.index := Function.update c.conn.tx.strmq.index id none } }) hG hstep) ?_ ?_
  · rintro _ t ⟨⟨ht, l, hl⟩, -⟩
    have hf : (c.conn.strms.insert id (c.conn.newStrm id)).find id = some (c.conn.newStrm id) := by
      rw [KeyMap.find_insert hnone, if_pos rfl]
    obtain ⟨b, hb, hab⟩ := hl.strms id _ hf
    refine ⟨ht, b, hb, ⟨l, ?_⟩, ?_, ?_, ?_, hl.localStream id⟩
    · rwa [Conn.strmFor_of_none hnone]
    all_goals rw [hl.conn]; rfl
  · rintro _ _ ⟨rfl, hp⟩
    exact .callbackFailure hp

/-! ## Frames from the sender of data -/

include h in
/-- The data of a frame is counted and its end noted, after the checks of its offset and of
    the credit. -/
theorem recvStream_spec {fr : FrameStream} (hp : c.pending = .received (.stream fr))
    (hf : c.conn.strms.find fr.streamId = some s) (hle : fr.offset + fr.len ≤ maxVarint)
    (hok : ok → s.flags.shutRd = false ∧ s.rx.lastOffset = fr.offset ∧
      fr.offset + fr.len ≤ s.rx.maxOffset ∧ c.conn.rx.offset + fr.len ≤ c.conn.rx.maxOffset) :
    wp (recvStream fr.streamId fr)
      (fun _ t => G { c with
        st := t
        pending := .idle
        body := if fr.len = 0 then none else some ⟨fr.streamId, fr.len, fr.fin⟩ })
      (fun e _ => RecvErr env ok e) env c.st := by
  have hI := hG.inv c h
  have hvar : maxVarint < 2 ^ 63 := by decide
  have hflow := hI.flow
  have hmaxOffset := hflow.rxMaxOffset.trans hflow.unsentMaxOffset
  have hrxOffset := hflow.rxOffset
  simp only [recvStream, wp_bind, wp_deref hf, wp_ite, wp_throw, wp_get',
    add64_eq (show fr.offset + fr.len < 2 ^ 64 by omega),
    sub64_eq hrxOffset (show c.conn.rx.maxOffset < 2 ^ 64 by omega)]
  -- The stream has not ended, and the data follows what has come.
  split
  · next hn =>
    refine .refuse rfl rfl fun h => ?_
    simp [(hok h).1, (hok h).2.1] at hn
  next hn =>
  -- There is credit for the data, of the stream and of the connection.
  split
  · next hn =>
    refine .refuse rfl rfl fun h => ?_
    have := hok h
    omega
  next hmax =>
  rw [not_or, Bool.not_eq_true, not_not] at hn
  obtain ⟨hshut, hoff⟩ := hn
  obtain ⟨hmax, hconn⟩ : fr.offset + fr.len ≤ s.rx.maxOffset ∧
      c.conn.rx.offset + fr.len ≤ c.conn.rx.maxOffset := by omega
  have hadd : add64 c.conn.rx.offset fr.len = c.conn.rx.offset + fr.len := add64_eq (by omega)
  rw [wp_modifyConn, hadd]
  refine wp_modifyStrm_of (s := s) (by exact hf) fun conn₁ h₁ => ?_
  rw [wp_when]
  -- An empty frame that ends the stream is told at once; other data is told as it comes.
  by_cases hfin : fr.fin = true ∧ fr.len = 0
  · obtain ⟨hfin, hlen⟩ := hfin
    rw [if_pos hfin, wp_bind, wp_when, if_pos hlen, wp_bind]
    refine wp_modifyStrm_of h₁.found' fun conn₂ h₂ => ?_
    have hc := h₁.trans h₂
    rw [hlen, Nat.add_zero] at hc
    have h₃ := hG.step _ _ h (.strm (.recvFin fr hp rfl hshut hoff (by omega) hlen hfin) hc)
    refine wp_mono (callback_spec (c := { c with
      st.conn := conn₂, pending := .shut fr.streamId, body := none }) hG h₃) ?_ ?_
    · rintro _ t ⟨⟨ht, l, hl⟩, -⟩
      obtain ⟨b, hb, -⟩ := hl.strms _ _ hc.found'
      rw [if_pos hlen]
      refine wp_mono (connCloseStreamIfShutRdwr_spec hG ht rfl hb) (fun _ _ h => h) ?_
      rintro _ _ ⟨rfl, hp⟩
      exact .callbackFailure hp
    · rintro _ _ ⟨rfl, hp⟩
      exact .callbackFailure hp
  · have h₂ := hG.step _ _ h
      (.strm (.recvStream fr hp rfl hshut hoff hmax hconn fun hf hl => hfin ⟨hf, hl⟩) h₁)
    split
    · next hf =>
      rw [wp_bind, wp_when, if_neg fun hl => hfin ⟨hf, hl⟩]
      exact wp_connCloseStreamIfShutRdwr_of h₁.found'
        (shouldCloseStream_of_idle hG h₂ rfl h₁.found') h₂
    · exact h₂

include h in
/-- STREAM is handled if it is acceptable, and refused otherwise. -/
theorem connRecvStream_spec {fr : FrameStream} (hp : c.pending = .received (.stream fr))
    (hok : ok → c.conn.Accepts (.stream fr)) :
    wp (connRecvStream fr)
      (fun _ t => G { c with
        st := t
        pending := .idle
        body := if fr.len = 0 then none else some ⟨fr.streamId, fr.len, fr.fin⟩ })
      (fun e _ => RecvErr env ok e) env c.st := by
  have hI := hG.inv c h
  obtain ⟨hid, -, hlen⟩ := (hI.pending.received _ hp).1
  have hvar : maxVarint < 2 ^ 63 := by decide
  simp only [connRecvStream, wp_bind, wp_get', wp_ofExcept,
    sub64_eq hlen (show maxVarint < 2 ^ 64 by omega)]
  rcases hcheck : c.st.conn.checkRx fr.streamId with e | ⟨⟨⟩⟩
  · obtain ⟨h1, h2⟩ := checkRx_err hcheck
    refine .refuse h1 h2 fun h => ?_
    rw [(hok h).1] at hcheck
    cases hcheck
  dsimp only
  rw [wp_ite]
  split
  · next hn =>
    refine .refuse rfl rfl fun h => ?_
    have := (hok h).2.2.1
    omega
  next hle =>
  -- The handler of a stream that is there, as the application may have left it.
  have hfound {t : St} {s : Strm} (ht : G { c with st := t }) (hF : Found c fr.streamId t s) :
      wp (recvStream fr.streamId fr)
        (fun _ t => G { c with
          st := t
          pending := .idle
          body := if fr.len = 0 then none else some ⟨fr.streamId, fr.len, fr.fin⟩ })
        (fun e _ => RecvErr env ok e) env t := by
    refine recvStream_spec (c := { c with st := t }) hG ht hp hF.find (by omega) fun h => ?_
    obtain ⟨-, -, -, h1, h2, h3, h4⟩ := hok h
    refine ⟨hF.shutRd.trans h1, hF.rx.1.trans h2, hF.rx.2 ▸ h3, ?_⟩
    rw [hF.offset, hF.maxOffset]
    exact h4
  -- A stream that is not there is one of the peer that was not opened before.
  rw [wp_bind, wp_when]
  split
  · next hnone =>
    rw [wp_ite]
    split
    · next hl =>
      refine .refuse rfl rfl fun h => ?_
      rw [((hok h).2.1 hnone).1] at hl
      cases hl
    next hl =>
    rw [Bool.not_eq_true] at hl
    rw [wp_bind]
    refine wp_mono (connIdtrOpen_spec ok hG h hid) ?_ fun _ _ h => h
    rintro b t ⟨hopen, hopened⟩
    rw [wp_ite]
    cases b with
    | false =>
      rw [if_pos (by rfl)]
      exact .refuse rfl rfl fun h => ((hok h).2.1 hnone).2 (hopened rfl).2
    | true =>
      rw [if_neg (by simp)]
      obtain ⟨idtr, hidtr, rfl⟩ := hopen rfl
      obtain ⟨hbidi, huni⟩ := checkRx_ok hcheck hl
      refine wp_mono (connAcceptStream_spec hG h hp rfl hl hnone (by rintro ⟨⟩) hbidi huni hidtr) ?_
        fun _ _ h => h
      rintro _ t ⟨ht, s, hF⟩
      exact hfound ht hF
  · next hf =>
    obtain ⟨s, hf⟩ := Option.ne_none_iff_exists'.1 hf
    exact hfound h (.of_find hf)

include h in
/-- The end of a stream that is there. -/
theorem recvResetStream_spec {fr : FrameResetStream} (hp : c.pending = .received (.resetStream fr))
    (hf : c.conn.strms.find fr.streamId = some s)
    (hok : ok → s.flags.shutRd = false ∧ s.rx.lastOffset = fr.finalSize) :
    wp (recvResetStream fr.streamId fr) (fun _ t => G { c with st := t, pending := .idle })
      (fun e _ => RecvErr env ok e) env c.st := by
  simp only [recvResetStream, wp_bind, wp_deref hf, wp_ite, wp_throw]
  split
  · next hn =>
    refine .refuse rfl rfl fun h => ?_
    rw [(hok h).1] at hn
    cases hn
  next hshut =>
  split
  · next hn => exact .refuse rfl rfl fun h => hn (hok h).2
  next hoff =>
  rw [Bool.not_eq_true] at hshut
  rw [not_not] at hoff
  refine wp_mono (streamCallback_spec hG h trivial rfl hf (by rw [hp]; nofun) (by simp [hp])) ?_ ?_
  · rintro _ t ⟨ht, ⟨b, hb, l, hab⟩, -, -⟩
    refine wp_modifyStrm_of hb fun conn hc => ?_
    have hstep := hG.step _ _ ht (.strm (.recvReset fr hp rfl (hab.shutRd.trans hshut)
      (by rw [hab.rx]; exact hoff)) hc)
    refine wp_mono (connCloseStreamIfShutRdwr_spec hG hstep rfl hc.found') (fun _ _ h => h) ?_
    rintro _ _ ⟨rfl, hp⟩
    exact .callbackFailure hp
  · rintro _ _ ⟨rfl, hp⟩
    exact .callbackFailure hp

include h in
/-- RESET_STREAM is handled if it is acceptable, and refused otherwise. -/
theorem connRecvResetStream_spec {fr : FrameResetStream}
    (hp : c.pending = .received (.resetStream fr)) (hok : ok → c.conn.Accepts (.resetStream fr)) :
    wp (connRecvResetStream fr) (fun _ t => G { c with st := t, pending := .idle })
      (fun e _ => RecvErr env ok e) env c.st := by
  have hid := ((hG.inv c h).pending.received _ hp).1.1
  simp only [connRecvResetStream, wp_bind, wp_get', wp_ofExcept]
  rcases hcheck : c.st.conn.checkRx fr.streamId with e | ⟨⟨⟩⟩
  · obtain ⟨h1, h2⟩ := checkRx_err hcheck
    refine .refuse h1 h2 fun h => ?_
    rw [(hok h).1] at hcheck
    cases hcheck
  dsimp only
  have hfound {t : St} {s : Strm} (ht : G { c with st := t }) (hF : Found c fr.streamId t s) :
      wp (recvResetStream fr.streamId fr) (fun _ t => G { c with st := t, pending := .idle })
        (fun e _ => RecvErr env ok e) env t := by
    refine recvResetStream_spec (c := { c with st := t }) hG ht hp hF.find fun h => ?_
    obtain ⟨-, -, h1, h2⟩ := hok h
    exact ⟨hF.shutRd.trans h1, hF.rx.1.trans h2⟩
  -- A stream that is not there is reset before its object is created.
  rw [wp_when]
  split
  · next hnone =>
    rw [wp_ite]
    split
    · next hl =>
      refine .refuse rfl rfl fun h => ?_
      rw [((hok h).2.1 hnone).1] at hl
      cases hl
    next hl =>
    rw [Bool.not_eq_true] at hl
    rw [wp_bind]
    refine wp_mono (connIdtrOpen_spec ok hG h hid) ?_ fun _ _ h => h
    rintro b t ⟨hopen, hopened⟩
    rw [wp_ite]
    cases b with
    | false =>
      rw [if_pos (by rfl)]
      exact .refuse rfl rfl fun h => ((hok h).2.1 hnone).2 (hopened rfl).2
    | true =>
      rw [if_neg (by simp), wp_ite]
      split
      · next hn =>
        refine .refuse rfl rfl fun h => hn ?_
        rw [← (hok h).2.2.2, Conn.strmFor_of_none hnone, Conn.newStrm_rx]
      obtain ⟨idtr, hidtr, rfl⟩ := hopen rfl
      obtain ⟨hbidi, huni⟩ := checkRx_ok hcheck hl
      refine wp_mono (connAcceptStream_spec hG h hp rfl hl hnone (by rintro ⟨⟩) hbidi huni hidtr) ?_
        fun _ _ h => h
      rintro _ t ⟨ht, s, hF⟩
      exact hfound ht hF
  · next hf =>
    obtain ⟨s, hf⟩ := Option.ne_none_iff_exists'.1 hf
    exact hfound h (.of_find hf)

include h in
/-- STREAM_DATA_BLOCKED has no effect, but is checked. -/
theorem connRecvStreamDataBlocked_spec {fr : FrameStreamDataBlocked}
    (hp : c.pending = .received (.streamDataBlocked fr))
    (hok : ok → c.conn.Accepts (.streamDataBlocked fr)) :
    wp (connRecvStreamDataBlocked fr) (fun _ t => G { c with st := t, pending := .idle })
      (fun e _ => RecvErr env ok e) env c.st := by
  have hI := hG.inv c h
  have hid := (hI.pending.received _ hp).1.1
  have hroom := hI.ids.hasRoom fr.streamId
  have hdone := hG.step _ _ h (.ignore hp trivial)
  simp only [connRecvStreamDataBlocked, wp_bind, wp_get', wp_ofExcept]
  rcases hcheck : c.st.conn.checkRx fr.streamId with e | ⟨⟨⟩⟩
  · obtain ⟨h1, h2⟩ := checkRx_err hcheck
    refine .refuse h1 h2 fun h => ?_
    rw [(hok h).1] at hcheck
    cases hcheck
  dsimp only
  split
  · next hnone =>
    rw [wp_ite]
    split
    · next hl =>
      refine .refuse rfl rfl fun h => ?_
      rw [((hok h).2.1 hnone).1] at hl
      cases hl
    obtain ⟨b, hb, ho⟩ := Idtr.isOpen_eq hroom hid
    change (c.st.conn.idtr fr.streamId).isOpen fr.streamId = .ok b at hb
    rw [wp_bind, wp_ofExcept, hb]
    dsimp only
    rw [wp_ite]
    split
    · next hb => exact .refuse rfl rfl fun h => ((hok h).2.1 hnone).2 (ho.1 hb)
    rw [wp_ite]
    split
    · next hn =>
      refine .refuse rfl rfl fun h => hn ?_
      rw [← (hok h).2.2.2, Conn.strmFor_of_none hnone, Conn.newStrm_rx]
    · exact hdone
  · next s hf =>
    rw [wp_ite]
    split
    · next hn =>
      refine .refuse rfl rfl fun h => ?_
      obtain ⟨-, -, h1, h2⟩ := hok h
      rw [Conn.strmFor_of_find hf] at h1 h2
      simp [h1, h2] at hn
    · exact hdone

/-! ## Frames from the receiver of data -/

include h in
/-- A frame without an effect costs a token. -/
theorem connDrainGlitch_ignore {fr : Frame} {ts : ℕ} (hp : c.pending = .received fr)
    (hts : ts = c.conn.lastTs) (hi : c.conn.Ignores fr) :
    wp (connDrainGlitch ts) (fun _ t => G { c with st := t, pending := .idle })
      (fun e _ => RecvErr env ok e) env c.st := by
  subst hts
  have hstep := hG.step _ _ h (.ignore hp hi)
  refine wp_mono (connDrainGlitch_spec (c := { c with pending := .idle }) hG hstep) ?_ ?_
  · rintro _ t ⟨rlim, -, ht⟩
    exact ht
  · rintro _ _ rfl
    exact .internal

include h in
/-- A reset of the stream is scheduled, unless it has ended. -/
theorem recvStopSending_spec {fr : FrameStopSending} {ts : ℕ}
    (hp : c.pending = .received (.stopSending fr)) (hts : ts = c.conn.lastTs)
    (hf : c.conn.strms.find fr.streamId = some s)
    (hdir : bidiStream fr.streamId = true ∨ c.conn.localStream fr.streamId = true) :
    wp (recvStopSending fr.streamId fr ts) (fun _ t => G { c with st := t, pending := .idle })
      (fun e _ => RecvErr env ok e) env c.st := by
  simp only [recvStopSending, wp_bind, wp_deref hf, wp_ite]
  split
  · next hrecved => exact connDrainGlitch_ignore hG h hp hts (.inr ⟨s, hf, hrecved⟩)
  -- The callback may have shut the stream down.
  next hrecved =>
  rw [Bool.not_eq_true] at hrecved
  refine wp_mono (streamCallback_spec hG h trivial rfl hf (by simp [hp]) (by simp [hp])) ?_ ?_
  · rintro _ t ⟨ht, ⟨b, hb, l, hab⟩, ⟨l', hl⟩, -⟩
    have hrecved := hab.stopSendingRecved.trans hrecved
    have hdir : bidiStream fr.streamId = true ∨ t.conn.localStream fr.streamId = true := by
      rwa [hl.localStream]
    rw [wp_deref hb, wp_when]
    split
    -- A stream still written to is reset in answer.
    · next hshut =>
      rw [Bool.not_eq_true'] at hshut
      rw [wp_bind]
      refine wp_modifyStrm_of hb fun conn₁ h₁ => ?_
      rw [connResetStream, wp_bind]
      refine wp_modifyStrm_of h₁.found' fun conn₂ h₂ => ?_
      have hc := h₁.trans h₂
      rw [wp_bind, wp_emit]
      refine wp_connTxStrmqPushIfNot (hc.queueOk (hG.inv _ ht).queue rfl rfl) hc.found'
        (fun conn₃ h₃ => ?_) fun hp _ => .nomem hp
      refine wp_modifyStrm_of h₃.found' fun conn₄ h₄ => ?_
      exact hG.step _ _ ht
        (.strm (.stopReset (c := { c with st := t }) fr hp rfl hrecved hshut hdir)
        ((hc.trans h₃).trans h₄))
    · next hshut =>
      rw [Bool.not_eq_true', Bool.not_eq_false] at hshut
      refine wp_modifyStrm_of hb fun conn₁ h₁ => ?_
      have h₁ : Changes t.conn conn₁ fr.streamId b
          { b with flags.shutWr := b.flags.shutWr, flags.stopSendingRecved := true } false := by
        rw [hshut]
        exact h₁
      exact hG.step _ _ ht
        (.strm (.stopShut (c := { c with st := t }) fr hp rfl hrecved hshut hdir) h₁)
  · rintro _ _ ⟨rfl, hp⟩
    exact .callbackFailure hp

include h in
/-- The limit is raised, or the frame is paid for. -/
theorem recvMaxStreamData_spec {fr : FrameMaxStreamData} {ts : ℕ}
    (hp : c.pending = .received (.maxStreamData fr)) (hts : ts = c.conn.lastTs)
    (hf : c.conn.strms.find fr.streamId = some s)
    (hdir : bidiStream fr.streamId = true ∨ c.conn.localStream fr.streamId = true)
    (hok : ok → s.tx.maxOffset < fr.maxStreamData) :
    wp (recvMaxStreamData fr.streamId fr ts) (fun _ t => G { c with st := t, pending := .idle })
      (fun e _ => RecvErr env ok e) env c.st := by
  simp only [recvMaxStreamData, wp_bind, wp_deref hf, wp_ite, wp_throw]
  split
  · next hn => exact .refuse rfl rfl fun h => by have := hok h; omega
  next hmax =>
  refine wp_modifyStrm_of hf fun conn hc => ?_
  have hstep := hG.step _ _ h (.strm (.maxStreamData fr hp rfl (by omega) hdir) hc)
  rw [wp_deref hc.found']
  have hlastTs : conn.lastTs = ts := by rw [hc.rest, hts]
  split
  · rw [← hlastTs]
    refine wp_mono (connDrainGlitch_spec hG hstep) ?_ ?_
    · rintro _ t ⟨rlim, -, ht⟩
      exact ht
    · rintro _ _ rfl
      exact .internal
  · refine wp_mono (streamCallback_spec hG hstep trivial rfl hc.found' nofun nofun) ?_ ?_
    · rintro _ t ⟨ht, -⟩
      exact ht
    · rintro _ _ ⟨rfl, hp⟩
      exact .callbackFailure hp

include h in
/-- A frame from the receiver of data: it has no effect on a stream that is gone,
    and creates a stream that is not yet there, unless the local endpoint opens it. -/
theorem recvOfReceiver_spec {fr : Frame} {ts : ℕ} {k : M Unit} {Q : Unit → St → Prop}
    (hp : c.pending = .received fr) (hid : fr.streamId? = some id) (hle : id ≤ maxVarint)
    (hts : ts = c.conn.lastTs)
    (hignores : c.conn.strms.find id = none →
      c.conn.localStream id = true ∨ (c.conn.idtr id).Opened id → c.conn.Ignores fr)
    (hok : ok → c.conn.checkTx id = .ok ())
    (hQ : ∀ t, G { c with st := t, pending := .idle } → Q () t)
    (hk : ∀ t s, G { c with st := t } → Found c id t s →
      bidiStream id = true ∨ t.conn.localStream id = true →
      (c.conn.strms.find id = none → c.conn.Available id) →
      wp k Q (fun e _ => RecvErr env ok e) env t) :
    wp (do
      let conn := (← get).conn
      Exec.ofExcept (conn.checkTx id)
      if conn.findStream id = none then
        if conn.localStream id then connDrainGlitch ts
        else if !(← connIdtrOpen id) then connDrainGlitch ts
        else do
          connAcceptStream id
          k
      else k) Q (fun e _ => RecvErr env ok e) env c.st := by
  simp only [wp_bind, wp_get', wp_ofExcept]
  rcases hcheck : c.st.conn.checkTx id with e | ⟨⟨⟩⟩
  · obtain ⟨h1, h2⟩ := checkTx_err hcheck
    refine .refuse h1 h2 fun h => ?_
    rw [hok h] at hcheck
    cases hcheck
  obtain ⟨hdir, hord⟩ := checkTx_ok hcheck
  -- A frame about a stream that is gone, or of the local endpoint and not there, has no
  -- effect and is paid for.
  have hglitch (hi : c.conn.Ignores fr) :
      wp (connDrainGlitch ts) Q (fun e _ => RecvErr env ok e) env c.st :=
    wp_mono (connDrainGlitch_ignore hG h hp hts hi) (fun _ t ht => hQ t ht) fun _ _ h => h
  dsimp only
  rw [wp_ite]
  split
  · next hnone =>
    rw [wp_ite]
    split
    · next hl => exact hglitch (hignores hnone (.inl hl))
    next hl =>
    rw [Bool.not_eq_true] at hl
    rw [wp_bind]
    refine wp_mono (connIdtrOpen_spec ok hG h hle) ?_ fun _ _ h => h
    rintro b t ⟨hopen, hopened⟩
    rw [wp_ite]
    cases b with
    | false =>
      obtain ⟨rfl, ho⟩ := hopened rfl
      rw [if_pos (by rfl)]
      exact hglitch (hignores hnone (.inr ho))
    | true =>
      rw [if_neg (by simp), wp_bind]
      obtain ⟨idtr, hidtr, rfl⟩ := hopen rfl
      have hbidi : bidiStream id = true := hdir.resolve_right (by simp [hl])
      have hn := (Idtr.openId_ok ((hG.inv c h).ids.hasRoom id) hle hidtr).1
      refine wp_mono (connAcceptStream_spec hG h hp hid hl hnone (fun _ => hbidi)
        (fun _ => hord hl) (by simp [hbidi]) hidtr) ?_ fun _ _ h => h
      rintro _ t ⟨ht, s, hF⟩
      exact hk t s ht hF (.inl hbidi) fun _ _ => ⟨hl, hn⟩
  · next hf =>
    obtain ⟨s, hf⟩ := Option.ne_none_iff_exists'.1 hf
    exact hk _ s h (.of_find hf) hdir fun hnone => by cases hnone.symm.trans hf

include h in
/-- STOP_SENDING is handled if it is acceptable, and refused otherwise. -/
theorem connRecvStopSending_spec {fr : FrameStopSending} {ts : ℕ}
    (hp : c.pending = .received (.stopSending fr)) (hts : ts = c.conn.lastTs)
    (hok : ok → c.conn.Accepts (.stopSending fr)) :
    wp (connRecvStopSending fr ts) (fun _ t => G { c with st := t, pending := .idle })
      (fun e _ => RecvErr env ok e) env c.st :=
  recvOfReceiver_spec hG h hp rfl ((hG.inv c h).pending.received _ hp).1.1 hts
    (fun hnone ho => .inl ⟨hnone, ho⟩) hok (fun _ ht => ht) fun t _ ht hF hdir _ =>
      recvStopSending_spec (c := { c with st := t }) hG ht hp (hts.trans hF.lastTs.symm)
        hF.find hdir

include h in
/-- MAX_STREAM_DATA is handled if it is acceptable, and refused otherwise. -/
theorem connRecvMaxStreamData_spec {fr : FrameMaxStreamData} {ts : ℕ}
    (hp : c.pending = .received (.maxStreamData fr)) (hts : ts = c.conn.lastTs)
    (hok : ok → c.conn.Accepts (.maxStreamData fr)) :
    wp (connRecvMaxStreamData fr ts) (fun _ t => G { c with st := t, pending := .idle })
      (fun e _ => RecvErr env ok e) env c.st :=
  recvOfReceiver_spec hG h hp rfl ((hG.inv c h).pending.received _ hp).1.1 hts
    (fun hnone ho => ⟨hnone, ho⟩) (fun h => (hok h).1) (fun _ ht => ht) fun t _ ht hF hdir hav =>
      recvMaxStreamData_spec (c := { c with st := t }) hG ht hp (hts.trans hF.lastTs.symm)
        hF.find hdir fun h => by
          obtain ⟨l, hl⟩ := hF.strm
          rw [hl.txMaxOffset]
          exact (hok h).2 fun hnone => hav hnone hnone

/-! ## Frames about the connection -/

include h in
/-- MAX_DATA raises the limit. -/
theorem connRecvMaxData_spec {fr : FrameMaxData} (hp : c.pending = .received (.maxData fr))
    (hok : ok → c.conn.Accepts (.maxData fr)) :
    wp (connRecvMaxData fr) (fun _ t => G { c with st := t, pending := .idle })
      (fun e _ => RecvErr env ok e) env c.st := by
  simp only [connRecvMaxData, wp_bind, wp_get', wp_ite, wp_throw, wp_modifyConn]
  split
  · next hn => exact .refuse rfl rfl fun h => absurd (hok h) (Nat.not_lt.2 hn)
  · next hmax => exact hG.step _ _ h (.recvMaxData hp (Nat.lt_of_not_le hmax))

include h in
/-- MAX_STREAMS raises the limit of its kind. -/
theorem connRecvMaxStreams_spec {fr : FrameMaxStreams} (hp : c.pending = .received (.maxStreams fr))
    (hok : ok → c.conn.Accepts (.maxStreams fr)) :
    wp (connRecvMaxStreams fr) (fun _ t => G { c with st := t, pending := .idle })
      (fun e _ => RecvErr env ok e) env c.st := by
  simp only [connRecvMaxStreams, wp_bind, wp_get', wp_ite, wp_throw, wp_modifyConn]
  split
  · next hn => exact .refuse rfl rfl fun h => absurd (hok h).1 (Nat.not_le.2 hn)
  next hle =>
  split
  · next htype =>
    split
    · next hn => exact .refuse rfl rfl fun h => absurd ((hok h).2.1 htype) (Nat.not_lt.2 hn)
    next hmax =>
    have hstep := hG.step _ _ h
      (.recvMaxStreamsBidi hp htype (Nat.lt_of_not_le hmax) (Nat.le_of_not_lt hle))
    exact plainCallback_spec hG hstep trivial rfl nofun
  · next htype =>
    split
    · next hn => exact .refuse rfl rfl fun h => absurd ((hok h).2.2 htype) (Nat.not_lt.2 hn)
    next hmax =>
    have hstep := hG.step _ _ h
      (.recvMaxStreamsUni hp htype (Nat.lt_of_not_le hmax) (Nat.le_of_not_lt hle))
    exact plainCallback_spec hG hstep trivial rfl nofun

include h in
/-- STREAMS_BLOCKED has no effect. -/
theorem connRecvStreamsBlocked_spec {fr : FrameStreamsBlocked}
    (hp : c.pending = .received (.streamsBlocked fr))
    (hok : ok → c.conn.Accepts (.streamsBlocked fr)) :
    wp (connRecvStreamsBlocked fr) (fun _ t => G { c with st := t, pending := .idle })
      (fun e _ => RecvErr env ok e) env c.st := by
  have hdone := hG.step _ _ h (.ignore hp trivial)
  simp only [connRecvStreamsBlocked, wp_bind, wp_get', wp_ite, wp_throw, wp_pure]
  split
  · next htype =>
    split
    · next hn => exact .refuse rfl rfl fun h => absurd ((hok h).1 htype) (Nat.not_le.2 hn)
    · exact hdone
  · next htype =>
    split
    · next hn => exact .refuse rfl rfl fun h => absurd ((hok h).2 htype) (Nat.not_le.2 hn)
    · exact hdone

include h in
/-- DATA_BLOCKED has no effect, but is checked. -/
theorem connRecvDataBlocked_spec {fr : FrameDataBlocked}
    (hp : c.pending = .received (.dataBlocked fr)) (hok : ok → c.conn.Accepts (.dataBlocked fr)) :
    wp (connRecvDataBlocked fr) (fun _ t => G { c with st := t, pending := .idle })
      (fun e _ => RecvErr env ok e) env c.st := by
  simp only [connRecvDataBlocked, wp_bind, wp_get', wp_ite, wp_throw, wp_pure]
  split
  · next hn => exact .refuse rfl rfl fun h => absurd (hok h) (Nat.not_le.2 hn)
  · exact hG.step _ _ h (.ignore hp trivial)

include h in
/-- A ping is to be answered. -/
theorem connRecvQxPing_spec {fr : FrameQxPing} {ts : ℕ} (hp : c.pending = .received (.qxPing fr))
    (hts : ts = c.conn.lastTs) (hok : ok → c.conn.Accepts (.qxPing fr)) :
    wp (connRecvQxPing fr ts) (fun _ t => G { c with st := t, pending := .idle })
      (fun e _ => RecvErr env ok e) env c.st := by
  subst hts
  simp only [connRecvQxPing, wp_bind, wp_get', wp_ite, wp_throw, wp_pure]
  split
  · next hresp =>
    split
    · next hn => exact .refuse rfl rfl fun h => absurd ((hok h).1 hresp) (Int.not_le.2 hn)
    · refine hG.step _ _ h (.ignore hp ?_)
      change fr.type ≠ FrameType.qxPingRequest
      rw [hresp]
      decide
  · next hresp =>
    split
    · next hn => exact .refuse rfl rfl fun h => absurd ((hok h).2 hresp) (Int.not_lt.2 hn)
    next hseq =>
    refine wp_mono (connDrainGlitch_spec hG h) ?_ ?_
    · rintro _ t ⟨rlim, rfl, ht⟩
      rw [wp_modifyConn]
      exact hG.step _ _ ht (.recvPing hp (Int.lt_of_not_ge hseq))
    · rintro _ _ rfl
      exact .internal

/-! ## Transport parameters -/

omit hG in
/-- A parameter that is stored is a varint. -/
theorem TransportParams.Decoded.store {dest dest' : TransportParams} (hd : dest.Decoded)
    {id v : ℕ} (hv : v ≤ maxVarint) (hs : dest.store id v = some (some dest')) :
    dest'.Decoded := by
  unfold TransportParams.store at hs
  split_ifs at hs <;> simp only [Option.some.injEq, reduceCtorEq] at hs
  all_goals
    subst hs
    obtain ⟨hb, hbidi, huni⟩ := hd
    cases hb
    refine ⟨⟨?_, ?_, ?_, ?_, ?_, ?_⟩, ?_, ?_⟩ <;> first | assumption | (dsimp only; omega)

omit hG in
/-- A varint that is read is one. -/
theorem getVarintParam_le {p r : List UInt8} {v : ℕ} (h : getVarintParam p = some (v, r)) :
    v ≤ maxVarint := by
  simp only [getVarintParam, Option.bind_eq_bind, Option.bind_eq_some_iff] at h
  obtain ⟨⟨len, p⟩, -, h⟩ := h
  split at h
  · cases h
  · split at h
    · cases h
    · exact getUvarint_le h

omit hG in
/-- A parameter is stored, or the parameters are refused. -/
theorem decodeParam_spec {dest : TransportParams} (hd : dest.Decoded) (p : List UInt8) :
    decodeParam dest p = .error .malformedTransportParam ∨
      ∃ dest' r, decodeParam dest p = .ok (dest', r) ∧ dest'.Decoded := by
  rw [decodeParam_reads]
  split
  · exact .inl rfl
  split
  · split
    · exact .inl rfl
    · next hv =>
      split
      · next hs => exact .inr ⟨_, _, rfl, hd.store (getVarintParam_le hv) hs⟩
      · exact .inl rfl
  split
  · exact .inl rfl
  split
  · exact .inl rfl
  split
  · exact .inl rfl
  · exact .inr ⟨_, _, rfl, hd⟩

omit hG in
/-- Parameters that are decoded are varints. -/
theorem decodeParams_decoded {fuel : ℕ} {dest params : TransportParams} {p : List UInt8}
    (hd : dest.Decoded) (h : decodeParams fuel dest p = .ok params) : params.Decoded := by
  induction fuel generalizing dest p with
  | zero =>
    rcases decodeParams_cases h with ⟨-, rfl⟩ | ⟨_, _, _, hn, -⟩
    · exact hd
    · cases hn
  | succ fuel ih =>
    rcases decodeParams_cases h with ⟨-, rfl⟩ | ⟨_, d, r, hn, hp, hrest⟩
    · exact hd
    · cases hn
      rcases decodeParam_spec hd p with he | ⟨dest', r', he, hd'⟩
      · cases he.symm.trans hp
      · cases he.symm.trans hp
        exact ih hd' hrest

omit hG in
/-- Parameters are decoded, and are varints, or are refused. -/
theorem transportParamsDecode_spec (data : List UInt8) :
    transportParamsDecode data = .error .malformedTransportParam ∨
      ∃ params, transportParamsDecode data = .ok params ∧ params.Decoded := by
  have hdefault : TransportParams.default.Decoded := by
    refine ⟨⟨?_, ?_, ?_, ?_, ?_, ?_⟩, ?_, ?_⟩ <;> exact Nat.zero_le _
  cases h : transportParamsDecode data with
  | error e => exact .inl (by rw [transportParamsDecode_err h])
  | ok params => exact .inr ⟨params, rfl, decodeParams_decoded hdefault h⟩

omit hG in
/-- What raising the limits of the streams `ids` does, if callbacks call nothing. -/
structure Raised (conn conn' : Conn) (ids : List ℕ) : Prop where
  limit : ∀ k, conn'.initialMaxTxOffset k = conn.initialMaxTxOffset k
  strms : ∀ k s, conn'.strms.find k = some s →
    (∃ a, conn.strms.find k = some a ∧ a.tx.maxOffset ≤ s.tx.maxOffset) ∧
      (k ∈ ids → conn.initialMaxTxOffset k ≤ s.tx.maxOffset)

omit hG in
/-- No limit is raised. -/
theorem Raised.refl (conn : Conn) : Raised conn conn [] :=
  ⟨fun _ => rfl, fun _ s hs => ⟨⟨s, hs, le_rfl⟩, nofun⟩⟩

omit hG in
/-- Limits are raised one after another. -/
theorem Raised.trans {conn₁ conn₂ conn₃ : Conn} {ids ids' : List ℕ} (h : Raised conn₁ conn₂ ids)
    (h' : Raised conn₂ conn₃ ids') : Raised conn₁ conn₃ (ids ++ ids') where
  limit k := (h'.limit k).trans (h.limit k)
  strms k s hs := by
    obtain ⟨⟨b, hb, hbs⟩, hs'⟩ := h'.strms k s hs
    obtain ⟨⟨a, ha, hab⟩, hb'⟩ := h.strms k b hb
    refine ⟨⟨a, ha, hab.trans hbs⟩, fun hk => ?_⟩
    rcases List.mem_append.1 hk with hk | hk
    · exact (hb' hk).trans hbs
    · rw [← h.limit]
      exact hs' hk

variable (ok) in
include h in
/-- The limit of a stream opened in early data is raised to the one announced. -/
theorem setMaxStreamOffset_spec {params : TransportParams}
    (hp : c.pending = .received (.qxTransportParameters params)) (hclient : c.conn.server = false)
    (id : ℕ) :
    wp (setMaxStreamOffset id)
      (fun _ t => G { c with st := t } ∧ t.conn.server = false ∧
        (env.Passive → Raised c.conn t.conn [id]))
      (fun e _ => RecvErr env ok e) env c.st := by
  have hI := hG.inv c h
  simp only [setMaxStreamOffset, wp_bind, wp_get']
  split
  · next hnone =>
    refine ⟨h, hclient, fun _ => ⟨fun _ => rfl, fun k s hk => ⟨⟨s, hk, le_rfl⟩, fun hid => ?_⟩⟩⟩
    rw [List.mem_singleton.1 hid] at hk
    cases hnone.symm.trans hk
  next s hf =>
  -- Streams opened before the parameters came are local.
  have hlocal := (hI.phase.raising params hp).2 id s hf
  have hmax : (if bidiStream id then c.st.conn.remoteParams.initialMaxStreamDataBidiRemote
      else c.st.conn.remoteParams.initialMaxStreamDataUni) = c.conn.initialMaxTxOffset id := by
    simp only [Conn.initialMaxTxOffset, Conn.initialMaxStreamData, hlocal, if_true]
    split <;> rfl
  rw [hI.queue.streamId id s hf, hmax, wp_bind]
  refine wp_assertThat_of hclient ?_
  rw [wp_bind]
  refine wp_assertThat_of hlocal ?_
  rw [wp_when]
  split
  -- The application is told of a limit that is raised, unless the stream was shut down.
  · next hlt =>
    rw [wp_bind]
    refine wp_modifyStrm_of hf fun conn hc => ?_
    have hstep := hG.step _ _ h (.strm (.raise params hp hlocal hlt) hc)
    have hserver : conn.server = false := by
      rw [hc.rest]
      exact hclient
    have hraised : Raised c.conn conn [id] := by
      refine ⟨fun k => ?_, fun k a hk => ?_⟩
      · rw [hc.rest]
        rfl
      · rcases hc.cases hk with ⟨rfl, rfl⟩ | ⟨hne, hk⟩
        · exact ⟨⟨s, hf, hlt.le⟩, fun _ => le_rfl⟩
        · exact ⟨⟨a, hk, le_rfl⟩, fun h => absurd (List.mem_singleton.1 h) hne⟩
    rw [wp_bind, wp_deref hc.found', wp_ite]
    split
    · exact ⟨hstep, hserver, fun _ => hraised⟩
    · refine wp_mono (streamCallback_spec (c := { c with st.conn := conn }) hG hstep trivial rfl
        hc.found' (by simp [hp]) (by simp [hp])) ?_ ?_
      · rintro _ t ⟨ht, -, ⟨l, hl⟩, hquiet⟩
        refine ⟨ht, ?_, fun hp => ?_⟩
        · rw [hl.conn]
          exact hserver
        · rw [hquiet hp]
          exact hraised
      · rintro _ _ ⟨rfl, hp⟩
        exact .callbackFailure hp
  · next hge =>
    refine ⟨h, hclient, fun _ => ⟨fun _ => rfl, fun k a hk => ⟨⟨a, hk, le_rfl⟩, fun hid => ?_⟩⟩⟩
    obtain rfl := List.mem_singleton.1 hid
    obtain rfl := Option.some.inj (hf.symm.trans hk)
    exact Nat.le_of_not_lt hge

include h in
/-- The limits of all streams opened in early data are raised. -/
theorem forM_setMaxStreamOffset_spec {params : TransportParams}
    (hp : c.pending = .received (.qxTransportParameters params)) (hclient : c.conn.server = false)
    (ids : List ℕ) :
    wp (ids.forM setMaxStreamOffset)
      (fun _ t => G { c with st := t } ∧ (env.Passive → Raised c.conn t.conn ids))
      (fun e _ => RecvErr env ok e) env c.st := by
  induction ids generalizing c with
  | nil => exact ⟨h, fun _ => .refl _⟩
  | cons id ids ih =>
    change wp (setMaxStreamOffset id >>= fun _ => ids.forM setMaxStreamOffset) _ _ _ _
    rw [wp_bind]
    refine wp_mono (setMaxStreamOffset_spec ok hG h hp hclient id) ?_ fun _ _ h => h
    rintro _ t ⟨ht, hserver, hr⟩
    refine wp_mono (ih (c := { c with st := t }) ht hp hserver) ?_ fun _ _ h => h
    rintro _ t' ⟨ht', hr'⟩
    exact ⟨ht', fun hp => (hr hp).trans (hr' hp)⟩

omit hG in
/-- A server has no streams until the transport parameters have come. -/
theorem server_strms_empty (hI : Inv c) (hparams : c.params = false) (hs : c.conn.server = true)
    (id : ℕ) (s : Strm) : c.conn.strms.find id ≠ some s := by
  intro hf
  have hearly : c.conn.flags.earlyTransportParamsSet = false := by
    by_contra hn
    rw [hI.phase.client (by simpa using hn)] at hs
    cases hs
  have hremote := hI.phase.default hparams hearly
  have hbidi : c.conn.tx.bidi.maxStreams = 0 := by rw [hI.phase.bidi hparams, hremote]; rfl
  have huni : c.conn.tx.uni.maxStreams = 0 := by rw [hI.phase.uni hparams, hremote]; rfl
  have hlocal := (hI.phase.strms hparams id s hf).1
  have hid := hI.ids.localId id s hf hlocal
  have h1 := hI.ids.bidiNext
  have h2 := hI.ids.uniNext
  have h3 := hI.ids.bidiLimit
  have h4 := hI.ids.uniLimit
  rw [hs, if_pos rfl] at h1 h2
  simp only [Conn.localStream, hs, beq_true, decide_eq_true_eq] at hlocal
  unfold Conn.nextStreamId bidiStream at hid
  split at hid
  · omega
  · next hb =>
    rw [decide_eq_true_eq] at hb
    omega

include h in
/-- The parameters of the peer are validated and stored, and the limits raised. -/
theorem connRecvTransportParams_spec {data : List UInt8} (hp : c.pending = .idle)
    (hw : c.writing = none) (hbody : c.body = none)
    (hseen : c.conn.flags.qxTransportParametersSeen = true) (hparams : c.params = false)
    (hrx : ∀ params, transportParamsDecode data = .ok params → ∀ c',
      Step env.Passive (.rx (.qxTransportParameters params)) c c' → G c')
    (hok : ok → ∃ params, transportParamsDecode data = .ok params ∧
      c.conn.Accepts (.qxTransportParameters params)) :
    wp (connRecvTransportParams data) (fun _ t => G { c with st := t, params := true })
      (fun e _ => RecvErr env ok e) env c.st := by
  have hI := hG.inv c h
  simp only [connRecvTransportParams, wp_bind, wp_get', wp_ofExcept]
  rcases transportParamsDecode_spec data with he | ⟨params, he, hb⟩
  · rw [he]
    refine .refuse rfl rfl fun h => ?_
    obtain ⟨params, hp, -⟩ := hok h
    cases he.symm.trans hp
  -- What holds of acceptable parameters holds of those that were decoded.
  have hok {q : Prop} (hq : c.conn.Accepts (.qxTransportParameters params) → ¬q) (h : ok) : ¬q := by
    obtain ⟨params', hp, ha⟩ := hok h
    obtain rfl := Except.ok.inj (he.symm.trans hp)
    exact hq ha
  rw [he]
  simp only [wp_modifyConn, wp_emit, wp_ite]
  split
  · next hn => exact .refuse rfl rfl fun h => hok (fun ha => Nat.not_lt.2 ha.1) h hn
  rw [wp_bind]
  -- Parameters remembered for early data bind the peer: none of those announced may be
  -- below them.
  have hearly {Q : Unit → St → Prop} {st : St} (hst : st.conn.server = c.conn.server)
      (hst' : st.conn.remoteParams = params)
      (hQ : (c.conn.flags.earlyTransportParamsSet = true → c.conn.remoteParams.Within params) →
        Q () st) :
      wp (Exec.when (c.conn.flags.earlyTransportParamsSet = true)
        (connValidateEarlyTransportParams c.conn.remoteParams)) Q (fun e _ => RecvErr env ok e)
        env st := by
    rw [wp_when]
    split
    · next hset =>
      rw [connValidateEarlyTransportParams, wp_bind, wp_get', wp_bind]
      refine wp_assertThat_of (hst.trans (hI.phase.client hset)) ?_
      rw [wp_ite, hst']
      split
      · next hn =>
        refine .refuse rfl rfl fun h => hok (fun ha => ?_) h hn
        obtain ⟨⟨h1, h2, h3, h4, h5, h6⟩, h7⟩ := ha.2 hset
        omega
      · next hn =>
        refine hQ fun _ => ?_
        constructor <;> omega
    · next hset => exact hQ fun h => absurd h hset
  refine hearly rfl rfl fun hearly => ?_
  have hstep := hrx params he _ (.rxParams params hp hw hbody hseen hparams hb hearly)
  rw [wp_bind, wp_modifyConn, wp_bind]
  -- The streams opened in early data get their new limits.
  refine wp_mono (Q := fun _ t => G { c with st := t, params := true }) ?_ ?_ fun _ _ h => h
  · rw [wp_when]
    split
    · next hclient =>
      rw [wp_bind, wp_read, wp_bind, wp_get']
      refine wp_mono (forM_setMaxStreamOffset_spec hG hstep rfl (by simpa using hclient) _) ?_
        fun _ _ h => h
      rintro _ t ⟨ht, hr⟩
      -- All streams were walked over, so none has less than the new limit.
      have hdone := hG.step _ _ ht (.paramsDone rfl fun hq k s hk => ?_)
      · rw [← hp] at hdone
        exact hdone
      · have hr := hr hq
        obtain ⟨⟨a, ha, -⟩, hle⟩ := hr.strms k s hk
        have hk : k ∈ env.walk c.conn.strms.keys :=
          (hq.walk _).mem_iff.2 (KeyMap.mem_keys_iff.2 ⟨a, ha⟩)
        exact (hr.limit k).trans_le (hle hk)
    · next hserver =>
      -- A server has no streams yet.
      have hdone := hG.step _ _ hstep (.paramsDone rfl fun hq k s hk => ?_)
      · rw [← hp] at hdone
        exact hdone
      · exact (server_strms_empty hI hparams (by simpa using hserver) k s hk).elim
  · intro _ t ht
    -- The application is told of the limits, of those on streams only if not 0.
    have hmax {e : Event} (he : e.Plain) (hid : e.streamId? = none) (m : ℕ) {t : St}
        (ht : G { c with st := t, params := true }) :
        wp (Exec.when (m ≠ 0) (callback e)) (fun _ t => G { c with st := t, params := true })
          (fun e _ => RecvErr env ok e) env t := by
      rw [wp_when]
      split
      · exact plainCallback_spec hG ht he hid (by simp [hp])
      · exact ht
    rw [wp_bind]
    refine wp_mono (plainCallback_spec hG ht trivial rfl (by simp [hp])) (fun _ t ht => ?_)
      fun _ _ h => h
    rw [wp_bind, wp_get', wp_bind]
    refine wp_mono (hmax (e := .extendMaxLocalStreamsBidi _) trivial rfl _ ht) (fun _ t ht => ?_)
      fun _ _ h => h
    rw [wp_bind, wp_get']
    exact hmax (e := .extendMaxLocalStreamsUni _) trivial rfl _ ht

/-! ## Data -/

include h in
/-- The data of a DATAGRAM frame, as far as it has come. -/
theorem connRecvDatagram_spec (hp : c.pending = .idle) (fin : Bool) (dgramlen offset : ℕ)
    (data : List UInt8) :
    wp (connRecvDatagram fin dgramlen offset data) (fun _ t => G { c with st := t })
      (fun e _ => RecvErr env ok e) env c.st :=
  plainCallback_spec hG h trivial rfl (by simp [hp])

omit h in
/-- The data of a STREAM frame, as far as it has come. -/
theorem connRecvStreamData_spec {left : ℕ} {fin : Bool} {data : List UInt8}
    (hp : c.pending = .idle) (hbody : c.body = some ⟨id, left, fin⟩)
    (hf : c.conn.strms.find id = some s) (hne : data ≠ []) (hlen : data.length ≤ left)
    (hpiece : ∀ c', Step env.Passive (.piece data) c c' → G c') :
    wp (connRecvStreamData id (fin && left == data.length) (s.rx.lastOffset - left) data)
      (fun _ t => G { c with
        st := t
        body := if left = data.length then none else some ⟨id, left - data.length, fin⟩ })
      (fun e _ => RecvErr env ok e) env c.st := by
  rw [connRecvStreamData, wp_bind, wp_deref hf, wp_ite]
  -- The last piece ends the stream, if its frame has FIN.
  have hfin {t : St} (ht : G { c with st := t, body := some ⟨id, left - data.length, fin⟩ }) :
      wp (Exec.when ((fin && left == data.length) = true) do
          modifyStrm id fun s => { s with flags.shutRd := true }
          connCloseStreamIfShutRdwr id)
        (fun _ t => G { c with
          st := t
          body := if left = data.length then none else some ⟨id, left - data.length, fin⟩ })
        (fun e _ => RecvErr env ok e) env t := by
    rw [wp_when]
    obtain ⟨-, b, hb, -⟩ := (hG.inv _ ht).pending.body _ _ _ rfl
    by_cases hl : left = data.length
    · have h0 : left - data.length = 0 := by omega
      rw [h0] at ht
      simp only [hl, beq_self_eq_true, Bool.and_true, if_true]
      split
      · next hfin =>
        subst hfin
        rw [wp_bind]
        refine wp_modifyStrm_of hb fun conn hc => ?_
        have hstep := hG.step _ _ ht (.strm (.finData hp rfl) hc)
        refine wp_mono (connCloseStreamIfShutRdwr_spec hG hstep rfl hc.found') ?_ ?_
        · rintro _ t ht
          rw [← hp] at ht
          exact ht
        · rintro _ _ ⟨rfl, hp⟩
          exact .callbackFailure hp
      · next hfin =>
        rw [Bool.not_eq_true] at hfin
        subst hfin
        exact hG.step _ _ ht (.bodyDone hp rfl)
    · simpa [hl] using ht
  -- Data after a STOP_SENDING is skipped, and its credit given back.
  split
  · next hstop =>
    simp only [wp_bind, wp_emit, connExtendMaxOffset, wp_modifyConn]
    exact hfin (hpiece _ (.skip data hp hbody hf hlen hstop))
  · next hstop =>
    rw [Bool.not_eq_true] at hstop
    rw [wp_bind]
    refine wp_mono (callback_spec (c := { c with body := some ⟨id, left - data.length, fin⟩ }) hG
      (hpiece _ (.piece data hp hbody hf hne hlen hstop))) ?_ ?_
    · rintro _ t ⟨⟨ht, -⟩, -⟩
      exact hfin ht
    · rintro _ _ ⟨rfl, hp⟩
      exact .callbackFailure hp

end

end Dwnx
