import Dwnx.Refine.Basic

/-!
# What the application may do at any time

The functions that an application may call from a callback take steps of the
transition system, and leave most of the connection as it was (`AppRel`).

* `connApply_spec`: a call of the application;
* `callback_spec`: a callback, after which the application may have called anything.
-/

namespace Dwnx

open Exec

variable {env : Env} {G : Cfg → Prop} {c : Cfg} {id : ℕ} {s s' : Strm} {l l' : List Event}

/-! ## What the application leaves alone -/

/-- A RESET_STREAM, resp. STOP_SENDING, of the stream is scheduled. -/
def Scheduled (l : List Event) (reset : Bool) (id : ℕ) : Prop :=
  ∃ code, Event.scheduled reset id code ∈ l

/-- What the application may make of a stream, by calls with the events `l`. -/
structure AppStrm (l : List Event) (id : ℕ) (a b : Strm) : Prop where
  streamId : b.streamId = a.streamId
  rx : b.rx = { a.rx with unsentMaxOffset := b.rx.unsentMaxOffset }
  txOffset : b.tx.offset = a.tx.offset
  txMaxOffset : b.tx.maxOffset = a.tx.maxOffset
  lastBlockedOffset : b.tx.lastBlockedOffset = a.tx.lastBlockedOffset
  shutRd : b.flags.shutRd = a.flags.shutRd
  stopSendingRecved : b.flags.stopSendingRecved = a.flags.stopSendingRecved
  shutWr : a.flags.shutWr = true → b.flags.shutWr = true
  shutWr' : b.flags.shutWr = true → a.flags.shutWr = true ∨ Scheduled l true id
  sendReset : b.flags.sendResetStream = true →
    a.flags.sendResetStream = true ∨ Scheduled l true id
  sendStop : b.flags.sendStopSending = true →
    a.flags.sendStopSending = true ∨ Scheduled l false id
  sendStop' : a.flags.sendStopSending = true → b.flags.sendStopSending = true
  stopCode : a.flags.stopSending = true → b.flags.stopSending = true ∧
    b.tx.stopSendingAppErrorCode = a.tx.stopSendingAppErrorCode

/-- What the application may make of the state, by calls with the events `l`. -/
structure AppRel (st st' : St) (l : List Event) : Prop where
  trace : st'.trace = st.trace ++ l
  events : ∀ e ∈ l, e.ofApp = true
  rest : st' = { st with conn := st'.conn, trace := st'.trace }
  conn : st'.conn = { st.conn with
    strms := st'.conn.strms
    tx.strmq := st'.conn.tx.strmq
    tx.bidi.nextStreamId := st'.conn.tx.bidi.nextStreamId
    tx.uni.nextStreamId := st'.conn.tx.uni.nextStreamId
    rx.unsentMaxOffset := st'.conn.rx.unsentMaxOffset
    rx.bidi.unsentMaxStreams := st'.conn.rx.bidi.unsentMaxStreams
    rx.uni.unsentMaxStreams := st'.conn.rx.uni.unsentMaxStreams }
  strms : ∀ k a, st.conn.strms.find k = some a →
    ∃ b, st'.conn.strms.find k = some b ∧ AppStrm l k a b
  reset : ∀ k b, st'.conn.strms.find k = some b → b.flags.sendResetStream = true →
    (∃ a, st.conn.strms.find k = some a ∧ a.flags.sendResetStream = true) ∨ Scheduled l true k
  stop : ∀ k b, st'.conn.strms.find k = some b → b.flags.sendStopSending = true →
    (∃ a, st.conn.strms.find k = some a ∧ a.flags.sendStopSending = true) ∨ Scheduled l false k
  bidi : st.conn.rx.bidi.unsentMaxStreams ≤ st'.conn.rx.bidi.unsentMaxStreams
  uni : st.conn.rx.uni.unsentMaxStreams ≤ st'.conn.rx.uni.unsentMaxStreams
  queued : ∀ k ∈ st.conn.tx.strmq.q, k ∈ st'.conn.tx.strmq.q
  head : ∀ k, st.conn.tx.strmq.q[0]? = some k → ∃ k', st'.conn.tx.strmq.q[0]? = some k' ∧
    (k' = k ∨ k' < k ∧ k' ∉ st.conn.tx.strmq.q)

/-- What was scheduled stays so. -/
theorem Scheduled.append_left {reset : Bool} (h : Scheduled l reset id) :
    Scheduled (l ++ l') reset id := h.imp fun _ h => List.mem_append_left _ h

/-- What is scheduled later is scheduled. -/
theorem Scheduled.append_right {reset : Bool} (h : Scheduled l' reset id) :
    Scheduled (l ++ l') reset id := h.imp fun _ h => List.mem_append_right _ h

/-- A stream that is left alone. -/
theorem AppStrm.refl (l : List Event) (id : ℕ) (a : Strm) : AppStrm l id a a :=
  ⟨rfl, rfl, rfl, rfl, rfl, rfl, rfl, fun h => h, .inl, .inl, .inl, fun h => h,
    fun h => ⟨h, rfl⟩⟩

/-- There may be more events. -/
theorem AppStrm.mono {a b : Strm} (h : AppStrm l id a b) (l₁ l₂ : List Event) :
    AppStrm (l₁ ++ l ++ l₂) id a b :=
  { h with
    shutWr' := fun hs => (h.shutWr' hs).imp_right fun h => h.append_right.append_left
    sendReset := fun hs => (h.sendReset hs).imp_right fun h => h.append_right.append_left
    sendStop := fun hs => (h.sendStop hs).imp_right fun h => h.append_right.append_left }

/-- A stream is changed by one call after another. -/
theorem AppStrm.trans {a b d : Strm} (h : AppStrm l id a b) (h' : AppStrm l' id b d) :
    AppStrm (l ++ l') id a d := by
  have hl : AppStrm (l ++ l') id a b := by simpa using h.mono [] l'
  have hr : AppStrm (l ++ l') id b d := by simpa using h'.mono l []
  exact {
    streamId := hr.streamId.trans hl.streamId
    rx := by rw [hr.rx, hl.rx]
    txOffset := hr.txOffset.trans hl.txOffset
    txMaxOffset := hr.txMaxOffset.trans hl.txMaxOffset
    lastBlockedOffset := hr.lastBlockedOffset.trans hl.lastBlockedOffset
    shutRd := hr.shutRd.trans hl.shutRd
    stopSendingRecved := hr.stopSendingRecved.trans hl.stopSendingRecved
    shutWr := hr.shutWr ∘ hl.shutWr
    shutWr' := fun hs => (hr.shutWr' hs).elim hl.shutWr' .inr
    sendReset := fun hs => (hr.sendReset hs).elim hl.sendReset .inr
    sendStop := fun hs => (hr.sendStop hs).elim hl.sendStop .inr
    sendStop' := hr.sendStop' ∘ hl.sendStop'
    stopCode := fun hs => by
      obtain ⟨h1, h2⟩ := hl.stopCode hs
      obtain ⟨h3, h4⟩ := hr.stopCode h1
      exact ⟨h3, h4.trans h2⟩ }

namespace AppRel

/-- Nothing is called. -/
theorem refl (st : St) : AppRel st st [] where
  trace := (List.append_nil _).symm
  events := nofun
  rest := rfl
  conn := rfl
  strms _ a ha := ⟨a, ha, .refl ..⟩
  reset _ b hb hs := .inl ⟨b, hb, hs⟩
  stop _ b hb hs := .inl ⟨b, hb, hs⟩
  bidi := le_rfl
  uni := le_rfl
  queued _ h := h
  head k hk := ⟨k, hk, .inl rfl⟩

/-- One call after another. -/
theorem trans {st₁ st₂ st₃ : St} (h : AppRel st₁ st₂ l) (h' : AppRel st₂ st₃ l') :
    AppRel st₁ st₃ (l ++ l') where
  trace := by rw [h'.trace, h.trace, List.append_assoc]
  events e he := (List.mem_append.1 he).elim (h.events e) (h'.events e)
  rest := by conv_lhs => rw [h'.rest, h.rest]
  conn := by conv_lhs => rw [h'.conn, h.conn]
  strms k a ha := by
    obtain ⟨b, hb, hab⟩ := h.strms k a ha
    obtain ⟨d, hd, hbd⟩ := h'.strms k b hb
    exact ⟨d, hd, hab.trans hbd⟩
  reset k b hb hs := by
    rcases h'.reset k b hb hs with ⟨a, ha, hs⟩ | hs
    · exact (h.reset k a ha hs).imp_right .append_left
    · exact .inr hs.append_right
  stop k b hb hs := by
    rcases h'.stop k b hb hs with ⟨a, ha, hs⟩ | hs
    · exact (h.stop k a ha hs).imp_right .append_left
    · exact .inr hs.append_right
  bidi := h.bidi.trans h'.bidi
  uni := h.uni.trans h'.uni
  queued k hk := h'.queued k (h.queued k hk)
  head k hk := by
    obtain ⟨k₁, h₁, hk₁⟩ := h.head k hk
    obtain ⟨k₂, h₂, hk₂⟩ := h'.head k₁ h₁
    refine ⟨k₂, h₂, ?_⟩
    rcases hk₂ with rfl | ⟨hlt, hn⟩
    · exact hk₁
    · have hn' : k₂ ∉ st₁.conn.tx.strmq.q := fun hm => hn (h.queued k₂ hm)
      rcases hk₁ with rfl | ⟨hlt', -⟩
      exacts [.inr ⟨hlt, hn'⟩, .inr ⟨hlt.trans hlt', hn'⟩]

/-- A change of one stream, as the application makes it. -/
theorem of_changes {st : St} {conn : Conn} {pushed : Bool}
    (hc : Changes st.conn conn id s s' pushed) (hs : AppStrm l id s s')
    (hl : ∀ e ∈ l, e.ofApp = true) :
    AppRel st { st with conn := conn, trace := st.trace ++ l } l where
  trace := rfl
  events := hl
  rest := rfl
  conn := by
    change conn = _
    conv_lhs => rw [hc.rest]
    rw [hc.rest]
  strms k a ha := by
    by_cases e : k = id
    · subst e
      obtain rfl := Option.some.inj (hc.found.symm.trans ha)
      exact ⟨s', hc.found', hs⟩
    · exact ⟨a, (hc.find_of_ne e).trans ha, .refl ..⟩
  reset k b hb hr := by
    rcases hc.cases hb with ⟨rfl, rfl⟩ | ⟨-, hb⟩
    · exact (hs.sendReset hr).imp_left fun h => ⟨s, hc.found, h⟩
    · exact .inl ⟨b, hb, hr⟩
  stop k b hb hr := by
    rcases hc.cases hb with ⟨rfl, rfl⟩ | ⟨-, hb⟩
    · exact (hs.sendStop hr).imp_left fun h => ⟨s, hc.found, h⟩
    · exact .inl ⟨b, hb, hr⟩
  bidi := by
    change _ ≤ conn.rx.bidi.unsentMaxStreams
    rw [hc.rest]
  uni := by
    change _ ≤ conn.rx.uni.unsentMaxStreams
    rw [hc.rest]
  queued k hk := (hc.mem k).2 (.inl hk)
  head k hk := by
    rcases hc.head k hk with h | ⟨h, hlt, hn⟩
    exacts [⟨k, h, .inl rfl⟩, ⟨id, h, .inr ⟨hlt, hn⟩⟩]

/-- Limits are extended: the streams and the queue are as they were. -/
theorem of_extend {st : St} {conn : Conn} (hs : conn.strms = st.conn.strms)
    (hq : conn.tx.strmq = st.conn.tx.strmq)
    (hconn : conn = { st.conn with
      rx.unsentMaxOffset := conn.rx.unsentMaxOffset
      rx.bidi.unsentMaxStreams := conn.rx.bidi.unsentMaxStreams
      rx.uni.unsentMaxStreams := conn.rx.uni.unsentMaxStreams })
    (hb : st.conn.rx.bidi.unsentMaxStreams ≤ conn.rx.bidi.unsentMaxStreams)
    (hu : st.conn.rx.uni.unsentMaxStreams ≤ conn.rx.uni.unsentMaxStreams) (limit : Limit) (n : ℕ) :
    AppRel st { st with conn := conn, trace := st.trace ++ [.extended limit n] }
      [.extended limit n] where
  trace := rfl
  events := by simp [Event.ofApp]
  rest := rfl
  conn := by
    change conn = _
    conv_lhs => rw [hconn]
    simp only
    rw [hs, hq, hconn]
  strms k a ha := ⟨a, (congrArg (·.find k) hs).trans ha, .refl ..⟩
  reset k b hb hs' := .inl ⟨b, (congrArg (·.find k) hs).symm.trans hb, hs'⟩
  stop k b hb hs' := .inl ⟨b, (congrArg (·.find k) hs).symm.trans hb, hs'⟩
  bidi := hb
  uni := hu
  queued k hk := by
    change k ∈ conn.tx.strmq.q
    rwa [hq]
  head k hk := ⟨k, (congrArg (·.q[0]?) hq).trans hk, .inl rfl⟩

/-- A stream is opened: there is nothing to be sent for it. -/
theorem of_open {st : St} {conn : Conn} {bidi : Bool} (hnone : st.conn.strms.find id = none)
    (hs : conn.strms = st.conn.strms.insert id (st.conn.newStrm id))
    (hq : conn.tx.strmq.q = st.conn.tx.strmq.q)
    (hconn : conn = { st.conn with
      strms := conn.strms
      tx.strmq := conn.tx.strmq
      tx.bidi.nextStreamId := conn.tx.bidi.nextStreamId
      tx.uni.nextStreamId := conn.tx.uni.nextStreamId }) :
    AppRel st { st with conn := conn, trace := st.trace ++ [.opened bidi id] }
      [.opened bidi id] where
  trace := rfl
  events := by simp [Event.ofApp]
  rest := rfl
  conn := by
    change conn = _
    conv_lhs => rw [hconn]
    rw [hconn]
  strms k a ha := by
    refine ⟨a, ?_, .refl ..⟩
    change conn.strms.find k = some a
    rw [hs, KeyMap.find_insert hnone, if_neg, ha]
    rintro rfl
    rw [hnone] at ha
    cases ha
  reset k b hb hr := by
    change conn.strms.find k = some b at hb
    rw [hs] at hb
    rcases find_insert_cases hnone hb with ⟨rfl, rfl⟩ | hb
    · rw [Conn.newStrm_flags] at hr
      cases hr
    · exact .inl ⟨b, hb, hr⟩
  stop k b hb hr := by
    change conn.strms.find k = some b at hb
    rw [hs] at hb
    rcases find_insert_cases hnone hb with ⟨rfl, rfl⟩ | hb
    · rw [Conn.newStrm_flags] at hr
      cases hr
    · exact .inl ⟨b, hb, hr⟩
  bidi := by
    change _ ≤ conn.rx.bidi.unsentMaxStreams
    rw [hconn]
  uni := by
    change _ ≤ conn.rx.uni.unsentMaxStreams
    rw [hconn]
  queued k hk := by
    change k ∈ conn.tx.strmq.q
    rwa [hq]
  head k hk := ⟨k, (congrArg (·[0]?) hq).trans hk, .inl rfl⟩

end AppRel

/-! ## Calls -/

/-- After a call of the application: the streams are as it may make them. -/
def AppPost (G : Cfg → Prop) (c : Cfg) (t : St) : Prop :=
  G { c with st := t } ∧ ∃ l, AppRel c.st t l

/-- A call of the application may be refused, or memory may run out. -/
def AppErr (env : Env) (c : Cfg) (e : Err) (t : St) : Prop :=
  e = .nomem ∧ ¬env.Passive ∨ e.isBenign = true ∧ e.isFatal = false ∧ e.isFault = false ∧ t = c.st

section

variable (hG : Closed env.Passive G) (h : G c)

include h in
/-- Nothing has been called. -/
theorem AppPost.refl : AppPost G c c.st := ⟨h, [], .refl _⟩

include hG h

/-- A step of one stream as the application makes it. -/
theorem AppPost.of_strm {pushed : Bool} {conn : Conn}
    (hs : StrmStep env.Passive c id s s' pushed (c.log l))
    (hc : Changes c.conn conn id s s' pushed) (ha : AppStrm l id s s')
    (hl : ∀ e ∈ l, e.ofApp = true) :
    AppPost G c { c.st with conn := conn, trace := c.st.trace ++ l } :=
  ⟨hG.step _ _ h (@Step.strm _ c (c.log l) id s s' pushed conn hs hc), l, .of_changes hc ha hl⟩

/-- A bidirectional stream is opened, or refused at the limit. -/
theorem openBidiStream_spec (hfree : c.Free env.Passive) :
    wp (connApply .openBidiStream) (fun _ t => AppPost G c t) (AppErr env c) env c.st := by
  have hI := hG.inv c h
  obtain ⟨-, -, hnone⟩ := hI.ids.bidi_next
  simp only [connApply, connOpenBidiStream, connCreateStream, wp_bind, wp_get', wp_ite, wp_throw]
  split
  · exact .inr ⟨rfl, rfl, rfl, rfl⟩
  · next hleft =>
    refine wp_alloc_of .strm (wp_alloc_of .map ?_ fun hp => .inl ⟨rfl, hp⟩) fun hp => .inl ⟨rfl, hp⟩
    refine wp_assertThat_of hnone ?_
    simp only [wp_modifyConn, wp_emit]
    exact ⟨hG.step _ _ h (.openBidi hfree hleft), _, .of_open hnone rfl rfl rfl⟩

/-- A unidirectional stream is opened, or refused at the limit. -/
theorem openUniStream_spec (hfree : c.Free env.Passive) :
    wp (connApply .openUniStream) (fun _ t => AppPost G c t) (AppErr env c) env c.st := by
  have hI := hG.inv c h
  obtain ⟨-, -, hnone⟩ := hI.ids.uni_next
  simp only [connApply, connOpenUniStream, connCreateStream, wp_bind, wp_get', wp_ite, wp_throw]
  split
  · exact .inr ⟨rfl, rfl, rfl, rfl⟩
  · next hleft =>
    refine wp_alloc_of .strm (wp_alloc_of .map ?_ fun hp => .inl ⟨rfl, hp⟩) fun hp => .inl ⟨rfl, hp⟩
    refine wp_assertThat_of hnone ?_
    simp only [wp_modifyConn, wp_emit]
    exact ⟨hG.step _ _ h (.openUni hfree hleft), _, .of_open hnone rfl rfl rfl⟩

/-- A RESET_STREAM is scheduled, unless the stream has ended. -/
theorem shutdownStreamWrite_spec (hfree : c.Free env.Passive)
    (hf : c.conn.strms.find id = some s)
    (hdir : bidiStream id = true ∨ c.conn.localStream id = true) (code : ℕ) :
    wp (shutdownStreamWrite id code) (fun _ t => AppPost G c t)
      (fun e _ => e = .nomem ∧ ¬env.Passive) env c.st := by
  simp only [shutdownStreamWrite, wp_bind, wp_deref hf, wp_ite]
  split
  · exact .refl h
  · next hshut =>
    simp only [Bool.not_eq_true] at hshut
    refine wp_modifyStrm_of hf fun conn₁ h₁ => ?_
    rw [connResetStream, wp_bind]
    refine wp_modifyStrm_of h₁.found' fun conn₂ h₂ => ?_
    have hc := h₁.trans h₂
    rw [wp_bind, wp_emit]
    refine wp_connTxStrmqPushIfNot (hc.queueOk (hG.inv c h).queue rfl rfl) hc.found'
      (fun conn₃ h₃ => ?_) fun hp _ => ⟨rfl, hp⟩
    refine .of_strm hG h (.shutWrite code hfree hshut hdir) (hc.trans h₃) ?_ (by simp [Event.ofApp])
    have hsch : Scheduled [.scheduled true id code] true id := ⟨code, List.mem_singleton_self _⟩
    exact { AppStrm.refl _ id s with
      shutWr := fun _ => rfl
      shutWr' := fun _ => .inr hsch
      sendReset := fun _ => .inr hsch }

/-- A STOP_SENDING is scheduled, unless the stream has ended. -/
theorem shutdownStreamRead_spec (hfree : c.Free env.Passive)
    (hf : c.conn.strms.find id = some s)
    (hdir : bidiStream id = true ∨ c.conn.localStream id = false) (code : ℕ) :
    wp (shutdownStreamRead id code) (fun _ t => AppPost G c t)
      (fun e _ => e = .nomem ∧ ¬env.Passive) env c.st := by
  simp only [shutdownStreamRead, wp_bind, wp_deref hf, wp_ite]
  split
  · exact .refl h
  · next hn =>
    obtain ⟨hstop, hshut⟩ := not_or.1 hn
    simp only [Bool.not_eq_true] at hstop hshut
    refine wp_modifyStrm_of hf fun conn₁ h₁ => ?_
    rw [connStopSending, wp_bind]
    refine wp_modifyStrm_of h₁.found' fun conn₂ h₂ => ?_
    have hc := h₁.trans h₂
    rw [wp_bind, wp_emit]
    refine wp_connTxStrmqPushIfNot (hc.queueOk (hG.inv c h).queue rfl rfl) hc.found'
      (fun conn₃ h₃ => ?_) fun hp _ => ⟨rfl, hp⟩
    refine .of_strm hG h (.shutRead code hfree hstop hshut hdir) (hc.trans h₃) ?_
      (by simp [Event.ofApp])
    have hsch : Scheduled [.scheduled false id code] false id := ⟨code, List.mem_singleton_self _⟩
    exact { AppStrm.refl _ id s with
      sendStop := fun _ => .inr hsch
      sendStop' := fun _ => rfl
      stopCode := fun hs => by cases hstop.symm.trans hs }

omit hG h in
/-- The direction of a stream is for good. -/
theorem AppRel.localStream {st st' : St} (h : AppRel st st' l) (id : ℕ) :
    st'.conn.localStream id = st.conn.localStream id := by
  rw [h.conn]
  rfl

omit hG h in
/-- More is called later. -/
theorem AppPost.trans {t t' : St} (h : AppPost G c t) (h' : AppPost G { c with st := t } t') :
    AppPost G c t' := by
  obtain ⟨-, l, hl⟩ := h
  obtain ⟨hG, l', hl'⟩ := h'
  exact ⟨hG, l ++ l', hl.trans hl'⟩

/-- Both directions are shut down. -/
theorem connShutdownStream_spec (hfree : c.Free env.Passive) (id code : ℕ) :
    wp (connShutdownStream id code) (fun _ t => AppPost G c t) (AppErr env c) env c.st := by
  simp only [connShutdownStream, wp_bind, wp_get', wp_ite, wp_pure, wp_when]
  split
  · exact .refl h
  · next hf =>
    obtain ⟨s, hf⟩ := Option.ne_none_iff_exists'.1 hf
    have hwrite {t : St} (ht : AppPost G c t) :
        if bidiStream id = true ∨ c.conn.localStream id = true then
          wp (shutdownStreamWrite id code) (fun _ t => AppPost G c t) (AppErr env c) env t
        else AppPost G c t := by
      split
      · next hdir =>
        obtain ⟨hGt, l, hl⟩ := ht
        obtain ⟨b, hb, -⟩ := hl.strms id s hf
        refine wp_mono (shutdownStreamWrite_spec (c := { c with st := t }) hG hGt hfree hb
          (by rwa [hl.localStream]) code) (fun _ _ h => AppPost.trans ⟨hGt, l, hl⟩ h)
          fun _ _ h => .inl h
      · exact ht
    split
    · next hdir =>
      rw [Bool.not_eq_true'] at hdir
      exact wp_mono (shutdownStreamRead_spec hG h hfree hf hdir code) (fun _ _ h => hwrite h)
        fun _ _ h => .inl h
    · exact hwrite (.refl h)

/-- `dwnx_conn_shutdown_stream_write` -/
theorem connShutdownStreamWrite_spec (hfree : c.Free env.Passive) (id code : ℕ) :
    wp (connShutdownStreamWrite id code) (fun _ t => AppPost G c t) (AppErr env c) env c.st := by
  simp only [connShutdownStreamWrite, wp_bind, wp_get', wp_ite, wp_pure, wp_throw]
  split
  · exact .inr ⟨rfl, rfl, rfl, rfl⟩
  · next hdir =>
    split
    · exact .refl h
    · next hf =>
      obtain ⟨s, hf⟩ := Option.ne_none_iff_exists'.1 hf
      have hdir : bidiStream id = true ∨ c.conn.localStream id = true := by
        cases hb : bidiStream id <;> simp_all
      exact wp_mono (shutdownStreamWrite_spec hG h hfree hf hdir code) (fun _ _ h => h)
        fun _ _ h => .inl h

/-- `dwnx_conn_shutdown_stream_read` -/
theorem connShutdownStreamRead_spec (hfree : c.Free env.Passive) (id code : ℕ) :
    wp (connShutdownStreamRead id code) (fun _ t => AppPost G c t) (AppErr env c) env c.st := by
  simp only [connShutdownStreamRead, wp_bind, wp_get', wp_ite, wp_pure, wp_throw]
  split
  · exact .inr ⟨rfl, rfl, rfl, rfl⟩
  · next hdir =>
    split
    · exact .refl h
    · next hf =>
      obtain ⟨s, hf⟩ := Option.ne_none_iff_exists'.1 hf
      have hdir : bidiStream id = true ∨ c.conn.localStream id = false := by
        cases hb : bidiStream id <;> simp_all
      exact wp_mono (shutdownStreamRead_spec hG h hfree hf hdir code) (fun _ _ h => h)
        fun _ _ h => .inl h

/-- The limit of a stream is raised, and MAX_STREAM_DATA scheduled once the window has moved
    far enough. -/
theorem connExtendMaxStreamOffset_spec (hfree : c.Free env.Passive) (id n : ℕ) :
    wp (connExtendMaxStreamOffset id n) (fun _ t => AppPost G c t) (AppErr env c) env c.st := by
  simp only [connExtendMaxStreamOffset, wp_bind, wp_get', wp_ite, wp_pure, wp_throw]
  split
  · exact .inr ⟨rfl, rfl, rfl, rfl⟩
  · split
    · exact .refl h
    · next hf =>
      obtain ⟨s, hf⟩ := Option.ne_none_iff_exists'.1 hf
      refine wp_modifyStrm_of hf fun conn₁ h₁ => ?_
      rw [wp_deref h₁.found', wp_when]
      generalize hs' : { s with
        rx.unsentMaxOffset := extendLimit maxVarint s.rx.unsentMaxOffset n } = s' at h₁
      have hpost {conn : Conn} {pushed : Bool} (hc : Changes c.conn conn id s s' pushed)
          (hp : pushed = true ↔ s.flags.shutRd = false ∧ s.flags.stopSending = false ∧
            s'.shouldSendMaxStreamData = true) :
          AppPost G c { c.st with conn := conn } := by
        have ha : AppStrm [] id s s' := hs' ▸ { AppStrm.refl [] id s with rx := rfl }
        have ha := AppRel.of_changes hc ha (by simp)
        rw [List.append_nil] at ha
        exact ⟨hG.step _ _ h (.strm (.extend n hfree hs'.symm hp) hc), [], ha⟩
      have hflags : s'.flags = s.flags := by rw [← hs']
      rw [hflags]
      split
      · next hsend =>
        have hq := h₁.queueOk (hG.inv c h).queue (by rw [← hs']) (by rw [← hs'])
        refine wp_connTxStrmqPushIfNot hq h₁.found'
          (fun conn₂ h₂ => hpost (h₁.trans h₂) ?_) fun hp _ => .inl ⟨rfl, hp⟩
        simpa using hsend
      · next hsend =>
        refine hpost h₁ ?_
        simpa using hsend

/-- A call of the application takes steps, or is refused. -/
theorem connApply_spec (hfree : c.Free env.Passive) (call : AppCall) :
    wp (connApply call) (fun _ t => AppPost G c t) (AppErr env c) env c.st := by
  cases call with
  | openBidiStream => exact openBidiStream_spec hG h hfree
  | openUniStream => exact openUniStream_spec hG h hfree
  | shutdownStream id code => exact connShutdownStream_spec hG h hfree id code
  | shutdownStreamWrite id code => exact connShutdownStreamWrite_spec hG h hfree id code
  | shutdownStreamRead id code => exact connShutdownStreamRead_spec hG h hfree id code
  | extendMaxStreamOffset id n => exact connExtendMaxStreamOffset_spec hG h hfree id n
  | extendMaxOffset n =>
    rw [connApply, wp_bind, wp_emit, connExtendMaxOffset, wp_modifyConn]
    exact ⟨hG.step _ _ h (.extendOffset n), _,
      @AppRel.of_extend c.st { c.conn with
        rx.unsentMaxOffset := extendLimit maxVarint c.conn.rx.unsentMaxOffset n }
        rfl rfl rfl le_rfl le_rfl .data n⟩
  | extendMaxStreamsBidi n =>
    rw [connApply, wp_bind, wp_emit, connExtendMaxStreamsBidi, wp_modifyConn]
    exact ⟨hG.step _ _ h (.extendStreamsBidi n), _,
      @AppRel.of_extend c.st { c.conn with
        rx.bidi.unsentMaxStreams := extendLimit maxStreams c.conn.rx.bidi.unsentMaxStreams n }
        rfl rfl rfl (le_extendLimit (hG.inv c h).ids.bidiUnsent n) le_rfl .streamsBidi n⟩
  | extendMaxStreamsUni n =>
    rw [connApply, wp_bind, wp_emit, connExtendMaxStreamsUni, wp_modifyConn]
    exact ⟨hG.step _ _ h (.extendStreamsUni n), _,
      @AppRel.of_extend c.st { c.conn with
        rx.uni.unsentMaxStreams := extendLimit maxStreams c.conn.rx.uni.unsentMaxStreams n }
        rfl rfl rfl le_rfl (le_extendLimit (hG.inv c h).ids.uniUnsent n) .streamsUni n⟩

/-! ## Callbacks -/

/-- A call within a callback takes steps, or has the callback fail. -/
theorem connApplyWithin_spec (hfree : c.Free env.Passive) (call : AppCall) :
    wp (connApplyWithin call) (fun _ t => AppPost G c t)
      (fun e _ => e = .callbackFailure ∧ ¬env.Passive) env c.st := by
  rw [connApplyWithin, wp_tryCatch]
  refine wp_mono (connApply_spec hG h hfree call) (fun _ _ h => h) ?_
  rintro e t (⟨rfl, hp⟩ | ⟨-, h1, h2, rfl⟩)
  · exact ⟨rfl, hp⟩
  · rw [wp_ite, if_neg (by simp [h2]), wp_ite, if_neg (by simp [h1])]
    exact .refl h

/-- The calls within a callback, one after another. -/
theorem forM_connApplyWithin_spec (hfree : c.Free env.Passive) (calls : List AppCall) :
    wp (calls.forM connApplyWithin) (fun _ t => AppPost G c t)
      (fun e _ => e = .callbackFailure ∧ ¬env.Passive) env c.st := by
  induction calls generalizing c with
  | nil => exact .refl h
  | cons call calls ih =>
    change wp (connApplyWithin call >>= fun _ => calls.forM connApplyWithin) _ _ _ _
    rw [wp_bind]
    refine wp_mono (connApplyWithin_spec hG h hfree call) (fun _ t ht => ?_) fun _ _ h => h
    exact wp_mono (ih (c := { c with st := t }) ht.1 hfree) (fun _ _ h => ht.trans h) fun _ _ h => h

omit h in
/-- After a callback the application may have called anything, unless all is quiet. -/
theorem callback_spec {e : Event} (h : G (c.log [e])) :
    wp (callback e)
      (fun _ t => AppPost G (c.log [e]) t ∧ (env.Passive → t = (c.log [e]).st))
      (fun e _ => e = .callbackFailure ∧ ¬env.Passive) env c.st := by
  rw [callback, wp_bind, wp_read, wp_bind, wp_get', wp_bind, wp_emit]
  by_cases hp : env.Passive
  · rw [hp.app]
    exact ⟨.refl h, fun _ => rfl⟩
  · rw [wp_bind]
    refine wp_mono (forM_connApplyWithin_spec hG h (fun hp' => absurd hp' hp) _) ?_ fun _ _ h => h
    intro _ t ht
    rw [wp_ite]
    split
    · exact ⟨rfl, hp⟩
    · exact ⟨ht, fun hp' => absurd hp' hp⟩

end

end Dwnx
