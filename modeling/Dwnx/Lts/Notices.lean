import Dwnx.Lts.Names

/-!
# Callbacks that announce frames

A STOP_SENDING frame and a MAX_STREAMS frame are announced by a callback before they
are encoded, and announced again if there is no room for them. `NoticeStep` says what
a step has to do with frames of one kind.

* `Step.noticeOk`: the callbacks tell of the frames encoded, no more and no less,
  provided that they come in time (`Notice.InTime`);
* `Step.sentOk`: no STOP_SENDING frame is encoded twice, and the limits in MAX_STREAMS
  frames increase.
-/

namespace Dwnx

variable {quiet : Prop} {c c' : Cfg} {id : ℕ} {s s' : Strm} {pushed : Bool} {l : Label}

/-! ## What is announced -/

/-- The kinds of frames that are announced: the STOP_SENDING of a stream, and the
    MAX_STREAMS of a kind of streams. -/
inductive Notice
  | stop (streamId : ℕ)
  | streams (uni : Bool)
  deriving DecidableEq

variable {k : Notice}

/-- The type of the MAX_STREAMS frames for unidirectional streams, or for the others. -/
def maxStreamsType (uni : Bool) : ℕ :=
  if uni then FrameType.maxStreamsUni else FrameType.maxStreamsBidi

/-- The two frame types differ. -/
theorem maxStreamsType_inj {a b : Bool} : maxStreamsType a = maxStreamsType b ↔ a = b := by
  cases a <;> cases b <;> decide

/-- The frame of the kind, with the code or limit `n`. -/
def Notice.frame (k : Notice) (n : ℕ) : Frame :=
  match k with
  | .stop id => .stopSending ⟨id, n⟩
  | .streams uni => .maxStreams ⟨maxStreamsType uni, n⟩

/-- The code or limit that the callback tells. -/
def Event.tells (k : Notice) : Event → Option ℕ
  | .streamStopSending id code => if k = .stop id then some code else none
  | .extendMaxRemoteStreamsBidi n => if k = .streams false then some n else none
  | .extendMaxRemoteStreamsUni n => if k = .streams true then some n else none
  | _ => none

/-- The code or limit in the frame encoded. -/
def Event.sends (k : Notice) : Event → Option ℕ
  | .txFr (.stopSending fr) => if k = .stop fr.streamId then some fr.appErrorCode else none
  | .txFr (.maxStreams fr) =>
    match k with
    | .streams uni => if fr.type = maxStreamsType uni then some fr.maxStreams else none
    | _ => none
  | _ => none

/-- What callbacks have told since early data was rejected, if it was. -/
def told (k : Notice) (trace : List Event) : List ℕ :=
  (since Event.isRejected trace).filterMap (Event.tells k)

/-- What the frames encoded since then said. -/
def sent (k : Notice) (trace : List Event) : List ℕ :=
  (since Event.isRejected trace).filterMap (Event.sends k)

/-- The limit that MAX_STREAMS is about. -/
def maxStreamsLimit (uni : Bool) : Limit := if uni then .streamsUni else .streamsBidi

/-- The callback is running: the application's calls are all that came after it. -/
def Telling (k : Notice) (v : ℕ) (trace : List Event) : Prop :=
  ∃ pre e evs, trace = pre ++ e :: evs ∧ e.tells k = some v ∧ ∀ e ∈ evs, e.ofApp = true

/-- A callback comes with room for its frame, and does not itself raise the limit that
    it tells of. -/
def Notice.InTime (k : Notice) (trace : List Event) : Prop :=
  Along (fun pre e =>
    (∀ v, e.tells k = some v →
      ∃ pre' left, pre = pre' ++ [.room left] ∧ (k.frame v).wire.length ≤ left) ∧
    ∀ uni n v, k = .streams uni → e = .extended (maxStreamsLimit uni) n → Telling k v pre →
      n = 0 ∨ v = maxStreams) trace

/-- The limits on streams of the kind that the peer may open. -/
def Conn.rxStreams (conn : Conn) (uni : Bool) : RxStreams :=
  if uni then conn.rx.uni else conn.rx.bidi

/-! ## Histories -/

/-- Events that tell nothing. -/
theorem told_append {trace evs : List Event} (hr : ∀ e ∈ evs, e.isRejected = false)
    (hevs : ∀ e ∈ evs, e.tells k = none) : told k (trace ++ evs) = told k trace := by
  rw [told, since_append hr, List.filterMap_append, List.filterMap_eq_nil_iff.2 hevs,
    List.append_nil]
  rfl

/-- Events that send nothing. -/
theorem sent_append {trace evs : List Event} (hr : ∀ e ∈ evs, e.isRejected = false)
    (hevs : ∀ e ∈ evs, e.sends k = none) : sent k (trace ++ evs) = sent k trace := by
  rw [sent, since_append hr, List.filterMap_append, List.filterMap_eq_nil_iff.2 hevs,
    List.append_nil]
  rfl

/-- A notice is told. -/
theorem told_concat {trace : List Event} {e : Event} {v : ℕ} (h : e.tells k = some v) :
    told k (trace ++ [e]) = told k trace ++ [v] := by
  have hr : e.isRejected = false := by cases e <;> first | rfl | cases h
  rw [told, since_concat_of_neg hr, List.filterMap_append]
  simp [h, told]

/-- A notice is sent. -/
theorem sent_concat {trace : List Event} {e : Event} {v : ℕ} (h : e.sends k = some v) :
    sent k (trace ++ [e]) = sent k trace ++ [v] := by
  have hr : e.isRejected = false := by cases e <;> first | rfl | cases h
  rw [sent, since_concat_of_neg hr, List.filterMap_append]
  simp [h, sent]

/-- What tells a notice sends none. -/
theorem Event.tells_sends {e : Event} {v : ℕ} (h : e.tells k = some v) : e.sends k = none := by
  cases e <;> first | rfl | cases h

/-- What sends a notice tells none. -/
theorem Event.sends_tells {e : Event} {v : ℕ} (h : e.sends k = some v) : e.tells k = none := by
  cases e <;> first | rfl | cases h

/-- A notice is told, with the room there is. -/
theorem told_announced {trace : List Event} {left v : ℕ} {e : Event} (h : e.tells k = some v) :
    told k (trace ++ [.room left, e]) = told k trace ++ [v] := by
  have hroom : told k (trace ++ [.room left]) = told k trace :=
    told_append (fun e he => List.mem_singleton.1 he ▸ rfl)
      fun e he => List.mem_singleton.1 he ▸ rfl
  rw [← hroom, ← told_concat h, List.append_assoc]
  rfl

/-- Nothing is sent when a notice is told. -/
theorem sent_announced {trace : List Event} {left v : ℕ} {e : Event} (h : e.tells k = some v) :
    sent k (trace ++ [.room left, e]) = sent k trace := by
  have hr : e.isRejected = false := by cases e <;> first | rfl | cases h
  refine sent_append (fun e' he => ?_) fun e' he => ?_
  all_goals rcases List.mem_pair.1 he with rfl | rfl
  exacts [rfl, hr, rfl, Event.tells_sends h]

/-- The frame of a notice sends it. -/
theorem Notice.sends_frame (k : Notice) (v : ℕ) : (Event.txFr (k.frame v)).sends k = some v := by
  cases k <;> simp [Notice.frame, Event.sends]

/-- After a rejection nothing has been told. -/
theorem told_rejected (trace : List Event) : told k (trace ++ [.earlyDataRejected]) = [] := by
  rw [told, since_concat_of_pos rfl]
  rfl

/-- After a rejection nothing has been sent. -/
theorem sent_rejected (trace : List Event) : sent k (trace ++ [.earlyDataRejected]) = [] := by
  rw [sent, since_concat_of_pos rfl]
  rfl

/-- A plain event tells and sends nothing. -/
theorem Event.Plain.tells {e : Event} (h : e.Plain) :
    e.tells k = none ∧ e.sends k = none ∧ e.isRejected = false := by
  cases e with
  | txFr fr => cases fr <;> first | exact ⟨rfl, rfl, rfl⟩ | exact h.elim
  | _ => first | exact ⟨rfl, rfl, rfl⟩ | exact h.elim

/-! ## Steps -/

/-- What a step has to do with the frames of a kind. -/
inductive NoticeStep (k : Notice) (c c' : Cfg) : Prop
  | keep (evs : List Event) (htrace : c'.st.trace = c.st.trace ++ evs)
      (hevs : ∀ e ∈ evs, e.tells k = none ∧ e.sends k = none ∧ e.isRejected = false)
      (hpending : ∀ v, c'.pending = .announced (k.frame v) → c.pending = .announced (k.frame v))
      (hannounced : ∀ v, c.pending = .announced (k.frame v) →
        c'.pending = .announced (k.frame v) ∧ c'.conn.tx.qre = c.conn.tx.qre ∧
          ∀ e ∈ evs, e.ofApp = true)
      (hlimit : ∀ uni, k = .streams uni → c'.conn.rxStreams uni = c.conn.rxStreams uni ∨
        ∃ n, evs = [.extended (maxStreamsLimit uni) n] ∧
          c'.conn.rxStreams uni = { c.conn.rxStreams uni with
            unsentMaxStreams := extendLimit maxStreams (c.conn.rxStreams uni).unsentMaxStreams n })
  | announce {v : ℕ} {e : Event} (hp : c.pending = .idle)
      (htrace : c'.st.trace = c.st.trace ++ [.room c.conn.tx.qre.left, e])
      (hv : e.tells k = some v) (hp' : c'.pending = .announced (k.frame v))
      (hconn : c'.conn = c.conn)
      (hlimit : ∀ uni, k = .streams uni → (c.conn.rxStreams uni).unsentMaxStreams = v)
  | putOff {v : ℕ} {fr : Frame} (hp : c.pending = .announced (k.frame v))
      (hdue : c.conn.Due (k.frame v) fr) (hroom : c.conn.tx.qre.left < fr.wire.length)
      (htrace : c'.st.trace = c.st.trace) (hp' : c'.pending = .idle) (hconn : c'.conn = c.conn)
  | send {v v' : ℕ} (hp : c.pending = .announced (k.frame v))
      (hdue : c.conn.Due (k.frame v) (k.frame v'))
      (htrace : c'.st.trace = c.st.trace ++ [.txFr (k.frame v')]) (hp' : c'.pending = .idle)
      (hmax : ∀ uni, k = .streams uni → (c.conn.rxStreams uni).maxStreams < v' ∧
        (c'.conn.rxStreams uni).maxStreams = v')
      (hstop : ∀ id, k = .stop id → ∃ s s', c.conn.strms.find id = some s ∧
        s.flags.sendStopSending = true ∧ c'.conn.strms.find id = some s' ∧
        s'.flags = { s.flags with sendStopSending := false })
  | reject (htrace : c'.st.trace = c.st.trace ++ [.earlyDataRejected]) (hp' : c'.pending = .idle)

/-- The frame of a notice has its value. -/
theorem Notice.frame_injective {v v' : ℕ} (h : k.frame v = k.frame v') : v = v' := by
  cases k <;> simpa [frame] using h

/-- What a step of one stream has to do with the frames of a kind: it encodes the
    STOP_SENDING frame that was announced, or nothing of note. -/
inductive StrmNotice (k : Notice) (c c' : Cfg) (id : ℕ) (s s' : Strm) : Prop
  | keep (evs : List Event) (htrace : c'.st.trace = c.st.trace ++ evs)
      (hevs : ∀ e ∈ evs, e.tells k = none ∧ e.sends k = none ∧ e.isRejected = false)
      (hpending : ∀ v, c'.pending = .announced (k.frame v) → c.pending = .announced (k.frame v))
      (hannounced : ∀ v, c.pending = .announced (k.frame v) →
        c'.pending = .announced (k.frame v) ∧ c'.conn.tx.qre = c.conn.tx.qre ∧
          ∀ e ∈ evs, e.ofApp = true)
  | send {code : ℕ} (hk : k = .stop id) (hp : c.pending = .announced (k.frame code))
      (htrace : c'.st.trace = c.st.trace ++ [.txFr (k.frame code)]) (hp' : c'.pending = .idle)
      (hsend : s.flags.sendStopSending = true)
      (hs' : s'.flags = { s.flags with sendStopSending := false })

/-- What a step of a stream tells and sends. -/
theorem StrmStep.notice (k : Notice) (h : StrmStep quiet c id s s' pushed c') :
    StrmNotice k c c' id s s' := by
  have hnil : c.st.trace = c.st.trace ++ [] := (List.append_nil _).symm
  cases h with
  | txStop q hp hsend hshut henc =>
    by_cases hk : k = .stop id
    · subst hk
      exact .send rfl hp rfl rfl hsend rfl
    · refine .keep [_] rfl (by simp [Event.tells, Event.sends, Event.isRejected, hk]) nofun ?_
      intro v hv
      rw [hp] at hv
      cases k <;> simp [Notice.frame] at hv hk
      exact absurd hv.1 (Ne.symm hk)
  | recordSent len fin hp =>
    refine .keep [] hnil nofun (fun v hv => ?_) (by simp [hp])
    cases fin <;> cases hv
  | _ =>
    first
    | exact .keep [] hnil nofun (fun _ h => h) fun _ h => ⟨h, rfl, nofun⟩
    | exact .keep [] hnil nofun (by simp) (by simp [*])
    | exact .keep [_] rfl (by simp [Event.tells, Event.sends, Event.isRejected]) (fun _ h => h)
        fun _ h => ⟨h, rfl, by simp [Event.ofApp]⟩
    | exact .keep [_] rfl (by simp [Event.tells, Event.sends, Event.isRejected]) (by simp [*])
        (by simp [*])

/-- The MAX_STREAMS frames of one kind are not those of another. -/
theorem Notice.frame_ne_of_ne {uni : Bool} (hk : k ≠ .streams uni) (v n : ℕ) :
    k.frame v ≠ .maxStreams ⟨maxStreamsType uni, n⟩ := by
  cases k <;> simp_all [frame, maxStreamsType_inj]

/-- The callback of a limit on streams is called. -/
theorem NoticeStep.announced (uni : Bool) {v : ℕ} {e : Event} (hp : c.pending = .idle)
    (htrace : c'.st.trace = c.st.trace ++ [.room c.conn.tx.qre.left, e])
    (htells : e.tells k = if k = .streams uni then some v else none)
    (hsends : e.sends k = none) (hr : e.isRejected = false)
    (hp' : c'.pending = .announced (.maxStreams ⟨maxStreamsType uni, v⟩)) (hconn : c'.conn = c.conn)
    (hv : (c.conn.rxStreams uni).unsentMaxStreams = v) : NoticeStep k c c' := by
  by_cases hk : k = .streams uni
  · subst hk
    refine .announce hp htrace (htells.trans (if_pos rfl)) hp' hconn ?_
    rintro _ ⟨⟩
    exact hv
  · rw [if_neg hk] at htells
    refine .keep [_, _] htrace (fun e' he => ?_) (fun v hv => ?_) (by simp [hp])
      fun _ _ => .inl (by rw [hconn])
    · rcases List.mem_cons.1 he with rfl | he
      · exact ⟨rfl, rfl, rfl⟩
      · exact List.mem_singleton.1 he ▸ ⟨htells, hsends, hr⟩
    · exact absurd (Pending.announced.inj (hp'.symm.trans hv)).symm (Notice.frame_ne_of_ne hk v _)

/-- The MAX_STREAMS frame that was announced is encoded. -/
theorem NoticeStep.sentStreams (uni : Bool) {n v : ℕ}
    (hp : c.pending = .announced (.maxStreams ⟨maxStreamsType uni, n⟩))
    (hdue : c.conn.Due (.maxStreams ⟨maxStreamsType uni, n⟩)
      (.maxStreams ⟨maxStreamsType uni, v⟩))
    (htrace : c'.st.trace = c.st.trace ++ [.txFr (.maxStreams ⟨maxStreamsType uni, v⟩)])
    (hp' : c'.pending = .idle)
    (hmax : (c.conn.rxStreams uni).maxStreams < v ∧ (c'.conn.rxStreams uni).maxStreams = v)
    (hother : ∀ uni', uni' ≠ uni → c'.conn.rxStreams uni' = c.conn.rxStreams uni') :
    NoticeStep k c c' := by
  by_cases hk : k = .streams uni
  · subst hk
    refine .send hp hdue htrace hp' ?_ (by simp)
    rintro _ ⟨⟩
    exact hmax
  · have hsilent : (Event.txFr (.maxStreams ⟨maxStreamsType uni, v⟩)).sends k = none := by
      cases k <;> simp_all [Event.sends, maxStreamsType_inj, eq_comm]
    refine .keep [_] htrace (fun e he => List.mem_singleton.1 he ▸ ⟨rfl, hsilent, rfl⟩)
      (by simp [hp'])
      (fun v hv => absurd (Pending.announced.inj (hv.symm.trans hp)) (Notice.frame_ne_of_ne hk v n))
      fun uni' huni => .inl (hother uni' ?_)
    rintro rfl
    exact hk huni

/-- What a step tells and sends. -/
theorem Step.notice (k : Notice) (h : Step quiet l c c') : NoticeStep k c c' := by
  have hnil : c.st.trace = c.st.trace ++ [] := (List.append_nil _).symm
  cases h with
  -- A step of a stream may change its flags, but not the limits.
  | @strm _ c' id s s' pushed conn h hc =>
    have hlimit (uni : Bool) : conn.rxStreams uni = c.conn.rxStreams uni := by
      rw [Conn.rxStreams, hc.rest, h.frame]
      rfl
    have hqre : conn.tx.qre = c'.conn.tx.qre := by rw [hc.rest]
    cases h.notice k with
    | keep evs htrace hevs hpending hannounced =>
      refine .keep evs htrace hevs hpending (fun v hv => ?_) fun uni _ => .inl (hlimit uni)
      obtain ⟨h1, h2, h3⟩ := hannounced v hv
      exact ⟨h1, hqre.trans h2, h3⟩
    | send hk hp htrace hp' hsend hs' =>
      subst hk
      refine .send hp rfl htrace hp' (by simp) ?_
      rintro _ ⟨⟩
      have hfound := hc.found
      rw [h.frame] at hfound
      exact ⟨s, s', hfound, hsend, hc.found', hs'⟩
  | extendStreamsBidi n =>
    refine .keep [_] rfl (by simp [Event.tells, Event.sends, Event.isRejected]) (fun _ h => h)
      (fun _ h => ⟨h, rfl, by simp [Event.ofApp]⟩) fun uni _ => ?_
    cases uni
    exacts [.inr ⟨n, rfl, rfl⟩, .inl rfl]
  | extendStreamsUni n =>
    refine .keep [_] rfl (by simp [Event.tells, Event.sends, Event.isRejected]) (fun _ h => h)
      (fun _ h => ⟨h, rfl, by simp [Event.ofApp]⟩) fun uni _ => ?_
    cases uni
    exacts [.inl rfl, .inr ⟨n, rfl, rfl⟩]
  | event e he hp =>
    refine .keep [e] rfl (fun _ h => List.mem_singleton.1 h ▸ he.tells) (fun _ h => h)
      (fun v hv => absurd hv (hp _)) fun _ _ => .inl rfl
  | accept hp =>
    refine .keep [_] rfl (by simp [Event.tells, Event.sends, Event.isRejected]) (fun _ h => h)
      (by simp [hp]) fun uni _ => .inl ?_
    rw [Conn.setIdtr_eq]
    rfl
  -- The notice of the STOP_SENDING of another stream is none of this kind.
  | @announceStop _ id s hp =>
    by_cases hk : k = .stop id
    · subst hk
      exact .announce (e := .streamStopSending ..) hp rfl (if_pos rfl) rfl rfl (by simp)
    · refine .keep [_, _] rfl (by simp [Event.tells, Event.sends, Event.isRejected, hk])
        (fun v hv => ?_) (by simp [hp]) fun _ _ => .inl rfl
      cases k with
      | stop id' => simp_all [Notice.frame]
      | streams uni => cases hv
  | announceBidi hp => exact NoticeStep.announced false hp rfl rfl rfl rfl rfl rfl rfl
  | announceUni hp => exact NoticeStep.announced true hp rfl rfl rfl rfl rfl rfl rfl
  -- A frame that finds no room is announced again.
  | @putOff _ fr fr' hp hdue hroom =>
    by_cases hk : ∃ v, fr = k.frame v
    · obtain ⟨v, rfl⟩ := hk
      exact .putOff hp hdue hroom rfl rfl rfl
    · refine .keep [] hnil (by simp) (by simp) (fun v hv => ?_) fun _ _ => .inl rfl
      rw [hp] at hv
      exact absurd ⟨v, Pending.announced.inj hv⟩ hk
  | txMaxStreamsBidi q hp hmax =>
    refine NoticeStep.sentStreams false hp rfl rfl rfl ⟨hmax, rfl⟩ fun uni huni => ?_
    cases uni
    exacts [absurd rfl huni, rfl]
  | txMaxStreamsUni q hp hmax =>
    refine NoticeStep.sentStreams true hp rfl rfl rfl ⟨hmax, rfl⟩ fun uni huni => ?_
    cases uni
    exacts [rfl, absurd rfl huni]
  | close hp =>
    exact .keep [_] rfl (by simp [Event.tells, Event.sends, Event.isRejected, Strm.closeEvent])
      (by simp) (by simp [hp]) fun _ _ => .inl rfl
  | reject _ _ hp => exact .reject rfl hp
  | openBidi =>
    exact .keep [_] rfl (by simp [Event.tells, Event.sends, Event.isRejected]) (fun _ h => h)
      (fun _ h => ⟨h, rfl, by simp [Event.ofApp]⟩) fun _ _ => .inl rfl
  | openUni =>
    exact .keep [_] rfl (by simp [Event.tells, Event.sends, Event.isRejected]) (fun _ h => h)
      (fun _ h => ⟨h, rfl, by simp [Event.ofApp]⟩) fun _ _ => .inl rfl
  | extendOffset n =>
    exact .keep [_] rfl (by simp [Event.tells, Event.sends, Event.isRejected]) (fun _ h => h)
      (fun _ h => ⟨h, rfl, by simp [Event.ofApp]⟩) fun _ _ => .inl rfl
  -- The other steps tell and send nothing.
  | _ =>
    first
    | exact .keep [] hnil (by simp) (fun _ h => h) (fun _ h => ⟨h, rfl, by simp⟩)
        fun _ _ => .inl rfl
    | exact .keep [] hnil (by simp) (by simp [*]) (by simp [*]) fun _ _ => .inl rfl
    | exact .keep [_] rfl (by simp [Event.tells, Event.sends, Event.isRejected]) (by simp [*])
        (by simp [*]) fun _ _ => .inl rfl

/-! ## Callbacks and frames -/

/-- Callbacks have told of the frames encoded, and of the one that is about to be, for
    which there is room. -/
structure Cfg.NoticeOk (k : Notice) (c : Cfg) : Prop where
  idle : (∀ v, c.pending ≠ .announced (k.frame v)) → told k c.st.trace = sent k c.st.trace
  announced : ∀ v, c.pending = .announced (k.frame v) →
    told k c.st.trace = sent k c.st.trace ++ [v] ∧
      (k.frame v).wire.length ≤ c.conn.tx.qre.left ∧ Telling k v c.st.trace ∧
      ∀ uni, k = .streams uni → (c.conn.rxStreams uni).unsentMaxStreams = v

/-- A notice is still being told. -/
theorem Telling.append {v : ℕ} {trace evs : List Event} (h : Telling k v trace)
    (he : ∀ e ∈ evs, e.ofApp = true) : Telling k v (trace ++ evs) := by
  obtain ⟨pre, e, post, rfl, hv, hpost⟩ := h
  exact ⟨pre, e, post ++ evs, by simp, hv, fun e h => (List.mem_append.1 h).elim (hpost e) (he e)⟩

/-- The limit to be told is within the bound. -/
theorem Conn.IdsOk.rxStreams {conn : Conn} (h : conn.IdsOk) (uni : Bool) :
    (conn.rxStreams uni).unsentMaxStreams ≤ maxStreams := by
  cases uni
  exacts [h.bidiUnsent, h.uniUnsent]

/-- The frame that is due is the one announced, if the limit is still the same. -/
theorem Conn.Due.eq {conn : Conn} {v : ℕ} {fr : Frame} (h : conn.Due (k.frame v) fr)
    (hlimit : ∀ uni, k = .streams uni → (conn.rxStreams uni).unsentMaxStreams = v) :
    fr = k.frame v := by
  cases k with
  | stop id => exact h
  | streams uni =>
    have hlimit := hlimit uni rfl
    cases uni
    · rw [← hlimit]
      exact h
    · rw [← hlimit]
      exact h

/-- A step keeps told what is sent. -/
theorem Step.noticeOk (h : Step quiet l c c') (hI : Inv c) (hc : c.NoticeOk k)
    (hin : k.InTime c'.st.trace) : c'.NoticeOk k := by
  cases h.notice k with
  | keep evs htrace hevs hpending hannounced hlimit =>
    have htold : told k c'.st.trace = told k c.st.trace :=
      htrace ▸ told_append (fun e he => (hevs e he).2.2) fun e he => (hevs e he).1
    have hsent : sent k c'.st.trace = sent k c.st.trace :=
      htrace ▸ sent_append (fun e he => (hevs e he).2.2) fun e he => (hevs e he).2.1
    refine ⟨fun hidle => ?_, fun v hv => ?_⟩
    · rw [htold, hsent]
      exact hc.idle fun v hv => hidle v (hannounced v hv).1
    · have hp := hpending v hv
      obtain ⟨-, hqre, happ⟩ := hannounced v hp
      obtain ⟨h1, h2, h3, h4⟩ := hc.announced v hp
      rw [htold, hsent, hqre]
      refine ⟨h1, h2, htrace ▸ h3.append happ, fun uni hk => ?_⟩
      rcases hlimit uni hk with he | ⟨n, rfl, he⟩
      · rw [he]
        exact h4 uni hk
      · have hmax := hI.ids.rxStreams uni
        rw [htrace] at hin
        rw [he, ← h4 uni hk]
        -- the callback has raised the limit by nothing
        rcases (along_concat.1 hin).2.2 uni n v hk rfl h3 with rfl | rfl
        · simp [extendLimit, Nat.not_lt.2 hmax]
        · have := h4 uni hk
          simp only [extendLimit]
          split_ifs <;> omega
  | @announce v e hp htrace hv hp' hconn hlimit =>
    have htrace' : c.st.trace ++ [.room c.conn.tx.qre.left, e] =
        c.st.trace ++ [.room c.conn.tx.qre.left] ++ [e] := by simp
    have hidle := hc.idle (by simp [hp])
    rw [htrace, htrace'] at hin
    obtain ⟨pre, left, hpre, hle⟩ := (along_concat.1 hin).2.1 v hv
    obtain ⟨rfl, hleft⟩ := List.append_inj' hpre rfl
    obtain rfl : c.conn.tx.qre.left = left := by simpa using hleft
    refine ⟨fun hn => absurd hp' (hn v), fun v' hv' => ?_⟩
    obtain rfl := Notice.frame_injective (Pending.announced.inj (hp'.symm.trans hv'))
    rw [hconn, htrace, told_announced hv, sent_announced hv, hidle]
    exact ⟨rfl, hle, ⟨_, e, [], htrace', hv, nofun⟩, hlimit⟩
  | @putOff v fr hp hdue hroom =>
    obtain ⟨-, hle, -, hlimit⟩ := hc.announced v hp
    rw [hdue.eq hlimit] at hroom
    omega
  | @send v v' hp hdue htrace hp' =>
    obtain ⟨h1, -, -, hlimit⟩ := hc.announced v hp
    obtain rfl := Notice.frame_injective (hdue.eq hlimit)
    refine ⟨fun _ => ?_, fun v hv => absurd (hp'.symm.trans hv) nofun⟩
    have hsends := k.sends_frame v'
    rw [htrace, sent_concat hsends, told_append _ _, h1]
    · simp [Event.isRejected]
    · simp [Event.sends_tells hsends]
  | reject htrace hp' =>
    refine ⟨fun _ => ?_, fun v hv => absurd (hp'.symm.trans hv) nofun⟩
    rw [htrace, told_rejected, sent_rejected]

/-! ## Frames -/

/-- A STOP_SENDING frame of a stream is encoded once: it is not scheduled again. The
    limit on streams is that of the last MAX_STREAMS frame, and the largest. -/
structure Cfg.SentOk (c : Cfg) : Prop where
  stopped : ∀ id, sent (.stop id) c.st.trace ≠ [] → c.conn.Used id ∧
    ∀ s, c.conn.strms.find id = some s →
      s.flags.stopSending = true ∧ s.flags.sendStopSending = false
  once : ∀ id, (sent (.stop id) c.st.trace).length ≤ 1
  increasing : ∀ uni, (sent (.streams uni) c.st.trace).Pairwise (· < ·)
  le : ∀ uni, ∀ v ∈ sent (.streams uni) c.st.trace, v ≤ (c.conn.rxStreams uni).maxStreams

/-- The STOP_SENDING of a stream is not sent again. -/
theorem StrmStep.stopped (h : StrmStep quiet c id s s' pushed c')
    (hs : s.flags.stopSending = true ∧ s.flags.sendStopSending = false) :
    s'.flags.stopSending = true ∧ s'.flags.sendStopSending = false := by
  cases h with
  | shutRead _ _ hstop => cases hstop.symm.trans hs.1
  | extend _ _ hs' =>
    subst hs'
    exact hs
  | txStop => exact ⟨hs.1, rfl⟩
  | clearStop => exact ⟨hs.1, rfl⟩
  | _ => exact hs

/-- What has been encoded is left as it is by a step that encodes nothing of the kind. -/
theorem Step.sent_cases (h : Step quiet l c c') (k : Notice) :
    sent k c'.st.trace = sent k c.st.trace ∨ sent k c'.st.trace = [] ∨
      ∃ v, sent k c'.st.trace = sent k c.st.trace ++ [v] ∧
        (∀ uni, k = .streams uni → (c.conn.rxStreams uni).maxStreams < v ∧
          (c'.conn.rxStreams uni).maxStreams = v) ∧
        ∀ id, k = .stop id → ∃ s s', c.conn.strms.find id = some s ∧
          s.flags.sendStopSending = true ∧ c'.conn.strms.find id = some s' ∧
          s'.flags = { s.flags with sendStopSending := false } := by
  cases h.notice k with
  | keep evs htrace hevs =>
    exact .inl (htrace ▸ sent_append (fun e he => (hevs e he).2.2) fun e he => (hevs e he).2.1)
  | announce _ htrace hv => exact .inl (htrace ▸ sent_announced hv)
  | putOff _ _ _ htrace => exact .inl (htrace ▸ rfl)
  | @send v v' _ _ htrace _ hmax hstop =>
    exact .inr (.inr ⟨v', htrace ▸ sent_concat (k.sends_frame v'), hmax, hstop⟩)
  | reject htrace => exact .inr (.inl (htrace ▸ sent_rejected _))

/-- The limits on streams only grow, unless early data is rejected. -/
theorem Step.rxStreams_le (h : Step quiet l c c') (uni : Bool) :
    (c.conn.rxStreams uni).maxStreams ≤ (c'.conn.rxStreams uni).maxStreams ∨
      sent (.streams uni) c'.st.trace = [] := by
  cases h.notice (.streams uni) with
  | keep evs _ _ _ _ hlimit =>
    rcases hlimit uni rfl with he | ⟨n, -, he⟩
    all_goals exact .inl (by rw [he])
  | announce _ _ _ _ hconn => exact .inl (by rw [hconn])
  | putOff _ _ _ _ _ hconn => exact .inl (by rw [hconn])
  | send _ _ _ _ hmax =>
    obtain ⟨hlt, he⟩ := hmax uni rfl
    exact .inl (he ▸ hlt.le)
  | reject htrace => exact .inr (htrace ▸ sent_rejected _)

/-- A step keeps what was sent of the limits. -/
theorem Step.sentOk (h : Step quiet l c c') (hI : Inv c) (hc : c.SentOk) : c'.SentOk where
  stopped id hne := by
    rcases h.sent_cases (.stop id) with he | he | ⟨v, -, -, hstop⟩
    · obtain ⟨hused, hs⟩ := hc.stopped id (he ▸ hne)
      rcases h.used hI with hkeep | ⟨-, htrace, -⟩
      · refine ⟨hkeep id hused, fun s' hf' => ?_⟩
        rcases h.find_cases hI hf' with ⟨hn, -⟩ | ⟨s, hf, rfl | ⟨_, _, hstep⟩⟩
        exacts [absurd hused hn, hs _ hf, hstep.stopped (hs s hf)]
      · exact absurd (htrace ▸ sent_rejected _) hne
    · exact absurd he hne
    · obtain ⟨s, s', hf, hsend, hf', hs'⟩ := hstop id rfl
      rcases h.used hI with hkeep | ⟨-, htrace, -⟩
      · refine ⟨hkeep id (hI.ids.used hf), fun a ha => ?_⟩
        obtain rfl := Option.some.inj (hf'.symm.trans ha)
        rw [hs']
        exact ⟨(hI.strms id s hf).sendStopSending hsend, rfl⟩
      · exact absurd (htrace ▸ sent_rejected _) hne
  once id := by
    rcases h.sent_cases (.stop id) with he | he | ⟨v, he, -, hstop⟩
    · exact he ▸ hc.once id
    · simp [he]
    · obtain ⟨s, -, hf, hsend, -⟩ := hstop id rfl
      have hnil : sent (.stop id) c.st.trace = [] := by
        by_contra hne
        cases hsend.symm.trans ((hc.stopped id hne).2 s hf).2
      simp [he, hnil]
  increasing uni := by
    rcases h.sent_cases (.streams uni) with he | he | ⟨v, he, hmax, -⟩
    · exact he ▸ hc.increasing uni
    · simp [he]
    · rw [he, List.pairwise_append]
      refine ⟨hc.increasing uni, List.pairwise_singleton _ _, fun w hw u hu => ?_⟩
      obtain rfl := List.mem_singleton.1 hu
      exact (hc.le uni w hw).trans_lt (hmax uni rfl).1
  le uni v hv := by
    rcases h.sent_cases (.streams uni) with he | he | ⟨w, he, hmax, -⟩
    · rcases h.rxStreams_le uni with hle | hnil
      · exact (hc.le uni v (he ▸ hv)).trans hle
      · simp [hnil] at hv
    · simp [he] at hv
    · obtain ⟨hlt, hw⟩ := hmax uni rfl
      rw [he, List.mem_append, List.mem_singleton] at hv
      rw [hw]
      rcases hv with hv | rfl
      exacts [(hc.le uni v hv).trans hlt.le, le_rfl]

end Dwnx
