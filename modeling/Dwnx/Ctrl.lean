import Dwnx.Refine.Write

/-!
# What control frames leave alone

A record has data of streams in STREAM frames, and beside them control frames.
`Beside` relates states between which only control frames were written: no data was
accounted for, and no stream that may be written to has gone. The functions that write
control frames move the state along it, with callbacks that call nothing.
-/

namespace Dwnx

open Exec

variable {env : Env} {st t : St} {id : ℕ} {s s' : Strm}

/-! ## The relation -/

/-- The event is about data of a stream that is written. -/
def Event.ofData : Event → Bool
  | .txFr (.stream _) => true
  | .writeStreamDataOffset .. => true
  | _ => false

/-- The frame is not a STREAM frame. -/
def Frame.Control (fr : Frame) : Prop := (Event.txFr fr).ofData = false

/-- The account of the data of a stream is the same. -/
structure SameData (s s' : Strm) : Prop where
  streamId : s'.streamId = s.streamId
  offset : s'.tx.offset = s.tx.offset
  maxOffset : s'.tx.maxOffset = s.tx.maxOffset
  shutRd : s'.flags.shutRd = s.flags.shutRd
  shutWr : s'.flags.shutWr = s.flags.shutWr
  anySent : s'.flags.anySent = s.flags.anySent

/-- A stream has the data it has. -/
theorem SameData.refl (s : Strm) : SameData s s := ⟨rfl, rfl, rfl, rfl, rfl, rfl⟩

/-- Nothing was sent before, and nothing after. -/
theorem SameData.trans {a b d : Strm} (h : SameData a b) (h' : SameData b d) : SameData a d :=
  ⟨h'.streamId.trans h.streamId, h'.offset.trans h.offset, h'.maxOffset.trans h.maxOffset,
    h'.shutRd.trans h.shutRd, h'.shutWr.trans h.shutWr, h'.anySent.trans h.anySent⟩

/-- Control frames were written in between. A stream that is gone could not be written
    to. -/
structure Beside (st st' : St) : Prop where
  trace : ∃ evs, st'.trace = st.trace ++ evs ∧ ∀ e ∈ evs, e.ofData = false
  frames : ∃ bytes, st'.conn.tx.qre.frames = st.conn.tx.qre.frames ++ bytes
  buflen : st'.conn.tx.qre.buflen = st.conn.tx.qre.buflen
  offset : st'.conn.tx.offset = st.conn.tx.offset
  maxOffset : st'.conn.tx.maxOffset = st.conn.tx.maxOffset
  pdatalen : st'.pdatalen = st.pdatalen
  strms : ∀ id s, st.conn.strms.find id = some s →
    (∃ s', st'.conn.strms.find id = some s' ∧ SameData s s') ∨
      s.flags.shutWr = true ∧ st'.conn.strms.find id = none ∧ ∃ s' ∈ st'.closed, SameData s s'
  gone : ∀ id, st.conn.strms.find id = none → st'.conn.strms.find id = none
  closed : ∃ l, st'.closed = st.closed ++ l

instance : IsPreorder St Beside where
  refl st := ⟨⟨[], (List.append_nil _).symm, nofun⟩, ⟨[], (List.append_nil _).symm⟩, rfl, rfl, rfl,
    rfl, fun _ s h => .inl ⟨s, h, .refl s⟩, fun _ h => h, [], (List.append_nil _).symm⟩
  trans st₁ st₂ st₃ h h' := by
    obtain ⟨l, hl⟩ := h.closed
    obtain ⟨l', hl'⟩ := h'.closed
    refine ⟨?_, ?_, h'.buflen.trans h.buflen, h'.offset.trans h.offset,
      h'.maxOffset.trans h.maxOffset, h'.pdatalen.trans h.pdatalen, fun id s hs => ?_,
      fun id hn => h'.gone id (h.gone id hn), l ++ l', by rw [hl', hl, List.append_assoc]⟩
    · obtain ⟨evs, he, hevs⟩ := h.trace
      obtain ⟨evs', he', hevs'⟩ := h'.trace
      exact ⟨evs ++ evs', by rw [he', he, List.append_assoc],
        fun e h => (List.mem_append.1 h).elim (hevs e) (hevs' e)⟩
    · obtain ⟨bytes, hb⟩ := h.frames
      obtain ⟨bytes', hb'⟩ := h'.frames
      exact ⟨bytes ++ bytes', by rw [hb', hb, List.append_assoc]⟩
    · rcases h.strms id s hs with ⟨s₂, hs₂, h₂⟩ | ⟨hshut, hn, s₂, hm, h₂⟩
      · rcases h'.strms id s₂ hs₂ with ⟨s₃, hs₃, h₃⟩ | ⟨hshut, hn, s₃, hm, h₃⟩
        · exact .inl ⟨s₃, hs₃, h₂.trans h₃⟩
        · exact .inr ⟨h₂.shutWr ▸ hshut, hn, s₃, hm, h₂.trans h₃⟩
      · exact .inr ⟨hshut, h'.gone id hn, s₂, hl' ▸ List.mem_append_left _ hm, h₂⟩

/-- Nothing is done. -/
theorem Beside.refl (st : St) : Beside st st := refl_of Beside st

/-- Work beside the data, and then more of it. -/
theorem Beside.trans {st₁ st₂ st₃ : St} (h : Beside st₁ st₂) (h' : Beside st₂ st₃) :
    Beside st₁ st₃ := trans_of Beside h h'

/-- A stream that may be written to is there still. -/
theorem Beside.found (h : Beside st t) (hf : st.conn.strms.find id = some s)
    (hs : s.flags.shutWr = false) : ∃ s', t.conn.strms.find id = some s' ∧ SameData s s' := by
  refine (h.strms id s hf).resolve_right ?_
  rintro ⟨hshut, -⟩
  cases hs.symm.trans hshut

/-- Anything else of the connection may change. -/
theorem Beside.of_conn {conn : Conn} (hq : conn.tx.qre.frames = st.conn.tx.qre.frames)
    (hb : conn.tx.qre.buflen = st.conn.tx.qre.buflen) (ho : conn.tx.offset = st.conn.tx.offset)
    (hm : conn.tx.maxOffset = st.conn.tx.maxOffset) (hs : conn.strms = st.conn.strms) :
    Beside st { st with conn := conn } where
  trace := ⟨[], (List.append_nil _).symm, nofun⟩
  frames := ⟨[], hq.trans (List.append_nil _).symm⟩
  buflen := hb
  offset := ho
  maxOffset := hm
  pdatalen := rfl
  strms id s hf := .inl ⟨s, (congrArg (·.find id) hs).trans hf, .refl s⟩
  gone id hn := (congrArg (·.find id) hs).trans hn
  closed := ⟨[], (List.append_nil _).symm⟩

/-- An event that is not about data. -/
theorem Beside.emit {e : Event} (he : e.ofData = false) :
    Beside st { st with trace := st.trace ++ [e] } :=
  { Beside.refl st with trace := ⟨[e], rfl, fun _ h => List.mem_singleton.1 h ▸ he⟩ }

/-- A change of one stream that is not about its data. -/
theorem Beside.modify {f : Strm → Strm} (hf : ∀ s, SameData s (f s)) (id : ℕ) :
    Beside st { st with conn.strms := st.conn.strms.modify id f } :=
  { Beside.refl st with
    strms := fun k s hk => by
      refine .inl ?_
      rw [KeyMap.find_modify]
      split
      · next e =>
        subst e
        rw [hk]
        exact ⟨_, rfl, hf s⟩
      · exact ⟨s, hk, .refl s⟩
    gone := fun k hk => by
      rw [KeyMap.find_modify]
      split
      · next e =>
        subst e
        rw [hk]
        rfl
      · exact hk }

/-! ## Primitives -/

section
variable {α : Type}

/-- The only benign error of a function that writes control frames is a lack of room. -/
def CtrlErr (e : Err) : Prop := e.isBenign = true → e = .nobuf

/-- A frame that does not fit fails as control frames do. -/
theorem EncErr.ctrl {e : Err} (h : EncErr e) : CtrlErr e := by
  rcases h with rfl | rfl | rfl
  exacts [fun _ => rfl, nofun, nofun]

/-- A computation that moves the state along `Beside`. -/
abbrev MovesBeside (env : Env) (x : M α) : Prop := Moves Beside CtrlErr env x

/-- A change of the connection that is not about data. -/
theorem movesBeside_modifyConn {f : Conn → Conn}
    (h : ∀ st : St, Beside st { st with conn := f st.conn }) : MovesBeside env (modifyConn f) := h

/-- An event that is not about data is logged. -/
theorem movesBeside_emit {e : Event} (he : e.ofData = false) : MovesBeside env (emit e) :=
  fun _ => .emit he

/-- Looking a stream up changes nothing. -/
theorem movesBeside_deref : MovesBeside env (deref id) := by
  refine Moves.bind .get fun st => ?_
  split
  exacts [.pure _, .throw nofun]

/-- A stream is changed, but not its data. -/
theorem movesBeside_modifyStrm {f : Strm → Strm} (hf : ∀ s, SameData s (f s)) :
    MovesBeside env (modifyStrm id f) :=
  Moves.bind movesBeside_deref fun _ => fun _ => .modify hf id

/-- Allocating changes nothing. -/
theorem movesBeside_alloc (a : Alloc) : MovesBeside env (alloc a) := by
  refine Moves.bind .read fun _ => Moves.bind .get fun _ => ?_
  exact .ite (.throw nofun) (.pure _)

/-- Nor does an assertion. -/
theorem movesBeside_assertThat (a : Assertion) (p : Prop) [Decidable p] :
    MovesBeside env (assertThat a p) := .ite (.pure _) (.throw nofun)

/-- A passive callback is only logged. -/
theorem movesBeside_callback (hp : env.Passive) {e : Event} (he : e.ofData = false) :
    MovesBeside env (callback e) := by
  intro st
  rw [wp_callback_passive hp]
  exact .emit he

/-- A control frame is encoded. -/
theorem movesBeside_encodeFrame {fr : Frame} (hfr : fr.Control) :
    MovesBeside env (encodeFrame fr) := by
  intro st
  refine wp_encodeFrame_of (fun q hq => ?_) fun _ he => ⟨.refl st, he.ctrl⟩
  obtain ⟨-, -, rfl⟩ := Qre.encodeFrame_iff.1 hq
  exact { Beside.refl st with
    trace := ⟨[_], rfl, fun _ h => List.mem_singleton.1 h ▸ hfr⟩
    frames := ⟨_, rfl⟩ }

/-- That there is no room is told apart from other errors. -/
theorem movesBeside_isNobuf {x : M Unit} (hx : MovesBeside env x) : MovesBeside env (isNobuf x) :=
  .tryCatch (hx.bind fun _ => .pure _) fun _ he => .ite (.pure _) (.throw he)

end

/-! ## The queue -/

/-- The top of the queue is looked at. -/
theorem movesBeside_connTxStrmqTop : MovesBeside env connTxStrmqTop := by
  refine Moves.bind .get fun st => ?_
  split
  exacts [.pure _, .throw nofun]

/-- The top of the queue is taken off. -/
theorem movesBeside_connTxStrmqPop : MovesBeside env connTxStrmqPop :=
  movesBeside_connTxStrmqTop.bind fun _ => movesBeside_deref.bind fun _ =>
    movesBeside_modifyConn fun _ => .of_conn rfl rfl rfl rfl rfl

/-- A stream is put into the queue. -/
theorem movesBeside_connTxStrmqPushIfNot : MovesBeside env (connTxStrmqPushIfNot id) := by
  refine movesBeside_deref.bind fun _ => Moves.bind .get fun _ => .ite (.pure _) ?_
  refine Moves.bind (Moves.bind .get fun _ => ?_) fun _ => ?_
  · split
    exacts [movesBeside_deref.bind fun _ => .pure _, .pure _]
  · refine Moves.bind (movesBeside_modifyStrm ?_) fun _ => ?_
    · exact fun _ => ⟨rfl, rfl, rfl, rfl, rfl, rfl⟩
    · exact (movesBeside_alloc _).bind fun _ => movesBeside_modifyConn fun _ =>
        .of_conn rfl rfl rfl rfl rfl

/-! ## Frames about the connection -/

/-- The MAX_DATA frame. -/
theorem movesBeside_writeMaxData : MovesBeside env writeMaxData :=
  Moves.bind .get fun _ => .when <| Moves.bind (movesBeside_encodeFrame (by rfl)) fun _ =>
    movesBeside_modifyConn (by exact fun _ => .of_conn rfl rfl rfl rfl rfl)

/-- The QX_PING frame. -/
theorem movesBeside_writeQxPing : MovesBeside env writeQxPing :=
  Moves.bind .get fun _ => .when <| Moves.bind (movesBeside_encodeFrame (by rfl)) fun _ =>
    movesBeside_modifyConn (by exact fun _ => .of_conn rfl rfl rfl rfl rfl)

/-- The DATA_BLOCKED frame. -/
theorem movesBeside_connWriteDataBlocked : MovesBeside env connWriteDataBlocked := by
  refine Moves.bind .get fun _ => .ite (.pure _) ?_
  exact Moves.bind (movesBeside_assertThat _ _) fun _ =>
    Moves.bind (movesBeside_encodeFrame (by rfl)) fun _ =>
    movesBeside_modifyConn (by exact fun _ => .of_conn rfl rfl rfl rfl rfl)

/-- The frame with the transport parameters. -/
theorem movesBeside_connWriteTransportParams : MovesBeside env connWriteTransportParams :=
  Moves.bind .get fun _ => movesBeside_encodeFrame (by rfl)

section
variable (hp : env.Passive)
include hp

/-- A callback about a frame that is to be encoded. -/
theorem movesBeside_announce {e : Event} (he : e.ofData = false) : MovesBeside env (announce e) :=
  Moves.bind .get fun _ => Moves.bind (movesBeside_emit (by rfl)) fun _ =>
    movesBeside_callback hp he

/-- The MAX_STREAMS frames, each with its callback. -/
theorem movesBeside_connWriteMaxStreams : MovesBeside env connWriteMaxStreams := by
  have hbidi : MovesBeside env writeMaxStreamsBidi :=
    Moves.bind .get fun _ => .when <| Moves.bind (movesBeside_announce hp (by rfl)) fun _ =>
      Moves.bind .get fun _ => Moves.bind (movesBeside_encodeFrame (by rfl)) fun _ =>
        movesBeside_modifyConn (by exact fun _ => .of_conn rfl rfl rfl rfl rfl)
  have huni : MovesBeside env writeMaxStreamsUni :=
    Moves.bind .get fun _ => .when <| Moves.bind (movesBeside_announce hp (by rfl)) fun _ =>
      Moves.bind .get fun _ => Moves.bind (movesBeside_encodeFrame (by rfl)) fun _ =>
        movesBeside_modifyConn (by exact fun _ => .of_conn rfl rfl rfl rfl rfl)
  exact hbidi.bind fun _ => huni

end

/-! ## Frames about streams -/

/-- The STREAM_DATA_BLOCKED frame of a stream. -/
theorem movesBeside_connWriteStreamDataBlocked :
    MovesBeside env (connWriteStreamDataBlocked id) := by
  refine Moves.bind movesBeside_deref fun _ => .ite (.pure _) ?_
  exact Moves.bind (movesBeside_assertThat _ _) fun _ =>
    Moves.bind (movesBeside_encodeFrame (by rfl)) fun _ =>
    movesBeside_modifyStrm (by exact fun _ => ⟨rfl, rfl, rfl, rfl, rfl, rfl⟩)

/-- A stream that is blocked is put into the queue. -/
theorem movesBeside_writeBlocked : MovesBeside env (writeBlocked id) := by
  refine .tryCatch (Moves.bind movesBeside_connWriteDataBlocked fun _ =>
    movesBeside_connWriteStreamDataBlocked) fun e he => ?_
  refine .ite (.throw he) (Moves.bind (movesBeside_assertThat _ _) fun _ => ?_)
  exact Moves.bind (movesBeside_modifyStrm (by exact fun _ => ⟨rfl, rfl, rfl, rfl, rfl, rfl⟩))
    fun _ =>
    movesBeside_connTxStrmqPushIfNot

/-- Its STREAM_DATA_BLOCKED frame, when its turn comes. -/
theorem movesBeside_writeStreamDataBlocked : MovesBeside env (writeStreamDataBlocked id) := by
  refine Moves.bind movesBeside_deref fun _ => .when ?_
  refine Moves.bind (.when ?_) fun _ =>
    movesBeside_modifyStrm (by exact fun _ => ⟨rfl, rfl, rfl, rfl, rfl, rfl⟩)
  exact Moves.bind movesBeside_connWriteDataBlocked fun _ => movesBeside_connWriteStreamDataBlocked

/-- The MAX_STREAM_DATA frame of a stream. -/
theorem movesBeside_writeMaxStreamData : MovesBeside env (writeMaxStreamData id) :=
  Moves.bind movesBeside_deref fun _ => .when <|
    Moves.bind (movesBeside_encodeFrame (by rfl)) fun _ =>
    movesBeside_modifyStrm (by exact fun _ => ⟨rfl, rfl, rfl, rfl, rfl, rfl⟩)

section
variable (hp : env.Passive)
include hp

/-- The STOP_SENDING frame of a stream, with its callback. -/
theorem movesBeside_writeStopSending : MovesBeside env (writeStopSending id) := by
  refine Moves.bind movesBeside_deref fun _ => .when ?_
  refine Moves.bind (.when ?_) fun _ =>
    movesBeside_modifyStrm (by exact fun _ => ⟨rfl, rfl, rfl, rfl, rfl, rfl⟩)
  exact Moves.bind (movesBeside_announce hp (by rfl)) fun _ => Moves.bind movesBeside_deref fun _ =>
    movesBeside_encodeFrame (by rfl)

/-- A stream that is closed could not be written to. -/
theorem connCloseStream_beside (hf : st.conn.strms.find id = some s) (hs : s.flags.shutWr = true) :
    wp (connCloseStream id) (fun _ t => Beside st t) (fun e t => Beside st t ∧ CtrlErr e)
      env st := by
  rw [connCloseStream, wp_bind, wp_deref hf, wp_bind, wp_callback_passive hp, wp_bind,
    wp_deref (s := s) (by exact hf)]
  have hgone (e : Event) (he : e.ofData = false) : Beside st { st with
      trace := st.trace ++ [e]
      closed := st.closed ++ [s]
      conn.strms := st.conn.strms.erase id } :=
    { Beside.refl st with
      trace := ⟨[e], rfl, fun _ h => List.mem_singleton.1 h ▸ he⟩
      strms := fun k a ha => by
        dsimp only
        rw [KeyMap.find_erase]
        split
        · next e =>
          subst e
          obtain rfl := Option.some.inj (hf.symm.trans ha)
          exact .inr ⟨hs, rfl, s, List.mem_append_right _ (List.mem_singleton_self s), .refl s⟩
        · exact .inl ⟨a, ha, .refl a⟩
      gone := fun k hk => by
        dsimp only
        rw [KeyMap.find_erase, hk, ite_self]
      closed := ⟨[s], rfl⟩ }
  simp only [wp_bind, wp_modify, wp_get', wp_modifyConn]
  split
  · exact hgone _ rfl
  · rw [wp_bind, wp_assertThat, wp_modifyConn]
    split
    · exact (hgone _ rfl).trans (.of_conn rfl rfl rfl rfl rfl)
    · exact ⟨hgone _ rfl, by rintro ⟨⟩⟩

/-- The RESET_STREAM frame of a stream, after which it may be closed. -/
theorem movesBeside_writeResetStream : MovesBeside env (writeResetStream id) := by
  intro st
  rw [writeResetStream]
  refine Moves.of_wp (movesBeside_deref st) (fun s t ht => ⟨ht, ?_⟩) fun _ _ h => h
  rw [wp_ite]
  split
  · exact .refl t
  refine Moves.of_wp (movesBeside_encodeFrame (by rfl) t) (fun _ u hu => ⟨hu, ?_⟩) fun _ _ h => h
  refine Moves.of_wp (movesBeside_modifyStrm (by exact fun _ => ⟨rfl, rfl, rfl, rfl, rfl, rfl⟩) u)
    (fun _ v hv => ⟨hv, ?_⟩) fun _ _ h => h
  cases hf : v.conn.strms.find id with
  | none =>
    simp only [deref, wp_bind, wp_get', Conn.findStream, hf, wp_throw]
    exact ⟨.refl v, by rintro ⟨⟩⟩
  | some a =>
    rw [wp_bind, wp_deref hf, wp_ite]
    split
    · exact .refl v
    next hclose =>
    have hshut : a.flags.shutWr = true := by
      rw [Bool.not_eq_true', Bool.not_eq_false, Strm.shouldCloseStream, Bool.and_eq_true,
        Bool.and_eq_true] at hclose
      exact hclose.1.2
    -- the pop leaves the table alone
    have hpop : wp connTxStrmqPop (fun _ w => w.conn.strms = v.conn.strms ∧ Beside v w)
        (fun e w => Beside v w ∧ CtrlErr e) env v := by
      have hstrms : wp connTxStrmqPop (fun _ w => w.conn.strms = v.conn.strms)
          (fun _ _ => True) env v := by
        simp only [connTxStrmqPop, connTxStrmqTop, deref, wp_bind, wp_get']
        split <;> simp only [wp_pure, wp_throw]
        split <;> simp only [wp_pure, wp_throw, wp_modifyConn]
      exact wp_mono (wp_and (movesBeside_connTxStrmqPop v) hstrms) (fun _ _ h => ⟨h.2, h.1⟩)
        fun _ _ h => h.1
    refine Moves.of_wp hpop (fun _ w hw => ⟨hw.2, ?_⟩) fun _ _ h => h
    refine Moves.of_wp (connCloseStream_beside hp (hw.1 ▸ hf) hshut)
      (fun _ x hx => ⟨hx, .refl x⟩) fun _ _ h => h

/-- All frames of the stream on top of the queue. -/
theorem movesBeside_writeStrmqTop : MovesBeside env writeStrmqTop := by
  refine Moves.bind movesBeside_connTxStrmqTop fun _ => Moves.bind (movesBeside_emit (by rfl))
    fun _ => Moves.bind (movesBeside_writeResetStream hp) fun _ => ?_
  refine .ite (.pure _) ?_
  exact Moves.bind (movesBeside_writeStopSending hp) fun _ =>
    Moves.bind movesBeside_writeMaxStreamData fun _ =>
    Moves.bind movesBeside_writeStreamDataBlocked fun _ =>
    Moves.bind (movesBeside_emit (by rfl)) fun _ => movesBeside_connTxStrmqPop

/-- The streams of the queue, one after the other. -/
theorem movesBeside_writeStrmq (n : ℕ) : MovesBeside env (writeStrmq n) := by
  induction n with
  | zero => exact Moves.bind .get fun _ => .ite (.throw nofun) (.pure _)
  | succ n ih =>
    exact Moves.bind .get fun _ => .ite (.pure _)
      (Moves.bind (movesBeside_writeStrmqTop hp) fun _ => ih)

/-- All control frames: none of them moves data. -/
theorem movesBeside_connWriteCtrlFrames : MovesBeside env connWriteCtrlFrames :=
  Moves.bind movesBeside_writeMaxData fun _ => Moves.bind movesBeside_writeQxPing fun _ =>
    Moves.bind .read fun _ => Moves.bind .get fun _ =>
      Moves.bind (movesBeside_writeStrmq hp _) fun _ =>
      movesBeside_connWriteMaxStreams hp

end

end Dwnx
