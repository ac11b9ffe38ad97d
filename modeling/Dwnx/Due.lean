import Dwnx.Accounting
import Dwnx.Emit

/-!
# What is due

A record starts with the control frames that are due (`Conn.CtrlDue`).

* `serves_connWriteCtrlFrames`: if any is due, something is sent or there is no room for it, and
  otherwise nothing is done that matters.
-/

namespace Dwnx

open Exec

variable {env : Env} {st t u : St} {id n : ℕ} {s s' : Strm} {p q : Prop}

/-! ## What is due -/

/-- A limit is reached, and the peer has not been told so. -/
def Owed (offset maxOffset lastBlockedOffset : ℕ) : Prop :=
  ¬(offset < maxOffset ∨ offset = lastBlockedOffset)

/-- The peer is to be told that the connection is blocked. -/
def Conn.OwesBlocked (conn : Conn) : Prop :=
  Owed conn.tx.offset conn.tx.maxOffset conn.tx.lastBlockedOffset

/-- A STOP_SENDING frame is to be sent. -/
def Strm.OwesStop (s : Strm) : Prop := s.flags.sendStopSending = true ∧ s.flags.shutRd = false

/-- A MAX_STREAM_DATA frame is to be sent. -/
def Strm.OwesMax (s : Strm) : Prop :=
  s.flags.shutRd = false ∧ s.flags.stopSending = false ∧ s.shouldSendMaxStreamData = true

/-- A frame about credit is to be sent that found no room before; `blocked` says so of the
    connection. -/
def Strm.OwesBlocked (s : Strm) (blocked : Prop) : Prop :=
  s.flags.sendStreamDataBlocked = true ∧ s.flags.shutWr = false ∧
    (blocked ∨ Owed s.tx.offset s.tx.maxOffset s.tx.lastBlockedOffset)

/-- A frame of a stream in the queue is to be sent. -/
def Strm.FrameDue (s : Strm) (blocked : Prop) : Prop :=
  s.flags.sendResetStream = true ∨ s.OwesStop ∨ s.OwesMax ∨ s.OwesBlocked blocked

/-- A frame of a stream is to be sent when the queue comes to it. -/
def Conn.StrmDue (conn : Conn) : Prop :=
  ∃ id ∈ conn.tx.strmq.q, ∃ s, conn.strms.find id = some s ∧ s.FrameDue conn.OwesBlocked

/-- A control frame is to be sent, at the start of a record. -/
def Conn.CtrlDue (conn : Conn) : Prop :=
  conn.flags.qxTransportParametersSent = false ∨
    conn.rx.window < mul64 4 (sub64 conn.rx.unsentMaxOffset conn.rx.maxOffset) ∨
    conn.rx.ping.lastSeq > conn.rx.ping.lastRespSeq ∨ conn.StrmDue ∨
    conn.rx.bidi.unsentMaxStreams > conn.rx.bidi.maxStreams ∨
    conn.rx.uni.unsentMaxStreams > conn.rx.uni.maxStreams

/-! ## More in the record -/

/-- There is more in the record. -/
def Grew (st t : St) : Prop :=
  st.conn.tx.qre.frames.length < t.conn.tx.qre.frames.length

/-- Any event. -/
def Event.Any (_ : Event) : Prop := True

instance : Kind Event.Any := ⟨fun _ => trivial⟩

theorem Event.any_control (fr : Frame) (_ : fr.Ordinary) (_ : fr.hasData = false) :
    Event.Any (.txFr fr) := trivial

/-- What is in the record stays there. -/
theorem Grew.emits (h : Grew st t) (he : Emits Event.Any t u) : Grew st u := by
  obtain ⟨evs, -, hframes, -⟩ := he.frames
  rw [Grew, hframes, List.length_append]
  exact Nat.lt_add_right _ h

/-- There was no less in it before. -/
theorem Emits.grew (he : Emits Event.Any st t) (h : Grew t u) : Grew st u := by
  obtain ⟨evs, -, hframes, -⟩ := he.frames
  rw [Grew, hframes, List.length_append] at h
  exact (Nat.le_add_right _ _).trans_lt h

/-- The stream waits for the same frames. -/
structure Strm.Alike (s s' : Strm) (blocked : Prop) : Prop where
  tx : s'.tx = s.tx
  reset : s'.flags.sendResetStream = s.flags.sendResetStream
  stop : s'.OwesStop ↔ s.OwesStop
  max : s'.OwesMax ↔ s.OwesMax
  blocked : s'.OwesBlocked blocked ↔ s.OwesBlocked blocked

/-- A stream waits for what it waits for. -/
theorem Strm.Alike.refl (s : Strm) (p : Prop) : s.Alike s p := ⟨rfl, rfl, .rfl, .rfl, .rfl⟩

/-- The same frames, and then the same again. -/
theorem Strm.Alike.trans {a b c : Strm} (h : a.Alike b p) (h' : b.Alike c p) : a.Alike c p :=
  ⟨h'.tx.trans h.tx, h'.reset.trans h.reset, h'.stop.trans h.stop, h'.max.trans h.max,
    h'.blocked.trans h.blocked⟩

/-- Nothing was sent, and nothing is done with but what was not due. -/
structure Still (st t : St) : Prop where
  qre : t.conn.tx.qre = st.conn.tx.qre
  rx : t.conn.rx = st.conn.rx
  offset : t.conn.tx.offset = st.conn.tx.offset
  maxOffset : t.conn.tx.maxOffset = st.conn.tx.maxOffset
  lastBlockedOffset : t.conn.tx.lastBlockedOffset = st.conn.tx.lastBlockedOffset
  strms : ∀ k s, st.conn.strms.find k = some s →
    ∃ s', t.conn.strms.find k = some s' ∧ s.Alike s' st.conn.OwesBlocked

/-- The peer is to be told of the connection what it was. -/
theorem Still.owesBlocked (h : Still st t) : t.conn.OwesBlocked = st.conn.OwesBlocked := by
  rw [Conn.OwesBlocked, h.offset, h.maxOffset, h.lastBlockedOffset, Conn.OwesBlocked]

instance : IsPreorder St Still where
  refl _ := ⟨rfl, rfl, rfl, rfl, rfl, fun _ s h => ⟨s, h, .refl s _⟩⟩
  trans st t u h h' := by
    refine ⟨h'.qre.trans h.qre, h'.rx.trans h.rx, h'.offset.trans h.offset,
      h'.maxOffset.trans h.maxOffset, h'.lastBlockedOffset.trans h.lastBlockedOffset,
      fun k s hs => ?_⟩
    obtain ⟨s₁, hs₁, h₁⟩ := h.strms k s hs
    obtain ⟨s₂, hs₂, h₂⟩ := h'.strms k s₁ hs₁
    rw [h.owesBlocked] at h₂
    exact ⟨s₂, hs₂, h₁.trans h₂⟩

/-- Nothing was sent. -/
theorem Still.refl (st : St) : Still st st := refl_of Still st

/-- What is not sent of a stream is still to be sent. -/
theorem Still.of_modify {f : Strm → Strm} (hf : st.conn.strms.find id = some s)
    (h : s.Alike (f s) st.conn.OwesBlocked) :
    Still st { st with conn.strms := st.conn.strms.modify id f } := by
  refine { Still.refl st with strms := fun k b hb => ?_ }
  dsimp only
  rw [KeyMap.find_modify]
  split
  · next e =>
    subst e
    obtain rfl := Option.some.inj (hf.symm.trans hb)
    rw [hb]
    exact ⟨_, rfl, h⟩
  · exact ⟨b, hb, .refl b _⟩

/-! ## Functions that send what is due -/

section
variable {α β : Type}

/-- The function, run from `st`, sends something or fails if `p`, and otherwise ends in `R`. -/
abbrev Serves (env : Env) (x : M α) (st : St) (p : Prop) (R : α → St → Prop) : Prop :=
  wp x (fun a t => p ∧ Grew st t ∨ ¬p ∧ R a t) (fun _ _ => p) env st

/-- What is due in other words. -/
theorem Serves.congr {x : M α} {R : α → St → Prop} (h : Serves env x st p R) (hpq : p ↔ q) :
    Serves env x st q R := by
  rwa [← propext hpq]

/-- One function after the other. -/
theorem Serves.bind {x : M α} {f : α → M β} {R : α → St → Prop} {R' : β → St → Prop}
    (hx : Serves env x st p R)
    (hf : ∀ a t, R a t → t.conn.tx.qre = st.conn.tx.qre ∧ Serves env (f a) t q R')
    (hmono : ∀ a, MovesEmits Event.Any env (f a)) : Serves env (x >>= f) st (p ∨ q) R' := by
  rw [Serves, wp_bind]
  refine wp_mono hx (fun a t ht => ?_) fun _ _ h => .inl h
  rcases ht with ⟨hp, hgrew⟩ | ⟨hp, hR⟩
  · exact wp_mono (hmono a t) (fun _ u hu => .inl ⟨.inl hp, hgrew.emits hu⟩) fun _ _ _ => .inl hp
  · obtain ⟨hqre, hf⟩ := hf a t hR
    refine wp_mono hf (fun _ u hu => ?_) fun _ _ h => .inr h
    refine hu.imp (fun h => ⟨.inr h.1, ?_⟩) fun h => ⟨not_or.2 ⟨hp, h.1⟩, h.2⟩
    rw [Grew, ← hqre]
    exact h.2

/-- What is sent if it is due. -/
theorem Serves.of_due {x : M α} {R : α → St → Prop} (hp : p)
    (h : wp x (fun _ t => Grew st t) (fun _ _ => True) env st) : Serves env x st p R :=
  wp_mono h (fun _ _ h => .inl ⟨hp, h⟩) fun _ _ _ => hp

/-- What is only done if something is due. -/
theorem Serves.when {x : M Unit} [Decidable p]
    (h : p → wp x (fun _ t => Grew st t) (fun _ _ => True) env st) :
    Serves env (Exec.when p x) st p fun _ t => t = st := by
  rw [Serves, wp_when]
  split
  · next hp => exact Serves.of_due hp (h hp)
  · next hp => exact .inr ⟨hp, rfl⟩

/-- What comes after more in the record. -/
theorem Grew.serves {x : M α} {R : α → St → Prop} (hp : p) (h : Grew st t)
    (hx : MovesEmits Event.Any env x) :
    wp x (fun a t => p ∧ Grew st t ∨ ¬p ∧ R a t) (fun _ _ => p) env t :=
  wp_mono (hx t) (fun _ _ hu => .inl ⟨hp, h.emits hu⟩) fun _ _ _ => hp

end

/-- A frame was sent. -/
theorem wp_encodeFrame_grew {fr : Frame} (hfr : ∀ n, fr ≠ .padding n) :
    wp (encodeFrame fr) (fun _ t => Grew st t) (fun _ _ => True) env st := by
  simp only [encodeFrame, wp_bind, wp_get', wp_ofExcept]
  split
  · next qre hq =>
    obtain ⟨-, -, rfl⟩ := Qre.encodeFrame_iff.1 hq
    rw [wp_modifyConn, wp_emit, Grew]
    dsimp only
    rw [List.length_append]
    exact Nat.lt_add_of_pos_right (Frame.wire_pos hfr)
  · trivial

/-- A frame is sent, and then nothing is taken back. -/
theorem wp_encodeFrame_then {fr : Frame} {y : M Unit} (hfr : ∀ n, fr ≠ .padding n)
    (hy : MovesEmits Event.Any env y) :
    wp (do encodeFrame fr; y) (fun _ t => Grew st t) (fun _ _ => True) env st := by
  rw [wp_bind]
  exact wp_mono (wp_encodeFrame_grew hfr) (fun _ t ht =>
    wp_mono (hy t) (fun _ _ hu => ht.emits hu) fun _ _ _ => trivial) fun _ _ _ => trivial

/-- MAX_DATA, if it is due. -/
theorem serves_writeMaxData : Serves env writeMaxData st
    (st.conn.rx.window < mul64 4 (sub64 st.conn.rx.unsentMaxOffset st.conn.rx.maxOffset))
    fun _ t => t = st := by
  rw [Serves, writeMaxData, wp_bind, wp_get']
  exact Serves.when fun _ => wp_encodeFrame_then (by simp)
    (movesEmits_modifyConn (by exact fun _ => .of_conn rfl rfl rfl rfl))

/-- The response to a ping, if it is due. -/
theorem serves_writeQxPing : Serves env writeQxPing st
    (st.conn.rx.ping.lastSeq > st.conn.rx.ping.lastRespSeq) fun _ t => t = st := by
  rw [Serves, writeQxPing, wp_bind, wp_get']
  exact Serves.when fun _ => wp_encodeFrame_then (by simp)
    (movesEmits_modifyConn (by exact fun _ => .of_conn rfl rfl rfl rfl))

/-- A callback announces a frame, which is then sent. -/
theorem wp_announce_then (hp : env.Passive) {ev : Event} {y : M Unit}
    (hy : ∀ t : St, t.conn = st.conn → wp y (fun _ u => Grew t u) (fun _ _ => True) env t) :
    wp (do announce ev; y) (fun _ t => Grew st t) (fun _ _ => True) env st := by
  rw [wp_bind, announce, wp_bind, wp_get', wp_bind, wp_emit, wp_callback_passive hp]
  exact hy _ rfl

/-- MAX_STREAMS for bidirectional streams, if it is due. -/
theorem serves_writeMaxStreamsBidi (hp : env.Passive) : Serves env writeMaxStreamsBidi st
    (st.conn.rx.bidi.unsentMaxStreams > st.conn.rx.bidi.maxStreams) fun _ t => t = st := by
  rw [Serves, writeMaxStreamsBidi, wp_bind, wp_get']
  refine Serves.when fun _ => wp_announce_then hp fun t ht => ?_
  rw [wp_bind, wp_get']
  exact wp_encodeFrame_then (by simp)
    (movesEmits_modifyConn (by exact fun _ => .of_conn rfl rfl rfl rfl))

/-- MAX_STREAMS for unidirectional streams, if it is due. -/
theorem serves_writeMaxStreamsUni (hp : env.Passive) : Serves env writeMaxStreamsUni st
    (st.conn.rx.uni.unsentMaxStreams > st.conn.rx.uni.maxStreams) fun _ t => t = st := by
  rw [Serves, writeMaxStreamsUni, wp_bind, wp_get']
  refine Serves.when fun _ => wp_announce_then hp fun t ht => ?_
  rw [wp_bind, wp_get']
  exact wp_encodeFrame_then (by simp)
    (movesEmits_modifyConn (by exact fun _ => .of_conn rfl rfl rfl rfl))

/-- Both. -/
theorem serves_connWriteMaxStreams (hp : env.Passive) : Serves env connWriteMaxStreams st
    (st.conn.rx.bidi.unsentMaxStreams > st.conn.rx.bidi.maxStreams ∨
      st.conn.rx.uni.unsentMaxStreams > st.conn.rx.uni.maxStreams) fun _ t => t = st := by
  refine (serves_writeMaxStreamsBidi hp).bind ?_ fun _ => ?_
  · rintro _ t rfl
    exact ⟨rfl, serves_writeMaxStreamsUni hp⟩
  · exact Moves.bind .get fun _ => .when <| (movesEmits_announce (by rfl)).bind fun _ =>
      Moves.bind .get fun _ => movesEmits_encode trivial
        (by exact fun _ => .of_conn rfl rfl rfl rfl)

/-- The frame that tells that the connection is blocked, if it is due. -/
theorem serves_connWriteDataBlocked :
    Serves env connWriteDataBlocked st st.conn.OwesBlocked fun _ t => t = st := by
  rw [Serves, connWriteDataBlocked, wp_bind, wp_get', wp_ite]
  split
  · next h => exact .inr ⟨not_not.2 h, rfl⟩
  · next h =>
    have hdue : st.conn.OwesBlocked := h
    rw [wp_bind, wp_assertThat]
    split
    · exact Serves.of_due hdue (wp_encodeFrame_then (by simp)
        (movesEmits_modifyConn (by exact fun _ => .of_conn rfl rfl rfl rfl)))
    · exact hdue

/-- The frame that tells that a stream is blocked, if it is due. -/
theorem serves_connWriteStreamDataBlocked (hf : st.conn.strms.find id = some s) :
    Serves env (connWriteStreamDataBlocked id) st
      (Owed s.tx.offset s.tx.maxOffset s.tx.lastBlockedOffset) fun _ t => t = st := by
  rw [Serves, connWriteStreamDataBlocked, wp_bind, wp_deref hf, wp_ite]
  split
  · next h => exact .inr ⟨not_not.2 h, rfl⟩
  · next h =>
    have hdue : Owed s.tx.offset s.tx.maxOffset s.tx.lastBlockedOffset := h
    rw [wp_bind, wp_assertThat]
    split
    · exact Serves.of_due hdue (wp_encodeFrame_then (by simp) (movesEmits_modifyStrm _))
    · exact hdue

/-! ## The queue -/

/-- The stream was changed only in what is not due. -/
structure Cleared (st t : St) (id : ℕ) (s s' : Strm) : Prop where
  changes : Changes st.conn t.conn id s s' false
  alike : s.Alike s' st.conn.OwesBlocked
  streamId : s'.streamId = s.streamId
  cycle : s'.cycle = s.cycle

/-- Nothing is taken back. -/
theorem Cleared.refl (hf : st.conn.strms.find id = some s) : Cleared st st id s s :=
  ⟨.refl hf, .refl s _, rfl, rfl⟩

/-- The record is left alone. -/
theorem Cleared.qre (h : Cleared st t id s s') : t.conn.tx.qre = st.conn.tx.qre := by
  rw [h.changes.rest]

/-- So is the credit of the connection. -/
theorem Cleared.owesBlocked (h : Cleared st t id s s') :
    t.conn.OwesBlocked = st.conn.OwesBlocked := by
  rw [h.changes.rest]
  rfl

/-- More is taken back of the same stream. -/
theorem Cleared.trans {s₂ : Strm} (h : Cleared st t id s s') (h' : Cleared t u id s' s₂) :
    Cleared st u id s s₂ :=
  ⟨h.changes.trans h'.changes, h.alike.trans (h.owesBlocked ▸ h'.alike),
    h'.streamId.trans h.streamId, h'.cycle.trans h.cycle⟩

/-- A stream waits for the same frames afterwards. -/
theorem Cleared.still (h : Cleared st t id s s') : Still st t := by
  refine ⟨h.qre, ?_, ?_, ?_, ?_, fun k b hb => ?_⟩
  · rw [h.changes.rest]
  · rw [h.changes.rest]
  · rw [h.changes.rest]
  · rw [h.changes.rest]
  · by_cases hk : k = id
    · subst hk
      obtain rfl := Option.some.inj (h.changes.found.symm.trans hb)
      exact ⟨s', h.changes.found', h.alike⟩
    · exact ⟨b, (h.changes.find_of_ne hk).trans hb, .refl b _⟩

/-- The function sends something of the stream or fails if `p`, and otherwise changes the
    stream only in what is not due. -/
abbrev ServesStrm (env : Env) (x : M Unit) (st : St) (id : ℕ) (s : Strm) (p : Prop) : Prop :=
  Serves env x st p fun _ t => ∃ s', Cleared st t id s s'

/-- One frame of a stream after the other. -/
theorem ServesStrm.bind {x y : M Unit} (hx : ServesStrm env x st id s p)
    (hy : ∀ t s', Cleared st t id s s' → ServesStrm env y t id s' q)
    (hmono : MovesEmits Event.Any env y) : ServesStrm env (do x; y) st id s (p ∨ q) := by
  refine Serves.bind hx ?_ fun _ => hmono
  rintro _ t ⟨s', hs⟩
  refine ⟨hs.qre, wp_mono (hy t s' hs) (fun _ u hu => hu.imp_right ?_) fun _ _ h => h⟩
  rintro ⟨hq, s₂, hs₂⟩
  exact ⟨hq, s₂, hs.trans hs₂⟩

/-- STOP_SENDING, if it is due. -/
theorem servesStrm_writeStopSending (hp : env.Passive) (hf : st.conn.strms.find id = some s) :
    ServesStrm env (writeStopSending id) st id s s.OwesStop := by
  rw [ServesStrm, Serves, writeStopSending, wp_bind, wp_deref hf, wp_when]
  split
  swap
  · next hn => exact .inr ⟨fun h => hn h.1, s, .refl hf⟩
  next hsend =>
  rw [wp_bind, wp_when]
  split
  · next hrd =>
    have hsent := @wp_announce_then env st hp
      (.streamStopSending s.streamId s.tx.stopSendingAppErrorCode) (do
        let s ← deref id
        encodeFrame (.stopSending ⟨s.streamId, s.tx.stopSendingAppErrorCode⟩)) fun t ht => by
      rw [wp_bind, wp_deref (s := s) (by rw [ht]; exact hf)]
      exact wp_encodeFrame_grew (by simp)
    have hdue : s.OwesStop := ⟨hsend, by simpa using hrd⟩
    exact wp_mono hsent (fun _ t ht => ht.serves hdue (movesEmits_modifyStrm _)) fun _ _ _ => hdue
  · next hrd =>
    have hn : ¬s.OwesStop := fun h => hrd (by simp [h.2])
    rw [wp_modifyStrm hf]
    exact .inr ⟨hn, _, .of_modify hf _,
      ⟨rfl, rfl, iff_of_false (fun h => Bool.false_ne_true h.1) hn, .rfl, .rfl⟩, rfl, rfl⟩

/-- MAX_STREAM_DATA, if it is due. -/
theorem servesStrm_writeMaxStreamData (hf : st.conn.strms.find id = some s) :
    ServesStrm env (writeMaxStreamData id) st id s s.OwesMax := by
  rw [ServesStrm, Serves, writeMaxStreamData, wp_bind, wp_deref hf, wp_when]
  split
  · next h =>
    have hdue : s.OwesMax := by simpa [Strm.OwesMax] using h
    exact Serves.of_due hdue (wp_encodeFrame_then (by simp) (movesEmits_modifyStrm _))
  · next h => exact .inr ⟨fun hdue => h (by simpa [Strm.OwesMax] using hdue), s, .refl hf⟩

/-- The frames about credit that were left for later, if they are due still. -/
theorem servesStrm_writeStreamDataBlocked (hf : st.conn.strms.find id = some s) :
    ServesStrm env (writeStreamDataBlocked id) st id s (s.OwesBlocked st.conn.OwesBlocked) := by
  rw [ServesStrm, Serves, writeStreamDataBlocked, wp_bind, wp_deref hf, wp_when]
  split
  swap
  · next hn => exact .inr ⟨fun h => hn h.1, s, .refl hf⟩
  next hsend =>
  -- the flag is taken back where nothing was due
  have hdone (hn : ¬s.OwesBlocked st.conn.OwesBlocked) :
      Serves env (modifyStrm id fun s => { s with flags.sendStreamDataBlocked := false }) st
        (s.OwesBlocked st.conn.OwesBlocked) fun _ t => ∃ s', Cleared st t id s s' := by
    rw [Serves, wp_modifyStrm hf]
    exact .inr ⟨hn, _, .of_modify hf _,
      ⟨rfl, rfl, .rfl, .rfl, iff_of_false (fun h => Bool.false_ne_true h.1) hn⟩, rfl, rfl⟩
  rw [wp_bind, wp_when]
  split
  swap
  · next hwr => exact hdone fun h => hwr (by simp [h.2.1])
  next hwr =>
  have hwr : s.flags.shutWr = false := by simpa using hwr
  rw [wp_bind]
  refine wp_mono serves_connWriteDataBlocked (fun _ t ht => ?_) fun _ _ h => ⟨hsend, hwr, .inl h⟩
  rcases ht with ⟨hconn, ht⟩ | ⟨hconn, rfl⟩
  · rw [← wp_bind]
    exact ht.serves ⟨hsend, hwr, .inl hconn⟩
      ((movesEmits_connWriteStreamDataBlocked Event.any_control).bind fun _ =>
        movesEmits_modifyStrm _)
  refine wp_mono (serves_connWriteStreamDataBlocked hf) (fun _ u hu => ?_)
    fun _ _ h => ⟨hsend, hwr, .inr h⟩
  rcases hu with ⟨hstrm, hu⟩ | ⟨hstrm, rfl⟩
  · exact hu.serves ⟨hsend, hwr, .inr hstrm⟩ (movesEmits_modifyStrm _)
  · exact hdone fun h => h.2.2.elim hconn hstrm

/-- RESET_STREAM, with which the pass over a stream may end. -/
theorem serves_writeResetStream (hf : st.conn.strms.find id = some s) :
    Serves env (writeResetStream id) st (s.flags.sendResetStream = true)
      fun closed t => closed = false ∧ t = st := by
  rw [Serves, writeResetStream, wp_bind, wp_deref hf, wp_ite]
  split
  · next h => exact .inr ⟨by simpa using h, rfl, rfl⟩
  next h =>
  have hdue : s.flags.sendResetStream = true := by simpa using h
  rw [wp_bind]
  refine wp_mono (wp_encodeFrame_grew (by simp)) (fun _ t ht => ht.serves hdue ?_) fun _ _ _ => hdue
  exact (movesEmits_modifyStrm _).bind fun _ => movesEmits_deref.bind fun _ => .ite (.pure _) <|
    movesEmits_connTxStrmqPop.bind fun _ => movesEmits_connCloseStream.bind fun _ => .pure _

/-- A stream that waits for the same frames is due if the other is. -/
theorem Strm.Alike.frameDue (h : s.Alike s' p) : s'.FrameDue p ↔ s.FrameDue p :=
  or_congr (by rw [h.reset]) (or_congr h.stop (or_congr h.max h.blocked))

/-- The frames of a stream. -/
theorem servesStrm_frames (hp : env.Passive) (hf : st.conn.strms.find id = some s) :
    ServesStrm env (do
      writeStopSending id
      writeMaxStreamData id
      writeStreamDataBlocked id) st id s
      (s.OwesStop ∨ s.OwesMax ∨ s.OwesBlocked st.conn.OwesBlocked) := by
  have hmono : MovesEmits Event.Any env (writeStreamDataBlocked id) :=
    movesEmits_writeStreamDataBlocked Event.any_control
  refine (servesStrm_writeStopSending hp hf).bind (fun t s₁ h₁ => ?_)
    ((movesEmits_writeMaxStreamData Event.any_control).bind fun _ => hmono)
  refine ServesStrm.bind ((servesStrm_writeMaxStreamData h₁.changes.found').congr h₁.alike.max)
    (fun u s₂ h₂ => ?_) hmono
  refine (servesStrm_writeStreamDataBlocked h₂.changes.found').congr ?_
  rw [h₂.owesBlocked, h₁.owesBlocked]
  exact (h₁.owesBlocked ▸ h₂.alike.blocked).trans h₁.alike.blocked

/-- The stream on top of the queue. -/
theorem wp_connTxStrmqTop_head (hh : st.conn.tx.strmq.q[0]? = some id) {Q : ℕ → St → Prop}
    {E : Err → St → Prop} (hQ : Q id st) : wp connTxStrmqTop Q E env st := by
  rw [connTxStrmqTop, wp_bind, wp_get']
  split
  · next k _ hq =>
    rw [hq] at hh
    cases hh
    exact hQ
  · next hq =>
    rw [hq] at hh
    cases hh

/-- The pass over the stream on top of the queue, which it leaves. -/
theorem serves_writeStrmqTop (hp : env.Passive) (hq : st.conn.QueueOk)
    (hh : st.conn.tx.strmq.q[0]? = some id) (hf : st.conn.strms.find id = some s) :
    Serves env writeStrmqTop st (s.FrameDue st.conn.OwesBlocked) fun _ t => Still st t ∧
      t.conn.QueueOk ∧ ∀ k, k ∈ t.conn.tx.strmq.q ↔ k ∈ st.conn.tx.strmq.q ∧ k ≠ id := by
  have hpop : MovesEmits Event.Any env (do
      emit (.strmqPop id)
      connTxStrmqPop) := (movesEmits_emit rfl).bind fun _ => movesEmits_connTxStrmqPop
  rw [Serves, writeStrmqTop, wp_bind]
  refine wp_connTxStrmqTop_head hh ?_
  rw [wp_bind, wp_emit]
  refine Serves.bind (serves_writeResetStream (s := s) (by exact hf)) ?_ fun closed => ?_
  swap
  · exact .ite (.pure _) ((movesEmits_writeStopSending Event.any_control).bind fun _ =>
      (movesEmits_writeMaxStreamData Event.any_control).bind fun _ =>
      (movesEmits_writeStreamDataBlocked Event.any_control).bind fun _ => hpop)
  rintro _ t ⟨rfl, rfl⟩
  refine ⟨rfl, ?_⟩
  rw [Serves, wp_ite, if_neg (by simp)]
  have hrest : Serves env (do
      (do
        writeStopSending id
        writeMaxStreamData id
        writeStreamDataBlocked id)
      emit (.strmqPop id)
      connTxStrmqPop) { st with trace := st.trace ++ [.strmqTop id] }
      (s.OwesStop ∨ s.OwesMax ∨ s.OwesBlocked st.conn.OwesBlocked) fun _ t => Still st t ∧
        t.conn.QueueOk ∧ ∀ k, k ∈ t.conn.tx.strmq.q ↔ k ∈ st.conn.tx.strmq.q ∧ k ≠ id := by
    rw [Serves, wp_bind]
    refine wp_mono (servesStrm_frames (s := s) hp (by exact hf)) (fun _ t ht => ?_) fun _ _ h => h
    rcases ht with ⟨hdue, hgrew⟩ | ⟨hn, s', hc⟩
    · exact hgrew.serves hdue hpop
    have hok : t.conn.QueueOk := hc.changes.queueOk (by exact hq) hc.streamId hc.cycle
    have hhead : t.conn.tx.strmq.q[0]? = some id :=
      (hc.changes.head id hh).elim (fun h => h) fun h => h.1
    rw [wp_bind, wp_emit, connTxStrmqPop, wp_bind]
    refine wp_connTxStrmqTop_head (by exact hhead) ?_
    rw [wp_bind, wp_deref (s := s') (by exact hc.changes.found'), wp_modifyConn]
    refine .inr ⟨hn, { hc.still with }, hok.pop hhead, fun k => (hok.mem_pop hhead).trans ?_⟩
    rw [hc.changes.mem]
    simp
  simpa only [Serves, wp_bind] using hrest

/-- A queue loses one stream. -/
theorem length_of_mem_iff {q q' : List ℕ} (hq : q.Nodup) (hq' : q'.Nodup) (hid : id ∈ q)
    (h : ∀ k, k ∈ q' ↔ k ∈ q ∧ k ≠ id) : q'.length + 1 = q.length := by
  have hperm : q'.Perm (q.erase id) :=
    (List.perm_ext_iff_of_nodup hq' (hq.erase id)).2 fun k => by
      rw [h, hq.mem_erase_iff, and_comm]
  rw [hperm.length_eq, List.length_erase_of_mem hid]
  exact Nat.sub_add_cancel (List.length_pos_of_mem hid)

/-- The passes over the queue, for which there is fuel. -/
theorem serves_writeStrmq (hp : env.Passive) (hq : st.conn.QueueOk)
    (hn : st.conn.tx.strmq.q.length ≤ n) :
    Serves env (writeStrmq n) st st.conn.StrmDue fun _ t => Still st t := by
  induction n generalizing st with
  | zero =>
    have hnil := List.length_eq_zero_iff.1 (Nat.le_zero.1 hn)
    rw [Serves, writeStrmq, wp_bind, wp_get', wp_ite, if_neg (by simpa using hnil)]
    refine .inr ⟨?_, .refl st⟩
    rintro ⟨id, hid, -⟩
    rw [hnil] at hid
    cases hid
  | succ n ih =>
    rw [Serves, writeStrmq, wp_bind, wp_get', wp_ite]
    split
    · next hnil =>
      refine .inr ⟨?_, .refl st⟩
      rintro ⟨id, hid, -⟩
      rw [hnil] at hid
      cases hid
    next hne =>
    obtain ⟨id, rest, hcons⟩ := List.exists_cons_of_ne_nil hne
    have hh : st.conn.tx.strmq.q[0]? = some id := by rw [hcons]; rfl
    have hid : id ∈ st.conn.tx.strmq.q := by rw [hcons]; exact List.mem_cons_self
    obtain ⟨s, hf⟩ := hq.found id hid
    have hmono : MovesEmits Event.Any env (writeStrmq n) :=
      movesEmits_writeStrmq Event.any_control n
    rw [wp_bind]
    refine wp_mono (serves_writeStrmqTop hp hq hh hf) (fun _ t ht => ?_)
      fun _ _ h => ⟨id, hid, s, hf, h⟩
    rcases ht with ⟨hdue, hgrew⟩ | ⟨hdue, hstill, hok, hmem⟩
    · exact hgrew.serves ⟨id, hid, s, hf, hdue⟩ hmono
    have hlen := length_of_mem_iff hq.wf.nodup hok.wf.nodup hid hmem
    -- what is due is due of another stream
    have hiff : t.conn.StrmDue ↔ st.conn.StrmDue := by
      rw [Conn.StrmDue, hstill.owesBlocked]
      constructor
      · rintro ⟨k, hk, a, ha, hdue'⟩
        obtain ⟨b, hb⟩ := hq.found k ((hmem k).1 hk).1
        obtain ⟨a', ha', halike⟩ := hstill.strms k b hb
        obtain rfl := Option.some.inj (ha.symm.trans ha')
        exact ⟨k, ((hmem k).1 hk).1, b, hb, halike.frameDue.1 hdue'⟩
      · rintro ⟨k, hk, a, ha, hdue'⟩
        have hne : k ≠ id := by
          rintro rfl
          obtain rfl := Option.some.inj (ha.symm.trans hf)
          exact hdue hdue'
        obtain ⟨a', ha', halike⟩ := hstill.strms k a ha
        exact ⟨k, (hmem k).2 ⟨hk, hne⟩, a', ha', halike.frameDue.2 hdue'⟩
    refine wp_mono ((ih hok (by omega)).congr hiff) (fun _ u hu => ?_) fun _ _ h => h
    refine hu.imp (fun h => ⟨h.1, ?_⟩) fun h => ⟨h.1, trans_of Still hstill h.2⟩
    rw [Grew, ← hstill.qre]
    exact h.2

/-- The control frames at the start of a record. -/
theorem serves_connWriteCtrlFrames (hp : env.Passive) (hq : st.conn.QueueOk) :
    Serves env connWriteCtrlFrames st
      (st.conn.rx.window < mul64 4 (sub64 st.conn.rx.unsentMaxOffset st.conn.rx.maxOffset) ∨
        st.conn.rx.ping.lastSeq > st.conn.rx.ping.lastRespSeq ∨ st.conn.StrmDue ∨
        st.conn.rx.bidi.unsentMaxStreams > st.conn.rx.bidi.maxStreams ∨
        st.conn.rx.uni.unsentMaxStreams > st.conn.rx.uni.maxStreams) fun _ t => Still st t := by
  have hmax : MovesEmits Event.Any env connWriteMaxStreams :=
    movesEmits_connWriteMaxStreams Event.any_control
  have hqueue : MovesEmits Event.Any env (do
      writeStrmq ((← read).fuel + (← get).conn.tx.strmq.q.length)
      connWriteMaxStreams) :=
    Moves.bind .read fun _ => Moves.bind .get fun _ =>
      (movesEmits_writeStrmq Event.any_control _).bind fun _ => hmax
  have hping : MovesEmits Event.Any env writeQxPing := Moves.bind .get fun _ => .when <|
    movesEmits_encode trivial (by exact fun _ => .of_conn rfl rfl rfl rfl)
  refine serves_writeMaxData.bind ?_ fun _ => hping.bind fun _ => hqueue
  rintro _ t rfl
  refine ⟨rfl, serves_writeQxPing.bind ?_ fun _ => hqueue⟩
  rintro _ t rfl
  refine ⟨rfl, ?_⟩
  rw [Serves, wp_bind, wp_read, wp_bind, wp_get']
  refine (serves_writeStrmq hp hq (Nat.le_add_left _ _)).bind (fun _ u hu => ⟨hu.qre, ?_⟩)
    fun _ => hmax
  have h := @serves_connWriteMaxStreams env u hp
  rw [hu.rx] at h
  refine wp_mono h (fun _ v hv => hv.imp_right ?_) fun _ _ h => h
  rintro ⟨hn, rfl⟩
  exact ⟨hn, hu⟩

end Dwnx
