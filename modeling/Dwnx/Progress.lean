import Dwnx.Due

/-!
# The loop of writing

An application calls the write functions again as long as they ask for more.

* `write_progress`: a call that asks for more has added to the record, unless only the credit of
  the connection is used up and there is nothing (new) to be told of that; so the loop ends.
-/

namespace Dwnx

open Exec

variable {env : Env} {st t u : St} {id destlen ts : ℕ} {s s' : Strm} {finFlag : Bool}
  {datav : Vecs} {p q : Prop} {e e' : Endp}

/-! ## Without credit -/

/-- The connection has no credit for the data, though the stream has, and there is nothing to
    be told of that: the peer knows, or the frame finds no room. -/
structure Conn.Stuck (conn : Conn) (s : Strm) (datav : Vecs) : Prop where
  data : datav.flatten.length ≠ 0
  spent : conn.tx.offset = conn.tx.maxOffset
  credit : s.tx.offset < s.tx.maxOffset
  told : conn.tx.offset = conn.tx.lastBlockedOffset ∨
    conn.tx.qre.left < (Frame.dataBlocked ⟨conn.tx.offset⟩).wire.length

/-- A frame with data makes the record longer. -/
theorem Accounted.grew {k : ℕ} (h : Accounted st t id s finFlag datav k) : Grew st t := by
  obtain ⟨pre, post, hframes, hpre, -⟩ := h.record
  have hpos := @Frame.wire_pos (Frame.stream (streamFrame s finFlag datav k)) (by simp)
  have hle := hpre.length_le
  rw [Grew, hframes, List.length_append, List.length_append]
  omega

/-- Where only the connection has no credit, a frame tells so, or the connection is stuck. -/
theorem wp_writeBlocked_stuck (hp : env.Passive) (hq : st.conn.QueueOk)
    (hf : st.conn.strms.find id = some s) (hdata : datav.flatten.length ≠ 0)
    (hspent : st.conn.tx.offset = st.conn.tx.maxOffset) (hcredit : s.tx.offset < s.tx.maxOffset)
    (hcmax : st.conn.tx.maxOffset ≤ maxVarint) :
    wp (writeBlocked id) (fun _ t => ¬st.conn.Stuck s datav ∧ Grew st t ∨
      st.conn.Stuck s datav ∧ t.conn.tx.qre = st.conn.tx.qre) (fun _ _ => False) env st := by
  have hsecond {t : St} (hf : t.conn.strms.find id = some s) {Q : Unit → St → Prop}
      {E : Err → St → Prop} (hQ : Q () t) : wp (connWriteStreamDataBlocked id) Q E env t := by
    rw [connWriteStreamDataBlocked, wp_bind, wp_deref hf, wp_ite, if_pos (.inl hcredit)]
    exact hQ
  rw [writeBlocked, wp_tryCatch, wp_bind, connWriteDataBlocked, wp_bind, wp_get', wp_ite]
  split
  · next h =>
    have htold : st.conn.tx.offset = st.conn.tx.lastBlockedOffset :=
      h.resolve_left (Nat.not_lt.2 hspent.ge)
    rw [wp_pure]
    exact hsecond hf (.inr ⟨⟨hdata, hspent, hcredit, .inl htold⟩, rfl⟩)
  next hn =>
  have henc : (Frame.dataBlocked ⟨st.conn.tx.offset⟩).Encodable := by
    refine ⟨fun v hv => ?_, trivial⟩
    simp only [Frame.varints, List.mem_cons, List.not_mem_nil, or_false] at hv
    rcases hv with rfl | rfl
    exacts [by decide, hspent.trans_le hcmax]
  rw [wp_bind]
  refine wp_assertThat_of hspent ?_
  rw [wp_bind]
  refine wp_encodeFrame_room henc (fun hroom => ?_) fun hroom => ?_
  · rw [wp_modifyConn]
    refine hsecond (by exact hf) (.inl ⟨fun h => ?_, ?_⟩)
    · exact h.told.elim (fun h => hn (.inr h)) hroom.not_gt
    · rw [Grew, List.length_append]
      exact Nat.lt_add_of_pos_right (Frame.wire_pos (by simp))
  -- what finds no room is left for later
  · rw [wp_ite, if_neg (by decide), wp_bind]
    refine wp_assertThat_of rfl ?_
    rw [wp_bind]
    refine wp_modifyStrm_of hf fun conn hc => ?_
    refine wp_connTxStrmqPushIfNot (hc.queueOk hq rfl rfl) hc.found' (fun conn' hc' => ?_)
      fun hn => absurd hp hn
    refine .inr ⟨⟨hdata, hspent, hcredit, .inr hroom⟩, ?_⟩
    dsimp only
    rw [hc'.rest, hc.rest]

/-- A call for data of a stream writes a frame or fails, unless the connection is stuck. -/
theorem wp_connWriteStreamFrame_stuck (hp : env.Passive) (hq : st.conn.QueueOk)
    (hf : st.conn.strms.find id = some s) (hshut : s.flags.shutWr = false)
    (hstrm : s.tx.offset ≤ s.tx.maxOffset) (hmax : s.tx.maxOffset ≤ maxVarint)
    (hconn : st.conn.tx.offset ≤ st.conn.tx.maxOffset)
    (hcmax : st.conn.tx.maxOffset ≤ maxVarint) :
    wp (connWriteStreamFrame id finFlag datav)
      (fun _ t => ¬st.conn.Stuck s datav ∧ Grew st t ∨
        st.conn.Stuck s datav ∧ t.conn.tx.qre = st.conn.tx.qre)
      (fun e _ => ¬st.conn.Stuck s datav ∧ e ≠ .writeMore) env st := by
  have hvar : maxVarint < 2 ^ 62 := by decide
  have hcredit : st.conn.enforceFlowControl s datav.flatten.length =
      min datav.flatten.length (min (s.tx.maxOffset - s.tx.offset)
        (st.conn.tx.maxOffset - st.conn.tx.offset)) := by
    rw [Conn.enforceFlowControl, sub64_eq hstrm (by omega), sub64_eq hconn (by omega)]
  rw [connWriteStreamFrame, wp_bind, wp_emit]
  dsimp only
  rw [wp_bind, wp_deref (s := s) (by exact hf), wp_bind, wp_get', wp_ite]
  split
  · next hzero =>
    rw [writeStreamNoCredit, wp_bind]
    rcases hstrm.eq_or_lt with hspent | hlt
    -- the stream has no credit, which is an error
    · have hn : ¬st.conn.Stuck s datav := fun h => h.credit.ne hspent
      refine wp_mono (movesBeside_writeBlocked _) (fun _ t ht => ?_) fun e t ht => ⟨hn, ?_⟩
      · obtain ⟨b, hb, hsame⟩ := ht.found (by exact hf) hshut
        rw [wp_bind, wp_deref hb, wp_ite, if_pos (by rw [hsame.maxOffset, hsame.offset, hspent])]
        exact ⟨hn, by decide⟩
      · rintro rfl
        cases ht.2 rfl
    · have hspent : st.conn.tx.offset = st.conn.tx.maxOffset := by
        obtain ⟨hz, hne⟩ := hzero
        rw [show ({ st with trace := st.trace ++ [Event.writeStreamFrame id] } : St).conn = st.conn
          from rfl, hcredit] at hz
        omega
      refine wp_mono (wp_and (movesBeside_writeBlocked _) (@wp_writeBlocked_stuck env _ id s datav
        hp (by exact hq) (by exact hf) hzero.2 hspent hlt hcmax))
        (fun _ t ht => ?_) fun _ _ h => h.2.elim
      obtain ⟨b, hb, hsame⟩ := ht.1.found (by exact hf) hshut
      rw [wp_bind, wp_deref hb, wp_ite, if_neg (by rw [hsame.maxOffset, hsame.offset]; omega)]
      exact ht.2
  · next hzero =>
    have hn : ¬st.conn.Stuck s datav := fun h => by
      refine hzero ⟨hcredit.trans ?_, h.data⟩
      rw [h.spent, Nat.sub_self, Nat.min_zero, Nat.min_zero]
    refine wp_mono (writeCredited_accounts (s := s) hp (by exact hq) (by exact hf) hshut hstrm hmax
      hconn hcmax rfl) (fun _ t ht => ?_) fun e t ht => ⟨hn, ?_⟩
    · obtain ⟨k, ht, -⟩ := ht
      exact .inl ⟨hn, ht.grew⟩
    · rintro rfl
      cases ht.2 rfl

/-! ## The message -/

/-- The record of `st` is under construction still, and has room. -/
structure MoreOf (st t : St) : Prop where
  started : t.conn.tx.qre.started = true
  buflen : t.conn.tx.qre.buflen = st.conn.tx.qre.buflen
  left : t.conn.tx.qre.left ≠ 0

/-- The computation, run from `t`, asks for more without more in the record than in `st` if
    `p`, and otherwise does not. -/
abbrev Stalls {α : Type} (env : Env) (x : M α) (st t : St) (p : Prop) : Prop :=
  wp x (fun _ _ => ¬p)
    (fun e u => (e = .writeMore → MoreOf st u) ∧ (e = .writeMore ∧ ¬Grew st u ↔ p)) env t

/-- The condition in other words. -/
theorem Stalls.congr {α : Type} {x : M α} (h : Stalls env x st t p) (hpq : p ↔ q) :
    Stalls env x st t q := by
  rwa [← propext hpq]

/-- Another failure. -/
theorem refused {err : Err} (hn : ¬p) (h : err ≠ .writeMore) :
    (err = .writeMore → MoreOf st t) ∧ (err = .writeMore ∧ ¬Grew st t ↔ p) :=
  ⟨fun he => absurd he h, iff_of_false (fun he => h he.1) hn⟩

/-- A computation that does not ask for more. -/
theorem Stalls.of_error {α : Type} {x : M α} (hn : ¬p) (h : wp x (fun _ _ => True)
    (fun e _ => e ≠ .writeMore) env t) : Stalls env x st t p :=
  wp_mono h (fun _ _ _ => hn) fun _ _ h => refused hn h

/-- The frame that a message asks for. -/
def Vmsg.frame : Vmsg → M Unit
  | .stream strm finFlag data => connWriteStreamFrame strm finFlag data
  | .datagram data => connWriteDatagramFrame data

/-- The message is its frame, and more is asked for if it was written with room to spare. -/
theorem writeVmsg_eq (vmsg : Vmsg) : writeVmsg vmsg = (do
    let nobuf ← isNobuf vmsg.frame
    Exec.when (!nobuf) do
      if (← get).conn.tx.qre.left ≠ 0 then throw .writeMore) := by
  cases vmsg <;> rfl

/-- The frame of a message is logged. -/
theorem movesEmits_frame (vmsg : Vmsg) : MovesEmits Event.Any env vmsg.frame := by
  cases vmsg with
  | stream strm finFlag data =>
    exact movesEmits_connWriteStreamFrame (fun _ _ _ => trivial) (fun _ _ _ => trivial) _ _
  | datagram data => exact movesEmits_connWriteDatagramFrame trivial

/-- The frame of a message asks for more if it was written. If `q`, it added nothing. -/
theorem stalls_writeVmsg {vmsg : Vmsg} (hs : t.conn.tx.qre.started = true)
    (hb : t.conn.tx.qre.buflen = st.conn.tx.qre.buflen)
    (h : wp vmsg.frame (fun _ u => ¬q ∧ Grew st u ∨ q ∧ u.conn.tx.qre = st.conn.tx.qre)
      (fun e _ => ¬q ∧ e ≠ .writeMore) env t) :
    Stalls env (writeVmsg vmsg) st t (q ∧ st.conn.tx.qre.left ≠ 0) := by
  rw [Stalls, writeVmsg_eq, wp_bind, isNobuf, wp_tryCatch, wp_bind]
  refine wp_mono (wp_and (movesEmits_frame vmsg t) h) (fun _ u hu => ?_) fun e u hu => ?_
  · have hmore (hleft : u.conn.tx.qre.left ≠ 0) : MoreOf st u :=
      ⟨hu.1.started.trans hs, hu.1.buflen.trans hb, hleft⟩
    rw [wp_pure, wp_when, if_pos (by simp), wp_bind, wp_get', wp_ite]
    rcases hu.2 with ⟨hn, hgrew⟩ | ⟨hq, hqre⟩
    · split
      · next hleft =>
        exact ⟨fun _ => hmore hleft, iff_of_false (fun h => h.2 hgrew) fun h => hn h.1⟩
      · exact fun h => hn h.1
    · split
      · next hleft =>
        refine ⟨fun _ => hmore hleft, iff_of_true ⟨rfl, ?_⟩ ⟨hq, hqre ▸ hleft⟩⟩
        rw [Grew, hqre]
        exact Nat.lt_irrefl _
      · next hleft => exact fun h => hleft (hqre ▸ h.2)
  · have hn : ¬(q ∧ st.conn.tx.qre.left ≠ 0) := fun h => hu.2.1 h.1
    rw [wp_ite]
    split
    · exact hn
    · exact refused hn hu.2.2

/-- The rest of a record asks for no more. -/
theorem stalls_finish (hp : env.Passive) (hn : ¬p) (st t : St) (ts : ℕ) :
    Stalls env (do
      let _ ← isNobuf connWriteMaxStreams
      finalRecord ts) st t p := by
  refine .of_error hn (wp_mono (movesBeside_finish hp ts t) (fun _ _ _ => trivial)
    fun e _ he => ?_)
  rintro rfl
  cases he.2 rfl

/-- The record after its first frames. -/
theorem stalls_vmsgRecord {vmsg : Option Vmsg} (hp : env.Passive) (nobuf : Bool) (ts : ℕ)
    (h : ∀ v, vmsg = some v → nobuf = false → Stalls env (writeVmsg v) st t p)
    (hn : vmsg = none ∨ nobuf = true → ¬p) :
    Stalls env (do
      match vmsg with
        | none => pure ()
        | some vmsg => Exec.when (!nobuf) (writeVmsg vmsg)
      let _ ← isNobuf connWriteMaxStreams
      finalRecord ts) st t p := by
  cases vmsg with
  | none => exact stalls_finish hp (hn (.inl rfl)) st t ts
  | some v =>
    rw [Stalls, wp_bind, wp_when]
    cases nobuf with
    | true => exact stalls_finish hp (hn (.inr rfl)) st t ts
    | false =>
      exact wp_mono (h v rfl rfl) (fun _ u hu => stalls_finish hp hu st u ts) fun _ _ h => h

/-! ## The record -/

/-- The record that a call starts. -/
theorem St.opened_eq (hs : st.conn.tx.qre.started = false) : st.opened destlen = { st with
    conn.tx.qre := ⟨true, min destlen (qreRecordlenSize + defaultMaxRecordSize), []⟩ } := by
  rw [St.opened, if_neg (by simp [hs])]

/-- The frames at the start of a record: if any is due it is sent, or finds no room. -/
theorem serves_startRecord (hp : env.Passive) (hq : st.conn.QueueOk)
    (hdest : qreRecordlenSize < destlen) (hs : st.conn.tx.qre.started = false) :
    wp (startRecord destlen) (fun nobuf t => t.conn.tx.qre.started = true ∧
      (st.conn.CtrlDue ∧ (nobuf = true ∨ Grew (st.opened destlen) t) ∨
        ¬st.conn.CtrlDue ∧ nobuf = false ∧ Still (st.opened destlen) t))
      (fun _ _ => st.conn.CtrlDue) env st := by
  have hctrl : MovesEmits Event.Any env connWriteCtrlFrames :=
    movesEmits_connWriteCtrlFrames Event.any_control
  have hstart : Qre.start destlen =
      .ok ⟨true, min destlen (qreRecordlenSize + defaultMaxRecordSize), []⟩ :=
    if_neg (Nat.not_lt.2 hdest.le)
  rw [St.opened_eq hs, startRecord, wp_bind, hstart, wp_ofExcept]
  dsimp only
  rw [wp_bind, wp_modifyConn, wp_bind, wp_get', wp_bind, wp_when]
  split
  · next hsent =>
    have hdue : st.conn.CtrlDue := .inl (by simpa using hsent)
    rw [wp_bind, wp_tryCatch, connWriteTransportParams, wp_bind, wp_get']
    have hparams : MovesEmits Event.Any env
        (encodeFrame (.qxTransportParameters st.conn.localParams)) := movesEmits_encodeFrame trivial
    refine wp_mono (wp_and (hparams _) (wp_encodeFrame_grew (by simp))) (fun _ t ht => ?_)
      fun _ _ _ => hdue
    rw [wp_modifyConn]
    refine wp_mono (movesEmits_isNobuf hctrl _) (fun _ u hu => ?_) fun _ _ _ => hdue
    have hgrew : Grew _ { t with conn.flags.qxTransportParametersSent := true } := ht.2
    exact ⟨hu.started.trans ht.1.started, .inl ⟨hdue, .inr (hgrew.emits hu)⟩⟩
  · next hsent =>
    have hiff : st.conn.CtrlDue ↔ _ :=
      or_iff_right (by simpa using hsent : ¬st.conn.flags.qxTransportParametersSent = false)
    have hserves := @serves_connWriteCtrlFrames env { st with
      conn.tx.qre := ⟨true, min destlen (qreRecordlenSize + defaultMaxRecordSize), []⟩ } hp
      { hq with }
    rw [isNobuf, wp_tryCatch, wp_bind]
    refine wp_mono (wp_and (hctrl _) (hserves.congr hiff.symm)) (fun _ t ht => ?_) fun e t ht => ?_
    · exact ⟨ht.1.started, ht.2.imp (fun h => ⟨h.1, .inr h.2⟩) fun h => ⟨h.1, rfl, h.2⟩⟩
    · rw [wp_ite]
      split
      · exact ⟨ht.1.1.started, .inl ⟨ht.2, .inl rfl⟩⟩
      · exact ht.2

/-- A record, in which `q` says that the frame of the message adds nothing. -/
theorem stalls_connWriteVmsg {G : Cfg → Prop} {c : Cfg} {vmsg : Option Vmsg}
    (hG : Closed env.Passive G) (h : G c) (hp : env.Passive) (hidle : c.pending = .idle)
    (hmsg : ∀ v t, vmsg = some v → G { c with st := t } → Beside (c.st.opened destlen) t →
      (Still (c.st.opened destlen) t → wp v.frame
        (fun _ u => ¬q ∧ Grew (c.st.opened destlen) u ∨
          q ∧ u.conn.tx.qre = (c.st.opened destlen).conn.tx.qre)
        (fun e _ => ¬q ∧ e ≠ .writeMore) env t) ∧
      wp v.frame (fun _ _ => True) (fun e _ => e ≠ .writeMore) env t)
    (hnone : vmsg = none → ¬q) :
    Stalls env (connWriteVmsg destlen vmsg ts) (c.st.opened destlen) c.st
      (qreRecordlenSize < destlen ∧ (c.conn.tx.qre.started = true ∨ ¬c.conn.CtrlDue) ∧ q ∧
        (c.st.opened destlen).conn.tx.qre.left ≠ 0) := by
  rw [Stalls, connWriteVmsg, wp_ite]
  split
  · next hle =>
    exact refused (fun h => Nat.not_lt.2 hle h.1) (by decide)
  next hdest =>
  have hdest : qreRecordlenSize < destlen := Nat.lt_of_not_le hdest
  rw [wp_bind, wp_get', wp_ite]
  split
  · next hs =>
    have hopen : c.st.opened destlen = c.st := if_pos hs
    rw [hopen] at hmsg ⊢
    have hframe (v : Vmsg) (hv : vmsg = some v) :=
      (hmsg v c.st hv h (.refl _)).1 (.refl _)
    refine (stalls_vmsgRecord hp false ts
      (fun v hv _ => stalls_writeVmsg hs rfl (hframe v hv)) ?_).congr ?_
    · rintro (hv | ⟨⟨⟩⟩) hq
      exact hnone hv hq.1
    · exact ⟨fun h => ⟨hdest, .inl hs, h⟩, fun h => h.2.2⟩
  next hs =>
  have hs : c.conn.tx.qre.started = false := by simpa using hs
  have hopen := @St.opened_eq c.st destlen hs
  rw [wp_bind]
  refine wp_mono (wp_and (wp_and (serves_startRecord hp (hG.inv c h).queue hdest hs)
    (movesBeside_startRecord hp destlen)) (startRecord_spec hG h hidle hs))
    (fun nobuf t ht => ?_) fun e _ he => ?_
  · obtain ⟨⟨⟨hstarted, hcase⟩, hbeside⟩, ht⟩ := ht
    rw [← hopen] at hbeside
    rcases hcase with ⟨hdue, hgrew⟩ | ⟨hdue, rfl, hstill⟩
    -- something was sent, or there is no room for the message
    · refine (stalls_vmsgRecord hp nobuf ts (fun v hv hnobuf => (stalls_writeVmsg
        (q := False) hstarted hbeside.buflen ?_)) fun _ h => h.1).congr ?_
      · rcases hgrew with rfl | hgrew
        · cases hnobuf
        · exact wp_mono (wp_and (movesEmits_frame v t) (hmsg v t hv ht hbeside).2)
            (fun _ u hu => .inl ⟨id, hgrew.emits hu.1⟩) fun _ _ hu => ⟨id, hu.2⟩
      · exact iff_of_false (fun h => h.1) fun h => h.2.1.elim (by simp [hs]) fun hn => hn hdue
    · have hframe (v : Vmsg) (hv : vmsg = some v) := (hmsg v t hv ht hbeside).1 hstill
      refine (stalls_vmsgRecord hp false ts
        (fun v hv _ => stalls_writeVmsg hstarted hbeside.buflen (hframe v hv)) ?_).congr ?_
      · rintro (hv | ⟨⟨⟩⟩) hq
        exact hnone hv hq.1
      · exact ⟨fun h => ⟨hdest, .inr hdue, h⟩, fun h => h.2.2⟩
  · refine ⟨?_, iff_of_false (fun h => ?_) fun h => ?_⟩
    · rintro rfl
      cases he.1.2.2 rfl
    · obtain rfl := h.1
      cases he.1.2.2 rfl
    · exact h.2.1.elim (by simp [hs]) fun hn => hn he.1.1

/-- The connection is stuck if it was before. -/
theorem Still.stuck_iff (h : Still st t) (htx : s'.tx = s.tx) :
    t.conn.Stuck s' datav ↔ st.conn.Stuck s datav := by
  constructor
  · rintro ⟨hdata, hspent, hcredit, htold⟩
    rw [h.offset, h.maxOffset] at hspent
    rw [h.offset, h.lastBlockedOffset, h.qre] at htold
    rw [htx] at hcredit
    exact ⟨hdata, hspent, hcredit, htold⟩
  · rintro ⟨hdata, hspent, hcredit, htold⟩
    rw [← h.offset, ← h.maxOffset] at hspent
    rw [← h.offset, ← h.lastBlockedOffset, ← h.qre] at htold
    rw [← htx] at hcredit
    exact ⟨hdata, hspent, hcredit, htold⟩

/-! ## Calls -/

/-- Only the connection has no credit for the data of a call for a stream, there is nothing to
    be told of that, and no control frame comes first. -/
structure St.Stalled (st : St) (destlen : ℕ) (s : Strm) (datav : Vecs) : Prop where
  writable : s.flags.shutWr = false
  length : s.tx.offset + datav.flatten.length ≤ maxVarint ∧
    st.conn.tx.offset + datav.flatten.length ≤ maxVarint
  dest : qreRecordlenSize < destlen
  undue : st.conn.tx.qre.started = true ∨ ¬st.conn.CtrlDue
  stuck : (st.opened destlen).conn.Stuck s datav
  room : (st.opened destlen).conn.tx.qre.left ≠ 0

/-- The record that a call writes to. -/
theorem St.opened_qre (st : St) (destlen : ℕ) : (st.opened destlen).conn.tx.qre =
    if st.conn.tx.qre.started then st.conn.tx.qre
    else ⟨true, min destlen (qreRecordlenSize + defaultMaxRecordSize), []⟩ := by
  unfold opened
  split <;> rfl

/-- Nothing else depends on it. -/
theorem St.opened_conn (st : St) (destlen : ℕ) : (st.opened destlen).conn =
    { st.conn with tx.qre := (st.opened destlen).conn.tx.qre } := by
  unfold opened
  split <;> rfl

/-- What was in the record before is what counts. -/
theorem Stalls.of_qre {α : Type} {x : M α} (h : Stalls env x st t p)
    (hqre : st.conn.tx.qre = u.conn.tx.qre) : Stalls env x u t p := by
  refine wp_mono h (fun _ _ h => h) fun e v hv => ⟨fun he => ?_, ?_⟩
  · exact ⟨(hv.1 he).started, (hv.1 he).buflen.trans (congrArg Qre.buflen hqre), (hv.1 he).left⟩
  · rw [Grew, ← hqre]
    exact hv.2

/-- The message of a call for a stream. -/
theorem stalls_stream {G : Cfg → Prop} {c : Cfg} (hG : Closed env.Passive G) (h : G c)
    (hp : env.Passive) (hidle : c.pending = .idle) (hf : c.conn.strms.find id = some s)
    (hshut : s.flags.shutWr = false) :
    Stalls env (connWriteVmsg destlen (some (.stream id finFlag datav)) ts)
      (c.st.opened destlen) c.st
      (qreRecordlenSize < destlen ∧ (c.conn.tx.qre.started = true ∨ ¬c.conn.CtrlDue) ∧
        (c.st.opened destlen).conn.Stuck s datav ∧
        (c.st.opened destlen).conn.tx.qre.left ≠ 0) := by
  refine stalls_connWriteVmsg hG h hp hidle ?_ (by simp)
  rintro _ t ⟨⟩ ht hb
  have hopen : (c.st.opened destlen).conn.strms.find id = some s := by
    rw [St.opened_conn]
    exact hf
  obtain ⟨s', hf', hsame⟩ := hb.found hopen hshut
  have hI := hG.inv _ ht
  have hok := hI.strms id s' hf'
  have hframe := @wp_connWriteStreamFrame_stuck env t id s' finFlag datav hp hI.queue hf'
    (hsame.shutWr.trans hshut) hok.txOffset hok.txMaxOffset hI.flow.txOffset hI.flow.txMaxOffset
  refine ⟨fun hstill => ?_, wp_mono hframe (fun _ _ _ => trivial) fun _ _ h => h.2⟩
  obtain ⟨b, hfb, halike⟩ := hstill.strms id s hopen
  obtain rfl := Option.some.inj (hf'.symm.trans hfb)
  have hiff := @Still.stuck_iff _ t s s' datav hstill halike.tx
  refine wp_mono hframe (fun _ u hu => ?_) fun _ _ h => ⟨fun hs => h.1 (hiff.2 hs), h.2⟩
  refine hu.imp (fun h => ⟨fun hs => h.1 (hiff.2 hs), ?_⟩)
    fun h => ⟨hiff.1 h.1, h.2.trans hstill.qre⟩
  rw [Grew, ← hstill.qre]
  exact h.2

/-- Without a message, nothing more is asked for. -/
theorem stalls_noVmsg {G : Cfg → Prop} {c : Cfg} (hG : Closed env.Passive G) (h : G c)
    (hp : env.Passive) (hidle : c.pending = .idle) (hn : ¬p) :
    Stalls env (connWriteVmsg destlen none ts) (c.st.opened destlen) c.st p := by
  refine (stalls_connWriteVmsg (q := False) hG h hp hidle (fun v t hv => ?_) fun _ h => h).congr
    (iff_of_false (fun h => h.2.2.1) hn)
  cases hv

/-- The message is chosen first. -/
theorem stalls_streamVmsg {G : Cfg → Prop} {c : Cfg} (hG : Closed env.Passive G) (h : G c)
    (hp : env.Passive) (hidle : c.pending = .idle) :
    Stalls env (do
      let vmsg ← streamVmsg id finFlag datav
      connWriteVmsg destlen vmsg ts) (c.st.opened destlen) c.st
      (∃ s, c.conn.strms.find id = some s ∧ c.st.Stalled destlen s datav) := by
  have hI := hG.inv c h
  cases hf : c.conn.strms.find id with
  | none =>
    refine .of_error (by rintro ⟨s, ⟨⟩, -⟩) ?_
    rw [wp_bind, streamVmsg, wp_bind, wp_get']
    dsimp only
    rw [show c.st.conn.findStream id = none from hf]
    exact show _ ≠ _ by decide
  | some s =>
  have hok := hI.strms id s hf
  by_cases hshut : s.flags.shutWr = true
  · refine .of_error ?_ ?_
    · rintro ⟨_, ⟨⟩, hstalled⟩
      cases hshut.symm.trans hstalled.writable
    rw [wp_bind, streamVmsg, wp_bind, wp_get']
    dsimp only
    rw [show c.st.conn.findStream id = some s from hf]
    dsimp only
    rw [wp_ite, if_pos hshut]
    exact show _ ≠ _ by decide
  have hshut : s.flags.shutWr = false := by simpa using hshut
  have hfound : (∃ a, some s = some a ∧ c.st.Stalled destlen a datav) ↔
      c.st.Stalled destlen s datav := by simp
  refine Stalls.congr ?_ hfound.symm
  rw [Stalls, wp_bind]
  refine wp_mono (wp_streamVmsg hf hshut (hok.txOffset.trans hok.txMaxOffset)
    (hI.flow.txOffset.trans hI.flow.txMaxOffset)) ?_ ?_
  · rintro vmsg _ ⟨rfl, ⟨rfl, hnil⟩ | rfl, hlen⟩
    · exact stalls_noVmsg hG h hp hidle fun h => h.stuck.data hnil
    · refine (stalls_stream hG h hp hidle hf hshut).congr ?_
      constructor
      · rintro ⟨hdest, hdue, hstuck, hroom⟩
        exact ⟨hshut, hlen, hdest, hdue, hstuck, hroom⟩
      · intro h
        exact ⟨h.dest, h.undue, h.stuck, h.room⟩
  · rintro _ _ ⟨rfl, rfl, hlen⟩
    exact refused (fun h => hlen h.length) (by decide)

/-- A call for a stream asks for more, with nothing more in the record, if it is stalled. -/
theorem stalls_connWritevStream {G : Cfg → Prop} {c : Cfg} (hG : Timed env.Passive G) (h : G c)
    (hp : env.Passive) (hidle : c.pending = .idle) (hid : c.conn.strms.find noStream = none) :
    Stalls env (connWritevStream destlen finFlag id datav ts) (c.st.opened destlen) c.st
      (c.conn.lastTs ≤ ts ∧
        ∃ s, c.conn.strms.find id = some s ∧ c.st.Stalled destlen s datav) := by
  have h₀ := hG.step _ _ h (.beginCall id hidle)
  rw [Stalls, connWritevStream, wp_bind, wp_emit, wp_bind, connUpdateTimestamp, wp_bind, wp_get',
    wp_bind, wp_assertThat]
  split
  swap
  · next hts => exact refused (fun h => hts h.1) (by decide)
  next hts =>
  have hts : c.conn.lastTs ≤ ts := hts
  have h₁ := hG.step _ _ (hG.time _ _ h₀ (.time hts)) (.outputs none c.st.paccepted)
  have hqre : (St.opened { c.st with
      trace := c.st.trace ++ [.writeStream id]
      conn.lastTs := ts
      pdatalen := none } destlen).conn.tx.qre = (c.st.opened destlen).conn.tx.qre := by
    rw [St.opened_qre, St.opened_qre]
  rw [wp_modifyConn, wp_bind, wp_modify, wp_ite]
  split
  · next hno =>
    refine (stalls_noVmsg hG.toClosed h₁ hp hidle ?_).of_qre hqre
    rintro ⟨-, s, hf, -⟩
    rw [hno, hid] at hf
    cases hf
  · refine ((stalls_streamVmsg hG.toClosed h₁ hp hidle).of_qre hqre).congr ?_
    have hopen (s : Strm) : St.Stalled { c.st with
        trace := c.st.trace ++ [.writeStream id]
        conn.lastTs := ts
        pdatalen := none } destlen s datav ↔ c.st.Stalled destlen s datav := by
      constructor
      · rintro ⟨hw, hlen, hdest, hdue, hstuck, hroom⟩
        rw [hqre] at hroom
        refine ⟨hw, hlen, hdest, hdue, ?_, hroom⟩
        rw [St.opened_conn, hqre] at hstuck
        rw [St.opened_conn]
        exact ⟨hstuck.data, hstuck.spent, hstuck.credit, hstuck.told⟩
      · rintro ⟨hw, hlen, hdest, hdue, hstuck, hroom⟩
        rw [← hqre] at hroom
        refine ⟨hw, hlen, hdest, hdue, ?_, hroom⟩
        rw [St.opened_conn, ← hqre] at hstuck
        rw [St.opened_conn]
        exact ⟨hstuck.data, hstuck.spent, hstuck.credit, hstuck.told⟩
    constructor
    · rintro ⟨s, hf, h⟩
      exact ⟨hts, s, hf, (hopen s).1 h⟩
    · rintro ⟨-, s, hf, h⟩
      exact ⟨s, hf, (hopen s).2 h⟩

/-- A datagram is more in the record. -/
theorem wp_connWriteDatagramFrame_grew : wp (connWriteDatagramFrame datav)
    (fun _ t => Grew st t) (fun e _ => e ≠ .writeMore) env st := by
  rw [connWriteDatagramFrame, wp_bind]
  refine wp_mono (wp_and (wp_encodeFrame_grew (by simp)) (movesBeside_encodeFrame (by rfl) st))
    (fun _ t ht => ht.1) fun e _ he => ?_
  rintro rfl
  cases he.2.2 rfl

/-- The message of a call with a datagram. -/
theorem stalls_datagram {G : Cfg → Prop} {c : Cfg} (hG : Closed env.Passive G) (h : G c)
    (hp : env.Passive) (hidle : c.pending = .idle) :
    Stalls env (connWriteVmsg destlen (some (.datagram datav)) ts) (c.st.opened destlen) c.st
      False := by
  refine (stalls_connWriteVmsg (q := False) hG h hp hidle (fun v t hv _ _ => ?_)
    fun _ h => h).congr (iff_of_false (fun h => h.2.2.1) id)
  obtain rfl := Option.some.inj hv
  have hframe := @wp_connWriteDatagramFrame_grew env t datav
  refine ⟨fun hstill => ?_, wp_mono hframe (fun _ _ _ => trivial) fun _ _ h => h⟩
  refine wp_mono hframe (fun _ u hu => .inl ⟨id, ?_⟩) fun _ _ h => ⟨id, h⟩
  rw [Grew, ← hstill.qre]
  exact hu

/-- A call with a datagram is never stalled. -/
theorem stalls_connWritevDatagram {G : Cfg → Prop} {c : Cfg} (hG : Timed env.Passive G) (h : G c)
    (hp : env.Passive) (hidle : c.pending = .idle) :
    Stalls env (connWritevDatagram destlen datav ts) (c.st.opened destlen) c.st False := by
  have h₀ := hG.step _ _ h (.event .writeDatagram trivial (by simp [hidle])
    (by rintro _ ⟨⟩))
  rw [Stalls, connWritevDatagram, wp_bind, wp_emit, wp_bind, connUpdateTimestamp, wp_bind, wp_get',
    wp_bind, wp_assertThat]
  split
  swap
  · exact refused id (by decide)
  next hts =>
  have hts : c.conn.lastTs ≤ ts := hts
  have h₁ := hG.step _ _ (hG.time _ _ h₀ (.time hts)) (.outputs c.st.pdatalen false)
  rw [wp_modifyConn, wp_bind, wp_modify, wp_bind, wp_get']
  dsimp only
  rw [wp_ite]
  split
  · exact refused id (by decide)
  cases vecLenVarint datav with
  | none => exact refused id (by decide)
  | some datalen =>
  dsimp only
  rw [wp_bind, wp_ofExcept]
  split
  · rw [wp_ite]
    split
    · exact refused id (by decide)
    · refine (stalls_datagram hG.toClosed h₁ hp hidle).of_qre ?_
      rw [St.opened_qre, St.opened_qre]
      rfl
  · next e he =>
    have he : EncErr e := bind_err (fun _ => putUvarintlen_err) (fun _ _ _ h => by cases h) he
    have hne : e ≠ .writeMore := by
      rintro rfl
      rcases he with h | h | h <;> cases h
    exact refused id hne

/-! ## The room in a record -/

/-- The buffer of a record is no larger than a record may be. -/
def Cfg.BufOk (c : Cfg) : Prop :=
  c.conn.tx.qre.buflen ≤ qreRecordlenSize + defaultMaxRecordSize

/-- A frame leaves the size of the buffer alone. -/
theorem buflen_of_encode {qre qre' : Qre} {fr : Frame} (h : qre.encodeFrame fr = .ok qre') :
    qre'.buflen = qre.buflen := by
  obtain ⟨-, -, rfl⟩ := Qre.encodeFrame_iff.1 h
  rfl

/-- A step of a stream at most encodes a frame. -/
theorem StrmStep.bufOk {quiet : Prop} {c c' : Cfg} {b : Bool}
    (h : StrmStep quiet c id s s' b c') (hc : c.BufOk) : c'.BufOk := by
  cases h with
  | txReset q _ _ henc => exact (buflen_of_encode henc).trans_le hc
  | txStop q _ _ _ henc => exact (buflen_of_encode henc).trans_le hc
  | txMaxStreamData q _ _ _ _ _ henc => exact (buflen_of_encode henc).trans_le hc
  | txStreamDataBlocked q _ _ _ _ henc => exact (buflen_of_encode henc).trans_le hc
  | _ => exact hc

/-- The buffer is chosen when a record is started. -/
theorem Step.bufOk {quiet : Prop} {l : Label} {c c' : Cfg} (h : Step quiet l c c')
    (hc : c.BufOk) : c'.BufOk := by
  cases h with
  | strm hs hchanges =>
    rw [Cfg.BufOk, Cfg.conn]
    dsimp only
    rw [hchanges.rest]
    exact hs.bufOk hc
  | txParams q _ _ henc => exact (buflen_of_encode henc).trans_le hc
  | txMaxData q _ _ henc => exact (buflen_of_encode henc).trans_le hc
  | txPing q _ _ henc => exact (buflen_of_encode henc).trans_le hc
  | txDataBlocked q _ _ _ henc => exact (buflen_of_encode henc).trans_le hc
  | txMaxStreamsBidi q _ _ henc => exact (buflen_of_encode henc).trans_le hc
  | txMaxStreamsUni q _ _ henc => exact (buflen_of_encode henc).trans_le hc
  | txStream q _ _ _ _ _ _ _ _ _ _ _ henc => exact (buflen_of_encode henc).trans_le hc
  | txDatagram q _ _ _ henc => exact (buflen_of_encode henc).trans_le hc
  | accept =>
    rw [Cfg.BufOk, Cfg.conn, Conn.setIdtr_eq]
    exact hc
  | start _ _ hq =>
    unfold Qre.start at hq
    split at hq
    · cases hq
    · cases hq
      exact Nat.min_le_right _ _
  | _ => exact hc

/-! ## The loop -/

/-- The call writes data of the application. -/
def Call.IsWrite : Call → Prop
  | .writevStream .. | .writevDatagram .. => True
  | _ => False

/-- The call is for a stream that is stalled. -/
def Call.Stalled (e : Endp) : Call → Prop
  | .writevStream destlen _ id datav ts => e.st.conn.lastTs ≤ ts ∧
      ∃ s, e.st.conn.findStream id = some s ∧ e.st.Stalled destlen s datav
  | _ => False

/-- The frames in the record under construction. -/
def Endp.written (e : Endp) : List UInt8 :=
  if e.st.conn.tx.qre.started then e.st.conn.tx.qre.frames else []

/-- The calls write one after another, each of them asks for more, and none is stalled. -/
inductive WriteLoop (env : Env) : Endp → List Call → Prop
  | nil {e : Endp} : WriteLoop env e []
  | cons {e e' : Endp} {call : Call} {calls : List Call} (hw : call.IsWrite)
      (hrun : call.run env e = (.error .writeMore, e')) (hs : ¬call.Stalled e)
      (h : WriteLoop env e' calls) : WriteLoop env e (call :: calls)

section
variable {server : Bool} {settings : Settings} {params : TransportParams} {call : Call}

/-- Data may be written at any time. -/
theorem Call.IsWrite.legal (h : call.IsWrite) : call.Legal e := by
  cases call <;> trivial

/-- Being asked for more is no failure. -/
theorem Call.IsWrite.continues (h : call.IsWrite) : call.Continues (.error .writeMore) := by
  refine ⟨rfl, fun data ts he => ?_⟩
  subst he
  exact h

/-- The buffer of an endpoint. -/
theorem Run.bufOk (h : Run env server settings params e) :
    e.st.conn.tx.qre.buflen ≤ qreRecordlenSize + defaultMaxRecordSize := by
  obtain ⟨c, hc, -, hb⟩ := h.keep (P := Cfg.BufOk) (Nat.zero_le _) fun _ _ _ _ hb hs => hs.bufOk hb
  rw [hc.st]
  exact hb

/-- What a call of the loop does. -/
theorem Run.stalls (h : Run env server settings params e) (hp : env.Passive) (hw : call.IsWrite) :
    ∃ destlen, wp call.run (fun _ _ => ¬call.Stalled e) (fun r e' =>
      (r = .writeMore → MoreOf (e.st.opened destlen) e'.st) ∧
        (r = .writeMore ∧ ¬Grew (e.st.opened destlen) e'.st ↔ call.Stalled e)) env e := by
  obtain ⟨c, hc, hs, hu⟩ := h.keep (P := Cfg.UniOk)
    (fun _ => Nat.zero_le _) fun _ _ _ _ hu hstep => hstep.uniOk hu
  have hG := Steps.timed (h.sound_new env.Passive)
  have hid : c.conn.strms.find noStream = none := by
    cases hf : c.conn.strms.find noStream with
    | none => rfl
    | some s => exact absurd rfl (ne_noStream hs.toInv hu hf)
  obtain ⟨reader, st⟩ := e
  obtain rfl : st = c.st := hc.st
  cases call with
  | writevStream destlen finFlag id datav ts =>
    refine ⟨destlen, ?_⟩
    rw [Call.run, wp_liftM]
    exact stalls_connWritevStream hG hc.mem hp hc.between.pending hid
  | writevDatagram destlen datav ts =>
    refine ⟨destlen, ?_⟩
    rw [Call.run, wp_liftM]
    exact stalls_connWritevDatagram hG hc.mem hp hc.between.pending
  | _ => exact hw.elim

/-- The frames in the record that a call writes to. -/
theorem written_opened (e : Endp) (destlen : ℕ) :
    (e.st.opened destlen).conn.tx.qre.frames = e.written := by
  rw [St.opened_qre, Endp.written]
  split <;> rfl

/-- More in the record, where it is under construction still. -/
theorem MoreOf.written_lt (h : MoreOf (e.st.opened destlen) e'.st) :
    Grew (e.st.opened destlen) e'.st ↔ e.written.length < e'.written.length := by
  rw [Grew, written_opened, Endp.written, Endp.written, if_pos h.started]

/-- A call asks for more with more in the record unless it is stalled. -/
theorem Run.grows_iff (h : Run env server settings params e) (hp : env.Passive)
    (hw : call.IsWrite) :
    ((call.run env e).1 = .error .writeMore →
      e.written.length < (call.run env e).2.written.length) ↔ ¬call.Stalled e := by
  obtain ⟨destlen, hspec⟩ := h.stalls hp hw
  cases hx : call.run env e with
  | mk r e' =>
    cases r with
    | ok record => exact iff_of_true (by simp) (hspec.of_ok hx)
    | error err =>
      obtain ⟨hmore, hiff⟩ := hspec.of_error hx
      rw [← hiff]
      constructor
      · rintro hgrow ⟨rfl, hn⟩
        exact hn ((hmore rfl).written_lt.2 (hgrow rfl))
      · intro hn he
        obtain rfl := Except.error.inj he
        by_contra hlt
        exact hn ⟨rfl, fun hg => hlt ((hmore rfl).written_lt.1 hg)⟩

/-- A call of the loop leaves less room. -/
theorem Run.room_lt (h : Run env server settings params e) (hp : env.Passive) (hw : call.IsWrite)
    (hrun : call.run env e = (.error .writeMore, e')) (hs : ¬call.Stalled e) :
    e'.st.conn.tx.qre.started = true ∧ e'.st.conn.tx.qre.left < defaultMaxRecordSize ∧
      (e.st.conn.tx.qre.started = true → e'.st.conn.tx.qre.left < e.st.conn.tx.qre.left) := by
  obtain ⟨destlen, hspec⟩ := h.stalls hp hw
  have hmore := (hspec.of_error hrun).1 rfl
  have hgrow := (h.grows_iff hp hw).2 hs
  rw [hrun] at hgrow
  have hlt : Grew (e.st.opened destlen) e'.st := hmore.written_lt.2 (hgrow rfl)
  have hleft := hmore.left
  have hbuf := hmore.buflen
  rw [Grew] at hlt
  rw [Qre.left] at hleft
  refine ⟨hmore.started, ?_, fun hstarted => ?_⟩
  · have hmax : (e.st.opened destlen).conn.tx.qre.buflen ≤
        qreRecordlenSize + defaultMaxRecordSize := by
      rw [St.opened_qre]
      split
      · exact h.bufOk
      · exact Nat.min_le_right _ _
    rw [Qre.left]
    omega
  · rw [St.opened_qre, if_pos hstarted] at hlt hbuf
    rw [Qre.left, Qre.left]
    omega

/-- The calls of a loop go on no longer than there is room. -/
theorem WriteLoop.length_le {calls : List Call} (hl : WriteLoop env e calls)
    (h : Run env server settings params e) (hp : env.Passive)
    (hs : e.st.conn.tx.qre.started = true) : calls.length ≤ e.st.conn.tx.qre.left := by
  induction hl with
  | nil => exact Nat.zero_le _
  | @cons e e' call calls hw hrun hn _ ih =>
    obtain ⟨hs', -, hlt⟩ := h.room_lt hp hw hrun hn
    exact (Nat.succ_le_succ (ih (h.call hw.legal hrun hw.continues) hs')).trans (hlt hs)

/-- A call that asks for more has added a frame to the record, if and only if it is not stalled.
    So, as long as none is, the calls of the loop are no more than a record has bytes. -/
theorem write_progress (hp : env.Passive) (h : Run env server settings params e) :
    (∀ call : Call, call.IsWrite → (((call.run env e).1 = .error .writeMore →
      e.written.length < (call.run env e).2.written.length) ↔ ¬call.Stalled e)) ∧
    ∀ calls, WriteLoop env e calls → calls.length ≤ defaultMaxRecordSize := by
  refine ⟨fun call hw => h.grows_iff hp hw, fun calls hl => ?_⟩
  cases hl with
  | nil => exact Nat.zero_le _
  | cons hw hrun hs hl =>
    obtain ⟨hstarted, hlt, -⟩ := h.room_lt hp hw hrun hs
    exact (hl.length_le (h.call hw.legal hrun hw.continues) hp hstarted).trans_lt hlt

end

/-- A client with a stream, and credit. -/
def creditRun : RunTo Env.quiet fun e => e.st.conn.tx.offset != e.st.conn.tx.maxOffset &&
    (writeCall.run Env.quiet e).1 == .error .writeMore where
  calls := [.app .openBidiStream]
  any := by decide +kernel

theorem write_progress_credit : ∃ e, Run Env.quiet false smallSettings smallParams e ∧
    e.written.length < (writeCall.run Env.quiet e).2.written.length ∧
    ∀ calls, WriteLoop Env.quiet e (writeCall :: calls) →
      (writeCall :: calls).length ≤ defaultMaxRecordSize := by
  obtain ⟨e, h, hp⟩ := creditRun.exists_run
  rw [Bool.and_eq_true, bne_iff_ne, beq_iff_eq] at hp
  have hprogress := write_progress Env.quiet_passive h
  refine ⟨e, h, (hprogress.1 writeCall trivial).2 ?_ hp.2, fun calls hl => hprogress.2 _ hl⟩
  rintro ⟨-, s, -, hs⟩
  have hspent := hs.stuck.spent
  rw [St.opened_conn] at hspent
  exact hp.1 hspent

/-- One byte for a third stream. -/
def thirdCall : Call := .writevStream 400 false 8 [[1]] 0

/-- A client that has used up the credit of the connection on two of its streams, and has told
    so in the same record. -/
def spentRun : RunTo Env.quiet fun e => (thirdCall.run Env.quiet e).1 == .error .writeMore &&
    (thirdCall.run Env.quiet e).2.written == e.written where
  calls := [.app .openBidiStream, .app .openBidiStream, .app .openBidiStream,
    .writevStream 400 false 0 [List.replicate 100 0] 0,
    .writevStream 400 false 4 [List.replicate 100 0] 0, thirdCall]
  any := by decide +kernel

/-- A call for a stream that is asked for once more, with nothing added to the record. -/
theorem not_write_progress : ∃ e, Run Env.quiet false smallSettings smallParams e ∧
    (thirdCall.run Env.quiet e).1 = .error .writeMore ∧
    (thirdCall.run Env.quiet e).2.written = e.written := by
  obtain ⟨e, h, hp⟩ := spentRun.exists_run
  rw [Bool.and_eq_true, beq_iff_eq, beq_iff_eq] at hp
  exact ⟨e, h, hp.1, hp.2⟩

end Dwnx
