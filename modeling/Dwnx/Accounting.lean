import Dwnx.Ctrl
import Dwnx.Limits
import Mathlib.Order.Bounds.Basic

/-!
# What a call accounts for

`dwnx_conn_writev_stream` tells how much of the data it has written.

* `writevStream_exact`: it tells the truth, and writes as much as it may.
-/

namespace Dwnx

open Exec

variable {env : Env} {st t u : St} {id k : ℕ} {s s' : Strm} {finFlag : Bool} {datav : Vecs}

/-! ## Lengths -/

/-- The length of the data, if it is a varint. The sum is not taken further than that. -/
theorem vecLenVarint_eq (datav : Vecs) : vecLenVarint datav =
    if datav.flatten.length ≤ maxVarint then some datav.flatten.length else none := by
  have hvar : maxVarint < 2 ^ 62 := by decide
  have hfold (datav : Vecs) (res : ℕ) (hres : res ≤ maxVarint) :
      datav.foldlM (fun res data =>
        if data.length > sub64 maxVarint res then none else some (add64 res data.length)) res =
      if res + datav.flatten.length ≤ maxVarint then some (res + datav.flatten.length)
      else none := by
    induction datav generalizing res with
    | nil => exact (if_pos hres).symm
    | cons data datav ih =>
      rw [List.foldlM_cons, sub64_eq hres (by omega), List.flatten_cons, List.length_append]
      by_cases hle : data.length ≤ maxVarint - res
      · rw [if_neg (by omega), add64_eq (by omega)]
        change datav.foldlM _ (res + data.length) = _
        rw [ih _ (by omega), Nat.add_assoc]
      · rw [if_pos (by omega), if_neg (by omega)]
        rfl
  have h := hfold datav 0 (by omega)
  rwa [Nat.zero_add] at h

/-- The STREAM frame with the first `k` bytes of the data. -/
def streamFrame (s : Strm) (finFlag : Bool) (datav : Vecs) (k : ℕ) : FrameStream :=
  let fin := finFlag && datav.flatten.length == k
  ⟨FrameType.streamLenBit + (if s.tx.offset = 0 then 0 else FrameType.streamOffBit) +
    (if fin then FrameType.streamFinBit else 0), fin, s.streamId, s.tx.offset, k, datav⟩

/-- The length of a STREAM frame before its data, without the length of the data. -/
def streamHeaderLen (streamId offset : ℕ) : ℕ :=
  1 + uvarintLen streamId + if offset = 0 then 0 else uvarintLen offset

theorem length_wire_stream {fr : FrameStream} (hlen : fr.len ≤ fr.data.flatten.length) :
    (Frame.stream fr).wire.length =
      streamHeaderLen fr.streamId fr.offset + uvarintLen fr.len + fr.len := by
  have htype : uvarintLen fr.typeByte = 1 := by
    unfold FrameStream.typeByte
    split <;> split <;> rfl
  have hpayload : (Frame.stream fr).payload.length = fr.len := List.length_take_of_le hlen
  rw [Frame.wire, List.length_append, length_flatMap_putUvarint, hpayload, Frame.varints,
    streamHeaderLen, List.map_append, List.map_append, List.map_cons, htype]
  split
  all_goals
    simp
    omega

/-- The largest number of bytes, if any, for which a frame with that header has room. -/
theorem streamMaxDatalen_eq {qre : Qre} {id offset : ℕ} (len : ℕ) (hid : id ≤ maxVarint)
    (hoffset : offset ≤ maxVarint) (hleft : qre.left ≤ defaultMaxRecordSize) :
    ∃ r, qre.streamMaxDatalen id offset len = .ok r ∧
      (r = none → qre.left ≤ streamHeaderLen id offset) ∧ ∀ k, r = some k →
      IsGreatest {j | j ≤ len ∧ streamHeaderLen id offset + uvarintLen j + j ≤ qre.left} k := by
  have hdef : defaultMaxRecordSize = 16382 := rfl
  have heq : qre.streamMaxDatalen id offset len =
      if qre.left ≤ streamHeaderLen id offset then .ok none
      else if qre.left - streamHeaderLen id offset > 2 + 63 ∧ len > 63 then
        .ok (some (min (min len 16383) (qre.left - streamHeaderLen id offset - 2)))
      else .ok (some (min (min len 63) (qre.left - streamHeaderLen id offset - 1))) := by
    rw [Qre.streamMaxDatalen, putUvarintlen_eq hid, streamHeaderLen]
    by_cases ho : offset = 0
    · simp only [ho, if_true]
      change (if _ then _ else _) = _
      rw [if_neg (by omega)]
      rfl
    · simp only [ho, if_false, putUvarintlen_eq hoffset]
      change (if _ then _ else _) = _
      rw [if_neg (by omega)]
      rfl
  rw [heq]
  generalize streamHeaderLen id offset = n
  have hone {j : ℕ} (hj : j ≤ 63) : uvarintLen j = 1 := if_pos (by omega)
  have htwo {j : ℕ} (hj : 63 < j) : 2 ≤ uvarintLen j := by
    have := uvarintLen_mono (show 64 ≤ j by omega)
    exact this
  split
  · next hn => exact ⟨none, rfl, fun _ => hn, nofun⟩
  next hn =>
  split
  · next hlong =>
    -- the length takes two bytes
    refine ⟨_, rfl, nofun, ?_⟩
    rintro k hk
    obtain rfl := Option.some.inj hk
    refine ⟨⟨by omega, ?_⟩, ?_⟩
    · have := uvarintLen_mono (show min (min len 16383) (qre.left - n - 2) ≤ 16383 by omega)
      have : uvarintLen 16383 = 2 := rfl
      omega
    · rintro j ⟨hj, hroom⟩
      by_cases h63 : j ≤ 63
      · omega
      · have := htwo (Nat.lt_of_not_le h63)
        omega
  · refine ⟨_, rfl, nofun, ?_⟩
    rintro k hk
    obtain rfl := Option.some.inj hk
    refine ⟨⟨by omega, ?_⟩, ?_⟩
    · rw [hone (by omega)]
      omega
    · rintro j ⟨hj, hroom⟩
      by_cases h63 : j ≤ 63
      · rw [hone h63] at hroom
        omega
      · have := htwo (Nat.lt_of_not_le h63)
        omega

/-- The room is computed only for identifiers, and in records, of the right size. -/
theorem le_of_streamMaxDatalen {qre : Qre} {id offset len : ℕ} {r : Option ℕ}
    (h : qre.streamMaxDatalen id offset len = .ok r) :
    id ≤ maxVarint ∧ offset ≤ maxVarint ∧ qre.left ≤ defaultMaxRecordSize := by
  obtain ⟨n, hn, h⟩ := exists_of_bind h
  have hleft (m : ℕ) (hok : (do
      if qre.left > defaultMaxRecordSize then
        throw (.fault (.assertion .recordLeft))
      if qre.left ≤ m then return none
      let left := qre.left - m
      if left > 2 + 63 ∧ len > 63 then return some (min (min len 16383) (left - 2))
      return some (min (min len 63) (left - 1)) : Except Err (Option ℕ)) = .ok r) :
      qre.left ≤ defaultMaxRecordSize := by
    by_contra hlt
    dsimp only at hok
    rw [if_pos (Nat.lt_of_not_le hlt)] at hok
    cases hok
  dsimp only at h
  split at h
  · next ho => exact ⟨le_of_putUvarintlen hn, ho.trans_le (Nat.zero_le _), hleft _ h⟩
  · obtain ⟨m, hm, h⟩ := exists_of_bind h
    exact ⟨le_of_putUvarintlen hn, le_of_putUvarintlen hm, hleft _ h⟩

/-! ## Frames that cannot fail -/

/-- A frame of varints is written if there is room. -/
theorem wp_encodeFrame_room {fr : Frame} (hfr : fr.Encodable) {Q : Unit → St → Prop}
    {E : Err → St → Prop}
    (hQ : fr.wire.length ≤ st.conn.tx.qre.left → Q () { st with
      conn.tx.qre.frames := st.conn.tx.qre.frames ++ fr.wire
      trace := st.trace ++ [.txFr fr] })
    (hE : st.conn.tx.qre.left < fr.wire.length → E .nobuf st) : wp (encodeFrame fr) Q E env st := by
  simp only [encodeFrame, wp_bind, wp_get', wp_ofExcept]
  by_cases hroom : fr.wire.length ≤ st.conn.tx.qre.left
  · rw [Qre.encodeFrame_iff.2 ⟨hfr, hroom, rfl⟩]
    exact hQ hroom
  · rw [Qre.encodeFrame_nobuf hfr (Nat.lt_of_not_le hroom)]
    exact hE (Nat.lt_of_not_le hroom)

/-- A frame of varints is written, or there is no room. -/
theorem wp_encodeFrame_encodable {fr : Frame} (hfr : fr.Encodable) {Q : Unit → St → Prop}
    {E : Err → St → Prop}
    (hQ : Q () { st with
      conn.tx.qre.frames := st.conn.tx.qre.frames ++ fr.wire
      trace := st.trace ++ [.txFr fr] })
    (hE : st.conn.tx.qre.left < fr.wire.length → E .nobuf st) : wp (encodeFrame fr) Q E env st :=
  wp_encodeFrame_room hfr (fun _ => hQ) hE

/-- The frames about credit fail only for lack of room, and what is left for later is. -/
theorem wp_writeBlocked_passive (hp : env.Passive) (hq : st.conn.QueueOk)
    (hf : st.conn.strms.find id = some s) (hid : s.streamId ≤ maxVarint)
    (hconn : st.conn.tx.offset ≤ st.conn.tx.maxOffset) (hcmax : st.conn.tx.maxOffset ≤ maxVarint)
    (hstrm : s.tx.offset ≤ s.tx.maxOffset) (hmax : s.tx.maxOffset ≤ maxVarint) :
    wp (writeBlocked id) (fun _ _ => True) (fun _ _ => False) env st := by
  -- What finds no room is put off.
  have hlater {t : St} (ht : t.conn.QueueOk) (hf : t.conn.strms.find id = some s) :
      wp (do
        if Err.nobuf.isFault then throw Err.nobuf
        assertThat .nobuf (Err.nobuf = .nobuf)
        modifyStrm id fun s => { s with flags.sendStreamDataBlocked := true }
        connTxStrmqPushIfNot id) (fun _ _ => True) (fun _ _ => False) env t := by
    rw [wp_ite, if_neg nofun, wp_bind]
    refine wp_assertThat_of rfl ?_
    rw [wp_bind]
    refine wp_modifyStrm_of hf fun conn hc => ?_
    exact wp_connTxStrmqPushIfNot (hc.queueOk ht rfl rfl) hc.found' (fun _ _ => trivial)
      fun hn => absurd hp hn
  have hsecond {t : St} (ht : t.conn.QueueOk) (hf : t.conn.strms.find id = some s) :
      wp (connWriteStreamDataBlocked id) (fun _ _ => True)
        (fun e t => e = .nobuf ∧ t.conn.QueueOk ∧ t.conn.strms.find id = some s) env t := by
    simp only [connWriteStreamDataBlocked, wp_bind, wp_deref hf, wp_ite, wp_pure]
    split
    · trivial
    next hn =>
    refine wp_assertThat_of (Nat.le_antisymm hstrm (Nat.le_of_not_lt (not_or.1 hn).1)) ?_
    refine wp_encodeFrame_encodable ?_ ?_ fun _ => ⟨rfl, ht, hf⟩
    · refine ⟨fun v hv => ?_, trivial⟩
      simp only [Frame.varints, List.mem_cons, List.not_mem_nil, or_false] at hv
      rcases hv with rfl | rfl | rfl
      exacts [by decide, hid, hstrm.trans hmax]
    · exact (wp_modifyStrm (s := s) (by exact hf) _).2 trivial
  rw [writeBlocked, wp_tryCatch, wp_bind, connWriteDataBlocked, wp_bind, wp_get', wp_ite]
  split
  · rw [wp_pure]
    refine wp_mono (hsecond hq hf) (fun _ _ h => h) ?_
    rintro _ t ⟨rfl, ht, hf⟩
    exact hlater ht hf
  -- Where the connection is blocked, this is told first.
  next hn =>
  rw [wp_bind]
  refine wp_assertThat_of (Nat.le_antisymm hconn (Nat.le_of_not_lt (not_or.1 hn).1)) ?_
  rw [wp_bind]
  refine wp_encodeFrame_encodable ?_ ?_ fun _ => hlater hq hf
  · refine ⟨fun v hv => ?_, trivial⟩
    simp only [Frame.varints, List.mem_cons, List.not_mem_nil, or_false] at hv
    rcases hv with rfl | rfl
    exacts [by decide, hconn.trans hcmax]
  · rw [wp_modifyConn]
    refine wp_mono (hsecond (by exact { hq with }) (by exact hf)) (fun _ _ h => h) ?_
    rintro _ t ⟨rfl, ht, hf⟩
    exact hlater ht hf

theorem wp_connCloseStreamIfShutRdwr_passive (hp : env.Passive) (hq : st.conn.QueueOk)
    (hf : st.conn.strms.find id = some s) :
    wp (connCloseStreamIfShutRdwr id) (fun _ _ => True) (fun _ _ => False) env st := by
  simp only [connCloseStreamIfShutRdwr, wp_bind, wp_deref hf, wp_ite, wp_pure]
  split
  · trivial
  rw [connCloseStream, wp_bind, wp_deref hf, wp_bind, wp_callback_passive hp, wp_bind,
    wp_deref (s := s) (by exact hf)]
  simp only [wp_bind, wp_modify, wp_get', wp_modifyConn]
  split
  · trivial
  · next i hi =>
    have hm : id ∈ st.conn.tx.strmq.q :=
      hq.indexOk hf (by rw [hi]; rfl)
    obtain ⟨j, hj, hjq⟩ := hq.wf.mem_iff.1 hm
    obtain rfl := Option.some.inj (hi.symm.trans hj)
    rw [wp_bind]
    exact wp_assertThat_of hjq trivial

/-- After the end of its data, a stream may be closed. -/
theorem connCloseStreamIfShutRdwr_beside (hp : env.Passive) (hf : st.conn.strms.find id = some s)
    (hs : s.flags.shutWr = true) :
    wp (connCloseStreamIfShutRdwr id) (fun _ t => Beside st t)
      (fun e t => Beside st t ∧ CtrlErr e) env st := by
  rw [connCloseStreamIfShutRdwr, wp_bind, wp_deref hf, wp_ite]
  split
  · exact .refl st
  · exact connCloseStream_beside hp hf hs

/-! ## The account -/

/-- No data of the stream was written: no frame and no offset tells of any. -/
structure Untouched (st t : St) (id : ℕ) (s : Strm) : Prop where
  trace : ∃ evs, t.trace = st.trace ++ evs ∧ ∀ e ∈ evs, e.ofData = false
  offset : t.conn.tx.offset = st.conn.tx.offset
  strm : ∃ s', t.conn.strms.find id = some s' ∧ s'.tx.offset = s.tx.offset

/-- The numbers of bytes of the data that could be written behind `pre` in a record. -/
def St.Writable (st : St) (s : Strm) (finFlag : Bool) (datav : Vecs) (pre : List UInt8) : Set ℕ :=
  {n | n ≤ datav.flatten.length ∧ s.tx.offset + n ≤ s.tx.maxOffset ∧
    st.conn.tx.offset + n ≤ st.conn.tx.maxOffset ∧
    (pre ++ (Frame.stream (streamFrame s finFlag datav n)).wire).length ≤
      st.conn.tx.qre.buflen - qreRecordlenSize}

/-- One STREAM frame was added to the record, with the first `k` bytes of the data, and no
    more could have been. The stream is gone if both of its directions have ended with
    that. -/
structure Accounted (st t : St) (id : ℕ) (s : Strm) (finFlag : Bool) (datav : Vecs) (k : ℕ) :
    Prop where
  trace : ∃ evs evs', t.trace = st.trace ++ evs ++
      [.txFr (.stream (streamFrame s finFlag datav k)), .writeStreamDataOffset id s.tx.offset k] ++
      evs' ∧
    (∀ e ∈ evs, e.ofData = false) ∧ ∀ e ∈ evs', e.ofData = false
  record : ∃ pre post, t.conn.tx.qre.frames =
      pre ++ (Frame.stream (streamFrame s finFlag datav k)).wire ++ post ∧
    st.conn.tx.qre.frames <+: pre ∧ IsGreatest (st.Writable s finFlag datav pre) k
  offset : t.conn.tx.offset = st.conn.tx.offset + k
  strm : ∃ s', s'.streamId = id ∧ s'.tx.offset = s.tx.offset + k ∧
    s'.flags.shutWr = (streamFrame s finFlag datav k).fin ∧
    (t.conn.strms.find id = some s' ∨
      s'.flags.shutWr = true ∧ t.conn.strms.find id = none ∧ s' ∈ t.closed)

theorem Beside.untouched (h : Beside st t) (hf : st.conn.strms.find id = some s)
    (hs : s.flags.shutWr = false) : Untouched st t id s where
  trace := h.trace
  offset := h.offset
  strm := by
    obtain ⟨s', hf', hsame⟩ := h.found hf hs
    exact ⟨s', hf', hsame.offset⟩

theorem streamFrame_congr (h : SameData s s') :
    streamFrame s' finFlag datav k = streamFrame s finFlag datav k := by
  rw [streamFrame, h.streamId, h.offset, streamFrame]

/-- What is written afterwards changes nothing of it. -/
theorem Accounted.beside (h : Accounted st t id s finFlag datav k) (hb : Beside t u) :
    Accounted st u id s finFlag datav k where
  trace := by
    obtain ⟨evs, evs', htrace, hevs, hevs'⟩ := h.trace
    obtain ⟨evs'', htrace', hevs''⟩ := hb.trace
    refine ⟨evs, evs' ++ evs'', ?_, hevs, fun e he => ?_⟩
    · rw [htrace', htrace, List.append_assoc _ evs']
    · exact (List.mem_append.1 he).elim (hevs' e) (hevs'' e)
  record := by
    obtain ⟨pre, post, hframes, hpre, hk⟩ := h.record
    obtain ⟨bytes, hbytes⟩ := hb.frames
    exact ⟨pre, post ++ bytes, by rw [hbytes, hframes, List.append_assoc _ post], hpre, hk⟩
  offset := hb.offset.trans h.offset
  strm := by
    obtain ⟨s₁, hid, hoffset, hshut, hf | ⟨hclosed, hn, hm⟩⟩ := h.strm
    · rcases hb.strms id s₁ hf with ⟨s₂, hf₂, hsame⟩ | ⟨hclosed, hn, s₂, hm, hsame⟩
      · exact ⟨s₂, hsame.streamId.trans hid, hsame.offset.trans hoffset,
          hsame.shutWr.trans hshut, .inl hf₂⟩
      · exact ⟨s₂, hsame.streamId.trans hid, hsame.offset.trans hoffset,
          hsame.shutWr.trans hshut, .inr ⟨hsame.shutWr.trans hclosed, hn, hm⟩⟩
    · obtain ⟨l, hl⟩ := hb.closed
      exact ⟨s₁, hid, hoffset, hshut, .inr ⟨hclosed, hb.gone id hn, hl ▸ List.mem_append_left _ hm⟩⟩

/-- Nor does what was written before. -/
theorem Beside.accounted (hb : Beside st t) (hsame : SameData s s')
    (h : Accounted t u id s' finFlag datav k) : Accounted st u id s finFlag datav k where
  trace := by
    obtain ⟨evs, htrace, hevs⟩ := hb.trace
    obtain ⟨evs', evs'', htrace', hevs', hevs''⟩ := h.trace
    rw [streamFrame_congr hsame, hsame.offset] at htrace'
    refine ⟨evs ++ evs', evs'', ?_, fun e he => ?_, hevs''⟩
    · rw [htrace', htrace, List.append_assoc _ evs]
    · exact (List.mem_append.1 he).elim (hevs e) (hevs' e)
  record := by
    obtain ⟨pre, post, hframes, hpre, hk⟩ := h.record
    obtain ⟨bytes, hbytes⟩ := hb.frames
    rw [streamFrame_congr hsame] at hframes
    refine ⟨pre, post, hframes, .trans ⟨bytes, hbytes.symm⟩ hpre, ?_⟩
    simp only [St.Writable, streamFrame_congr hsame, hsame.offset, hsame.maxOffset, hb.offset,
      hb.maxOffset, hb.buflen] at hk
    exact hk
  offset := h.offset.trans (congrArg (· + k) hb.offset)
  strm := by
    obtain ⟨s₁, hid, hoffset, hshut, hend⟩ := h.strm
    rw [streamFrame_congr hsame] at hshut
    rw [hsame.offset] at hoffset
    exact ⟨s₁, hid, hoffset, hshut, hend⟩

/-! ## Writing the frame -/

/-- The limits of the code are those on what could be written. -/
theorem writable_eq {ndatalen : ℕ} (hid : s.streamId = id)
    (hstrm : s.tx.offset ≤ s.tx.maxOffset) (hmax : s.tx.maxOffset ≤ maxVarint)
    (hconn : st.conn.tx.offset ≤ st.conn.tx.maxOffset) (hcmax : st.conn.tx.maxOffset ≤ maxVarint)
    (hn : ndatalen = st.conn.enforceFlowControl s datav.flatten.length) :
    st.Writable s finFlag datav st.conn.tx.qre.frames =
      {j | j ≤ ndatalen ∧ streamHeaderLen id s.tx.offset + uvarintLen j + j ≤
        st.conn.tx.qre.left} := by
  have hvar : maxVarint < 2 ^ 62 := by decide
  have hpos : 0 < streamHeaderLen id s.tx.offset := by
    unfold streamHeaderLen
    omega
  subst hid
  ext j
  rw [Conn.enforceFlowControl, sub64_eq hstrm (by omega), sub64_eq hconn (by omega)] at hn
  simp only [St.Writable, Set.mem_ofPred_eq, List.length_append, Qre.left]
  by_cases hj : j ≤ datav.flatten.length
  · have hlen := @length_wire_stream (streamFrame s finFlag datav j) hj
    rw [hlen]
    simp only [streamFrame]
    omega
  · omega

/-- The frame is written, and then only frames about credit, or the stream is closed. -/
theorem writeStreamData_accounts {ndatalen : ℕ} (hp : env.Passive) (hq : st.conn.QueueOk)
    (hf : st.conn.strms.find id = some s) (hshut : s.flags.shutWr = false) (hid : id ≤ maxVarint)
    (hstrm : s.tx.offset ≤ s.tx.maxOffset) (hmax : s.tx.maxOffset ≤ maxVarint)
    (hcmax : st.conn.tx.maxOffset ≤ maxVarint)
    (hk : IsGreatest (st.Writable s finFlag datav st.conn.tx.qre.frames) k) :
    wp (writeStreamData id finFlag datav ndatalen k)
      (fun _ t => Accounted st t id s finFlag datav k ∧ t.pdatalen = some k) (fun _ _ => False)
      env st := by
  have hvar : maxVarint < 2 ^ 62 := by decide
  obtain ⟨hle, hcredit, hcconn, hroom⟩ := hk.1
  have hsid := hq.streamId id s hf
  have hoffset : add64 s.tx.offset k = s.tx.offset + k := add64_eq (by omega)
  have hcoffset : add64 st.conn.tx.offset k = st.conn.tx.offset + k := add64_eq (by omega)
  have henc : (Frame.stream (streamFrame s finFlag datav k)).Encodable := by
    refine ⟨fun v hv => ?_, hle⟩
    have htype : (streamFrame s finFlag datav k).typeByte ≤ maxVarint := by
      unfold FrameStream.typeByte
      split <;> split <;> decide
    simp only [Frame.varints, List.mem_append, List.mem_cons, List.not_mem_nil, or_false] at hv
    rcases hv with ((hv | hv) | hv) | hv
    · exact hv.trans_le htype
    · exact hv.trans_le (hsid.trans_le hid)
    · split at hv
      · cases hv
      · exact (List.mem_singleton.1 hv).trans_le (hstrm.trans hmax)
    · exact hv.trans_le ((Nat.le_add_left _ _).trans (hcredit.trans hmax))
  have hend {t : St} (ht : Accounted st t id s finFlag datav k) :
      wp (do
        emit (.accepted id (datav.flatten.take k) (finFlag && datav.flatten.length == k))
        modify fun st => { st with pdatalen := some k })
        (fun _ t => Accounted st t id s finFlag datav k ∧ t.pdatalen = some k)
        (fun _ _ => False) env t := by
    have ht := ht.beside (.emit (e := .accepted id (datav.flatten.take k)
      (finFlag && datav.flatten.length == k)) rfl)
    rw [wp_bind, wp_emit, wp_modify]
    exact ⟨{ ht with }, rfl⟩
  -- with the frame written, the stream is closed, or more frames tell that credit is used up
  have hrest {t : St} {b : Strm} (hq : t.conn.QueueOk)
      (htrace : t.trace = st.trace ++ [.txFr (.stream (streamFrame s finFlag datav k)),
        .writeStreamDataOffset id s.tx.offset k])
      (hframes : t.conn.tx.qre.frames =
        st.conn.tx.qre.frames ++ (Frame.stream (streamFrame s finFlag datav k)).wire)
      (ht : t.conn.tx.offset = st.conn.tx.offset + k)
      (htmax : t.conn.tx.maxOffset = st.conn.tx.maxOffset) (hb : t.conn.strms.find id = some b)
      (hboffset : b.tx.offset = s.tx.offset + k) (hbmax : b.tx.maxOffset = s.tx.maxOffset)
      (hbshut : b.flags.shutWr = false) :
      wp (do
        if finFlag && datav.flatten.length == k then do
          modifyStrm id fun s => { s with flags.shutWr := true }
          connCloseStreamIfShutRdwr id
        else Exec.when (ndatalen < datav.flatten.length) (writeBlocked id)
        emit (.accepted id (datav.flatten.take k) (finFlag && datav.flatten.length == k))
        modify fun st => { st with pdatalen := some k })
        (fun _ t => Accounted st t id s finFlag datav k ∧ t.pdatalen = some k)
        (fun _ _ => False) env t := by
    have hbid := hq.streamId id b hb
    rw [wp_ite]
    split
    · next hfin =>
      have hfin' : (streamFrame s finFlag datav k).fin = true := hfin
      have hchanges := Changes.of_modify hb fun s : Strm => { s with flags.shutWr := true }
      have haccount : Accounted st { t with
          conn.strms := t.conn.strms.modify id fun s => { s with flags.shutWr := true } } id s
          finFlag datav k :=
        ⟨⟨[], [], by rw [htrace, List.append_nil, List.append_nil], by simp, by simp⟩,
          ⟨_, [], by rw [hframes, List.append_nil], List.prefix_rfl, hk⟩, ht,
          { b with flags.shutWr := true }, hbid, hboffset, hfin'.symm, .inl hchanges.found'⟩
      rw [wp_bind, wp_modifyStrm hb, wp_bind]
      refine wp_mono (wp_and
        (connCloseStreamIfShutRdwr_beside hp (by exact hchanges.found') rfl)
        (wp_connCloseStreamIfShutRdwr_passive hp (by exact hchanges.queueOk hq rfl rfl)
          (by exact hchanges.found'))) (fun _ u hu => ?_) fun _ _ h => h.2
      exact hend (haccount.beside hu.1)
    · next hfin =>
      have haccount : Accounted st t id s finFlag datav k :=
        ⟨⟨[], [], by rw [htrace, List.append_nil, List.append_nil], by simp, by simp⟩,
          ⟨_, [], by rw [hframes, List.append_nil], List.prefix_rfl, hk⟩, ht,
          b, hbid, hboffset, hbshut.trans (Bool.eq_false_iff.2 hfin).symm, .inl hb⟩
      rw [wp_bind, wp_when]
      split
      · refine wp_mono (wp_and (movesBeside_writeBlocked t) (wp_writeBlocked_passive hp hq hb
          (hbid.trans_le hid) (by omega) (by omega) (by omega) (by omega))) (fun _ u hu => ?_)
          fun _ _ h => h.2
        exact hend (haccount.beside hu.1)
      · exact hend haccount
  rw [writeStreamData]
  dsimp only
  rw [wp_bind, wp_deref hf, wp_bind, wp_tryCatch]
  refine wp_encodeFrame_encodable henc ?_ fun hroom' => ?_
  · rw [wp_bind, wp_callback_passive hp, wp_bind]
    rw [wp_modifyStrm (s := s) (by exact hf), wp_bind, wp_modifyConn]
    have hchanges := Changes.of_modify hf fun s : Strm => { s with
      flags.anySent := true
      tx.offset := add64 s.tx.offset k }
    refine hrest { hchanges.queueOk hq rfl rfl with } ?_ rfl hcoffset rfl hchanges.found' hoffset
      rfl hshut
    rw [hsid]
    exact List.append_assoc _ _ _
  · simp only [List.length_append, Qre.left] at hroom hroom'
    omega

/-- Where there is credit or no data, a frame is written and accounted for, or there is no room
    for it. -/
theorem writeCredited_accounts {ndatalen : ℕ} (hp : env.Passive) (hq : st.conn.QueueOk)
    (hf : st.conn.strms.find id = some s) (hshut : s.flags.shutWr = false)
    (hstrm : s.tx.offset ≤ s.tx.maxOffset) (hmax : s.tx.maxOffset ≤ maxVarint)
    (hconn : st.conn.tx.offset ≤ st.conn.tx.maxOffset)
    (hcmax : st.conn.tx.maxOffset ≤ maxVarint)
    (hn : ndatalen = st.conn.enforceFlowControl s datav.flatten.length) :
    wp (do
      match ← Exec.ofExcept
          (st.conn.tx.qre.streamMaxDatalen s.streamId s.tx.offset ndatalen) with
      | none => throw .nobuf
      | some wdatalen =>
        if wdatalen = 0 ∧ datav.flatten.length ≠ 0 then throw .nobuf
        else writeStreamData id finFlag datav ndatalen wdatalen)
      (fun _ t => ∃ k, Accounted st t id s finFlag datav k ∧ t.pdatalen = some k)
      (fun e t => t = st ∧ CtrlErr e) env st := by
  rw [wp_bind, wp_ofExcept]
  -- How much there is room for, at most as much as there is credit for.
  split
  · next r hr =>
    obtain ⟨hid, -, hleft⟩ := le_of_streamMaxDatalen hr
    obtain ⟨r', hr', -, hk⟩ := streamMaxDatalen_eq ndatalen hid (hstrm.trans hmax) hleft
    obtain rfl := Except.ok.inj (hr.symm.trans hr')
    cases r with
    | none => exact ⟨rfl, fun _ => rfl⟩
    | some k =>
    dsimp only
    rw [wp_ite]
    split
    · exact ⟨rfl, fun _ => rfl⟩
    have hsid := hq.streamId id s hf
    have hk := hk k rfl
    have hwritable := @writable_eq st id s finFlag datav _ hsid hstrm hmax hconn hcmax hn
    rw [hsid, ← hwritable] at hk
    exact wp_mono (writeStreamData_accounts (s := s) hp hq hf hshut (hsid ▸ hid) hstrm hmax
      hcmax hk) (fun _ t ht => ⟨k, ht⟩) fun _ _ h => h.elim
  -- The encoder fails only for numbers that are too large.
  · next e he =>
    rcases Qre.streamMaxDatalen_spec st.conn.tx.qre s.streamId s.tx.offset ndatalen with
      ⟨r, hr, -⟩ | ⟨e, he', herr⟩
    · cases he.symm.trans hr
    · obtain rfl := Except.error.inj (he.symm.trans he')
      refine ⟨rfl, ?_⟩
      rcases herr with (rfl | rfl | rfl) | rfl
      exacts [fun _ => rfl, nofun, nofun, nofun]

/-- A call for data of a stream writes a frame of it and accounts for it, or does neither. -/
theorem connWriteStreamFrame_accounts (hp : env.Passive) (hq : st.conn.QueueOk)
    (hf : st.conn.strms.find id = some s) (hshut : s.flags.shutWr = false)
    (hstrm : s.tx.offset ≤ s.tx.maxOffset) (hmax : s.tx.maxOffset ≤ maxVarint)
    (hconn : st.conn.tx.offset ≤ st.conn.tx.maxOffset)
    (hcmax : st.conn.tx.maxOffset ≤ maxVarint) :
    wp (connWriteStreamFrame id finFlag datav)
      (fun _ t => (∃ k, Accounted st t id s finFlag datav k ∧ t.pdatalen = some k) ∨ Beside st t)
      (fun e t => Beside st t ∧ (e = .streamDataBlocked →
        0 < datav.flatten.length ∧ s.tx.maxOffset = s.tx.offset)) env st := by
  have hbegin : Beside st { st with trace := st.trace ++ [.writeStreamFrame id] } := .emit rfl
  rw [connWriteStreamFrame, wp_bind, wp_emit]
  dsimp only
  rw [wp_bind, wp_deref (s := s) (by exact hf), wp_bind, wp_get', wp_ite]
  split
  -- Without credit for any of the data, nothing of it is sent.
  · next hzero =>
    rw [writeStreamNoCredit, wp_bind]
    refine wp_mono (movesBeside_writeBlocked _) (fun _ t ht => ?_) fun e t ht => ?_
    · have ht := hbegin.trans ht
      obtain ⟨b, hb, hsame⟩ := ht.found hf hshut
      rw [wp_bind, wp_deref hb, wp_ite]
      split
      · next heq =>
        rw [hsame.maxOffset, hsame.offset] at heq
        exact ⟨ht, fun _ => ⟨Nat.pos_of_ne_zero hzero.2, heq⟩⟩
      · exact .inr ht
    · refine ⟨hbegin.trans ht.1, ?_⟩
      rintro rfl
      cases ht.2 rfl
  · refine wp_mono (writeCredited_accounts (s := s) hp (by exact hq) (by exact hf) hshut hstrm hmax
      hconn hcmax rfl) (fun _ t ht => ?_) fun e t ht => ?_
    · obtain ⟨k, ht, hk⟩ := ht
      exact .inl ⟨k, hbegin.accounted (.refl s) ht, hk⟩
    · obtain ⟨rfl, he⟩ := ht
      refine ⟨hbegin, ?_⟩
      rintro rfl
      cases he rfl

/-! ## Writing the record -/

/-- A frame was written and accounted for, or no data was. -/
def Told (st t : St) (id : ℕ) (s : Strm) (finFlag : Bool) (datav : Vecs) : Prop :=
  (∃ k, Accounted st t id s finFlag datav k ∧ t.pdatalen = some k) ∨ Beside st t

theorem Told.beside (h : Told st t id s finFlag datav) (hb : Beside t u) :
    Told st u id s finFlag datav := by
  rcases h with ⟨k, h, hk⟩ | h
  · exact .inl ⟨k, h.beside hb, hb.pdatalen.trans hk⟩
  · exact .inr (h.trans hb)

theorem Beside.told (hb : Beside st t) (hsame : SameData s s')
    (h : Told t u id s' finFlag datav) : Told st u id s finFlag datav := by
  rcases h with ⟨k, h, hk⟩ | h
  · exact .inl ⟨k, hb.accounted hsame h, hk⟩
  · exact .inr (hb.trans h)

/-- The error is the one for a stream without credit only if that is so. -/
def BlockedErr (s : Strm) (datav : Vecs) (e : Err) : Prop :=
  e = .streamDataBlocked → 0 < datav.flatten.length ∧ s.tx.maxOffset = s.tx.offset

theorem CtrlErr.blocked {e : Err} (h : CtrlErr e) : BlockedErr s datav e := by
  rintro rfl
  cases h rfl

theorem wp_isNobuf {x : M Unit} {P : St → Prop} {E : Err → Prop}
    (hx : wp x (fun _ t => P t) (fun e t => P t ∧ E e) env st) :
    wp (isNobuf x) (fun _ t => P t) (fun e t => P t ∧ E e) env st := by
  rw [isNobuf, wp_tryCatch, wp_bind]
  refine wp_mono hx (fun _ t ht => ht) fun e t ht => ?_
  rw [wp_ite]
  split
  exacts [ht.1, ht]

theorem movesBeside_finalRecord (ts : ℕ) : MovesBeside env (finalRecord ts) := by
  refine Moves.bind .get fun _ => Moves.bind (.ofExcept fun e he => ?_) fun record => ?_
  · obtain rfl := Qre.final_err he
    exact nofun
  · refine Moves.bind (movesBeside_modifyConn fun _ => .of_conn rfl rfl rfl rfl rfl) fun _ => ?_
    exact Moves.bind (.when
      (movesBeside_modifyConn (by exact fun _ => .of_conn rfl rfl rfl rfl rfl)))
      fun _ => .pure _

/-- The end of a call changes nothing of what was told. -/
theorem movesBeside_finish (hp : env.Passive) (ts : ℕ) : MovesBeside env (do
    let _ ← isNobuf connWriteMaxStreams
    finalRecord ts) :=
  Moves.bind (movesBeside_isNobuf (movesBeside_connWriteMaxStreams hp)) fun _ =>
    movesBeside_finalRecord ts

/-- A record is started with control frames. -/
theorem movesBeside_startRecord (hp : env.Passive) (destlen : ℕ) :
    wp (startRecord destlen)
      (fun _ t => Beside { st with conn.tx.qre :=
        ⟨true, min destlen (qreRecordlenSize + defaultMaxRecordSize), []⟩ } t)
      (fun e t => (∃ q, Beside { st with conn.tx.qre := q } t) ∧ CtrlErr e) env st := by
  rw [startRecord, wp_bind, wp_ofExcept]
  cases hq : Qre.start destlen with
  | error e =>
    obtain rfl := Qre.start_err hq
    exact ⟨⟨_, .refl _⟩, by rintro ⟨⟩⟩
  | ok q =>
    obtain rfl : ⟨true, min destlen (qreRecordlenSize + defaultMaxRecordSize), []⟩ = q := by
      unfold Qre.start at hq
      split at hq
      · cases hq
      · exact Except.ok.inj hq
    dsimp only
    rw [wp_bind, wp_modifyConn]
    refine wp_mono ((Moves.bind .get fun _ => Moves.bind (.when ?_) fun _ => ?_ :
      MovesBeside env _) _) (fun _ _ ht => ht) fun _ _ ht => ⟨⟨_, ht.1⟩, ht.2⟩
    · refine Moves.bind (.tryCatch movesBeside_connWriteTransportParams fun e he => ?_) fun _ => ?_
      · exact Moves.bind (movesBeside_modifyConn (by exact fun _ => .of_conn rfl rfl rfl rfl rfl))
          fun _ => .throw he
      · exact movesBeside_modifyConn (by exact fun _ => .of_conn rfl rfl rfl rfl rfl)
    · exact movesBeside_isNobuf (movesBeside_connWriteCtrlFrames hp)

/-- The state with the record that a call writes to, before anything is written. -/
def St.opened (st : St) (destlen : ℕ) : St :=
  if st.conn.tx.qre.started then st
  else { st with
    conn.tx.qre := ⟨true, min destlen (qreRecordlenSize + defaultMaxRecordSize), []⟩ }

/-- A message is written, and more asked for. -/
theorem writeVmsg_told (hp : env.Passive) (hq : st.conn.QueueOk)
    (hf : st.conn.strms.find id = some s) (hshut : s.flags.shutWr = false)
    (hstrm : s.tx.offset ≤ s.tx.maxOffset) (hmax : s.tx.maxOffset ≤ maxVarint)
    (hconn : st.conn.tx.offset ≤ st.conn.tx.maxOffset)
    (hcmax : st.conn.tx.maxOffset ≤ maxVarint) :
    wp (writeVmsg (.stream id finFlag datav)) (fun _ t => Told st t id s finFlag datav)
      (fun e t => Told st t id s finFlag datav ∧ BlockedErr s datav e) env st := by
  rw [writeVmsg, wp_bind]
  refine wp_mono (wp_isNobuf (wp_mono
    (connWriteStreamFrame_accounts hp hq hf hshut hstrm hmax hconn hcmax) (fun _ _ h => h)
    fun _ _ h => ⟨.inr h.1, h.2⟩)) (fun nobuf t ht => ?_) fun _ _ h => h
  rw [wp_when]
  split
  · rw [wp_bind, wp_get', wp_ite]
    split
    exacts [⟨ht, by rintro ⟨⟩⟩, ht]
  · exact ht

/-- The rest of a record that is started, whatever went into it so far. -/
theorem connWriteVmsg_rest_told {G : Cfg → Prop} {c : Cfg} {destlen : ℕ} {vmsg : Option Vmsg}
    {t : St} (ts : ℕ) (hG : Closed env.Passive G) (hp : env.Passive)
    (hf : c.conn.strms.find id = some s) (hshut : s.flags.shutWr = false)
    (hvmsg : vmsg = none ∨ vmsg = some (.stream id finFlag datav))
    (hb : Beside (c.st.opened destlen) t) (ht : G { c with st := t }) (nobuf : Bool) :
    wp (do
      match vmsg with
        | none => pure ()
        | some vmsg => Exec.when (!nobuf) (writeVmsg vmsg)
      let _ ← isNobuf connWriteMaxStreams
      finalRecord ts) (fun _ t => Told (c.st.opened destlen) t id s finFlag datav)
      (fun e t => (Told (c.st.opened destlen) t id s finFlag datav ∨
        ∃ q, Beside { c.st with conn.tx.qre := q } t) ∧ BlockedErr s datav e) env t := by
  have hfinish {u : St} (hu : Told (c.st.opened destlen) u id s finFlag datav) :
      wp (do
        let _ ← isNobuf connWriteMaxStreams
        finalRecord ts) (fun _ t => Told (c.st.opened destlen) t id s finFlag datav)
        (fun e t => (Told (c.st.opened destlen) t id s finFlag datav ∨
          ∃ q, Beside { c.st with conn.tx.qre := q } t) ∧ BlockedErr s datav e) env u :=
    wp_mono (movesBeside_finish hp ts u) (fun _ _ h => hu.beside h)
      fun _ _ h => ⟨.inl (hu.beside h.1), h.2.blocked⟩
  rcases hvmsg with rfl | rfl
  · exact hfinish (.inr hb)
  dsimp only
  rw [wp_bind, wp_when]
  split
  · have hf : (c.st.opened destlen).conn.strms.find id = some s := by
      unfold St.opened
      split <;> exact hf
    obtain ⟨b, hfb, hsame⟩ := hb.found hf hshut
    have hI := hG.inv _ ht
    have hok := hI.strms id b hfb
    refine wp_mono (writeVmsg_told hp hI.queue hfb (hsame.shutWr.trans hshut) hok.txOffset
      hok.txMaxOffset hI.flow.txOffset hI.flow.txMaxOffset) (fun _ u hu => ?_) fun e u hu => ?_
    · exact hfinish (hb.told hsame hu)
    · refine ⟨.inl (hb.told hsame hu.1), ?_⟩
      rw [BlockedErr, ← hsame.offset, ← hsame.maxOffset]
      exact hu.2
  · exact hfinish (.inr hb)

theorem connWriteVmsg_told {G : Cfg → Prop} {c : Cfg} {destlen ts : ℕ} {vmsg : Option Vmsg}
    (hG : Closed env.Passive G) (h : G c) (hp : env.Passive) (hidle : c.pending = .idle)
    (hf : c.conn.strms.find id = some s) (hshut : s.flags.shutWr = false)
    (hvmsg : vmsg = none ∨ vmsg = some (.stream id finFlag datav)) :
    wp (connWriteVmsg destlen vmsg ts)
      (fun _ t => Told (c.st.opened destlen) t id s finFlag datav)
      (fun e t => (Told (c.st.opened destlen) t id s finFlag datav ∨
        ∃ q, Beside { c.st with conn.tx.qre := q } t) ∧ BlockedErr s datav e) env c.st := by
  have hrest {t : St} (hb : Beside (c.st.opened destlen) t) (ht : G { c with st := t })
      (nobuf : Bool) :=
    connWriteVmsg_rest_told ts hG hp hf hshut hvmsg hb ht nobuf
  rw [connWriteVmsg, wp_ite]
  split
  · exact ⟨.inr ⟨c.conn.tx.qre, .refl _⟩, by rintro ⟨⟩⟩
  rw [wp_bind, wp_get', wp_ite]
  split
  · next hs =>
    refine hrest ?_ h false
    rw [St.opened, if_pos hs]
    exact .refl _
  · next hs =>
    rw [wp_bind]
    refine wp_mono (wp_and (movesBeside_startRecord hp destlen)
      (startRecord_spec hG h hidle (by simpa using hs))) (fun nobuf t ht => ?_) fun e t ht => ?_
    · refine hrest ?_ ht.2 nobuf
      rw [St.opened, if_neg hs]
      exact ht.1
    · exact ⟨.inr ht.1.1, ht.1.2.blocked⟩

/-! ## Calls -/

/-- The account that a call of `dwnx_conn_writev_stream` gives, in the result `r` and the
    length it stores, is right. -/
structure WritevExact (st t : St) (r : Except Err (List UInt8)) (destlen id : ℕ) (s : Strm)
    (finFlag : Bool) (datav : Vecs) : Prop where
  written : ∀ k, t.pdatalen = some k → Accounted (st.opened destlen) t id s finFlag datav k
  unwritten : t.pdatalen = none → Untouched st t id s
  blocked : r = .error .streamDataBlocked →
    0 < datav.flatten.length ∧ s.tx.maxOffset = s.tx.offset
  refused : maxVarint < s.tx.offset + datav.flatten.length ∨
    maxVarint < st.conn.tx.offset + datav.flatten.length → r = .error .invalidArgument

/-- Data is refused if its end is no offset. -/
theorem wp_streamVmsg (hf : st.conn.strms.find id = some s) (hshut : s.flags.shutWr = false)
    (hstrm : s.tx.offset ≤ maxVarint) (hconn : st.conn.tx.offset ≤ maxVarint) :
    wp (streamVmsg id finFlag datav)
      (fun vmsg t => t = st ∧
        (vmsg = none ∧ datav.flatten.length = 0 ∨ vmsg = some (.stream id finFlag datav)) ∧
        s.tx.offset + datav.flatten.length ≤ maxVarint ∧
        st.conn.tx.offset + datav.flatten.length ≤ maxVarint)
      (fun e t => t = st ∧ e = .invalidArgument ∧
        ¬(s.tx.offset + datav.flatten.length ≤ maxVarint ∧
          st.conn.tx.offset + datav.flatten.length ≤ maxVarint)) env st := by
  have hvar : maxVarint < 2 ^ 62 := by decide
  rw [streamVmsg, wp_bind, wp_get']
  dsimp only
  rw [show st.conn.findStream id = some s from hf, vecLenVarint_eq]
  dsimp only
  rw [wp_ite, if_neg (by simp [hshut])]
  by_cases hle : datav.flatten.length ≤ maxVarint
  · rw [if_pos hle]
    dsimp only
    rw [wp_ite]
    split
    · next hzero => exact ⟨rfl, .inl ⟨rfl, hzero.1⟩, by omega, by omega⟩
    rw [wp_ite, sub64_eq hstrm (by omega), sub64_eq hconn (by omega)]
    split
    · exact ⟨rfl, rfl, by omega⟩
    · exact ⟨rfl, .inr rfl, by omega, by omega⟩
  · rw [if_neg hle]
    exact ⟨rfl, rfl, fun h => hle (by omega)⟩

/-- What holds after a call, of what was told since a state with nothing else to tell. -/
theorem writevExact_of_told {st₁ : St} {r : Except Err (List UInt8)} {destlen : ℕ}
    (hst : Beside { st with pdatalen := none } st₁) (hq : st₁.conn.tx.qre = st.conn.tx.qre)
    (hf₁ : st₁.conn.strms.find id = some s)
    (hshut : s.flags.shutWr = false)
    (h : Told (st₁.opened destlen) t id s finFlag datav ∨
      ∃ q, Beside { st₁ with conn.tx.qre := q } t)
    (hblocked : r = .error .streamDataBlocked →
      0 < datav.flatten.length ∧ s.tx.maxOffset = s.tx.offset)
    (hle : s.tx.offset + datav.flatten.length ≤ maxVarint)
    (hcle : st.conn.tx.offset + datav.flatten.length ≤ maxVarint) :
    WritevExact st t r destlen id s finFlag datav := by
  have hnone : st₁.pdatalen = none := hst.pdatalen
  -- Control frames alone do not touch the data.
  have hbeside (hb : ∃ q, Beside { st₁ with conn.tx.qre := q } t) :
      t.pdatalen = none ∧ Untouched st t id s := by
    obtain ⟨q, hb⟩ := hb
    have hu : Untouched { st₁ with conn.tx.qre := q } t id s := hb.untouched hf₁ hshut
    obtain ⟨evs, htrace, hevs⟩ := hst.trace
    obtain ⟨evs', htrace', hevs'⟩ := hu.trace
    exact ⟨hb.pdatalen.trans hnone,
      { hu with
        trace := ⟨evs ++ evs', by rw [htrace', htrace, List.append_assoc],
          fun e h => (List.mem_append.1 h).elim (hevs e) (hevs' e)⟩
        offset := hu.offset.trans hst.offset }⟩
  -- The record is opened before the message is written.
  have hopened : ∃ q, st₁.opened destlen = { st₁ with conn.tx.qre := q } := by
    unfold St.opened
    split
    exacts [⟨st₁.conn.tx.qre, rfl⟩, ⟨_, rfl⟩]
  have htold : (∃ k, Accounted (st₁.opened destlen) t id s finFlag datav k ∧ t.pdatalen = some k) ∨
      t.pdatalen = none ∧ Untouched st t id s := by
    rcases h with (h | h) | h
    · exact .inl h
    · obtain ⟨q, hq⟩ := hopened
      exact .inr (hbeside ⟨q, hq ▸ h⟩)
    · exact .inr (hbeside h)
  -- The outcome is told in `pdatalen`: how much was accepted, or none.
  refine ⟨fun k hk => ?_, fun hk => ?_, hblocked, fun h => absurd h (by omega)⟩
  · rcases htold with ⟨k', h, hk'⟩ | ⟨hn, -⟩
    · obtain rfl := Option.some.inj (hk.symm.trans hk')
      have hb : Beside (St.opened { st with pdatalen := none } destlen) (st₁.opened destlen) := by
        unfold St.opened
        rw [hq]
        split
        exacts [hst, { hst with frames := ⟨[], rfl⟩, buflen := rfl }]
      have h := hb.accounted (.refl s) h
      unfold St.opened at h ⊢
      dsimp only at h
      split at h
      · next hs =>
        rw [if_pos hs]
        exact { h with }
      · next hs =>
        rw [if_neg hs]
        exact { h with }
    · cases hk.symm.trans hn
  · rcases htold with ⟨k', -, hk'⟩ | ⟨-, h⟩
    · cases hk.symm.trans hk'
    · exact h

theorem connWritevStream_exact {G : Cfg → Prop} {c : Cfg} {destlen ts : ℕ}
    (hG : Timed env.Passive G) (h : G c) (hp : env.Passive) (hidle : c.pending = .idle)
    (hf : c.conn.strms.find id = some s) (hshut : s.flags.shutWr = false) (hid : id ≠ noStream)
    (hts : c.conn.lastTs ≤ ts) :
    wp (connWritevStream destlen finFlag id datav ts)
      (fun record t => WritevExact c.st t (.ok record) destlen id s finFlag datav)
      (fun err t => WritevExact c.st t (.error err) destlen id s finFlag datav) env c.st := by
  have hI := hG.inv c h
  have hok := hI.strms id s hf
  have h₀ := hG.step _ _ h (.beginCall id hidle)
  rw [connWritevStream, wp_bind, wp_emit, wp_bind, connUpdateTimestamp, wp_bind, wp_get', wp_bind]
  refine wp_assertThat_of hts ?_
  rw [wp_modifyConn, wp_bind, wp_modify, wp_ite, if_neg hid, wp_bind]
  have h₁ := hG.step _ _ (hG.time _ _ h₀ (.time hts)) (.outputs none c.st.paccepted)
  refine wp_mono (wp_streamVmsg (s := s) (by exact hf) hshut
    (hok.txOffset.trans hok.txMaxOffset) (hI.flow.txOffset.trans hI.flow.txMaxOffset)) ?_ ?_
  · rintro vmsg t ⟨rfl, hvmsg, hle, hcle⟩
    have hexact {r : Except Err (List UInt8)} {t : St} := @writevExact_of_told c.st t id s finFlag
      datav { c.st with
        trace := c.st.trace ++ [.writeStream id]
        conn.lastTs := ts
        pdatalen := none } r destlen
    have hst : Beside { c.st with pdatalen := none } { c.st with
        trace := c.st.trace ++ [.writeStream id]
        conn.lastTs := ts
        pdatalen := none } :=
      .trans (.emit (e := .writeStream id) rfl) (.of_conn rfl rfl rfl rfl rfl)
    refine wp_mono (connWriteVmsg_told hG.toClosed h₁ hp hidle hf hshut
      (hvmsg.imp_left And.left))
      (fun _ t ht => ?_) fun e t ht => ?_
    · exact hexact hst rfl hf hshut (.inl ht) (by simp) hle hcle
    · refine hexact hst rfl hf hshut ht.1 (fun he => ?_) hle hcle
      cases he
      exact ht.2 rfl
  · rintro e t ⟨rfl, rfl, -⟩
    exact ⟨by simp, fun _ => ⟨⟨_, rfl, fun _ h => List.mem_singleton.1 h ▸ rfl⟩, rfl, s, hf, rfl⟩,
      by simp, fun _ => rfl⟩

/-- A server knows how many streams it may open from decoded parameters and frames. -/
def Cfg.UniOk (c : Cfg) : Prop := c.conn.server = true → c.conn.tx.uni.maxStreams ≤ maxStreams

theorem Step.uniOk {quiet : Prop} {l : Label} {c c' : Cfg} (h : Step quiet l c c')
    (hu : c.UniOk) : c'.UniOk := by
  intro hserver
  rw [h.server] at hserver
  cases h with
  | strm hs hc =>
    dsimp only
    rw [hc.rest, hs.frame]
    exact hu hserver
  | rxParams params _ _ _ _ _ hb => exact hb.maxStreamsUni
  | accept =>
    rw [Conn.setIdtr_eq]
    exact hu hserver
  | recvMaxStreamsUni _ _ _ hle => exact hle
  | set0rtt hclient => cases hserver.symm.trans hclient
  | reject hclient => cases hserver.symm.trans hclient
  | _ => exact hu hserver

/-- The identifier of a stream is not the one that stands for none. -/
theorem ne_noStream {c : Cfg} (hI : Inv c) (hu : c.UniOk)
    (hf : c.conn.strms.find id = some s) : id ≠ noStream := by
  rintro rfl
  have hlocal : c.conn.localStream noStream = (true == c.conn.server) := rfl
  cases hserver : c.conn.server with
  | true =>
    rw [hserver] at hlocal
    have hlt : noStream < c.conn.tx.uni.nextStreamId := hI.ids.localId _ s hf hlocal
    have hle := hI.ids.uniLimit.trans (hu hserver)
    have : noStream = 2 ^ 64 - 1 := rfl
    have : maxStreams = 2 ^ 60 := rfl
    omega
  | false =>
    rw [hserver] at hlocal
    exact absurd (hI.ids.remoteId _ s hf hlocal).1 (by decide)

/-- A call of `dwnx_conn_writev_stream` accounts for what it writes. -/
theorem writevStream_exact {server : Bool} {settings : Settings} {params : TransportParams}
    {e : Endp} (hp : env.Passive) (h : Run env server settings params e)
    (hf : e.st.conn.findStream id = some s) (hshut : s.flags.shutWr = false) {ts : ℕ}
    (hts : e.st.conn.lastTs ≤ ts) (destlen : ℕ) (finFlag : Bool) (datav : Vecs) :
    WritevExact e.st ((Call.writevStream destlen finFlag id datav ts).run env e).2.st
      ((Call.writevStream destlen finFlag id datav ts).run env e).1 destlen id s finFlag datav := by
  obtain ⟨c, hc, hs, hu⟩ := h.keep (P := Cfg.UniOk)
    (fun _ => Nat.zero_le _) fun _ _ _ _ hu hstep => hstep.uniOk hu
  have hf : c.conn.strms.find id = some s := by
    rw [Cfg.conn, ← hc.st]
    exact hf
  have hts : c.conn.lastTs ≤ ts := by
    rw [Cfg.conn, ← hc.st]
    exact hts
  have hspec := @connWritevStream_exact env id s finFlag datav _ c destlen ts
    (Steps.timed (h.sound_new _)) hc.mem hp hc.between.pending hf hshut (ne_noStream hs.toInv hu hf)
    hts
  have hrun : (Call.writevStream destlen finFlag id datav ts).run env e =
      ((connWritevStream destlen finFlag id datav ts env e.st).1,
        { e with st := (connWritevStream destlen finFlag id datav ts env e.st).2 }) := rfl
  rw [← hc.st] at hspec
  rw [hrun]
  cases hx : connWritevStream destlen finFlag id datav ts env e.st with
  | mk r t =>
    cases r with
    | ok record => exact hspec.of_ok hx
    | error err => exact hspec.of_error hx

/-- Three bytes and the end of a stream. -/
def writeCall : Call := .writevStream 100 true 0 [[1, 2], [3]] 0

/-- A client with a stream that takes them. -/
def openRun : RunTo Env.quiet fun e => (e.st.conn.findStream 0).any (·.flags.shutWr = false) &&
    e.st.conn.lastTs == 0 && (writeCall.run Env.quiet e).2.st.pdatalen == some 3 where
  calls := [.app .openBidiStream]
  any := by decide +kernel

theorem writevStream_exact_data : ∃ e s, Run Env.quiet false smallSettings smallParams e ∧
    Accounted (e.st.opened 100)
      ((Call.writevStream 100 true 0 [[1, 2], [3]] 0).run Env.quiet e).2.st 0 s true [[1, 2], [3]]
      3 := by
  obtain ⟨e, h, hp⟩ := openRun.exists_run
  simp only [Bool.and_eq_true, beq_iff_eq, Option.any_eq_true, decide_eq_true_eq] at hp
  obtain ⟨⟨⟨s, hf, hs⟩, hts⟩, hk⟩ := hp
  exact ⟨e, s, h, (writevStream_exact Env.quiet_passive h hf hs hts.le 100 true
    [[1, 2], [3]]).written
    3 hk⟩

end Dwnx
