import Dwnx.Emit
import Dwnx.Lib.Duplex
import Dwnx.Scan

/-!
# What a connection puts out

All that the write functions put out is records, one after the other: each has the length
of its frames and then the frames, at least one and as many as its length can say.
Together they hold the frames that the connection logged as sent, in that order, but for
those of the record under construction (`endpoint_records`). The first frame of all is
the one with the transport parameters.
-/

namespace Dwnx

open Exec

variable {env : Env} {st t : St} {e e₀ e' : Endp} {inp out r : List UInt8}
  {done : List (List Frame)} {cur : List Frame} {α : Type}

/-! ## Records -/

/-- The record of some frames. -/
def recordOf (frs : List Frame) : List UInt8 := putTagged 2 (wireOf frs).length 0x40 ++ wireOf frs

/-- The bytes `out` are the records of `done`, and `cur` is in the record under
    construction. -/
structure Records (st : St) (out : List UInt8) (done : List (List Frame)) (cur : List Frame) :
    Prop where
  out : out = done.flatMap recordOf
  sent : sentFrames st.trace = done.flatten ++ cur
  full : ∀ frs ∈ done, frs ≠ [] ∧ (wireOf frs).length ≤ defaultMaxRecordSize
  idle : st.conn.tx.qre.started = false → cur = []
  frames : st.conn.tx.qre.started = true → st.conn.tx.qre.frames = wireOf cur
  room : st.conn.tx.qre.started = true →
    st.conn.tx.qre.frames.length ≤ st.conn.tx.qre.buflen - qreRecordlenSize
  buflen : st.conn.tx.qre.started = true →
    st.conn.tx.qre.buflen ≤ qreRecordlenSize + defaultMaxRecordSize
  encodable : ∀ fr ∈ sentFrames st.trace, fr.Encodable
  params : st.conn.flags.qxTransportParametersSent = true →
    ∃ frs, sentFrames st.trace = .qxTransportParameters st.conn.localParams :: frs ∧
      ∀ fr ∈ frs, fr.Ordinary
  noParams : st.conn.flags.qxTransportParametersSent = false → sentFrames st.trace = []

/-- A record is only ever under construction once the transport parameters are sent. -/
structure Recorded (st : St) (out : List UInt8) (done : List (List Frame)) (cur : List Frame) :
    Prop extends Records st out done cur where
  opened : st.conn.tx.qre.started = true → st.conn.flags.qxTransportParametersSent = true

/-- What has been put out is records. -/
def Recorded.Some (st : St) (out : List UInt8) : Prop := ∃ done cur, Recorded st out done cur

theorem Emits.nothing (h : Hears st t) :
    sentFrames t.trace = sentFrames st.trace ∧ t.conn.tx.qre.frames = st.conn.tx.qre.frames := by
  obtain ⟨evs, htrace, hframes, -, hall⟩ := h.frames
  have hnil : sentFrames evs = [] := List.filterMap_eq_nil_iff.2 fun e he => by
    have := hall e he
    cases e <;> first
      | rfl
      | cases this
  rw [htrace, hframes, sentFrames_append, hnil, List.append_nil, wireOf_nil, List.append_nil]
  exact ⟨rfl, rfl⟩

theorem Records.of_qre (h : Records st out done cur)
    (hsent : sentFrames t.trace = sentFrames st.trace)
    (hframes : t.conn.tx.qre.frames = st.conn.tx.qre.frames)
    (hroom : st.conn.tx.qre.frames.length ≤ st.conn.tx.qre.buflen - qreRecordlenSize →
      t.conn.tx.qre.frames.length ≤ t.conn.tx.qre.buflen - qreRecordlenSize)
    (hstarted : t.conn.tx.qre.started = st.conn.tx.qre.started)
    (hbuflen : t.conn.tx.qre.buflen = st.conn.tx.qre.buflen)
    (hparams : t.conn.localParams = st.conn.localParams)
    (hflag : t.conn.flags.qxTransportParametersSent = st.conn.flags.qxTransportParametersSent) :
    Records t out done cur where
  out := h.out
  sent := hsent.trans h.sent
  full := h.full
  idle hs := h.idle (hstarted ▸ hs)
  frames hs := hframes.trans (h.frames (hstarted ▸ hs))
  room hs := hroom (h.room (hstarted ▸ hs))
  buflen hs := hbuflen ▸ h.buflen (hstarted ▸ hs)
  encodable := hsent ▸ h.encodable
  params hs := hsent ▸ hparams ▸ h.params (hflag ▸ hs)
  noParams hs := hsent.trans (h.noParams (hflag ▸ hs))

/-- Nothing is encoded. -/
theorem Recorded.quiet (h : Recorded st out done cur) (he : Hears st t) :
    Recorded t out done cur where
  toRecords := h.toRecords.of_qre he.nothing.1 he.nothing.2 he.room he.started he.buflen
    he.localParams he.sent
  opened hs := by
    rw [he.sent]
    exact h.opened (he.started ▸ hs)

/-- Frames are added to the record under construction. -/
theorem Recorded.emits (h : Recorded st out done cur) (hs : st.conn.tx.qre.started = true)
    (he : Emits Event.Outward st t) : ∃ frs, Recorded t out done (cur ++ frs) := by
  obtain ⟨evs, htrace, hframes, henc, hall⟩ := he.frames
  have hsent : sentFrames t.trace = sentFrames st.trace ++ sentFrames evs := by
    rw [htrace, sentFrames_append]
  have hflag : t.conn.flags.qxTransportParametersSent = true := he.sent.trans (h.opened hs)
  refine ⟨sentFrames evs, ⟨h.out, ?_, h.full, ?_, ?_, ?_, ?_, ?_, ?_, ?_⟩, fun _ => hflag⟩
  · rw [hsent, h.sent, List.append_assoc]
  · intro hn
    rw [he.started, hs] at hn
    cases hn
  · intro _
    rw [hframes, h.frames hs, wireOf_append]
  · exact fun _ => he.room (h.room hs)
  · intro _
    rw [he.buflen]
    exact h.buflen hs
  · intro fr hfr
    rw [hsent, List.mem_append] at hfr
    exact hfr.elim (h.encodable fr) (henc fr)
  · intro _
    obtain ⟨frs, hfirst, hord⟩ := h.params (h.opened hs)
    refine ⟨frs ++ sentFrames evs, by rw [hsent, hfirst, he.localParams, List.cons_append], ?_⟩
    intro fr hfr
    exact (List.mem_append.1 hfr).elim (hord fr) fun hfr =>
      hall _ (mem_sentFrames.1 hfr)
  · intro hn
    rw [hflag] at hn
    cases hn

/-! ## Writing -/

/-- What `x` puts out is added to the records, unless it fails. -/
abbrev WritesRecords (env : Env) (x : M (List UInt8)) : Prop := ∀ st out, Recorded.Some st out →
  wp x (fun r t => Recorded.Some t (out ++ r)) (fun _ t => Recorded.Some t out) env st

/-- A computation that encodes frames of a record that is started. -/
theorem Recorded.moves {x : M α} (h : Recorded st out done cur)
    (hs : st.conn.tx.qre.started = true) (hx : MovesEmits Event.Outward env x) :
    wp x (fun _ t => t.conn.tx.qre.started = true ∧ ∃ cur', Recorded t out done cur')
      (fun _ t => Recorded.Some t out) env st := by
  refine wp_mono (hx st) (fun _ t ht => ?_) fun _ t ht => ?_
  · obtain ⟨frs, hfrs⟩ := h.emits hs ht
    exact ⟨ht.started.trans hs, cur ++ frs, hfrs⟩
  · obtain ⟨frs, hfrs⟩ := h.emits hs ht.1
    exact ⟨done, cur ++ frs, hfrs⟩

theorem Qre.start_ok {buflen : ℕ} {q : Qre} (h : Qre.start buflen = .ok q) :
    q.started = true ∧ q.frames = [] ∧ q.buflen ≤ qreRecordlenSize + defaultMaxRecordSize := by
  unfold Qre.start at h
  split at h
  · cases h
  · cases h
    exact ⟨rfl, rfl, Nat.min_le_right _ _⟩

/-- A record is started, with the transport parameters unless they were sent before. -/
theorem startRecord_records (destlen : ℕ) (h : Recorded st out done cur)
    (hs : st.conn.tx.qre.started = false) :
    wp (startRecord destlen)
      (fun _ t => t.conn.tx.qre.started = true ∧ ∃ cur', Recorded t out done cur')
      (fun _ t => Recorded.Some t out) env st := by
  rw [startRecord, wp_bind, wp_ofExcept]
  cases hq : Qre.start destlen with
  | error err => exact ⟨done, cur, h⟩
  | ok q =>
    obtain ⟨hstarted, hframes, hbuflen⟩ := Qre.start_ok hq
    -- Between records, all frames are in one.
    have hcur : sentFrames st.trace = done.flatten := by
      rw [h.sent, h.idle hs, List.append_nil]
    -- The control frames come next, or as many as there is room for.
    have hctrl {t : St} (cur' : List Frame) (ht : Recorded t out done cur')
        (hs' : t.conn.tx.qre.started = true) :
        wp (isNobuf connWriteCtrlFrames)
          (fun _ t => t.conn.tx.qre.started = true ∧ ∃ cur', Recorded t out done cur')
          (fun _ t => Recorded.Some t out) env t :=
      ht.moves hs' (movesEmits_isNobuf (movesEmits_connWriteCtrlFrames fun _ h _ => h))
    dsimp only
    rw [wp_bind, wp_modifyConn, wp_bind, wp_get', wp_bind, wp_when]
    split
    -- The first record starts with the transport parameters.
    · next hflag =>
      have hflag : st.conn.flags.qxTransportParametersSent = false := by simpa using hflag
      have hnone := h.noParams hflag
      have hdone : done.flatten = [] := hcur.symm.trans hnone
      rw [wp_bind, wp_tryCatch, connWriteTransportParams, wp_bind, wp_get']
      refine wp_encodeFrame_of (fun q' hq' => ?_) fun err _ => ?_
      · obtain ⟨henc, hroom, rfl⟩ := Qre.encodeFrame_iff.1 hq'
        have hsent (conn : Conn) : sentFrames (St.trace { st with
            conn := conn
            trace := st.trace ++ [.txFr (.qxTransportParameters st.conn.localParams)] }) =
            [.qxTransportParameters st.conn.localParams] := by
          change sentFrames (st.trace ++ _) = _
          rw [sentFrames_append, hnone]
          rfl
        rw [wp_modifyConn]
        refine hctrl [.qxTransportParameters st.conn.localParams] ?_ hstarted
        refine ⟨⟨h.out, ?_, h.full, ?_, ?_, ?_, fun _ => hbuflen, ?_, ?_, by rintro ⟨⟩⟩,
          fun _ => rfl⟩
        · rw [hsent, hdone, List.nil_append]
        · intro hn
          exact absurd (hstarted.symm.trans hn) (by simp)
        · intro _
          change q.frames ++ _ = _
          rw [hframes, List.nil_append, wireOf, List.flatMap_singleton]
        · intro _
          rw [Qre.left] at hroom
          change (q.frames ++ _).length ≤ q.buflen - qreRecordlenSize
          change _ ≤ q.buflen - qreRecordlenSize - q.frames.length at hroom
          rw [hframes, List.nil_append]
          exact hroom.trans (Nat.sub_le _ _)
        · intro fr hfr
          rw [hsent, List.mem_singleton] at hfr
          exact hfr ▸ henc
        · exact fun _ => ⟨[], hsent _, by rintro _ ⟨⟩⟩
      · -- the record is given up, and nothing was encoded
        rw [wp_bind, wp_modifyConn, wp_throw]
        refine ⟨done, [], ⟨h.out, ?_, h.full, fun _ => rfl, by rintro ⟨⟩, by rintro ⟨⟩,
          by rintro ⟨⟩, h.encodable, h.params, h.noParams⟩, by rintro ⟨⟩⟩
        rw [hdone]
        exact hnone
    -- The record starts empty.
    · next hflag =>
      have hflag : st.conn.flags.qxTransportParametersSent = true := by simpa using hflag
      refine hctrl [] ?_ hstarted
      refine ⟨⟨h.out, ?_, h.full, fun _ => rfl, fun _ => hframes, ?_, fun _ => hbuflen,
        h.encodable, h.params, h.noParams⟩, fun _ => hflag⟩
      · rw [List.append_nil]
        exact hcur
      · intro _
        change q.frames.length ≤ _
        rw [hframes]
        exact Nat.zero_le _

/-- The record is finished, if there is anything in it. -/
theorem finalRecord_records (ts : ℕ) (h : Recorded st out done cur)
    (hs : st.conn.tx.qre.started = true) :
    wp (finalRecord ts) (fun r t => Recorded.Some t (out ++ r)) (fun _ t => Recorded.Some t out)
      env st := by
  have hframes := h.frames hs
  -- A frame has bytes, so a record without bytes has no frame.
  have hnil : st.conn.tx.qre.frames = [] → cur = [] := by
    intro hempty
    by_contra hne
    obtain ⟨fr, frs, rfl⟩ := List.exists_cons_of_ne_nil hne
    have hmem : fr ∈ sentFrames st.trace := by
      rw [h.sent]
      exact List.mem_append_right _ List.mem_cons_self
    obtain ⟨all, hall, hord⟩ := h.params (h.opened hs)
    have hpos : 0 < fr.wire.length := by
      rw [hall, List.mem_cons] at hmem
      refine Frame.wire_pos fun n hn => ?_
      rw [hn] at hmem
      exact hmem.elim (fun h => by cases h) fun h => (hord _ h).elim
    rw [hframes, wireOf, List.flatMap_cons, List.append_eq_nil_iff] at hempty
    rw [hempty.1] at hpos
    exact absurd hpos (Nat.lt_irrefl 0)
  -- Once the record is finished, no frame is left that is in none.
  have hdone {conn : Conn} (done' : List (List Frame)) {r : List UInt8}
      (hconn : conn.tx.qre.started = false) (hlocal : conn.localParams = st.conn.localParams)
      (hflag : conn.flags = st.conn.flags) (hout : out ++ r = done'.flatMap recordOf)
      (hsent : done'.flatten = done.flatten ++ cur)
      (hfull : ∀ frs ∈ done', frs ≠ [] ∧ (wireOf frs).length ≤ defaultMaxRecordSize) :
      Recorded.Some { st with conn := conn } (out ++ r) := by
    refine ⟨done', [], ⟨hout, ?_, hfull, fun _ => rfl, ?_, ?_, ?_, h.encodable, ?_, ?_⟩, ?_⟩
    · rw [List.append_nil, hsent]
      exact h.sent
    · exact fun h => absurd (hconn.symm.trans h) (by simp)
    · exact fun h => absurd (hconn.symm.trans h) (by simp)
    · exact fun h => absurd (hconn.symm.trans h) (by simp)
    · intro hf
      change ∃ frs, sentFrames st.trace = .qxTransportParameters conn.localParams :: frs ∧ _
      rw [hlocal]
      exact h.params (by rw [← hflag]; exact hf)
    · exact fun hf => h.noParams (by rw [← hflag]; exact hf)
    · exact fun h => absurd (hconn.symm.trans h) (by simp)
  rw [finalRecord, wp_bind, wp_get', wp_bind, wp_ofExcept]
  unfold Qre.final
  split
  · next record hrecord =>
    -- An empty record is not sent; any other is all frames since the last one.
    have hcases : record = [] ∧ cur = [] ∨ record = recordOf cur ∧ cur ≠ [] ∧
        (wireOf cur).length ≤ defaultMaxRecordSize := by
      split at hrecord
      · next hempty =>
        cases hrecord
        exact .inl ⟨rfl, hnil hempty⟩
      · next hne =>
        have hlen : st.conn.tx.qre.frames.length ≤ defaultMaxRecordSize := by
          have := h.room hs
          have := h.buflen hs
          omega
        -- The size of the record takes two bytes, as there is room for no more.
        rw [putUvarintw2, if_pos (by unfold defaultMaxRecordSize at hlen; omega)] at hrecord
        cases hrecord
        rw [hframes] at hlen hne ⊢
        refine .inr ⟨rfl, ?_, hlen⟩
        rintro rfl
        exact hne rfl
    have hall {conn : Conn} (hconn : conn.tx.qre.started = false)
        (hlocal : conn.localParams = st.conn.localParams) (hflag : conn.flags = st.conn.flags) :
        Recorded.Some { st with conn := conn } (out ++ record) := by
      rcases hcases with ⟨rfl, rfl⟩ | ⟨rfl, hne, hlen⟩
      · refine hdone done hconn hlocal hflag ?_ (List.append_nil _).symm h.full
        rw [List.append_nil]
        exact h.out
      · refine hdone (done ++ [cur]) hconn hlocal hflag ?_ ?_ ?_
        · rw [h.out, List.flatMap_append, List.flatMap_singleton]
        · rw [List.flatten_append, List.flatten_singleton]
        · intro frs hfrs
          rcases List.mem_append.1 hfrs with hfrs | hfrs
          · exact h.full frs hfrs
          · rw [List.mem_singleton] at hfrs
            exact hfrs ▸ ⟨hne, hlen⟩
    rw [wp_bind, wp_modifyConn, wp_bind, wp_when]
    split
    · exact hall rfl rfl rfl
    · exact hall rfl rfl rfl
  · exact ⟨done, cur, h⟩

/-- The last frames are added to the record, and it is finished. -/
theorem endRecord_records (ts : ℕ) (h : Recorded st out done cur)
    (hs : st.conn.tx.qre.started = true) :
    wp (do
      let _ ← isNobuf connWriteMaxStreams
      finalRecord ts) (fun r t => Recorded.Some t (out ++ r)) (fun _ t => Recorded.Some t out)
      env st := by
  rw [wp_bind]
  refine wp_mono (h.moves hs
    (movesEmits_isNobuf (movesEmits_connWriteMaxStreams fun _ h _ => h))) ?_ fun _ _ h => h
  intro _ t ht
  obtain ⟨hs', cur', h'⟩ := ht
  exact finalRecord_records ts h' hs'

/-- The message is written to the record, unless there is no room, and it is finished. -/
theorem vmsgRecord_records (ts : ℕ) (vmsg : Option Vmsg) (nobuf : Bool)
    (h : Recorded st out done cur) (hs : st.conn.tx.qre.started = true) :
    wp (do
      match vmsg with
        | none => pure ()
        | some vmsg => Exec.when (!nobuf) (writeVmsg vmsg)
      let _ ← isNobuf connWriteMaxStreams
      finalRecord ts) (fun r t => Recorded.Some t (out ++ r)) (fun _ t => Recorded.Some t out)
      env st := by
  cases vmsg with
  | none => exact endRecord_records ts h hs
  | some vmsg =>
    dsimp only
    rw [wp_bind]
    refine wp_mono (h.moves hs (.when (movesEmits_writeVmsg vmsg))) ?_ fun _ _ h => h
    intro _ t ht
    obtain ⟨hs', cur', h'⟩ := ht
    exact endRecord_records ts h' hs'

theorem writesRecords_connWriteVmsg (destlen : ℕ) (vmsg : Option Vmsg) (ts : ℕ) :
    WritesRecords env (connWriteVmsg destlen vmsg ts) := by
  intro st out hsome
  obtain ⟨done, cur, h⟩ := hsome
  rw [connWriteVmsg, wp_ite]
  split
  · exact ⟨done, cur, h⟩
  rw [wp_bind, wp_get', wp_ite]
  split
  · next hs => exact vmsgRecord_records ts vmsg false h hs
  · next hs =>
    rw [wp_bind]
    refine wp_mono (startRecord_records destlen h (by simpa using hs)) ?_ fun _ _ h => h
    intro nobuf t ht
    obtain ⟨hs', cur', h'⟩ := ht
    exact vmsgRecord_records ts vmsg nobuf h' hs'

/-! ## Calls -/

theorem Recorded.Some.quiet (h : Recorded.Some st out) (he : Hears st t) :
    Recorded.Some t out := by
  obtain ⟨done, cur, h⟩ := h
  exact ⟨done, cur, h.quiet he⟩

/-- Before a record is written, the call does something else. -/
theorem WritesRecords.bind {x : M α} {f : α → M (List UInt8)}
    (hx : MovesEmits (fun e => e.isInward = true) env x) (hf : ∀ a, WritesRecords env (f a)) :
    WritesRecords env (x >>= f) := by
  intro st out h
  rw [wp_bind]
  exact wp_mono (hx st) (fun a t ht => hf a t out (h.quiet ht)) fun _ t ht => h.quiet ht.1

/-- A call that puts nothing out. -/
theorem WritesRecords.none {x : M α} (hx : MovesEmits (fun e => e.isInward = true) env x) :
    WritesRecords env (do let _ ← x; return []) :=
  .bind hx fun _ st out h => by rwa [wp_pure, List.append_nil]

theorem WritesRecords.throw (err : Err) : WritesRecords env (throw err) := fun _ _ h => h

theorem movesEmits_connUpdateTimestamp {K : Event → Prop} (ts : ℕ) :
    MovesEmits K env (connUpdateTimestamp ts) :=
  Moves.bind .get fun _ => (movesEmits_assertThat _ _).bind fun _ =>
    movesEmits_modifyConn fun _ => .of_conn rfl rfl rfl rfl

theorem writesRecords_connWritevStream (destlen : ℕ) (finFlag : Bool) (streamId : ℕ)
    (datav : Vecs) (ts : ℕ) :
    WritesRecords env (connWritevStream destlen finFlag streamId datav ts) := by
  refine .bind (movesEmits_emit rfl) fun _ => .bind (movesEmits_connUpdateTimestamp ts) fun _ =>
    .bind (.modify fun _ => .outputs) fun _ => ?_
  intro st out h
  rw [wp_ite]
  split
  · exact writesRecords_connWriteVmsg destlen none ts st out h
  · rw [wp_bind]
    refine wp_mono streamVmsg_spec ?_ ?_
    · rintro vmsg _ ⟨rfl, -⟩
      exact writesRecords_connWriteVmsg destlen vmsg ts _ out h
    · rintro err _ ⟨rfl, -⟩
      exact h

theorem writesRecords_connWritevDatagram (destlen : ℕ) (datav : Vecs) (ts : ℕ) :
    WritesRecords env (connWritevDatagram destlen datav ts) := by
  refine .bind (movesEmits_emit rfl) fun _ => .bind (movesEmits_connUpdateTimestamp ts) fun _ => ?_
  intro st out h
  obtain ⟨done, cur, hrec⟩ := h
  have h : Recorded.Some { st with paccepted := false } out :=
    ⟨done, cur, hrec.toRecords.of_qre rfl rfl (fun h => h) rfl rfl rfl rfl, hrec.opened⟩
  rw [wp_bind, wp_modify, wp_bind, wp_get', wp_ite]
  split
  · exact h
  · cases vecLenVarint datav with
    | none => exact h
    | some datalen =>
      refine WritesRecords.bind (movesEmits_ofExcept _) (fun framelen => ?_) _ out h
      intro st out h
      rw [wp_ite]
      split
      · exact h
      · exact writesRecords_connWriteVmsg destlen _ ts st out h

/-- Reading encodes nothing. -/
theorem connRead_emits {G : Cfg → Prop} {c : Cfg} (hG : Timed env.Passive G)
    (hrx : ∀ l c c', G c → Step env.Passive l c c' → l ≠ .early → l ≠ .reject → G c')
    (h : At G e c) (data : List UInt8) (ts : ℕ) :
    wp (connRead data ts) (fun _ e' => Hears e.st e'.st) (fun _ _ => True)
      env e := by
  refine connRead_keep (I := fun e' _ => Hears e.st e'.st) hG hrx
    (fun e' p hat hp hkept => ?_) h (.of_conn rfl rfl rfl rfl)
  obtain ⟨c', hc'⟩ := hat
  rw [wp_connReadStep ts hc'.reader.ok.toReadable hp, Parsed.wp_run]
  refine wp_mono (perform_hears ts _ e'.st) (fun _ t ht => ?_)
    fun _ _ _ => trivial
  rw [wp_ofExcept]
  split
  · split
    · exact hkept.trans (ht.trans (.of_conn rfl rfl rfl rfl))
    · exact hkept.trans ht
  · trivial

/-- A call other than those that end the connection or its early data. -/
structure Call.Plain (call : Call) (e : Endp) : Prop where
  legal : call.Legal e
  close : ∀ destlen ccerr ts, call ≠ .writeConnectionClose destlen ccerr ts
  reject : call ≠ .tlsEarlyDataRejected

/-- What a call takes in. -/
def Call.takes : Call → List UInt8
  | .read data _ => data
  | _ => []

/-- What a call with this result puts out. -/
def written : Except Err (List UInt8) → List UInt8
  | .ok record => record
  | .error _ => []

/-- An endpoint, by the calls of its application that `P` allows. -/
def endpoint (env : Env) (P : Call → Endp → Prop) : Party Endp UInt8 where
  step e u v e' := ∃ call r, P call e ∧ call.run env e = (r, e') ∧ call.Continues r ∧
    u = call.takes ∧ v = written r

/-- The call is a plain one in every state. -/
def Call.isPlain : Call → Bool
  | .writeConnectionClose .. | .set0rttRemoteTransportParams _ | .tlsEarlyDataRejected => false
  | _ => true

theorem Call.plain_of_isPlain (call : Call) (e : Endp) (h : call.isPlain = true) :
    call.Plain e := by
  cases call with
  | writeConnectionClose | set0rttRemoteTransportParams | tlsEarlyDataRejected => cases h
  | _ => exact ⟨trivial, by rintro _ _ _ ⟨⟩, by rintro ⟨⟩⟩

/-- The step that a plain call makes, and what it puts out. -/
def Call.step? (env : Env) (call : Call) (e : Endp) : Option (Endp × List UInt8) :=
  if call.isPlain && call.continues (call.run env e).1 then
    some ((call.run env e).2, written (call.run env e).1)
  else none

theorem Call.step_of_step? {P : Call → Endp → Prop}
    (hP : ∀ call e, call.isPlain = true → P call e) {call : Call} {x : Endp × List UInt8}
    (h : call.step? env e = some x) : (endpoint env P).step e call.takes x.2 x.1 := by
  rw [Call.step?] at h
  split at h
  · next hc =>
    cases h
    rw [Bool.and_eq_true] at hc
    exact ⟨call, _, hP call e hc.1, rfl, Call.continues_iff hc.2, rfl, rfl⟩
  · cases h

/-- Carries out plain calls, with all that is put out. -/
def putOut (env : Env) : List Call → Endp → List UInt8 → Option (Endp × List UInt8)
  | [], e, out => some (e, out)
  | call :: calls, e, out =>
    match call.step? env e with
    | some x => putOut env calls x.1 (out ++ x.2)
    | none => none

theorem run_of_putOut {calls : List Call} {x : Endp × List UInt8}
    (h : (endpoint env Call.Plain).Run e₀ e inp out) (hx : putOut env calls e out = some x) :
    ∃ inp', (endpoint env Call.Plain).Run e₀ x.1 inp' x.2 := by
  induction calls generalizing e inp out with
  | nil =>
    cases hx
    exact ⟨inp, h⟩
  | cons call calls ih =>
    rw [putOut] at hx
    cases hcall : call.step? env e with
    | none =>
      rw [hcall] at hx
      cases hx
    | some y =>
      rw [hcall] at hx
      exact ih (h.step (Call.step_of_step? Call.plain_of_isPlain hcall)) hx

theorem exists_putOut {calls : List Call} {p : Endp × List UInt8 → Bool}
    (h : (putOut env calls e₀ []).any p = true) :
    ∃ e inp out, (endpoint env Call.Plain).Run e₀ e inp out ∧ p (e, out) = true := by
  obtain ⟨x, hx, hp⟩ := (Option.any_eq_true _ _).1 h
  obtain ⟨inp, hrun⟩ := run_of_putOut .refl hx
  exact ⟨x.1, inp, x.2, hrun, hp⟩

/-- What a call puts out is added, and a call that fails puts out nothing. -/
theorem Recorded.Some.of_wp {x : R (List UInt8)} {r : Except Err (List UInt8)}
    (hx : wp x (fun r e' => Recorded.Some e'.st (out ++ r)) (fun _ e' => Recorded.Some e'.st out)
      env e) (hrun : x env e = (r, e')) : Recorded.Some e'.st (out ++ written r) := by
  cases r with
  | ok record => exact hx.of_ok hrun
  | error err =>
    rw [written, List.append_nil]
    exact hx.of_error hrun

theorem WritesRecords.call {x : M (List UInt8)} (hx : WritesRecords env x)
    (h : Recorded.Some e.st out) {r : Except Err (List UInt8)}
    (hrun : liftM x env e = (r, e')) : Recorded.Some e'.st (out ++ written r) := by
  refine .of_wp ?_ hrun
  rw [wp_liftM]
  exact hx e.st out h

theorem writesRecords_app (call : AppCall) : WritesRecords env (do
    emit (.appCall call)
    connApply call
    return []) :=
  .bind (movesEmits_emit rfl) fun _ => .none (movesEmits_connApply call)

theorem movesEmits_connHandleExpiry {K : Event → Prop} (ts : ℕ) :
    MovesEmits K env (connHandleExpiry ts) :=
  (movesEmits_connUpdateTimestamp ts).bind fun _ => Moves.bind .get fun _ =>
    .ite (movesEmits_throw _) (.pure _)

theorem writesRecords_set0rtt (params : TransportParams) : WritesRecords env (do
    connSet0rttRemoteTransportParams params
    return []) :=
  .none <| Moves.bind .get fun _ => (movesEmits_assertThat _ _).bind fun _ =>
    movesEmits_modifyConn fun _ => .of_conn rfl rfl rfl rfl

/-- A call adds the records that it puts out. -/
theorem Recorded.Some.call {G : Cfg → Prop} {c : Cfg} (hG : Timed env.Passive G)
    (hrx : ∀ l c c', G c → Step env.Passive l c c' → l ≠ .early → l ≠ .reject → G c')
    (hat : At G e c) (h : Recorded.Some e.st out) {call : Call} (hP : call.Plain e)
    {r : Except Err (List UInt8)} (hrun : call.run env e = (r, e')) (hr : call.Continues r) :
    Recorded.Some e'.st (out ++ written r) := by
  cases call with
  | read data ts =>
    cases r with
    | error err => exact absurd rfl (hr.2 data ts)
    | ok record =>
      have hwp : wp (Call.run (.read data ts)) (fun r e' => Recorded.Some e'.st (out ++ r))
          (fun _ _ => True) env e := by
        rw [Call.run, wp_bind]
        refine wp_mono (connRead_emits hG hrx hat data ts) (fun _ e' he => ?_) fun _ _ h => h
        rw [wp_pure, List.append_nil]
        exact h.quiet he
      exact hwp.of_ok hrun
  | writevStream destlen finFlag streamId datav ts =>
    exact (writesRecords_connWritevStream destlen finFlag streamId datav ts).call h hrun
  | writevDatagram destlen datav ts =>
    exact (writesRecords_connWritevDatagram destlen datav ts).call h hrun
  | writeRecord destlen ts =>
    exact (writesRecords_connWritevStream destlen false noStream [] ts).call h hrun
  | writeConnectionClose destlen ccerr ts => exact absurd rfl (hP.close destlen ccerr ts)
  | handleExpiry ts =>
    refine .of_wp ?_ hrun
    rw [Call.run, wp_bind, wp_liftM]
    have hexpiry : MovesEmits (fun e => e.isInward = true) env (connHandleExpiry ts) :=
      movesEmits_connHandleExpiry ts
    refine wp_mono (hexpiry e.st) (fun _ t ht => ?_) fun _ t ht => h.quiet ht.1
    rw [wp_pure, List.append_nil]
    exact h.quiet ht
  | app call => exact (writesRecords_app call).call h hrun
  | set0rttRemoteTransportParams params => exact (writesRecords_set0rtt params).call h hrun
  | tlsEarlyDataRejected => exact absurd rfl hP.reject

section

variable {server : Bool} {settings : Settings} {params : TransportParams}

/-- The parameters pass the assertions, and are 64-bit integers. -/
structure Created (params : TransportParams) : Prop where
  asserted : params.Asserted
  uni : params.initialMaxStreamDataUni ≤ uint64Max
  maxIdleTimeout : params.maxIdleTimeout ≤ uint64Max
  maxDatagramFrameSize : params.maxDatagramFrameSize ≤ uint64Max

/-- A run of plain calls is a legal one. -/
theorem Created.run (hp : Created params)
    (h : (endpoint env Call.Plain).Run (.new server settings params) e inp out) :
    Run env server settings params e where
  created := by
    refine ⟨_, if_pos hp.asserted, ?_⟩
    induction h with
    | refl => exact .init
    | step _ hs ih =>
      obtain ⟨call, r, hP, hrun, hr, -, -⟩ := hs
      exact ih.call hP.legal hrun hr
  uni := hp.uni

/-- A call that reads logs what it hears. -/
theorem Run.hears (h : Run env server settings params e) {data record : List UInt8} {now : ℕ}
    {e' : Endp} (hrun : (Call.read data now).run env e = (.ok record, e')) : Hears e.st e'.st := by
  obtain ⟨c, hat, -⟩ := h.steps
  have hwp : wp (Call.run (.read data now)) (fun _ e' => Hears e.st e'.st) (fun _ _ => True)
      env e := by
    rw [Call.run, wp_bind]
    exact wp_mono (connRead_emits (Steps.timed (h.sound_new _)) (fun _ _ _ h hs _ _ => h.tail hs)
      hat data now) (fun _ _ h => h) fun _ _ h => h
  exact hwp.of_ok hrun

theorem recorded_new : Recorded.Some (Endp.new server settings params).st [] :=
  ⟨[], [], ⟨rfl, rfl, by rintro _ ⟨⟩, fun _ => rfl, by rintro ⟨⟩, by rintro ⟨⟩, by rintro ⟨⟩,
    by rintro _ ⟨⟩, by rintro ⟨⟩, fun _ => rfl⟩, by rintro ⟨⟩⟩

/-- All that an endpoint puts out is records, which hold the frames that it logs as sent. -/
theorem endpoint_recorded (hp : Created params)
    (h : (endpoint env Call.Plain).Run (.new server settings params) e inp out) :
    Recorded.Some e.st out := by
  refine h.keep (I := fun e _ out => Recorded.Some e.st out) recorded_new
    fun e _ out _ _ e' hrun hrec hs => ?_
  obtain ⟨call, r, hP, hcall, hr, -, rfl⟩ := hs
  have hrun := hp.run hrun
  obtain ⟨c, hc, -⟩ := hrun.steps
  exact hrec.call (Steps.timed (hrun.sound_new _)) (fun _ _ _ h hs _ _ => h.tail hs) hc hP hcall hr

/-- The frames of a record that is put out. -/
def Frame.Sendable (fr : Frame) : Prop :=
  fr.Supported ∧ ((∃ params, fr = .qxTransportParameters params) ∨ fr.Ordinary)

theorem TransportParams.inRange_of_writable (hp : Created params)
    (hw : TransportParams.Writable { params with maxRecordSize := defaultMaxRecordSize }) :
    TransportParams.InRange { params with maxRecordSize := defaultMaxRecordSize } := by
  obtain ⟨hlocal, hremote, hdata, hbidi, huni, -, -, -, -⟩ := hp.asserted
  have hparam {c : Prop} [Decidable c] {id v : ℕ} (hc : v ≠ 0 → c)
      (hmem : ∀ x ∈ param c id v, x.1 ≤ maxVarint ∧ x.2 ≤ maxVarint) : v ≤ maxVarint := by
    by_cases h0 : v = 0
    · exact h0.le.trans (Nat.zero_le _)
    · rw [param, if_pos (hc h0)] at hmem
      exact (hmem _ (List.mem_singleton_self _)).2
  have hsuni := @hparam _ _ TransportParamId.initialMaxStreamDataUni params.initialMaxStreamDataUni
    id fun x hx => hw x (by simp only [TransportParams.written, List.mem_append]; tauto)
  have hgram := @hparam _ _ TransportParamId.maxDatagramFrameSize params.maxDatagramFrameSize
    id fun x hx => hw x (by simp only [TransportParams.written, List.mem_append]; tauto)
  exact ⟨hbidi, huni, hlocal, hremote, hsuni, hdata, Nat.lt_succ_of_le hp.maxIdleTimeout,
    (by decide : defaultMaxRecordSize ≤ maxVarint), hgram⟩

/-- A frame of the kind that is sent, once its fields can be encoded, can be decoded. -/
theorem Frame.Ordinary.supported {fr : Frame} (h : fr.Ordinary) (henc : fr.Encodable) :
    fr.Supported := by
  have hv := henc.varints
  have hl := henc.lengths
  cases fr with
  | qxTransportParameters | padding | streamsBlocked | connectionClose => exact h.elim
  | qxPing fr => exact ⟨.inr h, hv _ (by simp [Frame.varints])⟩
  | resetStream fr =>
    exact ⟨hv _ (by simp [Frame.varints]), hv _ (by simp [Frame.varints]),
      hv _ (by simp [Frame.varints])⟩
  | stopSending fr => exact ⟨hv _ (by simp [Frame.varints]), hv _ (by simp [Frame.varints])⟩
  | stream fr =>
    refine ⟨hv _ (by simp [Frame.varints]), ?_, hv _ (by simp [Frame.varints]), hl⟩
    by_cases h0 : fr.offset = 0
    · exact h0.le.trans (Nat.zero_le _)
    · exact hv _ (by simp [Frame.varints, h0])
  | maxData fr => exact hv _ (by simp [Frame.varints])
  | maxStreamData fr => exact ⟨hv _ (by simp [Frame.varints]), hv _ (by simp [Frame.varints])⟩
  | maxStreams fr => exact ⟨h, hv _ (by simp [Frame.varints])⟩
  | dataBlocked fr => exact hv _ (by simp [Frame.varints])
  | streamDataBlocked fr => exact ⟨hv _ (by simp [Frame.varints]), hv _ (by simp [Frame.varints])⟩
  | datagram fr =>
    have htype : fr.type = FrameType.datagramLen := h
    exact ⟨.inr h, hv _ (by simp [Frame.varints, htype]), hl.symm⟩

/-- The frames that an endpoint logs as sent, the transport parameters first. -/
structure St.Sends (st : St) : Prop where
  sendable : ∀ fr ∈ sentFrames st.trace, fr.Sendable
  first : sentFrames st.trace = [] ∨
    ∃ frs, sentFrames st.trace = .qxTransportParameters st.conn.localParams :: frs ∧
      ∀ fr ∈ frs, fr.Ordinary

theorem Recorded.sends {done : List (List Frame)} {cur : List Frame} {st : St} (hp : Created params)
    (h : Recorded st out done cur)
    (hlocal : st.conn.localParams = { params with maxRecordSize := defaultMaxRecordSize }) :
    st.Sends := by
  cases hflag : st.conn.flags.qxTransportParametersSent with
  | false =>
    have hnone := h.noParams hflag
    exact ⟨by rw [hnone]; rintro _ ⟨⟩, .inl hnone⟩
  | true =>
    obtain ⟨frs, hfrs, hord⟩ := h.params hflag
    refine ⟨fun fr hfr => ?_, .inr ⟨frs, hfrs, hord⟩⟩
    have henc := h.encodable fr hfr
    rw [hfrs, List.mem_cons] at hfr
    rcases hfr with rfl | hfr
    · refine ⟨?_, .inl ⟨_, rfl⟩⟩
      have hw : st.conn.localParams.Writable := henc.lengths
      rw [hlocal] at hw ⊢
      exact TransportParams.inRange_of_writable hp hw
    · exact ⟨(hord fr hfr).supported henc, .inr (hord fr hfr)⟩

end

end Dwnx
