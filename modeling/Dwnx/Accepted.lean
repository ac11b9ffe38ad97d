import Dwnx.Hearing
import Dwnx.Logged
import Dwnx.Lts.Sending

/-!
# The data that is sent and accepted

* `sent_in_order`: the data of a stream is sent in order, without a gap, until its end;
* `accepted_exact`: the data that the calls of an application were told is accepted is
  the data of the STREAM frames encoded, frame by frame and in the same order.

The callbacks and the bookkeeping between the two may fail; then the call fails, and the
connection is of no use any more.
-/

namespace Dwnx

open Exec

variable {env : Env} {quiet : Prop} {c c' : Cfg} {l : Label} {trace evs : List Event}
  {id : ℕ} {s s' : Strm} {pushed : Bool} {e e' : Endp} {server : Bool} {settings : Settings}
  {params : TransportParams}

/-! ## Histories -/

/-- The data of a STREAM frame encoded, and whether it is the end of the stream. -/
def Event.streamData? : Event → Option (ℕ × List UInt8 × Bool)
  | .txFr (.stream fr) => some (fr.streamId, fr.data.flatten.take fr.len, fr.fin)
  | _ => none

/-- What was accepted of a stream. -/
def Event.accepted? : Event → Option (ℕ × List UInt8 × Bool)
  | .accepted id data fin => some (id, data, fin)
  | _ => none

/-- The data of the STREAM frames encoded. -/
def streamsSent (trace : List Event) : List (ℕ × List UInt8 × Bool) :=
  trace.filterMap Event.streamData?

/-- The data accepted. -/
def streamsAccepted (trace : List Event) : List (ℕ × List UInt8 × Bool) :=
  trace.filterMap Event.accepted?

/-- What is encoded and not accepted yet, after the event. -/
def Event.owes (o : Option (ℕ × List UInt8 × Bool)) (e : Event) :
    Option (ℕ × List UInt8 × Bool) :=
  match e.streamData?, e.accepted? with
  | some x, _ => some x
  | none, some _ => none
  | none, none => o

/-- What is encoded and not accepted yet. -/
def owed (trace : List Event) : Option (ℕ × List UInt8 × Bool) := trace.foldl Event.owes none

/-- The event is about a STREAM frame. -/
def Event.isStreamData (e : Event) : Bool := e.streamData?.isSome

/-- Where what is accepted is what was owed, at most one frame is encoded and nothing is
    owed at the end, all that is encoded is accepted. -/
theorem streamsSent_eq {o : Option (ℕ × List UInt8 × Bool)}
    (hcount : evs.countP Event.isStreamData + o.toList.length ≤ 1)
    (hacc : Along (fun pre e => ∀ x, e.accepted? = some x → pre.foldl Event.owes o = some x) evs)
    (hend : evs.foldl Event.owes o = none) :
    o.toList ++ streamsSent evs = streamsAccepted evs := by
  induction evs generalizing o with
  | nil =>
    obtain rfl : o = none := hend
    rfl
  | cons e evs ih =>
    have hfirst (x : ℕ × List UInt8 × Bool) (h : e.accepted? = some x) : o = some x :=
      hacc [] e evs rfl x h
    have hrest : Along (fun pre e' => ∀ x, e'.accepted? = some x →
        pre.foldl Event.owes (Event.owes o e) = some x) evs := by
      rw [← List.singleton_append] at hacc
      exact (along_append.1 hacc).2
    rw [List.countP_cons] at hcount
    rw [streamsSent, streamsAccepted, List.filterMap_cons, List.filterMap_cons]
    rw [List.foldl_cons] at hend
    have ih := @ih (Event.owes o e)
    cases hdata : e.streamData? with
    | some x =>
      -- the first frame: nothing was owed
      have hone : e.isStreamData = true := by rw [Event.isStreamData, hdata]; rfl
      rw [if_pos hone] at hcount
      obtain rfl : o = none := by
        cases o with
        | none => rfl
        | some y => exact absurd hcount (by simp)
      have howes : Event.owes none e = some x := by rw [Event.owes, hdata]
      have hnot : e.accepted? = none := Option.eq_none_iff_forall_ne_some.2 fun y hy => by
        cases hfirst y hy
      rw [howes] at ih hend hrest
      rw [hnot]
      exact ih (by simpa using hcount) hrest hend
    | none =>
      have hnone : e.isStreamData = false := by rw [Event.isStreamData, hdata]; rfl
      rw [hnone] at hcount
      cases hacc' : e.accepted? with
      | some x =>
        obtain rfl := hfirst x hacc'
        have howes : Event.owes (some x) e = none := by rw [Event.owes, hdata, hacc']
        rw [howes] at ih hend hrest
        have hzero : evs.countP Event.isStreamData = 0 := by simpa using hcount
        exact congrArg (x :: ·) (ih (by rw [hzero]; exact Nat.zero_le 1) hrest hend)
      | none =>
        have howes : Event.owes o e = o := by rw [Event.owes, hdata, hacc']
        rw [howes] at ih hend hrest
        exact ih (by simpa using hcount) hrest hend

/-! ## Steps -/

/-- What is owed is what the configuration says, and only that is accepted. -/
structure Cfg.OwedOk (c : Cfg) : Prop where
  owed : owed c.st.trace = c.unaccepted
  accepted : Along (fun pre e => ∀ x, e.accepted? = some x → Dwnx.owed pre = some x) c.st.trace

/-- The event is about no data that is sent. -/
def Event.Owing (e : Event) : Prop := e.streamData? = none ∧ e.accepted? = none

/-- Other events owe nothing. -/
theorem owed_append (h : ∀ e ∈ evs, e.Owing) : owed (trace ++ evs) = owed trace := by
  rw [owed, List.foldl_append]
  change evs.foldl Event.owes (owed trace) = owed trace
  induction evs with
  | nil => rfl
  | cons e evs ih =>
    obtain ⟨hdata, hacc⟩ := h e List.mem_cons_self
    have howes : Event.owes (owed trace) e = owed trace := by rw [Event.owes, hdata, hacc]
    rw [List.foldl_cons, howes]
    exact ih fun e he => h e (List.mem_cons_of_mem _ he)

/-- A step that sends no data leaves what is owed. -/
theorem Cfg.OwedOk.of_same (hc : c.OwedOk) (evs : List Event)
    (htrace : c'.st.trace = c.st.trace ++ evs) (hevs : ∀ e ∈ evs, e.Owing)
    (hun : c'.unaccepted = c.unaccepted) : c'.OwedOk where
  owed := by rw [htrace, owed_append hevs, hc.owed, hun]
  accepted := by
    rw [htrace]
    refine hc.accepted.append fun e he pre x hx => ?_
    cases (hevs e he).2.symm.trans hx

/-- A plain event owes nothing. -/
theorem Event.Plain.owing {e : Event} (he : e.Plain) : e.Owing := by
  cases e with
  | txFr fr => cases fr <;> first
    | exact he.elim
    | exact ⟨rfl, rfl⟩
  | accepted => exact he.elim
  | _ => exact ⟨rfl, rfl⟩

/-- A step of a stream leaves what is owed. -/
theorem StrmStep.owedOk (h : StrmStep quiet c id s s' pushed c') (hc : c.OwedOk) : c'.OwedOk := by
  cases h <;> first
    | exact hc.of_same [] (List.append_nil _).symm (by simp) rfl
    | exact hc.of_same [_] rfl (by simp [Event.Owing, Event.streamData?, Event.accepted?]) rfl

/-- A step that sends data owes its acceptance until it is logged. -/
theorem Step.owedOk (h : Step quiet l c c') (hc : c.OwedOk) : c'.OwedOk := by
  cases h with
  | strm hs hch => exact (hs.owedOk hc).of_same [] (List.append_nil _).symm (by simp) rfl
  | event e he =>
    exact hc.of_same [e] rfl (fun _ h => List.mem_singleton.1 h ▸ he.owing) rfl
  | txStream q fr hp hw hf hid =>
    have howed : owed (c.st.trace ++ [.txFr (.stream fr)]) =
        some (fr.streamId, fr.data.flatten.take fr.len, fr.fin) := by
      rw [owed, List.foldl_append]
      rfl
    refine ⟨?_, along_concat.2 ⟨hc.accepted, by rintro _ ⟨⟩⟩⟩
    rw [← hid]
    exact howed
  | accepted hp hun =>
    refine ⟨?_, along_concat.2 ⟨hc.accepted, fun x hx => ?_⟩⟩
    · change owed (c.st.trace ++ [_]) = none
      rw [owed, List.foldl_append]
      rfl
    · cases hx
      exact hc.owed.trans hun
  | _ =>
    first
    | exact hc.of_same [] (List.append_nil _).symm (by simp) rfl
    | exact hc.of_same [_] rfl
        (by simp [Event.Owing, Event.streamData?, Event.accepted?, Strm.closeEvent]) rfl
    | exact hc.of_same [_, _] rfl
        (by simp [Event.Owing, Event.streamData?, Event.accepted?]) rfl

/-! ## Calls -/

instance : Kind fun e => e.isStreamData = false where
  quiet {e} h := by
    cases e with
    | txFr => cases h
    | _ => rfl

/-- A control frame has no data of a stream. -/
theorem isStreamData_of_control {fr : Frame} (h : fr.hasData = false) :
    (Event.txFr fr).isStreamData = false := by
  cases fr with
  | stream => cases h
  | _ => rfl

/-- One STREAM frame is written, and then only control frames. -/
theorem logsUpTo_writeStreamData (finFlag : Bool) (datav : Vecs) (ndatalen wdatalen : ℕ) :
    LogsUpTo Event.isStreamData 1 env (writeStreamData id finFlag datav ndatalen wdatalen) := by
  have hend (fin : Bool) : MovesAdds (fun e => e.isStreamData = false) env (do
      emit (.accepted id (datav.flatten.take wdatalen) fin)
      modify fun st => { st with pdatalen := some wdatalen }) :=
    (movesAdds_of_emits (movesEmits_log (by rfl) (by rfl))).bind fun _ =>
      .modify fun _ => .of_trace rfl
  have hclose : MovesAdds (fun e => e.isStreamData = false) env (connCloseStreamIfShutRdwr id) :=
    movesAdds_of_emits movesEmits_connCloseStreamIfShutRdwr
  have hblocked : MovesAdds (fun e => e.isStreamData = false) env (writeBlocked id) :=
    movesAdds_of_emits (movesEmits_writeBlocked fun _ _ h => isStreamData_of_control h)
  have hmodify (f : Strm → Strm) : MovesAdds (fun e => e.isStreamData = false) env
      (modifyStrm id f) := movesAdds_of_emits (movesEmits_modifyStrm f)
  refine .bind (movesAdds_of_emits movesEmits_deref) fun s => .bind_none ?_ fun _ => ?_
  · exact .tryCatch (.encodeFrame _) fun _ => .throw trivial
  refine (movesAdds_of_emits (movesEmits_callback rfl)).bind fun _ =>
    (hmodify _).bind fun _ => (movesAdds_modifyConn _).bind fun _ => ?_
  dsimp only
  exact .ite ((hmodify _).bind fun _ => hclose.bind fun _ => hend _)
    ((Moves.when hblocked).bind fun _ => hend _)

/-- A message has at most one STREAM frame. -/
theorem logsUpTo_writeVmsg (vmsg : Vmsg) : LogsUpTo Event.isStreamData 1 env (writeVmsg vmsg) := by
  refine .bind_none (.isNobuf ?_) fun _ => .when <| Moves.bind .get fun _ =>
    .ite (.throw trivial) (.pure _)
  cases vmsg with
  | datagram data =>
    refine .of_none (Moves.bind ?_ fun _ => .modify fun _ => .of_trace rfl)
    exact movesAdds_of_emits (movesEmits_encodeFrame rfl)
  | stream id finFlag data =>
    have hblocked : MovesAdds (fun e => e.isStreamData = false) env (writeStreamNoCredit id) :=
      (movesAdds_of_emits (movesEmits_writeBlocked fun _ _ h => isStreamData_of_control h)).bind
        fun _ => (movesAdds_of_emits movesEmits_deref).bind fun _ =>
          .ite (.throw trivial) (.pure _)
    refine .bind (movesAdds_of_emits (movesEmits_emit rfl)) fun _ =>
      .bind (movesAdds_of_emits movesEmits_deref) fun _ => .bind .get fun _ =>
        .ite (.of_none hblocked) (.bind (movesAdds_ofExcept _) fun r => ?_)
    cases r with
    | none => exact .throw _
    | some _ => exact .ite (.throw _) (logsUpTo_writeStreamData _ _ _ _)

/-- A rejection sends no data. -/
theorem movesAdds_connTlsEarlyDataRejected :
    MovesAdds (fun e => e.isStreamData = false) env connTlsEarlyDataRejected := by
  have hassert (a : Assertion) (p : Prop) [Decidable p] :
      MovesAdds (fun e => e.isStreamData = false) env (assertThat a p) :=
    movesAdds_of_emits (movesEmits_assertThat a p)
  refine Moves.bind .get fun _ => (hassert _ _).bind fun _ => Moves.bind .get fun _ =>
    .ite (.pure _) ?_
  refine (movesAdds_of_emits (movesEmits_log (by rfl) (by rfl))).bind fun _ =>
    (movesAdds_modifyConn _).bind fun _ => ?_
  exact Moves.bind .get fun _ => (hassert _ _).bind fun _ => Moves.bind .read fun _ =>
    Moves.bind .get fun _ => (movesAdds_modifyConn _).bind fun _ => .modify fun _ => .of_trace rfl

/-- A call that closes the connection encodes at most one STREAM frame. -/
theorem wp_connWriteConnectionClose_adds (destlen : ℕ) (ccerr : Ccerr) (ts : ℕ) :
    wp (connWriteConnectionClose destlen ccerr ts)
      (fun _ e' => AddsUpTo Event.isStreamData 1 e.st e'.st)
      (fun _ e' => AddsUpTo Event.isStreamData 1 e.st e'.st) env e := by
  have htime : MovesAdds (fun e => e.isStreamData = false) env (connUpdateTimestamp ts) :=
    movesAdds_of_emits (movesEmits_connUpdateTimestamp ts)
  rw [connWriteConnectionClose, wp_bind, wp_liftM]
  refine wp_mono (htime e.st) (fun _ t ht => ?_) fun _ _ h => h.1.upTo
  have hsame : AddsUpTo Event.isStreamData 1 e.st t := ht.upTo
  have hclose : AddsUpTo Event.isStreamData 1 e.st
      { t with trace := t.trace ++ [.txFr (.connectionClose ccerr.frame)] } :=
    hsame.after ⟨_, rfl, fun _ h => List.mem_singleton.1 h ▸ rfl⟩
  rw [wp_bind, wp_get', wp_ite]
  split
  · exact hsame
  rw [wp_ite]
  split
  · exact hsame
  rw [wp_ite]
  split
  · exact hsame
  rw [wp_bind, wp_ofExcept]
  split
  · rw [wp_bind, wp_ofExcept]
    split
    · rw [wp_bind, wp_liftM, wp_emit, wp_bind, wp_ofExcept]
      split
      · exact hclose
      · exact hclose
    · exact hsame
  · exact hsame

/-- A call writes one STREAM frame at most. -/
theorem Call.addsStreamData (h : Run env server settings params e) {call : Call}
    (hl : call.Legal e) {r : Except Err (List UInt8)} (hrun : call.run env e = (r, e'))
    (hr : call.Continues r) :
    AddsUpTo Event.isStreamData 1 e.st e'.st := by
  have hplain (hclose : ∀ destlen ccerr ts, call ≠ .writeConnectionClose destlen ccerr ts)
      (hreject : call ≠ .tlsEarlyDataRejected) (hread : ∀ data ts, call ≠ .read data ts) :
      AddsUpTo Event.isStreamData 1 e.st e'.st :=
    (Call.addsUpTo (fun _ _ h => isStreamData_of_control h) (fun _ => rfl)
      (fun vmsg _ => logsUpTo_writeVmsg vmsg) ⟨hl, hclose, hreject⟩ hread hrun).1
  cases call with
  | read data ts =>
    cases r with
    | error err => exact absurd rfl (hr.2 data ts)
    | ok record =>
      refine ((h.hears hrun).mono fun ev hev => ?_).adds.upTo
      cases ev with
      | txFr => cases hev
      | _ => rfl
  | writeConnectionClose destlen ccerr ts =>
    have hwp := @wp_connWriteConnectionClose_adds env e destlen ccerr ts
    cases r with
    | ok record => exact hwp.of_ok hrun
    | error err => exact hwp.of_error hrun
  | tlsEarlyDataRejected =>
    refine (addsUpTo_of_call (.of_none ?_) hrun).1
    exact movesAdds_connTlsEarlyDataRejected.bind fun _ => .pure _
  | _ => exact hplain (by rintro _ _ _ ⟨⟩) (by rintro ⟨⟩) (by rintro _ _ ⟨⟩)

/-! ## Runs -/

/-- Between calls, the data sent is the data accepted: what a call adds to the one it adds to
    the other, since nothing is owed before or after it. -/
theorem Run.streamsSent_eq (h : Run env server settings params e) :
    streamsSent e.st.trace = streamsAccepted e.st.trace := by
  obtain ⟨hasserted, hreach⟩ := h.init
  induction hreach with
  | init => rfl
  | @call e e' call r hreach hl hrun hr ih =>
    have hprev : Run env server settings params e :=
      ⟨⟨_, if_pos hasserted, hreach⟩, h.uni⟩
    have hmatched {e : Endp} (h : Run env server settings params e) :
        Along (fun pre ev => ∀ x, ev.accepted? = some x → owed pre = some x) e.st.trace ∧
          owed e.st.trace = none := by
      obtain ⟨c, hat, -, hc⟩ := h.keep (P := Cfg.OwedOk) ⟨rfl, along_nil⟩
        fun _ _ _ _ hc hstep => hstep.owedOk hc
      rw [hat.st]
      exact ⟨hc.accepted, hc.owed.trans hat.between.unaccepted⟩
    obtain ⟨evs, htrace, hcount⟩ := Call.addsStreamData hprev hl hrun hr
    obtain ⟨hacc, hend⟩ := hmatched (hprev.call hl hrun hr)
    have hnone := (hmatched hprev).2
    -- nothing is owed before the call, and nothing after it
    rw [htrace] at hacc hend
    have hacc := (along_append.1 hacc).2
    simp only [owed, List.foldl_append] at hacc hend hnone
    rw [hnone] at hend
    have hevs : streamsSent evs = streamsAccepted evs := by
      refine Dwnx.streamsSent_eq (o := none) hcount ?_ hend
      exact hacc.mono fun pre ev h x hx => by rw [← hnone]; exact h x hx
    rw [htrace, streamsSent, streamsAccepted, List.filterMap_append, List.filterMap_append]
    exact congrArg₂ _ (ih hprev) hevs

/-- Between calls, the data of the STREAM frames encoded is the data that was accepted. -/
theorem accepted_exact (h : Run env server settings params e) :
    streamsSent e.st.trace = streamsAccepted e.st.trace :=
  h.streamsSent_eq

/-- A client writes to a stream twice, and ends it. -/
def twiceRun : RunTo Env.quiet fun e =>
    streamsSent e.st.trace == [(0, [1, 2, 3], false), (0, [4], true)] &&
      (e.st.conn.findStream 0).any (·.tx.offset == 4) where
  calls := [.app .openBidiStream, .writevStream 100 false 0 [[1, 2], [3]] 0,
    .writevStream 100 true 0 [[4]] 0]
  any := by decide +kernel

theorem accepted_exact_twice : ∃ e, Run Env.quiet false smallSettings smallParams e ∧
    streamsAccepted e.st.trace = [(0, [1, 2, 3], false), (0, [4], true)] := by
  obtain ⟨e, h, hp⟩ := twiceRun.exists_run
  rw [Bool.and_eq_true, beq_iff_eq] at hp
  exact ⟨e, h, (accepted_exact h).symm.trans hp.1⟩

/-! ## The order of data -/

/-- A new connection has sent nothing. -/
theorem Cfg.dataOk_new : (Cfg.new server settings params).DataOk where
  events := along_nil
  unused _ _ := ⟨rfl, by rintro ⟨_, ⟨⟩, _⟩⟩
  strm _ _ := by rintro ⟨⟩
  writing _ := by rintro ⟨⟩
  sent _ _ _ := by rintro ⟨⟩

/-- What was sent is well formed in every run. -/
theorem Run.dataOk (h : Run env server settings params e) :
    ∃ c, At (Steps env.Passive (Cfg.new server settings params)) e c ∧ c.DataOk := by
  obtain ⟨c, hat, -, hc⟩ := h.keep (P := Cfg.DataOk) Cfg.dataOk_new
    fun _ _ _ hs hc hstep => hstep.dataOk hs.toInv hc
  exact ⟨c, hat, hc⟩

/-- Whatever callbacks do, the data of a stream is sent in order, without a gap, and none is
    sent after the end of the stream. -/
theorem sent_in_order (h : Run env server settings params e) :
    Along Event.SentWell e.st.trace ∧
      ∀ id s, e.st.conn.findStream id = some s →
        (sentData (recent e.st.trace) id).length = s.tx.offset ∧
        (FinSent (recent e.st.trace) id → s.flags.shutWr = true) := by
  obtain ⟨c, hat, hc⟩ := h.dataOk
  have hidle : c.pending.NotSent := fun id len fin h => by
    cases hat.between.pending.symm.trans h
  rw [hat.st]
  refine ⟨hc.events, fun id s hf => ⟨?_, fun hfin => ?_⟩⟩
  · rw [(hc.strm id s hf).length, Cfg.inFlight_of_notSent hidle, Nat.add_zero]
  · refine ((hc.strm id s hf).fin hfin).resolve_right ?_
    rintro ⟨len, h⟩
    exact hidle id len true h

theorem sent_in_order_twice : ∃ e s, Run Env.quiet false smallSettings smallParams e ∧
    e.st.conn.findStream 0 = some s ∧ s.tx.offset = 4 ∧
    (sentData (recent e.st.trace) 0).length = s.tx.offset ∧ Along Event.SentWell e.st.trace := by
  obtain ⟨e, h, hp⟩ := twiceRun.exists_run
  rw [Bool.and_eq_true, Option.any_eq_true] at hp
  obtain ⟨-, s, hf, hoffset⟩ := hp
  obtain ⟨hsent, hstrm⟩ := sent_in_order h
  exact ⟨e, s, h, hf, beq_iff_eq.1 hoffset, (hstrm 0 s hf).1, hsent⟩

end Dwnx
