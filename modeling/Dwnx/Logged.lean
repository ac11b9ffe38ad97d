import Dwnx.Records

/-!
# What calls log

`Adds` relates states between which events of some kind were logged, and no others. A
call that writes logs control frames and quiet events, but for the message that it
writes, and that is one frame at most (`Call.addsOne`).
-/

namespace Dwnx

open Exec

variable {env : Env} {K : Event → Prop} {st t u : St} {id : ℕ} {α : Type} {e e' : Endp}

/-! ## The relation -/

/-- Events of the kind were logged, and no others. -/
def Adds (K : Event → Prop) (st t : St) : Prop :=
  ∃ evs, t.trace = st.trace ++ evs ∧ ∀ e ∈ evs, K e

/-- Nothing is logged. -/
theorem Adds.of_trace (h : t.trace = st.trace) : Adds K st t :=
  ⟨[], by rw [h, List.append_nil], by rintro _ ⟨⟩⟩

/-- The connection may change. -/
theorem Adds.of_conn (conn : Conn) : Adds K st { st with conn := conn } := .of_trace rfl

instance : IsPreorder St (Adds K) where
  refl st := .of_trace rfl
  trans a b d h h' := by
    obtain ⟨l, hl, hall⟩ := h
    obtain ⟨m, hm, hall'⟩ := h'
    refine ⟨l ++ m, by rw [hm, hl, List.append_assoc], fun e he => ?_⟩
    exact (List.mem_append.1 he).elim (hall e) (hall' e)

/-- What is logged along `Emits` is of the kind. -/
theorem Emits.adds (h : Emits K st t) : Adds K st t := by
  obtain ⟨evs, htrace, -, -, hall⟩ := h.frames
  exact ⟨evs, htrace, hall⟩

/-- A computation that logs events of the kind. -/
abbrev MovesAdds (K : Event → Prop) (env : Env) (x : M α) : Prop :=
  Moves (Adds K) (fun _ => True) env x

/-- A computation that moves along `Emits` logs events of the kind. -/
theorem movesAdds_of_emits {x : M α} (h : MovesEmits K env x) : MovesAdds K env x := fun st =>
  wp_mono (h st) (fun _ _ h => h.adds) fun _ _ h => ⟨h.1.adds, trivial⟩

/-- A change of the connection logs nothing. -/
theorem movesAdds_modifyConn (f : Conn → Conn) : MovesAdds K env (modifyConn f) :=
  fun _ => .of_conn _

/-- A pure computation logs nothing. -/
theorem movesAdds_ofExcept (x : Except Err α) : MovesAdds K env (Exec.ofExcept x : M α) :=
  .ofExcept fun _ _ => trivial

/-! ## Records -/

section

variable {R : St → St → Prop} [IsPreorder St R] (hR : ∀ {st t : St}, Emits K st t → R st t)
  (hconn : ∀ (st : St) (conn : Conn), R st { st with conn := conn })
  (hK : ∀ fr : Frame, fr.Ordinary → fr.hasData = false → K (.txFr fr))
  (hparams : ∀ params, K (.txFr (.qxTransportParameters params))) [Kind K]

include hR

omit [IsPreorder St R] [Kind K] in
/-- A computation that moves along `Emits` moves along any wider relation. -/
theorem moves_of_emits {x : M α} (h : MovesEmits K env x) : Moves R (fun _ => True) env x :=
  fun st => wp_mono (h st) (fun _ _ h => hR h) fun _ _ h => ⟨hR h.1, trivial⟩

include hK hconn

/-- The last frames of a record. -/
theorem moves_endRecord (ts : ℕ) : Moves R (fun _ => True) env (do
    let _ ← isNobuf connWriteMaxStreams
    finalRecord ts) := by
  have hmodify (f : Conn → Conn) : Moves R (fun _ => True) env (modifyConn f) := fun _ => hconn _ _
  have hfinal : Moves R (fun _ => True) env (finalRecord ts) :=
    Moves.bind .get fun _ => (Moves.ofExcept fun _ _ => trivial).bind fun _ =>
      (hmodify _).bind fun _ => Moves.bind (.when (hmodify _)) fun _ => .pure _
  exact (moves_of_emits hR (movesEmits_isNobuf (movesEmits_connWriteMaxStreams hK))).bind
    fun _ => hfinal

include hparams

/-- The first frames of a record. -/
theorem moves_startRecord (destlen : ℕ) : Moves R (fun _ => True) env (startRecord destlen) := by
  have hmodify (f : Conn → Conn) : Moves R (fun _ => True) env (modifyConn f) := fun _ => hconn _ _
  have hfirst : Moves R (fun _ => True) env connWriteTransportParams :=
    Moves.bind .get fun _ => moves_of_emits hR (movesEmits_encodeFrame (hparams _))
  refine (Moves.ofExcept fun _ _ => trivial).bind fun _ => (hmodify _).bind fun _ =>
    Moves.bind .get fun _ => Moves.bind (.when ?_) fun _ => ?_
  · refine Moves.bind (.tryCatch hfirst fun _ _ => ?_) fun _ => hmodify _
    exact (hmodify _).bind fun _ => .throw trivial
  · exact moves_of_emits hR (movesEmits_isNobuf (movesEmits_connWriteCtrlFrames hK))

variable {S : St → St → Prop} (hRS : Around R S)

include hRS

omit hparams in
/-- The rest of a record: what is special about it is the message. -/
theorem moves_vmsgRecord {vmsg : Option Vmsg}
    (hvmsg : ∀ v, vmsg = some v → Moves S (fun _ => True) env (writeVmsg v)) (nobuf : Bool)
    (ts : ℕ) :
    Moves S (fun _ => True) env (do
      match vmsg with
        | none => pure ()
        | some vmsg => Exec.when (!nobuf) (writeVmsg vmsg)
      let _ ← isNobuf connWriteMaxStreams
      finalRecord ts) := by
  have hend : Moves R (fun _ => True) env (do
      let _ ← isNobuf connWriteMaxStreams
      finalRecord ts) := moves_endRecord hR hconn hK ts
  cases vmsg with
  | none => exact hRS.moves hend
  | some vmsg => exact hRS.bind_after (.ite (hvmsg vmsg rfl) (hRS.moves (.pure _))) fun _ => hend

/-- A record: what is special about it is the message. -/
theorem moves_connWriteVmsg {vmsg : Option Vmsg}
    (hvmsg : ∀ v, vmsg = some v → Moves S (fun _ => True) env (writeVmsg v)) (destlen ts : ℕ) :
    Moves S (fun _ => True) env (connWriteVmsg destlen vmsg ts) := by
  refine .ite (hRS.moves (.throw trivial)) (hRS.bind .get fun _ => .ite ?_ ?_)
  · exact moves_vmsgRecord hR hconn hK hRS hvmsg false ts
  · exact hRS.bind (moves_startRecord hR hconn hK hparams destlen) fun nobuf =>
      moves_vmsgRecord hR hconn hK hRS hvmsg nobuf ts

/-- A call with data of a stream. -/
theorem moves_connWritevStream
    (hvmsg : ∀ id fin data, Moves S (fun _ => True) env (writeVmsg (.stream id fin data)))
    (hout : ∀ st pdatalen, R st { st with pdatalen := pdatalen }) (destlen : ℕ) (finFlag : Bool)
    (streamId : ℕ) (datav : Vecs) (ts : ℕ) :
    Moves S (fun _ => True) env (connWritevStream destlen finFlag streamId datav ts) := by
  refine hRS.bind (moves_of_emits hR (movesEmits_emit rfl)) fun _ =>
    hRS.bind (moves_of_emits hR (movesEmits_connUpdateTimestamp ts)) fun _ =>
      hRS.bind (.modify fun _ => hout _ _) fun _ => .ite ?_ ?_
  · exact moves_connWriteVmsg hR hconn hK hparams hRS (by rintro _ ⟨⟩) destlen ts
  · intro st
    rw [wp_bind]
    refine wp_mono streamVmsg_spec ?_ ?_
    · rintro vmsg _ ⟨rfl, rfl | ⟨rfl, -⟩⟩
      · exact moves_connWriteVmsg hR hconn hK hparams hRS (by rintro _ ⟨⟩) destlen ts _
      · exact moves_connWriteVmsg hR hconn hK hparams hRS (by rintro _ ⟨⟩; exact hvmsg _ _ _)
          destlen ts _
    · rintro err _ ⟨rfl, -⟩
      exact ⟨hRS.of (refl_of R _), trivial⟩

end

/-! ## Up to a number of events -/

/-- No more than `n` events with `k` were logged. -/
def AddsUpTo (k : Event → Bool) (n : ℕ) (st t : St) : Prop :=
  ∃ evs, t.trace = st.trace ++ evs ∧ evs.countP k ≤ n

variable {k : Event → Bool} {n : ℕ}

/-- No event of the kind is among those that are not. -/
theorem countP_eq_zero {evs : List Event} (h : ∀ e ∈ evs, k e = false) : evs.countP k = 0 :=
  List.countP_eq_zero.2 fun e he => by rw [h e he]; exact Bool.false_ne_true

/-- Without an event of the kind there are at most `n`. -/
theorem Adds.upTo (h : Adds (fun e => k e = false) st t) : AddsUpTo k n st t := by
  obtain ⟨evs, htrace, hevs⟩ := h
  exact ⟨evs, htrace, by rw [countP_eq_zero hevs]; exact Nat.zero_le n⟩

/-- Other events may come before. -/
theorem AddsUpTo.before (h : Adds (fun e => k e = false) st t) (h' : AddsUpTo k n t u) :
    AddsUpTo k n st u := by
  obtain ⟨l, hl, hnone⟩ := h
  obtain ⟨m, hm, hle⟩ := h'
  refine ⟨l ++ m, by rw [hm, hl, List.append_assoc], ?_⟩
  rwa [List.countP_append, countP_eq_zero hnone, Nat.zero_add]

/-- Other events may come after. -/
theorem AddsUpTo.after (h : AddsUpTo k n st t) (h' : Adds (fun e => k e = false) t u) :
    AddsUpTo k n st u := by
  obtain ⟨l, hl, hle⟩ := h
  obtain ⟨m, hm, hnone⟩ := h'
  refine ⟨l ++ m, by rw [hm, hl, List.append_assoc], ?_⟩
  rwa [List.countP_append, countP_eq_zero hnone, Nat.add_zero]

/-- None is none. -/
theorem AddsUpTo.adds (h : AddsUpTo k 0 st t) : Adds (fun e => k e = false) st t := by
  obtain ⟨evs, htrace, hle⟩ := h
  refine ⟨evs, htrace, fun e he => ?_⟩
  exact Bool.eq_false_iff.2 (List.countP_eq_zero.1 (Nat.le_zero.1 hle) e he)

/-- What is not counted may come before and after. -/
theorem addsUpTo_around : Around (Adds fun e => k e = false) (AddsUpTo k n) :=
  ⟨Adds.upTo, .before, .after⟩

/-- A computation that logs no more than `n` events with `k`. -/
abbrev LogsUpTo (k : Event → Bool) (n : ℕ) (env : Env) (x : M α) : Prop :=
  Moves (AddsUpTo k n) (fun _ => True) env x

/-- A computation that logs none of the kind. -/
theorem LogsUpTo.of_none {x : M α} (h : MovesAdds (fun e => k e = false) env x) :
    LogsUpTo k n env x := addsUpTo_around.moves h

/-- A failure logs nothing. -/
theorem LogsUpTo.throw (e : Err) : LogsUpTo k n env (throw e : M α) :=
  .of_none (.throw trivial)

/-- One of two branches is taken. -/
theorem LogsUpTo.ite {c : Prop} [Decidable c] {x y : M α} (hx : LogsUpTo k n env x)
    (hy : LogsUpTo k n env y) : LogsUpTo k n env (if c then x else y) := Moves.ite hx hy

/-- Nothing is counted before. -/
theorem LogsUpTo.bind {x : M α} {β : Type} {f : α → M β}
    (hx : MovesAdds (fun e => k e = false) env x) (hf : ∀ a, LogsUpTo k n env (f a)) :
    LogsUpTo k n env (x >>= f) := addsUpTo_around.bind hx hf

/-- Nothing is counted after. -/
theorem LogsUpTo.bind_none {x : M α} {β : Type} {f : α → M β} (hx : LogsUpTo k n env x)
    (hf : ∀ a, MovesAdds (fun e => k e = false) env (f a)) : LogsUpTo k n env (x >>= f) :=
  addsUpTo_around.bind_after hx hf

/-- The handler logs none of the kind. -/
theorem LogsUpTo.tryCatch {x : M α} {f : Err → M α} (hx : LogsUpTo k n env x)
    (hf : ∀ e, MovesAdds (fun e => k e = false) env (f e)) :
    LogsUpTo k n env (tryCatch x f) := addsUpTo_around.tryCatch hx hf

/-- Lack of room logs nothing. -/
theorem LogsUpTo.isNobuf {x : M Unit} (hx : LogsUpTo k n env x) :
    LogsUpTo k n env (isNobuf x) :=
  .tryCatch (hx.bind_none fun _ => .pure _) fun _ => .ite (.pure _) (.throw trivial)

/-- A frame is one event. -/
theorem LogsUpTo.encodeFrame (fr : Frame) : LogsUpTo k 1 env (encodeFrame fr) := by
  intro st
  refine wp_encodeFrame_of (fun q hq => ⟨[.txFr fr], rfl, List.countP_le_length⟩) fun e _ => ?_
  exact ⟨⟨[], (List.append_nil _).symm, Nat.zero_le 1⟩, trivial⟩

/-! ## Calls -/

section

variable (hk : ∀ fr : Frame, fr.Ordinary → fr.hasData = false → k (.txFr fr) = false)
  (hparams : ∀ params, k (.txFr (.qxTransportParameters params)) = false)
  [Kind fun e => k e = false]

include hk hparams

/-- Of the events of a call with data of a stream, those that `k` counts are of the message. -/
theorem logsUpTo_connWritevStream
    (hvmsg : ∀ id fin data, LogsUpTo k n env (writeVmsg (.stream id fin data))) (destlen : ℕ)
    (finFlag : Bool) (streamId : ℕ) (datav : Vecs) (ts : ℕ) :
    LogsUpTo k n env (connWritevStream destlen finFlag streamId datav ts) :=
  moves_connWritevStream Emits.adds (fun _ => .of_conn) hk hparams addsUpTo_around hvmsg
    (fun _ _ => .of_trace rfl) destlen finFlag streamId datav ts

/-- The same of a call with a datagram. -/
theorem logsUpTo_connWritevDatagram {datav : Vecs}
    (hvmsg : LogsUpTo k n env (writeVmsg (.datagram datav))) (destlen ts : ℕ) :
    LogsUpTo k n env (connWritevDatagram destlen datav ts) := by
  refine .bind (movesAdds_of_emits (movesEmits_emit rfl)) fun _ =>
    .bind (movesAdds_of_emits (movesEmits_connUpdateTimestamp ts)) fun _ =>
      .bind (.modify fun _ => .of_trace rfl) fun _ => .bind .get fun _ => .ite (.throw _) ?_
  cases vecLenVarint datav with
  | none => exact .throw _
  | some datalen =>
    exact .bind (movesAdds_ofExcept _) fun _ => .ite (.throw _)
      (moves_connWriteVmsg Emits.adds (fun _ => .of_conn) hk hparams addsUpTo_around
        (by rintro _ ⟨⟩; exact hvmsg) destlen ts)

end

/-- No more than `n` events with `k` were logged, and the parser is where it was. -/
def Endp.AddsUpTo (k : Event → Bool) (n : ℕ) (e e' : Endp) : Prop :=
  Dwnx.AddsUpTo k n e.st e'.st ∧ e'.reader = e.reader

/-- The same of a call of the interface. -/
theorem wp_liftM_addsUpTo {x : M α} (hx : LogsUpTo k n env x) (e : Endp) :
    wp (liftM x) (fun _ e' => e.AddsUpTo k n e') (fun _ e' => e.AddsUpTo k n e') env e := by
  rw [wp_liftM]
  exact wp_mono (hx e.st) (fun _ _ h => ⟨h, rfl⟩) fun _ _ h => ⟨h.1, rfl⟩

/-- What a run of the computation logs. -/
theorem addsUpTo_of_wp {x : R α} {r : Except Err α}
    (hx : wp x (fun _ e' => e.AddsUpTo k n e') (fun _ e' => e.AddsUpTo k n e') env e)
    (hrun : x env e = (r, e')) : e.AddsUpTo k n e' := by
  cases r with
  | ok a => exact hx.of_ok hrun
  | error err => exact hx.of_error hrun

/-- What a run of a call logs. -/
theorem addsUpTo_of_call {x : M α} (hx : LogsUpTo k n env x) {r : Except Err α}
    (hrun : liftM x env e = (r, e')) : e.AddsUpTo k n e' :=
  addsUpTo_of_wp (wp_liftM_addsUpTo hx e) hrun

/-- What messages a call may write: data of a stream, or the datagram that it is about. -/
def Call.MayWrite (call : Call) : Vmsg → Prop
  | .stream .. => True
  | .datagram datav => ∃ destlen ts, call = .writevDatagram destlen datav ts

/-- A plain call that does not read, and what it logs. -/
theorem Call.addsUpTo
    (hk : ∀ fr : Frame, fr.Ordinary → fr.hasData = false → k (.txFr fr) = false)
    (hparams : ∀ params, k (.txFr (.qxTransportParameters params)) = false)
    [Kind fun e => k e = false] {call : Call} {r : Except Err (List UInt8)}
    (hvmsg : ∀ vmsg, call.MayWrite vmsg → LogsUpTo k n env (writeVmsg vmsg))
    (hP : call.Plain e) (hread : ∀ data ts, call ≠ .read data ts)
    (hrun : call.run env e = (r, e')) : e.AddsUpTo k n e' := by
  cases call with
  | read data ts => exact absurd rfl (hread data ts)
  | writevStream destlen finFlag streamId datav ts =>
    exact addsUpTo_of_call
      (logsUpTo_connWritevStream hk hparams (fun _ _ _ => hvmsg _ trivial) destlen finFlag streamId
        datav ts) hrun
  | writevDatagram destlen datav ts =>
    exact addsUpTo_of_call
      (logsUpTo_connWritevDatagram hk hparams (hvmsg _ ⟨destlen, ts, rfl⟩) destlen ts) hrun
  | writeRecord destlen ts =>
    exact addsUpTo_of_call
      (logsUpTo_connWritevStream hk hparams (fun _ _ _ => hvmsg _ trivial) destlen false noStream []
        ts) hrun
  | writeConnectionClose destlen ccerr ts => exact absurd rfl (hP.close destlen ccerr ts)
  | handleExpiry ts =>
    refine addsUpTo_of_wp ?_ hrun
    rw [Call.run, wp_bind]
    exact wp_liftM_addsUpTo (.of_none (movesAdds_of_emits (movesEmits_connHandleExpiry ts))) e
  | app call =>
    refine addsUpTo_of_call (.of_none ?_) hrun
    exact (movesAdds_of_emits (movesEmits_emit rfl)).bind fun _ =>
      (movesAdds_of_emits (movesEmits_connApply call)).bind fun _ => .pure _
  | set0rttRemoteTransportParams params =>
    refine addsUpTo_of_call (.of_none ?_) hrun
    exact Moves.bind (Moves.bind .get fun _ =>
      (movesAdds_of_emits (movesEmits_assertThat _ _)).bind fun _ => movesAdds_modifyConn _)
        fun _ => .pure _
  | tlsEarlyDataRejected => exact absurd rfl hP.reject

end Dwnx
