import Dwnx.Lts.Run
import Dwnx.Refine.Read

/-!
# Every call takes steps

Each call of the application takes an endpoint between two calls to one between two
calls (`Call.spec`), so that whatever holds of all configurations holds of every
endpoint that a legal run leads to (`reach_steps`).
-/

namespace Dwnx

open Exec

variable {env : Env} {G : Cfg → Prop} {c : Cfg} {e : Endp}

/-! ## Legal calls -/

/-- No stream has been opened yet. -/
structure St.Unused (st : St) : Prop where
  strms : st.conn.strms = .empty
  closed : st.closed = []
  bidi : st.conn.tx.bidi.nextStreamId / 4 = 0
  uni : st.conn.tx.uni.nextStreamId / 4 = 0

/-- Early data is set up before any stream is opened, with limits that are varints, and
    rejected before anything of the peer has been read. -/
def Call.Legal (call : Call) (e : Endp) : Prop :=
  match call with
  | .set0rttRemoteTransportParams params => params.Bounded ∧ e.st.Unused
  | .tlsEarlyDataRejected => e.st.conn.flags.qxTransportParametersSeen = false
  | _ => True

/-- What a call adds to the records written. The last record, which closes the
    connection, is not of them. -/
def Call.adds (call : Call) (record : List UInt8) : List UInt8 :=
  match call with
  | .writeConnectionClose .. => []
  | _ => record

/-- How a call may fail. -/
structure RunErr (G : Cfg → Prop) (c : Cfg) (call : Call) (err : Err) (e' : Endp) : Prop where
  benign : err.isBenign = true → (∀ data ts, call ≠ .read data ts) →
    ∃ c', At G e' c' ∧ c'.out = c.out
  dataBlocked : err ≠ .fault (.assertion .dataBlocked)
  streamDataBlocked : err ≠ .fault (.assertion .streamDataBlocked)
  useAfterFree : err = .fault .useAfterFree → ¬ResetsInTime e'.st.trace

/-! ## Calls -/

/-- A set that time does not leave can be narrowed to what the peer has begun to say. -/
theorem Timed.seen {quiet : Prop} (hG : Timed quiet G) (b : Bool) :
    Timed quiet fun c => G c ∧ c.conn.flags.qxTransportParametersSeen = b where
  inv c h := hG.inv c h.1
  write c h := hG.write c h.1
  send c h := hG.send c h.1
  step c c' h hs := ⟨hG.step c c' h.1 hs, (hs.sameInput nofun nofun).seen.trans h.2⟩
  time c c' h hs := by
    refine ⟨hG.time c c' h.1 hs, ?_⟩
    cases hs
    exact h.2

/-- A call that does not read leaves the parser where it is. -/
theorem At.keep (h : At G e c) {t : St} {r : List UInt8}
    (hc : G { c with st := t, writing := none, out := c.out ++ r } ∧
      t.conn.flags.qxTransportParametersSeen = c.conn.flags.qxTransportParametersSeen) :
    ∃ c', At G ⟨e.reader, t⟩ c' ∧ c'.out = c.out ++ r := by
  refine ⟨_, ⟨hc.1, rfl, ⟨h.reader.ok, ?_, h.reader.body⟩,
    ⟨h.between.pending, rfl, h.between.unaccepted⟩⟩, rfl⟩
  change ReadState.Phase _ t.conn.flags.qxTransportParametersSeen _
  rw [hc.2]
  exact h.reader.phase

/-- What is returned has no part in the invariants. -/
theorem At.keep_out (h : At G e c) {t : St}
    (hc : G { c with st := t, writing := none } ∧
      t.conn.flags.qxTransportParametersSeen = c.conn.flags.qxTransportParametersSeen) :
    ∃ c', At G ⟨e.reader, t⟩ c' ∧ c'.out = c.out := by
  have := h.keep (r := []) (by rwa [List.append_nil])
  rwa [List.append_nil] at this

/-- A call that writes fails as a call may. -/
theorem RunErr.of_write {call : Call} {err : Err} {t : St} (h : At G e c)
    (he : CallErr (fun c' => G c' ∧
      c'.conn.flags.qxTransportParametersSeen = c.conn.flags.qxTransportParametersSeen) c err t) :
    RunErr G c call err ⟨e.reader, t⟩ where
  benign hb _ := h.keep_out (he.benign hb)
  dataBlocked := he.dataBlocked
  streamDataBlocked := he.streamDataBlocked
  useAfterFree := he.useAfterFree

/-- An error that is neither benign nor one of the faults that matter. -/
theorem RunErr.of_ne {call : Call} {err : Err} {e' : Endp} (hb : err.isBenign = false)
    (hd : err ≠ .fault (.assertion .dataBlocked))
    (hs : err ≠ .fault (.assertion .streamDataBlocked))
    (hu : err ≠ .fault .useAfterFree) : RunErr G c call err e' where
  benign h := absurd h (by simp [hb])
  dataBlocked := hd
  streamDataBlocked := hs
  useAfterFree h := absurd h hu

/-- A reader that reads no more. -/
theorem Reader.Ok.over {reader : Reader} (h : reader.Ok) :
    Reader.Ok { reader with rcrd.state := .closing } where
  vird := h.vird
  recordLeft _ _ hc := absurd rfl hc
  record := h.record
  fr := h.fr
  field := h.field.le
  bytes := nofun

section

variable (hG : Timed env.Passive G) (h : At G e c)

include hG h

/-- No message is being written between calls. -/
theorem At.idle {t : St} (ht : G { c with st := t }) : G { c with st := t, writing := none } := by
  have := (hG.step _ _ ht (.endWrite (c := { c with st := t }) h.between.pending))
  exact this

/-- Time goes on. -/
theorem At.updateTimestamp (ts : ℕ) :
    wp (connUpdateTimestamp ts)
      (fun _ t => (G { c with st := t } ∧
        t.conn.flags.qxTransportParametersSeen = c.conn.flags.qxTransportParametersSeen) ∧
        t.conn = { c.conn with lastTs := ts })
      (fun e _ => e = .fault (.assertion .timestamp)) env e.st := by
  rw [h.st]
  refine wp_mono (connUpdateTimestamp_spec hG h.mem ts) ?_ fun _ _ h => h.1
  rintro _ t ⟨ht, -, hconn, -⟩
  exact ⟨⟨ht, by rw [hconn]⟩, hconn⟩

/-- Closing the connection; from then on nothing is read. -/
theorem connWriteConnectionClose_spec (destlen : ℕ) (ccerr : Ccerr) (ts : ℕ) :
    wp (connWriteConnectionClose destlen ccerr ts) (fun _ e' => ∃ c', At G e' c' ∧ c'.out = c.out)
      (RunErr G c (.writeConnectionClose destlen ccerr ts)) env e := by
  rw [connWriteConnectionClose, wp_bind, wp_liftM]
  refine wp_mono (h.updateTimestamp hG ts) ?_ ?_
  · rintro _ t ⟨ht, -⟩
    have hdone := h.keep_out ⟨h.idle hG ht.1, ht.2⟩
    have hbenign {err : Err} (hf : err.isFault = false) :
        RunErr G c (.writeConnectionClose destlen ccerr ts) err ⟨e.reader, t⟩ := by
      refine ⟨fun _ _ => hdone, ?_, ?_, ?_⟩ <;> rintro rfl <;> cases hf
    have henc {err : Err} {t' : St} (he : EncErr err)
        (ht' : ∃ c', At G ⟨e.reader, t'⟩ c' ∧ c'.out = c.out) :
        RunErr G c (.writeConnectionClose destlen ccerr ts) err ⟨e.reader, t'⟩ := by
      refine ⟨fun _ _ => ht', ?_, ?_, ?_⟩ <;> rcases he with rfl | rfl | rfl <;> simp
    rw [wp_bind, wp_get', wp_ite]
    split
    · exact hdone
    rw [wp_ite]
    split
    · exact hbenign rfl
    rw [wp_ite]
    split
    · exact hdone
    rw [wp_bind, wp_ofExcept]
    cases hq : Qre.start destlen with
    | error err =>
      obtain rfl := Qre.start_err hq
      exact .of_ne rfl nofun nofun nofun
    | ok q =>
    dsimp only
    rw [wp_bind, wp_ofExcept]
    cases hq' : q.encodeFrame (.connectionClose ccerr.frame) with
    | error err => exact henc (Qre.encodeFrame_err hq') hdone
    | ok q' =>
    dsimp only
    rw [wp_bind, wp_liftM, wp_emit, wp_bind, wp_ofExcept]
    have htx := hG.step _ _ (h.idle hG ht.1) (.event (.txFr (.connectionClose ccerr.frame)) trivial
      (by simp [h.between.pending]) nofun)
    cases hfin : q'.final with
    | error err =>
      obtain rfl := Qre.final_err hfin
      exact .of_ne rfl nofun nofun nofun
    | ok record =>
    dsimp only
    rw [wp_bind, wp_setState, wp_pure]
    exact ⟨_, ⟨htx, rfl, ⟨h.reader.ok.over, trivial, nofun⟩,
      ⟨h.between.pending, rfl, h.between.unaccepted⟩⟩, rfl⟩
  · rintro _ t rfl
    exact .of_ne rfl nofun nofun nofun

/-- The endpoint after a call of the application. -/
theorem connAppCall_spec (call : AppCall) :
    wp (Call.app call).run (fun r e' => ∃ c', At G e' c' ∧ c'.out = c.out ++ r)
      (RunErr G c (.app call)) env e := by
  have hlog := hG.step _ _ h.mem
    (.event (.appCall call) trivial (by simp [h.between.pending]) nofun)
  have hsome (t : St) (ht : G { c with st := t } ∧ t.conn.flags = c.conn.flags) :
      ∃ c', At G ⟨e.reader, t⟩ c' ∧ c'.out = c.out :=
    h.keep_out ⟨h.idle hG ht.1, by rw [ht.2]⟩
  simp only [Call.run, wp_liftM, wp_bind, wp_emit, wp_pure, List.append_nil]
  rw [h.st]
  refine wp_mono (connApply_spec hG.toClosed hlog
    (fun _ => ⟨h.between.pending, h.between.writing⟩) call) ?_ ?_
  · rintro _ t ⟨ht, l, hl⟩
    refine hsome t ⟨ht, ?_⟩
    rw [hl.conn]
    rfl
  · rintro err t (⟨rfl, -⟩ | ⟨hb, -, hf, rfl⟩)
    · exact .of_ne rfl nofun nofun nofun
    · refine ⟨fun _ _ => hsome _ ⟨hlog, rfl⟩, ?_, ?_, ?_⟩ <;> rintro rfl <;> cases hf

/-- `dwnx_conn_handle_expiry` -/
theorem connHandleExpiry_spec (ts : ℕ) :
    wp (Call.handleExpiry ts).run (fun r e' => ∃ c', At G e' c' ∧ c'.out = c.out ++ r)
      (RunErr G c (.handleExpiry ts)) env e := by
  simp only [Call.run, wp_liftM, wp_bind, connHandleExpiry, wp_get', wp_ite, wp_pure, wp_throw,
    List.append_nil]
  refine wp_mono (h.updateTimestamp hG ts) ?_ ?_
  · rintro _ t ⟨ht, -⟩
    split
    · exact .of_ne rfl nofun nofun nofun
    · exact h.keep_out ⟨h.idle hG ht.1, ht.2⟩
  · rintro _ t rfl
    exact .of_ne rfl nofun nofun nofun

/-- The remembered parameters are set, before any others. -/
theorem connSet0rttRemoteTransportParams_spec {params : TransportParams} (hb : params.Bounded)
    (hu : e.st.Unused) (hearly : ∀ c', Step env.Passive .early c c' → G c') :
    wp (Call.set0rttRemoteTransportParams params).run
      (fun r e' => ∃ c', At G e' c' ∧ c'.out = c.out ++ r)
      (RunErr G c (.set0rttRemoteTransportParams params)) env e := by
  simp only [Call.run, connSet0rttRemoteTransportParams, wp_liftM, wp_bind, wp_get',
    wp_assertThat, wp_modifyConn, wp_pure, List.append_nil]
  rw [h.st] at hu ⊢
  split
  · next hs =>
    exact h.keep_out ⟨h.idle hG (hearly _
      (.set0rtt hs h.between.pending hb hu.strms hu.closed hu.bidi hu.uni rfl)), rfl⟩
  · exact .of_ne rfl (by simp) (by simp) (by simp)

/-- The streams go, and the limits are as at first. -/
theorem connTlsEarlyDataRejected_spec (hseen : e.st.conn.flags.qxTransportParametersSeen = false)
    (hreject : ∀ c', Step env.Passive .reject c c' → G c') :
    wp Call.tlsEarlyDataRejected.run (fun r e' => ∃ c', At G e' c' ∧ c'.out = c.out ++ r)
      (RunErr G c .tlsEarlyDataRejected) env e := by
  rw [h.st] at hseen
  have hparams : c.params = false := by
    cases hp : c.params with
    | false => rfl
    | true =>
      rw [(hG.inv c h.mem).phase.seen hp] at hseen
      cases hseen
  simp only [Call.run, connTlsEarlyDataRejected, connDiscardEarlyDataState, wp_liftM, wp_bind,
    wp_get', wp_read, wp_assertThat, wp_modifyConn, wp_modify, wp_emit, wp_ite, wp_pure,
    List.append_nil]
  rw [h.st]
  split
  · next hs =>
    split
    · exact h.keep_out ⟨h.idle hG h.mem, rfl⟩
    · exact h.keep_out ⟨h.idle hG (hreject _ (.reject hs hparams h.between.pending
        h.between.writing h.between.unaccepted (env.order_perm _))), rfl⟩
  · exact .of_ne rfl (by simp) (by simp) (by simp)

omit hG in
/-- What a call that writes does. -/
theorem At.write {x : M (List UInt8)} {call : Call}
    (hx : wp x (fun r t => (G { c with st := t, writing := none, out := c.out ++ r } ∧
        t.conn.flags.qxTransportParametersSeen = c.conn.flags.qxTransportParametersSeen))
      (CallErr (fun c' => G c' ∧
        c'.conn.flags.qxTransportParametersSeen = c.conn.flags.qxTransportParametersSeen) c)
      env c.st) :
    wp (liftM x) (fun r e' => ∃ c', At G e' c' ∧ c'.out = c.out ++ r) (RunErr G c call) env e := by
  rw [wp_liftM, h.st]
  exact wp_mono hx (fun _ _ ht => h.keep ht) fun _ _ he => .of_write h he

/-- A legal call takes an endpoint between two calls to one between two calls. -/
theorem Call.spec (hrx : ∀ l c c', G c → Step env.Passive l c c' → l ≠ .early → l ≠ .reject → G c')
    (call : Call) (hl : call.Legal e)
    (hearly : (∃ params, call = .set0rttRemoteTransportParams params) →
      ∀ c', Step env.Passive .early c c' → G c')
    (hreject : call = .tlsEarlyDataRejected → ∀ c', Step env.Passive .reject c c' → G c') :
    wp call.run (fun r e' => ∃ c', At G e' c' ∧ c'.out = c.out ++ call.adds r) (RunErr G c call)
      env e := by
  have hs := hG.seen c.conn.flags.qxTransportParametersSeen
  cases call with
  | read data ts =>
    have h' : ReadTo G c e c := { h with out := rfl }
    simp only [Call.run, Call.adds, wp_bind, wp_pure, List.append_nil]
    refine wp_mono (connRead_spec hG hrx h' data) (fun _ e' ⟨c', hc'⟩ => ⟨c', hc'.toAt, hc'.out⟩) ?_
    rintro err e' (he | ⟨rfl, -⟩)
    · refine ⟨fun _ hn => absurd rfl (hn data ts), ?_, ?_, ?_⟩ <;> rintro rfl <;> cases he.1
    · exact .of_ne rfl nofun nofun nofun
  | writevStream destlen finFlag streamId datav ts =>
    exact h.write (connWritevStream_spec hs ⟨h.mem, rfl⟩ h.between.pending h.between.unaccepted)
  | writevDatagram destlen datav ts =>
    exact h.write (connWritevDatagram_spec hs ⟨h.mem, rfl⟩ h.between.pending h.between.writing
      h.between.unaccepted)
  | writeRecord destlen ts =>
    exact h.write (connWriteRecord_spec hs ⟨h.mem, rfl⟩ h.between.pending h.between.unaccepted)
  | writeConnectionClose destlen ccerr ts =>
    simp only [Call.run, Call.adds, List.append_nil]
    exact connWriteConnectionClose_spec hG h destlen ccerr ts
  | handleExpiry ts => exact connHandleExpiry_spec hG h ts
  | app call => exact connAppCall_spec hG h call
  | set0rttRemoteTransportParams params =>
    exact connSet0rttRemoteTransportParams_spec hG h hl.1 hl.2 (hearly ⟨params, rfl⟩)
  | tlsEarlyDataRejected => exact connTlsEarlyDataRejected_spec hG h hl (hreject rfl)

end

/-! ## Runs -/

/-- A new connection is between calls. -/
theorem at_new (server : Bool) (settings : Settings) (params : TransportParams) :
    At (Steps env.Passive (Cfg.new server settings params)) (Endp.new server settings params)
      (Cfg.new server settings params) where
  mem := .refl
  st := rfl
  reader :=
    { ok :=
        { vird := ⟨[], rfl, rfl⟩
          recordLeft := fun h => absurd rfl h
          record := Nat.zero_le _
          fr := FrameUnion.bounded_zero
          field := rfl
          bytes := nofun }
      phase := rfl
      body := fun _ => rfl }
  between := ⟨rfl, rfl, rfl⟩

/-- An endpoint that a legal run leads to is in a configuration that steps lead to. -/
theorem reach_steps {P : Call → Endp → Prop} (hP : ∀ call e, P call e → call.Legal e) {c₀ : Cfg}
    {e₀ : Endp} (h₀ : Sound env.Passive c₀) (he₀ : At (Steps env.Passive c₀) e₀ c₀)
    (h : Reach env P e₀ e) : ∃ c, At (Steps env.Passive c₀) e c := by
  induction h with
  | init => exact ⟨c₀, he₀⟩
  | @call e e' call r _ hPe hrun hr ih =>
    obtain ⟨c, hc⟩ := ih
    have hspec := Call.spec (Steps.timed h₀) hc (fun _ _ _ h hs _ _ => h.tail hs) call (hP _ _ hPe)
      (fun _ _ hs => hc.mem.tail hs) fun _ _ hs => hc.mem.tail hs
    cases r with
    | ok r =>
      obtain ⟨c', hc', -⟩ := hspec.of_ok hrun
      exact ⟨c', hc'⟩
    | error err =>
      obtain ⟨c', hc', -⟩ := (hspec.of_error hrun).benign hr.1 hr.2
      exact ⟨c', hc'⟩

end Dwnx
