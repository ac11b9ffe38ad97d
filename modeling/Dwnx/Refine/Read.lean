import Dwnx.Refine.Parse
import Dwnx.Refine.Write

/-!
# Reading bytes takes steps

What a pass of the parser has the connection do is made of steps of the transition
system, and fails with no fault (`perform_spec`); so are all passes of a call
(`readLoop_spec`, `connRead_spec`). The parser and the configuration agree on what is
being received (`Reader.Inv`).
-/

namespace Dwnx

open Exec

variable {env : Env} {G : Cfg → Prop} {c : Cfg} {ok : Prop} {ts : ℕ}

/-- Nothing is going on: the configuration is one between two calls. -/
structure Cfg.Between (c : Cfg) : Prop where
  pending : c.pending = .idle
  writing : c.writing = none
  unaccepted : c.unaccepted = none

/-- The parser is where the configuration says. -/
structure Reader.Inv (reader : Reader) (c : Cfg) : Prop where
  ok : reader.Ok
  phase : reader.rcrd.state.Phase c.conn.flags.qxTransportParametersSeen c.params
  body : reader.rcrd.state.isOver = false → c.body = reader.body

/-- The step takes in what the act is about. -/
def Act.Receives : Act → Label → Prop
  | .seen, l => l = .seen
  | .log fr, l => l = .rx fr
  | .frame fr, l => l = .rx fr
  | .params data, l => ∃ params, transportParamsDecode data = .ok params ∧
    l = .rx (.qxTransportParameters params)
  | .piece _ _ _ data, l => l = .piece data
  | .emptyDatagram fr, l => l = .rx (.datagram fr)
  | _, _ => False

section
variable {act : Act} {l : Label}

theorem Act.Receives.ne_time (h : act.Receives l) : l ≠ .time := by
  rintro rfl
  revert h
  cases act <;> simp [Receives]

theorem Act.Receives.ne_early (h : act.Receives l) : l ≠ .early := by
  rintro rfl
  revert h
  cases act <;> simp [Receives]

theorem Act.Receives.ne_reject (h : act.Receives l) : l ≠ .reject := by
  rintro rfl
  revert h
  cases act <;> simp [Receives]

end

/-- The connection does not object to what is received. -/
def Act.Accepted (conn : Conn) : Act → Prop
  | .frame fr => conn.Accepts fr
  | .params data => ∃ params, transportParamsDecode data = .ok params ∧
    conn.Accepts (.qxTransportParameters params)
  | _ => True

section

variable (hG : Closed env.Passive G) (h : G c)

include hG h

/-- A frame that the connection has logged is handled. -/
theorem connRecvFrame_spec {fr : Frame} (hp : c.pending = .received fr) (hbody : c.body = none)
    (hfr : fr.Handled) (hts : ts = c.conn.lastTs) (hok : ok → c.conn.Accepts fr) :
    wp (connRecvFrame ts fr) (fun _ t => G { c with st := t, pending := .idle, body := fr.body })
      (fun e _ => RecvErr env ok e) env c.st := by
  have hnone (t : St) (ht : G { c with st := t, pending := .idle }) :
      G { c with st := t, pending := .idle, body := none } := by
    rwa [← hbody]
  cases fr with
  | qxTransportParameters params => exact absurd rfl (hfr.2 params)
  | qxPing fr => exact wp_mono (connRecvQxPing_spec hG h hp hts hok) (fun _ => hnone) fun _ _ h => h
  | padding n => exact hnone _ (hG.step _ _ h (.ignore hp trivial))
  | resetStream fr =>
    exact wp_mono (connRecvResetStream_spec hG h hp hok) (fun _ => hnone) fun _ _ h => h
  | stopSending fr =>
    exact wp_mono (connRecvStopSending_spec hG h hp hts hok) (fun _ => hnone) fun _ _ h => h
  | stream fr => exact connRecvStream_spec hG h hp hok
  | maxData fr => exact wp_mono (connRecvMaxData_spec hG h hp hok) (fun _ => hnone) fun _ _ h => h
  | maxStreamData fr =>
    exact wp_mono (connRecvMaxStreamData_spec hG h hp hts hok) (fun _ => hnone) fun _ _ h => h
  | maxStreams fr =>
    exact wp_mono (connRecvMaxStreams_spec hG h hp hok) (fun _ => hnone) fun _ _ h => h
  | dataBlocked fr =>
    exact wp_mono (connRecvDataBlocked_spec hG h hp hok) (fun _ => hnone) fun _ _ h => h
  | streamDataBlocked fr =>
    exact wp_mono (connRecvStreamDataBlocked_spec hG h hp hok) (fun _ => hnone) fun _ _ h => h
  | streamsBlocked fr =>
    exact wp_mono (connRecvStreamsBlocked_spec hG h hp hok) (fun _ => hnone) fun _ _ h => h
  | connectionClose fr => exact hnone _ (hG.step _ _ h (.ignore hp trivial))
  | datagram fr => exact hnone _ (hG.step _ _ h (.ignore hp trivial))

/-- What is read has the connection take steps. -/
theorem perform_spec {act : Act} {body' : Option Body} (hb : c.Between)
    (hts : ts = c.conn.lastTs)
    (hact : act.Sound c.conn.flags.qxTransportParametersSeen c.params c.body body')
    (hrx : ∀ l c', Step env.Passive l c c' → act.Receives l → G c')
    (hok : ok → act.Accepted c.conn) :
    wp (act.perform ts)
      (fun _ t => G { c with st := t, params := c.params || act.isParams, body := body' } ∧
        t.conn.flags.qxTransportParametersSeen =
          (c.conn.flags.qxTransportParametersSeen || act.isSeen))
      (fun e _ => RecvErr env ok e) env c.st := by
  have hI := hG.inv c h
  -- once the parameters have come, that they have begun says nothing new
  have hseen {t : St} {body : Option Body} (hp : c.params = true)
      (ht : G { c with st := t, body := body }) :
      G { c with st := t, params := c.params || false, body := body } ∧
        t.conn.flags.qxTransportParametersSeen =
          (c.conn.flags.qxTransportParametersSeen || false) := by
    rw [Bool.or_false, Bool.or_false, hI.phase.seen hp]
    exact ⟨ht, (hG.inv _ ht).phase.seen hp⟩
  have hidle {t : St} {body : Option Body}
      (ht : G { c with st := t, pending := .idle, body := body }) :
      G { c with st := t, body := body } := by
    rwa [← hb.pending] at ht
  have hnone {t : St} (hbody : c.body = none) (ht : G { c with st := t, pending := .idle }) :
      G { c with st := t, body := none } := by
    rw [← hbody]
    exact hidle ht
  cases act with
  | nothing =>
    obtain rfl : body' = c.body := hact
    refine ⟨?_, (Bool.or_false _).symm⟩
    rw [show (c.params || Act.nothing.isParams) = c.params from Bool.or_false _]
    exact h
  | seen =>
    obtain ⟨-, hp, hbody, rfl⟩ := hact
    have hstep := hrx _ _ .seen rfl
    rw [Act.perform, wp_modifyConn]
    refine ⟨?_, (Bool.or_true _).symm⟩
    rw [show (c.params || Act.seen.isParams) = c.params from Bool.or_false _, ← hbody]
    exact hstep
  | log fr =>
    obtain ⟨hp, hfr, hignore, hbody, rfl⟩ := hact
    have hstep := hrx _ _ (.rx fr hb.pending hb.writing hbody hfr.1 hp hfr.2) rfl
    exact hseen hp (hnone hbody (hG.step _ _ hstep (.ignore rfl (hignore _))))
  | frame fr =>
    obtain ⟨hp, hfr, hbody, rfl⟩ := hact
    have hstep := hrx _ _ (.rx fr hb.pending hb.writing hbody hfr.1 hp hfr.2) rfl
    rw [Act.perform, wp_bind, wp_emit]
    exact wp_mono (connRecvFrame_spec hG hstep rfl hbody hfr hts hok)
      (fun _ t ht => hseen hp (hidle ht)) fun _ _ h => h
  | params data =>
    obtain ⟨hs, hp, hbody, rfl⟩ := hact
    refine wp_mono (connRecvTransportParams_spec hG h hb.pending hb.writing hbody hs hp
      (fun params hd c' hstep => hrx _ c' hstep ⟨params, hd, rfl⟩) hok) (fun _ t ht => ?_)
      fun _ _ h => h
    refine ⟨?_, ?_⟩
    · rw [show (c.params || (Act.params data).isParams) = true from Bool.or_true _, ← hbody]
      exact ht
    · rw [hs]
      exact (hG.inv _ ht).phase.seen rfl
  | piece id fin left data =>
    obtain ⟨hp, hne, hlen, fin, rfl, hbody, rfl⟩ := hact
    obtain ⟨-, s, hf, -, hle⟩ := hI.pending.body _ _ _ hbody
    have hsub : sub64 s.rx.lastOffset left = s.rx.lastOffset - left :=
      sub64_eq hle ((hI.flow.lastOffset_le hf).trans_lt (by decide))
    rw [Act.perform, wp_bind, wp_get', show c.st.conn.findStream id = some s from hf]
    dsimp only
    rw [hsub]
    exact wp_mono (connRecvStreamData_spec hG hb.pending hbody hf hne hlen
      fun c' hstep => hrx _ c' hstep rfl) (fun _ t ht => hseen hp ht) fun _ _ h => h
  | datagram fin dgramlen offset data =>
    obtain ⟨hp, hbody, rfl⟩ := hact
    refine wp_mono (connRecvDatagram_spec hG h hb.pending fin dgramlen offset data)
      (fun _ t ht => ?_)
      fun _ _ h => h
    exact hseen hp (hbody ▸ ht)
  | emptyDatagram fr =>
    obtain ⟨hp, hbody, rfl⟩ := hact
    have hstep := hrx _ _ (.rx (.datagram fr) hb.pending hb.writing hbody trivial hp (by simp)) rfl
    have hdone := hG.step _ _ hstep (.ignore rfl trivial)
    rw [Act.perform, wp_bind, wp_emit]
    exact wp_mono (connRecvDatagram_spec hG hdone rfl true 0 0 [])
      (fun _ t ht => hseen hp (hnone hbody ht)) fun _ _ h => h
  | alloc =>
    obtain ⟨hbody, rfl⟩ := hact
    refine wp_alloc_of .buf ⟨?_, (Bool.or_false _).symm⟩ .nomem
    rw [show (c.params || Act.alloc.isParams) = c.params from Bool.or_false _, ← hbody]
    exact h

/-! ## Passes -/

/-- The pass that the parser makes next. -/
def Cfg.pass (c : Cfg) (reader : Reader) (p : List UInt8) : Parsed :=
  Parse.pass c.conn.flags.qxTransportParametersSeen c.conn.localParams reader p

/-- The configuration after a pass that leaves `st`. -/
def Cfg.after (c : Cfg) (x : Parsed) (st : St) : Cfg :=
  { c with st := st, params := c.params || x.act.isParams, body := x.next.body }

variable (ok) in
/-- A pass of the loop. -/
theorem connReadStep_spec {e : Endp} {p : List UInt8} (hst : e.st = c.st) (hb : c.Between)
    (hts : ts = c.conn.lastTs) (hr : e.reader.Inv c) (hne : p ≠ [])
    (hrx : ∀ l c', Step env.Passive l c c' → (c.pass e.reader p).act.Receives l → G c')
    (hok : ok → (∀ err, (c.pass e.reader p).result ≠ .error err) ∧
      (c.pass e.reader p).act.Accepted c.conn) :
    wp (connReadStep ts p)
      (fun rest e' => (c.pass e.reader p).result = .ok rest ∧
        e'.reader = (c.pass e.reader p).next ∧ G (c.after (c.pass e.reader p) e'.st) ∧
        e'.reader.Inv (c.after (c.pass e.reader p) e'.st) ∧
        ∀ q, rest = some q → q.length < p.length)
      (fun err _ => RecvErr env ok err) env e := by
  have hpass : Parse.pass e.st.conn.flags.qxTransportParametersSeen e.st.conn.localParams
      e.reader p =
      c.pass e.reader p := by rw [hst, Cfg.pass]
  rw [wp_connReadStep ts hr.ok.toReadable hne, hpass, Parsed.wp_run, hst]
  -- A connection that is draining or closing reads no more.
  cases hover : e.reader.rcrd.state.isOver with
  | true =>
    obtain ⟨err, hx, hf, ht⟩ : ∃ err, c.pass e.reader p = Parse.fail e.reader err ∧
        err.isFault = false ∧ err.isFatal = false := by
      unfold Cfg.pass Parse.pass
      cases hs : e.reader.rcrd.state <;> rw [hs] at hover <;> first
        | (cases hover; done)
        | exact ⟨_, rfl, rfl, rfl⟩
    rw [hx] at hok ⊢
    exact RecvErr.refuse hf ht fun h => (hok h).1 err rfl
  | false =>
    have hsound := Parse.pass_sound c.conn.localParams hr.ok hr.phase hne hover
    obtain ⟨body', hact, hbody⟩ := hsound.act
    rw [← hr.body hover] at hact
    refine wp_mono (perform_spec hG h hb hts hact hrx fun h => (hok h).2) ?_ fun _ _ h => h
    rintro _ t ⟨ht, hseen⟩
    rw [wp_ofExcept]
    -- The pass goes on, or the chunk is used up.
    split
    · next rest hres =>
      obtain ⟨hnext, hphase⟩ := hsound.next rest hres
      have hafter : c.after (c.pass e.reader p) t =
          { c with
            st := t
            params := c.params || (c.pass e.reader p).act.isParams
            body := body' } := by
        rw [← hbody rest hres]
        rfl
      rw [← hafter] at ht
      have hinv (t' : St) (hflags : t'.conn.flags = t.conn.flags) :
          (c.pass e.reader p).next.Inv (c.after (c.pass e.reader p) t') := by
        refine ⟨hnext, ?_, fun _ => rfl⟩
        change ReadState.Phase _ t'.conn.flags.qxTransportParametersSeen _
        rw [hflags, hseen]
        exact hphase
      have hprogress : ∀ q, rest = some q → q.length < p.length := by
        rintro q rfl
        exact hsound.progress q hres
      split
      · exact ⟨hres, rfl, hG.step _ _ ht (.idleTime ts), hinv _ rfl, hprogress⟩
      · exact ⟨hres, rfl, ht, hinv _ rfl, hprogress⟩
    -- The pass ends with an error, which is then no fault.
    · next err hres =>
      obtain ⟨hf, ht⟩ := hsound.fault err hres
      exact .refuse hf ht fun h => (hok h).1 err hres

end

/-! ## Calls -/

/-- The endpoint is in a configuration of `G` between two calls. -/
structure At (G : Cfg → Prop) (e : Endp) (c : Cfg) : Prop where
  mem : G c
  st : e.st = c.st
  reader : e.reader.Inv c
  between : c.Between

/-- What a call that reads leaves of a configuration between two calls. -/
structure ReadTo (G : Cfg → Prop) (c : Cfg) (e : Endp) (c' : Cfg) : Prop extends At G e c' where
  out : c'.out = c.out

theorem readLoop_spec (hG : Closed env.Passive G)
    (hrx : ∀ l c c', G c → Step env.Passive l c c' → l ≠ .time → l ≠ .early → l ≠ .reject → G c')
    (hts : ∀ c, G c → c.conn.lastTs = ts) (n : ℕ) {p : List UInt8} (hn : p.length ≤ n) {e : Endp}
    (h : ReadTo G c e c) :
    wp (readLoop ts n p) (fun _ e' => ∃ c', ReadTo G c e' c') (fun err _ => RecvErr env False err)
      env e := by
  induction n generalizing p c e with
  | zero =>
    obtain rfl := List.eq_nil_of_length_eq_zero (Nat.le_zero.1 hn)
    exact ⟨c, h⟩
  | succ n ih =>
    cases p with
    | nil => exact ⟨c, h⟩
    | cons b p =>
      rw [readLoop, wp_bind]
      refine wp_mono (connReadStep_spec False hG h.mem h.st h.between (hts c h.mem).symm h.reader
        (List.cons_ne_nil b p) (fun l c' hs hl => hrx l c c' h.mem hs ?_ ?_ ?_) False.elim) ?_
        fun _ _ h => h
      · exact hl.ne_time
      · exact hl.ne_early
      · exact hl.ne_reject
      · rintro rest e' ⟨-, hreader, hmem, hinv, hprogress⟩
        have h' : ReadTo G (c.after (c.pass e.reader (b :: p)) e'.st) e'
            (c.after (c.pass e.reader (b :: p)) e'.st) :=
          ⟨⟨hmem, rfl, hinv, ⟨h.between.pending, h.between.writing, h.between.unaccepted⟩⟩, rfl⟩
        cases rest with
        | none => exact ⟨_, { h' with out := rfl }⟩
        | some q =>
          have hq := hprogress q rfl
          refine wp_mono (ih (by rw [List.length_cons] at hn hq; omega) h') ?_ fun _ _ h => h
          rintro _ e'' ⟨c', hc'⟩
          exact ⟨c', { hc' with out := hc'.out }⟩
      · exact List.cons_ne_nil b p

/-- A call of `connRead`, unless the time runs backwards. -/
theorem connRead_spec (hG : Timed env.Passive G)
    (hrx : ∀ l c c', G c → Step env.Passive l c c' → l ≠ .early → l ≠ .reject → G c') {e : Endp}
    (h : ReadTo G c e c)
    (data : List UInt8) :
    wp (connRead data ts) (fun _ e' => ∃ c', ReadTo G c e' c')
      (fun err _ => RecvErr env False err ∨
        err = .fault (.assertion .timestamp) ∧ ¬c.conn.lastTs ≤ ts) env e := by
  rw [connRead, wp_bind, wp_liftM, h.st]
  refine wp_mono (connUpdateTimestamp_spec hG h.mem ts) ?_ fun _ _ he => .inr he
  rintro _ t ⟨ht, -, hconn, -⟩
  have h' : ReadTo (fun c => G c ∧ c.conn.lastTs = ts) c ⟨e.reader, t⟩ { c with st := t } := by
    have hlast : t.conn.lastTs = ts := by rw [hconn]
    have hflags : t.conn.flags = c.conn.flags := by rw [hconn]
    refine ⟨⟨⟨ht, hlast⟩, rfl, ⟨h.reader.ok, ?_, h.reader.body⟩,
      ⟨h.between.pending, h.between.writing, h.between.unaccepted⟩⟩, rfl⟩
    change ReadState.Phase _ t.conn.flags.qxTransportParametersSeen _
    rw [hflags]
    exact h.reader.phase
  have hdone {e' : Endp} {c' : Cfg} (h : ReadTo (fun c => G c ∧ c.conn.lastTs = ts) c e' c') :
      ReadTo G c e' c' := { h with mem := h.mem.1 }
  rw [wp_ite]
  split
  · rw [wp_bind, wp_get']
    dsimp only
    split
    · exact .inl (.refuse rfl rfl id)
    · exact .inl (.refuse rfl rfl id)
    · exact ⟨_, hdone h'⟩
  · refine wp_mono (readLoop_spec (c := { c with st := t }) (hG.at ts)
      (fun l c c' hc hs ht he hr => ⟨hrx l c c' hc.1 hs he hr, (hs.lastTs ht).trans hc.2⟩)
      (fun c hc => hc.2) _ le_rfl { h' with out := rfl }) ?_ fun _ _ he => .inl he
    rintro _ e' ⟨c', hc'⟩
    exact ⟨c', hdone { hc' with out := hc'.out }⟩

end Dwnx
