import Dwnx.Accounting
import Dwnx.Delivered
import Dwnx.Lts.Allowed

/-!
# Datagrams, from end to end

* `linked_grams`: the datagrams that an endpoint sends are those that its calls accept; each
  of them is one that the other endpoint takes, and is passed on as it was accepted.
-/

namespace Dwnx

open Exec

variable {env envA envB : Env} {server serverA serverB : Bool}
  {settings settingsA settingsB : Settings} {params paramsA paramsB : TransportParams}
  {d : Duplex Endp Endp UInt8} {st t u : St} {e e' : Endp} {call : Call} {data : List UInt8}
  {datav : Vecs} {destlen ts max : ℕ} {inp out : List UInt8}

/-! ## The call -/

/-- A DATAGRAM frame was encoded. -/
def Event.isGram : Event → Bool
  | .txFr (.datagram _) => true
  | _ => false

instance : Kind fun e => e.isGram = false := ⟨fun {e} h => by cases e <;> first | rfl | cases h⟩

theorem isGram_of_control {fr : Frame} (h : fr.gram? = none) : (Event.txFr fr).isGram = false := by
  cases fr <;> first
    | rfl
    | cases h

theorem isGram_of_noData {fr : Frame} (h : fr.hasData = false) :
    (Event.txFr fr).isGram = false := by
  cases fr <;> first
    | rfl
    | cases h

theorem sentGrams_of_none {evs : List Event} (h : ∀ e ∈ evs, e.isGram = false) :
    sentGrams evs = [] := by
  refine List.filterMap_eq_nil_iff.2 fun fr hfr => ?_
  have := h _ (mem_sentFrames.1 hfr)
  cases fr with
  | datagram => cases this
  | _ => rfl

/-- No datagram was sent, nor said to be accepted. -/
structure Gramless (st t : St) : Prop where
  grams : sentGrams t.trace = sentGrams st.trace
  paccepted : t.paccepted = st.paccepted

instance : IsPreorder St Gramless where
  refl _ := ⟨rfl, rfl⟩
  trans _ _ _ h h' := ⟨h'.grams.trans h.grams, h'.paccepted.trans h.paccepted⟩

theorem Adds.sentGrams (h : Adds (fun e => e.isGram = false) st t) :
    Dwnx.sentGrams t.trace = Dwnx.sentGrams st.trace := by
  obtain ⟨evs, htrace, hevs⟩ := h
  rw [htrace, sentGrams_append, sentGrams_of_none hevs, List.append_nil]

theorem Emits.gramless (h : Emits (fun e => e.isGram = false) st t) : Gramless st t :=
  ⟨h.adds.sentGrams, h.paccepted h.adds.sentGrams⟩

/-- The datagram was sent and said to be accepted, or neither. -/
def GramOrNot (data : List UInt8) (st t : St) : Prop :=
  Gramless st t ∨ t.paccepted = true ∧ sentGrams t.trace = sentGrams st.trace ++ [data]

theorem gramOrNot_around : Around Gramless (GramOrNot data) where
  of := .inl
  before h h' := by
    rcases h' with h' | ⟨hp, hgrams⟩
    · exact .inl (trans_of Gramless h h')
    · exact .inr ⟨hp, by rw [hgrams, h.grams]⟩
  after h h' := by
    rcases h with h | ⟨hp, hgrams⟩
    · exact .inl (trans_of Gramless h h')
    · exact .inr ⟨h'.paccepted.trans hp, by rw [h'.grams, hgrams]⟩

/-- The frame of the datagram, unless there is no room for it. -/
theorem moves_writeVmsg_datagram :
    Moves (GramOrNot datav.flatten) (fun _ => True) env (writeVmsg (.datagram datav)) := by
  have hframe : Moves (GramOrNot datav.flatten) (fun _ => True) env
      (connWriteDatagramFrame datav) := by
    intro st
    rw [connWriteDatagramFrame, wp_bind]
    refine wp_encodeFrame_of (fun q hq => .inr ⟨rfl, ?_⟩) fun _ _ => ⟨.inl (refl_of _ _), trivial⟩
    exact sentGrams_append ..
  refine gramOrNot_around.bind_after (gramOrNot_around.tryCatch
    (gramOrNot_around.bind_after hframe fun _ => .pure _) fun _ => .ite (.pure _) (.throw trivial))
    fun _ => .when <| Moves.bind .get fun _ => .ite (.throw trivial) (.pure _)

/-- The DATAGRAM frame with the data has at most this length. -/
def Fits (data : List UInt8) (max : ℕ) : Prop := 1 + uvarintLen data.length + data.length ≤ max

instance : Decidable (Fits data max) := Nat.decLe _ _

/-- What a call with a datagram leads to: it says that the datagram is accepted and has sent
    it, and then the peer is known to take it, or neither. -/
def GramCall (data : List UInt8) (st t : St) : Prop :=
  t.paccepted = false ∧ sentGrams t.trace = sentGrams st.trace ∨
    t.paccepted = true ∧ sentGrams t.trace = sentGrams st.trace ++ [data] ∧
      Fits data st.conn.remoteParams.maxDatagramFrameSize

theorem wp_connUpdateTimestamp_same :
    wp (connUpdateTimestamp ts)
      (fun _ t => t.trace = st.trace ∧ t.conn.remoteParams = st.conn.remoteParams)
      (fun err _ => err = .fault (.assertion .timestamp)) env st := by
  rw [connUpdateTimestamp, wp_bind, wp_get', wp_bind, wp_assertThat]
  split
  · exact ⟨rfl, rfl⟩
  · rfl

theorem wp_connWritevDatagram_gramCall :
    wp (connWritevDatagram destlen datav ts) (fun _ t => GramCall datav.flatten st t)
      (fun err t => err = .fault (.assertion .timestamp) ∨ GramCall datav.flatten st t) env st := by
  rw [connWritevDatagram, wp_bind, wp_emit, wp_bind]
  refine wp_mono wp_connUpdateTimestamp_same (fun _ u hu => ?_) fun _ _ h => .inl h
  obtain ⟨htrace, hremote⟩ := hu
  have hgrams : sentGrams u.trace = sentGrams st.trace := by
    rw [htrace, sentGrams_append]
    exact List.append_nil _
  -- nothing is accepted before the frame is encoded
  have hnone : GramCall datav.flatten st { u with paccepted := false } := .inl ⟨rfl, hgrams⟩
  rw [wp_bind, wp_modify, wp_bind, wp_get', wp_ite]
  split
  · exact .inr hnone
  rw [vecLenVarint_eq]
  split_ifs with hlen
  swap
  · exact .inr hnone
  have hframe : frameDatagramFramelen datav.flatten.length =
      .ok (1 + uvarintLen datav.flatten.length + datav.flatten.length) := by
    rw [frameDatagramFramelen, putUvarintlen_eq hlen]
    rfl
  rw [wp_bind, hframe, wp_ofExcept]
  dsimp only
  rw [wp_ite]
  split
  · exact .inr hnone
  next hfits =>
  have hvmsg : Moves (GramOrNot datav.flatten) (fun _ => True) env
      (connWriteVmsg destlen (some (.datagram datav)) ts) :=
    moves_connWriteVmsg Emits.gramless (fun _ _ => ⟨rfl, rfl⟩) (fun fr _ => isGram_of_noData)
      (fun _ => rfl) gramOrNot_around (by rintro _ ⟨⟩; exact moves_writeVmsg_datagram) destlen ts
  have hcall {t : St} (ht : GramOrNot datav.flatten { u with paccepted := false } t) :
      GramCall datav.flatten st t := by
    rcases ht with ht | ⟨hp, hsent⟩
    · exact .inl ⟨ht.paccepted, ht.grams.trans hgrams⟩
    · refine .inr ⟨hp, hsent.trans (by rw [hgrams]), ?_⟩
      rw [Fits, ← hremote]
      exact (not_lt.1 hfits).trans (Nat.min_le_left ..)
  exact wp_mono (hvmsg _) (fun _ _ h => hcall h) fun _ _ h => .inr (hcall h.1)

/-- The datagram that a call says it has accepted. -/
def Call.acceptedGram (call : Call) (e : Endp) : List (List UInt8) :=
  match call with
  | .writevDatagram _ datav _ => if e.st.paccepted then [datav.flatten] else []
  | _ => []

/-- What a call sends of datagrams is what it says to have accepted, and that fits. -/
theorem Run.sentGrams_call (h : Run env server settings params e) (hP : call.Plain e)
    {r : Except Err (List UInt8)} (hrun : call.run env e = (r, e')) (hr : call.Continues r) :
    sentGrams e'.st.trace = sentGrams e.st.trace ++ call.acceptedGram e' ∧
      ∀ data ∈ call.acceptedGram e', Fits data e.st.conn.remoteParams.maxDatagramFrameSize := by
  have hnone (hread : ∀ data ts, call ≠ .read data ts)
      (hgram : ∀ destlen datav ts, call ≠ .writevDatagram destlen datav ts) :
      sentGrams e'.st.trace = sentGrams e.st.trace := by
    refine (Call.addsUpTo (k := Event.isGram) (n := 0) (fun _ _ h => isGram_of_noData h)
      (fun _ => rfl) (fun vmsg hvmsg => .of_none ?_) hP hread hrun).1.adds.sentGrams
    cases vmsg with
    | datagram datav =>
      obtain ⟨destlen, ts, rfl⟩ := hvmsg
      exact absurd rfl (hgram destlen datav ts)
    | stream id fin data =>
      exact movesAdds_of_emits
        (movesEmits_writeVmsg_stream (fun _ _ h => isGram_of_control h) (fun _ _ _ => rfl) _ _ _)
  have hsame (hgrams : sentGrams e'.st.trace = sentGrams e.st.trace)
      (hacc : call.acceptedGram e' = []) :
      sentGrams e'.st.trace = sentGrams e.st.trace ++ call.acceptedGram e' ∧
        ∀ data ∈ call.acceptedGram e', Fits data e.st.conn.remoteParams.maxDatagramFrameSize := by
    rw [hacc]
    exact ⟨hgrams.trans (List.append_nil _).symm, by rintro _ ⟨⟩⟩
  cases call with
  | read data ts =>
    cases r with
    | error err => exact absurd rfl (hr.2 data ts)
    | ok record =>
      refine hsame ((h.hears hrun).mono fun ev hev => ?_).adds.sentGrams rfl
      cases ev with
      | txFr => cases hev
      | _ => rfl
  | writevDatagram destlen datav ts =>
    have hwp : wp (liftM (connWritevDatagram destlen datav ts) : R (List UInt8))
        (fun _ e' => GramCall datav.flatten e.st e'.st)
        (fun err e' => err = .fault (.assertion .timestamp) ∨ GramCall datav.flatten e.st e'.st)
        env e := by
      rw [wp_liftM]
      exact wp_connWritevDatagram_gramCall
    have hcall : GramCall datav.flatten e.st e'.st := by
      cases r with
      | ok record => exact hwp.of_ok hrun
      | error err =>
        rcases hwp.of_error hrun with rfl | hcall
        · cases hr.1
        · exact hcall
    rw [Call.acceptedGram]
    rcases hcall with ⟨hp, hgrams⟩ | ⟨hp, hgrams, hfits⟩
    · rw [hp]
      exact ⟨hgrams.trans (List.append_nil _).symm, by rintro _ ⟨⟩⟩
    · rw [hp]
      exact ⟨hgrams, fun data hdata => List.mem_singleton.1 hdata ▸ hfits⟩
  | _ => exact hsame (hnone (by rintro _ _ ⟨⟩) (by rintro _ _ _ ⟨⟩)) rfl

/-! ## Runs -/

/-- What every step keeps, other than those about early data, every call keeps, other than
    those about early data. -/
theorem Run.keep_call (h : Run env server settings params e) (hP : call.Plain e)
    (hearly : ∀ params, call ≠ .set0rttRemoteTransportParams params)
    {r : Except Err (List UInt8)} (hrun : call.run env e = (r, e')) (hr : call.Continues r)
    {P : St → Prop} (hstep : ∀ l c c', Step env.Passive l c c' → l ≠ .early → l ≠ .reject →
      P c.st → P c'.st) (hp : P e.st) : P e'.st := by
  obtain ⟨c, hc, -⟩ := h.steps
  have hsteps := Steps.timed (h.sound_new env.Passive)
  have hG : Timed env.Passive fun c =>
      Steps env.Passive (Cfg.new server settings params) c ∧ P c.st :=
    { inv := fun c hc => hsteps.inv c hc.1
      write := fun c hc => hsteps.write c hc.1
      send := fun c hc => hsteps.send c hc.1
      step := fun c c' hc hs => ⟨hsteps.step c c' hc.1 hs, hstep _ _ _ hs nofun nofun hc.2⟩
      time := fun c c' hc hs => ⟨hsteps.time c c' hc.1 hs, hstep _ _ _ hs nofun nofun hc.2⟩ }
  have hat : At (fun c => Steps env.Passive (Cfg.new server settings params) c ∧ P c.st) e c :=
    { hc with mem := ⟨hc.mem, hc.st ▸ hp⟩ }
  have hspec := Call.spec hG hat
    (fun l c c' hc hs he hr => ⟨hc.1.tail hs, hstep l c c' hs he hr hc.2⟩) call hP.legal
    (fun ⟨params, h⟩ => absurd h (hearly params)) fun h => absurd h hP.reject
  cases r with
  | ok r =>
    obtain ⟨c', hc', -⟩ := hspec.of_ok hrun
    exact hc'.st ▸ hc'.mem.2
  | error err =>
    obtain ⟨c', hc', -⟩ := (hspec.of_error hrun).benign hr.1 hr.2
    exact hc'.st ▸ hc'.mem.2

/-- A plain call; the limits that it sets up for early data allow no datagrams above `max`. -/
def Call.Remembers (max : ℕ) (call : Call) (e : Endp) : Prop :=
  call.Plain e ∧
    ∀ params, call = .set0rttRemoteTransportParams params → params.maxDatagramFrameSize ≤ max

/-- The limit on datagrams is at most `max`, or is one that came from the peer. -/
def GramLimit (max : ℕ) (trace : List Event) (n : ℕ) : Prop :=
  n ≤ max ∨ ∃ params, Event.rxFr (.qxTransportParameters params) ∈ trace ∧
    params.maxDatagramFrameSize = n

/-- Every datagram that was sent kept to such a limit. -/
structure GramsWithin (max : ℕ) (st : St) : Prop where
  remote : GramLimit max st.trace st.conn.remoteParams.maxDatagramFrameSize
  sent : ∀ data ∈ sentGrams st.trace, ∃ n, GramLimit max st.trace n ∧ Fits data n

theorem GramLimit.append {trace evs : List Event} {n : ℕ} (h : GramLimit max trace n) :
    GramLimit max (trace ++ evs) n :=
  h.imp_right fun ⟨params, hmem, hn⟩ => ⟨params, List.mem_append_left _ hmem, hn⟩

/-- A step other than those about early data leaves the limit, or takes it from the peer. -/
theorem Step.gramLimit {quiet : Prop} {l : Label} {c c' : Cfg} (h : Step quiet l c c')
    (he : l ≠ .early) (hr : l ≠ .reject)
    (hc : GramLimit max c.st.trace c.st.conn.remoteParams.maxDatagramFrameSize) :
    GramLimit max c'.st.trace c'.st.conn.remoteParams.maxDatagramFrameSize := by
  obtain ⟨evs, htrace, -⟩ := h.trace
  rcases h.remoteParams_cases he hr with hsame | hcame
  · have hsame : c'.st.conn.remoteParams = c.st.conn.remoteParams := hsame
    rw [hsame, htrace]
    exact hc.append
  · exact .inr ⟨_, hcame, rfl⟩

/-- What setting up early data does to the limit. -/
theorem set0rtt_gramLimit {early : TransportParams} {r : Except Err (List UInt8)}
    (hrun : (Call.set0rttRemoteTransportParams early).run env e = (r, e'))
    (hr : (Call.set0rttRemoteTransportParams early).Continues r) :
    e'.st.trace = e.st.trace ∧
      e'.st.conn.remoteParams.maxDatagramFrameSize = early.maxDatagramFrameSize := by
  have hwp : wp (Call.run (.set0rttRemoteTransportParams early))
      (fun _ e' => e'.st.trace = e.st.trace ∧
        e'.st.conn.remoteParams.maxDatagramFrameSize = early.maxDatagramFrameSize)
      (fun err _ => err.isBenign = false) env e := by
    rw [Call.run, wp_liftM, wp_bind, connSet0rttRemoteTransportParams, wp_bind, wp_get', wp_bind,
      wp_assertThat]
    split
    · exact ⟨rfl, rfl⟩
    · rfl
  cases r with
  | ok r => exact hwp.of_ok hrun
  | error err => exact absurd hr.1 (by simp [hwp.of_error hrun])

/-- What is known of the datagrams stays known. -/
theorem GramsWithin.of_call (h : Run env server settings params e) (hP : call.Remembers max e)
    {r : Except Err (List UInt8)} (hrun : call.run env e = (r, e')) (hr : call.Continues r)
    (hc : GramsWithin max e.st) : GramsWithin max e'.st := by
  obtain ⟨hgrams, hfits⟩ := h.sentGrams_call hP.1 hrun hr
  obtain ⟨hremote, evs, htrace⟩ :
      GramLimit max e'.st.trace e'.st.conn.remoteParams.maxDatagramFrameSize ∧
        ∃ evs, e'.st.trace = e.st.trace ++ evs := by
    by_cases hearly : ∃ params, call = .set0rttRemoteTransportParams params
    · obtain ⟨early, rfl⟩ := hearly
      obtain ⟨htrace, hmax⟩ := set0rtt_gramLimit hrun hr
      exact ⟨.inl (hmax.trans_le (hP.2 early rfl)), [], htrace.trans (List.append_nil _).symm⟩
    · refine h.keep_call hP.1 (fun params hcall => hearly ⟨params, hcall⟩) hrun hr
        (P := fun st => GramLimit max st.trace st.conn.remoteParams.maxDatagramFrameSize ∧
          ∃ evs, st.trace = e.st.trace ++ evs)
        (fun l c c' hs he hr hc => ?_) ⟨hc.remote, [], (List.append_nil _).symm⟩
      obtain ⟨evs, htrace⟩ := hc.2
      obtain ⟨evs', htrace', -⟩ := hs.trace
      exact ⟨hs.gramLimit he hr hc.1, evs ++ evs', by rw [htrace', htrace, List.append_assoc]⟩
  refine ⟨hremote, fun data hdata => ?_⟩
  rw [hgrams, List.mem_append] at hdata
  rw [htrace]
  rcases hdata with hdata | hdata
  · obtain ⟨n, hn, hdata⟩ := hc.sent data hdata
    exact ⟨n, hn.append, hdata⟩
  · exact ⟨_, hc.remote.append, hfits data hdata⟩

theorem gramsWithin_of_run (hp : Created params)
    (h : (endpoint env (Call.Remembers max)).Run (.new server settings params) e inp out) :
    GramsWithin max e.st := by
  refine h.keep (I := fun e _ _ => GramsWithin max e.st) ⟨.inl (Nat.zero_le max), by rintro _ ⟨⟩⟩
    fun e _ _ _ _ e' hrun hc hs => ?_
  obtain ⟨call, r, hP, hcall, hr, -⟩ := hs
  have hplain : (endpoint env Call.Plain).Run _ e _ _ :=
    hrun.mono fun _ _ _ _ ⟨call, r, hP, hs⟩ => ⟨call, r, hP.1, hs⟩
  exact hc.of_call (hp.run hplain) hP hcall hr

/-! ## The two ends -/

/-- Two new connections and what they were led to; the left one remembers no limit on
    datagrams that is above the one of the right one. -/
structure Remembering (envA envB : Env) (serverA serverB : Bool) (settingsA settingsB : Settings)
    (paramsA paramsB : TransportParams) (d : Duplex Endp Endp UInt8) : Prop where
  left : Created paramsA
  right : Created paramsB
  reaches : Duplex.Reaches (endpoint envA (Call.Remembers paramsB.maxDatagramFrameSize))
    (endpoint envB Call.Plain) (.new serverA settingsA paramsA) (.new serverB settingsB paramsB) d

theorem Remembering.linked
    (h : Remembering envA envB serverA serverB settingsA settingsB paramsA paramsB d) :
    Linked envA envB serverA serverB settingsA settingsB paramsA paramsB d where
  left := h.left
  right := h.right
  reaches := h.reaches.mono_left fun _ _ _ _ ⟨call, r, hP, hs⟩ => ⟨call, r, hP.1, hs⟩

/-- Neither endpoint comes first. -/
theorem Linked.swap
    (h : Linked envA envB serverA serverB settingsA settingsB paramsA paramsB d) :
    Linked envB envA serverB serverA settingsB settingsA paramsB paramsA d.swap :=
  ⟨h.right, h.left, h.reaches.swap⟩

/-- The limit on datagrams that came from the other endpoint is its own. -/
theorem Linked.gramLimit
    (h : Linked envA envB serverA serverB settingsA settingsB paramsA paramsB d)
    (hmem : Event.rxFr (.qxTransportParameters params) ∈ d.right.st.trace) :
    params.maxDatagramFrameSize = paramsA.maxDatagramFrameSize := by
  obtain ⟨done, cur, taken, ts, hd⟩ := h.delivery
  obtain ⟨x, y, hruns⟩ := Duplex.reaches_runs h.reaches
  obtain ⟨i, hleft, -⟩ := hruns.left
  obtain ⟨done, cur, hrec⟩ := endpoint_recorded h.left hleft
  have hlocal := (h.left.run hleft).localParams
  have htoken :
      Token.frame (.qxTransportParameters params) ∈ headsOf (sentFrames d.left.st.trace) :=
    hd.frames.1.subset (List.mem_flatMap.2 ⟨_, hmem, List.mem_singleton_self _⟩)
  obtain ⟨fr, hfr, hhead⟩ := List.mem_flatMap.1 htoken
  cases fr with
  | qxTransportParameters params' =>
    have hparams := Frame.qxTransportParameters.inj (Token.frame.inj (List.mem_singleton.1 hhead))
    rcases (hrec.sends h.left hlocal).first with hempty | ⟨frs, hfrs, hord⟩
    · rw [hempty] at hfr
      cases hfr
    · rw [hfrs, List.mem_cons] at hfr
      rcases hfr with hfr | hfr
      · cases hfr
        rw [hparams, hlocal]
        rfl
      · exact (hord _ hfr).elim
  | padding n => cases (List.mem_replicate.1 hhead).2
  | _ => cases List.mem_singleton.1 hhead

/-- What an endpoint sends of datagrams is what its calls say they have accepted, one after
    another. Each of those is within the limit of the other endpoint, which passes on their
    bytes, each datagram once and in order, with its length and the offset in it, and the end
    told of the last byte. Once the channel is empty and no record is under construction,
    nothing of them is missing. -/
theorem linked_grams
    (h : Remembering envA envB serverA serverB settingsA settingsB paramsA paramsB d) :
    (∀ (call : Call) r e', call.Plain d.left → call.run envA d.left = (r, e') →
      call.Continues r →
        sentGrams e'.st.trace = sentGrams d.left.st.trace ++ call.acceptedGram e') ∧
    (∀ data ∈ sentGrams d.left.st.trace,
      Fits data d.right.st.conn.localParams.maxDatagramFrameSize) ∧
    d.right.st.trace.flatMap Event.grams <+: gramsOf (sentGrams d.left.st.trace) ∧
      (d.toRight = [] → d.left.st.conn.tx.qre.started = false →
        d.right.st.trace.flatMap Event.grams = gramsOf (sentGrams d.left.st.trace)) := by
  have hlinked := h.linked
  obtain ⟨hleft, -⟩ := hlinked.run_left
  obtain ⟨hright, -⟩ := hlinked.run_right
  obtain ⟨done, cur, taken, ts, hd⟩ := hlinked.delivery
  refine ⟨fun call r e' hP hrun hr => (hleft.sentGrams_call hP hrun hr).1, fun data hdata => ?_,
    hd.grams⟩
  obtain ⟨x, y, hruns⟩ := Duplex.reaches_runs h.reaches
  obtain ⟨i, hrun, -⟩ := hruns.left
  obtain ⟨n, hn, hfits⟩ := (gramsWithin_of_run h.left hrun).sent data hdata
  rw [hright.localParams]
  rcases hn with hn | ⟨params, hmem, rfl⟩
  · exact hfits.trans hn
  · exact hfits.trans_eq (hlinked.swap.gramLimit hmem)

/-! ## Early data -/

/-- Limits that a client remembers, with this one on datagrams. -/
def earlyParams (max : ℕ) : TransportParams := { netParams with maxDatagramFrameSize := max }

/-- A client that remembers limits, and a server. -/
def earlyStart (max : ℕ) : Duplex Endp Endp UInt8 where
  left := ((Call.set0rttRemoteTransportParams (earlyParams max)).run Env.quiet
    (.new false smallSettings netParams)).2
  right := .new true smallSettings netParams
  toRight := []
  toLeft := []

theorem earlyStart_step (max : ℕ) {P Q : Call → Endp → Prop}
    (hP : P (.set0rttRemoteTransportParams (earlyParams max))
      (.new false smallSettings netParams)) :
    Duplex.Step (endpoint Env.quiet P) (endpoint Env.quiet Q)
      (Duplex.init (.new false smallSettings netParams) (.new true smallSettings netParams))
      (earlyStart max) :=
  .left (u := []) (v := []) ⟨_, .ok [], hP, rfl, trivial, rfl, rfl⟩ rfl

theorem plain_earlyParams (max : ℕ) : (Call.set0rttRemoteTransportParams (earlyParams max)).Plain
    (.new false smallSettings netParams) where
  legal := by
    have hb : netParams.Bounded :=
      ⟨by decide, by decide, by decide, by decide, by decide, by decide⟩
    exact ⟨{ hb with }, rfl, rfl, rfl, rfl⟩
  close _ _ _ := by rintro ⟨⟩
  reject := by rintro ⟨⟩

/-- A client that remembers a low limit sends a datagram before it knows the server, which
    reads it. -/
def earlyGram : Option (Duplex Endp Endp UInt8) :=
  play Env.quiet Env.quiet [(true, .call (.writevDatagram 100 [[7, 8], [9]] 0)),
    (true, .call (.writeRecord 100 0)), (false, .read 9 0), (false, .read 100 0)] (earlyStart 50)

theorem linked_grams_early :
    ∃ d, Remembering Env.quiet Env.quiet false true smallSettings smallSettings netParams netParams
        d ∧ sentGrams d.left.st.trace = [[7, 8, 9]] ∧
      d.right.st.trace.flatMap Event.grams = gramsOf [[7, 8, 9]] := by
  have hplay : earlyGram.any (fun d => sentGrams d.left.st.trace == [[7, 8, 9]] &&
      d.toRight.isEmpty && !d.left.st.conn.tx.qre.started) = true := by decide +kernel
  obtain ⟨d, hd, hp⟩ := (Option.any_eq_true _ _).1 hplay
  rw [Bool.and_eq_true, Bool.and_eq_true, beq_iff_eq, List.isEmpty_iff, Bool.not_eq_true'] at hp
  have hnet : Created netParams := ⟨by decide, by decide, by decide, by decide⟩
  have hremembers : (Call.set0rttRemoteTransportParams (earlyParams 50)).Remembers
      netParams.maxDatagramFrameSize (.new false smallSettings netParams) := by
    refine ⟨plain_earlyParams 50, ?_⟩
    rintro _ ⟨⟩
    decide
  have hplain (call : Call) (e : Endp) (h : call.isPlain = true) :
      call.Remembers netParams.maxDatagramFrameSize e :=
    ⟨call.plain_of_isPlain e h, by rintro _ rfl; cases h⟩
  have h : Remembering Env.quiet Env.quiet false true smallSettings smallSettings netParams
      netParams d :=
    ⟨hnet, hnet, reaches_of_play hplain Call.plain_of_isPlain
      (.single (earlyStart_step 50 hremembers)) hd⟩
  refine ⟨d, h, hp.1.1, ?_⟩
  rw [← hp.1.1]
  exact (linked_grams h).2.2.2 hp.1.2 hp.2

/-- A datagram of 120 bytes. -/
def longGram : Call := .writevDatagram 300 [List.replicate 120 0] 0

/-- A client that remembers a limit above the one of the server has a datagram accepted that
    is too long for the server. -/
theorem not_linked_grams : ∃ (d : Duplex Endp Endp UInt8) (call : Call) (r : _) (e' : Endp),
    LinkedSmall d ∧ call.Plain d.left ∧ call.run Env.quiet d.left = (r, e') ∧ call.Continues r ∧
      ∃ data ∈ call.acceptedGram e',
        ¬Fits data d.right.st.conn.localParams.maxDatagramFrameSize := by
  have hnet : Created netParams := ⟨by decide, by decide, by decide, by decide⟩
  obtain ⟨x, hx⟩ : ∃ x, longGram.run Env.quiet (earlyStart 200).left = x := ⟨_, rfl⟩
  have hcall : (longGram.continues (longGram.run Env.quiet (earlyStart 200).left).1 &&
      longGram.acceptedGram (longGram.run Env.quiet (earlyStart 200).left).2 ==
        [List.replicate 120 0]) = true := by decide +kernel
  rw [hx, Bool.and_eq_true, beq_iff_eq] at hcall
  refine ⟨earlyStart 200, longGram, x.1, x.2,
    ⟨hnet, hnet, .single (earlyStart_step 200 (plain_earlyParams 200))⟩,
    Call.plain_of_isPlain _ _ rfl, hx, Call.continues_iff hcall.1, List.replicate 120 0, ?_, ?_⟩
  · rw [hcall.2]
    exact List.mem_singleton_self _
  · decide +kernel

end Dwnx
