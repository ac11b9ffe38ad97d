import Dwnx.Accepted
import Dwnx.Net

/-!
# The data of streams, from end to end

* `linked_data`: what an endpoint passes on of a stream is what was accepted for it by the
  other, up to where it has arrived or is read no more, and the end is told where it is.
-/

namespace Dwnx

variable {envA envB : Env} {serverA serverB : Bool} {settingsA settingsB : Settings}
  {paramsA paramsB : TransportParams} {d : Duplex Endp Endp UInt8} {frs : List Frame}
  {trace : List Event} {id : ℕ}

/-! ## Histories -/

/-- The data of the stream that is passed on. -/
def Event.passed (id : ℕ) : Event → List UInt8
  | .recvStreamData _ streamId _ data => if streamId = id then data else []
  | _ => []

/-- The data of the stream that was passed on. -/
def passedData (trace : List Event) (id : ℕ) : List UInt8 := trace.flatMap (Event.passed id)

/-- The data of the stream that was accepted. -/
def acceptedData (trace : List Event) (id : ℕ) : List UInt8 :=
  (streamsAccepted trace).flatMap fun x => if x.1 = id then x.2.1 else []

/-- The end of the stream was accepted. -/
def FinAccepted (trace : List Event) (id : ℕ) : Prop :=
  ∃ data, Event.accepted id data true ∈ trace

/-- The bytes of the stream in a frame. -/
def Frame.bytes (id : ℕ) : Frame → List UInt8
  | .stream fr => if fr.streamId = id then fr.data.flatten.take fr.len else []
  | _ => []

theorem sentData_eq_streams :
    sentData trace id = (streamsSent trace).flatMap fun x => if x.1 = id then x.2.1 else [] := by
  induction trace with
  | nil => rfl
  | cons e trace ih =>
    rw [sentData, List.flatMap_cons, streamsSent, List.filterMap_cons]
    have hrest := congrArg (e.sentData id ++ ·) ih
    cases e with
    | txFr fr => cases fr <;> exact hrest
    | _ => exact hrest

theorem sentData_eq_frames : sentData trace id = (sentFrames trace).flatMap (Frame.bytes id) := by
  induction trace with
  | nil => rfl
  | cons e trace ih =>
    rw [sentData, List.flatMap_cons, sentFrames, List.filterMap_cons]
    have hrest := congrArg (e.sentData id ++ ·) ih
    cases e with
    | txFr fr => cases fr <;> exact hrest
    | _ => exact hrest

/-- All of the data that is heard of is passed on, until the stream is read no more. -/
theorem heard_eq (h : Along Event.HeardWell trace) (hr : ∀ e ∈ trace, e.isRejected = false)
    (id : ℕ) :
    ∃ k, trace.flatMap (Event.heard id) = (passedData trace id).map some ++ List.replicate k none ∧
      (0 < k → Stopped trace id) := by
  induction trace using List.reverseRecOn with
  | nil => exact ⟨0, rfl, by simp⟩
  | append_singleton pre e ih =>
    have hpre : ∀ e ∈ pre, e.isRejected = false := fun e he => hr e (List.mem_append_left _ he)
    obtain ⟨hpref, hlast⟩ := along_concat.1 h
    obtain ⟨k, hk, hstop⟩ := ih hpref hpre
    have hpassed : passedData (pre ++ [e]) id = passedData pre id ++ e.passed id := by
      rw [passedData, List.flatMap_append, List.flatMap_singleton]
      rfl
    have hother (hheard : e.heard id = []) (hnone : e.passed id = []) :
        ∃ k, List.flatMap (Event.heard id) (pre ++ [e]) =
            (passedData (pre ++ [e]) id).map some ++ List.replicate k none ∧
          (0 < k → Stopped (pre ++ [e]) id) := by
      refine ⟨k, ?_, fun h => (hstop h).append⟩
      rw [List.flatMap_append, List.flatMap_singleton, hk, hpassed, hheard, hnone, List.append_nil,
        List.append_nil]
    cases e with
    | recvStreamData fin streamId offset data =>
      by_cases hid : streamId = id
      · subst hid
        by_cases hdata : data = []
        · subst hdata
          exact hother (if_pos rfl) (if_pos rfl)
        · -- so far nothing was dropped
          obtain ⟨-, -, -, hnot, -⟩ := hlast
          rw [recent_of_unrejected hpre] at hnot
          obtain rfl : k = 0 := Nat.eq_zero_of_not_pos fun h => hnot hdata (hstop h)
          refine ⟨0, ?_, fun h => absurd h (lt_irrefl 0)⟩
          rw [List.flatMap_append, List.flatMap_singleton, hk, hpassed, Event.heard, Event.passed,
            if_pos rfl, if_pos rfl, List.map_append, List.replicate_zero, List.append_nil,
            List.append_nil]
      · exact hother (if_neg hid) (if_neg hid)
    | discarded streamId len =>
      by_cases hid : streamId = id
      · subst hid
        rw [Event.HeardWell, recent_of_unrejected hpre] at hlast
        have hnone : Event.passed streamId (.discarded streamId len) = [] := rfl
        refine ⟨k + len, ?_, fun _ => hlast.append⟩
        rw [List.flatMap_append, List.flatMap_singleton, hk, hpassed, Event.heard, if_pos rfl,
          List.append_assoc, ← List.replicate_add, hnone, List.append_nil]
      · exact hother (if_neg hid) rfl
    | _ => exact hother rfl rfl

theorem prefix_of_agrees {l bs : List UInt8} {m : List (Option UInt8)}
    (h : List.Forall₂ Agrees (l.map some ++ m) bs) :
    ∃ rest, bs = l ++ rest ∧ rest.length = m.length := by
  induction l generalizing bs with
  | nil => exact ⟨bs, rfl, h.length_eq.symm⟩
  | cons b l ih =>
    cases h with
    | cons hb h =>
      obtain ⟨rest, rfl, hlen⟩ := ih h
      obtain rfl := Option.some.inj (hb.resolve_left (by simp))
      exact ⟨rest, rfl, hlen⟩

/-- After the frame with FIN there is no data, and no other end. -/
theorem sentData_of_fin (h : Along Event.SentWell trace) (hr : ∀ e ∈ trace, e.isRejected = false)
    {fr : FrameStream} (hmem : Event.txFr (.stream fr) ∈ trace) (hfin : fr.fin = true) :
    (sentData trace fr.streamId).length = fr.offset + fr.len := by
  obtain ⟨pre, post, rfl⟩ := List.append_of_mem hmem
  have hrecent (l m : List Event) (hl : pre ++ .txFr (.stream fr) :: post = l ++ m) :
      recent l = l := recent_of_unrejected fun e he => hr e (hl ▸ List.mem_append_left m he)
  obtain ⟨hoff, hlen, -⟩ := h pre _ post rfl
  rw [hrecent pre _ rfl] at hoff
  have hpost : sentData post fr.streamId = [] := by
    refine List.flatMap_eq_nil_iff.2 fun e he => ?_
    obtain ⟨l, m, rfl⟩ := List.append_of_mem he
    have hsplit : pre ++ .txFr (.stream fr) :: (l ++ e :: m) =
        (pre ++ .txFr (.stream fr) :: l) ++ e :: m := by simp
    have hwell := h _ e m hsplit
    cases e with
    | txFr fr' =>
      cases fr' with
      | stream fr' =>
        refine if_neg fun hid => ?_
        rw [Event.SentWell, hrecent _ _ hsplit, hid] at hwell
        exact hwell.2.2 ⟨fr, List.mem_append_right _ List.mem_cons_self, rfl, hfin⟩
      | _ => rfl
    | _ => rfl
  have hdata : sentData (pre ++ .txFr (.stream fr) :: post) fr.streamId =
      sentData pre fr.streamId ++ (fr.data.flatten.take fr.len ++ sentData post fr.streamId) := by
    rw [sentData, List.flatMap_append, List.flatMap_cons, Event.sentData, if_pos rfl]
    rfl
  rw [hdata, hpost, List.append_nil, List.length_append, List.length_take_of_le hlen, hoff]

/-! ## Tokens -/

theorem Frame.Sendable.filter_bytes {fr : Frame} (h : fr.Sendable) :
    fr.received.tokens.filterMap (Token.byte? id) = fr.bytes id := by
  have hhead : fr.received.head.filterMap (Token.byte? id) = [] :=
    (filters_of_isFrame fun x hx => fr.received.isFrame_head hx).2.2 id
  cases fr with
  | stream fr =>
    rw [Frame.received] at hhead
    rw [Frame.received, Frame.tokens, List.filterMap_append, hhead, List.nil_append,
      bytes_streamTokens, flatten_vecsOf]
    rfl
  | datagram fr =>
    have htype : fr.type = FrameType.datagramLen := by
      rcases h.2 with ⟨params, hn⟩ | hord
      · cases hn
      · exact hord
    have hgrams := (filters_of_isGram fun (x : Token)
      (hx : x ∈ gramTokens fr.len 0 true (vecsOf fr.data.flatten).flatten) =>
        isGram_gramTokens hx).2.2 id
    rw [Frame.received] at hhead
    rw [Frame.received, Frame.tokens, if_neg (by rw [htype]; decide), List.filterMap_append, hhead,
      hgrams]
    rfl
  | _ => exact hhead

theorem filterMap_bytes (h : ∀ fr ∈ frs, fr.Sendable) :
    (tokensOf frs).filterMap (Token.byte? id) = frs.flatMap (Frame.bytes id) := by
  induction frs with
  | nil => rfl
  | cons fr frs ih =>
    have hfr : fr.received.tokens.filterMap (Token.byte? id) = fr.bytes id :=
      (h fr List.mem_cons_self).filter_bytes
    have hfrs := ih fun fr hmem => h fr (List.mem_cons_of_mem _ hmem)
    rw [tokensOf, List.flatMap_cons, List.filterMap_append, hfr, List.flatMap_cons]
    exact congrArg _ hfrs

/-- The two frames are of the same data of the same stream. -/
structure FrameStream.Same (fr fr' : FrameStream) : Prop where
  streamId : fr.streamId = fr'.streamId
  offset : fr.offset = fr'.offset
  len : fr.len = fr'.len
  fin : fr.fin = fr'.fin

/-- A STREAM frame that was logged as received is one that was sent. -/
theorem exists_sent {fr : FrameStream} (h : trace.flatMap Event.heads <+: headsOf frs)
    (hmem : Event.rxFr (.stream fr) ∈ trace) :
    ∃ fr' : FrameStream, .stream fr' ∈ frs ∧ fr'.Same fr := by
  have htoken : Token.frame (.stream { fr with data := [] }) ∈ headsOf frs :=
    h.subset (List.mem_flatMap.2 ⟨_, hmem, List.mem_singleton_self _⟩)
  obtain ⟨fr', hfr', hhead⟩ := List.mem_flatMap.1 htoken
  cases fr' with
  | stream fr' =>
    have hstream := Frame.stream.inj (Token.frame.inj (List.mem_singleton.1 hhead))
    obtain ⟨-, hfin, hid, hoffset, hlen, -⟩ := FrameStream.mk.inj hstream
    exact ⟨fr', hfr', hid.symm, hoffset.symm, hlen.symm, hfin.symm⟩
  | padding n => cases (List.mem_replicate.1 hhead).2
  | _ => cases List.mem_singleton.1 hhead

/-- A STREAM frame that was sent was logged as received, once all of them were. -/
theorem exists_received {fr : FrameStream} (h : trace.flatMap Event.heads = headsOf frs)
    (hmem : .stream fr ∈ frs) :
    ∃ fr' : FrameStream, Event.rxFr (.stream fr') ∈ trace ∧ fr.Same fr' := by
  have htoken : Token.frame (.stream { fr with
      flags := fr.typeByte - FrameType.stream
      data := [] }) ∈ trace.flatMap Event.heads := by
    rw [h]
    exact List.mem_flatMap.2 ⟨_, hmem, List.mem_singleton_self _⟩
  obtain ⟨e, he, hhead⟩ := List.mem_flatMap.1 htoken
  cases e with
  | rxFr fr' =>
    cases fr' with
    | stream fr' =>
      have hstream := Frame.stream.inj (Token.frame.inj (List.mem_singleton.1 hhead))
      obtain ⟨-, hfin, hid, hoffset, hlen, -⟩ := FrameStream.mk.inj hstream
      exact ⟨fr', he, hid, hoffset, hlen, hfin⟩
    | padding n => cases (List.mem_replicate.1 hhead).2
    | _ => cases List.mem_singleton.1 hhead
  | _ => cases hhead

/-! ## Streams -/

theorem Linked.run_left
    (h : Linked envA envB serverA serverB settingsA settingsB paramsA paramsB d) :
    Run envA serverA settingsA paramsA d.left ∧ ∀ e ∈ d.left.st.trace, e.isRejected = false := by
  obtain ⟨x, y, hruns⟩ := Duplex.reaches_runs h.reaches
  obtain ⟨i, hleft, -⟩ := hruns.left
  exact ⟨h.left.run hleft, endpoint_unrejected h.left hleft⟩

theorem Linked.run_right
    (h : Linked envA envB serverA serverB settingsA settingsB paramsA paramsB d) :
    Run envB serverB settingsB paramsB d.right ∧
      ∀ e ∈ d.right.st.trace, e.isRejected = false := by
  obtain ⟨x, y, hruns⟩ := Duplex.reaches_runs h.reaches
  obtain ⟨i, hright, -⟩ := hruns.right
  exact ⟨h.right.run hright, endpoint_unrejected h.right hright⟩

/-- What was accepted is what was sent. -/
theorem Run.acceptedData {env : Env} {server : Bool} {settings : Settings}
    {params : TransportParams} {e : Endp} (h : Run env server settings params e) :
    Dwnx.acceptedData e.st.trace id = sentData e.st.trace id := by
  rw [sentData_eq_streams, h.streamsSent_eq]
  rfl

/-- The end is accepted once a frame with it was sent. -/
theorem Run.finAccepted {env : Env} {server : Bool} {settings : Settings}
    {params : TransportParams} {e : Endp} (h : Run env server settings params e) :
    FinAccepted e.st.trace id ↔ FinSent e.st.trace id := by
  have hexact := h.streamsSent_eq
  constructor
  · rintro ⟨data, hmem⟩
    have hsent : (id, data, true) ∈ streamsSent e.st.trace := by
      rw [hexact]
      exact List.mem_filterMap.2 ⟨_, hmem, rfl⟩
    obtain ⟨ev, hev, hdata⟩ := List.mem_filterMap.1 hsent
    cases ev with
    | txFr fr =>
      cases fr with
      | stream fr =>
        obtain ⟨hid, hdata⟩ := Prod.mk.inj (Option.some.inj hdata)
        exact ⟨fr, hev, hid, (Prod.mk.inj hdata).2⟩
      | _ => cases hdata
    | _ => cases hdata
  · rintro ⟨fr, hmem, rfl, hfin⟩
    have hacc : (fr.streamId, fr.data.flatten.take fr.len, true) ∈ streamsAccepted e.st.trace := by
      rw [← hexact, ← hfin]
      exact List.mem_filterMap.2 ⟨_, hmem, rfl⟩
    obtain ⟨ev, hev, hdata⟩ := List.mem_filterMap.1 hacc
    cases ev with
    | accepted =>
      cases hdata
      exact ⟨_, hev⟩
    | _ => cases hdata

/-- What an endpoint passes on of a stream are the first bytes accepted by the other, in
    their order. It tells the end of the stream only where the end was accepted and, unless
    it has stopped reading, all that was accepted has been passed on. Once the channel is
    empty and no record is under construction, nothing is missing, the end included. -/
theorem linked_data
    (h : Linked envA envB serverA serverB settingsA settingsB paramsA paramsB d) (id : ℕ) :
    passedData d.right.st.trace id <+: acceptedData d.left.st.trace id ∧
      (FinHeard d.right.st.trace id → FinAccepted d.left.st.trace id ∧
        (¬Stopped d.right.st.trace id →
          passedData d.right.st.trace id = acceptedData d.left.st.trace id)) ∧
      (d.toRight = [] → d.left.st.conn.tx.qre.started = false → ¬Stopped d.right.st.trace id →
        passedData d.right.st.trace id = acceptedData d.left.st.trace id ∧
          (FinAccepted d.left.st.trace id → FinHeard d.right.st.trace id)) := by
  obtain ⟨done, cur, taken, ts, hd⟩ := h.delivery
  obtain ⟨hleft, hunl⟩ := h.run_left
  obtain ⟨hright, hunr⟩ := h.run_right
  obtain ⟨hwell, hends, hcame⟩ := hright.inOrder
  rw [recent_of_unrejected hunr] at hends hcame
  obtain ⟨hframes, hall⟩ := hd.frames
  have hsent : Along Event.SentWell d.left.st.trace := by
    obtain ⟨c, hat, hdata⟩ := hleft.dataOk
    exact hat.st ▸ hdata.events
  rw [hleft.acceptedData, hleft.finAccepted]
  -- the bytes that were sent are those heard of and those that are on their way
  obtain ⟨k, hheard, hstop⟩ := heard_eq hwell hunr id
  have hbytes : sentData d.left.st.trace id =
      taken.filterMap (Token.byte? id) ++ (ts.filterMap (Token.byte? id) ++
        cur.flatMap (Frame.bytes id)) := by
    rw [sentData_eq_frames, hd.sent, List.flatMap_append, ← filterMap_bytes hd.sendable_done,
      hd.tokens, List.filterMap_append, List.append_assoc]
  have htaken := hd.took.data id
  rw [hheard] at htaken
  obtain ⟨rest, hrest, hlen⟩ := prefix_of_agrees htaken
  rw [List.length_replicate] at hlen
  rw [hrest, List.append_assoc] at hbytes
  have hnone (hns : ¬Stopped d.right.st.trace id) : rest = [] := by
    rw [← List.length_eq_zero_iff, hlen]
    exact Nat.eq_zero_of_not_pos fun hk => hns (hstop hk)
  have hheardLen : heardLen d.right.st.trace id = (passedData d.right.st.trace id).length + k := by
    rw [heardLen, hheard, List.length_append, List.length_map, List.length_replicate]
  refine ⟨⟨_, hbytes.symm⟩, fun hfin => ?_, fun hq hidle hns => ?_⟩
  · -- the end was told where the frame with FIN says
    obtain ⟨offset, data, hmem⟩ := hfin
    obtain ⟨pre, post, htrace⟩ := List.append_of_mem hmem
    obtain ⟨-, -, -, -, hcome⟩ := hwell pre _ post htrace
    obtain ⟨fr, hrx, hid, hfin, hend⟩ := hcome rfl
    have hrx : Event.rxFr (.stream fr) ∈ d.right.st.trace := by
      rw [htrace]
      exact List.mem_append_left _ (mem_of_mem_since hrx)
    obtain ⟨fr', hfr', hsame⟩ := exists_sent hframes hrx
    have hfr' := mem_sentFrames.1 hfr'
    have hfin' := hsame.fin.trans hfin
    have hid' := hsame.streamId.trans hid
    refine ⟨⟨fr', hfr', hid', hfin'⟩, fun hns => ?_⟩
    have htotal := sentData_of_fin hsent hunl hfr' hfin'
    rw [hid', hsame.offset, hsame.len, hend, hends id offset data hmem, hheardLen] at htotal
    have hk : k = 0 := by rw [← hlen, hnone hns, List.length_nil]
    rw [hbytes, List.length_append, hk] at htotal
    rw [hbytes, List.length_eq_zero_iff.1 (Nat.add_left_cancel htotal), List.append_nil]
  · have hrest := hnone hns
    have hk : k = 0 := by rw [← hlen, hrest, List.length_nil]
    have hbytes : passedData d.right.st.trace id = sentData d.left.st.trace id := by
      rw [hbytes, hrest, hd.drained hq, hd.idle hidle]
      exact (List.append_nil _).symm
    refine ⟨hbytes, ?_⟩
    rintro ⟨fr, hmem, rfl, hfin⟩
    obtain ⟨fr', hrx, hsame⟩ := exists_received (hall hq hidle) (mem_sentFrames.2 hmem)
    rcases hcame fr' hrx (hsame.fin.symm.trans hfin) with hheard | hstopped | hless
    · rwa [hsame.streamId]
    · exact absurd (hsame.streamId ▸ hstopped) hns
    · -- all that was sent has been heard of
      have htotal := sentData_of_fin hsent hunl hmem hfin
      rw [← hsame.streamId, ← hsame.offset, ← hsame.len, hheardLen, hbytes, hk, htotal] at hless
      exact absurd hless (lt_irrefl _)

/-- Data with FIN has been read, in two pieces. -/
def endedPlay : PlayTo fun d => acceptedData d.left.st.trace 0 == [1, 2, 3] &&
    .recvStreamData true 0 2 [3] ∈ d.right.st.trace && d.right.st.trace.all fun
      | .scheduled .. => false
      | _ => true where
  turns := greeting ++ messages ++ [(false, .read 7 0), (false, .read 5 0), (false, .read 100 0)]
  any := by decide +kernel

theorem linked_data_ended : ∃ d, LinkedSmall d ∧ FinAccepted d.left.st.trace 0 ∧
    passedData d.right.st.trace 0 = [1, 2, 3] := by
  obtain ⟨d, h, hp⟩ := endedPlay.exists_linked
  rw [Bool.and_eq_true, Bool.and_eq_true, beq_iff_eq, decide_eq_true_eq, List.all_eq_true] at hp
  obtain ⟨⟨hdata, hfin⟩, hnone⟩ := hp
  obtain ⟨-, hend, -⟩ := linked_data h 0
  obtain ⟨hacc, hall⟩ := hend ⟨2, [3], hfin⟩
  refine ⟨d, h, hacc, (hall ?_).trans hdata⟩
  rintro ⟨code, hmem⟩
  cases hnone _ hmem

end Dwnx
