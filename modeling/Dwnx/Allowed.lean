import Dwnx.Credit
import Dwnx.Delivered
import Dwnx.Lts.Window

/-!
# Limits, from end to end

* `linked_limits`: an endpoint keeps to limits that the other has announced, and the other
  enforces none that is stricter. Once everything announced has arrived, those of the
  connection are the same at both ends.
* `linked_window`: the STREAM data that an endpoint has encoded, in all and of each stream,
  and the streams that it has opened are within the limits that the other enforces.
-/

namespace Dwnx

variable {envA envB : Env} {serverA serverB : Bool} {settingsA settingsB : Settings}
  {paramsA paramsB : TransportParams} {d : Duplex Endp Endp UInt8} {frs : List Frame}
  {trace : List Event} {server : Bool} {k : Credit} {id : ℕ}

/-! ## Frames that set limits -/

def Token.allows (server : Bool) (k : Credit) : Token → Option ℕ
  | .frame fr => fr.allows server k
  | _ => none

theorem Frame.allows_received (fr : Frame) : fr.received.allows server k = fr.allows server k := by
  cases fr with
  | qxTransportParameters params => cases k <;> rfl
  | _ => rfl

/-- The head of a frame sets the limit that the frame sets. -/
theorem Frame.filterMap_head (fr : Frame) :
    fr.head.filterMap (Token.allows server k) = (fr.allows server k).toList := by
  have hsingle (x : Token) :
      [x].filterMap (Token.allows server k) = (x.allows server k).toList := by
    cases h : x.allows server k <;> simp [h]
  cases fr with
  | padding n =>
    refine List.filterMap_eq_nil_iff.2 fun x hx => ?_
    rw [(List.mem_replicate.1 hx).2]
    rfl
  | _ => exact hsingle _

theorem filterMap_headsOf (frs : List Frame) :
    (headsOf frs).filterMap (Token.allows server k) = frs.filterMap (Frame.allows server k) := by
  rw [headsOf, List.filterMap_flatMap, List.filterMap_eq_flatMap_toList]
  refine List.flatMap_congr fun fr _ => ?_
  rw [Frame.filterMap_head, Frame.allows_received]

theorem filterMap_heads (trace : List Event) :
    (trace.flatMap Event.heads).filterMap (Token.allows server k) = allowed server k trace := by
  rw [allowed, List.filterMap_flatMap, List.filterMap_eq_flatMap_toList]
  refine List.flatMap_congr fun e _ => ?_
  cases e with
  | rxFr fr => exact fr.filterMap_head
  | _ => rfl

theorem credits_eq (trace : List Event) (k : Credit) :
    credits k trace = (sentFrames trace).filterMap (Frame.credit k) := by
  rw [credits, sentFrames, List.filterMap_filterMap]
  refine List.filterMap_congr fun e _ => ?_
  cases e <;> rfl

/-! ## The two ends -/

/-- The limits that an endpoint has sent: none before its transport parameters, and then
    those of the parameters and those announced. -/
theorem Linked.announced
    (h : Linked envA envB serverA serverB settingsA settingsB paramsA paramsB d) (k : Credit) :
    sentFrames d.left.st.trace = [] ∨
      (sentFrames d.left.st.trace).filterMap (Frame.allows serverA k) =
        paramsA.credit serverA k :: credits k d.left.st.trace := by
  obtain ⟨x, y, hruns⟩ := Duplex.reaches_runs h.reaches
  obtain ⟨i, hleft, -⟩ := hruns.left
  obtain ⟨done, cur, hrec⟩ := endpoint_recorded h.left hleft
  have hlocal := (h.left.run hleft).localParams
  rcases (hrec.sends h.left hlocal).first with hempty | ⟨frs, hfrs, hord⟩
  · exact .inl hempty
  have hallows : (Frame.qxTransportParameters d.left.st.conn.localParams).allows serverA k =
      some (paramsA.credit serverA k) := by
    rw [hlocal]
    cases k <;> rfl
  have hcredit : (Frame.qxTransportParameters d.left.st.conn.localParams).credit k = none := rfl
  refine .inr ?_
  rw [credits_eq, hfrs, List.filterMap_cons_some hallows, List.filterMap_cons_none hcredit,
    List.filterMap_congr fun fr hfr => Frame.allows_eq (hord fr hfr).not_params]

/-- What one endpoint has been allowed is the first part of what the other has announced,
    and all of it once that has arrived. -/
theorem Linked.allowed
    (h : Linked envA envB serverA serverB settingsA settingsB paramsA paramsB d) (k : Credit) :
    Dwnx.allowed serverA k d.right.st.trace <+:
        paramsA.credit serverA k :: credits k d.left.st.trace ∧
      (d.toRight = [] → d.left.st.conn.tx.qre.started = false →
        sentFrames d.left.st.trace ≠ [] → Dwnx.allowed serverA k d.right.st.trace =
          paramsA.credit serverA k :: credits k d.left.st.trace) := by
  obtain ⟨done, cur, taken, ts, hd⟩ := h.delivery
  obtain ⟨hframes, hall⟩ := hd.frames
  have hprefix := hframes.filterMap (Token.allows serverA k)
  rw [filterMap_heads, filterMap_headsOf] at hprefix
  constructor
  · rcases h.announced k with hempty | hannounced
    · rw [hempty] at hprefix
      rw [List.prefix_nil.1 hprefix]
      exact List.nil_prefix
    · exact hannounced ▸ hprefix
  · intro hnone hidle hsent
    rw [← (h.announced k).resolve_left hsent, ← filterMap_headsOf, ← hall hnone hidle,
      filterMap_heads]

section

variable {env : Env} {settings : Settings} {params : TransportParams} {e : Endp}

/-- With nothing pending, the limit of the connection is the last one that was allowed. -/
theorem Cfg.WithinOk.txLimit {c : Cfg} (hc : c.WithinOk) (hidle : c.pending = .idle)
    (peer : Bool) (k : Limit) :
    (0 :: Dwnx.allowed peer k.credit c.st.trace).getLast? = some (c.conn.txLimit k) := by
  obtain ⟨vs, hvs, hlast⟩ := hc.limit peer k
  rw [hidle, Pending.allows_idle, List.append_nil] at hvs
  rw [hvs, hlast]

theorem Cfg.withinOk_new : (Cfg.new server settings params).WithinOk where
  limit _ k := ⟨[], rfl, by cases k <;> rfl⟩
  strm id := by
    refine ⟨by rintro _ ⟨⟩, List.mem_cons.2 (.inl ?_)⟩
    rw [Conn.initialMaxTxOffset_eq, TransportParams.credit]
    split_ifs <;> rfl
  window _ := ⟨0, List.mem_cons_self, le_rfl⟩
  total := rfl

/-- Without early data, an endpoint keeps to what frames have allowed. -/
theorem Run.within (h : Run env server settings params e)
    (hr : ∀ ev ∈ e.st.trace, ev.isRejected = false)
    (hearly : e.st.conn.flags.earlyTransportParamsSet = false) :
    ∃ c, At (Steps env.Passive (Cfg.new server settings params)) e c ∧ Inv c ∧ c.WithinOk := by
  obtain ⟨c, hat, hs, -, -, hc⟩ := h.keep
    (P := fun c => c.HearOk ∧ c.DataOk ∧ ((∀ ev ∈ c.st.trace, ev.isRejected = false) →
      c.conn.flags.earlyTransportParamsSet = false → c.WithinOk))
    ⟨Cfg.hearOk_new, Cfg.dataOk_new, fun _ _ => Cfg.withinOk_new⟩
    fun l c c' hs hc hstep => by
      obtain ⟨hhear, hdata, hwithin⟩ := hc
      refine ⟨hstep.hearOk hs.toInv hhear, hstep.dataOk hs.toInv hdata, fun hr hset => ?_⟩
      -- without early data and rejection until now, the step is neither of them
      obtain ⟨evs, htrace, -⟩ := hstep.trace
      have hl := hstep.ne_reject hr
      have hr₀ : ∀ ev ∈ c.st.trace, ev.isRejected = false := fun ev hev =>
        hr ev (htrace ▸ List.mem_append_left _ hev)
      obtain ⟨hset, he⟩ := hstep.early_unset hl hset
      exact hstep.withinOk hs.toInv he hl (recent_of_unrejected hr₀) hhear hdata (hwithin hr₀ hset)
  refine ⟨c, hat, hs.toInv, hc ?_ ?_⟩
  · rwa [hat.st] at hr
  · rwa [hat.st] at hearly

end

/-- What the left one has allowed is at most its limit. -/
theorem Linked.allowed_le
    (h : Linked envA envB serverA serverB settingsA settingsB paramsA paramsB d) {n v : ℕ}
    (hn : n ∈ 0 :: Dwnx.allowed serverA k d.right.st.trace)
    (hv : d.left.st.conn.rxLimit k = some v) : n ≤ v := by
  obtain ⟨hleft, hunl⟩ := h.run_left
  obtain ⟨v', hrises, hlast⟩ := hleft.rises k
  rw [recent_of_unrejected hunl] at hrises
  rw [hlast v hv]
  rcases List.mem_cons.1 hn with rfl | hn
  · exact Nat.zero_le v'
  · exact hrises.le ((h.allowed k).1.subset hn)

/-- The right one is where it keeps to what it has been allowed. -/
theorem Linked.within
    (h : Linked envA envB serverA serverB settingsA settingsB paramsA paramsB d)
    (hearly : d.right.st.conn.flags.earlyTransportParamsSet = false) :
    ∃ c, d.right.st = c.st ∧ c.pending = .idle ∧ c.conn.server = serverB ∧ Inv c ∧
      c.WithinOk := by
  obtain ⟨hright, hunr⟩ := h.run_right
  obtain ⟨c, hat, hI, hc⟩ := hright.within hunr hearly
  have hserver := hright.server_eq
  rw [hat.st] at hserver
  exact ⟨c, hat.st, hat.between.pending, hserver, hI, hc⟩

/-- A limit of the connection that the right one keeps to is at most that of the left one. -/
theorem Linked.txLimit_le
    (h : Linked envA envB serverA serverB settingsA settingsB paramsA paramsB d)
    (hearly : d.right.st.conn.flags.earlyTransportParamsSet = false) {k : Limit} {v : ℕ}
    (hv : d.left.st.conn.rxLimit k.credit = some v) : d.right.st.conn.txLimit k ≤ v := by
  obtain ⟨c, hst, hidle, -, -, hc⟩ := h.within hearly
  refine h.allowed_le ?_ hv
  rw [hst]
  exact List.mem_of_getLast? (hc.txLimit hidle serverA k)

/-- An endpoint that has not set up early data keeps to limits that the other has announced,
    and the other enforces none that is stricter. Those of the connection are the same once
    the channel is empty and no record is under construction, if the transport parameters
    have been sent. -/
theorem linked_limits
    (h : Linked envA envB serverA serverB settingsA settingsB paramsA paramsB d)
    (hroles : serverA = !serverB)
    (hearly : d.right.st.conn.flags.earlyTransportParamsSet = false) :
    (∀ k : Limit, ∃ n, d.left.st.conn.rxLimit k.credit = some n ∧
      d.right.st.conn.txLimit k ≤ n ∧
      (d.toRight = [] → d.left.st.conn.tx.qre.started = false →
        sentFrames d.left.st.trace ≠ [] → d.right.st.conn.txLimit k = n)) ∧
    ∀ id s s', d.right.st.conn.findStream id = some s →
      d.left.st.conn.findStream id = some s' → s.tx.maxOffset ≤ s'.rx.maxOffset := by
  obtain ⟨hleft, hunl⟩ := h.run_left
  obtain ⟨c, hst, hidle, hserver, -, hc⟩ := h.within hearly
  refine ⟨fun k => ?_, fun id s s' hs hs' => ?_⟩
  · obtain ⟨n, hn⟩ : ∃ n, d.left.st.conn.rxLimit k.credit = some n := by
      cases k <;> exact ⟨_, rfl⟩
    refine ⟨n, hn, h.txLimit_le hearly hn, fun hnone hrecord hsent => ?_⟩
    have htx := hc.txLimit hidle serverA k
    obtain ⟨v, hv, hlast⟩ := hleft.rises k.credit
    rw [recent_of_unrejected hunl] at hv
    rw [← hst, (h.allowed k.credit).2 hnone hrecord hsent, List.getLast?_cons_cons, hv.last,
      ← hlast n hn] at htx
    rw [hst]
    exact (Option.some.inj htx).symm
  · rw [hst] at hs
    have hmem := (hc.strm id).strm s hs
    rw [hserver, ← hroles, ← hst] at hmem
    exact h.allowed_le hmem (Option.map_eq_some_iff.2 ⟨s', hs', rfl⟩)

/-- The left one extends its limit on data, and announces it. -/
def extendedPlay : PlayTo fun d => d.toRight.isEmpty && !d.left.st.conn.tx.qre.started &&
    !(sentFrames d.left.st.trace).isEmpty &&
    !d.right.st.conn.flags.earlyTransportParamsSet && d.left.st.conn.rx.maxOffset == 300 where
  turns := greeting ++ [(true, .call (.app (.extendMaxOffset 100))),
    (true, .call (.writeRecord 100 0)), (false, .read 100 0)]
  any := by decide +kernel

theorem linked_limits_extended : ∃ d, LinkedSmall d ∧ d.right.st.conn.tx.maxOffset = 300 := by
  obtain ⟨d, h, hp⟩ := extendedPlay.exists_linked
  simp only [Bool.and_eq_true, List.isEmpty_iff, Bool.not_eq_true', beq_iff_eq] at hp
  obtain ⟨⟨⟨⟨hnone, hidle⟩, hsent⟩, hearly⟩, hmax⟩ := hp
  obtain ⟨n, hn, -, hsame⟩ := (linked_limits h rfl hearly).1 .data
  refine ⟨d, h, (hsame hnone hidle ?_).trans ((Option.some.inj hn).symm.trans hmax)⟩
  rintro hempty
  rw [hempty] at hsent
  cases hsent

/-- An endpoint that has not set up early data has never encoded more STREAM data, in all or
    of a stream, nor opened more streams, than the other allows it, whatever is still on its
    way. -/
theorem linked_window
    (h : Linked envA envB serverA serverB settingsA settingsB paramsA paramsB d)
    (hroles : serverA = !serverB)
    (hearly : d.right.st.conn.flags.earlyTransportParamsSet = false) :
    sentTotal d.right.st.trace ≤ d.left.st.conn.rx.maxOffset ∧
      d.right.st.conn.tx.bidi.nextStreamId / 4 ≤ d.left.st.conn.rx.bidi.maxStreams ∧
      d.right.st.conn.tx.uni.nextStreamId / 4 ≤ d.left.st.conn.rx.uni.maxStreams ∧
      ∀ id s, d.left.st.conn.findStream id = some s →
        (sentData d.right.st.trace id).length ≤ s.rx.maxOffset := by
  obtain ⟨c, hst, hidle, hserver, hI, hc⟩ := h.within hearly
  have hle {k : Limit} {v : ℕ} (hv : d.left.st.conn.rxLimit k.credit = some v) :
      c.conn.txLimit k ≤ v := by
    have hle := h.txLimit_le hearly hv
    rwa [hst] at hle
  refine ⟨?_, ?_, ?_, fun id s hf => ?_⟩
  · -- no frame is pending, so the offset is all that was encoded
    have htotal := hc.total
    rw [Cfg.TotalOk, hidle] at htotal
    rw [hst, htotal]
    exact hI.flow.txOffset.trans (hle (k := .data) rfl)
  · rw [hst]
    exact hI.ids.bidiLimit.trans (hle (k := .streamsBidi) rfl)
  · rw [hst]
    exact hI.ids.uniLimit.trans (hle (k := .streamsUni) rfl)
  · obtain ⟨n, hn, hsent⟩ := hc.window id
    rw [hserver, ← hroles, ← hst] at hn
    rw [hst]
    exact hsent.trans (h.allowed_le hn (Option.map_eq_some_iff.2 ⟨s, hf, rfl⟩))

/-- The right one opens a stream and writes to it, and the left one reads that. -/
def writtenPlay : PlayTo fun d => !d.right.st.conn.flags.earlyTransportParamsSet &&
    (d.left.st.conn.findStream 1).isSome && sentData d.right.st.trace 1 == [1, 2, 3] where
  turns := greeting ++ [(false, .call (.app .openBidiStream)),
    (false, .call (.writevStream 100 true 1 [[1, 2], [3]] 0)),
    (false, .call (.writeRecord 100 0)), (true, .read 100 0)]
  any := by decide +kernel

theorem linked_window_written : ∃ d s, LinkedSmall d ∧
    d.left.st.conn.findStream 1 = some s ∧ sentData d.right.st.trace 1 = [1, 2, 3] ∧
    3 ≤ s.rx.maxOffset := by
  obtain ⟨d, h, hp⟩ := writtenPlay.exists_linked
  simp only [Bool.and_eq_true, Option.isSome_iff_exists, Bool.not_eq_true', beq_iff_eq] at hp
  obtain ⟨⟨hearly, s, hf⟩, hsent⟩ := hp
  obtain ⟨-, -, -, hstrm⟩ := linked_window h rfl hearly
  have hlen := hstrm 1 s hf
  rw [hsent] at hlen
  exact ⟨d, s, h, hf, hsent, hlen⟩

end Dwnx
