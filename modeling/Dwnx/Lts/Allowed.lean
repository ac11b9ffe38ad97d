import Dwnx.Lts.Credit

/-!
# The limits of the peer

What an endpoint may send is what the last frame said that set a limit: the one with the
transport parameters of its peer, or one that raised the limit since (`Cfg.AllowedOk`).
A frame is logged before it takes effect. The limit of a stream is one that such a frame
has set (`Cfg.StrmAllowedOk`).
-/

namespace Dwnx

variable {quiet : Prop} {c c' : Cfg} {id : ℕ} {s s' : Strm} {pushed : Bool} {l : Label}
  {server : Bool} {k : Limit} {trace evs : List Event}

/-! ## What frames allow -/

/-- The limit that a frame of the server, or the client, sets, maybe by the transport
    parameters in it. -/
def Frame.allows (server : Bool) (k : Credit) : Frame → Option ℕ
  | .qxTransportParameters params => some (params.credit server k)
  | fr => fr.credit k

def Event.allows (server : Bool) (k : Credit) : Event → Option ℕ
  | .rxFr fr => fr.allows server k
  | _ => none

/-- The limits set by the frames received from the server, or the client. -/
def allowed (server : Bool) (k : Credit) (trace : List Event) : List ℕ :=
  trace.filterMap (Event.allows server k)

/-- The limit in a frame that has not taken effect. -/
def Pending.allows (k : Credit) : Pending → List ℕ
  | .received fr => (fr.credit k).toList
  | _ => []

/-- The limit on what is sent. -/
def Conn.txLimit (conn : Conn) : Limit → ℕ
  | .data => conn.tx.maxOffset
  | .streamsBidi => conn.tx.bidi.maxStreams
  | .streamsUni => conn.tx.uni.maxStreams

/-- The limit is the last one that has taken effect. -/
def Cfg.AllowedOk (server : Bool) (k : Limit) (c : Cfg) : Prop :=
  ∃ vs, allowed server k.credit c.st.trace = vs ++ c.pending.allows k.credit ∧
    (0 :: vs).getLast? = some (c.conn.txLimit k)

theorem Frame.allows_eq {fr : Frame} {k : Credit}
    (h : ∀ params, fr ≠ .qxTransportParameters params) : fr.allows server k = fr.credit k := by
  cases fr with
  | qxTransportParameters params => exact absurd rfl (h params)
  | _ => rfl

theorem Limit.credit_ne_stream (k : Limit) (id : ℕ) : k.credit ≠ .stream id := by
  cases k <;> rintro ⟨⟩

@[simp] theorem Pending.allows_idle (k : Credit) : Pending.idle.allows k = [] := rfl

theorem allowed_append {k : Credit} (h : ∀ e ∈ evs, e.allows server k = none) :
    allowed server k (trace ++ evs) = allowed server k trace := by
  rw [allowed, List.filterMap_append, List.filterMap_eq_nil_iff.2 h, List.append_nil]
  rfl

theorem allowed_concat (fr : Frame) (k : Credit) :
    allowed server k (trace ++ [.rxFr fr]) =
      allowed server k trace ++ (fr.allows server k).toList := by
  rw [allowed, List.filterMap_append]
  refine congrArg _ ?_
  cases h : fr.allows server k <;> simp [Event.allows, h]

theorem mem_allowed {fr : Frame} {k : Credit} {n : ℕ} (h : Event.rxFr fr ∈ trace)
    (hn : fr.allows server k = some n) : n ∈ allowed server k trace :=
  List.mem_filterMap.2 ⟨_, h, hn⟩

/-! ## Steps -/

/-- A step that leaves the limit alone. -/
theorem Cfg.AllowedOk.of_same (hc : c.AllowedOk server k) (evs : List Event)
    (htrace : c'.st.trace = c.st.trace ++ evs) (hevs : ∀ e ∈ evs, e.allows server k.credit = none)
    (hpending : c'.pending.allows k.credit = c.pending.allows k.credit)
    (hlimit : c'.conn.txLimit k = c.conn.txLimit k) : c'.AllowedOk server k := by
  obtain ⟨vs, hvs, hlast⟩ := hc
  exact ⟨vs, by rw [htrace, allowed_append hevs, hpending, hvs], by rw [hlimit, hlast]⟩

/-- The frame that is pending takes effect. -/
theorem Cfg.AllowedOk.of_applied {n : ℕ} (hc : c.AllowedOk server k)
    (htrace : c'.st.trace = c.st.trace) (hpending : c.pending.allows k.credit = [n])
    (hidle : c'.pending.allows k.credit = []) (hlimit : c'.conn.txLimit k = n) :
    c'.AllowedOk server k := by
  obtain ⟨vs, hvs, -⟩ := hc
  refine ⟨vs ++ [n], by rw [htrace, hvs, hpending, hidle, List.append_nil], ?_⟩
  rw [hlimit, ← List.cons_append, List.getLast?_concat]

theorem StrmStep.allows (h : StrmStep quiet c id s s' pushed c') (server : Bool) (k : Limit) :
    (∃ evs, c'.st.trace = c.st.trace ++ evs ∧ ∀ e ∈ evs, e.allows server k.credit = none) ∧
      c'.pending.allows k.credit = c.pending.allows k.credit ∧
      c'.conn.txLimit k = c.conn.txLimit k := by
  have hstream := k.credit_ne_stream
  refine ⟨?_, ?_, ?_⟩
  · cases h <;> first
      | exact ⟨[], (List.append_nil _).symm, by simp⟩
      | exact ⟨[_], rfl, by simp [Event.allows]⟩
  · cases h with
    | recordSent len fin hp => cases fin <;> simp [Pending.allows, hp]
    | _ => first
      | rfl
      | simp [Pending.allows, Frame.credit, *]
  · cases h <;> cases k <;> rfl

theorem Event.Plain.allows {e : Event} (he : e.Plain) (k : Credit) : e.allows server k = none := by
  cases e <;> first
    | rfl
    | exact he.elim

/-- Every step but those about early data keeps what is known of the limit. -/
theorem Step.allowedOk (h : Step quiet l c c') (he : l ≠ .early) (hr : l ≠ .reject)
    (hc : c.AllowedOk server k) : c'.AllowedOk server k := by
  cases h with
  | strm hs hch =>
    obtain ⟨⟨evs, htrace, hevs⟩, hpending, hlimit⟩ := hs.allows server k
    refine hc.of_same evs htrace hevs hpending (Eq.trans ?_ hlimit)
    dsimp only
    rw [hch.rest]
    cases k <;> rfl
  | event e hplain =>
    exact hc.of_same [e] rfl (fun _ h => List.mem_singleton.1 h ▸ hplain.allows _) rfl rfl
  | rx fr hp _ _ _ _ hfr =>
    obtain ⟨vs, hvs, hlast⟩ := hc
    rw [hp, Pending.allows_idle, List.append_nil] at hvs
    refine ⟨vs, ?_, hlast⟩
    dsimp only [Cfg.log]
    rw [allowed_concat, hvs, Frame.allows_eq hfr]
    rfl
  | rxParams params hp =>
    -- the parameters take effect at once
    obtain ⟨vs, hvs, -⟩ := hc
    rw [hp, Pending.allows_idle, List.append_nil] at hvs
    refine ⟨vs ++ [params.credit server k.credit], ?_, ?_⟩
    · dsimp only [Cfg.log]
      rw [allowed_concat, hvs]
      exact (List.append_nil _).symm
    · rw [← List.cons_append, List.getLast?_concat]
      cases k <;> rfl
  | paramsDone hp => exact hc.of_same [] (List.append_nil _).symm (by simp) (by rw [hp]; rfl) rfl
  | accept =>
    refine hc.of_same [_] rfl (by simp [Event.allows]) rfl ?_
    rw [Conn.setIdtr_eq]
    cases k <;> rfl
  | @ignore _ fr hp hfr =>
    refine hc.of_same [] (List.append_nil _).symm (by simp) ?_ rfl
    rw [hp]
    cases fr with
    | maxData | maxStreams => exact hfr.elim
    | maxStreamData fr =>
      have hnone : (Frame.maxStreamData fr).credit k.credit = none :=
        if_neg (k.credit_ne_stream _)
      exact (congrArg Option.toList hnone).symm
    | _ => rfl
  | recvMaxData hp =>
    cases k with
    | data => exact hc.of_applied rfl (by rw [hp]; rfl) rfl rfl
    | _ => exact hc.of_same [] (List.append_nil _).symm (by simp) (by rw [hp]; rfl) rfl
  | @recvMaxStreamsBidi _ fr hp htype =>
    have hn : c.pending.allows k.credit = if k = .streamsBidi then [fr.maxStreams] else [] := by
      cases k <;> simp [hp, Pending.allows, Frame.credit, Limit.credit, htype]
    cases k with
    | streamsBidi => exact hc.of_applied rfl hn rfl rfl
    | _ => exact hc.of_same [] (List.append_nil _).symm (by simp) hn.symm rfl
  | @recvMaxStreamsUni _ fr hp htype =>
    have hn : c.pending.allows k.credit = if k = .streamsUni then [fr.maxStreams] else [] := by
      cases k <;> simp [hp, Pending.allows, Frame.credit, Limit.credit, htype]
    cases k with
    | streamsUni => exact hc.of_applied rfl hn rfl rfl
    | _ => exact hc.of_same [] (List.append_nil _).symm (by simp) hn.symm rfl
  | recvPing hp => exact hc.of_same [] (List.append_nil _).symm (by simp) (by rw [hp]; rfl) rfl
  | set0rtt => exact absurd rfl he
  | reject => exact absurd rfl hr
  | _ => first
    | exact hc.of_same [] (List.append_nil _).symm (by simp) (by simp [Pending.allows, *]) rfl
    | exact hc.of_same [_] rfl (by simp [Event.allows, Strm.closeEvent])
        (by simp [Pending.allows, *]) rfl
    | exact hc.of_same [_, _] rfl (by simp [Event.allows]) (by simp [Pending.allows, *]) rfl

/-- Early data that is rejected is logged. -/
theorem Step.ne_reject (h : Step quiet l c c') (hr : ∀ e ∈ c'.st.trace, e.isRejected = false) :
    l ≠ .reject := by
  rintro rfl
  cases h with
  | reject => cases hr _ (List.mem_append_right _ (List.mem_singleton_self _))

/-- Early data that is set up stays set up, unless it is rejected. -/
theorem Step.early_unset (h : Step quiet l c c') (hr : l ≠ .reject)
    (hset : c'.conn.flags.earlyTransportParamsSet = false) :
    c.conn.flags.earlyTransportParamsSet = false ∧ l ≠ .early := by
  cases h with
  | strm hs hch =>
    dsimp only at hset
    rw [hch.rest, hs.frame] at hset
    exact ⟨hset, by rintro ⟨⟩⟩
  | accept =>
    rw [Conn.setIdtr_eq] at hset
    exact ⟨hset, by rintro ⟨⟩⟩
  | set0rtt => cases hset
  | reject => exact absurd rfl hr
  | _ => exact ⟨hset, by rintro ⟨⟩⟩

/-! ## Streams -/

/-- The limit on what is sent on a stream, as the transport parameters of the peer have it. -/
theorem Conn.initialMaxTxOffset_eq (conn : Conn) (id : ℕ) :
    conn.initialMaxTxOffset id = conn.remoteParams.credit (!conn.server) (.stream id) := by
  rw [initialMaxTxOffset, initialMaxStreamData, TransportParams.credit, localStream]
  cases conn.server <;> cases decide (id % 2 = 1) <;> cases bidiStream id <;> rfl

/-- The limit of a stream that there is, or that a new one would have, is one that was set. -/
structure Cfg.StrmAllowedOk (id : ℕ) (c : Cfg) : Prop where
  strm : ∀ s, c.conn.strms.find id = some s →
    s.tx.maxOffset ∈ 0 :: allowed (!c.conn.server) (.stream id) c.st.trace
  initial :
    c.conn.initialMaxTxOffset id ∈ 0 :: allowed (!c.conn.server) (.stream id) c.st.trace

theorem StrmStep.maxOffset_cases (h : StrmStep quiet c id s s' pushed c') :
    s'.tx.maxOffset = s.tx.maxOffset ∨ s'.tx.maxOffset = c.conn.initialMaxTxOffset id ∨
      ∃ fr : FrameMaxStreamData, c.pending = .received (.maxStreamData fr) ∧ fr.streamId = id ∧
        s'.tx.maxOffset = fr.maxStreamData := by
  cases h with
  | maxStreamData fr hp hid => exact .inr (.inr ⟨fr, hp, hid, rfl⟩)
  | raise => exact .inr (.inl rfl)
  | extend n _ hs' => exact .inl (by rw [hs'])
  | _ => exact .inl rfl

/-- The parameters of the peer stay as they are, or have come. -/
theorem Step.remoteParams_cases (h : Step quiet l c c') (he : l ≠ .early) (hr : l ≠ .reject) :
    c'.conn.remoteParams = c.conn.remoteParams ∨
      Event.rxFr (.qxTransportParameters c'.conn.remoteParams) ∈ c'.st.trace := by
  cases h with
  | strm hs hch =>
    left
    dsimp only
    rw [hch.rest, hs.frame]
  | rxParams => exact .inr (List.mem_append_right _ (List.mem_singleton_self _))
  | accept =>
    left
    rw [Conn.setIdtr_eq]
  | set0rtt => exact absurd rfl he
  | reject => exact absurd rfl hr
  | _ => exact .inl rfl

/-- What was allowed stays allowed. -/
theorem Step.allowed_subset (h : Step quiet l c c') {k : Credit} {n : ℕ}
    (hn : n ∈ 0 :: allowed (!c.conn.server) k c.st.trace) :
    n ∈ 0 :: allowed (!c'.conn.server) k c'.st.trace := by
  obtain ⟨evs, htrace, -⟩ := h.trace
  rw [h.server, htrace, allowed, List.filterMap_append, ← List.cons_append]
  exact List.mem_append_left _ hn

/-- Every step but those about early data keeps what is known of the limit of a stream. -/
theorem Step.strmAllowedOk (h : Step quiet l c c') (hI : Inv c) (he : l ≠ .early)
    (hr : l ≠ .reject) (hreceived : ∀ fr, c.pending = .received fr → Event.rxFr fr ∈ c.st.trace)
    (hc : c.StrmAllowedOk id) : c'.StrmAllowedOk id := by
  refine ⟨fun s' hf => ?_, ?_⟩
  · rcases h.find_cases hI hf with ⟨-, rfl⟩ | ⟨s, hfind, rfl | ⟨_, _, hs⟩⟩
    · rw [Conn.newStrm_tx]
      exact h.allowed_subset hc.initial
    · exact h.allowed_subset (hc.strm _ hfind)
    · rcases hs.maxOffset_cases with hm | hm | ⟨fr, hp, rfl, hm⟩
      · exact hm ▸ h.allowed_subset (hc.strm s hfind)
      · exact hm ▸ h.allowed_subset hc.initial
      · have hmem : fr.maxStreamData ∈ allowed (!c.conn.server) (.stream fr.streamId) c.st.trace :=
          mem_allowed (hreceived _ hp) (if_pos rfl)
        exact hm ▸ h.allowed_subset (List.mem_cons_of_mem _ hmem)
  · rw [Conn.initialMaxTxOffset_eq]
    rcases h.remoteParams_cases he hr with hsame | hcame
    · rw [hsame, h.server, ← Conn.initialMaxTxOffset_eq, ← h.server]
      exact h.allowed_subset hc.initial
    · exact List.mem_cons_of_mem _ (mem_allowed hcame rfl)

end Dwnx
