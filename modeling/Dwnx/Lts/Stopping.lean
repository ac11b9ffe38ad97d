import Dwnx.Lts.Hearing

/-!
# Streams that are read no more

The end of a stream takes effect once all of its data has come (`Cfg.EndsShut`). The
application hears nothing of a stream that it has stopped reading (`Event.Heeds`), unless
the stream ends with an empty frame (`Event.InTime`): of such an end it is told.
-/

namespace Dwnx

variable {quiet : Prop} {c c' : Cfg} {id : ℕ} {s s' : Strm} {pushed : Bool} {l : Label}
  {trace evs : List Event}

/-! ## The end -/

/-- The end that the frame brings is still to take effect, or has shut the stream. -/
def Strm.Ends (c : Cfg) (s : Strm) (fr : FrameStream) : Prop :=
  c.pending = .received (.stream fr) ∨ s.flags.shutRd = true ∨
    ∃ left, c.body = some ⟨fr.streamId, left, true⟩

/-- A frame with FIN shuts its stream, whether there is data in it or not. -/
structure Cfg.EndsShut (c : Cfg) : Prop where
  unused : ∀ fr : FrameStream, Event.rxFr (.stream fr) ∈ recent c.st.trace →
    ¬c.conn.Used fr.streamId → c.pending = .received (.stream fr)
  strm : ∀ (fr : FrameStream) s, Event.rxFr (.stream fr) ∈ recent c.st.trace → fr.fin = true →
    c.conn.strms.find fr.streamId = some s → s.Ends c fr

/-- A step that brings no frame, and leaves what is to come. -/
theorem Cfg.EndsShut.of_same (hc : c.EndsShut) (evs : List Event)
    (htrace : c'.st.trace = c.st.trace ++ evs) (hevs : ∀ e ∈ evs, e.isRejected = false)
    (hrx : ∀ fr, Event.rxFr (.stream fr) ∈ evs → c'.pending = .received (.stream fr))
    (hused : ∀ id, c.conn.Used id → c'.conn.Used id)
    (hp : ∀ fr, c.pending = .received (.stream fr) → c'.pending = c.pending ∨
      c'.conn.Used fr.streamId ∧ (fr.fin = true →
        ∀ s, c'.conn.strms.find fr.streamId = some s → s.Ends c' fr))
    (hbody : ∀ id left, c.body = some ⟨id, left, true⟩ →
      (∃ left', c'.body = some ⟨id, left', true⟩) ∨
        ∀ s, c'.conn.strms.find id = some s → s.flags.shutRd = true)
    (hfind : ∀ id s', c'.conn.strms.find id = some s' →
      (∃ s, c.conn.strms.find id = some s ∧
        (s.flags.shutRd = true → s'.flags.shutRd = true)) ∨ ¬c.conn.Used id) : c'.EndsShut := by
  have hrecent : recent c'.st.trace = recent c.st.trace ++ evs := by
    rw [htrace]
    exact since_append hevs
  refine ⟨fun fr hmem hu => ?_, fun fr s' hmem hfin hf => ?_⟩
  · rw [hrecent] at hmem
    rcases List.mem_append.1 hmem with hmem | hmem
    · have hpending := hc.unused fr hmem fun h => hu (hused _ h)
      rcases hp fr hpending with h | h
      · exact h.trans hpending
      · exact absurd h.1 hu
    · exact hrx fr hmem
  · rw [hrecent] at hmem
    rcases List.mem_append.1 hmem with hmem | hmem
    · -- the frame waits, or did so before, or has taken effect
      have hwaits (hpending : c.pending = .received (.stream fr)) : s'.Ends c' fr := by
        rcases hp fr hpending with h | h
        · exact .inl (h.trans hpending)
        · exact h.2 hfin s' hf
      rcases hfind _ s' hf with ⟨s, hs, hshut⟩ | hu
      · rcases hc.strm fr s hmem hfin hs with h | h | ⟨left, h⟩
        · exact hwaits h
        · exact .inr (.inl (hshut h))
        · rcases hbody _ left h with h | h
          · exact .inr (.inr h)
          · exact .inr (.inl (h s' hf))
      · exact hwaits (hc.unused fr hmem hu)
    · exact .inl (hrx fr hmem)

theorem StrmStep.endsShut {conn : Conn} (h : StrmStep quiet c id s s' pushed c')
    (hch : Changes c'.conn conn id s s' pushed) (hI : Inv c)
    (hused : ∀ k, c.conn.Used k → conn.Used k) (hc : c.EndsShut) :
    Cfg.EndsShut { c' with st.conn := conn } := by
  have hfind (hshut : s.flags.shutRd = true → s'.flags.shutRd = true) (k : ℕ) (a : Strm)
      (ha : conn.strms.find k = some a) : (∃ b, c.conn.strms.find k = some b ∧
        (b.flags.shutRd = true → a.flags.shutRd = true)) ∨ ¬c.conn.Used k := by
    have hframe := h.frame
    have hfound := hch.found
    rcases hch.cases ha with ⟨rfl, rfl⟩ | ⟨-, ha⟩
    · rw [hframe] at hfound
      exact .inl ⟨s, hfound, hshut⟩
    · rw [hframe] at ha
      exact .inl ⟨a, ha, fun h => h⟩
  have hf : c.conn.strms.find id = some s := by
    have hfound := hch.found
    rwa [h.frame] at hfound
  have hself {a : Strm} (ha : conn.strms.find id = some a) : a = s' :=
    Option.some.inj (ha.symm.trans hch.found')
  have hnobody {fr : Frame} (hp : c.pending = .received fr) : c.body = none :=
    (hI.pending.received fr hp).2.2.2
  cases h with
  | recvStream fr hp hid hshut _ _ _ hne =>
    refine hc.of_same [] (List.append_nil _).symm (by simp) (by simp) hused (fun fr' h => ?_)
      (fun k left hb => by cases (hnobody hp).symm.trans hb) (hfind fun h => h)
    cases hp.symm.trans h
    refine .inr ⟨hid ▸ hused id (hI.ids.used hf), fun hfin a _ => .inr (.inr ⟨fr.len, ?_⟩)⟩
    dsimp only
    rw [if_neg (hne hfin), hfin, hid]
  | recvFin fr hp hid =>
    refine hc.of_same [_] rfl (by simp [Event.isRejected]) (by simp) hused (fun fr' h => ?_)
      (fun k left hb => by cases (hnobody hp).symm.trans hb) (hfind fun _ => rfl)
    cases hp.symm.trans h
    subst hid
    refine .inr ⟨hused _ (hI.ids.used hf), fun _ a ha => .inr (.inl ?_)⟩
    rw [hself ha]
  | finData hp hbody =>
    refine hc.of_same [] (List.append_nil _).symm (by simp) (by simp) hused
      (fun fr h => by cases hp.symm.trans h) (fun k left hb => .inr fun a ha => ?_)
      (hfind fun _ => rfl)
    cases hbody.symm.trans hb
    rw [hself ha]
  | recvReset fr hp =>
    exact hc.of_same [] (List.append_nil _).symm (by simp) (by simp) hused
      (fun fr h => by cases hp.symm.trans h) (fun k left hb => .inl ⟨left, hb⟩) (hfind fun _ => rfl)
  | extend n _ hs' =>
    exact hc.of_same [] (List.append_nil _).symm (by simp) (by simp) hused (fun _ _ => .inl rfl)
      (fun k left hb => .inl ⟨left, hb⟩) (hfind fun h => by rw [hs']; exact h)
  | recordSent len fin hp =>
    exact hc.of_same [] (List.append_nil _).symm (by simp) (by simp) hused
      (fun fr h => by cases hp.symm.trans h) (fun k left hb => .inl ⟨left, hb⟩) (hfind fun h => h)
  | _ =>
    first
    | exact hc.of_same [] (List.append_nil _).symm (by simp) (by simp) hused (fun _ _ => .inl rfl)
        (fun k left hb => .inl ⟨left, hb⟩) (hfind fun h => h)
    | exact hc.of_same [_] rfl (by simp [Event.isRejected]) (by simp) hused (fun _ _ => .inl rfl)
        (fun k left hb => .inl ⟨left, hb⟩) (hfind fun h => h)
    | exact hc.of_same [] (List.append_nil _).symm (by simp) (by simp) hused (by simp_all)
        (fun k left hb => .inl ⟨left, hb⟩) (hfind fun h => h)
    | exact hc.of_same [_] rfl (by simp [Event.isRejected]) (by simp) hused (by simp_all)
        (fun k left hb => .inl ⟨left, hb⟩) (hfind fun h => h)

/-- No frame has come since early data was rejected. -/
theorem Cfg.EndsShut.of_rejected (h : recent c.st.trace = []) : c.EndsShut := by
  constructor
  · intro fr hmem
    rw [h] at hmem
    cases hmem
  · intro fr s hmem
    rw [h] at hmem
    cases hmem

/-- Every step keeps the ends as they should be. -/
theorem Step.endsShut (h : Step quiet l c c') (hI : Inv c) (hc : c.EndsShut) : c'.EndsShut := by
  by_cases hl : l = .reject
  · cases h with
    | reject => exact .of_rejected (since_concat_of_pos rfl)
    | _ => cases hl
  have hused (id : ℕ) (hu : c.conn.Used id) : c'.conn.Used id := h.used_of_ne hI hl hu
  rcases h.sort hI with ⟨id, s, s', pushed, c'', conn, hs, hch, rfl⟩ | hfind
  · exact hs.endsShut hch hI hused hc
  have hfind (id : ℕ) (s' : Strm) (hf : c'.conn.strms.find id = some s') :
      (∃ s, c.conn.strms.find id = some s ∧ (s.flags.shutRd = true → s'.flags.shutRd = true)) ∨
        ¬c.conn.Used id :=
    (hfind id s' hf).imp (fun hf => ⟨s', hf, fun h => h⟩) fun h => h.1
  have hbody {b : Option Body} (hb : b = c.body) (k left : ℕ)
      (h : c.body = some ⟨k, left, true⟩) : (∃ left', b = some ⟨k, left', true⟩) ∨
        ∀ s, c'.conn.strms.find k = some s → s.flags.shutRd = true :=
    .inl ⟨left, hb.trans h⟩
  cases h with
  | strm hs hch => exact hs.endsShut hch hI hused hc
  | event e he =>
    refine hc.of_same [e] rfl (fun _ h => List.mem_singleton.1 h ▸ he.dataless.rejected)
      (fun fr h => ?_) hused (fun _ _ => .inl rfl) (hbody rfl) hfind
    exact absurd (List.mem_singleton.1 h).symm (he.dataless.stream fr)
  | rx fr hp =>
    refine hc.of_same [.rxFr fr] rfl (by simp [Event.isRejected]) (fun fr' h => ?_) hused
      (fun _ h => by cases hp.symm.trans h) (hbody rfl) hfind
    cases List.mem_singleton.1 h
    rfl
  | @piece _ id left fin s data hp hb =>
    refine hc.of_same [_] rfl (by simp [Event.isRejected]) (by simp) hused (fun _ _ => .inl rfl)
      (fun k n h => .inl ⟨left - data.length, ?_⟩) hfind
    cases hb.symm.trans h
    rfl
  | @skip _ id left fin s data hp hb =>
    refine hc.of_same [_] rfl (by simp [Event.isRejected]) (by simp) hused (fun _ _ => .inl rfl)
      (fun k n h => .inl ⟨left - data.length, ?_⟩) hfind
    cases hb.symm.trans h
    rfl
  | bodyDone hp hb =>
    exact hc.of_same [] (List.append_nil _).symm (by simp) (by simp) hused (fun _ _ => .inl rfl)
      (fun k left h => by cases hb.symm.trans h) hfind
  | ignore hp hign =>
    refine hc.of_same [] (List.append_nil _).symm (by simp) (by simp) hused (fun fr h => ?_)
      (hbody rfl) hfind
    cases hp.symm.trans h
    exact hign.elim
  | reject => exact absurd rfl hl
  | _ =>
    first
    | exact hc.of_same [] (List.append_nil _).symm (by simp) (by simp) hused
        (fun _ _ => .inl rfl) (hbody rfl) hfind
    | exact hc.of_same [_] rfl (by simp [Event.isRejected]) (by simp) hused
        (fun _ _ => .inl rfl) (hbody rfl) hfind
    | exact hc.of_same [] (List.append_nil _).symm (by simp) (by simp) hused
        (by simp_all) (hbody rfl) hfind
    | exact hc.of_same [_] rfl (by simp [Event.isRejected, Strm.closeEvent])
        (by simp [Strm.closeEvent]) hused (by simp_all) (hbody rfl) hfind
    | exact hc.of_same [_, _] rfl (by simp [Event.isRejected]) (by simp) hused
        (by simp_all) (hbody rfl) hfind

/-! ## Nothing is told any more -/

/-- The frame ends its stream where the data that has come ends, and brings none. -/
def FrameStream.EmptyEnd (pre : List Event) (fr : FrameStream) : Prop :=
  fr.fin = true ∧ fr.len = 0 ∧ fr.offset = heardLen (recent pre) fr.streamId

/-- The frame that came. -/
def Event.rx? : Event → Option Frame
  | .rxFr fr => some fr
  | _ => none

/-- The frame that came last. -/
def lastRx (trace : List Event) : Option Frame := (trace.filterMap Event.rx?).getLast?

/-- No empty frame ends a stream that is read no more, and the application stops reading no
    stream in the callback that such a frame causes. -/
def Event.InTime (pre : List Event) : Event → Prop
  | .rxFr (.stream fr) => fr.EmptyEnd pre → ¬Stopped (recent pre) fr.streamId
  | .scheduled false id _ =>
    ∀ fr, lastRx (recent pre) = some (.stream fr) → fr.EmptyEnd pre → fr.streamId ≠ id
  | _ => True

/-- Nothing is told of a stream that is read no more. -/
def Event.Heeds (pre : List Event) : Event → Prop
  | .recvStreamData _ id _ _ => ¬Stopped (recent pre) id
  | _ => True

/-- Nothing has been told of a stream that was read no more, and an end of which the
    application is about to be told is of another. -/
structure Cfg.HeedOk (c : Cfg) : Prop where
  events : Along Event.Heeds c.st.trace
  received : ∀ fr, c.pending = .received (.stream fr) → fr.EmptyEnd c.st.trace →
    ¬Stopped (recent c.st.trace) fr.streamId ∧ lastRx (recent c.st.trace) = some (.stream fr)

theorem lastRx_append (h : ∀ e ∈ evs, e.rx? = none) : lastRx (trace ++ evs) = lastRx trace := by
  rw [lastRx, List.filterMap_append, List.filterMap_eq_nil_iff.2 h, List.append_nil]
  rfl

theorem lastRx_concat {fr : Frame} : lastRx (trace ++ [.rxFr fr]) = some fr := by
  rw [lastRx, List.filterMap_append]
  exact List.getLast?_concat

/-- Where a stream ends depends on what was heard of it. -/
theorem FrameStream.emptyEnd_append {fr : FrameStream} (hr : ∀ e ∈ evs, e.isRejected = false)
    (h : ∀ e ∈ evs, e.heard fr.streamId = []) :
    fr.EmptyEnd (trace ++ evs) ↔ fr.EmptyEnd trace := by
  have hrecent : recent (trace ++ evs) = recent trace ++ evs := since_append hr
  have hlen : heardLen evs fr.streamId = 0 := by
    rw [heardLen, List.flatMap_eq_nil_iff.2 h, List.length_nil]
  rw [EmptyEnd, EmptyEnd, hrecent, heardLen_append, hlen, Nat.add_zero]

/-- The application hears of nothing, and no frame comes. -/
theorem Cfg.HeedOk.of_same (hc : c.HeedOk) (evs : List Event)
    (htrace : c'.st.trace = c.st.trace ++ evs)
    (hevs : ∀ e ∈ evs, e.isHearing = false ∧ e.rx? = none)
    (hp : ∀ fr, c'.pending = .received (.stream fr) → c.pending = .received (.stream fr)) :
    c'.HeedOk := by
  have hhear : ∀ e ∈ evs, e.isHearing = false := fun e he => (hevs e he).1
  refine ⟨?_, fun fr hpending hempty => ?_⟩
  · rw [htrace]
    refine hc.events.append fun e he pre => ?_
    have := hhear e he
    cases e with
    | recvStreamData => cases this
    | _ => trivial
  · rw [htrace] at hempty ⊢
    rw [FrameStream.EmptyEnd, recent_append hhear, heardLen_append_of_not hhear] at hempty
    obtain ⟨hstop, hlast⟩ := hc.received fr (hp fr hpending) hempty
    rw [recent_append hhear, stopped_append_of_not hhear,
      lastRx_append fun e he => (hevs e he).2]
    exact ⟨hstop, hlast⟩

/-- An event of which the application may hear, where no frame waits. -/
theorem Cfg.HeedOk.concat (hc : c.HeedOk) {e : Event} (htrace : c'.st.trace = c.st.trace ++ [e])
    (he : e.Heeds c.st.trace) (hp : ∀ fr, c'.pending ≠ .received (.stream fr)) : c'.HeedOk where
  events := htrace ▸ along_concat.2 ⟨hc.events, he⟩
  received fr h := absurd h (hp fr)

theorem Event.Plain.aside {e : Event} (he : e.Plain) : e.isHearing = false ∧ e.rx? = none := by
  cases e <;> first
    | exact he.elim
    | exact ⟨rfl, rfl⟩

theorem StrmStep.heedOk {conn : Conn} (h : StrmStep quiet c id s s' pushed c')
    (hch : Changes c'.conn conn id s s' pushed) (hI : Inv c) (hh : c.HearOk)
    (hin : Along Event.InTime c'.st.trace) (hc : c.HeedOk) :
    Cfg.HeedOk { c' with st.conn := conn } := by
  cases h with
  | shutRead code =>
    -- the stream is another than the one that is about to end
    obtain ⟨-, hstop⟩ := along_concat.1 hin
    refine ⟨along_concat.2 ⟨hc.events, trivial⟩, fun fr hpending hempty => ?_⟩
    dsimp only at hempty ⊢
    rw [Cfg.log_trace] at hempty ⊢
    rw [FrameStream.emptyEnd_append (by simp [Event.isRejected]) (by simp [Event.heard])] at hempty
    obtain ⟨hnot, hlast⟩ := hc.received fr hpending hempty
    have hne := hstop fr hlast hempty
    rw [recent_concat rfl, lastRx_append (by simp [Event.rx?])]
    refine ⟨?_, hlast⟩
    rintro ⟨code', hmem⟩
    rcases List.mem_append.1 hmem with hmem | hmem
    · exact hnot ⟨code', hmem⟩
    · cases List.mem_singleton.1 hmem
      exact hne rfl
  | recvFin fr hp hid _ hoff _ hlen hfin =>
    -- all of the data before the end has come
    have hlength := (hh.strm id s hch.found).length
    rw [Cfg.left, (hI.pending.received _ hp).2.2.2, Nat.add_zero, hoff] at hlength
    refine hc.concat rfl ?_ (by simp)
    exact hid ▸ (hc.received fr hp ⟨hfin, hlen, hid ▸ hlength.symm⟩).1
  | stopReset fr hp =>
    exact hc.of_same [_] rfl (by simp [Event.isHearing, Event.rx?]) (by simp)
  | recordSent len fin =>
    refine hc.of_same [] (List.append_nil _).symm (by simp) fun fr h => ?_
    cases fin <;> cases h
  | _ =>
    first
    | exact hc.of_same [] (List.append_nil _).symm (by simp) fun _ h => h
    | exact hc.of_same [_] rfl (by simp [Event.isHearing, Event.rx?]) fun _ h => h
    | exact hc.of_same [] (List.append_nil _).symm (by simp) (by simp)
    | exact hc.of_same [_] rfl (by simp [Event.isHearing, Event.rx?]) (by simp)

/-- Every step keeps it so, as long as no empty frame ends a stream that is read no more. -/
theorem Step.heedOk (h : Step quiet l c c') (hI : Inv c) (hh : c.HearOk)
    (hin : Along Event.InTime c'.st.trace) (hc : c.HeedOk) : c'.HeedOk := by
  cases h with
  | strm hs hch => exact hs.heedOk hch hI hh hin hc
  | event e he =>
    exact hc.of_same [e] rfl (fun _ h => List.mem_singleton.1 h ▸ he.aside) fun _ h => h
  | rx fr =>
    obtain ⟨-, hnew⟩ := along_concat.1 hin
    refine ⟨along_concat.2 ⟨hc.events, trivial⟩, fun fr' hpending hempty => ?_⟩
    cases hpending
    have hrecent : recent (c.st.trace ++ [.rxFr (.stream fr')]) =
        recent c.st.trace ++ [.rxFr (.stream fr')] := recent_concat rfl
    rw [Cfg.log_trace] at hempty ⊢
    rw [FrameStream.emptyEnd_append (by simp [Event.isRejected]) (by simp [Event.heard])] at hempty
    rw [hrecent, stopped_append_of_not (by simp [Event.isHearing])]
    exact ⟨hnew hempty, lastRx_concat⟩
  | rxParams params => exact hc.concat rfl trivial (by simp)
  | @piece _ id left fin s data hp hbody hf hne hlen hstop =>
    refine hc.concat rfl (fun hstopped => ?_) fun fr h => by cases hp.symm.trans h
    have := (hh.strm id s hf).stopped.1 hstopped
    rw [hstop] at this
    cases this
  | skip data hp => exact hc.concat rfl trivial fun fr h => by cases hp.symm.trans h
  | reject _ _ hp => exact hc.concat rfl trivial fun fr h => by cases hp.symm.trans h
  | _ =>
    first
    | exact hc.of_same [] (List.append_nil _).symm (by simp) fun _ h => h
    | exact hc.of_same [_] rfl (by simp [Event.isHearing, Event.rx?]) fun _ h => h
    | exact hc.of_same [] (List.append_nil _).symm (by simp) (by simp)
    | exact hc.of_same [_] rfl (by simp [Event.isHearing, Event.rx?, Strm.closeEvent]) (by simp)
    | exact hc.of_same [_, _] rfl (by simp [Event.isHearing, Event.rx?]) (by simp)

end Dwnx
