import Dwnx.Lts.Preservation

/-!
# What a write function relies on

A write function works on pointers to streams while callbacks may change them.
`TableStep` sorts the steps by what they do to the streams and to the queue; from
it follow the invariants about both.

* `Cfg.WriteOk`: the stream that is about to be written to may be written to, or
  was reset meanwhile;
* `Cfg.SendOk`: a stream for which a frame is scheduled is queued;
* `Cfg.QueuedOk`: so is any stream with something to be sent, if all is quiet.
-/

namespace Dwnx

variable {quiet : Prop} {G : Cfg → Prop} {c c' : Cfg} {id : ℕ} {s s' : Strm} {pushed : Bool}
  {l : Label}

/-! ## The history -/

theorem Event.Plain.isWriteStream {e : Event} (he : e.Plain) (id : ℕ) :
    e.isWriteStream id = false := by
  cases e <;> first | rfl | exact he.elim

theorem StrmStep.trace (h : StrmStep quiet c id s s' pushed c') :
    ∃ evs, c'.st.trace = c.st.trace ++ evs ∧ ∀ e ∈ evs, ∀ id, e.isWriteStream id = false := by
  cases h <;> first
    | exact ⟨[], (List.append_nil _).symm, nofun⟩
    | exact ⟨[_], rfl, by simp [Event.isWriteStream]⟩

/-- The history grows, and a call that writes starts anew. -/
theorem Step.trace (h : Step quiet l c c') :
    ∃ evs, c'.st.trace = c.st.trace ++ evs ∧
      (c'.writing = none ∨ ∀ e ∈ evs, ∀ id, e.isWriteStream id = false) := by
  cases h with
  | strm h =>
    obtain ⟨evs, he, hw⟩ := h.trace
    exact ⟨evs, he, .inr hw⟩
  | event e he => exact ⟨[e], rfl, .inr fun _ h id => List.mem_singleton.1 h ▸ he.isWriteStream id⟩
  | beginCall => exact ⟨[_], rfl, .inl rfl⟩
  | close => exact ⟨[_], rfl, .inr (by simp [Event.isWriteStream, Strm.closeEvent])⟩
  | _ =>
    first
    | exact ⟨[], (List.append_nil _).symm, .inr nofun⟩
    | exact ⟨[_], rfl, .inr (by simp [Event.isWriteStream])⟩
    | exact ⟨[_, _], rfl, .inr (by simp [Event.isWriteStream])⟩

theorem LateReset.append {trace evs : List Event} (h : LateReset trace id)
    (he : ∀ e ∈ evs, e.isWriteStream id = false) : LateReset (trace ++ evs) id := by
  obtain ⟨code, hc⟩ := h
  refine ⟨code, ?_⟩
  rw [since_append he]
  exact List.mem_append_left _ hc

/-! ## The table -/

/-- What a step does to the streams and to the queue. -/
inductive TableStep (quiet : Prop) (c c' : Cfg) : Prop
  | strm {id : ℕ} {s s' : Strm} {pushed : Bool} {c₁ : Cfg} {conn : Conn}
      (h : StrmStep quiet c id s s' pushed c₁) (hc : Changes c₁.conn conn id s s' pushed)
      (he : c' = { c₁ with st.conn := conn })
  | insert {id : ℕ} (hnone : c.conn.strms.find id = none)
      (hs : c'.conn.strms = c.conn.strms.insert id (c.conn.newStrm id))
      (hq : c'.conn.tx.strmq.q = c.conn.tx.strmq.q) (hw : c'.writing = c.writing)
  | erase {id : ℕ} {s : Strm} (hp : c.pending = .closing id)
      (hfind : c.conn.strms.find id = some s) (hs : c'.conn.strms = c.conn.strms.erase id)
      (hq : c'.conn.tx.strmq = deleteStrmTxStrmq c.conn.strms c.conn.tx.strmq id)
      (hw : c'.writing = c.writing)
  | pop {id : ℕ} {s : Strm} (hhead : c.conn.tx.strmq.q[0]? = some id)
      (hfind : c.conn.strms.find id = some s)
      (hquiet : quiet → s.shouldCloseStream = true ∨ s.NothingToSend)
      (hstops : StopsUndisturbed c.st.trace →
        s.flags.sendResetStream = false ∧ (s.flags.sendStopSending = true → s.flags.shutRd = true))
      (he : c' = { c with st.conn.tx.strmq := c.conn.popStrmq id })
  | forget (hs : c'.conn.strms = .empty) (hw : c'.writing = none)
  | same (hs : c'.conn.strms = c.conn.strms) (hq : c'.conn.tx.strmq.q = c.conn.tx.strmq.q)
      (hw : c'.writing = c.writing ∨ c'.writing = none ∨
        ∃ id s, c'.writing = some id ∧ c.conn.strms.find id = some s ∧ s.flags.shutWr = false)

theorem Step.table (h : Step quiet l c c') (hI : Inv c) : TableStep quiet c c' := by
  cases h with
  | strm h hc => exact .strm h hc rfl
  | openBidi => exact .insert hI.ids.bidi_next.2.2 rfl rfl rfl
  | openUni => exact .insert hI.ids.uni_next.2.2 rfl rfl rfl
  | accept _ _ _ hnone => exact .insert hnone rfl (by rw [Conn.setIdtr_eq]) rfl
  | erase hp hfind => exact .erase hp hfind rfl rfl rfl
  | pop hhead hfind hquiet hstops => exact .pop hhead hfind hquiet hstops rfl
  | reject _ _ _ hw => exact .forget rfl hw
  | beginCall => exact .same rfl rfl (.inr (.inl rfl))
  | endWrite => exact .same rfl rfl (.inr (.inl rfl))
  | beginWrite _ _ hfind hshut => exact .same rfl rfl (.inr (.inr ⟨_, _, rfl, hfind, hshut⟩))
  | _ => exact .same rfl rfl (.inl rfl)

/-! ## Writing -/

/-- The stream that is about to be written to may be written to, or was reset by a
    callback. -/
def Cfg.WriteOk (quiet : Prop) (c : Cfg) : Prop :=
  ∀ id, c.writing = some id →
    (∃ s, c.conn.strms.find id = some s ∧ s.flags.shutWr = false) ∨
      ¬quiet ∧ LateReset c.st.trace id

/-- A step of a stream that shuts its sending side is one of the application, or
    the function that writes is told. -/
theorem StrmStep.writing (h : StrmStep quiet c id s s' pushed c') (hI : c.PendingOk) {k : ℕ}
    (hw : c'.writing = some k) :
    c.writing = some k ∧ (s.flags.shutWr = false →
      s'.flags.shutWr = false ∨ ¬quiet ∧ LateReset c'.st.trace id) := by
  cases h with
  | shutWrite code hfree =>
    refine ⟨hw, fun _ => .inr ⟨fun hq => ?_, code, ?_⟩⟩
    · cases (hfree hq).2.symm.trans hw
    · rw [Cfg.log_trace, since_concat_of_neg rfl]
      exact List.mem_append_right _ (List.mem_singleton_self _)
  | stopReset fr hp =>
    cases (hI.received _ hp).2.2.1.symm.trans hw
  | recordSent len fin =>
    cases fin with
    | true => cases hw
    | false => exact ⟨hw, fun hs => .inl (by simpa using hs)⟩
  | extend n _ hs' => exact ⟨hw, fun hs => .inl (by rw [hs']; exact hs)⟩
  | _ => exact ⟨hw, .inl⟩

theorem Step.writeOk (h : Step quiet l c c') (hI : Inv c) (hW : c.WriteOk quiet) :
    c'.WriteOk quiet := by
  intro id hw
  obtain ⟨evs, htrace, hevs⟩ := h.trace
  -- The check that the stream may be written to is not made again.
  have hevs : ∀ e ∈ evs, e.isWriteStream id = false := by
    rcases hevs with hn | hevs
    · rw [hw] at hn
      cases hn
    · exact fun e he => hevs e he id
  have hlate (hl : ¬quiet ∧ LateReset c.st.trace id) : ¬quiet ∧ LateReset c'.st.trace id :=
    ⟨hl.1, htrace ▸ hl.2.append hevs⟩
  cases h.table hI with
  | @strm k s s' _ c₁ conn hstep hc he =>
    subst he
    obtain ⟨hw, hshut⟩ := hstep.writing hI.pending hw
    refine (hW id hw).elim ?_ fun hl => .inr (hlate hl)
    rintro ⟨a, ha, hs⟩
    -- A step of the stream itself may shut it down, and then it does so late.
    by_cases hk : id = k
    · subst hk
      have hfound := hc.found
      rw [hstep.frame] at hfound
      obtain rfl := Option.some.inj (ha.symm.trans hfound)
      exact (hshut hs).imp_left fun hs => ⟨s', hc.found', hs⟩
    · refine .inl ⟨a, ?_, hs⟩
      rw [hc.find_of_ne hk, hstep.frame]
      exact ha
  | @insert k hnone hs _ hw' =>
    -- The stream was there before.
    refine (hW id (hw'.symm.trans hw)).imp ?_ hlate
    rintro ⟨a, ha, hshut⟩
    refine ⟨a, ?_, hshut⟩
    rw [hs, KeyMap.find_insert hnone, if_neg, ha]
    rintro rfl
    cases hnone.symm.trans ha
  | @erase k s hp hfind hs _ hw' =>
    -- A stream that goes is closed in both directions, and this one is not.
    refine (hW id (hw'.symm.trans hw)).imp ?_ hlate
    rintro ⟨a, ha, hshut⟩
    refine ⟨a, ?_, hshut⟩
    rw [hs, KeyMap.find_erase, if_neg, ha]
    rintro rfl
    obtain ⟨b, hb, hclose⟩ := hI.pending.closing _ hp
    obtain rfl := Option.some.inj (ha.symm.trans hb)
    simp [Strm.shouldCloseStream, hshut] at hclose
  | pop _ _ _ _ he =>
    subst he
    exact (hW id hw).imp_right hlate
  | forget _ hw' => cases hw'.symm.trans hw
  | same hs _ hw' =>
    rw [hs]
    rcases hw' with hw' | hw' | ⟨k, s, hw', hf, hshut⟩
    · exact (hW id (hw'.symm.trans hw)).imp_right hlate
    · cases hw'.symm.trans hw
    · obtain rfl := Option.some.inj (hw'.symm.trans hw)
      exact .inl ⟨s, hf, hshut⟩

/-! ## The queue -/

/-- A RESET_STREAM or a STOP_SENDING is scheduled for the stream. -/
def Strm.Scheduled (s : Strm) : Prop :=
  s.flags.sendResetStream = true ∨ s.flags.sendStopSending = true ∧ s.flags.shutRd = false

/-- A stream with a frame scheduled is queued, unless the application has
    disturbed the queue. -/
def Cfg.SendOk (c : Cfg) : Prop :=
  StopsUndisturbed c.st.trace → ∀ id s, c.conn.strms.find id = some s → s.Scheduled →
    id ∈ c.conn.tx.strmq.q

/-- A stream with something to be sent is queued, if callbacks call nothing. -/
def Cfg.QueuedOk (quiet : Prop) (c : Cfg) : Prop :=
  quiet → ∀ id s, c.conn.strms.find id = some s → s.shouldCloseStream = false →
    ¬s.NothingToSend → id ∈ c.conn.tx.strmq.q

theorem StrmStep.scheduled (h : StrmStep quiet c id s s' pushed c') (hs : s'.Scheduled) :
    s.Scheduled ∨ pushed = true := by
  cases h with
  | shutWrite => exact .inr rfl
  | shutRead => exact .inr rfl
  | stopReset => exact .inr rfl
  | setBlocked => exact .inr rfl
  | extend _ _ hs' =>
    subst hs'
    exact .inl hs
  | txReset => exact .inl (hs.imp_left nofun)
  | txStop => exact .inl (.inl (hs.resolve_right (by simp)))
  | clearStop => exact .inl (.inl (hs.resolve_right (by simp)))
  | recvFin => exact .inl (.inl (hs.resolve_right (by simp)))
  | finData => exact .inl (.inl (hs.resolve_right (by simp)))
  | recvReset => exact .inl (.inl (hs.resolve_right (by simp)))
  | _ => exact .inl hs

/-- A stream is queued as soon as there is something to be sent for it. -/
theorem StrmStep.nothingToSend (h : StrmStep quiet c id s s' pushed c')
    (hs : s.shouldCloseStream = true ∨ s.NothingToSend) :
    (s'.shouldCloseStream = true ∨ s'.NothingToSend) ∨ pushed = true := by
  cases h with
  | shutWrite => exact .inr rfl
  | shutRead => exact .inr rfl
  | stopReset => exact .inr rfl
  | setBlocked => exact .inr rfl
  | extend n _ hs' hpushed =>
    subst hs'
    -- More credit is to be told of once there is enough of it.
    rcases hs with hs | ⟨h1, h2, h3, h4⟩
    · exact .inl (.inl hs)
    by_cases hp : pushed = true
    · exact .inr hp
    · rw [hpushed] at hp
      refine .inl (.inr ⟨h1, h2, h3, ?_⟩)
      by_contra hn
      obtain ⟨hr, hn⟩ := not_or.1 hn
      obtain ⟨ht, hn⟩ := not_or.1 hn
      exact hp ⟨by simpa using hr, by simpa using ht, by simpa using hn⟩
  -- The peer has ended the stream, and no credit is told of any more.
  | recvFin =>
    refine .inl (hs.imp (fun hs => ?_) fun hs => ⟨hs.1, hs.2.1, hs.2.2.1, .inl rfl⟩)
    simp only [Strm.shouldCloseStream, Bool.and_eq_true] at hs ⊢
    exact ⟨⟨trivial, hs.1.2⟩, hs.2⟩
  | finData =>
    refine .inl (hs.imp (fun hs => ?_) fun hs => ⟨hs.1, hs.2.1, hs.2.2.1, .inl rfl⟩)
    simp only [Strm.shouldCloseStream, Bool.and_eq_true] at hs ⊢
    exact ⟨⟨trivial, hs.1.2⟩, hs.2⟩
  | recvReset =>
    refine .inl (hs.imp (fun hs => ?_) fun hs => ⟨hs.1, hs.2.1, hs.2.2.1, .inl rfl⟩)
    simp only [Strm.shouldCloseStream, Bool.and_eq_true] at hs ⊢
    exact ⟨⟨trivial, hs.1.2⟩, hs.2⟩
  | txReset q _ hsend =>
    refine .inl (hs.imp (fun hs => ?_) fun hs => ?_)
    · simp [Strm.shouldCloseStream, hsend] at hs
    · simp [Strm.NothingToSend, hsend] at hs
  | txStop => exact .inl (hs.imp_right fun hs => ⟨hs.1, rfl, hs.2.2⟩)
  | clearStop => exact .inl (hs.imp_right fun hs => ⟨hs.1, rfl, hs.2.2⟩)
  | clearBlocked => exact .inl (hs.imp_right fun hs => ⟨hs.1, hs.2.1, rfl, hs.2.2.2⟩)
  | txMaxStreamData _ _ hshut hstop hsend =>
    refine .inl (hs.imp_right fun hs => ?_)
    have := hs.2.2.2
    simp [hshut, hstop, hsend] at this
  | recordSent len fin =>
    refine .inl (hs.imp (fun hs => ?_) fun hs => ⟨hs.1, hs.2.1, hs.2.2.1, hs.2.2.2⟩)
    simp only [Strm.shouldCloseStream, Bool.and_eq_true] at hs ⊢
    exact ⟨⟨hs.1.1, by simp [hs.1.2]⟩, hs.2⟩
  | _ => exact .inl hs

/-- That streams with `P` are queued is kept if a stream gets `P` only by being
    queued, and has lost it when it is popped. -/
theorem TableStep.queued {P : Strm → Prop} (h : TableStep quiet c c') (hI : Inv c)
    (hc : ∀ id s, c.conn.strms.find id = some s → P s → id ∈ c.conn.tx.strmq.q)
    (hstep : ∀ id s s' pushed c₁, StrmStep quiet c id s s' pushed c₁ → P s' → P s ∨ pushed = true)
    (hnew : ∀ id, ¬P (c.conn.newStrm id))
    (hpop : ∀ s : Strm, (quiet → s.shouldCloseStream = true ∨ s.NothingToSend) →
      (StopsUndisturbed c.st.trace → s.flags.sendResetStream = false ∧
        (s.flags.sendStopSending = true → s.flags.shutRd = true)) → ¬P s)
    {k : ℕ} {a : Strm} (hk : c'.conn.strms.find k = some a) (ha : P a) :
    k ∈ c'.conn.tx.strmq.q := by
  cases h with
  | @strm id s s' pushed c₁ conn hs hch he =>
    subst he
    have hframe := hs.frame
    refine (hch.mem k).2 ?_
    rcases hch.cases hk with ⟨rfl, rfl⟩ | ⟨-, hk⟩
    · have hfound := hch.found
      rw [hframe] at hfound ⊢
      exact (hstep _ _ _ _ _ hs ha).imp (hc k s hfound) fun hp => ⟨hp, rfl⟩
    · rw [hframe] at hk ⊢
      exact .inl (hc k a hk ha)
  | @insert id hnone hs hq =>
    rw [hs] at hk
    rw [hq]
    rcases find_insert_cases hnone hk with ⟨-, rfl⟩ | hk
    · exact absurd ha (hnew id)
    · exact hc k a hk ha
  | @erase id s _ hfind hs hq =>
    rw [hs] at hk
    rw [hq, mem_deleteStrmTxStrmq hI.queue.wf (hI.queue.indexOk hfind)]
    obtain ⟨hne, hk⟩ := find_erase_cases hk
    exact ⟨hc k a hk ha, hne⟩
  | @pop id s hhead hfind hquiet hstops he =>
    subst he
    -- The stream that is popped waits for nothing, and the others stay.
    refine (hI.queue.mem_pop hhead).2 ⟨hc k a hk ha, ?_⟩
    rintro rfl
    obtain rfl := Option.some.inj (hfind.symm.trans hk)
    exact hpop s hquiet hstops ha
  | forget hs =>
    rw [hs] at hk
    cases hk
  | same hs hq =>
    rw [hs] at hk
    rw [hq]
    exact hc k a hk ha

theorem Step.sendOk (h : Step quiet l c c') (hI : Inv c) (hS : c.SendOk) : c'.SendOk := by
  intro hstops k a hk ha
  obtain ⟨evs, htrace, -⟩ := h.trace
  have hstops : StopsUndisturbed c.st.trace := by
    rw [htrace] at hstops
    exact hstops.of_append
  refine (h.table hI).queued hI (hS hstops) (fun _ _ _ _ _ h hs => h.scheduled hs) (fun id => ?_)
    (fun s _ hpop hs => ?_) hk ha
  · simp [Strm.Scheduled, Conn.newStrm_flags, StrmFlags.none]
  · obtain ⟨hr, ht⟩ := hpop hstops
    rcases hs with hs | ⟨hs, hshut⟩
    · simp [hr] at hs
    · simp [ht hs] at hshut

theorem Step.queuedOk (h : Step quiet l c c') (hI : Inv c) (hQ : c.QueuedOk quiet) :
    c'.QueuedOk quiet := by
  intro hq k a hk hclose hsend
  refine (h.table hI).queued hI (P := fun s => ¬(s.shouldCloseStream = true ∨ s.NothingToSend))
    (fun id s hf hs => ?_) (fun _ _ _ _ _ h hs => ?_) (fun id hs => hs ?_)
    (fun s hpop _ hs => hs (hpop hq)) hk (by simp [hclose, hsend])
  · obtain ⟨h1, h2⟩ := not_or.1 hs
    exact hQ hq id s hf (by simpa using h1) h2
  · by_contra hn
    obtain ⟨hn, hp⟩ := not_or.1 hn
    exact (h.nothingToSend (not_not.1 hn)).elim hs hp
  · exact .inr (c.conn.newStrm_nothingToSend id hI.phase.localParams)

/-! ## Sets of configurations -/

/-- A set of configurations with the invariants, which no step leaves but those that
    depend on something outside. -/
structure Closed (quiet : Prop) (G : Cfg → Prop) : Prop where
  inv : ∀ c, G c → Inv c
  write : ∀ c, G c → c.WriteOk quiet
  send : ∀ c, G c → c.SendOk
  step : ∀ c c', G c → Step quiet .tau c c' → G c'

/-- What only steps of a certain kind change. -/
structure SameInput (conn conn' : Conn) : Prop where
  server : conn'.server = conn.server
  localParams : conn'.localParams = conn.localParams
  lastTs : conn'.lastTs = conn.lastTs
  seen : conn'.flags.qxTransportParametersSeen = conn.flags.qxTransportParametersSeen

theorem SameInput.refl (conn : Conn) : SameInput conn conn := ⟨rfl, rfl, rfl, rfl⟩

theorem SameInput.trans {conn₁ conn₂ conn₃ : Conn} (h : SameInput conn₁ conn₂)
    (h' : SameInput conn₂ conn₃) : SameInput conn₁ conn₃ :=
  ⟨h'.server.trans h.server, h'.localParams.trans h.localParams, h'.lastTs.trans h.lastTs,
    h'.seen.trans h.seen⟩

/-- The clock is read only at the start of a call, and the parameters of the peer
    begin only by what it sends. -/
theorem Step.sameInput (h : Step quiet l c c') (ht : l ≠ .time) (hs : l ≠ .seen) :
    SameInput c.conn c'.conn := by
  cases h with
  | strm h hc => constructor <;> (dsimp only; rw [hc.rest, h.frame])
  | accept => constructor <;> (dsimp only; rw [Conn.setIdtr_eq])
  | time => exact absurd rfl ht
  | seen => exact absurd rfl hs
  | _ => exact ⟨rfl, rfl, rfl, rfl⟩

theorem Step.lastTs (h : Step quiet l c c') (hl : l ≠ .time) :
    c'.conn.lastTs = c.conn.lastTs := by
  by_cases hs : l = .seen
  · subst hs
    cases h
    rfl
  · exact (h.sameInput hl hs).lastTs

/-- The local parameters never change. -/
theorem Step.localParams (h : Step quiet l c c') : c'.conn.localParams = c.conn.localParams := by
  by_cases ht : l = .time
  · subst ht
    cases h
    rfl
  by_cases hs : l = .seen
  · subst hs
    cases h
    rfl
  exact (h.sameInput ht hs).localParams

/-- Within a call that reads the time stays as it is. -/
theorem Closed.at (hG : Closed quiet G) (ts : ℕ) :
    Closed quiet fun c => G c ∧ c.conn.lastTs = ts where
  inv c h := hG.inv c h.1
  write c h := hG.write c h.1
  send c h := hG.send c h.1
  step c c' h hs := ⟨hG.step c c' h.1 hs, (hs.lastTs nofun).trans h.2⟩

/-- That the local parameters can be announced is true forever. -/
theorem Closed.uniBounded (hG : Closed quiet G) :
    Closed quiet fun c => G c ∧ c.conn.localParams.UniBounded where
  inv c h := hG.inv c h.1
  write c h := hG.write c h.1
  send c h := hG.send c h.1
  step c c' h hs := ⟨hG.step c c' h.1 hs, (hs.sameInput nofun nofun).localParams ▸ h.2⟩

/-- A set of configurations that stays as it is when time goes by. -/
structure Timed (quiet : Prop) (G : Cfg → Prop) : Prop extends Closed quiet G where
  time : ∀ c c', G c → Step quiet .time c c' → G c'

end Dwnx
