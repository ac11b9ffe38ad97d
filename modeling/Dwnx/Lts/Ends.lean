import Dwnx.Lts.Names

/-!
# How a sending direction ends

A STREAM frame with FIN or a RESET_STREAM frame is the last one of its stream
(`Terminated`), provided that no RESET_STREAM is scheduled where it comes too late
(`ResetsInTime`).
-/

namespace Dwnx

variable {quiet : Prop} {c c' : Cfg} {id : ℕ} {s s' : Strm} {pushed : Bool} {l : Label}

/-- The frame carries data of the stream, or ends it. -/
def Frame.sends (fr : Frame) (id : ℕ) : Prop :=
  match fr with
  | .stream fr => fr.streamId = id
  | .resetStream fr => fr.streamId = id
  | _ => False

/-- The frame ends the sending direction of the stream. -/
def Frame.ends (fr : Frame) (id : ℕ) : Prop :=
  match fr with
  | .stream fr => fr.streamId = id ∧ fr.fin = true
  | .resetStream fr => fr.streamId = id
  | _ => False

/-- A frame that ends the stream has been encoded. After the rejection of early data
    streams are new ones. -/
def Ended (trace : List Event) (id : ℕ) : Prop :=
  ∃ fr, Event.txFr fr ∈ since Event.isRejected trace ∧ fr.ends id

/-- No frame of a stream follows one that ends it. -/
def Terminated (trace : List Event) : Prop :=
  Along (fun pre e => ∀ fr id, e = .txFr fr → fr.sends id → ¬Ended pre id) trace

/-- What holds of a stream whose sending direction has ended, unless it is gone: it is
    shut, or is about to be. -/
def Strm.HasEnded (c : Cfg) (id : ℕ) (s : Strm) : Prop :=
  s.flags.sendResetStream = false ∧
    (s.flags.shutWr = true ∨ ∃ len, c.pending = .sent id len true)

/-- What is known of the ends of streams. -/
structure Cfg.EndsOk (c : Cfg) : Prop where
  terminated : Terminated c.st.trace
  ended : ∀ id, Ended c.st.trace id →
    c.conn.Used id ∧ ∀ s, c.conn.strms.find id = some s → s.HasEnded c id
  sent : ∀ id len, c.pending = .sent id len true → FinInFlight c.st.trace id

/-! ## Events -/

/-- An event that says nothing of how a stream ends. -/
def Event.Silent : Event → Prop
  | .txFr (.stream _) => False
  | .txFr (.resetStream _) => False
  | .earlyDataRejected => False
  | _ => True

theorem ended_append {trace evs : List Event} (h : ∀ e ∈ evs, e.Silent) :
    Ended (trace ++ evs) id ↔ Ended trace id := by
  have hr (e : Event) (he : e ∈ evs) : e.isRejected = false := by
    have := h e he
    cases e <;> first | rfl | exact this.elim
  rw [Ended, since_append hr]
  refine ⟨fun ⟨fr, hfr, hends⟩ => ?_, fun ⟨fr, hfr, hends⟩ =>
    ⟨fr, List.mem_append_left _ hfr, hends⟩⟩
  rcases List.mem_append.1 hfr with hfr | hfr
  · exact ⟨fr, hfr, hends⟩
  · have := h _ hfr
    cases fr <;> first | exact hends.elim | exact this.elim

theorem Terminated.append {trace evs : List Event} (h : Terminated trace)
    (he : ∀ e ∈ evs, e.Silent) : Terminated (trace ++ evs) := by
  refine Along.append h fun e hmem pre fr id => ?_
  rintro rfl hs
  have := he _ hmem
  cases fr <;> first | exact hs.elim | exact this.elim

theorem ended_concat {trace : List Event} {fr : Frame} :
    Ended (trace ++ [.txFr fr]) id ↔ Ended trace id ∨ fr.ends id := by
  rw [Ended, since_concat_of_neg rfl]
  simp only [List.mem_append, List.mem_singleton, Event.txFr.injEq]
  constructor
  · rintro ⟨fr', hfr' | rfl, hends⟩
    exacts [.inl ⟨fr', hfr', hends⟩, .inr hends]
  · rintro (⟨fr', hfr', hends⟩ | hends)
    exacts [⟨fr', .inl hfr', hends⟩, ⟨fr, .inr rfl, hends⟩]

theorem FinInFlight.append {trace evs : List Event} (h : FinInFlight trace id)
    (he : ∀ e ∈ evs, e.isAccepted id = false) : FinInFlight (trace ++ evs) id := by
  obtain ⟨fr, h1, h2, h3⟩ := h
  refine ⟨fr, h1, h2, ?_⟩
  rw [since_append he]
  exact List.mem_append_left _ h3

/-! ## Steps -/

/-- What a step of one stream does to the ends of streams. -/
structure EndsStep (c c' : Cfg) (id : ℕ) (s s' : Strm) : Prop where
  terminated : Terminated c.st.trace → Terminated c'.st.trace
  ended : ∀ k, Ended c'.st.trace k → Ended c.st.trace k ∨ k = id
  self : Ended c'.st.trace id → s'.HasEnded c' id
  other : ∀ (k : ℕ) (a : Strm), k ≠ id → a.HasEnded c k → a.HasEnded c' k
  sent : ∀ k len, c'.pending = .sent k len true → FinInFlight c'.st.trace k

/-- A step that logs nothing about ends. -/
theorem EndsStep.of_silent (evs : List Event) (hc : c.EndsOk)
    (htrace : c'.st.trace = c.st.trace ++ evs) (hsilent : ∀ e ∈ evs, e.Silent)
    (hevs : ∀ e ∈ evs, ∀ k, e.isAccepted k = false)
    (hself : Ended c.st.trace id → s'.HasEnded c' id)
    (hp : ∀ k len, k ≠ id → c.pending = .sent k len true → c'.pending = .sent k len true)
    (hp' : ∀ k len, c'.pending = .sent k len true → c.pending = .sent k len true) :
    EndsStep c c' id s s' where
  terminated h := htrace ▸ h.append hsilent
  ended k h := .inl ((ended_append hsilent).1 (htrace ▸ h))
  self h := hself ((ended_append hsilent).1 (htrace ▸ h))
  other k a hk h := ⟨h.1, h.2.imp_right fun ⟨len, h⟩ => ⟨len, hp k len hk h⟩⟩
  sent k len h := by
    rw [htrace]
    exact (hc.sent k len (hp' k len h)).append fun e he => hevs e he k

theorem StrmStep.ends (h : StrmStep quiet c id s s' pushed c') (hI : Inv c)
    (hf : c.conn.strms.find id = some s) (hc : c.EndsOk) (hres : ResetsInTime c'.st.trace) :
    EndsStep c c' id s s' := by
  have hnil : c.st.trace = c.st.trace ++ [] := (List.append_nil _).symm
  have hended (h : Ended c.st.trace id) : s.HasEnded c id := (hc.ended id h).2 s hf
  -- nothing is in flight but while the callback about a STREAM frame runs
  have hnot (hp : ∀ len, c.pending ≠ .sent id len true) (h : Ended c.st.trace id) :
      s.flags.sendResetStream = false ∧ s.flags.shutWr = true :=
    ⟨(hended h).1, (hended h).2.resolve_right fun ⟨len, h⟩ => hp len h⟩
  cases h with
  | shutWrite code hfree hshut =>
    refine .of_silent [_] hc rfl (by simp [Event.Silent]) (by simp [Event.isAccepted])
      (fun hend => ?_) (fun _ _ _ h => h) fun _ _ h => h
    rcases (hended hend).2 with h | ⟨len, h⟩
    · cases hshut.symm.trans h
    · exact absurd (hc.sent id len h) ((along_concat.1 hres).2.2 id code rfl)
  | stopReset fr hp hid _ hshut =>
    refine .of_silent [_] hc rfl (by simp [Event.Silent]) (by simp [Event.isAccepted])
      (fun hend => ?_) (fun _ _ _ h => ?_) nofun
    · cases hshut.symm.trans (hnot (by simp [hp]) hend).2
    · cases hp.symm.trans h
  | txReset q hp hsend =>
    have hfr : ¬Ended c.st.trace id := fun hend => by
      cases hsend.symm.trans (hended hend).1
    refine ⟨fun h => along_concat.2 ⟨h, ?_⟩, fun k h => ?_, fun _ => ⟨rfl, .inl ?_⟩,
      fun k a hk h => ⟨h.1, .inl (h.2.resolve_right ?_)⟩, nofun⟩
    · rintro _ k ⟨⟩ rfl
      exact hfr
    · exact (ended_concat.1 h).imp_right Eq.symm
    · exact ((hI.strms id s hf).sendResetStream hsend).1
    · rintro ⟨len, h⟩
      cases hp.symm.trans h
  | recordSent len fin hp =>
    refine .of_silent [] hc hnil nofun nofun (fun hend => ⟨(hended hend).1, .inl ?_⟩)
      (fun k len' hk h => ?_) fun k len' h => ?_
    · rcases (hended hend).2 with h | ⟨len', h⟩
      · simp [h]
      · cases hp.symm.trans h
        simp
    · cases hp.symm.trans h
      exact absurd rfl hk
    · cases fin <;> cases h
  | extend n _ hs' =>
    subst hs'
    exact .of_silent [] hc hnil nofun nofun hended (fun _ _ _ h => h) fun _ _ h => h
  | _ =>
    first
    | exact .of_silent [] hc hnil nofun nofun hended (fun _ _ _ h => h) fun _ _ h => h
    | exact .of_silent [_] hc rfl (by simp [Event.Silent]) (by simp [Event.isAccepted])
        hended (fun _ _ _ h => h) fun _ _ h => h
    | exact .of_silent [] hc hnil nofun nofun
        (fun hend => ⟨(hnot (by simp [*]) hend).1, .inl (hnot (by simp [*]) hend).2⟩)
        (fun _ _ _ h => by simp [*] at h) nofun
    | exact .of_silent [_] hc rfl (by simp [Event.Silent]) (by simp [Event.isAccepted])
        (fun hend => ⟨(hnot (by simp [*]) hend).1, .inl (hnot (by simp [*]) hend).2⟩)
        (fun _ _ _ h => by simp [*] at h) nofun

/-- A step that logs nothing about ends, and changes no stream that there was. -/
theorem Cfg.EndsOk.of_silent (evs : List Event) (hc : c.EndsOk)
    (hused : ∀ id, c.conn.Used id → c'.conn.Used id)
    (htrace : c'.st.trace = c.st.trace ++ evs) (hsilent : ∀ e ∈ evs, e.Silent)
    (hevs : ∀ e ∈ evs, ∀ k, e.isAccepted k = false ∨ c.pending = .idle)
    (hfind : ∀ k a, c'.conn.strms.find k = some a → c.conn.strms.find k = some a ∨ ¬c.conn.Used k)
    (hp : ∀ k len, c'.pending = .sent k len true ↔ c.pending = .sent k len true) : c'.EndsOk where
  terminated := htrace ▸ hc.terminated.append hsilent
  ended id h := by
    obtain ⟨hu, hs⟩ := hc.ended id ((ended_append hsilent).1 (htrace ▸ h))
    refine ⟨hused id hu, fun a ha => ?_⟩
    obtain ⟨h1, h2⟩ := hs a ((hfind id a ha).resolve_right fun h => h hu)
    exact ⟨h1, h2.imp_right fun ⟨len, h⟩ => ⟨len, (hp id len).2 h⟩⟩
  sent k len h := by
    have h := (hp k len).1 h
    rw [htrace]
    refine (hc.sent k len h).append fun e he => (hevs e he k).resolve_right fun hi => ?_
    cases hi.symm.trans h

theorem Cfg.EndsOk.of_rejected (hc : c.EndsOk)
    (htrace : c'.st.trace = c.st.trace ++ [.earlyDataRejected]) (hp : c'.pending = .idle) :
    c'.EndsOk where
  terminated := by
    rw [htrace]
    exact along_concat.2 ⟨hc.terminated, nofun⟩
  ended id := fun ⟨fr, hfr, _⟩ => by
    rw [htrace, since_concat_of_pos rfl] at hfr
    cases hfr
  sent k len h := by cases hp.symm.trans h

theorem Event.Plain.silent {e : Event} (he : e.Plain) : e.Silent ∧ ∀ k, e.isAccepted k = false := by
  cases e with
  | txFr fr => cases fr <;> first | exact ⟨trivial, fun _ => rfl⟩ | exact he.elim
  | _ => first | exact ⟨trivial, fun _ => rfl⟩ | exact he.elim

theorem Step.endsOk (h : Step quiet l c c') (hI : Inv c) (hc : c.EndsOk)
    (hres : ResetsInTime c'.st.trace) : c'.EndsOk := by
  rcases h.used hI with hused | ⟨-, htrace, hp⟩
  · cases h with
    -- A step of a stream: it ends the stream, or leaves ended what was.
    | @strm _ c' id s s' pushed conn hs hch =>
      have hframe := hs.frame
      have hf := hch.found
      rw [hframe] at hf
      have he := hs.ends hI hf hc hres
      refine ⟨he.terminated hc.terminated, fun k hk => ⟨?_, fun a ha => ?_⟩, he.sent⟩
      · refine hused k ?_
        rcases he.ended k hk with hk | rfl
        exacts [(hc.ended k hk).1, hI.ids.used hf]
      · rcases hch.cases ha with ⟨rfl, rfl⟩ | ⟨hne, ha⟩
        · exact he.self hk
        · rw [hframe] at ha
          exact he.other k a hne (((hc.ended k ((he.ended k hk).resolve_right hne)).2 a) ha)
    | txStream q fr hp hw hf hid _ _ _ _ _ hshut =>
      -- A frame is sent on an open stream only, so on none that has ended.
      subst hid
      have hopen := hshut hres.of_append
      have hend : ¬Ended c.st.trace fr.streamId := fun hend => by
        rcases ((hc.ended _ hend).2 _ hf).2 with h | ⟨len, h⟩
        · cases hopen.symm.trans h
        · cases hp.symm.trans h
      have hused' : c.conn.Used fr.streamId := hI.ids.used hf
      refine ⟨along_concat.2 ⟨hc.terminated, ?_⟩, fun k hk => ?_, fun k len hk => ?_⟩
      · rintro _ k ⟨⟩ rfl
        exact hend
      -- A stream that has ended before, or ends with this frame.
      · rcases ended_concat.1 hk with hk | ⟨rfl, hfin⟩
        · obtain ⟨h1, h2⟩ := hc.ended k hk
          refine ⟨h1, fun a ha => ⟨(h2 a ha).1, .inl ((h2 a ha).2.resolve_right ?_)⟩⟩
          rintro ⟨len, h⟩
          cases hp.symm.trans h
        · refine ⟨hused', fun a ha => ⟨?_, .inr ⟨fr.len, by rw [hfin]⟩⟩⟩
          obtain rfl := Option.some.inj (hf.symm.trans ha)
          by_contra hsend
          cases hopen.symm.trans ((hI.strms _ _ hf).sendResetStream (by simpa using hsend)).1
      · obtain ⟨rfl, -, hfin⟩ := Pending.sent.inj hk
        refine ⟨fr, hfin, rfl, ?_⟩
        rw [Cfg.log_trace, since_concat_of_neg rfl]
        simp
    | openBidi =>
      -- The new stream has not been used, so it has not ended.
      refine hc.of_silent [_] hused rfl (by simp [Event.Silent]) (by simp [Event.isAccepted])
        (fun k a ha => ?_) fun _ _ => Iff.rfl
      obtain ⟨-, hl, hnone⟩ := hI.ids.bidi_next
      refine (find_insert_cases hnone ha).symm.imp_right ?_
      rintro ⟨rfl, -⟩ hu
      have := hu.1 hl
      simp [Conn.nextStreamId, hI.ids.bidi_next.1] at this
    | openUni =>
      refine hc.of_silent [_] hused rfl (by simp [Event.Silent]) (by simp [Event.isAccepted])
        (fun k a ha => ?_) fun _ _ => Iff.rfl
      obtain ⟨-, hl, hnone⟩ := hI.ids.uni_next
      refine (find_insert_cases hnone ha).symm.imp_right ?_
      rintro ⟨rfl, -⟩ hu
      have := hu.1 hl
      simp [Conn.nextStreamId, hI.ids.uni_next.1] at this
    | accept hp hid hlocal hnone _ _ _ hopen =>
      refine hc.of_silent [_] hused rfl (by simp [Event.Silent]) (by simp [Event.isAccepted])
        (fun k a ha => ?_) fun _ _ => Iff.rfl
      refine (find_insert_cases hnone ha).symm.imp_right ?_
      rintro ⟨rfl, -⟩ hu
      obtain ⟨hle, ho⟩ := hu.2 hlocal
      exact (Idtr.openId_ok (hI.ids.hasRoom _) hle hopen).1 ho
    | event e he =>
      refine hc.of_silent [e] hused rfl (fun _ h => List.mem_singleton.1 h ▸ he.silent.1)
        (fun _ h k => .inl ?_) (fun _ _ h => .inl h) fun _ _ => Iff.rfl
      rw [List.mem_singleton.1 h]
      exact he.silent.2 k
    | reject _ _ hp => exact hc.of_rejected rfl hp
    | erase hp hfind =>
      exact hc.of_silent [] hused (List.append_nil _).symm (by simp) (by simp)
        (fun k a ha => .inl (find_erase_cases ha).2) (by simp [hp])
    | accepted hp =>
      exact hc.of_silent [_] hused rfl (by simp [Event.Silent]) (fun _ _ _ => .inr hp)
        (fun _ _ h => .inl h) fun _ _ => Iff.rfl
    | announceStop hp =>
      exact hc.of_silent [_, _] hused rfl (by simp [Event.Silent]) (by simp [Event.isAccepted])
        (fun _ _ h => .inl h) (by simp [hp])
    | announceBidi hp =>
      exact hc.of_silent [_, _] hused rfl (by simp [Event.Silent]) (by simp [Event.isAccepted])
        (fun _ _ h => .inl h) (by simp [hp])
    | announceUni hp =>
      exact hc.of_silent [_, _] hused rfl (by simp [Event.Silent]) (by simp [Event.isAccepted])
        (fun _ _ h => .inl h) (by simp [hp])
    | close hp =>
      exact hc.of_silent [_] hused rfl (by simp [Event.Silent, Strm.closeEvent])
        (by simp [Event.isAccepted, Strm.closeEvent]) (fun _ _ h => .inl h) (by simp [hp])
    -- The other steps send no data and schedule no reset.
    | _ =>
      first
      | exact hc.of_silent [] hused (List.append_nil _).symm (by simp) (by simp)
          (fun _ _ h => .inl h) fun _ _ => by first | exact Iff.rfl | simp [*]
      | exact hc.of_silent [_] hused rfl (by simp [Event.Silent])
          (by simp [Event.isAccepted]) (fun _ _ h => .inl h) fun _ _ => by
            first | exact Iff.rfl | simp [*]
  · exact hc.of_rejected htrace hp

end Dwnx
