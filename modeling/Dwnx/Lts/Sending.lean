import Dwnx.Lts.Hearing

/-!
# What is sent of a stream

The data of a stream is sent in order, without a gap, and nothing of it is sent after its
end (`Event.SentWell`), whatever callbacks do: a call that writes first checks that the
stream is open for writing, it writes one frame, and a frame with FIN shuts the stream.
-/

namespace Dwnx

variable {quiet : Prop} {c c' : Cfg} {id : ℕ} {s s' : Strm} {pushed : Bool} {l : Label}
  {trace evs : List Event}

/-! ## What the history tells -/

/-- The data of the stream that is encoded. -/
def Event.sentData (id : ℕ) : Event → List UInt8
  | .txFr (.stream fr) => if fr.streamId = id then fr.data.flatten.take fr.len else []
  | _ => []

/-- The data of the stream that was encoded. -/
def sentData (trace : List Event) (id : ℕ) : List UInt8 := trace.flatMap (Event.sentData id)

/-- A STREAM frame with FIN was encoded. -/
def FinSent (trace : List Event) (id : ℕ) : Prop :=
  ∃ fr : FrameStream, Event.txFr (.stream fr) ∈ trace ∧ fr.streamId = id ∧ fr.fin = true

/-- A STREAM frame goes on where the one before it ended, and does not come after the end. -/
def Event.SentWell (pre : List Event) : Event → Prop
  | .txFr (.stream fr) =>
    fr.offset = (Dwnx.sentData (recent pre) fr.streamId).length ∧
      fr.len ≤ fr.data.flatten.length ∧ ¬FinSent (recent pre) fr.streamId
  | _ => True

/-- The length of the STREAM frame that is not accounted for. -/
def Cfg.inFlight (c : Cfg) (id : ℕ) : ℕ :=
  match c.pending with
  | .sent streamId len _ => if streamId = id then len else 0
  | _ => 0

/-- What the history says of a stream that there is. -/
structure Strm.Sent (c : Cfg) (id : ℕ) (s : Strm) : Prop where
  length : (sentData (recent c.st.trace) id).length = s.tx.offset + c.inFlight id
  fin : FinSent (recent c.st.trace) id →
    s.flags.shutWr = true ∨ ∃ len, c.pending = .sent id len true

/-- What is known of the data sent. -/
structure Cfg.DataOk (c : Cfg) : Prop where
  events : Along Event.SentWell c.st.trace
  unused : ∀ id, ¬c.conn.Used id →
    sentData (recent c.st.trace) id = [] ∧ ¬FinSent (recent c.st.trace) id
  strm : ∀ id s, c.conn.strms.find id = some s → s.Sent c id
  writing : ∀ id, c.writing = some id → FinSent (recent c.st.trace) id →
    ∃ len, c.pending = .sent id len true
  sent : ∀ id len fin, c.pending = .sent id len fin → c.conn.Used id

/-! ## Events -/

/-- The event is no STREAM frame sent, and no end of early data. -/
structure Event.SendsNone (e : Event) : Prop where
  rejected : e.isRejected = false
  stream : ∀ fr, e ≠ .txFr (.stream fr)

/-- No data is sent. -/
theorem Event.SendsNone.sentData {e : Event} (h : e.SendsNone) : e.sentData id = [] := by
  cases e with
  | txFr fr =>
    cases fr with
    | stream fr => exact absurd rfl (h.stream fr)
    | _ => rfl
  | _ => rfl

/-- Nothing is sent that should not be. -/
theorem Event.SendsNone.sentWell {e : Event} (h : e.SendsNone) : e.SentWell trace := by
  cases e with
  | txFr fr =>
    cases fr with
    | stream fr => exact absurd rfl (h.stream fr)
    | _ => trivial
  | _ => trivial

/-- The event alone. -/
theorem Event.SendsNone.all {e : Event} (h : e.SendsNone) : ∀ e' ∈ [e], e'.SendsNone :=
  fun _ h' => List.mem_singleton.1 h' ▸ h

/-- Two such events. -/
theorem Event.SendsNone.pair {a b : Event} (ha : a.SendsNone) (hb : b.SendsNone) :
    ∀ e ∈ [a, b], e.SendsNone := by
  intro e he
  rcases List.mem_pair.1 he with rfl | rfl
  · exact ha
  · exact hb

/-- A plain event sends no data. -/
theorem Event.Plain.sendsNone {e : Event} (he : e.Plain) : e.SendsNone := by
  cases e with
  | txFr fr =>
    cases fr <;> first
      | exact he.elim
      | exact ⟨rfl, by rintro _ ⟨⟩⟩
  | _ => first
    | exact he.elim
    | exact ⟨rfl, by rintro _ ⟨⟩⟩

section

variable (h : ∀ e ∈ evs, e.SendsNone)

include h

/-- All such events are recent. -/
theorem recent_append_of_sendsNone : recent (trace ++ evs) = recent trace ++ evs :=
  since_append fun e he => (h e he).rejected

/-- What was sent is the same. -/
theorem sentData_append_of_sendsNone : sentData (trace ++ evs) id = sentData trace id := by
  have hnil : evs.flatMap (Event.sentData id) = [] :=
    List.flatMap_eq_nil_iff.2 fun e he => (h e he).sentData
  rw [sentData, List.flatMap_append, hnil, List.append_nil]
  rfl

/-- Whether the end was sent is the same. -/
theorem finSent_append_of_sendsNone : FinSent (trace ++ evs) id ↔ FinSent trace id := by
  refine exists_congr fun fr => and_congr_left fun _ => ⟨fun hmem => ?_, fun hmem => ?_⟩
  · exact (List.mem_append.1 hmem).resolve_right fun hmem => (h _ hmem).stream fr rfl
  · exact List.mem_append_left _ hmem

end

/-- The data of a frame is sent. -/
theorem sentData_concat {fr : FrameStream} :
    sentData (trace ++ [.txFr (.stream fr)]) id =
      sentData trace id ++ if fr.streamId = id then fr.data.flatten.take fr.len else [] := by
  rw [sentData, List.flatMap_append, List.flatMap_singleton]
  rfl

/-- The end is sent with a frame. -/
theorem finSent_concat {fr : FrameStream} :
    FinSent (trace ++ [.txFr (.stream fr)]) id ↔
      FinSent trace id ∨ fr.streamId = id ∧ fr.fin = true := by
  constructor
  · rintro ⟨fr', hmem, hfr'⟩
    rcases List.mem_append.1 hmem with hmem | hmem
    · exact .inl ⟨fr', hmem, hfr'⟩
    · cases List.mem_singleton.1 hmem
      exact .inr hfr'
  · rintro (⟨fr', hmem, hfr'⟩ | hfr)
    · exact ⟨fr', List.mem_append_left _ hmem, hfr'⟩
    · exact ⟨fr, List.mem_append_right _ (List.mem_singleton_self _), hfr⟩

/-! ## Steps -/

/-- No STREAM frame waits to be accounted for. -/
def Pending.NotSent (p : Pending) : Prop := ∀ id len fin, p ≠ .sent id len fin

/-- Nothing is in flight. -/
theorem Cfg.inFlight_of_notSent (h : c.pending.NotSent) : c.inFlight id = 0 := by
  rw [inFlight]
  cases hp : c.pending with
  | sent k len fin => exact absurd hp (h k len fin)
  | _ => rfl

/-- A step that sends no data, and changes nothing of what is sent. -/
theorem Cfg.DataOk.of_same (hc : c.DataOk) (evs : List Event)
    (htrace : c'.st.trace = c.st.trace ++ evs) (hevs : ∀ e ∈ evs, e.SendsNone)
    (hused : ∀ id, c.conn.Used id → c'.conn.Used id)
    (hp : c'.pending = c.pending ∨ c.pending.NotSent ∧ c'.pending.NotSent)
    (hw : c'.writing = c.writing ∨ c'.writing = none)
    (hfind : ∀ id s', c'.conn.strms.find id = some s' →
      (∃ s, c.conn.strms.find id = some s ∧ s'.tx.offset = s.tx.offset ∧
        (s.flags.shutWr = true → s'.flags.shutWr = true)) ∨
      ¬c.conn.Used id ∧ s' = c.conn.newStrm id) : c'.DataOk := by
  have hrecent : recent c'.st.trace = recent c.st.trace ++ evs := by
    rw [htrace, recent_append_of_sendsNone hevs]
  have hflight (id : ℕ) : c'.inFlight id = c.inFlight id := by
    rcases hp with hp | ⟨h, h'⟩
    · rw [inFlight, inFlight, hp]
    · rw [inFlight_of_notSent h, inFlight_of_notSent h']
  have hsent {id len : ℕ} {fin : Bool} (h : c.pending = .sent id len fin) :
      c'.pending = .sent id len fin := by
    rcases hp with hp | ⟨hn, -⟩
    · exact hp.trans h
    · exact absurd h (hn id len fin)
  refine ⟨?_, fun id hu => ?_, fun id s' hf => ⟨?_, fun hfin => ?_⟩, fun id hid hfin => ?_,
    fun id len fin h => ?_⟩
  · rw [htrace]
    exact hc.events.append fun e he pre => (hevs e he).sentWell
  · rw [hrecent, sentData_append_of_sendsNone hevs, finSent_append_of_sendsNone hevs]
    exact hc.unused id fun h => hu (hused id h)
  · rw [hrecent, sentData_append_of_sendsNone hevs, hflight]
    rcases hfind id s' hf with ⟨s, hs, hoffset, -⟩ | ⟨hu, rfl⟩
    · rw [hoffset]
      exact (hc.strm id s hs).length
    · -- a stream that is new has sent nothing
      have hzero : c.inFlight id = 0 := by
        rw [inFlight]
        cases hp : c.pending with
        | sent k len fin => exact if_neg fun (hk : k = id) => hu (hk ▸ hc.sent k len fin hp)
        | _ => rfl
      rw [(hc.unused id hu).1, hzero, c.conn.newStrm_tx]
      rfl
  · rw [hrecent, finSent_append_of_sendsNone hevs] at hfin
    rcases hfind id s' hf with ⟨s, hs, -, hshut⟩ | ⟨hu, rfl⟩
    · exact ((hc.strm id s hs).fin hfin).imp hshut fun ⟨len, h⟩ => ⟨len, hsent h⟩
    · exact absurd hfin (hc.unused id hu).2
  · rw [hrecent, finSent_append_of_sendsNone hevs] at hfin
    rcases hw with hw | hw
    · exact (hc.writing id (hw ▸ hid) hfin).imp fun len h => hsent h
    · cases hw.symm.trans hid
  · rcases hp with hp | ⟨-, hn⟩
    · exact hused id (hc.sent id len fin (hp.symm.trans h))
    · exact absurd h (hn id len fin)

/-- A step of a stream keeps what was sent of it well formed. -/
theorem StrmStep.dataOk {conn : Conn} (h : StrmStep quiet c id s s' pushed c')
    (hch : Changes c'.conn conn id s s' pushed) (hc : c.DataOk)
    (hused : ∀ k, c.conn.Used k → conn.Used k) : Cfg.DataOk { c' with st.conn := conn } := by
  have hf := hch.found
  rw [h.frame] at hf
  have hs := hc.strm id s hf
  have hfind (k : ℕ) (a : Strm) (ha : conn.strms.find k = some a) :
      k = id ∧ a = s' ∨ k ≠ id ∧ c.conn.strms.find k = some a := by
    have := hch.cases ha
    rwa [h.frame] at this
  -- A step that sends nothing changes no offset, and reopens no stream.
  have hsame (hoffset : s'.tx.offset = s.tx.offset)
      (hshut : s.flags.shutWr = true → s'.flags.shutWr = true) (k : ℕ) (a : Strm)
      (ha : conn.strms.find k = some a) :
      (∃ b, c.conn.strms.find k = some b ∧ a.tx.offset = b.tx.offset ∧
        (b.flags.shutWr = true → a.flags.shutWr = true)) ∨
      ¬c.conn.Used k ∧ a = c.conn.newStrm k := by
    rcases hfind k a ha with ⟨rfl, rfl⟩ | ⟨-, ha⟩
    · exact .inl ⟨s, hf, hoffset, hshut⟩
    · exact .inl ⟨a, ha, rfl, fun h => h⟩
  cases h with
  | recordSent len fin hp =>
    have hnone (k : ℕ) : Cfg.inFlight { c with pending := if fin then .shut id else .idle } k = 0 :=
      Cfg.inFlight_of_notSent fun _ _ _ h => by cases fin <;> cases h
    refine ⟨hc.events, fun k hu => hc.unused k fun h => hu (hused k h), fun k a ha => ?_,
      fun k hk hfin => ?_, fun _ _ _ h => ?_⟩
    · rcases hfind k a ha with ⟨rfl, rfl⟩ | ⟨hk, ha⟩
      · -- the frame is accounted for
        have hflight : c.inFlight k = len := by
          rw [Cfg.inFlight, hp]
          exact if_pos rfl
        refine ⟨?_, fun hfin => .inl ?_⟩
        · have hlength := hs.length
          rw [hflight] at hlength
          exact hlength.trans (congrArg (s.tx.offset + len + ·) (hnone k)).symm
        · rcases hs.fin hfin with h | ⟨n, h⟩
          · exact Bool.or_eq_true_iff.2 (.inl h)
          · cases hp.symm.trans h
            exact Bool.or_true _
      -- The frame in flight is of another stream.
      · have hflight : c.inFlight k = 0 := by
          rw [Cfg.inFlight, hp]
          exact if_neg (Ne.symm hk)
        have ha := hc.strm k a ha
        refine ⟨?_, fun hfin => .inl ?_⟩
        · have hlength := ha.length
          rw [hflight] at hlength
          exact hlength.trans (congrArg (a.tx.offset + ·) (hnone k)).symm
        · refine (ha.fin hfin).resolve_right ?_
          rintro ⟨n, h⟩
          cases hp.symm.trans h
          exact hk rfl
    · cases fin with
      | true => cases hk
      | false =>
        obtain ⟨n, h⟩ := hc.writing k hk hfin
        cases hp.symm.trans h
    · cases fin <;> cases h
  | extend n _ hs' =>
    subst hs'
    exact hc.of_same [] (List.append_nil _).symm (by simp) hused (.inl rfl) (.inl rfl)
      (hsame rfl fun h => h)
  | _ =>
    first
    | exact hc.of_same [] (List.append_nil _).symm (by simp) hused (.inl rfl) (.inl rfl)
        (hsame rfl fun h => by first | exact h | rfl)
    | exact hc.of_same [_] rfl (Event.SendsNone.all ⟨rfl, by rintro _ ⟨⟩⟩) hused (.inl rfl)
        (.inl rfl) (hsame rfl fun h => by first | exact h | rfl)
    | exact hc.of_same [] (List.append_nil _).symm (by simp) hused
        (.inr ⟨by simp [Pending.NotSent, *], by simp [Pending.NotSent]⟩) (.inl rfl)
        (hsame rfl fun h => by first | exact h | rfl)
    | exact hc.of_same [_] rfl (Event.SendsNone.all ⟨rfl, by rintro _ ⟨⟩⟩) hused
        (.inr ⟨by simp [Pending.NotSent, *], by simp [Pending.NotSent]⟩) (.inl rfl)
        (hsame rfl fun h => by first | exact h | rfl)

/-- A STREAM frame is encoded. -/
theorem Cfg.DataOk.txStream {q : Qre} {fr : FrameStream} {o : Option (ℕ × List UInt8 × Bool)}
    (hc : c.DataOk) (hI : Inv c) (hp : c.pending = .idle) (hw : c.writing = some id)
    (hf : c.conn.strms.find id = some s) (hid : fr.streamId = id) (hoff : fr.offset = s.tx.offset)
    (hlen : fr.len ≤ fr.data.flatten.length) :
    Cfg.DataOk
      { c.log [.txFr (.stream fr)] with
        st.conn.tx.qre := q
        pending := .sent id fr.len fr.fin
        unaccepted := o } := by
  subst hid
  have hrecent : recent (c.st.trace ++ [.txFr (.stream fr)]) =
      recent c.st.trace ++ [.txFr (.stream fr)] := recent_concat rfl
  have hidle {k len : ℕ} {fin : Bool} : c.pending ≠ .sent k len fin := fun h => by
    cases hp.symm.trans h
  have hzero (k : ℕ) : c.inFlight k = 0 := c.inFlight_of_notSent fun _ _ _ => hidle
  -- nothing is written to a stream that has ended
  have hnot : ¬FinSent (recent c.st.trace) fr.streamId := fun h => by
    obtain ⟨n, h⟩ := hc.writing _ hw h
    exact hidle h
  have hother {k : ℕ} (hk : k ≠ fr.streamId) :
      sentData (recent c.st.trace ++ [.txFr (.stream fr)]) k = sentData (recent c.st.trace) k ∧
        (FinSent (recent c.st.trace ++ [.txFr (.stream fr)]) k →
          FinSent (recent c.st.trace) k) := by
    rw [sentData_concat, if_neg hk.symm, List.append_nil, finSent_concat]
    exact ⟨rfl, fun h => h.resolve_right fun h => hk h.1.symm⟩
  refine ⟨along_concat.2 ⟨hc.events, ?_, hlen, hnot⟩, fun k hu => ?_, fun k a ha => ?_,
    fun k hk hfin => ?_, fun k len fin h => ?_⟩
  · rw [hoff, (hc.strm _ _ hf).length, hzero]
    rfl
  · have hk : k ≠ fr.streamId := by
      rintro rfl
      exact hu (hI.ids.used hf)
    rw [Cfg.log_trace, hrecent, (hother hk).1]
    exact ⟨(hc.unused k hu).1, fun h => (hc.unused k hu).2 ((hother hk).2 h)⟩
  · by_cases hk : k = fr.streamId
    · subst hk
      cases hf.symm.trans ha
      refine ⟨?_, fun hfin => ?_⟩
      · rw [Cfg.log_trace, hrecent, sentData_concat, if_pos rfl, List.length_append,
          (hc.strm _ _ hf).length, hzero, List.length_take_of_le hlen, Cfg.inFlight]
        exact congrArg _ (if_pos rfl).symm
      · rw [Cfg.log_trace, hrecent, finSent_concat] at hfin
        obtain ⟨-, hfin⟩ := hfin.resolve_left hnot
        exact .inr ⟨fr.len, by rw [hfin]⟩
    · refine ⟨?_, fun hfin => .inl ?_⟩
      · rw [Cfg.log_trace, hrecent, (hother hk).1, (hc.strm k a ha).length, hzero, Cfg.inFlight]
        exact congrArg _ (if_neg (Ne.symm hk)).symm
      · rw [Cfg.log_trace, hrecent] at hfin
        refine ((hc.strm k a ha).fin ((hother hk).2 hfin)).resolve_right ?_
        rintro ⟨n, h⟩
        exact hidle h
  · cases hw.symm.trans hk
    rw [Cfg.log_trace, hrecent, finSent_concat] at hfin
    obtain ⟨-, hfin⟩ := hfin.resolve_left hnot
    exact ⟨fr.len, by rw [hfin]⟩
  · cases h
    exact hI.ids.used hf

/-- Early data is rejected. -/
theorem Cfg.DataOk.of_rejected (hc : c.DataOk)
    (htrace : c'.st.trace = c.st.trace ++ [.earlyDataRejected]) (hw : c'.writing = none)
    (hp : c'.pending = .idle) (hfind : ∀ id, c'.conn.strms.find id = none) : c'.DataOk := by
  have hrecent : recent c'.st.trace = [] := by
    rw [htrace]
    exact since_concat_of_pos rfl
  refine ⟨?_, fun id _ => ?_, fun id s hf => ?_, fun id hid => ?_, fun id len fin h => ?_⟩
  · rw [htrace]
    exact along_concat.2 ⟨hc.events, trivial⟩
  · rw [hrecent]
    exact ⟨rfl, by rintro ⟨_, ⟨⟩, _⟩⟩
  · cases (hfind id).symm.trans hf
  · cases hw.symm.trans hid
  · cases hp.symm.trans h

/-- Every step keeps what is known of the data sent. -/
theorem Step.dataOk (h : Step quiet l c c') (hI : Inv c) (hc : c.DataOk) : c'.DataOk := by
  by_cases hl : l = .reject
  · cases h with
    | reject hclient hparams hp hw => exact hc.of_rejected rfl hw hp fun _ => rfl
    | _ => cases hl
  have hused (id : ℕ) (hu : c.conn.Used id) : c'.conn.Used id := h.used_of_ne hI hl hu
  rcases h.sort hI with ⟨id, s, s', pushed, c'', conn, hs, hch, rfl⟩ | hfind
  · exact hs.dataOk hch hc hused
  have hsame (id : ℕ) (s' : Strm) (hf : c'.conn.strms.find id = some s') :
      (∃ s, c.conn.strms.find id = some s ∧ s'.tx.offset = s.tx.offset ∧
        (s.flags.shutWr = true → s'.flags.shutWr = true)) ∨
      ¬c.conn.Used id ∧ s' = c.conn.newStrm id :=
    (hfind id s' hf).imp_left fun hf => ⟨s', hf, rfl, fun h => h⟩
  cases h with
  | strm hs hch => exact hs.dataOk hch hc hused
  | event e he =>
    exact hc.of_same [e] rfl he.sendsNone.all hused (.inl rfl) (.inl rfl) hsame
  | txStream q fr hp hw hf hid hoff hlen => exact hc.txStream hI hp hw hf hid hoff hlen
  | beginWrite hp _ hf hshut =>
    refine ⟨hc.events, hc.unused, fun k a ha => ⟨(hc.strm k a ha).length, (hc.strm k a ha).fin⟩,
      fun k hk hfin => ?_, hc.sent⟩
    cases hk
    rcases (hc.strm _ _ hf).fin hfin with h | ⟨n, h⟩
    · cases hshut.symm.trans h
    · exact ⟨n, h⟩
  | reject => exact absurd rfl hl
  | _ =>
    first
    | exact hc.of_same [] (List.append_nil _).symm (by simp) hused (.inl rfl) (by simp) hsame
    | exact hc.of_same [] (List.append_nil _).symm (by simp) hused
        (.inr ⟨by simp [Pending.NotSent, *], by simp [Pending.NotSent]⟩) (by simp) hsame
    | exact hc.of_same [_] rfl (Event.SendsNone.all ⟨rfl, by rintro _ ⟨⟩⟩) hused (.inl rfl)
        (by simp) hsame
    | exact hc.of_same [_] rfl (Event.SendsNone.all ⟨rfl, by rintro _ ⟨⟩⟩) hused
        (.inr ⟨by simp [Pending.NotSent, *], by simp [Pending.NotSent]⟩) (by simp) hsame
    | exact hc.of_same [_, _] rfl (Event.SendsNone.pair ⟨rfl, by rintro _ ⟨⟩⟩
        ⟨rfl, by rintro _ ⟨⟩⟩) hused
        (.inr ⟨by simp [Pending.NotSent, *], by simp [Pending.NotSent]⟩) (by simp) hsame

end Dwnx
