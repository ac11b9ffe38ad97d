import Dwnx.Lts.Names

/-!
# What is heard of a stream

The data of a stream is passed on to the application in order, without a gap, until the
end of the stream or until the application has stopped reading, from when on it is
dropped (`Event.HeardWell`). A step is sorted by whether it is one of a stream
(`Step.sort`); those that tell of data are few, and all others leave what was heard as
it was (`Cfg.HearOk.of_same`).
-/

namespace Dwnx

variable {quiet : Prop} {c c' : Cfg} {id : ℕ} {s s' : Strm} {pushed : Bool} {l : Label}
  {trace evs : List Event}

/-! ## Sorting steps -/

/-- A step is one of a stream, or changes none of the streams that there were. -/
theorem Step.sort (h : Step quiet l c c') (hI : Inv c) :
    (∃ id s s' pushed c'' conn, StrmStep quiet c id s s' pushed c'' ∧
      Changes c''.conn conn id s s' pushed ∧ c' = { c'' with st.conn := conn }) ∨
    ∀ id s', c'.conn.strms.find id = some s' →
      c.conn.strms.find id = some s' ∨ ¬c.conn.Used id ∧ s' = c.conn.newStrm id := by
  cases h with
  | strm hs hc => exact .inl ⟨_, _, _, _, _, _, hs, hc, rfl⟩
  | openBidi =>
    obtain ⟨hb, hl, hnone⟩ := hI.ids.bidi_next
    refine .inr fun id s' hf => (find_insert_cases hnone hf).symm.imp_right ?_
    rintro ⟨rfl, rfl⟩
    refine ⟨fun hu => ?_, rfl⟩
    have := hu.1 hl
    simp [Conn.nextStreamId, hb] at this
  | openUni =>
    obtain ⟨hb, hl, hnone⟩ := hI.ids.uni_next
    refine .inr fun id s' hf => (find_insert_cases hnone hf).symm.imp_right ?_
    rintro ⟨rfl, rfl⟩
    refine ⟨fun hu => ?_, rfl⟩
    have := hu.1 hl
    simp [Conn.nextStreamId, hb] at this
  | accept hp hid hlocal hnone _ _ _ hopen =>
    refine .inr fun id s' hf => (find_insert_cases hnone hf).symm.imp_right ?_
    rintro ⟨rfl, rfl⟩
    refine ⟨fun hu => ?_, rfl⟩
    obtain ⟨hle, ho⟩ := hu.2 hlocal
    exact (Idtr.openId_ok (hI.ids.hasRoom _) hle hopen).1 ho
  | erase => exact .inr fun id s' hf => .inl (find_erase_cases hf).2
  | reject => exact .inr fun id s' hf => by cases hf
  | _ => exact .inr fun id s' hf => .inl hf

/-! ## What the history tells -/

/-- The data of the stream that was passed on, or dropped: then it is not told. -/
def Event.heard (id : ℕ) : Event → List (Option UInt8)
  | .recvStreamData _ streamId _ data => if streamId = id then data.map some else []
  | .discarded streamId len => if streamId = id then List.replicate len none else []
  | _ => []

/-- How much data of the stream was passed on or dropped. -/
def heardLen (trace : List Event) (id : ℕ) : ℕ := (trace.flatMap (Event.heard id)).length

/-- `dwnx_conn_shutdown_stream_read` was called for the stream. -/
def Stopped (trace : List Event) (id : ℕ) : Prop := ∃ code, Event.scheduled false id code ∈ trace

/-- The application has heard of the end of the stream. -/
def FinHeard (trace : List Event) (id : ℕ) : Prop :=
  ∃ offset data, Event.recvStreamData true id offset data ∈ trace

/-- A STREAM frame with FIN came, whose data ends at the offset `n`. -/
def FinCame (trace : List Event) (id n : ℕ) : Prop :=
  ∃ fr : FrameStream, Event.rxFr (.stream fr) ∈ trace ∧ fr.streamId = id ∧ fr.fin = true ∧
    fr.offset + fr.len = n

/-- The history since early data was rejected, if it was. -/
abbrev recent (trace : List Event) : List Event := since Event.isRejected trace

/-- The event tells of data where it may: what is passed on comes where the data heard
    before ended, is something or the end, comes after no end, and is no data of a stream
    that is not read; only such data is dropped. -/
def Event.HeardWell (pre : List Event) : Event → Prop
  | .recvStreamData fin id offset data =>
    offset = heardLen (recent pre) id ∧ (data = [] → fin = true) ∧ ¬FinHeard (recent pre) id ∧
      (data ≠ [] → ¬Stopped (recent pre) id) ∧
      (fin = true → FinCame (recent pre) id (offset + data.length))
  | .discarded id _ => Stopped (recent pre) id
  | _ => True

/-- What is still to come of a STREAM frame of the stream. -/
def Cfg.left (c : Cfg) (id : ℕ) : ℕ :=
  match c.body with
  | some b => if b.streamId = id then b.left else 0
  | none => 0

/-- What the history says of a stream that there is. -/
structure Strm.Heard (c : Cfg) (id : ℕ) (s : Strm) : Prop where
  length : heardLen (recent c.st.trace) id + c.left id = s.rx.lastOffset
  stopped : Stopped (recent c.st.trace) id ↔ s.flags.stopSending = true
  fin : FinHeard (recent c.st.trace) id →
    s.flags.shutRd = true ∨ c.body = some ⟨id, 0, true⟩

theorem Strm.heard_iff : s.Heard c id ↔
    heardLen (recent c.st.trace) id + c.left id = s.rx.lastOffset ∧
      (Stopped (recent c.st.trace) id ↔ s.flags.stopSending = true) ∧
      (FinHeard (recent c.st.trace) id →
        s.flags.shutRd = true ∨ c.body = some ⟨id, 0, true⟩) :=
  ⟨fun h => ⟨h.length, h.stopped, h.fin⟩, fun h => ⟨h.1, h.2.1, h.2.2⟩⟩

/-- What is known of the data heard. -/
structure Cfg.HearOk (c : Cfg) : Prop where
  events : Along Event.HeardWell c.st.trace
  unused : ∀ id, ¬c.conn.Used id → heardLen (recent c.st.trace) id = 0 ∧
    ¬Stopped (recent c.st.trace) id ∧ ¬FinHeard (recent c.st.trace) id
  strm : ∀ id s, c.conn.strms.find id = some s → s.Heard c id
  ends : ∀ id offset data, Event.recvStreamData true id offset data ∈ recent c.st.trace →
    offset + data.length = heardLen (recent c.st.trace) id
  body : ∀ id left, c.body = some ⟨id, left, true⟩ →
    FinCame (recent c.st.trace) id (heardLen (recent c.st.trace) id + left)
  pending : ∀ fr, c.pending = .received fr → Event.rxFr fr ∈ recent c.st.trace

/-! ## Events -/

/-- The event tells of data, or of reading. -/
def Event.isHearing : Event → Bool
  | .recvStreamData .. | .discarded .. | .earlyDataRejected => true
  | .scheduled reset _ _ => !reset
  | _ => false

theorem Event.isRejected_of_not_hearing {e : Event} (h : e.isHearing = false) :
    e.isRejected = false := by
  cases e with
  | earlyDataRejected => cases h
  | _ => rfl

theorem recent_concat {e : Event} (h : e.isRejected = false) :
    recent (trace ++ [e]) = recent trace ++ [e] := since_concat_of_neg h

theorem recent_of_unrejected (h : ∀ e ∈ trace, e.isRejected = false) : recent trace = trace :=
  since_append (l := []) h

theorem heardLen_append (l m : List Event) (id : ℕ) :
    heardLen (l ++ m) id = heardLen l id + heardLen m id := by
  rw [heardLen, List.flatMap_append, List.length_append]
  rfl

section

variable (h : ∀ e ∈ evs, e.isHearing = false)

include h

theorem recent_append : recent (trace ++ evs) = recent trace ++ evs :=
  since_append fun e he => Event.isRejected_of_not_hearing (h e he)

theorem heardLen_append_of_not : heardLen (trace ++ evs) id = heardLen trace id := by
  have hnil : evs.flatMap (Event.heard id) = [] := List.flatMap_eq_nil_iff.2 fun e he => by
    have := h e he
    cases e with
    | recvStreamData | discarded => cases this
    | _ => rfl
  rw [heardLen_append, heardLen, heardLen, hnil]
  rfl

theorem stopped_append_of_not : Stopped (trace ++ evs) id ↔ Stopped trace id := by
  refine exists_congr fun code => ⟨fun hmem => ?_, fun hmem => List.mem_append_left _ hmem⟩
  refine (List.mem_append.1 hmem).resolve_right fun hmem => ?_
  cases h _ hmem

theorem recvStreamData_append_of_not {fin : Bool} {offset : ℕ} {data : List UInt8} :
    Event.recvStreamData fin id offset data ∈ trace ++ evs ↔
      Event.recvStreamData fin id offset data ∈ trace := by
  refine ⟨fun hmem => ?_, fun hmem => List.mem_append_left _ hmem⟩
  refine (List.mem_append.1 hmem).resolve_right fun hmem => ?_
  cases h _ hmem

theorem finHeard_append_of_not : FinHeard (trace ++ evs) id ↔ FinHeard trace id :=
  exists_congr fun _ => exists_congr fun _ => recvStreamData_append_of_not h

end

theorem FinCame.append {n : ℕ} (h : FinCame trace id n) : FinCame (trace ++ evs) id n := by
  obtain ⟨fr, hmem, hfr⟩ := h
  exact ⟨fr, List.mem_append_left _ hmem, hfr⟩

/-! ## Steps -/

/-- What is still to come, if anything, is of a stream that there is. -/
theorem Cfg.left_of_unused (hI : Inv c) (hu : ¬c.conn.Used id) : c.left id = 0 := by
  rw [Cfg.left]
  cases hb : c.body with
  | none => rfl
  | some b =>
    refine if_neg fun hid => hu ?_
    obtain ⟨-, s, hf, -⟩ := hI.pending.body b.streamId b.left b.fin hb
    exact hid ▸ hI.ids.used hf

/-- A step that tells of no data, and changes nothing of what is read. -/
theorem Cfg.HearOk.of_same (hc : c.HearOk) (hI : Inv c) (evs : List Event)
    (htrace : c'.st.trace = c.st.trace ++ evs) (hevs : ∀ e ∈ evs, e.isHearing = false)
    (hused : ∀ id, c.conn.Used id → c'.conn.Used id)
    (hbody : c'.body = c.body ∨ c'.body = none ∧ ∃ id, c.body = some ⟨id, 0, false⟩)
    (hfind : ∀ id s', c'.conn.strms.find id = some s' →
      (∃ s, c.conn.strms.find id = some s ∧ s'.rx.lastOffset = s.rx.lastOffset ∧
        s'.flags.stopSending = s.flags.stopSending ∧
        (s.flags.shutRd = true → s'.flags.shutRd = true)) ∨
      ¬c.conn.Used id ∧ s' = c.conn.newStrm id)
    (hp : ∀ fr, c'.pending = .received fr → c.pending = .received fr ∨ Event.rxFr fr ∈ evs) :
    c'.HearOk := by
  have hrecent : recent c'.st.trace = recent c.st.trace ++ evs := by
    rw [htrace, recent_append hevs]
  have hleft (id : ℕ) : c'.left id = c.left id := by
    rcases hbody with hbody | ⟨hnone, k, hk⟩
    · rw [left, left, hbody]
    · rw [left, left, hnone, hk]
      exact (ite_self 0).symm
  refine ⟨?_, fun id hu => ?_, fun id s' hf => ⟨?_, ?_, ?_⟩, ?_, fun id left hb => ?_, ?_⟩
  · rw [htrace]
    -- Nothing is logged that is for the application to hear.
    refine hc.events.append fun e he pre => ?_
    have := hevs e he
    cases e with
    | recvStreamData | discarded => cases this
    | _ => trivial
  · rw [hrecent, heardLen_append_of_not hevs, stopped_append_of_not hevs,
      finHeard_append_of_not hevs]
    exact hc.unused id fun h => hu (hused id h)
  · rw [hrecent, heardLen_append_of_not hevs, hleft]
    -- A stream that is new has heard nothing.
    rcases hfind id s' hf with ⟨s, hs, hoffset, -⟩ | ⟨hu, rfl⟩
    · rw [hoffset]
      exact (hc.strm id s hs).length
    · rw [(hc.unused id hu).1, c.left_of_unused hI hu, c.conn.newStrm_rx]
  · rw [hrecent, stopped_append_of_not hevs]
    rcases hfind id s' hf with ⟨s, hs, -, hstop, -⟩ | ⟨hu, rfl⟩
    · rw [hstop]
      exact (hc.strm id s hs).stopped
    · rw [c.conn.newStrm_flags]
      exact iff_of_false (hc.unused id hu).2.1 Bool.false_ne_true
  · rw [hrecent, finHeard_append_of_not hevs]
    intro hfin
    rcases hfind id s' hf with ⟨s, hs, -, -, hshut⟩ | ⟨hu, rfl⟩
    · refine ((hc.strm id s hs).fin hfin).imp hshut fun hb => ?_
      rcases hbody with hbody | ⟨-, k, hk⟩
      · rw [hbody, hb]
      · cases hb.symm.trans hk
    · exact absurd hfin (hc.unused id hu).2.2
  · intro id offset data hmem
    rw [hrecent, recvStreamData_append_of_not hevs] at hmem
    rw [hrecent, heardLen_append_of_not hevs]
    exact hc.ends id offset data hmem
  · rw [hrecent, heardLen_append_of_not hevs]
    rcases hbody with hbody | ⟨hnone, -⟩
    · exact (hc.body id left (hbody ▸ hb)).append
    · cases hnone.symm.trans hb
  · intro fr hfr
    rw [hrecent]
    rcases hp fr hfr with h | h
    · exact List.mem_append_left _ (hc.pending fr h)
    · exact List.mem_append_right _ h

/-- The event tells nothing of the stream. -/
structure Event.Aside (id : ℕ) (e : Event) : Prop where
  heard : e.heard id = []
  stop : ∀ code, e ≠ .scheduled false id code
  recv : ∀ fin offset data, e ≠ .recvStreamData fin id offset data

/-- What the events of a step of the stream `id` are. -/
structure HeardOf (trace evs : List Event) (id : ℕ) : Prop where
  along : Along (fun pre e => e.HeardWell (trace ++ pre)) evs
  rejected : ∀ e ∈ evs, e.isRejected = false
  aside : ∀ k ≠ id, ∀ e ∈ evs, e.Aside k

theorem HeardOf.nil : HeardOf trace [] id where
  along := along_nil
  rejected _ h := by cases h
  aside _ _ _ h := by cases h

theorem HeardOf.one {e : Event} (he : e.HeardWell trace) (hr : e.isRejected = false)
    (ha : ∀ k ≠ id, e.Aside k) : HeardOf trace [e] id where
  along := along_singleton.2 (by rwa [List.append_nil])
  rejected _ h := List.mem_singleton.1 h ▸ hr
  aside k hk _ h := List.mem_singleton.1 h ▸ ha k hk

section

variable (h : HeardOf trace evs id) {k : ℕ} (hk : k ≠ id)

include h hk

theorem HeardOf.heardLen : heardLen (recent trace ++ evs) k = heardLen (recent trace) k := by
  have hnil : evs.flatMap (Event.heard k) = [] :=
    List.flatMap_eq_nil_iff.2 fun e he => (h.aside k hk e he).heard
  rw [heardLen_append, Dwnx.heardLen, Dwnx.heardLen, hnil]
  rfl

theorem HeardOf.stopped : Stopped (recent trace ++ evs) k ↔ Stopped (recent trace) k := by
  refine exists_congr fun code => ⟨fun hmem => ?_, fun hmem => List.mem_append_left _ hmem⟩
  refine (List.mem_append.1 hmem).resolve_right fun hmem => ?_
  exact (h.aside k hk _ hmem).stop code rfl

theorem HeardOf.recv {fin : Bool} {offset : ℕ} {data : List UInt8}
    (hmem : Event.recvStreamData fin k offset data ∈ recent trace ++ evs) :
    Event.recvStreamData fin k offset data ∈ recent trace := by
  refine (List.mem_append.1 hmem).resolve_right fun hmem => ?_
  exact (h.aside k hk _ hmem).recv fin offset data rfl

end

/-- What is to come of other streams, and which of them is at its end, stays as it is. -/
structure Cfg.ReadsOn (c c' : Cfg) (id : ℕ) : Prop where
  left : ∀ k ≠ id, c'.left k = c.left k
  ends : ∀ k ≠ id, c.body = some ⟨k, 0, true⟩ → c'.body = some ⟨k, 0, true⟩

theorem Cfg.ReadsOn.of_body (h : c'.body = c.body) : c.ReadsOn c' id where
  left k _ := by rw [Cfg.left, Cfg.left, h]
  ends k _ hb := h.trans hb

/-- Before and after nothing is to come but of the stream. -/
theorem Cfg.ReadsOn.of_stream (h : ∀ b, c.body = some b → b.streamId = id)
    (h' : ∀ b, c'.body = some b → b.streamId = id) : c.ReadsOn c' id := by
  have hleft {c : Cfg} (h : ∀ b, c.body = some b → b.streamId = id) {k : ℕ} (hk : k ≠ id) :
      c.left k = 0 := by
    rw [Cfg.left]
    cases hb : c.body with
    | none => rfl
    | some b => exact if_neg fun hid => hk (hid.symm.trans (h b hb))
  exact ⟨fun k hk => (hleft h' hk).trans (hleft h hk).symm, fun k hk hb => absurd (h _ hb) hk⟩

/-- A step at the stream `id`. -/
theorem Cfg.HearOk.of_stream (hc : c.HearOk) (hI : Inv c) (hf : c.conn.strms.find id = some s)
    (evs : List Event) (htrace : c'.st.trace = c.st.trace ++ evs)
    (hevs : HeardOf c.st.trace evs id) (hused : ∀ k, c.conn.Used k → c'.conn.Used k)
    (hreads : c.ReadsOn c' id)
    (hfind : ∀ k a, k ≠ id → c'.conn.strms.find k = some a → c.conn.strms.find k = some a)
    (hself : ∀ a, c'.conn.strms.find id = some a → a.Heard c' id)
    (hends : ∀ offset data, Event.recvStreamData true id offset data ∈ recent c.st.trace ++ evs →
      offset + data.length = heardLen (recent c.st.trace ++ evs) id)
    (hbody : ∀ k left, c'.body = some ⟨k, left, true⟩ →
      FinCame (recent c.st.trace) k (heardLen (recent c.st.trace ++ evs) k + left))
    (hp : ∀ fr, c'.pending = .received fr → c.pending = .received fr) : c'.HearOk := by
  have hrecent : recent c'.st.trace = recent c.st.trace ++ evs := by
    rw [htrace]
    exact since_append hevs.rejected
  have hne {k : ℕ} (hu : ¬c'.conn.Used k) : k ≠ id ∧ ¬c.conn.Used k := by
    refine ⟨?_, fun h => hu (hused k h)⟩
    rintro rfl
    exact hu (hused k (hI.ids.used hf))
  refine ⟨?_, fun k hu => ?_, fun k a ha => ?_, fun k offset data hmem => ?_,
    fun k left hb => ?_, fun fr hfr => ?_⟩
  · rw [htrace]
    exact along_append.2 ⟨hc.events, hevs.along⟩
  -- A stream that is not used yet is none of this step, either.
  · obtain ⟨hk, hu⟩ := hne hu
    obtain ⟨hlen, hstop, hfin⟩ := hc.unused k hu
    rw [hrecent]
    refine ⟨(hevs.heardLen hk).trans hlen, fun h => hstop ((hevs.stopped hk).1 h), ?_⟩
    rintro ⟨offset, data, hmem⟩
    exact hfin ⟨offset, data, hevs.recv hk hmem⟩
  · by_cases hk : k = id
    · subst hk
      exact hself a ha
    · -- the step is none of this stream
      have hs := hc.strm k a (hfind k a hk ha)
      refine ⟨?_, ?_, fun hfin => ?_⟩
      · rw [hrecent, hevs.heardLen hk, hreads.left k hk]
        exact hs.length
      · rw [hrecent, hevs.stopped hk]
        exact hs.stopped
      · rw [hrecent] at hfin
        obtain ⟨offset, data, hmem⟩ := hfin
        exact (hs.fin ⟨offset, data, hevs.recv hk hmem⟩).imp_right (hreads.ends k hk)
  · rw [hrecent] at hmem ⊢
    by_cases hk : k = id
    · subst hk
      exact hends offset data hmem
    · rw [hevs.heardLen hk]
      exact hc.ends k offset data (hevs.recv hk hmem)
  · rw [hrecent]
    exact (hbody k left hb).append
  · rw [hrecent]
    exact List.mem_append_left _ (hc.pending fr (hp fr hfr))

theorem Cfg.left_of_body {left : ℕ} {fin : Bool} (h : c.body = some ⟨id, left, fin⟩) :
    c.left id = left := by
  rw [Cfg.left, h]
  exact if_pos rfl

theorem Cfg.left_of_none (h : c.body = none) : c.left id = 0 := by
  rw [Cfg.left, h]

theorem Event.aside_recv {fin : Bool} {offset : ℕ} {data : List UInt8} {k : ℕ} (hk : k ≠ id) :
    (Event.recvStreamData fin id offset data).Aside k where
  heard := if_neg hk.symm
  stop _ := by rintro ⟨⟩
  recv _ _ _ := by
    rintro ⟨⟩
    exact hk rfl

theorem heardLen_recv {fin : Bool} {offset : ℕ} {data : List UInt8} :
    heardLen (trace ++ [.recvStreamData fin id offset data]) id =
      heardLen trace id + data.length := by
  rw [heardLen_append, heardLen, heardLen, List.flatMap_singleton, Event.heard, if_pos rfl,
    List.length_map]

theorem stopped_recv {fin : Bool} {offset k : ℕ} {data : List UInt8} :
    Stopped (trace ++ [.recvStreamData fin k offset data]) id ↔ Stopped trace id := by
  refine exists_congr fun code => ⟨fun hmem => ?_, fun hmem => List.mem_append_left _ hmem⟩
  refine (List.mem_append.1 hmem).resolve_right fun hmem => ?_
  cases List.mem_singleton.1 hmem

/-- Data of a stream whose end was not heard. -/
theorem ends_recv {fin : Bool} {offset o : ℕ} {data d : List UInt8}
    (hnot : ¬FinHeard trace id) (hoffset : offset = heardLen trace id)
    (hmem : Event.recvStreamData true id o d ∈ trace ++ [.recvStreamData fin id offset data]) :
    o + d.length = heardLen (trace ++ [.recvStreamData fin id offset data]) id := by
  rcases List.mem_append.1 hmem with hmem | hmem
  · exact absurd ⟨o, d, hmem⟩ hnot
  · cases List.mem_singleton.1 hmem
    rw [heardLen_recv, hoffset]

/-- The stream `id`, which was `s`, is `s'`, and there are no others but those there were. -/
structure Cfg.Turns (c c' : Cfg) (id : ℕ) (s s' : Strm) : Prop where
  found : c.conn.strms.find id = some s
  self : ∀ a, c'.conn.strms.find id = some a → a = s'
  other : ∀ k a, k ≠ id → c'.conn.strms.find k = some a → c.conn.strms.find k = some a
  used : ∀ k, c.conn.Used k → c'.conn.Used k

section

variable (hc : c.HearOk) (hI : Inv c) (ht : c.Turns c' id s s')

include hc hI ht

/-- The application stops reading the stream. -/
theorem Cfg.HearOk.shutRead (code : ℕ)
    (htrace : c'.st.trace = c.st.trace ++ [.scheduled false id code]) (hbody : c'.body = c.body)
    (hp : c'.pending = c.pending) (hoffset : s'.rx.lastOffset = s.rx.lastOffset)
    (hstop : s'.flags.stopSending = true) (hshut : s'.flags.shutRd = s.flags.shutRd) :
    c'.HearOk := by
  have hs := hc.strm id s ht.found
  have hlen (k : ℕ) : heardLen (recent c.st.trace ++ [.scheduled false id code]) k =
      heardLen (recent c.st.trace) k := by
    rw [heardLen_append]
    rfl
  have hmem {fin : Bool} {offset : ℕ} {data : List UInt8}
      (h : Event.recvStreamData fin id offset data ∈
        recent c.st.trace ++ [.scheduled false id code]) :
      Event.recvStreamData fin id offset data ∈ recent c.st.trace := by
    refine (List.mem_append.1 h).resolve_right fun h => ?_
    cases List.mem_singleton.1 h
  refine hc.of_stream hI ht.found _ htrace (.one trivial rfl fun k hk => ?_) ht.used
    (.of_body hbody) ht.other (fun a ha => ?_) (fun offset data h => ?_)
    (fun k left hb => by rw [hlen]; exact hc.body k left (hbody ▸ hb)) fun _ h => hp ▸ h
  · exact ⟨rfl, by rintro _ ⟨⟩; exact hk rfl, by rintro _ _ _ ⟨⟩⟩
  · obtain rfl := ht.self a ha
    have hleft : c'.left id = c.left id := by rw [Cfg.left, Cfg.left, hbody]
    rw [Strm.heard_iff, htrace, recent_concat rfl, hleft, hbody, hoffset, hshut]
    refine ⟨?_, ?_, ?_⟩
    · rw [hlen]
      exact hs.length
    · exact iff_of_true ⟨code, List.mem_append_right _ (List.mem_singleton_self _)⟩ hstop
    · rintro ⟨offset, data, h⟩
      exact hs.fin ⟨offset, data, hmem h⟩
  · rw [hlen]
    exact hc.ends id offset data (hmem h)

/-- A STREAM frame begins where the data heard ends. -/
theorem Cfg.HearOk.recvStream {fr : FrameStream} (hp : c.pending = .received (.stream fr))
    (hid : fr.streamId = id) (hshut : s.flags.shutRd = false) (hoff : s.rx.lastOffset = fr.offset)
    (htrace : c'.st.trace = c.st.trace) (hp' : c'.pending = .idle)
    (hbody : c'.body = if fr.len = 0 then none else some ⟨id, fr.len, fr.fin⟩)
    (hoffset : s'.rx.lastOffset = fr.offset + fr.len)
    (hstop : s'.flags.stopSending = s.flags.stopSending) : c'.HearOk := by
  have hs := hc.strm id s ht.found
  have hnone := (hI.pending.received _ hp).2.2.2
  have hlen := hs.length
  rw [c.left_of_none hnone, Nat.add_zero] at hlen
  -- If the frame has FIN, the end of the stream is known from now on.
  have hcame : FinCame (recent c.st.trace) id (heardLen (recent c.st.trace) id + fr.len) ∨
      fr.fin = false := by
    cases hfin : fr.fin with
    | false => exact .inr rfl
    | true => exact .inl ⟨fr, hc.pending _ hp, hid, hfin, by rw [hlen, hoff]⟩
  have hbody' (b : Body) (hb : c'.body = some b) : fr.len ≠ 0 ∧ b = ⟨id, fr.len, fr.fin⟩ := by
    rw [hbody] at hb
    split at hb
    · cases hb
    · next h0 => exact ⟨h0, (Option.some.inj hb).symm⟩
  refine hc.of_stream hI ht.found [] (by rw [htrace, List.append_nil]) .nil ht.used
    (.of_stream (fun b hb => ?_) fun b hb => ?_) ht.other (fun a ha => ?_) ?_
    (fun k left hb => ?_) (by simp [hp'])
  · cases hnone.symm.trans hb
  · obtain ⟨-, rfl⟩ := hbody' b hb
    rfl
  -- The data of the frame is counted at once, and left to be heard.
  · obtain rfl := ht.self a ha
    refine ⟨?_, ?_, fun hfin => ?_⟩
    · rw [htrace, hlen, hoff, hoffset]
      refine congrArg _ ?_
      by_cases h0 : fr.len = 0
      · rw [Cfg.left_of_none (by rw [hbody, if_pos h0]), h0]
      · exact Cfg.left_of_body (by rw [hbody, if_neg h0])
    · rw [htrace, hstop]
      exact hs.stopped
    · rw [htrace] at hfin
      rcases hs.fin hfin with h | h
      · cases hshut.symm.trans h
      · cases hnone.symm.trans h
  · rw [List.append_nil]
    exact hc.ends id
  · obtain ⟨-, hb⟩ := hbody' _ hb
    obtain ⟨rfl, rfl, hfin⟩ := Body.mk.inj hb
    rw [List.append_nil]
    exact hcame.resolve_right fun h => by cases hfin.trans h

/-- A STREAM frame without data ends the stream. -/
theorem Cfg.HearOk.recvFin {fr : FrameStream} (hp : c.pending = .received (.stream fr))
    (hid : fr.streamId = id) (hshut : s.flags.shutRd = false) (hoff : s.rx.lastOffset = fr.offset)
    (hzero : fr.len = 0) (hfin : fr.fin = true)
    (htrace : c'.st.trace = c.st.trace ++ [.recvStreamData true id fr.offset []])
    (hp' : c'.pending = .shut id) (hbody : c'.body = none) (hoffset : s'.rx.lastOffset = fr.offset)
    (hstop : s'.flags.stopSending = s.flags.stopSending) (hshut' : s'.flags.shutRd = true) :
    c'.HearOk := by
  have hs := hc.strm id s ht.found
  have hnone := (hI.pending.received _ hp).2.2.2
  have hlen := hs.length
  rw [c.left_of_none hnone, Nat.add_zero, hoff] at hlen
  have hnot : ¬FinHeard (recent c.st.trace) id := fun h => by
    rcases hs.fin h with h | h
    · cases hshut.symm.trans h
    · cases hnone.symm.trans h
  refine hc.of_stream hI ht.found _ htrace
    (.one ⟨hlen.symm, fun _ => rfl, hnot, fun h => absurd rfl h,
      fun _ => ⟨fr, hc.pending _ hp, hid, hfin, congrArg _ hzero⟩⟩ rfl
      fun k hk => Event.aside_recv hk) ht.used (.of_stream (fun b hb => ?_) fun b hb => ?_) ht.other
    (fun a ha => ?_) (fun o d => ends_recv hnot hlen.symm) (fun k left hb => ?_) (by simp [hp'])
  · cases hnone.symm.trans hb
  · cases hbody.symm.trans hb
  · obtain rfl := ht.self a ha
    rw [Strm.heard_iff, htrace, recent_concat rfl, hoffset, hstop]
    refine ⟨?_, stopped_recv.trans hs.stopped, fun _ => .inl hshut'⟩
    rw [heardLen_recv, Cfg.left_of_none hbody]
    exact hlen
  · cases hbody.symm.trans hb

/-- The end of the stream takes effect, after its data. -/
theorem Cfg.HearOk.finData (hbody : c.body = some ⟨id, 0, true⟩)
    (htrace : c'.st.trace = c.st.trace) (hp' : c'.pending = .shut id) (hbody' : c'.body = none)
    (hoffset : s'.rx.lastOffset = s.rx.lastOffset)
    (hstop : s'.flags.stopSending = s.flags.stopSending) (hshut : s'.flags.shutRd = true) :
    c'.HearOk := by
  have hs := hc.strm id s ht.found
  have hlen := hs.length
  rw [Cfg.left_of_body hbody] at hlen
  refine hc.of_stream hI ht.found [] (by rw [htrace, List.append_nil]) .nil ht.used
    (.of_stream (fun b hb => ?_) fun b hb => ?_) ht.other (fun a ha => ?_) ?_
    (fun k left hb => ?_) (by simp [hp'])
  · cases hbody.symm.trans hb
    rfl
  · cases hbody'.symm.trans hb
  · obtain rfl := ht.self a ha
    rw [Strm.heard_iff, htrace, hoffset, hstop, Cfg.left_of_none hbody']
    exact ⟨hlen, hs.stopped, fun _ => .inl hshut⟩
  · rw [List.append_nil]
    exact hc.ends id
  · cases hbody'.symm.trans hb

end

theorem StrmStep.hearOk {conn : Conn} (h : StrmStep quiet c id s s' pushed c')
    (hch : Changes c'.conn conn id s s' pushed) (hI : Inv c) (hc : c.HearOk)
    (hused : ∀ k, c.conn.Used k → conn.Used k) : Cfg.HearOk { c' with st.conn := conn } := by
  have hf := hch.found
  rw [h.frame] at hf
  have hfind (k : ℕ) (a : Strm) (ha : conn.strms.find k = some a) :
      k = id ∧ a = s' ∨ k ≠ id ∧ c.conn.strms.find k = some a := by
    have := hch.cases ha
    rwa [h.frame] at this
  have ht : c.Turns { c' with st.conn := conn } id s s' :=
    ⟨hf, fun a ha => ((hfind id a ha).resolve_right fun h => h.1 rfl).2,
      fun k a hk ha => ((hfind k a ha).resolve_left fun h => hk h.1).2, hused⟩
  -- A step that hears nothing changes no count, and reopens no stream.
  have hsame (hoffset : s'.rx.lastOffset = s.rx.lastOffset)
      (hstop : s'.flags.stopSending = s.flags.stopSending)
      (hshut : s.flags.shutRd = true → s'.flags.shutRd = true) (k : ℕ) (a : Strm)
      (ha : conn.strms.find k = some a) :
      (∃ b, c.conn.strms.find k = some b ∧ a.rx.lastOffset = b.rx.lastOffset ∧
        a.flags.stopSending = b.flags.stopSending ∧
        (b.flags.shutRd = true → a.flags.shutRd = true)) ∨
      ¬c.conn.Used k ∧ a = c.conn.newStrm k := by
    rcases hfind k a ha with ⟨rfl, rfl⟩ | ⟨-, ha⟩
    · exact .inl ⟨s, hf, hoffset, hstop, hshut⟩
    · exact .inl ⟨a, ha, rfl, rfl, fun h => h⟩
  cases h with
  | shutRead code => exact hc.shutRead hI ht code rfl rfl rfl rfl rfl rfl
  | recvStream fr hp hid hshut hoff =>
    exact hc.recvStream hI ht hp hid hshut hoff rfl rfl rfl rfl rfl
  | recvFin fr hp hid hshut hoff _ hzero hfin =>
    exact hc.recvFin hI ht hp hid hshut hoff hzero hfin rfl rfl rfl rfl rfl rfl
  | finData _ hbody => exact hc.finData hI ht hbody rfl rfl rfl rfl rfl rfl
  | recordSent len fin hp =>
    refine hc.of_same hI [] (List.append_nil _).symm (by simp) hused (.inl rfl)
      (hsame rfl rfl fun h => h) fun fr h => ?_
    cases fin <;> cases h
  | extend n _ hs' =>
    subst hs'
    exact hc.of_same hI [] (List.append_nil _).symm (by simp) hused (.inl rfl)
      (hsame rfl rfl fun h => h) fun _ h => .inl h
  | _ =>
    first
    | exact hc.of_same hI [] (List.append_nil _).symm (by simp) hused (.inl rfl)
        (hsame rfl rfl fun h => by first | exact h | rfl) fun _ h => by
          first | exact .inl h | cases h
    | exact hc.of_same hI [_] rfl (by simp [Event.isHearing]) hused (.inl rfl)
        (hsame rfl rfl fun h => h) fun _ h => by first | exact .inl h | cases h

theorem Event.Plain.isHearing {e : Event} (he : e.Plain) : e.isHearing = false := by
  cases e with
  | recvStreamData | discarded | earlyDataRejected | scheduled => exact he.elim
  | _ => rfl

/-- Early data is rejected before anything is received. -/
theorem Cfg.HearOk.of_rejected (hc : c.HearOk)
    (htrace : c'.st.trace = c.st.trace ++ [.earlyDataRejected]) (hbody : c'.body = none)
    (hp : c'.pending = .idle) (hfind : ∀ id, c'.conn.strms.find id = none) : c'.HearOk := by
  have hrecent : recent c'.st.trace = [] := by
    rw [htrace]
    exact since_concat_of_pos rfl
  refine ⟨?_, fun id _ => ?_, fun id s hf => ?_, fun id offset data hmem => ?_,
    fun id left hb => ?_, fun fr h => ?_⟩
  · rw [htrace]
    exact along_concat.2 ⟨hc.events, trivial⟩
  · rw [hrecent]
    exact ⟨rfl, by rintro ⟨_, ⟨⟩⟩, by rintro ⟨_, _, ⟨⟩⟩⟩
  · cases (hfind id).symm.trans hf
  · rw [hrecent] at hmem
    cases hmem
  · cases hbody.symm.trans hb
  · cases hp.symm.trans h

/-- A piece of data is passed on. -/
theorem Cfg.HearOk.piece {left : ℕ} {fin : Bool} {data : List UInt8} (hc : c.HearOk) (hI : Inv c)
    (hbody : c.body = some ⟨id, left, fin⟩) (hf : c.conn.strms.find id = some s) (hne : data ≠ [])
    (hlen : data.length ≤ left) (hstop : s.flags.stopSending = false) :
    Cfg.HearOk
      { c.log [.recvStreamData (fin && left == data.length) id (s.rx.lastOffset - left) data] with
        body := some ⟨id, left - data.length, fin⟩ } := by
  have hs := hc.strm id s hf
  have hlength := hs.length
  rw [Cfg.left_of_body hbody] at hlength
  have hoffset : s.rx.lastOffset - left = heardLen (recent c.st.trace) id := by omega
  have hpos := List.length_pos_of_ne_nil hne
  obtain ⟨-, a, ha, hshut, -⟩ := hI.pending.body id left fin hbody
  obtain rfl : s = a := Option.some.inj (hf.symm.trans ha)
  -- the end was not heard, for there is data to come
  have hnot : ¬FinHeard (recent c.st.trace) id := fun h => by
    rcases hs.fin h with h | h
    · cases hshut.symm.trans h
    · cases hbody.symm.trans h
      exact absurd hlen (by omega)
  have hcame (h : fin = true) :
      FinCame (recent c.st.trace) id (heardLen (recent c.st.trace) id + left) := by
    subst h
    exact hc.body id left hbody
  refine hc.of_stream hI hf [_] rfl (.one ⟨hoffset, fun h => absurd h hne, hnot, fun _ h => ?_,
    fun h => ?_⟩ rfl fun k hk => Event.aside_recv hk) (fun _ h => h)
    (.of_stream (fun b hb => ?_) fun b hb => ?_) (fun _ _ _ h => h)
    (fun a ha => ?_) (fun o d => ends_recv hnot hoffset) (fun k left' hb => ?_) fun _ h => h
  · cases hstop.symm.trans (hs.stopped.1 h)
  · obtain ⟨hfin, hleft⟩ := Bool.and_eq_true_iff.1 h
    rw [hoffset, ← beq_iff_eq.1 hleft]
    exact hcame hfin
  · cases hbody.symm.trans hb
    rfl
  · cases hb
    rfl
  · obtain rfl : s = a := Option.some.inj (hf.symm.trans ha)
    rw [Strm.heard_iff, Cfg.log_trace, recent_concat rfl]
    refine ⟨?_, stopped_recv.trans hs.stopped, fun h => .inr ?_⟩
    · rw [heardLen_recv]
      refine (congrArg _ (Cfg.left_of_body rfl)).trans ?_
      omega
    · obtain ⟨o, d, hmem⟩ := h
      rcases List.mem_append.1 hmem with hmem | hmem
      · exact absurd ⟨o, d, hmem⟩ hnot
      · obtain ⟨hfin, -⟩ := Event.recvStreamData.inj (List.mem_singleton.1 hmem)
        obtain ⟨rfl, hleft⟩ := Bool.and_eq_true_iff.1 hfin.symm
        rw [beq_iff_eq.1 hleft, Nat.sub_self]
  · obtain ⟨rfl, rfl, hfin⟩ := Body.mk.inj (Option.some.inj hb)
    rw [heardLen_recv, Nat.add_assoc, Nat.add_sub_cancel' hlen]
    exact hcame hfin

/-- Data is dropped. -/
theorem Cfg.HearOk.skip {left : ℕ} {fin : Bool} {data : List UInt8} {unsent : ℕ}
    (hc : c.HearOk) (hI : Inv c) (hbody : c.body = some ⟨id, left, fin⟩)
    (hf : c.conn.strms.find id = some s) (hlen : data.length ≤ left)
    (hstop : s.flags.stopSending = true) :
    Cfg.HearOk
      { c.log [.discarded id data.length] with
        st.conn.rx.unsentMaxOffset := unsent
        body := some ⟨id, left - data.length, fin⟩ } := by
  have hs := hc.strm id s hf
  have hlength := hs.length
  rw [Cfg.left_of_body hbody] at hlength
  have hdrop : heardLen (recent c.st.trace ++ [.discarded id data.length]) id =
      heardLen (recent c.st.trace) id + data.length := by
    rw [heardLen_append, heardLen, heardLen, List.flatMap_singleton, Event.heard, if_pos rfl,
      List.length_replicate]
  have hmem {fin : Bool} {offset : ℕ} {d : List UInt8}
      (h : Event.recvStreamData fin id offset d ∈
        recent c.st.trace ++ [.discarded id data.length]) :
      Event.recvStreamData fin id offset d ∈ recent c.st.trace := by
    refine (List.mem_append.1 h).resolve_right fun h => ?_
    cases List.mem_singleton.1 h
  have hstopped : Stopped (recent c.st.trace ++ [.discarded id data.length]) id ↔
      Stopped (recent c.st.trace) id := by
    refine exists_congr fun code => ⟨fun h => ?_, fun h => List.mem_append_left _ h⟩
    refine (List.mem_append.1 h).resolve_right fun h => ?_
    cases List.mem_singleton.1 h
  -- after the end there is no data to come, and so none to be dropped
  have hnone (h : FinHeard (recent c.st.trace) id) : left = 0 ∧ fin = true := by
    obtain ⟨-, a, ha, hshut, -⟩ := hI.pending.body id left fin hbody
    obtain rfl : s = a := Option.some.inj (hf.symm.trans ha)
    rcases hs.fin h with h | h
    · cases hshut.symm.trans h
    · cases hbody.symm.trans h
      exact ⟨rfl, rfl⟩
  refine hc.of_stream hI hf [_] rfl (.one (hs.stopped.2 hstop) rfl fun k hk => ?_)
    (fun _ h => h) (.of_stream (fun b hb => ?_) fun b hb => ?_) (fun _ _ _ h => h)
    (fun a ha => ?_) (fun o d h => ?_) (fun k left' hb => ?_) fun _ h => h
  · exact ⟨if_neg hk.symm, by rintro _ ⟨⟩, by rintro _ _ _ ⟨⟩⟩
  · cases hbody.symm.trans hb
    rfl
  · cases hb
    rfl
  · obtain rfl : s = a := Option.some.inj (hf.symm.trans ha)
    rw [Strm.heard_iff, Cfg.log_trace, recent_concat rfl]
    refine ⟨?_, hstopped.trans hs.stopped, ?_⟩
    · rw [hdrop]
      refine (congrArg _ (Cfg.left_of_body rfl)).trans ?_
      omega
    · rintro ⟨o, d, h⟩
      obtain ⟨rfl, rfl⟩ := hnone ⟨o, d, hmem h⟩
      exact .inr (by rw [Nat.zero_sub])
  · obtain ⟨rfl, rfl⟩ := hnone ⟨o, d, hmem h⟩
    rw [hdrop, hc.ends id o d (hmem h), Nat.le_zero.1 hlen, Nat.add_zero]
  · obtain ⟨rfl, rfl, rfl⟩ := Body.mk.inj (Option.some.inj hb)
    rw [hdrop, Nat.add_assoc, Nat.add_sub_cancel' hlen]
    exact hc.body _ left hbody

/-- Every step keeps what is known of the data heard. -/
theorem Step.hearOk (h : Step quiet l c c') (hI : Inv c) (hc : c.HearOk) : c'.HearOk := by
  by_cases hl : l = .reject
  -- A rejection comes before any data of the peer.
  · cases h with
    | reject hclient hparams hp =>
      have hnone : c.body = none := by
        cases hb : c.body with
        | none => rfl
        | some b => cases hparams.symm.trans (hI.pending.body _ _ _ hb).1
      exact hc.of_rejected rfl hnone hp fun _ => rfl
    | _ => cases hl
  have hused (id : ℕ) (hu : c.conn.Used id) : c'.conn.Used id := h.used_of_ne hI hl hu
  -- What is left changes no stream, or makes a new one.
  rcases h.sort hI with ⟨id, s, s', pushed, c'', conn, hs, hch, rfl⟩ | hfind
  · exact hs.hearOk hch hI hc hused
  have hsame (id : ℕ) (s' : Strm) (hf : c'.conn.strms.find id = some s') :
      (∃ s, c.conn.strms.find id = some s ∧ s'.rx.lastOffset = s.rx.lastOffset ∧
        s'.flags.stopSending = s.flags.stopSending ∧
        (s.flags.shutRd = true → s'.flags.shutRd = true)) ∨
      ¬c.conn.Used id ∧ s' = c.conn.newStrm id :=
    (hfind id s' hf).imp_left fun hf => ⟨s', hf, rfl, rfl, fun h => h⟩
  cases h with
  | strm hs hch => exact hs.hearOk hch hI hc hused
  | event e he =>
    exact hc.of_same hI [e] rfl (fun _ h => List.mem_singleton.1 h ▸ he.isHearing) hused
      (.inl rfl) hsame fun _ h => .inl h
  | rx fr =>
    refine hc.of_same hI [.rxFr fr] rfl (by simp [Event.isHearing]) hused (.inl rfl) hsame
      fun _ h => .inr ?_
    cases h
    exact List.mem_singleton_self _
  | rxParams params =>
    refine hc.of_same hI [.rxFr (.qxTransportParameters params)] rfl (by simp [Event.isHearing])
      hused (.inl rfl) hsame fun _ h => .inr ?_
    cases h
    exact List.mem_singleton_self _
  | piece data hp hbody hf hne hlen hstop => exact hc.piece hI hbody hf hne hlen hstop
  | skip data hp hbody hf hlen hstop => exact hc.skip hI hbody hf hlen hstop
  | @bodyDone _ id hp hbody =>
    exact hc.of_same hI [] (List.append_nil _).symm (by simp) hused (.inr ⟨rfl, id, hbody⟩)
      hsame fun _ h => .inl h
  | reject => exact absurd rfl hl
  | _ =>
    first
    | exact hc.of_same hI [] (List.append_nil _).symm (by simp) hused (.inl rfl) hsame
        fun _ h => by first | exact .inl h | cases h
    | exact hc.of_same hI [_] rfl (by simp [Event.isHearing, Strm.closeEvent]) hused (.inl rfl)
        hsame fun _ h => by first | exact .inl h | cases h
    | exact hc.of_same hI [_, _] rfl (by simp [Event.isHearing]) hused (.inl rfl)
        hsame fun _ h => by first | exact .inl h | cases h

/-! ## Ends that came -/

/-- The end of the stream that came takes effect next, or was told, or it is not told, as
    the stream is not read any more, or there is data before it that is still to come. -/
def Cfg.EndCame (c : Cfg) (fr : FrameStream) : Prop :=
  c.pending = .received (.stream fr) ∨ FinHeard (recent c.st.trace) fr.streamId ∨
    Stopped (recent c.st.trace) fr.streamId ∨
    ∃ left, 0 < left ∧ c.body = some ⟨fr.streamId, left, true⟩ ∧
      heardLen (recent c.st.trace) fr.streamId + left = fr.offset + fr.len

/-- No end that came is lost. -/
def Cfg.EndsCame (c : Cfg) : Prop :=
  ∀ fr : FrameStream, Event.rxFr (.stream fr) ∈ recent c.st.trace → fr.fin = true → c.EndCame fr

/-- The event tells of no data and no end that comes. -/
structure Event.Dataless (e : Event) : Prop where
  rejected : e.isRejected = false
  heard : ∀ id, e.heard id = []
  stream : ∀ fr, e ≠ .rxFr (.stream fr)

theorem FinHeard.append (h : FinHeard trace id) : FinHeard (trace ++ evs) id := by
  obtain ⟨offset, data, hmem⟩ := h
  exact ⟨offset, data, List.mem_append_left _ hmem⟩

theorem Stopped.append (h : Stopped trace id) : Stopped (trace ++ evs) id := by
  obtain ⟨code, hmem⟩ := h
  exact ⟨code, List.mem_append_left _ hmem⟩

/-- Ends that came are not lost, if those that came are as they should be, those that took
    effect, and those with data before them. -/
theorem Cfg.EndsCame.of_append (hc : c.EndsCame) (evs : List Event)
    (htrace : c'.st.trace = c.st.trace ++ evs) (hevs : ∀ e ∈ evs, e.isRejected = false)
    (hnew : ∀ fr, Event.rxFr (.stream fr) ∈ evs → c'.EndCame fr)
    (hp : ∀ fr, c.pending = .received (.stream fr) → fr.fin = true → c'.EndCame fr)
    (hbody : ∀ fr left, 0 < left → c.body = some ⟨fr.streamId, left, true⟩ →
      heardLen (recent c.st.trace) fr.streamId + left = fr.offset + fr.len → c'.EndCame fr) :
    c'.EndsCame := by
  have hrecent : recent c'.st.trace = recent c.st.trace ++ evs := by
    rw [htrace]
    exact since_append hevs
  intro fr hmem hfin
  rw [hrecent] at hmem
  rcases List.mem_append.1 hmem with hmem | hmem
  · rcases hc fr hmem hfin with h | h | h | ⟨left, hpos, hb, h⟩
    · exact hp fr h hfin
    · exact .inr (.inl (hrecent ▸ h.append))
    · exact .inr (.inr (.inl (hrecent ▸ h.append)))
    · exact hbody fr left hpos hb h
  · exact hnew fr hmem

/-- A step that tells of no data, and leaves what is to come. -/
theorem Cfg.EndsCame.of_same (hc : c.EndsCame) (evs : List Event)
    (htrace : c'.st.trace = c.st.trace ++ evs) (hevs : ∀ e ∈ evs, e.Dataless)
    (hp : ∀ fr, c.pending = .received (.stream fr) → c'.pending = c.pending)
    (hbody : ∀ id left, 0 < left → c.body = some ⟨id, left, true⟩ → c'.body = c.body) :
    c'.EndsCame := by
  refine hc.of_append evs htrace (fun e he => (hevs e he).rejected)
    (fun fr hmem => absurd rfl ((hevs _ hmem).stream fr)) (fun fr h _ => .inl ((hp fr h).trans h))
    fun fr left hpos hb h => .inr (.inr (.inr ⟨left, hpos, (hbody _ _ hpos hb).trans hb, ?_⟩))
  have hnil : evs.flatMap (Event.heard fr.streamId) = [] :=
    List.flatMap_eq_nil_iff.2 fun e he => (hevs e he).heard _
  rw [htrace, recent, since_append fun e he => (hevs e he).rejected, heardLen_append,
    heardLen, heardLen, hnil]
  exact h

/-- An event on its own. -/
theorem Event.Dataless.all {e : Event} (h : e.Dataless) : ∀ e' ∈ [e], e'.Dataless := fun _ h' =>
  List.mem_singleton.1 h' ▸ h

theorem Event.Plain.dataless {e : Event} (he : e.Plain) : e.Dataless := by
  cases e <;> first
    | exact he.elim
    | exact ⟨rfl, fun _ => rfl, by rintro _ ⟨⟩⟩

theorem StrmStep.endsCame {conn : Conn} (h : StrmStep quiet c id s s' pushed c')
    (hf : c.conn.strms.find id = some s) (hI : Inv c) (hh : c.HearOk) (hc : c.EndsCame) :
    Cfg.EndsCame { c' with st.conn := conn } := by
  -- a frame that was received is the whole of what there is of it
  have hnobody {fr : Frame} (hp : c.pending = .received fr) : c.body = none :=
    (hI.pending.received fr hp).2.2.2
  cases h with
  | recvStream fr hp hid _ hoff _ _ hne =>
    have hlen := (hh.strm id s hf).length
    rw [c.left_of_none (hnobody hp), Nat.add_zero] at hlen
    refine hc.of_append [] (List.append_nil _).symm (by simp) (by simp) (fun fr' h hfin => ?_)
      fun _ _ _ hb => by cases (hnobody hp).symm.trans hb
    -- the data of the frame is to come
    cases hp.symm.trans h
    have hpos := hne hfin
    refine .inr (.inr (.inr ⟨fr.len, Nat.pos_of_ne_zero hpos, ?_, ?_⟩))
    · rw [if_neg hpos, hfin, hid]
    · rw [hid]
      exact congrArg (· + fr.len) (hlen.trans hoff)
  | recvFin fr hp hid =>
    refine hc.of_append [_] rfl (by simp [Event.isRejected]) (by simp) (fun fr' h hfin => ?_)
      fun _ _ _ hb => by cases (hnobody hp).symm.trans hb
    cases hp.symm.trans h
    rw [Cfg.EndCame, Cfg.log_trace, recent_concat rfl, hid]
    exact .inr (.inl ⟨_, _, List.mem_append_right _ (List.mem_singleton_self _)⟩)
  | finData hp hbody =>
    refine hc.of_same [] (List.append_nil _).symm (by simp) (fun fr h => ?_)
      fun k left hpos hb => ?_
    · cases hp.symm.trans h
    · cases hbody.symm.trans hb
      exact absurd hpos (lt_irrefl 0)
  | _ =>
    first
    | exact hc.of_same [] (List.append_nil _).symm (by simp) (by simp_all) fun _ _ _ _ => rfl
    | exact hc.of_same [_] rfl (Event.Dataless.all ⟨rfl, fun _ => rfl, by rintro _ ⟨⟩⟩)
        (by simp_all) fun _ _ _ _ => rfl

/-- Every step keeps the ends that came. -/
theorem Step.endsCame (h : Step quiet l c c') (hI : Inv c) (hh : c.HearOk) (hc : c.EndsCame) :
    c'.EndsCame := by
  cases h with
  | strm hs hch =>
    have hf := hch.found
    rw [hs.frame] at hf
    exact hs.endsCame hf hI hh hc
  | event e he => exact hc.of_same [e] rfl he.dataless.all (fun _ _ => rfl) fun _ _ _ _ => rfl
  | rx fr hp _ hbody =>
    refine hc.of_append [.rxFr fr] rfl (by simp [Event.isRejected]) (fun fr' h => ?_)
      (fun fr' h => by cases hp.symm.trans h) fun _ _ _ hb => by cases hbody.symm.trans hb
    cases List.mem_singleton.1 h
    exact .inl rfl
  | @piece _ id left fin s data hp hbody hf hne hlen hstop =>
    refine hc.of_append [_] rfl (by simp [Event.isRejected]) (by simp)
      (fun fr h => by cases hp.symm.trans h) fun fr left' hpos hb h => ?_
    rw [Cfg.EndCame, Cfg.log_trace, recent_concat rfl]
    -- the data is that before the end
    cases hbody.symm.trans hb
    by_cases hall : left = data.length
    · have hend : (true && left == data.length) = true := by
        rw [hall, beq_self_eq_true, Bool.and_self]
      rw [hend]
      exact .inr (.inl ⟨_, _, List.mem_append_right _ (List.mem_singleton_self _)⟩)
    · refine .inr (.inr (.inr ⟨left - data.length, by omega, rfl, ?_⟩))
      rw [heardLen_recv, Nat.add_assoc, Nat.add_sub_cancel' hlen]
      exact h
  | skip data hp hbody hf hlen hstop =>
    refine hc.of_append [_] rfl (by simp [Event.isRejected]) (by simp)
      (fun fr h => by cases hp.symm.trans h) fun fr left' hpos hb h => ?_
    rw [Cfg.EndCame, Cfg.log_trace, recent_concat rfl]
    cases hbody.symm.trans hb
    exact .inr (.inr (.inl ((hh.strm _ _ hf).stopped.2 hstop).append))
  | reject =>
    intro fr hmem
    have hrecent : recent (c.st.trace ++ [.earlyDataRejected]) = [] := since_concat_of_pos rfl
    rw [Cfg.log_trace, hrecent] at hmem
    cases hmem
  | ignore hp hign =>
    refine hc.of_same [] (List.append_nil _).symm (by simp) (fun fr h => ?_) fun _ _ _ _ => rfl
    cases hp.symm.trans h
    exact hign.elim
  | bodyDone hp hbody =>
    refine hc.of_same [] (List.append_nil _).symm (by simp) (fun fr h => ?_) fun k left _ hb => ?_
    · cases hp.symm.trans h
    · cases hbody.symm.trans hb
  | _ =>
    first
    | exact hc.of_same [] (List.append_nil _).symm (by simp) (by simp_all) fun _ _ _ _ => rfl
    | exact hc.of_same [_] rfl (Event.Dataless.all ⟨rfl, fun _ => rfl, by rintro _ ⟨⟩⟩)
        (by simp_all) fun _ _ _ _ => rfl
    | exact hc.of_same [_, _] rfl (by
        rintro e he
        rcases List.mem_pair.1 he with rfl | rfl <;> exact ⟨rfl, fun _ => rfl, by rintro _ ⟨⟩⟩)
        (by simp_all) fun _ _ _ _ => rfl

end Dwnx
