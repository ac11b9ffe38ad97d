import Dwnx.Chunks
import Dwnx.Hearing
import Dwnx.Logged

/-!
# What is taken in

The history of a connection tells what it has read: the frames that it logged as
received, what it passed on of datagrams, and the data of streams that it passed on or
discarded. `Took` says that a history tells of the tokens `ts`, and of no others.

* `endpoint_taking`: what an endpoint has taken in of records is told by its history,
  wherever the records were cut, and whatever else the endpoint did.
-/

namespace Dwnx

open Exec

variable {env : Env} {st t : St} {id : ℕ} {ts ts' : List Token} {trace evs : List Event}

/-! ## Tokens and events -/

/-- The token is of a frame that is handled as a whole. -/
def Token.isFrame : Token → Bool
  | .frame _ => true
  | _ => false

/-- The token is of the data of a datagram. -/
def Token.isGram : Token → Bool
  | .gram .. | .noGram .. => true
  | _ => false

/-- A byte of the stream. -/
def Token.byte? (id : ℕ) : Token → Option UInt8
  | .byte streamId _ _ b => if streamId = id then some b else none
  | _ => none

/-- The frame received, but for its data. -/
def Event.heads : Event → List Token
  | .rxFr fr => fr.head
  | _ => []

/-- What was received of datagrams. -/
def Event.grams : Event → List Token
  | .recvDatagram fin dgramlen offset data => gramTokens dgramlen offset fin data
  | _ => []

/-- What is told of a byte is right. -/
def Agrees (o : Option UInt8) (b : UInt8) : Prop := o = none ∨ o = some b

/-- The history tells of the tokens, each kind of them in its order. -/
structure Took (trace : List Event) (ts : List Token) : Prop where
  frames : trace.flatMap Event.heads = ts.filter Token.isFrame
  grams : trace.flatMap Event.grams = ts.filter Token.isGram
  data : ∀ id, List.Forall₂ Agrees (trace.flatMap (Event.heard id)) (ts.filterMap (Token.byte? id))

/-- Nothing was read. -/
theorem Took.nil : Took [] [] := ⟨rfl, rfl, fun _ => .nil⟩

/-- More is read. -/
theorem Took.append (h : Took trace ts) (h' : Took evs ts') : Took (trace ++ evs) (ts ++ ts') where
  frames := by rw [List.flatMap_append, List.filter_append, h.frames, h'.frames]
  grams := by rw [List.flatMap_append, List.filter_append, h.grams, h'.grams]
  data id := by
    rw [List.flatMap_append, List.filterMap_append]
    exact List.rel_append (h.data id) (h'.data id)

/-- The event tells of something received, or of the end of early data. -/
def Event.isNews : Event → Bool
  | .rxFr _ | .recvDatagram .. | .discarded .. | .earlyDataRejected => true
  | .recvStreamData _ _ _ data => !data.isEmpty
  | _ => false

instance : Kind fun e => e.isNews = false where
  quiet {e} h := by
    cases e with
    | recvStreamData fin id offset data => exact (Bool.not_eq_false' _).mpr h
    | rxFr | recvDatagram | discarded | earlyDataRejected => cases h
    | _ => rfl

/-- What is sent is no news. -/
theorem Event.Outward.isNews {e : Event} (h : e.Outward) : e.isNews = false := by
  cases e with
  | txFr | accepted => rfl
  | _ => exact Kind.quiet (K := fun e => e.isNews = false) h

/-- Nothing that is no news was read. -/
theorem Took.of_none (h : ∀ e ∈ evs, e.isNews = false) : Took evs [] := by
  have hnone : ∀ e ∈ evs, e.heads = [] ∧ e.grams = [] ∧ ∀ id, e.heard id = [] := by
    intro e he
    have := h e he
    cases e with
    | rxFr | recvDatagram | discarded | earlyDataRejected => cases this
    | recvStreamData fin streamId offset data =>
      obtain rfl : data = [] := List.isEmpty_iff.1 ((Bool.not_eq_false' _).mp this)
      exact ⟨rfl, rfl, fun id => by simp [Event.heard]⟩
    | _ => exact ⟨rfl, rfl, fun _ => rfl⟩
  refine ⟨?_, ?_, fun id => ?_⟩
  · exact List.flatMap_eq_nil_iff.2 fun e he => (hnone e he).1
  · exact List.flatMap_eq_nil_iff.2 fun e he => (hnone e he).2.1
  · rw [List.flatMap_eq_nil_iff.2 fun e he => (hnone e he).2.2 id]
    exact .nil

/-! ## Kinds of tokens -/

/-- The tokens in front of the data are those of a frame. -/
theorem Frame.isFrame_head {fr : Frame} {x : Token} (h : x ∈ fr.head) : x.isFrame = true := by
  cases fr with
  | padding n =>
    rw [(List.mem_replicate.1 h).2]
    rfl
  | _ =>
    rw [List.mem_singleton.1 h]
    rfl

/-- Spread data consists of tokens of its kind. -/
theorem spread_mem {f : ℕ → Bool → UInt8 → Token} {fin : Bool} {data : List UInt8} {x : Token}
    (h : x ∈ spread f fin data) : ∃ i fin b, x = f i fin b := by
  induction data generalizing f with
  | nil => cases h
  | cons b data ih =>
    rcases List.mem_cons.1 h with rfl | h
    · exact ⟨_, _, _, rfl⟩
    · obtain ⟨i, fin, b, rfl⟩ := ih h
      exact ⟨i + 1, fin, b, rfl⟩

/-- The tokens of a datagram. -/
theorem isGram_gramTokens {dgramlen offset : ℕ} {fin : Bool} {data : List UInt8} {x : Token}
    (h : x ∈ gramTokens dgramlen offset fin data) : x.isGram = true := by
  unfold gramTokens at h
  split at h
  · rw [List.mem_singleton.1 h]
    rfl
  · obtain ⟨i, fin, b, rfl⟩ := spread_mem h
    rfl

/-- Spread data is the data. -/
theorem bytes_spread {f : ℕ → Bool → UInt8 → Token} {fin : Bool} {data : List UInt8}
    (h : ∀ i fin b, (f i fin b).byte? id = some b) :
    (spread f fin data).filterMap (Token.byte? id) = data := by
  induction data generalizing f with
  | nil => rfl
  | cons b data ih => rw [spread, List.filterMap_cons_some (h ..), ih fun i => h (i + 1)]

/-- The data of a stream. -/
theorem bytes_streamTokens (streamId left : ℕ) (fin : Bool) (data : List UInt8) (id : ℕ) :
    (streamTokens streamId left fin data).filterMap (Token.byte? id) =
      if streamId = id then data else [] := by
  split
  · next h => exact bytes_spread fun i fin b => if_pos h
  · next h =>
    refine List.filterMap_eq_nil_iff.2 fun x hx => ?_
    obtain ⟨i, fin, b, rfl⟩ := spread_mem hx
    exact if_neg h

/-- Tokens that are frames. -/
theorem filters_of_isFrame (h : ∀ x ∈ ts, x.isFrame = true) :
    ts.filter Token.isFrame = ts ∧ ts.filter Token.isGram = [] ∧
      ∀ id, ts.filterMap (Token.byte? id) = [] := by
  refine ⟨List.filter_eq_self.2 h, List.filter_eq_nil_iff.2 fun x hx => ?_, fun id =>
    List.filterMap_eq_nil_iff.2 fun x hx => ?_⟩
  all_goals
    have := h x hx
    cases x <;> first
      | exact absurd this Bool.false_ne_true
      | simp [Token.isGram, Token.byte?]

/-- Tokens that are of datagrams. -/
theorem filters_of_isGram (h : ∀ x ∈ ts, x.isGram = true) :
    ts.filter Token.isFrame = [] ∧ ts.filter Token.isGram = ts ∧
      ∀ id, ts.filterMap (Token.byte? id) = [] := by
  refine ⟨List.filter_eq_nil_iff.2 fun x hx => ?_, List.filter_eq_self.2 h, fun id =>
    List.filterMap_eq_nil_iff.2 fun x hx => ?_⟩
  all_goals
    have := h x hx
    cases x <;> first
      | exact absurd this Bool.false_ne_true
      | simp [Token.isFrame, Token.byte?]

/-- The tokens of the data of a stream. -/
theorem filters_streamTokens (streamId left : ℕ) (fin : Bool) (data : List UInt8) :
    (streamTokens streamId left fin data).filter Token.isFrame = [] ∧
      (streamTokens streamId left fin data).filter Token.isGram = [] := by
  refine ⟨List.filter_eq_nil_iff.2 fun x hx => ?_, List.filter_eq_nil_iff.2 fun x hx => ?_⟩
  all_goals
    obtain ⟨i, fin, b, rfl⟩ := spread_mem hx
    simp [Token.isFrame, Token.isGram]

/-! ## Acts -/

/-- A frame is read. -/
theorem Took.rxFr (fr : Frame) : Took [.rxFr fr] fr.head := by
  obtain ⟨hframes, hgrams, hdata⟩ := filters_of_isFrame fun x => fr.isFrame_head (x := x)
  refine ⟨?_, ?_, fun id => ?_⟩
  · rw [hframes]
    exact List.append_nil _
  · rw [hgrams]
    rfl
  · rw [hdata]
    exact .nil

/-- Data of a datagram is read. -/
theorem Took.recvDatagram (fin : Bool) (dgramlen offset : ℕ) (data : List UInt8) :
    Took [.recvDatagram fin dgramlen offset data] (gramTokens dgramlen offset fin data) := by
  obtain ⟨hframes, hgrams, hdata⟩ := filters_of_isGram
    fun (x : Token) (hx : x ∈ gramTokens dgramlen offset fin data) => isGram_gramTokens hx
  refine ⟨?_, ?_, fun id => ?_⟩
  · rw [hframes]
    rfl
  · rw [hgrams]
    exact List.append_nil _
  · rw [hdata]
    exact .nil

/-- Data of a stream is read, and forwarded or not. -/
theorem Took.of_heard {e : Event} {streamId left : ℕ} {fin : Bool} {data : List UInt8}
    (hheads : e.heads = []) (hgrams : e.grams = [])
    (h : ∀ id, List.Forall₂ Agrees (e.heard id) (if streamId = id then data else [])) :
    Took [e] (streamTokens streamId left fin data) := by
  obtain ⟨hframes, hgram⟩ := filters_streamTokens streamId left fin data
  refine ⟨?_, ?_, fun id => ?_⟩
  · rw [hframes, List.flatMap_singleton, hheads]
  · rw [hgram, List.flatMap_singleton, hgrams]
  · rw [bytes_streamTokens, List.flatMap_singleton]
    exact h id

/-- What an act logs tells of what it takes in. -/
theorem Act.Logs.took {act : Act} (h : act.Logs evs) : Took evs act.tokens := by
  cases h with
  | nothing | seen | alloc => exact .nil
  | log fr | frame fr => exact .rxFr fr
  | params hdec =>
    rw [Act.tokens, hdec]
    exact .rxFr _
  | piece streamId fin left offset data =>
    refine .of_heard rfl rfl fun id => ?_
    rw [Event.heard]
    split
    · rw [List.forall₂_map_left_iff]
      exact List.forall₂_same.2 fun b _ => .inr rfl
    · exact .nil
  | skip streamId fin left data =>
    refine .of_heard rfl rfl fun id => ?_
    rw [Event.heard]
    split
    · refine List.forall₂_iff_get.2 ⟨List.length_replicate, fun i h₁ h₂ => .inl ?_⟩
      rw [List.get_eq_getElem, List.getElem_replicate]
    · exact .nil
  | datagram fin dgramlen offset data => exact .recvDatagram fin dgramlen offset data
  | emptyDatagram fr => exact (Took.rxFr (.datagram fr)).append (.recvDatagram true 0 0 [])

/-! ## Reading -/

/-- A pass that is accepted takes in what it should, and logs it. -/
theorem connReadStep_took {e : Endp} {p : List UInt8} {now : ℕ} (h : e.reader.Readable)
    (hp : p ≠ []) (hsize : e.st.conn.localParams.maxDatagramFrameSize ≤ uint64Max) :
    wp (connReadStep now p)
      (fun rest e' => (Parse.lenient e.st.conn.localParams e.reader p).outcome = .ok rest ∧
        (Parse.lenient e.st.conn.localParams e.reader p).next = e'.reader ∧
        e'.st.conn.localParams = e.st.conn.localParams ∧
        ∃ evs, e'.st.trace = e.st.trace ++ evs ∧
          Took evs (Parse.lenient e.st.conn.localParams e.reader p).act.tokens)
      (fun _ _ => True) env e := by
  rw [wp_connReadStep now h hp, Parsed.wp_run]
  have haccepted := @Parse.lenient_of_accepted e.st.conn.localParams e.reader
    e.st.conn.flags.qxTransportParametersSeen p hsize
  generalize Parse.pass e.st.conn.flags.qxTransportParametersSeen e.st.conn.localParams
    e.reader p = x at haccepted
  cases hc : x.act.check with
  | error err => exact wp_mono (perform_of_check hc) (fun _ _ h => h.elim) fun _ _ h => h
  | ok u =>
    refine wp_mono (perform_emits now x.act e.st) ?_ fun _ _ _ => trivial
    rintro _ t ⟨evs, hlogs, hcalm⟩
    rw [wp_ofExcept]
    cases hr : x.result with
    | error err => trivial
    | ok rest =>
      rw [haccepted (Parse.not_refused_of_ok hr)]
      obtain ⟨quiet, htrace, -, -, hquiet⟩ := hcalm.frames
      have htook : Took (evs ++ quiet) x.act.tokens := by
        rw [← List.append_nil x.act.tokens]
        exact hlogs.took.append (.of_none fun e he =>
          Kind.quiet (K := fun e => e.isNews = false) (hquiet e he))
      have htrace' : t.trace = e.st.trace ++ (evs ++ quiet) := by
        rw [htrace, List.append_assoc]
      refine ⟨by rw [Parsed.outcome, hc, hr]; rfl, rfl, ?_⟩
      split
      · exact ⟨hcalm.localParams, _, htrace', htook⟩
      · exact ⟨hcalm.localParams, _, htrace', htook⟩

/-! ## Writing -/

/-- A call that does not read logs nothing received, and leaves the parser where it is. -/
theorem Call.noNews {call : Call} {e e' : Endp} {r : Except Err (List UInt8)}
    (hP : call.Plain e) (hread : ∀ data now, call ≠ .read data now)
    (hrun : call.run env e = (r, e')) : e.AddsUpTo Event.isNews 0 e' := by
  refine Call.addsUpTo (fun _ _ _ => rfl) (fun _ => rfl) (fun vmsg _ => ?_) hP hread hrun
  refine .of_none fun st => wp_mono (movesEmits_writeVmsg vmsg st) (fun _ _ h => ?_) fun _ _ h => ?_
  · exact (h.mono fun e he => he.isNews).adds
  · exact ⟨(h.1.mono fun e he => he.isNews).adds, trivial⟩

/-! ## Runs -/

/-- The endpoint has taken in a part of the tokens, and is to read `q`, which spells the
    others. -/
def Endp.Taking (params : TransportParams) (all : List Token) (e : Endp) (q : List UInt8) : Prop :=
  e.st.conn.localParams = params ∧ ∃ taken ts, all = taken ++ ts ∧ Took e.st.trace taken ∧
    Parse.Streams params e.reader q ts

section

variable {server : Bool} {settings : Settings} {params : TransportParams} {e e' : Endp}
  {inp out : List UInt8} {all : List Token}

/-- A call that reads nothing brings no news. -/
theorem Endp.Taking.noNews {q : List UInt8} (h : e.Taking params all q)
    (hs : e.AddsUpTo Event.isNews 0 e') (hparams : e'.st.conn.localParams = params) :
    e'.Taking params all q := by
  obtain ⟨-, taken, ts, hall, htook, hstream⟩ := h
  obtain ⟨hadds, hreader⟩ := hs
  obtain ⟨evs, htrace, hevs⟩ := hadds.adds
  refine ⟨hparams, taken, ts, hall, ?_, hreader ▸ hstream⟩
  rw [htrace, ← List.append_nil taken]
  exact htook.append (.of_none hevs)

/-- A call that reads a chunk takes in what it spells. -/
theorem connRead_taking {G : Cfg → Prop} {c : Cfg} (hG : Timed env.Passive G)
    (hrx : ∀ l c c', G c → Step env.Passive l c c' → l ≠ .early → l ≠ .reject → G c')
    (hat : At G e c) (hmax : defaultMaxRecordSize ≤ params.maxRecordSize)
    (hsize : params.maxDatagramFrameSize ≤ uint64Max) {data rest : List UInt8} (now : ℕ)
    (h : e.Taking params all (data ++ rest)) :
    wp (connRead data now) (fun _ e' => e'.Taking params all rest) (fun _ _ => True) env e := by
  refine connRead_keep (I := fun e p => e.Taking params all (p ++ rest)) hG hrx
    (fun e p hat hp htaking => ?_) hat h
  obtain ⟨c, hc⟩ := hat
  obtain ⟨hparams, taken, ts, rfl, htook, hstream⟩ := htaking
  have hstep := @connReadStep_took env e p now hc.reader.ok.toReadable hp (hparams ▸ hsize)
  rw [hparams] at hstep
  refine wp_mono hstep ?_ fun _ _ h => h
  rintro r e' ⟨hout, hnext, hlocal, evs, htrace, hevs⟩
  obtain ⟨r', ts', hout', rfl, hstream', -⟩ := Parse.lenient_stream hmax hstream hp
  obtain rfl : r = r' := Except.ok.inj (hout.symm.trans hout')
  rw [hnext] at hstream'
  refine ⟨hlocal, taken ++ (Parse.lenient params e.reader p).act.tokens, ts', ?_, ?_, hstream'⟩
  · rw [List.append_assoc]
  · rw [htrace]
    exact htook.append hevs

/-- What an endpoint has taken in of records is told by its history, wherever the records
    were cut, and whatever else it did. -/
theorem endpoint_taking (hp : Created params)
    (h : (endpoint env Call.Plain).Run (.new server settings params) e inp out)
    {rest : List UInt8} {records : List (List Frame)} (hrecords : ∀ frs ∈ records, IsRecord frs)
    (hinp : inp ++ rest = records.flatMap recordOf) :
    e.Taking { params with maxRecordSize := defaultMaxRecordSize } (tokensOf records.flatten)
      rest := by
  induction h generalizing rest with
  | refl =>
    refine ⟨rfl, [], _, rfl, .nil, ?_⟩
    rw [List.nil_append] at hinp
    rw [hinp]
    exact .of_idle ⟨⟨⟨[], rfl, rfl⟩, fun h => absurd rfl h⟩, Nat.zero_le _,
      FrameUnion.bounded_zero, rfl, by rintro ⟨⟩⟩ rfl rfl hrecords
  | @step a a' inp out u v h hs ih =>
    rw [List.append_assoc] at hinp
    have htaking := ih hinp
    have hrun := hp.run h
    have hrun' := hp.run (h.step hs)
    obtain ⟨call, r, hP, hcall, hr, rfl, -⟩ := hs
    by_cases hread : ∀ data now, call ≠ .read data now
    · have hu : call.takes = [] := by
        cases call <;> first
          | rfl
          | exact absurd rfl (hread _ _)
      rw [hu] at htaking
      exact htaking.noNews (call.noNews hP hread hcall) hrun'.localParams
    · push Not at hread
      obtain ⟨data, now, rfl⟩ := hread
      obtain ⟨c, hc, -⟩ := hrun.steps
      cases r with
      | error err => exact absurd rfl (hr.2 data now)
      | ok record =>
        have hwp : wp (Call.run (.read data now))
            (fun _ e' => e'.Taking { params with maxRecordSize := defaultMaxRecordSize }
              (tokensOf records.flatten) rest) (fun _ _ => True) env a := by
          rw [Call.run, wp_bind]
          refine connRead_taking (Steps.timed (hrun.sound_new _))
            (fun _ _ _ h hs _ _ => h.tail hs) hc ?_ ?_ now htaking
          · exact le_rfl
          · exact hp.maxDatagramFrameSize
        exact hwp.of_ok hcall

/-- No plain call rejects early data. -/
theorem endpoint_unrejected (hp : Created params)
    (h : (endpoint env Call.Plain).Run (.new server settings params) e inp out) :
    ∀ ev ∈ e.st.trace, ev.isRejected = false := by
  induction h with
  | refl => rintro _ ⟨⟩
  | @step a a' inp out u v h hs ih =>
    have hrun := hp.run h
    obtain ⟨call, r, hP, hcall, hr, -, -⟩ := hs
    have hadds : Adds (fun ev => ev.isRejected = false) a.st a'.st := by
      by_cases hread : ∀ data now, call ≠ .read data now
      · obtain ⟨evs, htrace, hevs⟩ := (call.noNews hP hread hcall).1.adds
        refine ⟨evs, htrace, fun ev hev => ?_⟩
        have := hevs ev hev
        cases ev with
        | earlyDataRejected => cases this
        | _ => rfl
      · push Not at hread
        obtain ⟨data, now, rfl⟩ := hread
        cases r with
        | error err => exact absurd rfl (hr.2 data now)
        | ok record =>
          refine ((hrun.hears hcall).mono fun ev hev => ?_).adds
          cases ev with
          | earlyDataRejected => cases hev
          | _ => rfl
    obtain ⟨evs, htrace, hevs⟩ := hadds
    rw [htrace]
    exact fun ev hev => (List.mem_append.1 hev).elim (ih ev) (hevs ev)

end

end Dwnx
