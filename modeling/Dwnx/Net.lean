import Dwnx.Taken

/-!
# Two endpoints

Two connections are joined by a channel in each direction, which loses nothing and keeps
the order. Their applications make calls in any order, each with callbacks of its own,
and each reads what has arrived in chunks of any length.

* `linked_frames`: what an endpoint has logged as received are the first frames that the
  other has logged as sent, and all of them once the channel is empty and no record is
  under construction.
-/

namespace Dwnx

variable {envA envB : Env} {serverA serverB : Bool} {settingsA settingsB : Settings}
  {paramsA paramsB : TransportParams} {d : Duplex Endp Endp UInt8} {frs : List Frame}

/-- Two new connections, and what they were led to by calls of their applications and by
    what they read of each other. -/
structure Linked (envA envB : Env) (serverA serverB : Bool) (settingsA settingsB : Settings)
    (paramsA paramsB : TransportParams) (d : Duplex Endp Endp UInt8) : Prop where
  left : Created paramsA
  right : Created paramsB
  reaches : Duplex.Reaches (endpoint envA Call.Plain) (endpoint envB Call.Plain)
    (.new serverA settingsA paramsA) (.new serverB settingsB paramsB) d

/-! ## Explicit exchanges -/

/-- A turn: a call, or to read up to `n` bytes of what has arrived. -/
inductive Turn
  | call (call : Call)
  | read (n now : ℕ)

/-- The call of a turn where `q` has arrived. -/
def Turn.toCall (q : List UInt8) : Turn → Call
  | call c => c
  | read n now => .read (q.take n) now

/-- Takes a turn on the left. -/
def Turn.play (env : Env) (turn : Turn) (d : Duplex Endp Endp UInt8) :
    Option (Duplex Endp Endp UInt8) :=
  if (turn.toCall d.toLeft).takes <+: d.toLeft then
    ((turn.toCall d.toLeft).step? env d.left).map fun x =>
      ⟨x.1, d.right, d.toRight ++ x.2, d.toLeft.drop (turn.toCall d.toLeft).takes.length⟩
  else none

/-- Takes turns, those marked `true` on the left. -/
def play (envA envB : Env) : List (Bool × Turn) → Duplex Endp Endp UInt8 →
    Option (Duplex Endp Endp UInt8)
  | [], d => some d
  | (true, turn) :: turns, d => (turn.play envA d).bind (play envA envB turns)
  | (false, turn) :: turns, d =>
    (turn.play envB d.swap).bind fun d' => play envA envB turns d'.swap

section

variable {P Q : Call → Endp → Prop} (hP : ∀ call e, call.isPlain = true → P call e)

include hP

theorem Turn.step_of_play {turn : Turn} {d d' : Duplex Endp Endp UInt8}
    (h : turn.play envA d = some d') :
    Duplex.Step (endpoint envA P) (endpoint envB Q) d d' := by
  rw [Turn.play] at h
  split at h
  · next hprefix =>
    obtain ⟨x, hx, rfl⟩ := Option.map_eq_some_iff.1 h
    obtain ⟨rest, hrest⟩ := hprefix
    have hdrop : d.toLeft.drop (turn.toCall d.toLeft).takes.length = rest :=
      List.append_cancel_left (by rw [hrest, (List.prefix_iff_eq_append.1 ⟨rest, hrest⟩)])
    rw [hdrop]
    exact .left (Call.step_of_step? hP hx) hrest.symm
  · cases h

theorem reaches_of_play (hQ : ∀ call e, call.isPlain = true → Q call e)
    {turns : List (Bool × Turn)} {a₀ b₀ : Endp} {d d' : Duplex Endp Endp UInt8}
    (hd : Duplex.Reaches (endpoint envA P) (endpoint envB Q) a₀ b₀ d)
    (h : play envA envB turns d = some d') :
    Duplex.Reaches (endpoint envA P) (endpoint envB Q) a₀ b₀ d' := by
  induction turns generalizing d with
  | nil =>
    cases h
    exact hd
  | cons turn turns ih =>
    obtain ⟨left, turn⟩ := turn
    cases left with
    | true =>
      obtain ⟨d₁, hturn, hplay⟩ := Option.bind_eq_some_iff.1 h
      exact ih (hd.tail (Turn.step_of_play hP hturn)) hplay
    | false =>
      obtain ⟨d₁, hturn, hplay⟩ := Option.bind_eq_some_iff.1 h
      have hstep : Duplex.Step (endpoint envB Q) (endpoint envA P) d.swap d₁ :=
        Turn.step_of_play hQ hturn
      exact ih (hd.tail hstep.swap) hplay

end

/-- Small limits, and datagrams. -/
def netParams : TransportParams := { smallParams with maxDatagramFrameSize := 100 }

/-- A client and a server with these limits. -/
abbrev LinkedSmall : Duplex Endp Endp UInt8 → Prop :=
  Linked Env.quiet Env.quiet false true smallSettings smallSettings netParams netParams

/-- Turns that lead them to where `p` holds. -/
structure PlayTo (p : Duplex Endp Endp UInt8 → Bool) where
  turns : List (Bool × Turn)
  any : (play Env.quiet Env.quiet turns (Duplex.init (.new false smallSettings netParams)
    (.new true smallSettings netParams))).any p = true

theorem PlayTo.exists_linked {p : Duplex Endp Endp UInt8 → Bool} (r : PlayTo p) :
    ∃ d, LinkedSmall d ∧ p d = true := by
  obtain ⟨d, hd, hp⟩ := (Option.any_eq_true _ _).1 r.any
  have hnet : Created netParams := ⟨by decide, by decide, by decide, by decide⟩
  exact ⟨d, ⟨hnet, hnet,
    reaches_of_play Call.plain_of_isPlain Call.plain_of_isPlain .refl hd⟩, hp⟩

/-! ## Frames -/

/-- The heads of frames as they are received. -/
def headsOf (frs : List Frame) : List Token := frs.flatMap fun fr => fr.received.head

theorem headsOf_append (l m : List Frame) : headsOf (l ++ m) = headsOf l ++ headsOf m :=
  List.flatMap_append

/-- What is received of a frame begins with its head, and the rest is data. -/
theorem Frame.Sendable.tokens_eq {fr : Frame} (h : fr.Sendable) :
    ∃ ts, fr.received.tokens = fr.received.head ++ ts ∧ ∀ x ∈ ts, x.isFrame = false := by
  cases fr with
  | stream fr =>
    refine ⟨_, rfl, fun x hx => ?_⟩
    obtain ⟨i, fin, b, rfl⟩ := spread_mem hx
    rfl
  | datagram fr =>
    have htype : fr.type = FrameType.datagramLen := by
      rcases h.2 with ⟨params, hn⟩ | hord
      · cases hn
      · exact hord
    refine ⟨gramTokens fr.len 0 true (vecsOf fr.data.flatten).flatten, ?_, fun x hx => ?_⟩
    · rw [Frame.received, Frame.tokens, if_neg (by rw [htype]; decide)]
    · have := isGram_gramTokens hx
      cases x <;> first
        | rfl
        | exact absurd this Bool.false_ne_true
  | _ => exact ⟨[], (List.append_nil _).symm, by rintro _ ⟨⟩⟩

theorem Frame.Sendable.filter_tokens {fr : Frame} (h : fr.Sendable) :
    fr.received.tokens.filter Token.isFrame = fr.received.head := by
  obtain ⟨ts, hts, hnone⟩ := h.tokens_eq
  rw [hts, List.filter_append, List.filter_eq_self.2 fun x hx => fr.received.isFrame_head hx,
    List.filter_eq_nil_iff.2 fun x hx => by rw [hnone x hx]; exact Bool.false_ne_true,
    List.append_nil]

theorem filter_tokensOf (h : ∀ fr ∈ frs, fr.Sendable) :
    (tokensOf frs).filter Token.isFrame = headsOf frs := by
  induction frs with
  | nil => rfl
  | cons fr frs ih =>
    have hfr := (h fr List.mem_cons_self).filter_tokens
    have hfrs := ih fun fr hmem => h fr (List.mem_cons_of_mem _ hmem)
    rw [tokensOf, headsOf, List.flatMap_cons, List.flatMap_cons, List.filter_append, hfr]
    exact congrArg _ hfrs

/-! ## What is on its way -/

/-- What one endpoint has taken in of what the other has sent: the tokens of the records
    `done`, but for `ts`. -/
structure Delivery (params : TransportParams) (d : Duplex Endp Endp UInt8)
    (done : List (List Frame)) (cur : List Frame) (taken ts : List Token) : Prop where
  sent : sentFrames d.left.st.trace = done.flatten ++ cur
  sendable : ∀ fr ∈ sentFrames d.left.st.trace, fr.Sendable
  idle : d.left.st.conn.tx.qre.started = false → cur = []
  tokens : tokensOf done.flatten = taken ++ ts
  took : Took d.right.st.trace taken
  streams : Parse.Streams params d.right.reader d.toRight ts

/-- Once there is nothing in the channel, all of the records have been taken in. -/
theorem Delivery.drained {params : TransportParams} {done : List (List Frame)} {cur : List Frame}
    {taken ts : List Token} (h : Delivery params d done cur taken ts) (hnone : d.toRight = []) :
    ts = [] := by
  obtain ⟨p, ts', records, hq, rfl, hrecords, hgoes⟩ := h.streams
  rw [hnone, eq_comm, List.append_eq_nil_iff] at hq
  obtain ⟨rfl, hq⟩ := hq
  obtain ⟨rfl, -⟩ := hgoes.nil
  cases records with
  | nil => rfl
  | cons frs records =>
    rw [List.flatMap_cons, recordOf, List.append_assoc, List.append_eq_nil_iff] at hq
    exact absurd (congrArg List.length hq.1) (by simp)

theorem Linked.delivery
    (h : Linked envA envB serverA serverB settingsA settingsB paramsA paramsB d) :
    ∃ done cur taken ts,
      Delivery { paramsB with maxRecordSize := defaultMaxRecordSize } d done cur taken ts := by
  obtain ⟨x, y, hruns⟩ := Duplex.reaches_runs h.reaches
  obtain ⟨i, hleft, -⟩ := hruns.left
  obtain ⟨j, hright, hx⟩ := hruns.right
  obtain ⟨done, cur, hrec⟩ := endpoint_recorded h.left hleft
  have hsends := hrec.sends h.left (h.left.run hleft).localParams
  have hdone : ∀ frs ∈ done, IsRecord frs := by
    intro frs hfrs
    obtain ⟨hne, hlen⟩ := hrec.full frs hfrs
    refine ⟨hne, hlen, fun fr hfr => hsends.sendable fr ?_⟩
    rw [hrec.sent]
    exact List.mem_append_left _ (List.mem_flatten.2 ⟨frs, hfrs, hfr⟩)
  obtain ⟨-, taken, ts, hall, htook, hstream⟩ :=
    endpoint_taking h.right hright hdone (hx.symm.trans hrec.out)
  exact ⟨done, cur, taken, ts, hrec.sent, hsends.sendable, hrec.idle, hall, htook, hstream⟩

/-! ## Frames -/

theorem Delivery.sendable_done {params : TransportParams} {done : List (List Frame)}
    {cur : List Frame} {taken ts : List Token} (h : Delivery params d done cur taken ts) :
    ∀ fr ∈ done.flatten, fr.Sendable := fun fr hfr =>
  h.sendable fr (h.sent ▸ List.mem_append_left _ hfr)

/-- The frames logged as received are the first that were sent, but for their data, and all of
    them once the channel is empty and no record is under construction. -/
theorem Delivery.frames {params : TransportParams} {done : List (List Frame)} {cur : List Frame}
    {taken ts : List Token} (h : Delivery params d done cur taken ts) :
    d.right.st.trace.flatMap Event.heads <+: headsOf (sentFrames d.left.st.trace) ∧
      (d.toRight = [] → d.left.st.conn.tx.qre.started = false →
        d.right.st.trace.flatMap Event.heads = headsOf (sentFrames d.left.st.trace)) := by
  have hdone : headsOf done.flatten = taken.filter Token.isFrame ++ ts.filter Token.isFrame := by
    rw [← filter_tokensOf h.sendable_done, h.tokens, List.filter_append]
  rw [h.took.frames, h.sent, headsOf_append, hdone]
  refine ⟨(List.prefix_append ..).trans (List.prefix_append ..), fun hnone hidle => ?_⟩
  rw [h.drained hnone, h.idle hidle]
  simp [headsOf]

/-- The frames that an endpoint logs as received are those that the other logged as sent, in
    that order, but for their data, and as far as they have arrived. Once the channel is
    empty and no record is under construction, they are all of them. -/
theorem linked_frames
    (h : Linked envA envB serverA serverB settingsA settingsB paramsA paramsB d) :
    d.right.st.trace.flatMap Event.heads <+: headsOf (sentFrames d.left.st.trace) ∧
      (d.toRight = [] → d.left.st.conn.tx.qre.started = false →
        d.right.st.trace.flatMap Event.heads = headsOf (sentFrames d.left.st.trace)) := by
  obtain ⟨done, cur, taken, ts, hd⟩ := h.delivery
  exact hd.frames

/-- Both greet each other, and read the parameters of the other, the right one in pieces. -/
def greeting : List (Bool × Turn) :=
  [(true, .call (.writeRecord 100 0)), (false, .call (.writeRecord 100 0)), (false, .read 5 0),
    (false, .read 100 0), (true, .read 100 0)]

/-- The left one writes to a stream, and two datagrams, one of them empty. -/
def messages : List (Bool × Turn) :=
  [(true, .call (.app .openBidiStream)), (true, .call (.writevStream 100 true 0 [[1, 2], [3]] 0)),
    (true, .call (.writevDatagram 100 [[7, 8]] 0)), (true, .call (.writevDatagram 100 [] 0)),
    (true, .call (.writeRecord 100 0))]

/-- Everything has been read, in pieces. -/
def drainedPlay : PlayTo fun d => (sentFrames d.left.st.trace).length == 4 && d.toRight.isEmpty &&
    !d.left.st.conn.tx.qre.started where
  turns := greeting ++ messages ++ [(false, .read 7 0), (false, .read 5 0), (false, .read 100 0)]
  any := by decide +kernel

theorem linked_frames_drained : ∃ d, LinkedSmall d ∧ (sentFrames d.left.st.trace).length = 4 ∧
    d.right.st.trace.flatMap Event.heads = headsOf (sentFrames d.left.st.trace) := by
  obtain ⟨d, h, hp⟩ := drainedPlay.exists_linked
  rw [Bool.and_eq_true, Bool.and_eq_true, beq_iff_eq, List.isEmpty_iff, Bool.not_eq_true'] at hp
  exact ⟨d, h, hp.1.1, (linked_frames h).2 hp.1.2 hp.2⟩

/-! ## Datagrams -/

/-- What is passed on of datagrams: all of their bytes, each with the length of its datagram
    and its offset in it, and which is the last one. -/
def gramsOf (grams : List (List UInt8)) : List Token :=
  grams.flatMap fun data => gramTokens data.length 0 true data

theorem Frame.Sendable.filter_grams {fr : Frame} (h : fr.Sendable) :
    fr.received.tokens.filter Token.isGram = gramsOf fr.gram?.toList := by
  have hhead : fr.received.head.filter Token.isGram = [] :=
    (filters_of_isFrame fun x hx => fr.received.isFrame_head hx).2.1
  cases fr with
  | datagram fr =>
    have hlen : fr.data.flatten.length = fr.len := h.1.2.2
    have htype : fr.type = FrameType.datagramLen := by
      rcases h.2 with ⟨params, hn⟩ | hord
      · cases hn
      · exact hord
    have hgrams := (filters_of_isGram fun (x : Token)
      (hx : x ∈ gramTokens fr.len 0 true fr.data.flatten) => isGram_gramTokens hx).2.1
    rw [Frame.received] at hhead
    rw [Frame.received, Frame.tokens, if_neg (by rw [htype]; decide), List.filter_append, hhead,
      List.nil_append, flatten_vecsOf, hgrams, gramsOf, Frame.gram?, Option.toList_some,
      List.flatMap_singleton, hlen]
  | stream fr =>
    have htokens := (filters_streamTokens fr.streamId fr.len fr.fin
      (vecsOf (fr.data.flatten.take fr.len)).flatten).2
    exact List.filter_append _ _ ▸ (congrArg₂ _ hhead htokens).trans (List.append_nil _)
  | _ => exact hhead

theorem filter_gramsOf (h : ∀ fr ∈ frs, fr.Sendable) :
    (tokensOf frs).filter Token.isGram = gramsOf (frs.filterMap Frame.gram?) := by
  induction frs with
  | nil => rfl
  | cons fr frs ih =>
    have hfr := (h fr List.mem_cons_self).filter_grams
    have hfrs := ih fun fr hmem => h fr (List.mem_cons_of_mem _ hmem)
    rw [tokensOf, List.flatMap_cons, List.filter_append, hfr, gramsOf, List.filterMap_cons]
    refine (congrArg _ hfrs).trans ?_
    cases fr.gram? with
    | none => rfl
    | some data => exact (@List.flatMap_append _ _ [data] _ _).symm

/-- The datagrams that were taken in are the first of those that were sent. -/
theorem Delivery.grams {params : TransportParams} {done : List (List Frame)} {cur : List Frame}
    {taken ts : List Token} (h : Delivery params d done cur taken ts) :
    d.right.st.trace.flatMap Event.grams <+: gramsOf (sentGrams d.left.st.trace) ∧
      (d.toRight = [] → d.left.st.conn.tx.qre.started = false →
        d.right.st.trace.flatMap Event.grams = gramsOf (sentGrams d.left.st.trace)) := by
  have hdone : gramsOf (done.flatten.filterMap Frame.gram?) =
      taken.filter Token.isGram ++ ts.filter Token.isGram := by
    rw [← filter_gramsOf h.sendable_done, h.tokens, List.filter_append]
  have hsent : gramsOf (sentGrams d.left.st.trace) =
      gramsOf (done.flatten.filterMap Frame.gram?) ++ gramsOf (cur.filterMap Frame.gram?) := by
    rw [sentGrams, h.sent, List.filterMap_append, gramsOf, List.flatMap_append]
    rfl
  rw [h.took.grams, hsent, hdone]
  refine ⟨(List.prefix_append ..).trans (List.prefix_append ..), fun hnone hidle => ?_⟩
  rw [h.drained hnone, h.idle hidle]
  simp [gramsOf]

/-- What an endpoint passes on of datagrams are the bytes of those that the other sent, each
    once, in their order, with its length, and the end told of the last one. Once the channel
    is empty and no record is under construction, nothing of them is missing. -/
theorem linked_datagrams
    (h : Linked envA envB serverA serverB settingsA settingsB paramsA paramsB d) :
    d.right.st.trace.flatMap Event.grams <+: gramsOf (sentGrams d.left.st.trace) ∧
      (d.toRight = [] → d.left.st.conn.tx.qre.started = false →
        d.right.st.trace.flatMap Event.grams = gramsOf (sentGrams d.left.st.trace)) := by
  obtain ⟨done, cur, taken, ts, hd⟩ := h.delivery
  exact hd.grams

theorem linked_datagrams_drained : ∃ d, LinkedSmall d ∧
    d.right.st.trace.flatMap Event.grams = gramsOf (sentGrams d.left.st.trace) := by
  obtain ⟨d, h, hp⟩ := drainedPlay.exists_linked
  rw [Bool.and_eq_true, Bool.and_eq_true, beq_iff_eq, List.isEmpty_iff, Bool.not_eq_true'] at hp
  exact ⟨d, h, (linked_datagrams h).2 hp.1.2 hp.2⟩

end Dwnx
