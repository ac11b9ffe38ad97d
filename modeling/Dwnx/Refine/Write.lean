import Dwnx.Refine.Recv

/-!
# Writing takes steps

The functions that write records, down to the single frame. Every frame written is a
step of its own, so that a record without room stops between steps. They fail with
no assertion about credit, and follow no pointer to a stream that is gone unless a
callback has reset the stream meanwhile (`WriteErr`).

* `writeStrmq_spec`: the loop over the queue;
* `connWriteStreamFrame_spec`: data of a stream;
* `connWriteVmsg_spec`: a whole call.
-/

namespace Dwnx

open Exec

variable {env : Env} {G : Cfg → Prop} {c : Cfg} {id : ℕ} {s s' : Strm}

/-! ## Errors -/

/-- How the encoder of a frame may fail. -/
def EncErr (e : Err) : Prop :=
  e = .nobuf ∨ e = .fault (.assertion .uvarintlen) ∨ e = .fault (.assertion .encodedLen)

/-- A varint that is too large cannot be encoded. -/
theorem putUvarintlen_err {n : ℕ} {e : Err} (h : putUvarintlen n = .error e) : EncErr e := by
  unfold putUvarintlen at h
  split at h
  · cases h
  · cases h
    exact .inr (.inl rfl)

/-- A list fails as one of its elements does. -/
theorem mapM_err {α β : Type} {f : α → Except Err β} {P : Err → Prop} {l : List α}
    (hf : ∀ x e, f x = .error e → P e) {e : Err} (h : l.mapM f = .error e) : P e := by
  induction l with
  | nil => cases h
  | cons x l ih =>
    rw [List.mapM_cons] at h
    cases hx : f x with
    | error e' =>
      rw [hx] at h
      cases h
      exact hf x _ hx
    | ok y =>
      rw [hx] at h
      cases hl : l.mapM f with
      | error e' =>
        simp only [hl, bind, Except.bind] at h
        cases h
        exact ih hl
      | ok ys =>
        simp only [hl, bind, Except.bind] at h
        cases h

/-- A computation in two parts fails as one of them does. -/
theorem bind_err {α β : Type} {x : Except Err α} {f : α → Except Err β} {P : Err → Prop}
    (hx : ∀ e, x = .error e → P e) (hf : ∀ a e, x = .ok a → f a = .error e → P e) {e : Err}
    (h : (x >>= f) = .error e) : P e := by
  cases x with
  | error e' =>
    cases h
    exact hx _ rfl
  | ok a => exact hf a e rfl h

/-- Varints are refused if they are too large or find no room. -/
theorem encodeVarints_err {outlen len : ℕ} {vs : List ℕ} {payload : List UInt8} {e : Err}
    (h : encodeVarints outlen vs len payload = .error e) : EncErr e := by
  refine bind_err (fun _ he => mapM_err (fun _ _ => putUvarintlen_err) he) (fun lens e _ h => ?_) h
  dsimp only at h
  split at h
  · cases h
    exact .inl rfl
  split at h
  · cases h
    exact .inr (.inr rfl)
  · cases h

/-- Parameters have a length if they are varints. -/
theorem transportParamsLen_err {params : TransportParams} {e : Err}
    (h : transportParamsLen params = .error e) : EncErr e := by
  refine bind_err (fun _ he => mapM_err (fun x e hx => ?_) he) (fun _ _ _ h => by cases h) h
  refine bind_err (fun _ => putUvarintlen_err) (fun _ _ _ h => ?_) hx
  refine bind_err (fun _ => putUvarintlen_err) (fun _ _ _ h => ?_) h
  exact bind_err (fun _ => putUvarintlen_err) (fun _ _ _ h => by cases h) h

/-- Parameters are encoded unless the dry run fails. -/
theorem transportParamsEncode_err {destlen : ℕ} {params : TransportParams} {e : Err}
    (h : transportParamsEncode destlen params = .error e) : EncErr e := by
  refine bind_err (fun _ => transportParamsLen_err) (fun len e _ h => ?_) h
  split at h
  · cases h
    exact .inl rfl
  refine bind_err (fun _ he => mapM_err (fun x e hx => ?_) he) (fun _ _ _ h => ?_) h
  · exact bind_err (fun _ => putUvarintlen_err) (fun _ _ _ h => by cases h) hx
  · dsimp only at h
    split at h
    · cases h
      exact .inr (.inr rfl)
    · cases h

/-- A frame is refused in the ways of its fields. -/
theorem frameEncode_err {outlen : ℕ} {fr : Frame} {e : Err}
    (h : frameEncode outlen fr = .error e) : EncErr e := by
  cases fr with
  | qxTransportParameters params =>
    refine bind_err (fun _ => transportParamsLen_err) (fun len e _ h => ?_) h
    refine bind_err (fun _ he => mapM_err (fun _ _ => putUvarintlen_err) he)
      (fun lens e _ h => ?_) h
    dsimp only at h
    split at h
    · cases h
      exact .inl rfl
    · exact bind_err (fun _ => transportParamsEncode_err) (fun _ _ _ => encodeVarints_err) h
  | datagram fr =>
    change frameEncodeDatagram outlen fr = .error e at h
    unfold frameEncodeDatagram at h
    by_cases hl : fr.len = fr.data.flatten.length
    · rw [if_neg (not_not.2 hl)] at h
      exact encodeVarints_err h
    · rw [if_pos hl] at h
      cases h
      exact .inr (.inr rfl)
  | _ => exact encodeVarints_err h

/-- A frame does not go into a record for the same reasons. -/
theorem Qre.encodeFrame_err {qre : Qre} {fr : Frame} {e : Err}
    (h : qre.encodeFrame fr = .error e) : EncErr e :=
  bind_err (fun _ => frameEncode_err) (fun _ _ _ h => by cases h) h

/-- A frame of varints is refused for lack of room only if there is none. -/
theorem room_of_encodeVarints {outlen : ℕ} {vs : List ℕ}
    (h : encodeVarints outlen vs 0 [] = .error .nobuf) :
    outlen < (vs.flatMap putUvarint).length := by
  rw [length_flatMap_putUvarint]
  unfold encodeVarints at h
  cases hlens : vs.mapM putUvarintlen with
  | error e =>
    rw [hlens] at h
    cases h
    refine absurd rfl (mapM_err (P := fun e => e ≠ .nobuf) (fun n e he => ?_) hlens)
    unfold putUvarintlen at he
    split at he <;> cases he
    exact nofun
  | ok lens =>
    have hle (v : ℕ) (hv : v ∈ vs) : v ≤ maxVarint := by
      obtain ⟨len, hlen⟩ := exists_of_mapM hlens hv
      exact le_of_putUvarintlen hlen
    obtain rfl : vs.map uvarintLen = lens :=
      Except.ok.inj ((mapM_ok fun v hv => putUvarintlen_eq (hle v hv)).symm.trans hlens)
    rw [hlens] at h
    by_contra hroom
    change (if _ then _ else _) = _ at h
    rw [if_neg (by simpa using hroom)] at h
    cases h

/-- A frame that goes into a record leaves the rest of the encoder. -/
theorem Qre.encodeFrame_ok {qre qre' : Qre} {fr : Frame} (h : qre.encodeFrame fr = .ok qre') :
    ∃ payload, frameEncode qre.left fr = .ok payload ∧
      qre' = { qre with frames := qre.frames ++ payload } := by
  obtain ⟨payload, hp, h⟩ := exists_of_bind h
  cases h
  exact ⟨payload, hp, rfl⟩

/-- Parameters that have been written are varints. -/
theorem uniBounded_of_encodeFrame {qre qre' : Qre} {params : TransportParams}
    (h : qre.encodeFrame (.qxTransportParameters params) = .ok qre') : params.UniBounded := by
  obtain ⟨payload, hp, -⟩ := Qre.encodeFrame_ok h
  obtain ⟨n, hn, -⟩ := exists_of_bind hp
  by_cases h0 : params.initialMaxStreamDataUni = 0
  · exact h0.le.trans (Nat.zero_le _)
  · refine (writable_of_len hn (TransportParamId.initialMaxStreamDataUni, _) ?_).2
    simp [TransportParams.written, param, h0]

/-- A record is not started without room for its length. -/
theorem Qre.start_err {buflen : ℕ} {e : Err} (h : Qre.start buflen = .error e) :
    e = .fault (.assertion .recordLen) := by
  unfold Qre.start at h
  split at h
  · cases h
    rfl
  · cases h

/-- A record starts empty. -/
theorem Qre.start_frames {buflen : ℕ} {qre : Qre} (h : Qre.start buflen = .ok qre) :
    qre.frames = [] := by
  unfold Qre.start at h
  split at h
  · cases h
  · cases h
    rfl

/-- A record is finished unless its length takes more than two bytes. -/
theorem Qre.final_err {qre : Qre} {e : Err} (h : qre.final = .error e) :
    e = .fault (.assertion .uvarintw) := by
  unfold Qre.final at h
  split at h
  · cases h
  · refine bind_err (P := fun e => e = .fault (.assertion .uvarintw)) (fun e he => ?_)
      (fun _ _ _ h => by cases h) h
    unfold putUvarintw2 at he
    split at he
    · cases he
    · cases he
      rfl

/-- How a function that writes may fail: a benign error leaves a configuration, the
    assertions about credit hold, and a stream is gone only if it was reset late. -/
structure WriteErr (G : Cfg → Prop) (c : Cfg) (e : Err) (t : St) : Prop where
  benign : e.isBenign = true → G { c with st := t }
  dataBlocked : e ≠ .fault (.assertion .dataBlocked)
  streamDataBlocked : e ≠ .fault (.assertion .streamDataBlocked)
  useAfterFree : e = .fault .useAfterFree → ¬ResetsInTime t.trace

/-- The failure of a later part is one of the whole. -/
theorem WriteErr.from {e : Err} {t t' : St} (h : WriteErr G { c with st := t } e t') :
    WriteErr G c e t' := { h with benign := h.benign }

/-- The failure of an encoder. -/
theorem WriteErr.enc {e : Err} {t : St} (h : G { c with st := t }) (he : EncErr e) :
    WriteErr G c e t := by
  refine ⟨fun _ => h, ?_, ?_, ?_⟩ <;> rcases he with rfl | rfl | rfl <;> simp

/-- The failure of a callback. -/
theorem WriteErr.callbackFailure {t : St} : WriteErr G c .callbackFailure t :=
  ⟨nofun, nofun, nofun, nofun⟩

/-- Memory may run out. -/
theorem WriteErr.nomem {t : St} : WriteErr G c .nomem t := ⟨nofun, nofun, nofun, nofun⟩

/-- An error that is benign comes with a configuration. -/
theorem WriteErr.of_benign {e : Err} {t : St} (h : G { c with st := t }) (hf : e.isFault = false) :
    WriteErr G c e t := by
  refine ⟨fun _ => h, ?_, ?_, ?_⟩ <;> rintro rfl <;> cases hf

/-- A frame is encoded and logged, or refused. -/
theorem wp_encodeFrame_of {fr : Frame} {st : St} {Q : Unit → St → Prop} {E : Err → St → Prop}
    (hQ : ∀ q, st.conn.tx.qre.encodeFrame fr = .ok q →
      Q () { st with conn.tx.qre := q, trace := st.trace ++ [.txFr fr] })
    (hE : ∀ e, EncErr e → E e st) : wp (encodeFrame fr) Q E env st := by
  simp only [encodeFrame, wp_bind, wp_get', wp_ofExcept]
  cases hq : st.conn.tx.qre.encodeFrame fr with
  | error e => exact hE e (Qre.encodeFrame_err hq)
  | ok q => exact hQ q hq

section

variable (hG : Closed env.Passive G) (h : G c)

include hG h

/-! ## Frames about the connection -/

/-- MAX_DATA is written once the window has moved far enough. -/
theorem writeMaxData_spec (hp : c.pending = .idle) :
    wp writeMaxData (fun _ t => G { c with st := t }) (WriteErr G c) env c.st := by
  have hflow := (hG.inv c h).flow
  have hvar : maxVarint < 2 ^ 62 := by decide
  have hle := hflow.rxMaxOffset
  have hmax := hflow.unsentMaxOffset
  simp only [writeMaxData, wp_bind, wp_get', wp_when]
  split
  · next hsend =>
    have hlt : c.conn.rx.maxOffset < c.conn.rx.unsentMaxOffset := by
      rcases hle.lt_or_eq with hlt | he
      · exact hlt
      · change c.conn.rx.window <
          mul64 4 (sub64 c.conn.rx.unsentMaxOffset c.conn.rx.maxOffset) at hsend
        rw [he, sub64_eq le_rfl (by omega), Nat.sub_self] at hsend
        exact absurd hsend (by simp [mul64])
    refine wp_encodeFrame_of (fun q hq => ?_) fun e he => .enc h he
    rw [wp_modifyConn]
    exact hG.step _ _ h (.txMaxData q hp hlt hq)
  · exact h

/-- The answer to a ping is written. -/
theorem writeQxPing_spec (hp : c.pending = .idle) :
    wp writeQxPing (fun _ t => G { c with st := t }) (WriteErr G c) env c.st := by
  simp only [writeQxPing, wp_bind, wp_get', wp_when]
  split
  · next hseq =>
    refine wp_encodeFrame_of (fun q hq => ?_) fun e he => .enc h he
    rw [wp_modifyConn]
    exact hG.step _ _ h (.txPing q hp hseq hq)
  · exact h

omit h in
/-- After the callback that announces a frame. -/
theorem announce_spec {e : Event} {fr : Frame}
    (h₁ : G { c.log [.room c.conn.tx.qre.left, e] with pending := .announced fr }) :
    wp (announce e)
      (fun _ t => G { c with st := t, pending := .announced fr } ∧
        (∃ l, AppRel (c.log [.room c.conn.tx.qre.left, e]).st t l) ∧
        (env.Passive → t = (c.log [.room c.conn.tx.qre.left, e]).st))
      (WriteErr G c) env c.st := by
  have htrace : c.st.trace ++ [.room c.conn.tx.qre.left, e] =
      c.st.trace ++ [.room c.conn.tx.qre.left] ++ [e] := by simp
  simp only [Cfg.log, htrace] at h₁ ⊢
  rw [announce, wp_bind, wp_get', wp_bind, wp_emit]
  refine wp_mono (callback_spec (c := { c.log [.room c.conn.tx.qre.left] with
    pending := .announced fr }) hG h₁) (fun _ t ht => ⟨ht.1.1, ht.1.2, ht.2⟩) ?_
  rintro _ _ ⟨rfl, -⟩
  exact .callbackFailure

omit h in
/-- A frame that was announced is encoded, or left for another record. -/
theorem wp_encodeFrame_announced {t : St} {fr fr' : Frame} (hp : c.pending = .idle)
    (ht : G { c with st := t, pending := .announced fr }) (hdue : t.conn.Due fr fr')
    (hfr : ∀ n, frameEncode n fr' = encodeVarints n fr'.varints 0 [])
    (hwire : fr'.wire = fr'.varints.flatMap putUvarint) {Q : Unit → St → Prop}
    (hQ : ∀ q, t.conn.tx.qre.encodeFrame fr' = .ok q →
      Q () { t with conn.tx.qre := q, trace := t.trace ++ [.txFr fr'] }) :
    wp (encodeFrame fr') Q (WriteErr G c) env t := by
  simp only [encodeFrame, wp_bind, wp_get', wp_ofExcept]
  cases hq : t.conn.tx.qre.encodeFrame fr' with
  | ok q => exact hQ q hq
  | error e =>
    rcases Qre.encodeFrame_err hq with rfl | he
    · refine .of_benign ?_ rfl
      rw [Qre.encodeFrame, hfr] at hq
      have hroom : t.conn.tx.qre.left < fr'.wire.length := by
        rw [hwire]
        refine room_of_encodeVarints ?_
        cases henc : encodeVarints t.conn.tx.qre.left fr'.varints 0 [] with
        | ok bs =>
          rw [henc] at hq
          cases hq
        | error e =>
          rw [henc] at hq
          cases hq
          rfl
      have hidle := hG.step _ _ ht (.putOff rfl hdue hroom)
      rw [← hp] at hidle
      exact hidle
    · refine ⟨?_, ?_, ?_, ?_⟩ <;> rcases he with rfl | rfl <;> rintro ⟨⟩

/-- MAX_STREAMS is written if the limit was raised. -/
theorem writeMaxStreamsBidi_spec (hp : c.pending = .idle) :
    wp writeMaxStreamsBidi (fun _ t => G { c with st := t }) (WriteErr G c) env c.st := by
  simp only [writeMaxStreamsBidi, wp_bind, wp_get', wp_when]
  split
  · next hsend =>
    refine wp_mono (announce_spec hG (hG.step _ _ h (.announceBidi hp hsend))) ?_ fun _ _ h => h
    rintro _ t ⟨ht, ⟨l, hl⟩, -⟩
    have hlt : t.conn.rx.bidi.maxStreams < t.conn.rx.bidi.unsentMaxStreams := by
      have hmax : t.conn.rx.bidi.maxStreams = c.conn.rx.bidi.maxStreams := by rw [hl.conn]; rfl
      rw [hmax]
      exact lt_of_lt_of_le hsend hl.bidi
    refine wp_encodeFrame_announced hG hp ht rfl (fun _ => rfl) (List.append_nil _) fun q hq => ?_
    rw [wp_modifyConn]
    have hidle := hG.step _ _ ht (.txMaxStreamsBidi q rfl hlt hq)
    rw [← hp] at hidle
    exact hidle
  · exact h

/-- MAX_STREAMS is written if the limit was raised. -/
theorem writeMaxStreamsUni_spec (hp : c.pending = .idle) :
    wp writeMaxStreamsUni (fun _ t => G { c with st := t }) (WriteErr G c) env c.st := by
  simp only [writeMaxStreamsUni, wp_bind, wp_get', wp_when]
  split
  · next hsend =>
    refine wp_mono (announce_spec hG (hG.step _ _ h (.announceUni hp hsend))) ?_ fun _ _ h => h
    rintro _ t ⟨ht, ⟨l, hl⟩, -⟩
    have hlt : t.conn.rx.uni.maxStreams < t.conn.rx.uni.unsentMaxStreams := by
      have hmax : t.conn.rx.uni.maxStreams = c.conn.rx.uni.maxStreams := by rw [hl.conn]; rfl
      rw [hmax]
      exact lt_of_lt_of_le hsend hl.uni
    refine wp_encodeFrame_announced hG hp ht rfl (fun _ => rfl) (List.append_nil _) fun q hq => ?_
    rw [wp_modifyConn]
    have hidle := hG.step _ _ ht (.txMaxStreamsUni q rfl hlt hq)
    rw [← hp] at hidle
    exact hidle
  · exact h

/-- Both limits are told. -/
theorem connWriteMaxStreams_spec (hp : c.pending = .idle) :
    wp connWriteMaxStreams (fun _ t => G { c with st := t }) (WriteErr G c) env c.st := by
  rw [connWriteMaxStreams, wp_bind]
  refine wp_mono (writeMaxStreamsBidi_spec hG h hp) (fun _ t ht => ?_) fun _ _ h => h
  exact wp_mono (writeMaxStreamsUni_spec hG ht hp) (fun _ _ h => h) fun _ _ h => h.from

/-! ## Frames about credit -/

/-- The history has grown, and the loop over the queue is at the same stream. -/
def SamePass (st t : St) : Prop :=
  ∃ l, t.trace = st.trace ++ l ∧ ∀ e ∈ l, e.isStrmqTop = false

omit hG h in
/-- Nothing has happened. -/
theorem SamePass.refl (st : St) : SamePass st st := ⟨[], (List.append_nil _).symm, nofun⟩

omit hG h in
/-- One part of a pass after another. -/
theorem SamePass.trans {st t u : St} (h₁ : SamePass st t) (h₂ : SamePass t u) : SamePass st u := by
  obtain ⟨l₁, e₁, hl₁⟩ := h₁
  obtain ⟨l₂, e₂, hl₂⟩ := h₂
  refine ⟨l₁ ++ l₂, by rw [e₂, e₁, List.append_assoc], fun e he => ?_⟩
  exact (List.mem_append.1 he).elim (hl₁ e) (hl₂ e)

omit hG h in
/-- What has been scheduled since the loop came to the stream has been still. -/
theorem SamePass.overtaken {st t : St} (h : SamePass st t) (ho : Overtaken st.trace id) :
    Overtaken t.trace id := by
  obtain ⟨l, e, hl⟩ := h
  obtain ⟨reset, k, code, hk, hm⟩ := ho
  refine ⟨reset, k, code, hk, ?_⟩
  rw [e, since_append hl]
  exact List.mem_append_left _ hm

omit hG h in
/-- The history was undisturbed if it is. -/
theorem SamePass.undisturbed {st t : St} (h : SamePass st t) (hu : StopsUndisturbed t.trace) :
    StopsUndisturbed st.trace := by
  obtain ⟨l, e, -⟩ := h
  rw [e] at hu
  exact hu.of_append

/-- The streams and the queue are as they were. -/
structure Kept (st t : St) : Prop where
  strms : t.conn.strms = st.conn.strms
  strmq : t.conn.tx.strmq = st.conn.tx.strmq
  pass : SamePass st t

omit hG h in
/-- Nothing is written. -/
theorem Kept.refl (st : St) : Kept st st := ⟨rfl, rfl, .refl st⟩

/-- DATA_BLOCKED is written once for each limit. -/
theorem connWriteDataBlocked_spec (hp : c.pending = .idle) :
    wp connWriteDataBlocked (fun _ t => G { c with st := t } ∧ Kept c.st t)
      (fun e t => EncErr e ∧ t = c.st) env c.st := by
  have hflow := (hG.inv c h).flow
  simp only [connWriteDataBlocked, wp_bind, wp_get', wp_ite, wp_pure]
  split
  · exact ⟨h, .refl _⟩
  · next hn =>
    have hmax : c.conn.tx.offset = c.conn.tx.maxOffset :=
      Nat.le_antisymm hflow.txOffset (Nat.le_of_not_lt (not_or.1 hn).1)
    refine wp_assertThat_of hmax ?_
    refine wp_encodeFrame_of (fun q hq => ?_) fun e he => ⟨he, rfl⟩
    rw [wp_modifyConn]
    exact ⟨hG.step _ _ h (.txDataBlocked q hp hmax (not_or.1 hn).2 hq), rfl, rfl, _, rfl,
      by simp [Event.isStrmqTop]⟩

/-- The stream `id` is `s'` now; the others and the queue are as they were. -/
structure Wrote (st t : St) (id : ℕ) (s' : Strm) : Prop where
  find : ∀ k, t.conn.strms.find k = if k = id then some s' else st.conn.strms.find k
  strmq : t.conn.tx.strmq = st.conn.tx.strmq
  pass : SamePass st t

omit hG h in
/-- The stream is there still. -/
theorem Wrote.found {st t : St} (hw : Wrote st t id s') : t.conn.strms.find id = some s' := by
  rw [hw.find, if_pos rfl]

omit hG h in
/-- Nothing is written. -/
theorem Wrote.refl {st : St} (hf : st.conn.strms.find id = some s) : Wrote st st id s := by
  refine ⟨fun k => ?_, rfl, .refl st⟩
  split
  · next e => rw [e, hf]
  · rfl

omit hG h in
/-- A frame about the connection changes no stream. -/
theorem Kept.wrote {st t : St} (hk : Kept st t) (hf : st.conn.strms.find id = some s) :
    Wrote st t id s := by
  refine ⟨fun k => ?_, hk.strmq, hk.pass⟩
  rw [hk.strms]
  split
  · next e => rw [e, hf]
  · rfl

omit hG h in
/-- One frame of a stream after another. -/
theorem Wrote.trans {st t u : St} {s₁ s₂ : Strm} (h₁ : Wrote st t id s₁) (h₂ : Wrote t u id s₂) :
    Wrote st u id s₂ := by
  refine ⟨fun k => ?_, h₂.strmq.trans h₁.strmq, h₁.pass.trans h₂.pass⟩
  rw [h₂.find, h₁.find]
  split <;> rfl

omit hG h in
/-- Changing the object of a stream changes no other. -/
theorem Wrote.modify {st : St} (hf : st.conn.strms.find id = some s) (f : Strm → Strm) :
    Wrote st { st with conn.strms := st.conn.strms.modify id f } id (f s) := by
  refine ⟨fun k => ?_, rfl, [], (List.append_nil _).symm, nofun⟩
  rw [KeyMap.find_modify]
  split
  · next e => rw [e, hf, Option.map_some]
  · rfl

omit hG h in
/-- A frame is encoded. -/
theorem Wrote.encode {st : St} (hf : st.conn.strms.find id = some s) (q : Qre) (fr : Frame) :
    Wrote st { st with conn.tx.qre := q, trace := st.trace ++ [.txFr fr] } id s :=
  Kept.wrote ⟨rfl, rfl, [.txFr fr], rfl, by simp [Event.isStrmqTop]⟩ hf

/-- STREAM_DATA_BLOCKED is written once for each limit. -/
theorem connWriteStreamDataBlocked_spec (hp : c.pending = .idle)
    (hf : c.conn.strms.find id = some s) (hshut : env.Passive → s.flags.shutWr = false) :
    wp (connWriteStreamDataBlocked id)
      (fun _ t => G { c with st := t } ∧ ∃ s', Wrote c.st t id s' ∧ s'.flags = s.flags ∧
        s'.rx = s.rx)
      (fun e t => EncErr e ∧ t = c.st) env c.st := by
  have hI := hG.inv c h
  simp only [connWriteStreamDataBlocked, wp_bind, wp_deref hf, wp_ite, wp_pure]
  split
  · exact ⟨h, s, .refl hf, rfl, rfl⟩
  · next hn =>
    have hmax : s.tx.offset = s.tx.maxOffset :=
      Nat.le_antisymm (hI.strms id s hf).txOffset (Nat.le_of_not_lt (not_or.1 hn).1)
    refine wp_assertThat_of hmax ?_
    rw [hI.queue.streamId id s hf]
    refine wp_encodeFrame_of (fun q hq => ?_) fun e he => ⟨he, rfl⟩
    refine (wp_modifyStrm (s := s) (by exact hf) _).2
      ⟨?_, _, .trans (.encode hf q _) (.modify (by exact hf) _), rfl, rfl⟩
    exact hG.step _ _ h
      (.strm (.txStreamDataBlocked q hp hmax (not_or.1 hn).2 hshut hq) (.of_modify (by exact hf) _))

/-! ## The queue -/

omit hG h in
/-- Under `P`, the stream on top of the queue may be popped, as far as scheduled frames
    go. -/
def TopSent (P : Prop) (st : St) : Prop :=
  ∃ k a, st.conn.tx.strmq.q[0]? = some k ∧ st.conn.strms.find k = some a ∧
    (P → a.flags.sendResetStream = false ∧
      (a.flags.sendStopSending = true → a.flags.shutRd = true))

/-- Nothing has disturbed the queue so far, in the pass over the stream `id` either. -/
def PassUndisturbed (trace : List Event) (id : ℕ) : Prop :=
  StopsUndisturbed trace ∧ ¬Overtaken trace id

omit hG h in
/-- What was written of the stream no longer waits. -/
theorem TopSent.of_wrote {st t : St} (h : TopSent (PassUndisturbed st.trace id) st)
    (hf : st.conn.strms.find id = some s) (hw : Wrote st t id s')
    (hr : s'.flags.sendResetStream = s.flags.sendResetStream)
    (hs : s'.flags.sendStopSending = s.flags.sendStopSending)
    (hd : s'.flags.shutRd = s.flags.shutRd) : TopSent (PassUndisturbed t.trace id) t := by
  obtain ⟨k, a, hhead, hk, ha⟩ := h
  have hundisturbed (h : PassUndisturbed t.trace id) : PassUndisturbed st.trace id :=
    ⟨hw.pass.undisturbed h.1, fun ho => h.2 (hw.pass.overtaken ho)⟩
  by_cases e : k = id
  · subst e
    obtain rfl := Option.some.inj (hf.symm.trans hk)
    refine ⟨k, s', by rw [hw.strmq, hhead], hw.found, fun h => ?_⟩
    rw [hr, hs, hd]
    exact ha (hundisturbed h)
  · exact ⟨k, a, by rw [hw.strmq, hhead], by rw [hw.find, if_neg e, hk],
      fun h => ha (hundisturbed h)⟩

/-- The stream on top of the queue is popped. -/
theorem connTxStrmqPop_spec (htop : TopSent (StopsUndisturbed c.st.trace) c.st)
    (hquiet : env.Passive → ∃ k a, c.conn.tx.strmq.q[0]? = some k ∧
      c.conn.strms.find k = some a ∧ (a.shouldCloseStream = true ∨ a.NothingToSend)) :
    wp connTxStrmqPop (fun _ t => G { c with st := t } ∧ t.conn.strms = c.conn.strms)
      (fun _ _ => False) env c.st := by
  obtain ⟨k, a, hhead, hk, ha⟩ := htop
  rw [connTxStrmqPop, wp_bind, connTxStrmqTop, wp_bind, wp_get']
  split
  · next k' _ hq =>
    change c.conn.tx.strmq.q = _ at hq
    rw [hq] at hhead
    obtain rfl := Option.some.inj hhead
    have hhead : c.conn.tx.strmq.q[0]? = some k' := by rw [hq]; rfl
    rw [wp_pure, wp_bind, wp_deref hk, wp_modifyConn]
    refine ⟨hG.step _ _ h (.pop hhead hk (fun hp => ?_) ha), rfl⟩
    obtain ⟨k, b, hk', hb, hclose⟩ := hquiet hp
    obtain rfl := Option.some.inj (hhead.symm.trans hk')
    obtain rfl := Option.some.inj (hk.symm.trans hb)
    exact hclose
  · next hq =>
    change c.conn.tx.strmq.q = _ at hq
    rw [hq] at hhead
    cases hhead

/-- RESET_STREAM is written for the stream on top of the queue. -/
theorem writeResetStream_spec (hp : c.pending = .idle) (hhead : c.conn.tx.strmq.q[0]? = some id)
    (hf : c.conn.strms.find id = some s) :
    wp (writeResetStream id)
      (fun b t => G { c with st := t } ∧
        (b = false → ∃ s', Wrote c.st t id s' ∧ s'.flags.sendResetStream = false))
      (WriteErr G c) env c.st := by
  have hI := hG.inv c h
  simp only [writeResetStream, wp_bind, wp_deref hf, wp_ite, wp_pure]
  split
  · next hsend =>
    refine ⟨h, fun _ => ⟨s, .refl hf, by simpa using hsend⟩⟩
  -- The flag goes with the frame, and after it the stream may be at its end.
  next hsend =>
  rw [Bool.not_eq_true', Bool.not_eq_false] at hsend
  rw [hI.queue.streamId id s hf]
  refine wp_encodeFrame_of (fun q hq => ?_) fun e he => .enc h he
  refine (wp_modifyStrm (s := s) (by exact hf) _).2 ?_
  have hc := @Changes.of_modify { c.conn with tx.qre := q } id s hf fun s =>
    { s with flags.sendResetStream := false }
  have hstep := hG.step _ _ h (.strm (.txReset q hp hsend hq) hc)
  have hwrote := Wrote.trans (.encode hf q _)
    (@Wrote.modify id s { c.st with
      conn.tx.qre := q
      trace := c.st.trace ++ [.txFr (.resetStream
        ⟨id, s.tx.resetStreamAppErrorCode, s.tx.offset⟩)] }
      hf fun s => { s with flags.sendResetStream := false })
  rw [wp_deref hc.found']
  split
  · next hclose =>
    refine ⟨?_, fun _ => ⟨_, hwrote, rfl⟩⟩
    have hdone := hG.step _ _ hstep (.settle rfl fun a ha => ?_)
    · rw [← hp] at hdone
      exact hdone
    · obtain rfl := Option.some.inj (hc.found'.symm.trans ha)
      simpa using hclose
  · next hclose =>
    rw [Bool.not_eq_true', Bool.not_eq_false] at hclose
    have hshut : s.flags.shutRd = true := by
      simp only [Strm.shouldCloseStream, Bool.and_eq_true] at hclose
      exact hclose.1.1
    -- A stream at its end leaves the queue before it is closed.
    refine wp_mono (connTxStrmqPop_spec hG hstep ⟨id, _, hhead, hc.found', fun _ => ?_⟩
      fun _ => ⟨id, _, hhead, hc.found', .inl hclose⟩) ?_ fun _ _ h => h.elim
    · exact ⟨rfl, fun _ => hshut⟩
    · rintro _ t ⟨ht, hstrms⟩
      have hft : t.conn.strms.find id = some { s with flags.sendResetStream := false } :=
        hstrms ▸ hc.found'
      refine wp_mono (connCloseStream_spec hG ht rfl hft hclose) (fun _ t ht => ?_) ?_
      · rw [← hp] at ht
        exact ⟨ht, by simp⟩
      · rintro _ _ ⟨rfl, -⟩
        exact .callbackFailure

omit hG h in
/-- A frame of a stream before the one whose STOP_SENDING is written, scheduled by the
    callback. -/
theorem overtaken_of_scheduled {trace l : List Event} {k : ℕ} {reset : Bool}
    (hl : ∀ e ∈ l, e.ofApp = true) (hs : Scheduled l reset k) (hk : k ≤ id) :
    Overtaken (trace ++ l) id := by
  obtain ⟨code, hm⟩ := hs
  refine ⟨reset, k, code, hk, ?_⟩
  rw [since_append fun e he => ?_]
  · exact List.mem_append_right _ hm
  · have := hl e he
    cases e <;> simp_all [Event.ofApp, Event.isStrmqTop]

/-- What is on top of the queue after the callback of a STOP_SENDING: the stream still,
    or one whose frames the callback has scheduled. -/
theorem top_of_appRel {t : St} {l : List Event} {code : ℕ} (hq : t.conn.QueueOk)
    {left : ℕ} (hl : AppRel (c.log [.room left, .streamStopSending id code]).st t l)
    (hhead : c.conn.tx.strmq.q[0]? = some id) (hf : c.conn.strms.find id = some s)
    (hreset : s.flags.sendResetStream = false) :
    ∃ k a, t.conn.tx.strmq.q[0]? = some k ∧ t.conn.strms.find k = some a ∧
      (PassUndisturbed t.trace id → a.flags.sendResetStream = false ∧
        (k ≠ id → a.flags.sendStopSending = true → a.flags.shutRd = true)) := by
  obtain ⟨k, hk, hlt⟩ := hl.head id hhead
  obtain ⟨a, ha⟩ := hq.found k (List.mem_of_getElem? hk)
  have hle : k ≤ id := by
    rcases hlt with rfl | ⟨hlt, -⟩
    exacts [le_rfl, hlt.le]
  refine ⟨k, a, hk, ha, fun ⟨hu, ho⟩ => ?_⟩
  have htrace : t.trace = c.st.trace ++ [.room left] ++ [.streamStopSending id code] ++ l :=
    hl.trace.trans (by simp)
  have hu : StopsUndisturbed c.st.trace := by
    rw [htrace] at hu
    exact hu.of_append.of_append.of_append
  have hnot (reset : Bool) : ¬Scheduled l reset k := fun hs =>
    ho (htrace ▸ overtaken_of_scheduled hl.events hs hle)
  -- a stream that the callback has brought to the top was not queued before
  have hqueued (b : Strm) (hb : c.conn.strms.find k = some b) (hne : k ≠ id) : ¬b.Scheduled :=
    fun hs => (hlt.resolve_left hne).2 (hG.send c h hu k b hb hs)
  refine ⟨?_, fun hne hs => ?_⟩
  · by_contra hs
    rw [Bool.not_eq_false] at hs
    rcases hl.reset k a ha hs with ⟨b, hb, hs⟩ | hs
    · by_cases hne : k = id
      · subst hne
        obtain rfl := Option.some.inj (hf.symm.trans hb)
        simp [hreset] at hs
      · exact hqueued b hb hne (.inl hs)
    · exact hnot _ hs
  · by_contra hshut
    rw [Bool.not_eq_true] at hshut
    rcases hl.stop k a ha hs with ⟨b, hb, hs⟩ | hs
    · obtain ⟨a', ha', hba⟩ := hl.strms k b hb
      obtain rfl := Option.some.inj (ha.symm.trans ha')
      exact hqueued b hb hne (.inr ⟨hs, hba.shutRd ▸ hshut⟩)
    · exact hnot _ hs

/-- The STOP_SENDING frame is written, or dropped. The application has the chance to
    schedule frames that come before it in the queue. -/
theorem writeStopSending_spec (hp : c.pending = .idle) (hhead : c.conn.tx.strmq.q[0]? = some id)
    (hf : c.conn.strms.find id = some s) (hreset : s.flags.sendResetStream = false) :
    wp (writeStopSending id)
      (fun _ t => G { c with st := t } ∧ TopSent (PassUndisturbed t.trace id) t ∧
        ∃ s', t.conn.strms.find id = some s' ∧
          (env.Passive → Wrote c.st t id s' ∧ s'.flags.sendResetStream = false ∧
            s'.flags.sendStopSending = false))
      (WriteErr G c) env c.st := by
  have hI := hG.inv c h
  simp only [writeStopSending, wp_bind, wp_deref hf, wp_when]
  split
  · next hsend =>
    split
    · next hshut =>
      rw [Bool.not_eq_true'] at hshut
      rw [hI.queue.streamId id s hf]
      refine wp_mono (announce_spec hG (hG.step _ _ h (.announceStop hp hf hsend hshut))) ?_
        fun _ _ h => h
      rintro _ t ⟨ht, ⟨l, hl⟩, hquiet⟩
      have hIt := hG.inv _ ht
      obtain ⟨b, hb, hab⟩ := hl.strms id s hf
      obtain ⟨-, hcode⟩ := hab.stopCode ((hI.strms id s hf).sendStopSending hsend)
      obtain ⟨k, a, hk, ha, htop⟩ := top_of_appRel hG h hIt.queue hl hhead hf hreset
      -- the callback has left the code alone
      rw [← hcode] at ht
      rw [wp_deref hb, hIt.queue.streamId id b hb]
      refine wp_encodeFrame_announced hG hp ht rfl (fun _ => rfl) (List.append_nil _) fun q hq => ?_
      refine (wp_modifyStrm (s := b) (by exact hb) _).2 ?_
      have hc := @Changes.of_modify { t.conn with tx.qre := q } id b hb fun s =>
        { s with flags.sendStopSending := false }
      have hstep := hG.step _ _ ht (.strm (.txStop q rfl (hab.sendStop' hsend)
        (hab.shutRd.trans hshut) hq) hc)
      rw [← hp] at hstep
      have hsame : SamePass t { t with trace := t.trace ++
          [.txFr (.stopSending ⟨id, b.tx.stopSendingAppErrorCode⟩)] } :=
        ⟨_, rfl, by simp [Event.isStrmqTop]⟩
      have htop' (hu : PassUndisturbed (t.trace ++
          [.txFr (.stopSending ⟨id, b.tx.stopSendingAppErrorCode⟩)]) id) :=
        htop ⟨hsame.undisturbed hu.1, fun ho => hu.2 (hsame.overtaken ho)⟩
      refine ⟨hstep, ?_, _, hc.found', fun hpass => ?_⟩
      · by_cases e : k = id
        · subst e
          obtain rfl := Option.some.inj (ha.symm.trans hb)
          exact ⟨k, _, hk, hc.found', fun hu => ⟨(htop' hu).1, by simp⟩⟩
        · exact ⟨k, a, hk, (hc.find_of_ne e).trans ha, fun hu => ⟨(htop' hu).1, (htop' hu).2 e⟩⟩
      · have hquiet := hquiet hpass
        subst hquiet
        obtain rfl := Option.some.inj (hf.symm.trans hb)
        refine ⟨?_, hreset, rfl⟩
        have hcall : Wrote c.st (c.log [.room c.conn.tx.qre.left,
            .streamStopSending id s.tx.stopSendingAppErrorCode]).st id s :=
          Kept.wrote ⟨rfl, rfl, _, rfl, by simp [Event.isStrmqTop]⟩ hf
        exact hcall.trans (.trans (.encode hb q _) (.modify (by exact hb) _))
    · next hshut =>
      rw [Bool.not_eq_true', Bool.not_eq_false] at hshut
      refine (wp_modifyStrm hf _).2 ?_
      have hc := Changes.of_modify hf fun s => { s with flags.sendStopSending := false }
      exact ⟨hG.step _ _ h (.strm (.clearStop hp hshut) hc),
        ⟨id, _, hhead, hc.found', fun _ => ⟨hreset, by simp⟩⟩, _, hc.found',
        fun _ => ⟨.modify hf _, hreset, rfl⟩⟩
  · next hsend =>
    rw [Bool.not_eq_true] at hsend
    exact ⟨h, ⟨id, s, hhead, hf, fun _ => ⟨hreset, by simp [hsend]⟩⟩, s, hf,
      fun _ => ⟨.refl hf, hreset, hsend⟩⟩

/-- MAX_STREAM_DATA is written if it is due, and no longer due then. -/
theorem writeMaxStreamData_spec (hp : c.pending = .idle) (hf : c.conn.strms.find id = some s)
    (huni : c.conn.localParams.UniBounded) :
    wp (writeMaxStreamData id)
      (fun _ t => G { c with st := t } ∧ ∃ s', Wrote c.st t id s' ∧ s'.flags = s.flags ∧
        (s'.flags.shutRd = true ∨ s'.flags.stopSending = true ∨ s'.shouldSendMaxStreamData = false))
      (WriteErr G c) env c.st := by
  have hI := hG.inv c h
  simp only [writeMaxStreamData, wp_bind, wp_deref hf, wp_when]
  split
  · next hsend =>
    obtain ⟨hshut, hstop, hsend⟩ := hsend
    rw [Bool.not_eq_true'] at hshut hstop
    rw [hI.queue.streamId id s hf]
    refine wp_encodeFrame_of (fun q hq => ?_) fun e he => .enc h he
    refine (wp_modifyStrm (s := s) (by exact hf) _).2 ?_
    have hc := @Changes.of_modify { c.conn with tx.qre := q } id s hf fun s =>
      { s with rx.maxOffset := s.rx.unsentMaxOffset }
    refine ⟨hG.step _ _ h (.strm (.txMaxStreamData q hp hshut hstop hsend huni hq) hc), _,
      .trans (.encode hf q _) (.modify (by exact hf) _), rfl, .inr (.inr ?_)⟩
    exact Strm.shouldSendMaxStreamData_of_eq rfl
      (((hI.strms id s hf).unsentMaxOffset huni).trans (by decide))
  · next hn =>
    refine ⟨h, s, .refl hf, rfl, ?_⟩
    by_contra hn'
    obtain ⟨h1, h2⟩ := not_or.1 hn'
    obtain ⟨h2, h3⟩ := not_or.1 h2
    exact hn ⟨by simpa using h1, by simpa using h2, by simpa using h3⟩

/-- STREAM_DATA_BLOCKED is written if it is due, and no longer due then. -/
theorem writeStreamDataBlocked_spec (hp : c.pending = .idle) (hf : c.conn.strms.find id = some s) :
    wp (writeStreamDataBlocked id)
      (fun _ t => G { c with st := t } ∧ ∃ s', Wrote c.st t id s' ∧
        s'.flags = { s.flags with sendStreamDataBlocked := false } ∧ s'.rx = s.rx)
      (WriteErr G c) env c.st := by
  simp only [writeStreamDataBlocked, wp_bind, wp_deref hf, wp_when]
  have hclear {t : St} {b : Strm} (ht : G { c with st := t }) (hw : Wrote c.st t id b)
      (hflags : b.flags = s.flags) (hrx : b.rx = s.rx) :
      wp (modifyStrm id fun s => { s with flags.sendStreamDataBlocked := false })
        (fun _ t => G { c with st := t } ∧ ∃ s', Wrote c.st t id s' ∧
          s'.flags = { s.flags with sendStreamDataBlocked := false } ∧ s'.rx = s.rx)
        (WriteErr G c) env t := by
    have hb := hw.found
    refine (wp_modifyStrm hb _).2 ⟨?_, _, hw.trans (.modify hb _), ?_, hrx⟩
    · exact hG.step _ _ ht (.strm .clearBlocked (.of_modify hb _))
    · rw [hflags]
  split
  · split
    · next hshut =>
      rw [Bool.not_eq_true'] at hshut
      refine wp_mono (connWriteDataBlocked_spec hG h hp) ?_ fun e t he => he.2 ▸ .enc h he.1
      rintro _ t ⟨ht, hk⟩
      have hf' := hk.strms ▸ hf
      refine wp_mono (connWriteStreamDataBlocked_spec (c := { c with st := t }) hG ht hp hf'
        fun _ => hshut) ?_ fun e t he => he.2 ▸ .enc ht he.1
      rintro _ t' ⟨ht', b, hb, hflags, hrx⟩
      exact hclear ht' ((hk.wrote hf).trans hb) hflags hrx
    · exact hclear h (.refl hf) rfl rfl
  · next hsend =>
    rw [Bool.not_eq_true] at hsend
    refine ⟨h, s, .refl hf, ?_, rfl⟩
    rw [← hsend]

/-- One pass over the stream on top of the queue. -/
theorem writeStrmqTop_spec (huni : ∀ c, G c → c.conn.localParams.UniBounded)
    (hp : c.pending = .idle) (hne : c.conn.tx.strmq.q ≠ []) :
    wp writeStrmqTop (fun _ t => G { c with st := t }) (WriteErr G c) env c.st := by
  have hI := hG.inv c h
  obtain ⟨id, hhead⟩ : ∃ id, c.conn.tx.strmq.q[0]? = some id := by
    cases hq : c.conn.tx.strmq.q with
    | nil => exact absurd hq hne
    | cons id q => exact ⟨id, rfl⟩
  obtain ⟨s, hf⟩ := hI.queue.found id (List.mem_of_getElem? hhead)
  -- The assertion of `dwnx_conn_tx_strmq_top` holds, as the queue is not empty.
  have htop : wp connTxStrmqTop (fun k t => k = id ∧ t = c.st) (fun _ _ => False) env c.st := by
    rw [connTxStrmqTop, wp_bind, wp_get']
    split
    · next k _ hq =>
      change c.conn.tx.strmq.q = _ at hq
      rw [hq] at hhead
      exact ⟨Option.some.inj hhead, rfl⟩
    · next hq => exact hne hq
  rw [writeStrmqTop, wp_bind]
  refine wp_mono htop ?_ fun _ _ h => h.elim
  rintro id _ ⟨rfl, rfl⟩
  rw [wp_bind, wp_emit, wp_bind]
  have h₀ := hG.step _ _ h (.event (.strmqTop id) trivial (by simp [hp]) (by rintro _ ⟨⟩))
  refine wp_mono (writeResetStream_spec hG h₀ hp hhead hf) ?_ fun _ _ h => h.from
  rintro closed t ⟨ht, hopen⟩
  rw [wp_ite]
  -- A stream that was closed has left the queue already.
  cases closed with
  | true => exact ht
  | false =>
  obtain ⟨s₁, hw₁, hreset⟩ := hopen rfl
  have hhead₁ : t.conn.tx.strmq.q[0]? = some id := hw₁.strmq ▸ hhead
  rw [if_neg (by simp), wp_bind]
  refine wp_mono (writeStopSending_spec (c := { c with st := t }) hG ht hp hhead₁ hw₁.found hreset)
    ?_ fun _ _ h => h.from
  rintro _ t₂ ⟨ht₂, htop, s₂, hf₂, hquiet⟩
  rw [wp_bind]
  refine wp_mono (writeMaxStreamData_spec (c := { c with st := t₂ }) hG ht₂ hp hf₂ (huni _ ht₂)) ?_
    fun _ _ h => h.from
  rintro _ t₃ ⟨ht₃, s₃, hw₃, hflags₃, hmsd⟩
  rw [wp_bind]
  refine wp_mono (writeStreamDataBlocked_spec (c := { c with st := t₃ }) hG ht₃ hp hw₃.found) ?_
    fun _ _ h => h.from
  rintro _ t₄ ⟨ht₄, s₄, hw₄, hflags₄, hrx₄⟩
  have hw := hw₃.trans hw₄
  have hflags : s₄.flags = { s₂.flags with sendStreamDataBlocked := false } := by
    rw [hflags₄, hflags₃]
  obtain ⟨k, a, hk, ha, htop₄⟩ : TopSent (PassUndisturbed t₄.trace id) t₄ :=
    htop.of_wrote hf₂ hw (by rw [hflags]) (by rw [hflags]) (by rw [hflags])
  rw [wp_bind, wp_emit]
  have h₅ := hG.step _ _ ht₄ (.event (.strmqPop id) trivial (by simp [hp]) (by rintro _ ⟨⟩))
  -- What the callback of STOP_SENDING scheduled may be on top by now: the event of the pop
  -- tells whether it is lost.
  refine wp_mono (connTxStrmqPop_spec hG h₅ ⟨k, a, hk, ha, fun hu => htop₄ ?_⟩ fun hpass => ?_)
    (fun _ _ ht => ht.1) fun _ _ h => h.elim
  · exact ⟨hu.of_append, (along_concat.1 hu).2 id rfl⟩
  obtain ⟨hw₂, hr₂, hs₂⟩ := hquiet hpass
  have hmsd₄ : s₄.flags.shutRd = true ∨ s₄.flags.stopSending = true ∨
      s₄.shouldSendMaxStreamData = false := by
    rw [Strm.shouldSendMaxStreamData, hrx₄, hflags₄]
    exact hmsd
  -- All that the stream waited for has been written, if the callback did nothing.
  refine ⟨id, s₄, ?_, hw.found, .inr ⟨?_, ?_, ?_, hmsd₄⟩⟩
  · change t₄.conn.tx.strmq.q[0]? = some id
    rw [hw.strmq, hw₂.strmq]
    exact hhead₁
  · rw [hflags]
    exact hr₂
  · rw [hflags]
    exact hs₂
  · rw [hflags]

/-- The queue is written until it is empty or the record full. -/
theorem writeStrmq_spec (huni : ∀ c, G c → c.conn.localParams.UniBounded)
    (hp : c.pending = .idle) (n : ℕ) :
    wp (writeStrmq n) (fun _ t => G { c with st := t }) (WriteErr G c) env c.st := by
  induction n generalizing c with
  | zero =>
    simp only [writeStrmq, wp_bind, wp_get', wp_ite, wp_throw, wp_pure]
    split
    · exact ⟨nofun, nofun, nofun, nofun⟩
    · exact h
  | succ n ih =>
    simp only [writeStrmq, wp_bind, wp_get', wp_ite, wp_pure]
    split
    · exact h
    · next hne =>
      refine wp_mono (writeStrmqTop_spec hG h huni hp hne) (fun _ t ht => ?_) fun _ _ h => h
      exact wp_mono (ih (c := { c with st := t }) ht hp) (fun _ _ h => h) fun _ _ h => h.from

/-- The control frames are written in their order, each from a configuration to the next. -/
theorem connWriteCtrlFrames_spec (huni : ∀ c, G c → c.conn.localParams.UniBounded)
    (hp : c.pending = .idle) :
    wp connWriteCtrlFrames (fun _ t => G { c with st := t }) (WriteErr G c) env c.st := by
  rw [connWriteCtrlFrames, wp_bind]
  refine wp_mono (writeMaxData_spec hG h hp) (fun _ t ht => ?_) fun _ _ h => h
  rw [wp_bind]
  refine wp_mono (writeQxPing_spec (c := { c with st := t }) hG ht hp) (fun _ t ht => ?_)
    fun _ _ h => h.from
  simp only [wp_bind, wp_read, wp_get']
  refine wp_mono (writeStrmq_spec (c := { c with st := t }) hG ht huni hp _) (fun _ t ht => ?_)
    fun _ _ h => h.from
  exact wp_mono (connWriteMaxStreams_spec (c := { c with st := t }) hG ht hp) (fun _ _ h => h)
    fun _ _ h => h.from

/-! ## Messages -/

/-- The frames about the credit of a stream are written, or left for later. -/
theorem writeBlocked_spec (hp : c.pending = .idle) (hf : c.conn.strms.find id = some s)
    (hshut : env.Passive → s.flags.shutWr = false) :
    wp (writeBlocked id)
      (fun _ t => G { c with st := t } ∧ ∃ s', t.conn.strms.find id = some s')
      (fun e t => WriteErr G c e t ∧ e.isBenign = false) env c.st := by
  rw [writeBlocked, wp_tryCatch]
  -- A frame that does not fit is put off: the stream is queued for it.
  have hlater {e : Err} {t : St} (he : EncErr e) (ht : G { c with st := t }) {b : Strm}
      (hb : t.conn.strms.find id = some b) :
      wp (do
        if e.isFault then throw e
        assertThat .nobuf (e = .nobuf)
        modifyStrm id fun s => { s with flags.sendStreamDataBlocked := true }
        connTxStrmqPushIfNot id)
        (fun _ t => G { c with st := t } ∧ ∃ s', t.conn.strms.find id = some s')
        (fun e t => WriteErr G c e t ∧ e.isBenign = false) env t := by
    rw [wp_ite]
    split
    · next hfault =>
      refine ⟨.enc ht he, ?_⟩
      rcases he with rfl | rfl | rfl <;> first | rfl | cases hfault
    · next hfault =>
      have he : e = .nobuf := by rcases he with rfl | rfl | rfl <;> simp [Err.isFault] at hfault ⊢
      rw [wp_bind]
      refine wp_assertThat_of he ?_
      rw [wp_bind]
      refine wp_modifyStrm_of hb fun conn₁ h₁ => ?_
      refine wp_connTxStrmqPushIfNot (h₁.queueOk (hG.inv _ ht).queue rfl rfl) h₁.found'
        (fun conn₂ h₂ => ?_) fun _ _ => ⟨.nomem, rfl⟩
      have hc := h₁.trans h₂
      exact ⟨hG.step _ _ ht (.strm .setBlocked hc), _, hc.found'⟩
  rw [wp_bind]
  refine wp_mono (connWriteDataBlocked_spec hG h hp) ?_ ?_
  · rintro _ t ⟨ht, hk⟩
    have hf' := hk.strms ▸ hf
    refine wp_mono (connWriteStreamDataBlocked_spec (c := { c with st := t }) hG ht hp hf' hshut)
      ?_ ?_
    · rintro _ t' ⟨ht', b, hb, -⟩
      exact ⟨ht', b, hb.found⟩
    · rintro e _ ⟨he, rfl⟩
      exact hlater he ht hf'
  · rintro e _ ⟨he, rfl⟩
    exact hlater he h hf

/-- Without credit, only its lack is told. -/
theorem writeStreamNoCredit_spec (hp : c.pending = .idle) (hf : c.conn.strms.find id = some s)
    (hshut : env.Passive → s.flags.shutWr = false) :
    wp (writeStreamNoCredit id) (fun _ t => G { c with st := t }) (WriteErr G c) env c.st := by
  rw [writeStreamNoCredit, wp_bind]
  refine wp_mono (writeBlocked_spec hG h hp hf hshut) ?_ fun _ _ h => h.1
  rintro _ t ⟨ht, b, hb⟩
  rw [wp_bind, wp_deref hb, wp_ite]
  split
  · exact .of_benign ht rfl
  · exact ht

omit hG h in
/-- No more data is written than there is. -/
theorem Qre.streamMaxDatalen_spec (qre : Qre) (streamId offset len : ℕ) :
    (∃ r, qre.streamMaxDatalen streamId offset len = .ok r ∧ ∀ n, r = some n → n ≤ len) ∨
      ∃ e, qre.streamMaxDatalen streamId offset len = .error e ∧
        (EncErr e ∨ e = .fault (.assertion .recordLeft)) := by
  have hrest (n : ℕ) : ∀ x : Except Err (Option ℕ), x = (do
        if qre.left > defaultMaxRecordSize then throw (.fault (.assertion .recordLeft))
        if qre.left ≤ n then return none
        let left := qre.left - n
        if left > 2 + 63 ∧ len > 63 then return some (min (min len 16383) (left - 2))
        return some (min (min len 63) (left - 1))) →
      (∃ r, x = .ok r ∧ ∀ n, r = some n → n ≤ len) ∨
        ∃ e, x = .error e ∧ (EncErr e ∨ e = .fault (.assertion .recordLeft)) := by
    rintro x rfl
    dsimp only
    split
    · exact .inr ⟨_, rfl, .inr rfl⟩
    refine .inl ?_
    split
    · exact ⟨none, rfl, nofun⟩
    split
    · refine ⟨some _, rfl, fun n hn => ?_⟩
      obtain rfl := Option.some.inj hn
      omega
    · refine ⟨some _, rfl, fun n hn => ?_⟩
      obtain rfl := Option.some.inj hn
      omega
  unfold streamMaxDatalen
  cases h₁ : putUvarintlen streamId with
  | error e => exact .inr ⟨e, rfl, .inl (putUvarintlen_err h₁)⟩
  | ok a =>
    by_cases ho : offset = 0
    · simp only [ho, if_true]
      exact hrest _ _ rfl
    · simp only [ho, if_false]
      cases h₂ : putUvarintlen offset with
      | error e => exact .inr ⟨e, rfl, .inl (putUvarintlen_err h₂)⟩
      | ok b => exact hrest _ _ rfl

omit hG h in
/-- No more is written than the limits allow. -/
theorem enforceFlowControl_le {conn : Conn} {closed : List Strm} (hflow : conn.FlowOk closed)
    (hs : s.Ok conn id) (len : ℕ) :
    conn.enforceFlowControl s len ≤ len ∧
      s.tx.offset + conn.enforceFlowControl s len ≤ s.tx.maxOffset ∧
      conn.tx.offset + conn.enforceFlowControl s len ≤ conn.tx.maxOffset := by
  have hvar : maxVarint < 2 ^ 62 := by decide
  have h1 := hs.txOffset
  have h2 := hs.txMaxOffset
  have h3 := hflow.txOffset
  have h4 := hflow.txMaxOffset
  unfold Conn.enforceFlowControl
  rw [sub64_eq h1 (by omega), sub64_eq h3 (by omega)]
  omega

/-- A STREAM frame is written, its offset told, and the data accounted for. -/
theorem writeStreamData_spec {finFlag : Bool} {datav : Vecs} {ndatalen wdatalen : ℕ}
    (hp : c.pending = .idle) (hw : c.writing = some id) (hf : c.conn.strms.find id = some s)
    (hshut : env.Passive → s.flags.shutWr = false)
    (hresets : ResetsInTime c.st.trace → s.flags.shutWr = false)
    (hlen : wdatalen ≤ ndatalen)
    (hn : ndatalen = c.conn.enforceFlowControl s datav.flatten.length) :
    wp (writeStreamData id finFlag datav ndatalen wdatalen)
      (fun _ t => ∃ w, G { c with st := t, writing := w, unaccepted := none })
      (WriteErr G c) env c.st := by
  have hI := hG.inv c h
  obtain ⟨hle, hstrm, hconn⟩ := enforceFlowControl_le hI.flow (hI.strms id s hf)
    datav.flatten.length
  rw [← hn] at hle hstrm hconn
  have hvar : maxVarint < 2 ^ 62 := by decide
  have hmax := (hI.strms id s hf).txMaxOffset
  have hcmax := hI.flow.txMaxOffset
  have hsid := hI.queue.streamId id s hf
  rw [writeStreamData]
  dsimp only
  rw [wp_bind, wp_deref hf]
  generalize hfin : (finFlag && datav.flatten.length == wdatalen) = fin
  rw [wp_bind, wp_tryCatch, hsid]
  refine wp_encodeFrame_of (fun q hq => ?_) fun e he => ?_
  -- The frame is encoded, and its acceptance is still to be told.
  · have hsent := hG.step _ _ h
      (.txStream q _ hp hw hf rfl rfl (hlen.trans hle) (by dsimp only; omega)
      (by dsimp only; omega) hshut hresets hq)
    dsimp only at hsent
    generalize hdata : datav.flatten.take wdatalen = data at hsent ⊢
    -- Either way of going on ends with the data told as accepted.
    have hend {t : St} {w : Option ℕ}
        (ht : G { c with st := t, writing := w, unaccepted := some (id, data, fin) }) :
        ∃ w, G { c with
          st := { t with trace := t.trace ++ [.accepted id data fin], pdatalen := some wdatalen }
          writing := w
          unaccepted := none } :=
      ⟨w, hG.step _ _ (hG.step _ _ ht (.accepted hp rfl)) (.outputs (some wdatalen) t.paccepted)⟩
    rw [wp_bind]
    refine wp_mono (streamCallback_spec hG hsent trivial rfl hf nofun nofun) ?_ ?_
    · rintro _ t ⟨ht, ⟨b, hb, l', hab⟩, ⟨l, hl⟩, hquiet⟩
      -- The callback may have changed the stream, but neither its offset nor its limit,
      -- so the sums below do not overflow.
      have hoffset : add64 b.tx.offset wdatalen = b.tx.offset + wdatalen := by
        rw [hab.txOffset]
        exact add64_eq (by omega)
      have hconnOffset : t.conn.tx.offset = c.conn.tx.offset := by
        rw [hl.conn]
        rfl
      have hadd : add64 t.conn.tx.offset wdatalen = t.conn.tx.offset + wdatalen := by
        rw [hconnOffset]
        exact add64_eq (by omega)
      have hstrm' : b.tx.offset + wdatalen ≤ b.tx.maxOffset := by
        rw [hab.txOffset, hab.txMaxOffset]
        omega
      have hconn' : t.conn.tx.offset + wdatalen ≤ t.conn.tx.maxOffset := by
        have hmax : t.conn.tx.maxOffset = c.conn.tx.maxOffset := by
          rw [hl.conn]
          rfl
        rw [hconnOffset, hmax]
        omega
      rw [wp_bind]
      refine wp_modifyStrm_of hb fun conn₁ h₁ => ?_
      rw [hoffset] at h₁
      have hadd₁ : add64 conn₁.tx.offset wdatalen = t.conn.tx.offset + wdatalen := by
        rw [h₁.rest]
        exact hadd
      have hbase : Changes { t.conn with tx.offset := t.conn.tx.offset + wdatalen }
          { conn₁ with tx.offset := t.conn.tx.offset + wdatalen } id b
          { b with flags.anySent := true, tx.offset := b.tx.offset + wdatalen } false :=
        h₁.congr rfl rfl rfl rfl (by conv_lhs => rw [h₁.rest])
      rw [wp_bind, wp_modifyConn, hadd₁]
      -- With FIN the stream may go, and without it it may be blocked.
      cases fin with
      | true =>
        rw [if_pos rfl, wp_bind]
        refine wp_modifyStrm_of hbase.found' fun conn₂ h₂ => ?_
        rw [wp_bind]
        have hc := hbase.trans h₂
        have hstep := hG.step _ _ ht (@Step.strm _ _ { c with
          st := { t with conn.tx.offset := t.conn.tx.offset + wdatalen }
          pending := .shut id
          writing := none
          unaccepted := some (id, data, true) } id b
          { b with
            flags.anySent := true
            flags.shutWr := b.flags.shutWr || true
            tx.offset := b.tx.offset + wdatalen } _ _
          (.recordSent wdatalen true rfl hstrm' hconn') (by rw [Bool.or_true]; exact hc))
        refine wp_mono (connCloseStreamIfShutRdwr_spec hG hstep rfl hc.found') (fun _ t ht => ?_) ?_
        · rw [← hp] at ht
          exact hend ht
        · rintro _ _ ⟨rfl, -⟩
          exact .callbackFailure
      | false =>
        rw [if_neg (by simp), wp_bind, wp_when]
        have hstep := hG.step _ _ ht (@Step.strm _ _ { c with
          st := { t with conn.tx.offset := t.conn.tx.offset + wdatalen }
          pending := .idle
          unaccepted := some (id, data, false) } id b
          { b with
            flags.anySent := true
            flags.shutWr := b.flags.shutWr || false
            tx.offset := b.tx.offset + wdatalen } _ _
          (.recordSent wdatalen false rfl hstrm' hconn') (by rw [Bool.or_false]; exact hbase))
        split
        · refine wp_mono (writeBlocked_spec hG hstep rfl hbase.found' fun hpass => ?_)
            (fun _ t ht => ?_) ?_
          · rw [hquiet hpass] at hb
            obtain rfl := Option.some.inj (hf.symm.trans hb)
            exact hshut hpass
          · have ht := ht.1
            rw [← hp] at ht
            exact hend ht
          · rintro e t ⟨he, hbenign⟩
            exact { he with benign := fun hb => by simp [hbenign] at hb }
        · rw [← hp] at hstep
          exact hend hstep
    · rintro _ _ ⟨rfl, -⟩
      exact .callbackFailure
  -- The room was computed before, so a frame that does not fit is a fault.
  · rw [wp_throw]
    refine ⟨?_, ?_, ?_, ?_⟩ <;> rcases he with rfl | rfl | rfl <;> simp [Err.isFault, Err.isBenign]

/-- A STREAM frame is written, or refused for lack of credit or of room. The stream was
    looked up before the control frames, whose callbacks may have closed it. -/
theorem connWriteStreamFrame_spec {finFlag : Bool} {datav : Vecs} (hp : c.pending = .idle)
    (hw : c.writing = some id) (hu : c.unaccepted = none) :
    wp (connWriteStreamFrame id finFlag datav)
      (fun _ t => ∃ w, G { c with st := t, writing := w }) (WriteErr G c) env c.st := by
  have hwrite := hG.write c h id hw
  rw [connWriteStreamFrame, wp_bind, wp_emit]
  have h₁ := hG.step _ _ h (.event (.writeStreamFrame id) trivial (by simp [hp]) (by rintro _ ⟨⟩))
  have hresets (hr : ResetsInTime (c.st.trace ++ [.writeStreamFrame id])) :
      ¬LateReset c.st.trace id := ((along_concat.1 hr).2.1 id rfl)
  dsimp only
  rw [wp_bind]
  cases hf : c.conn.strms.find id with
  | none =>
    -- the stream was closed by a callback
    have hlate := (hwrite.resolve_left (by rintro ⟨s, hs, -⟩; cases hf.symm.trans hs)).2
    simp only [deref, wp_bind, wp_get', Conn.findStream, hf, wp_throw]
    exact ⟨by rintro ⟨⟩, by rintro ⟨⟩, by rintro ⟨⟩, fun _ hr => hresets hr hlate⟩
  | some s =>
  have hquiet (hpass : env.Passive) : s.flags.shutWr = false := by
    rcases hwrite with ⟨s', hs', hshut⟩ | ⟨hn, -⟩
    · obtain rfl := Option.some.inj (hf.symm.trans hs')
      exact hshut
    · exact absurd hpass hn
  have hshut (hr : ResetsInTime (c.st.trace ++ [.writeStreamFrame id])) :
      s.flags.shutWr = false := by
    rcases hwrite with ⟨s', hs', hshut⟩ | ⟨-, hlate⟩
    · obtain rfl := Option.some.inj (hf.symm.trans hs')
      exact hshut
    · exact absurd hlate (hresets hr)
  refine (wp_deref (s := s) (by exact hf)).2 ?_
  rw [wp_bind, wp_get', wp_ite]
  have hsame {t : St} (ht : G { c with st := t }) : ∃ w, G { c with st := t, writing := w } :=
    ⟨c.writing, ht⟩
  split
  · exact wp_mono (writeStreamNoCredit_spec hG h₁ hp hf hquiet) (fun _ _ ht => hsame ht)
      fun _ _ h => { h with benign := h.benign }
  · rw [wp_bind, wp_ofExcept]
    rcases c.st.conn.tx.qre.streamMaxDatalen_spec s.streamId s.tx.offset
      (c.st.conn.enforceFlowControl s datav.flatten.length) with ⟨r, hr, hle⟩ | ⟨e, he, herr⟩
    · rw [hr]
      cases r with
      | none => exact .of_benign h₁ rfl
      | some wdatalen =>
        dsimp only
        rw [wp_ite]
        split
        · exact .of_benign h₁ rfl
        · refine wp_mono (writeStreamData_spec hG h₁ hp hw hf hquiet hshut (hle _ rfl) rfl)
            (fun _ _ ht => ?_) fun _ _ h => { h with benign := h.benign }
          obtain ⟨w, ht⟩ := ht
          rw [← hu] at ht
          exact ⟨w, ht⟩
    · rw [he]
      refine ⟨?_, ?_, ?_, ?_⟩ <;> rcases herr with (rfl | rfl | rfl) | rfl <;>
        simp [Err.isBenign]
      exact h₁

/-- A DATAGRAM frame is written if there is room. -/
theorem connWriteDatagramFrame_spec (hp : c.pending = .idle) (datav : Vecs) :
    wp (connWriteDatagramFrame datav) (fun _ t => G { c with st := t }) (WriteErr G c)
      env c.st := by
  rw [connWriteDatagramFrame, wp_bind]
  refine wp_encodeFrame_of (fun q hq => ?_) fun e he => .enc h he
  rw [wp_modify]
  exact hG.step _ _ (hG.step _ _ h (.txDatagram q _ hp rfl hq)) (.outputs c.st.pdatalen true)

omit hG h in
/-- Lack of room is no failure, but ends the record. -/
theorem isNobuf_spec {x : M Unit} {P : St → Prop} {st : St}
    (hx : wp x (fun _ t => P t) (WriteErr G c) env st) :
    wp (isNobuf x) (fun b t => (b = false → P t) ∧ (b = true → G { c with st := t }))
      (WriteErr G c) env st := by
  rw [isNobuf, wp_tryCatch, wp_bind]
  refine wp_mono hx (fun _ t ht => ⟨fun _ => ht, nofun⟩) fun e t he => ?_
  rw [wp_ite]
  split
  · next hn =>
    subst hn
    exact ⟨nofun, fun _ => he.benign rfl⟩
  · exact he

/-- The message may be written: for a stream, it is the one announced. -/
def Ready (c : Cfg) : Option Vmsg → Prop
  | some (.stream strm _ _) => c.writing = some strm
  | _ => True

/-- The frame of a message, whichever it is. -/
theorem writeVmsg_frame {vmsg : Vmsg} (hp : c.pending = .idle) (hu : c.unaccepted = none)
    (hready : Ready c (some vmsg)) :
    wp (match vmsg with
      | .stream strm finFlag data => connWriteStreamFrame strm finFlag data
      | .datagram data => connWriteDatagramFrame data)
      (fun _ t => G { c with st := t, writing := none })
      (WriteErr G { c with writing := none }) env c.st := by
  have hdone {t : St} {w : Option ℕ} (ht : G { c with st := t, writing := w }) :
      G { c with st := t, writing := none } := hG.step _ _ ht (.endWrite hp)
  cases vmsg with
  | stream strm finFlag data =>
    refine wp_mono (connWriteStreamFrame_spec hG h hp hready hu) ?_
      fun e t he => { he with benign := fun hb => hdone (w := c.writing) (he.benign hb) }
    rintro _ t ⟨w, ht⟩
    exact hdone ht
  | datagram data =>
    exact wp_mono (connWriteDatagramFrame_spec hG h hp data)
      (fun _ t ht => hdone (w := c.writing) ht)
      fun e t he => { he with benign := fun hb => hdone (w := c.writing) (he.benign hb) }

/-- The message is written, whichever it is. -/
theorem writeVmsg_spec {vmsg : Vmsg} (hp : c.pending = .idle) (hu : c.unaccepted = none)
    (hready : Ready c (some vmsg)) :
    wp (writeVmsg vmsg) (fun _ t => G { c with st := t, writing := none })
      (WriteErr G { c with writing := none }) env c.st := by
  rw [writeVmsg.eq_def, wp_bind]
  refine wp_mono (isNobuf_spec (writeVmsg_frame hG h hp hu hready)) ?_ fun _ _ h => h
  rintro nobuf t ⟨hok, hnobuf⟩
  rw [wp_when]
  cases nobuf with
  | true => exact hnobuf rfl
  | false =>
    rw [if_pos (by rfl), wp_bind, wp_get', wp_ite]
    split
    · exact .of_benign (hok rfl) rfl
    · exact hok rfl

/-! ## Records -/

/-- A record is started, on the first one with the transport parameters. -/
theorem startRecord_spec {destlen : ℕ} (hp : c.pending = .idle)
    (hs : c.conn.tx.qre.started = false) :
    wp (startRecord destlen) (fun _ t => G { c with st := t }) (WriteErr G c) env c.st := by
  rw [startRecord, wp_bind, wp_ofExcept]
  cases hq : Qre.start destlen with
  | error e =>
    obtain rfl := Qre.start_err hq
    exact ⟨nofun, nofun, nofun, nofun⟩
  | ok q =>
    have hframes := Qre.start_frames hq
    have hstart := hG.step _ _ h (.start hp hs hq)
    have hctrl {t : St} (ht : G { c with st := t }) (huni : t.conn.localParams.UniBounded) :
        wp (isNobuf connWriteCtrlFrames) (fun _ t => G { c with st := t }) (WriteErr G c)
          env t := by
      refine wp_mono (isNobuf_spec (c := { c with st := t })
        (connWriteCtrlFrames_spec (c := { c with st := t }) hG.uniBounded ⟨ht, huni⟩
          (fun _ h => h.2) hp)) ?_
        fun _ _ h => { h with benign := fun hb => (h.benign hb).1 }
      rintro b t' ⟨hok, hnobuf⟩
      cases b
      exacts [(hok rfl).1, (hnobuf rfl).1]
    dsimp only
    rw [wp_bind, wp_modifyConn, wp_bind, wp_get', wp_bind, wp_when]
    split
    · rw [wp_bind, wp_tryCatch, connWriteTransportParams, wp_bind, wp_get']
      refine wp_encodeFrame_of (fun q' hq' => ?_) fun e he => ?_
      · rw [wp_modifyConn]
        have huni := uniBounded_of_encodeFrame hq'
        exact hctrl (hG.step _ _ hstart (.txParams q' hp huni hq')) huni
      · rw [wp_bind, wp_modifyConn, wp_throw]
        exact .enc (hG.step _ _ hstart (.abandon hp hframes)) he
    · next hsent => exact hctrl hstart ((hG.inv c h).phase.sent (by simpa using hsent))

/-- The record is finished, and its bytes returned. -/
theorem finalRecord_spec (hp : c.pending = .idle) (ts : ℕ) :
    wp (finalRecord ts) (fun r t => G { c with st := t, out := c.out ++ r }) (WriteErr G c) env
      c.st := by
  rw [finalRecord, wp_bind, wp_get', wp_bind, wp_ofExcept]
  cases hq : c.st.conn.tx.qre.final with
  | error e =>
    obtain rfl := Qre.final_err hq
    exact ⟨nofun, nofun, nofun, nofun⟩
  | ok record =>
    have hfin := hG.step _ _ h (.finish hp hq)
    dsimp only
    rw [wp_bind, wp_modifyConn, wp_bind, wp_when]
    split
    · exact hG.step _ _ hfin (.idleTime ts)
    · exact hfin

/-- The rest of a record that is started: the message, if there was room so far. -/
theorem connWriteVmsg_rest {ts : ℕ} {vmsg : Option Vmsg} (nobuf : Bool) (hp : c.pending = .idle)
    (hu : c.unaccepted = none) (hready : Ready c vmsg) :
    wp (do
      match vmsg with
        | none => pure ()
        | some vmsg => Exec.when (!nobuf) (writeVmsg vmsg)
      let _ ← isNobuf connWriteMaxStreams
      finalRecord ts) (fun r t => G { c with st := t, writing := none, out := c.out ++ r })
      (WriteErr G { c with writing := none }) env c.st := by
  have hdone : G { c with writing := none } := hG.step _ _ h (.endWrite hp)
  have hfinal {t : St} (ht : G { c with st := t, writing := none }) :
      wp (do
        let _ ← isNobuf connWriteMaxStreams
        finalRecord ts) (fun r t => G { c with st := t, writing := none, out := c.out ++ r })
        (WriteErr G { c with writing := none }) env t := by
    rw [wp_bind]
    refine wp_mono (isNobuf_spec (connWriteMaxStreams_spec hG ht hp)) ?_ fun _ _ h => h.from
    rintro b t' ⟨hok, hnobuf⟩
    have ht' : G { c with st := t', writing := none } := by
      cases b
      exacts [hok rfl, hnobuf rfl]
    exact wp_mono (finalRecord_spec hG ht' hp ts) (fun _ _ h => h) fun _ _ h => h.from
  cases vmsg with
  | none => exact hfinal hdone
  | some vmsg =>
    dsimp only
    rw [wp_bind, wp_when]
    split
    · exact wp_mono (writeVmsg_spec hG h hp hu hready) (fun _ _ ht => hfinal ht)
        fun _ _ h => h.from
    · exact hfinal hdone

/-- A record is written, from its start to its end. -/
theorem connWriteVmsg_spec {destlen ts : ℕ} {vmsg : Option Vmsg} (hp : c.pending = .idle)
    (hu : c.unaccepted = none) (hready : Ready c vmsg) :
    wp (connWriteVmsg destlen vmsg ts)
      (fun r t => G { c with st := t, writing := none, out := c.out ++ r })
      (WriteErr G { c with writing := none }) env c.st := by
  have hdone {t : St} (ht : G { c with st := t }) : G { c with st := t, writing := none } :=
    hG.step _ _ ht (.endWrite hp)
  have herr {e : Err} {t : St} (he : WriteErr G c e t) :
      WriteErr G { c with writing := none } e t :=
    { he with benign := fun hb => hdone (he.benign hb) }
  rw [connWriteVmsg, wp_ite]
  split
  · exact .of_benign (hdone h) rfl
  rw [wp_bind, wp_get', wp_ite]
  split
  · exact connWriteVmsg_rest hG h false hp hu hready
  · next hs =>
    rw [wp_bind]
    exact wp_mono (startRecord_spec hG h hp (by simpa using hs))
      (fun b _ ht => wp_mono (connWriteVmsg_rest hG ht b hp hu hready) (fun _ _ h => h)
        fun _ _ h => h.from) fun _ _ h => herr h

end

/-! ## Calls -/

/-- How a call that writes may fail: between calls, if the error is benign. -/
abbrev CallErr (G : Cfg → Prop) (c : Cfg) : Err → St → Prop := WriteErr G { c with writing := none }

section

variable (hG : Timed env.Passive G) (h : G c)

include hG h

/-- Time goes on. -/
theorem connUpdateTimestamp_spec (ts : ℕ) :
    wp (connUpdateTimestamp ts) (fun _ t => G { c with st := t } ∧ t.trace = c.st.trace ∧
      t.conn = { c.conn with lastTs := ts } ∧ c.conn.lastTs ≤ ts)
      (fun e _ => e = .fault (.assertion .timestamp) ∧ ¬c.conn.lastTs ≤ ts) env c.st := by
  rw [connUpdateTimestamp, wp_bind, wp_get', wp_bind, wp_assertThat]
  split
  · next hts => exact ⟨hG.time _ _ h (.time hts), rfl, rfl, hts⟩
  · next hts => exact ⟨rfl, hts⟩

omit hG h in
/-- The stream of a message may be written to. -/
theorem streamVmsg_spec {finFlag : Bool} {datav : Vecs} {st : St} :
    wp (streamVmsg id finFlag datav)
      (fun vmsg t => t = st ∧ (vmsg = none ∨ vmsg = some (.stream id finFlag datav) ∧
        ∃ s, st.conn.strms.find id = some s ∧ s.flags.shutWr = false))
      (fun e t => t = st ∧ e.isFault = false) env st := by
  rw [streamVmsg, wp_bind, wp_get']
  dsimp only
  cases hf : st.conn.findStream id with
  | none => exact ⟨rfl, rfl⟩
  | some s =>
    dsimp only
    rw [wp_ite]
    split
    · exact ⟨rfl, rfl⟩
    next hshut =>
    cases vecLenVarint datav with
    | none => exact ⟨rfl, rfl⟩
    | some datalen =>
      dsimp only
      rw [wp_ite]
      split
      · exact ⟨rfl, .inl rfl⟩
      rw [wp_ite]
      split
      · exact ⟨rfl, rfl⟩
      · exact ⟨rfl, .inr ⟨rfl, s, hf, by simpa using hshut⟩⟩

/-- `dwnx_conn_writev_stream` takes steps from a configuration to another. -/
theorem connWritevStream_spec {destlen ts : ℕ} {finFlag : Bool} {streamId : ℕ} {datav : Vecs}
    (hp : c.pending = .idle) (hu : c.unaccepted = none) :
    wp (connWritevStream destlen finFlag streamId datav ts)
      (fun r t => G { c with st := t, writing := none, out := c.out ++ r }) (CallErr G c) env
      c.st := by
  have h₀ := hG.step _ _ h (.beginCall streamId hp)
  rw [connWritevStream, wp_bind, wp_emit, wp_bind]
  refine wp_mono (connUpdateTimestamp_spec hG h₀ ts) ?_ ?_
  · rintro _ t ⟨ht, htrace, -⟩
    have h₁ := hG.step _ _ ht (.outputs none t.paccepted)
    rw [wp_bind, wp_modify, wp_ite]
    have hrest {vmsg : Option Vmsg} {w : Option ℕ}
        (h₂ : G { c with st := { t with pdatalen := none }, writing := w })
        (hready : Ready { c with writing := w } vmsg) :
        wp (connWriteVmsg destlen vmsg ts)
          (fun r t => G { c with st := t, writing := none, out := c.out ++ r }) (CallErr G c) env
          { t with pdatalen := none } :=
      wp_mono (connWriteVmsg_spec hG.toClosed h₂ hp hu hready) (fun _ _ h => h)
        fun _ _ h => { h with benign := h.benign }
    split
    · exact hrest h₁ trivial
    · rw [wp_bind]
      refine wp_mono streamVmsg_spec ?_ ?_
      · rintro vmsg _ ⟨rfl, rfl | ⟨rfl, s, hf, hshut⟩⟩
        · exact hrest h₁ trivial
        · refine hrest (w := some streamId) (hG.step _ _ h₁ ?_) rfl
          exact .beginWrite hp htrace hf hshut
      · rintro e _ ⟨rfl, hfault⟩
        exact .of_benign h₁ hfault
  · rintro _ _ ⟨rfl, -⟩
    exact ⟨nofun, nofun, nofun, nofun⟩

/-- `dwnx_conn_write_record` is the same without a message. -/
theorem connWriteRecord_spec {destlen ts : ℕ} (hp : c.pending = .idle) (hu : c.unaccepted = none) :
    wp (connWriteRecord destlen ts)
      (fun r t => G { c with st := t, writing := none, out := c.out ++ r }) (CallErr G c) env
      c.st := connWritevStream_spec hG h hp hu

/-- `dwnx_conn_writev_datagram` is the same with a datagram. -/
theorem connWritevDatagram_spec {destlen ts : ℕ} {datav : Vecs} (hp : c.pending = .idle)
    (hw : c.writing = none) (hu : c.unaccepted = none) :
    wp (connWritevDatagram destlen datav ts)
      (fun r t => G { c with st := t, writing := none, out := c.out ++ r }) (CallErr G c) env
      c.st := by
  have h₀ := hG.step _ _ h (.event .writeDatagram trivial (by simp [hp]) nofun)
  rw [connWritevDatagram, wp_bind, wp_emit, wp_bind]
  refine wp_mono (connUpdateTimestamp_spec hG h₀ ts) ?_ ?_
  · rintro _ t ⟨ht, -⟩
    have h₁ := hG.step _ _ ht (.outputs t.pdatalen false)
    have hbenign {e : Err} (hf : e.isFault = false) :
        CallErr G c e { t with paccepted := false } := by
      refine .of_benign ?_ hf
      rw [← hw]
      exact h₁
    rw [wp_bind, wp_modify, wp_bind, wp_get', wp_ite]
    split
    · exact hbenign rfl
    cases vecLenVarint datav with
    | none => exact hbenign rfl
    | some datalen =>
    dsimp only
    rw [wp_bind, wp_ofExcept]
    split
    · rw [wp_ite]
      split
      · exact hbenign rfl
      · exact wp_mono (connWriteVmsg_spec hG.toClosed h₁ hp hu trivial) (fun _ _ h => h)
          fun _ _ h => { h with benign := h.benign }
    · next e he =>
      have he : EncErr e := bind_err (fun _ => putUvarintlen_err) (fun _ _ _ h => by cases h) he
      rcases he with rfl | rfl | rfl
      · exact hbenign rfl
      all_goals exact ⟨nofun, nofun, nofun, nofun⟩
  · rintro _ _ ⟨rfl, -⟩
    exact ⟨nofun, nofun, nofun, nofun⟩

end

end Dwnx
