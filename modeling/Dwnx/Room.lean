import Dwnx.Accounting

/-!
# The room for the data of a stream

`dwnx_qre_stream_max_datalen` tells how many bytes of a stream a record still takes.

* `streamMaxDatalen_exact`: it tells so exactly, and the encoding that relies on
  it does not fail.
-/

namespace Dwnx

open Exec

variable {env : Env} {id : ℕ} {qre : Qre} {streamId offset n : ℕ}

/-! ## Frames that fit -/

/-- The encoder has room for `n` bytes of a stream at an offset, whatever they are. -/
def Qre.Takes (qre : Qre) (streamId offset n : ℕ) : Prop :=
  ∀ flags fin (data : Vecs), n ≤ data.flatten.length →
    ∃ qre', qre.encodeFrame (.stream ⟨flags, fin, streamId, offset, n, data⟩) = .ok qre'

/-- The encoder has no room for `n` bytes of a stream at an offset, whatever they are. -/
def Qre.Refuses (qre : Qre) (streamId offset n : ℕ) : Prop :=
  ∀ flags fin (data : Vecs), n ≤ data.flatten.length →
    ∀ qre', qre.encodeFrame (.stream ⟨flags, fin, streamId, offset, n, data⟩) ≠ .ok qre'

/-- A STREAM frame with fields in range can be encoded. -/
theorem encodable_stream {flags : ℕ} {fin : Bool} {data : Vecs} (hid : streamId ≤ maxVarint)
    (hoffset : offset ≤ maxVarint) (hn : n ≤ maxVarint) (hdata : n ≤ data.flatten.length) :
    (Frame.stream ⟨flags, fin, streamId, offset, n, data⟩).Encodable := by
  refine ⟨fun v hv => ?_, hdata⟩
  have htype (fr : FrameStream) : fr.typeByte ≤ maxVarint := by
    unfold FrameStream.typeByte
    split <;> split <;> decide
  simp only [Frame.varints, List.mem_append, List.mem_cons, List.not_mem_nil, or_false] at hv
  rcases hv with ((rfl | rfl) | hv) | rfl
  · exact htype _
  · exact hid
  · split at hv
    · cases hv
    · obtain rfl := List.mem_singleton.1 hv
      exact hoffset
  · exact hn

/-- There is room for the frame with `n` bytes of data. -/
theorem Qre.takes_of_le (hid : streamId ≤ maxVarint) (hoffset : offset ≤ maxVarint)
    (hn : n ≤ maxVarint)
    (hroom : streamHeaderLen streamId offset + uvarintLen n + n ≤ qre.left) :
    qre.Takes streamId offset n := by
  intro flags fin data hdata
  refine ⟨_, encodeFrame_iff.2 ⟨encodable_stream hid hoffset hn hdata, ?_, rfl⟩⟩
  rwa [length_wire_stream hdata]

/-- There is no room for it. -/
theorem Qre.refuses_of_lt
    (hroom : qre.left < streamHeaderLen streamId offset + uvarintLen n + n) :
    qre.Refuses streamId offset n := by
  intro flags fin data hdata qre' h
  have hlen := (encodeFrame_iff.1 h).2.1
  rw [length_wire_stream hdata] at hlen
  exact absurd hlen (Nat.not_le_of_lt hroom)

/-- It is never both. -/
theorem Qre.Takes.not_refuses (h : qre.Takes streamId offset n) :
    ¬qre.Refuses streamId offset n := by
  intro hr
  have hdata : n ≤ ([List.replicate n 0] : Vecs).flatten.length := by
    rw [List.flatten_singleton, List.length_replicate]
  obtain ⟨qre', hqre⟩ := h 0 false [List.replicate n 0] hdata
  exact hr 0 false _ hdata qre' hqre

/-! ## The marker -/

section
variable {α : Type}

instance : IsPreorder St fun _ _ => True where
  refl _ := trivial
  trans _ _ _ _ _ := trivial

/-- A computation that does not come to the unreachable marker, wherever it starts. -/
abbrev Avoids (env : Env) (x : M α) : Prop :=
  Moves (fun _ _ => True) (· ≠ .fault .unreachable) env x

/-- An update does not fail. -/
theorem avoids_modify (f : St → St) : Avoids env (modify f) := fun _ => trivial

/-- Nor does one of the connection. -/
theorem avoids_modifyConn (f : Conn → Conn) : Avoids env (modifyConn f) := fun _ => trivial

/-- Logging does not fail. -/
theorem avoids_emit (e : Event) : Avoids env (emit e) := fun _ => trivial

/-- A stream that is looked up may be gone, which is another fault. -/
theorem avoids_deref : Avoids env (deref id) := by
  refine Moves.bind .get fun st => ?_
  split
  exacts [.pure _, .throw nofun]

/-- The same with a stream that is changed. -/
theorem avoids_modifyStrm (f : Strm → Strm) : Avoids env (modifyStrm id f) :=
  Moves.bind avoids_deref fun _ => avoids_modifyConn _

/-- Allocating may only run out of memory. -/
theorem avoids_alloc (a : Alloc) : Avoids env (alloc a) :=
  Moves.bind .read fun _ => Moves.bind .get fun _ => .ite (.throw nofun) (.pure _)

/-- An assertion that fails is another fault. -/
theorem avoids_assertThat (a : Assertion) (p : Prop) [Decidable p] :
    Avoids env (assertThat a p) := .ite (.pure _) (.throw nofun)

/-- A frame that does not fit is no such failure. -/
theorem EncErr.avoids {e : Err} (h : EncErr e) : e ≠ .fault .unreachable := by
  rcases h with rfl | rfl | rfl
  all_goals exact nofun

/-- Encoding fails for want of room, or by another fault. -/
theorem avoids_encodeFrame (fr : Frame) : Avoids env (encodeFrame fr) :=
  Moves.bind .get fun _ => Moves.bind (.ofExcept fun _ he => (Qre.encodeFrame_err he).avoids)
    fun _ => Moves.bind (avoids_modifyConn _) fun _ => avoids_emit _

end

/-- Putting a stream into the queue. -/
theorem avoids_connTxStrmqPushIfNot : Avoids env (connTxStrmqPushIfNot id) := by
  refine Moves.bind avoids_deref fun _ => Moves.bind .get fun _ => .ite (.pure _) ?_
  refine Moves.bind (Moves.bind .get fun _ => ?_) fun _ => ?_
  · split
    exacts [Moves.bind avoids_deref fun _ => .pure _, .pure _]
  · exact Moves.bind (avoids_modifyStrm _) fun _ => Moves.bind (avoids_alloc _) fun _ =>
      avoids_modifyConn _

/-! ## The marker in the calls of the application -/

/-- Creating a stream. -/
theorem avoids_connCreateStream : Avoids env (connCreateStream id) :=
  Moves.bind (avoids_alloc _) fun _ => Moves.bind (avoids_alloc _) fun _ => Moves.bind .get fun _ =>
    Moves.bind (avoids_assertThat _ _) fun _ => avoids_modifyConn _

/-- Opening a bidirectional stream. -/
theorem avoids_connOpenBidiStream : Avoids env connOpenBidiStream :=
  Moves.bind .get fun _ => .ite (.throw nofun) <| Moves.bind .get fun _ =>
    Moves.bind avoids_connCreateStream fun _ => Moves.bind (avoids_modifyConn _) fun _ => .pure _

/-- Opening a unidirectional stream. -/
theorem avoids_connOpenUniStream : Avoids env connOpenUniStream :=
  Moves.bind .get fun _ => .ite (.throw nofun) <| Moves.bind .get fun _ =>
    Moves.bind avoids_connCreateStream fun _ => Moves.bind (avoids_modifyConn _) fun _ => .pure _

/-- Resetting a stream. -/
theorem avoids_shutdownStreamWrite (appErrorCode : ℕ) :
    Avoids env (shutdownStreamWrite id appErrorCode) :=
  Moves.bind avoids_deref fun _ => .ite (.pure _) <| Moves.bind (avoids_modifyStrm _) fun _ =>
    Moves.bind (avoids_modifyStrm _) fun _ => Moves.bind (avoids_emit _) fun _ =>
      avoids_connTxStrmqPushIfNot

/-- Stopping the peer. -/
theorem avoids_shutdownStreamRead (appErrorCode : ℕ) :
    Avoids env (shutdownStreamRead id appErrorCode) :=
  Moves.bind avoids_deref fun _ => .ite (.pure _) <| Moves.bind (avoids_modifyStrm _) fun _ =>
    Moves.bind (avoids_modifyStrm _) fun _ => Moves.bind (avoids_emit _) fun _ =>
      avoids_connTxStrmqPushIfNot

/-- Granting credit for a stream. -/
theorem avoids_connExtendMaxStreamOffset (datalen : ℕ) :
    Avoids env (connExtendMaxStreamOffset id datalen) :=
  Moves.bind .get fun _ => .ite (.throw nofun) <| .ite (.pure _) <|
    Moves.bind (avoids_modifyStrm _) fun _ => Moves.bind avoids_deref fun _ =>
      .when avoids_connTxStrmqPushIfNot

/-- So no call of the application fails so. -/
theorem avoids_connApply (call : AppCall) : Avoids env (connApply call) := by
  cases call with
  | openBidiStream => exact Moves.bind avoids_connOpenBidiStream fun _ => avoids_emit _
  | openUniStream => exact Moves.bind avoids_connOpenUniStream fun _ => avoids_emit _
  | shutdownStream streamId appErrorCode =>
    exact Moves.bind .get fun _ => .ite (.pure _) <|
      Moves.bind (.when (avoids_shutdownStreamRead _)) fun _ => .when (avoids_shutdownStreamWrite _)
  | shutdownStreamWrite streamId appErrorCode =>
    exact Moves.bind .get fun _ => .ite (.throw nofun) <| .ite (.pure _)
      (avoids_shutdownStreamWrite _)
  | shutdownStreamRead streamId appErrorCode =>
    exact Moves.bind .get fun _ => .ite (.throw nofun) <| .ite (.pure _)
      (avoids_shutdownStreamRead _)
  | extendMaxStreamOffset streamId datalen => exact avoids_connExtendMaxStreamOffset _
  | extendMaxOffset datalen => exact Moves.bind (avoids_emit _) fun _ => avoids_modifyConn _
  | extendMaxStreamsBidi n => exact Moves.bind (avoids_emit _) fun _ => avoids_modifyConn _
  | extendMaxStreamsUni n => exact Moves.bind (avoids_emit _) fun _ => avoids_modifyConn _

/-- Nor a callback, with the calls it makes. -/
theorem avoids_callback (e : Event) : Avoids env (callback e) := by
  have hwithin (call : AppCall) : Avoids env (connApplyWithin call) :=
    .tryCatch (avoids_connApply call) fun _ he =>
      .ite (.throw he) (.ite (.throw nofun) (.pure _))
  have hcalls (calls : List AppCall) : Avoids env (calls.forM connApplyWithin) := by
    induction calls with
    | nil => exact .pure _
    | cons call calls ih => exact Moves.bind (hwithin call) fun _ => ih
  exact Moves.bind .read fun _ => Moves.bind .get fun _ => Moves.bind (avoids_emit _) fun _ =>
    Moves.bind (hcalls _) fun _ => .ite (.throw nofun) (.pure _)

/-! ## The marker in the writing of a frame -/

/-- Closing a stream. -/
theorem avoids_connCloseStream : Avoids env (connCloseStream id) := by
  refine Moves.bind avoids_deref fun _ => Moves.bind (avoids_callback _) fun _ => ?_
  refine Moves.bind avoids_deref fun _ => Moves.bind (avoids_modify _) fun _ => ?_
  refine Moves.bind .get fun _ => Moves.bind (avoids_modifyConn _) fun _ => ?_
  split
  · exact .pure _
  · exact Moves.bind (avoids_assertThat _ _) fun _ => avoids_modifyConn _

/-- Noting that a stream is blocked. -/
theorem avoids_writeBlocked : Avoids env (writeBlocked id) := by
  have hconn : Avoids env connWriteDataBlocked :=
    Moves.bind .get fun _ => .ite (.pure _) <| Moves.bind (avoids_assertThat _ _) fun _ =>
      Moves.bind (avoids_encodeFrame _) fun _ => avoids_modifyConn _
  have hstrm : Avoids env (connWriteStreamDataBlocked id) :=
    Moves.bind avoids_deref fun _ => .ite (.pure _) <| Moves.bind (avoids_assertThat _ _) fun _ =>
      Moves.bind (avoids_encodeFrame _) fun _ => avoids_modifyStrm _
  refine .tryCatch (Moves.bind hconn fun _ => hstrm) fun e he => .ite (.throw he) ?_
  exact Moves.bind (avoids_assertThat _ _) fun _ => Moves.bind (avoids_modifyStrm _) fun _ =>
    avoids_connTxStrmqPushIfNot

/-- What comes after the encoding. -/
theorem avoids_afterFrame {s : Strm} {fin : Bool} {datav : Vecs} {ndatalen k : ℕ} :
    Avoids env (do
      callback (.writeStreamDataOffset s.streamId s.tx.offset k)
      modifyStrm id fun s => { s with
        flags.anySent := true
        tx.offset := add64 s.tx.offset k }
      modifyConn fun conn => { conn with tx.offset := add64 conn.tx.offset k }
      if fin then do
        modifyStrm id fun s => { s with flags.shutWr := true }
        connCloseStreamIfShutRdwr id
      else Exec.when (ndatalen < datav.flatten.length) (writeBlocked id)
      emit (.accepted id (datav.flatten.take k) fin)
      modify fun st => { st with pdatalen := some k }) := by
  have hend : Avoids env (do
      emit (.accepted id (datav.flatten.take k) fin)
      modify fun st => { st with pdatalen := some k }) :=
    Moves.bind (avoids_emit _) fun _ => avoids_modify _
  refine Moves.bind (avoids_callback _) fun _ => Moves.bind (avoids_modifyStrm _) fun _ => ?_
  refine Moves.bind (avoids_modifyConn _) fun _ => ?_
  dsimp only
  refine .ite (Moves.bind (avoids_modifyStrm _) fun _ => ?_)
    (Moves.bind (.when avoids_writeBlocked) fun _ => hend)
  exact Moves.bind (Moves.bind avoids_deref fun _ => .ite (.pure _) avoids_connCloseStream)
    fun _ => hend

/-- The encoder has room for as much as it said. -/
theorem Qre.takes_of_streamMaxDatalen {len k : ℕ}
    (h : qre.streamMaxDatalen streamId offset len = .ok (some k)) :
    k ≤ len ∧ qre.Takes streamId offset k := by
  obtain ⟨hid, hoffset, hleft⟩ := le_of_streamMaxDatalen h
  obtain ⟨r, hr, -, hk⟩ := streamMaxDatalen_eq len hid hoffset hleft
  obtain ⟨⟨hle, hroom⟩, -⟩ := hk k (Except.ok.inj (hr.symm.trans h))
  have hdef : defaultMaxRecordSize ≤ maxVarint := by decide
  exact ⟨hle, takes_of_le hid hoffset (by omega) hroom⟩

/-- An encoding for which there is room does not come to the marker. -/
theorem wp_writeStreamData_avoids {st : St} {s : Strm} {finFlag : Bool} {datav : Vecs}
    {ndatalen k : ℕ} (hf : st.conn.strms.find id = some s) (hk : k ≤ datav.flatten.length)
    (htakes : st.conn.tx.qre.Takes s.streamId s.tx.offset k) :
    wp (writeStreamData id finFlag datav ndatalen k) (fun _ _ => True)
      (fun e _ => e ≠ .fault .unreachable) env st := by
  obtain ⟨qre', hqre⟩ := htakes (FrameType.streamLenBit +
    (if s.tx.offset = 0 then 0 else FrameType.streamOffBit) +
      (if finFlag && datav.flatten.length == k then FrameType.streamFinBit else 0))
    (finFlag && datav.flatten.length == k) datav hk
  rw [writeStreamData]
  dsimp only
  rw [wp_bind, wp_deref hf, wp_bind, wp_tryCatch, encodeFrame, wp_bind, wp_get', wp_bind,
    wp_ofExcept, hqre]
  dsimp only
  rw [wp_bind, wp_modifyConn, wp_emit]
  exact wp_mono (avoids_afterFrame _) (fun _ _ _ => trivial) fun _ _ he => he.2

/-- Writing the STREAM frame, whose data is not longer than there is room for. -/
theorem avoids_connWriteStreamFrame (finFlag : Bool) (datav : Vecs) :
    Avoids env (connWriteStreamFrame id finFlag datav) := by
  refine Moves.bind (avoids_emit _) fun _ => ?_
  intro st
  dsimp only
  cases hf : st.conn.strms.find id with
  | none =>
    simp only [deref, wp_bind, wp_get', Conn.findStream, hf, wp_throw]
    exact ⟨trivial, by simp⟩
  | some s =>
  rw [wp_bind, wp_deref hf, wp_bind, wp_get', wp_ite]
  split
  · refine (Moves.bind avoids_writeBlocked fun _ => ?_ : Avoids env (writeStreamNoCredit id)) st
    exact Moves.bind avoids_deref fun _ => .ite (.throw (by simp)) (.pure _)
  rw [wp_bind, wp_ofExcept]
  split
  · next r hr =>
    cases r with
    | none => exact ⟨trivial, by simp⟩
    | some k =>
    dsimp only
    rw [wp_ite]
    split
    · exact ⟨trivial, by simp⟩
    obtain ⟨hle, htakes⟩ := Qre.takes_of_streamMaxDatalen hr
    have hk : k ≤ datav.flatten.length := hle.trans (Nat.min_le_left _ _)
    exact wp_mono (wp_writeStreamData_avoids hf hk htakes) (fun _ _ _ => trivial)
      fun _ _ he => ⟨trivial, he⟩
  · next e he =>
    refine ⟨trivial, ?_⟩
    rcases Qre.streamMaxDatalen_spec st.conn.tx.qre s.streamId s.tx.offset
      (st.conn.enforceFlowControl s datav.flatten.length) with ⟨r, hr, -⟩ | ⟨e', he', herr⟩
    · cases he.symm.trans hr
    · obtain rfl := Except.error.inj (he.symm.trans he')
      rcases herr with herr | rfl
      exacts [herr.avoids, by simp]

/-! ## The room is exact -/

/-- The encoder knows the greatest number of bytes, up to a length, that it takes, and
    refuses more; and with as many bytes the encoding does not fail. -/
theorem streamMaxDatalen_exact (hleft : qre.left ≤ defaultMaxRecordSize)
    (hid : streamId ≤ maxVarint) (hoffset : offset ≤ maxVarint) :
    (∀ len, ∃ r, qre.streamMaxDatalen streamId offset len = .ok r ∧
      (r = none ↔ qre.Refuses streamId offset 0) ∧
      ∀ k, r = some k → k ≤ len ∧ qre.Takes streamId offset k ∧
        ∀ n, k < n → n ≤ len → qre.Refuses streamId offset n) ∧
    ∀ env st id finFlag datav t,
      connWriteStreamFrame id finFlag datav env st ≠ (.error (.fault .unreachable), t) := by
  refine ⟨fun len => ?_, fun env st id finFlag datav t h => ?_⟩
  · obtain ⟨r, hr, hnone, hsome⟩ := streamMaxDatalen_eq len hid hoffset hleft
    refine ⟨r, hr, ⟨fun h => Qre.refuses_of_lt ?_, fun h => ?_⟩, fun k hk => ?_⟩
    · exact Nat.lt_succ_of_le (hnone h)
    · by_contra hr
      obtain ⟨k, hk⟩ := Option.ne_none_iff_exists'.1 hr
      obtain ⟨⟨-, hroom⟩, -⟩ := hsome k hk
      have hmono : uvarintLen 0 ≤ uvarintLen k := uvarintLen_mono (Nat.zero_le k)
      exact (Qre.takes_of_le hid hoffset (Nat.zero_le _) (by omega)).not_refuses h
    · obtain ⟨hle, htakes⟩ := Qre.takes_of_streamMaxDatalen (hk ▸ hr)
      refine ⟨hle, htakes, fun n hlt hn => Qre.refuses_of_lt ?_⟩
      by_contra hroom
      exact absurd ((hsome k hk).2 ⟨hn, Nat.le_of_not_lt hroom⟩) (Nat.not_le_of_lt hlt)
  · exact ((avoids_connWriteStreamFrame finFlag datav st).of_error h).2 rfl

/-- A record of nine bytes has room for four bytes of the first data of stream 4. -/
theorem streamMaxDatalen_exact_three : (⟨true, 9, []⟩ : Qre).streamMaxDatalen 4 0 8 = .ok (some 4) ∧
    (⟨true, 9, []⟩ : Qre).Takes 4 0 4 := by
  have h := (streamMaxDatalen_exact (show Qre.left ⟨true, 9, []⟩ ≤ _ by decide)
    (show 4 ≤ maxVarint by decide)
    (Nat.zero_le _)).1 8
  obtain ⟨r, hr, -, hk⟩ := h
  have hr' : (⟨true, 9, []⟩ : Qre).streamMaxDatalen 4 0 8 = .ok (some 4) := rfl
  exact ⟨hr', (hk 4 (Except.ok.inj (hr.symm.trans hr'))).2.1⟩

end Dwnx
