import Dwnx.Lts.Inv

/-!
# No step breaks the invariant

Every part of the invariant is kept by every step. A step of one stream is taken
apart by `Changes`: what holds of the other streams is left, and what holds of the
stream itself is kept by `StrmStep`.

* `Step.inv`: the invariant is kept by every step, labelled or not.
-/

namespace Dwnx

variable {quiet : Prop} {c c' : Cfg} {id : ℕ} {s s' : Strm} {pushed : Bool} {l : Label}

/-! ## Steps of one stream -/

/-- What a step of one stream leaves of the connection for `Changes` to describe. -/
theorem StrmStep.frame (h : StrmStep quiet c id s s' pushed c') :
    c'.conn = { c.conn with
      rx.offset := c'.conn.rx.offset
      tx.offset := c'.conn.tx.offset
      tx.qre := c'.conn.tx.qre } := by
  cases h <;> rfl

/-- A step of a stream changes neither its identifier nor its cycle. -/
theorem StrmStep.frame_strm (h : StrmStep quiet c id s s' pushed c') :
    s'.streamId = s.streamId ∧ s'.cycle = s.cycle := by
  cases h <;> subst_vars <;> exact ⟨rfl, rfl⟩

/-- The side and the local parameters are all that matters of the connection. -/
theorem Strm.Ok.congr {conn conn' : Conn} (h : s.Ok conn id) (hs : conn'.server = conn.server)
    (hp : conn'.localParams = conn.localParams) : s.Ok conn' id := by
  have hl (k : ℕ) : conn'.localStream k = conn.localStream k := by
    simp only [Conn.localStream, hs]
  exact { h with
    rxMaxOffset := fun hu => h.rxMaxOffset (hp ▸ hu)
    unsentMaxOffset := fun hu => h.unsentMaxOffset (hp ▸ hu)
    localUni := fun hb => by rw [hl]; exact h.localUni hb
    remoteUni := fun hb => by rw [hl]; exact h.remoteUni hb }

/-- A step of a stream leaves it as it should be. -/
theorem StrmStep.ok (h : StrmStep quiet c id s s' pushed c') (hI : Inv c) (hs : s.Ok c.conn id) :
    s'.Ok c.conn id := by
  cases h with
  | shutWrite =>
    exact { hs with
      sendResetStream := by simp
      stopSendingRecved := by simp
      remoteUni := by simp }
  | shutRead => exact { hs with sendStopSending := by simp }
  | extend n _ hs' =>
    subst hs'
    exact { hs with
      rxMaxOffset := fun h => (hs.rxMaxOffset h).trans (le_extendLimit (hs.unsentMaxOffset h) n)
      unsentMaxOffset := fun _ => extendLimit_le .. }
  | recvStream fr _ _ _ _ hmax => exact { hs with lastOffset := hmax }
  | recvFin fr _ _ _ _ hmax =>
    exact { hs with lastOffset := hmax, resetStreamRecved := by simp, localUni := by simp }
  | finData => exact { hs with resetStreamRecved := by simp, localUni := by simp }
  | recvReset => exact { hs with resetStreamRecved := by simp, localUni := by simp }
  | stopReset =>
    exact { hs with
      sendResetStream := by simp
      stopSendingRecved := by simp
      remoteUni := by simp }
  | stopShut _ _ _ _ hshut => exact { hs with stopSendingRecved := fun _ => hshut }
  | maxStreamData fr hp _ hmax =>
    exact { hs with
      txOffset := hs.txOffset.trans hmax.le
      txMaxOffset := (hI.pending.received _ hp).1.2 }
  | raise params hp hlocal hmax =>
    exact { hs with
      txOffset := hs.txOffset.trans hmax.le
      txMaxOffset := c.conn.initialMaxTxOffset_le id hI.phase.remoteParams }
  | txReset => exact { hs with sendResetStream := by simp }
  | txStop => exact { hs with sendStopSending := by simp }
  | clearStop => exact { hs with sendStopSending := by simp }
  | txMaxStreamData _ _ _ _ _ huni =>
    exact { hs with
      lastOffset := hs.lastOffset.trans (hs.rxMaxOffset huni)
      rxMaxOffset := fun _ => le_rfl }
  | txStreamDataBlocked => exact { hs with }
  | clearBlocked => exact { hs with }
  | setBlocked => exact { hs with }
  | recordSent len fin _ hmax =>
    -- What was shut stays shut.
    have hor {p : Prop} (h : p → s.flags.shutWr = true) (hp : p) :
        (s.flags.shutWr || fin) = true := by simp [h hp]
    exact { hs with
      txOffset := hmax
      sendResetStream := fun h =>
        ⟨hor (fun h => (hs.sendResetStream h).1) h, (hs.sendResetStream h).2⟩
      stopSendingRecved := hor hs.stopSendingRecved
      remoteUni := fun h => hor (hs.remoteUni h) }

/-! ## The identifiers that are handed out next -/

/-- The next bidirectional stream has not been opened yet. -/
theorem Conn.IdsOk.bidi_next {conn : Conn} (h : conn.IdsOk) :
    bidiStream conn.tx.bidi.nextStreamId = true ∧
      conn.localStream conn.tx.bidi.nextStreamId = true ∧
      conn.strms.find conn.tx.bidi.nextStreamId = none := by
  have hmod := h.bidiNext
  have hb : bidiStream conn.tx.bidi.nextStreamId = true := by
    simp only [bidiStream, decide_eq_true_eq]
    split at hmod <;> omega
  have hl : conn.localStream conn.tx.bidi.nextStreamId = true := by
    simp only [localStream, beq_iff_eq]
    cases hs : conn.server <;> simp only [hs] at hmod <;> simp at hmod ⊢ <;> omega
  refine ⟨hb, hl, Option.eq_none_iff_forall_ne_some.2 fun s hs => ?_⟩
  have := h.localId _ s hs hl
  rw [nextStreamId, if_pos hb] at this
  omega

/-- The next unidirectional stream has not been opened yet. -/
theorem Conn.IdsOk.uni_next {conn : Conn} (h : conn.IdsOk) :
    bidiStream conn.tx.uni.nextStreamId = false ∧
      conn.localStream conn.tx.uni.nextStreamId = true ∧
      conn.strms.find conn.tx.uni.nextStreamId = none := by
  have hmod := h.uniNext
  have hb : bidiStream conn.tx.uni.nextStreamId = false := by
    simp only [bidiStream, decide_eq_false_iff_not]
    split at hmod <;> omega
  have hl : conn.localStream conn.tx.uni.nextStreamId = true := by
    simp only [localStream, beq_iff_eq]
    cases hs : conn.server <;> simp only [hs] at hmod <;> simp at hmod ⊢ <;> omega
  refine ⟨hb, hl, Option.eq_none_iff_forall_ne_some.2 fun s hs => ?_⟩
  have := h.localId _ s hs hl
  rw [nextStreamId, if_neg (by simp [hb])] at this
  omega

/-! ## The parts of the invariant -/

/-- A step keeps the queue a heap of streams. -/
theorem Step.queueOk (h : Step quiet l c c') (hI : Inv c) : c'.conn.QueueOk := by
  have hq := hI.queue
  cases h with
  | strm h hc =>
    obtain ⟨hid, hcy⟩ := h.frame_strm
    refine hc.queueOk ?_ hid hcy
    rw [h.frame]
    exact { hq with }
  | openBidi =>
    have h := hq.insert hI.ids.bidi_next.2.2 (c.conn.newStrm_streamId _) (c.conn.newStrm_cycle _)
    exact { h with }
  | openUni =>
    have h := hq.insert hI.ids.uni_next.2.2 (c.conn.newStrm_streamId _) (c.conn.newStrm_cycle _)
    exact { h with }
  | accept _ _ _ hnone =>
    have h := hq.insert hnone (c.conn.newStrm_streamId _) (c.conn.newStrm_cycle _)
    rw [Conn.setIdtr_eq]
    exact { h with }
  | erase _ hfind =>
    have h := hq.erase hfind
    exact { h with }
  | pop hhead =>
    have h := hq.pop hhead
    exact { h with }
  | reject _ _ _ _ _ hids =>
    have hnil := hq.forget hids
    refine ⟨fun i k hk => ?_, fun k hk => ?_, fun k s hs => ?_, fun k s hs => ?_, fun k s hs => ?_⟩
    · simp [hnil] at hk
    · simp [hnil] at hk
    all_goals cases hs
  | _ => exact { hq with }

/-- A step leaves every stream as it should be. -/
theorem Step.strmsOk (h : Step quiet l c c') (hI : Inv c) : c'.conn.StrmsOk := by
  have hs := hI.strms
  have hnew (k : ℕ) : (c.conn.newStrm k).Ok c.conn k :=
    c.conn.newStrm_ok k hI.phase.localParams hI.phase.remoteParams
  have hinsert {k : ℕ} (hnone : c.conn.strms.find k = none) (id : ℕ) (s : Strm)
      (hf : (c.conn.strms.insert k (c.conn.newStrm k)).find id = some s) : s.Ok c.conn id := by
    rw [KeyMap.find_insert hnone] at hf
    split at hf
    · next e =>
      obtain rfl := Option.some.inj hf
      exact e ▸ hnew k
    · exact hs id s hf
  cases h with
  | @strm _ c' id s s' pushed conn h hc =>
    intro k a ha
    have hserver : conn.server = c.conn.server := by rw [hc.rest, h.frame]
    have hparams : conn.localParams = c.conn.localParams := by rw [hc.rest, h.frame]
    refine Strm.Ok.congr ?_ hserver hparams
    have hstrms : c'.conn.strms = c.conn.strms := by rw [h.frame]
    rcases hc.cases ha with ⟨rfl, rfl⟩ | ⟨-, ha⟩
    · exact h.ok hI (hs k s (hstrms ▸ hc.found))
    · exact hs k a (hstrms ▸ ha)
  | openBidi => exact fun id s hf => (hinsert hI.ids.bidi_next.2.2 id s hf).congr rfl rfl
  | openUni => exact fun id s hf => (hinsert hI.ids.uni_next.2.2 id s hf).congr rfl rfl
  | accept _ _ _ hnone =>
    rw [Conn.setIdtr_eq]
    exact fun id s hf => (hinsert hnone id s hf).congr rfl rfl
  | erase =>
    intro k a ha
    simp only [KeyMap.find_erase] at ha
    split at ha
    · cases ha
    · exact (hs k a ha).congr rfl rfl
  | reject => exact fun k a ha => by cases ha
  | _ => exact fun id s hf => (hs id s hf).congr rfl rfl

/-! ## Flow control -/

/-- The accounts of the connection change as those of the stream. -/
theorem StrmStep.flow (h : StrmStep quiet c id s s' pushed c') :
    (c'.conn.tx.offset + s.tx.offset = c.conn.tx.offset + s'.tx.offset ∧
      (c.conn.tx.offset ≤ c.conn.tx.maxOffset → c'.conn.tx.offset ≤ c.conn.tx.maxOffset)) ∧
    c'.conn.rx.offset + s.rx.lastOffset = c.conn.rx.offset + s'.rx.lastOffset ∧
      (c.conn.rx.offset ≤ c.conn.rx.maxOffset → c'.conn.rx.offset ≤ c.conn.rx.maxOffset) := by
  cases h with
  | extend _ _ hs' => exact hs' ▸ ⟨⟨rfl, fun h => h⟩, rfl, fun h => h⟩
  | recvStream fr _ _ _ hoff _ hconn =>
    refine ⟨⟨rfl, fun h => h⟩, ?_, fun _ => hconn⟩
    simp only
    omega
  | recvFin fr _ _ _ hoff => exact ⟨⟨rfl, fun h => h⟩, by rw [hoff]; rfl, fun h => h⟩
  | recordSent len _ _ _ hconn =>
    refine ⟨⟨?_, fun _ => hconn⟩, rfl, fun h => h⟩
    simp only
    omega
  | _ => exact ⟨⟨rfl, fun h => h⟩, rfl, fun h => h⟩

/-- A step of a stream keeps the sums of the offsets. -/
theorem StrmStep.flowOk {conn : Conn} (h : StrmStep quiet c id s s' pushed c')
    (hf : c.conn.FlowOk c.st.closed) (hc : Changes c'.conn conn id s s' pushed) :
    conn.FlowOk c'.st.closed := by
  obtain ⟨⟨htx, htxle⟩, hrx, hrxle⟩ := h.flow
  have hclosed : c'.st.closed = c.st.closed := by cases h <;> rfl
  have hstrms : c'.conn.strms = c.conn.strms := by rw [h.frame]
  have htxs := hc.sum (·.tx.offset)
  have hrxs := hc.sum (·.rx.lastOffset)
  have htxsum := hf.txSum
  have hrxsum := hf.rxSum
  rw [hstrms] at htxs hrxs
  have hconn : conn.tx.maxOffset = c.conn.tx.maxOffset ∧ conn.rx.maxOffset = c.conn.rx.maxOffset ∧
      conn.rx.unsentMaxOffset = c.conn.rx.unsentMaxOffset ∧
      conn.tx.offset = c'.conn.tx.offset ∧ conn.rx.offset = c'.conn.rx.offset := by
    rw [hc.rest, h.frame]
    exact ⟨rfl, rfl, rfl, rfl, rfl⟩
  obtain ⟨h1, h2, h3, h4, h5⟩ := hconn
  refine ⟨?_, h4 ▸ h1 ▸ htxle hf.txOffset, h1 ▸ hf.txMaxOffset, ?_, h5 ▸ h2 ▸ hrxle hf.rxOffset,
    h2 ▸ h3 ▸ hf.rxMaxOffset, h3 ▸ hf.unsentMaxOffset⟩
  · rw [hclosed]
    omega
  · rw [hclosed]
    omega

/-- A step keeps the sums of the offsets. -/
theorem Step.flowOk (h : Step quiet l c c') (hI : Inv c) : c'.conn.FlowOk c'.st.closed := by
  have hf := hI.flow
  -- A new stream has sent and received nothing.
  have hinsert {k : ℕ} (hnone : c.conn.strms.find k = none) :
      (c.conn.strms.insert k (c.conn.newStrm k)).sumOf (·.tx.offset) =
        c.conn.strms.sumOf (·.tx.offset) ∧
      (c.conn.strms.insert k (c.conn.newStrm k)).sumOf (·.rx.lastOffset) =
        c.conn.strms.sumOf (·.rx.lastOffset) := by
    rw [KeyMap.sumOf_insert hnone, KeyMap.sumOf_insert hnone, Conn.newStrm_tx, Conn.newStrm_rx]
    exact ⟨rfl, rfl⟩
  cases h with
  | strm h hc => exact h.flowOk hf hc
  | openBidi =>
    obtain ⟨h1, h2⟩ := hinsert hI.ids.bidi_next.2.2
    exact { hf with
      txSum := hf.txSum.trans (by rw [← h1]; rfl)
      rxSum := hf.rxSum.trans (by rw [← h2]; rfl) }
  | openUni =>
    obtain ⟨h1, h2⟩ := hinsert hI.ids.uni_next.2.2
    exact { hf with
      txSum := hf.txSum.trans (by rw [← h1]; rfl)
      rxSum := hf.rxSum.trans (by rw [← h2]; rfl) }
  | accept _ _ _ hnone =>
    obtain ⟨h1, h2⟩ := hinsert hnone
    rw [Conn.setIdtr_eq]
    exact { hf with
      txSum := hf.txSum.trans (by rw [← h1]; rfl)
      rxSum := hf.rxSum.trans (by rw [← h2]; rfl) }
  | extendOffset n =>
    exact { hf with
      rxMaxOffset := hf.rxMaxOffset.trans (le_extendLimit hf.unsentMaxOffset n)
      unsentMaxOffset := extendLimit_le .. }
  | skip data =>
    exact { hf with
      rxMaxOffset := hf.rxMaxOffset.trans (le_extendLimit hf.unsentMaxOffset _)
      unsentMaxOffset := extendLimit_le .. }
  | rxParams params _ _ _ _ hparams hb hearly =>
    refine { hf with txOffset := hf.txOffset.trans ?_, txMaxOffset := hb.initialMaxData }
    -- The limit announced is not below the one remembered.
    rw [hI.phase.maxOffset hparams]
    cases he : c.conn.flags.earlyTransportParamsSet with
    | true => exact (hearly he).initialMaxData
    | false =>
      rw [hI.phase.default hparams he]
      exact Nat.zero_le _
  | recvMaxData hp hmax =>
    exact { hf with
      txOffset := hf.txOffset.trans hmax.le
      txMaxOffset := (hI.pending.received _ hp).1 }
  | erase _ hfind =>
    -- A stream that goes is among those closed, with what it sent and received.
    have htx := KeyMap.sumOf_erase (f := (·.tx.offset)) hfind
    have hrx := KeyMap.sumOf_erase (f := (·.rx.lastOffset)) hfind
    have htxsum := hf.txSum
    have hrxsum := hf.rxSum
    refine { hf with txSum := ?_, rxSum := ?_ }
    · change c.conn.tx.offset = _
      simp only [List.map_append, List.sum_append, List.map_cons, List.map_nil, List.sum_cons,
        List.sum_nil]
      omega
    · change c.conn.rx.offset = _
      simp only [List.map_append, List.sum_append, List.map_cons, List.map_nil, List.sum_cons,
        List.sum_nil]
      omega
  | txMaxData =>
    exact { hf with rxOffset := hf.rxOffset.trans hf.rxMaxOffset, rxMaxOffset := le_rfl }
  | set0rtt _ _ hb hstrms hclosed =>
    -- Nothing has been sent before the parameters are remembered.
    have h0 : c.conn.tx.offset = 0 := by
      rw [hf.txSum, hstrms, hclosed]
      rfl
    exact { hf with txOffset := h0.le.trans (Nat.zero_le _), txMaxOffset := hb.initialMaxData }
  | reject _ hparams =>
    have h0 := hI.phase.rxOffset hparams
    exact {
      txSum := rfl
      txOffset := le_rfl
      txMaxOffset := Nat.zero_le _
      rxSum := h0
      rxOffset := h0.le.trans (Nat.zero_le _)
      rxMaxOffset := le_rfl
      unsentMaxOffset := hI.phase.localParams.initialMaxData }
  | _ => exact { hf with }

/-! ## Identifiers -/

/-- A stream after a change was there before it. -/
theorem Changes.of_find {conn₁ conn₂ : Conn} {s₁ s₂ : Strm}
    (h : Changes conn₁ conn₂ id s₁ s₂ pushed) {k : ℕ} (hk : conn₂.strms.find k = some s) :
    ∃ s, conn₁.strms.find k = some s := by
  rcases h.cases hk with ⟨rfl, -⟩ | ⟨-, hk⟩
  exacts [⟨_, h.found⟩, ⟨_, hk⟩]

/-- Where streams are left, the next is within the limit. -/
theorem TxStreams.next_le_of_left {streams : TxStreams} (h : streams.left ≠ 0) :
    (streams.nextStreamId + 4) / 4 ≤ streams.maxStreams := by
  unfold left ordStreamId at h
  by_contra hlt
  exact h (if_pos (by omega))

/-- What is found after an entry is made. -/
theorem find_insert_cases {m : KeyMap ℕ Strm} {k : ℕ} (hnone : m.find k = none)
    (hf : (m.insert k s').find id = some s) : id = k ∧ s = s' ∨ m.find id = some s := by
  rw [KeyMap.find_insert hnone] at hf
  split at hf
  · next e => exact .inl ⟨e, (Option.some.inj hf).symm⟩
  · exact .inr hf

/-- What is found after an entry is erased. -/
theorem find_erase_cases {m : KeyMap ℕ Strm} {k : ℕ} (hf : (m.erase k).find id = some s) :
    id ≠ k ∧ m.find id = some s := by
  rw [KeyMap.find_erase] at hf
  split at hf
  · cases hf
  · next e => exact ⟨e, hf⟩

/-- The next stream of a kind comes no earlier. -/
theorem Conn.nextStreamId_le {conn conn' : Conn}
    (hbidi : conn.tx.bidi.nextStreamId ≤ conn'.tx.bidi.nextStreamId)
    (huni : conn.tx.uni.nextStreamId ≤ conn'.tx.uni.nextStreamId) (id : ℕ) :
    conn.nextStreamId id ≤ conn'.nextStreamId id := by
  unfold nextStreamId
  split
  exacts [hbidi, huni]

namespace Conn.IdsOk

variable {conn : Conn} {k : ℕ} {s₀ : Strm} (hi : conn.IdsOk) (hnone : conn.strms.find k = none)
include hi hnone

/-- The local streams once one more is there, and `next` gives the next identifiers. -/
theorem localId_insert {next : ℕ → ℕ} (hnext : ∀ id, conn.nextStreamId id ≤ next id)
    (hk : k < next k) (hf : (conn.strms.insert k s₀).find id = some s)
    (hl : conn.localStream id = true) : id < next id := by
  rcases find_insert_cases hnone hf with ⟨rfl, -⟩ | hf
  · exact hk
  · exact (hi.localId id s hf hl).trans_le (hnext id)

/-- The remote streams once a local one more is there. -/
theorem remoteId_insert (hk : conn.localStream k = true)
    (hf : (conn.strms.insert k s₀).find id = some s) (hl : conn.localStream id = false) :
    id ≤ maxVarint ∧ (conn.idtr id).Opened id ∧ ordStreamId id ≤ conn.rxMaxStreams id := by
  rcases find_insert_cases hnone hf with ⟨rfl, -⟩ | hf
  · exact absurd (hk.symm.trans hl) (by simp)
  · exact hi.remoteId id s hf hl

/-- The identifier of a stream of the peer is opened. -/
theorem accept {idtr : Idtr} {index : ℕ → Option ℕ} (hle : k ≤ maxVarint)
    (hlocal : conn.localStream k = false)
    (hbidi : bidiStream k = true → ordStreamId k ≤ conn.rx.bidi.maxStreams)
    (huni : bidiStream k = false → ordStreamId k ≤ conn.rx.uni.maxStreams)
    (hopen : (conn.idtr k).openId k = .ok idtr) :
    { conn.setIdtr k idtr with
      strms := conn.strms.insert k s₀
      tx.strmq.index := index : Conn }.IdsOk := by
  obtain ⟨-, hroom, hopened⟩ := Idtr.openId_ok (hi.hasRoom k) hle hopen
  -- what was opened still is, and so is the new one
  have hof (id : ℕ) (hid : id ≤ maxVarint) (ho : (conn.idtr id).Opened id ∨ id = k) :
      ((conn.setIdtr k idtr).idtr id).Opened id := by
    rw [Conn.setIdtr_eq]
    by_cases hsame : bidiStream id = bidiStream k
    · have hidtr : conn.idtr id = conn.idtr k := by
        unfold Conn.idtr
        rw [hsame]
      rw [hidtr] at ho
      have := (hopened id hid).2 (ho.imp_right fun e => by rw [e])
      unfold Conn.idtr
      rw [hsame]
      split_ifs <;> exact this
    · have ho := ho.resolve_right fun e => hsame (by rw [e])
      unfold Conn.idtr at ho ⊢
      revert hsame ho
      cases bidiStream id <;> cases bidiStream k <;> simp
  rw [Conn.setIdtr_eq] at hof ⊢
  refine { hi with
    localId := fun id a ha hl => ?_
    remoteId := fun id a ha hl => ?_
    bidiRoom := ?_
    uniRoom := ?_ }
  · rcases find_insert_cases hnone ha with ⟨rfl, -⟩ | ha
    · exact absurd (hl.symm.trans hlocal) (by simp)
    · exact hi.localId id a ha hl
  · rcases find_insert_cases hnone ha with ⟨rfl, -⟩ | ha
    · refine ⟨hle, hof id hle (.inr rfl), ?_⟩
      unfold Conn.rxMaxStreams
      split
      · next hb => exact hbidi hb
      · next hb => exact huni (by simpa using hb)
    · obtain ⟨h1, h2, h3⟩ := hi.remoteId id a ha hl
      exact ⟨h1, hof id h1 (.inl h2), h3⟩
  · dsimp only
    split
    exacts [hroom, hi.bidiRoom]
  · dsimp only
    split
    exacts [hi.uniRoom, hroom]

omit hnone

/-- The remote streams once larger limits are announced. -/
theorem remoteId_limits {bidi uni : ℕ} (hbidi : conn.rx.bidi.maxStreams ≤ bidi)
    (huni : conn.rx.uni.maxStreams ≤ uni) (hf : conn.strms.find id = some s)
    (hl : conn.localStream id = false) :
    id ≤ maxVarint ∧ (conn.idtr id).Opened id ∧
      ordStreamId id ≤ if bidiStream id then bidi else uni := by
  obtain ⟨h1, h2, h3⟩ := hi.remoteId id s hf hl
  refine ⟨h1, h2, h3.trans ?_⟩
  unfold rxMaxStreams
  split
  exacts [hbidi, huni]

end Conn.IdsOk

/-- A step of one stream leaves the identifiers as they are. -/
theorem StrmStep.idsOk {conn : Conn} (h : StrmStep quiet c id s s' pushed c') (hi : c.conn.IdsOk)
    (hc : Changes c'.conn conn id s s' pushed) : conn.IdsOk := by
  have hconn : conn = { c.conn with
      strms := conn.strms
      rx.offset := conn.rx.offset
      tx.strmq := conn.tx.strmq
      tx.offset := conn.tx.offset
      tx.qre := conn.tx.qre } := by
    conv_lhs => rw [hc.rest, h.frame]
    rw [hc.rest]
  have hstrms : c'.conn.strms = c.conn.strms := by rw [h.frame]
  have hof (k : ℕ) (a : Strm) (ha : conn.strms.find k = some a) :
      ∃ a, c.conn.strms.find k = some a := hstrms ▸ hc.of_find ha
  generalize conn.strms = m at *
  rw [hconn]
  exact { hi with
    localId := fun k a ha => by
      obtain ⟨a, ha⟩ := hof k a ha
      exact hi.localId k a ha
    remoteId := fun k a ha => by
      obtain ⟨a, ha⟩ := hof k a ha
      exact hi.remoteId k a ha }

/-- A step keeps the identifiers apart, those opened and those to come. -/
theorem Step.idsOk (h : Step quiet l c c') (hI : Inv c) : c'.conn.IdsOk := by
  have hi := hI.ids
  cases h with
  | strm h hc => exact h.idsOk hi hc
  | openBidi _ hleft =>
    -- The next identifier of the kind goes up by 4.
    obtain ⟨hb, hl, hnone⟩ := hi.bidi_next
    refine { hi with
      bidiNext := (Nat.add_mod_right ..).trans hi.bidiNext
      bidiLimit := TxStreams.next_le_of_left hleft
      localId := fun k a => hi.localId_insert hnone
        (Conn.nextStreamId_le (Nat.le_add_right ..) le_rfl) ?_
      remoteId := fun k a => hi.remoteId_insert hnone hl }
    rw [Conn.nextStreamId, if_pos hb]
    exact Nat.lt_add_of_pos_right (by decide)
  | openUni _ hleft =>
    obtain ⟨hb, hl, hnone⟩ := hi.uni_next
    refine { hi with
      uniNext := (Nat.add_mod_right ..).trans hi.uniNext
      uniLimit := TxStreams.next_le_of_left hleft
      localId := fun k a => hi.localId_insert hnone
        (Conn.nextStreamId_le le_rfl (Nat.le_add_right ..)) ?_
      remoteId := fun k a => hi.remoteId_insert hnone hl }
    rw [Conn.nextStreamId, if_neg (by simp [hb])]
    exact Nat.lt_add_of_pos_right (by decide)
  | extendStreamsBidi n =>
    exact { hi with
      bidiMaxStreams := hi.bidiMaxStreams.trans (le_extendLimit hi.bidiUnsent n)
      bidiUnsent := extendLimit_le .. }
  | extendStreamsUni n =>
    exact { hi with
      uniMaxStreams := hi.uniMaxStreams.trans (le_extendLimit hi.uniUnsent n)
      uniUnsent := extendLimit_le .. }
  | txMaxStreamsBidi =>
    exact { hi with
      bidiMaxStreams := le_rfl
      remoteId := fun k a => hi.remoteId_limits hi.bidiMaxStreams le_rfl }
  | txMaxStreamsUni =>
    exact { hi with
      uniMaxStreams := le_rfl
      remoteId := fun k a => hi.remoteId_limits le_rfl hi.uniMaxStreams }
  | rxParams params _ _ _ _ hparams hb hearly =>
    -- The limits announced are not below those remembered, and these not below what was used.
    have hle : c.conn.tx.bidi.maxStreams ≤ params.initialMaxStreamsBidi ∧
        c.conn.tx.uni.maxStreams ≤ params.initialMaxStreamsUni := by
      rw [hI.phase.bidi hparams, hI.phase.uni hparams]
      cases he : c.conn.flags.earlyTransportParamsSet with
      | true => exact ⟨(hearly he).initialMaxStreamsBidi, (hearly he).initialMaxStreamsUni⟩
      | false =>
        rw [hI.phase.default hparams he]
        exact ⟨Nat.zero_le _, Nat.zero_le _⟩
    exact { hi with
      bidiLimit := hi.bidiLimit.trans hle.1
      uniLimit := hi.uniLimit.trans hle.2 }
  | recvMaxStreamsBidi _ _ hmax => exact { hi with bidiLimit := hi.bidiLimit.trans hmax.le }
  | recvMaxStreamsUni _ _ hmax => exact { hi with uniLimit := hi.uniLimit.trans hmax.le }
  | @accept _ fr id idtr hp hid hlocal hnone _ hbidi huni hopen =>
    -- An identifier that was received is a varint.
    have hle : id ≤ maxVarint := by
      have hb := (hI.pending.received _ hp).1
      cases fr <;> simp only [Frame.streamId?, Option.some.injEq, reduceCtorEq] at hid <;> subst hid
      all_goals exact hb.1
    exact hi.accept hnone hle hlocal hbidi huni hopen
  | erase =>
    exact { hi with
      localId := fun k a ha => hi.localId k a (find_erase_cases ha).2
      remoteId := fun k a ha => hi.remoteId k a (find_erase_cases ha).2 }
  | set0rtt _ _ _ _ _ hbidi huni =>
    exact { hi with
      bidiLimit := hbidi.le.trans (Nat.zero_le _)
      uniLimit := huni.le.trans (Nat.zero_le _) }
  | reject hclient =>
    -- A client begins anew.
    have hs : c.st.conn.server = false := hclient
    exact { hi with
      bidiNext := by simp [hs]
      uniNext := by simp [hs]
      bidiLimit := Nat.le_of_eq (by simp)
      uniLimit := Nat.le_of_eq (by simp)
      localId := fun k a ha => by cases ha
      remoteId := fun k a ha => by cases ha
      bidiMaxStreams := le_rfl
      uniMaxStreams := le_rfl
      bidiUnsent := hI.phase.localParams.initialMaxStreamsBidi
      uniUnsent := hI.phase.localParams.initialMaxStreamsUni }
  | _ => exact { hi with }

/-! ## What is pending -/

/-- A step of one stream leaves what is pending, or begins or ends it. -/
theorem StrmStep.pending (h : StrmStep quiet c id s s' pushed c') :
    c'.pending = c.pending ∨ ((∃ fr, c.pending = .received fr) ∨
      (∃ len fin, c.pending = .sent id len fin) ∨ (∃ fr, c.pending = .announced fr) ∨
        c.pending = .idle) ∧
      (c'.pending = .idle ∨ c'.pending = .shut id) := by
  cases h with
  | recvStream _ hp => exact .inr ⟨.inl ⟨_, hp⟩, .inl rfl⟩
  | recvFin _ hp => exact .inr ⟨.inl ⟨_, hp⟩, .inr rfl⟩
  | finData hp => exact .inr ⟨.inr (.inr (.inr hp)), .inr rfl⟩
  | recvReset _ hp => exact .inr ⟨.inl ⟨_, hp⟩, .inr rfl⟩
  | stopReset _ hp => exact .inr ⟨.inl ⟨_, hp⟩, .inl rfl⟩
  | stopShut _ hp => exact .inr ⟨.inl ⟨_, hp⟩, .inl rfl⟩
  | maxStreamData _ hp => exact .inr ⟨.inl ⟨_, hp⟩, .inl rfl⟩
  | txReset _ hp => exact .inr ⟨.inr (.inr (.inr hp)), .inr rfl⟩
  | txStop _ hp => exact .inr ⟨.inr (.inr (.inl ⟨_, hp⟩)), .inl rfl⟩
  | recordSent len fin hp =>
    refine .inr ⟨.inr (.inl ⟨_, _, hp⟩), ?_⟩
    cases fin
    exacts [.inl rfl, .inr rfl]
  | _ => exact .inl rfl

/-- A frame that is received was received before a step of a stream. -/
theorem StrmStep.received (h : StrmStep quiet c id s s' pushed c') {fr : Frame}
    (hp : c'.pending = .received fr) :
    c.pending = .received fr ∧ c'.writing = c.writing ∧ c'.body = c.body := by
  rcases h.pending with he | ⟨-, he | he⟩
  · refine ⟨he ▸ hp, ?_⟩
    cases h <;> first | exact ⟨rfl, rfl⟩ | simp at hp
    split at hp <;> simp at hp
  · simp [he] at hp
  · simp [he] at hp

/-- Data that is sent was sent before a step of a stream. -/
theorem StrmStep.sent (h : StrmStep quiet c id s s' pushed c') {k len : ℕ} {fin : Bool}
    (hp : c'.pending = .sent k len fin) :
    c.pending = .sent k len fin ∧ c'.writing = c.writing ∧ c'.unaccepted = c.unaccepted := by
  rcases h.pending with he | ⟨-, he | he⟩
  · refine ⟨he ▸ hp, ?_⟩
    cases h <;> first | exact ⟨rfl, rfl⟩ | simp at hp
    split at hp <;> simp at hp
  · simp [he] at hp
  · simp [he] at hp

/-- The stream whose data is being received stays open for it. -/
theorem StrmStep.body (h : StrmStep quiet c id s s' pushed c') (hI : c.PendingOk) {b : Body}
    (hb : c'.body = some b) :
    b.streamId = id ∧ s'.flags.shutRd = false ∧ b.left ≤ s'.rx.lastOffset ∧ c.params = true ∨
      c.body = some b ∧ s'.flags.shutRd = s.flags.shutRd ∧
        s'.rx.lastOffset = s.rx.lastOffset := by
  cases h with
  | recvStream fr hp _ hshut =>
    left
    simp only at hb
    split at hb
    · cases hb
    · obtain rfl := Option.some.inj hb
      exact ⟨rfl, hshut, Nat.le_add_left .., (hI.received _ hp).2.1⟩
  | recvFin => cases hb
  | finData => cases hb
  | recvReset _ hp =>
    have := (hI.received _ hp).2.2.2
    exact absurd (hb.symm.trans this) (by simp)
  | extend _ _ hs' => exact .inr ⟨hb, by rw [hs'], by rw [hs']⟩
  | _ => exact .inr ⟨hb, rfl, rfl⟩

/-- A stream that is to be closed stays so. -/
theorem StrmStep.closing (h : StrmStep quiet c id s s' pushed c') {k : ℕ}
    (hp : c'.pending = .closing k) :
    c.pending = .closing k ∧ (s.shouldCloseStream = true → s'.shouldCloseStream = true) := by
  rcases h.pending with he | ⟨-, he | he⟩
  · have hp' := he.symm.trans hp
    refine ⟨hp', fun hs => ?_⟩
    simp only [Strm.shouldCloseStream, Bool.and_eq_true, Bool.not_eq_true'] at hs
    cases h with
    | shutWrite _ _ hshut => simp [hshut] at hs
    | extend _ _ hs' => simp [hs', Strm.shouldCloseStream, hs]
    | recordSent _ _ hsent => simp [hp'] at hsent
    | _ => simp_all [Strm.shouldCloseStream]
  · simp [he] at hp
  · simp [he] at hp

/-- A stream is to be closed only after one of its directions has ended. -/
theorem StrmStep.closable (h : StrmStep quiet c id s s' pushed c')
    (hs : s'.shouldCloseStream = true) :
    c'.pending = .shut id ∨ s.shouldCloseStream = true := by
  cases h with
  | recvFin => exact .inl rfl
  | finData => exact .inl rfl
  | recvReset => exact .inl rfl
  | txReset => exact .inl rfl
  | shutWrite => simp [Strm.shouldCloseStream] at hs
  | stopReset => simp [Strm.shouldCloseStream] at hs
  | extend _ _ hs' => exact .inr (by rw [hs'] at hs; exact hs)
  | recordSent len fin hp =>
    cases fin with
    | true => exact .inl rfl
    | false => exact .inr (by simpa [Strm.shouldCloseStream] using hs)
  | _ => exact .inr hs

/-- A frame has taken effect. -/
theorem Cfg.PendingOk.done (hp : c.PendingOk) {fr : Frame} (hr : c.pending = .received fr)
    (hi : c'.pending = .idle) (hb : c'.body = c.body) (hs : c'.conn.strms = c.conn.strms) :
    c'.PendingOk where
  received _ h := by simp [hi] at h
  sent _ _ _ h := by simp [hi] at h
  body id left fin h := by
    rw [hb, (hp.received _ hr).2.2.2] at h
    cases h
  closing _ h := by simp [hi] at h
  closable id s hf hc := by
    rw [hs] at hf
    have := hp.closable id s hf hc
    simp [hr] at this

/-- A new stream makes no difference. -/
theorem Cfg.PendingOk.insert (hp : c.PendingOk) {k : ℕ} (hnone : c.conn.strms.find k = none)
    (hs : c'.conn.strms = c.conn.strms.insert k (c.conn.newStrm k)) (hi : c'.pending = c.pending)
    (hb : c'.body = c.body) (hw : c'.writing = c.writing) (hu : c'.unaccepted = c.unaccepted)
    (hparams : c'.params = c.params) : c'.PendingOk := by
  have hfind {id : ℕ} {s : Strm} (hf : c.conn.strms.find id = some s) :
      c'.conn.strms.find id = some s := by
    rw [hs, KeyMap.find_insert hnone, if_neg, hf]
    rintro rfl
    rw [hnone] at hf
    cases hf
  refine ⟨?_, ?_, ?_, ?_, ?_⟩
  · rw [hi, hb, hw, hparams]
    exact hp.received
  · rw [hi, hw, hu]
    exact hp.sent
  · intro id left fin h
    rw [hb] at h
    obtain ⟨h1, s, h2, h3⟩ := hp.body id left fin h
    exact ⟨hparams ▸ h1, s, hfind h2, h3⟩
  · intro id h
    rw [hi] at h
    obtain ⟨s, h1, h2⟩ := hp.closing id h
    exact ⟨s, hfind h1, h2⟩
  · intro id s hf hc
    rw [hs] at hf
    rw [hi]
    rcases find_insert_cases hnone hf with ⟨rfl, rfl⟩ | hf
    · rw [Conn.newStrm_shouldCloseStream] at hc
      cases hc
    · exact hp.closable id s hf hc

/-- What is pending has no bearing on the streams. -/
theorem Cfg.PendingOk.calm (hp : c.PendingOk) (hb : c'.body = c.body)
    (hs : c'.conn.strms = c.conn.strms) (hparams : c'.params = c.params)
    (hi : c.pending = .idle ∨ ∃ fr, c.pending = .announced fr)
    (hi' : c'.pending = .idle ∨ ∃ fr, c'.pending = .announced fr) : c'.PendingOk where
  received fr h := by rcases hi' with hi' | ⟨_, hi'⟩ <;> simp [hi'] at h
  sent id len fin h := by rcases hi' with hi' | ⟨_, hi'⟩ <;> simp [hi'] at h
  body id left fin h := by
    rw [hs, hparams]
    exact hp.body id left fin (hb ▸ h)
  closing id h := by rcases hi' with hi' | ⟨_, hi'⟩ <;> simp [hi'] at h
  closable id s hf hc := by
    have := hp.closable id s (hs ▸ hf) hc
    rcases hi with hi | ⟨_, hi⟩ <;> simp [hi] at this

/-- A stream is to be closed only when it is what is pending. -/
theorem Cfg.PendingOk.not_closable (hp : c.PendingOk)
    (hi : ∀ id, c.pending ≠ .shut id ∧ c.pending ≠ .closing id)
    (hf : c.conn.strms.find id = some s) : s.shouldCloseStream = false := by
  by_contra hs
  rcases hp.closable id s hf (Bool.eq_true_of_not_eq_false hs) with h | h
  · exact (hi id).1 h
  · exact (hi id).2 h

/-- A part of the data that is being received has come. -/
theorem Cfg.PendingOk.chunk (hp : c.PendingOk) {left : ℕ} {fin : Bool} (n : ℕ)
    (hidle : c.pending = .idle) (hbody : c.body = some ⟨id, left, fin⟩)
    (hi : c'.pending = .idle) (hb : c'.body = some ⟨id, left - n, fin⟩)
    (hs : c'.conn.strms = c.conn.strms) (hparams : c'.params = c.params) : c'.PendingOk where
  received _ h := by simp [hi] at h
  sent _ _ _ h := by simp [hi] at h
  body k left fin h := by
    cases hb.symm.trans h
    obtain ⟨h1, s, h2, h3, h4⟩ := hp.body _ _ _ hbody
    exact ⟨hparams.trans h1, s, hs ▸ h2, h3, (Nat.sub_le ..).trans h4⟩
  closing _ h := by simp [hi] at h
  closable k a hf hc := by
    have := hp.not_closable (by simp [hidle]) (hs ▸ hf)
    simp [this] at hc

/-- A stream of which data is being received is not the one that is erased. -/
theorem Cfg.PendingOk.erase (hp : c.PendingOk) (hclosing : c.pending = .closing id)
    (hi : c'.pending = .idle) (hb : c'.body = c.body)
    (hs : c'.conn.strms = c.conn.strms.erase id) (hparams : c'.params = c.params) :
    c'.PendingOk where
  received _ h := by simp [hi] at h
  sent _ _ _ h := by simp [hi] at h
  body k left fin h := by
    obtain ⟨h1, a, h2, h3, h4⟩ := hp.body k left fin (hb ▸ h)
    refine ⟨hparams.trans h1, a, ?_, h3, h4⟩
    have hne : k ≠ id := by
      rintro rfl
      obtain ⟨s, hs, hcl⟩ := hp.closing k hclosing
      obtain rfl := Option.some.inj (h2.symm.trans hs)
      simp [Strm.shouldCloseStream, h3] at hcl
    rw [hs, KeyMap.find_erase, if_neg hne, h2]
  closing _ h := by simp [hi] at h
  closable k a hf hc := by
    rw [hs] at hf
    obtain ⟨hne, hf⟩ := find_erase_cases hf
    have := hp.closable k a hf hc
    simp only [hclosing, reduceCtorEq, Pending.closing.injEq, false_or] at this
    exact absurd this.symm hne

/-- A step of one stream has a bearing on it alone. -/
theorem StrmStep.pendingOk {conn : Conn} (h : StrmStep quiet c id s s' pushed c')
    (hp : c.PendingOk) (hc : Changes c'.conn conn id s s' pushed) :
    { c' with st.conn := conn : Cfg }.PendingOk := by
  have hstrms : c'.conn.strms = c.conn.strms := by rw [h.frame]
  have hparams : c'.params = c.params := by cases h <;> rfl
  have hfound : c.conn.strms.find id = some s := hstrms ▸ hc.found
  refine ⟨fun fr hr => ?_, fun k len fin hr => ?_, fun k left fin hb => ?_, fun k hr => ?_,
    fun k a ha hs => ?_⟩
  · obtain ⟨h1, h2, h3⟩ := h.received hr
    obtain ⟨hb, hpar, hw, hbody⟩ := hp.received fr h1
    exact ⟨hb, hparams.trans hpar, h2.trans hw, h3.trans hbody⟩
  · obtain ⟨h1, h2, h3⟩ := h.sent hr
    obtain ⟨hw, data, hu, hlen⟩ := hp.sent k len fin h1
    exact ⟨h2.trans hw, data, h3.trans hu, hlen⟩
  · rcases h.body hp hb with ⟨rfl, h1, h2, h3⟩ | ⟨hb, h1, h2⟩
    · exact ⟨hparams.trans h3, s', hc.found', h1, h2⟩
    · obtain ⟨hpar, a, ha, hrd, hle⟩ := hp.body k left fin hb
      refine ⟨hparams.trans hpar, ?_⟩
      by_cases e : k = id
      · subst e
        obtain rfl := Option.some.inj (hfound.symm.trans ha)
        exact ⟨s', hc.found', h1.trans hrd, hle.trans h2.ge⟩
      · exact ⟨a, by rw [hc.find_of_ne e, hstrms, ha], hrd, hle⟩
  · obtain ⟨h1, h2⟩ := h.closing hr
    obtain ⟨a, ha, hcl⟩ := hp.closing k h1
    by_cases e : k = id
    · subst e
      obtain rfl := Option.some.inj (hfound.symm.trans ha)
      exact ⟨s', hc.found', h2 hcl⟩
    · exact ⟨a, by rw [hc.find_of_ne e, hstrms, ha], hcl⟩
  · have hkeep (hk : c.pending = .shut k ∨ c.pending = .closing k) :
        c'.pending = .shut k ∨ c'.pending = .closing k := by
      rcases h.pending with he | ⟨⟨_, he⟩ | ⟨_, _, he⟩ | ⟨_, he⟩ | he, -⟩
      · rwa [he]
      all_goals simp [he] at hk
    rcases hc.cases ha with ⟨rfl, rfl⟩ | ⟨-, ha⟩
    · rcases h.closable hs with he | hs
      · exact .inl he
      · exact hkeep (hp.closable k s hfound hs)
    · exact hkeep (hp.closable k a (hstrms ▸ ha) hs)

/-- A step keeps what is known of what is being done. -/
theorem Step.pendingOk (h : Step quiet l c c') (hI : Inv c) : c'.PendingOk := by
  have hp := hI.pending
  cases h with
  | strm h hc => exact h.pendingOk hp hc
  | openBidi => exact hp.insert hI.ids.bidi_next.2.2 rfl rfl rfl rfl rfl rfl
  | openUni => exact hp.insert hI.ids.uni_next.2.2 rfl rfl rfl rfl rfl rfl
  | accept _ _ _ hnone => exact hp.insert hnone rfl rfl rfl rfl rfl rfl
  | rx fr hidle hw hbody hb hparams =>
    refine { hp with received := ?_, sent := by simp, closing := by simp, closable := ?_ }
    -- Between calls no stream is to be closed, so none is when a frame has come.
    · rintro _ ⟨⟩
      exact ⟨hb, hparams, hw, hbody⟩
    · intro k a ha hs
      simp [hp.not_closable (by simp [hidle]) ha] at hs
  | rxParams params hidle hw hbody =>
    refine { received := ?_, sent := by simp, closing := by simp, body := ?_, closable := ?_ }
    · rintro _ ⟨⟩
      exact ⟨trivial, rfl, hw, hbody⟩
    · intro k left fin hb
      exact absurd (hbody.symm.trans hb) (by simp)
    · intro k a ha hs
      simp [hp.not_closable (by simp [hidle]) ha] at hs
  | paramsDone hr => exact hp.done hr rfl rfl rfl
  | ignore hr => exact hp.done hr rfl rfl rfl
  | recvMaxData hr => exact hp.done hr rfl rfl rfl
  | recvMaxStreamsBidi hr => exact hp.done hr rfl rfl rfl
  | recvMaxStreamsUni hr => exact hp.done hr rfl rfl rfl
  | recvPing hr => exact hp.done hr rfl rfl rfl
  | piece data hidle hbody => exact hp.chunk data.length hidle hbody hidle rfl rfl rfl
  | skip data hidle hbody => exact hp.chunk data.length hidle hbody hidle rfl rfl rfl
  | bodyDone hidle => exact { hp with received := by simp [hidle], body := by simp }
  | settle hshut h =>
    refine { hp with received := by simp, sent := by simp, closing := by simp, closable := ?_ }
    -- Only the stream that was shut down may be to be closed.
    intro k a ha hs
    have := hp.closable k a ha hs
    simp only [hshut, Pending.shut.injEq, reduceCtorEq, or_false] at this
    subst this
    exact absurd hs (by simp [h a ha])
  | close hshut hfind hs =>
    refine { hp with received := by simp, sent := by simp, closing := ?_, closable := ?_ }
    · rintro _ ⟨⟩
      exact ⟨_, hfind, hs⟩
    · intro k a ha hs
      have := hp.closable k a ha hs
      simp only [hshut, Pending.shut.injEq, reduceCtorEq, or_false] at this
      exact .inr (by rw [this])
  | erase hclosing => exact hp.erase hclosing rfl rfl rfl rfl
  | announceStop hidle => exact hp.calm rfl rfl rfl (.inl hidle) (.inr ⟨_, rfl⟩)
  | announceBidi hidle => exact hp.calm rfl rfl rfl (.inl hidle) (.inr ⟨_, rfl⟩)
  | announceUni hidle => exact hp.calm rfl rfl rfl (.inl hidle) (.inr ⟨_, rfl⟩)
  | putOff hr => exact hp.calm rfl rfl rfl (.inr ⟨_, hr⟩) (.inl rfl)
  | txMaxStreamsBidi _ hr => exact hp.calm rfl rfl rfl (.inr ⟨_, hr⟩) (.inl rfl)
  | txMaxStreamsUni _ hr => exact hp.calm rfl rfl rfl (.inr ⟨_, hr⟩) (.inl rfl)
  | txStream q fr hidle hw _ _ _ hlen =>
    refine { hp with received := by simp, sent := ?_, closing := by simp, closable := ?_ }
    · rintro _ _ _ ⟨⟩
      exact ⟨hw, _, rfl, List.length_take_of_le hlen⟩
    · intro k a ha hs
      simp [hp.not_closable (by simp [hidle]) ha] at hs
  | accepted hidle => exact { hp with sent := by simp [hidle] }
  | beginCall _ hidle => exact { hp with received := by simp [hidle], sent := by simp [hidle] }
  | beginWrite hidle => exact { hp with received := by simp [hidle], sent := by simp [hidle] }
  | endWrite hidle => exact { hp with received := by simp [hidle], sent := by simp [hidle] }
  | reject _ hparams hidle =>
    have hpar : c.params = false := hparams
    refine { hp with body := ?_, closing := ?_, closable := ?_ }
    · intro k left fin hb
      have := (hp.body k left fin hb).1
      simp [hpar] at this
    · intro k hk
      exact absurd (hidle.symm.trans hk) (by simp)
    · intro k a ha
      cases ha
  | _ => exact { hp with }

/-! ## The transport parameters -/

/-- The parameters of the peer and the side are all that matters. -/
theorem Conn.initialMaxTxOffset_congr {conn conn' : Conn} (hs : conn'.server = conn.server)
    (hr : conn'.remoteParams = conn.remoteParams) (id : ℕ) :
    conn'.initialMaxTxOffset id = conn.initialMaxTxOffset id := by
  unfold initialMaxTxOffset initialMaxStreamData localStream
  rw [hs, hr]
  split_ifs <;> rfl

/-- Only frames received raise the limits of a stream or the account of what came. -/
theorem StrmStep.phase (h : StrmStep quiet c id s s' pushed c') :
    s'.tx.maxOffset = s.tx.maxOffset ∧ c'.conn.rx.offset = c.conn.rx.offset ∨
      ∃ fr, c.pending = .received fr := by
  cases h with
  | recvStream _ hp => exact .inr ⟨_, hp⟩
  | maxStreamData _ hp => exact .inr ⟨_, hp⟩
  | raise _ hp => exact .inr ⟨_, hp⟩
  | extend _ _ hs' => exact .inl ⟨by rw [hs'], rfl⟩
  | _ => exact .inl ⟨rfl, rfl⟩

/-- Once a frame is received, the parameters of the peer have come. -/
theorem Inv.of_received (hI : Inv c) {fr : Frame} (hr : c.pending = .received fr) {p : Prop}
    (h : c.params = false) : p := by
  have := (hI.pending.received fr hr).2.1
  simp [h] at this

/-- A step of a stream keeps what is known of the handshake. -/
theorem StrmStep.phaseOk {conn : Conn} (h : StrmStep quiet c id s s' pushed c') (hI : Inv c)
    (hc : Changes c'.conn conn id s s' pushed) : { c' with st.conn := conn : Cfg }.PhaseOk := by
  have hp := hI.phase
  have hstrms : c'.conn.strms = c.conn.strms := by rw [h.frame]
  have hparams : c'.params = c.params := by cases h <;> rfl
  have hfound : c.conn.strms.find id = some s := hstrms ▸ hc.found
  obtain ⟨m, q, qre, rx, tx, hrx, rfl⟩ : ∃ m q qre rx tx, rx = c'.conn.rx.offset ∧
      conn = { c.conn with
        strms := m, tx.strmq := q, tx.qre := qre, rx.offset := rx, tx.offset := tx } :=
    ⟨conn.strms, conn.tx.strmq, c'.conn.tx.qre, c'.conn.rx.offset, c'.conn.tx.offset, rfl, by
      rw [hc.rest, h.frame]⟩
  have hmax (k : ℕ) : Conn.initialMaxTxOffset { c.conn with
      strms := m, tx.strmq := q, tx.qre := qre, rx.offset := rx, tx.offset := tx } k =
    c.conn.initialMaxTxOffset k := Conn.initialMaxTxOffset_congr rfl rfl k
  refine { hp with
    seen := hparams ▸ hp.seen
    default := hparams ▸ hp.default
    maxOffset := hparams ▸ hp.maxOffset
    bidi := hparams ▸ hp.bidi
    uni := hparams ▸ hp.uni
    rxOffset := hparams ▸ fun hn => ?_
    strms := hparams ▸ fun hn k a ha => ?_
    raising := fun params hr => ?_ }
  · rcases h.phase with ⟨-, he⟩ | ⟨fr, hr⟩
    · exact (hrx.trans he).trans (hp.rxOffset hn)
    · exact hI.of_received hr hn
  · rcases hc.cases ha with ⟨rfl, rfl⟩ | ⟨-, ha⟩
    · obtain ⟨h1, h2⟩ := hp.strms hn k s hfound
      rcases h.phase with ⟨he, -⟩ | ⟨fr, hr⟩
      · exact ⟨h1, (he.trans h2).trans (hmax k).symm⟩
      · exact hI.of_received hr hn
    · obtain ⟨h1, h2⟩ := hp.strms hn k a (hstrms ▸ ha)
      exact ⟨h1, h2.trans (hmax k).symm⟩
  · obtain ⟨h1, h2⟩ := hp.raising params (h.received hr).1
    refine ⟨h1, fun k a ha => ?_⟩
    obtain ⟨a, ha⟩ := hc.of_find ha
    exact h2 k a (hstrms ▸ ha)

section

variable {k : ℕ} {params : TransportParams} (hp : c.PhaseOk) (hl : c.conn.localStream k = true)
  (hnone : c.conn.strms.find k = none)
  (hf : (c.conn.strms.insert k (c.conn.newStrm k)).find id = some s)

include hp hl hnone hf

/-- A new stream of the local endpoint has the limit that the peer has set. -/
theorem Cfg.PhaseOk.strms_insert (hn : c.params = false) :
    c.conn.localStream id = true ∧ s.tx.maxOffset = c.conn.initialMaxTxOffset id := by
  rcases find_insert_cases hnone hf with ⟨rfl, rfl⟩ | hf
  · exact ⟨hl, by rw [Conn.newStrm_tx]⟩
  · exact hp.strms hn id s hf

/-- While limits are raised, all streams are local, with a new one that is. -/
theorem Cfg.PhaseOk.raising_insert
    (hr : c.pending = .received (.qxTransportParameters params)) :
    c.conn.localStream id = true := by
  rcases find_insert_cases hnone hf with ⟨rfl, -⟩ | hf
  exacts [hl, (hp.raising params hr).2 id s hf]

end

/-- A step keeps what is known of the handshake. -/
theorem Step.phaseOk (h : Step quiet l c c') (hI : Inv c) : c'.PhaseOk := by
  have hp := hI.phase
  cases h with
  | strm h hc => exact h.phaseOk hI hc
  | openBidi =>
    -- A stream is opened locally, before or while limits are raised.
    obtain ⟨-, hl, hnone⟩ := hI.ids.bidi_next
    exact { hp with
      strms := fun hn k a ha => hp.strms_insert hl hnone ha hn
      raising := fun params hr =>
        ⟨(hp.raising params hr).1, fun k a ha => hp.raising_insert hl hnone ha hr⟩ }
  | openUni =>
    obtain ⟨-, hl, hnone⟩ := hI.ids.uni_next
    exact { hp with
      strms := fun hn k a ha => hp.strms_insert hl hnone ha hn
      raising := fun params hr =>
        ⟨(hp.raising params hr).1, fun k a ha => hp.raising_insert hl hnone ha hr⟩ }
  | @accept _ fr _ _ hr hid =>
    rw [Conn.setIdtr_eq]
    refine { hp with strms := hI.of_received hr, raising := fun params hr' => ?_ }
    obtain rfl := Pending.received.inj (hr.symm.trans hr')
    cases hid
  | rx fr hidle _ _ _ _ hfr =>
    -- The frame is not the transport parameters, for which there is a step of its own.
    refine { hp with raising := ?_ }
    rintro params ⟨⟩
    exact absurd rfl (hfr params)
  | rxParams params _ _ _ hseen hparams hb =>
    refine { hp with
      remoteParams := hb.toBounded
      seen := fun _ => hseen
      default := nofun, maxOffset := nofun, bidi := nofun, uni := nofun, rxOffset := nofun
      strms := nofun
      raising := ?_ }
    rintro _ ⟨⟩
    -- The parameters come while all streams are those of early data.
    exact ⟨rfl, fun k a ha => (hp.strms hparams k a ha).1⟩
  | paramsDone => exact { hp with raising := nofun }
  | ignore => exact { hp with raising := nofun }
  | recvMaxData hr => exact { hp with maxOffset := hI.of_received hr, raising := nofun }
  | recvMaxStreamsBidi hr => exact { hp with bidi := hI.of_received hr, raising := nofun }
  | recvMaxStreamsUni hr => exact { hp with uni := hI.of_received hr, raising := nofun }
  | recvPing => exact { hp with raising := nofun }
  | settle => exact { hp with raising := nofun }
  | close => exact { hp with raising := nofun }
  | erase =>
    exact { hp with
      strms := fun hn k a ha => hp.strms hn k a (find_erase_cases ha).2
      raising := nofun }
  | announceStop => exact { hp with raising := nofun }
  | announceBidi => exact { hp with raising := nofun }
  | announceUni => exact { hp with raising := nofun }
  | putOff => exact { hp with raising := nofun }
  | txMaxStreamsBidi => exact { hp with raising := nofun }
  | txMaxStreamsUni => exact { hp with raising := nofun }
  | txStream => exact { hp with raising := nofun }
  | seen => exact { hp with seen := fun _ => rfl }
  | txParams _ _ huni => exact { hp with sent := fun _ => huni }
  | set0rtt hclient hidle hb hstrms _ _ _ hremote =>
    subst hremote
    have hempty {k : ℕ} {a : Strm} (ha : c.conn.strms.find k = some a) : False := by
      rw [hstrms] at ha
      cases ha
    exact { hp with
      remoteParams := { hb with }
      client := fun _ => hclient
      default := nofun
      maxOffset := fun _ => rfl
      bidi := fun _ => rfl
      uni := fun _ => rfl
      strms := fun _ k a ha => (hempty ha).elim
      raising := fun params hr => absurd (hr.symm.trans hidle) nofun }
  | reject _ hparams hidle =>
    exact { hp with
      -- A rejection is as if no parameters were remembered.
      remoteParams := by constructor <;> exact Nat.zero_le _
      sent := nofun
      client := nofun
      default := fun _ _ => rfl
      maxOffset := fun _ => rfl
      bidi := fun _ => rfl
      uni := fun _ => rfl
      rxOffset := hp.rxOffset
      strms := fun _ k a ha => by cases ha
      raising := fun params hr => absurd (hidle.symm.trans hr) (by simp) }
  | _ => exact { hp with }

/-! ## The invariant -/

/-- No step breaks the invariant. -/
theorem Step.inv (h : Step quiet l c c') (hI : Inv c) : Inv c' where
  queue := h.queueOk hI
  strms := h.strmsOk hI
  flow := h.flowOk hI
  ids := h.idsOk hI
  phase := h.phaseOk hI
  pending := h.pendingOk hI
  time := by
    have ht := hI.time
    cases h with
    | @strm _ _ _ _ _ _ conn h hc =>
      have hconn : conn.glitchRlim = c.conn.glitchRlim ∧ conn.lastTs = c.conn.lastTs := by
        rw [hc.rest, h.frame]
        exact ⟨rfl, rfl⟩
      exact hconn.1 ▸ hconn.2 ▸ ht
    | accept =>
      rw [Conn.setIdtr_eq]
      exact ht
    | glitch hts => exact hts
    | time hts => exact ht.trans hts
    | _ => exact ht

/-- The configuration of a new connection. -/
def Cfg.new (server : Bool) (settings : Settings) (params : TransportParams) : Cfg :=
  ⟨(Endp.new server settings params).st, .idle, none, none, none, false, []⟩

/-- A new connection meets the invariants. -/
theorem inv_new (server : Bool) (settings : Settings) {params : TransportParams}
    (h : params.Asserted) (huni : params.initialMaxStreamDataUni ≤ uint64Max) :
    Inv (Cfg.new server settings params) := by
  obtain ⟨h1, h2, h3, h4, h5, -⟩ := h
  have hempty {p : Prop} {id : ℕ} {s : Strm} (h : KeyMap.empty.find id = some s) : p := by cases h
  refine ⟨?_, fun _ _ => hempty, ?_, ?_, ?_, ?_, Nat.le_of_eq rfl⟩
  · exact ⟨Pq.wf_init, nofun, fun _ _ => hempty, fun _ _ => hempty, fun _ _ => hempty⟩
  · exact ⟨rfl, Nat.le_of_eq rfl, Nat.zero_le _, rfl, Nat.zero_le _, Nat.le_of_eq rfl, h3⟩
  · refine ⟨?_, ?_, ?_, ?_, fun _ _ => hempty, fun _ _ => hempty, Idtr.hasRoom_init,
      Idtr.hasRoom_init, Nat.le_of_eq rfl, Nat.le_of_eq rfl, h4, h5⟩ <;> cases server <;>
      simp [Cfg.new, Endp.new, Conn.new]
  · have hdefault : TransportParams.default.Bounded := by constructor <;> exact Nat.zero_le _
    exact ⟨⟨h4, h5, h1, h2, huni, h3⟩, hdefault, nofun, nofun, nofun, fun _ _ => rfl,
      fun _ => rfl, fun _ => rfl, fun _ => rfl, fun _ => rfl, fun _ _ _ => hempty, nofun⟩
  · exact ⟨nofun, nofun, nofun, nofun, fun _ _ => hempty⟩

end Dwnx
