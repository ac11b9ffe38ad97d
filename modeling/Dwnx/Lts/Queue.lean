import Dwnx.Conn.Api

/-!
# The queue of streams

The queue holds streams of the table, each where its index field says
(`Conn.QueueOk`). Creating, closing and forgetting streams, and taking the top
stream off, keep it so.
-/

namespace Dwnx

/-- The queue holds streams of the table, every one where its index says; all
    streams have the same cycle. -/
structure Conn.QueueOk (conn : Conn) : Prop where
  wf : conn.tx.strmq.Wf
  found : ∀ k ∈ conn.tx.strmq.q, ∃ s, conn.strms.find k = some s
  queued : ∀ k s, conn.strms.find k = some s → conn.isTxQueued k = true → k ∈ conn.tx.strmq.q
  streamId : ∀ k s, conn.strms.find k = some s → s.streamId = k
  cycle : ∀ k s, conn.strms.find k = some s → s.cycle = 0

/-! ## Deleting streams -/

section
variable {strms : KeyMap ℕ Strm} {pq : Pq ℕ} {id : ℕ}

/-- The stream is in the queue if its index field says so. -/
def IndexOk (pq : Pq ℕ) (id : ℕ) : Prop := (pq.index id).isSome = true → id ∈ pq.q

/-- What is not queued is not removed. -/
theorem deleteStrmTxStrmq_of_none (h : pq.index id = none) :
    deleteStrmTxStrmq strms pq id = pq := by
  rw [deleteStrmTxStrmq, h]

/-- What is queued is removed at its index. -/
theorem deleteStrmTxStrmq_of_some {i : ℕ} (h : pq.index id = some i) :
    deleteStrmTxStrmq strms pq id = pq.remove (cycleLess strms) id := by
  rw [deleteStrmTxStrmq, h]

/-- The heap stays one. -/
theorem wf_deleteStrmTxStrmq (h : pq.Wf) (hi : IndexOk pq id) :
    (deleteStrmTxStrmq strms pq id).Wf := by
  unfold deleteStrmTxStrmq
  split
  · exact h
  · next e => exact Pq.wf_remove h (hi (by rw [e]; rfl))

/-- The others stay queued. -/
theorem mem_deleteStrmTxStrmq (h : pq.Wf) (hi : IndexOk pq id) {k : ℕ} :
    k ∈ (deleteStrmTxStrmq strms pq id).q ↔ k ∈ pq.q ∧ k ≠ id := by
  unfold deleteStrmTxStrmq
  split
  · next e =>
    refine ⟨fun hk => ⟨hk, ?_⟩, And.left⟩
    rintro rfl
    obtain ⟨i, hi, -⟩ := h.mem_iff.1 hk
    rw [e] at hi
    cases hi
  · next e => exact Pq.mem_remove h (hi (by rw [e]; rfl))

/-- The others have their indices. -/
theorem indexOk_deleteStrmTxStrmq (h : pq.Wf) (hi : IndexOk pq id) {k : ℕ} (hk : IndexOk pq k)
    (hne : k ≠ id) : IndexOk (deleteStrmTxStrmq strms pq id) k := by
  intro he
  rw [mem_deleteStrmTxStrmq h hi]
  refine ⟨?_, hne⟩
  by_contra hkq
  refine hkq (hk ?_)
  unfold deleteStrmTxStrmq at he
  split at he
  · exact he
  · next e => rwa [Pq.index_remove h (hi (by rw [e]; rfl)) hkq] at he

/-- Deleting all streams empties the queue. -/
theorem foldl_deleteStrmTxStrmq {ids : List ℕ} (h : pq.Wf) (hi : ∀ id ∈ ids, IndexOk pq id)
    (hnd : ids.Nodup) (hq : ∀ k ∈ pq.q, k ∈ ids) :
    (ids.foldl (deleteStrmTxStrmq strms) pq).q = [] := by
  induction ids generalizing pq with
  | nil => exact List.eq_nil_iff_forall_not_mem.2 fun k hk => by simpa using hq k hk
  | cons id ids ih =>
    have hid := hi id (List.mem_cons_self ..)
    rw [List.nodup_cons] at hnd
    refine ih (wf_deleteStrmTxStrmq h hid) (fun k hk => ?_) hnd.2 fun k hk => ?_
    · exact indexOk_deleteStrmTxStrmq h hid (hi k (List.mem_cons_of_mem _ hk))
        fun e => hnd.1 (e ▸ hk)
    · obtain ⟨hk, hne⟩ := (mem_deleteStrmTxStrmq h hid).1 hk
      exact (List.mem_cons.1 (hq k hk)).resolve_left hne

end

/-! ## Operations -/

namespace Conn.QueueOk

variable {conn : Conn} {id : ℕ} {s : Strm}

/-- A stream is queued if it has an index. -/
theorem isTxQueued_iff (h : conn.QueueOk) (hf : conn.strms.find id = some s) :
    conn.isTxQueued id = true ↔ id ∈ conn.tx.strmq.q := by
  refine ⟨h.queued id s hf, fun hm => ?_⟩
  obtain ⟨i, hi, -⟩ := h.wf.mem_iff.1 hm
  rw [isTxQueued, hi]
  rfl

/-- Streams of the same cycle are ordered by their identifiers. -/
theorem lt_of_cycleLess (h : conn.QueueOk) {a b : ℕ} (hl : cycleLess conn.strms a b = true) :
    a < b := by
  unfold cycleLess at hl
  split at hl
  · next ls rs ha hb =>
    rw [if_pos ((h.cycle a ls ha).trans (h.cycle b rs hb).symm), h.streamId a ls ha,
      h.streamId b rs hb] at hl
    exact of_decide_eq_true hl
  · cases hl

/-- A stream that is queued stands at its index. -/
theorem indexOk (h : conn.QueueOk) (hf : conn.strms.find id = some s) :
    IndexOk conn.tx.strmq id := h.queued id s hf

/-- A stream is created with nothing to be sent. -/
theorem insert (h : conn.QueueOk) (hf : conn.strms.find id = none) (hid : s.streamId = id)
    (hc : s.cycle = 0) :
    Conn.QueueOk { conn with
      strms := conn.strms.insert id s
      tx.strmq.index := Function.update conn.tx.strmq.index id none } := by
  have hq : id ∉ conn.tx.strmq.q := fun hm => by
    obtain ⟨s, hs⟩ := h.found id hm
    rw [hf] at hs
    cases hs
  have hfind := KeyMap.find_insert hf s
  refine ⟨fun i k hk => ?_, fun k hk => ?_, fun k a ha hk => ?_, fun k a ha => ?_, fun k a ha => ?_⟩
  · have : k ≠ id := fun e => hq (e ▸ List.mem_of_getElem? hk)
    exact (Function.update_of_ne this ..).trans (h.wf i k hk)
  · obtain ⟨a, ha⟩ := h.found k hk
    have : k ≠ id := fun e => hq (e ▸ hk)
    exact ⟨a, by rw [hfind, if_neg this, ha]⟩
  · by_cases e : k = id
    · simp [isTxQueued, e] at hk
    · rw [hfind, if_neg e] at ha
      exact h.queued k a ha (by simpa [isTxQueued, e] using hk)
  · rw [hfind] at ha
    split at ha
    · next e => rw [← Option.some.inj ha, hid, e]
    · exact h.streamId k a ha
  · rw [hfind] at ha
    split at ha
    · rw [← Option.some.inj ha, hc]
    · exact h.cycle k a ha

/-- A stream goes, and leaves the queue. -/
theorem erase (h : conn.QueueOk) (hf : conn.strms.find id = some s) :
    Conn.QueueOk { conn with
      strms := conn.strms.erase id
      tx.strmq := deleteStrmTxStrmq conn.strms conn.tx.strmq id } := by
  have hid := h.indexOk hf
  have hfind {k : ℕ} {a : Strm} (ha : (conn.strms.erase id).find k = some a) :
      k ≠ id ∧ conn.strms.find k = some a := by
    rw [KeyMap.find_erase] at ha
    split at ha
    · cases ha
    · next e => exact ⟨e, ha⟩
  refine ⟨wf_deleteStrmTxStrmq h.wf hid, fun k hk => ?_, fun k a ha hk => ?_,
    fun k a ha => h.streamId k a (hfind ha).2, fun k a ha => h.cycle k a (hfind ha).2⟩
  · obtain ⟨hk, hne⟩ := (mem_deleteStrmTxStrmq h.wf hid).1 hk
    obtain ⟨a, ha⟩ := h.found k hk
    exact ⟨a, by rw [KeyMap.find_erase, if_neg hne, ha]⟩
  · obtain ⟨hne, ha⟩ := hfind ha
    exact indexOk_deleteStrmTxStrmq h.wf hid (h.indexOk ha) hne hk

/-- The first stream leaves the queue. -/
theorem pop (h : conn.QueueOk) (hh : conn.tx.strmq.q[0]? = some id) :
    Conn.QueueOk { conn with tx.strmq := conn.popStrmq id } := by
  have hmem {k : ℕ} : k ∈ (conn.popStrmq id).q ↔ k ∈ conn.tx.strmq.q ∧ k ≠ id :=
    Pq.mem_pop h.wf hh
  refine ⟨fun i k hk => ?_, fun k hk => h.found k (hmem.1 hk).1, fun k a ha hk => ?_,
    h.streamId, h.cycle⟩
  · have hne := (hmem.1 (List.mem_of_getElem? hk)).2
    exact (Function.update_of_ne hne ..).trans (Pq.wf_pop h.wf hh i k hk)
  · by_cases e : k = id
    · simp [isTxQueued, popStrmq, e] at hk
    · replace hk : ((conn.tx.strmq.pop (cycleLess conn.strms)).index k).isSome = true := by
        simpa [isTxQueued, popStrmq, e] using hk
      refine hmem.2 ⟨?_, e⟩
      by_contra hkq
      rw [Pq.index_pop h.wf hh hkq] at hk
      exact hkq (h.indexOk ha hk)

/-- All others stay queued. -/
theorem mem_pop (h : conn.QueueOk) (hh : conn.tx.strmq.q[0]? = some id) {k : ℕ} :
    k ∈ (conn.popStrmq id).q ↔ k ∈ conn.tx.strmq.q ∧ k ≠ id := Pq.mem_pop h.wf hh

/-- Nothing is queued when all streams are forgotten. -/
theorem forget (h : conn.QueueOk) {ids : List ℕ} (hids : ids.Perm conn.strms.keys) :
    (ids.foldl (deleteStrmTxStrmq conn.strms) conn.tx.strmq).q = [] := by
  have hkeys {k : ℕ} : k ∈ ids ↔ ∃ s, conn.strms.find k = some s := by
    rw [hids.mem_iff, KeyMap.mem_keys_iff]
  refine foldl_deleteStrmTxStrmq h.wf (fun k hk => ?_) (hids.nodup_iff.2 conn.strms.nodup)
    fun k hk => hkeys.2 (h.found k hk)
  obtain ⟨s, hs⟩ := hkeys.1 hk
  exact h.indexOk hs

end Conn.QueueOk

end Dwnx
