import Dwnx.Lts.Queue

/-!
# A change of one stream

Most of what the code does concerns one stream: its object changes, and it may
join the queue. `Changes` says what such an operation leaves of the connection,
whatever the heap looks like inside; changes of the same stream compose.

* `Changes.of_modify`, `Changes.push`: the two operations that changes are made of;
* `Changes.trans`: one change after another;
* `Changes.queueOk`: the queue stays as it should be.
-/

namespace Dwnx

variable {conn conn₁ conn₂ conn₃ : Conn} {id : ℕ} {s s₁ s₂ s₃ : Strm} {pushed pushed' : Bool}

/-- `conn₂` is `conn₁` but for the stream `id`, which was `s₁` and is `s₂`, and is
    queued now if `pushed`. -/
structure Changes (conn₁ conn₂ : Conn) (id : ℕ) (s₁ s₂ : Strm) (pushed : Bool) : Prop where
  found : conn₁.strms.find id = some s₁
  find : ∀ k, conn₂.strms.find k = if k = id then some s₂ else conn₁.strms.find k
  sum : ∀ f : Strm → ℕ, conn₂.strms.sumOf f + f s₁ = conn₁.strms.sumOf f + f s₂
  wf : conn₁.tx.strmq.Wf → conn₂.tx.strmq.Wf
  mem : ∀ k, k ∈ conn₂.tx.strmq.q ↔ k ∈ conn₁.tx.strmq.q ∨ pushed = true ∧ k = id
  index : ∀ k, k ∉ conn₁.tx.strmq.q → k ≠ id ∨ pushed = false →
    conn₂.isTxQueued k = conn₁.isTxQueued k
  head : ∀ k, conn₁.tx.strmq.q[0]? = some k →
    conn₂.tx.strmq.q[0]? = some k ∨
      conn₂.tx.strmq.q[0]? = some id ∧ id < k ∧ id ∉ conn₁.tx.strmq.q
  rest : conn₂ = { conn₁ with strms := conn₂.strms, tx.strmq := conn₂.tx.strmq }

namespace Changes

theorem found' (h : Changes conn₁ conn₂ id s₁ s₂ pushed) : conn₂.strms.find id = some s₂ := by
  rw [h.find, if_pos rfl]

theorem find_of_ne (h : Changes conn₁ conn₂ id s₁ s₂ pushed) {k : ℕ} (hk : k ≠ id) :
    conn₂.strms.find k = conn₁.strms.find k := by
  rw [h.find, if_neg hk]

/-- The stream `k` after the change is the one changed, or was there before. -/
theorem cases (h : Changes conn₁ conn₂ id s₁ s₂ pushed) {k : ℕ}
    (hk : conn₂.strms.find k = some s) :
    k = id ∧ s = s₂ ∨ k ≠ id ∧ conn₁.strms.find k = some s := by
  rw [h.find] at hk
  split at hk
  · next e => exact .inl ⟨e, (Option.some.inj hk).symm⟩
  · next e => exact .inr ⟨e, hk⟩

theorem find_eq_none (h : Changes conn₁ conn₂ id s₁ s₂ pushed) {k : ℕ} :
    conn₂.strms.find k = none ↔ conn₁.strms.find k = none := by
  rw [h.find]
  split
  · next e => simp [e, h.found]
  · exact Iff.rfl

theorem of_modify (hf : conn.strms.find id = some s) (f : Strm → Strm) :
    Changes conn { conn with strms := conn.strms.modify id f } id s (f s) false where
  found := hf
  find k := by
    rw [KeyMap.find_modify]
    split
    · next e => rw [e, hf, Option.map_some]
    · rfl
  sum _ := KeyMap.sumOf_modify hf f
  wf h := h
  mem k := by simp
  index _ _ _ := rfl
  head k hk := .inl hk
  rest := rfl

theorem trans (h : Changes conn₁ conn₂ id s₁ s₂ pushed)
    (h' : Changes conn₂ conn₃ id s₂ s₃ pushed') :
    Changes conn₁ conn₃ id s₁ s₃ (pushed || pushed') where
  found := h.found
  find k := by
    rw [h'.find]
    split
    · rfl
    · next hk => exact h.find_of_ne hk
  sum f := by
    have h₁ := h.sum f
    have h₂ := h'.sum f
    omega
  wf hw := h'.wf (h.wf hw)
  mem k := by
    rw [h'.mem, h.mem, Bool.or_eq_true]
    tauto
  index k hk hid := by
    have hp : k ≠ id ∨ pushed = false := hid.imp_right fun e => (Bool.or_eq_false_iff.1 e).1
    have hk' : k ∉ conn₂.tx.strmq.q := by
      rw [h.mem]
      rintro (hm | ⟨rfl, rfl⟩)
      · exact hk hm
      · simp at hp
    rw [h'.index k hk' (hid.imp_right fun e => (Bool.or_eq_false_iff.1 e).2), h.index k hk hp]
  head k hk := by
    rcases h.head k hk with hk₂ | ⟨hid, hlt, hm⟩
    · rcases h'.head k hk₂ with hk₃ | ⟨hk₃, hlt, hm⟩
      · exact .inl hk₃
      · exact .inr ⟨hk₃, hlt, fun hm' => hm ((h.mem id).2 (.inl hm'))⟩
    · rcases h'.head id hid with hk₃ | ⟨-, hlt', -⟩
      · exact .inr ⟨hk₃, hlt, hm⟩
      · omega
  rest := by
    conv_lhs => rw [h'.rest, h.rest]

theorem queueOk (h : Changes conn₁ conn₂ id s₁ s₂ pushed) (hq : conn₁.QueueOk)
    (hid : s₂.streamId = s₁.streamId) (hc : s₂.cycle = s₁.cycle) : conn₂.QueueOk where
  wf := h.wf hq.wf
  found k hk := by
    rcases (h.mem k).1 hk with hm | ⟨-, rfl⟩
    · obtain ⟨s, hs⟩ := hq.found k hm
      by_cases e : k = id
      · exact ⟨s₂, e ▸ h.found'⟩
      · exact ⟨s, (h.find_of_ne e).trans hs⟩
    · exact ⟨s₂, h.found'⟩
  queued k s hf hk := by
    rw [h.mem]
    by_contra hn
    obtain ⟨hm, hp⟩ := not_or.1 hn
    have hp : k ≠ id ∨ pushed = false := by
      by_cases e : k = id
      · exact .inr (by simpa [e] using hp)
      · exact .inl e
    rw [h.index k hm hp] at hk
    rcases h.cases hf with ⟨rfl, -⟩ | ⟨-, hf⟩
    · exact hm (hq.queued k s₁ h.found hk)
    · exact hm (hq.queued k s hf hk)
  streamId k s hf := by
    rcases h.cases hf with ⟨rfl, rfl⟩ | ⟨-, hf⟩
    · exact hid.trans (hq.streamId k s₁ h.found)
    · exact hq.streamId k s hf
  cycle k s hf := by
    rcases h.cases hf with ⟨rfl, rfl⟩ | ⟨-, hf⟩
    · exact hc.trans (hq.cycle k s₁ h.found)
    · exact hq.cycle k s hf

/-- A change of the table and the queue is one whatever else the connection is. -/
theorem congr (h : Changes conn₁ conn₂ id s₁ s₂ pushed) {conn₁' conn₂' : Conn}
    (hs₁ : conn₁'.strms = conn₁.strms) (hq₁ : conn₁'.tx.strmq = conn₁.tx.strmq)
    (hs₂ : conn₂'.strms = conn₂.strms) (hq₂ : conn₂'.tx.strmq = conn₂.tx.strmq)
    (hrest : conn₂' = { conn₁' with strms := conn₂'.strms, tx.strmq := conn₂'.tx.strmq }) :
    Changes conn₁' conn₂' id s₁ s₂ pushed where
  found := hs₁ ▸ h.found
  find := by simpa only [hs₁, hs₂] using h.find
  sum := by simpa only [hs₁, hs₂] using h.sum
  wf := by simpa only [hq₁, hq₂] using h.wf
  mem := by simpa only [hq₁, hq₂] using h.mem
  index := by simpa only [Conn.isTxQueued, hq₁, hq₂] using h.index
  head := by simpa only [hq₁, hq₂] using h.head
  rest := hrest

/-- Queueing a stream that is not queued. -/
theorem push (hq : conn.QueueOk) (hf : conn.strms.find id = some s)
    (hn : id ∉ conn.tx.strmq.q) :
    Changes conn
      { conn with tx.strmq := conn.tx.strmq.push (cycleLess conn.strms) id } id s s true where
  found := hf
  find k := by
    split
    · next e => rw [e, hf]
    · rfl
  sum _ := rfl
  wf hw := Pq.wf_push hw hn
  mem k := by simpa using Pq.mem_push
  index k hk hid := by
    simp only [Conn.isTxQueued, Pq.index_push hk (hid.resolve_right (by simp))]
  head k hk := (Pq.push_head_or hk).imp_right fun h => ⟨h.1, hq.lt_of_cycleLess h.2, hn⟩
  rest := rfl

/-- Queueing a stream that is queued. -/
theorem of_mem (hf : conn.strms.find id = some s) (hm : id ∈ conn.tx.strmq.q) :
    Changes conn conn id s s true where
  found := hf
  find k := by
    split
    · next e => rw [e, hf]
    · rfl
  sum _ := rfl
  wf hw := hw
  mem k := by
    rw [or_iff_left_of_imp]
    rintro ⟨-, rfl⟩
    exact hm
  index _ _ _ := rfl
  head k hk := .inl hk
  rest := rfl

/-- Nothing changes. -/
theorem refl (hf : conn.strms.find id = some s) : Changes conn conn id s s false where
  found := hf
  find k := by
    split
    · next e => rw [e, hf]
    · rfl
  sum _ := rfl
  wf hw := hw
  mem k := by simp
  index _ _ _ := rfl
  head k hk := .inl hk
  rest := rfl

end Changes

end Dwnx
