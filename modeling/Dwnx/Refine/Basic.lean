import Dwnx.Lts.Writing

/-!
# The primitives of the code

Rules for the operations that the code is made of: what each does to the state,
as a precondition of what is to hold afterwards. Pointers are followed where the
stream is known to be in the table.
-/

namespace Dwnx

open Exec

variable {env : Env} {α : Type} {st : St} {id : ℕ} {s : Strm}

/-! ## State -/

@[simp] theorem wp_modifyConn (f : Conn → Conn) {Q : Unit → St → Prop} {E : Err → St → Prop} :
    wp (modifyConn f) Q E env st = Q () { st with conn := f st.conn } := rfl

@[simp] theorem wp_emit (e : Event) {Q : Unit → St → Prop} {E : Err → St → Prop} :
    wp (emit e) Q E env st = Q () { st with trace := st.trace ++ [e] } := rfl

@[simp] theorem wp_alloc (a : Alloc) {Q : Unit → St → Prop} {E : Err → St → Prop} :
    wp (alloc a) Q E env st = if env.alloc a st.conn then Q () st else E .nomem st := by
  unfold alloc
  cases h : env.alloc a st.conn <;> simp [h]

@[simp] theorem wp_assertThat (a : Assertion) (p : Prop) [Decidable p] {Q : Unit → St → Prop}
    {E : Err → St → Prop} :
    wp (assertThat a p) Q E env st = if p then Q () st else E (.fault (.assertion a)) st := by
  unfold assertThat
  rw [wp_ite]
  rfl

/-- An assertion that holds does nothing. -/
theorem wp_assertThat_of {a : Assertion} {p : Prop} [Decidable p] (hp : p) {Q : Unit → St → Prop}
    {E : Err → St → Prop} (hQ : Q () st) : wp (assertThat a p) Q E env st := by
  rwa [wp_assertThat, if_pos hp]

/-- Memory is there, or the call fails for lack of it. -/
theorem wp_alloc_of {Q : Unit → St → Prop} {E : Err → St → Prop} (a : Alloc) (hQ : Q () st)
    (hE : ¬env.Passive → E .nomem st) : wp (alloc a) Q E env st := by
  rw [wp_alloc]
  split
  · exact hQ
  · next h => exact hE fun hp => h (hp.alloc a st.conn)

/-- A callback that calls nothing leaves its mark in the history. -/
theorem wp_callback_passive (hp : env.Passive) (e : Event) {Q : Unit → St → Prop}
    {E : Err → St → Prop} :
    wp (callback e) Q E env st ↔ Q () { st with trace := st.trace ++ [e] } := by
  simp only [callback, wp_bind, wp_read, wp_get', wp_emit, hp.app]
  rfl

/-! ## Streams -/

/-- A stream that is there is looked up. -/
theorem wp_deref (hf : st.conn.strms.find id = some s) {Q : Strm → St → Prop}
    {E : Err → St → Prop} : wp (deref id) Q E env st ↔ Q s st := by
  simp only [deref, wp_bind, wp_get', Conn.findStream, hf, wp_pure]

/-- A stream that is there is changed, and nothing else. -/
theorem wp_modifyStrm (hf : st.conn.strms.find id = some s) (f : Strm → Strm)
    {Q : Unit → St → Prop} {E : Err → St → Prop} :
    wp (modifyStrm id f) Q E env st ↔
      Q () { st with conn.strms := st.conn.strms.modify id f } := by
  simp only [modifyStrm, wp_bind, wp_deref hf, wp_modifyConn]

/-- Changing the object of a stream is a change of the stream. -/
theorem wp_modifyStrm_of (hf : st.conn.strms.find id = some s) {f : Strm → Strm}
    {Q : Unit → St → Prop} {E : Err → St → Prop}
    (hQ : ∀ conn, Changes st.conn conn id s (f s) false → Q () { st with conn := conn }) :
    wp (modifyStrm id f) Q E env st :=
  (wp_modifyStrm hf f).2 (hQ _ (.of_modify hf f))

/-- Queueing a stream is a change of it, if only of its place in the queue. -/
theorem wp_connTxStrmqPushIfNot (hq : st.conn.QueueOk) (hf : st.conn.strms.find id = some s)
    {Q : Unit → St → Prop} {E : Err → St → Prop}
    (hQ : ∀ conn, Changes st.conn conn id s s true → Q () { st with conn := conn })
    (hE : ¬env.Passive → ∀ t, E .nomem t) : wp (connTxStrmqPushIfNot id) Q E env st := by
  simp only [connTxStrmqPushIfNot, wp_bind, wp_deref hf, wp_get', wp_ite]
  split
  · next hi => exact hQ st.conn (.of_mem hf (hq.queued id s hf hi))
  · next hi =>
    have hn : id ∉ st.conn.tx.strmq.q := fun hm => hi ((hq.isTxQueued_iff hf).2 hm)
    have hcycle : wp connTxStrmqFirstCycle (fun cycle t => cycle = 0 ∧ t = st)
        (fun _ _ => False) env st := by
      unfold connTxStrmqFirstCycle
      simp only [wp_bind, wp_get']
      split
      · next k _ hqk =>
        obtain ⟨a, ha⟩ := hq.found k (hqk ▸ List.mem_cons_self ..)
        simp only [wp_bind, wp_deref ha, wp_pure, and_true]
        exact hq.cycle k a ha
      · exact ⟨rfl, rfl⟩
    refine wp_mono hcycle ?_ fun _ _ h => h.elim
    rintro _ _ ⟨rfl, rfl⟩
    refine wp_modifyStrm_of hf fun conn hc => ?_
    have hs : { s with cycle := 0 } = s := by rw [← hq.cycle id s hf]
    rw [hs] at hc
    rw [connTxStrmqPush, wp_bind]
    refine wp_alloc_of .strmq ?_ fun hp => hE hp _
    have hn' : id ∉ conn.tx.strmq.q := by simpa [hc.mem] using hn
    exact hQ _ (hc.trans (.push (hc.queueOk hq rfl rfl) hc.found' hn'))

end Dwnx
