import Dwnx.Runs

/-!
# The passes of a call that reads

A call of `connRead` is taken apart into the passes of its loop (`Passes`), each from
an endpoint of which the invariants hold (`passes_at`).

* `read_safe`: whatever the peer sends, no pass fails with a fault, and each that does
  not return reads a byte.
-/

namespace Dwnx

open Exec

variable {env : Env} {server : Bool} {settings : Settings} {params : TransportParams} {e e' : Endp}
  {ts : ℕ} {data p : List UInt8}

/-- The endpoint once a call at `ts` has begun. -/
def Endp.tick (e : Endp) (ts : ℕ) : Endp := { e with st.conn.lastTs := ts }

/-- The endpoints before the passes of a call of `connRead`, each with the rest of the
    chunk. -/
inductive Passes (env : Env) (ts : ℕ) (e : Endp) (data : List UInt8) : Endp → List UInt8 → Prop
  | start : Passes env ts e data (e.tick ts) data
  | pass {e' e'' : Endp} {p q : List UInt8} (h : Passes env ts e data e' p) (hp : p ≠ [])
      (hrun : connReadStep ts p env e' = (.ok (some q), e'')) : Passes env ts e data e'' q

theorem connUpdateTimestamp_run {st : St} (hts : st.conn.lastTs ≤ ts) :
    connUpdateTimestamp ts env st = (.ok (), { st with conn.lastTs := ts }) := by
  change ((if st.conn.lastTs ≤ ts then pure () else throw _ : M Unit) >>= fun _ => modifyConn _)
    env st = _
  rw [if_pos hts]
  rfl

/-- The configurations of `G` at the time `ts`. -/
def AtTime (G : Cfg → Prop) (ts : ℕ) (c : Cfg) : Prop := G c ∧ c.conn.lastTs = ts

section

variable {G : Cfg → Prop} {c : Cfg} (hG : Timed env.Passive G)
  (hrx : ∀ l c c', G c → Step env.Passive l c c' → l ≠ .early → l ≠ .reject → G c')

include hG hrx

/-- A pass from such a configuration. -/
theorem connReadStep_at (h : At (AtTime G ts) e c) (hp : p ≠ []) :
    wp (connReadStep ts p)
      (fun rest e' => (∃ c', At (AtTime G ts) e' c') ∧ ∀ q, rest = some q → q.length < p.length)
      (fun err _ => err.isFault = false) env e := by
  refine wp_mono (connReadStep_spec False (hG.at ts) h.mem h.st h.between h.mem.2.symm h.reader hp
    (fun l c' hs hl => ?_) False.elim) ?_ fun _ _ he => he.1
  · exact ⟨hrx l c c' h.mem.1 hs hl.ne_early hl.ne_reject, (hs.lastTs hl.ne_time).trans h.mem.2⟩
  · rintro rest e' ⟨-, -, hmem, hinv, hprogress⟩
    exact ⟨⟨_, hmem, rfl, hinv, ⟨h.between.pending, h.between.writing, h.between.unaccepted⟩⟩,
      hprogress⟩

omit hrx in
theorem tick_at (h : At G e c) (hts : e.st.conn.lastTs ≤ ts) :
    At (AtTime G ts) (e.tick ts) { c with st.conn.lastTs := ts } := by
  have htime := hG.time _ _ h.mem (@Step.time _ c ts (by rwa [h.st] at hts))
  refine ⟨⟨htime, rfl⟩, ?_, ⟨h.reader.ok, h.reader.phase, h.reader.body⟩,
    ⟨h.between.pending, h.between.writing, h.between.unaccepted⟩⟩
  rw [Endp.tick, h.st]

/-- Every pass starts from a configuration of `G`. -/
theorem passes_at (h : At G e c) (hts : e.st.conn.lastTs ≤ ts) (hpass : Passes env ts e data e' p) :
    ∃ c', At (AtTime G ts) e' c' := by
  induction hpass with
  | start => exact ⟨_, tick_at hG h hts⟩
  | @pass e' e'' p q _ hp hrun ih =>
    obtain ⟨c, hc⟩ := ih
    exact ((connReadStep_at hG hrx hc hp).of_ok hrun).1

/-- A call goes on from any of its passes. -/
theorem connRead_of_passes (h : At G e c) (hts : e.st.conn.lastTs ≤ ts)
    (hpass : Passes env ts e data e' p) (hp : p ≠ []) :
    ∃ n, p.length ≤ n ∧ connRead data ts env e = readLoop ts n p env e' := by
  induction hpass with
  | start =>
    refine ⟨data.length, le_rfl, ?_⟩
    rw [connRead, run_bind, liftM, zoom, connUpdateTimestamp_run hts, if_neg hp]
    rfl
  | @pass e' e'' q r hpass hq hrun ih =>
    obtain ⟨n, hn, heq⟩ := ih hq
    obtain ⟨c', hc'⟩ := passes_at hG hrx h hts hpass
    have hlt := ((connReadStep_at hG hrx hc' hq).of_ok hrun).2 r rfl
    obtain ⟨m, rfl⟩ : ∃ m, n = m + 1 := ⟨n - 1, by omega⟩
    refine ⟨m, by omega, ?_⟩
    obtain ⟨b, q, rfl⟩ := List.exists_cons_of_ne_nil hq
    rw [heq, readLoop, run_bind, hrun]
    exact List.cons_ne_nil b q

/-- The error of a pass is that of the call. -/
theorem connRead_of_error (h : At G e c) (hts : e.st.conn.lastTs ≤ ts)
    (hpass : Passes env ts e data e' p) (hp : p ≠ []) {err : Err} {e'' : Endp}
    (hrun : connReadStep ts p env e' = (.error err, e'')) :
    connRead data ts env e = (.error err, e'') := by
  obtain ⟨n, hn, heq⟩ := connRead_of_passes hG hrx h hts hpass hp
  obtain ⟨b, q, rfl⟩ := List.exists_cons_of_ne_nil hp
  obtain ⟨m, rfl⟩ : ∃ m, n = m + 1 := ⟨n - 1, by rw [List.length_cons] at hn; omega⟩
  rw [heq, readLoop, run_bind, hrun]
  exact List.cons_ne_nil b q

/-- What every pass keeps holds of the rest of the chunk, and in the end of nothing. -/
theorem readLoop_keep {I : Endp → List UInt8 → Prop}
    (hI : ∀ e p, (∃ c, At (AtTime G ts) e c) → p ≠ [] → I e p →
      wp (connReadStep ts p) (fun rest e' => I e' (rest.getD [])) (fun _ _ => True) env e)
    (n : ℕ) (h : At (AtTime G ts) e c) (h₀ : I e p) :
    wp (readLoop ts n p) (fun _ e' => I e' []) (fun _ _ => True) env e := by
  induction n generalizing e p c with
  | zero =>
    cases p with
    | nil => exact h₀
    | cons b p => trivial
  | succ n ih =>
    cases p with
    | nil => exact h₀
    | cons b p =>
      have hne := List.cons_ne_nil b p
      rw [readLoop.eq_3 _ _ _ hne, wp_bind]
      refine wp_mono (wp_and (connReadStep_at hG hrx h hne) (hI e _ ⟨c, h⟩ hne h₀)) ?_
        fun _ _ _ => trivial
      rintro rest e' ⟨⟨⟨c', hc'⟩, -⟩, h'⟩
      cases rest with
      | none => exact h'
      | some q => exact ih hc' h'

/-- What holds as a call begins, and is kept by its passes, holds when it returns. -/
theorem connRead_keep {I : Endp → List UInt8 → Prop}
    (hI : ∀ e p, (∃ c, At (AtTime G ts) e c) → p ≠ [] → I e p →
      wp (connReadStep ts p) (fun rest e' => I e' (rest.getD [])) (fun _ _ => True) env e)
    (h : At G e c) (h₀ : I (e.tick ts) data) :
    wp (connRead data ts) (fun _ e' => I e' []) (fun _ _ => True) env e := by
  rw [connRead, wp_bind, wp_liftM, connUpdateTimestamp, wp_bind, wp_get', wp_bind, wp_assertThat]
  split
  · next hts =>
    rw [wp_modifyConn, wp_ite]
    split
    · next hnil =>
      rw [hnil] at h₀
      rw [wp_bind, wp_get']
      dsimp only
      split
      · trivial
      · trivial
      · exact h₀
    · exact readLoop_keep hG hrx hI _ (tick_at hG h hts) h₀
  · trivial

end

/-- Whatever the peer sends, a call that reads fails with no fault. Neither does any of
    its passes, which never has more left of a field than of the record, and reads a
    byte unless it returns. -/
theorem read_safe (h : Run env server settings params e) (hts : e.st.conn.lastTs ≤ ts)
    (data : List UInt8) :
    (∀ err e', connRead data ts env e = (.error err, e') → err.isFault = false) ∧
    ∀ e' p, Passes env ts e data e' p →
      e'.reader.rcrd.fieldLeft ≤ e'.reader.rcrd.recordLeft ∧
      (p ≠ [] →
        (∀ err e'', connReadStep ts p env e' = (.error err, e'') → err.isFault = false) ∧
        ∀ rest e'', connReadStep ts p env e' = (.ok rest, e'') →
          e''.reader.rcrd.fieldLeft ≤ e''.reader.rcrd.recordLeft ∧
          ∀ q, rest = some q → q.length < p.length) := by
  have hG := Steps.timed (h.sound_new env.Passive)
  have hrx (l c c') (h : Steps env.Passive (Cfg.new server settings params) c)
      (hs : Step env.Passive l c c') (_ : l ≠ .early) (_ : l ≠ .reject) := h.tail hs
  obtain ⟨c, hc, -⟩ := h.steps
  refine ⟨fun err e' hrun => ?_, fun e' p hpass => ?_⟩
  · have hc' : ReadTo (Steps env.Passive (Cfg.new server settings params)) c e c :=
      { hc with out := rfl }
    rcases (connRead_spec hG hrx hc' data).of_error hrun with herr | ⟨-, hlt⟩
    · exact herr.1
    · rw [hc.st] at hts
      exact absurd hts hlt
  · obtain ⟨c, hc⟩ := passes_at hG hrx hc hts hpass
    refine ⟨hc.reader.ok.field.le, fun hp => ⟨fun err e'' hrun => ?_, fun rest e'' hrun => ?_⟩⟩
    · exact (connReadStep_at hG hrx hc hp).of_error hrun
    · obtain ⟨⟨c', hc'⟩, hprogress⟩ := (connReadStep_at hG hrx hc hp).of_ok hrun
      exact ⟨hc'.reader.ok.field.le, hprogress⟩

/-- Data of which the end is missing, and then a shutdown of its stream. -/
def cutRun : RunTo Env.quiet fun e => e.reader.rcrd.fieldLeft == 2 && e.st.conn.lastTs == 0 where
  calls := [.read [64, 6, 10, 1, 3, 65] 0, .app (.shutdownStreamRead 1 5)]
  any := by decide +kernel

theorem read_safe_cut : ∃ e, Run Env.quiet false smallSettings smallParams e ∧
    e.reader.rcrd.fieldLeft = 2 ∧
    ∀ err e', connRead [66, 67, 0, 0, 0] 5 Env.quiet e = (.error err, e') →
      err.isFault = false := by
  obtain ⟨e, h, hp⟩ := cutRun.exists_run
  simp only [Bool.and_eq_true, beq_iff_eq] at hp
  exact ⟨e, h, hp.1, (read_safe h (by omega) _).1⟩

end Dwnx
