import Dwnx.Lts.Notices
import Dwnx.Runs

/-!
# Frames that callbacks announce

The callbacks about STOP_SENDING and MAX_STREAMS frames come before the frames, and
come again if there was no room for them.

* `stopSending_once`: the callback about the STOP_SENDING of a stream comes once, with
  the frame, unless there is no room for it, as shown by `not_stopSending_once`;
* `maxStreams_increasing`: the limits told are those of the MAX_STREAMS frames, and
  increase, with the same exception, shown by `not_maxStreams_increasing`.
-/

namespace Dwnx

variable {env : Env} {server : Bool} {settings : Settings} {params : TransportParams} {e : Endp}
  {k : Notice}

theorem Run.sent (h : Run env server settings params e) :
    ∃ c, At (Steps env.Passive (Cfg.new server settings params)) e c ∧ Sound env.Passive c ∧
      c.SentOk := by
  refine h.keep ⟨fun _ h => absurd rfl h, fun _ => Nat.zero_le _, fun _ => List.Pairwise.nil,
    fun _ _ => nofun⟩ fun l c c' hs hc hstep => hstep.sentOk hs.toInv hc

/-- Between the calls of a run, callbacks have told of the frames encoded. -/
theorem Run.told_eq_sent (h : Run env server settings params e) (hin : k.InTime e.st.trace) :
    told k e.st.trace = Dwnx.sent k e.st.trace := by
  obtain ⟨c, hc, -, hok⟩ := h.keep (P := fun c => k.InTime c.st.trace → c.NoticeOk k)
    (fun _ => ⟨fun _ => rfl, nofun⟩) fun l c c' hs hc hstep hin => by
      obtain ⟨evs, htrace, -⟩ := hstep.trace
      exact hstep.noticeOk hs.toInv (hc (htrace ▸ hin).of_append) hin
  rw [hc.st] at hin ⊢
  refine (hok hin).idle fun v hv => ?_
  cases hc.between.pending.symm.trans hv

/-! ## STOP_SENDING -/

/-- The callback about the STOP_SENDING of a stream comes with its frame, at most once,
    if it comes with room for the frame. -/
theorem stopSending_once (h : Run env server settings params e) (id : ℕ)
    (hin : (Notice.stop id).InTime e.st.trace) :
    told (.stop id) e.st.trace = sent (.stop id) e.st.trace ∧
      (told (.stop id) e.st.trace).length ≤ 1 := by
  obtain ⟨c, hc, -, hsent⟩ := h.sent
  have he := h.told_eq_sent hin
  exact ⟨he, he ▸ hc.st ▸ hsent.once id⟩

/-- A history without callbacks of the kind. -/
theorem Notice.inTime_of_none {trace : List Event} (h : ∀ e ∈ trace, e.tells k = none) :
    k.InTime trace := by
  rintro pre ev post rfl
  refine ⟨fun v hv => ?_, ?_⟩
  · cases (h ev (by simp)).symm.trans hv
  · rintro uni n v - - ⟨pre', e, evs, rfl, hv, -⟩
    cases (h e (by simp)).symm.trans hv

/-- One callback at the end of a history, with its frame. -/
theorem Notice.inTime_of_last {trace : List Event} {left v : ℕ} {ev : Event} {fr : Frame}
    (h : ∀ e ∈ trace, e.tells k = none) (hv : ev.tells k = some v)
    (hleft : (k.frame v).wire.length ≤ left) :
    k.InTime (trace ++ [.room left, ev, .txFr fr]) := by
  have hev (limit : Limit) (n : ℕ) : ev ≠ .extended limit n := by
    rintro rfl
    cases hv
  rw [show trace ++ [.room left, ev, .txFr fr] =
    trace ++ [.room left] ++ [ev] ++ [.txFr fr] by simp]
  refine along_concat.2 ⟨along_concat.2 ⟨along_concat.2 ⟨inTime_of_none h, nofun, nofun⟩, ?_⟩,
    nofun, nofun⟩
  refine ⟨fun w hw => ?_, fun uni n w _ he => absurd he (hev _ _)⟩
  obtain rfl := Option.some.inj (hv.symm.trans hw)
  exact ⟨trace, left, rfl, hleft⟩

/-- The history ends with a callback, for which there was room, and its frame. -/
def endsInTime (k : Notice) (v : ℕ) (trace : List Event) : Bool :=
  match trace.reverse with
  | .txFr _ :: e :: .room left :: rest =>
    rest.all (fun e => e.tells k = none) && e.tells k = some v && (k.frame v).wire.length ≤ left
  | _ => false

theorem endsInTime_inTime {trace : List Event} {v : ℕ} (h : endsInTime k v trace = true) :
    k.InTime trace := by
  unfold endsInTime at h
  split at h
  · next fr ev left rest he =>
    have htrace : trace = rest.reverse ++ [.room left, ev, .txFr fr] := by
      rw [← List.reverse_inj, he]
      simp
    simp only [Bool.and_eq_true, List.all_eq_true, decide_eq_true_eq] at h
    rw [htrace]
    exact Notice.inTime_of_last (fun e he => h.1.1 e (List.mem_reverse.1 he)) h.1.2 h.2
  · cases h

/-- A STOP_SENDING that is announced, and has room. -/
def stopRun : RunTo Env.quiet fun e =>
    e.st.trace.getLast? = some (.strmqPop 0) && endsInTime (.stop 0) 5 e.st.trace.dropLast &&
      told (.stop 0) e.st.trace == [5] where
  calls := [.app .openBidiStream, .writeRecord 100 0, .app (.shutdownStreamRead 0 5),
    .writeRecord 100 0]
  any := by decide +kernel

theorem stopSending_once_room : ∃ e, Run Env.quiet false smallSettings smallParams e ∧
    told (.stop 0) e.st.trace = [5] ∧ sent (.stop 0) e.st.trace = [5] := by
  obtain ⟨e, h, hp⟩ := stopRun.exists_run
  simp only [Bool.and_eq_true, beq_iff_eq, decide_eq_true_eq] at hp
  obtain ⟨⟨hpop, hends⟩, htold⟩ := hp
  obtain ⟨l, htrace⟩ := List.getLast?_eq_some_iff.1 hpop
  rw [htrace, List.dropLast_concat] at hends
  have hin : (Notice.stop 0).InTime e.st.trace :=
    htrace ▸ along_concat.2 ⟨endsInTime_inTime hends, nofun, nofun⟩
  exact ⟨e, h, htold, (stopSending_once h 0 hin).1 ▸ htold⟩

/-- Without room for the frame the callback comes, and comes again with the next
    record. -/
def stopAgainRun : RunTo Env.quiet fun e =>
    told (.stop 0) e.st.trace == [5, 5] && sent (.stop 0) e.st.trace == [5] where
  calls := [.app .openBidiStream, .writeRecord 100 0, .app (.shutdownStreamRead 0 5),
    .writeRecord 4 0, .writeRecord 100 0]
  any := by decide +kernel

theorem not_stopSending_once : ∃ e, Run Env.quiet false smallSettings smallParams e ∧
    ¬(told (.stop 0) e.st.trace = sent (.stop 0) e.st.trace ∧
      (told (.stop 0) e.st.trace).length ≤ 1) := by
  obtain ⟨e, h, hp⟩ := stopAgainRun.exists_run
  rw [Bool.and_eq_true, beq_iff_eq, beq_iff_eq] at hp
  exact ⟨e, h, by simp [hp.1]⟩

/-! ## MAX_STREAMS -/

/-- The limits on streams that callbacks tell are those of the MAX_STREAMS frames, and
    increase, if the callbacks come with room for the frames, and do not raise the same
    limit. -/
theorem maxStreams_increasing (h : Run env server settings params e) (uni : Bool)
    (hin : (Notice.streams uni).InTime e.st.trace) :
    (told (.streams uni) e.st.trace).Pairwise (· < ·) ∧
      told (.streams uni) e.st.trace = sent (.streams uni) e.st.trace := by
  obtain ⟨c, hc, -, hsent⟩ := h.sent
  have he := h.told_eq_sent hin
  exact ⟨he ▸ hc.st ▸ hsent.increasing uni, he⟩

/-- A limit that is raised, announced, and has room. -/
def raiseRun : RunTo Env.quiet fun e => endsInTime (.streams false) 104 e.st.trace &&
    told (.streams false) e.st.trace == [104] where
  calls := [.writeRecord 100 0, .app (.extendMaxStreamsBidi 100), .writeRecord 100 0]
  any := by decide +kernel

theorem maxStreams_increasing_room : ∃ e, Run Env.quiet false smallSettings smallParams e ∧
    told (.streams false) e.st.trace = [104] ∧ sent (.streams false) e.st.trace = [104] := by
  obtain ⟨e, h, hp⟩ := raiseRun.exists_run
  rw [Bool.and_eq_true, beq_iff_eq] at hp
  exact ⟨e, h, hp.2, (maxStreams_increasing h false (endsInTime_inTime hp.1)).2 ▸ hp.2⟩

/-- Without room for the frame the callback comes, and comes again with the next
    record. -/
def raiseAgainRun : RunTo Env.quiet fun e =>
    told (.streams false) e.st.trace == [104, 104, 104] where
  calls := [.writeRecord 100 0, .app (.extendMaxStreamsBidi 100), .writeRecord 4 0,
    .writeRecord 100 0]
  any := by decide +kernel

theorem not_maxStreams_increasing : ∃ e, Run Env.quiet false smallSettings smallParams e ∧
    ¬((told (.streams false) e.st.trace).Pairwise (· < ·) ∧
      told (.streams false) e.st.trace = sent (.streams false) e.st.trace) := by
  obtain ⟨e, h, hp⟩ := raiseAgainRun.exists_run
  rw [beq_iff_eq] at hp
  exact ⟨e, h, by simp [hp]⟩

end Dwnx
