import Dwnx.Lts.Allowed
import Dwnx.Lts.Sending

/-!
# What is sent within the limits

What a connection has sent is the length of the STREAM frames encoded (`Cfg.TotalOk`), and
what it has sent on a stream is within a limit that a frame has set, also once the stream
is closed (`Cfg.WindowOk`).
-/

namespace Dwnx

variable {quiet : Prop} {c c' : Cfg} {id : ℕ} {s s' : Strm} {pushed : Bool} {l : Label}
  {trace evs : List Event}

/-! ## What is sent -/

/-- The length of the STREAM frame that is encoded. -/
def Event.sentLen : Event → ℕ
  | .txFr (.stream fr) => fr.len
  | _ => 0

/-- The length of all STREAM frames that were encoded. -/
def sentTotal (trace : List Event) : ℕ := (trace.map Event.sentLen).sum

/-- The length of the STREAM frame that is not accounted for. -/
def Pending.sentLen : Pending → ℕ
  | .sent _ len _ => len
  | _ => 0

/-- What the connection accounts for is what was encoded. -/
def Cfg.TotalOk (c : Cfg) : Prop := sentTotal c.st.trace = c.conn.tx.offset + c.pending.sentLen

/-- What was encoded of the stream is within a limit that was set for it. -/
def Cfg.WindowOk (id : ℕ) (c : Cfg) : Prop :=
  ∃ n ∈ 0 :: allowed (!c.conn.server) (.stream id) c.st.trace,
    (sentData c.st.trace id).length ≤ n

theorem sentTotal_append (l m : List Event) : sentTotal (l ++ m) = sentTotal l + sentTotal m := by
  rw [sentTotal, List.map_append, List.sum_append]
  rfl

theorem sentTotal_of_sendsNone (h : ∀ e ∈ evs, e.SendsNone) : sentTotal evs = 0 := by
  rw [sentTotal, List.sum_eq_zero_iff]
  intro n hn
  obtain ⟨e, he, rfl⟩ := List.mem_map.1 hn
  cases e with
  | txFr fr =>
    cases fr with
    | stream fr => exact absurd rfl ((h _ he).stream fr)
    | _ => rfl
  | _ => rfl

/-! ## Steps -/

/-- What a step does to what is sent. -/
inductive SentStep (c c' : Cfg) : Prop
  | none (evs : List Event) (htrace : c'.st.trace = c.st.trace ++ evs)
      (hevs : ∀ e ∈ evs, e.SendsNone)
      (hsum : c'.conn.tx.offset + c'.pending.sentLen = c.conn.tx.offset + c.pending.sentLen)
  | frame {fr : FrameStream} {s : Strm} (htrace : c'.st.trace = c.st.trace ++ [.txFr (.stream fr)])
      (hp : c.pending = .idle) (hfind : c.conn.strms.find fr.streamId = some s)
      (hmax : s.tx.offset + fr.len ≤ s.tx.maxOffset)
      (hsum : c'.conn.tx.offset + c'.pending.sentLen = c.conn.tx.offset + fr.len)

/-- A step that encodes no STREAM frame and accounts for none. -/
theorem SentStep.of_pending (evs : List Event) (htrace : c'.st.trace = c.st.trace ++ evs)
    (hevs : ∀ e ∈ evs, e.SendsNone) (hoffset : c'.conn.tx.offset = c.conn.tx.offset)
    (hpending : c'.pending.sentLen = c.pending.sentLen) : SentStep c c' :=
  .none evs htrace hevs (congrArg₂ (· + ·) hoffset hpending)

theorem StrmStep.sentStep (h : StrmStep quiet c id s s' pushed c') : SentStep c c' := by
  cases h with
  | recordSent len fin hp =>
    -- the length moves from what is pending to the offset
    refine .none [] (List.append_nil _).symm (by simp) ?_
    cases fin <;> simp [hp, Pending.sentLen]
  | _ => first
    | exact .none [] (List.append_nil _).symm (by simp) rfl
    | exact .none [_] rfl (Event.SendsNone.all ⟨rfl, by rintro _ ⟨⟩⟩) rfl
    | exact .of_pending [] (List.append_nil _).symm (by simp) rfl (by simp [Pending.sentLen, *])
    | exact .of_pending [_] rfl (Event.SendsNone.all ⟨rfl, by rintro _ ⟨⟩⟩) rfl
        (by simp [Pending.sentLen, *])

theorem Step.sentStep (h : Step quiet l c c') (hr : l ≠ .reject) : SentStep c c' := by
  cases h with
  | strm hs hch =>
    have hoffset := congrArg (fun conn => conn.tx.offset) hch.rest
    cases hs.sentStep with
    | none evs htrace hevs hsum => exact .none evs htrace hevs (hoffset ▸ hsum)
    | frame htrace hp hfind hmax hsum => exact .frame htrace hp hfind hmax (hoffset ▸ hsum)
  | txStream q fr hp _ hfind hid _ _ hmax =>
    subst hid
    exact .frame rfl hp hfind hmax rfl
  | event e he => exact .none [e] rfl he.sendsNone.all rfl
  | accept =>
    refine .none [_] rfl (Event.SendsNone.all ⟨rfl, by rintro _ ⟨⟩⟩) ?_
    rw [Conn.setIdtr_eq]
    rfl
  | reject => exact absurd rfl hr
  | _ => first
    | exact .of_pending [] (List.append_nil _).symm (by simp) rfl (by simp [Pending.sentLen, *])
    | exact .of_pending [_] rfl (Event.SendsNone.all ⟨rfl, by rintro _ ⟨⟩⟩) rfl
        (by simp [Pending.sentLen, *])
    | exact .of_pending [_, _] rfl (Event.SendsNone.pair ⟨rfl, by rintro _ ⟨⟩⟩
        ⟨rfl, by rintro _ ⟨⟩⟩) rfl (by simp [Pending.sentLen, *])

theorem Step.totalOk (h : Step quiet l c c') (hr : l ≠ .reject) (hc : c.TotalOk) :
    c'.TotalOk := by
  cases h.sentStep hr with
  | none evs htrace hevs hsum =>
    rw [Cfg.TotalOk, htrace, sentTotal_append, sentTotal_of_sendsNone hevs, hsum]
    exact hc
  | frame htrace hp _ _ hsum =>
    rw [Cfg.TotalOk, hp] at hc
    rw [Cfg.TotalOk, htrace, sentTotal_append, hsum, hc]
    rfl

/-- A frame is encoded only within the limit of its stream, which frames have set. -/
theorem Step.windowOk (h : Step quiet l c c') (hr : l ≠ .reject)
    (hrecent : recent c.st.trace = c.st.trace) (hdata : c.DataOk) (hlimit : c.StrmAllowedOk id)
    (hc : c.WindowOk id) : c'.WindowOk id := by
  obtain ⟨n, hn, hle⟩ := hc
  cases h.sentStep hr with
  | none evs htrace hevs =>
    refine ⟨n, h.allowed_subset hn, ?_⟩
    rw [htrace, sentData_append_of_sendsNone hevs]
    exact hle
  | @frame fr s htrace hp hfind hmax =>
    rw [Cfg.WindowOk, htrace, sentData_concat]
    by_cases hid : fr.streamId = id
    · subst hid
      -- nothing of the stream was in flight, so its offset is the length encoded
      have hlen := (hdata.strm _ s hfind).length
      rw [hrecent, Cfg.inFlight, hp] at hlen
      refine ⟨_, htrace ▸ h.allowed_subset (hlimit.strm s hfind), ?_⟩
      rw [if_pos rfl, List.length_append, hlen, List.length_take]
      exact le_trans (Nat.add_le_add_left (min_le_left _ _) _) hmax
    · rw [if_neg hid, List.append_nil]
      exact ⟨n, htrace ▸ h.allowed_subset hn, hle⟩

/-! ## The invariant -/

/-- What an endpoint without early data has been allowed, and has sent. -/
structure Cfg.WithinOk (c : Cfg) : Prop where
  limit : ∀ peer k, c.AllowedOk peer k
  strm : ∀ id, c.StrmAllowedOk id
  window : ∀ id, c.WindowOk id
  total : c.TotalOk

/-- Every step but those about early data keeps what is allowed and sent. -/
theorem Step.withinOk (h : Step quiet l c c') (hI : Inv c) (he : l ≠ .early) (hr : l ≠ .reject)
    (hrecent : recent c.st.trace = c.st.trace) (hhear : c.HearOk) (hdata : c.DataOk)
    (hc : c.WithinOk) : c'.WithinOk where
  limit peer k := h.allowedOk he hr (hc.limit peer k)
  strm id := by
    refine h.strmAllowedOk hI he hr (fun fr hp => ?_) (hc.strm id)
    exact hrecent ▸ hhear.pending fr hp
  window id := h.windowOk hr hrecent hdata (hc.strm id) (hc.window id)
  total := h.totalOk hr hc.total

end Dwnx
