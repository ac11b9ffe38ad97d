import Dwnx.Refine.Api

/-!
# Runs

A run starts with a new connection (`Started`) and goes on with legal calls. Explicit
lists of calls can be carried out (`runCalls`).
-/

namespace Dwnx

variable {env : Env} {e₀ e e' : Endp}

/-! ## From a new connection -/

/-- A legal run leads from a new connection to the endpoint. -/
structure Run (env : Env) (server : Bool) (settings : Settings) (params : TransportParams)
    (e : Endp) : Prop where
  created : ∃ e₀, connNew server settings params = .ok e₀ ∧ Reach env Call.Legal e₀ e
  /-- A 64-bit integer, as any other parameter is by the assertions. -/
  uni : params.initialMaxStreamDataUni ≤ uint64Max

section
variable {server : Bool} {settings : Settings} {params : TransportParams}

/-- The parameters that a connection is created with are those that are asserted. -/
theorem Run.init (h : Run env server settings params e) :
    params.Asserted ∧ Reach env Call.Legal (.new server settings params) e := by
  obtain ⟨e₀, hnew, hreach⟩ := h.created
  unfold connNew at hnew
  split at hnew
  · next hparams =>
    cases hnew
    exact ⟨hparams, hreach⟩
  · cases hnew

theorem Run.sound_new (h : Run env server settings params e) (quiet : Prop) :
    Sound quiet (Cfg.new server settings params) :=
  Dwnx.sound_new server settings h.init.1 h.uni

/-- What holds at the start of a run, and is kept by steps, holds all along. -/
theorem Run.keep (h : Run env server settings params e) {P : Cfg → Prop}
    (h₀ : P (Cfg.new server settings params))
    (hP : ∀ l c c', Sound env.Passive c → P c → Step env.Passive l c c' → P c') :
    ∃ c, At (Steps env.Passive (Cfg.new server settings params)) e c ∧
      Sound env.Passive c ∧ P c := by
  have hs := h.sound_new env.Passive
  obtain ⟨c, hc⟩ := reach_steps (fun _ _ h => h) hs (at_new server settings params) h.init.2
  exact ⟨c, hc, Steps.keep hc.mem hs hP h₀⟩

/-- A run is one of the transition system. -/
theorem Run.steps (h : Run env server settings params e) :
    ∃ c, At (Steps env.Passive (Cfg.new server settings params)) e c ∧ Sound env.Passive c := by
  obtain ⟨c, hc, hs, -⟩ := h.keep (P := fun _ => True) trivial fun _ _ _ _ _ _ => trivial
  exact ⟨c, hc, hs⟩

/-- A run goes on with a call. -/
theorem Run.call (h : Run env server settings params e) {call : Call}
    {r : Except Err (List UInt8)} (hl : call.Legal e) (hrun : call.run env e = (r, e'))
    (hr : call.Continues r) : Run env server settings params e' where
  created := by
    obtain ⟨e₀, hnew, hreach⟩ := h.created
    exact ⟨e₀, hnew, hreach.call hl hrun hr⟩
  uni := h.uni

/-- What a call made in a run does. -/
theorem Run.spec (h : Run env server settings params e) {call : Call} (hl : call.Legal e) :
    ∃ c, At (Steps env.Passive (Cfg.new server settings params)) e c ∧
      Exec.wp call.run
        (fun r e' => ∃ c', At (Steps env.Passive (Cfg.new server settings params)) e' c' ∧
          c'.out = c.out ++ call.adds r)
        (RunErr (Steps env.Passive (Cfg.new server settings params)) c call) env e := by
  obtain ⟨c, hc, -⟩ := h.steps
  exact ⟨c, hc, Call.spec (Steps.timed (h.sound_new _)) hc (fun _ _ _ h hs _ _ => h.tail hs) call hl
    (fun _ _ hs => hc.mem.tail hs) fun _ _ hs => hc.mem.tail hs⟩

end

/-! ## Explicit runs -/

/-- Callbacks that call nothing, and memory without end. -/
def Env.quiet : Env where
  app _ _ := ⟨[], true⟩
  alloc _ _ := true
  order ids := ids
  order_perm _ := .refl _
  walk ids := ids
  fuel := 0

theorem Env.quiet_passive : Env.quiet.Passive :=
  ⟨fun _ _ => rfl, fun _ _ => rfl, fun _ => .refl _⟩

/-- The call is about early data. -/
def Call.isEarly : Call → Bool
  | .set0rttRemoteTransportParams _ => true
  | .tlsEarlyDataRejected => true
  | _ => false

/-- The result is one after which the connection is still in use. -/
def Call.continues (call : Call) (r : Except Err (List UInt8)) : Bool :=
  match r, call with
  | .ok _, _ => true
  | .error _, .read .. => false
  | .error e, _ => e.isBenign

/-- Carries out calls that are not about early data, as long as the connection is in
    use. -/
def runCalls (env : Env) : List Call → Endp → Option Endp
  | [], e => some e
  | call :: calls, e =>
    if call.continues (call.run env e).1 && !call.isEarly then
      runCalls env calls (call.run env e).2
    else none

theorem Call.continues_iff {call : Call} {r : Except Err (List UInt8)}
    (h : call.continues r = true) : call.Continues r := by
  cases r with
  | ok r => trivial
  | error e =>
    cases call with
    | read data ts => exact absurd h nofun
    | _ => exact ⟨h, nofun⟩

theorem Call.legal_of_not_early {call : Call} (h : call.isEarly = false) : call.Legal e := by
  cases call <;> trivial

theorem reach_runCalls {P : Call → Endp → Prop} (hP : ∀ call e, call.isEarly = false → P call e)
    {calls : List Call} (h : Reach env P e₀ e) (hrun : runCalls env calls e = some e') :
    Reach env P e₀ e' := by
  induction calls generalizing e with
  | nil =>
    cases hrun
    exact h
  | cons call calls ih =>
    unfold runCalls at hrun
    split at hrun
    · next hc =>
      rw [Bool.and_eq_true, Bool.not_eq_true'] at hc
      exact ih (h.call (hP _ _ hc.2) rfl (Call.continues_iff hc.1)) hrun
    · cases hrun

/-- Calls that lead to an endpoint with `p`, from a new connection. -/
theorem run_of_runCalls {server : Bool} {settings : Settings} {params : TransportParams}
    {calls : List Call} {p : Endp → Bool} (hparams : params.Asserted)
    (huni : params.initialMaxStreamDataUni ≤ uint64Max)
    (h : (runCalls env calls (.new server settings params)).any p = true) :
    ∃ e, Run env server settings params e ∧ p e = true := by
  cases hr : runCalls env calls (.new server settings params) with
  | none =>
    rw [hr] at h
    cases h
  | some e =>
    rw [hr] at h
    exact ⟨e, ⟨⟨_, if_pos hparams,
      reach_runCalls (fun _ _ => Call.legal_of_not_early) .init hr⟩, huni⟩, h⟩

/-- Some limits, none of them zero. -/
def smallParams : TransportParams := { TransportParams.default with
  initialMaxStreamsBidi := 4
  initialMaxStreamsUni := 4
  initialMaxStreamDataBidiLocal := 100
  initialMaxStreamDataBidiRemote := 100
  initialMaxStreamDataUni := 100
  initialMaxData := 200 }

def smallSettings : Settings := ⟨10, 10, 0⟩

/-- The first record of a server with these limits. -/
def firstRecord : List UInt8 :=
  match ((Call.writeRecord 100 0).run Env.quiet (.new true smallSettings smallParams)).1 with
  | .ok record => record
  | .error _ => []

/-- Calls that lead a client that has read that record to an endpoint with `p`. -/
structure RunTo (env : Env) (p : Endp → Bool) where
  calls : List Call
  any : (runCalls env (.read firstRecord 0 :: calls)
    (.new false smallSettings smallParams)).any p = true

theorem RunTo.exists_run {env : Env} {p : Endp → Bool} (r : RunTo env p) :
    ∃ e, Run env false smallSettings smallParams e ∧ p e = true :=
  run_of_runCalls (by decide) (by decide) r.any

end Dwnx
