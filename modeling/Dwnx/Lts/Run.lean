import Dwnx.Lts.Writing
import Mathlib.Logic.Relation

/-!
# Runs of the transition system

`Steps` relates configurations by any number of steps. All invariants hold of a new
connection, hence wherever steps lead to (`Steps.sound`), and what steps lead to is a
set as the proofs about the code require it (`Steps.timed`).
-/

namespace Dwnx

variable {quiet : Prop} {c₀ c c' : Cfg} {l : Label}

/-! ## Invariants -/

/-- The parameters of the peer come with their frame. -/
def Cfg.ParamsOk (c : Cfg) : Prop :=
  c.params = true → ∃ params, Event.rxFr (.qxTransportParameters params) ∈ c.st.trace

/-- A step that notes the parameters logs their frame. -/
theorem Step.paramsOk (h : Step quiet l c c') (hc : c.ParamsOk) : c'.ParamsOk := by
  obtain ⟨evs, htrace, -⟩ := h.trace
  have hsame (hparams : c'.params = c.params) : c'.ParamsOk := by
    intro hp
    obtain ⟨params, hmem⟩ := hc (hparams ▸ hp)
    exact ⟨params, htrace ▸ List.mem_append_left _ hmem⟩
  cases h with
  | strm h => exact hsame (by cases h <;> rfl)
  | rxParams params => exact fun _ => ⟨params, List.mem_append_right _ (List.mem_singleton_self _)⟩
  | _ => exact hsame rfl

/-- All that holds of every configuration. -/
structure Sound (quiet : Prop) (c : Cfg) : Prop extends Inv c where
  write : c.WriteOk quiet
  send : c.SendOk
  queued : c.QueuedOk quiet
  params : c.ParamsOk

/-- A step keeps all invariants. -/
theorem Step.sound (h : Step quiet l c c') (hc : Sound quiet c) : Sound quiet c' where
  toInv := h.inv hc.toInv
  write := h.writeOk hc.toInv hc.write
  send := h.sendOk hc.toInv hc.send
  queued := h.queuedOk hc.toInv hc.queued
  params := h.paramsOk hc.params

/-! ## Steps -/

/-- Steps lead from one configuration to the other. -/
def Steps (quiet : Prop) : Cfg → Cfg → Prop :=
  Relation.ReflTransGen fun c c' => ∃ l, Step quiet l c c'

/-- A run of no step. -/
theorem Steps.refl : Steps quiet c c := Relation.ReflTransGen.refl

/-- A run goes on by a step. -/
theorem Steps.tail (h : Steps quiet c₀ c) (hs : Step quiet l c c') : Steps quiet c₀ c' :=
  Relation.ReflTransGen.tail h ⟨l, hs⟩

/-- What every step from a sound configuration keeps is kept by any number of steps. -/
theorem Steps.keep {P : Cfg → Prop} (h : Steps quiet c₀ c) (h₀ : Sound quiet c₀)
    (hP : ∀ l c c', Sound quiet c → P c → Step quiet l c c' → P c') (hp : P c₀) :
    Sound quiet c ∧ P c := by
  induction h with
  | refl => exact ⟨h₀, hp⟩
  | tail _ hs ih =>
    obtain ⟨l, hs⟩ := hs
    exact ⟨hs.sound ih.1, hP l _ _ ih.1 ih.2 hs⟩

/-- A run keeps all invariants. -/
theorem Steps.sound (h : Steps quiet c₀ c) (h₀ : Sound quiet c₀) : Sound quiet c :=
  (h.keep (P := fun _ => True) h₀ (fun _ _ _ _ _ _ => trivial) trivial).1

/-- Runs from a sound configuration are closed under steps, and keep the invariants. -/
theorem Steps.timed (h₀ : Sound quiet c₀) : Timed quiet (Steps quiet c₀) where
  inv _ h := (h.sound h₀).toInv
  write _ h := (h.sound h₀).write
  send _ h := (h.sound h₀).send
  step _ _ h hs := h.tail hs
  time _ _ h hs := h.tail hs

/-! ## New connections -/

/-- A new connection meets all invariants. -/
theorem sound_new (server : Bool) (settings : Settings) {params : TransportParams}
    (h : params.Asserted) (huni : params.initialMaxStreamDataUni ≤ uint64Max) :
    Sound quiet (Cfg.new server settings params) := by
  have hempty {p : Prop} {id : ℕ} {s : Strm}
      (h : (Cfg.new server settings params).conn.strms.find id = some s) : p := by cases h
  exact ⟨inv_new server settings h huni, nofun, fun _ _ _ => hempty, fun _ _ _ => hempty, nofun⟩

end Dwnx
