import Dwnx.Basic

/-!
# The limit on glitches

A token bucket: `rate` tokens a second are added up to `burst`, and every frame
that is legal but useless takes one. The fraction of a token gained is carried
over in billionths.
-/

namespace Dwnx

/-- `dwnx_ratelim` -/
structure Ratelim where
  burst : ℕ
  rate : ℕ
  tokens : ℕ
  carry : ℕ
  ts : ℕ
  deriving DecidableEq, Repr

namespace Ratelim

/-- `DWNX_RATELIM_MAX_BURST` -/
def maxBurst : ℕ := uint64Max / seconds

/-- `dwnx_ratelim_init` -/
def init (burst rate ts : ℕ) : Ratelim := ⟨min burst maxBurst, rate, min burst maxBurst, 0, ts⟩

/-- `ratelim_update` -/
def update (rlim : Ratelim) (ts : ℕ) : Except Err Ratelim :=
  if ts < rlim.ts then .error (.fault (.assertion .timestamp))
  else if ts = rlim.ts then .ok rlim
  else
    let d := ts - rlim.ts
    let full := { rlim with ts := ts, tokens := rlim.burst, carry := 0 }
    if rlim.rate ≤ (uint64Max - rlim.carry) / d then
      let gain := rlim.rate * d + rlim.carry
      let gps := gain / seconds
      if gps < rlim.burst ∧ rlim.tokens < rlim.burst - gps then
        .ok { rlim with ts := ts, tokens := rlim.tokens + gps, carry := gain % seconds }
      else .ok full
    else .ok full

/-- `dwnx_ratelim_drain`: the limiter, and whether there were `n` tokens. -/
def drain (rlim : Ratelim) (n ts : ℕ) : Except Err (Ratelim × Bool) := do
  let rlim ← rlim.update ts
  if rlim.tokens < n then return (rlim, false)
  return ({ rlim with tokens := rlim.tokens - n }, true)

end Ratelim

end Dwnx
