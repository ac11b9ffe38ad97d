import Dwnx.Lib.Bucket
import Dwnx.Ratelim
import Mathlib.Algebra.Order.Group.Nat
import Mathlib.Data.Option.Basic

/-!
# The limit on glitches as a bucket

What a limiter has, in billionths of a token, is the level of a bucket (`Ratelim.level`). An
update is one refill of it by what the time since the last one gives, in exact integers
(`update_spec`), though the source computes with 64 bits: `update64` and `drain64` are its
functions with every operation checked, and none of them fails.

* `drainRun_bucket`: so it is after every run of calls.
-/

namespace Dwnx

namespace Ratelim

/-! ## Arithmetic with 64 bits -/

/-- A sum that is less than `2 ^ 64`. -/
def add64 (a b : ℕ) : Option ℕ := if a + b ≤ uint64Max then some (a + b) else none

/-- A difference that is not negative. -/
def sub64 (a b : ℕ) : Option ℕ := if b ≤ a then some (a - b) else none

/-- A product that is less than `2 ^ 64`. -/
def mul64 (a b : ℕ) : Option ℕ := if a * b ≤ uint64Max then some (a * b) else none

/-- A quotient by a number that is not zero. -/
def div64 (a b : ℕ) : Option ℕ := if b ≠ 0 then some (a / b) else none

/-- `ratelim_update`, unless an operation overflows. -/
def update64 (rlim : Ratelim) (ts : ℕ) : Option Ratelim :=
  if ts < rlim.ts then none
  else if ts = rlim.ts then some rlim
  else do
    let d ← sub64 ts rlim.ts
    let full := { rlim with ts := ts, tokens := rlim.burst, carry := 0 }
    let room ← sub64 uint64Max rlim.carry
    let most ← div64 room d
    if rlim.rate ≤ most then do
      let gain ← mul64 rlim.rate d
      let gain ← add64 gain rlim.carry
      let gps ← div64 gain seconds
      if gps < rlim.burst then do
        let left ← sub64 rlim.burst gps
        if rlim.tokens < left then do
          let tokens ← add64 rlim.tokens gps
          some { rlim with ts := ts, tokens := tokens, carry := gain % seconds }
        else some full
      else some full
    else some full

/-- `dwnx_ratelim_drain`, unless an operation overflows. -/
def drain64 (rlim : Ratelim) (n ts : ℕ) : Option (Ratelim × Bool) := do
  let rlim ← rlim.update64 ts
  if rlim.tokens < n then some (rlim, false)
  else do
    let tokens ← sub64 rlim.tokens n
    some ({ rlim with tokens := tokens }, true)

/-! ## Runs -/

/-- Calls of `dwnx_ratelim_drain`, each with its number and timestamp, and what they return. -/
def drains (rlim : Ratelim) : List (ℕ × ℕ) → Except Err (List Bool × Ratelim)
  | [] => .ok ([], rlim)
  | (n, ts) :: calls => do
    let (rlim, ok) ← rlim.drain n ts
    let (oks, rlim) ← rlim.drains calls
    .ok (ok :: oks, rlim)

/-- The limiters that calls lead to, with timestamps of 64 bits that do not decrease. -/
inductive DrainRun (burst rate ts : ℕ) : Ratelim → Prop
  | init : DrainRun burst rate ts (init burst rate ts)
  | drain {rlim rlim' : Ratelim} {n t : ℕ} {ok : Bool} (h : DrainRun burst rate ts rlim)
    (hle : rlim.ts ≤ t) (hmax : t ≤ uint64Max) (hrun : rlim.drain n t = .ok (rlim', ok)) :
    DrainRun burst rate ts rlim'

/-- What the limiter has, in billionths of a token. -/
def level (rlim : Ratelim) : ℕ := rlim.tokens * seconds + rlim.carry

/-- The limiter is a bucket with room for `burst` tokens, filled with `rate` tokens a second. -/
structure IsBucket (burst rate : ℕ) (rlim : Ratelim) : Prop where
  burst_eq : rlim.burst = min burst maxBurst
  rate_eq : rlim.rate = rate
  carry : rlim.carry < seconds
  tokens : rlim.tokens ≤ rlim.burst
  /-- The level goes up with the time, and no further than the room. -/
  update : ∀ t, rlim.ts ≤ t → t ≤ uint64Max → ∃ r, rlim.update t = .ok r ∧
    rlim.update64 t = some r ∧ r.ts = t ∧
    r.level = min (rlim.burst * seconds) (rlim.level + rlim.rate * (t - rlim.ts))
  /-- What is taken was there. -/
  drain : ∀ n t, rlim.ts ≤ t → t ≤ uint64Max → ∃ u r ok, rlim.update t = .ok u ∧
    rlim.drain n t = .ok (r, ok) ∧ rlim.drain64 n t = some (r, ok) ∧
    (ok = true ↔ n * seconds ≤ u.level) ∧
    r.level = if ok then u.level - n * seconds else u.level
  /-- To take nothing before other calls changes nothing about them. -/
  refill : ∀ t n t' calls, rlim.ts ≤ t → t ≤ t' → t' ≤ uint64Max → ∃ u,
    rlim.drain 0 t = .ok (u, true) ∧ u.drains ((n, t') :: calls) = rlim.drains ((n, t') :: calls)

/-! ## The level -/

/-- Full buckets have no fraction of a token more. -/
structure Wf (rlim : Ratelim) : Prop where
  burst : rlim.burst * seconds ≤ uint64Max
  carry : rlim.carry < seconds
  level : rlim.level ≤ rlim.burst * seconds

variable {burst rate ts t n : ℕ} {rlim r u : Ratelim} {ok : Bool}

theorem seconds_pos : 0 < seconds := by decide

theorem Wf.tokens (h : rlim.Wf) : rlim.tokens ≤ rlim.burst := by
  have hle := (Nat.le_add_right _ _).trans h.level
  exact Nat.le_of_mul_le_mul_right hle seconds_pos

/-- A full bucket. -/
theorem wf_full (h : burst * seconds ≤ uint64Max) : Wf ⟨burst, rate, burst, 0, ts⟩ where
  burst := h
  carry := seconds_pos
  level := by rw [level, Nat.add_zero]

theorem wf_init : (init burst rate ts).Wf :=
  wf_full ((Nat.mul_le_mul_right _ (Nat.min_le_right _ _)).trans (Nat.div_mul_le_self _ _))

/-- The level tells tokens and fraction. -/
theorem eq_of_level (hc : r.carry < seconds) (hc' : u.carry < seconds) (h : r.level = u.level)
    (hb : r.burst = u.burst) (hr : r.rate = u.rate) (ht : r.ts = u.ts) : r = u := by
  obtain ⟨b, rt, tk, c, s⟩ := r
  obtain ⟨b', rt', tk', c', s'⟩ := u
  dsimp only at hc hc' hb hr ht
  rw [level, level, seconds] at h
  rw [seconds] at hc hc'
  dsimp only at h
  rw [Ratelim.mk.injEq]
  omega

/-- The level after an update. -/
theorem update_spec (h : rlim.Wf) (hle : rlim.ts ≤ t) :
    ∃ r, rlim.update t = .ok r ∧ rlim.update64 t = some r ∧ r.Wf ∧ r.ts = t ∧
      r.burst = rlim.burst ∧ r.rate = rlim.rate ∧
      r.level = Bucket.refill (rlim.burst * seconds) rlim.level (rlim.rate * (t - rlim.ts)) := by
  have hcarry := h.carry
  have hlevel : rlim.level = rlim.tokens * seconds + rlim.carry := rfl
  rw [update, update64, if_neg (Nat.not_lt_of_le hle), if_neg (Nat.not_lt_of_le hle)]
  by_cases heq : t = rlim.ts
  · rw [if_pos heq, if_pos heq]
    refine ⟨rlim, rfl, rfl, h, heq.symm, rfl, rfl, ?_⟩
    rw [heq, Nat.sub_self, Nat.mul_zero, Bucket.refill_zero h.level]
  have hd : t - rlim.ts ≠ 0 := by omega
  -- a full bucket is right whenever the exact level would be at least that
  have hfull : rlim.burst * seconds ≤ rlim.level + rlim.rate * (t - rlim.ts) →
      Wf ⟨rlim.burst, rlim.rate, rlim.burst, 0, t⟩ ∧
        level ⟨rlim.burst, rlim.rate, rlim.burst, 0, t⟩ =
          Bucket.refill (rlim.burst * seconds) rlim.level (rlim.rate * (t - rlim.ts)) := by
    intro hge
    refine ⟨wf_full h.burst, ?_⟩
    rw [Bucket.refill_of_ge hge, level, Nat.add_zero]
  have hroom : rlim.carry ≤ uint64Max := hcarry.le.trans (by decide)
  rw [if_neg heq, if_neg heq]
  simp only [sub64, div64, if_pos hle, if_pos hroom, if_pos hd, Option.bind_eq_bind,
    Option.bind_some]
  generalize t - rlim.ts = d at hd hfull ⊢
  have hiff : rlim.rate ≤ (uint64Max - rlim.carry) / d ↔
      rlim.rate * d + rlim.carry ≤ uint64Max := by
    rw [Nat.le_div_iff_mul_le (Nat.pos_of_ne_zero hd)]
    omega
  by_cases hfit : rlim.rate ≤ (uint64Max - rlim.carry) / d
  · have hgain := hiff.1 hfit
    have hmul : rlim.rate * d ≤ uint64Max := (Nat.le_add_right _ _).trans hgain
    have hsplit : rlim.level + rlim.rate * d =
        rlim.tokens * seconds + (rlim.rate * d + rlim.carry) := by omega
    rw [Bucket.refill, hsplit] at hfull ⊢
    simp only [if_pos hfit, mul64, if_pos hmul, add64, if_pos hgain, if_pos seconds_pos.ne',
      Option.bind_some]
    generalize rlim.rate * d + rlim.carry = gain at hgain hfull hsplit ⊢
    have hdiv : gain / seconds * seconds + gain % seconds = gain := Nat.div_add_mod' gain seconds
    have hmod : gain % seconds < seconds := Nat.mod_lt _ seconds_pos
    generalize gain / seconds = gps at hdiv ⊢
    generalize gain % seconds = rest at hdiv hmod ⊢
    by_cases hless : gps < rlim.burst ∧ rlim.tokens < rlim.burst - gps
    · -- the bucket is not full
      obtain ⟨hgps, htok⟩ := hless
      have hsum : rlim.tokens + gps < rlim.burst := by omega
      have hle64 : rlim.tokens + gps ≤ uint64Max :=
        (hsum.le.trans (Nat.le_mul_of_pos_right _ seconds_pos)).trans h.burst
      have hl : level ⟨rlim.burst, rlim.rate, rlim.tokens + gps, rest, t⟩ =
          rlim.tokens * seconds + gain := by
        rw [level, Nat.add_mul]
        dsimp only
        omega
      have hroom : rlim.tokens * seconds + gain ≤ rlim.burst * seconds := by
        have hnext := Nat.mul_le_mul_right seconds (Nat.succ_le_of_lt hsum)
        rw [Nat.succ_mul, Nat.add_mul] at hnext
        omega
      rw [if_pos ⟨hgps, htok⟩, if_pos hgps, if_pos hgps.le, Option.bind_some, if_pos htok,
        if_pos hle64]
      refine ⟨_, rfl, rfl, ⟨h.burst, hmod, ?_⟩, rfl, rfl, rfl, ?_⟩
      · rw [hl]
        exact hroom
      · rw [hl, min_eq_right hroom]
    · -- the bucket runs full
      obtain ⟨hwf, hl⟩ := hfull (by
        have hsum : rlim.burst ≤ rlim.tokens + gps := by omega
        have hnext := Nat.mul_le_mul_right seconds hsum
        rw [Nat.add_mul] at hnext
        omega)
      rw [if_neg hless]
      refine ⟨_, rfl, ?_, hwf, rfl, rfl, rfl, hl⟩
      by_cases hgps : gps < rlim.burst
      · rw [if_pos hgps, if_pos hgps.le, Option.bind_some, if_neg fun h => hless ⟨hgps, h⟩]
      · rw [if_neg hgps]
  · -- more than any bucket holds
    have hover := mt hiff.2 hfit
    obtain ⟨hwf, hl⟩ := hfull (by
      have := h.burst
      rw [hlevel]
      omega)
    rw [if_neg hfit, if_neg hfit]
    exact ⟨_, rfl, rfl, hwf, rfl, rfl, rfl, hl⟩

/-- What a call takes from an updated bucket. -/
theorem drain_spec (h : rlim.Wf) (hle : rlim.ts ≤ t) (n : ℕ) :
    ∃ u r ok, rlim.update t = .ok u ∧ rlim.drain n t = .ok (r, ok) ∧
      rlim.drain64 n t = some (r, ok) ∧ r.Wf ∧ (ok = true ↔ n * seconds ≤ u.level) ∧
      r.level = (if ok then u.level - n * seconds else u.level) ∧ r.ts = t ∧
      r.burst = rlim.burst ∧ r.rate = rlim.rate := by
  obtain ⟨u, hu, hu64, hwf, hts, hburst, hrate, -⟩ := update_spec h hle
  have hlevel : u.level = u.tokens * seconds + u.carry := rfl
  have hcarry := hwf.carry
  rw [drain, drain64, hu, hu64]
  by_cases hn : u.tokens < n
  · refine ⟨u, u, false, rfl, ?_, ?_, hwf, ⟨fun h => absurd h Bool.false_ne_true, fun h => ?_⟩, rfl,
      hts, hburst, hrate⟩
    · exact if_pos hn
    · exact if_pos hn
    · have hnext := Nat.mul_le_mul_right seconds (Nat.succ_le_of_lt hn)
      rw [Nat.succ_mul] at hnext
      omega
  · have hle : n ≤ u.tokens := Nat.le_of_not_lt hn
    have hmul := Nat.mul_le_mul_right seconds hle
    have hl : level { u with tokens := u.tokens - n } = u.level - n * seconds := by
      rw [level, Nat.sub_mul]
      dsimp only
      omega
    refine ⟨u, _, true, rfl, if_neg hn, ?_, ⟨hwf.burst, hwf.carry, ?_⟩,
      ⟨fun _ => by omega, fun _ => rfl⟩, by rw [if_pos rfl, hl], hts, hburst, hrate⟩
    · rw [Option.bind_eq_bind, Option.bind_some, if_neg hn, sub64, if_pos hle]
      rfl
    · rw [hl]
      exact (Nat.sub_le _ _).trans hwf.level

/-- Two updates are one. -/
theorem update_update (h : rlim.Wf) (hle : rlim.ts ≤ t) (hu : rlim.update t = .ok u) {t' : ℕ}
    (hle' : t ≤ t') : u.update t' = rlim.update t' := by
  obtain ⟨r, hr, -, hwf, hts, hburst, hrate, hl⟩ := update_spec h hle
  cases hu.symm.trans hr
  obtain ⟨a, ha, -, hwfa, htsa, hbursta, hratea, hla⟩ := update_spec hwf (hts ▸ hle')
  obtain ⟨b, hb, -, hwfb, htsb, hburstb, hrateb, hlb⟩ := update_spec h (hle.trans hle')
  have htime : t - rlim.ts + (t' - t) = t' - rlim.ts := by omega
  rw [ha, hb]
  refine congrArg Except.ok (eq_of_level hwfa.carry hwfb.carry ?_ (by rw [hbursta, hburst, hburstb])
    (by rw [hratea, hrate, hrateb]) (by rw [htsa, htsb]))
  rw [hla, hlb, hburst, hrate, hts, hl, Bucket.refill_refill, ← Nat.mul_add, htime]

theorem DrainRun.wf (h : DrainRun burst rate ts rlim) :
    rlim.Wf ∧ rlim.burst = min burst maxBurst ∧ rlim.rate = rate := by
  induction h with
  | init => exact ⟨wf_init, rfl, rfl⟩
  | @drain rlim rlim' n t ok h hle hmax hrun ih =>
    obtain ⟨hwf, hburst, hrate⟩ := ih
    obtain ⟨u, r, ok', -, hrun', -, hwf', -, -, -, hb, hr⟩ := drain_spec hwf hle n
    cases hrun.symm.trans hrun'
    exact ⟨hwf', hb.trans hburst, hr.trans hrate⟩

/-- After every run the limiter is a bucket. -/
theorem drainRun_bucket (h : DrainRun burst rate ts rlim) : IsBucket burst rate rlim := by
  obtain ⟨hwf, hburst, hrate⟩ := h.wf
  refine ⟨hburst, hrate, hwf.carry, hwf.tokens, fun t hle _ => ?_, fun n t hle _ => ?_,
    fun t n t' calls hle hle' _ => ?_⟩
  · obtain ⟨r, hr, hr64, -, hts, -, -, hl⟩ := update_spec hwf hle
    exact ⟨r, hr, hr64, hts, hl⟩
  · obtain ⟨u, r, ok, hu, hr, hr64, -, hok, hl, -⟩ := drain_spec hwf hle n
    exact ⟨u, r, ok, hu, hr, hr64, hok, hl⟩
  · obtain ⟨u, hu, -⟩ := update_spec hwf hle
    have hzero : rlim.drain 0 t = .ok (u, true) := by
      rw [drain, hu]
      rfl
    refine ⟨u, hzero, ?_⟩
    rw [drains, drains, drain, drain, update_update hwf hle hu hle']

/-- A bucket of three tokens, one a second: two are taken, and half a second gives none back. -/
theorem drainRun_bucket_three : ∃ rlim, rlim.level = 1500000000 ∧ IsBucket 3 1 rlim := by
  have hrun : (init 3 1 0).drain 2 0 = .ok (⟨3, 1, 1, 0, 0⟩, true) := by decide
  have hrun' : (⟨3, 1, 1, 0, 0⟩ : Ratelim).drain 2 500000000 =
      .ok (⟨3, 1, 1, 500000000, 500000000⟩, false) := by decide
  exact ⟨_, by decide, drainRun_bucket
    ((DrainRun.init.drain (le_refl _) (by decide) hrun).drain (by decide) (by decide) hrun')⟩

end Ratelim

end Dwnx
