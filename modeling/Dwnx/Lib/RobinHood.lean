import Mathlib.Algebra.BigOperators.Group.Finset.Basic
import Mathlib.Algebra.Order.Group.Multiset
import Mathlib.Data.Multiset.Basic
import Mathlib.Data.Multiset.MapFold
import Mathlib.Data.Multiset.Count
import Mathlib.Logic.Function.Basic

/-!
# Robin Hood hashing

A table of `n` slots in a ring. An item belongs to its home slot and is found by probing
from there; the probe sequence length of a stored item is one plus its distance from home,
and `0` stands for a free slot. An item on its way takes the slot of one that is closer to
home (`insertLoop`), the search gives up at an item closer to home (`findLoop`), and a
removed item is overwritten by its successors, each moved one slot back (`shiftLoop`).

* `Ordered`: stored items are where their probe sequence lengths say, and these grow by at
  most one from a slot to the next, the invariant on which the early exits rest;
* `contents`: the items of a table, a multiset;
* `insertLoop_new`, `insertLoop_dup`: an item is put in, or refused;
* `findLoop_mem`, `findLoop_not_mem`: an item is found, or not;
* `shiftLoop_spec`: an item is taken out;
* `Ordered.psl_eq`: the probe sequence length is one plus the distance.
-/

namespace RobinHood

/-- A slot of the table, free if `psl` is `0`. -/
structure Slot (κ δ : Type) where
  psl : ℕ
  key : κ
  data : δ

/-- The slots, of which those below the length of the table are in use. -/
abbrev Table (κ δ : Type) := ℕ → Slot κ δ

variable {κ δ : Type}

/-! ## The loops -/

section Loops

variable [DecidableEq κ] (succ : ℕ → ℕ)

/-- Probes from `idx` with the item `s` for a place to put it. The table is returned with
    `false` if an item with the same key is met. -/
def insertLoop : ℕ → Table κ δ → ℕ → Slot κ δ → Option (Table κ δ × Bool)
  | 0, _, _, _ => none
  | fuel + 1, t, idx, s =>
    let k := t idx
    if k.psl = 0 then some (Function.update t idx s, true)
    else if k.psl < s.psl then
      insertLoop fuel (Function.update t idx s) (succ idx) { k with psl := k.psl + 1 }
    else if k.key = s.key then some (t, false)
    else insertLoop fuel t (succ idx) { s with psl := s.psl + 1 }

/-- Probes from `idx` for `key`, at which the probe sequence length would be `psl`. -/
def findLoop (t : Table κ δ) (key : κ) : ℕ → ℕ → ℕ → Option (Option ℕ)
  | 0, _, _ => none
  | fuel + 1, idx, psl =>
    if (t idx).psl < psl then some none
    else if (t idx).key = key then some (some idx)
    else findLoop t key fuel (succ idx) (psl + 1)

/-- Fills the hole at `dest` with the item at `idx`, the next slot, and goes on there, until
    an item is at home or a slot is free. -/
def shiftLoop : ℕ → Table κ δ → ℕ → ℕ → Option (Table κ δ)
  | 0, _, _, _ => none
  | fuel + 1, t, dest, idx =>
    let k := t idx
    if k.psl ≤ 1 then some (Function.update t dest { t dest with psl := 0 })
    else shiftLoop fuel (Function.update t dest { k with psl := k.psl - 1 }) idx (succ idx)

end Loops

/-! ## Contents -/

/-- The item of a slot. -/
def Slot.load (s : Slot κ δ) : Multiset (κ × δ) :=
  if s.psl = 0 then 0 else {(s.key, s.data)}

theorem Slot.load_free {s : Slot κ δ} (h : s.psl = 0) : s.load = 0 := if_pos h

theorem Slot.load_full {s : Slot κ δ} (h : s.psl ≠ 0) : s.load = {(s.key, s.data)} := if_neg h

/-- The items of a table of `n` slots. -/
def contents (n : ℕ) (t : Table κ δ) : Multiset (κ × δ) := ∑ i ∈ Finset.range n, (t i).load

variable {n : ℕ} {t t' : Table κ δ} {idx dest i : ℕ} {s : Slot κ δ} {key : κ} {data : δ}

theorem contents_update (hi : i < n) (s : Slot κ δ) :
    (t i).load + contents n (Function.update t i s) = s.load + contents n t := by
  have hmem : i ∈ Finset.range n := Finset.mem_range.2 hi
  have hsplit (u : Table κ δ) :
      contents n u = (u i).load + ∑ j ∈ (Finset.range n).erase i, (u j).load :=
    (Finset.add_sum_erase _ _ hmem).symm
  have hout : ∀ j ∈ (Finset.range n).erase i, (Function.update t i s j).load = (t j).load := by
    intro j hj
    rw [Function.update_of_ne (Finset.ne_of_mem_erase hj)]
  rw [hsplit t, hsplit (Function.update t i s), Function.update_self, Finset.sum_congr rfl hout]
  exact add_left_comm _ _ _

theorem mem_contents : (key, data) ∈ contents n t ↔
    ∃ i < n, (t i).psl ≠ 0 ∧ (t i).key = key ∧ (t i).data = data := by
  simp only [contents, Multiset.mem_sum, Finset.mem_range, Slot.load]
  refine exists_congr fun i => and_congr_right fun _ => ?_
  by_cases h : (t i).psl = 0 <;> simp [h, eq_comm]

theorem mem_contents_of_slot (hi : i < n) (h : (t i).psl ≠ 0) :
    ((t i).key, (t i).data) ∈ contents n t := mem_contents.2 ⟨i, hi, h, rfl, rfl⟩

/-- With fewer items than slots, some slot is free. -/
theorem exists_free (h : (contents n t).card < n) : ∃ i < n, (t i).psl = 0 := by
  by_contra hn
  push Not at hn
  have hcard : (contents n t).card = ∑ i ∈ Finset.range n, 1 := by
    rw [contents, Multiset.card_sum]
    refine Finset.sum_congr rfl fun i hi => ?_
    rw [Slot.load_full (hn i (Finset.mem_range.1 hi)), Multiset.card_singleton]
  rw [Finset.sum_const, Finset.card_range, Nat.nsmul_eq_mul, Nat.mul_one] at hcard
  omega

/-! ## The ring -/

theorem succ_lt (hi : i < n) : (i + 1) % n < n := Nat.mod_lt _ (Nat.zero_lt_of_lt hi)

theorem succ_eq (hi : i < n) : (i + 1) % n = if i + 1 = n then 0 else i + 1 := by
  split
  · next h => rw [h, Nat.mod_self]
  · exact Nat.mod_eq_of_lt (by omega)

theorem succ_inj {j : ℕ} (hi : i < n) (hj : j < n) (h : (i + 1) % n = (j + 1) % n) : i = j := by
  rw [succ_eq hi, succ_eq hj] at h
  split at h <;> split at h <;> omega

/-- Every slot is met in a round. -/
theorem exists_steps {j : ℕ} (hi : i < n) (hj : j < n) : ∃ k < n, (i + k) % n = j := by
  rcases Nat.lt_or_ge j i with h | h
  · refine ⟨j + n - i, by omega, ?_⟩
    rw [show i + (j + n - i) = j + n by omega, Nat.add_mod_right, Nat.mod_eq_of_lt hj]
  · refine ⟨j - i, by omega, ?_⟩
    rw [show i + (j - i) = j by omega, Nat.mod_eq_of_lt hj]

/-- A free slot is met within `fuel` slots from `idx` on. -/
def FreeWithin (n : ℕ) (t : Table κ δ) (fuel idx : ℕ) : Prop :=
  ∃ k < fuel, (t ((idx + k) % n)).psl = 0

theorem freeWithin (h : (contents n t).card < n) (hidx : idx < n) : FreeWithin n t n idx := by
  obtain ⟨i, hi, hfree⟩ := exists_free h
  obtain ⟨k, hk, rfl⟩ := exists_steps hidx hi
  exact ⟨k, hk, hfree⟩

theorem not_freeWithin_zero : ¬FreeWithin n t 0 idx := fun ⟨_, hk, _⟩ => Nat.not_lt_zero _ hk

/-- If the slot at `idx` is not the free one, one step brings it nearer. -/
theorem FreeWithin.step {fuel : ℕ} (h : FreeWithin n t (fuel + 1) idx) (hidx : idx < n)
    (hfull : (t idx).psl ≠ 0) : FreeWithin n t fuel ((idx + 1) % n) := by
  obtain ⟨k, hk, hfree⟩ := h
  cases k with
  | zero =>
    rw [Nat.add_zero, Nat.mod_eq_of_lt hidx] at hfree
    exact absurd hfree hfull
  | succ k =>
    refine ⟨k, by omega, ?_⟩
    rwa [Nat.mod_add_mod, Nat.add_assoc, Nat.add_comm 1]

/-- Filling slots anew does not take a free one. -/
theorem FreeWithin.update {fuel : ℕ} (h : FreeWithin n t fuel idx) {j : ℕ}
    (hfull : (t j).psl ≠ 0) (s : Slot κ δ) :
    FreeWithin n (Function.update t j s) fuel idx := by
  obtain ⟨k, hk, hfree⟩ := h
  refine ⟨k, hk, ?_⟩
  rwa [Function.update_of_ne]
  intro he
  exact hfull (he ▸ hfree)

/-! ## The order of the items -/

variable {home : κ → ℕ}

/-- The place of an item with its home at `h`, according to its probe sequence length. -/
def spot (n h psl : ℕ) : ℕ := (h + (psl - 1)) % n

theorem spot_one {h : ℕ} (hh : h < n) : spot n h 1 = h := Nat.mod_eq_of_lt hh

theorem spot_succ {h psl : ℕ} (hp : psl ≠ 0) : spot n h (psl + 1) = (spot n h psl + 1) % n := by
  rw [spot, spot, Nat.mod_add_mod]
  congr 1
  omega

theorem spot_lt (hn : 0 < n) (h psl : ℕ) : spot n h psl < n := Nat.mod_lt _ hn

/-- What a table with the items in order satisfies. -/
structure Ordered (n : ℕ) (home : κ → ℕ) (t : Table κ δ) : Prop where
  /-- Items are where their probe sequence lengths say. -/
  place : ∀ i < n, (t i).psl ≠ 0 → spot n (home (t i).key) (t i).psl = i
  /-- The next item is at most one slot farther from home. -/
  order : ∀ i < n, (t ((i + 1) % n)).psl ≤ (t i).psl + 1

/-- Nothing is out of order in an empty table. -/
theorem ordered_of_free (h : ∀ i, (t i).psl = 0) : Ordered n home t where
  place i _ hi := absurd (h i) hi
  order i _ := by rw [h ((i + 1) % n)]; exact Nat.zero_le _

theorem Ordered.order_steps (h : Ordered n home t) (hi : i < n) (j : ℕ) :
    (t ((i + j) % n)).psl ≤ (t i).psl + j := by
  induction j with
  | zero => rw [Nat.add_zero, Nat.mod_eq_of_lt hi]; exact Nat.le_refl _
  | succ j ih =>
    have hstep := h.order _ (Nat.mod_lt (i + j) (Nat.zero_lt_of_lt hi))
    rw [Nat.mod_add_mod] at hstep
    rw [← Nat.add_assoc]
    omega

/-- With a free slot, no item is as far from home as the table is long. -/
theorem Ordered.psl_lt (h : Ordered n home t) (hfree : ∃ i < n, (t i).psl = 0) (hi : i < n) :
    (t i).psl < n := by
  obtain ⟨f, hf, hf0⟩ := hfree
  obtain ⟨k, hk, rfl⟩ := exists_steps hf hi
  have := h.order_steps hf k
  omega

/-- The probe sequence length of a stored item is one plus its distance from home. -/
theorem Ordered.psl_eq (h : Ordered n home t) (hhome : ∀ k, home k < n)
    (hfree : ∃ i < n, (t i).psl = 0) (hi : i < n) (hfull : (t i).psl ≠ 0) :
    (t i).psl = (i + n - home (t i).key) % n + 1 := by
  have hlt := h.psl_lt hfree hi
  have hplace := h.place i hi hfull
  have hh := hhome (t i).key
  generalize home (t i).key = a at hplace hh ⊢
  rw [spot] at hplace
  rcases Nat.lt_or_ge (a + ((t i).psl - 1)) n with hc | hc
  · rw [Nat.mod_eq_of_lt hc] at hplace
    rw [show i + n - a = ((t i).psl - 1) + n by omega, Nat.add_mod_right,
      Nat.mod_eq_of_lt (by omega)]
    omega
  · rw [Nat.mod_eq_sub_mod hc, Nat.mod_eq_of_lt (by omega)] at hplace
    rw [show i + n - a = (t i).psl - 1 by omega, Nat.mod_eq_of_lt (by omega)]
    omega

/-- On the way from its home to a stored item, no slot has an item closer to home than a
    probe would be there. This is what lets a search give up at one. -/
theorem Ordered.le_psl (h : Ordered n home t) (hn : 0 < n) (hi : i < n) (hfull : (t i).psl ≠ 0)
    {psl : ℕ} (hp : psl ≠ 0) (hle : psl ≤ (t i).psl) :
    psl ≤ (t (spot n (home (t i).key) psl)).psl := by
  have hsteps := h.order_steps (spot_lt hn (home (t i).key) psl) ((t i).psl - psl)
  rw [spot, Nat.mod_add_mod, show home (t i).key + (psl - 1) + ((t i).psl - psl) =
    home (t i).key + ((t i).psl - 1) by omega] at hsteps
  have hplace := h.place i hi hfull
  rw [spot] at hplace ⊢
  rw [hplace] at hsteps
  omega

/-- The keys of the items, each once. -/
def Distinct (m : Multiset (κ × δ)) : Prop := (m.map Prod.fst).Nodup

theorem Distinct.slot_unique (hd : Distinct (contents n t)) {j : ℕ} (hi : i < n) (hj : j < n)
    (hi0 : (t i).psl ≠ 0) (hj0 : (t j).psl ≠ 0) (hkey : (t j).key = (t i).key) : j = i := by
  by_contra hne
  have hmem : j ∈ (Finset.range n).erase i := Finset.mem_erase.2 ⟨hne, Finset.mem_range.2 hj⟩
  rw [Distinct, contents, ← Finset.add_sum_erase _ _ (Finset.mem_range.2 hi),
    ← Finset.add_sum_erase _ _ hmem, Slot.load_full hi0, Slot.load_full hj0, hkey,
    Multiset.singleton_add, Multiset.map_cons, Multiset.nodup_cons] at hd
  refine hd.1 ?_
  rw [Multiset.map_add]
  exact Multiset.mem_add.2 (.inl (Multiset.mem_singleton_self _))

/-- The item `s` on its way, in front of the slot `idx`. -/
structure Carried (n : ℕ) (home : κ → ℕ) (t : Table κ δ) (idx : ℕ) (s : Slot κ δ) : Prop where
  pos : s.psl ≠ 0
  place : spot n (home s.key) s.psl = idx
  order : ∀ p < n, (p + 1) % n = idx → s.psl ≤ (t p).psl + 1

theorem Carried.start (hhome : home key < n) (data : δ) :
    Carried n home t (home key) ⟨1, key, data⟩ where
  pos := Nat.one_ne_zero
  place := spot_one hhome
  order _ _ _ := Nat.le_add_left 1 _

theorem Carried.skip (h : Carried n home t idx s) (hidx : idx < n) (hle : s.psl ≤ (t idx).psl) :
    Carried n home t ((idx + 1) % n) { s with psl := s.psl + 1 } where
  pos := Nat.succ_ne_zero _
  place := by rw [spot_succ h.pos, h.place]
  order p hp he := by
    obtain rfl := succ_inj hp hidx he
    exact Nat.succ_le_succ hle

/-- The carried item may be put down where the one stored is not farther from home. -/
theorem Carried.put (h : Carried n home t idx s) (ho : Ordered n home t) (hidx : idx < n)
    (hle : (t idx).psl ≤ s.psl) : Ordered n home (Function.update t idx s) where
  place i hi hfull := by
    by_cases hne : i = idx
    · subst hne
      rw [Function.update_self]
      exact h.place
    · rw [Function.update_of_ne hne] at hfull ⊢
      exact ho.place i hi hfull
  order i hi := by
    have hnext := ho.order i hi
    by_cases hne : i = idx
    · subst hne
      by_cases hself : (i + 1) % n = i
      · rw [hself, Function.update_self]
        exact Nat.le_succ _
      · rw [Function.update_self, Function.update_of_ne hself]
        omega
    · rw [Function.update_of_ne hne]
      by_cases hself : (i + 1) % n = idx
      · rw [hself, Function.update_self]
        exact h.order i hi hself
      · rwa [Function.update_of_ne hself]

/-- The item that was stored is carried on. -/
theorem Carried.swap (h : Carried n home t idx s) (ho : Ordered n home t) (hidx : idx < n)
    (hfull : (t idx).psl ≠ 0) (hle : (t idx).psl ≤ s.psl) :
    Carried n home (Function.update t idx s) ((idx + 1) % n)
      { t idx with psl := (t idx).psl + 1 } where
  pos := Nat.succ_ne_zero _
  place := by rw [spot_succ hfull, ho.place idx hidx hfull]
  order p hp he := by
    obtain rfl := succ_inj hp hidx he
    rw [Function.update_self]
    exact Nat.succ_le_succ hle

/-! ## Moving an item up -/

/-- Overwriting the item before a displaced one by that one, a slot nearer to its home. -/
theorem Ordered.shift (ho : Ordered n home t) (hdest : dest < n)
    (hfar : ¬(t ((dest + 1) % n)).psl ≤ 1) :
    Ordered n home (Function.update t dest
      { t ((dest + 1) % n) with psl := (t ((dest + 1) % n)).psl - 1 }) where
  place i hi hfull := by
    by_cases hne : i = dest
    · subst hne
      rw [Function.update_self]
      have hn := Nat.zero_lt_of_lt hi
      refine succ_inj (spot_lt hn _ _) hi ?_
      dsimp only
      rw [← spot_succ (by omega), Nat.sub_add_cancel (by omega)]
      exact ho.place _ (succ_lt hi) (by omega)
    · rw [Function.update_of_ne hne] at hfull ⊢
      exact ho.place i hi hfull
  order i hi := by
    have hnext := ho.order i hi
    by_cases hne : i = dest
    · subst hne
      by_cases hself : (i + 1) % n = i
      · simp only [hself, Function.update_self]
        omega
      · rw [Function.update_self, Function.update_of_ne hself]
        dsimp only
        omega
    · rw [Function.update_of_ne hne]
      by_cases hself : (i + 1) % n = dest
      · have hd := ho.order dest hdest
        rw [hself] at hnext ⊢
        rw [Function.update_self]
        dsimp only
        omega
      · rwa [Function.update_of_ne hself]

/-- Freeing the slot before an item at home, or before a free slot. -/
theorem Ordered.free (ho : Ordered n home t) (hdest : dest < n)
    (hnear : (t ((dest + 1) % n)).psl ≤ 1) :
    Ordered n home (Function.update t dest { t dest with psl := 0 }) where
  place i hi hfull := by
    by_cases hne : i = dest
    · subst hne
      rw [Function.update_self] at hfull
      exact absurd rfl hfull
    · rw [Function.update_of_ne hne] at hfull ⊢
      exact ho.place i hi hfull
  order i hi := by
    have hnext := ho.order i hi
    by_cases hself : (i + 1) % n = dest
    · rw [hself, Function.update_self]
      exact Nat.zero_le _
    rw [Function.update_of_ne hself]
    by_cases hne : i = dest
    · subst hne
      rw [Function.update_self]
      omega
    · rwa [Function.update_of_ne hne]

variable (dest) in
/-- The item moved is still in its old place, even if that is the slot it moves to, as in a
    ring of one slot. -/
theorem update_same {psl : ℕ} (hp : psl ≠ 0) (hfull : (t idx).psl ≠ 0) :
    (Function.update t dest { t idx with psl } idx).psl ≠ 0 ∧
    (Function.update t dest { t idx with psl } idx).key = (t idx).key ∧
    (Function.update t dest { t idx with psl } idx).data = (t idx).data := by
  by_cases hself : idx = dest
  · subst hself
    rw [Function.update_self]
    exact ⟨hp, rfl, rfl⟩
  · rw [Function.update_of_ne hself]
    exact ⟨hfull, rfl, rfl⟩

/-! ## Insertion -/

variable {succ : ℕ → ℕ} {fuel : ℕ}

section Keys

variable [DecidableEq κ]

/-- An item with a new key is put in. -/
theorem insertLoop_new (hsucc : ∀ i < n, succ i = (i + 1) % n) (hidx : idx < n)
    (ho : Ordered n home t) (hc : Carried n home t idx s)
    (hd : Distinct ((s.key, s.data) ::ₘ contents n t)) (hfree : FreeWithin n t fuel idx) :
    ∃ t', insertLoop succ fuel t idx s = some (t', true) ∧ Ordered n home t' ∧
      contents n t' = (s.key, s.data) ::ₘ contents n t := by
  -- each step puts down one item and takes up another, or moves on
  induction fuel generalizing t idx s with
  | zero => exact absurd hfree not_freeWithin_zero
  | succ fuel ih =>
    have hcont := contents_update hidx s (t := t)
    rw [Slot.load_full hc.pos] at hcont
    by_cases h0 : (t idx).psl = 0
    · refine ⟨Function.update t idx s, ?_, hc.put ho hidx (by omega), ?_⟩
      · rw [insertLoop, if_pos h0]
      · rwa [Slot.load_free h0, zero_add] at hcont
    by_cases hlt : (t idx).psl < s.psl
    · rw [Slot.load_full h0] at hcont
      have hle := Nat.le_of_lt hlt
      obtain ⟨t', hrun, hord, hmem⟩ := ih (succ_lt hidx) (hc.put ho hidx hle)
        (hc.swap ho hidx h0 hle) (by rwa [← Multiset.singleton_add, hcont])
        ((hfree.step hidx h0).update h0 s)
      refine ⟨t', ?_, hord, ?_⟩
      · rw [insertLoop, if_neg h0, if_pos hlt, hsucc idx hidx]
        exact hrun
      · rw [hmem, ← Multiset.singleton_add, hcont, Multiset.singleton_add]
    · have hne : (t idx).key ≠ s.key := by
        intro he
        rw [Distinct, Multiset.map_cons, Multiset.nodup_cons] at hd
        have hmem := Multiset.mem_map_of_mem Prod.fst (mem_contents_of_slot hidx h0)
        rw [he] at hmem
        exact hd.1 hmem
      obtain ⟨t', hrun, hord, hmem⟩ := ih (succ_lt hidx) ho (hc.skip hidx (by omega)) hd
        (hfree.step hidx h0)
      refine ⟨t', ?_, hord, hmem⟩
      rw [insertLoop, if_neg h0, if_neg hlt, if_neg hne, hsucc idx hidx]
      exact hrun

/-- An item with the key of a stored one is refused. The stored item is met before any other
    could be displaced, so nothing has changed. -/
theorem insertLoop_dup (hsucc : ∀ i < n, succ i = (i + 1) % n) (ho : Ordered n home t)
    (hi : i < n) (hfull : (t i).psl ≠ 0) (hkey : (t i).key = s.key) (hpos : s.psl ≠ 0)
    (hle : s.psl ≤ (t i).psl) (hfuel : (t i).psl < s.psl + fuel) :
    insertLoop succ fuel t (spot n (home s.key) s.psl) s = some (t, false) := by
  have hn := Nat.zero_lt_of_lt hi
  induction fuel generalizing s with
  | zero => omega
  | succ fuel ih =>
    have hmet : s.psl ≤ (t (spot n (home s.key) s.psl)).psl := by
      rw [← hkey]
      exact ho.le_psl hn hi hfull hpos hle
    rw [insertLoop, if_neg (by omega), if_neg (by omega)]
    by_cases he : (t (spot n (home s.key) s.psl)).key = s.key
    · rw [if_pos he]
    · have hlt : s.psl < (t i).psl := by
        refine Nat.lt_of_le_of_ne hle fun h => he ?_
        rw [h, ← hkey, ho.place i hi hfull]
      rw [if_neg he, hsucc _ (spot_lt hn _ _), ← spot_succ hpos]
      refine ih (s := { s with psl := s.psl + 1 }) hkey (Nat.succ_ne_zero _) hlt ?_
      dsimp only
      omega

/-! ## Search -/

/-- The item with the key is found. -/
theorem findLoop_mem (hsucc : ∀ i < n, succ i = (i + 1) % n) (ho : Ordered n home t)
    (hd : ∀ j < n, (t j).psl ≠ 0 → (t j).key = (t i).key → j = i)
    (hi : i < n) (hfull : (t i).psl ≠ 0) {psl : ℕ} (hpos : psl ≠ 0) (hle : psl ≤ (t i).psl)
    (hfuel : (t i).psl < psl + fuel) :
    findLoop succ t (t i).key fuel (spot n (home (t i).key) psl) psl = some (some i) := by
  have hn := Nat.zero_lt_of_lt hi
  induction fuel generalizing psl with
  | zero => omega
  | succ fuel ih =>
    have hmet := ho.le_psl hn hi hfull hpos hle
    have hlt := spot_lt hn (home (t i).key) psl
    rw [findLoop, if_neg (by omega)]
    by_cases he : (t (spot n (home (t i).key) psl)).key = (t i).key
    · rw [if_pos he, hd _ hlt (by omega) he]
    · have hne : psl ≠ (t i).psl := by
        intro h
        rw [h, ho.place i hi hfull] at he
        exact he rfl
      rw [if_neg he, hsucc _ hlt, ← spot_succ hpos]
      exact ih (Nat.succ_ne_zero _) (by omega) (by omega)

/-- A key that no item has is not found. -/
theorem findLoop_not_mem (hsucc : ∀ i < n, succ i = (i + 1) % n) (hidx : idx < n)
    (hd : ∀ j < n, (t j).psl ≠ 0 → (t j).key ≠ key) {psl : ℕ} (hpos : psl ≠ 0)
    (hfree : FreeWithin n t fuel idx) :
    findLoop succ t key fuel idx psl = some none := by
  induction fuel generalizing idx psl with
  | zero => exact absurd hfree not_freeWithin_zero
  | succ fuel ih =>
    by_cases hlt : (t idx).psl < psl
    · rw [findLoop, if_pos hlt]
    · have h0 : (t idx).psl ≠ 0 := by omega
      rw [findLoop, if_neg hlt, if_neg (hd idx hidx h0), hsucc idx hidx]
      exact ih (succ_lt hidx) (Nat.succ_ne_zero _) (hfree.step hidx h0)

end Keys

/-! ## Removal -/

/-- The item at `dest` is taken out. While the items after it move up, the last one moved is
    in the table twice. -/
theorem shiftLoop_spec (hsucc : ∀ i < n, succ i = (i + 1) % n) (hdest : dest < n)
    (hfull : (t dest).psl ≠ 0) (ho : Ordered n home t)
    (hfree : FreeWithin n t fuel ((dest + 1) % n)) :
    ∃ t', shiftLoop succ fuel t dest ((dest + 1) % n) = some t' ∧ Ordered n home t' ∧
      ((t dest).key, (t dest).data) ::ₘ contents n t' = contents n t := by
  induction fuel generalizing t dest with
  | zero => exact absurd hfree not_freeWithin_zero
  | succ fuel ih =>
    by_cases hnear : (t ((dest + 1) % n)).psl ≤ 1
    · refine ⟨Function.update t dest { t dest with psl := 0 }, ?_, ho.free hdest hnear, ?_⟩
      · rw [shiftLoop, if_pos hnear]
      · have hcont := contents_update hdest { t dest with psl := 0 } (t := t)
        rwa [Slot.load_full hfull, Slot.load_free rfl, zero_add] at hcont
    · have hidx := succ_lt hdest
      have h0 : (t ((dest + 1) % n)).psl ≠ 0 := by omega
      have hp : (t ((dest + 1) % n)).psl - 1 ≠ 0 := by omega
      have hcont := contents_update hdest
        { t ((dest + 1) % n) with psl := (t ((dest + 1) % n)).psl - 1 } (t := t)
      rw [Slot.load_full hfull, Slot.load_full hp] at hcont
      obtain ⟨hn0, hkey, hdata⟩ := update_same dest hp h0
      obtain ⟨t', hrun, hord, hmem⟩ := ih hidx hn0 (ho.shift hdest hnear)
        ((hfree.step hidx h0).update hfull _)
      refine ⟨t', ?_, hord, ?_⟩
      · rw [shiftLoop, if_neg hnear, hsucc _ hidx]
        exact hrun
      · rw [hkey, hdata] at hmem
        rw [← hmem, Multiset.singleton_add, Multiset.singleton_add, Multiset.cons_swap] at hcont
        exact (Multiset.cons_inj_right _).1 hcont

end RobinHood
