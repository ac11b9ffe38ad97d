import Mathlib.Data.List.Basic
import Mathlib.Data.List.Nodup
import Mathlib.Algebra.BigOperators.Group.List.Basic
import Mathlib.Algebra.GroupWithZero.Nat

/-!
# Finite maps as association lists

`KeyMap κ α` maps finitely many keys to values. The entries are listed, each
key once, which the structure carries as an invariant; the order of the list
is the order in which the entries are visited. `sumOf f` adds up `f` over the
values, the tool for accounts kept over all the entries of a map.
-/

/-- A finite map from `κ` to `α`. -/
structure KeyMap (κ α : Type) where
  /-- The entries, in the order in which they are visited. -/
  entries : List (κ × α)
  nodup : (entries.map Prod.fst).Nodup

namespace KeyMap

variable {κ α : Type}

/-- The map without entries. -/
def empty : KeyMap κ α := ⟨[], List.nodup_nil⟩

/-- A map without entries is the empty map. -/
theorem eq_empty {m : KeyMap κ α} (h : m.entries.length = 0) : m = empty := by
  obtain ⟨entries, hn⟩ := m
  obtain rfl := List.eq_nil_of_length_eq_zero h
  rfl

/-- The keys, in the order of the entries. -/
def keys (m : KeyMap κ α) : List κ := m.entries.map Prod.fst

/-- The sum of `f` over the values. -/
def sumOf (f : α → ℕ) (m : KeyMap κ α) : ℕ := (m.entries.map fun e => f e.2).sum

@[simp] theorem sumOf_empty (f : α → ℕ) : (empty : KeyMap κ α).sumOf f = 0 := rfl

variable [DecidableEq κ]

/-- The value at `k`. -/
def find (m : KeyMap κ α) (k : κ) : Option α :=
  (m.entries.find? fun e => e.1 = k).map Prod.snd

/-- The map with the value at `k`, if there is one, replaced by its image. -/
def modify (m : KeyMap κ α) (k : κ) (f : α → α) : KeyMap κ α where
  entries := m.entries.map fun e => if e.1 = k then (e.1, f e.2) else e
  nodup := by
    have h : ((fun e : κ × α => if e.1 = k then (e.1, f e.2) else e)) =
        fun e => (e.1, if e.1 = k then f e.2 else e.2) := by
      funext e
      split <;> rfl
    rw [h, List.map_map]
    exact m.nodup

/-- The map without `k`. -/
def erase (m : KeyMap κ α) (k : κ) : KeyMap κ α where
  entries := m.entries.filter fun e => e.1 ≠ k
  nodup := m.nodup.sublist (List.filter_sublist.map _)

/-- The map with `k` bound to `a`, unless `k` is bound already. -/
def insert (m : KeyMap κ α) (k : κ) (a : α) : KeyMap κ α :=
  if h : k ∈ m.keys then m
  else ⟨m.entries ++ [(k, a)], by
    rw [List.map_append, List.nodup_append]
    refine ⟨m.nodup, List.nodup_singleton _, ?_⟩
    rintro x hx y hy rfl
    have hy : x = k := List.mem_singleton.1 hy
    have hx : x ∈ m.keys := hx
    exact h (hy ▸ hx)⟩

variable {m : KeyMap κ α} {k k' : κ} {a : α}

@[simp] theorem find_empty (k : κ) : (empty : KeyMap κ α).find k = none := rfl

/-- What is found is an entry. -/
theorem find_eq_some_iff : m.find k = some a ↔ (k, a) ∈ m.entries := by
  obtain ⟨l, hl⟩ := m
  simp only [find]
  induction l with
  | nil => simp
  | cons e l ih =>
    rw [List.map_cons, List.nodup_cons] at hl
    have ih := ih hl.2
    obtain ⟨x, b⟩ := e
    by_cases hx : x = k
    · subst hx
      have : (x, a) ∉ l := fun h => hl.1 (List.mem_map.2 ⟨_, h, rfl⟩)
      simp [this, eq_comm]
    · have : ¬(k = x) := fun h => hx h.symm
      simp [hx, this, ih]

/-- A key has something to be found. -/
theorem mem_keys_iff : k ∈ m.keys ↔ ∃ a, m.find k = some a := by
  simp [keys, find_eq_some_iff]

/-- Nothing is found at what is no key. -/
theorem find_eq_none_iff : m.find k = none ↔ k ∉ m.keys := by
  rw [mem_keys_iff, Option.eq_none_iff_forall_ne_some]
  push Not
  exact Iff.rfl

/-- The new entry is found at its key, and the others as before. -/
theorem find_insert (h : m.find k = none) (a : α) (k' : κ) :
    (m.insert k a).find k' = if k' = k then some a else m.find k' := by
  have hk := find_eq_none_iff.1 h
  rw [insert, dif_neg hk]
  ext b
  rw [find_eq_some_iff]
  simp only [List.mem_append, List.mem_singleton, Prod.mk.injEq]
  split
  · next e =>
    subst e
    have : (k', b) ∉ m.entries := fun hb => hk (List.mem_map.2 ⟨_, hb, rfl⟩)
    simp [this, eq_comm]
  · next e => simp [e, find_eq_some_iff]

@[simp] theorem find_erase (m : KeyMap κ α) (k k' : κ) :
    (m.erase k).find k' = if k' = k then none else m.find k' := by
  ext b
  rw [find_eq_some_iff]
  simp only [erase, List.mem_filter, ne_eq, decide_eq_true_eq]
  split
  · next e => simp [e]
  · next e => simp [e, find_eq_some_iff]

@[simp] theorem find_modify (m : KeyMap κ α) (k k' : κ) (f : α → α) :
    (m.modify k f).find k' = if k' = k then (m.find k').map f else m.find k' := by
  ext b
  rw [find_eq_some_iff]
  simp only [modify, List.mem_map, Prod.exists]
  constructor
  · rintro ⟨x, c, hx, e⟩
    split at e
    · next hk =>
      obtain ⟨rfl, rfl⟩ := Prod.mk.inj e
      rw [if_pos hk, find_eq_some_iff.2 hx]
      rfl
    · next hk =>
      obtain ⟨rfl, rfl⟩ := Prod.mk.inj e
      rw [if_neg hk, find_eq_some_iff.2 hx]
  · split
    · next hk =>
      intro h
      obtain ⟨c, hc, rfl⟩ := Option.map_eq_some_iff.1 h
      exact ⟨k', c, find_eq_some_iff.1 hc, by simp [hk]⟩
    · next hk =>
      intro h
      exact ⟨k', b, find_eq_some_iff.1 h, by simp [hk]⟩

/-- The entries are the one that is erased and the rest. -/
theorem perm_erase (h : m.find k = some a) : ((k, a) :: (m.erase k).entries).Perm m.entries := by
  have hmem := find_eq_some_iff.1 h
  have hnot : (k, a) ∉ (m.erase k).entries := by simp [erase]
  refine (List.perm_ext_iff_of_nodup (List.nodup_cons.2 ⟨hnot, (m.erase k).nodup.of_map _⟩)
    (m.nodup.of_map _)).2 fun e => ?_
  rw [List.mem_cons]
  constructor
  · rintro (rfl | he)
    · exact hmem
    · exact List.mem_of_mem_filter he
  · intro he
    by_cases hk : e.1 = k
    · obtain ⟨x, b⟩ := e
      obtain rfl : x = k := hk
      have hb := (find_eq_some_iff.2 he).symm.trans h
      left
      rw [Option.some.inj hb]
    · right
      exact List.mem_filter.2 ⟨he, decide_eq_true hk⟩

/-! ## Sums -/

variable {f : α → ℕ}

/-- A new entry adds its value. -/
theorem sumOf_insert (h : m.find k = none) (a : α) :
    (m.insert k a).sumOf f = m.sumOf f + f a := by
  rw [insert, dif_neg (find_eq_none_iff.1 h)]
  simp [sumOf]

/-- An erased entry takes its value away. -/
theorem sumOf_erase (h : m.find k = some a) : (m.erase k).sumOf f + f a = m.sumOf f := by
  obtain ⟨l, hl⟩ := m
  rw [find_eq_some_iff] at h
  simp only [sumOf, erase] at h ⊢
  induction l with
  | nil => cases h
  | cons e l ih =>
    rw [List.map_cons, List.nodup_cons] at hl
    rcases List.mem_cons.1 h with rfl | hm
    · have hself : l.filter (fun e : κ × α => e.1 ≠ k) = l := by
        refine List.filter_eq_self.2 fun e he => decide_eq_true fun hk => hl.1 ?_
        exact List.mem_map.2 ⟨e, he, hk⟩
      simp only [ne_eq, decide_not] at hself ⊢
      simp [hself, Nat.add_comm]
    · have hk : e.1 ≠ k := fun hk => hl.1 (hk ▸ List.mem_map.2 ⟨_, hm, rfl⟩)
      have := ih hl.2 hm
      simp only [ne_eq, decide_not] at this
      simp [hk, Nat.add_assoc, this]

/-- A changed entry exchanges its old value for the new. -/
theorem sumOf_modify (h : m.find k = some a) (g : α → α) :
    (m.modify k g).sumOf f + f a = m.sumOf f + f (g a) := by
  obtain ⟨l, hl⟩ := m
  rw [find_eq_some_iff] at h
  simp only [sumOf, modify] at h ⊢
  induction l with
  | nil => cases h
  | cons e l ih =>
    rw [List.map_cons, List.nodup_cons] at hl
    rcases List.mem_cons.1 h with rfl | hm
    · have hself : l.map (fun e : κ × α => if e.1 = k then (e.1, g e.2) else e) = l := by
        refine (List.map_congr_left fun e he => ?_).trans (List.map_id l)
        exact if_neg fun hk => hl.1 (List.mem_map.2 ⟨e, he, hk⟩)
      simp [hself, Nat.add_comm, Nat.add_left_comm]
    · have hk : e.1 ≠ k := fun hk => hl.1 (hk ▸ List.mem_map.2 ⟨_, hm, rfl⟩)
      have := ih hl.2 hm
      simp only [List.map_cons, List.sum_cons, hk, if_false]
      omega

/-- No entry has more than the sum. -/
theorem le_sumOf (h : m.find k = some a) : f a ≤ m.sumOf f := by
  have := sumOf_erase (f := f) h
  omega

end KeyMap
