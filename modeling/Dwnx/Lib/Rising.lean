import Mathlib.Order.Lattice

/-!
# Values that rise

A party announces values, each above the one before, so the last of them bounds them all.
-/

variable {α : Type*} [Preorder α] {vs : List α} {v w u : α}

/-- The values rise, and `v` is the last of them. -/
structure Rising (vs : List α) (v : α) : Prop where
  pairwise : vs.Pairwise (· < ·)
  last : vs.getLast? = some v

theorem Rising.single (v : α) : Rising [v] v := ⟨List.pairwise_singleton _ _, rfl⟩

/-- None of the values is above the last one. -/
theorem Rising.le (h : Rising vs v) (hu : u ∈ vs) : u ≤ v := by
  obtain ⟨l, hl⟩ := List.getLast?_eq_some_iff.1 h.last
  have hpairwise := h.pairwise
  rw [hl, List.pairwise_append] at hpairwise
  rw [hl] at hu
  rcases List.mem_append.1 hu with hu | hu
  · exact (hpairwise.2.2 u hu v (List.mem_singleton_self v)).le
  · exact (List.mem_singleton.1 hu).le

theorem Rising.concat (h : Rising vs v) (hw : v < w) : Rising (vs ++ [w]) w where
  pairwise := List.pairwise_append.2 ⟨h.pairwise, List.pairwise_singleton _ _, fun u hu x hx => by
    rw [List.mem_singleton.1 hx]
    exact (h.le hu).trans_lt hw⟩
  last := List.getLast?_concat
