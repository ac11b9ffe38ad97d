import Mathlib.Algebra.Order.Monoid.Canonical.Defs
import Mathlib.Algebra.Order.Monoid.Unbundled.MinMax

/-!
# Buckets

A bucket is filled up to its capacity, and what is over is lost. Filling it several times is
filling it once with everything (`refill_refill`), as long as nothing is taken in between.
-/

namespace Bucket

variable {α : Type} [AddCommMonoid α] [LinearOrder α] [IsOrderedAddMonoid α]
  [CanonicallyOrderedAdd α] {cap level gain gain' : α}

/-- The level after a gain. -/
def refill (cap level gain : α) : α := min cap (level + gain)

omit [IsOrderedAddMonoid α] [CanonicallyOrderedAdd α] in
theorem refill_zero (h : level ≤ cap) : refill cap level 0 = level := by
  rw [refill, add_zero, min_eq_right h]

omit [IsOrderedAddMonoid α] [CanonicallyOrderedAdd α] in
theorem refill_of_ge (h : cap ≤ level + gain) : refill cap level gain = cap := min_eq_left h

/-- Gains one after the other are one gain. -/
theorem refill_refill :
    refill cap (refill cap level gain) gain' = refill cap level (gain + gain') := by
  have hcap : cap ≤ cap + gain' := le_self_add
  calc min cap (min cap (level + gain) + gain')
      = min cap (min (cap + gain') (level + gain + gain')) := by rw [min_add_add_right]
    _ = min cap (level + gain + gain') := by rw [← min_assoc, min_eq_left hcap]
    _ = min cap (level + (gain + gain')) := by rw [add_assoc]

end Bucket
