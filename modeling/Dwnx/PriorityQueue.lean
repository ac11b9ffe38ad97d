import Dwnx.Lib.Pq
import Mathlib.Data.Set.Insert
import Mathlib.Order.RelClasses

/-!
# The queue of the streams with something to send

`dwnx_pq` is the heap of `Lib/Pq`. Runs of it (`PqRun`) push items that are not queued,
pop the top item and remove items that are, and keep account of the items that ought
to be there.

* `pqRun_queue`: in every run the heap is a priority queue of those items.
-/

namespace Dwnx

variable {κ : Type} [DecidableEq κ] {less : κ → κ → Bool}

/-- The heaps that calls lead to, with the items pushed and neither popped nor removed. -/
inductive PqRun (less : κ → κ → Bool) : Pq κ → Set κ → Prop
  /-- `dwnx_pq_init` -/
  | init : PqRun less .init ∅
  /-- `dwnx_pq_push` -/
  | push {pq : Pq κ} {items : Set κ} {item : κ} (h : PqRun less pq items) (hi : item ∉ items) :
    PqRun less (pq.push less item) (insert item items)
  /-- `dwnx_pq_pop`, of what `dwnx_pq_top` returns. -/
  | pop {pq : Pq κ} {items : Set κ} {top : κ} (h : PqRun less pq items)
    (ht : pq.q[0]? = some top) : PqRun less (pq.pop less) (items \ {top})
  /-- `dwnx_pq_remove` -/
  | remove {pq : Pq κ} {items : Set κ} {item : κ} (h : PqRun less pq items) (hi : item ∈ items) :
    PqRun less (pq.remove less item) (items \ {item})

/-- A priority queue of `items`: the array is in heap order and has each of them once, they
    know their positions, and none is less than the top one. -/
structure IsQueue (less : κ → κ → Bool) (pq : Pq κ) (items : Set κ) : Prop where
  ordered : Pq.Ordered less pq.q
  index : ∀ i k, pq.q[i]? = some k → pq.index k = some i
  nodup : pq.q.Nodup
  mem : ∀ k, k ∈ pq.q ↔ k ∈ items
  found : ∀ k ∈ items, ∃ i, pq.index k = some i ∧ pq.q[i]? = some k
  top : ∀ t, pq.q[0]? = some t → ∀ k ∈ items, less k t = false
  nonempty : items.Nonempty → ∃ t, pq.q[0]? = some t

/-- What the calls keep up. -/
theorem PqRun.keep [IsStrictWeakOrder κ fun a b => less a b = true] {pq : Pq κ} {items : Set κ}
    (h : PqRun less pq items) :
    Pq.Ordered less pq.q ∧ pq.Wf ∧ ∀ k, k ∈ pq.q ↔ k ∈ items := by
  induction h with
  | init => exact ⟨fun i a b _ ha => by simp [Pq.init] at ha, Pq.wf_init, by simp [Pq.init]⟩
  | @push pq items item h hi ih =>
    obtain ⟨hord, hwf, hmem⟩ := ih
    have hn : item ∉ pq.q := fun h => hi ((hmem item).1 h)
    refine ⟨Pq.ordered_push hord, Pq.wf_push hwf hn, fun k => ?_⟩
    rw [Pq.mem_push, hmem, Set.mem_insert_iff, or_comm]
  | @pop pq items top h ht ih =>
    obtain ⟨hord, hwf, hmem⟩ := ih
    refine ⟨Pq.ordered_pop hord, Pq.wf_pop hwf ht, fun k => ?_⟩
    rw [Pq.mem_pop hwf ht, hmem, Set.mem_sdiff, Set.mem_singleton_iff]
  | @remove pq items item h hi ih =>
    obtain ⟨hord, hwf, hmem⟩ := ih
    have hin : item ∈ pq.q := (hmem item).2 hi
    refine ⟨Pq.ordered_remove hwf hord hin, Pq.wf_remove hwf hin, fun k => ?_⟩
    rw [Pq.mem_remove hwf hin, hmem, Set.mem_sdiff, Set.mem_singleton_iff]

/-- After every call the heap is a priority queue of the items that were pushed and neither
    popped nor removed. -/
theorem pqRun_queue [IsStrictWeakOrder κ fun a b => less a b = true] {pq : Pq κ}
    {items : Set κ} (h : PqRun less pq items) : IsQueue less pq items := by
  obtain ⟨hord, hwf, hmem⟩ := h.keep
  refine ⟨hord, hwf, hwf.nodup, hmem, fun k hk => hwf.mem_iff.1 ((hmem k).2 hk),
    fun t ht k hk => hord.top ht ((hmem k).2 hk), ?_⟩
  rintro ⟨k, hk⟩
  have hpos := List.length_pos_of_mem ((hmem k).2 hk)
  exact ⟨_, List.getElem?_eq_getElem hpos⟩

/-- Three items, of which the last one pushed is removed, and then the least one popped. -/
theorem pqRun_queue_three :
    let less (a b : ℕ) : Bool := decide (a < b)
    IsQueue less
      (((((Pq.init.push less 5).push less 3).push less 4).remove less 4).pop less)
      ((insert 4 (insert 3 (insert 5 ∅)) \ {4}) \ {3}) := by
  intro less
  have hless : IsStrictWeakOrder ℕ fun a b => less a b = true := by
    simp only [less, decide_eq_true_eq]
    exact isStrictWeakOrder_of_isOrderConnected
  have htop : ((((Pq.init.push less 5).push less 3).push less 4).remove less 4).q[0]? = some 3 := by
    decide
  refine pqRun_queue (.pop (.remove (.push (.push (.push .init ?_) ?_) ?_) ?_) htop) <;> simp

end Dwnx
