import Mathlib.Data.List.Basic
import Mathlib.Data.List.Nodup
import Mathlib.Data.List.Perm.Basic
import Mathlib.Logic.Function.Basic
import Mathlib.Order.Defs.Unbundled

/-!
# An intrusive binary heap

The items of an intrusive heap know where they are: every item has an index
field, holding its position in the array, or `none` when it is not queued. The
field belongs to the item and outlives its time in the heap, so it is a function
on all items, of which the operations only write at items they touch.

* `Wf`: every item of the array has its own position in its index field;
* `Moves`: one heap rearranges another, the relation of the two bubbling loops;
* `mem_push`, `mem_pop`, `mem_remove`: the items after an operation;
* `push_head`: an item not less than the top one leaves the top where it is;
* `ordered_push`, `ordered_pop`, `ordered_remove`: no item is less than its parent, before and
  after an operation, if `less` is a strict weak order.
-/

/-- A heap of items of type `κ`, with the index fields of all items. -/
structure Pq (κ : Type) where
  /-- The array. -/
  q : List κ
  /-- The index fields; `none` is the index of an item not queued. -/
  index : κ → Option ℕ

namespace Pq

variable {κ : Type}

/-- The heap without items. -/
def init : Pq κ := ⟨[], fun _ => none⟩

/-! ## Index fields -/

/-- Every item of the array has its position in its index field. -/
def Wf (pq : Pq κ) : Prop := ∀ i k, pq.q[i]? = some k → pq.index k = some i

/-- The empty queue. -/
theorem wf_init : (init : Pq κ).Wf := fun i k h => by simp [init] at h

variable {pq pq' : Pq κ}

/-- No item is there twice. -/
theorem Wf.nodup (h : pq.Wf) : pq.q.Nodup := by
  rw [List.nodup_iff_getElem?_ne_getElem?]
  intro i j hij hj he
  have hi := h i _ (List.getElem?_eq_getElem (Nat.lt_trans hij hj))
  rw [List.getElem?_eq_getElem (Nat.lt_trans hij hj)] at he
  have := hi.symm.trans (h j _ he.symm)
  simp only [Option.some.injEq] at this
  omega

/-- An item is there if it stands at its index. -/
theorem Wf.mem_iff (h : pq.Wf) {k : κ} :
    k ∈ pq.q ↔ ∃ i, pq.index k = some i ∧ pq.q[i]? = some k := by
  constructor
  · intro hk
    obtain ⟨i, hi⟩ := List.mem_iff_getElem?.1 hk
    exact ⟨i, h i k hi, hi⟩
  · rintro ⟨i, -, hi⟩
    exact List.mem_of_getElem? hi

/-- `pq'` rearranges `pq`: the same items, with index fields that are right if
    those of `pq` were, and unchanged on all other items. -/
structure Moves (pq pq' : Pq κ) : Prop where
  perm : pq'.q.Perm pq.q
  wf : pq.Wf → pq'.Wf
  frame : ∀ k, k ∉ pq.q → pq'.index k = pq.index k

/-- Nothing is moved. -/
theorem Moves.refl (pq : Pq κ) : pq.Moves pq := ⟨.refl _, id, fun _ _ => rfl⟩

/-- Items are moved one after another. -/
theorem Moves.trans {pq'' : Pq κ} (h : pq.Moves pq') (h' : pq'.Moves pq'') : pq.Moves pq'' where
  perm := h'.perm.trans h.perm
  wf := h'.wf ∘ h.wf
  frame k hk := (h'.frame k fun hk' => hk (h.perm.mem_iff.1 hk')).trans (h.frame k hk)

/-- The items are the same. -/
theorem Moves.mem_iff (h : pq.Moves pq') {k : κ} : k ∈ pq'.q ↔ k ∈ pq.q := h.perm.mem_iff

/-- Writing at `j` what was at `i` and at `i` what was at `j` permutes a list. -/
theorem perm_set_set {l : List κ} {i j : ℕ} {a b : κ} (ha : l[i]? = some a) (hb : l[j]? = some b)
    (hij : i < j) : ((l.set i b).set j a).Perm l := by
  induction l generalizing i j with
  | nil => simp at ha
  | cons c l ih =>
    obtain ⟨j, rfl⟩ : ∃ k, j = k + 1 := ⟨j - 1, by omega⟩
    cases i with
    | zero =>
      simp only [List.getElem?_cons_zero, Option.some.injEq] at ha
      simp only [List.getElem?_cons_succ] at hb
      subst ha
      simp only [List.set_cons_zero, List.set_cons_succ]
      obtain ⟨hj, rfl⟩ := List.getElem?_eq_some_iff.1 hb
      rw [List.set_eq_take_append_cons_drop, if_pos hj]
      conv_rhs => rw [← List.take_append_drop j l, List.drop_eq_getElem_cons hj]
      refine (List.Perm.cons _ List.perm_middle).trans (.trans (.swap ..) ?_)
      exact (List.Perm.cons _ List.perm_middle.symm)
    | succ i =>
      simp only [List.getElem?_cons_succ, List.set_cons_succ] at *
      exact (ih ha hb (by omega)).cons c

/-! ## Operations -/

variable [DecidableEq κ]

/-- Swaps the items at `i` and `j`. -/
def swap (pq : Pq κ) (i j : ℕ) : Pq κ :=
  match pq.q[i]?, pq.q[j]? with
  | some a, some b =>
    ⟨(pq.q.set i b).set j a, Function.update (Function.update pq.index b (some i)) a (some j)⟩
  | _, _ => pq

variable (less : κ → κ → Bool)

/-- Moves the item at `index` up while it is less than its parent; the index
    strictly decreases, and bounds the passes. -/
def bubbleUp : ℕ → Pq κ → ℕ → Pq κ
  | 0, pq, _ => pq
  | n + 1, pq, index =>
    if index = 0 then pq
    else
      let parent := (index - 1) / 2
      match pq.q[index]?, pq.q[parent]? with
      | some a, some b => if less a b then bubbleUp n (pq.swap parent index) parent else pq
      | _, _ => pq

/-- The least of the item at `minindex` and the one at `j`, if there is one. -/
def minIndex (pq : Pq κ) (minindex j : ℕ) : ℕ :=
  match pq.q[j]?, pq.q[minindex]? with
  | some a, some b => if less a b then j else minindex
  | _, _ => minindex

/-- Moves the item at `index` down while one of its children is less. -/
def bubbleDown : ℕ → Pq κ → ℕ → Pq κ
  | 0, pq, _ => pq
  | n + 1, pq, index =>
    let j := index * 2 + 1
    let minindex := pq.minIndex less (pq.minIndex less index j) (j + 1)
    if minindex = index then pq else bubbleDown n (pq.swap index minindex) minindex

/-- Adds `item`. -/
def push (pq : Pq κ) (item : κ) : Pq κ :=
  bubbleUp less pq.q.length
    ⟨pq.q ++ [item], Function.update pq.index item (some pq.q.length)⟩ pq.q.length

/-- Drops the last item of the array, after writing it at `i`. -/
def dropInto (pq : Pq κ) (i : ℕ) : Pq κ :=
  match pq.q.getLast? with
  | some a => ⟨(pq.q.set i a).dropLast, Function.update pq.index a (some i)⟩
  | none => pq

/-- Removes the top item. -/
def pop (pq : Pq κ) : Pq κ :=
  bubbleDown less pq.q.length (pq.dropInto 0) 0

/-- Removes `item`, found at the position its index field gives. -/
def remove (pq : Pq κ) (item : κ) : Pq κ :=
  match pq.index item with
  | none => pq
  | some i =>
    if i = 0 then pq.pop less
    else if i = pq.q.length - 1 then ⟨pq.q.dropLast, pq.index⟩
    else
      let pq' := pq.dropInto i
      match pq'.q[i]? with
      | some a =>
        if less item a then bubbleDown less pq'.q.length pq' i else bubbleUp less i pq' i
      | none => pq'

variable {less} {pq pq' : Pq κ}

/-- Two items change places. -/
theorem moves_swap {i j : ℕ} (hij : i < j) : pq.Moves (pq.swap i j) := by
  unfold swap
  split
  · next a b ha hb =>
    refine ⟨perm_set_set ha hb hij, fun hwf m k hk => ?_, fun k hk => ?_⟩
    · have hai := hwf i a ha
      have hbj := hwf j b hb
      have hab : a ≠ b := by
        rintro rfl
        simp only [hai, Option.some.injEq] at hbj
        omega
      simp only [List.getElem?_set, List.length_set] at hk
      split at hk
      · next e =>
        subst e
        split at hk <;> simp only [Option.some.injEq, reduceCtorEq] at hk
        subst hk
        exact Function.update_self ..
      · next hmj =>
        split at hk
        · next e =>
          subst e
          split at hk <;> simp only [Option.some.injEq, reduceCtorEq] at hk
          subst hk
          exact (Function.update_of_ne hab.symm ..).trans (Function.update_self ..)
        · next hmi =>
          have hk' := hwf m k hk
          have hka : k ≠ a := fun e => hmi (by simpa [e, hai] using hk')
          have hkb : k ≠ b := fun e => hmj (by simpa [e, hbj] using hk')
          exact (Function.update_of_ne hka ..).trans ((Function.update_of_ne hkb ..).trans hk')
    · have hka : k ≠ a := fun e => hk (e ▸ List.mem_of_getElem? ha)
      have hkb : k ≠ b := fun e => hk (e ▸ List.mem_of_getElem? hb)
      change Function.update (Function.update pq.index b (some i)) a (some j) k = _
      rw [Function.update_of_ne hka, Function.update_of_ne hkb]
  · exact .refl _

/-- The items on the way up change places. -/
theorem moves_bubbleUp (n : ℕ) (pq : Pq κ) (i : ℕ) : pq.Moves (bubbleUp less n pq i) := by
  induction n generalizing pq i with
  | zero => exact .refl _
  | succ n ih =>
    unfold bubbleUp
    split
    · exact .refl _
    · simp only
      split
      · split
        · exact (moves_swap (by omega)).trans (ih _ _)
        · exact .refl _
      · exact .refl _

omit [DecidableEq κ] in
/-- The smaller of two indices in the order of their items, if both are there. -/
theorem minIndex_eq (pq : Pq κ) (i j : ℕ) :
    pq.minIndex less i j = i ∨ pq.minIndex less i j = j := by
  unfold minIndex
  split
  · split
    · exact .inr rfl
    · exact .inl rfl
  · exact .inl rfl

variable (less) in
/-- The items on the way down change places. -/
theorem moves_bubbleDown (n : ℕ) (pq : Pq κ) (i : ℕ) : pq.Moves (bubbleDown less n pq i) := by
  induction n generalizing pq i with
  | zero => exact .refl _
  | succ n ih =>
    unfold bubbleDown
    simp only
    split
    · exact .refl _
    · next hne =>
      refine (moves_swap ?_).trans (ih _ _)
      rcases @minIndex_eq κ less pq (pq.minIndex less i (i * 2 + 1)) (i * 2 + 1 + 1) with h | h
      · rcases @minIndex_eq κ less pq i (i * 2 + 1) with h' | h'
        · exact absurd (h.trans h') hne
        · omega
      · omega

/-- The bound on the passes makes no difference. -/
theorem bubbleUp_passes {n m : ℕ} {pq : Pq κ} {i : ℕ} (hn : i ≤ n) (hm : i ≤ m) :
    bubbleUp less n pq i = bubbleUp less m pq i := by
  induction n generalizing pq i m with
  | zero =>
    obtain rfl := Nat.le_zero.1 hn
    cases m <;> simp [bubbleUp]
  | succ n ih =>
    cases m with
    | zero =>
      obtain rfl := Nat.le_zero.1 hm
      simp [bubbleUp]
    | succ m =>
      unfold bubbleUp
      split
      · rfl
      · dsimp only
        split
        · rw [ih (m := m) (by omega) (by omega)]
        · rfl

/-- The bound on the passes makes no difference. -/
theorem bubbleDown_passes {n m : ℕ} {pq : Pq κ} {i : ℕ} (hn : pq.q.length ≤ i + n)
    (hm : pq.q.length ≤ i + m) : bubbleDown less n pq i = bubbleDown less m pq i := by
  have hend {n : ℕ} {pq : Pq κ} {i : ℕ} (hi : pq.q.length ≤ i) : bubbleDown less n pq i = pq := by
    cases n with
    | zero => rfl
    | succ n =>
      have hnone (j : ℕ) (hj : i ≤ j) : pq.q[j]? = none := List.getElem?_eq_none (by omega)
      simp [bubbleDown, minIndex, hnone _ (Nat.le_refl i), hnone (i * 2 + 1) (by omega),
        hnone (i * 2 + 1 + 1) (by omega)]
  induction n generalizing pq i m with
  | zero => rw [hend (by omega), hend (by omega)]
  | succ n ih =>
    cases m with
    | zero => rw [hend (by omega), hend (by omega)]
    | succ m =>
      unfold bubbleDown
      dsimp only
      have hmi := @minIndex_eq κ less pq i (i * 2 + 1)
      have hmj := @minIndex_eq κ less pq (pq.minIndex less i (i * 2 + 1)) (i * 2 + 1 + 1)
      generalize pq.minIndex less (pq.minIndex less i (i * 2 + 1)) (i * 2 + 1 + 1) = k at hmj
      split
      · rfl
      · next hne =>
        have hlen : (pq.swap i k).q.length = pq.q.length := (moves_swap (by omega)).perm.length_eq
        exact ih (by rw [hlen]; omega) (by rw [hlen]; omega)

/-! ## Push -/

/-- The item is there, and the others. -/
theorem mem_push {k item : κ} : k ∈ (pq.push less item).q ↔ k ∈ pq.q ∨ k = item := by
  rw [push, (moves_bubbleUp _ _ _).mem_iff]
  simp

/-- A new item has its index. -/
theorem wf_push (h : pq.Wf) {item : κ} (hi : item ∉ pq.q) : (pq.push less item).Wf := by
  refine (moves_bubbleUp _ _ _).wf fun i k hk => ?_
  simp only [List.getElem?_append] at hk
  split at hk
  · have hki : k ≠ item := fun e => hi (e ▸ List.mem_of_getElem? hk)
    exact (Function.update_of_ne hki ..).trans (h i k hk)
  · next hl =>
    obtain ⟨hi0, rfl⟩ := List.getElem?_eq_some_iff.1 hk
    simp only [List.length_singleton, Nat.lt_one_iff] at hi0
    simp only [List.getElem_singleton, Function.update_self, Option.some.injEq]
    omega

/-- The index of an item that is not there is left alone. -/
theorem index_push {k item : κ} (hk : k ∉ pq.q) (hi : k ≠ item) :
    (pq.push less item).index k = pq.index k := by
  rw [push, (moves_bubbleUp _ _ _).frame k (by simp [hk, hi])]
  exact Function.update_of_ne hi ..

/-- The top stays, if the item is not less. -/
theorem bubbleUp_head {n : ℕ} {pq : Pq κ} {i : ℕ} {t x : κ} (hi : 0 < i)
    (ht : pq.q[0]? = some t) (hx : pq.q[i]? = some x) (hlt : less x t = false) :
    (bubbleUp less n pq i).q[0]? = some t := by
  induction n generalizing pq i with
  | zero => exact ht
  | succ n ih =>
    unfold bubbleUp
    rw [if_neg (by omega : ¬ i = 0)]
    simp only [hx]
    split
    · next a b ha hb =>
      obtain rfl := Option.some.inj ha
      split
      · next hab =>
        have hp : 0 < (i - 1) / 2 := by
          by_contra hp
          have hp0 : (i - 1) / 2 = 0 := by omega
          rw [hp0, ht] at hb
          obtain rfl := Option.some.inj hb
          simp [hlt] at hab
        have hlen : i < pq.q.length := (List.getElem?_eq_some_iff.1 hx).1
        have hsw : (pq.swap ((i - 1) / 2) i).q = (pq.q.set ((i - 1) / 2) x).set i b := by
          simp only [swap, hb, hx]
        refine ih hp ?_ ?_
        · rw [hsw, List.getElem?_set_ne (by omega), List.getElem?_set_ne (by omega), ht]
        · rw [hsw, List.getElem?_set_ne (by omega), List.getElem?_set_self (by omega)]
      · exact ht
    · exact ht

/-- An item that is not less than the top one is not pushed before it. -/
theorem push_head {t x : κ} (ht : pq.q[0]? = some t) (hlt : less x t = false) :
    (pq.push less x).q[0]? = some t := by
  have hpos : 0 < pq.q.length := (List.getElem?_eq_some_iff.1 ht).1
  refine bubbleUp_head hpos ?_ (x := x) ?_ hlt
  · rw [List.getElem?_append_left hpos, ht]
  · simp

/-- The top stays, or the item takes its place. -/
theorem bubbleUp_head_or {n : ℕ} {pq : Pq κ} {i : ℕ} {t x : κ}
    (ht : pq.q[0]? = some t) (hx : pq.q[i]? = some x) :
    (bubbleUp less n pq i).q[0]? = some t ∨ (bubbleUp less n pq i).q[0]? = some x := by
  induction n generalizing pq i t with
  | zero => exact .inl ht
  | succ n ih =>
    unfold bubbleUp
    split
    · exact .inl ht
    · next hi =>
      simp only [hx]
      split
      · next a b ha hb =>
        obtain rfl := Option.some.inj ha
        split
        · have hlen : i < pq.q.length := (List.getElem?_eq_some_iff.1 hx).1
          have hsw : (pq.swap ((i - 1) / 2) i).q = (pq.q.set ((i - 1) / 2) x).set i b := by
            simp only [swap, hb, hx]
          have hx' : (pq.swap ((i - 1) / 2) i).q[(i - 1) / 2]? = some x := by
            rw [hsw, List.getElem?_set_ne (by omega), List.getElem?_set_self (by omega)]
          by_cases hp : (i - 1) / 2 = 0
          · rw [hp] at hx' ⊢
            rcases ih hx' hx' with h | h
            exacts [.inr h, .inr h]
          · refine ih ?_ hx'
            rw [hsw, List.getElem?_set_ne (by omega), List.getElem?_set_ne (by omega), ht]
        · exact .inl ht
      · exact .inl ht

/-- The top item after a push: the old one, or the new one if it is less. -/
theorem push_head_or {t x : κ} (ht : pq.q[0]? = some t) :
    (pq.push less x).q[0]? = some t ∨ (pq.push less x).q[0]? = some x ∧ less x t = true := by
  cases hlt : less x t with
  | false => exact .inl (push_head ht hlt)
  | true =>
    have hpos : 0 < pq.q.length := (List.getElem?_eq_some_iff.1 ht).1
    rw [and_iff_left rfl]
    refine bubbleUp_head_or ?_ ?_
    · rw [List.getElem?_append_left hpos, ht]
    · simp

/-! ## Pop and remove -/

/-- The item at the index is gone. -/
theorem mem_dropInto (h : pq.Wf) {i : ℕ} {x k : κ} (hx : pq.q[i]? = some x) :
    k ∈ (pq.dropInto i).q ↔ k ∈ pq.q ∧ k ≠ x := by
  have hnd := h.nodup
  obtain ⟨hi, rfl⟩ := List.getElem?_eq_some_iff.1 hx
  have hne : pq.q ≠ [] := List.ne_nil_of_length_pos (by omega)
  have hget : pq.q.getLast? = some (pq.q.getLast hne) := List.getLast?_eq_getLast_of_ne_nil hne
  have hdrop : (pq.dropInto i).q = (pq.q.set i (pq.q.getLast hne)).dropLast := by
    simp only [dropInto, hget]
  rw [hdrop, List.mem_iff_getElem?]
  simp only [List.getElem?_dropLast, List.length_set, List.getElem?_set]
  constructor
  · rintro ⟨j, hj⟩
    split at hj <;> try cases hj
    next hlt =>
    split at hj
    · next e =>
      subst e
      obtain rfl := Option.some.inj hj
      refine ⟨List.getLast_mem hne, fun e => ?_⟩
      rw [List.getLast_eq_getElem] at e
      have := hnd.getElem_inj_iff.1 e
      omega
    · next hij =>
      obtain ⟨hj', rfl⟩ := List.getElem?_eq_some_iff.1 hj
      exact ⟨List.getElem_mem _, fun e => hij (hnd.getElem_inj_iff.1 e).symm⟩
  · rintro ⟨hk, hkx⟩
    obtain ⟨j, hj, rfl⟩ := List.getElem_of_mem hk
    have hij : i ≠ j := fun e => hkx (by simp only [e])
    by_cases hl : j < pq.q.length - 1
    · exact ⟨j, by rw [if_pos hl, if_neg hij, List.getElem?_eq_getElem hj]⟩
    · have hjl : j = pq.q.length - 1 := by omega
      refine ⟨i, ?_⟩
      rw [if_pos (by omega), if_pos rfl, if_pos hi, Option.some.injEq, List.getLast_eq_getElem]
      simp only [hjl]

/-- The last item has a new index. -/
theorem wf_dropInto (h : pq.Wf) {i : ℕ} (hi : i < pq.q.length) : (pq.dropInto i).Wf := by
  have hnd := h.nodup
  have hne : pq.q ≠ [] := List.ne_nil_of_length_pos (by omega)
  have hget : pq.q.getLast? = some (pq.q.getLast hne) := List.getLast?_eq_getLast_of_ne_nil hne
  intro j k hk
  simp only [dropInto, hget, List.getElem?_dropLast, List.length_set, List.getElem?_set] at hk ⊢
  split at hk <;> try cases hk
  next hlt =>
  split at hk
  · next e =>
    subst e
    obtain rfl := Option.some.inj hk
    exact Function.update_self ..
  · next hij =>
    have hk' := h j k hk
    have hkl : k ≠ pq.q.getLast hne := by
      rintro rfl
      rw [List.getLast_eq_getElem] at hk
      obtain ⟨hj', e⟩ := List.getElem?_eq_some_iff.1 hk
      have := hnd.getElem_inj_iff.1 e
      omega
    rw [Function.update_of_ne hkl, hk']

/-- The index of an item that is not there is left alone. -/
theorem index_dropInto {i : ℕ} {k : κ} (hk : k ∉ pq.q) :
    (pq.dropInto i).index k = pq.index k := by
  unfold dropInto
  split
  · next a ha =>
    have hka : k ≠ a := fun e => hk (e ▸ List.mem_of_getLast? ha)
    exact Function.update_of_ne hka ..
  · rfl

/-- The top is gone, and no other. -/
theorem mem_pop (h : pq.Wf) {x k : κ} (hx : pq.q[0]? = some x) :
    k ∈ (pq.pop less).q ↔ k ∈ pq.q ∧ k ≠ x := by
  rw [pop, (moves_bubbleDown _ _ _ _).mem_iff, mem_dropInto h hx]

/-- The others have their indices. -/
theorem wf_pop (h : pq.Wf) {x : κ} (hx : pq.q[0]? = some x) : (pq.pop less).Wf :=
  (moves_bubbleDown _ _ _ _).wf (wf_dropInto h (List.getElem?_eq_some_iff.1 hx).1)

/-- The index of an item that is not there is left alone. -/
theorem index_pop {k : κ} (h : pq.Wf) {x : κ} (hx : pq.q[0]? = some x) (hk : k ∉ pq.q) :
    (pq.pop less).index k = pq.index k := by
  rw [pop, (moves_bubbleDown _ _ _ _).frame k (by rw [mem_dropInto h hx]; exact fun h' => hk h'.1),
    index_dropInto hk]

/-- The last item is dropped without another in its place. -/
theorem dropInto_length_sub_one (h : pq.Wf) (hne : pq.q ≠ []) :
    (pq.dropInto (pq.q.length - 1)) = ⟨pq.q.dropLast, pq.index⟩ := by
  have hget : pq.q.getLast? = some (pq.q.getLast hne) := List.getLast?_eq_getLast_of_ne_nil hne
  have hlen := List.length_pos_of_ne_nil hne
  simp only [dropInto, hget, Pq.mk.injEq]
  constructor
  · refine List.ext_getElem? fun j => ?_
    simp only [List.getElem?_dropLast, List.length_set]
    split
    · rw [List.getElem?_set_ne (by omega)]
    · rfl
  · refine Function.update_eq_self_iff.2 ?_
    refine (h _ _ ?_).symm
    rw [List.getLast_eq_getElem]
    exact List.getElem?_eq_getElem _

/-- Removing an item leaves a rearrangement of the heap without it. -/
theorem moves_remove (h : pq.Wf) {item : κ} {i : ℕ} (hi : pq.q[i]? = some item) :
    (pq.dropInto i).Moves (pq.remove less item) := by
  have hlen : i < pq.q.length := (List.getElem?_eq_some_iff.1 hi).1
  have hne : pq.q ≠ [] := List.ne_nil_of_length_pos (by omega)
  unfold remove
  simp only [h i item hi]
  split
  · next e =>
    subst e
    exact moves_bubbleDown _ _ _ _
  · split
    · next e =>
      rw [e, dropInto_length_sub_one h hne]
      exact .refl _
    · split
      · split
        · exact moves_bubbleDown _ _ _ _
        · exact moves_bubbleUp _ _ _
      · exact .refl _

/-- The item is gone, and no other. -/
theorem mem_remove (h : pq.Wf) {item k : κ} (hi : item ∈ pq.q) :
    k ∈ (pq.remove less item).q ↔ k ∈ pq.q ∧ k ≠ item := by
  obtain ⟨i, -, hi⟩ := h.mem_iff.1 hi
  rw [(moves_remove h hi).mem_iff, mem_dropInto h hi]

/-- The others have their indices. -/
theorem wf_remove (h : pq.Wf) {item : κ} (hi : item ∈ pq.q) : (pq.remove less item).Wf := by
  obtain ⟨i, -, hi⟩ := h.mem_iff.1 hi
  exact (moves_remove h hi).wf (wf_dropInto h (List.getElem?_eq_some_iff.1 hi).1)

/-- The index of an item that is not there is left alone. -/
theorem index_remove (h : pq.Wf) {item k : κ} (hi : item ∈ pq.q) (hk : k ∉ pq.q) :
    (pq.remove less item).index k = pq.index k := by
  obtain ⟨i, -, hi⟩ := h.mem_iff.1 hi
  rw [(moves_remove h hi).frame k (by rw [mem_dropInto h hi]; exact fun h' => hk h'.1),
    index_dropInto hk]

/-! ## Order -/

omit [DecidableEq κ] in
/-- No item is less than its parent. -/
def Ordered (less : κ → κ → Bool) (q : List κ) : Prop :=
  ∀ i a b, 0 < i → q[i]? = some a → q[(i - 1) / 2]? = some b → less a b = false

section Order

variable {q : List κ} [hless : IsStrictWeakOrder κ fun a b => less a b = true]

omit [DecidableEq κ] in
include hless in
/-- No item is less than itself. -/
theorem less_irrefl (a : κ) : less a a = false :=
  Bool.eq_false_iff.2 (irrefl_of (fun a b => less a b = true) a)

omit [DecidableEq κ] in
include hless in
/-- The order is transitive. -/
theorem less_trans {a b c : κ} (h : less a b = true) (h' : less b c = true) : less a c = true :=
  trans_of (fun a b => less a b = true) h h'

omit [DecidableEq κ] in
include hless in
/-- Of two items, one is not less. -/
theorem less_asymm {a b : κ} (h : less a b = true) : less b a = false :=
  Bool.eq_false_iff.2 fun h' => absurd (less_trans h h') (Bool.eq_false_iff.1 (less_irrefl a))

omit [DecidableEq κ] in
include hless in
/-- Not to be less is transitive, too. -/
theorem not_less_trans {a b c : κ} (h : less a b = false) (h' : less b c = false) :
    less a c = false := by
  by_contra hac
  rw [Bool.not_eq_false] at hac
  have hba : less b a = false := by
    by_contra hba
    rw [Bool.not_eq_false] at hba
    exact Bool.eq_false_iff.1 h' (less_trans hba hac)
  have hcb : less c b = false := by
    by_contra hcb
    rw [Bool.not_eq_false] at hcb
    exact Bool.eq_false_iff.1 h (less_trans hac hcb)
  exact (hless.incomp_trans a b c
    ⟨Bool.eq_false_iff.1 h, Bool.eq_false_iff.1 hba⟩
    ⟨Bool.eq_false_iff.1 h', Bool.eq_false_iff.1 hcb⟩).1 hac

omit [DecidableEq κ] in
include hless in
/-- The top item is a least one. -/
theorem Ordered.top (h : Ordered less q) {t k : κ} (ht : q[0]? = some t) (hk : k ∈ q) :
    less k t = false := by
  obtain ⟨i, hi⟩ := List.mem_iff_getElem?.1 hk
  clear hk
  induction i using Nat.strongRecOn generalizing k with
  | ind i ih =>
    rcases Nat.eq_zero_or_pos i with rfl | hpos
    · obtain rfl := Option.some.inj (hi.symm.trans ht)
      exact less_irrefl _
    · have hlen : (i - 1) / 2 < q.length := by
        have := (List.getElem?_eq_some_iff.1 hi).1
        omega
      have hp := List.getElem?_eq_getElem hlen
      exact not_less_trans (h i k _ hpos hi hp) (ih _ (by omega) hp)

/-- The order while the item at `i` moves up: only that item may be less than its parent,
    and the children of `i` are not less than the parent of `i`, either. -/
structure UpOrder (less : κ → κ → Bool) (q : List κ) (i : ℕ) : Prop where
  other : ∀ j a b, 0 < j → j ≠ i → q[j]? = some a → q[(j - 1) / 2]? = some b → less a b = false
  grand : ∀ j a b, 0 < i → 0 < j → (j - 1) / 2 = i → q[j]? = some a → q[(i - 1) / 2]? = some b →
    less a b = false

/-- The order while the item at `i` moves down: only its children may be less than it. -/
structure DownOrder (less : κ → κ → Bool) (q : List κ) (i : ℕ) : Prop where
  other : ∀ j a b, 0 < j → (j - 1) / 2 ≠ i → q[j]? = some a → q[(j - 1) / 2]? = some b →
    less a b = false
  grand : ∀ j a b, 0 < i → 0 < j → (j - 1) / 2 = i → q[j]? = some a → q[(i - 1) / 2]? = some b →
    less a b = false

variable (pq) in
/-- The items after a swap. -/
theorem getElem?_swap {i j : ℕ} {a b : κ} (ha : pq.q[i]? = some a) (hb : pq.q[j]? = some b)
    (m : ℕ) : (pq.swap i j).q[m]? =
      if m = j then some a else if m = i then some b else pq.q[m]? := by
  have hi := (List.getElem?_eq_some_iff.1 ha).1
  have hj := (List.getElem?_eq_some_iff.1 hb).1
  have hsw : (pq.swap i j).q = (pq.q.set i b).set j a := by simp only [swap, ha, hb]
  rw [hsw]
  by_cases hmj : m = j
  · rw [if_pos hmj, hmj, List.getElem?_set_self (by rwa [List.length_set])]
  · rw [if_neg hmj, List.getElem?_set_ne (Ne.symm hmj)]
    by_cases hmi : m = i
    · rw [if_pos hmi, hmi, List.getElem?_set_self hi]
    · rw [if_neg hmi, List.getElem?_set_ne (Ne.symm hmi)]

omit [DecidableEq κ] hless in
/-- The item at `i` is where it belongs. -/
theorem UpOrder.ordered {i : ℕ} (h : UpOrder less q i)
    (hi : ∀ a b, 0 < i → q[i]? = some a → q[(i - 1) / 2]? = some b → less a b = false) :
    Ordered less q := by
  intro j a b hj ha hb
  by_cases hji : j = i
  · subst hji
    exact hi a b hj ha hb
  · exact h.other j a b hj hji ha hb

include hless in
/-- The item goes up to the place of its parent. -/
theorem UpOrder.swap {i : ℕ} {a b : κ} (h : UpOrder less pq.q i) (hi : 0 < i)
    (ha : pq.q[i]? = some a) (hb : pq.q[(i - 1) / 2]? = some b) (hab : less a b = true) :
    UpOrder less (pq.swap ((i - 1) / 2) i).q ((i - 1) / 2) := by
  have hget := getElem?_swap pq hb ha
  have hp : (i - 1) / 2 ≠ i := by omega
  constructor
  · intro j x y hj hjp hx hy
    rw [hget] at hx hy
    rw [if_neg hjp] at hx
    by_cases hji : j = i
    · -- the parent, which has moved down
      subst hji
      rw [if_pos rfl] at hx
      rw [if_neg hp, if_pos rfl] at hy
      cases hx
      cases hy
      exact less_asymm hab
    · rw [if_neg hji] at hx
      by_cases hjc : (j - 1) / 2 = i
      · rw [if_pos hjc] at hy
        cases hy
        exact h.grand j x b hi hj hjc hx hb
      · rw [if_neg hjc] at hy
        by_cases hjs : (j - 1) / 2 = (i - 1) / 2
        · -- the other child of the parent
          rw [if_pos hjs] at hy
          cases hy
          exact not_less_trans (h.other j x b hj hji hx (hjs ▸ hb)) (less_asymm hab)
        · rw [if_neg hjs] at hy
          exact h.other j x y hj hji hx hy
  · intro j x y hpos hj hjp hx hy
    rw [hget] at hx hy
    have hpi : ((i - 1) / 2 - 1) / 2 ≠ i := by omega
    have hpp : ((i - 1) / 2 - 1) / 2 ≠ (i - 1) / 2 := by omega
    rw [if_neg hpi, if_neg hpp] at hy
    have hby := h.other _ b y hpos (by omega) hb hy
    have hjp' : j ≠ (i - 1) / 2 := by omega
    rw [if_neg hjp'] at hx
    by_cases hji : j = i
    · rw [if_pos hji] at hx
      cases hx
      exact hby
    · rw [if_neg hji] at hx
      exact not_less_trans (h.other j x b hj hji hx (hjp ▸ hb)) hby

include hless in
/-- Moving up restores the order. -/
theorem ordered_bubbleUp {n i : ℕ} (hn : i ≤ n) (h : UpOrder less pq.q i) :
    Ordered less (bubbleUp less n pq i).q := by
  induction n generalizing pq i with
  | zero =>
    obtain rfl := Nat.le_zero.1 hn
    exact h.ordered fun _ _ h0 => absurd h0 (Nat.lt_irrefl 0)
  | succ n ih =>
    unfold bubbleUp
    split
    · next hi =>
      subst hi
      exact h.ordered fun _ _ h0 => absurd h0 (Nat.lt_irrefl 0)
    next hi =>
    dsimp only
    split
    · next a b ha hb =>
      split
      · next hab => exact ih (by omega) (h.swap (Nat.pos_of_ne_zero hi) ha hb hab)
      · next hab =>
        refine h.ordered fun x y _ hx hy => ?_
        cases hx.symm.trans ha
        cases hy.symm.trans hb
        exact Bool.eq_false_iff.2 hab
    · next hnone => exact h.ordered fun x y _ hx hy => absurd hy (hnone x y hx)

omit [DecidableEq κ] in
include hless in
/-- The item chosen is not greater than either of the two. -/
theorem minIndex_least {i j m : ℕ} {x y : κ} (hx : pq.q[i]? = some x)
    (hm : pq.minIndex less i j = m) (hy : pq.q[m]? = some y) :
    less x y = false ∧ ∀ z, pq.q[j]? = some z → less z y = false := by
  subst hm
  unfold minIndex at hy
  cases hz : pq.q[j]? with
  | none =>
    rw [hz] at hy
    cases hx.symm.trans hy
    exact ⟨less_irrefl _, nofun⟩
  | some z =>
    rw [hz, hx] at hy
    dsimp only at hy
    split at hy
    · next hlt =>
      cases hz.symm.trans hy
      refine ⟨less_asymm hlt, ?_⟩
      rintro _ ⟨⟩
      exact less_irrefl _
    · next hlt =>
      cases hx.symm.trans hy
      refine ⟨less_irrefl _, ?_⟩
      rintro _ ⟨⟩
      exact Bool.eq_false_iff.2 hlt

/-- The child that moves up, if one does. -/
structure LeastChild (less : κ → κ → Bool) (q : List κ) (i m : ℕ) : Prop where
  child : m ≠ i → 0 < m ∧ (m - 1) / 2 = i
  mem : i < q.length → m < q.length
  least : ∀ x y, q[i]? = some x → q[m]? = some y → less x y = false ∧
    ∀ j z, 0 < j → (j - 1) / 2 = i → q[j]? = some z → less z y = false
  moves : m ≠ i → ∀ x y, q[i]? = some x → q[m]? = some y → less y x = true

omit [DecidableEq κ] hless in
/-- The index is one of the queue. -/
theorem minIndex_lt {i j : ℕ} (h : i < pq.q.length) : pq.minIndex less i j < pq.q.length := by
  unfold minIndex
  split
  · next a b ha _ =>
    split
    · exact (List.getElem?_eq_some_iff.1 ha).1
    · exact h
  · exact h

omit [DecidableEq κ] hless in
/-- Where the second index is the smaller, its item is less. -/
theorem less_of_minIndex {i j : ℕ} {x y : κ} (hne : pq.minIndex less i j ≠ i)
    (hx : pq.q[i]? = some x) (hy : pq.q[pq.minIndex less i j]? = some y) : less y x = true := by
  unfold minIndex at hne hy
  split at hne
  · next a b ha hb =>
    rw [ha, hb] at hy
    dsimp only at hy
    split at hne
    · next hab =>
      rw [if_pos hab] at hy
      cases hy.symm.trans ha
      cases hx.symm.trans hb
      exact hab
    · exact absurd rfl hne
  · exact absurd rfl hne

variable (less) in
omit [DecidableEq κ] in
include hless in
/-- The least of an item and its two children. -/
theorem leastChild (pq : Pq κ) (i : ℕ) :
    LeastChild less pq.q i
      (pq.minIndex less (pq.minIndex less i (i * 2 + 1)) (i * 2 + 1 + 1)) := by
  generalize hm : pq.minIndex less i (i * 2 + 1) = m
  generalize hn : pq.minIndex less m (i * 2 + 1 + 1) = n
  have hmi := @minIndex_eq κ less pq i (i * 2 + 1)
  have hnm := @minIndex_eq κ less pq m (i * 2 + 1 + 1)
  rw [hm] at hmi
  rw [hn] at hnm
  have hget {k : ℕ} (hk : k < pq.q.length) : ∃ z, pq.q[k]? = some z :=
    ⟨_, List.getElem?_eq_getElem hk⟩
  refine ⟨by omega, fun h => hn ▸ minIndex_lt (hm ▸ minIndex_lt h), fun x y hx hy => ?_,
    fun hne x y hx hy => ?_⟩
  · have hlen := (List.getElem?_eq_some_iff.1 hx).1
    obtain ⟨w, hw⟩ := hget (hm ▸ minIndex_lt hlen : m < pq.q.length)
    obtain ⟨hxw, hfst⟩ := minIndex_least hx hm hw
    obtain ⟨hwy, hsnd⟩ := minIndex_least hw hn hy
    refine ⟨not_less_trans hxw hwy, fun j z hj hji hz => ?_⟩
    rcases (by omega : j = i * 2 + 1 ∨ j = i * 2 + 1 + 1) with rfl | rfl
    · exact not_less_trans (hfst z hz) hwy
    · exact hsnd z hz
  · have hlen := (List.getElem?_eq_some_iff.1 hx).1
    obtain ⟨w, hw⟩ := hget (hm ▸ minIndex_lt hlen : m < pq.q.length)
    by_cases hnm' : n = m
    · subst hnm'
      exact less_of_minIndex (by rw [hm]; exact hne) hx (by rw [hm]; exact hy)
    · have hyw : less y w = true :=
        less_of_minIndex (by rw [hn]; exact hnm') hw (by rw [hn]; exact hy)
      by_cases hmi' : m = i
      · subst hmi'
        cases hx.symm.trans hw
        exact hyw
      · exact less_trans hyw (less_of_minIndex (by rw [hm]; exact hmi') hx (by rw [hm]; exact hw))

omit [DecidableEq κ] hless in
/-- An item that is not above its children is in order. -/
theorem DownOrder.ordered {i : ℕ} (h : DownOrder less q i)
    (hi : ∀ j a b, 0 < j → (j - 1) / 2 = i → q[j]? = some a → q[i]? = some b → less a b = false) :
    Ordered less q := by
  intro j a b hj ha hb
  by_cases hji : (j - 1) / 2 = i
  · exact hi j a b hj hji ha (hji ▸ hb)
  · exact h.other j a b hj hji ha hb

include hless in
/-- The item goes down to the place of its least child. -/
theorem DownOrder.swap {i m : ℕ} {x y : κ} (h : DownOrder less pq.q i)
    (hm : LeastChild less pq.q i m) (hne : m ≠ i) (hx : pq.q[i]? = some x)
    (hy : pq.q[m]? = some y) : DownOrder less (pq.swap i m).q m := by
  have hget := getElem?_swap pq hx hy
  obtain ⟨hpos, hchild⟩ := hm.child hne
  have hleast := (hm.least x y hx hy).2
  constructor
  · intro j a b hj hjm ha hb
    rw [hget] at ha hb
    rw [if_neg hjm] at hb
    by_cases hj' : j = m
    · -- the item that has moved down
      rw [if_pos hj'] at ha
      rw [if_pos (by omega)] at hb
      cases ha
      cases hb
      exact less_asymm (hm.moves hne x y hx hy)
    · rw [if_neg hj'] at ha
      by_cases hji : j = i
      · -- the item that has moved up
        subst hji
        rw [if_pos rfl] at ha
        rw [if_neg (by omega)] at hb
        cases ha
        exact h.grand m y b hj hpos hchild hy hb
      · rw [if_neg hji] at ha
        by_cases hjp : (j - 1) / 2 = i
        · rw [if_pos hjp] at hb
          cases hb
          exact hleast j a hj hjp ha
        · rw [if_neg hjp] at hb
          exact h.other j a b hj hjp ha hb
  · intro j a b _ hj hjm ha hb
    rw [hget] at ha hb
    rw [if_neg (by omega), if_neg (by omega)] at ha
    rw [if_neg (by omega), if_pos hchild] at hb
    cases hb
    exact h.other j a y hj (by omega) ha (hjm ▸ hy)

include hless in
/-- Moving down restores the order. -/
theorem ordered_bubbleDown {n i : ℕ} (hi : i < pq.q.length) (hn : pq.q.length ≤ i + n)
    (h : DownOrder less pq.q i) : Ordered less (bubbleDown less n pq i).q := by
  induction n generalizing pq i with
  | zero => omega
  | succ n ih =>
    unfold bubbleDown
    dsimp only
    have hm := leastChild less pq i
    generalize pq.minIndex less (pq.minIndex less i (i * 2 + 1)) (i * 2 + 1 + 1) = m at hm
    have hx := List.getElem?_eq_getElem hi
    have hy := List.getElem?_eq_getElem (hm.mem hi)
    split
    · next he =>
      subst he
      refine h.ordered fun j a b hj hji ha hb => ?_
      exact (hm.least b b hb hb).2 j a hj hji ha
    · next hne =>
      have hchild := hm.child hne
      have hlen : (pq.swap i m).q.length = pq.q.length := (moves_swap (by omega)).perm.length_eq
      exact ih (by rw [hlen]; exact hm.mem hi) (by rw [hlen]; omega) (h.swap hm hne hx hy)

/-! ### Operations -/

include hless in
/-- The heap stays one. -/
theorem ordered_push {item : κ} (h : Ordered less pq.q) : Ordered less (pq.push less item).q := by
  refine ordered_bubbleUp (Nat.le_refl _)
    ⟨fun j a b hj hne ha hb => ?_, fun j a b _ hj hji ha _ => ?_⟩
  · have hjl : j < pq.q.length := by
      have := (List.getElem?_eq_some_iff.1 ha).1
      rw [List.length_append, List.length_singleton] at this
      omega
    rw [List.getElem?_append_left hjl] at ha
    rw [List.getElem?_append_left (by omega)] at hb
    exact h j a b hj ha hb
  · have := (List.getElem?_eq_some_iff.1 ha).1
    rw [List.length_append, List.length_singleton] at this
    omega

omit [DecidableEq κ] hless in
/-- A part of the order. -/
theorem Ordered.of_getElem? {q' : List κ} (h : Ordered less q)
    (hq : ∀ (j : ℕ) (a : κ), q'[j]? = some a → q[j]? = some a) : Ordered less q' :=
  fun j a b hj ha hb => h j a b hj (hq j a ha) (hq _ b hb)

omit hless in
/-- The items after the last one was written at `i`. -/
theorem getElem?_dropInto {i j : ℕ} (hi : i < pq.q.length) {a : κ}
    (ha : (pq.dropInto i).q[j]? = some a) :
    (j = i ∧ pq.q[pq.q.length - 1]? = some a) ∨ (j ≠ i ∧ pq.q[j]? = some a) := by
  have hne : pq.q ≠ [] := List.ne_nil_of_length_pos (by omega)
  have hget : pq.q.getLast? = some (pq.q.getLast hne) := List.getLast?_eq_getLast_of_ne_nil hne
  simp only [dropInto, hget, List.getElem?_dropLast, List.length_set] at ha
  split at ha
  · by_cases hji : j = i
    · rw [hji, List.getElem?_set_self hi] at ha
      cases ha
      refine .inl ⟨hji, ?_⟩
      rw [← List.getLast?_eq_getElem?, hget]
    · rw [List.getElem?_set_ne (Ne.symm hji)] at ha
      exact .inr ⟨hji, ha⟩
  · cases ha

omit hless in
/-- There is one item less. -/
theorem length_dropInto (pq : Pq κ) (i : ℕ) : (pq.dropInto i).q.length = pq.q.length - 1 := by
  unfold dropInto
  split
  · rw [List.length_dropLast, List.length_set]
  · next hnone =>
    rw [List.getLast?_eq_none_iff.1 hnone]
    rfl

include hless in
/-- The heap stays one. -/
theorem ordered_pop (h : Ordered less pq.q) : Ordered less (pq.pop less).q := by
  have hlen := length_dropInto pq 0
  rcases Nat.lt_or_ge 1 pq.q.length with hlt | hle
  · refine ordered_bubbleDown (by omega) (by omega) ⟨fun j a b hj hjp ha hb => ?_, fun _ _ _ h0 =>
      absurd h0 (Nat.lt_irrefl 0)⟩
    rcases getElem?_dropInto (by omega) ha with ⟨rfl, -⟩ | ⟨-, ha⟩
    · exact absurd hj (Nat.lt_irrefl 0)
    rcases getElem?_dropInto (by omega) hb with ⟨hp, -⟩ | ⟨-, hb⟩
    · exact absurd hp hjp
    · exact h j a b hj ha hb
  · have hperm := (moves_bubbleDown less pq.q.length (pq.dropInto 0) 0).perm.length_eq
    rw [pop]
    intro j a b hj ha _
    have := (List.getElem?_eq_some_iff.1 ha).1
    omega

include hless in
/-- The heap stays one. -/
theorem ordered_remove (hw : pq.Wf) (h : Ordered less pq.q) {item : κ} (hi : item ∈ pq.q) :
    Ordered less (pq.remove less item).q := by
  obtain ⟨i, hidx, hget⟩ := hw.mem_iff.1 hi
  have hlt := (List.getElem?_eq_some_iff.1 hget).1
  unfold remove
  rw [hidx]
  dsimp only
  split
  · exact ordered_pop h
  next h0 =>
  split
  · refine Ordered.of_getElem? h fun j a ha => ?_
    rw [List.getElem?_dropLast] at ha
    split at ha
    · exact ha
    · cases ha
  next hlast =>
  have hlen := length_dropInto pq i
  split
  · next a ha =>
    obtain ⟨-, hla⟩ : i = i ∧ pq.q[pq.q.length - 1]? = some a := by
      rcases getElem?_dropInto hlt ha with h' | ⟨hne, -⟩
      · exact h'
      · exact absurd rfl hne
    -- the last item is at `i` now, all others are where they were
    have hother {j : ℕ} {b : κ} (hj : j ≠ i) (hb : (pq.dropInto i).q[j]? = some b) :
        pq.q[j]? = some b := by
      rcases getElem?_dropInto hlt hb with ⟨rfl, -⟩ | ⟨-, hb⟩
      · exact absurd rfl hj
      · exact hb
    have hgrand (j : ℕ) (b c : κ) (hpos : 0 < i) (hj : 0 < j) (hji : (j - 1) / 2 = i)
        (hb : (pq.dropInto i).q[j]? = some b) (hc : (pq.dropInto i).q[(i - 1) / 2]? = some c) :
        less b c = false := by
      have hb := hother (by omega) hb
      have hc := hother (by omega) hc
      exact not_less_trans (h j b item hj hb (hji ▸ hget)) (h i item c hpos hget hc)
    split
    · next hless' =>
      refine ordered_bubbleDown (by omega) (by omega) ⟨fun j b c hj hjp hb hc => ?_, hgrand⟩
      have hc' := hother hjp hc
      by_cases hji : j = i
      · subst hji
        cases hb.symm.trans ha
        exact not_less_trans (less_asymm hless') (h j item c hj hget hc')
      · exact h j b c hj (hother hji hb) hc'
    · next hless' =>
      refine ordered_bubbleUp (Nat.le_refl _) ⟨fun j b c hj hji hb hc => ?_, hgrand⟩
      have hb := hother hji hb
      by_cases hjp : (j - 1) / 2 = i
      · rw [hjp] at hc
        cases hc.symm.trans ha
        exact not_less_trans (h j b item hj hb (hjp ▸ hget)) (Bool.eq_false_iff.2 hless')
      · exact h j b c hj hb (hother hjp hc)
  · next hnone =>
    have := List.getElem?_eq_none_iff.1 hnone
    omega

end Order

end Pq
