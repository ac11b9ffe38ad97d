import Dwnx.Ksl.Links
import Mathlib.Order.WithBot

/-!
# The order of the keys

The keys are compared by where a map `ord` takes them in a linear order. What is under a
node lies above the key before the node (`lo`) and not above the key of the node; the key of
a node may be too large, after removals, but never too small. `NodeOk` says so of a node and
everything under it, and bounds the number of nodes in a block; `Spans` says so of the nodes
of a block from left to right.
-/

namespace Dwnx

namespace Ksl

variable {κ ν α ι : Type} {h : ℕ}

/-! ## Items and addresses -/

/-- The keys and data under a node. -/
def nodeItems : (h : ℕ) → κ × Node κ ν h → List (κ × ν)
  | 0, e => [e]
  | h + 1, e => e.2.nodes.flatMap (nodeItems h)

/-- The keys and data under the nodes of a list. -/
def items (h : ℕ) (l : List (κ × Node κ ν h)) : List (κ × ν) := l.flatMap (nodeItems h)

/-- The addresses of the blocks under a node, by their heights. -/
def nodeAddrs : (h : ℕ) → κ × Node κ ν h → ℕ → List ℕ
  | 0, _, _ => []
  | h + 1, e, k => (if k = h then [e.2.addr] else []) ++ e.2.nodes.flatMap fun e => nodeAddrs h e k

/-- The addresses of the blocks under the nodes of a list. -/
def addrs (h : ℕ) (l : List (κ × Node κ ν h)) : ℕ → List ℕ := fun k =>
  l.flatMap fun e => nodeAddrs h e k

/-- A single block of height `h`. -/
def self (h addr : ℕ) : ℕ → List ℕ := fun k => if k = h then [addr] else []

/-- The addresses of a block and the blocks under it. -/
def treeAddrs (t : Tree κ ν h) : ℕ → List ℕ := side (self h t.addr) (addrs h t.nodes)

/-- The entries of two lists of nodes follow each other. -/
theorem items_append (l₁ l₂ : List (κ × Node κ ν h)) :
    items h (l₁ ++ l₂) = items h l₁ ++ items h l₂ := List.flatMap_append

/-- The entries of the first node come first. -/
theorem items_cons (e : κ × Node κ ν h) (l : List (κ × Node κ ν h)) :
    items h (e :: l) = nodeItems h e ++ items h l := List.flatMap_cons

@[simp] theorem items_nil : items h ([] : List (κ × Node κ ν h)) = [] := rfl

/-- The entries of an inner node are those of its block. -/
theorem nodeItems_succ (k : κ) (t : Tree κ ν h) : nodeItems (h + 1) (k, t) = items h t.nodes := rfl

/-- The nodes of a leaf are its entries. -/
theorem items_zero (l : List (κ × Node κ ν 0)) : items 0 l = l := List.flatMap_singleton' l

/-- The blocks of two lists of nodes follow each other on each level. -/
theorem addrs_append (l₁ l₂ : List (κ × Node κ ν h)) :
    addrs h (l₁ ++ l₂) = side (addrs h l₁) (addrs h l₂) := by
  funext k
  exact List.flatMap_append

/-- The blocks of the first node come first on each level. -/
theorem addrs_cons (k : κ) (t : Tree κ ν h) (l : List (κ × Node κ ν (h + 1))) :
    addrs (h + 1) ((k, t) :: l) = side (treeAddrs t) (addrs (h + 1) l) := by
  funext j
  exact List.flatMap_cons

theorem addrs_nil : addrs h ([] : List (κ × Node κ ν h)) = fun _ => [] := rfl

/-- A node has no blocks above it. -/
theorem nodeAddrs_of_le : ∀ {h : ℕ} (e : κ × Node κ ν h) {k : ℕ}, h ≤ k → nodeAddrs h e k = []
  | 0, _, _, _ => rfl
  | h + 1, e, k, hk => by
    rw [nodeAddrs, if_neg (by omega), List.nil_append]
    refine List.flatMap_eq_nil_iff.2 fun e' _ => ?_
    exact nodeAddrs_of_le e' (by omega)

/-- The blocks under the nodes of a block are lower than it. -/
theorem addrs_of_le (l : List (κ × Node κ ν h)) {k : ℕ} (hk : h ≤ k) : addrs h l k = [] :=
  List.flatMap_eq_nil_iff.2 fun e _ => nodeAddrs_of_le e hk

/-! ## Leaves -/

/-- The entries of a tree are those of its leaves. -/
theorem leaves_nodes : ∀ {h : ℕ} (t : Tree κ ν h), (leaves h t).flatMap Blk.nodes = items h t.nodes
  | 0, t => by rw [leaves, items_zero, List.flatMap_cons, List.flatMap_nil, List.append_nil]
  | h + 1, t => by
    rw [leaves, List.flatMap_assoc, items]
    exact List.flatMap_congr fun e _ => leaves_nodes e.2

/-- The leaves are the blocks of the lowest level. -/
theorem leaves_addrs : ∀ {h : ℕ} (t : Tree κ ν h), (leaves h t).map Blk.addr = treeAddrs t 0
  | 0, t => by
    rw [leaves, treeAddrs, side, self, if_pos rfl, addrs_of_le _ (Nat.le_refl _)]
    rfl
  | h + 1, t => by
    rw [leaves, List.map_flatMap, treeAddrs, side, self, if_neg (by omega), List.nil_append, addrs]
    exact List.flatMap_congr fun e _ => leaves_addrs e.2

/-! ## Order -/

section Spans

variable (ord : κ → ι)

/-- The nodes of a list, from left to right, where each begins behind the key of the one before
    it and the first behind `lo`. -/
def Spans (P : WithBot ι → κ → α → Prop) : WithBot ι → List (κ × α) → Prop
  | _, [] => True
  | lo, e :: l => P lo e.1 e.2 ∧ Spans P (ord e.1) l

/-- The last key of a list. -/
def top : WithBot ι → List (κ × α) → WithBot ι
  | lo, [] => lo
  | _, e :: l => top (ord e.1) l

variable {ord} {P : WithBot ι → κ → α → Prop} {lo : WithBot ι}

/-- The last key of the second list is the bound. -/
theorem top_append (l₁ l₂ : List (κ × α)) :
    top ord lo (l₁ ++ l₂) = top ord (top ord lo l₁) l₂ := by
  induction l₁ generalizing lo with
  | nil => rfl
  | cons e l₁ ih => exact ih

/-- The lower end of a list that is not empty does not matter to its last key. -/
theorem top_of_ne_nil {l : List (κ × α)} (hl : l ≠ []) (lo lo' : WithBot ι) :
    top ord lo l = top ord lo' l := by
  cases l with
  | nil => exact absurd rfl hl
  | cons e l => rfl

/-- The second list goes on from the last key of the first. -/
theorem spans_append (l₁ l₂ : List (κ × α)) :
    Spans ord P lo (l₁ ++ l₂) ↔ Spans ord P lo l₁ ∧ Spans ord P (top ord lo l₁) l₂ := by
  induction l₁ generalizing lo with
  | nil => simp [Spans, top]
  | cons e l₁ ih => rw [List.cons_append, Spans, Spans, ih, top, and_assoc]

/-- The bound below may be lower. -/
theorem spans_mono {lo' : WithBot ι} {l : List (κ × α)} (hP : ∀ k a, P lo k a → P lo' k a)
    (h : Spans ord P lo l) : Spans ord P lo' l := by
  cases l with
  | nil => trivial
  | cons e l => exact ⟨hP _ _ h.1, h.2⟩

/-- An element of the list has a bound of its own. -/
theorem spans_mem {l : List (κ × α)} (hl : Spans ord P lo l) {e : κ × α} (he : e ∈ l) :
    ∃ lo', P lo' e.1 e.2 := by
  induction l generalizing lo with
  | nil => exact absurd he List.not_mem_nil
  | cons c l ih =>
    rcases List.mem_cons.1 he with rfl | he
    · exact ⟨lo, hl.1⟩
    · exact ih hl.2 he

variable (ord) in
/-- A block with nodes has a last key. -/
theorem exists_lastKey {blk : Blk κ α} (hn : blk.n ≠ 0) :
    ∃ k, blk.lastKey = some k ∧ ∀ lo, top ord lo blk.nodes = ord k := by
  rcases List.eq_nil_or_concat' blk.nodes with he | ⟨l, e, he⟩
  · exact absurd (by rw [Blk.n, he]; rfl) hn
  · refine ⟨e.1, by rw [Blk.lastKey, he, List.getLast?_concat]; rfl, fun lo => ?_⟩
    rw [he, top_append]
    rfl

end Spans

variable [LinearOrder ι] (ord : κ → ι)

/-- A node behind `lo`, with its key. -/
def NodeOk : (h : ℕ) → WithBot ι → κ → Node κ ν h → Prop
  | 0, lo, k, _ => lo < ord k
  | h + 1, lo, k, t => (kslMinNblk ≤ t.n ∧ t.n ≤ kslMaxNblk) ∧
    Spans ord (NodeOk h) lo t.nodes ∧ top ord lo t.nodes ≤ ord k

/-- The nodes of a block of height `h`. -/
abbrev Nodes (h : ℕ) (lo : WithBot ι) (l : List (κ × Node κ ν h)) : Prop :=
  Spans ord (NodeOk ord h) lo l

variable {ord} {lo lo' : WithBot ι} {k : κ} {l : List (κ × Node κ ν h)}

/-- The bound above grows with the one below. -/
theorem top_mono {l : List (κ × α)} (hlo : lo' ≤ lo) : top ord lo' l ≤ top ord lo l := by
  cases l with
  | nil => exact hlo
  | cons e l => exact le_refl _

/-- The lower end may be moved down. -/
theorem NodeOk.mono : ∀ {h : ℕ} {lo lo' : WithBot ι} {k : κ} {a : Node κ ν h}, lo' ≤ lo →
    NodeOk ord h lo k a → NodeOk ord h lo' k a
  | 0, _, _, _, _, hlo, ha => lt_of_le_of_lt hlo ha
  | _ + 1, _, _, _, _, hlo, ha =>
    ⟨ha.1, spans_mono (fun _ _ => NodeOk.mono hlo) ha.2.1, (top_mono hlo).trans ha.2.2⟩

/-- The bound below may be lower. -/
theorem Nodes.mono (hlo : lo' ≤ lo) (hl : Nodes ord h lo l) : Nodes ord h lo' l :=
  spans_mono (fun _ _ => NodeOk.mono hlo) hl

/-- The bound below is no more than the bound above. -/
theorem le_top {P : WithBot ι → κ → α → Prop} {l : List (κ × α)}
    (hP : ∀ lo k a, P lo k a → lo < ord k) (hl : Spans ord P lo l) : lo ≤ top ord lo l := by
  induction l generalizing lo with
  | nil => exact le_refl _
  | cons e l ih => exact (hP _ _ _ hl.1).le.trans (ih hl.2)

/-- Where there are elements, it is less. -/
theorem lt_top {P : WithBot ι → κ → α → Prop} {l : List (κ × α)}
    (hP : ∀ lo k a, P lo k a → lo < ord k) (hl : Spans ord P lo l) (hne : l ≠ []) :
    lo < top ord lo l := by
  cases l with
  | nil => exact absurd rfl hne
  | cons e l => exact (hP _ _ _ hl.1).trans_le (le_top hP hl.2)

/-- No key is above the bound. -/
theorem le_top_of_mem {P : WithBot ι → κ → α → Prop} {l : List (κ × α)}
    (hP : ∀ lo k a, P lo k a → lo < ord k) (hl : Spans ord P lo l) :
    ∀ e ∈ l, (ord e.1 : WithBot ι) ≤ top ord lo l := by
  induction l generalizing lo with
  | nil => exact fun _ he => absurd he List.not_mem_nil
  | cons c l ih =>
    intro e he
    rcases List.mem_cons.1 he with rfl | he
    · exact le_top hP hl.2
    · exact ih hl.2 e he

/-- A block of the least size has nodes. -/
theorem Blk.ne_nil {blk : Blk κ α} (hn : kslMinNblk ≤ blk.n) : blk.nodes ≠ [] := by
  intro he
  rw [Blk.n, he, List.length_nil, kslMinNblk] at hn
  omega

/-- The key of a node is above the bound below. -/
theorem NodeOk.lt : ∀ {h : ℕ} {lo : WithBot ι} {k : κ} {a : Node κ ν h},
    NodeOk ord h lo k a → lo < ord k
  | 0, _, _, _, ha => ha
  | _ + 1, _, _, _, ha =>
    (lt_top (fun _ _ _ hb => NodeOk.lt hb) ha.2.1 (Blk.ne_nil ha.1.1)).trans_le ha.2.2

/-- No node is without entries. -/
theorem NodeOk.items_ne_nil : ∀ {h : ℕ} {lo : WithBot ι} {e : κ × Node κ ν h},
    NodeOk ord h lo e.1 e.2 → nodeItems h e ≠ []
  | 0, _, _, _ => List.cons_ne_nil _ _
  | h + 1, _, e, he => by
    obtain ⟨c, l, hl⟩ := List.exists_cons_of_ne_nil (Blk.ne_nil he.1.1)
    have hspan := he.2.1
    rw [hl] at hspan
    rw [nodeItems, hl, List.flatMap_cons]
    exact List.append_ne_nil_of_left_ne_nil hspan.1.items_ne_nil _

/-- The bound below is no more than the last key. -/
theorem Nodes.le_top (hl : Nodes ord h lo l) : lo ≤ top ord lo l :=
  Ksl.le_top (fun _ _ _ ha => NodeOk.lt ha) hl

/-- Where there are nodes, it is less. -/
theorem Nodes.lt_top (hl : Nodes ord h lo l) (hne : l ≠ []) : lo < top ord lo l :=
  Ksl.lt_top (fun _ _ _ ha => NodeOk.lt ha) hl hne

/-- No key is above the last one. -/
theorem Nodes.le_top_of_mem (hl : Nodes ord h lo l) :
    ∀ e ∈ l, (ord e.1 : WithBot ι) ≤ top ord lo l :=
  Ksl.le_top_of_mem (fun _ _ _ ha => NodeOk.lt ha) hl

/-! ## The items in order -/

/-- The entries of a list lie between its bounds, if those of each element do. -/
theorem spans_bounds {P : WithBot ι → κ → α → Prop} {f : κ × α → List (κ × ν)}
    (hlt : ∀ lo k a, P lo k a → lo < ord k)
    (hP : ∀ lo e, P lo e.1 e.2 → ∀ x ∈ f e, lo < ord x.1 ∧ ord x.1 ≤ ord e.1)
    {l : List (κ × α)} (hl : Spans ord P lo l) :
    ∀ x ∈ l.flatMap f, lo < ord x.1 ∧ (ord x.1 : WithBot ι) ≤ top ord lo l := by
  induction l generalizing lo with
  | nil => exact fun _ hx => absurd hx List.not_mem_nil
  | cons c l ih =>
    intro x hx
    rw [List.flatMap_cons, List.mem_append] at hx
    rcases hx with hx | hx
    · obtain ⟨hlo, hhi⟩ := hP _ _ hl.1 x hx
      exact ⟨hlo, (WithBot.coe_le_coe.2 hhi).trans (Ksl.le_top hlt hl.2)⟩
    · obtain ⟨hlo, hhi⟩ := ih hl.2 x hx
      exact ⟨(hlt _ _ _ hl.1).trans hlo, hhi⟩

/-- The items lie between the ends. -/
theorem NodeOk.bounds : ∀ {h : ℕ} {lo : WithBot ι} {e : κ × Node κ ν h},
    NodeOk ord h lo e.1 e.2 → ∀ x ∈ nodeItems h e, lo < ord x.1 ∧ ord x.1 ≤ ord e.1
  | 0, _, _, he, _, hx => by
    obtain rfl := List.mem_singleton.1 hx
    exact ⟨he, le_refl _⟩
  | h + 1, lo, e, he, x, hx => by
    obtain ⟨hlo, hhi⟩ := spans_bounds (fun _ _ _ ha => NodeOk.lt ha)
      (fun _ _ ha => NodeOk.bounds ha) he.2.1 x hx
    exact ⟨hlo, WithBot.coe_le_coe.1 (hhi.trans he.2.2)⟩

/-- The entries of nodes lie between the bounds. -/
theorem Nodes.bounds (hl : Nodes ord h lo l) :
    ∀ x ∈ items h l, lo < ord x.1 ∧ (ord x.1 : WithBot ι) ≤ top ord lo l :=
  spans_bounds (fun _ _ _ ha => NodeOk.lt ha) (fun _ _ ha => NodeOk.bounds ha) hl

/-- Items in increasing order. -/
def Sorted (ord : κ → ι) (l : List (κ × ν)) : Prop := l.Pairwise fun a b => ord a.1 < ord b.1

/-- The entries of a list are sorted, if those of each element are. -/
theorem spans_sorted {P : WithBot ι → κ → α → Prop} {f : κ × α → List (κ × ν)}
    (hlt : ∀ lo k a, P lo k a → lo < ord k)
    (hP : ∀ lo e, P lo e.1 e.2 → ∀ x ∈ f e, lo < ord x.1 ∧ ord x.1 ≤ ord e.1)
    (hs : ∀ lo e, P lo e.1 e.2 → Sorted ord (f e))
    {l : List (κ × α)} (hl : Spans ord P lo l) : Sorted ord (l.flatMap f) := by
  induction l generalizing lo with
  | nil => exact List.Pairwise.nil
  | cons c l ih =>
    rw [List.flatMap_cons]
    refine List.pairwise_append.2 ⟨hs _ _ hl.1, ih hl.2, fun x hx y hy => ?_⟩
    have hxc := (hP _ _ hl.1 x hx).2
    have hcy := (spans_bounds hlt hP hl.2 y hy).1
    exact lt_of_le_of_lt hxc (WithBot.coe_lt_coe.1 hcy)

/-- The entries of a node are sorted. -/
theorem NodeOk.sorted : ∀ {h : ℕ} {lo : WithBot ι} {e : κ × Node κ ν h},
    NodeOk ord h lo e.1 e.2 → Sorted ord (nodeItems h e)
  | 0, _, _, _ => List.pairwise_singleton _ _
  | _ + 1, _, _, he => spans_sorted (fun _ _ _ ha => NodeOk.lt ha) (fun _ _ ha => NodeOk.bounds ha)
      (fun _ _ ha => NodeOk.sorted ha) he.2.1

/-- The entries of nodes are sorted. -/
theorem Nodes.sorted (hl : Nodes ord h lo l) : Sorted ord (items h l) :=
  spans_sorted (fun _ _ _ ha => NodeOk.lt ha) (fun _ _ ha => NodeOk.bounds ha)
    (fun _ _ ha => NodeOk.sorted ha) hl

/-! ## Comparison and search -/

/-- The function `compar` compares by `ord`. -/
def Compares (ord : κ → ι) (compar : κ → κ → Bool) : Prop :=
  ∀ a b, compar a b = true ↔ ord a < ord b

/-- What is not less comes after or is the same. -/
theorem Compares.eq_false {compar : κ → κ → Bool} (hc : Compares ord compar) {a b : κ} :
    compar a b = false ↔ ord b ≤ ord a := by
  rw [← not_lt, ← hc, Bool.not_eq_true]

/-- The nodes before and from the one found on. -/
theorem exists_search' (compar : κ → κ → Bool) (blk : Blk κ α) (key : κ) :
    ∃ l₁ l₂, blk.nodes = l₁ ++ l₂ ∧ blk.search compar key = l₁.length ∧
      (∀ e ∈ l₁, compar e.1 key = true) ∧ ∀ e, l₂.head? = some e → compar e.1 key = false := by
  refine ⟨blk.nodes.take (blk.search compar key), blk.nodes.drop (blk.search compar key),
    (List.take_append_drop _ _).symm, ?_, fun e he => ?_, fun e he => ?_⟩
  · rw [List.length_take]
    exact (Nat.min_eq_left List.findIdx_le_length).symm
  · obtain ⟨i, hi, rfl⟩ := List.getElem_of_mem he
    rw [List.length_take] at hi
    rw [List.getElem_take]
    simpa using List.not_of_lt_findIdx (lt_of_lt_of_le hi (Nat.min_le_left _ _))
  · rw [List.head?_drop] at he
    obtain ⟨hi, rfl⟩ := List.getElem?_eq_some_iff.1 he
    have hfound := List.findIdx_getElem (w := hi)
    exact Bool.not_eq_true' _ ▸ hfound

/-- A search splits the nodes of a block at the first that is not less. -/
theorem exists_search {compar : κ → κ → Bool} (hc : Compares ord compar) (blk : Blk κ α) (key : κ) :
    ∃ l₁ l₂, blk.nodes = l₁ ++ l₂ ∧ blk.search compar key = l₁.length ∧
      (∀ e ∈ l₁, ord e.1 < ord key) ∧ ∀ e, l₂.head? = some e → ord key ≤ ord e.1 := by
  obtain ⟨l₁, l₂, hb, hi, h₁, h₂⟩ := exists_search' compar blk key
  exact ⟨l₁, l₂, hb, hi, fun e he => (hc _ _).1 (h₁ e he), fun e he => hc.eq_false.1 (h₂ e he)⟩

/-- The lists of nodes end before the key if all their keys come before it. -/
theorem top_lt {l : List (κ × α)} {key : κ} (hlo : lo < ord key)
    (hl : ∀ e ∈ l, ord e.1 < ord key) : top ord lo l < ord key := by
  induction l generalizing lo with
  | nil => exact hlo
  | cons e l ih =>
    exact ih (WithBot.coe_lt_coe.2 (hl e List.mem_cons_self)) fun x hx =>
      hl x (List.mem_cons_of_mem _ hx)

end Ksl

end Dwnx
