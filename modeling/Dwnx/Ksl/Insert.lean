import Dwnx.Ksl.Order

/-!
# Insertion

A full block is split before the insertion goes on to it, so there is room for one more node
in every block it comes to. `Inserted` says what becomes of a block: an item with the key is
there, and the items stay as they are, or the item is put in its place, where the iterator
points to it.
-/

namespace Dwnx

namespace Ksl

variable {κ ν α ι : Type} {h : ℕ} {links links' : Links}

/-! ## Positions -/

/-- The iterator is at position `p` of the items of the leaves. -/
def Denotes (links : Links) (lvs : List (Blk κ ν)) (it : It) (p : ℕ) : Prop :=
  ∃ l₁ b l₂ i, lvs = l₁ ++ b :: l₂ ∧ i ≤ b.n ∧ p = (l₁.flatMap Blk.nodes).length + i ∧
    it = links.it b i

/-- Within a block the iterator stands at its entry. -/
theorem it_of_lt {b : Blk κ ν} {i : ℕ} (hi : i < b.n) : links.it b i = ⟨some b.addr, i⟩ := by
  rw [Links.it]
  split
  · rw [if_neg (Nat.ne_of_lt hi)]
  · rfl

/-- An iterator stands in one of the leaves. -/
theorem Denotes.within {lvs : List (Blk κ ν)} {it : It} {p : ℕ} (h : Denotes links lvs it p)
    (l₁ l₂ : List (Blk κ ν)) :
    Denotes links (l₁ ++ (lvs ++ l₂)) it ((l₁.flatMap Blk.nodes).length + p) := by
  obtain ⟨m₁, b, m₂, i, rfl, hi, rfl, rfl⟩ := h
  refine ⟨l₁ ++ m₁, b, m₂ ++ l₂, i, ?_, hi, ?_, rfl⟩
  · simp only [List.append_assoc, List.cons_append]
  · rw [List.flatMap_append, List.length_append, Nat.add_assoc]

/-- The leaves under the nodes of a block that is not a leaf. -/
def leavesOf (l : List (κ × Tree κ ν h)) : List (Blk κ ν) := l.flatMap fun e => leaves h e.2

/-- The leaves of nodes one above another. -/
theorem leavesOf_nodes (l : List (κ × Node κ ν (h + 1))) :
    (leavesOf l).flatMap Blk.nodes = items (h + 1) l := by
  rw [leavesOf, List.flatMap_assoc, items]
  exact List.flatMap_congr fun e _ => leaves_nodes e.2

/-- The leaves of a child stand among those of its parent. -/
theorem leaves_append_cons (t : Tree κ ν (h + 1)) {l₁ l₂ : List (κ × Node κ ν (h + 1))} {k : κ}
    {c : Tree κ ν h} (ht : t.nodes = l₁ ++ (k, c) :: l₂) :
    leaves (h + 1) t = leavesOf l₁ ++ (leaves h c ++ leavesOf l₂) := by
  rw [leaves, ht, List.flatMap_append, List.flatMap_cons]
  rfl

/-- No blocks on the side. -/
theorem side_nil (p : ℕ → List ℕ) : side p (fun _ => []) = p := by
  funext k
  exact List.append_nil _

/-- The blocks of a single child are those of its tree. -/
theorem addrs_singleton (k : κ) (t : Tree κ ν h) : addrs (h + 1) [(k, t)] = treeAddrs t := by
  rw [addrs_cons, addrs_nil, side_nil]

/-- A change of some of the nodes of a block. -/
theorem relinks_nodes {t t' : Tree κ ν h} {l₁ l₂ : List (κ × Node κ ν h)}
    (m m' : List (κ × Node κ ν h))
    (ha : t'.addr = t.addr) (ht : t.nodes = l₁ ++ (m ++ l₂)) (ht' : t'.nodes = l₁ ++ (m' ++ l₂))
    (hr : Relinks links (addrs h m) links' (addrs h m')) :
    Relinks links (treeAddrs t) links' (treeAddrs t') := by
  have hin := (hr.within (addrs h l₁) (addrs h l₂)).within (self h t.addr) fun _ => []
  rwa [side_nil, side_nil, ← addrs_append, ← addrs_append, ← addrs_append, ← addrs_append, ← ht,
    ← ht', ← treeAddrs, ← ha, ← treeAddrs] at hin

/-! ## Nodes at an index -/

/-- The element in the middle is modified. -/
theorem modify_append_cons (l₁ : List α) (a : α) (l₂ : List α) (f : α → α) :
    (l₁ ++ a :: l₂).modify l₁.length f = l₁ ++ f a :: l₂ := by
  induction l₁ with
  | nil => rfl
  | cons b l₁ ih => rw [List.cons_append, List.length_cons, List.modify_succ_cons, ih]; rfl

/-- An element is inserted in the middle. -/
theorem insertIdx_append (l₁ : List α) (a : α) (l₂ : List α) :
    (l₁ ++ l₂).insertIdx l₁.length a = l₁ ++ a :: l₂ := by
  induction l₁ with
  | nil => rfl
  | cons b l₁ ih => rw [List.cons_append, List.length_cons, List.insertIdx_succ_cons, ih]; rfl

/-- The node in the middle is replaced. -/
theorem setNode_eq {blk : Blk κ α} {l₁ l₂ : List (κ × α)} {k : κ} {a : α}
    (hb : blk.nodes = l₁ ++ (k, a) :: l₂) (b : α) :
    blk.setNode l₁.length b = ⟨blk.addr, l₁ ++ (k, b) :: l₂⟩ := by
  rw [Blk.setNode, hb, modify_append_cons]

/-- The key in the middle is replaced. -/
theorem setNthKey_eq {blk : Blk κ α} {l₁ l₂ : List (κ × α)} {k : κ} {a : α}
    (hb : blk.nodes = l₁ ++ (k, a) :: l₂) (key : κ) :
    blk.setNthKey l₁.length key = ⟨blk.addr, l₁ ++ (key, a) :: l₂⟩ := by
  rw [Blk.setNthKey, hb, modify_append_cons]

/-- The element in the middle. -/
theorem getElem?_append_cons {l₁ l₂ : List (κ × α)} {e : κ × α} :
    (l₁ ++ e :: l₂)[l₁.length]? = some e := by
  rw [List.getElem?_append_right (Nat.le_refl _), Nat.sub_self, List.getElem?_cons_zero]

/-! ## Splitting -/

/-- A full block is split in two halves. -/
theorem splitBlk_eq {c : Blk κ α} (hc : c.n = kslMaxNblk) (links : Links) :
    ∃ c₁ c₂, splitBlk c links = some (c₁, c₂, links.insertAfter c.addr) ∧
      c.nodes = c₁.nodes ++ c₂.nodes ∧ c₁.n = kslMinNblk ∧ c₂.n = kslMinNblk ∧
      c₁.addr = c.addr ∧ c₂.addr = links.fresh := by
  refine ⟨⟨c.addr, c.nodes.take 16⟩, ⟨links.fresh, c.nodes.drop 16⟩, ?_,
    (List.take_append_drop _ _).symm, ?_, ?_, rfl, rfl⟩
  · rw [splitBlk, hc]
    rfl
  · rw [Blk.n] at hc ⊢
    rw [List.length_take, hc]
    rfl
  · rw [Blk.n] at hc ⊢
    rw [List.length_drop, hc]
    rfl

variable [LinearOrder ι] {ord : κ → ι} {lo : WithBot ι} {key : κ} {data : ν}

/-- What splitting a full block makes of the node with it. -/
structure Split (ord : κ → ι) (lo : WithBot ι) (links : Links) (k : κ) (c : Tree κ ν h)
    (links' : Links) (k₁ : κ) (c₁ c₂ : Tree κ ν h) : Prop where
  nodes : c.nodes = c₁.nodes ++ c₂.nodes
  left : c₁.n = kslMinNblk
  right : c₂.n = kslMinNblk
  ok₁ : NodeOk ord (h + 1) lo k₁ c₁
  ok₂ : NodeOk ord (h + 1) (ord k₁) k c₂
  relinks : Relinks links (treeAddrs c) links' (side (treeAddrs c₁) (treeAddrs c₂))

/-- A full child is split into two that are well formed. -/
theorem exists_split {k : κ} {c : Tree κ ν h} (hc : NodeOk ord (h + 1) lo k c)
    (hn : c.n = kslMaxNblk) (links : Links) :
    ∃ k₁ c₁ c₂ links', splitBlk c links = some (c₁, c₂, links') ∧ c₁.lastKey = some k₁ ∧
      Split ord lo links k c links' k₁ c₁ c₂ := by
  obtain ⟨c₁, c₂, hs, hnodes, h₁, h₂, ha₁, ha₂⟩ := splitBlk_eq hn links
  obtain ⟨k₁, hk₁, htop⟩ := exists_lastKey ord (show c₁.n ≠ 0 by rw [h₁]; decide)
  obtain ⟨-, hspan, hhi⟩ := hc
  rw [hnodes, spans_append, htop] at hspan
  rw [hnodes, top_append, htop] at hhi
  refine ⟨k₁, c₁, c₂, _, hs, hk₁, hnodes, h₁, h₂, ⟨?_, hspan.1, (htop lo).le⟩,
    ⟨?_, hspan.2, hhi⟩, ?_⟩
  · rw [h₁]
    decide
  · rw [h₂]
    decide
  · refine relinks_insertAfter (h := h) (p := []) (a := c.addr) (q := []) ?_ ?_
    · rw [treeAddrs, side, self, if_pos rfl, addrs_of_le _ (Nat.le_refl _)]
      rfl
    · funext j
      rw [treeAddrs, treeAddrs, treeAddrs, hnodes, addrs_append, ha₁, ha₂]
      by_cases hj : j = h
      · subst hj
        simp only [side, self, if_true, Function.update_self, addrs_of_le _ (Nat.le_refl _)]
        rfl
      · simp only [side, self, if_neg hj, Function.update_of_ne hj, List.nil_append]

/-- A full block among the nodes of another is split. -/
theorem splitNode_spec {blk : Tree κ ν (h + 1)} {l₁ l₂ : List (κ × Node κ ν (h + 1))} {k : κ}
    {c : Tree κ ν h} (hb : blk.nodes = l₁ ++ (k, c) :: l₂) (hok : Nodes ord (h + 1) lo blk.nodes)
    (hn : c.n = kslMaxNblk) (links : Links) :
    ∃ k₁ c₁ c₂ links', splitNode blk l₁.length links =
        some (⟨blk.addr, l₁ ++ (k₁, c₁) :: (k, c₂) :: l₂⟩, links') ∧
      Split ord (top ord lo l₁) links k c links' k₁ c₁ c₂ := by
  rw [hb, Nodes, spans_append] at hok
  obtain ⟨k₁, c₁, c₂, links', hs, hk₁, hsplit⟩ := exists_split hok.2.1 hn links
  refine ⟨k₁, c₁, c₂, links', ?_, hsplit⟩
  rw [splitNode, hb, getElem?_append_cons]
  simp only [Option.bind_eq_bind, Option.bind_some, hs, hk₁]
  simp

/-- The two halves take the place of the child. -/
theorem Split.nodes_ok {l₁ l₂ : List (κ × Node κ ν (h + 1))} {k k₁ : κ} {c c₁ c₂ : Tree κ ν h}
    (hs : Split ord (top ord lo l₁) links k c links' k₁ c₁ c₂)
    (hok : Nodes ord (h + 1) lo (l₁ ++ (k, c) :: l₂)) :
    Nodes ord (h + 1) lo (l₁ ++ (k₁, c₁) :: (k, c₂) :: l₂) := by
  rw [Nodes, spans_append] at hok ⊢
  exact ⟨hok.1, hs.ok₁, hs.ok₂, hok.2.2⟩

/-- The two halves have the entries of the child. -/
theorem Split.items_eq {k k₁ : κ} {c c₁ c₂ : Tree κ ν h}
    (hs : Split ord lo links k c links' k₁ c₁ c₂) (l₁ l₂ : List (κ × Node κ ν (h + 1))) :
    items (h + 1) (l₁ ++ (k₁, c₁) :: (k, c₂) :: l₂) = items (h + 1) (l₁ ++ (k, c) :: l₂) := by
  rw [items_append, items_append, items_cons, items_cons, items_cons, nodeItems_succ,
    nodeItems_succ, nodeItems_succ, hs.nodes, items_append, List.append_assoc]

/-- The leaves are linked to the new one. -/
theorem Split.relinks_eq {t : Tree κ ν (h + 1)} {l₁ l₂ : List (κ × Node κ ν (h + 1))} {k k₁ : κ}
    {c c₁ c₂ : Tree κ ν h} (hs : Split ord lo links k c links' k₁ c₁ c₂)
    (ht : t.nodes = l₁ ++ (k, c) :: l₂) :
    Relinks links (treeAddrs t) links'
      (treeAddrs (h := h + 1) ⟨t.addr, l₁ ++ (k₁, c₁) :: (k, c₂) :: l₂⟩) := by
  refine relinks_nodes [(k, c)] [(k₁, c₁), (k, c₂)] rfl ht rfl ?_
  rw [addrs_singleton, addrs_cons, addrs_singleton]
  exact hs.relinks

/-! ## What an insertion does -/

/-- What becomes of the items of a block, and where the iterator is in the leaves after it. -/
inductive InsertedItems (ord : κ → ι) (key : κ) (data : ν) (links : Links)
    (lvs : List (Blk κ ν)) (l : List (κ × ν)) : List (κ × ν) → Option It → Prop
  /-- The key is present. -/
  | present {e : κ × ν} (he : e ∈ l) (hk : ord e.1 = ord key) :
    InsertedItems ord key data links lvs l l none
  /-- The item is put in its place. -/
  | absent {p q : List (κ × ν)} {it : It} (hl : l = p ++ q) (hp : ∀ e ∈ p, ord e.1 < ord key)
    (hq : ∀ e ∈ q, ord key < ord e.1) (hit : Denotes links lvs it p.length) :
    InsertedItems ord key data links lvs l (p ++ (key, data) :: q) (some it)

/-- What becomes of a block. -/
structure Inserted (ord : κ → ι) (lo : WithBot ι) (key : κ) (data : ν) (t : Tree κ ν h)
    (links : Links) (it : Option It) (t' : Tree κ ν h) (links' : Links) : Prop where
  nodes : Nodes ord h lo t'.nodes
  size : t.n ≤ t'.n ∧ t'.n ≤ kslMaxNblk
  top_le : top ord lo t'.nodes ≤ max (top ord lo t.nodes) (ord key)
  relinks : Relinks links (treeAddrs t) links' (treeAddrs t')
  items : InsertedItems ord key data links' (leaves h t') (items h t.nodes) (items h t'.nodes) it

/-- The insertion goes on to a node among others, to the left and right of it. -/
theorem InsertedItems.within {lvs : List (Blk κ ν)} {l l' : List (κ × ν)} {it : Option It}
    (h : InsertedItems ord key data links lvs l l' it) {l₁ l₂ : List (κ × ν)}
    {lvs₁ : List (Blk κ ν)} (lvs₂ : List (Blk κ ν)) (h₁ : ∀ e ∈ l₁, ord e.1 < ord key)
    (h₂ : ∀ e ∈ l₂, ord key < ord e.1) (hl : lvs₁.flatMap Blk.nodes = l₁) :
    InsertedItems ord key data links (lvs₁ ++ (lvs ++ lvs₂)) (l₁ ++ (l ++ l₂)) (l₁ ++ (l' ++ l₂))
      it := by
  cases h with
  | present he hk =>
    exact .present (List.mem_append_right _ (List.mem_append_left _ he)) hk
  | @absent p q it hlp hp hq hit =>
    subst hlp
    have hden := hit.within lvs₁ lvs₂
    rw [hl, ← List.length_append] at hden
    rw [List.append_assoc p, List.append_assoc p, ← List.append_assoc l₁ p,
      ← List.append_assoc l₁ p, List.cons_append]
    refine .absent rfl (fun e he => ?_) (fun e he => ?_) hden
    · exact (List.mem_append.1 he).elim (h₁ e) (hp e)
    · exact (List.mem_append.1 he).elim (hq e) (h₂ e)

/-- The key of the node the insertion goes on to is not before the new key, or is the last one
    and gives way to it. -/
theorem Inserted.inner {t : Tree κ ν (h + 1)} {l₁ l₂ : List (κ × Node κ ν (h + 1))} {s s' : κ}
    {c c' : Tree κ ν h} {it : Option It} (ht : t.nodes = l₁ ++ (s, c) :: l₂)
    (hok : Nodes ord (h + 1) lo t.nodes) (hn : t.n ≤ kslMaxNblk)
    (hc : Inserted ord (top ord lo l₁) key data c links it c' links')
    (h₁ : top ord lo l₁ < ord key)
    (hs : s' = s ∧ ord key ≤ ord s ∨ s' = key ∧ l₂ = [] ∧ ord s < ord key) :
    Inserted ord lo key data t links it ⟨t.addr, l₁ ++ (s', c') :: l₂⟩ links' := by
  rw [ht, Nodes, spans_append] at hok
  obtain ⟨hok₁, ⟨hsize, hspan, htop⟩, hok₂⟩ := hok
  have hle := hc.top_le
  have hnode : NodeOk ord (h + 1) (top ord lo l₁) s' c' ∧ Nodes ord (h + 1) (ord s') l₂ ∧
      ord key ≤ ord s' ∧ top ord lo (l₁ ++ (s', c') :: l₂) ≤
        max (top ord lo t.nodes) (ord key) := by
    have hsize' : kslMinNblk ≤ c'.n ∧ c'.n ≤ kslMaxNblk :=
      ⟨hsize.1.trans hc.size.1, hc.size.2⟩
    rcases hs with ⟨rfl, hks⟩ | ⟨rfl, rfl, hks⟩
    · refine ⟨⟨hsize', hc.nodes, ?_⟩, hok₂, hks, ?_⟩
      · exact hle.trans (max_le htop (WithBot.coe_le_coe.2 hks))
      · rw [ht, top_append, top_append]
        exact le_max_left _ _
    · refine ⟨⟨hsize', hc.nodes, ?_⟩, trivial, le_refl _, ?_⟩
      · exact hle.trans (max_le (htop.trans (WithBot.coe_le_coe.2 hks.le)) (le_refl _))
      · rw [top_append]
        exact le_max_right _ _
  obtain ⟨hnode, hspan₂, hks, htop'⟩ := hnode
  refine ⟨?_, ?_, htop', ?_, ?_⟩
  · rw [Nodes, spans_append]
    exact ⟨hok₁, hnode, hspan₂⟩
  · rw [Blk.n, ht, List.length_append, List.length_cons] at hn
    simp only [Blk.n, ht, List.length_append, List.length_cons]
    exact ⟨le_refl _, hn⟩
  · refine relinks_nodes [(s, c)] [(s', c')] rfl ht rfl ?_
    rw [addrs_singleton, addrs_singleton]
    exact hc.relinks
  · rw [leaves_append_cons _ rfl, ht, items_append, items_append, items_cons, items_cons]
    refine hc.items.within _ (fun e he => ?_) (fun e he => ?_) (leavesOf_nodes l₁)
    · exact WithBot.coe_lt_coe.1 ((Nodes.bounds hok₁ e he).2.trans_lt h₁)
    · exact lt_of_le_of_lt hks (WithBot.coe_lt_coe.1 (Nodes.bounds hspan₂ e he).1)

/-- A block may have been split before the insertion. -/
theorem Inserted.of_split {t : Tree κ ν (h + 1)} {l₁ l₂ : List (κ × Node κ ν (h + 1))} {k k₁ : κ}
    {c c₁ c₂ : Tree κ ν h} {links₁ : Links} {it : Option It} {t' : Tree κ ν (h + 1)}
    (ht : t.nodes = l₁ ++ (k, c) :: l₂) (hs : Split ord (top ord lo l₁) links k c links₁ k₁ c₁ c₂)
    (hins : Inserted ord lo key data ⟨t.addr, l₁ ++ (k₁, c₁) :: (k, c₂) :: l₂⟩
      links₁ it t' links') :
    Inserted ord lo key data t links it t' links' where
  nodes := hins.nodes
  size := by
    have hsize := hins.size
    simp only [Blk.n, List.length_append, List.length_cons] at hsize
    simp only [Blk.n, ht, List.length_append, List.length_cons]
    omega
  top_le := by
    have hle := hins.top_le
    rw [top_append] at hle
    rw [ht, top_append]
    exact hle
  relinks := (hs.relinks_eq ht).trans hins.relinks
  items := by
    have hitems := hins.items
    rw [hs.items_eq, ← ht] at hitems
    exact hitems

/-! ## The loops -/

/-- A node is inserted into a block with room. -/
theorem insertNode_eq {blk : Blk κ α} (hn : blk.n < kslMaxNblk) {l₁ l₂ : List (κ × α)}
    (hb : blk.nodes = l₁ ++ l₂) (k : κ) (a : α) :
    blk.insertNode l₁.length k a = some ⟨blk.addr, l₁ ++ (k, a) :: l₂⟩ := by
  rw [Blk.insertNode, if_pos hn, hb, insertIdx_append]

/-- The item is put in its place in a leaf. -/
theorem inserted_leaf {t : Tree κ ν 0} {l₁ l₂ : List (κ × ν)} (ht : t.nodes = l₁ ++ l₂)
    (hok : Nodes ord 0 lo t.nodes) (hn : t.n < kslMaxNblk) (hlo : lo < ord key)
    (h₁ : ∀ e ∈ l₁, ord e.1 < ord key) (h₂ : ∀ e, l₂.head? = some e → ord key < ord e.1) :
    Inserted ord lo key data t links (some ⟨some t.addr, l₁.length⟩)
      ⟨t.addr, l₁ ++ (key, data) :: l₂⟩ links := by
  rw [ht, Nodes, spans_append] at hok
  have hok₂ : Nodes ord 0 (ord key) l₂ := by
    cases l₂ with
    | nil => trivial
    | cons e l₂ => exact ⟨WithBot.coe_lt_coe.2 (h₂ e rfl), hok.2.2⟩
  refine ⟨?_, ?_, ?_, ?_, ?_⟩
  · rw [Nodes, spans_append]
    exact ⟨hok.1, top_lt hlo h₁, hok₂⟩
  · simp only [Blk.n, ht, List.length_append, List.length_cons] at hn ⊢
    omega
  · rw [ht, top_append, top_append]
    cases l₂ with
    | nil => exact le_max_right _ _
    | cons e l₂ => exact le_max_left _ _
  · refine relinks_nodes [] [(key, data)] rfl ht rfl ?_
    exact Relinks.refl _ _
  · rw [items_zero, items_zero, ht]
    refine .absent rfl h₁ (fun e he => ?_) ?_
    · rw [← items_zero l₂] at he
      exact WithBot.coe_lt_coe.1 (Nodes.bounds hok₂ e he).1
    · have hlt : l₁.length < Blk.n ⟨t.addr, l₁ ++ (key, data) :: l₂⟩ := by
        rw [Blk.n, List.length_append, List.length_cons]
        omega
      exact ⟨[], _, [], l₁.length, rfl, hlt.le, (Nat.zero_add _).symm, (it_of_lt hlt).symm⟩

/-- The last node of a block, as the loop finds and changes it. -/
theorem last_node {l : List (κ × α)} {s : κ} {a : α} (blk : Blk κ α)
    (hb : blk.nodes = l ++ [(s, a)]) (key : κ) :
    blk.nodes[blk.n - 1]? = some (s, a) ∧
    blk.setNthKey (blk.n - 1) key = ⟨blk.addr, l ++ [(key, a)]⟩ ∧
    ∀ b, (⟨blk.addr, l ++ [(key, a)]⟩ : Blk κ α).setNode
      (Blk.n ⟨blk.addr, l ++ [(key, a)]⟩ - 1) b = ⟨blk.addr, l ++ [(key, b)]⟩ := by
  have hlast (e : κ × α) : Blk.n ⟨blk.addr, l ++ [e]⟩ - 1 = l.length := by
    rw [Blk.n, List.length_append]
    rfl
  have hn : blk.n - 1 = l.length := by rw [Blk.n, hb, ← hlast (s, a)]; rfl
  rw [hn, hlast]
  refine ⟨?_, setNthKey_eq hb key, fun b => setNode_eq rfl b⟩
  rw [hb, getElem?_append_cons]

/-- The list is extended below a tree that is not full, by induction on the height. -/
theorem extend_spec : ∀ {h : ℕ} (t : Tree κ ν h) (lo : WithBot ι) (links : Links),
    Nodes ord h lo t.nodes → t.n < kslMaxNblk → t.n ≠ 0 ∨ h = 0 → lo < ord key →
    top ord lo t.nodes < ord key →
    ∃ it t' links', extend key data h t links = some (it, t', links') ∧
      Inserted ord lo key data t links (some it) t' links'
  | 0, t, lo, links, hok, hn, _, hlo, htop => by
    have ht : t.nodes = t.nodes ++ [] := (List.append_nil _).symm
    refine ⟨⟨some t.addr, t.nodes.length⟩, ⟨t.addr, t.nodes ++ [(key, data)]⟩, links, ?_,
      inserted_leaf ht hok hn hlo (fun e he => ?_) fun e he => by cases he⟩
    · rw [extend, Blk.n, insertNode_eq hn ht]
      simp [Blk.n]
    · exact WithBot.coe_lt_coe.1 ((Nodes.le_top_of_mem hok e he).trans_lt htop)
  | h + 1, t, lo, links, hok, hn, hne, hlo, htop => by
    have hne : t.n ≠ 0 := hne.resolve_right (Nat.succ_ne_zero h)
    obtain ⟨l, ⟨s, c⟩, ht⟩ : ∃ l e, t.nodes = l ++ [e] :=
      (List.eq_nil_or_concat' t.nodes).resolve_left fun he => hne (by rw [Blk.n, he]; rfl)
    -- with room in the last node, the loop goes on there
    have hrest : ∀ (t₁ : Tree κ ν (h + 1)) (m : List (κ × Node κ ν (h + 1))) (c₁ : Tree κ ν h)
        (links₁ : Links), t₁.nodes = m ++ [(s, c₁)] → Nodes ord (h + 1) lo t₁.nodes →
        t₁.n ≤ kslMaxNblk → c₁.n < kslMaxNblk →
        ∃ it c' links', extend key data h c₁ links₁ = some (it, c', links') ∧
          Inserted ord lo key data t₁ links₁ (some it) ⟨t₁.addr, m ++ [(key, c')]⟩ links' := by
      intro t₁ m c₁ links₁ ht₁ hok₁ hn₁ hroom
      have hsk : top ord lo (m ++ [(s, c₁)]) < ord key := by
        rw [top_append]
        rw [ht, top_append] at htop
        exact htop
      have hspan := hok₁
      rw [ht₁] at hspan
      have hm : ∀ e ∈ m, ord e.1 < ord key := fun e he => WithBot.coe_lt_coe.1
        ((Nodes.le_top_of_mem hspan e (List.mem_append_left _ he)).trans_lt hsk)
      rw [Nodes, spans_append] at hspan
      obtain ⟨-, ⟨hsize, hnodes, hhi⟩, -⟩ := hspan
      rw [top_append] at hsk
      have hpos : c₁.n ≠ 0 := Nat.ne_of_gt (lt_of_lt_of_le (by decide) hsize.1)
      obtain ⟨it, c', links', hrun, hins⟩ := extend_spec c₁ (top ord lo m) links₁ hnodes hroom
        (.inl hpos) (top_lt hlo hm) (hhi.trans_lt hsk)
      exact ⟨it, c', links', hrun, hins.inner ht₁ hok₁ hn₁ (top_lt hlo hm)
        (.inr ⟨rfl, rfl, WithBot.coe_lt_coe.1 hsk⟩)⟩
    obtain ⟨e₁, e₂, e₃⟩ := last_node t ht key
    rw [extend, e₁]
    simp only [Option.bind_eq_bind, Option.bind_some]
    by_cases hfull : c.n = kslMaxNblk
    · obtain ⟨k₁, c₁, c₂, links₁, hsplit, hs⟩ := splitNode_spec ht hok hfull links
      have ht₁ : l ++ [(k₁, c₁), (s, c₂)] = (l ++ [(k₁, c₁)]) ++ [(s, c₂)] :=
        (List.append_assoc l [_] [_]).symm
      obtain ⟨it, c', links', hrun, hins⟩ := hrest ⟨t.addr, l ++ [(k₁, c₁), (s, c₂)]⟩ _ c₂ links₁
        ht₁ (hs.nodes_ok (ht ▸ hok)) (by simp [Blk.n, ht] at hn ⊢; omega) (by rw [hs.right]; decide)
      obtain ⟨d₁, d₂, d₃⟩ := last_node ⟨t.addr, l ++ [(k₁, c₁), (s, c₂)]⟩ ht₁ key
      have hlen : t.n - 1 = l.length := by rw [Blk.n, ht, List.length_append]; rfl
      rw [if_pos hfull, hlen, hsplit]
      simp only [Option.bind_some, d₁, d₂, hrun, d₃]
      exact ⟨it, _, links', rfl, hins.of_split ht hs⟩
    · have hspan := hok
      rw [ht, Nodes, spans_append] at hspan
      obtain ⟨it, c', links', hrun, hins⟩ := hrest t l c links ht hok hn.le
        (lt_of_le_of_ne hspan.2.1.1.2 hfull)
      rw [if_neg hfull]
      simp only [Option.bind_some, e₁, e₂, hrun, e₃]
      exact ⟨it, _, links', rfl, hins⟩

/-- A key that is there is refused. -/
theorem Inserted.present {t : Tree κ ν h} (hok : Nodes ord h lo t.nodes) (hn : t.n ≤ kslMaxNblk)
    {e : κ × ν} (he : e ∈ Ksl.items h t.nodes) (hk : ord e.1 = ord key) :
    Inserted ord lo key data t links none t links :=
  ⟨hok, ⟨le_refl _, hn⟩, le_max_left _ _, .refl _ _, .present he hk⟩

variable (data) in
/-- The loop of the insertion, in a block with room for one more node. -/
theorem insertLoop_spec {compar : κ → κ → Bool} (hc : Compares ord compar) :
    ∀ {h : ℕ} (t : Tree κ ν h) (lo : WithBot ι) (links : Links),
    Nodes ord h lo t.nodes → t.n < kslMaxNblk → t.n ≠ 0 ∨ h = 0 → lo < ord key →
    ∃ it t' links', insertLoop compar key data h t links = some (it, t', links') ∧
      Inserted ord lo key data t links it t' links'
  | 0, t, lo, links, hok, hn, _, hlo => by
    obtain ⟨l₁, l₂, ht, hi, h₁, h₂⟩ := exists_search hc t key
    have hins : (∀ e, l₂.head? = some e → ord key < ord e.1) →
        ∃ it t' links', (do
            let blk' ← t.insertNode l₁.length key data
            some (some (⟨some t.addr, l₁.length⟩ : It), blk', links)) = some (it, t', links') ∧
          Inserted ord lo key data t links it t' links' := by
      intro hlt
      rw [insertNode_eq hn ht]
      exact ⟨_, _, _, rfl, inserted_leaf ht hok hn hlo h₁ hlt⟩
    rw [insertLoop, hi, ht, List.getElem?_append_right (Nat.le_refl _), Nat.sub_self]
    cases l₂ with
    | nil => exact hins fun e he => by cases he
    | cons e l₂ =>
      cases hke : compar key e.1 with
      | true =>
        rw [if_neg (by simp [hke])]
        refine hins fun x hx => ?_
        obtain rfl := Option.some.inj hx
        exact (hc _ _).1 hke
      | false =>
        rw [if_pos (by simp [hke])]
        refine ⟨_, _, _, rfl, .present hok hn.le (e := e) ?_ ?_⟩
        · rw [items_zero, ht]
          simp
        · exact le_antisymm (hc.eq_false.1 hke) (h₂ e rfl)
  | h + 1, t, lo, links, hok, hn, hne, hlo => by
    obtain ⟨l₁, l₂, ht, hi, h₁, h₂⟩ := exists_search hc t key
    cases l₂ with
    | nil =>
      rw [List.append_nil] at ht
      have htop : top ord lo t.nodes < ord key := top_lt hlo (ht ▸ h₁)
      obtain ⟨it, t', links', hrun, hins⟩ := extend_spec t lo links hok hn hne hlo htop
      rw [insertLoop, hi, if_pos (by rw [Blk.n, ht]), hrun]
      exact ⟨some it, t', links', rfl, hins⟩
    | cons e l₂ =>
      obtain ⟨s, c⟩ := e
      have hks : ord key ≤ ord s := h₂ _ rfl
      have hne : l₁.length ≠ t.n := by
        rw [Blk.n, ht, List.length_append, List.length_cons]
        omega
      -- with room in the node, the loop goes on there
      have hrest : ∀ (t₁ : Tree κ ν (h + 1)) (m₁ m₂ : List (κ × Node κ ν (h + 1))) (s₁ : κ)
          (c₁ : Tree κ ν h) (links₁ : Links), t₁.nodes = m₁ ++ (s₁, c₁) :: m₂ →
          Nodes ord (h + 1) lo t₁.nodes → t₁.n ≤ kslMaxNblk → c₁.n < kslMaxNblk →
          top ord lo m₁ < ord key → ord key ≤ ord s₁ →
          ∃ it t' links', (t₁.nodes[m₁.length]?.bind fun e =>
              (insertLoop compar key data h e.2 links₁).bind fun r =>
                some (r.1, t₁.setNode m₁.length r.2.1, r.2.2)) = some (it, t', links') ∧
            Inserted ord lo key data t₁ links₁ it t' links' := by
        intro t₁ m₁ m₂ s₁ c₁ links₁ ht₁ hok₁ hn₁ hroom hm hks₁
        have hspan := hok₁
        rw [ht₁, Nodes, spans_append] at hspan
        obtain ⟨-, ⟨hsize, hnodes, -⟩, -⟩ := hspan
        have hpos : c₁.n ≠ 0 := Nat.ne_of_gt (lt_of_lt_of_le (by decide) hsize.1)
        obtain ⟨it, c', links', hrun, hins⟩ := insertLoop_spec hc c₁ (top ord lo m₁) links₁ hnodes
          hroom (.inl hpos) hm
        refine ⟨it, _, links', ?_, hins.inner ht₁ hok₁ hn₁ hm (.inl ⟨rfl, hks₁⟩)⟩
        rw [← setNode_eq ht₁, ht₁, getElem?_append_cons]
        simp only [Option.bind_some, hrun]
      rw [insertLoop, hi, if_neg hne, ht, getElem?_append_cons]
      simp only [Option.bind_eq_bind, Option.bind_some]
      by_cases hfull : c.n = kslMaxNblk
      · obtain ⟨k₁, c₁, c₂, links₁, hsplit, hs⟩ := splitNode_spec ht hok hfull links
        have hn₁ : (l₁ ++ (k₁, c₁) :: (s, c₂) :: l₂).length ≤ kslMaxNblk := by
          rw [Blk.n, ht] at hn
          simp only [List.length_append, List.length_cons] at hn ⊢
          omega
        rw [if_pos hfull, hsplit]
        simp only [Option.bind_some, getElem?_append_cons]
        have hm : top ord lo l₁ < ord key := top_lt hlo h₁
        cases hk : compar k₁ key with
        | true =>
          have hk₁ := (hc _ _).1 hk
          have ht₁ : l₁ ++ (k₁, c₁) :: (s, c₂) :: l₂ = (l₁ ++ [(k₁, c₁)]) ++ (s, c₂) :: l₂ :=
            (List.append_assoc l₁ [_] _).symm
          obtain ⟨it, t', links', hrun, hins⟩ := hrest ⟨t.addr, _⟩ _ _ s c₂ links₁ ht₁
            (hs.nodes_ok (ht ▸ hok)) hn₁ (by rw [hs.right]; decide)
            (by rw [top_append]; exact WithBot.coe_lt_coe.2 hk₁) hks
          rw [List.length_append] at hrun
          exact ⟨it, t', links', hrun, hins.of_split ht hs⟩
        | false =>
          obtain ⟨it, t', links', hrun, hins⟩ := hrest ⟨t.addr, _⟩ _ _ k₁ c₁ links₁ rfl
            (hs.nodes_ok (ht ▸ hok)) hn₁ (by rw [hs.left]; decide) hm (hc.eq_false.1 hk)
          exact ⟨it, t', links', hrun, hins.of_split ht hs⟩
      · have hspan := hok
        rw [ht, Nodes, spans_append] at hspan
        rw [if_neg hfull]
        exact hrest t l₁ l₂ s c links ht hok hn.le (lt_of_le_of_ne hspan.2.1.1.2 hfull)
          (top_lt hlo h₁) hks

end Ksl

end Dwnx
