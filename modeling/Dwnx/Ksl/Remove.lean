import Dwnx.Ksl.Insert

/-!
# Removal

A block with the minimum of nodes gets nodes from a block next to it, or is merged with it,
before the removal goes on to it (`fillNode`), so there is a node to spare in every block it
comes to. `Removed` says what becomes of a block: there is no item with the key, or it is
taken out, and the iterator points behind it.
-/

namespace Dwnx

namespace Ksl

variable {κ ν α ι : Type} {h : ℕ} {links links' : Links}

/-! ## Nodes at an index -/

theorem getElem?_append_cons_cons {l₁ l₂ : List (κ × α)} {e f : κ × α} :
    (l₁ ++ e :: f :: l₂)[l₁.length + 1]? = some f := by
  rw [List.getElem?_append_right (by omega), Nat.add_sub_cancel_left, List.getElem?_cons_succ,
    List.getElem?_cons_zero]

theorem append_cons_cons (l₁ l₂ : List (κ × α)) (e f : κ × α) :
    l₁ ++ e :: f :: l₂ = (l₁ ++ [e]) ++ f :: l₂ := (List.append_assoc l₁ [e] _).symm

theorem setNode_succ_eq {blk : Blk κ α} {l₁ l₂ : List (κ × α)} {e : κ × α} {k : κ} {a : α}
    (hb : blk.nodes = l₁ ++ e :: (k, a) :: l₂) (b : α) :
    blk.setNode (l₁.length + 1) b = ⟨blk.addr, l₁ ++ e :: (k, b) :: l₂⟩ := by
  rw [append_cons_cons] at hb ⊢
  rw [← setNode_eq hb, List.length_append]
  rfl

theorem removeNode_eq {blk : Blk κ α} {l₁ l₂ : List (κ × α)} {e : κ × α}
    (hb : blk.nodes = l₁ ++ e :: l₂) : blk.removeNode l₁.length = ⟨blk.addr, l₁ ++ l₂⟩ := by
  rw [Blk.removeNode, hb, List.eraseIdx_append_of_length_le (Nat.le_refl _), Nat.sub_self,
    List.eraseIdx_cons_zero]

theorem removeNode_succ_eq {blk : Blk κ α} {l₁ l₂ : List (κ × α)} {e f : κ × α}
    (hb : blk.nodes = l₁ ++ e :: f :: l₂) :
    blk.removeNode (l₁.length + 1) = ⟨blk.addr, l₁ ++ e :: l₂⟩ := by
  rw [append_cons_cons] at hb
  have := removeNode_eq hb
  rw [List.length_append] at this
  rw [show l₁ ++ e :: l₂ = (l₁ ++ [e]) ++ l₂ from (List.append_assoc l₁ [e] _).symm]
  exact this

/-! ## Two blocks side by side -/

variable [LinearOrder ι] {ord : κ → ι} {lo : WithBot ι} {a a' b : κ} {x x' y y' : Tree κ ν h}

/-- The nodes of two blocks side by side are in order. -/
theorem pair_spans (hx : NodeOk ord (h + 1) lo a x) (hy : NodeOk ord (h + 1) (ord a) b y) :
    Nodes ord h lo (x.nodes ++ y.nodes) ∧ top ord lo (x.nodes ++ y.nodes) ≤ ord b := by
  obtain ⟨-, hx, hxa⟩ := hx
  obtain ⟨hn, hy, hyb⟩ := hy
  rw [Nodes, spans_append, top_append, top_of_ne_nil (Blk.ne_nil hn.1) _ (ord a)]
  exact ⟨⟨hx, Nodes.mono hxa hy⟩, hyb⟩

/-- Nodes of two blocks side by side, distributed anew. -/
structure Shifted (ord : κ → ι) (lo : WithBot ι) (x : Tree κ ν h) (b : κ) (y : Tree κ ν h)
    (a' : κ) (x' y' : Tree κ ν h) : Prop where
  nodes : x'.nodes ++ y'.nodes = x.nodes ++ y.nodes
  left : x'.addr = x.addr
  right : y'.addr = y.addr
  ok₁ : NodeOk ord (h + 1) lo a' x'
  ok₂ : NodeOk ord (h + 1) (ord a') b y'

variable (x' y') in
theorem exists_shifted (hx : NodeOk ord (h + 1) lo a x) (hy : NodeOk ord (h + 1) (ord a) b y)
    (hnodes : x'.nodes ++ y'.nodes = x.nodes ++ y.nodes) (hxa : x'.addr = x.addr)
    (hya : y'.addr = y.addr) (hxn : kslMinNblk ≤ x'.n ∧ x'.n ≤ kslMaxNblk)
    (hyn : kslMinNblk ≤ y'.n ∧ y'.n ≤ kslMaxNblk) :
    ∃ a', x'.lastKey = some a' ∧ Shifted ord lo x b y a' x' y' := by
  obtain ⟨hspan, htop⟩ := pair_spans hx hy
  have hpos : x'.n ≠ 0 := Nat.ne_of_gt (lt_of_lt_of_le (by decide) hxn.1)
  obtain ⟨a', ha', htop'⟩ := exists_lastKey ord hpos
  rw [← hnodes, Nodes, spans_append, htop'] at hspan
  rw [← hnodes, top_append, htop'] at htop
  exact ⟨a', ha', hnodes, hxa, hya, ⟨hxn, hspan.1, (htop' lo).le⟩, ⟨hyn, hspan.2, htop⟩⟩

/-- The blocks are the same ones, and so are those under them. -/
theorem Shifted.addrs_eq (hs : Shifted ord lo x b y a' x' y') :
    side (treeAddrs x') (treeAddrs y') = side (treeAddrs x) (treeAddrs y) := by
  have hnodes := congrArg (addrs h) hs.nodes
  rw [addrs_append, addrs_append] at hnodes
  funext k
  by_cases hk : k = h
  · subst hk
    simp only [side, treeAddrs, self, if_true, addrs_of_le _ (Nat.le_refl k), hs.left, hs.right]
  · have hk' := congrFun hnodes k
    simpa only [side, treeAddrs, self, if_neg hk, List.nil_append] using hk'

/-! ## Moving nodes -/

/-- The two nodes as a function on the block above them finds them. -/
theorem pair_nodes {blk : Blk κ α} {l₁ l₂ : List (κ × α)} {e f : κ × α}
    (hb : blk.nodes = l₁ ++ e :: f :: l₂) :
    blk.nodes[l₁.length]? = some e ∧ blk.nodes[l₁.length + 1]? = some f := by
  rw [hb]
  exact ⟨getElem?_append_cons, getElem?_append_cons_cons⟩

theorem n_append (addr : ℕ) (l₁ l₂ : List (κ × α)) :
    Blk.n ⟨addr, l₁ ++ l₂⟩ = l₁.length + l₂.length := List.length_append

/-- Nodes of the right block go to a left block with the minimum. -/
theorem shiftLeft_spec {blk : Tree κ ν (h + 1)} {l₁ l₂ : List (κ × Node κ ν (h + 1))}
    (hb : blk.nodes = l₁ ++ (a, x) :: (b, y) :: l₂) (hx : NodeOk ord (h + 1) lo a x)
    (hy : NodeOk ord (h + 1) (ord a) b y) (hxn : x.n = kslMinNblk) (hyn : kslMinNblk < y.n) :
    ∃ a' x' y', shiftLeft blk (l₁.length + 1) =
        some ⟨blk.addr, l₁ ++ (a', x') :: (b, y') :: l₂⟩ ∧
      Shifted ord lo x b y a' x' y' ∧ kslMinNblk < x'.n ∧ y'.nodes ⊆ y.nodes := by
  have hmax := hy.1.2
  obtain ⟨e₁, e₂⟩ := pair_nodes hb
  generalize hm : (x.n + y.n + 1) / 2 - x.n = m
  rw [kslMinNblk] at hxn hyn
  rw [kslMaxNblk] at hmax
  have hxlen : Blk.n ⟨x.addr, x.nodes ++ y.nodes.take m⟩ = x.n + m := by
    have hle : m ≤ y.n := by omega
    rw [n_append, List.length_take_of_le hle]
    rfl
  have hylen : Blk.n ⟨y.addr, y.nodes.drop m⟩ = y.n - m := List.length_drop
  obtain ⟨a', ha', hs⟩ := exists_shifted ⟨x.addr, x.nodes ++ y.nodes.take m⟩
    ⟨y.addr, y.nodes.drop m⟩ hx hy
    (by rw [List.append_assoc, List.take_append_drop]) rfl rfl
    (by rw [hxlen, kslMinNblk, kslMaxNblk]; omega) (by rw [hylen, kslMinNblk, kslMaxNblk]; omega)
  refine ⟨a', _, _, ?_, hs, by rw [hxlen, kslMinNblk]; omega, List.drop_subset _ _⟩
  rw [shiftLeft, if_neg (Nat.succ_ne_zero _), Nat.add_sub_cancel, e₁, e₂]
  simp only [Option.bind_eq_bind, Option.bind_some, hm]
  rw [if_pos (by rw [kslMinNblk, kslMaxNblk]; omega), ha', setNode_eq hb, Option.bind_some,
    setNthKey_eq rfl, setNode_succ_eq rfl]

/-- Nodes of the left block go to a right block with the minimum. -/
theorem shiftRight_spec {blk : Tree κ ν (h + 1)} {l₁ l₂ : List (κ × Node κ ν (h + 1))}
    (hb : blk.nodes = l₁ ++ (a, x) :: (b, y) :: l₂) (hx : NodeOk ord (h + 1) lo a x)
    (hy : NodeOk ord (h + 1) (ord a) b y) (hxn : kslMinNblk < x.n) (hyn : y.n = kslMinNblk) :
    ∃ a' x' y', shiftRight blk l₁.length =
        some ⟨blk.addr, l₁ ++ (a', x') :: (b, y') :: l₂⟩ ∧
      Shifted ord lo x b y a' x' y' ∧ kslMinNblk < y'.n ∧ x'.nodes ⊆ x.nodes := by
  have hmax := hx.1.2
  obtain ⟨e₁, e₂⟩ := pair_nodes hb
  generalize hm : (x.n + y.n + 1) / 2 - y.n = m
  rw [kslMinNblk] at hxn hyn
  rw [kslMaxNblk] at hmax
  have hxlen : Blk.n ⟨x.addr, x.nodes.take (x.n - m)⟩ = x.n - m := by
    have hle : x.n - m ≤ x.n := Nat.sub_le _ _
    exact List.length_take_of_le hle
  have hylen : Blk.n ⟨y.addr, x.nodes.drop (x.n - m) ++ y.nodes⟩ = y.n + m := by
    rw [n_append, List.length_drop]
    change x.n - (x.n - m) + y.n = y.n + m
    omega
  obtain ⟨a', ha', hs⟩ := exists_shifted ⟨x.addr, x.nodes.take (x.n - m)⟩
    ⟨y.addr, x.nodes.drop (x.n - m) ++ y.nodes⟩ hx hy
    (by rw [← List.append_assoc, List.take_append_drop]) rfl rfl
    (by rw [hxlen, kslMinNblk, kslMaxNblk]; omega) (by rw [hylen, kslMinNblk, kslMaxNblk]; omega)
  refine ⟨a', _, _, ?_, hs, by rw [hylen, kslMinNblk]; omega, List.take_subset _ _⟩
  rw [shiftRight, e₁, e₂]
  simp only [Option.bind_eq_bind, Option.bind_some, hm]
  rw [if_pos (by rw [kslMinNblk, kslMaxNblk]; omega), ha', setNode_succ_eq hb, Option.bind_some,
    setNode_eq rfl, setNthKey_eq rfl]

/-! ## Merging -/

/-- Two blocks with the minimum of nodes become one. -/
structure Merged (ord : κ → ι) (lo : WithBot ι) (links : Links) (x : Tree κ ν h) (b : κ)
    (y : Tree κ ν h) (links' : Links) (k : κ) (z : Tree κ ν h) : Prop where
  nodes : z.nodes = x.nodes ++ y.nodes
  ok : NodeOk ord (h + 1) lo k z
  key_le : ord k ≤ ord b
  room : kslMinNblk < z.n
  relinks : Relinks links (side (treeAddrs x) (treeAddrs y)) links' (treeAddrs z)

theorem exists_merged (hx : NodeOk ord (h + 1) lo a x) (hy : NodeOk ord (h + 1) (ord a) b y)
    (hxn : x.n = kslMinNblk) (hyn : y.n = kslMinNblk) (links : Links) :
    ∃ k, Blk.lastKey (⟨x.addr, x.nodes ++ y.nodes⟩ : Tree κ ν h) = some k ∧
      Merged ord lo links x b y (links.unlink x.addr y.addr) k ⟨x.addr, x.nodes ++ y.nodes⟩ := by
  obtain ⟨hspan, htop⟩ := pair_spans hx hy
  have hn : Blk.n ⟨x.addr, x.nodes ++ y.nodes⟩ = x.n + y.n := n_append _ _ _
  rw [hxn, hyn] at hn
  obtain ⟨k, hk, htop'⟩ := exists_lastKey ord
    (show Blk.n (⟨x.addr, x.nodes ++ y.nodes⟩ : Tree κ ν h) ≠ 0 by rw [hn]; decide)
  refine ⟨k, hk, rfl, ⟨?_, hspan, (htop' lo).le⟩, ?_, ?_, ?_⟩
  · rw [hn]
    decide
  · exact WithBot.coe_le_coe.1 (htop' lo ▸ htop)
  · rw [hn]
    decide
  · refine relinks_unlink (h := h) (p := []) (a := x.addr) (b := y.addr) (q := []) ?_ ?_
    · simp only [side, treeAddrs, self, if_true, addrs_of_le _ (Nat.le_refl h)]
      rfl
    · funext k
      rw [treeAddrs, addrs_append]
      by_cases hk : k = h
      · subst hk
        simp only [side, self, if_true, Function.update_self, addrs_of_le _ (Nat.le_refl k)]
        rfl
      · simp only [side, treeAddrs, self, if_neg hk, Function.update_of_ne hk, List.nil_append]

theorem mergeNode_spec {blk : Tree κ ν (h + 1)} {l₁ l₂ : List (κ × Node κ ν (h + 1))}
    (hb : blk.nodes = l₁ ++ (a, x) :: (b, y) :: l₂) (hx : NodeOk ord (h + 1) lo a x)
    (hy : NodeOk ord (h + 1) (ord a) b y) (hxn : x.n = kslMinNblk) (hyn : y.n = kslMinNblk)
    (links : Links) :
    ∃ k z links', mergeNode blk l₁.length links =
        some (⟨blk.addr, l₁ ++ (k, z) :: l₂⟩, links') ∧
      Merged ord lo links x b y links' k z := by
  obtain ⟨e₁, e₂⟩ := pair_nodes hb
  obtain ⟨k, hk, hm⟩ := exists_merged hx hy hxn hyn links
  refine ⟨k, _, _, ?_, hm⟩
  rw [mergeNode, e₁, e₂]
  simp only [Option.bind_eq_bind, Option.bind_some]
  rw [if_pos (by rw [hxn, hyn]; decide), hk, setNode_eq hb, Option.bind_some,
    removeNode_succ_eq rfl, setNthKey_eq rfl]

/-! ## A node to spare -/

variable {key : κ}

/-- A block `t` made ready for the removal to go on to its node `(s, c)`. -/
structure Filled (ord : κ → ι) (lo : WithBot ι) (key : κ) (t : Tree κ ν (h + 1)) (links : Links)
    (t' : Tree κ ν (h + 1)) (l₁ : List (κ × Node κ ν (h + 1))) (s : κ) (c : Tree κ ν h)
    (l₂ : List (κ × Node κ ν (h + 1))) (links' : Links) : Prop where
  eq : t' = ⟨t.addr, l₁ ++ (s, c) :: l₂⟩
  nodes : Nodes ord (h + 1) lo t'.nodes
  size : t.n - 1 ≤ t'.n ∧ t'.n ≤ t.n
  top_le : top ord lo t'.nodes ≤ top ord lo t.nodes
  relinks : Relinks links (treeAddrs t) links' (treeAddrs t')
  items : items (h + 1) t'.nodes = items (h + 1) t.nodes
  room : kslMinNblk < c.n
  left : ∀ e ∈ Ksl.items (h + 1) l₁, ord e.1 < ord key
  right : ∀ e ∈ Ksl.items (h + 1) l₂, ord key < ord e.1

theorem items_subset {l l' : List (κ × Node κ ν h)} (hl : l' ⊆ l) : items h l' ⊆ items h l := by
  intro e he
  obtain ⟨c, hc, he⟩ := List.mem_flatMap.1 he
  exact List.mem_flatMap.2 ⟨c, hl hc, he⟩

theorem items_pair (l₁ l₂ : List (κ × Node κ ν (h + 1))) (a b : κ) (x y : Tree κ ν h) :
    items (h + 1) (l₁ ++ (a, x) :: (b, y) :: l₂) =
      items (h + 1) l₁ ++ (items h (x.nodes ++ y.nodes) ++ items (h + 1) l₂) := by
  rw [items_append, items_cons, items_cons, nodeItems_succ, nodeItems_succ, items_append,
    List.append_assoc]

/-- Two nodes with nodes moved between them, among others. -/
theorem Shifted.within {t : Tree κ ν (h + 1)} {l₁ l₂ : List (κ × Node κ ν (h + 1))}
    (hs : Shifted ord (top ord lo l₁) x b y a' x' y') (ht : t.nodes = l₁ ++ (a, x) :: (b, y) :: l₂)
    (hok : Nodes ord (h + 1) lo t.nodes) (links : Links) :
    let t' : Tree κ ν (h + 1) := ⟨t.addr, l₁ ++ (a', x') :: (b, y') :: l₂⟩
    Nodes ord (h + 1) lo t'.nodes ∧ t'.n = t.n ∧ top ord lo t'.nodes = top ord lo t.nodes ∧
      Relinks links (treeAddrs t) links (treeAddrs t') ∧
      items (h + 1) t'.nodes = items (h + 1) t.nodes := by
  rw [ht, Nodes, spans_append] at hok
  refine ⟨?_, ?_, ?_, ?_, ?_⟩
  · rw [Nodes, spans_append]
    exact ⟨hok.1, hs.ok₁, hs.ok₂, hok.2.2.2⟩
  · simp only [Blk.n, ht, List.length_append, List.length_cons]
  · rw [ht, top_append, top_append]
    rfl
  · refine relinks_nodes [(a, x), (b, y)] [(a', x'), (b, y')] rfl ht rfl ?_
    rw [addrs_cons, addrs_singleton, addrs_cons, addrs_singleton, hs.addrs_eq]
    exact .refl _ _
  · rw [ht, items_pair, items_pair, hs.nodes]

/-- Two nodes merged, among others. -/
theorem Merged.within {t : Tree κ ν (h + 1)} {l₁ l₂ : List (κ × Node κ ν (h + 1))} {k : κ}
    {z : Tree κ ν h} (hm : Merged ord (top ord lo l₁) links x b y links' k z)
    (ht : t.nodes = l₁ ++ (a, x) :: (b, y) :: l₂) (hok : Nodes ord (h + 1) lo t.nodes) :
    let t' : Tree κ ν (h + 1) := ⟨t.addr, l₁ ++ (k, z) :: l₂⟩
    Nodes ord (h + 1) lo t'.nodes ∧ t'.n = t.n - 1 ∧ top ord lo t'.nodes ≤ top ord lo t.nodes ∧
      Relinks links (treeAddrs t) links' (treeAddrs t') ∧
      items (h + 1) t'.nodes = items (h + 1) t.nodes := by
  rw [ht, Nodes, spans_append] at hok
  refine ⟨?_, ?_, ?_, ?_, ?_⟩
  · rw [Nodes, spans_append]
    exact ⟨hok.1, hm.ok, Nodes.mono (WithBot.coe_le_coe.2 hm.key_le) hok.2.2.2⟩
  · simp only [Blk.n, ht, List.length_append, List.length_cons]
    omega
  · rw [ht, top_append, top_append]
    exact top_mono (WithBot.coe_le_coe.2 hm.key_le)
  · refine relinks_nodes [(a, x), (b, y)] [(k, z)] rfl ht rfl ?_
    rw [addrs_cons, addrs_singleton, addrs_singleton]
    exact hm.relinks
  · rw [ht, items_pair, items_append, items_cons, nodeItems_succ, hm.nodes]

theorem fillNode_spec {t : Tree κ ν (h + 1)} {l₁ l₂ : List (κ × Node κ ν (h + 1))} {s : κ}
    {c : Tree κ ν h} (ht : t.nodes = l₁ ++ (s, c) :: l₂) (hok : Nodes ord (h + 1) lo t.nodes)
    (hn : 2 ≤ t.n) (h₁ : ∀ e ∈ items (h + 1) l₁, ord e.1 < ord key)
    (h₂ : ∀ e ∈ items (h + 1) l₂, ord key < ord e.1) (links : Links) :
    ∃ t' m₁ s' c' m₂ links', fillNode t l₁.length links = some (t', m₁.length, links') ∧
      Filled ord lo key t links t' m₁ s' c' m₂ links' := by
  have hspan := hok
  rw [ht, Nodes, spans_append] at hspan
  obtain ⟨hok₁, hokc, hok₂⟩ := hspan
  have he : t.nodes[l₁.length]? = some (s, c) := by rw [ht, getElem?_append_cons]
  rw [fillNode, he]
  simp only [Option.bind_eq_bind, Option.bind_some]
  by_cases hroom : kslMinNblk < c.n
  · rw [if_pos hroom]
    have heq : t = ⟨t.addr, l₁ ++ (s, c) :: l₂⟩ := by rw [← ht]
    exact ⟨t, l₁, s, c, l₂, links, rfl, heq, hok, ⟨Nat.sub_le _ _, le_refl _⟩, le_refl _,
      .refl _ _, rfl, hroom, h₁, h₂⟩
  have hcn : c.n = kslMinNblk := le_antisymm (Nat.le_of_not_lt hroom) hokc.1.1
  rw [if_neg hroom, if_neg (not_not_intro hcn)]
  by_cases hnext : (t.nodes[l₁.length + 1]?.any fun e => kslMinNblk < e.2.n) = true
  · -- the block to the right has nodes to spare
    obtain ⟨⟨b, y⟩, l₂', rfl⟩ : ∃ e l₂', l₂ = e :: l₂' := by
      cases l₂ with
      | nil => simp [ht] at hnext
      | cons e l₂ => exact ⟨e, l₂, rfl⟩
    rw [if_pos hnext]
    rw [(pair_nodes ht).2] at hnext
    obtain ⟨a', x', y', hrun, hs, hx', hy'⟩ := shiftLeft_spec ht hokc hok₂.1 hcn
      (of_decide_eq_true hnext)
    obtain ⟨hok', hn', htop', hrel', hitems'⟩ := hs.within ht hok links
    rw [hrun]
    refine ⟨_, l₁, a', x', _, links, rfl, rfl, hok', ⟨?_, hn'.le⟩, htop'.le, hrel', hitems', hx',
      h₁, fun e he => h₂ e ?_⟩
    · rw [hn']
      exact Nat.sub_le _ _
    · rw [items_cons, List.mem_append] at he ⊢
      exact he.imp_left fun h => items_subset hy' h
  rw [if_neg hnext]
  -- the block to the left, if there is one
  have hleft : 0 < l₁.length → ∃ l b y, l₁ = l ++ [(b, y)] ∧ l₁.length - 1 = l.length ∧
      t.nodes = l ++ (b, y) :: (s, c) :: l₂ ∧ NodeOk ord (h + 1) (top ord lo l) b y ∧
      NodeOk ord (h + 1) (ord b) s c := by
    intro hpos
    obtain ⟨l, ⟨b, y⟩, rfl⟩ : ∃ l e, l₁ = l ++ [e] :=
      (List.eq_nil_or_concat' l₁).resolve_left (List.ne_nil_of_length_pos hpos)
    rw [spans_append] at hok₁
    rw [top_append] at hokc
    exact ⟨l, b, y, rfl, by rw [List.length_append]; rfl, by rw [ht, append_cons_cons],
      hok₁.2.1, hokc⟩
  by_cases hprev : 0 < l₁.length ∧ (t.nodes[l₁.length - 1]?.any fun e => kslMinNblk < e.2.n) = true
  · -- it has nodes to spare
    obtain ⟨l, b, y, rfl, hlen, ht', hokb, hokc'⟩ := hleft hprev.1
    rw [if_pos hprev]
    rw [hlen, (pair_nodes ht').1] at hprev
    obtain ⟨a', x', y', hrun, hs, hy', hx'⟩ := shiftRight_spec ht' hokb hokc'
      (of_decide_eq_true hprev.2) hcn
    obtain ⟨hok', hn', htop', hrel', hitems'⟩ := hs.within ht' hok links
    rw [hlen, hrun]
    refine ⟨_, l ++ [(a', x')], s, y', l₂, links, ?_, ?_, hok', ⟨?_, hn'.le⟩, htop'.le, hrel',
      hitems', hy', fun e he => h₁ e ?_, h₂⟩
    · rw [List.length_append, List.length_append]
      rfl
    · rw [append_cons_cons]
    · rw [hn']
      exact Nat.sub_le _ _
    · rw [items_append, items_cons, List.mem_append, List.mem_append] at he ⊢
      exact he.imp_right fun h => h.imp_left fun h => items_subset hx' h
  rw [if_neg hprev]
  by_cases hright : l₁.length + 1 < t.n
  · -- the blocks to both sides have the minimum
    obtain ⟨⟨b, y⟩, l₂', rfl⟩ : ∃ e l₂', l₂ = e :: l₂' := by
      cases l₂ with
      | nil =>
        rw [Blk.n, ht, List.length_append] at hright
        exact absurd hright (Nat.lt_irrefl _)
      | cons e l₂ => exact ⟨e, l₂, rfl⟩
    rw [if_pos hright]
    rw [(pair_nodes ht).2] at hnext
    have hyn : y.n = kslMinNblk :=
      le_antisymm (Nat.le_of_not_lt fun h => hnext (decide_eq_true h)) hok₂.1.1.1
    obtain ⟨k, z, links', hrun, hm⟩ := mergeNode_spec ht hokc hok₂.1 hcn hyn links
    obtain ⟨hok', hn', htop', hrel', hitems'⟩ := hm.within ht hok
    rw [hrun]
    refine ⟨_, l₁, k, z, l₂', links', rfl, rfl, hok', ⟨hn'.ge, ?_⟩, htop', hrel', hitems', hm.room,
      h₁, fun e he => h₂ e ?_⟩
    · rw [hn']
      exact Nat.sub_le _ _
    · rw [items_cons]
      exact List.mem_append_right _ he
  · -- there is no block to the right
    have hpos : 0 < l₁.length := by
      rw [Blk.n, ht, List.length_append, List.length_cons] at hn hright
      omega
    obtain ⟨l, b, y, rfl, hlen, ht', hokb, hokc'⟩ := hleft hpos
    rw [if_neg hright, if_pos hpos, hlen]
    rw [hlen, (pair_nodes ht').1] at hprev
    have hyn : y.n = kslMinNblk :=
      le_antisymm (Nat.le_of_not_lt fun h => hprev ⟨hpos, decide_eq_true h⟩) hokb.1.1
    obtain ⟨k, z, links', hrun, hm⟩ := mergeNode_spec ht' hokb hokc' hyn hcn links
    obtain ⟨hok', hn', htop', hrel', hitems'⟩ := hm.within ht' hok
    rw [hrun]
    refine ⟨_, l, k, z, l₂, links', rfl, rfl, hok', ⟨hn'.ge, ?_⟩, htop', hrel', hitems', hm.room,
      fun e he => h₁ e ?_, h₂⟩
    · rw [hn']
      exact Nat.sub_le _ _
    · rw [items_append]
      exact List.mem_append_left _ he

/-! ## What a removal does -/

/-- What becomes of the items of a block, and where the iterator is in the leaves after it. -/
inductive RemovedItems (ord : κ → ι) (key : κ) (links : Links) (lvs : List (Blk κ ν))
    (l : List (κ × ν)) : List (κ × ν) → Option It → Prop
  /-- The key is absent. -/
  | absent (hk : ∀ e ∈ l, ord e.1 ≠ ord key) : RemovedItems ord key links lvs l l none
  /-- The item is taken out. -/
  | present {p q : List (κ × ν)} {e : κ × ν} {it : It} (hl : l = p ++ e :: q)
    (hk : ord e.1 = ord key) (hit : Denotes links lvs it p.length) :
    RemovedItems ord key links lvs l (p ++ q) (some it)

/-- What becomes of a block. -/
structure Removed (ord : κ → ι) (lo : WithBot ι) (key : κ) (t : Tree κ ν h) (links : Links)
    (it : Option It) (t' : Tree κ ν h) (links' : Links) : Prop where
  nodes : Nodes ord h lo t'.nodes
  size : t.n - 1 ≤ t'.n ∧ t'.n ≤ t.n
  top_le : top ord lo t'.nodes ≤ top ord lo t.nodes
  relinks : Relinks links (treeAddrs t) links' (treeAddrs t')
  items : RemovedItems ord key links' (leaves h t') (items h t.nodes) (items h t'.nodes) it

theorem RemovedItems.within {lvs : List (Blk κ ν)} {l l' : List (κ × ν)} {it : Option It}
    (h : RemovedItems ord key links lvs l l' it) {l₁ l₂ : List (κ × ν)}
    {lvs₁ : List (Blk κ ν)} (lvs₂ : List (Blk κ ν)) (h₁ : ∀ e ∈ l₁, ord e.1 < ord key)
    (h₂ : ∀ e ∈ l₂, ord key < ord e.1) (hl : lvs₁.flatMap Blk.nodes = l₁) :
    RemovedItems ord key links (lvs₁ ++ (lvs ++ lvs₂)) (l₁ ++ (l ++ l₂)) (l₁ ++ (l' ++ l₂)) it := by
  cases h with
  | absent hk =>
    refine .absent fun e he => ?_
    rcases List.mem_append.1 he with he | he
    · exact (h₁ e he).ne
    rcases List.mem_append.1 he with he | he
    · exact hk e he
    · exact (h₂ e he).ne'
  | @present p q e it hlp hk hit =>
    subst hlp
    have hden := hit.within lvs₁ lvs₂
    rw [hl, ← List.length_append] at hden
    rw [List.append_assoc p, List.append_assoc p, ← List.append_assoc l₁ p,
      ← List.append_assoc l₁ p, List.cons_append]
    exact .present rfl hk hden

/-- The removal in a node made ready for it. -/
theorem Filled.inner {t t₁ : Tree κ ν (h + 1)} {l₁ l₂ : List (κ × Node κ ν (h + 1))} {s : κ}
    {c c' : Tree κ ν h} {links₁ : Links} {it : Option It}
    (hf : Filled ord lo key t links t₁ l₁ s c l₂ links₁)
    (hc : Removed ord (top ord lo l₁) key c links₁ it c' links') :
    Removed ord lo key t links it ⟨t₁.addr, l₁ ++ (s, c') :: l₂⟩ links' := by
  obtain ⟨rfl, hok, hsize, htop, hrel, hitems, hroom, h₁, h₂⟩ := hf
  rw [Nodes, spans_append] at hok
  obtain ⟨hok₁, ⟨hcsize, hspan, hctop⟩, hok₂⟩ := hok
  have hc₁ : kslMinNblk ≤ c'.n ∧ c'.n ≤ kslMaxNblk :=
    ⟨(Nat.le_pred_of_lt hroom).trans hc.size.1, hc.size.2.trans hcsize.2⟩
  refine ⟨?_, ?_, ?_, ?_, ?_⟩
  · rw [Nodes, spans_append]
    exact ⟨hok₁, ⟨hc₁, hc.nodes, hc.top_le.trans hctop⟩, hok₂⟩
  · simpa only [Blk.n, List.length_append, List.length_cons] using hsize
  · rw [top_append] at htop ⊢
    exact htop
  · refine hrel.trans (relinks_nodes [(s, c)] [(s, c')] rfl rfl rfl ?_)
    rw [addrs_singleton, addrs_singleton]
    exact hc.relinks
  · rw [leaves_append_cons _ rfl, ← hitems, items_append, items_append, items_cons, items_cons]
    exact hc.items.within _ h₁ h₂ (leavesOf_nodes l₁)

/-! ## The loops -/

variable (key) in
theorem removeLeaf_spec {compar : κ → κ → Bool} (hc : Compares ord compar) {t : Tree κ ν 0}
    (hok : Nodes ord 0 lo t.nodes) (links : Links) :
    Removed ord lo key t links (removeLeaf compar key t links).1 (removeLeaf compar key t links).2
      links := by
  obtain ⟨l₁, l₂, ht, hi, h₁, h₂⟩ := exists_search hc t key
  have hspan := hok
  rw [ht, Nodes, spans_append] at hspan
  have habsent : (∀ e, l₂.head? = some e → ord key < ord e.1) →
      Removed ord lo key t links none t links := by
    intro hlt
    refine ⟨hok, ⟨Nat.sub_le _ _, le_refl _⟩, le_refl _, .refl _ _, .absent fun e he => ?_⟩
    rw [items_zero, ht] at he
    rcases List.mem_append.1 he with he | he
    · exact (h₁ e he).ne
    · cases l₂ with
      | nil => cases he
      | cons x l₂ =>
        have hx : ord key < ord x.1 := hlt x rfl
        rcases List.mem_cons.1 he with rfl | he
        · exact hx.ne'
        · rw [← items_zero l₂] at he
          exact (hx.trans (WithBot.coe_lt_coe.1 (Nodes.bounds hspan.2.2 e he).1)).ne'
  rw [removeLeaf, hi]
  dsimp only
  rw [ht, List.getElem?_append_right (Nat.le_refl _), Nat.sub_self]
  cases l₂ with
  | nil => exact habsent fun e he => by cases he
  | cons e l₂ =>
    obtain ⟨k, v⟩ := e
    dsimp only [List.getElem?_cons_zero]
    cases hk : compar key k with
    | true =>
      refine habsent fun e he => ?_
      obtain rfl := Option.some.inj he
      exact (hc _ _).1 hk
    | false =>
      have hkey : ord k = ord key := le_antisymm (hc.eq_false.1 hk) (h₂ _ rfl)
      rw [if_neg Bool.false_ne_true, removeNode_eq ht]
      refine ⟨?_, ?_, ?_, ?_, ?_⟩
      · rw [Nodes, spans_append]
        exact ⟨hspan.1, Nodes.mono hspan.2.1.le hspan.2.2⟩
      · simp only [Blk.n, ht, List.length_append, List.length_cons]
        omega
      · rw [ht, top_append, top_append]
        exact top_mono hspan.2.1.le
      · refine relinks_nodes [(k, v)] [] rfl ht rfl ?_
        exact .refl _ _
      · rw [items_zero, items_zero, ht]
        refine .present rfl hkey ⟨[], _, [], l₁.length, rfl, ?_, (Nat.zero_add _).symm, rfl⟩
        rw [n_append]
        exact Nat.le_add_right _ _

/-- The items under nodes with keys before `key` come before it. -/
theorem items_lt {l : List (κ × Node κ ν h)} (hl : Nodes ord h lo l)
    (hk : ∀ e ∈ l, ord e.1 < ord key) : ∀ e ∈ items h l, ord e.1 < ord key := by
  induction l generalizing lo with
  | nil => exact fun _ he => absurd he List.not_mem_nil
  | cons c l ih =>
    intro e he
    rw [items_cons, List.mem_append] at he
    rcases he with he | he
    · exact lt_of_le_of_lt (NodeOk.bounds hl.1 e he).2 (hk c List.mem_cons_self)
    · exact ih hl.2 (fun x hx => hk x (List.mem_cons_of_mem _ hx)) e he

theorem Removed.absent {t : Tree κ ν h} (hok : Nodes ord h lo t.nodes)
    (hk : ∀ e ∈ Ksl.items h t.nodes, ord e.1 ≠ ord key) (links : Links) :
    Removed ord lo key t links none t links :=
  ⟨hok, ⟨Nat.sub_le _ _, le_refl _⟩, le_refl _, .refl _ _, .absent hk⟩

/-- What the loop finds in a block that is not a leaf: the key lies behind everything there, or
    there is a node to go on to, and the block is made ready for that. -/
theorem removal_step {compar : κ → κ → Bool} (hc : Compares ord compar) {t : Tree κ ν (h + 1)}
    (hok : Nodes ord (h + 1) lo t.nodes) (hn : 2 ≤ t.n) (links : Links) :
    t.search compar key = t.n ∧ Removed ord lo key t links none t links ∨
    t.search compar key ≠ t.n ∧ ∃ t' l₁ s c l₂ links',
      fillNode t (t.search compar key) links = some (t', l₁.length, links') ∧
      Filled ord lo key t links t' l₁ s c l₂ links' := by
  obtain ⟨l₁, l₂, ht, hi, h₁, h₂⟩ := exists_search hc t key
  have hspan := hok
  rw [ht, Nodes, spans_append] at hspan
  cases l₂ with
  | nil =>
    rw [List.append_nil] at ht
    refine .inl ⟨by rw [hi, Blk.n, ht], .absent hok (fun e he => ?_) links⟩
    rw [ht] at he
    exact (items_lt hspan.1 h₁ e he).ne
  | cons e l₂ =>
    obtain ⟨s, c⟩ := e
    right
    rw [hi]
    refine ⟨?_, fillNode_spec ht hok hn (items_lt hspan.1 h₁) (fun e he => ?_) links⟩
    · rw [Blk.n, ht, List.length_append, List.length_cons]
      omega
    · exact lt_of_le_of_lt (h₂ _ rfl) (WithBot.coe_lt_coe.1 (Nodes.bounds hspan.2.2 e he).1)

theorem Filled.child {t t' : Tree κ ν (h + 1)} {l₁ l₂ : List (κ × Node κ ν (h + 1))} {s : κ}
    {c : Tree κ ν h} (hf : Filled ord lo key t links t' l₁ s c l₂ links') :
    t'.nodes[l₁.length]? = some (s, c) ∧ Nodes ord h (top ord lo l₁) c.nodes ∧ 2 ≤ c.n ∧
      ∀ c', t'.setNode l₁.length c' = ⟨t'.addr, l₁ ++ (s, c') :: l₂⟩ := by
  obtain ⟨rfl, hok, -, -, -, -, hroom, -, -⟩ := hf
  rw [Nodes, spans_append] at hok
  rw [kslMinNblk] at hroom
  exact ⟨getElem?_append_cons, hok.2.1.2.1, by omega, fun c' => setNode_eq rfl c'⟩

/-- The loop of the removal, from a block with nodes to spare. -/
theorem removeLoop_spec {compar : κ → κ → Bool} (hc : Compares ord compar) :
    ∀ {h : ℕ} (t : Tree κ ν h) (lo : WithBot ι) (links : Links),
    Nodes ord h lo t.nodes → 2 ≤ t.n ∨ h = 0 →
    ∃ it t' links', removeLoop compar key h t links = some (it, t', links') ∧
      Removed ord lo key t links it t' links'
  | 0, t, lo, links, hok, _ => ⟨_, _, links, rfl, removeLeaf_spec _ hc hok links⟩
  | h + 1, t, lo, links, hok, hn => by
    rw [removeLoop]
    rcases removal_step hc hok (hn.resolve_right (Nat.succ_ne_zero h)) links with
      ⟨hi, hr⟩ | ⟨hi, t₁, l₁, s, c, l₂, links₁, hrun, hf⟩
    · rw [if_pos hi]
      exact ⟨none, t, links, rfl, hr⟩
    · obtain ⟨hc₁, hok₁, hn₁, hset⟩ := hf.child
      obtain ⟨it, c', links', hrec, hr⟩ := removeLoop_spec hc c _ links₁ hok₁ (.inl hn₁)
      rw [if_neg hi, hrun]
      simp only [Option.bind_eq_bind, Option.bind_some, hc₁, hrec, hset]
      exact ⟨it, _, links', rfl, hf.inner hr⟩

/-! ## The root -/

/-- What holds of a root. -/
structure RootOk (ord : κ → ι) (t : Tree κ ν h) : Prop where
  nodes : Nodes ord h ⊥ t.nodes
  le_max : t.n ≤ kslMaxNblk
  two_le : 2 ≤ t.n ∨ h = 0

/-- What becomes of a root. -/
structure RootRemoved (ord : κ → ι) (key : κ) (l : List (κ × ν)) (it : Option It)
    (root : Σ h, Tree κ ν h) (links : Links) : Prop where
  ok : RootOk ord root.2
  linked : Linked links (treeAddrs root.2)
  items : RemovedItems ord key links (leaves root.1 root.2) l (items root.1 root.2.nodes) it

theorem linked_of_relinks {old new : ℕ → List ℕ} (hl : Linked links old)
    (hr : Relinks links old links' new) : Linked links' new := by
  have := hr (fun _ => []) (fun _ => []) (by rwa [side_nil])
  rwa [side_nil] at this

/-- The root is freed, and what is below it stays. -/
theorem linked_children {t : Tree κ ν (h + 1)} (hl : Linked links (treeAddrs t)) :
    Linked links (addrs (h + 1) t.nodes) := by
  have hfree := hl.free (Nat.succ_ne_zero h)
  convert hfree using 1
  funext k
  by_cases hk : k = h + 1
  · subst hk
    rw [Function.update_self, addrs_of_le _ (Nat.le_refl _)]
  · rw [Function.update_of_ne hk, treeAddrs, side, self, if_neg hk, List.nil_append]

/-- The only two blocks of the root become the root if they have the minimum of nodes. -/
theorem mergeRoot_spec : ∀ {h : ℕ} {t : Tree κ ν h}, RootOk ord t → Linked links (treeAddrs t) →
    ∃ root links', mergeRoot h t links = some (root, links') ∧ RootOk ord root.2 ∧
      Linked links' (treeAddrs root.2) ∧ items root.1 root.2.nodes = items h t.nodes
  | 0, t, hok, hl => ⟨⟨0, t⟩, links, rfl, hok, hl, rfl⟩
  | h + 1, t, hok, hl => by
    have hstay : mergeRoot (h + 1) t links = some (⟨h + 1, t⟩, links) →
        ∃ root links', mergeRoot (h + 1) t links = some (root, links') ∧ RootOk ord root.2 ∧
          Linked links' (treeAddrs root.2) ∧ items root.1 root.2.nodes = items (h + 1) t.nodes :=
      fun he => ⟨_, _, he, hok, hl, rfl⟩
    rw [mergeRoot] at hstay ⊢
    split at hstay
    · next a x b y ht =>
      split at hstay
      · next hmin =>
        have hspan := hok.nodes
        have hlinks := linked_children hl
        rw [ht] at hspan hlinks ⊢
        rw [addrs_cons, addrs_singleton] at hlinks
        obtain ⟨hx, hy, -⟩ := hspan
        obtain ⟨k, -, hm⟩ := exists_merged hx hy hmin.1 hmin.2 links
        rw [if_pos hmin, if_pos (by rw [hmin.1, hmin.2]; decide)]
        refine ⟨_, _, rfl, ⟨hm.ok.2.1, hm.ok.1.2, .inl ?_⟩, linked_of_relinks hlinks hm.relinks, ?_⟩
        · exact (show 2 ≤ kslMinNblk by decide).trans hm.ok.1.1
        · rw [items_cons, items_cons, nodeItems_succ, nodeItems_succ, items_nil, List.append_nil]
          exact items_append _ _
      · next hmin =>
        rw [ht, if_neg hmin, ← ht]
        exact hstay rfl
    · exact hstay rfl

variable (key) in
/-- The loop of the removal, from the root. -/
theorem removeRoot_spec {compar : κ → κ → Bool} (hc : Compares ord compar) :
    ∀ {h : ℕ} (t : Tree κ ν h) (links : Links), RootOk ord t → Linked links (treeAddrs t) →
    ∃ it root links', removeRoot compar key h t links = some (it, root, links') ∧
      RootRemoved ord key (items h t.nodes) it root links'
  | 0, t, links, hok, hl => by
    have hr := removeLeaf_spec key hc hok.nodes links
    exact ⟨_, _, links, rfl, ⟨hr.nodes, hr.size.2.trans hok.le_max, .inr rfl⟩,
      linked_of_relinks hl hr.relinks, hr.items⟩
  | h + 1, t, links, hok, hl => by
    have hn := hok.two_le.resolve_right (Nat.succ_ne_zero h)
    rw [removeRoot]
    rcases removal_step hc hok.nodes hn links with
      ⟨hi, hr⟩ | ⟨hi, t₁, l₁, s, c, l₂, links₁, hrun, hf⟩
    · rw [if_pos hi]
      exact ⟨none, _, links, rfl, hok, hl, hr.items⟩
    · obtain ⟨hc₁, hok₁, hn₁, hset⟩ := hf.child
      have hl₁ := linked_of_relinks hl hf.relinks
      rw [if_neg hi, hrun]
      simp only [Option.bind_eq_bind, Option.bind_some, hc₁]
      have hlen : t₁.n = l₁.length + l₂.length + 1 := by
        rw [hf.eq, n_append]
        rfl
      by_cases h1 : t₁.n = 1
      · -- two blocks were merged into the one that is now the root
        rw [hlen] at h1
        obtain rfl := List.eq_nil_of_length_eq_zero (show l₁.length = 0 by omega)
        obtain rfl := List.eq_nil_of_length_eq_zero (show l₂.length = 0 by omega)
        have hnodes := hf.nodes
        have hchild := linked_children hl₁
        have hitems := hf.items
        rw [hf.eq] at hnodes hchild hitems
        rw [List.nil_append, addrs_singleton] at hchild
        obtain ⟨it, root, links', hrec, hr⟩ := removeRoot_spec hc c links₁
          ⟨hok₁, hnodes.1.1.2, .inl hn₁⟩ hchild
        rw [if_pos (hlen.trans h1), hrec]
        refine ⟨it, root, links', rfl, hr.ok, hr.linked, ?_⟩
        rw [← hitems, List.nil_append, items_cons, items_nil, List.append_nil]
        exact hr.items
      · obtain ⟨it, c', links', hrec, hr⟩ := removeLoop_spec hc c _ links₁ hok₁ (.inl hn₁)
        have hr' := hf.inner hr
        rw [if_neg h1, hrec]
        simp only [Option.bind_some, hset]
        refine ⟨it, _, links', rfl, ⟨hr'.nodes, hr'.size.2.trans hok.le_max, .inl ?_⟩,
          linked_of_relinks hl hr'.relinks, hr'.items⟩
        have hsize := hf.size.1
        rw [n_append, List.length_cons]
        omega

end Ksl

end Dwnx
