import Dwnx.Ksl.Search

/-!
# Changes in place

A removal through an iterator takes the node out of its leaf, if the leaf has one to spare,
and leaves the keys above it as they are. An update of a key goes down the way of the old key
and changes the keys on it that are equal to the old key or come before the new one; it is
right unless there is a key above the leaves that is before the old key and not before the
new one.
-/

namespace Dwnx

namespace Ksl

variable {κ ν α ι : Type} {h : ℕ} {links : Links}

/-! ## A leaf of its own -/

/-- Where an element of a list may be, compared to another. -/
theorem append_cons_cases {p r l₁ l₂ : List α} {x y : α} (he : p ++ y :: r = l₁ ++ x :: l₂) :
    (∃ p', p = l₁ ++ x :: p' ∧ l₂ = p' ++ y :: r) ∨ (l₁ = p ∧ x = y ∧ l₂ = r) ∨
    ∃ r', r = r' ++ x :: l₂ ∧ l₁ = p ++ y :: r' := by
  rcases List.append_eq_append_iff.1 he with ⟨s, hs, hr⟩ | ⟨s, hs, hr⟩
  · cases s with
    | nil =>
      obtain ⟨rfl, rfl⟩ := List.cons.inj hr
      exact .inr (.inl ⟨by rw [hs, List.append_nil], rfl, rfl⟩)
    | cons z s =>
      obtain ⟨rfl, rfl⟩ := List.cons.inj hr
      exact .inr (.inr ⟨s, rfl, hs⟩)
  · cases s with
    | nil =>
      obtain ⟨rfl, rfl⟩ := List.cons.inj hr
      exact .inr (.inl ⟨by rw [hs, List.append_nil], rfl, rfl⟩)
    | cons z s =>
      obtain ⟨rfl, rfl⟩ := List.cons.inj hr
      exact .inl ⟨s, hs, rfl⟩

theorem exists_split_at {blk : Blk κ α} {i : ℕ} (hi : i < blk.n) :
    ∃ l₁ e l₂, blk.nodes = l₁ ++ e :: l₂ ∧ l₁.length = i := by
  obtain ⟨addr, nodes⟩ := blk
  have hi : i < nodes.length := hi
  exact ⟨nodes.take i, nodes[i], nodes.drop (i + 1), by simp, List.length_take_of_le hi.le⟩

theorem n_removeNode {blk : Blk κ α} {i : ℕ} (hi : i < blk.n) :
    (blk.removeNode i).n + 1 = blk.n := by
  obtain ⟨l₁, e, l₂, hb, rfl⟩ := exists_split_at hi
  rw [removeNode_eq hb, n_append, Blk.n, hb, List.length_append, List.length_cons, Nat.add_assoc]

theorem flatMap_eq_append_cons {β : Type} {f : α → List β} {l : List α} {p q : List β} {b : β}
    (hl : l.flatMap f = p ++ b :: q) :
    ∃ l₁ e l₂ p' q', l = l₁ ++ e :: l₂ ∧ f e = p' ++ b :: q' ∧ p = l₁.flatMap f ++ p' ∧
      q = q' ++ l₂.flatMap f := by
  induction l generalizing p with
  | nil => exact absurd hl.symm (by simp)
  | cons c l ih =>
    rw [List.flatMap_cons] at hl
    rcases List.append_eq_append_iff.1 hl with ⟨s, hs, hr⟩ | ⟨s, hs, hr⟩
    · obtain ⟨l₁, e, l₂, p', q', rfl, he, rfl, rfl⟩ := ih hr
      exact ⟨c :: l₁, e, l₂, p', q', rfl, he, by rw [hs, List.flatMap_cons, List.append_assoc], rfl⟩
    · cases s with
      | nil =>
        obtain ⟨l₁, e, l₂, p', q', rfl, he, hp, rfl⟩ := ih (p := []) hr.symm
        refine ⟨c :: l₁, e, l₂, p', q', rfl, he, ?_, rfl⟩
        rw [List.flatMap_cons, List.append_assoc, ← hp, hs, List.append_nil, List.append_nil]
      | cons x s =>
        obtain ⟨rfl, rfl⟩ := List.cons.inj hr
        exact ⟨[], c, l, p, s, rfl, hs, rfl, rfl⟩

theorem modifyLeaf_of_not_mem {addr : ℕ} (f : Blk κ ν → Blk κ ν) :
    ∀ {h : ℕ} {t : Tree κ ν h}, addr ∉ (leaves h t).map Blk.addr → modifyLeaf addr f h t = t
  | 0, t, hn => if_neg fun he => hn (List.mem_singleton.2 he.symm)
  | h + 1, ⟨a, nodes⟩, hn => by
    rw [modifyLeaf]
    congr 1
    refine (List.map_congr_left fun e he => ?_).trans (List.map_id nodes)
    refine Prod.ext rfl (modifyLeaf_of_not_mem f fun hm => hn ?_)
    obtain ⟨b, hb, rfl⟩ := List.mem_map.1 hm
    exact List.mem_map_of_mem (List.mem_flatMap.2 ⟨e, he, hb⟩)

/-- The nodes to the sides of the one with the leaf stay as they are. -/
theorem modifyLeaf_succ {t : Tree κ ν (h + 1)} {l₁ l₂ : List (κ × Node κ ν (h + 1))} {s : κ}
    {c : Tree κ ν h} {b : Blk κ ν} (f : Blk κ ν → Blk κ ν) (ht : t.nodes = l₁ ++ (s, c) :: l₂)
    (hb : b ∈ leaves h c) (hnd : ((leaves (h + 1) t).map Blk.addr).Nodup) :
    modifyLeaf b.addr f (h + 1) t = ⟨t.addr, l₁ ++ (s, modifyLeaf b.addr f h c) :: l₂⟩ := by
  rw [leaves_append_cons t ht, List.map_append, List.map_append, List.nodup_append,
    List.nodup_append] at hnd
  obtain ⟨-, ⟨-, -, h₂⟩, h₁⟩ := hnd
  have hbm : b.addr ∈ (leaves h c).map Blk.addr := List.mem_map_of_mem hb
  have hside : ∀ l : List (κ × Node κ ν (h + 1)), b.addr ∉ (leavesOf l).map Blk.addr →
      (l.map fun e => (e.1, modifyLeaf b.addr f h e.2)) = l := by
    intro l hl
    refine (List.map_congr_left fun e he => ?_).trans (List.map_id l)
    refine Prod.ext rfl (modifyLeaf_of_not_mem f fun hm => hl ?_)
    obtain ⟨d, hd, hda⟩ := List.mem_map.1 hm
    exact hda ▸ List.mem_map_of_mem (List.mem_flatMap.2 ⟨e, he, hd⟩)
  rw [modifyLeaf, ht, List.map_append, List.map_cons, hside l₁ fun hm => ?_, hside l₂ fun hm => ?_]
  · exact h₂ _ hbm _ hm rfl
  · exact h₁ _ hm _ (List.mem_append_left _ hbm) rfl

section Order

variable [LinearOrder ι] {ord : κ → ι} {lo : WithBot ι}

/-- What becomes of a block that loses a node of a leaf. -/
structure Erased (ord : κ → ι) (lo : WithBot ι) (t t' : Tree κ ν h) (l₁ : List (Blk κ ν))
    (b : Blk κ ν) (l₂ : List (Blk κ ν)) : Prop where
  nodes : Nodes ord h lo t'.nodes
  top_le : top ord lo t'.nodes ≤ top ord lo t.nodes
  addrs : treeAddrs t' = treeAddrs t
  leaves : leaves h t' = l₁ ++ b :: l₂
  size : t'.n = t.n ∨ h = 0 ∧ t'.n = b.n ∧ t.n = b.n + 1

theorem modifyLeaf_spec {i : ℕ} : ∀ {h : ℕ} {t : Tree κ ν h} {lo : WithBot ι}
    {l₁ l₂ : List (Blk κ ν)} {b : Blk κ ν}, Nodes ord h lo t.nodes → leaves h t = l₁ ++ b :: l₂ →
    ((leaves h t).map Blk.addr).Nodup → i < b.n → kslMinNblk < b.n ∨ h = 0 →
    Erased ord lo t (modifyLeaf b.addr (fun blk => blk.removeNode i) h t) l₁ (b.removeNode i) l₂
  | 0, t, lo, l₁, l₂, b, hok, hlv, _, hi, _ => by
    obtain ⟨rfl, rfl, rfl⟩ : l₁ = [] ∧ t = b ∧ l₂ = [] := by
      rcases append_cons_cases (p := []) (r := []) hlv with ⟨p', hp, -⟩ | ⟨hp, he, hq⟩ | ⟨r', hr, -⟩
      · exact absurd hp (by simp)
      · exact ⟨hp, he.symm, hq⟩
      · exact absurd hr (by simp)
    obtain ⟨m₁, e, m₂, hm, rfl⟩ := exists_split_at hi
    have hrn := n_removeNode hi
    rw [modifyLeaf, if_pos rfl]
    have hrem := removeNode_eq hm
    have hspan := hok
    rw [hm, Nodes, spans_append] at hspan
    refine ⟨?_, ?_, ?_, rfl, .inr ⟨rfl, rfl, hrn.symm⟩⟩
    · rw [hrem, Nodes, spans_append]
      exact ⟨hspan.1, Nodes.mono hspan.2.1.le hspan.2.2⟩
    · rw [hrem, hm, top_append, top_append]
      exact top_mono hspan.2.1.le
    · rw [hrem, treeAddrs, treeAddrs, hm, addrs_append, addrs_append]
      rfl
  | h + 1, t, lo, l₁, l₂, b, hok, hlv, hnd, hi, hmin => by
    have hmin : kslMinNblk < b.n := hmin.resolve_right (Nat.succ_ne_zero h)
    obtain ⟨m₁, ⟨s, c⟩, m₂, p, q, ht, hc, rfl, rfl⟩ := flatMap_eq_append_cons hlv
    have hc : leaves h c = p ++ b :: q := hc
    have hspan := hok
    rw [ht, Nodes, spans_append] at hspan
    have hndc : ((leaves h c).map Blk.addr).Nodup := by
      rw [leaves_append_cons t ht, List.map_append, List.map_append] at hnd
      exact (List.nodup_append.1 (List.nodup_append.1 hnd).2.1).1
    obtain ⟨hn, htop, haddr, hlvs, hsize⟩ := modifyLeaf_spec hspan.2.1.2.1 hc hndc hi (.inl hmin)
    rw [modifyLeaf_succ _ ht (by rw [hc]; simp) hnd]
    generalize modifyLeaf b.addr (fun blk => blk.removeNode i) h c = c'
      at hn htop haddr hlvs hsize ⊢
    have hc' : kslMinNblk ≤ c'.n ∧ c'.n ≤ kslMaxNblk := by
      have hcn := hspan.2.1.1
      have hrn := n_removeNode hi
      rcases hsize with hsize | ⟨-, hsize, hsize'⟩
      · rwa [hsize]
      · omega
    refine ⟨?_, ?_, ?_, ?_, .inl ?_⟩
    · rw [Nodes, spans_append]
      exact ⟨hspan.1, ⟨hc', hn, htop.trans hspan.2.1.2.2⟩, hspan.2.2⟩
    · rw [ht, top_append, top_append]
      exact le_refl _
    · rw [treeAddrs, treeAddrs, ht, addrs_append, addrs_append, addrs_cons, addrs_cons, haddr]
    · rw [leaves_append_cons _ rfl, hlvs]
      simp only [leavesOf, List.append_assoc, List.cons_append]
    · rw [Blk.n, Blk.n, ht]
      simp only [List.length_append, List.length_cons]

/-! ## A key of its own -/

/-- The keys of the blocks above the leaves. -/
def separators : (h : ℕ) → List (κ × Node κ ν h) → List κ
  | 0, _ => []
  | h + 1, l => l.flatMap fun e => e.1 :: separators h e.2.nodes

/-- In a sorted list, an element is at one place only. -/
theorem split_unique {l p q p' q' : List (κ × ν)} {e e' : κ × ν} (hs : Sorted ord l)
    (h : l = p ++ e :: q) (h' : l = p' ++ e' :: q') (he : ord e.1 = ord e'.1) :
    p = p' ∧ e = e' ∧ q = q' := by
  have hne : ∀ {a b c : List (κ × ν)} {x y : κ × ν}, l = a ++ x :: (b ++ y :: c) →
      ord x.1 ≠ ord y.1 := by
    intro a b c x y hl
    rw [hl, Sorted, List.pairwise_append, List.pairwise_cons] at hs
    exact (hs.2.1.1 y (by simp)).ne
  rcases append_cons_cases (h.symm.trans h') with ⟨r, hr, -⟩ | ⟨rfl, rfl, rfl⟩ | ⟨r, hr, -⟩
  · rw [hr, List.append_assoc, List.cons_append] at h
    exact absurd he.symm (hne h)
  · exact ⟨rfl, rfl, rfl⟩
  · rw [hr] at h
    exact absurd he (hne h)

/-- The lower end may be moved up to before the items. -/
theorem NodeOk.raise : ∀ {h : ℕ} {lo lo' : WithBot ι} {e : κ × Node κ ν h},
    NodeOk ord h lo e.1 e.2 → (∀ x ∈ nodeItems h e, lo' < ord x.1) → NodeOk ord h lo' e.1 e.2
  | 0, _, _, e, _, hx => hx e (List.mem_singleton_self e)
  | h + 1, lo, lo', e, ⟨hn, hspan, htop⟩, hx => by
    obtain ⟨c, l, hl⟩ := List.exists_cons_of_ne_nil (Blk.ne_nil hn.1)
    refine ⟨hn, ?_, ?_⟩
    · rw [hl] at hspan ⊢
      refine ⟨NodeOk.raise hspan.1 fun x hxc => hx x ?_, hspan.2⟩
      rw [nodeItems, hl, List.flatMap_cons]
      exact List.mem_append_left _ hxc
    · rwa [top_of_ne_nil (Blk.ne_nil hn.1) lo' lo]

theorem Nodes.raise {lo' : WithBot ι} {l : List (κ × Node κ ν h)} (hl : Nodes ord h lo l)
    (hx : ∀ x ∈ items h l, lo' < ord x.1) : Nodes ord h lo' l := by
  cases l with
  | nil => trivial
  | cons c l => exact ⟨hl.1.raise fun x hxc => hx x (List.mem_append_left _ hxc), hl.2⟩

/-- The addresses of leaves and the numbers of their nodes. -/
def shape (lvs : List (Blk κ ν)) : List (ℕ × ℕ) := lvs.map fun b => (b.addr, b.n)

variable {compar : κ → κ → Bool} {oldKey newKey : κ}

/-- What becomes of a block where a key is changed: its last key changes with it. -/
structure Updated (ord : κ → ι) (lo : WithBot ι) (oldKey newKey : κ) (t t' : Tree κ ν h)
    (p : List (κ × ν)) (v : ν) (q : List (κ × ν)) : Prop where
  nodes : Nodes ord h lo t'.nodes
  size : t'.n = t.n
  top_eq : top ord lo t'.nodes = if top ord lo t.nodes = ord oldKey ∨
    top ord lo t.nodes < ord newKey then (ord newKey : WithBot ι) else top ord lo t.nodes
  addrs : treeAddrs t' = treeAddrs t
  shape : shape (leaves h t') = shape (leaves h t)
  items : items h t'.nodes = p ++ (newKey, v) :: q

theorem keyEqual_iff (hc : Compares ord compar) {a b : κ} :
    keyEqual compar a b = true ↔ ord a = ord b := by
  rw [keyEqual, Bool.and_eq_true, Bool.not_eq_true', Bool.not_eq_true', hc.eq_false, hc.eq_false]
  exact ⟨fun h => le_antisymm h.2 h.1, fun h => ⟨h.ge, h.le⟩⟩

/-- The last key is neither the old one nor before the new one if there are items behind. -/
theorem top_behind {l : List (κ × Node κ ν h)} {mid : WithBot ι} (hl : Nodes ord h mid l)
    (hne : l ≠ []) (hmid : (ord oldKey : WithBot ι) ≤ mid)
    (hx : ∀ x ∈ items h l, ord newKey < ord x.1) :
    ¬(top ord mid l = ord oldKey ∨ top ord mid l < ord newKey) := by
  rintro (he | hlt)
  · exact absurd (hl.lt_top hne) (by rw [he]; exact not_lt.2 hmid)
  · obtain ⟨c, l, rfl⟩ := List.exists_cons_of_ne_nil hne
    obtain ⟨x, r, hxr⟩ := List.exists_cons_of_ne_nil hl.1.items_ne_nil
    have hmem : x ∈ items h (c :: l) := by
      rw [items_cons, hxr]
      exact List.mem_cons_self
    have hle := (Nodes.bounds hl x hmem).2.trans_lt hlt
    exact absurd (WithBot.coe_lt_coe.1 hle) (not_lt.2 (hx x hmem).le)

/-- The key is changed in a leaf. -/
theorem updated_leaf {t : Tree κ ν 0} {p q : List (κ × ν)} {k : κ} {v : ν}
    (hok : Nodes ord 0 lo t.nodes) (ht : t.nodes = p ++ (k, v) :: q) (hk : ord k = ord oldKey)
    (hlo : lo < ord newKey) (hp : ∀ x ∈ p, ord x.1 < ord newKey)
    (hq : ∀ x ∈ q, ord newKey < ord x.1) :
    Updated ord lo oldKey newKey t ⟨t.addr, p ++ (newKey, v) :: q⟩ p v q := by
  rw [ht, Nodes, spans_append] at hok
  have hqn : Nodes ord 0 (ord newKey) q := Nodes.raise hok.2.2 fun x hx => by
    rw [items_zero] at hx
    exact WithBot.coe_lt_coe.2 (hq x hx)
  refine ⟨?_, ?_, ?_, ?_, ?_, items_zero _⟩
  · rw [Nodes, spans_append]
    exact ⟨hok.1, top_lt hlo hp, hqn⟩
  · simp only [Blk.n, ht, List.length_append, List.length_cons]
  · rw [ht, top_append, top_append, top, top]
    by_cases hne : q = []
    · rw [hne, top, top, if_pos (.inl (by rw [hk]))]
    · rw [if_neg (top_behind hok.2.2 hne (by rw [hk]) (by rwa [items_zero])), top_of_ne_nil hne]
  · rw [treeAddrs, treeAddrs]
    congr 1
    funext j
    rw [addrs_of_le _ (Nat.zero_le j), addrs_of_le _ (Nat.zero_le j)]
  · simp only [shape, leaves, Blk.n, ht, List.map_cons, List.map_nil, List.length_append,
      List.length_cons]

/-- The key a block has for the node the update goes on to. -/
theorem exists_newSep (hc : Compares ord compar) {t : Tree κ ν (h + 1)}
    {l₁ l₂ : List (κ × Node κ ν (h + 1))} {s : κ} {c : Tree κ ν h}
    (ht : t.nodes = l₁ ++ (s, c) :: l₂) (newKey oldKey : κ) :
    ∃ s', (∀ c' : Tree κ ν h, (if (keyEqual compar s oldKey || compar s newKey) = true then
        t.setNthKey l₁.length newKey else t).setNode l₁.length c' =
          ⟨t.addr, l₁ ++ (s', c') :: l₂⟩) ∧
      ((ord s = ord oldKey ∨ ord s < ord newKey) ∧ s' = newKey ∨
        ¬(ord s = ord oldKey ∨ ord s < ord newKey) ∧ s' = s) := by
  have hiff : (keyEqual compar s oldKey || compar s newKey) = true ↔
      ord s = ord oldKey ∨ ord s < ord newKey := by
    rw [Bool.or_eq_true, keyEqual_iff hc, hc]
  by_cases hb : (keyEqual compar s oldKey || compar s newKey) = true
  · refine ⟨newKey, fun c' => ?_, .inl ⟨hiff.1 hb, rfl⟩⟩
    rw [if_pos hb, setNthKey_eq ht, setNode_eq rfl]
  · refine ⟨s, fun c' => ?_, .inr ⟨fun h => hb (hiff.2 h), rfl⟩⟩
    rw [if_neg hb, setNode_eq ht]

theorem updateKeyLoop_spec (hc : Compares ord compar) : ∀ {h : ℕ} {t : Tree κ ν h}
    {lo : WithBot ι} {p q : List (κ × ν)} {k : κ} {v : ν}, Nodes ord h lo t.nodes →
    items h t.nodes = p ++ (k, v) :: q → ord k = ord oldKey → lo < ord newKey →
    (∀ x ∈ p, ord x.1 < ord newKey) → (∀ x ∈ q, ord newKey < ord x.1) →
    (∀ s ∈ separators h t.nodes, ¬(ord newKey ≤ ord s ∧ ord s < ord oldKey)) →
    ∃ t', updateKeyLoop compar oldKey newKey h t = some t' ∧
      Updated ord lo oldKey newKey t t' p v q
  | 0, t, lo, p, q, k, v, hok, hitems, hk, hlo, hp, hq, _ => by
    have hsorted := Nodes.sorted hok
    rw [items_zero] at hitems hsorted
    obtain ⟨l₁, l₂, ht, hi, h₁, h₂⟩ := exists_search hc t oldKey
    -- the key found is the old one
    obtain ⟨rfl, rfl⟩ : l₁ = p ∧ l₂ = (k, v) :: q := by
      have hmem : (k, v) ∈ l₁ ++ l₂ := by rw [← ht, hitems]; simp
      rcases List.mem_append.1 hmem with hm | hm
      · exact absurd hk (h₁ _ hm).ne
      cases l₂ with
      | nil => cases hm
      | cons e l₂ =>
        have hek : ord e.1 = ord k := by
          refine le_antisymm ?_ (hk ▸ h₂ e rfl)
          rcases List.mem_cons.1 hm with rfl | hm
          · exact le_refl _
          · have hs := hsorted
            rw [ht, Sorted, List.pairwise_append, List.pairwise_cons] at hs
            exact (hs.2.1.1 _ hm).le
        obtain ⟨rfl, rfl, rfl⟩ := split_unique hsorted ht hitems hek
        exact ⟨rfl, rfl⟩
    refine ⟨⟨t.addr, l₁ ++ (newKey, v) :: q⟩, ?_, updated_leaf hok ht hk hlo hp hq⟩
    rw [updateKeyLoop, hi, setNthKey_eq ht, ht, getElem?_append_cons, Option.bind_eq_bind,
      Option.bind_some]
    exact if_pos ((keyEqual_iff hc).2 hk)
  | h + 1, t, lo, p, q, k, v, hok, hitems, hk, hlo, hp, hq, hsep => by
    have hsorted := Nodes.sorted hok
    obtain ⟨l₁, l₂, ht, hi, h₁, h₂⟩ := exists_search hc t oldKey
    have hspan := hok
    rw [ht, Nodes, spans_append] at hspan
    have hmem : (k, v) ∈ items (h + 1) l₁ ++ items (h + 1) l₂ := by
      rw [← items_append, ← ht, hitems]
      simp
    have hmem₂ : (k, v) ∈ items (h + 1) l₂ := (List.mem_append.1 hmem).resolve_left fun hm =>
      absurd hk (items_lt hspan.1 h₁ _ hm).ne
    cases l₂ with
    | nil => cases hmem₂
    | cons e l₂ =>
      obtain ⟨s, c⟩ := e
      have hs : ord oldKey ≤ ord s := h₂ _ rfl
      -- the old key is under the node found
      have hmemc : (k, v) ∈ items h c.nodes := by
        rw [items_cons, List.mem_append] at hmem₂
        refine hmem₂.resolve_right fun hm => ?_
        have := WithBot.coe_lt_coe.1 (Nodes.bounds hspan.2.2 _ hm).1
        exact absurd (hk ▸ this) (not_lt.2 hs)
      obtain ⟨p', q', hc'⟩ := List.append_of_mem hmemc
      have hitems' : items (h + 1) t.nodes =
          (items (h + 1) l₁ ++ p') ++ (k, v) :: (q' ++ items (h + 1) l₂) := by
        rw [ht, items_append, items_cons, nodeItems_succ, hc']
        simp
      obtain ⟨rfl, -, rfl⟩ := split_unique hsorted hitems hitems' rfl
      have hlo' : top ord lo l₁ < ord newKey := top_lt hlo fun e he => by
        refine lt_of_not_ge fun hge => hsep e.1 ?_ ⟨hge, h₁ e he⟩
        rw [separators, ht, List.flatMap_append]
        exact List.mem_append_left _ (List.mem_flatMap.2 ⟨e, he, List.mem_cons_self⟩)
      obtain ⟨c', hrun, hu⟩ := updateKeyLoop_spec hc hspan.2.1.2.1 hc' hk hlo'
        (fun x hx => hp x (List.mem_append_right _ hx))
        (fun x hx => hq x (List.mem_append_left _ hx)) fun r hr => hsep r (by
          rw [separators, ht, List.flatMap_append, List.flatMap_cons]
          simp [hr])
      obtain ⟨s', hset, hs'⟩ := exists_newSep hc ht newKey oldKey
      have hle : (ord oldKey : WithBot ι) ≤ top ord (top ord lo l₁) c.nodes := by
        rw [← hk]
        exact (Nodes.bounds hspan.2.1.2.1 _ hmemc).2
      have hlast := hspan.2.1.2.2
      have htop' : top ord (top ord lo l₁) c'.nodes ≤ ord s' := by
        rw [hu.top_eq]
        generalize top ord (top ord lo l₁) c.nodes = last at hle hlast ⊢
        rcases hs' with ⟨hcond, rfl⟩ | ⟨hcond, rfl⟩
        · refine (if_pos ?_).le
          rcases hcond with hcond | hcond
          · exact .inl (le_antisymm (hlast.trans (by rw [hcond])) hle)
          · exact .inr (hlast.trans_lt (WithBot.coe_lt_coe.2 hcond))
        · rw [not_or, not_lt] at hcond
          split
          · exact WithBot.coe_le_coe.2 hcond.2
          · exact hlast
      have hnext : Nodes ord (h + 1) (ord s') l₂ := by
        rcases hs' with ⟨-, rfl⟩ | ⟨-, rfl⟩
        · exact Nodes.raise hspan.2.2 fun x hx =>
            WithBot.coe_lt_coe.2 (hq x (List.mem_append_right _ hx))
        · exact hspan.2.2
      refine ⟨⟨t.addr, l₁ ++ (s', c') :: l₂⟩, ?_, ?_, ?_, ?_, ?_, ?_, ?_⟩
      · rw [updateKeyLoop, hi, ht, getElem?_append_cons]
        simp only [Option.bind_eq_bind, Option.bind_some, hrun]
        rw [hset c']
      · rw [Nodes, spans_append]
        exact ⟨hspan.1, ⟨by rw [hu.size]; exact hspan.2.1.1, hu.nodes, htop'⟩, hnext⟩
      · simp only [Blk.n, ht, List.length_append, List.length_cons]
      · rw [ht, top_append, top_append, top, top]
        by_cases hne : l₂ = []
        · rw [hne, top, top]
          simp only [WithBot.coe_lt_coe, WithBot.coe_inj]
          rcases hs' with ⟨hcond, rfl⟩ | ⟨hcond, rfl⟩
          · rw [if_pos hcond]
          · rw [if_neg hcond]
        · rw [if_neg (top_behind hspan.2.2 hne (WithBot.coe_le_coe.2 hs) fun x hx =>
            hq x (List.mem_append_right _ hx)), top_of_ne_nil hne]
      · rw [treeAddrs, treeAddrs, ht, addrs_append, addrs_append, addrs_cons, addrs_cons, hu.addrs]
      · rw [leaves_append_cons _ rfl, leaves_append_cons t ht]
        have hshape := hu.shape
        rw [shape, shape] at hshape ⊢
        simp only [List.map_append, hshape]
      · rw [items_append, items_cons, nodeItems_succ, hu.items]
        simp

end Order

end Ksl

end Dwnx
