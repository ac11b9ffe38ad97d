import Dwnx.Ksl.Remove

/-!
# Iterators

An iterator is a leaf and an index, but what it stands for is a position in the items of the
list, from `0` to their number (`At`). The functions on iterators, and the search for a key,
are described by positions.
-/

namespace Dwnx

namespace Ksl

variable {κ ν α ι : Type} {h : ℕ} {links : Links}

/-! ## The leaves of a list -/

/-- The leaves of a root: they are linked, and only one that is alone may be empty. -/
structure LeavesOk (links : Links) (lvs : List (Blk κ ν)) : Prop where
  front : links.front = lvs.head?.map Blk.addr
  back : links.back = lvs.getLast?.map Blk.addr
  linked : ∀ l₁ b l₂, lvs = l₁ ++ b :: l₂ →
    links.next b.addr = l₂.head?.map Blk.addr ∧ links.prev b.addr = l₁.getLast?.map Blk.addr
  nodup : (lvs.map Blk.addr).Nodup
  full : ∀ b ∈ lvs, b.nodes ≠ [] ∨ lvs = [b]
  ne_nil : lvs ≠ []

section Order

variable [LinearOrder ι] {ord : κ → ι} {lo : WithBot ι}

theorem NodeOk.leaves_full : ∀ {h : ℕ} {lo : WithBot ι} {k : κ} {t : Tree κ ν h},
    NodeOk ord (h + 1) lo k t → ∀ b ∈ leaves h t, kslMinNblk ≤ b.n
  | 0, _, _, _, hok, b, hb => by
    obtain rfl := List.mem_singleton.1 hb
    exact hok.1.1
  | h + 1, _, _, _, hok, b, hb => by
    obtain ⟨e, he, hb⟩ := List.mem_flatMap.1 hb
    obtain ⟨lo', hc⟩ := spans_mem hok.2.1 he
    exact NodeOk.leaves_full hc b hb

theorem RootOk.leaves_full {t : Tree κ ν h} (hok : RootOk ord t) :
    (∀ b ∈ leaves h t, b.nodes ≠ [] ∨ leaves h t = [b]) ∧ leaves h t ≠ [] := by
  cases h with
  | zero =>
    refine ⟨fun b hb => .inr ?_, List.cons_ne_nil _ _⟩
    rw [List.mem_singleton.1 hb]
    rfl
  | succ h =>
    have htwo := hok.two_le.resolve_right (Nat.succ_ne_zero h)
    have hne : t.nodes ≠ [] := List.ne_nil_of_length_pos (Nat.lt_of_lt_of_le Nat.two_pos htwo)
    refine ⟨fun b hb => .inl ?_, fun hnil => ?_⟩
    · obtain ⟨e, he, hb⟩ := List.mem_flatMap.1 hb
      obtain ⟨lo', hc⟩ := spans_mem hok.nodes he
      exact Blk.ne_nil (NodeOk.leaves_full hc b hb)
    · obtain ⟨e, l, hl⟩ := List.exists_cons_of_ne_nil hne
      have hspan := hok.nodes
      have hitems := leaves_nodes t
      rw [hl] at hspan hitems
      rw [hnil, items_cons] at hitems
      exact hspan.1.items_ne_nil (List.append_eq_nil_iff.1 hitems.symm).1

theorem leavesOk {t : Tree κ ν h} (hok : RootOk ord t) (hl : Linked links (treeAddrs t)) :
    LeavesOk links (leaves h t) where
  front := by rw [hl.front, ← leaves_addrs, List.head?_map]
  back := by rw [hl.back, ← leaves_addrs, List.getLast?_map]
  linked l₁ b l₂ he := by
    have haddr := leaves_addrs t
    rw [he, List.map_append, List.map_cons] at haddr
    obtain ⟨-, hn, hp, -⟩ := hl.at haddr.symm
    rw [hn, hp, List.head?_map, List.getLast?_map]
    exact ⟨rfl, rfl⟩
  nodup := by
    rw [leaves_addrs]
    exact hl.nodup 0
  full := hok.leaves_full.1
  ne_nil := hok.leaves_full.2

end Order

/-! ## Positions in the leaves -/

variable {lvs : List (Blk κ ν)} {it : It} {p : ℕ}

theorem LeavesOk.pos (hl : LeavesOk links lvs) {l₁ l₂ : List (Blk κ ν)} {b : Blk κ ν}
    (hlvs : lvs = l₁ ++ b :: l₂) (hne : l₁ ≠ [] ∨ l₂ ≠ []) : 0 < b.n := by
  rcases hl.full b (by rw [hlvs]; simp) with hb | hb
  · exact List.length_pos_of_ne_nil hb
  · rw [hlvs] at hb
    have hlen := congrArg List.length hb
    rw [List.length_append, List.length_cons, List.length_singleton] at hlen
    have h₁ : l₁ = [] := List.eq_nil_of_length_eq_zero (by omega)
    have h₂ : l₂ = [] := List.eq_nil_of_length_eq_zero (by omega)
    exact absurd hne (by simp [h₁, h₂])

/-- The leaf and the index of a position. Only at the end of the list is the index behind the
    last node of the leaf. -/
structure Place (lvs l₁ : List (Blk κ ν)) (b : Blk κ ν) (l₂ : List (Blk κ ν)) (it : It)
    (p : ℕ) : Prop where
  leaves : lvs = l₁ ++ b :: l₂
  blk : it.blk = some b.addr
  pos : p = (l₁.flatMap Blk.nodes).length + it.i
  index : it.i < b.n ∨ it.i = b.n ∧ l₂ = []

theorem Place.denotes (hl : LeavesOk links lvs) {l₁ l₂ : List (Blk κ ν)} {b : Blk κ ν}
    (h : Place lvs l₁ b l₂ it p) : Denotes links lvs it p := by
  obtain ⟨addr, i⟩ := it
  obtain ⟨hlvs, hblk, hpos, hi⟩ := h
  obtain rfl : addr = some b.addr := hblk
  refine ⟨l₁, b, l₂, i, hlvs, ?_, hpos, ?_⟩
  · exact hi.elim Nat.le_of_lt fun h => h.1.le
  · rcases hi with hi | ⟨hi, rfl⟩
    · rw [it_of_lt hi]
    · rw [Links.it, (hl.linked l₁ b [] hlvs).1]
      rfl

theorem Denotes.place (hl : LeavesOk links lvs) (h : Denotes links lvs it p) :
    ∃ l₁ b l₂, Place lvs l₁ b l₂ it p := by
  obtain ⟨l₁, b, l₂, i, hlvs, hi, hp, rfl⟩ := h
  rcases Nat.lt_or_ge i b.n with hlt | hge
  · rw [it_of_lt hlt]
    exact ⟨l₁, b, l₂, hlvs, rfl, hp, .inl hlt⟩
  obtain rfl := Nat.le_antisymm hi hge
  have hnext := (hl.linked l₁ b l₂ hlvs).1
  cases l₂ with
  | nil =>
    refine ⟨l₁, b, [], hlvs, ?_, ?_, .inr ⟨?_, rfl⟩⟩ <;> rw [Links.it, hnext] <;> first
      | rfl
      | exact hp
  | cons c l₂ =>
    have hlvs' : lvs = (l₁ ++ [b]) ++ c :: l₂ := by rw [hlvs, List.append_assoc]; rfl
    have hc : 0 < c.n := hl.pos hlvs' (.inl (by simp))
    have hit : links.it b b.n = ⟨some c.addr, 0⟩ := by
      rw [Links.it, hnext]
      exact if_pos rfl
    rw [hit]
    refine ⟨l₁ ++ [b], c, l₂, hlvs', rfl, ?_, .inl hc⟩
    rw [List.flatMap_append, List.length_append, List.flatMap_singleton]
    exact hp

/-! ## Lists that hold items -/

variable [LinearOrder ι] {ord : κ → ι}

/-- The list holds the items, in order. -/
inductive Holds (ord : κ → ι) : Ksl κ ν → List (κ × ν) → Prop
  | null {links : Links} (hl : Linked links fun _ => []) : Holds ord ⟨none, links, 0⟩ []
  | root {links : Links} {h : ℕ} {t : Tree κ ν h} {l : List (κ × ν)} (hok : RootOk ord t)
    (hl : Linked links (treeAddrs t)) (hitems : items h t.nodes = l) :
    Holds ord ⟨some ⟨h, t⟩, links, l.length⟩ l

/-- The iterator is at position `p`. -/
def At (ksl : Ksl κ ν) (it : It) (p : ℕ) : Prop :=
  match ksl.root with
  | none => it = ⟨none, 0⟩ ∧ p = 0
  | some ⟨h, t⟩ => Denotes ksl.links (leaves h t) it p

variable {ksl : Ksl κ ν} {l : List (κ × ν)}

theorem Holds.len (h : Holds ord ksl l) : ksl.len = l.length := by
  cases h <;> rfl

theorem Holds.sorted (h : Holds ord ksl l) : Sorted ord l := by
  cases h with
  | null => exact List.Pairwise.nil
  | root hok hl hitems => exact hitems ▸ hok.nodes.sorted

/-- The block of an iterator is found by its address. -/
theorem leafAt_eq {links : Links} {h : ℕ} {t : Tree κ ν h} {n : ℕ} {l₁ l₂ : List (Blk κ ν)}
    {b : Blk κ ν} (hl : LeavesOk links (leaves h t)) (ht : leaves h t = l₁ ++ b :: l₂) :
    leafAt ⟨some ⟨h, t⟩, links, n⟩ b.addr = some b := by
  have hnd := hl.nodup
  rw [ht, List.map_append, List.map_cons, List.nodup_append] at hnd
  have hnot : l₁.find? (fun blk => blk.addr = b.addr) = none := by
    refine List.find?_eq_none.2 fun c hc => ?_
    have := hnd.2.2 c.addr (List.mem_map_of_mem hc) b.addr List.mem_cons_self
    simpa using this
  simp only [leafAt, Option.bind_eq_bind, Option.bind_some]
  rw [ht, List.find?_append, hnot, List.find?_cons_of_pos (by simp)]
  rfl

theorem itNodes_eq {links : Links} {h : ℕ} {t : Tree κ ν h} {n : ℕ} {l₁ l₂ : List (Blk κ ν)}
    {b : Blk κ ν} (hl : LeavesOk links (leaves h t)) (ht : leaves h t = l₁ ++ b :: l₂)
    (hit : it.blk = some b.addr) :
    itNodes ⟨some ⟨h, t⟩, links, n⟩ it = some b.nodes := by
  rw [itNodes, hit]
  dsimp only
  rw [leafAt_eq hl ht]
  rfl

/-- The items of the leaves around a place. -/
theorem Place.items {h : ℕ} {t : Tree κ ν h} {l₁ l₂ : List (Blk κ ν)} {b : Blk κ ν}
    (hp : Place (Ksl.leaves h t) l₁ b l₂ it p) :
    Ksl.items h t.nodes = l₁.flatMap Blk.nodes ++ (b.nodes ++ l₂.flatMap Blk.nodes) := by
  rw [← leaves_nodes, hp.leaves, List.flatMap_append, List.flatMap_cons]

/-- `dwnx_ksl_it_key` and `dwnx_ksl_it_get` -/
theorem Holds.itGet (h : Holds ord ksl l) (hit : At ksl it p) : ksl.itGet it = l[p]? := by
  cases h with
  | null hl =>
    obtain ⟨rfl, rfl⟩ := hit
    rfl
  | @root links h t l hok hl hitems =>
    have hlv := leavesOk hok hl
    obtain ⟨l₁, b, l₂, hp⟩ := Denotes.place hlv hit
    rw [Ksl.itGet, itNodes_eq hlv hp.leaves hp.blk, Option.bind_eq_bind, Option.bind_some, ← hitems,
      hp.items, hp.pos, List.getElem?_append_right (Nat.le_add_right _ _), Nat.add_sub_cancel_left]
    rcases hp.index with hi | ⟨hi, rfl⟩
    · rw [List.getElem?_append_left hi]
    · rw [List.flatMap_nil, List.append_nil]

/-- `dwnx_ksl_it_end` -/
theorem Holds.itEnd (h : Holds ord ksl l) (hit : At ksl it p) :
    ksl.itEnd it = some (decide (p = l.length)) := by
  cases h with
  | null hl =>
    obtain ⟨rfl, rfl⟩ := hit
    rfl
  | @root links h t l hok hl hitems =>
    have hlv := leavesOk hok hl
    obtain ⟨l₁, b, l₂, hp⟩ := Denotes.place hlv hit
    rw [Ksl.itEnd, itNodes_eq hlv hp.leaves hp.blk, Option.bind_eq_bind, Option.bind_some, ← hitems,
      hp.items, hp.pos, hp.blk, Option.bind_some, (hlv.linked l₁ b l₂ hp.leaves).1]
    congr 2
    rw [List.length_append, List.length_append, Nat.add_left_cancel_iff, eq_iff_iff]
    have hb : b.nodes.length = b.n := rfl
    rcases hp.index with hi | ⟨hi, rfl⟩
    · constructor
      · rintro ⟨he, -⟩
        omega
      · intro he
        omega
    · simp [hb, hi]

/-- `dwnx_ksl_it_next` -/
theorem Holds.itNext (h : Holds ord ksl l) (hit : At ksl it p) (hlt : p < l.length) :
    ∃ it', ksl.itNext it = some it' ∧ At ksl it' (p + 1) := by
  cases h with
  | null hl => exact absurd hlt (Nat.not_lt_zero _)
  | @root links h t l hok hl hitems =>
    have hlv := leavesOk hok hl
    obtain ⟨l₁, b, l₂, hp⟩ := Denotes.place hlv hit
    have hi : it.i < b.n := by
      rcases hp.index with hi | ⟨hi, rfl⟩
      · exact hi
      · rw [← hitems, hp.items, hp.pos, hi, List.flatMap_nil, List.append_nil,
          List.length_append] at hlt
        exact absurd hlt (Nat.lt_irrefl _)
    refine ⟨links.it b (it.i + 1), ?_, l₁, b, l₂, it.i + 1, hp.leaves, hi, ?_, rfl⟩
    · rw [Ksl.itNext, itNodes_eq hlv hp.leaves hp.blk, Option.bind_eq_bind, Option.bind_some,
        hp.blk, Option.bind_some, Links.it]
      cases links.next b.addr with
      | none => rfl
      | some a =>
        rfl
    · rw [hp.pos, Nat.add_assoc]

/-- `dwnx_ksl_it_begin` -/
theorem Holds.itBegin (h : Holds ord ksl l) (hit : At ksl it p) :
    ksl.itBegin it = decide (p = 0) := by
  cases h with
  | null hl =>
    obtain ⟨rfl, rfl⟩ := hit
    rfl
  | @root links h t l hok hl hitems =>
    have hlv := leavesOk hok hl
    obtain ⟨l₁, b, l₂, hp⟩ := Denotes.place hlv hit
    rw [Ksl.itBegin, hp.pos, hp.blk, Option.bind_some, (hlv.linked l₁ b l₂ hp.leaves).2,
      decide_eq_decide]
    rcases List.eq_nil_or_concat' l₁ with rfl | ⟨l₁, c, rfl⟩
    · simp
    · have hc : 0 < c.n := hlv.pos (by rw [hp.leaves, List.append_assoc]; rfl) (.inr (by simp))
      rw [Blk.n] at hc
      simp [Nat.ne_of_gt hc]

/-- `dwnx_ksl_it_prev` -/
theorem Holds.itPrev (h : Holds ord ksl l) (hit : At ksl it (p + 1)) :
    ∃ it', ksl.itPrev it = some it' ∧ At ksl it' p := by
  have hbegin := h.itBegin hit
  cases h with
  | null hl => exact absurd hit.2 (Nat.succ_ne_zero _)
  | @root links h t l hok hl hitems =>
    have hlv := leavesOk hok hl
    obtain ⟨l₁, b, l₂, hp⟩ := Denotes.place hlv hit
    have hpos := hp.pos
    rw [Ksl.itPrev, hbegin, if_neg (by simp)]
    by_cases hi : it.i = 0
    · rcases List.eq_nil_or_concat' l₁ with rfl | ⟨l₁, c, rfl⟩
      · rw [hi] at hpos
        exact absurd hpos (Nat.succ_ne_zero _)
      have hlvs : leaves h t = l₁ ++ c :: b :: l₂ := by rw [hp.leaves, List.append_assoc]; rfl
      have hc : 0 < c.n := hlv.pos hlvs (.inr (by simp))
      have hblk : it.blk.bind links.prev = some c.addr := by
        rw [hp.blk, Option.bind_some, (hlv.linked _ b l₂ hp.leaves).2, List.getLast?_concat]
        rfl
      have hnodes : itNodes ⟨some ⟨h, t⟩, links, l.length⟩ ⟨some c.addr, it.i⟩ = some c.nodes :=
        itNodes_eq hlv hlvs rfl
      rw [if_pos hi, hblk]
      dsimp only
      rw [hnodes]
      refine ⟨⟨some c.addr, c.n - 1⟩, rfl, Place.denotes hlv (b := c) ⟨hlvs, rfl, ?_, .inl ?_⟩⟩
      · rw [hi, List.flatMap_append, List.length_append, List.flatMap_singleton] at hpos
        change p + 1 = _ + c.n + 0 at hpos
        dsimp only
        omega
      · dsimp only
        omega
    · rw [if_neg hi]
      refine ⟨⟨it.blk, it.i - 1⟩, rfl, Place.denotes hlv (b := b) ⟨hp.leaves, hp.blk, ?_, .inl ?_⟩⟩
      · dsimp only
        omega
      · have := hp.index
        dsimp only
        omega

/-- `dwnx_ksl_begin` -/
theorem Holds.begin (h : Holds ord ksl l) : At ksl ksl.begin 0 := by
  cases h with
  | null hl => exact ⟨rfl, rfl⟩
  | @root links h t l hok hl hitems =>
    have hlv := leavesOk hok hl
    obtain ⟨b, l₂, hlvs⟩ := List.exists_cons_of_ne_nil hlv.ne_nil
    have hfront := hlv.front
    rw [hlvs] at hfront
    refine Place.denotes hlv (show Place (leaves h t) [] b l₂ _ 0 from ⟨hlvs, hfront, rfl, ?_⟩)
    rcases Nat.eq_zero_or_pos b.n with hb | hb
    · refine .inr ⟨hb.symm, ?_⟩
      by_contra hne
      have := hlv.pos (show leaves h t = [] ++ b :: l₂ from hlvs) (.inr hne)
      omega
    · exact .inl hb

/-- `dwnx_ksl_end` -/
theorem Holds.end (h : Holds ord ksl l) :
    ∃ it, ksl.end' = some it ∧ At ksl it l.length := by
  cases h with
  | null hl => exact ⟨_, rfl, rfl, rfl⟩
  | @root links h t l hok hl hitems =>
    have hlv := leavesOk hok hl
    obtain ⟨l₁, b, hlvs⟩ := (List.eq_nil_or_concat' _).resolve_left hlv.ne_nil
    have hback := hlv.back
    rw [hlvs, List.getLast?_concat] at hback
    have hlen : l.length = (l₁.flatMap Blk.nodes).length + b.n := by
      rw [← hitems, ← leaves_nodes, hlvs, List.flatMap_append, List.length_append,
        List.flatMap_singleton]
      rfl
    have hplace : Place (leaves h t) l₁ b [] ⟨some b.addr, b.n⟩ l.length :=
      ⟨hlvs, rfl, hlen, .inr ⟨rfl, rfl⟩⟩
    refine ⟨⟨some b.addr, b.n⟩, ?_, hplace.denotes hlv⟩
    rw [Ksl.end']
    dsimp only
    rw [hback]
    simp only [Option.map_some, Option.bind_eq_bind, Option.bind_some]
    rw [leafAt_eq hlv hlvs]
    rfl

end Ksl

end Dwnx
