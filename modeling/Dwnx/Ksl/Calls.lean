import Dwnx.Ksl.Change

/-!
# The functions of the list

What the functions do to a list that holds given items, by positions: one theorem for each.
-/

namespace Dwnx

namespace Ksl

variable {κ ν ι : Type} {h : ℕ} {links : Links}

variable [LinearOrder ι] {ord : κ → ι} {compar : κ → κ → Bool} {ksl : Ksl κ ν}
  {l : List (κ × ν)}

theorem holds_init : Holds ord (init : Ksl κ ν) [] :=
  .null ⟨fun _ => trivial, fun _ _ hx => absurd hx List.not_mem_nil, fun _ => List.nodup_nil,
    fun _ _ _ _ hx => absurd hx List.not_mem_nil, rfl, rfl⟩

/-! ## Insertion -/

/-- The first root. -/
theorem rootInit_spec (links : Links) (n : ℕ) :
    let r := rootInit (⟨none, links, n⟩ : Ksl κ ν)
    RootOk ord r.1 ∧ Linked r.2 (treeAddrs r.1) ∧ r.1.nodes = [] := by
  refine ⟨⟨trivial, Nat.zero_le _, .inr rfl⟩, ?_, rfl⟩
  have haddrs : treeAddrs (rootInit (⟨none, links, n⟩ : Ksl κ ν)).1 = self 0 links.fresh := by
    rw [treeAddrs]
    exact side_nil _
  have hself : ∀ k x, x ∈ self 0 links.fresh k → k = 0 ∧ x = links.fresh := by
    intro k x hx
    rw [self] at hx
    split at hx
    · next hk => exact ⟨hk, List.mem_singleton.1 hx⟩
    · cases hx
  rw [haddrs]
  refine ⟨fun k => ?_, fun k x hx => ?_, fun k => ?_, fun j k hjk x hj hk => ?_, rfl, rfl⟩
  · rw [self]
    split
    · simp [Along, rootInit, Links.alloc]
    · trivial
  · rw [(hself k x hx).2]
    exact Nat.lt_succ_self _
  · rw [self]
    split
    · exact List.nodup_singleton _
    · exact List.nodup_nil
  · exact hjk ((hself j x hj).1.trans (hself k x hk).1.symm)

/-- A full root is split under a new one. -/
theorem splitRoot_spec {t : Tree κ ν h} (hok : RootOk ord t) (hn : t.n = kslMaxNblk)
    (hl : Linked links (treeAddrs t)) :
    ∃ (t' : Tree κ ν (h + 1)) (links' : Links), splitRoot t links = some (t', links') ∧
      RootOk ord t' ∧ t'.n < kslMaxNblk ∧ Linked links' (treeAddrs t') ∧
      items (h + 1) t'.nodes = items h t.nodes := by
  obtain ⟨k, hk, htop⟩ := exists_lastKey ord (show t.n ≠ 0 by rw [hn]; decide)
  have hnode : NodeOk ord (h + 1) ⊥ k t := ⟨by rw [hn]; decide, hok.nodes, (htop ⊥).le⟩
  obtain ⟨k₁, c₁, c₂, links', hs, hk₁, hsplit⟩ := exists_split hnode hn links.alloc
  have hk₂ : c₂.lastKey = some k := by
    have hne : c₂.nodes ≠ [] := Blk.ne_nil hsplit.right.ge
    rw [Blk.lastKey, hsplit.nodes, List.getLast?_append_of_ne_nil _ hne] at hk
    exact hk
  -- the new root is linked to nothing
  have halloc := hl.alloc (Nat.succ_ne_zero h)
    (by rw [treeAddrs, side, self, if_neg (Nat.succ_ne_self h), addrs_of_le _ (Nat.le_succ h)]; rfl)
  have hroot : Function.update (treeAddrs t) (h + 1) [links.fresh] =
      side (self (h + 1) links.fresh) (treeAddrs t) := by
    funext j
    by_cases hj : j = h + 1
    · subst hj
      rw [Function.update_self, side, self, if_pos rfl, treeAddrs, side, self,
        if_neg (Nat.succ_ne_self h), addrs_of_le _ (Nat.le_succ h)]
      rfl
    · rw [Function.update_of_ne hj, side, self, if_neg hj, List.nil_append]
  rw [hroot] at halloc
  have hlinks := hsplit.relinks (self (h + 1) links.fresh) (fun _ => [])
    (by rwa [side_nil])
  rw [side_nil] at hlinks
  refine ⟨⟨links.fresh, [(k₁, c₁), (k, c₂)]⟩, links', ?_, ⟨⟨hsplit.ok₁, hsplit.ok₂, trivial⟩, ?_,
    .inl (le_refl 2)⟩, ?_, ?_, ?_⟩
  · rw [splitRoot, hs]
    simp only [Option.bind_eq_bind, Option.bind_some, hk₁, hk₂]
  · exact (show 2 ≤ kslMaxNblk by decide)
  · exact (show 2 < kslMaxNblk by decide)
  · rw [treeAddrs, addrs_cons, addrs_singleton]
    exact hlinks
  · rw [items_cons, items_cons, nodeItems_succ, nodeItems_succ, items_nil, List.append_nil,
      hsplit.nodes, items_append]

/-- What an insertion returns and leaves behind. -/
inductive InsertResult (ord : κ → ι) (l : List (κ × ν)) (key : κ) (data : ν) :
    Except Err Unit → It → Ksl κ ν → Prop
  /-- The key is present. -/
  | present {ksl' : Ksl κ ν} {it : It} {e : κ × ν} (he : e ∈ l) (hk : ord e.1 = ord key)
    (hh : Holds ord ksl' l) (hit : At ksl' it l.length) :
    InsertResult ord l key data (.error .invalidArgument) it ksl'
  /-- The item is put in its place. -/
  | absent {ksl' : Ksl κ ν} {it : It} {p q : List (κ × ν)} (hl : l = p ++ q)
    (hp : ∀ e ∈ p, ord e.1 < ord key) (hq : ∀ e ∈ q, ord key < ord e.1)
    (hh : Holds ord ksl' (p ++ (key, data) :: q)) (hit : At ksl' it p.length) :
    InsertResult ord l key data (.ok ()) it ksl'

/-- The insertion, with room for one more node in the root. -/
theorem insert_root (hc : Compares ord compar) {t : Tree κ ν h} (hok : RootOk ord t)
    (hn : t.n < kslMaxNblk) (hl : Linked links (treeAddrs t)) (key : κ) (data : ν) (n : ℕ)
    (hlen : n = (items h t.nodes).length) :
    ∃ r it ksl', (do
        let (it, root, links') ← insertLoop compar key data h t links
        match it with
        | some it => some (.ok (), it, ⟨some ⟨h, root⟩, links', n + 1⟩)
        | none =>
          let ksl : Ksl κ ν := ⟨some ⟨h, root⟩, links', n⟩
          some (.error .invalidArgument, ← ksl.end', ksl)) = some (r, it, ksl') ∧
      InsertResult ord (items h t.nodes) key data r it ksl' := by
  obtain ⟨it, t', links', hrun, hins⟩ := insertLoop_spec data hc t ⊥ links hok.nodes hn
    (hok.two_le.imp_left fun h => Nat.ne_of_gt (Nat.lt_of_lt_of_le Nat.two_pos h))
    (WithBot.bot_lt_coe (ord key))
  have hok' : RootOk ord t' :=
    ⟨hins.nodes, hins.size.2, hok.two_le.imp_left fun h => h.trans hins.size.1⟩
  have hl' := linked_of_relinks hl hins.relinks
  have hitems := hins.items
  rw [hrun]
  simp only [Option.bind_eq_bind, Option.bind_some]
  generalize hlv : leaves h t' = lvs at hitems
  generalize hi : items h t.nodes = l at hitems hlen
  generalize hi' : items h t'.nodes = l' at hitems
  cases hitems with
  | @present e he hk =>
    have hh : Holds ord ⟨some ⟨h, t'⟩, links', n⟩ l := hlen ▸ .root hok' hl' hi'
    obtain ⟨it, hend, hat⟩ := hh.end
    dsimp only
    rw [hend]
    exact ⟨_, it, _, rfl, .present he hk hh hat⟩
  | @absent p q it hpq hp hq hit =>
    have hlen' : n + 1 = (p ++ (key, data) :: q).length := by
      rw [hlen, hpq, List.length_append, List.length_append, List.length_cons, Nat.add_assoc]
    have hh : Holds ord ⟨some ⟨h, t'⟩, links', n + 1⟩ (p ++ (key, data) :: q) :=
      hlen' ▸ .root hok' hl' hi'
    refine ⟨_, it, _, rfl, .absent hpq hp hq hh ?_⟩
    rw [At]
    dsimp only
    rwa [hlv]

/-- `dwnx_ksl_insert` -/
theorem Holds.insert (hc : Compares ord compar) (hh : Holds ord ksl l) (key : κ) (data : ν) :
    ∃ r it ksl', ksl.insert compar key data = some (r, it, ksl') ∧
      InsertResult ord l key data r it ksl' := by
  cases hh with
  | @null links hl =>
    obtain ⟨hok, hl', hnodes⟩ := @rootInit_spec κ ν ι _ ord links 0
    have hitems : items 0 (rootInit (⟨none, links, 0⟩ : Ksl κ ν)).1.nodes = [] := by
      rw [hnodes]
      rfl
    have := insert_root hc hok (by rw [Blk.n, hnodes]; exact Nat.zero_lt_succ 31) hl' key data 0
      (by rw [hitems]; rfl)
    rw [hitems] at this
    exact this
  | @root links h t l hok hl hitems =>
    rw [Ksl.insert]
    dsimp only
    by_cases hfull : t.n = kslMaxNblk
    · obtain ⟨t', links', hrun, hok', hn', hl', hi'⟩ := splitRoot_spec hok hfull hl
      rw [if_pos hfull, hrun]
      have := insert_root hc hok' hn' hl' key data l.length (by rw [hi', hitems])
      rw [hi', hitems] at this
      exact this
    · rw [if_neg hfull]
      have := insert_root hc hok (lt_of_le_of_ne hok.le_max hfull) hl key data l.length
        (by rw [hitems])
      rw [hitems] at this
      exact this

/-! ## Removal -/

/-- What a removal returns and leaves behind. Only a list without a root returns no iterator. -/
inductive RemoveResult (ord : κ → ι) (l : List (κ × ν)) (key : κ) :
    Except Err Unit → Option It → Ksl κ ν → Prop
  /-- The key is absent. -/
  | absent {ksl' : Ksl κ ν} {it : Option It} (hk : ∀ e ∈ l, ord e.1 ≠ ord key)
    (hh : Holds ord ksl' l) (hit : ∀ i, it = some i → At ksl' i l.length) :
    RemoveResult ord l key (.error .invalidArgument) it ksl'
  /-- The item is taken out. -/
  | present {ksl' : Ksl κ ν} {it : It} {p q : List (κ × ν)} {e : κ × ν} (hl : l = p ++ e :: q)
    (hk : ord e.1 = ord key) (hh : Holds ord ksl' (p ++ q)) (hit : At ksl' it p.length) :
    RemoveResult ord l key (.ok ()) (some it) ksl'

/-- `dwnx_ksl_remove` -/
theorem Holds.remove (hc : Compares ord compar) (hh : Holds ord ksl l) (key : κ) :
    ∃ r it ksl', ksl.remove compar key = some (r, it, ksl') ∧
      RemoveResult ord l key r it ksl' := by
  cases hh with
  | @null links hl =>
    exact ⟨_, _, _, rfl, .absent (fun e he => absurd he List.not_mem_nil) (.null hl)
      fun i hi => by cases hi⟩
  | @root links h t l hok hl hitems =>
    obtain ⟨⟨h₁, t₁⟩, links₁, hmerge, hok₁, hl₁, hi₁⟩ := mergeRoot_spec hok hl
    obtain ⟨it, ⟨h₂, t₂⟩, links₂, hrun, hr⟩ := removeRoot_spec key hc t₁ links₁ hok₁ hl₁
    rw [Ksl.remove]
    dsimp only at hi₁ hok₁ hl₁ ⊢
    rw [hmerge]
    simp only [Option.bind_eq_bind, Option.bind_some, hrun]
    have hres := hr.items
    have hok₂ := hr.ok
    have hl₂ := hr.linked
    rw [hi₁, hitems] at hres
    dsimp only at hres hok₂ hl₂
    generalize hlv : leaves h₂ t₂ = lvs at hres
    generalize hi' : items h₂ t₂.nodes = l' at hres
    cases hres with
    | absent hk =>
      have hh : Holds ord ⟨some ⟨h₂, t₂⟩, links₂, l.length⟩ l := .root hok₂ hl₂ hi'
      obtain ⟨it, hend, hat⟩ := hh.end
      dsimp only
      rw [hend]
      exact ⟨_, _, _, rfl, .absent hk hh fun i hi => Option.some.inj hi ▸ hat⟩
    | @present p q e it hpq hk hit =>
      have hlen : l.length - 1 = (p ++ q).length := by
        rw [hpq, List.length_append, List.length_append, List.length_cons]
        omega
      have hh : Holds ord ⟨some ⟨h₂, t₂⟩, links₂, l.length - 1⟩ (p ++ q) :=
        hlen ▸ .root hok₂ hl₂ hi'
      refine ⟨_, _, _, rfl, .present hpq hk hh ?_⟩
      rw [At]
      dsimp only
      rwa [hlv]

/-- `dwnx_ksl_remove_hint`, with a hint that points to the key. -/
theorem Holds.removeHint (hc : Compares ord compar) (hh : Holds ord ksl l) {hint : It} {key : κ}
    {p q : List (κ × ν)} {e : κ × ν} (hl : l = p ++ e :: q) (hk : ord e.1 = ord key)
    (hat : At ksl hint p.length) :
    ∃ it ksl', ksl.removeHint compar hint key = some (.ok (), some it, ksl') ∧
      Holds ord ksl' (p ++ q) ∧ At ksl' it p.length := by
  have hremove := hh.remove hc key
  have hsorted := hh.sorted
  cases hh with
  | null => exact absurd hl (by simp)
  | @root links h t l hok hlinks hitems =>
    have hlv := leavesOk hok hlinks
    obtain ⟨l₁, b, l₂, hp⟩ := Denotes.place hlv hat
    have hsplit : p ++ e :: q = l₁.flatMap Blk.nodes ++ (b.nodes ++ l₂.flatMap Blk.nodes) := by
      rw [← hl, ← hitems, hp.items]
    rw [Ksl.removeHint]
    simp only [Option.bind_eq_bind, Option.bind_some, hp.blk]
    rw [leafAt_eq hlv hp.leaves]
    simp only [Option.bind_some]
    by_cases hmin : b.addr ≠ t.addr ∧ b.n = kslMinNblk
    · -- the leaf has none to spare
      rw [if_pos hmin]
      obtain ⟨r, it, ksl', hrun, hres⟩ := hremove
      cases hres with
      | absent hno => exact absurd hk (hno e (by rw [hl]; simp))
      | @present ksl' it p' q' e' hl' hk' hh' hit' =>
        obtain ⟨rfl, rfl, rfl⟩ := split_unique hsorted hl hl' (hk.trans hk'.symm)
        exact ⟨it, ksl', hrun, hh', hit'⟩
    · have hlen : p.length <
          (l₁.flatMap Blk.nodes ++ (b.nodes ++ l₂.flatMap Blk.nodes)).length := by
        rw [← hsplit, List.length_append, List.length_cons]
        omega
      have hi : hint.i < b.n := by
        refine hp.index.resolve_right ?_
        rintro ⟨hi, rfl⟩
        rw [hp.pos, hi, List.flatMap_nil, List.append_nil, List.length_append] at hlen
        exact absurd hlen (Nat.lt_irrefl _)
      have hspare : kslMinNblk < b.n ∨ h = 0 := by
        cases h with
        | zero => exact .inr rfl
        | succ h =>
          refine .inl (lt_of_le_of_ne ?_ fun hn => hmin ⟨fun ha => ?_, hn.symm⟩)
          · obtain ⟨c, hc, hb⟩ := List.mem_flatMap.1 (show b ∈ leaves (h + 1) t by
              rw [hp.leaves]; simp)
            obtain ⟨lo, hcok⟩ := spans_mem hok.nodes hc
            exact NodeOk.leaves_full hcok b hb
          · -- a leaf is at another height than the root
            refine hlinks.disjoint 0 (h + 1) (Nat.succ_ne_zero h).symm b.addr ?_ ?_
            · rw [← leaves_addrs, hp.leaves]
              simp
            · rw [ha, treeAddrs, side, self, if_pos rfl]
              exact List.mem_cons_self
      obtain ⟨m₁, x, m₂, hm, hmi⟩ := exists_split_at hi
      have hrem := removeNode_eq hm
      have her := modifyLeaf_spec hok.nodes hp.leaves hlv.nodup hi hspare
      rw [hmi] at hrem
      -- the hint points to the item
      obtain ⟨rfl, rfl, rfl⟩ : p = l₁.flatMap Blk.nodes ++ m₁ ∧ e = x ∧
          q = m₂ ++ l₂.flatMap Blk.nodes := by
        have hsplit' : p ++ e :: q = (l₁.flatMap Blk.nodes ++ m₁) ++ x ::
            (m₂ ++ l₂.flatMap Blk.nodes) := by
          rw [hsplit, hm]
          simp only [List.append_assoc, List.cons_append]
        obtain ⟨h₁, h₂⟩ := List.append_inj hsplit' (by rw [hp.pos, List.length_append, hmi])
        exact ⟨h₁, List.cons.inj h₂⟩
      rw [if_neg hmin, if_neg (Nat.not_le_of_lt hi)]
      generalize modifyLeaf b.addr (fun blk => blk.removeNode hint.i) h t = t' at her
      have hn := n_removeNode hi
      have hok' : RootOk ord t' := by
        refine ⟨her.nodes, ?_, ?_⟩
        · rcases her.size with hs | ⟨-, hs, hs'⟩
          · exact hs.le.trans hok.le_max
          · exact (by omega : t'.n ≤ t.n).trans hok.le_max
        · rcases her.size with hs | ⟨h0, -⟩
          · rw [hs]
            exact hok.two_le
          · exact .inr h0
      have hitems' : items h t'.nodes =
          l₁.flatMap Blk.nodes ++ m₁ ++ (m₂ ++ l₂.flatMap Blk.nodes) := by
        rw [← leaves_nodes, her.leaves, List.flatMap_append, List.flatMap_cons, hrem]
        simp only [List.append_assoc]
      have hlen' : l.length - 1 =
          (l₁.flatMap Blk.nodes ++ m₁ ++ (m₂ ++ l₂.flatMap Blk.nodes)).length := by
        simp only [hl, List.length_append, List.length_cons]
        omega
      refine ⟨_, _, rfl, hlen' ▸ .root hok' (her.addrs ▸ hlinks) hitems', ?_⟩
      exact ⟨l₁, b.removeNode hint.i, l₂, hint.i, her.leaves, by omega, hp.pos, rfl⟩

/-! ## Change of a key -/

/-- The keys above the leaves. -/
def seps (ksl : Ksl κ ν) : List κ :=
  match ksl.root with
  | none => []
  | some ⟨h, t⟩ => separators h t.nodes

theorem Denotes.of_shape {lvs lvs' : List (Blk κ ν)} {it : It} {p : ℕ}
    (hs : shape lvs' = shape lvs) (hd : Denotes links lvs it p) : Denotes links lvs' it p := by
  obtain ⟨l₁, b, l₂, i, rfl, hi, rfl, rfl⟩ := hd
  rw [shape, shape, List.map_append, List.map_cons] at hs
  obtain ⟨m₁, m, rfl, h₁, hm⟩ := List.map_eq_append_iff.1 hs
  obtain ⟨c, m₂, rfl, hc, -⟩ := List.map_eq_cons_iff.1 hm
  obtain ⟨haddr, hn⟩ := Prod.mk.inj hc
  have hlen : ∀ {a b : List (Blk κ ν)}, shape a = shape b →
      (a.flatMap Blk.nodes).length = (b.flatMap Blk.nodes).length := by
    intro a b hab
    have hsum : ∀ c : List (Blk κ ν),
        (c.flatMap Blk.nodes).length = ((shape c).map Prod.snd).sum := by
      intro c
      rw [List.length_flatMap, shape, List.map_map]
      rfl
    rw [hsum, hsum, hab]
  refine ⟨m₁, c, m₂, i, rfl, by rw [hn]; exact hi, by rw [hlen h₁], ?_⟩
  rw [Links.it, Links.it, haddr, hn]

/-- `dwnx_ksl_update_key`, to a key between the ones next to the old key. -/
theorem Holds.updateKey (hc : Compares ord compar) (hh : Holds ord ksl l) {oldKey newKey k : κ}
    {p q : List (κ × ν)} {v : ν} (hl : l = p ++ (k, v) :: q) (hk : ord k = ord oldKey)
    (hp : ∀ x ∈ p, ord x.1 < ord newKey) (hq : ∀ x ∈ q, ord newKey < ord x.1)
    (hs : ∀ s ∈ ksl.seps, ¬(ord newKey ≤ ord s ∧ ord s < ord oldKey)) :
    ∃ ksl', ksl.updateKey compar oldKey newKey = some ksl' ∧
      Holds ord ksl' (p ++ (newKey, v) :: q) ∧ ∀ it i, At ksl it i → At ksl' it i := by
  cases hh with
  | null => exact absurd hl (by simp)
  | @root links h t l hok hlinks hitems =>
    obtain ⟨t', hrun, hu⟩ := updateKeyLoop_spec hc hok.nodes (hitems.trans hl) hk
      (WithBot.bot_lt_coe _) hp hq hs
    have hlen : l.length = (p ++ (newKey, v) :: q).length := by
      rw [hl, List.length_append, List.length_append, List.length_cons, List.length_cons]
    refine ⟨⟨some ⟨h, t'⟩, links, l.length⟩, ?_, hlen ▸ .root ⟨hu.nodes, ?_, ?_⟩
      (hu.addrs ▸ hlinks) hu.items, fun it i hat => Denotes.of_shape hu.shape hat⟩
    · rw [Ksl.updateKey]
      simp only [Option.bind_eq_bind, Option.bind_some, hrun]
    · rw [hu.size]
      exact hok.le_max
    · rw [hu.size]
      exact hok.two_le

end Ksl

end Dwnx
