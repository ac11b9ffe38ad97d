import Dwnx.Ksl.Calls

/-!
# Where keys come from

The functions of the list only move keys between blocks: a property of all keys of a list and
of the key given to a function is a property of all keys after it (`KeysOf`). With it, the keys
above the leaves are, or once were, those of items.
-/

namespace Dwnx

namespace Ksl

variable {κ ν ι α : Type} {h : ℕ} {links links' : Links} {P : κ → Prop}

/-! ## The keys of blocks -/

/-- The key of a node and the keys under it. -/
def NodeKeys (P : κ → Prop) : (h : ℕ) → κ × Node κ ν h → Prop
  | 0, e => P e.1
  | h + 1, e => P e.1 ∧ ∀ e' ∈ e.2.nodes, NodeKeys P h e'

/-- The keys of a block and the blocks under it. -/
def KeysOf (P : κ → Prop) (t : Tree κ ν h) : Prop := ∀ e ∈ t.nodes, NodeKeys P h e

/-- The key of an entry. -/
theorem NodeKeys.key {e : κ × Node κ ν h} (he : NodeKeys P h e) : P e.1 := by
  cases h with
  | zero => exact he
  | succ h => exact he.1

/-- The key of an entry is replaced. -/
theorem NodeKeys.withKey {e : κ × Node κ ν h} {k : κ} (he : NodeKeys P h e) (hk : P k) :
    NodeKeys P h (k, e.2) := by
  cases h with
  | zero => exact hk
  | succ h => exact ⟨hk, he.2⟩

/-- The keys of a tree are those of its entries and of what is below them. -/
theorem keysOf_iff : ∀ {h : ℕ} {t : Tree κ ν h},
    KeysOf P t ↔ (∀ s ∈ separators h t.nodes, P s) ∧ ∀ x ∈ items h t.nodes, P x.1
  | 0, t => by
    rw [items_zero]
    exact ⟨fun h => ⟨fun s hs => absurd hs List.not_mem_nil, h⟩, fun h => h.2⟩
  | h + 1, t => by
    have ih : ∀ e : κ × Node κ ν (h + 1), NodeKeys P (h + 1) e ↔
        P e.1 ∧ (∀ s ∈ separators h e.2.nodes, P s) ∧ ∀ x ∈ items h e.2.nodes, P x.1 :=
      fun e => and_congr_right fun _ => keysOf_iff (t := e.2)
    constructor
    · intro hk
      refine ⟨fun s hs => ?_, fun x hx => ?_⟩
      · obtain ⟨e, he, hs⟩ := List.mem_flatMap.1 hs
        rcases List.mem_cons.1 hs with rfl | hs
        · exact (hk e he).key
        · exact ((ih e).1 (hk e he)).2.1 s hs
      · obtain ⟨e, he, hx⟩ := List.mem_flatMap.1 hx
        exact ((ih e).1 (hk e he)).2.2 x hx
    · rintro ⟨hs, hx⟩ e he
      refine (ih e).2 ⟨hs _ (List.mem_flatMap.2 ⟨e, he, List.mem_cons_self⟩),
        fun s hse => hs s (List.mem_flatMap.2 ⟨e, he, List.mem_cons_of_mem _ hse⟩),
        fun x hxe => hx x (List.mem_flatMap.2 ⟨e, he, hxe⟩)⟩

/-! ## Single blocks -/

/-- What is in a list of which one element is changed. -/
theorem mem_modify {l : List α} {i : ℕ} {f : α → α} {x : α} (hx : x ∈ l.modify i f) :
    x ∈ l ∨ ∃ y ∈ l, x = f y := by
  induction l generalizing i with
  | nil => cases i <;> cases hx
  | cons y l ih =>
    cases i with
    | zero =>
      rcases List.mem_cons.1 hx with rfl | hx
      · exact .inr ⟨y, List.mem_cons_self, rfl⟩
      · exact .inl (List.mem_cons_of_mem _ hx)
    | succ i =>
      rcases List.mem_cons.1 hx with rfl | hx
      · exact .inl List.mem_cons_self
      · rcases ih hx with hx | ⟨z, hz, rfl⟩
        · exact .inl (List.mem_cons_of_mem _ hx)
        · exact .inr ⟨z, List.mem_cons_of_mem _ hz, rfl⟩

/-- What is in a list into which one element is put. -/
theorem mem_insertIdx {l : List α} {i : ℕ} {x y : α} (hx : x ∈ l.insertIdx i y) :
    x = y ∨ x ∈ l := by
  rcases Nat.lt_or_ge l.length i with hi | hi
  · rw [List.insertIdx_of_length_lt hi] at hx
    exact .inr hx
  · exact (List.mem_insertIdx hi).1 hx

variable {t t' : Tree κ ν h} {i : ℕ} {k : κ}

/-- Entries are left out. -/
theorem KeysOf.subset (ht : KeysOf P t) (hs : t'.nodes ⊆ t.nodes) : KeysOf P t' :=
  fun e he => ht e (hs he)

/-- What is below an entry. -/
theorem KeysOf.node (ht : KeysOf P t) {e : κ × Node κ ν h} (he : t.nodes[i]? = some e) :
    NodeKeys P h e :=
  ht e (List.mem_of_getElem? he)

/-- The last key of a block is one of its keys. -/
theorem KeysOf.lastKey (ht : KeysOf P t) (hk : t.lastKey = some k) : P k := by
  obtain ⟨e, he, rfl⟩ := Option.map_eq_some_iff.1 hk
  exact (ht e (List.mem_of_getLast? he)).key

/-- `set_nth_key`: one key is replaced. -/
theorem KeysOf.setNthKey (ht : KeysOf P t) (hk : P k) : KeysOf P (t.setNthKey i k) := by
  intro e he
  rcases mem_modify he with he | ⟨e', he', rfl⟩
  · exact ht e he
  · exact (ht e' he').withKey hk

/-- A child is replaced, and takes the last key of what is there now. -/
theorem KeysOf.setNode {t : Tree κ ν (h + 1)} {node : Tree κ ν h} (ht : KeysOf P t)
    (hn : KeysOf P node) : KeysOf P (t.setNode i node) := by
  intro e he
  rcases mem_modify he with he | ⟨e', he', rfl⟩
  · exact ht e he
  · exact ⟨(ht e' he').key, hn⟩

/-- `remove_node`: an entry goes. -/
theorem KeysOf.removeNode (ht : KeysOf P t) : KeysOf P (t.removeNode i) :=
  ht.subset List.eraseIdx_subset

/-- `insert_node`: an entry comes. -/
theorem KeysOf.insertNode {t t' : Tree κ ν 0} {data : ν} (ht : KeysOf P t) (hk : P k)
    (hrun : t.insertNode i k data = some t') : KeysOf P t' := by
  rw [Blk.insertNode] at hrun
  split at hrun
  · obtain rfl := Option.some.inj hrun
    intro e he
    rcases mem_insertIdx he with rfl | he
    · exact hk
    · exact ht e he
  · cases hrun

/-! ## Splitting -/

/-- `split_blk`: the entries are dealt out to two blocks. -/
theorem KeysOf.splitBlk {l r : Tree κ ν h} (ht : KeysOf P t)
    (hrun : Ksl.splitBlk t links = some (l, r, links')) : KeysOf P l ∧ KeysOf P r := by
  rw [Ksl.splitBlk] at hrun
  split at hrun
  · cases hrun
    exact ⟨ht.subset (List.take_subset _ _), ht.subset (List.drop_subset _ _)⟩
  · cases hrun

/-- `split_node`: the two halves of a child have their last keys. -/
theorem KeysOf.splitNode {t t' : Tree κ ν (h + 1)} (ht : KeysOf P t)
    (hrun : Ksl.splitNode t i links = some (t', links')) : KeysOf P t' := by
  obtain ⟨⟨key, lblk⟩, he, hrun⟩ := Option.bind_eq_some_iff.1 hrun
  obtain ⟨⟨l, r, links₁⟩, hsplit, hrun⟩ := Option.bind_eq_some_iff.1 hrun
  obtain ⟨lkey, hl, hrun⟩ := Option.bind_eq_some_iff.1 hrun
  cases hrun
  have hnode := ht.node he
  obtain ⟨hkl, hkr⟩ := KeysOf.splitBlk hnode.2 hsplit
  intro e he
  rcases List.mem_append.1 he with he | he
  · exact ht e (List.mem_of_mem_take he)
  rcases List.mem_cons.1 he with rfl | he
  · exact ⟨hkl.lastKey hl, hkl⟩
  rcases List.mem_cons.1 he with rfl | he
  · exact ⟨hnode.key, hkr⟩
  · exact ht e (List.mem_of_mem_drop he)

/-- `split_root`: the two halves of the root have theirs. -/
theorem KeysOf.splitRoot {t' : Tree κ ν (h + 1)} (ht : KeysOf P t)
    (hrun : Ksl.splitRoot t links = some (t', links')) : KeysOf P t' := by
  obtain ⟨⟨l, r, links₁⟩, hsplit, hrun⟩ := Option.bind_eq_some_iff.1 hrun
  obtain ⟨lkey, hl, hrun⟩ := Option.bind_eq_some_iff.1 hrun
  obtain ⟨rkey, hr, hrun⟩ := Option.bind_eq_some_iff.1 hrun
  cases hrun
  obtain ⟨hkl, hkr⟩ := KeysOf.splitBlk ht hsplit
  intro e he
  rcases List.mem_cons.1 he with rfl | he
  · exact ⟨hkl.lastKey hl, hkl⟩
  · obtain rfl := List.mem_singleton.1 he
    exact ⟨hkr.lastKey hr, hkr⟩

/-! ## Insertion -/

/-- An entry behind all others makes the last keys on its way its own. -/
theorem KeysOf.extend {key : κ} {data : ν} (hkey : P key) : ∀ {h : ℕ} {t t' : Tree κ ν h}
    {links links' : Links} {it : It}, KeysOf P t →
      Ksl.extend key data h t links = some (it, t', links') → KeysOf P t'
  | 0, t, t', links, links', it, ht, hrun => by
    obtain ⟨blk, hins, hrun⟩ := Option.bind_eq_some_iff.1 hrun
    cases hrun
    exact ht.insertNode hkey hins
  | h + 1, t, t', links, links', it, ht, hrun => by
    -- the last node is extended once it has room
    have hgo : ∀ {blk : Tree κ ν (h + 1)} {links₁ : Links}, KeysOf P blk →
        (blk.nodes[blk.n - 1]?.bind fun e => (Ksl.extend key data h e.2 links₁).bind fun r =>
          let blk := blk.setNthKey (blk.n - 1) key
          some (r.1, blk.setNode (blk.n - 1) r.2.1, r.2.2)) = some (it, t', links') →
        KeysOf P t' := by
      intro blk links₁ hblk hrun
      obtain ⟨⟨s, node⟩, he, hrun⟩ := Option.bind_eq_some_iff.1 hrun
      obtain ⟨⟨it₁, node₁, links₂⟩, hext, hrun⟩ := Option.bind_eq_some_iff.1 hrun
      cases hrun
      exact (hblk.setNthKey hkey).setNode (KeysOf.extend hkey (hblk.node he).2 hext)
    obtain ⟨⟨s, node⟩, -, hrun⟩ := Option.bind_eq_some_iff.1 hrun
    dsimp only at hrun
    split at hrun
    · obtain ⟨⟨blk, links₁⟩, hsplit, hrun⟩ := Option.bind_eq_some_iff.1 hrun
      exact hgo (ht.splitNode hsplit) hrun
    · exact hgo ht hrun

/-- The loop of `dwnx_ksl_insert` brings in no key but the one inserted. -/
theorem KeysOf.insertLoop {compar : κ → κ → Bool} {key : κ} {data : ν} (hkey : P key) :
    ∀ {h : ℕ} {t t' : Tree κ ν h} {links links' : Links} {it : Option It}, KeysOf P t →
      Ksl.insertLoop compar key data h t links = some (it, t', links') → KeysOf P t'
  | 0, t, t', links, links', it, ht, hrun => by
    rw [Ksl.insertLoop] at hrun
    split at hrun
    · cases hrun
      exact ht
    · obtain ⟨blk, hins, hrun⟩ := Option.bind_eq_some_iff.1 hrun
      cases hrun
      exact ht.insertNode hkey hins
  | h + 1, t, t', links, links', it, ht, hrun => by
    rw [Ksl.insertLoop] at hrun
    split at hrun
    · obtain ⟨⟨it₁, blk, links₁⟩, hext, hrun⟩ := Option.bind_eq_some_iff.1 hrun
      cases hrun
      exact KeysOf.extend hkey ht hext
    · -- the node found is the next one, once it has room
      have hgo : ∀ {blk : Tree κ ν (h + 1)} {i : ℕ} {links₁ : Links}, KeysOf P blk →
          (blk.nodes[i]?.bind fun e => (Ksl.insertLoop compar key data h e.2 links₁).bind fun r =>
            some (r.1, blk.setNode i r.2.1, r.2.2)) = some (it, t', links') → KeysOf P t' := by
        intro blk i links₁ hblk hrun
        obtain ⟨⟨s, node⟩, he, hrun⟩ := Option.bind_eq_some_iff.1 hrun
        obtain ⟨⟨it₁, node₁, links₂⟩, hins, hrun⟩ := Option.bind_eq_some_iff.1 hrun
        cases hrun
        exact hblk.setNode (KeysOf.insertLoop hkey (hblk.node he).2 hins)
      obtain ⟨⟨s, node⟩, -, hrun⟩ := Option.bind_eq_some_iff.1 hrun
      dsimp only at hrun
      split at hrun
      · obtain ⟨⟨blk, links₁⟩, hsplit, hrun⟩ := Option.bind_eq_some_iff.1 hrun
        obtain ⟨⟨lkey, lnode⟩, -, hrun⟩ := Option.bind_eq_some_iff.1 hrun
        exact hgo (ht.splitNode hsplit) hrun
      · exact hgo ht hrun

/-! ## Removal -/

/-- The entries of two blocks in one. -/
theorem KeysOf.append {addr : ℕ} {l₁ l₂ : List (κ × Node κ ν h)} (h₁ : ∀ e ∈ l₁, NodeKeys P h e)
    (h₂ : ∀ e ∈ l₂, NodeKeys P h e) : KeysOf P (⟨addr, l₁ ++ l₂⟩ : Tree κ ν h) :=
  fun e he => (List.mem_append.1 he).elim (h₁ e) (h₂ e)

/-- `merge_node` brings in no key. -/
theorem KeysOf.mergeNode {t t' : Tree κ ν (h + 1)} (ht : KeysOf P t)
    (hrun : Ksl.mergeNode t i links = some (t', links')) : KeysOf P t' := by
  obtain ⟨⟨s, l⟩, hl, hrun⟩ := Option.bind_eq_some_iff.1 hrun
  obtain ⟨⟨s', r⟩, hr, hrun⟩ := Option.bind_eq_some_iff.1 hrun
  dsimp only at hrun
  split at hrun
  · obtain ⟨lkey, hkey, hrun⟩ := Option.bind_eq_some_iff.1 hrun
    cases hrun
    have hmerged : KeysOf P (⟨l.addr, l.nodes ++ r.nodes⟩ : Tree κ ν h) :=
      .append (ht.node hl).2 (ht.node hr).2
    exact (ht.setNode hmerged).removeNode.setNthKey (hmerged.lastKey hkey)
  · cases hrun

/-- `shift_left` brings in no key. -/
theorem KeysOf.shiftLeft {t t' : Tree κ ν (h + 1)} (ht : KeysOf P t)
    (hrun : Ksl.shiftLeft t i = some t') : KeysOf P t' := by
  rw [Ksl.shiftLeft] at hrun
  split at hrun
  · cases hrun
  obtain ⟨⟨s, l⟩, hl, hrun⟩ := Option.bind_eq_some_iff.1 hrun
  obtain ⟨⟨s', r⟩, hr, hrun⟩ := Option.bind_eq_some_iff.1 hrun
  dsimp only at hrun
  split at hrun
  · obtain ⟨lkey, hkey, hrun⟩ := Option.bind_eq_some_iff.1 hrun
    cases hrun
    have hr := (ht.node hr).2
    have hlong : KeysOf P
        (⟨l.addr, l.nodes ++ r.nodes.take ((l.n + r.n + 1) / 2 - l.n)⟩ : Tree κ ν h) :=
      .append (ht.node hl).2 fun e he => hr e (List.mem_of_mem_take he)
    exact ((ht.setNode hlong).setNthKey (hlong.lastKey hkey)).setNode
      fun e he => hr e (List.mem_of_mem_drop he)
  · cases hrun

/-- `shift_right` brings in no key. -/
theorem KeysOf.shiftRight {t t' : Tree κ ν (h + 1)} (ht : KeysOf P t)
    (hrun : Ksl.shiftRight t i = some t') : KeysOf P t' := by
  obtain ⟨⟨s, l⟩, hl, hrun⟩ := Option.bind_eq_some_iff.1 hrun
  obtain ⟨⟨s', r⟩, hr, hrun⟩ := Option.bind_eq_some_iff.1 hrun
  dsimp only at hrun
  split at hrun
  · obtain ⟨lkey, hkey, hrun⟩ := Option.bind_eq_some_iff.1 hrun
    cases hrun
    have hl := (ht.node hl).2
    let n := l.n - ((l.n + r.n + 1) / 2 - r.n)
    have hlong : KeysOf P (⟨r.addr, l.nodes.drop n ++ r.nodes⟩ : Tree κ ν h) :=
      .append (fun e he => hl e (List.mem_of_mem_drop he)) (ht.node hr).2
    have hshort : KeysOf P (⟨l.addr, l.nodes.take n⟩ : Tree κ ν h) :=
      fun e he => hl e (List.mem_of_mem_take he)
    exact ((ht.setNode hlong).setNode hshort).setNthKey (hshort.lastKey hkey)
  · cases hrun

/-- Whichever way a child is filled up, no key is brought in. -/
theorem KeysOf.fillNode {t t' : Tree κ ν (h + 1)} {j : ℕ} (ht : KeysOf P t)
    (hrun : Ksl.fillNode t i links = some (t', j, links')) : KeysOf P t' := by
  obtain ⟨⟨s, node⟩, -, hrun⟩ := Option.bind_eq_some_iff.1 hrun
  dsimp only at hrun
  split_ifs at hrun
  · cases hrun
    exact ht
  · obtain ⟨blk, hshift, hrun⟩ := Option.bind_eq_some_iff.1 hrun
    cases hrun
    exact ht.shiftLeft hshift
  · obtain ⟨blk, hshift, hrun⟩ := Option.bind_eq_some_iff.1 hrun
    cases hrun
    exact ht.shiftRight hshift
  · obtain ⟨⟨blk, links₁⟩, hmerge, hrun⟩ := Option.bind_eq_some_iff.1 hrun
    cases hrun
    exact ht.mergeNode hmerge
  · obtain ⟨⟨blk, links₁⟩, hmerge, hrun⟩ := Option.bind_eq_some_iff.1 hrun
    cases hrun
    exact ht.mergeNode hmerge

/-- An entry of a leaf goes. -/
theorem KeysOf.removeLeaf {compar : κ → κ → Bool} {key : κ} {t : Tree κ ν 0} (ht : KeysOf P t) :
    KeysOf P (Ksl.removeLeaf compar key t links).2 := by
  rw [Ksl.removeLeaf]
  dsimp only
  split
  · exact ht
  · split
    · exact ht
    · exact ht.removeNode

/-- The loop of `dwnx_ksl_remove` brings in no key. -/
theorem KeysOf.removeLoop {compar : κ → κ → Bool} {key : κ} : ∀ {h : ℕ} {t t' : Tree κ ν h}
    {links links' : Links} {it : Option It}, KeysOf P t →
      Ksl.removeLoop compar key h t links = some (it, t', links') → KeysOf P t'
  | 0, t, t', links, links', it, ht, hrun => by
    cases hrun
    exact ht.removeLeaf
  | h + 1, t, t', links, links', it, ht, hrun => by
    rw [Ksl.removeLoop] at hrun
    split at hrun
    · cases hrun
      exact ht
    · obtain ⟨⟨blk, i, links₁⟩, hfill, hrun⟩ := Option.bind_eq_some_iff.1 hrun
      obtain ⟨⟨s, node⟩, he, hrun⟩ := Option.bind_eq_some_iff.1 hrun
      obtain ⟨⟨it₁, node₁, links₂⟩, hrem, hrun⟩ := Option.bind_eq_some_iff.1 hrun
      cases hrun
      have hblk := ht.fillNode hfill
      exact hblk.setNode (KeysOf.removeLoop (hblk.node he).2 hrem)

/-- The loop begins at the root, which may have few entries. -/
theorem KeysOf.removeRoot {compar : κ → κ → Bool} {key : κ} : ∀ {h : ℕ} {t : Tree κ ν h}
    {links links' : Links} {it : Option It} {r : Σ h, Tree κ ν h}, KeysOf P t →
      Ksl.removeRoot compar key h t links = some (it, r, links') → KeysOf P r.2
  | 0, t, links, links', it, r, ht, hrun => by
    cases hrun
    exact ht.removeLeaf
  | h + 1, t, links, links', it, r, ht, hrun => by
    rw [Ksl.removeRoot] at hrun
    split at hrun
    · cases hrun
      exact ht
    · obtain ⟨⟨blk, i, links₁⟩, hfill, hrun⟩ := Option.bind_eq_some_iff.1 hrun
      obtain ⟨⟨s, node⟩, he, hrun⟩ := Option.bind_eq_some_iff.1 hrun
      have hblk := ht.fillNode hfill
      dsimp only at hrun
      split at hrun
      · exact KeysOf.removeRoot (hblk.node he).2 hrun
      · obtain ⟨⟨it₁, node₁, links₂⟩, hrem, hrun⟩ := Option.bind_eq_some_iff.1 hrun
        cases hrun
        exact hblk.setNode (KeysOf.removeLoop (hblk.node he).2 hrem)

/-- The root may be merged from its two children. -/
theorem KeysOf.mergeRoot {h : ℕ} {t : Tree κ ν h} {r : Σ h, Tree κ ν h} (ht : KeysOf P t)
    (hrun : Ksl.mergeRoot h t links = some (r, links')) : KeysOf P r.2 := by
  cases h with
  | zero =>
    cases hrun
    exact ht
  | succ h =>
    rw [Ksl.mergeRoot] at hrun
    split at hrun
    · next s l s' r' hnodes =>
      split at hrun
      · split at hrun
        · cases hrun
          refine .append (ht (s, l) ?_).2 (ht (s', r') ?_).2 <;> rw [hnodes] <;> simp
        · cases hrun
      · cases hrun
        exact ht
    · cases hrun
      exact ht

/-- A change of one leaf that keeps to the keys. -/
theorem KeysOf.modifyLeaf {addr i : ℕ} : ∀ {h : ℕ} {t : Tree κ ν h}, KeysOf P t →
    KeysOf P (Ksl.modifyLeaf addr (fun blk => blk.removeNode i) h t)
  | 0, t, ht => by
    rw [Ksl.modifyLeaf]
    split
    · exact ht.removeNode
    · exact ht
  | h + 1, t, ht => by
    intro e he
    obtain ⟨e', he', rfl⟩ := List.mem_map.1 he
    exact ⟨(ht e' he').1, KeysOf.modifyLeaf (ht e' he').2⟩

/-! ## The list -/

/-- The keys of a list. -/
def Keys (P : κ → Prop) (ksl : Ksl κ ν) : Prop :=
  match ksl.root with
  | none => True
  | some ⟨_, t⟩ => KeysOf P t

variable {compar : κ → κ → Bool} {ksl ksl' : Ksl κ ν} {key : κ} {data : ν}

/-- An insertion below a root that is not full. -/
theorem KeysOf.insertRoot {t : Tree κ ν h} {r : Except Err Unit × It × Ksl κ ν} {n : ℕ}
    (hkey : P key) (ht : KeysOf P t)
    (hrun : (do
      let (it, root, links') ← Ksl.insertLoop compar key data h t links
      match it with
      | some it => some (.ok (), it, ⟨some ⟨h, root⟩, links', n + 1⟩)
      | none =>
        let ksl : Ksl κ ν := ⟨some ⟨h, root⟩, links', n⟩
        some (.error .invalidArgument, ← ksl.end', ksl)) = some r) : Keys P r.2.2 := by
  obtain ⟨⟨it, root, links'⟩, hins, hrun⟩ := Option.bind_eq_some_iff.1 hrun
  have hroot := KeysOf.insertLoop hkey ht hins
  cases it with
  | some it =>
    cases hrun
    exact hroot
  | none =>
    obtain ⟨it, -, hrun⟩ := Option.bind_eq_some_iff.1 hrun
    cases hrun
    exact hroot

/-- `dwnx_ksl_insert` brings in no key but the one inserted. -/
theorem Keys.insert {r : Except Err Unit × It × Ksl κ ν} (hkey : P key) (hk : Keys P ksl)
    (hrun : ksl.insert compar key data = some r) : Keys P r.2.2 := by
  rw [Ksl.insert] at hrun
  obtain ⟨root, links, n⟩ := ksl
  cases root with
  | none =>
    dsimp only [rootInit] at hrun
    split at hrun
    · next hfull => exact absurd hfull (Nat.succ_ne_zero 31).symm
    · have ht : KeysOf P (⟨links.fresh, []⟩ : Tree κ ν 0) := fun e he => absurd he List.not_mem_nil
      exact KeysOf.insertRoot hkey ht hrun
  | some root =>
    obtain ⟨h, t⟩ := root
    dsimp only at hrun
    split at hrun
    · obtain ⟨⟨t₁, links₁⟩, hsplit, hrun⟩ := Option.bind_eq_some_iff.1 hrun
      exact KeysOf.insertRoot hkey (KeysOf.splitRoot hk hsplit) hrun
    · exact KeysOf.insertRoot hkey hk hrun

/-- `dwnx_ksl_remove` brings in no key. -/
theorem Keys.remove {r : Except Err Unit × Option It × Ksl κ ν} (hk : Keys P ksl)
    (hrun : ksl.remove compar key = some r) : Keys P r.2.2 := by
  rw [Ksl.remove] at hrun
  obtain ⟨root, links, n⟩ := ksl
  cases root with
  | none =>
    cases hrun
    trivial
  | some root =>
    obtain ⟨h, t⟩ := root
    obtain ⟨⟨⟨h₁, t₁⟩, links₁⟩, hmerge, hrun⟩ := Option.bind_eq_some_iff.1 hrun
    obtain ⟨⟨it, ⟨h₂, t₂⟩, links₂⟩, hrem, hrun⟩ := Option.bind_eq_some_iff.1 hrun
    have hroot := KeysOf.removeRoot (KeysOf.mergeRoot hk hmerge) hrem
    cases it with
    | some it =>
      cases hrun
      exact hroot
    | none =>
      obtain ⟨it, -, hrun⟩ := Option.bind_eq_some_iff.1 hrun
      cases hrun
      exact hroot

/-- `dwnx_ksl_remove_hint` brings in no key. -/
theorem Keys.removeHint {hint : It} {r : Except Err Unit × Option It × Ksl κ ν} (hk : Keys P ksl)
    (hrun : ksl.removeHint compar hint key = some r) : Keys P r.2.2 := by
  obtain ⟨root, links, n⟩ := ksl
  obtain ⟨⟨h, t⟩, hroot, hrun⟩ := Option.bind_eq_some_iff.1 hrun
  obtain ⟨addr, -, hrun⟩ := Option.bind_eq_some_iff.1 hrun
  obtain ⟨blk, -, hrun⟩ := Option.bind_eq_some_iff.1 hrun
  obtain rfl : root = some ⟨h, t⟩ := hroot
  dsimp only at hrun
  split_ifs at hrun
  · exact hk.remove hrun
  · cases hrun
    exact KeysOf.modifyLeaf hk

variable [LinearOrder ι] {ord : κ → ι} {l : List (κ × ν)}

/-- The keys of a list are those above the leaves and those of the items. -/
theorem Holds.keys_iff (hh : Holds ord ksl l) :
    Keys P ksl ↔ (∀ s ∈ ksl.seps, P s) ∧ ∀ x ∈ l, P x.1 := by
  cases hh with
  | null => exact ⟨fun _ => ⟨fun s hs => absurd hs List.not_mem_nil,
      fun x hx => absurd hx List.not_mem_nil⟩, fun _ => trivial⟩
  | root hok hl hitems => exact hitems ▸ keysOf_iff

/-! ## Keys after a change -/

/-- The keys above the leaves lie between the ends, too. -/
theorem Nodes.separators : ∀ {h : ℕ} {lo : WithBot ι} {l : List (κ × Node κ ν h)},
    Nodes ord h lo l → ∀ s ∈ separators h l, lo < ord s ∧ (ord s : WithBot ι) ≤ top ord lo l
  | 0, _, _, _ => fun s hs => absurd hs List.not_mem_nil
  | h + 1, lo, l, hl => by
    induction l generalizing lo with
    | nil => exact fun s hs => absurd hs List.not_mem_nil
    | cons e l ih =>
      intro s hs
      have hlast := Nodes.le_top hl.2
      rw [Ksl.separators, List.flatMap_cons, List.mem_append] at hs
      rcases hs with hs | hs
      · rcases List.mem_cons.1 hs with rfl | hs
        · exact ⟨NodeOk.lt hl.1, hlast⟩
        · obtain ⟨hlo, hhi⟩ := Nodes.separators hl.1.2.1 s hs
          exact ⟨hlo, (hhi.trans hl.1.2.2).trans hlast⟩
      · obtain ⟨hlo, hhi⟩ := ih _ hl.2 s hs
        exact ⟨(NodeOk.lt hl.1).trans hlo, hhi⟩

/-- The old key is not left above the leaves. -/
theorem updateKeyLoop_separators (hc : Compares ord compar) {oldKey newKey : κ} :
    ∀ {h : ℕ} {t t' : Tree κ ν h} {lo : WithBot ι}, Nodes ord h lo t.nodes →
      updateKeyLoop compar oldKey newKey h t = some t' →
      ∀ s ∈ separators h t'.nodes, s = newKey ∨ s ∈ separators h t.nodes ∧ ord s ≠ ord oldKey
  | 0, _, _, _, _, _ => fun s hs => absurd hs List.not_mem_nil
  | h + 1, t, t', lo, hok, hrun => by
    obtain ⟨l₁, l₂, ht, hi, h₁, h₂⟩ := exists_search hc t oldKey
    have hspan := hok
    rw [ht, Nodes, spans_append] at hspan
    rw [updateKeyLoop, hi] at hrun
    obtain ⟨⟨k, c⟩, he, hrun⟩ := Option.bind_eq_some_iff.1 hrun
    obtain ⟨c', hloop, hrun⟩ := Option.bind_eq_some_iff.1 hrun
    cases l₂ with
    | nil =>
      rw [ht, List.append_nil, List.getElem?_eq_none (Nat.le_refl _)] at he
      cases he
    | cons e l₂ =>
      rw [ht, getElem?_append_cons, Option.some_inj] at he
      subst he
      have hk : ord oldKey ≤ ord k := h₂ _ rfl
      obtain ⟨k', hset, hk'⟩ := exists_newSep hc ht newKey oldKey
      rw [hset c'] at hrun
      cases hrun
      have hmem : ∀ s, s ∈ separators (h + 1) t.nodes ↔ s ∈ separators (h + 1) l₁ ∨
          (s = k ∨ s ∈ separators h c.nodes) ∨ s ∈ separators (h + 1) l₂ := by
        intro s
        rw [ht, separators, separators, separators, List.flatMap_append, List.flatMap_cons,
          List.mem_append, List.mem_append, List.mem_cons]
      intro s hs
      rw [separators, List.flatMap_append, List.flatMap_cons, List.mem_append, List.mem_append,
        List.mem_cons] at hs
      rw [hmem]
      rcases hs with hs | (rfl | hs) | hs
      · -- before the node found
        refine .inr ⟨.inl hs, fun heq => ?_⟩
        have hle := (Nodes.separators hspan.1 s hs).2
        cases l₁ with
        | nil => cases hs
        | cons e l₁ =>
          have hlast : top ord lo (e :: l₁) < ord oldKey := by
            rw [top]
            exact top_lt (WithBot.coe_lt_coe.2 (h₁ e List.mem_cons_self)) fun x hx =>
              h₁ x (List.mem_cons_of_mem _ hx)
          exact (WithBot.coe_lt_coe.1 (hle.trans_lt hlast)).ne heq
      · rcases hk' with ⟨-, rfl⟩ | ⟨hne, rfl⟩
        · exact .inl rfl
        · exact .inr ⟨.inr (.inl (.inl rfl)), fun heq => hne (.inl heq)⟩
      · rcases updateKeyLoop_separators hc hspan.2.1.2.1 hloop s hs with rfl | ⟨hs, hne⟩
        · exact .inl rfl
        · exact .inr ⟨.inr (.inl (.inr hs)), hne⟩
      · -- behind it
        refine .inr ⟨.inr (.inr hs), fun heq => ?_⟩
        have hlt := WithBot.coe_lt_coe.1 (Nodes.separators hspan.2.2 s hs).1
        exact absurd (heq ▸ hlt) (not_lt.2 hk)

/-- `dwnx_ksl_update_key` brings in no key but the new one. -/
theorem Holds.updateKey_seps (hc : Compares ord compar) (hh : Holds ord ksl l) {oldKey newKey : κ}
    (hrun : ksl.updateKey compar oldKey newKey = some ksl') :
    ∀ s ∈ ksl'.seps, s = newKey ∨ s ∈ ksl.seps ∧ ord s ≠ ord oldKey := by
  cases hh with
  | null => cases hrun
  | root hok hl hitems =>
    obtain ⟨t', hloop, hrun⟩ := Option.bind_eq_some_iff.1 hrun
    cases hrun
    exact updateKeyLoop_separators hc hok.nodes hloop

end Ksl

end Dwnx
