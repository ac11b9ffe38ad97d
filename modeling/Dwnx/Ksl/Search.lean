import Dwnx.Ksl.Iter

/-!
# Search

A search goes down to the first node whose key is not before the argument, in every block. It
finds the first such item if the keys of the blocks and the items agree with each other on
what is before the argument (`Cut`), which they do if the comparison is that of the list.
-/

namespace Dwnx

namespace Ksl

variable {κ ν ι : Type} {h : ℕ} {links : Links}

/-- A key that is `before` something has only such items under its node, and one that is not
    has no such items under the nodes behind it. -/
def CutHere (before : κ → Bool) (l : List (κ × Node κ ν h)) : Prop :=
  ∀ l₁ e l₂, l = l₁ ++ e :: l₂ →
    (before e.1 = true → ∀ x ∈ nodeItems h e, before x.1 = true) ∧
    (before e.1 = false → ∀ x ∈ items h l₂, before x.1 = false)

/-- So it is with all the nodes under those of a list. -/
def Cut (before : κ → Bool) : (h : ℕ) → List (κ × Node κ ν h) → Prop
  | 0, l => CutHere before l
  | h + 1, l => CutHere before l ∧ ∀ e ∈ l, Cut before h e.2.nodes

theorem Cut.here {before : κ → Bool} {l : List (κ × Node κ ν h)} (hc : Cut before h l) :
    CutHere before l := by
  cases h with
  | zero => exact hc
  | succ h => exact hc.1

theorem CutHere.before {before : κ → Bool} {l l₁ l₂ : List (κ × Node κ ν h)}
    (hc : CutHere before l) (hl : l = l₁ ++ l₂) (h₁ : ∀ e ∈ l₁, before e.1 = true) :
    ∀ x ∈ items h l₁, before x.1 = true := by
  intro x hx
  obtain ⟨e, he, hxe⟩ := List.mem_flatMap.1 hx
  obtain ⟨m₁, m₂, rfl⟩ := List.append_of_mem he
  exact (hc m₁ e (m₂ ++ l₂) (by rw [hl, List.append_assoc]; rfl)).1 (h₁ e he) x hxe

section Order

variable [LinearOrder ι] {ord : κ → ι} {lo : WithBot ι}

theorem cutHere_of_nodes {compar : κ → κ → Bool} (hc : Compares ord compar)
    {l : List (κ × Node κ ν h)} (hl : Nodes ord h lo l) (key : κ) :
    CutHere (fun k => compar k key) l := by
  intro l₁ e l₂ he
  rw [he, Nodes, spans_append] at hl
  refine ⟨fun hb x hx => ?_, fun hb x hx => ?_⟩
  · rw [hc] at hb ⊢
    exact lt_of_le_of_lt (NodeOk.bounds hl.2.1 x hx).2 hb
  · rw [hc.eq_false] at hb ⊢
    exact hb.trans (WithBot.coe_lt_coe.1 (Nodes.bounds hl.2.2 x hx).1).le

/-- The comparison of the list agrees with its order. -/
theorem cut_of_nodes {compar : κ → κ → Bool} (hc : Compares ord compar) (key : κ) :
    ∀ {h : ℕ} {l : List (κ × Node κ ν h)} {lo : WithBot ι}, Nodes ord h lo l →
      Cut (fun k => compar k key) h l
  | 0, _, _, hl => cutHere_of_nodes hc hl key
  | h + 1, l, _, hl => by
    refine ⟨cutHere_of_nodes hc hl key, fun e he => ?_⟩
    obtain ⟨lo', hok⟩ := spans_mem hl he
    exact cut_of_nodes hc key hok.2.1

/-- The last leaf is the last of the leaves. -/
theorem lastLeaf_spec : ∀ {h : ℕ} {t : Tree κ ν h} {lo : WithBot ι}, Nodes ord h lo t.nodes →
    t.nodes ≠ [] ∨ h = 0 → ∃ b l, lastLeaf h t = some b ∧ leaves h t = l ++ [b]
  | 0, t, _, _, _ => ⟨t, [], rfl, rfl⟩
  | h + 1, t, lo, hok, hne => by
    obtain ⟨l, ⟨s, c⟩, ht⟩ :=
      (List.eq_nil_or_concat' t.nodes).resolve_left (hne.resolve_right (Nat.succ_ne_zero h))
    rw [ht, Nodes, spans_append] at hok
    obtain ⟨b, l', hrun, hb⟩ := lastLeaf_spec (t := c) hok.2.1.2.1 (.inl (Blk.ne_nil hok.2.1.1.1))
    obtain ⟨he, -⟩ := last_node _ ht s
    refine ⟨b, leavesOf l ++ l', ?_, ?_⟩
    · rw [lastLeaf, he]
      exact hrun
    · rw [leaves_append_cons t ht, hb]
      simp [leavesOf]

variable (links) in
/-- The loop of the search ends behind the items before the key. -/
theorem lowerBoundLoop_spec {compar : κ → κ → Bool} {key : κ} :
    ∀ {h : ℕ} {t : Tree κ ν h} {lo : WithBot ι}, Nodes ord h lo t.nodes → t.nodes ≠ [] ∨ h = 0 →
    Cut (fun k => compar k key) h t.nodes →
    ∃ it p q, lowerBoundLoop compar key links h t = some it ∧ items h t.nodes = p ++ q ∧
      (∀ x ∈ p, compar x.1 key = true) ∧ (∀ x ∈ q, compar x.1 key = false) ∧
      Denotes links (leaves h t) it p.length
  | 0, t, _, _, _, hcut => by
    obtain ⟨l₁, l₂, ht, hi, h₁, h₂⟩ := exists_search' compar t key
    refine ⟨_, l₁, l₂, rfl, by rw [items_zero, ht], h₁, fun x hx => ?_, [], t, [], _, rfl, ?_, ?_,
      rfl⟩
    · cases l₂ with
      | nil => cases hx
      | cons e l₂ =>
        rcases List.mem_cons.1 hx with rfl | hx
        · exact h₂ _ rfl
        · exact (hcut l₁ e l₂ ht).2 (h₂ e rfl) x (by rwa [items_zero])
    · exact List.findIdx_le_length
    · rw [List.flatMap_nil, List.length_nil, Nat.zero_add, hi]
  | h + 1, t, lo, hok, hne, hcut => by
    obtain ⟨l₁, l₂, ht, hi, h₁, h₂⟩ := exists_search' compar t key
    have hitems₁ := hcut.here.before ht h₁
    rw [lowerBoundLoop, hi]
    cases l₂ with
    | nil =>
      rw [List.append_nil] at ht
      obtain ⟨b, l, hrun, hb⟩ := lastLeaf_spec hok hne
      rw [if_pos (by rw [Blk.n, ht]), hrun]
      refine ⟨_, items (h + 1) l₁, [], rfl, by rw [ht, List.append_nil], hitems₁, ?_, l, b, [], b.n,
        hb, le_refl _, ?_, rfl⟩
      · exact fun x hx => absurd hx List.not_mem_nil
      rw [← ht, ← leaves_nodes, hb, List.flatMap_append, List.length_append, List.flatMap_singleton]
      rfl
    | cons e l₂ =>
      obtain ⟨s, c⟩ := e
      have hspan := hok
      rw [ht, Nodes, spans_append] at hspan
      have hmem : (s, c) ∈ t.nodes := by rw [ht]; simp
      obtain ⟨it, p, q, hrun, hpq, hp, hq, hden⟩ := lowerBoundLoop_spec (t := c) hspan.2.1.2.1
        (.inl (Blk.ne_nil hspan.2.1.1.1)) (hcut.2 _ hmem)
      rw [if_neg (by rw [Blk.n, ht, List.length_append, List.length_cons]; omega), ht,
        getElem?_append_cons]
      refine ⟨it, items (h + 1) l₁ ++ p, q ++ items (h + 1) l₂, hrun, ?_, fun x hx => ?_,
        fun x hx => ?_, ?_⟩
      · rw [items_append, items_cons, nodeItems_succ, hpq, List.append_assoc, List.append_assoc]
      · exact (List.mem_append.1 hx).elim (hitems₁ x) (hp x)
      · exact (List.mem_append.1 hx).elim (hq x) ((hcut.here _ _ _ ht).2 (h₂ _ rfl) x)
      · rw [leaves_append_cons t ht, List.length_append, ← leavesOf_nodes]
        exact hden.within _ _

/-! ## The list -/

/-- The keys of the list agree on what is `before` something. -/
def CutAt (before : κ → Bool) (ksl : Ksl κ ν) : Prop :=
  match ksl.root with
  | none => True
  | some ⟨h, t⟩ => Cut before h t.nodes

variable {ksl : Ksl κ ν} {l : List (κ × ν)}

theorem Holds.cutAt (hh : Holds ord ksl l) {compar : κ → κ → Bool} (hc : Compares ord compar)
    (key : κ) : CutAt (fun k => compar k key) ksl := by
  cases hh with
  | null => trivial
  | root hok => exact cut_of_nodes hc key hok.nodes

theorem findIdx_of_append {p q : List (κ × ν)} {f : κ → Bool} (hp : ∀ x ∈ p, f x.1 = true)
    (hq : ∀ x ∈ q, f x.1 = false) : (p ++ q).findIdx (fun x => !f x.1) = p.length := by
  induction p with
  | nil =>
    cases q with
    | nil => rfl
    | cons x q => simp [List.findIdx_cons, hq x List.mem_cons_self]
  | cons x p ih =>
    rw [List.cons_append, List.findIdx_cons, hp x List.mem_cons_self,
      ih fun y hy => hp y (List.mem_cons_of_mem _ hy)]
    rfl

/-- `dwnx_ksl_lower_bound_search` finds the first item that is not before the key. -/
theorem Holds.lowerBound (hh : Holds ord ksl l) {compar : κ → κ → Bool} {key : κ}
    (hcut : CutAt (fun k => compar k key) ksl) :
    ∃ it, ksl.lowerBound compar key = some it ∧
      At ksl it (l.findIdx fun x => !compar x.1 key) := by
  cases hh with
  | null => exact ⟨_, rfl, rfl, rfl⟩
  | @root links h t l hok hl hitems =>
    have hne : t.nodes ≠ [] ∨ h = 0 :=
      hok.two_le.imp_left fun h => List.ne_nil_of_length_pos (Nat.lt_of_lt_of_le Nat.two_pos h)
    obtain ⟨it, p, q, hrun, hpq, hp, hq, hden⟩ := lowerBoundLoop_spec links hok.nodes hne
      hcut
    refine ⟨it, hrun, ?_⟩
    rw [← hitems, hpq, findIdx_of_append (f := fun k => compar k key) hp hq]
    exact hden

end Order

end Ksl

end Dwnx
