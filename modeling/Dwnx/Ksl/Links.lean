import Dwnx.Ksl.Basic
import Mathlib.Data.List.Nodup

/-!
# The links between blocks

For every height, the blocks of that height are in a list, by their addresses, and the
links run along these lists (`Linked`). What an operation on a part of the tree does to the
links is a relation between the lists of that part before and after, whatever is to the left
and to the right of it (`Relinks`).
-/

namespace Dwnx

namespace Ksl

variable {links links' : Links} {addrs : ℕ → List ℕ} {h : ℕ} {a b x : ℕ} {p q l : List ℕ}
  {before after : Option ℕ}

/-! ## Along a list -/

/-- The links run along a list, from the block `before` it to the one `after` it. -/
def Along (links : Links) (before : Option ℕ) : List ℕ → Option ℕ → Prop
  | [], _ => True
  | x :: l, after => links.next x = l.head?.or after ∧ links.prev x = before ∧
    Along links (some x) l after

/-- Two lists that follow each other are linked. -/
theorem along_append : Along links before (p ++ q) after ↔
    Along links before p (q.head?.or after) ∧ Along links (p.getLast?.or before) q after := by
  induction p generalizing before with
  | nil => simp [Along]
  | cons x p ih =>
    rw [List.cons_append, Along, Along, ih, List.head?_append, Option.or_assoc,
      List.getLast?_cons]
    simp only [and_assoc]
    cases p.getLast? <;> simp

/-- Links of other blocks do not matter. -/
theorem Along.congr (hl : Along links before l after)
    (hc : ∀ x ∈ l, links'.next x = links.next x ∧ links'.prev x = links.prev x) :
    Along links' before l after := by
  induction l generalizing before with
  | nil => exact hl
  | cons x l ih =>
    obtain ⟨hn, hp, hl⟩ := hl
    obtain ⟨hcn, hcp⟩ := hc x List.mem_cons_self
    exact ⟨hcn.trans hn, hcp.trans hp, ih hl fun y hy => hc y (List.mem_cons_of_mem _ hy)⟩

/-- The first block of a list gets another one before it. -/
theorem Along.rebase (hl : Along links (some a) q none) (hnd : q.Nodup)
    (hhead : ∀ x, q.head? = some x → links'.prev x = some b)
    (hnext : ∀ x ∈ q, links'.next x = links.next x)
    (hprev : ∀ x ∈ q, q.head? ≠ some x → links'.prev x = links.prev x) :
    Along links' (some b) q none := by
  cases q with
  | nil => trivial
  | cons y q =>
    obtain ⟨hn, -, hl⟩ := hl
    refine ⟨(hnext y List.mem_cons_self).trans hn, hhead y rfl, hl.congr fun x hx => ?_⟩
    refine ⟨hnext x (List.mem_cons_of_mem _ hx), hprev x (List.mem_cons_of_mem _ hx) ?_⟩
    rintro hy
    obtain rfl := Option.some.inj hy
    exact (List.nodup_cons.1 hnd).1 hx

/-! ## All the lists -/

/-- The links run along the lists `addrs`, one for each height, of blocks all different. -/
structure Linked (links : Links) (addrs : ℕ → List ℕ) : Prop where
  along : ∀ h, Along links none (addrs h) none
  fresh : ∀ h, ∀ x ∈ addrs h, x < links.fresh
  nodup : ∀ h, (addrs h).Nodup
  disjoint : ∀ h h', h ≠ h' → ∀ x ∈ addrs h, x ∉ addrs h'
  front : links.front = (addrs 0).head?
  back : links.back = (addrs 0).getLast?

/-- A new block is in no level. -/
theorem Linked.fresh_not_mem (hl : Linked links addrs) (h : ℕ) : links.fresh ∉ addrs h :=
  fun hm => Nat.lt_irrefl _ (hl.fresh h _ hm)

/-- Where the block `a` is in its list. -/
theorem Linked.at (hl : Linked links addrs) (ha : addrs h = p ++ a :: q) :
    Along links none p (some a) ∧ links.next a = q.head? ∧ links.prev a = p.getLast? ∧
    Along links (some a) q none := by
  have hal := hl.along h
  rw [ha, along_append] at hal
  obtain ⟨hp, hn, hpv, hq⟩ := hal
  rw [Option.or_none] at hn hpv
  exact ⟨hp, hn, hpv, hq⟩

/-- A block stands at one place. -/
theorem Linked.nodup_at (hl : Linked links addrs) (ha : addrs h = p ++ a :: q) :
    a ∉ p ∧ a ∉ q ∧ q.Nodup ∧ ∀ x ∈ p, x ∉ q := by
  have hnd := hl.nodup h
  rw [ha, List.nodup_append, List.nodup_cons] at hnd
  obtain ⟨-, ⟨haq, hq⟩, hpq⟩ := hnd
  exact ⟨fun hx => hpq a hx a List.mem_cons_self rfl, haq, hq,
    fun x hx hxq => hpq x hx x (List.mem_cons_of_mem _ hxq) rfl⟩

/-- A block stands on one level. -/
theorem Linked.other_at (hl : Linked links addrs) (ha : addrs h = p ++ a :: q) {h' : ℕ}
    (hh : h' ≠ h) (hx : x ∈ addrs h') : x ≠ a ∧ x ∉ q := by
  have hnot := hl.disjoint h' h hh x hx
  rw [ha, List.mem_append, List.mem_cons] at hnot
  exact ⟨fun h => hnot (.inr (.inl h)), fun h => hnot (.inr (.inr h))⟩

/-- A level with a new block shares none with the others. -/
theorem disjoint_update {new : List ℕ}
    (hd : ∀ h h', h ≠ h' → ∀ x ∈ addrs h, x ∉ addrs h')
    (hnew : ∀ x ∈ new, x ∈ addrs h ∨ ∀ h', x ∉ addrs h') :
    ∀ i j, i ≠ j → ∀ x ∈ Function.update addrs h new i, x ∉ Function.update addrs h new j := by
  intro i j hij x hi hj
  by_cases hih : i = h
  · subst hih
    rw [Function.update_self] at hi
    rw [Function.update_of_ne (Ne.symm hij)] at hj
    rcases hnew x hi with hx | hx
    · exact hd i j hij x hx hj
    · exact hx j hj
  · rw [Function.update_of_ne hih] at hi
    by_cases hjh : j = h
    · subst hjh
      rw [Function.update_self] at hj
      rcases hnew x hj with hx | hx
      · exact hd i j hij x hi hx
      · exact hx i hi
    · rw [Function.update_of_ne hjh] at hj
      exact hd i j hij x hi hj

/-! ## A block more -/

/-- The links ahead after a block was inserted. -/
theorem next_insertAfter (links : Links) (a x : ℕ) : (links.insertAfter a).next x =
    if x = a then some links.fresh else if x = links.fresh then links.next a else links.next x := by
  simp only [Links.insertAfter, Function.update_apply]

/-- The links back after a block was inserted. -/
theorem prev_insertAfter (links : Links) (a x : ℕ) : (links.insertAfter a).prev x =
    if x = links.fresh then some a else if links.next a = some x then some links.fresh
    else links.prev x := by
  simp only [Links.insertAfter, Function.update_apply]
  congr 1
  cases links.next a with
  | none => rfl
  | some y => simp only [Function.update_apply, Option.some.injEq, eq_comm]

/-- A new block behind `a`. -/
theorem Linked.insertAfter (hl : Linked links addrs) (ha : addrs h = p ++ a :: q) :
    Linked (links.insertAfter a) (Function.update addrs h (p ++ a :: links.fresh :: q)) := by
  obtain ⟨hp, hnext, hprev, hq⟩ := hl.at ha
  obtain ⟨hap, haq, hqn, hpq⟩ := hl.nodup_at ha
  have hf : links.fresh ∉ p ++ a :: q := ha ▸ hl.fresh_not_mem h
  simp only [List.mem_append, List.mem_cons, not_or] at hf
  have haf : a ≠ links.fresh := Ne.symm hf.2.1
  -- a block that is neither `a` nor right behind it keeps its links
  have hkeep : ∀ x, x ≠ a → x ≠ links.fresh → q.head? ≠ some x →
      (links.insertAfter a).next x = links.next x ∧
      (links.insertAfter a).prev x = links.prev x := by
    intro x hxa hxf hxq
    rw [next_insertAfter, prev_insertAfter, if_neg hxa, if_neg hxf, if_neg hxf, hnext,
      if_neg hxq]
    exact ⟨rfl, rfl⟩
  have hhead : ∀ x, x ∉ q → q.head? ≠ some x := fun x hx h => hx (List.mem_of_mem_head? h)
  refine ⟨fun h' => ?_, fun h' x hx => ?_, fun h' => ?_, ?_, ?_, ?_⟩
  · by_cases hh : h' = h
    · subst hh
      rw [Function.update_self, along_append]
      have hne : ∀ x ∈ q, x ≠ a ∧ x ≠ links.fresh := fun x hx =>
        ⟨fun h => haq (h ▸ hx), fun h => hf.2.2 (h ▸ hx)⟩
      refine ⟨hp.congr fun x hx => hkeep x (fun h => hap (h ▸ hx)) (fun h => hf.1 (h ▸ hx))
        (hhead x (hpq x hx)), ?_, ?_, ?_, ?_, ?_⟩
      · rw [next_insertAfter, if_pos rfl]
        rfl
      · rw [prev_insertAfter, if_neg haf, hnext, if_neg (hhead a haq), hprev, Option.or_none]
      · rw [next_insertAfter, if_neg (Ne.symm haf), if_pos rfl, hnext, Option.or_none]
      · rw [prev_insertAfter, if_pos rfl]
      · refine hq.rebase hqn (fun x hx => ?_) (fun x hx => ?_) fun x hx hxq => ?_
        · rw [prev_insertAfter, if_neg (hne x (List.mem_of_mem_head? hx)).2, hnext, if_pos hx]
        · rw [next_insertAfter, if_neg (hne x hx).1, if_neg (hne x hx).2]
        · exact (hkeep x (hne x hx).1 (hne x hx).2 hxq).2
    · rw [Function.update_of_ne hh]
      refine (hl.along h').congr fun x hx => ?_
      obtain ⟨hxa, hxq⟩ := hl.other_at ha hh hx
      exact hkeep x hxa (fun h => hl.fresh_not_mem h' (h ▸ hx)) (hhead x hxq)
  · have hold : x ∈ addrs h' ∨ x = links.fresh := by
      by_cases hh : h' = h
      · subst hh
        rw [Function.update_self] at hx
        rw [ha]
        simp only [List.mem_append, List.mem_cons] at hx ⊢
        tauto
      · rw [Function.update_of_ne hh] at hx
        exact .inl hx
    rcases hold with hx | rfl
    · exact Nat.lt_succ_of_lt (hl.fresh h' x hx)
    · exact Nat.lt_succ_self _
  · by_cases hh : h' = h
    · subst hh
      have hnd := hl.nodup h'
      rw [ha, List.nodup_append, List.nodup_cons] at hnd
      rw [Function.update_self, List.nodup_append, List.nodup_cons, List.nodup_cons]
      refine ⟨hnd.1, ⟨fun hx => ?_, hf.2.2, hqn⟩, fun x hx y hy hxy => ?_⟩
      · exact (List.mem_cons.1 hx).elim haf haq
      · subst hxy
        rcases List.mem_cons.1 hy with rfl | hy
        · exact hap hx
        rcases List.mem_cons.1 hy with rfl | hy
        · exact hf.1 hx
        · exact hpq x hx hy
    · rw [Function.update_of_ne hh]
      exact hl.nodup h'
  · refine disjoint_update hl.disjoint fun x hx => ?_
    rw [List.mem_append, List.mem_cons, List.mem_cons] at hx
    rw [ha, List.mem_append, List.mem_cons]
    rcases hx with hx | hx | rfl | hx
    · exact .inl (.inl hx)
    · exact .inl (.inr (.inl hx))
    · exact .inr hl.fresh_not_mem
    · exact .inl (.inr (.inr hx))
  · refine hl.front.trans ?_
    by_cases hh : 0 = h
    · subst hh
      rw [Function.update_self, ha]
      cases p <;> rfl
    · rw [Function.update_of_ne hh]
  · dsimp only [Links.insertAfter]
    rw [hnext, hl.back]
    by_cases hh : 0 = h
    · subst hh
      rw [Function.update_self, ha]
      cases q with
      | nil => simp
      | cons y q => simp
    · rw [Function.update_of_ne hh, if_neg]
      rintro ⟨-, hb⟩
      exact (hl.other_at ha hh (List.mem_of_mem_getLast? hb)).1 rfl

/-! ## A block less -/

/-- The links ahead after a block was taken out. -/
theorem next_unlink (links : Links) (a b x : ℕ) : (links.unlink a b).next x =
    if x = a then links.next b else links.next x := by
  simp only [Links.unlink, Function.update_apply]

/-- The links back after a block was taken out. -/
theorem prev_unlink (links : Links) (a b x : ℕ) : (links.unlink a b).prev x =
    if links.next b = some x then some a else links.prev x := by
  simp only [Links.unlink]
  cases links.next b with
  | none => rfl
  | some y => simp only [Function.update_apply, Option.some.injEq, eq_comm]

/-- The block `b` behind `a` is freed. -/
theorem Linked.unlink (hl : Linked links addrs) (ha : addrs h = p ++ a :: b :: q) :
    Linked (links.unlink a b) (Function.update addrs h (p ++ a :: q)) := by
  obtain ⟨hp, -, hprev, hbq⟩ := hl.at ha
  have hb : addrs h = (p ++ [a]) ++ b :: q := by rw [ha, List.append_assoc]; rfl
  obtain ⟨-, hnext, -, hq⟩ := hl.at hb
  obtain ⟨hap, haq, hqn, hpq⟩ := hl.nodup_at ha
  obtain ⟨hbq, hqn⟩ := List.nodup_cons.1 hqn
  have haq : a ∉ q := fun h => haq (List.mem_cons_of_mem _ h)
  have hpq : ∀ x ∈ p, x ∉ q := fun x hx hxq => hpq x hx (List.mem_cons_of_mem _ hxq)
  have hkeep : ∀ x, x ≠ a → q.head? ≠ some x →
      (links.unlink a b).next x = links.next x ∧ (links.unlink a b).prev x = links.prev x := by
    intro x hxa hxq
    rw [next_unlink, prev_unlink, if_neg hxa, hnext, if_neg hxq]
    exact ⟨rfl, rfl⟩
  have hhead : ∀ x, x ∉ q → q.head? ≠ some x := fun x hx h => hx (List.mem_of_mem_head? h)
  have hsub : List.Sublist (p ++ a :: q) (addrs h) := by
    rw [ha]
    exact (List.Sublist.refl p).append ((List.sublist_cons_self b q).cons_cons a)
  have hmem : ∀ h' x, x ∈ Function.update addrs h (p ++ a :: q) h' → x ∈ addrs h' := by
    intro h' x hx
    by_cases hh : h' = h
    · subst hh
      rw [Function.update_self] at hx
      exact hsub.subset hx
    · rwa [Function.update_of_ne hh] at hx
  refine ⟨fun h' => ?_, fun h' x hx => hl.fresh h' x (hmem h' x hx), fun h' => ?_,
    fun i j hij x hi hj => hl.disjoint i j hij x (hmem i x hi) (hmem j x hj), ?_, ?_⟩
  · by_cases hh : h' = h
    · subst hh
      rw [Function.update_self, along_append]
      refine ⟨hp.congr fun x hx => hkeep x (fun h => hap (h ▸ hx)) (hhead x (hpq x hx)),
        ?_, ?_, ?_⟩
      · rw [next_unlink, if_pos rfl, hnext, Option.or_none]
      · rw [(prev_unlink _ _ _ _), hnext, if_neg (hhead a haq), hprev, Option.or_none]
      · have hne : ∀ x ∈ q, x ≠ a := fun x hx h => haq (h ▸ hx)
        refine hq.rebase hqn (fun x hx => ?_) (fun x hx => ?_) fun x hx hxq => ?_
        · rw [prev_unlink, hnext, if_pos hx]
        · rw [next_unlink, if_neg (hne x hx)]
        · exact (hkeep x (hne x hx) hxq).2
    · rw [Function.update_of_ne hh]
      refine (hl.along h').congr fun x hx => ?_
      obtain ⟨hxa, hxq⟩ := hl.other_at ha hh hx
      exact hkeep x hxa (hhead x fun h => hxq (List.mem_cons_of_mem _ h))
  · by_cases hh : h' = h
    · subst hh
      rw [Function.update_self]
      exact (hl.nodup h').sublist hsub
    · rw [Function.update_of_ne hh]
      exact hl.nodup h'
  · refine hl.front.trans ?_
    by_cases hh : 0 = h
    · subst hh
      rw [Function.update_self, ha]
      cases p <;> rfl
    · rw [Function.update_of_ne hh]
  · dsimp only [Links.unlink]
    rw [hnext, hl.back]
    by_cases hh : 0 = h
    · subst hh
      rw [Function.update_self, ha]
      cases q with
      | nil => simp
      | cons y q => simp
    · rw [Function.update_of_ne hh, if_neg]
      rintro ⟨-, hbl⟩
      exact (hl.other_at hb hh (List.mem_of_mem_getLast? hbl)).1 rfl

/-! ## The root -/

/-- A new root, above the blocks there are. -/
theorem Linked.alloc (hl : Linked links addrs) (hh : h ≠ 0) (hempty : addrs h = []) :
    Linked links.alloc (Function.update addrs h [links.fresh]) := by
  have hkeep : ∀ x, x ≠ links.fresh → links.alloc.next x = links.next x ∧
      links.alloc.prev x = links.prev x := by
    intro x hx
    simp only [Links.alloc, Function.update_of_ne hx]
    exact ⟨trivial, trivial⟩
  refine ⟨fun h' => ?_, fun h' x hx => ?_, fun h' => ?_, ?_, ?_, ?_⟩
  · by_cases hh' : h' = h
    · subst hh'
      rw [Function.update_self]
      simp [Along, Links.alloc]
    · rw [Function.update_of_ne hh']
      exact (hl.along h').congr fun x hx =>
        hkeep x fun he => hl.fresh_not_mem h' (he ▸ hx)
  · by_cases hh' : h' = h
    · subst hh'
      rw [Function.update_self] at hx
      obtain rfl := List.mem_singleton.1 hx
      exact Nat.lt_succ_self _
    · rw [Function.update_of_ne hh'] at hx
      exact Nat.lt_succ_of_lt (hl.fresh h' x hx)
  · by_cases hh' : h' = h
    · subst hh'
      rw [Function.update_self]
      exact List.nodup_singleton _
    · rw [Function.update_of_ne hh']
      exact hl.nodup h'
  · refine disjoint_update hl.disjoint fun x hx => .inr ?_
    obtain rfl := List.mem_singleton.1 hx
    exact hl.fresh_not_mem
  · rw [Function.update_of_ne (Ne.symm hh)]
    exact hl.front
  · rw [Function.update_of_ne (Ne.symm hh)]
    exact hl.back

/-- The root is freed. -/
theorem Linked.free (hl : Linked links addrs) (hh : h ≠ 0) :
    Linked links (Function.update addrs h []) := by
  have hmem : ∀ h' x, x ∈ Function.update addrs h [] h' → h' ≠ h ∧ x ∈ addrs h' := by
    intro h' x hx
    by_cases hh' : h' = h
    · subst hh'
      rw [Function.update_self] at hx
      cases hx
    · rw [Function.update_of_ne hh'] at hx
      exact ⟨hh', hx⟩
  refine ⟨fun h' => ?_, fun h' x hx => hl.fresh h' x (hmem h' x hx).2, fun h' => ?_,
    fun i j hij x hi hj => hl.disjoint i j hij x (hmem i x hi).2 (hmem j x hj).2, ?_, ?_⟩
  · by_cases hh' : h' = h
    · subst hh'
      rw [Function.update_self]
      trivial
    · rw [Function.update_of_ne hh']
      exact hl.along h'
  · by_cases hh' : h' = h
    · subst hh'
      rw [Function.update_self]
      exact List.nodup_nil
    · rw [Function.update_of_ne hh']
      exact hl.nodup h'
  · rw [Function.update_of_ne (Ne.symm hh)]
    exact hl.front
  · rw [Function.update_of_ne (Ne.symm hh)]
    exact hl.back

/-! ## Parts of the tree -/

/-- Lists side by side. -/
def side (p q : ℕ → List ℕ) : ℕ → List ℕ := fun h => p h ++ q h

/-- Turning a part of the lists from `old` into `new` goes with turning `links` into `links'`,
    whatever is on both sides of the part. -/
def Relinks (links : Links) (old : ℕ → List ℕ) (links' : Links) (new : ℕ → List ℕ) : Prop :=
  ∀ p q, Linked links (side p (side old q)) → Linked links' (side p (side new q))

variable {old new newer l₁ l₂ : ℕ → List ℕ} {links'' : Links}

/-- No block is inserted or taken out. -/
theorem Relinks.refl (links : Links) (old : ℕ → List ℕ) : Relinks links old links old :=
  fun _ _ h => h

/-- One change after another. -/
theorem Relinks.trans (h : Relinks links old links' new) (h' : Relinks links' new links'' newer) :
    Relinks links old links'' newer := fun p q hl => h' p q (h p q hl)

/-- Blocks on both sides, in either order. -/
theorem side_assoc (p q r : ℕ → List ℕ) : side (side p q) r = side p (side q r) := by
  funext h
  exact List.append_assoc _ _ _

/-- A change between other blocks leaves those alone. -/
theorem Relinks.within (h : Relinks links old links' new) (l₁ l₂ : ℕ → List ℕ) :
    Relinks links (side l₁ (side old l₂)) links' (side l₁ (side new l₂)) := by
  intro p q hl
  have := h (side p l₁) (side l₂ q) (by simpa only [side_assoc] using hl)
  simpa only [side_assoc] using this

/-- The block `a` of height `h` gets a new block behind it. -/
theorem relinks_insertAfter (hold : old h = p ++ a :: q)
    (hnew : new = Function.update old h (p ++ a :: links.fresh :: q)) :
    Relinks links old (links.insertAfter a) new := by
  intro l r hl
  have hins := hl.insertAfter (h := h) (a := a) (p := l h ++ p) (q := q ++ r h)
    (by simp only [side, hold, List.append_assoc, List.cons_append])
  convert hins using 1
  funext h'
  by_cases hh : h' = h
  · subst hh
    simp only [side, hnew, Function.update_self, List.append_assoc, List.cons_append]
  · simp only [side, hnew, Function.update_of_ne hh]

/-- The block `b` of height `h` behind `a` is freed. -/
theorem relinks_unlink (hold : old h = p ++ a :: b :: q)
    (hnew : new = Function.update old h (p ++ a :: q)) :
    Relinks links old (links.unlink a b) new := by
  intro l r hl
  have hins := hl.unlink (h := h) (a := a) (b := b) (p := l h ++ p) (q := q ++ r h)
    (by simp only [side, hold, List.append_assoc, List.cons_append])
  convert hins using 1
  funext h'
  by_cases hh : h' = h
  · subst hh
    simp only [side, hnew, Function.update_self, List.append_assoc, List.cons_append]
  · simp only [side, hnew, Function.update_of_ne hh]

end Ksl

end Dwnx
