import Dwnx.GapList

/-!
# The gaps as a set

What is left out of the gaps after any pushes are exactly the integers pushed (`GapRun`), and
the functions of `dwnx_gaptr` answer accordingly. So the identifiers that `dwnx_idtr` takes for
open are exactly those that were opened (`IdtrRun`).

* `gapRun_exact`: both for every run.

The integer `2 ^ 64 - 1` is behind all gaps, and `dwnx_gaptr_get_first_gap_after` must not be
asked for it (`not_gapRun_exact`).
-/

namespace Dwnx

open Ksl (It Holds)

/-- The integer is in one of the ranges. -/
def Pushed (qs : List Range) (x : ℕ) : Prop := ∃ q ∈ qs, q.Has x

namespace GapList

/-- The gaps; without any there is still all of `[0, 2 ^ 64 - 1)`. -/
def gaps (gap : GapList) : Option (List Range) :=
  if gap.len = 0 then some [⟨0, uint64Max⟩]
  else (Ksl.forward gap (gap.len + 1) gap.begin).map (List.map Prod.fst)

/-- The gaps after pushes of ranges. -/
inductive GapRun : GapList → List Range → Prop
  | init : GapRun Ksl.init []
  | push {gap gap' : GapList} {qs : List Range} {offset datalen : ℕ} {rv : Except Err Unit}
    (h : GapRun gap qs) (hpos : 1 ≤ datalen) (hlt : offset + datalen < uint64Max)
    (hrun : gap.push offset datalen = some (rv, gap')) :
    GapRun gap' (⟨offset, offset + datalen⟩ :: qs)

/-- The gaps `g` are what was not pushed, and the functions tell so. -/
structure IsGapSet (gap : GapList) (g qs : List Range) : Prop where
  gaps : gap.gaps = some g
  nonempty : ∀ r ∈ g, r.begin < r.stop
  sorted : g.Pairwise fun a b => a.stop ≤ b.begin
  bounded : ∀ r ∈ g, r.stop ≤ uint64Max
  complement : ∀ x < uint64Max, (∃ r ∈ g, r.Has x) ↔ ¬Pushed qs x
  push : ∀ offset datalen, 1 ≤ datalen → offset + datalen < uint64Max →
    ∃ gap', gap.push offset datalen = some (.ok (), gap')
  isPushed : ∀ offset datalen, 1 ≤ datalen → offset + datalen < uint64Max →
    ∃ b, gap.isPushed offset datalen = some b ∧
      (b = true ↔ ∀ x, offset ≤ x → x < offset + datalen → Pushed qs x)
  firstGapOffset : ∃ o, gap.firstGapOffset = some o ∧ IsLeast {x | ¬Pushed qs x} o
  /-- The first gap that ends after `o`. -/
  getFirstGapAfter : ∀ o < uint64Max, ∃ k, gap.getFirstGapAfter o = some k ∧
    g.find? (fun r => o < r.stop) = some k

/-- The identifiers that a tracker was asked to open. -/
inductive IdtrRun : GapList → List ℕ → Prop
  | init : IdtrRun Ksl.init []
  | openId {gap gap' : GapList} {ids : List ℕ} {id : ℕ} {rv : Except Err Unit}
    (h : IdtrRun gap ids) (hid : id < 2 ^ 63) (hrun : gap.openId id = some (rv, gap')) :
    IdtrRun gap' (id :: ids)

/-- Identifiers are opened once, those that differ in their two low bits only as one. -/
structure IsIdSet (gap : GapList) (ids : List ℕ) : Prop where
  openId : ∀ id < 2 ^ 63, ∃ rv gap', gap.openId id = some (rv, gap') ∧
    ((∃ i ∈ ids, i / 4 = id / 4) ∧ rv = .error .streamInUse ∨
      (¬∃ i ∈ ids, i / 4 = id / 4) ∧ rv = .ok ())
  isOpen : ∀ id < 2 ^ 63, ∃ b, gap.isOpen id = some b ∧ (b = true ↔ ∃ i ∈ ids, i / 4 = id / 4)

/-! ## Gaps and what was pushed -/

/-- The gaps of a skip list, which may not have them yet. -/
def Has (gap : GapList) (g : List Range) : Prop :=
  Tracks gap g ∧ g ≠ [] ∨ Tracks gap [] ∧ g = [⟨0, uint64Max⟩]

/-- The gaps are what was not pushed. -/
structure Complement (g qs : List Range) : Prop where
  nonempty : ∀ r ∈ g, r.begin < r.stop
  sorted : g.Pairwise fun a b => a.stop ≤ b.begin
  bounded : ∀ r ∈ g, r.stop ≤ uint64Max
  iff : ∀ x < uint64Max, (∃ r ∈ g, r.Has x) ↔ ¬Pushed qs x
  pushed : ∀ q ∈ qs, q.stop < uint64Max

variable {gap gap' : GapList} {g qs : List Range} {q k : Range}

theorem Complement.init : Complement [⟨0, uint64Max⟩] [] where
  nonempty r hr := by
    rw [List.mem_singleton.1 hr]
    exact Nat.succ_pos _
  sorted := List.pairwise_singleton _ _
  bounded r hr := by
    rw [List.mem_singleton.1 hr]
  iff x hx := ⟨fun _ ⟨q, hq, _⟩ => absurd hq List.not_mem_nil,
    fun _ => ⟨_, List.mem_singleton_self _, Nat.zero_le _, hx⟩⟩
  pushed q hq := absurd hq List.not_mem_nil

theorem remainder_sorted (hq : q.begin < q.stop) :
    (Gaptr.remainder q k).Pairwise fun a b => a.stop ≤ b.begin := by
  rw [Gaptr.remainder]
  split_ifs <;> simp
  exact hq.le

/-- What is not in `q` stays of every gap. -/
theorem Complement.push (hc : Complement g qs) (hq : q.begin < q.stop) (hlt : q.stop < uint64Max) :
    Complement (Gaptr.pushGap g q) (q :: qs) := by
  rw [Gaptr.pushGap_eq hq hc.sorted hc.nonempty]
  refine ⟨fun r hr => ?_, ?_, fun r hr => ?_, fun x hx => ?_, fun r hr => ?_⟩
  · obtain ⟨k, hk, hr⟩ := List.mem_flatMap.1 hr
    exact (Gaptr.mem_remainder (hc.nonempty k hk) hr).2.1
  · rw [List.pairwise_flatMap]
    refine ⟨fun k hk => remainder_sorted hq, ?_⟩
    refine List.Pairwise.imp_of_mem (fun {a b} ha hb hab x hx y hy => ?_) hc.sorted
    have hxa := Gaptr.mem_remainder (hc.nonempty a ha) hx
    have hyb := Gaptr.mem_remainder (hc.nonempty b hb) hy
    omega
  · obtain ⟨k, hk, hr⟩ := List.mem_flatMap.1 hr
    exact (Gaptr.mem_remainder (hc.nonempty k hk) hr).2.2.trans (hc.bounded k hk)
  · have hpush : Pushed (q :: qs) x ↔ q.Has x ∨ Pushed qs x := by
      rw [Pushed, List.exists_mem_cons_iff]
      rfl
    rw [hpush, not_or, ← hc.iff x hx]
    constructor
    · rintro ⟨r, hr, hrx⟩
      obtain ⟨k, hk, hr⟩ := List.mem_flatMap.1 hr
      obtain ⟨hkx, hqx⟩ := Gaptr.has_remainder.1 ⟨r, hr, hrx⟩
      exact ⟨hqx, k, hk, hkx⟩
    · rintro ⟨hqx, k, hk, hkx⟩
      obtain ⟨r, hr, hrx⟩ := Gaptr.has_remainder.2 ⟨hkx, hqx⟩
      exact ⟨r, List.mem_flatMap.2 ⟨k, hk, hr⟩, hrx⟩
  · rcases List.mem_cons.1 hr with rfl | hr
    · exact hlt
    · exact hc.pushed r hr

/-- The last integer is never pushed. -/
theorem Complement.last (hc : Complement g qs) : ∃ r ∈ g, r.stop = uint64Max := by
  have hnot : ¬Pushed qs (uint64Max - 1) := by
    rintro ⟨q, hq, -, hlt⟩
    have := hc.pushed q hq
    omega
  obtain ⟨r, hr, hrx⟩ := (hc.iff (uint64Max - 1) (Nat.sub_lt (Nat.succ_pos _) Nat.one_pos)).2 hnot
  have := hc.bounded r hr
  have := hrx.2
  exact ⟨r, hr, by omega⟩

theorem Complement.ne_nil (hc : Complement g qs) : g ≠ [] := by
  obtain ⟨r, hr, -⟩ := hc.last
  exact List.ne_nil_of_mem hr

theorem range_eq {offset datalen : ℕ} (h : offset + datalen < 2 ^ 64) :
    range offset datalen = ⟨offset, offset + datalen⟩ := by
  rw [range, Nat.mod_eq_of_lt h]

theorem Tracks.len (ht : Tracks gap g) : gap.len = g.length := by
  rw [ht.holds.len, List.length_map]

/-- `dwnx_gaptr_push` -/
theorem Has.push (hg : gap.Has g) {offset datalen : ℕ} (hlt : offset + datalen < uint64Max) :
    ∃ gap', gap.push offset datalen = some (.ok (), gap') ∧
      Tracks gap' (Gaptr.pushGap g ⟨offset, offset + datalen⟩) := by
  rw [GapList.push, range_eq (hlt.trans (Nat.lt_succ_self _))]
  rcases hg with ⟨ht, hne⟩ | ⟨ht, rfl⟩
  · rw [if_neg (by rw [ht.len]; exact (List.length_pos_of_ne_nil hne).ne')]
    exact ht.pushRange _
  · obtain ⟨gap₁, hinit, ht₁⟩ := ht.gapInit
    rw [if_pos (show gap.len = 0 from ht.len), hinit]
    exact ht₁.pushRange _

/-- A run keeps exactly the gaps between what was pushed. -/
theorem GapRun.complement (h : GapRun gap qs) : ∃ g, gap.Has g ∧ Complement g qs := by
  induction h with
  | init => exact ⟨_, .inr ⟨.init, rfl⟩, .init⟩
  | @push gap gap' qs offset datalen rv h hpos hlt hrun ih =>
    obtain ⟨g, hg, hc⟩ := ih
    obtain ⟨gap₁, hrun₁, ht⟩ := hg.push hlt
    cases hrun.symm.trans hrun₁
    have hc' := hc.push (q := ⟨offset, offset + datalen⟩) (Nat.lt_add_of_pos_right hpos) hlt
    exact ⟨_, .inl ⟨ht, hc'.ne_nil⟩, hc'⟩

/-! ## Answers -/

theorem head?_dropWhile {α : Type} (f : α → Bool) (l : List α) :
    (l.dropWhile f).head? = l.find? fun x => !f x := by
  induction l with
  | nil => rfl
  | cons x l ih => cases hx : f x <;> simp [hx, ih]

/-- The search finds the first gap that is not before the range. -/
theorem Tracks.search_find (ht : Tracks gap g) (q : Range) :
    gap.search q = g.find? fun r => !r.exclusiveLess q := by
  rw [ht.search q, head?_dropWhile]

theorem Complement.exists_gap_after (hc : Complement g qs) {o : ℕ} (ho : o < uint64Max) :
    ∃ k, g.find? (fun r => o < r.stop) = some k := by
  obtain ⟨r, hr, hstop⟩ := hc.last
  refine Option.isSome_iff_exists.1 (List.find?_isSome.2 ⟨r, hr, ?_⟩)
  rw [hstop]
  exact decide_eq_true ho

/-- `dwnx_gaptr_get_first_gap_after` -/
theorem Has.getFirstGapAfter (hg : gap.Has g) (hc : Complement g qs) {o : ℕ}
    (ho : o < uint64Max) : gap.getFirstGapAfter o = g.find? fun r => o < r.stop := by
  rw [GapList.getFirstGapAfter, range_eq (show o + 1 < 2 ^ 64 from Nat.succ_lt_succ ho)]
  rcases hg with ⟨ht, hne⟩ | ⟨ht, rfl⟩
  · rw [if_neg (by rw [ht.len]; exact (List.length_pos_of_ne_nil hne).ne'), ht.search_find]
    refine List.find?_congr fun r hr => ?_
    have hrne := hc.nonempty r hr
    rw [Bool.eq_iff_iff, Range.exclusiveLess]
    simp only [Bool.not_and, Bool.not_not, Bool.or_eq_true, Bool.not_eq_true', decide_eq_true_eq,
      decide_eq_false_iff_not]
    omega
  · rw [if_pos (show gap.len = 0 from ht.len)]
    exact (List.find?_cons_of_pos (p := fun r : Range => decide (o < r.stop))
      (decide_eq_true ho)).symm

/-- A gap that is the first not before a range meets it if any does. -/
theorem first_meets {p ks : List Range} (hne : ∀ r ∈ p ++ k :: ks, r.begin < r.stop)
    (hs : (p ++ k :: ks).Pairwise fun a b => a.stop ≤ b.begin) (hq : q.begin < q.stop)
    (hp : ∀ r ∈ p, r.exclusiveLess q = true) (hk : k.exclusiveLess q = false) :
    (q.intersect k).len = 0 ↔ ∀ x, q.Has x → ¬∃ r ∈ p ++ k :: ks, r.Has x := by
  rw [Range.intersect_len]
  have hkne := hne k (by simp)
  constructor
  · rintro hmeet x ⟨hx, hx'⟩ ⟨r, hr, hrx, hrx'⟩
    rcases List.mem_append.1 hr with hr | hr
    · have hb := hp r hr
      rw [Range.exclusiveLess, Bool.and_eq_true, Bool.not_eq_true', decide_eq_false_iff_not] at hb
      omega
    rcases List.mem_cons.1 hr with rfl | hr
    · omega
    · have hafter := (pairwise_split hs).2 r hr
      rw [Range.exclusiveLess, Bool.and_eq_false_iff, decide_eq_false_iff_not, Bool.not_eq_false',
        decide_eq_true_eq] at hk
      omega
  · intro hno hmeet
    exact hno (max q.begin k.begin) ⟨by omega, by omega⟩ ⟨k, by simp, by omega, by omega⟩

/-- `dwnx_gaptr_is_pushed` -/
theorem Has.isPushed (hg : gap.Has g) (hc : Complement g qs) {offset datalen : ℕ}
    (hpos : 1 ≤ datalen) (hlt : offset + datalen < uint64Max) :
    ∃ b, gap.isPushed offset datalen = some b ∧
      (b = true ↔ ∀ x, offset ≤ x → x < offset + datalen → Pushed qs x) := by
  have hq : offset < offset + datalen := Nat.lt_add_of_pos_right hpos
  have hgap : ∀ x, offset ≤ x → x < offset + datalen → (Pushed qs x ↔ ¬∃ r ∈ g, r.Has x) := by
    intro x _ hx
    rw [hc.iff x (hx.trans hlt), not_not]
  rw [GapList.isPushed, range_eq (hlt.trans (Nat.lt_succ_self _))]
  rcases hg with ⟨ht, hne⟩ | ⟨ht, rfl⟩
  · -- the search ends at a gap
    have hsome : (g.find? fun r => !r.exclusiveLess ⟨offset, offset + datalen⟩).isSome := by
      obtain ⟨r, hr, hstop⟩ := hc.last
      refine List.find?_isSome.2 ⟨r, hr, ?_⟩
      have := hc.nonempty r hr
      rw [Range.exclusiveLess, Bool.not_eq_true', Bool.and_eq_false_iff, decide_eq_false_iff_not,
        Bool.not_eq_false', decide_eq_true_eq]
      dsimp only
      omega
    obtain ⟨k, hk⟩ := Option.isSome_iff_exists.1 hsome
    rw [if_neg (by rw [ht.len]; exact (List.length_pos_of_ne_nil hne).ne'), ht.search_find, hk]
    refine ⟨_, rfl, ?_⟩
    obtain ⟨hkq, p, ks, rfl, hp⟩ := List.find?_eq_some_iff_append.1 hk
    have hmeets := first_meets (q := ⟨offset, offset + datalen⟩) hc.nonempty hc.sorted hq
      (fun r hr => by simpa using hp r hr) (by simpa using hkq)
    rw [decide_eq_true_iff, hmeets]
    exact ⟨fun h x hx hx' => (hgap x hx hx').2 (h x ⟨hx, hx'⟩),
      fun h x hx => (hgap x hx.1 hx.2).1 (h x hx.1 hx.2)⟩
  · rw [if_pos (show gap.len = 0 from ht.len)]
    refine ⟨false, rfl, fun h => absurd h Bool.false_ne_true, fun h => ?_⟩
    have hx := (hgap offset (le_refl _) hq).1 (h offset (le_refl _) hq)
    exact absurd ⟨_, List.mem_singleton_self _, Nat.zero_le _, hq.trans hlt⟩ hx

/-- `dwnx_gaptr_first_gap_offset` -/
theorem Has.firstGapOffset (hg : gap.Has g) (hc : Complement g qs) :
    ∃ o, gap.firstGapOffset = some o ∧ IsLeast {x | ¬Pushed qs x} o := by
  obtain ⟨k, ks, rfl⟩ := List.exists_cons_of_ne_nil hc.ne_nil
  have hkne := hc.nonempty k List.mem_cons_self
  have hkb := hc.bounded k List.mem_cons_self
  refine ⟨k.begin, ?_, ?_, fun x hx => ?_⟩
  · rw [GapList.firstGapOffset]
    rcases hg with ⟨ht, hne⟩ | ⟨ht, he⟩
    · rw [if_neg (by rw [ht.len]; exact Nat.succ_ne_zero _),
        Tracks.itGet (p := []) ht ht.holds.begin]
      rfl
    · rw [if_pos (show gap.len = 0 from ht.len), (List.cons.inj he).1]
  · exact (hc.iff k.begin (hkne.trans_le hkb)).1 ⟨k, List.mem_cons_self, le_refl _, hkne⟩
  · rcases Nat.lt_or_ge x uint64Max with hlt | hge
    · obtain ⟨r, hr, hrx⟩ := (hc.iff x hlt).2 hx
      rcases List.mem_cons.1 hr with rfl | hr
      · exact hrx.1
      · have := (List.pairwise_cons.1 hc.sorted).1 r hr
        exact (hkne.le.trans this).trans hrx.1
    · exact (hkne.le.trans hkb).trans hge

theorem Has.gaps (hg : gap.Has g) : gap.gaps = some g := by
  rw [GapList.gaps]
  rcases hg with ⟨ht, hne⟩ | ⟨ht, rfl⟩
  · rw [if_neg (by rw [ht.len]; exact (List.length_pos_of_ne_nil hne).ne'),
      ht.holds.forward _ ht.holds.begin (by rw [ht.holds.len]; omega), List.drop_zero,
      Option.map_some, List.map_map]
    exact congrArg some (List.map_id g)
  · rw [if_pos (show gap.len = 0 from ht.len)]

theorem GapRun.isGapSet (h : GapRun gap qs) : ∃ g, IsGapSet gap g qs := by
  obtain ⟨g, hg, hc⟩ := h.complement
  refine ⟨g, hg.gaps, hc.nonempty, hc.sorted, hc.bounded, hc.iff, fun offset datalen _ hlt => ?_,
    fun offset datalen hpos hlt => hg.isPushed hc hpos hlt, hg.firstGapOffset hc, fun o ho => ?_⟩
  · obtain ⟨gap', hrun, -⟩ := hg.push hlt
    exact ⟨gap', hrun⟩
  · obtain ⟨k, hk⟩ := hc.exists_gap_after ho
    exact ⟨k, (hg.getFirstGapAfter hc ho).trans hk, hk⟩

/-! ## Identifiers -/

/-- The ordinal of an identifier as a range. -/
def idRange (id : ℕ) : Range := ⟨Idtr.idFromStreamId id, Idtr.idFromStreamId id + 1⟩

theorem pushed_ids {ids : List ℕ} {id : ℕ} :
    Pushed (ids.map idRange) (Idtr.idFromStreamId id) ↔ ∃ i ∈ ids, i / 4 = id / 4 := by
  constructor
  · rintro ⟨q, hq, hx⟩
    obtain ⟨i, hi, rfl⟩ := List.mem_map.1 hq
    have hx : i / 4 ≤ id / 4 ∧ id / 4 < i / 4 + 1 := hx
    exact ⟨i, hi, by omega⟩
  · rintro ⟨i, hi, hid⟩
    refine ⟨idRange i, List.mem_map_of_mem hi, ?_⟩
    rw [Range.Has, idRange, Idtr.idFromStreamId, Idtr.idFromStreamId, hid]
    exact ⟨le_refl _, Nat.lt_succ_self _⟩

theorem idFromStreamId_lt {id : ℕ} (hid : id < 2 ^ 63) :
    Idtr.idFromStreamId id + 1 < uint64Max := by
  rw [Idtr.idFromStreamId, uint64Max]
  omega

/-- `dwnx_idtr_is_open` -/
theorem Has.isOpen {ids : List ℕ} (hg : gap.Has g) (hc : Complement g (ids.map idRange)) {id : ℕ}
    (hid : id < 2 ^ 63) :
    ∃ b, gap.isOpen id = some b ∧ (b = true ↔ ∃ i ∈ ids, i / 4 = id / 4) := by
  obtain ⟨b, hb, hiff⟩ := hg.isPushed hc (le_refl 1) (idFromStreamId_lt hid)
  refine ⟨b, hb, hiff.trans (Iff.trans ⟨fun h => h _ (le_refl _) (Nat.lt_succ_self _),
    fun h x hx hx' => ?_⟩ pushed_ids)⟩
  rwa [Nat.le_antisymm (Nat.le_of_lt_succ hx') hx]

/-- `dwnx_idtr_open` -/
theorem Has.openId {ids : List ℕ} (hg : gap.Has g) (hc : Complement g (ids.map idRange)) {id : ℕ}
    (hid : id < 2 ^ 63) :
    ∃ rv gap', gap.openId id = some (rv, gap') ∧
      ((∃ i ∈ ids, i / 4 = id / 4) ∧ rv = .error .streamInUse ∧ gap' = gap ∨
        (¬∃ i ∈ ids, i / 4 = id / 4) ∧ rv = .ok () ∧ ∃ g', gap'.Has g' ∧
          Complement g' ((id :: ids).map idRange)) := by
  obtain ⟨b, hb, hiff⟩ := hg.isOpen hc hid
  rw [GapList.isOpen] at hb
  rw [GapList.openId, hb]
  cases b with
  | true => exact ⟨_, _, rfl, .inl ⟨hiff.1 rfl, rfl, rfl⟩⟩
  | false =>
    obtain ⟨gap', hrun, ht⟩ := hg.push (idFromStreamId_lt hid)
    have hc' := hc.push (q := idRange id) (Nat.lt_succ_self _) (idFromStreamId_lt hid)
    exact ⟨_, gap', hrun, .inr ⟨fun h => absurd (hiff.2 h) Bool.false_ne_true, rfl, _,
      .inl ⟨ht, hc'.ne_nil⟩, hc'⟩⟩

/-- An identifier with the ordinal of one that is there changes nothing. -/
theorem Complement.again {ids : List ℕ} (hc : Complement g (ids.map idRange)) {id : ℕ}
    (h : ∃ i ∈ ids, i / 4 = id / 4) : Complement g ((id :: ids).map idRange) := by
  obtain ⟨i, hi, hid⟩ := h
  have heq : idRange id = idRange i := by
    rw [idRange, idRange, Idtr.idFromStreamId, Idtr.idFromStreamId, hid]
  have hmem : idRange id ∈ ids.map idRange := heq ▸ List.mem_map_of_mem hi
  refine ⟨hc.nonempty, hc.sorted, hc.bounded, fun x hx => ?_, fun q hq => ?_⟩
  · rw [hc.iff x hx, List.map_cons, Pushed, Pushed, List.exists_mem_cons_iff]
    exact not_congr (or_iff_right_of_imp fun h => ⟨_, hmem, h⟩).symm
  · rcases List.mem_cons.1 hq with rfl | hq
    · exact hc.pushed _ hmem
    · exact hc.pushed q hq

theorem IdtrRun.complement {ids : List ℕ} (h : IdtrRun gap ids) :
    ∃ g, gap.Has g ∧ Complement g (ids.map idRange) := by
  induction h with
  | init => exact ⟨_, .inr ⟨.init, rfl⟩, .init⟩
  | openId h hid hrun ih =>
    obtain ⟨g, hg, hc⟩ := ih
    obtain ⟨rv, gap₁, hrun₁, hres⟩ := hg.openId hc hid
    cases hrun.symm.trans hrun₁
    rcases hres with ⟨hin, -, rfl⟩ | ⟨-, -, g', hg', hc'⟩
    · exact ⟨g, hg, hc.again hin⟩
    · exact ⟨g', hg', hc'⟩

theorem IdtrRun.isIdSet {ids : List ℕ} (h : IdtrRun gap ids) : IsIdSet gap ids := by
  obtain ⟨g, hg, hc⟩ := h.complement
  refine ⟨fun id hid => ?_, fun id hid => hg.isOpen hc hid⟩
  obtain ⟨rv, gap', hrun, hres⟩ := hg.openId hc hid
  exact ⟨rv, gap', hrun, hres.imp (fun h => ⟨h.1, h.2.1⟩) fun h => ⟨h.1, h.2.1⟩⟩

/-! ## The set over whole runs -/

/-- The gaps are the complement of what was pushed after every run, and the identifiers open are
    those opened. -/
theorem gapRun_exact : (∀ gap qs, GapRun gap qs → ∃ g, IsGapSet gap g qs) ∧
    ∀ gap ids, IdtrRun gap ids → IsIdSet gap ids :=
  ⟨fun _ _ h => h.isGapSet, fun _ _ h => h.isIdSet⟩

/-- Two pushes that leave a gap between them, and an identifier opened. -/
theorem gapRun_exact_two : (∃ gap g, IsGapSet gap g [⟨2, 5⟩, ⟨0, 1⟩]) ∧
    ∃ gap, IsIdSet gap [6] := by
  obtain ⟨g, hg⟩ := gapRun_exact.1 _ _ .init
  obtain ⟨gap₁, hrun₁⟩ := hg.push 0 1 (by decide) (by decide)
  obtain ⟨g₁, hg₁⟩ := gapRun_exact.1 _ _ (GapRun.init.push (by decide) (by decide) hrun₁)
  obtain ⟨gap₂, hrun₂⟩ := hg₁.push 2 3 (by decide) (by decide)
  have h₂ := (GapRun.init.push (by decide) (by decide) hrun₁).push (by decide) (by decide) hrun₂
  obtain ⟨rv, gap₃, hrun₃, -⟩ := (gapRun_exact.2 _ _ .init).openId 6 (by decide)
  exact ⟨⟨gap₂, gapRun_exact.1 _ _ h₂⟩, gap₃,
    gapRun_exact.2 _ _ (IdtrRun.init.openId (by decide) hrun₃)⟩

/-- There is no gap after the greatest integer of 64 bits, and the search for it fails. Of the
    identifiers `0` and `1`, which differ in their type only, a tracker takes one. -/
theorem not_gapRun_exact :
    (¬∀ gap qs, GapRun gap qs → ∀ o < 2 ^ 64, ∃ k, gap.getFirstGapAfter o = some k) ∧
    ¬∀ gap ids, IdtrRun gap ids → ∀ id < 2 ^ 63, id ∉ ids →
      ∃ gap', gap.openId id = some (.ok (), gap') := by
  constructor
  · intro hall
    have hrun : (push Ksl.init 0 1).map (fun r => r.2.getFirstGapAfter uint64Max) = some none := by
      decide +kernel
    obtain ⟨⟨rv, gap⟩, hpush, hnone⟩ := Option.map_eq_some_iff.1 hrun
    obtain ⟨k, hk⟩ := hall gap _ (GapRun.init.push (by decide) (by decide) hpush) uint64Max
      (Nat.lt_succ_self _)
    rw [hnone] at hk
    cases hk
  · intro hall
    have hrun : (openId Ksl.init 0).map (fun r => (r.2.openId 1).map Prod.fst) =
        some (some (.error .streamInUse)) := by
      decide +kernel
    obtain ⟨⟨rv, gap⟩, hopen, herr⟩ := Option.map_eq_some_iff.1 hrun
    obtain ⟨gap', hok⟩ := hall gap _ (IdtrRun.init.openId (by decide) hopen) 1 (by decide)
      (by decide)
    rw [hok] at herr
    cases herr

/-! ## The gaps of an endpoint -/

/-- The search of the list of the gaps is that of the skip list. -/
theorem Tracks.isPushed {t : Gaptr} (ht : Tracks gap t.gap) {x : ℕ} (hx : x + 1 < 2 ^ 64) :
    gap.isPushed x 1 = (t.isPushed x).toOption := by
  rw [GapList.isPushed, range_eq hx, Gaptr.isPushed]
  by_cases hnil : t.gap = []
  · rw [if_pos hnil, if_pos (by rw [ht.len, hnil]; rfl)]
    rfl
  · rw [if_neg hnil, if_neg (by rw [ht.len]; exact (List.length_pos_of_ne_nil hnil).ne')]
    dsimp only
    rw [ht.search, Gaptr.lowerBound]
    cases t.gap.dropWhile fun k => k.exclusiveLess ⟨x, x + 1⟩ <;> rfl

/-- Opening an identifier in the skip list is opening it in the list of the gaps. -/
theorem Tracks.openId {idtr : Idtr} (ht : Tracks gap idtr.gap.gap) (hroom : idtr.HasRoom) {id : ℕ}
    (hid : id ≤ maxVarint) :
    match idtr.openId id with
    | .ok idtr' => ∃ gap', gap.openId id = some (.ok (), gap') ∧ Tracks gap' idtr'.gap.gap
    | .error e => gap.openId id = some (.error e, gap) := by
  have hx : Idtr.idFromStreamId id + 1 < uint64Max := by
    rw [Idtr.idFromStreamId, uint64Max]
    rw [maxVarint] at hid
    omega
  obtain ⟨b, hb, hiff⟩ := Idtr.isOpen_eq hroom hid
  have hpushed := ht.isPushed (hx.trans (Nat.lt_succ_self _))
  rw [Idtr.isOpen] at hb
  rw [hb] at hpushed
  rw [GapList.openId, hpushed]
  cases b with
  | true =>
    rw [Idtr.openId_of_opened hroom hid (hiff.1 rfl)]
    rfl
  | false =>
    rw [Idtr.openId_of_not_opened hroom hid fun h => absurd (hiff.2 h) Bool.false_ne_true]
    have hg : gap.Has (if idtr.gap.gap = [] then Gaptr.full else idtr.gap).gap := by
      split
      · next hnil => exact .inr ⟨hnil ▸ ht, rfl⟩
      · next hnil => exact .inl ⟨ht, hnil⟩
    exact hg.push hx

end GapList

end Dwnx
