import Dwnx.Idtr
import Dwnx.SkipList
import Dwnx.Ksl.Keys

/-!
# The gaps in a skip list

`dwnx_gaptr` keeps the gaps in a skip list, by where they begin, and searches it for the first
gap that does not lie before a range, where a gap and a range that meet are not compared.
The search works, as the keys above the leaves are ranges that every gap is equal to or apart
from (`Tracks`). Gaps are only made smaller, so this stays when a key is left behind.

`pushLoop_spec` connects the loop of `dwnx_gaptr_push` to that over the list of the gaps
(`Gaptr.pushLoop`).
-/

namespace Dwnx

open Ksl (It Holds At CutAt Cut CutHere Nodes NodeOk NodeKeys Keys)

/-- `dwnx_gaptr`: a skip list of ranges, without data. -/
abbrev GapList := Ksl Range Unit

/-- `dwnx_ksl_range_compar` -/
def Range.less (a b : Range) : Bool := a.begin < b.begin

namespace GapList

/-! ## The functions -/

/-- The range of `datalen` integers from `offset` on. -/
def range (offset datalen : ℕ) : Range := ⟨offset, (offset + datalen) % 2 ^ 64⟩

/-- `gaptr_gap_init` -/
def gapInit (gap : GapList) : Option (Except Err Unit × GapList) := do
  let (rv, _, gap) ← gap.insert Range.less ⟨0, uint64Max⟩ ()
  some (rv, gap)

/-- The part of the loop of `dwnx_gaptr_push` that cuts `m` out of the gap `k`. -/
def cutGap (k m : Range) (it : It) (gap : GapList) : Option (Except Err Unit × It × GapList) :=
  let (l, r) := k.cut m
  if l.len ≠ 0 then do
    let gap ← gap.updateKey Range.less k l
    if r.len ≠ 0 then gap.insert Range.less r ()
    else some (.ok (), it, gap)
  else if r.len ≠ 0 then do
    let gap ← gap.updateKey Range.less k r
    some (.ok (), it, gap)
  else some (.ok (), it, gap)

/-- The loop of `dwnx_gaptr_push`. -/
def pushLoop (q : Range) : ℕ → It → GapList → Option (Except Err Unit × GapList)
  | 0, _, _ => none
  | fuel + 1, it, gap => do
    let stop ← gap.itEnd it
    if stop then some (.ok (), gap)
    else do
      let (k, _) ← gap.itGet it
      let m := q.intersect k
      if m.len = 0 then some (.ok (), gap)
      else if k = m then do
        let (_, it, gap) ← gap.removeHint Range.less it k
        let it ← it
        pushLoop q fuel it gap
      else do
        let (rv, it, gap) ← cutGap k m it gap
        match rv with
        | .error e => some (.error e, gap)
        | .ok () => do
          let it ← gap.itNext it
          pushLoop q fuel it gap

/-- The part of `dwnx_gaptr_push` once there are gaps. -/
def pushRange (gap : GapList) (q : Range) : Option (Except Err Unit × GapList) := do
  let it ← gap.lowerBound Range.exclusiveLess q
  pushLoop q (gap.len + 1) it gap

/-- `dwnx_gaptr_push` -/
def push (gap : GapList) (offset datalen : ℕ) : Option (Except Err Unit × GapList) :=
  let q := range offset datalen
  if gap.len = 0 then do
    let (rv, gap) ← gap.gapInit
    match rv with
    | .error e => some (.error e, gap)
    | .ok () => gap.pushRange q
  else gap.pushRange q

/-- `dwnx_gaptr_first_gap_offset` -/
def firstGapOffset (gap : GapList) : Option ℕ :=
  if gap.len = 0 then some 0
  else do
    let (k, _) ← gap.itGet gap.begin
    some k.begin

/-- The gap found by a search, which has to be there. -/
def search (gap : GapList) (q : Range) : Option Range := do
  let it ← gap.lowerBound Range.exclusiveLess q
  let stop ← gap.itEnd it
  if stop then none
  else do
    let (k, _) ← gap.itGet it
    some k

/-- `dwnx_gaptr_get_first_gap_after` -/
def getFirstGapAfter (gap : GapList) (offset : ℕ) : Option Range :=
  if gap.len = 0 then some ⟨0, uint64Max⟩ else gap.search (range offset 1)

/-- `dwnx_gaptr_is_pushed` -/
def isPushed (gap : GapList) (offset datalen : ℕ) : Option Bool :=
  let q := range offset datalen
  if gap.len = 0 then some false
  else do
    let k ← gap.search q
    some ((q.intersect k).len = 0)

/-- `dwnx_idtr_open` -/
def openId (gap : GapList) (streamId : ℕ) : Option (Except Err Unit × GapList) := do
  let q := Idtr.idFromStreamId streamId
  let pushed ← gap.isPushed q 1
  if pushed then some (.error .streamInUse, gap) else gap.push q 1

/-- `dwnx_idtr_is_open` -/
def isOpen (gap : GapList) (streamId : ℕ) : Option Bool :=
  gap.isPushed (Idtr.idFromStreamId streamId) 1

end GapList

/-! ## Gaps and the keys above them -/

/-- The ranges are the same or do not meet. -/
def Range.Apart (s r : Range) : Prop := s = r ∨ s.stop ≤ r.begin ∨ r.stop ≤ s.begin

/-- A range that every gap is equal to or apart from. -/
structure Range.Fits (g : List Range) (s : Range) : Prop where
  nonempty : s.begin < s.stop
  apart : ∀ r ∈ g, s.Apart r

/-- The skip list has these gaps. -/
structure GapList.Tracks (gap : GapList) (g : List Range) : Prop where
  holds : Holds Range.begin gap (g.map (·, ()))
  nonempty : ∀ r ∈ g, r.begin < r.stop
  sorted : g.Pairwise fun a b => a.stop ≤ b.begin
  keys : Keys (Range.Fits g) gap

namespace GapList

variable {gap : GapList} {g p ks : List Range} {k q r : Range} {it : It}

theorem compares : Ksl.Compares Range.begin Range.less := fun _ _ => decide_eq_true_iff

/-- The gaps before a gap and those behind it. -/
theorem pairwise_split (hs : (p ++ k :: ks).Pairwise fun a b : Range => a.stop ≤ b.begin) :
    (∀ a ∈ p, a.stop ≤ k.begin) ∧ ∀ b ∈ ks, k.stop ≤ b.begin := by
  rw [List.pairwise_append, List.pairwise_cons] at hs
  exact ⟨fun a ha => hs.2.2 a ha k List.mem_cons_self, hs.2.1.1⟩

theorem Tracks.init : Tracks Ksl.init [] where
  holds := Ksl.holds_init
  nonempty _ hr := absurd hr List.not_mem_nil
  sorted := List.Pairwise.nil
  keys := trivial

/-! ## The search -/

theorem cutHere_of_fits {h : ℕ} {l : List (Range × Ksl.Node Range Unit h)} {lo : WithBot ℕ}
    (hl : Nodes Range.begin h lo l) (hk : ∀ e ∈ l, NodeKeys (Range.Fits g) h e)
    (hg : ∀ x ∈ Ksl.items h l, x.1 ∈ g) (hne : ∀ r ∈ g, r.begin < r.stop) :
    CutHere (fun k => k.exclusiveLess q) l := by
  intro l₁ e l₂ he
  have hfit := (hk e (by rw [he]; simp)).key
  rw [he, Nodes, Ksl.spans_append] at hl
  have hmem : ∀ x, x ∈ Ksl.nodeItems h e ∨ x ∈ Ksl.items h l₂ → x.1 ∈ g := by
    intro x hx
    refine hg x ?_
    rw [he, Ksl.items_append, Ksl.items_cons]
    exact List.mem_append_right _ (List.mem_append.2 hx)
  simp only [Range.exclusiveLess, Bool.and_eq_true, Bool.and_eq_false_iff, decide_eq_true_eq,
    decide_eq_false_iff_not, Bool.not_eq_true', Bool.not_eq_false']
  refine ⟨fun hb x hx => ?_, fun hb x hx => ?_⟩
  · -- an item under the node is the range of the node or before it
    have hle := (NodeOk.bounds hl.2.1 x hx).2
    have hs := hfit.nonempty
    rcases hfit.apart x.1 (hmem x (.inl hx)) with heq | hap
    · rw [← heq]
      exact hb
    · omega
  · -- an item behind the node is behind its range
    have hlt := WithBot.coe_lt_coe.1 (Nodes.bounds hl.2.2 x hx).1
    have hxne := hne x.1 (hmem x (.inr hx))
    rcases hfit.apart x.1 (hmem x (.inr hx)) with heq | hap
    · exact absurd hlt (by rw [heq]; exact lt_irrefl _)
    · omega

theorem cut_of_fits (hne : ∀ r ∈ g, r.begin < r.stop) : ∀ {h : ℕ}
    {l : List (Range × Ksl.Node Range Unit h)} {lo : WithBot ℕ}, Nodes Range.begin h lo l →
      (∀ e ∈ l, NodeKeys (Range.Fits g) h e) → (∀ x ∈ Ksl.items h l, x.1 ∈ g) →
      Cut (fun k => k.exclusiveLess q) h l
  | 0, _, _, hl, hk, hg => cutHere_of_fits hl hk hg hne
  | h + 1, l, _, hl, hk, hg => by
    refine ⟨cutHere_of_fits hl hk hg hne, fun e he => ?_⟩
    obtain ⟨lo', hok⟩ := Ksl.spans_mem hl he
    exact cut_of_fits hne hok.2.1 (hk e he).2 fun x hx => hg x (List.mem_flatMap.2 ⟨e, he, hx⟩)

/-- The comparison of the search agrees with the order of the gaps. -/
theorem Tracks.cutAt (ht : Tracks gap g) (q : Range) : CutAt (fun k => k.exclusiveLess q) gap := by
  obtain ⟨hh, hne, -, hk⟩ := ht
  generalize hl : g.map (·, ()) = l at hh
  cases hh with
  | null => trivial
  | root hok hlinks hitems =>
    refine cut_of_fits hne hok.nodes hk fun x hx => ?_
    rw [hitems, ← hl] at hx
    obtain ⟨r, hr, rfl⟩ := List.mem_map.1 hx
    exact hr

theorem findIdx_not {α : Type} (f : α → Bool) (l : List α) :
    l.findIdx (fun x => !f x) = (l.takeWhile f).length := by
  induction l with
  | nil => rfl
  | cons x l ih => cases hx : f x <;> simp [List.findIdx_cons, hx, ih]

theorem Tracks.lowerBound (ht : Tracks gap g) (q : Range) :
    ∃ it, gap.lowerBound Range.exclusiveLess q = some it ∧
      At gap it (g.takeWhile fun k => k.exclusiveLess q).length := by
  obtain ⟨it, hrun, hat⟩ := ht.holds.lowerBound (ht.cutAt q)
  rw [List.findIdx_map] at hat
  exact ⟨it, hrun, findIdx_not (fun k : Range => k.exclusiveLess q) g ▸ hat⟩

theorem Tracks.itEnd (ht : Tracks gap (p ++ ks)) (hat : At gap it p.length) :
    gap.itEnd it = some (decide (ks = [])) := by
  rw [ht.holds.itEnd hat, List.length_map, List.length_append]
  congr 2
  rw [eq_iff_iff, ← List.length_eq_zero_iff]
  omega

theorem Tracks.itGet (ht : Tracks gap (p ++ k :: ks)) (hat : At gap it p.length) :
    gap.itGet it = some (k, ()) := by
  rw [ht.holds.itGet hat, List.map_append, List.getElem?_append_right (by simp), List.length_map,
    Nat.sub_self]
  rfl

theorem Tracks.search (ht : Tracks gap g) (q : Range) :
    gap.search q = (g.dropWhile fun k => k.exclusiveLess q).head? := by
  obtain ⟨it, hrun, hat⟩ := ht.lowerBound q
  have hsplit := List.takeWhile_append_dropWhile (p := fun k : Range => k.exclusiveLess q) (l := g)
  generalize g.takeWhile (fun k => k.exclusiveLess q) = p at hat hsplit
  generalize g.dropWhile (fun k => k.exclusiveLess q) = ks at hsplit ⊢
  rw [← hsplit] at ht
  rw [GapList.search, hrun]
  simp only [Option.bind_eq_bind, Option.bind_some]
  rw [ht.itEnd hat]
  cases ks with
  | nil => rfl
  | cons k ks =>
    rw [Option.bind_some, if_neg (by simp), ht.itGet hat]
    rfl

/-! ## Changes of the gaps -/

theorem Tracks.seps (ht : Tracks gap g) : ∀ s ∈ gap.seps, Range.Fits g s :=
  (ht.holds.keys_iff.1 ht.keys).1

/-- A gap fits among the others. -/
theorem fits_of_mem (hne : ∀ r ∈ g, r.begin < r.stop)
    (hs : g.Pairwise fun a b => a.stop ≤ b.begin) {r : Range} (hr : r ∈ g) : Range.Fits g r := by
  refine ⟨hne r hr, fun x hx => ?_⟩
  obtain ⟨a, b, rfl⟩ := List.append_of_mem hr
  obtain ⟨ha, hb⟩ := pairwise_split hs
  rcases List.mem_append.1 hx with hx | hx
  · exact .inr (.inr (ha x hx))
  rcases List.mem_cons.1 hx with rfl | hx
  · exact .inl rfl
  · exact .inr (.inl (hb x hx))

/-- The gaps are held in order, and all keys above them fit. -/
theorem Tracks.of_seps (hh : Holds Range.begin gap (g.map (·, ())))
    (hne : ∀ r ∈ g, r.begin < r.stop) (hs : g.Pairwise fun a b => a.stop ≤ b.begin)
    (hk : ∀ s ∈ gap.seps, Range.Fits g s) : Tracks gap g := by
  refine ⟨hh, hne, hs, hh.keys_iff.2 ⟨hk, fun x hx => ?_⟩⟩
  obtain ⟨r, hr, rfl⟩ := List.mem_map.1 hx
  exact fits_of_mem hne hs hr

theorem Range.Fits.subset {g' : List Range} {s : Range} (hf : Range.Fits g s) (hg : g' ⊆ g) :
    Range.Fits g' s :=
  ⟨hf.nonempty, fun r hr => hf.apart r (hg hr)⟩

/-- A gap is removed at an iterator, which goes on to the next one. -/
theorem Tracks.removeHint (ht : Tracks gap (p ++ k :: ks)) (hat : At gap it p.length) :
    ∃ it' gap', gap.removeHint Range.less it k = some (.ok (), some it', gap') ∧
      Tracks gap' (p ++ ks) ∧ At gap' it' p.length := by
  have hsub : p ++ ks ⊆ p ++ k :: ks := fun x hx => by
    rcases List.mem_append.1 hx with hx | hx <;> simp [hx]
  have hl : (p ++ k :: ks).map (·, ()) = p.map (·, ()) ++ (k, ()) :: ks.map (·, ()) := by
    rw [List.map_append, List.map_cons]
  rw [← List.length_map (f := fun r : Range => (r, ()))] at hat
  obtain ⟨it', gap', hrun, hh', hat'⟩ := ht.holds.removeHint compares hl rfl hat
  rw [List.length_map] at hat'
  rw [← List.map_append] at hh'
  have hkeys : Keys (Range.Fits (p ++ k :: ks)) gap' := ht.keys.removeHint hrun
  refine ⟨it', gap', hrun, .of_seps hh' (fun r hr => ht.nonempty r (hsub hr)) ?_ fun s hs => ?_,
    hat'⟩
  · exact ht.sorted.sublist ((List.sublist_cons_self k ks).append_left p)
  · exact Range.Fits.subset ((hh'.keys_iff.1 hkeys).1 s hs) hsub

/-- A gap is made smaller. The keys above keep apart from what it loses. -/
theorem Tracks.updateKey (ht : Tracks gap (p ++ k :: ks)) {k' : Range} (hne : k'.begin < k'.stop)
    (hbegin : k.begin ≤ k'.begin) (hstop : k'.stop ≤ k.stop) :
    ∃ gap', gap.updateKey Range.less k k' = some gap' ∧ Tracks gap' (p ++ k' :: ks) ∧
      (∀ it i, At gap it i → At gap' it i) ∧
      ∀ s ∈ gap'.seps, s = k' ∨ s.stop ≤ k.begin ∨ k.stop ≤ s.begin := by
  obtain ⟨hp, hq⟩ := pairwise_split ht.sorted
  have hl : (p ++ k :: ks).map (·, ()) = p.map (·, ()) ++ (k, ()) :: ks.map (·, ()) := by
    rw [List.map_append, List.map_cons]
  have hlt : ∀ x ∈ p.map (·, ()), x.1.begin < k'.begin := by
    intro x hx
    obtain ⟨r, hr, rfl⟩ := List.mem_map.1 hx
    have := hp r hr
    have := ht.nonempty r (by simp [hr])
    dsimp only
    omega
  have hgt : ∀ x ∈ ks.map (·, ()), k'.begin < x.1.begin := by
    intro x hx
    obtain ⟨r, hr, rfl⟩ := List.mem_map.1 hx
    have := hq r hr
    dsimp only
    omega
  obtain ⟨gap', hrun, hh', hpos⟩ := ht.holds.updateKey compares hl rfl hlt hgt fun s _ => by omega
  -- keys left above the leaves are apart from the old gap
  have hseps : ∀ s ∈ gap'.seps, s = k' ∨ Range.Fits (p ++ k :: ks) s ∧
      (s.stop ≤ k.begin ∨ k.stop ≤ s.begin) := by
    intro s hs
    rcases ht.holds.updateKey_seps compares hrun s hs with rfl | ⟨hs, hne⟩
    · exact .inl rfl
    · have hfit := ht.seps s hs
      refine .inr ⟨hfit, (hfit.apart k (by simp)).resolve_left ?_⟩
      rintro rfl
      exact hne rfl
  have hsorted : (p ++ k' :: ks).Pairwise fun a b : Range => a.stop ≤ b.begin := by
    have hs := ht.sorted
    rw [List.pairwise_append, List.pairwise_cons] at hs ⊢
    refine ⟨hs.1, ⟨fun b hb => hstop.trans (hq b hb), hs.2.1.2⟩, fun a ha b hb => ?_⟩
    rcases List.mem_cons.1 hb with rfl | hb
    · exact (hp a ha).trans hbegin
    · exact hs.2.2 a ha b (List.mem_cons_of_mem _ hb)
  have hnonempty : ∀ r ∈ p ++ k' :: ks, r.begin < r.stop := by
    intro r hr
    rcases List.mem_append.1 hr with hr | hr
    · exact ht.nonempty r (List.mem_append_left _ hr)
    rcases List.mem_cons.1 hr with rfl | hr
    · exact hne
    · exact ht.nonempty r (List.mem_append_right _ (List.mem_cons_of_mem _ hr))
  refine ⟨gap', hrun, .of_seps (by rwa [List.map_append, List.map_cons]) hnonempty hsorted
    fun s hs => ?_, hpos, fun s hs => (hseps s hs).imp_right And.right⟩
  rcases hseps s hs with rfl | ⟨hfit, hap⟩
  · exact fits_of_mem hnonempty hsorted (by simp)
  · refine ⟨hfit.nonempty, fun r hr => ?_⟩
    rcases List.mem_append.1 hr with hr | hr
    · exact hfit.apart r (List.mem_append_left _ hr)
    rcases List.mem_cons.1 hr with rfl | hr
    · exact .inr (hap.imp (fun h => h.trans hbegin) fun h => hstop.trans h)
    · exact hfit.apart r (List.mem_append_right _ (List.mem_cons_of_mem _ hr))

/-- A gap is inserted between others, apart from all keys above them. -/
theorem Tracks.insert (ht : Tracks gap (p ++ ks)) (hne : r.begin < r.stop)
    (hp : ∀ a ∈ p, a.stop ≤ r.begin) (hq : ∀ b ∈ ks, r.stop ≤ b.begin)
    (hap : ∀ s ∈ gap.seps, s.stop ≤ r.begin ∨ r.stop ≤ s.begin) :
    ∃ it gap', gap.insert Range.less r () = some (.ok (), it, gap') ∧
      Tracks gap' (p ++ r :: ks) ∧ At gap' it p.length := by
  have hsorted : (p ++ r :: ks).Pairwise fun a b : Range => a.stop ≤ b.begin := by
    have hs := ht.sorted
    rw [List.pairwise_append] at hs ⊢
    refine ⟨hs.1, List.pairwise_cons.2 ⟨hq, hs.2.1⟩, fun a ha b hb => ?_⟩
    rcases List.mem_cons.1 hb with rfl | hb
    · exact hp a ha
    · exact hs.2.2 a ha b hb
  have hnonempty : ∀ x ∈ p ++ r :: ks, x.begin < x.stop := by
    intro x hx
    rcases List.mem_append.1 hx with hx | hx
    · exact ht.nonempty x (List.mem_append_left _ hx)
    rcases List.mem_cons.1 hx with rfl | hx
    · exact hne
    · exact ht.nonempty x (List.mem_append_right _ hx)
  -- every key fits with the new gap
  have hfit : ∀ s, Range.Fits (p ++ ks) s → s.stop ≤ r.begin ∨ r.stop ≤ s.begin →
      Range.Fits (p ++ r :: ks) s := by
    refine fun s hs hap => ⟨hs.nonempty, fun x hx => ?_⟩
    rcases List.mem_append.1 hx with hx | hx
    · exact hs.apart x (List.mem_append_left _ hx)
    rcases List.mem_cons.1 hx with rfl | hx
    · exact .inr hap
    · exact hs.apart x (List.mem_append_right _ hx)
  have hkeys : Keys (Range.Fits (p ++ r :: ks)) gap := by
    refine ht.holds.keys_iff.2 ⟨fun s hs => hfit s (ht.seps s hs) (hap s hs), fun x hx => ?_⟩
    obtain ⟨y, hy, rfl⟩ := List.mem_map.1 hx
    refine fits_of_mem hnonempty hsorted ?_
    rcases List.mem_append.1 hy with hy | hy <;> simp [hy]
  obtain ⟨rv, it, gap', hrun, hres⟩ := ht.holds.insert compares r ()
  have hkeys' : Keys (Range.Fits (p ++ r :: ks)) gap' :=
    hkeys.insert (fits_of_mem hnonempty hsorted (by simp)) hrun
  have hlt : ∀ a ∈ p, a.begin < r.begin := fun a ha => by
    have := hp a ha
    have := hnonempty a (List.mem_append_left _ ha)
    omega
  have hgt : ∀ b ∈ ks, r.begin < b.begin := fun b hb => by
    have := hq b hb
    omega
  cases hres with
  | @present gap' it e he hk =>
    obtain ⟨y, hy, rfl⟩ := List.mem_map.1 he
    rcases List.mem_append.1 hy with hy | hy
    · exact absurd hk (hlt y hy).ne
    · exact absurd hk (hgt y hy).ne'
  | @absent gap' it p' q' hl hp' hq' hh' hat =>
    -- the place of the new gap
    have hiff : ∀ x : Range × Unit, decide (x.1.begin < r.begin) = true ↔ x.1.begin < r.begin :=
      fun _ => decide_eq_true_iff
    have hsplit : p.map (·, ()) = p' ∧ ks.map (·, ()) = q' := by
      have htake := Ksl.takeWhile_of_append (p := p') (q := q')
        (fun x hx => (hiff x).2 (hp' x hx)) fun x hx => decide_eq_false (hq' x hx).not_gt
      have hdrop := Ksl.dropWhile_of_append (p := p') (q := q')
        (fun x hx => (hiff x).2 (hp' x hx)) fun x hx => decide_eq_false (hq' x hx).not_gt
      rw [← hl, List.map_append] at htake hdrop
      have hp₁ : ∀ x ∈ p.map (·, ()), decide (x.1.begin < r.begin) = true := by
        intro x hx
        obtain ⟨a, ha, rfl⟩ := List.mem_map.1 hx
        exact decide_eq_true (hlt a ha)
      have hq₁ : ∀ x ∈ ks.map (·, ()), decide (x.1.begin < r.begin) = false := by
        intro x hx
        obtain ⟨b, hb, rfl⟩ := List.mem_map.1 hx
        exact decide_eq_false (hgt b hb).not_gt
      rw [Ksl.takeWhile_of_append hp₁ hq₁] at htake
      rw [Ksl.dropWhile_of_append hp₁ hq₁] at hdrop
      exact ⟨htake, hdrop⟩
    obtain ⟨rfl, rfl⟩ := hsplit
    rw [List.length_map] at hat
    have hh' : Holds Range.begin gap' ((p ++ r :: ks).map (·, ())) := by
      rwa [List.map_append, List.map_cons]
    exact ⟨it, gap', hrun, .of_seps hh' hnonempty hsorted (hh'.keys_iff.1 hkeys').1, hat⟩

/-! ## A push -/

/-- What the loop does at a gap that meets `q`, but has more integers. -/
theorem Tracks.cutGap (ht : Tracks gap (p ++ k :: ks)) (hat : At gap it p.length)
    (hm : (q.intersect k).len ≠ 0) (hne : k ≠ q.intersect k) :
    ∃ it' gap' p', cutGap k (q.intersect k) it gap = some (.ok (), it', gap') ∧
      Tracks gap' (p ++ p' ++ ks) ∧ p' ≠ [] ∧ At gap' it' (p ++ p').length.pred ∧
      p' = (if (k.cut (q.intersect k)).1.len = 0 then [] else [(k.cut (q.intersect k)).1]) ++
        (if (k.cut (q.intersect k)).2.len = 0 then [] else [(k.cut (q.intersect k)).2]) := by
  have hmeet : max q.begin k.begin < min q.stop k.stop := by
    by_contra h
    exact hm (Range.intersect_len.2 h)
  obtain ⟨m, hmq⟩ : ∃ m, m = q.intersect k := ⟨_, rfl⟩
  rw [← hmq] at hne ⊢
  have hm₁ : k.begin ≤ m.begin ∧ m.begin < m.stop ∧ m.stop ≤ k.stop := by
    rw [hmq, Range.intersect, if_pos hmeet]
    dsimp only
    omega
  obtain ⟨hp, hq⟩ := pairwise_split ht.sorted
  -- the parts of the gap on both sides
  obtain ⟨l, r, hcut, hl, hr⟩ : ∃ l r, k.cut m = (l, r) ∧ (l.begin = k.begin ∧ l.stop = m.begin) ∧
      r.begin = m.stop ∧ r.stop = k.stop := ⟨_, _, rfl, ⟨rfl, rfl⟩, rfl, rfl⟩
  have hlen : ∀ x : Range, x.len = x.stop - x.begin := fun _ => rfl
  rw [GapList.cutGap, hcut]
  dsimp only
  by_cases hl0 : l.len = 0
  · have hr0 : r.len ≠ 0 := by
      intro hr0
      refine hne ?_
      obtain ⟨b, e⟩ := k
      obtain ⟨b', e'⟩ := m
      rw [hlen] at hl0 hr0
      dsimp only at hl hr hm₁
      rw [Range.mk.injEq]
      omega
    have hr1 := hlen r
    obtain ⟨gap', hrun, ht', hpos, -⟩ := ht.updateKey (show r.begin < r.stop by omega) (by omega)
      hr.2.le
    rw [if_neg (not_ne_iff.2 hl0), if_pos hr0, hrun, if_pos hl0, if_neg hr0]
    refine ⟨it, gap', _, rfl, ?_, List.cons_ne_nil _ _, ?_, rfl⟩
    · rwa [List.append_assoc]
    · rw [List.length_append]
      exact hpos it _ hat
  · have hl1 := hlen l
    obtain ⟨gap', hrun, ht', hpos, hsep⟩ := ht.updateKey (show l.begin < l.stop by omega) hl.1.ge
      (by omega)
    rw [if_pos hl0, hrun, if_neg hl0]
    by_cases hr0 : r.len = 0
    · rw [if_pos hr0]
      refine ⟨it, gap', [l], ?_, ?_, List.cons_ne_nil _ _, ?_, rfl⟩
      · rw [Option.bind_eq_bind, Option.bind_some, if_neg (not_ne_iff.2 hr0)]
      · rwa [List.append_assoc]
      · rw [List.length_append]
        exact hpos it _ hat
    · -- the part behind `m` becomes a gap of its own
      have hr1 := hlen r
      rw [List.append_cons] at ht'
      have hbefore : ∀ a ∈ p ++ [l], a.stop ≤ r.begin := by
        intro a ha
        rcases List.mem_append.1 ha with ha | ha
        · have := hp a ha
          omega
        · rw [List.mem_singleton.1 ha]
          omega
      obtain ⟨it', gap₂, hins, ht₂, hat₂⟩ := ht'.insert (r := r) (by omega) hbefore
        (fun b hb => hr.2.le.trans (hq b hb)) fun s hs => by
          rcases hsep s hs with rfl | hs
          · exact .inl (by omega)
          · exact hs.imp (fun h => by omega) fun h => by omega
      rw [if_neg hr0]
      refine ⟨it', gap₂, [l, r], ?_, ?_, List.cons_ne_nil _ _, ?_, rfl⟩
      · rw [Option.bind_eq_bind, Option.bind_some, if_pos hr0, hins]
      · rw [List.append_assoc] at ht₂ ⊢
        exact ht₂
      · rw [List.length_append] at hat₂ ⊢
        exact hat₂

/-- The loop does to the skip list what `Gaptr.pushLoop` does to the list of the gaps. -/
theorem pushLoop_spec : ∀ (ks : List Range) {p : List Range} {gap : GapList} {it : It} {fuel : ℕ},
    ks.length < fuel → Tracks gap (p ++ ks) → At gap it p.length →
    ∃ gap', pushLoop q fuel it gap = some (.ok (), gap') ∧
      Tracks gap' (p ++ Gaptr.pushLoop q ks)
  | _, _, _, _, 0, hfuel, _, _ => absurd hfuel (Nat.not_lt_zero _)
  | [], p, gap, it, fuel + 1, _, ht, hat => by
    rw [pushLoop, ht.itEnd hat]
    exact ⟨gap, rfl, ht⟩
  | k :: ks, p, gap, it, fuel + 1, hfuel, ht, hat => by
    have hfuel' : ks.length < fuel := Nat.lt_of_succ_lt_succ hfuel
    rw [pushLoop, ht.itEnd hat, Gaptr.pushLoop]
    simp only [Option.bind_eq_bind, Option.bind_some]
    rw [if_neg (by simp), ht.itGet hat, Option.bind_some]
    dsimp only
    by_cases hm : (q.intersect k).len = 0
    · rw [if_pos hm, if_pos hm]
      exact ⟨gap, rfl, ht⟩
    rw [if_neg hm, if_neg hm]
    by_cases hk : k = q.intersect k
    · -- the gap is removed
      rw [if_pos hk, if_pos hk]
      obtain ⟨it', gap', hrun, ht', hat'⟩ := ht.removeHint hat
      rw [hrun]
      exact pushLoop_spec ks hfuel' ht' hat'
    · rw [if_neg hk, if_neg hk]
      obtain ⟨it', gap', p', hrun, ht', hne, hat', hp'⟩ := ht.cutGap hat hm hk
      have hlen : 0 < (p ++ p').length :=
        List.length_pos_of_ne_nil (List.append_ne_nil_of_right_ne_nil p hne)
      have hlt : (p ++ p').length.pred < ((p ++ p' ++ ks).map (·, ())).length := by
        rw [List.length_map]
        exact (Nat.pred_lt hlen.ne').trans_le (List.sublist_append_left _ ks).length_le
      obtain ⟨it₂, hnext, hat₂⟩ := ht'.holds.itNext hat' hlt
      rw [hrun]
      simp only [Option.bind_some]
      rw [hnext, Option.bind_some, ← hp', ← List.append_assoc]
      rw [← Nat.succ_eq_add_one, Nat.succ_pred hlen.ne'] at hat₂
      exact pushLoop_spec ks hfuel' ht' hat₂

theorem Tracks.pushRange (ht : Tracks gap g) (q : Range) :
    ∃ gap', gap.pushRange q = some (.ok (), gap') ∧ Tracks gap' (Gaptr.pushGap g q) := by
  obtain ⟨it, hrun, hat⟩ := ht.lowerBound q
  rw [← List.takeWhile_append_dropWhile (p := fun k : Range => k.exclusiveLess q) (l := g)] at ht
  have hlen : (g.dropWhile fun k => k.exclusiveLess q).length < gap.len + 1 := by
    rw [ht.holds.len, List.length_map, List.length_append]
    omega
  obtain ⟨gap', hloop, ht'⟩ := pushLoop_spec _ hlen ht hat
  refine ⟨gap', ?_, ht'⟩
  rw [GapList.pushRange, hrun]
  exact hloop

/-- There are no keys above the leaves without gaps. -/
theorem seps_nil (hh : Holds Range.begin gap []) : gap.seps = [] := by
  generalize hl : ([] : List (Range × Unit)) = l at hh
  cases hh with
  | null => rfl
  | @root links h t l hok hlinks hitems =>
    cases h with
    | zero => rfl
    | succ h =>
      have htwo := hok.two_le.resolve_right (Nat.succ_ne_zero h)
      obtain ⟨e, es, he⟩ := List.exists_cons_of_ne_nil
        (List.ne_nil_of_length_pos (Nat.lt_of_lt_of_le Nat.two_pos htwo))
      have hnodes := hok.nodes
      rw [he] at hnodes hitems
      rw [Ksl.items_cons, ← hl] at hitems
      exact absurd (List.append_eq_nil_iff.1 hitems).1 hnodes.1.items_ne_nil

/-- The first gap. -/
theorem Tracks.gapInit (ht : Tracks gap []) :
    ∃ gap', gap.gapInit = some (.ok (), gap') ∧ Tracks gap' [⟨0, uint64Max⟩] := by
  have hnone : ∀ s ∈ gap.seps, s.stop ≤ 0 ∨ uint64Max ≤ s.begin := by
    rw [seps_nil ht.holds]
    exact fun s hs => absurd hs List.not_mem_nil
  obtain ⟨it, gap', hrun, ht', -⟩ := ht.insert (p := []) (r := ⟨0, uint64Max⟩)
    (Nat.succ_pos _) (fun a ha => absurd ha List.not_mem_nil)
    (fun a ha => absurd ha List.not_mem_nil) hnone
  refine ⟨gap', ?_, ht'⟩
  rw [GapList.gapInit, hrun]
  rfl

end GapList

end Dwnx
