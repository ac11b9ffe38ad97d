import Dwnx.Basic
import Mathlib.Tactic

/-!
# Identifiers in use

The streams a peer has opened are remembered in the gaps between them: `Gaptr`
is the sorted list of the intervals that were never pushed, and `Idtr` keeps one
over the ordinals of stream identifiers. The list stands for the skip list of
the source, whose keys come in the same order.

`openId_ok` is the meaning of an opening: the identifier was not open, and is
afterwards, with all others as they were.
-/

namespace Dwnx

/-! ## Ranges -/

/-- `dwnx_range`: the integers from `begin` up to, not including, `stop`. -/
structure Range where
  begin : ℕ
  stop : ℕ
  deriving DecidableEq, Repr

namespace Range

/-- `dwnx_range_intersect` -/
def intersect (a b : Range) : Range :=
  let begin := max a.begin b.begin
  let stop := min a.stop b.stop
  if begin < stop then ⟨begin, stop⟩ else ⟨0, 0⟩

/-- `dwnx_range_len`; no range is built whose begin is after its end. -/
def len (r : Range) : ℕ := r.stop - r.begin

/-- `dwnx_range_cut`: what is left of `a`, on both sides, without `b`. -/
def cut (a b : Range) : Range × Range := (⟨a.begin, b.begin⟩, ⟨b.stop, a.stop⟩)

/-- `dwnx_ksl_range_exclusive_compar`: `a` begins first, and does not meet `b`. -/
def exclusiveLess (a b : Range) : Bool :=
  a.begin < b.begin && !decide (max a.begin b.begin < min a.stop b.stop)

end Range

/-! ## Gaps -/

/-- `dwnx_gaptr`: the gaps, in order; none at all before the first push. -/
structure Gaptr where
  gap : List Range
  nonempty : ∀ r ∈ gap, r.begin < r.stop
  sorted : gap.Pairwise fun a b => a.stop ≤ b.begin
  bounded : ∀ r ∈ gap, r.stop ≤ uint64Max

namespace Gaptr

/-- `dwnx_gaptr_init` -/
def init : Gaptr := ⟨[], by simp, by simp, by simp⟩

/-- `gaptr_gap_init`: everything is a gap. -/
def full : Gaptr :=
  ⟨[⟨0, uint64Max⟩], by simp [uint64Max], by simp, by simp⟩

/-- The gaps from the first one on that does not lie before `q`. -/
def lowerBound (gap : List Range) (q : Range) : List Range :=
  gap.dropWhile fun k => k.exclusiveLess q

/-- The loop of `dwnx_gaptr_push`, over the gaps from `lowerBound` on. -/
def pushLoop (q : Range) : List Range → List Range
  | [] => []
  | k :: ks =>
    let m := q.intersect k
    if m.len = 0 then k :: ks
    else if k = m then pushLoop q ks
    else
      let (l, r) := k.cut m
      (if l.len = 0 then [] else [l]) ++ (if r.len = 0 then [] else [r]) ++ pushLoop q ks

/-- The gaps after a push of `q`. -/
def pushGap (gap : List Range) (q : Range) : List Range :=
  (gap.takeWhile fun k => k.exclusiveLess q) ++ pushLoop q (lowerBound gap q)

end Gaptr

/-! ## Membership -/

/-- `x` is in the range. -/
def Range.Has (r : Range) (x : ℕ) : Prop := r.begin ≤ x ∧ x < r.stop

theorem Range.intersect_len {a b : Range} :
    (a.intersect b).len = 0 ↔ ¬max a.begin b.begin < min a.stop b.stop := by
  unfold Range.intersect Range.len
  simp only
  split
  · next h => simp only; omega
  · next h => simp only [h, not_false_eq_true]

namespace Gaptr

/-- The parts of the gap `k` that a push of `q` leaves. -/
def remainder (q k : Range) : List Range :=
  if max q.begin k.begin < min q.stop k.stop then
    (if k.begin < q.begin then [⟨k.begin, q.begin⟩] else []) ++
      (if q.stop < k.stop then [⟨q.stop, k.stop⟩] else [])
  else [k]

theorem remainder_of_le {q k : Range} (h : q.stop ≤ k.begin ∨ k.stop ≤ q.begin) :
    remainder q k = [k] := if_neg (by omega)

/-- A gap that meets `q` is cut, or removed if nothing is left. -/
theorem remainder_of_meets {q k : Range} (h : max q.begin k.begin < min q.stop k.stop) :
    (if k = q.intersect k then [] else
      (if (k.cut (q.intersect k)).1.len = 0 then [] else [(k.cut (q.intersect k)).1]) ++
      (if (k.cut (q.intersect k)).2.len = 0 then [] else [(k.cut (q.intersect k)).2])) =
      remainder q k := by
  have hm : q.intersect k = ⟨max q.begin k.begin, min q.stop k.stop⟩ := if_pos h
  obtain ⟨b, e⟩ := k
  simp only [remainder, if_pos h, hm, Range.cut, Range.len, Range.mk.injEq]
  simp only at h
  by_cases hb : b < q.begin <;> by_cases he : q.stop < e
  · have : max q.begin b = q.begin := by omega
    have : min q.stop e = q.stop := by omega
    simp_all [show ¬q.begin - b = 0 by omega, show ¬e - q.stop = 0 by omega,
      show ¬b = q.begin by omega]
  · have : max q.begin b = q.begin := by omega
    have : min q.stop e = e := by omega
    simp_all [show ¬q.begin - b = 0 by omega, show ¬b = q.begin by omega]
  · have : max q.begin b = b := by omega
    have : min q.stop e = q.stop := by omega
    simp_all [show ¬e - q.stop = 0 by omega, show ¬e = q.stop by omega]
  · have : max q.begin b = b := by omega
    have : min q.stop e = e := by omega
    simp_all

/-- The loop leaves of every gap what lies outside `q`. -/
theorem pushLoop_eq {q : Range} {ks : List Range} (hs : ks.Pairwise fun a b => a.stop ≤ b.begin)
    (hne : ∀ r ∈ ks, r.begin < r.stop) (hq : ∀ r ∈ ks, r.exclusiveLess q = false) :
    pushLoop q ks = ks.flatMap (remainder q) := by
  induction ks with
  | nil => rfl
  | cons k ks ih =>
    have hk := hne k (List.mem_cons_self ..)
    rw [List.pairwise_cons] at hs
    have ih := ih hs.2 (fun r hr => hne r (List.mem_cons_of_mem _ hr))
      fun r hr => hq r (List.mem_cons_of_mem _ hr)
    rw [List.flatMap_cons, pushLoop]
    simp only
    by_cases hm : max q.begin k.begin < min q.stop k.stop
    · rw [if_neg (fun h => Range.intersect_len.1 h hm), ← remainder_of_meets hm, ih]
      split <;> rfl
    · rw [if_pos (Range.intersect_len.2 hm), remainder, if_neg hm]
      -- a gap that does not meet `q` lies after it, and so do the gaps that follow
      have hafter : q.stop ≤ k.begin ∨ q.stop ≤ q.begin := by
        have := hq k (List.mem_cons_self ..)
        simp only [Range.exclusiveLess, Bool.and_eq_false_iff, decide_eq_false_iff_not,
          Bool.not_eq_false', decide_eq_true_eq] at this
        omega
      have hrest : ks.flatMap (remainder q) = ks.flatMap fun r => [r] := by
        refine List.flatMap_congr fun r hr => if_neg ?_
        have := hs.1 r hr
        omega
      rw [hrest, List.flatMap_singleton']
      rfl

/-- A push leaves of every gap what lies outside `q`. -/
theorem pushGap_eq {q : Range} {gap : List Range} (hq : q.begin < q.stop)
    (hs : gap.Pairwise fun a b => a.stop ≤ b.begin) (hne : ∀ r ∈ gap, r.begin < r.stop) :
    pushGap gap q = gap.flatMap (remainder q) := by
  induction gap with
  | nil => rfl
  | cons k ks ih =>
    have hk := hne k (List.mem_cons_self ..)
    have ih := ih (List.pairwise_cons.1 hs).2 fun r hr => hne r (List.mem_cons_of_mem _ hr)
    by_cases hl : k.exclusiveLess q = true
    · -- a gap before `q` stays
      have hstop : k.stop ≤ q.begin := by
        simp only [Range.exclusiveLess, Bool.and_eq_true, decide_eq_true_eq, Bool.not_eq_true',
          decide_eq_false_iff_not] at hl
        omega
      rw [List.flatMap_cons, remainder_of_le (.inr hstop), ← ih]
      simp [pushGap, lowerBound, hl]
    · -- from the first other gap on, none is before `q`
      have hcons : ∀ r ∈ k :: ks, r.exclusiveLess q = false := by
        rintro r hr
        rcases List.mem_cons.1 hr with rfl | hr
        · simpa using hl
        · have h1 := (List.pairwise_cons.1 hs).1 r hr
          have h2 := hne r (List.mem_cons_of_mem _ hr)
          simp only [Range.exclusiveLess, Bool.and_eq_true, decide_eq_true_eq, Bool.not_eq_true',
            decide_eq_false_iff_not, Bool.and_eq_false_iff, Bool.not_eq_false'] at hl ⊢
          omega
      have hl : k.exclusiveLess q = false := by simpa using hl
      simp only [pushGap, lowerBound, List.takeWhile_cons, List.dropWhile_cons, hl]
      exact pushLoop_eq hs hne hcons

theorem mem_remainder {q k r : Range} (hk : k.begin < k.stop) (h : r ∈ remainder q k) :
    k.begin ≤ r.begin ∧ r.begin < r.stop ∧ r.stop ≤ k.stop := by
  unfold remainder at h
  split_ifs at h <;> simp only [List.mem_append, List.mem_cons, List.not_mem_nil, or_false,
    List.nil_append, List.append_nil] at h
  · rcases h with rfl | rfl <;> simp only <;> omega
  · subst h
    simp only
    omega
  · subst h
    simp only
    omega
  · subst h
    omega

theorem has_remainder {q k : Range} {x : ℕ} :
    (∃ r ∈ remainder q k, r.Has x) ↔ k.Has x ∧ ¬q.Has x := by
  unfold remainder Range.Has
  split_ifs <;> simp <;> omega

/-- The interval `q` is no longer a gap. -/
def pushRange (g : Gaptr) (q : Range) (hq : q.begin < q.stop) : Gaptr where
  gap := pushGap g.gap q
  nonempty := by
    rw [pushGap_eq hq g.sorted g.nonempty]
    intro r hr
    obtain ⟨k, hk, hr⟩ := List.mem_flatMap.1 hr
    exact (mem_remainder (g.nonempty k hk) hr).2.1
  sorted := by
    rw [pushGap_eq hq g.sorted g.nonempty, List.pairwise_flatMap]
    refine ⟨fun k hk => ?_, ?_⟩
    · unfold remainder
      split_ifs <;> simp
      omega
    · refine List.Pairwise.imp_of_mem (fun {a b} ha hb hab x hx y hy => ?_) g.sorted
      have := mem_remainder (g.nonempty a ha) hx
      have := mem_remainder (g.nonempty b hb) hy
      omega
  bounded := by
    rw [pushGap_eq hq g.sorted g.nonempty]
    intro r hr
    obtain ⟨k, hk, hr⟩ := List.mem_flatMap.1 hr
    have := g.bounded k hk
    have := mem_remainder (g.nonempty k hk) hr
    omega

/-- `dwnx_gaptr_push`, of one integer: the only length pushed. -/
def push (g : Gaptr) (offset : ℕ) : Gaptr :=
  (if g.gap = [] then full else g).pushRange ⟨offset, offset + 1⟩ (Nat.lt_succ_self _)

/-- `dwnx_gaptr_is_pushed`, of one integer. -/
def isPushed (g : Gaptr) (offset : ℕ) : Except Err Bool :=
  if g.gap = [] then .ok false
  else
    let q : Range := ⟨offset, offset + 1⟩
    match lowerBound g.gap q with
    | [] => .error (.fault (.assertion .gap))
    | k :: _ => .ok ((q.intersect k).len = 0)

/-- `x` was never pushed. -/
def IsGap (g : Gaptr) (x : ℕ) : Prop := g.gap = [] ∨ ∃ r ∈ g.gap, r.Has x

theorem has_push {g : Gaptr} {x y : ℕ} (hy : y < uint64Max) :
    (∃ r ∈ (g.push x).gap, r.Has y) ↔ g.IsGap y ∧ y ≠ x := by
  have hp (g : Gaptr) (hq) : (∃ r ∈ (g.pushRange ⟨x, x + 1⟩ hq).gap, r.Has y) ↔
      (∃ r ∈ g.gap, r.Has y) ∧ y ≠ x := by
    have hx : (⟨x, x + 1⟩ : Range).Has y ↔ y = x := by
      unfold Range.Has
      simp only
      omega
    simp only [pushRange, pushGap_eq hq g.sorted g.nonempty, List.mem_flatMap]
    rw [ne_eq, ← hx]
    constructor
    · rintro ⟨r, ⟨k, hk, hr⟩, hry⟩
      obtain ⟨h1, h2⟩ := has_remainder.1 ⟨r, hr, hry⟩
      exact ⟨⟨k, hk, h1⟩, h2⟩
    · rintro ⟨⟨k, hk, h1⟩, h2⟩
      obtain ⟨r, hr, hry⟩ := has_remainder.2 ⟨h1, h2⟩
      exact ⟨r, ⟨k, hk, hr⟩, hry⟩
  unfold IsGap push
  rw [hp]
  split
  · next h =>
    have : ∃ r ∈ full.gap, r.Has y := ⟨⟨0, uint64Max⟩, by simp [full], Nat.zero_le _, hy⟩
    simp [h, this]
  · next h => simp [h]

/-- The gaps after a push, as long as one is left. -/
theorem isGap_push {g : Gaptr} {x y z : ℕ} (hz : g.IsGap z) (hzx : z ≠ x) (hzm : z < uint64Max)
    (hy : y < uint64Max) : (g.push x).IsGap y ↔ g.IsGap y ∧ y ≠ x := by
  obtain ⟨r, hr, -⟩ := (has_push hzm).2 ⟨hz, hzx⟩
  have hne : (g.push x).gap ≠ [] := List.ne_nil_of_mem hr
  rw [IsGap, or_iff_right hne, has_push hy]

/-- Some gap ends after `x`: the search finds the gap of `x`, or one after it. -/
theorem lowerBound_eq {gap : List Range} {x : ℕ} (hs : gap.Pairwise fun a b => a.stop ≤ b.begin)
    (hne : ∀ r ∈ gap, r.begin < r.stop) (hz : ∃ r ∈ gap, x < r.stop) :
    ∃ k ks, lowerBound gap ⟨x, x + 1⟩ = k :: ks ∧ (k.Has x ↔ ∃ r ∈ gap, r.Has x) := by
  induction gap with
  | nil => simp at hz
  | cons k ks ih =>
    have hk := hne k (List.mem_cons_self ..)
    by_cases hl : k.exclusiveLess ⟨x, x + 1⟩ = true
    · have hstop : k.stop ≤ x := by
        simp only [Range.exclusiveLess, Bool.and_eq_true, decide_eq_true_eq, Bool.not_eq_true',
          decide_eq_false_iff_not] at hl
        omega
      have hz' : ∃ r ∈ ks, x < r.stop := by
        obtain ⟨r, hr, hxr⟩ := hz
        rcases List.mem_cons.1 hr with rfl | hr
        · omega
        · exact ⟨r, hr, hxr⟩
      obtain ⟨k', ks', hlb, hiff⟩ := ih (List.pairwise_cons.1 hs).2
        (fun r hr => hne r (List.mem_cons_of_mem _ hr)) hz'
      refine ⟨k', ks', by simpa [lowerBound, hl] using hlb, ?_⟩
      have : ¬k.Has x := fun h => absurd h.2 (by omega)
      simp [hiff, this]
    · have hl : k.exclusiveLess ⟨x, x + 1⟩ = false := by simpa using hl
      refine ⟨k, ks, by simp [lowerBound, hl], ?_⟩
      have hrest : ∀ r ∈ ks, ¬r.Has x := by
        rintro r hr ⟨h1, -⟩
        have := (List.pairwise_cons.1 hs).1 r hr
        simp only [Range.exclusiveLess, Bool.and_eq_false_iff, decide_eq_false_iff_not,
          Bool.not_eq_false', decide_eq_true_eq] at hl
        omega
      simp only [List.exists_mem_cons_iff]
      exact (or_iff_left fun ⟨r, hr, h⟩ => hrest r hr h).symm

/-- An integer below a gap is pushed or in a gap, and the search says which. -/
theorem isPushed_eq {g : Gaptr} {x z : ℕ} (hz : g.IsGap z) (hxz : x ≤ z) :
    ∃ b, g.isPushed x = .ok b ∧ (b = true ↔ ¬g.IsGap x) := by
  by_cases hg : g.gap = []
  · exact ⟨false, if_pos hg, by simp [IsGap, hg]⟩
  · obtain ⟨r, hr, -, hzr⟩ := hz.resolve_left hg
    obtain ⟨k, ks, hlb, hiff⟩ := lowerBound_eq g.sorted g.nonempty ⟨r, hr, hxz.trans_lt hzr⟩
    refine ⟨decide ((Range.intersect ⟨x, x + 1⟩ k).len = 0), ?_, ?_⟩
    · simp only [isPushed, if_neg hg, hlb]
    · rw [decide_eq_true_iff, Range.intersect_len, IsGap, or_iff_right hg, ← hiff, not_iff_not,
        Range.Has]
      simp only
      omega

end Gaptr

/-! ## Identifiers -/

/-- `dwnx_idtr` -/
structure Idtr where
  gap : Gaptr

namespace Idtr

/-- `dwnx_idtr_init` -/
def init : Idtr := ⟨.init⟩

/-- `id_from_stream_id` -/
def idFromStreamId (streamId : ℕ) : ℕ := streamId / 4

/-- `dwnx_idtr_open` -/
def openId (idtr : Idtr) (streamId : ℕ) : Except Err Idtr := do
  let q := idFromStreamId streamId
  if ← idtr.gap.isPushed q then throw .streamInUse
  return ⟨idtr.gap.push q⟩

/-- `dwnx_idtr_is_open` -/
def isOpen (idtr : Idtr) (streamId : ℕ) : Except Err Bool :=
  idtr.gap.isPushed (idFromStreamId streamId)

/-- The identifier was opened, in whatever way its two low bits are set. -/
def Opened (idtr : Idtr) (streamId : ℕ) : Prop := ¬idtr.gap.IsGap (idFromStreamId streamId)

/-- There is room above every identifier that a frame can carry. -/
def HasRoom (idtr : Idtr) : Prop := idtr.gap.IsGap (2 ^ 62)

theorem hasRoom_init : init.HasRoom := .inl rfl

@[simp] theorem not_opened_init (streamId : ℕ) : ¬init.Opened streamId := fun h => h (.inl rfl)

variable {idtr idtr' : Idtr} {streamId : ℕ}

theorem isOpen_eq (h : idtr.HasRoom) (hid : streamId ≤ maxVarint) :
    ∃ b, idtr.isOpen streamId = .ok b ∧ (b = true ↔ idtr.Opened streamId) :=
  Gaptr.isPushed_eq h (by unfold idFromStreamId; unfold maxVarint at hid; omega)

theorem openId_of_opened (h : idtr.HasRoom) (hid : streamId ≤ maxVarint)
    (ho : idtr.Opened streamId) : idtr.openId streamId = .error .streamInUse := by
  obtain ⟨b, hb, hiff⟩ := isOpen_eq h hid
  rw [isOpen] at hb
  rw [openId, hb, hiff.2 ho]
  rfl

theorem openId_of_not_opened (h : idtr.HasRoom) (hid : streamId ≤ maxVarint)
    (ho : ¬idtr.Opened streamId) :
    idtr.openId streamId = .ok ⟨idtr.gap.push (idFromStreamId streamId)⟩ := by
  obtain ⟨b, hb, hiff⟩ := isOpen_eq h hid
  rw [isOpen] at hb
  rw [openId, hb, show b = false by simpa using fun e => ho (hiff.1 e)]
  rfl

/-- What opening an identifier does: it was not open, and is, with the others
    as they were. -/
theorem openId_ok (h : idtr.HasRoom) (hid : streamId ≤ maxVarint)
    (hok : idtr.openId streamId = .ok idtr') :
    ¬idtr.Opened streamId ∧ idtr'.HasRoom ∧ ∀ id ≤ maxVarint,
      (idtr'.Opened id ↔ idtr.Opened id ∨ id / 4 = streamId / 4) := by
  have ho : ¬idtr.Opened streamId := by
    intro ho
    rw [openId_of_opened h hid ho] at hok
    cases hok
  rw [openId_of_not_opened h hid ho] at hok
  obtain rfl := Except.ok.inj hok
  have hroom : idFromStreamId streamId ≠ 2 ^ 62 := by
    unfold idFromStreamId
    unfold maxVarint at hid
    omega
  have hpush {y : ℕ} (hy : y < uint64Max) :=
    Gaptr.isGap_push (x := idFromStreamId streamId) h hroom.symm (by decide) hy
  refine ⟨ho, (hpush (by decide)).2 ⟨h, hroom.symm⟩, fun id hid' => ?_⟩
  have hy : idFromStreamId id < uint64Max := by
    unfold idFromStreamId uint64Max
    unfold maxVarint at hid'
    omega
  rw [Opened, Opened, hpush hy, not_and_or, not_not]
  rfl

end Idtr

end Dwnx
