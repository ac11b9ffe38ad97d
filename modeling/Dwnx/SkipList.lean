import Dwnx.Ksl.Calls
import Mathlib.Order.RelClasses

/-!
# The skip list as a sorted map

Runs of `dwnx_ksl` (`KslRun`) insert and remove items and change keys, and keep account of
the items in a sorted list, by what a sorted map does (`mapInsert`, `mapRemove`,
`mapUpdate`).

* `kslRun_sorted`: without changes of keys, the list is the sorted map after every run;
* `kslRun_update`: with changes of keys too, unless one goes back behind a key above the
  leaves.
-/

namespace Dwnx

namespace Ksl

variable {κ ν ι : Type}

/-! ## Sorted maps -/

variable (compar : κ → κ → Bool)

/-- An insertion, which a key that is present refuses. -/
def mapInsert (l : List (κ × ν)) (key : κ) (data : ν) : List (κ × ν) :=
  if l.any fun e => keyEqual compar e.1 key then l
  else (l.takeWhile fun e => compar e.1 key) ++ (key, data) :: l.dropWhile fun e => compar e.1 key

/-- A removal. -/
def mapRemove (l : List (κ × ν)) (key : κ) : List (κ × ν) :=
  l.filter fun e => !keyEqual compar e.1 key

/-- A change of a key. -/
def mapUpdate (l : List (κ × ν)) (oldKey newKey : κ) : List (κ × ν) :=
  l.map fun e => if keyEqual compar e.1 oldKey then (newKey, e.2) else e

/-- The new key is strictly greater than the key of the node before the one with the old key,
    and strictly smaller than the key of the node behind it. -/
def Between (l : List (κ × ν)) (oldKey newKey : κ) : Prop :=
  ∃ p v q, l = p ++ (oldKey, v) :: q ∧ (∀ x, p.getLast? = some x → compar x.1 newKey = true) ∧
    ∀ x, q.head? = some x → compar newKey x.1 = true

/-! ## Iteration -/

/-- The loop over the items from an iterator on, with `dwnx_ksl_it_next`. -/
def forward (ksl : Ksl κ ν) : ℕ → It → Option (List (κ × ν))
  | 0, _ => none
  | fuel + 1, it => do
    let stop ← ksl.itEnd it
    if stop then some []
    else do
      let e ← ksl.itGet it
      let it ← ksl.itNext it
      let rest ← forward ksl fuel it
      some (e :: rest)

/-- The loop over the items before an iterator, with `dwnx_ksl_it_prev`. -/
def backward (ksl : Ksl κ ν) : ℕ → It → Option (List (κ × ν))
  | 0, _ => none
  | fuel + 1, it =>
    if ksl.itBegin it then some []
    else do
      let it ← ksl.itPrev it
      let e ← ksl.itGet it
      let rest ← backward ksl fuel it
      some (e :: rest)

/-- The items from an iterator on. -/
def rest (ksl : Ksl κ ν) (it : It) : Option (List (κ × ν)) := ksl.forward (ksl.len + 1) it

/-! ## Runs -/

/-- The lists that calls lead to, with the sorted map they stand for. Keys are changed where
    that is `allowed`. -/
inductive KslRun (allowed : Ksl κ ν → κ → κ → Prop) : Ksl κ ν → List (κ × ν) → Prop
  /-- `dwnx_ksl_init` -/
  | init : KslRun allowed .init []
  /-- `dwnx_ksl_insert` -/
  | insert {ksl ksl' : Ksl κ ν} {l : List (κ × ν)} {key : κ} {data : ν} {r : Except Err Unit}
    {it : It} (h : KslRun allowed ksl l) (hrun : ksl.insert compar key data = some (r, it, ksl')) :
    KslRun allowed ksl' (mapInsert compar l key data)
  /-- `dwnx_ksl_remove` -/
  | remove {ksl ksl' : Ksl κ ν} {l : List (κ × ν)} {key : κ} {r : Except Err Unit}
    {it : Option It} (h : KslRun allowed ksl l)
    (hrun : ksl.remove compar key = some (r, it, ksl')) :
    KslRun allowed ksl' (mapRemove compar l key)
  /-- `dwnx_ksl_remove_hint`, with a hint that points to the key. -/
  | removeHint {ksl ksl' : Ksl κ ν} {l : List (κ × ν)} {hint : It} {key : κ} {data : ν}
    {r : Except Err Unit} {it : Option It} (h : KslRun allowed ksl l)
    (hint_key : ksl.itGet hint = some (key, data))
    (hrun : ksl.removeHint compar hint key = some (r, it, ksl')) :
    KslRun allowed ksl' (mapRemove compar l key)
  /-- `dwnx_ksl_update_key`, with a key it may be used with. -/
  | update {ksl ksl' : Ksl κ ν} {l : List (κ × ν)} {oldKey newKey : κ} (h : KslRun allowed ksl l)
    (hkey : Between compar l oldKey newKey) (hok : allowed ksl oldKey newKey)
    (hrun : ksl.updateKey compar oldKey newKey = some ksl') :
    KslRun allowed ksl' (mapUpdate compar l oldKey newKey)

/-- No key above the leaves is before the old key, but not before the new one. -/
def NoneBetween (ksl : Ksl κ ν) (oldKey newKey : κ) : Prop :=
  ∀ s ∈ ksl.seps, ¬(compar s newKey = false ∧ compar s oldKey = true)

/-- Insertions, one after the other. -/
def insertAll : List (κ × ν) → Ksl κ ν → Option (Ksl κ ν)
  | [], ksl => some ksl
  | e :: es, ksl => do
    let (_, _, ksl) ← ksl.insert compar e.1 e.2
    insertAll es ksl

/-- The blocks under the nodes of a list: those of a block have the right number of nodes, and
    the key of a block is not before the keys under it, but before all behind it. -/
def Blocks : (h : ℕ) → List (κ × Node κ ν h) → Prop
  | 0, _ => True
  | h + 1, l => ∀ (l₁ : List (κ × Node κ ν (h + 1))) (s : κ) (c : Tree κ ν h)
      (l₂ : List (κ × Node κ ν (h + 1))), l = l₁ ++ (s, c) :: l₂ →
    (kslMinNblk ≤ c.n ∧ c.n ≤ kslMaxNblk) ∧
    (∀ x ∈ items h c.nodes, compar s x.1 = false) ∧
    (∀ x ∈ items (h + 1) l₂, compar s x.1 = true) ∧
    Blocks h c.nodes

/-- The list is the sorted map. -/
structure IsSortedMap (ksl : Ksl κ ν) (l : List (κ × ν)) : Prop where
  sorted : l.Pairwise fun a b => compar a.1 b.1 = true
  len : ksl.len = l.length
  /-- The key is refused if it is present; else the iterator is at the new item. -/
  insert : ∀ key data, ∃ r it ksl', ksl.insert compar key data = some (r, it, ksl') ∧
    (key ∈ l.map Prod.fst ∧ r = .error .invalidArgument ∨
      key ∉ l.map Prod.fst ∧ r = .ok () ∧
        ksl'.rest it = some ((key, data) :: l.dropWhile fun e => compar e.1 key))
  /-- The key is refused if it is absent; else the iterator is at the next item. -/
  remove : ∀ key, ∃ r it ksl', ksl.remove compar key = some (r, it, ksl') ∧
    (key ∉ l.map Prod.fst ∧ r = .error .invalidArgument ∨
      key ∈ l.map Prod.fst ∧ r = .ok () ∧
        ∃ i, it = some i ∧ ksl'.rest i = some (l.dropWhile fun e => !compar key e.1))
  /-- The item is removed, and the iterator is at the next one. -/
  removeHint : ∀ hint key data, ksl.itGet hint = some (key, data) → ∃ it ksl',
    ksl.removeHint compar hint key = some (.ok (), some it, ksl') ∧
      ksl'.rest it = some (l.dropWhile fun e => !compar key e.1)
  /-- The iterator is at the first item that is not less. -/
  lowerBound : ∀ key, ∃ it, ksl.lowerBound compar key = some it ∧
    ksl.rest it = some (l.dropWhile fun e => compar e.1 key)
  forward : ksl.forward (ksl.len + 1) ksl.begin = some l
  backward : ∃ it, ksl.end' = some it ∧ ksl.backward (ksl.len + 1) it = some l.reverse
  blocks : ∀ h t, ksl.root = some ⟨h, t⟩ → t.n ≤ kslMaxNblk ∧ Blocks compar h t.nodes

/-! ## Lists -/

section Lists

variable {α : Type} {f : α → Bool} {p q : List α}

theorem takeWhile_of_append (hp : ∀ x ∈ p, f x = true) (hq : ∀ x ∈ q, f x = false) :
    (p ++ q).takeWhile f = p := by
  rw [List.takeWhile_append_of_pos hp]
  cases q with
  | nil => exact List.append_nil p
  | cons x q =>
    rw [List.takeWhile_cons_of_neg (by simp [hq x List.mem_cons_self]), List.append_nil]

theorem dropWhile_of_append (hp : ∀ x ∈ p, f x = true) (hq : ∀ x ∈ q, f x = false) :
    (p ++ q).dropWhile f = q := by
  rw [List.dropWhile_append_of_pos hp]
  cases q with
  | nil => rfl
  | cons x q => exact List.dropWhile_cons_of_neg (by simp [hq x List.mem_cons_self])

/-- What is behind the first items up to the first that is not `f`. -/
theorem drop_findIdx (l : List α) : l.drop (l.findIdx fun x => !f x) = l.dropWhile f := by
  induction l with
  | nil => rfl
  | cons x l ih => cases hx : f x <;> simp [List.findIdx_cons, hx, ih]

end Lists

variable {compar : κ → κ → Bool} {ksl : Ksl κ ν} {l p q : List (κ × ν)} {it : It}

/-! ## Iteration -/

section Order

variable [LinearOrder ι] {ord : κ → ι} {i : ℕ}

theorem At.le (hh : Holds ord ksl l) (hat : At ksl it i) : i ≤ l.length := by
  cases hh with
  | null => exact hat.2.le
  | root hok hl hitems =>
    obtain ⟨l₁, b, l₂, j, hlv, hj, rfl, -⟩ := hat
    rw [← hitems, ← leaves_nodes, hlv, List.flatMap_append, List.flatMap_cons, List.length_append,
      List.length_append, ← Blk.n]
    omega

theorem Holds.forward (hh : Holds ord ksl l) : ∀ (fuel : ℕ) {it : It} {i : ℕ}, At ksl it i →
    l.length - i < fuel → ksl.forward fuel it = some (l.drop i)
  | 0, _, _, _, hfuel => absurd hfuel (Nat.not_lt_zero _)
  | fuel + 1, it, i, hat, hfuel => by
    have hle := hat.le hh
    rw [Ksl.forward, hh.itEnd hat, Option.bind_eq_bind, Option.bind_some]
    by_cases hi : i = l.length
    · rw [if_pos (by simpa using hi), hi, List.drop_length]
    · have hlt := lt_of_le_of_ne hle hi
      obtain ⟨it', hnext, hat'⟩ := hh.itNext hat hlt
      rw [if_neg (by simpa using hi), hh.itGet hat, List.getElem?_eq_getElem hlt, hnext]
      simp only [Option.bind_eq_bind, Option.bind_some]
      rw [Holds.forward hh fuel hat' (by omega), Option.bind_some, List.drop_eq_getElem_cons hlt]

theorem Holds.backward (hh : Holds ord ksl l) : ∀ (fuel : ℕ) {it : It} {i : ℕ}, At ksl it i →
    i < fuel → ksl.backward fuel it = some (l.take i).reverse
  | 0, _, _, _, hfuel => absurd hfuel (Nat.not_lt_zero _)
  | fuel + 1, it, 0, hat, _ => by
    rw [Ksl.backward, hh.itBegin hat]
    rfl
  | fuel + 1, it, i + 1, hat, hfuel => by
    obtain ⟨it', hprev, hat'⟩ := hh.itPrev hat
    have hlt : i < l.length := hat.le hh
    rw [Ksl.backward, hh.itBegin hat, if_neg (by simp), hprev]
    simp only [Option.bind_eq_bind, Option.bind_some]
    rw [hh.itGet hat', List.getElem?_eq_getElem hlt, Option.bind_some,
      Holds.backward hh fuel hat' (by omega), Option.bind_some,
      List.take_succ_eq_append_getElem hlt,
      List.reverse_append]
    rfl

theorem Holds.rest (hh : Holds ord ksl l) (hat : At ksl it i) : ksl.rest it = some (l.drop i) :=
  hh.forward _ hat (by rw [hh.len]; omega)

/-- An iterator with an item is at its position. -/
theorem Holds.at_of_itGet (hh : Holds ord ksl l) {e : κ × ν} (hget : ksl.itGet it = some e) :
    ∃ p q, l = p ++ e :: q ∧ At ksl it p.length := by
  cases hh with
  | null =>
    rw [Ksl.itGet, itNodes] at hget
    cases hblk : it.blk <;> rw [hblk] at hget <;> simp [leafAt] at hget
  | @root links h t l hok hl hitems =>
    have hlv := leavesOk hok hl
    rw [Ksl.itGet, itNodes] at hget
    cases hblk : it.blk with
    | none => rw [hblk] at hget; simp at hget
    | some addr =>
      rw [hblk] at hget
      obtain ⟨nodes, hnodes, hi⟩ := Option.bind_eq_some_iff.1 hget
      obtain ⟨b, hb, rfl⟩ := Option.map_eq_some_iff.1 hnodes
      have hmem := List.mem_of_find?_eq_some hb
      have haddr : b.addr = addr := by simpa using List.find?_some hb
      obtain ⟨l₁, l₂, hlvs⟩ := List.append_of_mem hmem
      obtain ⟨m₁, x, m₂, hm, hmi⟩ := exists_split_at (List.getElem?_eq_some_iff.1 hi).1
      rw [hm, ← hmi, getElem?_append_cons, Option.some_inj] at hi
      subst hi
      refine ⟨l₁.flatMap Blk.nodes ++ m₁, m₂ ++ l₂.flatMap Blk.nodes, ?_,
        Place.denotes hlv (b := b) ⟨hlvs, by rw [hblk, haddr], by rw [List.length_append, hmi],
          .inl ?_⟩⟩
      · rw [← hitems, ← leaves_nodes, hlvs, List.flatMap_append, List.flatMap_cons, hm]
        simp only [List.append_assoc, List.cons_append]
      · rw [Blk.n, hm, ← hmi, List.length_append, List.length_cons]
        omega

theorem blocks_of_nodes (hc : Compares ord compar) : ∀ {h : ℕ} {l : List (κ × Node κ ν h)}
    {lo : WithBot ι}, Nodes ord h lo l → Blocks compar h l
  | 0, _, _, _ => trivial
  | h + 1, l, lo, hl => by
    intro l₁ s c l₂ he
    rw [he, Nodes, spans_append] at hl
    have hok := hl.2.1
    have hbounds := NodeOk.bounds (e := ((s, c) : κ × Node κ ν (h + 1))) hok
    refine ⟨hok.1, fun x hx => hc.eq_false.2 (hbounds x hx).2, fun x hx => (hc _ _).2 ?_,
      blocks_of_nodes hc hok.2.1⟩
    exact WithBot.coe_lt_coe.1 (Nodes.bounds hl.2.2 x hx).1

end Order

/-! ## The calls -/

section Calls

variable [LinearOrder κ] (hc : Compares id compar) (key : κ) {data : ν}

/-- The keys before a key are smaller, and those behind it greater. -/
theorem lt_of_sorted {e : κ × ν} (hs : Sorted id (p ++ e :: q)) :
    (∀ x ∈ p, x.1 < e.1) ∧ ∀ x ∈ q, e.1 < x.1 := by
  rw [Sorted, List.pairwise_append, List.pairwise_cons] at hs
  exact ⟨fun x hx => hs.2.2 x hx e List.mem_cons_self, hs.2.1.1⟩

include hc

theorem keyEqual_id {a b : κ} : keyEqual compar a b = true ↔ a = b := keyEqual_iff hc

/-- A key that is absent is inserted between the smaller and the greater ones. -/
theorem mapInsert_absent (hp : ∀ e ∈ p, e.1 < key) (hq : ∀ e ∈ q, key < e.1) :
    mapInsert compar (p ++ q) key data = p ++ (key, data) :: q := by
  have hnone : ¬ (p ++ q).any (fun e => keyEqual compar e.1 key) = true := by
    rw [List.any_eq_true]
    rintro ⟨e, he, hek⟩
    have hek := (keyEqual_id hc).1 hek
    rcases List.mem_append.1 he with he | he
    · exact (hp e he).ne hek
    · exact (hq e he).ne hek.symm
  have hp' : ∀ e ∈ p, compar e.1 key = true := fun e he => (hc _ _).2 (hp e he)
  have hq' : ∀ e ∈ q, compar e.1 key = false := fun e he => hc.eq_false.2 (hq e he).le
  rw [mapInsert, if_neg hnone, takeWhile_of_append hp' hq', dropWhile_of_append hp' hq']

theorem mapInsert_present {e : κ × ν} (he : e ∈ l) (hk : e.1 = key) :
    mapInsert compar l key data = l :=
  if_pos (List.any_eq_true.2 ⟨e, he, (keyEqual_id hc).2 hk⟩)

theorem mapRemove_absent (hk : ∀ e ∈ l, e.1 ≠ key) : mapRemove compar l key = l := by
  refine List.filter_eq_self.2 fun e he => ?_
  rw [Bool.not_eq_true', Bool.eq_false_iff]
  exact fun h => hk e he ((keyEqual_id hc).1 h)

theorem mapRemove_present {e : κ × ν} (hs : Sorted id (p ++ e :: q)) (hk : e.1 = key) :
    mapRemove compar (p ++ e :: q) key = p ++ q := by
  obtain ⟨hp, hq⟩ := lt_of_sorted hs
  rw [hk] at hp hq
  have hpr := mapRemove_absent hc key (l := p) fun x hx => (hp x hx).ne
  have hqr := mapRemove_absent hc key (l := q) fun x hx => (hq x hx).ne'
  have heq : (!keyEqual compar e.1 key) = false := by rw [(keyEqual_id hc).2 hk]; rfl
  rw [mapRemove] at hpr hqr ⊢
  rw [List.filter_append, List.filter_cons, heq, hpr, hqr]
  rfl

theorem mapUpdate_eq {oldKey newKey : κ} {v : ν} (hs : Sorted id (p ++ (oldKey, v) :: q)) :
    mapUpdate compar (p ++ (oldKey, v) :: q) oldKey newKey = p ++ (newKey, v) :: q := by
  obtain ⟨hp, hq⟩ := lt_of_sorted hs
  have hother : ∀ r : List (κ × ν), (∀ x ∈ r, x.1 ≠ oldKey) →
      r.map (fun e => if keyEqual compar e.1 oldKey then (newKey, e.2) else e) = r := by
    intro r hr
    refine (List.map_congr_left fun x hx => if_neg ?_).trans (List.map_id' r)
    exact fun h => hr x hx ((keyEqual_id hc).1 h)
  rw [mapUpdate, List.map_append, List.map_cons, hother p fun x hx => (hp x hx).ne,
    hother q fun x hx => (hq x hx).ne', if_pos ((keyEqual_id hc).2 rfl)]

theorem dropWhile_behind {e : κ × ν} (hs : Sorted id (p ++ e :: q)) (hk : e.1 = key) :
    (p ++ e :: q).dropWhile (fun x => !compar key x.1) = q := by
  obtain ⟨hp, hq⟩ := lt_of_sorted hs
  rw [hk] at hp hq
  rw [List.append_cons]
  refine dropWhile_of_append (fun x hx => ?_) fun x hx => ?_
  · rw [Bool.not_eq_true', hc.eq_false]
    rcases List.mem_append.1 hx with hx | hx
    · exact (hp x hx).le
    · rw [List.mem_singleton.1 hx]
      exact hk.le
  · rw [Bool.not_eq_false', hc]
    exact hq x hx

/-- A list that holds the items of a sorted map is that map. -/
theorem Holds.isSortedMap (hh : Holds id ksl l) : IsSortedMap compar ksl l where
  sorted := hh.sorted.imp fun h => (hc _ _).2 h
  len := hh.len
  insert key data := by
    obtain ⟨r, it, ksl', hrun, hres⟩ := hh.insert hc key data
    refine ⟨r, it, ksl', hrun, ?_⟩
    cases hres with
    | present he hk =>
      exact .inl ⟨List.mem_map.2 ⟨_, he, hk⟩, rfl⟩
    | @absent ksl' it p q hl hp hq hh' hit =>
      refine .inr ⟨fun hmem => ?_, rfl, ?_⟩
      · obtain ⟨e, he, rfl⟩ := List.mem_map.1 hmem
        rcases List.mem_append.1 (hl ▸ he) with he | he
        · exact (hp e he).ne rfl
        · exact (hq e he).ne rfl
      · rw [hh'.rest hit, List.drop_left, hl, dropWhile_of_append
          (fun e he => (hc _ _).2 (hp e he)) fun e he => hc.eq_false.2 (hq e he).le]
  remove key := by
    obtain ⟨r, it, ksl', hrun, hres⟩ := hh.remove hc key
    refine ⟨r, it, ksl', hrun, ?_⟩
    have hs := hh.sorted
    cases hres with
    | absent hk =>
      refine .inl ⟨fun hmem => ?_, rfl⟩
      obtain ⟨e, he, hek⟩ := List.mem_map.1 hmem
      exact hk e he hek
    | @present ksl' it p q e hl hk hh' hit =>
      refine .inr ⟨List.mem_map.2 ⟨e, by rw [hl]; simp, hk⟩, rfl, it, rfl, ?_⟩
      rw [hl] at hs ⊢
      rw [hh'.rest hit, List.drop_left, dropWhile_behind hc key hs hk]
  removeHint hint key data hget := by
    obtain ⟨p, q, hl, hat⟩ := hh.at_of_itGet hget
    obtain ⟨it, ksl', hrun, hh', hat'⟩ := hh.removeHint hc hl rfl hat
    have hs := hh.sorted
    rw [hl] at hs ⊢
    exact ⟨it, ksl', hrun, by rw [hh'.rest hat', List.drop_left, dropWhile_behind hc key hs rfl]⟩
  lowerBound key := by
    obtain ⟨it, hrun, hat⟩ := hh.lowerBound (hh.cutAt hc key)
    exact ⟨it, hrun, by rw [hh.rest hat, drop_findIdx (f := fun e : κ × ν => compar e.1 key)]⟩
  forward := hh.forward _ hh.begin (by rw [hh.len]; omega)
  backward := by
    obtain ⟨it, hend, hat⟩ := hh.end
    exact ⟨it, hend, by rw [hh.backward _ hat (by rw [hh.len]; omega), List.take_length]⟩
  blocks h t hroot := by
    cases hh with
    | null => cases hroot
    | root hok =>
      cases hroot
      exact ⟨hok.le_max, blocks_of_nodes hc hok.nodes⟩

/-- The new key is between all the keys before and all behind the old one. -/
theorem Between.lt {oldKey newKey : κ} (hs : Sorted id l) (h : Between compar l oldKey newKey) :
    ∃ p v q, l = p ++ (oldKey, v) :: q ∧ (∀ x ∈ p, x.1 < newKey) ∧ ∀ x ∈ q, newKey < x.1 := by
  obtain ⟨p, v, q, rfl, hp, hq⟩ := h
  rw [Sorted, List.pairwise_append, List.pairwise_cons] at hs
  refine ⟨p, v, q, rfl, fun x hx => ?_, fun x hx => ?_⟩
  · rcases List.eq_nil_or_concat' p with rfl | ⟨r, y, rfl⟩
    · cases hx
    · have hy := (hc _ _).1 (hp y List.getLast?_concat)
      rcases List.mem_append.1 hx with hx | hx
      · exact ((List.pairwise_append.1 hs.1).2.2 x hx y (List.mem_singleton_self y)).trans hy
      · rwa [List.mem_singleton.1 hx]
  · cases q with
    | nil => cases hx
    | cons y r =>
      have hy := (hc _ _).1 (hq y rfl)
      rcases List.mem_cons.1 hx with rfl | hx
      · exact hy
      · exact hy.trans ((List.pairwise_cons.1 hs.2.1.2).1 x hx)

/-- A change of a key behind which no key above the leaves is left. -/
theorem Holds.update {oldKey newKey : κ} (hh : Holds id ksl l)
    (hkey : Between compar l oldKey newKey)
    (hs : NoneBetween compar ksl oldKey newKey) :
    ∃ ksl', ksl.updateKey compar oldKey newKey = some ksl' ∧
      Holds id ksl' (mapUpdate compar l oldKey newKey) := by
  obtain ⟨p, v, q, hl, hp, hq⟩ := hkey.lt hc hh.sorted
  obtain ⟨ksl', hrun, hh', -⟩ := hh.updateKey hc hl rfl hp hq fun s hsep hlt =>
    hs s hsep ⟨hc.eq_false.2 hlt.1, (hc _ _).2 hlt.2⟩
  have hsorted := hh.sorted
  rw [hl] at hsorted ⊢
  exact ⟨ksl', hrun, by rwa [mapUpdate_eq hc hsorted]⟩

/-- After every run the list holds the items of the map. -/
theorem KslRun.holds {allowed : Ksl κ ν → κ → κ → Prop}
    (hallow : ∀ ksl oldKey newKey, allowed ksl oldKey newKey →
      NoneBetween compar ksl oldKey newKey)
    (h : KslRun compar allowed ksl l) : Holds id ksl l := by
  induction h with
  | init => exact holds_init
  | @insert ksl ksl' l key data r it h hrun ih =>
    obtain ⟨r, it, ksl₁, hrun₁, hres⟩ := ih.insert hc key data
    cases hrun.symm.trans hrun₁
    cases hres with
    | present he hk hh => rwa [mapInsert_present hc key he hk]
    | absent hl hp hq hh =>
      rw [hl]
      rwa [mapInsert_absent hc key hp hq]
  | @remove ksl ksl' l key r it h hrun ih =>
    obtain ⟨r, it, ksl₁, hrun₁, hres⟩ := ih.remove hc key
    have hs := ih.sorted
    cases hrun.symm.trans hrun₁
    cases hres with
    | absent hk hh => rwa [mapRemove_absent hc key hk]
    | present hl hk hh =>
      rw [hl] at hs ⊢
      rwa [mapRemove_present hc key hs hk]
  | @removeHint ksl ksl' l hint key data r it h hkey hrun ih =>
    obtain ⟨p, q, hl, hat⟩ := ih.at_of_itGet hkey
    obtain ⟨it, ksl₁, hrun₁, hh, -⟩ := ih.removeHint hc hl rfl hat
    have hs := ih.sorted
    cases hrun.symm.trans hrun₁
    rw [hl] at hs ⊢
    rwa [mapRemove_present hc key hs rfl]
  | @update ksl ksl' l oldKey newKey h hkey hok hrun ih =>
    obtain ⟨ksl₁, hrun₁, hh⟩ := ih.update hc hkey (hallow _ _ _ hok)
    cases hrun.symm.trans hrun₁
    exact hh

end Calls

/-! ## Runs keep the list a sorted map -/

theorem KslRun.insertAll {allowed : Ksl κ ν → κ → κ → Prop} {ksl' : Ksl κ ν} :
    ∀ (es : List (κ × ν)) {ksl : Ksl κ ν} {l : List (κ × ν)}, KslRun compar allowed ksl l →
      insertAll compar es ksl = some ksl' →
      KslRun compar allowed ksl' (es.foldl (fun l e => mapInsert compar l e.1 e.2) l)
  | [], _, _, h, hrun => Option.some.inj hrun ▸ h
  | e :: es, ksl, l, h, hrun => by
    obtain ⟨⟨r, it, ksl₁⟩, hins, hrest⟩ := Option.bind_eq_some_iff.1 hrun
    exact KslRun.insertAll es (h.insert hins) hrest

section Runs

variable [IsStrictTotalOrder κ fun a b => compar a b = true]

/-- The list is a sorted map after every run without changes of keys. -/
theorem kslRun_sorted (h : KslRun compar (fun _ _ _ => False) ksl l) :
    IsSortedMap compar ksl l := by
  classical
  let _ := linearOrderOfSTO fun a b => compar a b = true
  have hc : Compares id compar := fun _ _ => Iff.rfl
  exact (KslRun.holds hc (fun _ _ _ hf => absurd hf id) h).isSortedMap hc

/-- The list is a sorted map after every run in which keys change only where no key above the
    leaves is between, and all such changes can be made. -/
theorem kslRun_update (h : KslRun compar (NoneBetween compar) ksl l) :
    IsSortedMap compar ksl l ∧ ∀ oldKey newKey, Between compar l oldKey newKey →
      NoneBetween compar ksl oldKey newKey →
        ∃ ksl', ksl.updateKey compar oldKey newKey = some ksl' := by
  classical
  let _ := linearOrderOfSTO fun a b => compar a b = true
  have hc : Compares id compar := fun _ _ => Iff.rfl
  have hh := KslRun.holds hc (fun _ _ _ hs => hs) h
  refine ⟨hh.isSortedMap hc, fun oldKey newKey hkey hs => ?_⟩
  obtain ⟨ksl', hrun, -⟩ := hh.update hc hkey hs
  exact ⟨ksl', hrun⟩

end Runs

/-- The order of the numbers. -/
def natLess (a b : ℕ) : Bool := a < b

instance : IsStrictTotalOrder ℕ fun a b => natLess a b = true := by
  have : (fun a b => natLess a b = true) = fun a b : ℕ => a < b := by
    funext a b
    exact decide_eq_true_eq
  rw [this]
  infer_instance

/-- Thirty-five keys, in two leaves of which the first is `0` to `16`. -/
def twoLeaves : List (ℕ × Unit) := (List.range' 1 34).map (·, ()) ++ [(0, ())]

theorem twoLeaves_run : ∃ ksl : Ksl ℕ Unit,
    insertAll natLess twoLeaves init = some ksl ∧ ksl.seps = [16, 34] :=
  Option.map_eq_some_iff.1
    (show (insertAll natLess twoLeaves init).map seps = some [16, 34] by decide +kernel)

theorem twoLeaves_map : twoLeaves.foldl (fun l e => mapInsert natLess l e.1 e.2) [] =
    (List.range 35).map (·, ()) := by
  decide +kernel

theorem kslRun_sorted_two : ∃ ksl : Ksl ℕ Unit, ksl.seps = [16, 34] ∧
    IsSortedMap natLess ksl ((List.range 35).map (·, ())) := by
  obtain ⟨ksl, hins, hseps⟩ := twoLeaves_run
  have h : KslRun natLess (fun _ _ _ => False) ksl _ := KslRun.insertAll twoLeaves .init hins
  rw [twoLeaves_map] at h
  exact ⟨ksl, hseps, kslRun_sorted h⟩

/-- The last key moves up, with the key above it. -/
theorem kslRun_update_last : ∃ ksl : Ksl ℕ Unit,
    IsSortedMap natLess ksl ((List.range 34 ++ [40]).map (·, ())) := by
  obtain ⟨ksl, hins, hseps⟩ := twoLeaves_run
  have h : KslRun natLess (NoneBetween natLess) ksl _ := KslRun.insertAll twoLeaves .init hins
  rw [twoLeaves_map] at h
  have hkey : Between natLess ((List.range 35).map (·, ())) 34 40 :=
    ⟨(List.range 34).map (·, ()), (), [], by decide +kernel, fun x hx => by cases hx; rfl,
      fun x hx => by cases hx⟩
  have hs : NoneBetween natLess ksl 34 40 := by
    rw [NoneBetween, hseps]
    decide
  obtain ⟨ksl', hrun⟩ := (kslRun_update h).2 34 40 hkey hs
  have h' := h.update hkey hs hrun
  have hl : mapUpdate natLess ((List.range 35).map (·, ())) 34 40 =
      (List.range 34 ++ [40]).map (·, ()) := by
    decide +kernel
  rw [hl] at h'
  exact ⟨ksl', (kslRun_update h').1⟩

/-- The key `16` is removed, but is left above the leaves, when `17` becomes `16`. Then `16` can
    be inserted once more. -/
theorem kslRun_update_stale : ¬ ∀ (ksl : Ksl ℕ Unit) (l : List (ℕ × Unit)),
    KslRun natLess (fun _ _ _ => True) ksl l → IsSortedMap natLess ksl l := by
  intro hall
  have hrun : ((insertAll natLess twoLeaves init).bind fun ksl => (ksl.remove natLess 16).bind
      fun r => (r.2.2.updateKey natLess 17 16).bind fun ksl =>
        (ksl.insert natLess 16 ()).map (·.1)) = some (.ok ()) := by
    decide +kernel
  obtain ⟨ksl, hins, hrun⟩ := Option.bind_eq_some_iff.1 hrun
  obtain ⟨⟨r, it, ksl₁⟩, hrem, hrun⟩ := Option.bind_eq_some_iff.1 hrun
  obtain ⟨ksl₂, hupd, hrun⟩ := Option.bind_eq_some_iff.1 hrun
  obtain ⟨⟨r', it', ksl₃⟩, hins', hr⟩ := Option.map_eq_some_iff.1 hrun
  have h : KslRun natLess (fun _ _ _ => True) ksl _ := KslRun.insertAll twoLeaves .init hins
  have h₁ := h.remove hrem
  have hl : mapRemove natLess ((List.range 35).map (·, ())) 16 =
      ((List.range 16).map (·, ())) ++ (17, ()) :: (List.range' 18 17).map (·, ()) := by
    decide +kernel
  rw [twoLeaves_map, hl] at h₁
  have hmap := hall _ _ (h₁.update ⟨_, _, _, rfl, fun x hx => by cases hx; rfl,
    fun x hx => by cases hx; rfl⟩ trivial hupd)
  obtain ⟨r', it₄, ksl₄, hins₄, hres⟩ := hmap.insert 16 ()
  cases hins'.symm.trans hins₄
  rcases hres with ⟨-, herr⟩ | ⟨habs, -⟩
  · rw [herr] at hr
    cases hr
  · exact habs (by decide +kernel)

end Ksl

end Dwnx
