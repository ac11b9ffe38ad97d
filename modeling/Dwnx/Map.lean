import Dwnx.Basic
import Dwnx.Lib.KeyMap
import Dwnx.Lib.RobinHood

/-!
# The map of the streams

`dwnx_map` is a Robin Hood hash table over the ring of `Lib/RobinHood`. It grows by
rehashing all the items into a table of twice the length. The model of a connection has a
finite map (`KeyMap`) in its place, which the refinement proved here justifies.

* `Map.Refines`: the table has the entries of a finite map, in order, with a slot to spare;
* `map_refines`: in every run the table does what the finite map does.
-/

namespace Dwnx

open RobinHood

/-- `dwnx_map` -/
structure Map (δ : Type) where
  /-- The arrays `keys`, `psl` and `data`. -/
  slots : Table UInt64 δ
  seed : UInt64
  size : ℕ
  hashbits : ℕ

/-- `DWNX_INITIAL_HASHBITS` -/
def initialHashbits : ℕ := 4

/-- `DWNX_MAP_MAX_HASHBITS` -/
def mapMaxHashbits : ℕ := 63

/-- `DWNX_MAP_HASHER1` -/
def mapHasher1 : UInt64 := 0xFF51AFD7ED558CCD

/-- `DWNX_MAP_HASHER2` -/
def mapHasher2 : UInt64 := 0xC4CEB9FE1A85EC53

namespace Map

variable {δ σ : Type}

/-! ## Operations -/

section Operations

variable [Inhabited δ]

/-- The slots `calloc` returns. -/
def calloc : Table UInt64 δ := fun _ => ⟨0, 0, default⟩

/-- `dwnx_map_init` -/
def init (seed : UInt64) : Map δ := ⟨calloc, seed, 0, 0⟩

end Operations

/-- The length of the arrays, `1` before there are any. -/
def tablelen (m : Map δ) : ℕ := 2 ^ m.hashbits

/-- `(idx + 1) & mask` -/
def next (m : Map δ) (idx : ℕ) : ℕ := (idx + 1) &&& (m.tablelen - 1)

/-- `map_index`, which is only called when there are arrays. -/
def mapIndex (seed : UInt64) (hashbits : ℕ) (key : UInt64) : ℕ :=
  let key := key ^^^ seed
  let key := key ^^^ (key >>> 33)
  let key := key * mapHasher1
  let key := key ^^^ (key >>> 33)
  let key := key * mapHasher2
  let key := key ^^^ (key >>> 33)
  key.toNat >>> (64 - hashbits)

/-- The slot where a search for `key` begins. -/
def home (m : Map δ) (key : UInt64) : ℕ := mapIndex m.seed m.hashbits key

/-- `map_insert` -/
def mapInsert (m : Map δ) (key : UInt64) (data : δ) : Except Err Unit × Map δ :=
  match insertLoop m.next m.tablelen m.slots (m.home key) ⟨1, key, data⟩ with
  | none => (.error (.fault .outOfFuel), m)
  | some (slots, true) => (.ok (), { m with slots, size := m.size + 1 })
  | some (slots, false) => (.error .invalidArgument, { m with slots })

/-- The loop of `map_resize` over the slots of the old table. -/
def reinsert (new : Map δ) : List (Slot UInt64 δ) → Except Err (Map δ)
  | [] => .ok new
  | s :: rest =>
    if s.psl = 0 then reinsert new rest
    else
      match new.mapInsert s.key s.data with
      | (.ok _, new) => reinsert new rest
      | (.error (.fault f), _) => .error (.fault f)
      | (.error _, _) => .error (.fault (.assertion .mapKey))

/-- The slots of the arrays. -/
def slotList (m : Map δ) : List (Slot UInt64 δ) := (List.range m.tablelen).map m.slots

/-- `map_resize`, with memory for every table that has a number of bits. -/
def mapResize [Inhabited δ] (m : Map δ) (newHashbits : ℕ) : Except Err Unit × Map δ :=
  if mapMaxHashbits < newHashbits then (.error .nomem, m)
  else
    let new : Map δ := { slots := calloc, seed := m.seed, size := 0, hashbits := newHashbits }
    match if m.size = 0 then .ok new else new.reinsert m.slotList with
    | .error e => (.error e, m)
    | .ok new => (.ok (), { m with slots := new.slots, hashbits := newHashbits })

/-- `dwnx_map_insert` -/
def insert [Inhabited δ] (m : Map δ) (key : UInt64) (data : δ) : Except Err Unit × Map δ :=
  if m.tablelen - m.tablelen >>> 3 ≤ m.size + 1 then
    match m.mapResize (if m.hashbits = 0 then initialHashbits else m.hashbits + 1) with
    | (.error e, m) => (.error e, m)
    | (.ok _, m) => m.mapInsert key data
  else m.mapInsert key data

/-- `dwnx_map_find`, with `none` for `NULL`. -/
def find (m : Map δ) (key : UInt64) : Except Err (Option δ) :=
  if m.size = 0 then .ok none
  else
    match findLoop m.next m.slots key m.tablelen (m.home key) 1 with
    | none => .error (.fault .outOfFuel)
    | some none => .ok none
    | some (some idx) => .ok (some (m.slots idx).data)

/-- `dwnx_map_remove` -/
def remove (m : Map δ) (key : UInt64) : Except Err Unit × Map δ :=
  if m.size = 0 then (.error .invalidArgument, m)
  else
    match findLoop m.next m.slots key m.tablelen (m.home key) 1 with
    | none => (.error (.fault .outOfFuel), m)
    | some none => (.error .invalidArgument, m)
    | some (some dest) =>
      match shiftLoop m.next m.tablelen m.slots dest (m.next dest) with
      | none => (.error (.fault .outOfFuel), m)
      | some slots => (.ok (), { m with slots, size := m.size - 1 })

/-- `dwnx_map_clear` -/
def clear (m : Map δ) : Map δ :=
  if m.size = 0 then m
  else { m with slots := fun idx => { m.slots idx with psl := 0 }, size := 0 }

/-- The loop of `dwnx_map_each`: `func` gets the data and the state behind `ptr`, and a
    nonzero value of it ends the loop. -/
def eachLoop (func : δ → σ → ℤ × σ) : List (Slot UInt64 δ) → σ → ℤ × σ
  | [], s => (0, s)
  | slot :: rest, s =>
    if slot.psl = 0 then eachLoop func rest s
    else
      let (rv, s) := func slot.data s
      if rv = 0 then eachLoop func rest s else (rv, s)

/-- `dwnx_map_each` -/
def each (m : Map δ) (func : δ → σ → ℤ × σ) (ptr : σ) : ℤ × σ :=
  if m.size = 0 then (0, ptr) else eachLoop func m.slotList ptr

end Map

/-! ## Runs -/

/-- A call of a function that changes or searches the map. -/
inductive MapCall (δ : Type)
  | insert (key : UInt64) (data : δ)
  | find (key : UInt64)
  | remove (key : UInt64)
  | clear

namespace Map

variable {δ σ : Type}

/-- A call, with the pointer `find` returns, or `NULL`. -/
def call [Inhabited δ] (m : Map δ) : MapCall δ → Except Err (Option δ) × Map δ
  | .insert key data =>
    let (r, m) := m.insert key data
    (r.map fun _ => none, m)
  | .find key => (m.find key, m)
  | .remove key =>
    let (r, m) := m.remove key
    (r.map fun _ => none, m)
  | .clear => (.ok none, m.clear)

/-- The results of the calls, and the map after them. -/
def run [Inhabited δ] (m : Map δ) : List (MapCall δ) → List (Except Err (Option δ)) × Map δ
  | [] => ([], m)
  | c :: calls =>
    let (r, m) := m.call c
    let (rs, m) := m.run calls
    (r :: rs, m)

end Map

/-! ## The finite map -/

/-- What a call does to a finite map. -/
def mapSpec {δ : Type} (km : KeyMap UInt64 δ) :
    MapCall δ → Except Err (Option δ) × KeyMap UInt64 δ
  | .insert key data =>
    match km.find key with
    | some _ => (.error .invalidArgument, km)
    | none => (.ok none, km.insert key data)
  | .find key => (.ok (km.find key), km)
  | .remove key =>
    match km.find key with
    | some _ => (.ok none, km.erase key)
    | none => (.error .invalidArgument, km)
  | .clear => (.ok none, .empty)

/-- The results of the calls, and the finite map after them. -/
def mapSpecRun {δ : Type} (km : KeyMap UInt64 δ) :
    List (MapCall δ) → List (Except Err (Option δ)) × KeyMap UInt64 δ
  | [] => ([], km)
  | c :: calls =>
    let (r, km) := mapSpec km c
    let (rs, km) := mapSpecRun km calls
    (r :: rs, km)

namespace Map

variable {δ σ : Type}

/-- Calls `func` for the data of a list, until it returns a nonzero value. -/
def visit (func : δ → σ → ℤ × σ) : List δ → σ → ℤ × σ
  | [], s => (0, s)
  | data :: rest, s =>
    let (rv, s) := func data s
    if rv = 0 then visit func rest s else (rv, s)

/-- The map is the finite map `km`. -/
structure Represents (m : Map δ) (km : KeyMap UInt64 δ) : Prop where
  size : m.size = km.entries.length
  /-- `dwnx_map_each` visits the data of the entries. -/
  each : ∃ l : List δ, l.Perm (km.entries.map Prod.snd) ∧
    ∀ (σ : Type) (func : δ → σ → ℤ × σ) (ptr : σ), m.each func ptr = visit func l ptr
  /-- A slot is free. -/
  free : ∃ idx < m.tablelen, (m.slots idx).psl = 0
  /-- A probe sequence length is one plus the distance from home. -/
  distance : ∀ idx < m.tablelen, (m.slots idx).psl ≠ 0 →
    (m.slots idx).psl = (idx + m.tablelen - m.home (m.slots idx).key) % m.tablelen + 1
  /-- From a slot to the next, the probe sequence length grows by at most one. -/
  order : ∀ idx < m.tablelen, (m.slots (m.next idx)).psl ≤ (m.slots idx).psl + 1
  /-- A map with entries has arrays, and their length is a `size_t`. -/
  bits : m.size ≠ 0 → initialHashbits ≤ m.hashbits ∧ m.hashbits ≤ mapMaxHashbits

/-! ## The invariant -/

variable {m : Map δ} {c : Multiset (UInt64 × δ)} {key : UInt64} {data : δ}

/-- The map has the entries `c`, in order, and a slot to spare. -/
structure Holds (m : Map δ) (c : Multiset (UInt64 × δ)) : Prop where
  contents : contents m.tablelen m.slots = c
  size : m.size = c.card
  ordered : Ordered m.tablelen m.home m.slots
  distinct : Distinct c
  bits : m.hashbits ≤ mapMaxHashbits
  arrays : m.hashbits = 0 ∨ initialHashbits ≤ m.hashbits
  room : m.size < m.tablelen

theorem tablelen_pos (m : Map δ) : 0 < m.tablelen := Nat.two_pow_pos _

theorem next_eq (m : Map δ) : ∀ i < m.tablelen, m.next i = (i + 1) % m.tablelen :=
  fun _ _ => Nat.and_two_pow_sub_one_eq_mod _ _

theorem mapIndex_lt (seed key : UInt64) {bits : ℕ} (h : bits ≤ 64) :
    mapIndex seed bits key < 2 ^ bits := by
  have hlt (k : UInt64) : k.toNat >>> (64 - bits) < 2 ^ bits := by
    rw [Nat.shiftRight_eq_div_pow, Nat.div_lt_iff_lt_mul (Nat.two_pow_pos _), ← Nat.pow_add,
      Nat.add_sub_cancel' h]
    exact k.toNat_lt
  exact hlt _

theorem Holds.home_lt (h : m.Holds c) (key : UInt64) : m.home key < m.tablelen :=
  mapIndex_lt _ _ (h.bits.trans (by decide))

theorem Holds.exists_free (h : m.Holds c) : ∃ idx < m.tablelen, (m.slots idx).psl = 0 := by
  refine RobinHood.exists_free ?_
  rw [h.contents, ← h.size]
  exact h.room

theorem Holds.freeWithin (h : m.Holds c) {idx : ℕ} (hidx : idx < m.tablelen) :
    FreeWithin m.tablelen m.slots m.tablelen idx := by
  refine RobinHood.freeWithin ?_ hidx
  rw [h.contents, ← h.size]
  exact h.room

/-- The slot of an entry, and that it is the only one with its key. -/
theorem Holds.slot (h : m.Holds c) (hmem : (key, data) ∈ c) :
    ∃ i < m.tablelen, (m.slots i).psl ≠ 0 ∧ (m.slots i).key = key ∧ (m.slots i).data = data := by
  rw [← h.contents] at hmem
  exact mem_contents.1 hmem

theorem Holds.slot_unique (h : m.Holds c) {i j : ℕ} (hi : i < m.tablelen) (hj : j < m.tablelen)
    (hi0 : (m.slots i).psl ≠ 0) (hj0 : (m.slots j).psl ≠ 0)
    (hkey : (m.slots j).key = (m.slots i).key) : j = i := by
  have hd := h.distinct
  rw [← h.contents] at hd
  exact hd.slot_unique hi hj hi0 hj0 hkey

theorem Holds.not_mem_slots (h : m.Holds c) (hk : ∀ e ∈ c, e.1 ≠ key) :
    ∀ j < m.tablelen, (m.slots j).psl ≠ 0 → (m.slots j).key ≠ key := by
  intro j hj h0
  exact hk _ (h.contents ▸ mem_contents_of_slot hj h0)

/-! ## Insertion -/

theorem Holds.mapInsert_new (h : m.Holds c) (hk : ∀ e ∈ c, e.1 ≠ key) (data : δ)
    (hroom : m.size + 1 < m.tablelen) :
    ∃ m', m.mapInsert key data = (.ok (), m') ∧ m'.Holds ((key, data) ::ₘ c) ∧
      m'.hashbits = m.hashbits ∧ m'.seed = m.seed := by
  have hd : Distinct ((key, data) ::ₘ c) := by
    rw [Distinct, Multiset.map_cons, Multiset.nodup_cons]
    refine ⟨fun hmem => ?_, h.distinct⟩
    obtain ⟨e, he, rfl⟩ := Multiset.mem_map.1 hmem
    exact hk e he rfl
  obtain ⟨slots, hrun, hord, hcont⟩ := insertLoop_new m.next_eq (h.home_lt key) h.ordered
    (Carried.start (h.home_lt key) data) (by rwa [h.contents]) (h.freeWithin (h.home_lt key))
  rw [h.contents] at hcont
  refine ⟨{ m with slots, size := m.size + 1 }, by rw [mapInsert, hrun], ?_, rfl, rfl⟩
  exact ⟨hcont, by rw [Multiset.card_cons, ← h.size], hord, hd, h.bits, h.arrays, hroom⟩

theorem Holds.mapInsert_dup (h : m.Holds c) (hmem : (key, data) ∈ c) (data' : δ) :
    m.mapInsert key data' = (.error .invalidArgument, m) := by
  obtain ⟨i, hi, h0, hkey, -⟩ := h.slot hmem
  have hrun := insertLoop_dup (s := ⟨1, key, data'⟩) m.next_eq h.ordered hi h0
    hkey Nat.one_ne_zero (Nat.pos_of_ne_zero h0)
    (Nat.lt_add_left 1 (h.ordered.psl_lt h.exists_free hi))
  rw [spot_one (h.home_lt key)] at hrun
  rw [mapInsert, hrun]

/-! ## Growth -/

/-- The items of the slots. -/
def loads (l : List (Slot UInt64 δ)) : Multiset (UInt64 × δ) := (l.map Slot.load).sum

theorem loads_slotList (m : Map δ) : loads m.slotList = RobinHood.contents m.tablelen m.slots := by
  rw [loads, slotList, List.map_map]
  rfl

theorem Holds.reinsert {new : Map δ} {l : List (Slot UInt64 δ)} (h : new.Holds c)
    (hd : Distinct (loads l + c)) (hroom : (loads l + c).card < new.tablelen) :
    ∃ new', new.reinsert l = .ok new' ∧ new'.Holds (loads l + c) ∧
      new'.hashbits = new.hashbits ∧ new'.seed = new.seed := by
  induction l generalizing new c with
  | nil => exact ⟨new, rfl, by rwa [loads, List.map_nil, List.sum_nil, zero_add], rfl, rfl⟩
  | cons s l ih =>
    have hsplit : loads (s :: l) + c = loads l + (s.load + c) := by
      rw [loads, List.map_cons, List.sum_cons, add_comm s.load, add_assoc]
      rfl
    rw [hsplit] at hd hroom ⊢
    by_cases h0 : s.psl = 0
    · rw [Slot.load_free h0, zero_add] at hd hroom ⊢
      rw [Map.reinsert, if_pos h0]
      exact ih h hd hroom
    · rw [Slot.load_full h0, Multiset.singleton_add] at hd hroom ⊢
      have hk : ∀ e ∈ c, e.1 ≠ s.key := by
        intro e he heq
        rw [Distinct, Multiset.map_add, Multiset.map_cons, Multiset.nodup_add] at hd
        have hkey := Multiset.mem_map_of_mem Prod.fst he
        rw [heq] at hkey
        exact (Multiset.nodup_cons.1 hd.2.1).1 hkey
      rw [Multiset.card_add, Multiset.card_cons, ← h.size] at hroom
      obtain ⟨m', hrun, hm', hbits, hseed⟩ := h.mapInsert_new hk s.data (by omega)
      have hlen : m'.tablelen = new.tablelen := by rw [tablelen, tablelen, hbits]
      obtain ⟨new', hrun', hnew', hbits', hseed'⟩ := ih hm' hd (by
        rw [Multiset.card_add, Multiset.card_cons, ← h.size, hlen]
        exact hroom)
      refine ⟨new', ?_, hnew', hbits'.trans hbits, hseed'.trans hseed⟩
      rw [Map.reinsert, if_neg h0, hrun]
      exact hrun'

theorem holds_calloc [Inhabited δ] (seed : UInt64) {bits : ℕ} (hbits : bits ≤ mapMaxHashbits)
    (harr : bits = 0 ∨ initialHashbits ≤ bits) :
    Holds (⟨calloc, seed, 0, bits⟩ : Map δ) 0 where
  contents := Finset.sum_eq_zero fun _ _ => Slot.load_free rfl
  size := rfl
  ordered := ordered_of_free fun _ => rfl
  distinct := Multiset.nodup_zero
  bits := hbits
  arrays := harr
  room := Nat.two_pow_pos _

/-- A table that is not too large takes over the entries. -/
theorem Holds.mapResize [Inhabited δ] (h : m.Holds c) {bits : ℕ} (hbits : m.hashbits ≤ bits)
    (harr : initialHashbits ≤ bits) :
    m.mapResize bits = (.error .nomem, m) ∨
    ∃ m', m.mapResize bits = (.ok (), m') ∧ m'.Holds c ∧ m'.size = m.size ∧
      m'.hashbits = bits := by
  by_cases hmax : mapMaxHashbits < bits
  · exact .inl (by rw [Map.mapResize, if_pos hmax])
  refine .inr ?_
  have hblank : Holds (⟨calloc, m.seed, 0, bits⟩ : Map δ) 0 :=
    holds_calloc m.seed (Nat.le_of_not_lt hmax) (.inr harr)
  rw [Map.mapResize, if_neg hmax]
  dsimp only
  by_cases h0 : m.size = 0
  · have hc : c = 0 := by rw [← Multiset.card_eq_zero, ← h.size, h0]
    subst hc
    rw [if_pos h0]
    exact ⟨_, rfl, { hblank with size := h0, room := h0 ▸ hblank.room }, rfl, rfl⟩
  · have hc : loads m.slotList + 0 = c := by rw [add_zero, loads_slotList, h.contents]
    have hroom : c.card < 2 ^ bits := by
      rw [← h.size]
      exact h.room.trans_le (Nat.pow_le_pow_right Nat.two_pos hbits)
    obtain ⟨new, hrun, hnew, hnbits, hseed⟩ := hblank.reinsert (l := m.slotList)
      (hc ▸ h.distinct) (hc ▸ hroom)
    rw [if_neg h0, hrun]
    rw [hc] at hnew
    obtain ⟨slots, seed, size, nbits⟩ := new
    obtain rfl : nbits = bits := hnbits
    obtain rfl : seed = m.seed := hseed
    exact ⟨_, rfl, { hnew with size := h.size, room := h.size ▸ hroom }, rfl, rfl⟩

/-- After the growth the load factor is below one. -/
theorem Holds.insert [Inhabited δ] (h : m.Holds c) (key : UInt64) (data : δ) :
    m.insert key data = (.error .nomem, m) ∨
    ∃ m' : Map δ, m'.Holds c ∧ m'.size + 1 < m'.tablelen ∧
      m.insert key data = m'.mapInsert key data := by
  by_cases hload : m.tablelen - m.tablelen >>> 3 ≤ m.size + 1
  · have hle : m.hashbits ≤ if m.hashbits = 0 then initialHashbits else m.hashbits + 1 := by
      split <;> omega
    have harr : initialHashbits ≤ if m.hashbits = 0 then initialHashbits else m.hashbits + 1 := by
      split
      · exact Nat.le_refl _
      · have := h.arrays
        omega
    rw [Map.insert, if_pos hload]
    rcases h.mapResize hle harr with he | ⟨m', he, hm', hsize, hbits⟩
    · exact .inl (by rw [he])
    · refine .inr ⟨m', hm', ?_, by rw [he]⟩
      have hroom := h.room
      rw [tablelen, hbits, hsize]
      rw [tablelen] at hroom
      split
      · next hz =>
        rw [hz] at hroom
        rw [Nat.lt_one_iff.1 hroom]
        decide
      · rw [Nat.pow_succ]
        have := Nat.two_pow_pos m.hashbits
        omega
  · refine .inr ⟨m, h, ?_, by rw [Map.insert, if_neg hload]⟩
    omega

/-! ## Search and removal -/

theorem Holds.find_some (h : m.Holds c) (hmem : (key, data) ∈ c) :
    ∃ i < m.tablelen, (m.slots i).psl ≠ 0 ∧ (m.slots i).key = key ∧ (m.slots i).data = data ∧
      findLoop m.next m.slots key m.tablelen (m.home key) 1 = some (some i) := by
  obtain ⟨i, hi, h0, rfl, hdata⟩ := h.slot hmem
  refine ⟨i, hi, h0, rfl, hdata, ?_⟩
  have hrun := findLoop_mem m.next_eq h.ordered
    (fun j hj hj0 hkey => h.slot_unique hi hj h0 hj0 hkey) hi h0
    Nat.one_ne_zero (Nat.pos_of_ne_zero h0)
    (Nat.lt_add_left 1 (h.ordered.psl_lt h.exists_free hi))
  rwa [spot_one (h.home_lt _)] at hrun

theorem Holds.find_none (h : m.Holds c) (hk : ∀ e ∈ c, e.1 ≠ key) :
    findLoop m.next m.slots key m.tablelen (m.home key) 1 = some none :=
  findLoop_not_mem m.next_eq (h.home_lt key) (h.not_mem_slots hk) Nat.one_ne_zero
    (h.freeWithin (h.home_lt key))

theorem Holds.size_ne_zero (h : m.Holds c) {e : UInt64 × δ} (hmem : e ∈ c) : m.size ≠ 0 := by
  rw [h.size]
  exact Nat.ne_of_gt (Multiset.card_pos_iff_exists_mem.2 ⟨e, hmem⟩)

theorem Holds.find_mem (h : m.Holds c) (hmem : (key, data) ∈ c) :
    m.find key = .ok (some data) := by
  obtain ⟨i, -, -, -, hdata, hrun⟩ := h.find_some hmem
  rw [Map.find, if_neg (h.size_ne_zero hmem), hrun]
  dsimp only
  rw [hdata]

theorem Holds.find_not_mem (h : m.Holds c) (hk : ∀ e ∈ c, e.1 ≠ key) :
    m.find key = .ok none := by
  rw [Map.find]
  split
  · rfl
  · rw [h.find_none hk]

theorem Holds.remove_mem (h : m.Holds c) (hmem : (key, data) ∈ c) :
    ∃ m' c', m.remove key = (.ok (), m') ∧ m'.Holds c' ∧ (key, data) ::ₘ c' = c := by
  obtain ⟨i, hi, h0, rfl, rfl, hrun⟩ := h.find_some hmem
  obtain ⟨slots, hshift, hord, hcont⟩ := shiftLoop_spec m.next_eq hi h0 h.ordered
    (h.freeWithin (succ_lt hi))
  rw [← m.next_eq i hi] at hshift
  rw [h.contents] at hcont
  refine ⟨{ m with slots, size := m.size - 1 }, _, ?_, ⟨rfl, ?_, hord, ?_, h.bits, h.arrays, ?_⟩,
    hcont⟩
  · rw [Map.remove, if_neg (h.size_ne_zero hmem), hrun]
    dsimp only
    rw [hshift]
  · have hcard := congrArg Multiset.card hcont
    rw [Multiset.card_cons, ← h.size] at hcard
    dsimp only [tablelen] at hcard ⊢
    omega
  · have hd := h.distinct
    rw [← hcont, Distinct, Multiset.map_cons, Multiset.nodup_cons] at hd
    exact hd.2
  · exact Nat.lt_of_le_of_lt (Nat.sub_le _ _) h.room

theorem Holds.remove_not_mem (h : m.Holds c) (hk : ∀ e ∈ c, e.1 ≠ key) :
    m.remove key = (.error .invalidArgument, m) := by
  rw [Map.remove]
  split
  · rfl
  · rw [h.find_none hk]

theorem Holds.clear (h : m.Holds c) : m.clear.Holds 0 := by
  rw [Map.clear]
  split
  · next h0 =>
    have hc : c = 0 := by rw [← Multiset.card_eq_zero, ← h.size, h0]
    exact hc ▸ h
  · exact ⟨Finset.sum_eq_zero fun _ _ => Slot.load_free rfl, rfl, ordered_of_free fun _ => rfl,
      Multiset.nodup_zero, h.bits, h.arrays, tablelen_pos m⟩

/-! ## Visiting -/

/-- The data of the slots in use. -/
def dataOf (l : List (Slot UInt64 δ)) : List δ :=
  (l.filter fun s => s.psl ≠ 0).map Slot.data

theorem eachLoop_eq (func : δ → σ → ℤ × σ) (l : List (Slot UInt64 δ)) (ptr : σ) :
    eachLoop func l ptr = visit func (dataOf l) ptr := by
  induction l generalizing ptr with
  | nil => rfl
  | cons s l ih =>
    by_cases h0 : s.psl = 0
    · rw [eachLoop, if_pos h0, ih, dataOf, dataOf, List.filter_cons_of_neg (by simpa using h0)]
    · rw [eachLoop, if_neg h0, dataOf, List.filter_cons_of_pos (by simpa using h0), List.map_cons,
        visit]
      dsimp only
      rw [ih]
      rfl

theorem coe_dataOf (l : List (Slot UInt64 δ)) :
    (dataOf l : Multiset δ) = (loads l).map Prod.snd := by
  induction l with
  | nil => rfl
  | cons s l ih =>
    rw [loads, List.map_cons, List.sum_cons, Multiset.map_add]
    by_cases h0 : s.psl = 0
    · rw [Slot.load_free h0, Multiset.map_zero, zero_add, dataOf,
        List.filter_cons_of_neg (by simpa using h0)]
      exact ih
    · rw [Slot.load_full h0, Multiset.map_singleton, Multiset.singleton_add, dataOf,
        List.filter_cons_of_pos (by simpa using h0), List.map_cons, ← Multiset.cons_coe]
      exact congrArg _ ih

/-! ## Refinement -/

variable {km : KeyMap UInt64 δ}

/-- The map has the entries of the finite map. -/
def Refines (m : Map δ) (km : KeyMap UInt64 δ) : Prop :=
  m.Holds (km.entries : Multiset (UInt64 × δ))

theorem Refines.represents (h : m.Refines km) : m.Represents km where
  size := h.size
  each := by
    by_cases h0 : m.size = 0
    · refine ⟨[], ?_, fun σ func ptr => by rw [Map.each, if_pos h0]; rfl⟩
      have hlen : km.entries.length = 0 := h.size.symm.trans h0
      rw [List.eq_nil_of_length_eq_zero hlen]
      exact .refl _
    · refine ⟨dataOf m.slotList, ?_, fun σ func ptr => by rw [Map.each, if_neg h0, eachLoop_eq]⟩
      rw [← Multiset.coe_eq_coe, coe_dataOf, loads_slotList, h.contents, Multiset.map_coe]
  free := h.exists_free
  distance _ hi h0 := h.ordered.psl_eq h.home_lt h.exists_free hi h0
  order idx hi := by
    rw [m.next_eq idx hi]
    exact h.ordered.order idx hi
  bits h0 := by
    refine ⟨h.arrays.resolve_left fun hb => h0 ?_, h.bits⟩
    have hroom := h.room
    rw [tablelen, hb] at hroom
    exact Nat.lt_one_iff.1 hroom

theorem not_mem_of_find (hf : km.find key = none) :
    ∀ e ∈ (km.entries : Multiset (UInt64 × δ)), e.1 ≠ key := by
  intro e he hk
  exact KeyMap.find_eq_none_iff.1 hf (hk ▸ List.mem_map_of_mem he)

theorem mem_of_find (hf : km.find key = some data) :
    (key, data) ∈ (km.entries : Multiset (UInt64 × δ)) :=
  KeyMap.find_eq_some_iff.1 hf

/-- A call does what it does to the finite map, if there is memory. -/
theorem Refines.call [Inhabited δ] (h : m.Refines km) (c : MapCall δ) :
    (m.call c).1 = .error .nomem ∨
    (m.call c).1 = (mapSpec km c).1 ∧ (m.call c).2.Refines (mapSpec km c).2 := by
  cases c with
  | insert key data =>
    rcases Holds.insert h key data with he | ⟨m', hm', hroom, he⟩
    · left
      rw [Map.call, he]
      rfl
    · right
      rw [Map.call, he, mapSpec]
      cases hf : km.find key with
      | none =>
        obtain ⟨m'', hrun, hm'', -⟩ := hm'.mapInsert_new (not_mem_of_find hf) data hroom
        rw [hrun]
        refine ⟨rfl, ?_⟩
        rw [Refines, KeyMap.insert, dif_neg (KeyMap.find_eq_none_iff.1 hf), ← Multiset.coe_add,
          add_comm]
        exact hm''
      | some data' =>
        rw [hm'.mapInsert_dup (mem_of_find hf)]
        exact ⟨rfl, hm'⟩
  | find key =>
    right
    rw [Map.call, mapSpec]
    refine ⟨?_, h⟩
    cases hf : km.find key with
    | none => exact Holds.find_not_mem h (not_mem_of_find hf)
    | some data => exact Holds.find_mem h (mem_of_find hf)
  | remove key =>
    right
    rw [Map.call, mapSpec]
    cases hf : km.find key with
    | none =>
      rw [Holds.remove_not_mem h (not_mem_of_find hf)]
      exact ⟨rfl, h⟩
    | some data =>
      obtain ⟨m', c', hrun, hm', hc'⟩ := Holds.remove_mem h (mem_of_find hf)
      rw [hrun]
      refine ⟨rfl, ?_⟩
      have hperm := Multiset.coe_eq_coe.2 (KeyMap.perm_erase hf)
      rw [← Multiset.cons_coe, ← hc', Multiset.cons_inj_right] at hperm
      rw [Refines, hperm]
      exact hm'
  | clear => exact .inr ⟨rfl, Holds.clear h⟩

end Map

/-- Every run of the map, without allocation failure, returns what the finite map returns and
    leaves it behind; no call fails an assertion or does not end. -/
theorem map_refines {δ : Type} [Inhabited δ] (seed : UInt64) (calls : List (MapCall δ))
    (hmem : .error .nomem ∉ ((Map.init seed).run calls).1) :
    ((Map.init seed).run calls).1 = (mapSpecRun .empty calls).1 ∧
    ((Map.init seed).run calls).2.Represents (mapSpecRun .empty calls).2 := by
  have hrun (m : Map δ) (km : KeyMap UInt64 δ) (h : m.Refines km)
      (hm : .error .nomem ∉ (m.run calls).1) :
      (m.run calls).1 = (mapSpecRun km calls).1 ∧
      (m.run calls).2.Refines (mapSpecRun km calls).2 := by
    clear hmem
    induction calls generalizing m km with
    | nil => exact ⟨rfl, h⟩
    | cons c calls ih =>
      rw [Map.run] at hm ⊢
      dsimp only at hm ⊢
      rw [List.mem_cons, not_or] at hm
      rcases h.call c with he | ⟨hr, hs⟩
      · exact absurd he.symm hm.1
      · obtain ⟨hrs, hm'⟩ := ih _ _ hs hm.2
        rw [mapSpecRun]
        dsimp only
        exact ⟨by rw [hr, hrs], hm'⟩
  obtain ⟨hr, hs⟩ := hrun _ .empty (Map.holds_calloc seed (Nat.zero_le _) (.inl rfl)) hmem
  exact ⟨hr, hs.represents⟩

/-- Two entries, of which one is refused the second time and then taken out. -/
theorem map_refines_two :
    let calls : List (MapCall ℕ) :=
      [.insert 4 10, .insert 8 11, .insert 4 12, .find 8, .remove 4, .find 4]
    ((Map.init 7).run calls).1 =
      [.ok none, .ok none, .error .invalidArgument, .ok (some 11), .ok none, .ok none] ∧
    ((Map.init 7).run calls).2.Represents (mapSpecRun .empty calls).2 :=
  have hmem : .error .nomem ∉ ((Map.init 7).run ([.insert 4 10, .insert 8 11, .insert 4 12,
    .find 8, .remove 4, .find 4] : List (MapCall ℕ))).1 := by decide
  have h := map_refines 7 _ hmem
  ⟨h.1.trans rfl, h.2⟩

end Dwnx
