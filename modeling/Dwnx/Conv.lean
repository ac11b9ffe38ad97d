import Dwnx.Basic
import Mathlib.Data.List.Induction
import Mathlib.Tactic

/-!
# Variable-length integers

A varint holds an integer below `2 ^ 62` in 1, 2, 4 or 8 bytes, in network byte
order; the two top bits of the first byte give the width. `putUvarint` writes
the shortest form, `getUvarint` reads any.
-/

namespace Dwnx

/-! ## Network byte order -/

/-- The integer whose network byte order is `bs`. -/
def beNat (bs : List UInt8) : ℕ := bs.foldl (fun n b => n * 256 + b.toNat) 0

/-- The `w` low bytes of `n`, in network byte order. -/
def beBytes : ℕ → ℕ → List UInt8
  | 0, _ => []
  | w + 1, n => UInt8.ofNat (n / 256 ^ w) :: beBytes w n

@[simp] theorem length_beBytes (w n : ℕ) : (beBytes w n).length = w := by
  induction w with
  | zero => rfl
  | succ w ih => simp [beBytes, ih]

@[simp] theorem beNat_nil : beNat [] = 0 := rfl

/-- The first bytes are the more significant. -/
theorem beNat_append (bs cs : List UInt8) :
    beNat (bs ++ cs) = beNat bs * 256 ^ cs.length + beNat cs := by
  induction cs using List.reverseRecOn with
  | nil => simp
  | append_singleton cs c ih =>
    have h (ds : List UInt8) : beNat (ds ++ [c]) = beNat ds * 256 + c.toNat := by
      simp [beNat, List.foldl_append]
    rw [← List.append_assoc, h, h, ih, List.length_append, List.length_singleton, pow_succ]
    ring

/-- The first byte is the most significant. -/
theorem beNat_cons (b : UInt8) (bs : List UInt8) :
    beNat (b :: bs) = b.toNat * 256 ^ bs.length + beNat bs := by
  rw [← List.singleton_append, beNat_append]
  simp [beNat]

/-- A number of `w` bytes is below `256 ^ w`. -/
theorem beNat_lt (bs : List UInt8) : beNat bs < 256 ^ bs.length := by
  induction bs with
  | nil => simp
  | cons b bs ih =>
    have hb : b.toNat ≤ 255 := Nat.le_of_lt_succ b.toNat_lt
    have := Nat.mul_le_mul_right (256 ^ bs.length) hb
    rw [beNat_cons, List.length_cons, pow_succ]
    omega

/-- What is written is read again, up to the width. -/
theorem beNat_beBytes (w n : ℕ) : beNat (beBytes w n) = n % 256 ^ w := by
  induction w with
  | zero => simp [beBytes, Nat.mod_one]
  | succ w ih =>
    have : n / 256 ^ w % 2 ^ 8 = n / 256 ^ w % 256 := rfl
    rw [beBytes, beNat_cons, ih, length_beBytes, UInt8.toNat_ofNat', this, pow_succ (256 : ℕ),
      Nat.mod_mul, Nat.add_comm, Nat.mul_comm]

/-! ## Reading -/

/-- The width of the varint whose first byte is `b`. -/
def getUvarintlen (b : UInt8) : ℕ := 1 <<< (b >>> 6).toNat

/-- Reads a varint of known width from `p`; none if `p` is shorter. -/
def getUvarint (p : List UInt8) : Option (ℕ × List UInt8) :=
  match p with
  | [] => none
  | b :: _ =>
    let n := getUvarintlen b
    if p.length < n then none else some (beNat (p.take n) % 2 ^ (8 * n - 2), p.drop n)

/-- `dwnx_get_uvarintlen` at `p`. -/
def uvarintlenAt (p : List UInt8) : Except Err ℕ :=
  match p with
  | [] => .error (.fault .outOfBounds)
  | b :: _ => .ok (getUvarintlen b)

/-- `dwnx_get_uvarint` at `p`. -/
def uvarintAt (p : List UInt8) : Except Err (ℕ × List UInt8) :=
  match getUvarint p with
  | none => .error (.fault .outOfBounds)
  | some vp => .ok vp

/-- A varint within the buffer is read without a fault. -/
theorem uvarintAt_of_some {p r : List UInt8} {v : ℕ} (h : getUvarint p = some (v, r)) :
    uvarintAt p = .ok (v, r) := by
  rw [uvarintAt, h]

/-- A varint whose bytes are all there. -/
theorem getUvarint_cons {b : UInt8} {p : List UInt8} (h : getUvarintlen b ≤ (b :: p).length) :
    ∃ v, getUvarint (b :: p) = some (v, (b :: p).drop (getUvarintlen b)) := by
  rw [getUvarint]
  exact ⟨_, if_neg (Nat.not_lt.2 h)⟩

/-- The two high bits of the first byte say the length. -/
theorem getUvarintlen_eq (b : UInt8) : getUvarintlen b = 2 ^ (b.toNat / 64) := by
  rw [getUvarintlen, Nat.one_shiftLeft, UInt8.toNat_shiftRight, Nat.shiftRight_eq_div_pow]
  rfl

/-- A varint has 1, 2, 4 or 8 bytes. -/
theorem getUvarintlen_mem (b : UInt8) : getUvarintlen b ∈ [1, 2, 4, 8] := by
  have h : b.toNat / 64 < 4 := by
    have := b.toNat_lt
    omega
  rw [getUvarintlen_eq]
  interval_cases b.toNat / 64 <;> simp

/-- A varint has bytes. -/
theorem getUvarintlen_pos (b : UInt8) : 0 < getUvarintlen b := by
  have := getUvarintlen_mem b
  simp only [List.mem_cons, List.not_mem_nil, or_false] at this
  omega

/-- A varint has at most 8 bytes. -/
theorem getUvarintlen_le (b : UInt8) : getUvarintlen b ≤ 8 := by
  have := getUvarintlen_mem b
  simp only [List.mem_cons, List.not_mem_nil, or_false] at this
  omega

/-- What is read is a varint. -/
theorem getUvarint_le {p r : List UInt8} {v : ℕ} (h : getUvarint p = some (v, r)) :
    v ≤ maxVarint := by
  cases p with
  | nil => cases h
  | cons b p =>
    simp only [getUvarint] at h
    split at h
    · cases h
    · obtain ⟨rfl, -⟩ := Prod.mk.inj (Option.some.inj h)
      have hpow : 2 ^ (8 * getUvarintlen b - 2) ≤ 2 ^ 62 :=
        Nat.pow_le_pow_right (by decide) (by have := getUvarintlen_le b; omega)
      have hlt := Nat.mod_lt (beNat ((b :: p).take (getUvarintlen b)))
        (Nat.two_pow_pos (8 * getUvarintlen b - 2))
      unfold maxVarint
      omega

/-- A varint is not there if its bytes are not all there. -/
theorem getUvarint_eq_none {bs : List UInt8} :
    getUvarint bs = none ↔ ∀ b, bs.head? = some b → bs.length < getUvarintlen b := by
  cases bs with
  | nil => simp [getUvarint]
  | cons b bs => simp [getUvarint]

/-- What a varint is does not depend on what follows it. -/
theorem getUvarint_append {p q r : List UInt8} {v : ℕ} (h : getUvarint p = some (v, r)) :
    getUvarint (p ++ q) = some (v, r ++ q) := by
  cases p with
  | nil => cases h
  | cons b p =>
    simp only [getUvarint, List.cons_append] at h ⊢
    split at h
    · cases h
    · next hle =>
      obtain ⟨rfl, rfl⟩ := Prod.mk.inj (Option.some.inj h)
      rw [Nat.not_lt] at hle
      rw [if_neg (by simp only [List.length_cons, List.length_append] at hle ⊢; omega),
        ← List.cons_append, List.take_append_of_le_length hle, List.drop_append_of_le_length hle]

/-- What is left is the rest of the bytes. -/
theorem getUvarint_suffix {p r : List UInt8} {v : ℕ} (h : getUvarint p = some (v, r)) :
    ∃ n, 0 < n ∧ n ≤ p.length ∧ r = p.drop n := by
  cases p with
  | nil => cases h
  | cons b p =>
    simp only [getUvarint] at h
    split at h
    · cases h
    · next hle =>
      obtain ⟨-, rfl⟩ := Prod.mk.inj (Option.some.inj h)
      exact ⟨_, getUvarintlen_pos b, Nat.le_of_not_lt hle, rfl⟩

/-- A varint that is partly there ends in what follows. -/
theorem getUvarint_append_suffix {bs p r : List UInt8} {v : ℕ} (hbs : getUvarint bs = none)
    (h : getUvarint (bs ++ p) = some (v, r)) : ∃ n, 0 < n ∧ n ≤ p.length ∧ r = p.drop n := by
  obtain ⟨n, hn, hle, rfl⟩ := getUvarint_suffix h
  have hlt : bs.length < n := by
    cases bs with
    | nil => exact hn
    | cons b bs =>
      have hb := getUvarint_eq_none.1 hbs b rfl
      simp only [getUvarint, List.cons_append] at h
      split at h
      · cases h
      · next hw =>
        have := congrArg List.length (Prod.mk.inj (Option.some.inj h)).2
        simp only [List.length_drop, List.length_cons, List.length_append] at this hb hw hle ⊢
        omega
  rw [List.length_append] at hle
  refine ⟨n - bs.length, by omega, by omega, ?_⟩
  rw [List.drop_append, List.drop_eq_nil_of_le hlt.le, List.nil_append]

/-- The first byte says how much is read. -/
theorem getUvarint_head {b : UInt8} {bs : List UInt8} (hb : bs.head? = some b) :
    getUvarint bs = if bs.length < getUvarintlen b then none
      else some (beNat (bs.take (getUvarintlen b)) % 2 ^ (8 * getUvarintlen b - 2),
        bs.drop (getUvarintlen b)) := by
  cases bs with
  | nil => cases hb
  | cons a bs =>
    cases hb
    rfl

/-- A varint that is read has bytes of its own. -/
theorem exists_of_getUvarint {p r : List UInt8} {v : ℕ} (h : getUvarint p = some (v, r)) :
    ∃ bs, p = bs ++ r ∧ getUvarint bs = some (v, []) ∧
      ∀ b, p.head? = some b → bs.length = getUvarintlen b := by
  cases hp : p.head? with
  | none =>
    obtain rfl := List.head?_eq_none_iff.1 hp
    cases h
  | some b =>
    rw [getUvarint_head hp] at h
    split at h
    · cases h
    · next hle =>
      obtain ⟨rfl, rfl⟩ := Prod.mk.inj (Option.some.inj h)
      have hlen : (p.take (getUvarintlen b)).length = getUvarintlen b :=
        List.length_take_of_le (Nat.le_of_not_lt hle)
      have hhead : (p.take (getUvarintlen b)).head? = some b := by
        rw [List.head?_take, if_neg (getUvarintlen_pos b).ne', hp]
      refine ⟨_, (List.take_append_drop (getUvarintlen b) _).symm, ?_, fun c hc => ?_⟩
      · rw [getUvarint_head hhead, if_neg (Nat.not_lt.2 hlen.ge), List.take_take, Nat.min_self,
          List.drop_of_length_le hlen.le]
      · cases hc
        exact hlen

/-! ## Writing -/

/-- The number of bytes of the shortest form of `n`. -/
def uvarintLen (n : ℕ) : ℕ :=
  if n < 64 then 1 else if n < 16384 then 2 else if n < 1073741824 then 4 else 8

/-- The width in which `n` is written; an assertion bounds `n`. -/
def putUvarintlen (n : ℕ) : Except Err ℕ :=
  if n < 4611686018427387904 then .ok (uvarintLen n) else .error (.fault (.assertion .uvarintlen))

/-- The `w` low bytes of `n`, with the bits of `tag` set in the first. -/
def putTagged (w n : ℕ) (tag : UInt8) : List UInt8 :=
  match beBytes w n with
  | [] => []
  | b :: bs => (b ||| tag) :: bs

/-- The shortest varint holding `n`. -/
def putUvarint (n : ℕ) : List UInt8 :=
  if n < 64 then [UInt8.ofNat n]
  else if n < 16384 then putTagged 2 n 0x40
  else if n < 1073741824 then putTagged 4 n 0x80
  else putTagged 8 n 0xC0

/-- The varint of two bytes holding `n`, as it heads every record. -/
def putUvarintw2 (n : ℕ) : Except Err (List UInt8) :=
  if n < 16384 then .ok (putTagged 2 n 0x40) else .error (.fault (.assertion .uvarintw))

/-- A varint has bytes. -/
theorem uvarintLen_pos (n : ℕ) : 0 < uvarintLen n := by
  unfold uvarintLen
  split_ifs <;> omega

/-- A varint has at most 8 bytes. -/
theorem uvarintLen_le (n : ℕ) : uvarintLen n ≤ 8 := by
  unfold uvarintLen
  split_ifs <;> omega

/-- A larger number takes no fewer bytes. -/
theorem uvarintLen_mono {m n : ℕ} (h : m ≤ n) : uvarintLen m ≤ uvarintLen n := by
  unfold uvarintLen
  split_ifs <;> omega

/-- The length of what is a varint. -/
theorem putUvarintlen_eq {n : ℕ} (h : n ≤ maxVarint) : putUvarintlen n = .ok (uvarintLen n) :=
  if_pos (by unfold maxVarint at h; omega)

@[simp] theorem length_putTagged (w n : ℕ) (tag : UInt8) : (putTagged w n tag).length = w := by
  cases w with
  | zero => rfl
  | succ w => simp [putTagged, beBytes]

@[simp] theorem length_putUvarint (n : ℕ) : (putUvarint n).length = uvarintLen n := by
  unfold putUvarint uvarintLen
  split_ifs <;> simp

/-- A varint has bytes. -/
theorem putUvarint_ne_nil (n : ℕ) : putUvarint n ≠ [] :=
  List.ne_nil_of_length_pos (by rw [length_putUvarint]; exact uvarintLen_pos n)

/-! ## Reading what was written -/

/-- The tag does not touch the bits below it. -/
theorem toNat_or_tag {a t : ℕ} (ha : a < 64) (ht : t < 4) :
    (UInt8.ofNat a ||| UInt8.ofNat (64 * t)).toNat = 64 * t + a := by
  rw [UInt8.toNat_or, UInt8.toNat_ofNat', UInt8.toNat_ofNat', Nat.or_comm,
    Nat.mod_eq_of_lt (by omega : a < 2 ^ 8), Nat.mod_eq_of_lt (by omega : 64 * t < 2 ^ 8)]
  exact (Nat.two_pow_add_eq_or_of_lt (i := 6) ha t).symm

/-- The first byte of a tagged integer gives the width, and the bytes the
    integer. -/
theorem getUvarint_putTagged {k n : ℕ} (hk : k < 4) (hn : n < 2 ^ (8 * 2 ^ k - 2))
    (r : List UInt8) :
    getUvarint (putTagged (2 ^ k) n (UInt8.ofNat (64 * k)) ++ r) = some (n, r) := by
  obtain ⟨w, hw⟩ : ∃ w, 2 ^ k = w + 1 := ⟨2 ^ k - 1, by have := Nat.two_pow_pos k; omega⟩
  have hpow : (2 : ℕ) ^ (8 * 2 ^ k - 2) = 64 * 256 ^ w := by
    rw [hw, show 8 * (w + 1) - 2 = 6 + 8 * w by omega, pow_add, pow_mul]
    norm_num
  have hhi : n / 256 ^ w < 64 := by
    rw [Nat.div_lt_iff_lt_mul (by positivity)]
    omega
  have hput : putTagged (2 ^ k) n (UInt8.ofNat (64 * k)) =
      (UInt8.ofNat (n / 256 ^ w) ||| UInt8.ofNat (64 * k)) :: beBytes w n := by
    rw [hw, putTagged, beBytes]
  have hfst := toNat_or_tag hhi hk
  have hlen : getUvarintlen (UInt8.ofNat (n / 256 ^ w) ||| UInt8.ofNat (64 * k)) = 2 ^ k := by
    rw [getUvarintlen_eq, hfst, Nat.mul_add_div (by omega), Nat.div_eq_of_lt hhi, Nat.add_zero]
  have hnat : beNat ((UInt8.ofNat (n / 256 ^ w) ||| UInt8.ofNat (64 * k)) :: beBytes w n) =
      64 * k * 256 ^ w + n := by
    rw [beNat_cons, hfst, length_beBytes, beNat_beBytes, add_mul, add_assoc, mul_comm (n / _),
      Nat.div_add_mod]
  rw [hput, List.cons_append, getUvarint]
  simp only [hlen, List.length_cons, List.length_append, length_beBytes]
  rw [if_neg (by omega), hw, List.take_succ_cons, List.drop_succ_cons,
    List.take_left' (length_beBytes ..), List.drop_left' (length_beBytes ..), hnat, ← hw, hpow,
    show 64 * k * 256 ^ w = 64 * 256 ^ w * k by ring, Nat.mul_add_mod, Nat.mod_eq_of_lt (by omega)]

/-- What is written is read again. -/
theorem getUvarint_putUvarint {n : ℕ} (hn : n ≤ maxVarint) (r : List UInt8) :
    getUvarint (putUvarint n ++ r) = some (n, r) := by
  unfold maxVarint at hn
  unfold putUvarint
  split_ifs with h1 h2 h3
  · simpa [putTagged, beBytes] using getUvarint_putTagged (k := 0) (n := n) (by omega) (by omega) r
  · exact getUvarint_putTagged (k := 1) (by omega) (by omega) r
  · exact getUvarint_putTagged (k := 2) (by omega) (by omega) r
  · exact getUvarint_putTagged (k := 3) (by omega) (by omega) r

end Dwnx
