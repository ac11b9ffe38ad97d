import Dwnx.Basic
import Dwnx.Lib.Numeral
import Mathlib.Data.Nat.Log
import Mathlib.Logic.Function.Basic

/-!
# Integers as text

The functions of `dwnx_str` that write integers of 64 bits in decimal and in hexadecimal.
Decimal digits are written backwards, two at a time, from an end that `countDigit` has told
before.

A buffer is memory with a pointer into it (`Buf`), and `Buf.Wrote` says what was written: these
bytes, from the pointer on, and nothing else. `none` is the outcome where a table has no such
entry, or where the source is not to be reached.

* `countDigit_eq`: the number of digits is right, with either way to count leading zeros;
* `encodeUint_wrote`, `encodeUintHex_wrote`: the bytes written are the digits.
-/

namespace Dwnx

namespace Str

/-! ## Digits -/

/-- The byte of a digit. -/
def xdigit (d : ℕ) : UInt8 := if d < 10 then (48 + d).toUInt8 else (87 + d).toUInt8

/-- `LOWER_XDIGITS` -/
def lowerXdigits : List UInt8 := "0123456789abcdef".toList.map fun c => c.toNat.toUInt8

/-- `uint_digits`, the digits of the integers below `100`. -/
def uintDigits : List UInt8 :=
  (["00010203040506070809", "10111213141516171819",
    "20212223242526272829", "30313233343536373839",
    "40414243444546474849", "50515253545556575859",
    "60616263646566676869", "70717273747576777879",
    "80818283848586878889", "90919293949596979899"].flatMap
    String.toList).map fun c => c.toNat.toUInt8

/-- `count_digit_tbl` -/
def countDigitTbl : List ℕ :=
  [9, 99, 999, 9999, 99999, 999999, 9999999, 99999999, 999999999, 9999999999, 99999999999,
   999999999999, 9999999999999, 99999999999999, 999999999999999, 9999999999999999,
   99999999999999999, 999999999999999999, 9999999999999999999]

/-- `len8tab` -/
def len8tab : List ℕ :=
  [0, 1, 2, 2, 3, 3, 3, 3, 4, 4, 4, 4, 4, 4, 4, 4, 5, 5, 5, 5, 5, 5, 5, 5, 5, 5, 5, 5, 5, 5, 5, 5,
   6, 6, 6, 6, 6, 6, 6, 6, 6, 6, 6, 6, 6, 6, 6, 6, 6, 6, 6, 6, 6, 6, 6, 6, 6, 6, 6, 6, 6, 6, 6, 6,
   7, 7, 7, 7, 7, 7, 7, 7, 7, 7, 7, 7, 7, 7, 7, 7, 7, 7, 7, 7, 7, 7, 7, 7, 7, 7, 7, 7, 7, 7, 7, 7,
   7, 7, 7, 7, 7, 7, 7, 7, 7, 7, 7, 7, 7, 7, 7, 7, 7, 7, 7, 7, 7, 7, 7, 7, 7, 7, 7, 7, 7, 7, 7, 7,
   8, 8, 8, 8, 8, 8, 8, 8, 8, 8, 8, 8, 8, 8, 8, 8, 8, 8, 8, 8, 8, 8, 8, 8, 8, 8, 8, 8, 8, 8, 8, 8,
   8, 8, 8, 8, 8, 8, 8, 8, 8, 8, 8, 8, 8, 8, 8, 8, 8, 8, 8, 8, 8, 8, 8, 8, 8, 8, 8, 8, 8, 8, 8, 8,
   8, 8, 8, 8, 8, 8, 8, 8, 8, 8, 8, 8, 8, 8, 8, 8, 8, 8, 8, 8, 8, 8, 8, 8, 8, 8, 8, 8, 8, 8, 8, 8,
   8, 8, 8, 8, 8, 8, 8, 8, 8, 8, 8, 8, 8, 8, 8, 8, 8, 8, 8, 8, 8, 8, 8, 8, 8, 8, 8, 8, 8, 8, 8, 8]

/-! ## The number of digits -/

/-- `countl_zero` with `__builtin_clzll`, which is not to be called with `0`. -/
def countlZero (x : ℕ) : Option ℕ := if x = 0 then none else some (63 - Nat.log2 x)

/-- `countl_zero` with its own table. -/
def countlZeroTab (x : ℕ) : Option ℕ := do
  let (x, n) := if 2 ^ 32 ≤ x then (x >>> 32, 32) else (x, 0)
  let (x, n) := if 2 ^ 16 ≤ x then (x >>> 16, n + 16) else (x, n)
  let (x, n) := if 2 ^ 8 ≤ x then (x >>> 8, n + 8) else (x, n)
  let len ← len8tab[x]?
  some (64 - (n + len))

/-- `count_digit`, with the given function for `countl_zero`. -/
def countDigit (clz : ℕ → Option ℕ) (x : ℕ) : Option ℕ := do
  let zeros ← clz (x ||| 1)
  let y := (19 * (63 - zeros)) >>> 6
  let most ← countDigitTbl[y]?
  let y := y + if most < x then 1 else 0
  some (y + 1)

/-- `dwnx_encode_uintlen` -/
def encodeUintlen (clz : ℕ → Option ℕ) (n : ℕ) : Option ℕ := countDigit clz n

/-! ## Buffers -/

/-- Memory, and a pointer into it. -/
structure Buf where
  mem : ℤ → UInt8
  dest : ℤ

namespace Buf

/-- `*dest++ = b` -/
def put (buf : Buf) (b : UInt8) : Buf := ⟨Function.update buf.mem buf.dest b, buf.dest + 1⟩

/-- `dwnx_setmem` -/
def setmem (buf : Buf) (b : UInt8) : ℕ → Buf
  | 0 => buf
  | n + 1 => (buf.put b).setmem b n

end Buf

/-- The loop of `dwnx_encode_uint`, with the pointer and the integer that are left. -/
def encodePairs (mem : ℤ → UInt8) (p : ℤ) (n : ℕ) : Option ((ℤ → UInt8) × ℤ × ℕ) :=
  if 100 ≤ n then do
    let p := p - 2
    let hi ← uintDigits[n % 100 * 2]?
    let lo ← uintDigits[n % 100 * 2 + 1]?
    encodePairs (Function.update (Function.update mem p hi) (p + 1) lo) p (n / 100)
  else some (mem, p, n)
termination_by n

/-- `dwnx_encode_uint` -/
def encodeUint (clz : ℕ → Option ℕ) (buf : Buf) (n : ℕ) : Option Buf :=
  if n < 10 then some (buf.put (48 + n).toUInt8)
  else if n < 100 then do
    let hi ← uintDigits[n * 2]?
    let lo ← uintDigits[n * 2 + 1]?
    some ((buf.put hi).put lo)
  else do
    let len ← countDigit clz n
    let dest := buf.dest + len
    let (mem, p, n) ← encodePairs buf.mem dest n
    if n < 10 then some ⟨Function.update mem (p - 1) (48 + n).toUInt8, dest⟩
    else do
      let p := p - 2
      let hi ← uintDigits[n * 2]?
      let lo ← uintDigits[n * 2 + 1]?
      some ⟨Function.update (Function.update mem p hi) (p + 1) lo, dest⟩

/-! ## Hexadecimal digits -/

/-- The byte of an integer with `k` bytes behind it. -/
def byteAt (n k : ℕ) : ℕ := (n >>> (k * 8)) % 256

/-- The loop of `dwnx_encode_uint_hexlen`, with `k` bytes left. -/
def hexlenLoop (n : ℕ) : ℕ → Option ℕ
  | 0 => none
  | k + 1 =>
    let d := byteAt n k
    if d = 0 then hexlenLoop n k
    else if d >>> 4 ≠ 0 then some ((k + 1) * 2)
    else some ((k + 1) * 2 - 1)

/-- `dwnx_encode_uint_hexlen` -/
def encodeUintHexlen (n : ℕ) : Option ℕ := if n = 0 then some 1 else hexlenLoop n 8

/-- The first loop of `dwnx_encode_uint_hex`, with `k` bytes left before it and after. -/
def encodeHexFirst (n : ℕ) : ℕ → Buf → Option (Buf × ℕ)
  | 0, buf => some (buf, 0)
  | k + 1, buf =>
    let d := byteAt n k
    if d ≠ 0 then do
      let buf ← if d >>> 4 ≠ 0 then (lowerXdigits[d >>> 4]?).map buf.put else some buf
      let lo ← lowerXdigits[d &&& 15]?
      some (buf.put lo, k)
    else encodeHexFirst n k buf

/-- The second loop. -/
def encodeHexRest (n : ℕ) : ℕ → Buf → Option Buf
  | 0, buf => some buf
  | k + 1, buf => do
    let d := byteAt n k
    let hi ← lowerXdigits[d >>> 4]?
    let lo ← lowerXdigits[d &&& 15]?
    encodeHexRest n k ((buf.put hi).put lo)

/-- `dwnx_encode_uint_hex` -/
def encodeUintHex (buf : Buf) (n : ℕ) : Option Buf :=
  if n = 0 then some (buf.put 48)
  else do
    let (buf, k) ← encodeHexFirst n 8 buf
    encodeHexRest n k buf

/-! ## Leading zeros -/

variable {clz : ℕ → Option ℕ} {x n k : ℕ}

/-- A function for `countl_zero`. -/
def CountsZeros (clz : ℕ → Option ℕ) : Prop :=
  ∀ x, 0 < x → x < 2 ^ 64 → clz x = some (63 - Nat.log2 x)

theorem countlZero_counts : CountsZeros countlZero := fun _ hpos _ => if_neg hpos.ne'

/-- A shift takes off from the length. -/
theorem log2_shiftRight (h : 2 ^ k ≤ x) : 0 < x >>> k ∧ Nat.log2 x = Nat.log2 (x >>> k) + k := by
  have hpow : 0 < 2 ^ k := Nat.two_pow_pos k
  have hpos : 0 < x >>> k := by
    rw [Nat.shiftRight_eq_div_pow]
    exact Nat.div_pos h hpow
  refine ⟨hpos, ?_⟩
  have hx : x ≠ 0 := (hpow.trans_le h).ne'
  have hlo := Nat.log2_self_le hpos.ne'
  have hhi := Nat.lt_log2_self (n := x >>> k)
  rw [Nat.shiftRight_eq_div_pow] at hlo hhi ⊢
  rw [Nat.log2_eq_iff hx]
  constructor
  · rw [Nat.pow_add]
    exact (Nat.le_div_iff_mul_le hpow).1 hlo
  · rw [Nat.add_right_comm, Nat.pow_add]
    exact (Nat.div_lt_iff_lt_mul hpow).1 hhi

theorem len8tab_map : len8tab = 0 :: (List.range 255).map fun i => Nat.log2 (i + 1) + 1 := by
  decide +kernel

theorem len8tab_eq (hlt : x < 256) (hpos : 0 < x) : len8tab[x]? = some (Nat.log2 x + 1) := by
  obtain ⟨i, rfl⟩ := Nat.exists_eq_add_one.2 hpos
  rw [len8tab_map, List.getElem?_cons_succ, List.getElem?_map, List.getElem?_range (by omega)]
  rfl

/-- One of the comparisons of `countl_zero`. -/
theorem shift_step (b : ℕ) {x₀ n : ℕ} (hpos : 0 < x) (hlog : Nat.log2 x₀ = Nat.log2 x + n)
    (hlt : x < 2 ^ (2 * b)) :
    ∃ x' n', (if 2 ^ b ≤ x then (x >>> b, n + b) else (x, n)) = (x', n') ∧ 0 < x' ∧
      Nat.log2 x₀ = Nat.log2 x' + n' ∧ x' < 2 ^ b := by
  by_cases hb : 2 ^ b ≤ x
  · obtain ⟨hpos', hlog'⟩ := log2_shiftRight hb
    refine ⟨_, _, if_pos hb, hpos', ?_, ?_⟩
    · rw [hlog, hlog', Nat.add_assoc, Nat.add_comm b n]
    · rw [Nat.shiftRight_eq_div_pow, Nat.div_lt_iff_lt_mul (Nat.two_pow_pos b), ← Nat.pow_add,
        ← Nat.two_mul]
      exact hlt
  · exact ⟨_, _, if_neg hb, hpos, hlog, Nat.lt_of_not_le hb⟩

theorem countlZeroTab_counts : CountsZeros countlZeroTab := by
  intro x hpos hlt
  obtain ⟨x₁, n₁, h₁, hpos₁, hlog₁, hlt₁⟩ := shift_step 32 (n := 0) hpos rfl hlt
  obtain ⟨x₂, n₂, h₂, hpos₂, hlog₂, hlt₂⟩ := shift_step 16 hpos₁ hlog₁ hlt₁
  obtain ⟨x₃, n₃, h₃, hpos₃, hlog₃, hlt₃⟩ := shift_step 8 hpos₂ hlog₂ hlt₂
  rw [Nat.zero_add] at h₁
  rw [countlZeroTab]
  simp only [h₁, h₂, h₃]
  rw [len8tab_eq hlt₃ hpos₃, Option.bind_eq_bind, Option.bind_some, hlog₃]
  congr 1
  omega

/-! ## The number of digits is right -/

/-- The logarithm is approximated well enough at every power of two. -/
theorem countDigitTbl_eq : ∀ k < 64,
    countDigitTbl[(19 * k) >>> 6]? = some (10 ^ ((19 * k) >>> 6 + 1) - 1) ∧
      10 ^ ((19 * k) >>> 6) ≤ 2 ^ k ∧ 2 ^ (k + 1) ≤ 10 ^ ((19 * k) >>> 6 + 2) := by
  decide +kernel

/-- An integer is as long as it is with its last bit set. -/
theorem log2_or_one (x : ℕ) : x < 2 ^ (Nat.log2 (x ||| 1) + 1) ∧
    (x = 0 ∧ Nat.log2 (x ||| 1) = 0 ∨ 2 ^ Nat.log2 (x ||| 1) ≤ x) := by
  have hpos : x ||| 1 ≠ 0 := (Nat.lt_of_lt_of_le Nat.one_pos Nat.right_le_or).ne'
  have hlo := Nat.log2_self_le hpos
  have hhi := Nat.lt_log2_self (n := x ||| 1)
  refine ⟨Nat.left_le_or.trans_lt hhi, ?_⟩
  have hhalf : (x ||| 1) / 2 = x / 2 := by rw [Nat.or_div_two, Nat.or_zero]
  generalize Nat.log2 (x ||| 1) = k at hlo hhi
  cases k with
  | zero =>
    rcases Nat.eq_zero_or_pos x with rfl | hx
    · exact .inl ⟨rfl, rfl⟩
    · exact .inr hx
  | succ k =>
    rw [Nat.pow_succ] at hlo ⊢
    exact .inr (by omega)

theorem countDigit_eq (hclz : CountsZeros clz) (hn : n < 2 ^ 64) :
    countDigit clz n = some (Numeral.numeral 10 n).length := by
  have hor : n ||| 1 < 2 ^ 64 := Nat.or_lt_two_pow hn (by decide)
  have hpos : 0 < n ||| 1 := Nat.lt_of_lt_of_le Nat.one_pos Nat.right_le_or
  obtain ⟨hhi, hlo⟩ := log2_or_one n
  have hk : Nat.log2 (n ||| 1) < 64 := (Nat.log2_lt hpos.ne').2 hor
  rw [countDigit, hclz _ hpos hor]
  generalize Nat.log2 (n ||| 1) = k at hhi hlo hk
  obtain ⟨htbl, hten, htwo⟩ := countDigitTbl_eq k hk
  have hsub : 63 - (63 - k) = k := by omega
  rw [Option.bind_eq_bind, Option.bind_some, hsub]
  generalize hy : (19 * k) >>> 6 = y at htbl hten htwo
  have hpow : 0 < 10 ^ (y + 1) := Nat.pow_pos (by decide)
  dsimp only
  rw [htbl, Option.bind_some]
  congr 1
  by_cases hmore : 10 ^ (y + 1) - 1 < n
  · rw [if_pos hmore, Numeral.length_numeral (by decide) (k := y + 1) (by omega)
      (hhi.trans_le htwo)]
  · rw [if_neg hmore]
    rcases hlo with ⟨rfl, rfl⟩ | hlo
    · subst hy
      rw [Numeral.numeral_of_lt (by decide)]
      rfl
    · rw [Numeral.length_numeral (by decide) (hten.trans hlo) (by omega)]

/-! ## What is written -/

/-- The bytes were stored at `p`, and nothing else was. -/
structure Stored (mem mem' : ℤ → UInt8) (p : ℤ) (bs : List UInt8) : Prop where
  bytes : ∀ (i : ℕ) b, bs[i]? = some b → mem' (p + i) = b
  frame : ∀ a, a < p ∨ p + bs.length ≤ a → mem' a = mem a

/-- The bytes were written from the pointer on, and it is behind them. -/
structure Buf.Wrote (buf : Buf) (bs : List UInt8) (buf' : Buf) : Prop where
  dest : buf'.dest = buf.dest + bs.length
  stored : Stored buf.mem buf'.mem buf.dest bs

variable {mem mem' mem'' : ℤ → UInt8} {p : ℤ} {bs cs : List UInt8} {buf buf' buf'' : Buf}
  {b : UInt8}

theorem Stored.nil (mem : ℤ → UInt8) (p : ℤ) : Stored mem mem p [] := by
  refine ⟨fun i b hb => ?_, fun _ _ => rfl⟩
  cases hb

theorem Stored.single (mem : ℤ → UInt8) (p : ℤ) (b : UInt8) :
    Stored mem (Function.update mem p b) p [b] := by
  refine ⟨fun i c hc => ?_, fun a ha => ?_⟩
  · cases i with
    | zero =>
      cases hc
      rw [Nat.cast_zero, add_zero, Function.update_self]
    | succ i => cases hc
  · refine Function.update_of_ne ?_ _ _
    rw [List.length_singleton] at ha
    omega

/-- Writes side by side, whichever comes first. -/
theorem Stored.append (h₁ : Stored mem mem' p bs) (h₂ : Stored mem' mem'' (p + bs.length) cs) :
    Stored mem mem'' p (bs ++ cs) := by
  refine ⟨fun i b hb => ?_, fun a ha => ?_⟩
  · rcases Nat.lt_or_ge i bs.length with hi | hi
    · rw [List.getElem?_append_left hi] at hb
      rw [h₂.frame _ (.inl (by omega)), h₁.bytes i b hb]
    · rw [List.getElem?_append_right hi] at hb
      rw [← h₂.bytes _ b hb]
      congr 1
      omega
  · rw [List.length_append] at ha
    rw [h₂.frame a (by omega), h₁.frame a (by omega)]

theorem Stored.prepend (h₁ : Stored mem mem' (p + bs.length) cs) (h₂ : Stored mem' mem'' p bs) :
    Stored mem mem'' p (bs ++ cs) := by
  refine ⟨fun i b hb => ?_, fun a ha => ?_⟩
  · rcases Nat.lt_or_ge i bs.length with hi | hi
    · rw [List.getElem?_append_left hi] at hb
      exact h₂.bytes i b hb
    · rw [List.getElem?_append_right hi] at hb
      rw [h₂.frame _ (.inr (by omega)), ← h₁.bytes _ b hb]
      congr 1
      omega
  · rw [List.length_append] at ha
    rw [h₂.frame a (by omega), h₁.frame a (by omega)]

/-- Two bytes, as a pair of digits is written. -/
theorem Stored.pair (mem : ℤ → UInt8) (p : ℤ) (hi lo : UInt8) :
    Stored mem (Function.update (Function.update mem p hi) (p + 1) lo) p [hi, lo] :=
  (Stored.single mem p hi).append (Stored.single _ (p + 1) lo)

theorem Buf.Wrote.append (h₁ : buf.Wrote bs buf') (h₂ : buf'.Wrote cs buf'') :
    buf.Wrote (bs ++ cs) buf'' := by
  refine ⟨?_, h₁.stored.append (h₁.dest ▸ h₂.stored)⟩
  rw [h₂.dest, h₁.dest, List.length_append, Nat.cast_add, add_assoc]

theorem Buf.wrote_put (buf : Buf) (b : UInt8) : buf.Wrote [b] (buf.put b) :=
  ⟨rfl, .single buf.mem buf.dest b⟩

/-- `dwnx_setmem` -/
theorem Buf.wrote_setmem (b : UInt8) : ∀ (n : ℕ) (buf : Buf),
    buf.Wrote (List.replicate n b) (buf.setmem b n)
  | 0, _ => ⟨(add_zero _).symm, .nil _ _⟩
  | n + 1, buf => (buf.wrote_put b).append (Buf.wrote_setmem b n _)

/-! ## Decimal digits -/

/-- An entry of a table of pairs. -/
theorem getElem?_pairs {α : Type*} (f g : ℕ → α) {i n : ℕ} (h : i < n) :
    ((List.range n).flatMap fun i => [f i, g i])[i * 2]? = some (f i) ∧
      ((List.range n).flatMap fun i => [f i, g i])[i * 2 + 1]? = some (g i) := by
  have hlen : ∀ n, ((List.range n).flatMap fun i => [f i, g i]).length = n * 2 := fun n => by
    rw [List.length_flatMap]
    change ((List.range n).map fun _ => 2).sum = n * 2
    rw [List.map_const', List.sum_replicate_nat, List.length_range]
  induction n with
  | zero => omega
  | succ n ih =>
    rw [List.range_succ, List.flatMap_append]
    rcases Nat.lt_succ_iff_lt_or_eq.1 h with h | rfl
    · obtain ⟨hf, hg⟩ := ih h
      rw [List.getElem?_append_left (by rw [hlen]; omega),
        List.getElem?_append_left (by rw [hlen]; omega)]
      exact ⟨hf, hg⟩
    · rw [List.getElem?_append_right (by rw [hlen]),
        List.getElem?_append_right (by rw [hlen]; omega), hlen, Nat.sub_self,
        Nat.add_sub_cancel_left]
      exact ⟨rfl, rfl⟩

theorem uintDigits_flatMap :
    uintDigits = (List.range 100).flatMap fun i => [xdigit (i / 10), xdigit (i % 10)] := by
  decide +kernel

theorem uintDigits_eq {i : ℕ} (h : i < 100) : uintDigits[i * 2]? = some (xdigit (i / 10)) ∧
    uintDigits[i * 2 + 1]? = some (xdigit (i % 10)) := by
  rw [uintDigits_flatMap]
  exact getElem?_pairs _ _ h

theorem xdigit_of_lt (h : n < 10) : (48 + n).toUInt8 = xdigit n := (if_pos h).symm

/-- The loop writes all digits but the first one or two, which are left. -/
theorem encodePairs_spec (n : ℕ) : ∀ (mem : ℤ → UInt8) (p : ℤ), ∃ mem' n' ds,
    encodePairs mem p n = some (mem', p - (ds.length : ℕ), n') ∧ n' < 100 ∧
      Numeral.numeral 10 n = Numeral.numeral 10 n' ++ ds ∧
      Stored mem mem' (p - (ds.length : ℕ)) (ds.map xdigit) := by
  induction n using Nat.strongRecOn with
  | ind n ih =>
    intro mem p
    rw [encodePairs]
    by_cases hn : 100 ≤ n
    · obtain ⟨hhi, hlo⟩ := uintDigits_eq (Nat.mod_lt n (by decide : 0 < 100))
      rw [if_pos hn, hhi, hlo]
      obtain ⟨mem', n', ds, hrun, hlt, hnum, hst⟩ := ih (n / 100) (by omega)
        (Function.update (Function.update mem (p - 2) (xdigit (n % 100 / 10))) (p - 2 + 1)
          (xdigit (n % 100 % 10))) (p - 2)
      have hp : p - 2 - ((ds.length : ℕ) : ℤ) =
          p - (((ds ++ [n / 10 % 10, n % 10]).length : ℕ) : ℤ) := by
        rw [List.length_append, Nat.cast_add]
        simp only [List.length_cons, List.length_nil]
        omega
      refine ⟨mem', n', ds ++ [n / 10 % 10, n % 10], ?_, hlt, ?_, ?_⟩
      · rw [← hp]
        exact hrun
      · rw [Numeral.numeral_div_div (by decide) hn, hnum, List.append_assoc]
      · have hten : n % 100 / 10 = n / 10 % 10 := by omega
        have hone : n % 100 % 10 = n % 10 := by omega
        have hpair := Stored.pair mem (p - 2) (xdigit (n % 100 / 10)) (xdigit (n % 100 % 10))
        rw [← hp, List.map_append]
        rw [hten, hone] at hpair hst
        refine Stored.prepend ?_ hst
        rw [List.length_map, sub_add_cancel]
        exact hpair
    · rw [if_neg hn]
      refine ⟨mem, n, [], ?_, Nat.lt_of_not_le hn, (List.append_nil _).symm, ?_⟩
      · rw [List.length_nil, Nat.cast_zero, sub_zero]
      · exact .nil _ _

theorem numeral_two (hn : 10 ≤ n) (hlt : n < 100) :
    Numeral.numeral 10 n = [n / 10, n % 10] := by
  rw [Numeral.numeral_div (by decide) hn, Numeral.numeral_of_lt (by omega)]
  rfl

/-- `dwnx_encode_uint` -/
theorem encodeUint_wrote (hclz : CountsZeros clz) (hn : n < 2 ^ 64) (buf : Buf) :
    ∃ buf', encodeUint clz buf n = some buf' ∧
      buf.Wrote ((Numeral.numeral 10 n).map xdigit) buf' := by
  rw [encodeUint]
  by_cases h10 : n < 10
  · rw [if_pos h10, Numeral.numeral_of_lt h10, xdigit_of_lt h10]
    exact ⟨_, rfl, buf.wrote_put _⟩
  rw [if_neg h10]
  by_cases h100 : n < 100
  · obtain ⟨hhi, hlo⟩ := uintDigits_eq h100
    rw [if_pos h100, hhi, hlo, numeral_two (Nat.le_of_not_lt h10) h100]
    exact ⟨_, rfl, (buf.wrote_put _).append (Buf.wrote_put _ _)⟩
  rw [if_neg h100, countDigit_eq hclz hn]
  obtain ⟨mem, n', ds, hrun, hlt, hnum, hst⟩ := encodePairs_spec n buf.mem
    (buf.dest + (Numeral.numeral 10 n).length)
  simp only [Option.bind_eq_bind, Option.bind_some]
  rw [hrun]
  simp only [Option.bind_some]
  -- the pointer is as far from the beginning as there are digits left
  have hp : buf.dest + ((Numeral.numeral 10 n).length : ℕ) - (ds.length : ℕ) =
      buf.dest + ((Numeral.numeral 10 n').length : ℕ) := by
    rw [hnum, List.length_append, Nat.cast_add]
    omega
  rw [hp] at hst ⊢
  by_cases hone : n' < 10
  · rw [Numeral.numeral_of_lt hone] at hst hnum ⊢
    rw [if_pos hone, xdigit_of_lt hone]
    refine ⟨_, rfl, by rw [List.length_map], ?_⟩
    rw [hnum, List.map_append]
    refine Stored.prepend hst ?_
    rw [List.length_singleton, Nat.cast_one, add_sub_cancel_right]
    exact .single mem buf.dest _
  · obtain ⟨hhi, hlo⟩ := uintDigits_eq hlt
    rw [numeral_two (Nat.le_of_not_lt hone) hlt] at hst hnum ⊢
    rw [if_neg hone, hhi, hlo]
    refine ⟨_, rfl, by rw [List.length_map], ?_⟩
    rw [hnum, List.map_append]
    refine Stored.prepend hst ?_
    have htwo : buf.dest + (([n' / 10, n' % 10].length : ℕ) : ℤ) - 2 = buf.dest :=
      add_sub_cancel_right _ _
    rw [htwo]
    exact .pair mem buf.dest _ _

/-! ## Hexadecimal digits -/

theorem lowerXdigits_eq : ∀ d < 16, lowerXdigits[d]? = some (xdigit d) := by
  decide +kernel

/-- The two digits of a byte. -/
theorem byte_digits {d : ℕ} (h : d < 256) : lowerXdigits[d >>> 4]? = some (xdigit (d / 16)) ∧
    lowerXdigits[d &&& 15]? = some (xdigit (d % 16)) := by
  rw [Nat.shiftRight_eq_div_pow, Nat.and_two_pow_sub_one_eq_mod d 4]
  exact ⟨lowerXdigits_eq _ (by omega), lowerXdigits_eq _ (Nat.mod_lt _ (by decide))⟩

theorem byteAt_eq (n k : ℕ) : byteAt n k = n / 256 ^ k % 256 := by
  rw [byteAt, Nat.shiftRight_eq_div_pow, Nat.mul_comm, Nat.pow_mul]

theorem byteAt_lt (n k : ℕ) : byteAt n k < 256 := Nat.mod_lt _ (by decide)

/-- The first byte that is not zero holds the first digit or the first two. -/
theorem byteAt_of_lt (h : n < 256 ^ (k + 1)) : byteAt n k = n / 256 ^ k := by
  rw [byteAt_eq]
  refine Nat.mod_eq_of_lt ((Nat.div_lt_iff_lt_mul (Nat.pow_pos (by decide))).2 ?_)
  rwa [Nat.mul_comm, ← Nat.pow_succ]

theorem byteAt_eq_zero (h : n < 256 ^ (k + 1)) : byteAt n k = 0 ↔ n < 256 ^ k := by
  rw [byteAt_of_lt h, Nat.div_eq_zero_iff_lt (Nat.pow_pos (by decide))]

theorem hexlenLoop_eq (hpos : 0 < n) : ∀ {k : ℕ}, n < 256 ^ k →
    hexlenLoop n k = some (Numeral.numeral 16 n).length
  | 0, hlt => by
    rw [Nat.pow_zero] at hlt
    omega
  | k + 1, hlt => by
    rw [hexlenLoop]
    by_cases hd : byteAt n k = 0
    · rw [if_pos hd]
      exact hexlenLoop_eq hpos ((byteAt_eq_zero hlt).1 hd)
    rw [if_neg hd, Nat.shiftRight_eq_div_pow, byteAt_of_lt hlt]
    have hpow : 0 < 256 ^ k := Nat.pow_pos (by decide)
    have hle : 256 ^ k ≤ n := Nat.le_of_not_lt (mt (byteAt_eq_zero hlt).2 hd)
    have h16 : ∀ j, 256 ^ j = 16 ^ (2 * j) := fun j => by rw [Nat.pow_mul]
    have hodd : 16 ^ (2 * k + 1) = 16 * 256 ^ k := by rw [Nat.pow_succ, h16, Nat.mul_comm]
    by_cases hhi : n / 256 ^ k / 2 ^ 4 = 0
    · rw [if_neg (not_ne_iff.2 hhi), Numeral.length_numeral (by decide) (h16 k ▸ hle)]
      · congr 1
        omega
      · rw [hodd]
        have hlt16 : n / 256 ^ k < 16 := (Nat.div_eq_zero_iff_lt (Nat.two_pow_pos 4)).1 hhi
        exact (Nat.div_lt_iff_lt_mul hpow).1 hlt16
    · rw [if_pos hhi, Numeral.length_numeral (k := 2 * k + 1) (by decide)]
      · congr 1
        omega
      · rw [hodd]
        have hge16 : 16 ≤ n / 256 ^ k := Nat.le_of_not_lt fun h => hhi (Nat.div_eq_of_lt h)
        exact (Nat.le_div_iff_mul_le hpow).1 hge16
      · exact h16 (k + 1) ▸ hlt

theorem encodeUintHexlen_eq (hn : n < 2 ^ 64) :
    encodeUintHexlen n = some (Numeral.numeral 16 n).length := by
  rw [encodeUintHexlen]
  rcases Nat.eq_zero_or_pos n with rfl | hpos
  · rfl
  · rw [if_neg hpos.ne']
    exact hexlenLoop_eq hpos hn

/-- The first loop writes the digits of the first byte that is not zero. -/
theorem encodeHexFirst_wrote (hpos : 0 < n) (buf : Buf) : ∀ {k : ℕ}, n < 256 ^ k →
    ∃ buf' j, encodeHexFirst n k buf = some (buf', j) ∧ 256 ^ j ≤ n ∧
      buf.Wrote ((Numeral.numeral 16 (n / 256 ^ j)).map xdigit) buf'
  | 0, hlt => by
    rw [Nat.pow_zero] at hlt
    omega
  | k + 1, hlt => by
    rw [encodeHexFirst]
    dsimp only
    by_cases hd : byteAt n k = 0
    · rw [if_neg (not_ne_iff.2 hd)]
      exact encodeHexFirst_wrote hpos buf ((byteAt_eq_zero hlt).1 hd)
    have hle : 256 ^ k ≤ n := Nat.le_of_not_lt (mt (byteAt_eq_zero hlt).2 hd)
    obtain ⟨hhi, hlo⟩ := byte_digits (byteAt_lt n k)
    have hd256 := byteAt_lt n k
    rw [if_pos hd, hhi, hlo]
    rw [byteAt_of_lt hlt] at hd256 ⊢
    rw [Nat.shiftRight_eq_div_pow]
    generalize hdn : n / 256 ^ k = d at hd256
    by_cases h16 : d / 2 ^ 4 = 0
    · have hd16 : d < 16 := by omega
      rw [if_neg (not_ne_iff.2 h16)]
      refine ⟨buf.put (xdigit (d % 16)), k, rfl, hle, ?_⟩
      rw [hdn, Numeral.numeral_of_lt hd16, Nat.mod_eq_of_lt hd16]
      exact buf.wrote_put _
    · rw [if_pos h16]
      refine ⟨(buf.put (xdigit (d / 16))).put (xdigit (d % 16)), k, rfl, hle, ?_⟩
      rw [hdn, Numeral.numeral_div (by decide) (by omega), Numeral.numeral_of_lt (by omega)]
      exact (buf.wrote_put _).append (Buf.wrote_put _ _)

/-- The second loop writes the digits behind. -/
theorem encodeHexRest_wrote (hpos : 0 < n) : ∀ {k : ℕ} (buf : Buf), 256 ^ k ≤ n →
    ∃ buf' ds, encodeHexRest n k buf = some buf' ∧
      Numeral.numeral 16 n = Numeral.numeral 16 (n / 256 ^ k) ++ ds ∧
      buf.Wrote (ds.map xdigit) buf'
  | 0, buf, _ => ⟨buf, [], rfl, by rw [Nat.pow_zero, Nat.div_one, List.append_nil],
      (add_zero _).symm, .nil _ _⟩
  | k + 1, buf, hle => by
    obtain ⟨hhi, hlo⟩ := byte_digits (byteAt_lt n k)
    have hpow : 0 < 256 ^ k := Nat.pow_pos (by decide)
    have hle' : 256 ^ k ≤ n := (Nat.pow_le_pow_right (by decide) (Nat.le_succ k)).trans hle
    have h256 : 16 * 16 ≤ n / 256 ^ k := by
      rw [Nat.le_div_iff_mul_le hpow]
      rw [Nat.pow_succ] at hle
      omega
    obtain ⟨buf', ds, hrun, hnum, hw⟩ := encodeHexRest_wrote hpos (k := k)
      ((buf.put (xdigit (byteAt n k / 16))).put (xdigit (byteAt n k % 16))) hle'
    have hsplit := Numeral.numeral_div_div (by decide) h256
    rw [Nat.div_div_eq_div_mul n, ← Nat.pow_succ] at hsplit
    rw [encodeHexRest]
    rw [hhi, hlo]
    refine ⟨buf', [n / 256 ^ k / 16 % 16, n / 256 ^ k % 16] ++ ds, hrun, ?_, ?_⟩
    · rw [hnum, hsplit, List.append_assoc]
    · have hten : byteAt n k / 16 = n / 256 ^ k / 16 % 16 := by
        rw [byteAt_eq]
        omega
      have hone : byteAt n k % 16 = n / 256 ^ k % 16 := by
        rw [byteAt_eq]
        omega
      rw [hten, hone] at hw
      rw [List.map_append]
      exact ((buf.wrote_put _).append (Buf.wrote_put _ _)).append hw

/-- `dwnx_encode_uint_hex` -/
theorem encodeUintHex_wrote (hn : n < 2 ^ 64) (buf : Buf) : ∃ buf',
    encodeUintHex buf n = some buf' ∧ buf.Wrote ((Numeral.numeral 16 n).map xdigit) buf' := by
  rw [encodeUintHex]
  rcases Nat.eq_zero_or_pos n with rfl | hpos
  · rw [if_pos rfl, Numeral.numeral_of_lt (by decide)]
    exact ⟨_, rfl, buf.wrote_put _⟩
  · obtain ⟨buf₁, j, hfirst, hle, hw₁⟩ := encodeHexFirst_wrote hpos buf (k := 8) hn
    obtain ⟨buf₂, ds, hrest, hnum, hw₂⟩ := encodeHexRest_wrote hpos buf₁ hle
    rw [if_neg hpos.ne', hfirst]
    refine ⟨buf₂, hrest, ?_⟩
    rw [hnum, List.map_append]
    exact hw₁.append hw₂

end Str

end Dwnx
