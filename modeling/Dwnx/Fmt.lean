import Dwnx.Str

/-!
# Integers padded with zeros

The functions of `dwnx_fmt` that write an integer with at least a given width.
`format_exact` puts together what is right about the text of an integer of 64 bits.
-/

namespace Dwnx

namespace Str

/-- `fill_zero` -/
def fillZero (buf : Buf) (len width : ℕ) : Buf :=
  if len < width then buf.setmem 48 (width - len) else buf

/-- `dwnx_fmt_write_uint64w` -/
def fmtWriteUint64w (clz : ℕ → Option ℕ) (buf : Buf) (n width : ℕ) : Option Buf := do
  let len ← encodeUintlen clz n
  encodeUint clz (fillZero buf len width) n

/-- `dwnx_fmt_write_hexw` -/
def fmtWriteHexw (buf : Buf) (n width : ℕ) : Option Buf := do
  let len ← encodeUintHexlen n
  encodeUintHex (fillZero buf len width) n

/-- The text of digits, with zeros before it up to a width. -/
def padded (width : ℕ) (ds : List ℕ) : List UInt8 :=
  List.replicate (width - ds.length) 48 ++ ds.map xdigit

/-- The integer is written with these decimal and hexadecimal digits. -/
structure IsFormatted (clz : ℕ → Option ℕ) (n : ℕ) (dec hex : List ℕ) : Prop where
  decimal : Numeral.IsNumeral 10 n dec
  hexadecimal : Numeral.IsNumeral 16 n hex
  countDigit : countDigit clz n = some dec.length
  encodeUint : ∀ buf, ∃ buf', encodeUint clz buf n = some buf' ∧ buf.Wrote (dec.map xdigit) buf'
  encodeUintHexlen : encodeUintHexlen n = some hex.length
  encodeUintHex : ∀ buf, ∃ buf', encodeUintHex buf n = some buf' ∧ buf.Wrote (hex.map xdigit) buf'
  fmtWriteUint64w : ∀ buf width, ∃ buf', fmtWriteUint64w clz buf n width = some buf' ∧
    buf.Wrote (padded width dec) buf' ∧ (padded width dec).length = max width dec.length
  fmtWriteHexw : ∀ buf width, ∃ buf', fmtWriteHexw buf n width = some buf' ∧
    buf.Wrote (padded width hex) buf' ∧ (padded width hex).length = max width hex.length

variable {clz : ℕ → Option ℕ} {n : ℕ}

theorem length_padded (width : ℕ) (ds : List ℕ) :
    (padded width ds).length = max width ds.length := by
  rw [padded, List.length_append, List.length_replicate, List.length_map]
  omega

theorem fillZero_wrote (buf : Buf) (len width : ℕ) :
    buf.Wrote (List.replicate (width - len) 48) (fillZero buf len width) := by
  rw [fillZero]
  by_cases h : len < width
  · rw [if_pos h]
    exact Buf.wrote_setmem 48 _ buf
  · rw [if_neg h, Nat.sub_eq_zero_of_le (Nat.le_of_not_lt h)]
    exact Buf.wrote_setmem 48 0 buf

/-- The text of an integer of 64 bits. -/
theorem format_exact (hclz : clz = countlZero ∨ clz = countlZeroTab) (hn : n < 2 ^ 64) :
    ∃ dec hex, IsFormatted clz n dec hex := by
  have hclz : CountsZeros clz := by
    rcases hclz with rfl | rfl
    · exact countlZero_counts
    · exact countlZeroTab_counts
  have hdec := countDigit_eq hclz hn
  have hhex := encodeUintHexlen_eq hn
  refine ⟨Numeral.numeral 10 n, Numeral.numeral 16 n, Numeral.isNumeral (by decide) n,
    Numeral.isNumeral (by decide) n, hdec, encodeUint_wrote hclz hn, hhex, encodeUintHex_wrote hn,
    fun buf width => ?_, fun buf width => ?_⟩
  · have hfill := fillZero_wrote buf (Numeral.numeral 10 n).length width
    obtain ⟨buf', hrun, hw⟩ := encodeUint_wrote hclz hn
      (fillZero buf (Numeral.numeral 10 n).length width)
    refine ⟨buf', ?_, hfill.append hw, length_padded _ _⟩
    rw [Str.fmtWriteUint64w, encodeUintlen, hdec]
    exact hrun
  · have hfill := fillZero_wrote buf (Numeral.numeral 16 n).length width
    obtain ⟨buf', hrun, hw⟩ := encodeUintHex_wrote hn
      (fillZero buf (Numeral.numeral 16 n).length width)
    refine ⟨buf', ?_, hfill.append hw, length_padded _ _⟩
    rw [Str.fmtWriteHexw, hhex]
    exact hrun

/-- The greatest integer, with the table. -/
theorem format_exact_max : ∃ dec hex, IsFormatted countlZeroTab (2 ^ 64 - 1) dec hex :=
  format_exact (.inr rfl) (by decide)

end Str

end Dwnx
