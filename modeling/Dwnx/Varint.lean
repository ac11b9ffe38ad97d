import Dwnx.Parse

/-!
# Varints in memory

The varint reader of the source copies the bytes of a varint into the memory of an
integer, and takes the integer out of it when the last byte has come. What the
integer is in between depends on the byte order of the host.

* `Endian.varintReaderRead_host`: on any host, the reader does what `varintReaderRead`
  says;
* `Endian.feed_virdOf`: fed with a varint in pieces, it reads the varint;
* `varint_exact`: so varints are read as they are written, however they are cut.
-/

namespace Dwnx

/-! ## Memory -/

/-- The byte order of the host. -/
inductive Endian
  | big
  | little
  deriving DecidableEq

namespace Endian

/-- The integer in memory `m`. -/
def toNat : Endian → List UInt8 → ℕ
  | big, m => beNat m
  | little, m => beNat m.reverse

/-- The memory of a 64-bit integer. -/
def bytes : Endian → ℕ → List UInt8
  | big, n => beBytes 8 n
  | little, n => (beBytes 8 n).reverse

/-- `dwnx_ntohl64` -/
def ntohl64 : Endian → ℕ → ℕ
  | big, n => n
  | little, n => beNat (beBytes 8 n).reverse

/-- `memcpy` to the place `off` in the memory of a 64-bit integer. -/
def memcpy (e : Endian) (n off : ℕ) (bs : List UInt8) : ℕ :=
  e.toNat ((e.bytes n).take off ++ bs ++ (e.bytes n).drop (off + bs.length))

/-- Keeps only the bits of `mask` in the byte at the place `off`. -/
def mask (e : Endian) (n off : ℕ) (mask : UInt8) : ℕ :=
  e.toNat ((e.bytes n).modify off (· &&& mask))

/-- `dwnx_varint_reader_read`, with the accumulator as the source has it. -/
def varintReaderRead (e : Endian) (vird : VarintReader) (data : List UInt8) (fin : Bool) :
    Except Err ℕ × VarintReader :=
  match data with
  | [] => (.error (.fault (.assertion .emptyRange)), vird)
  | b :: _ =>
    if vird.left = 0 then
      if vird.acc ≠ 0 ∨ vird.vlen ≠ 0 then (.error (.fault (.assertion .readerReset)), vird)
      else
        let vlen := getUvarintlen b
        let len := min vlen data.length
        if vlen ≤ len then (.ok vlen, ⟨(getUvarint data).elim 0 Prod.fst, 0, vlen⟩)
        else if fin then (.error .invalidArgument, { vird with vlen := vlen })
        else
          let off := 8 - vlen
          let acc := e.memcpy vird.acc off (data.take len)
          (.ok len, ⟨e.mask acc off 0x3F, vlen - len, vlen⟩)
    else
      let len := min vird.left data.length
      let acc := e.memcpy vird.acc (8 - vird.left) (data.take len)
      let left := vird.left - len
      if left = 0 then (.ok len, ⟨e.ntohl64 acc, 0, vird.vlen⟩)
      else if fin then (.error .invalidArgument, ⟨acc, left, vird.vlen⟩)
      else (.ok len, ⟨acc, left, vird.vlen⟩)

/-! ## Integers and their memory -/

variable {e : Endian} {m bs : List UInt8} {n : ℕ}

/-- Only the low bytes count. -/
theorem beBytes_add_mul (w n c : ℕ) : beBytes w (n + c * 256 ^ w) = beBytes w n := by
  induction w generalizing c with
  | zero => rfl
  | succ w ih =>
    have hc : c * 256 ^ (w + 1) = c * 256 * 256 ^ w := by ring
    have hbyte (a : ℕ) : UInt8.ofNat (a + c * 256) = UInt8.ofNat a := by
      apply UInt8.toNat_inj.1
      rw [UInt8.toNat_ofNat', UInt8.toNat_ofNat']
      omega
    rw [beBytes, beBytes, hc, ih, Nat.add_mul_div_right _ _ (by positivity), hbyte]

theorem beBytes_beNat (bs : List UInt8) : beBytes bs.length (beNat bs) = bs := by
  induction bs with
  | nil => rfl
  | cons b bs ih =>
    have hlt := beNat_lt bs
    rw [List.length_cons, beBytes, beNat_cons, Nat.add_comm, beBytes_add_mul, ih,
      Nat.add_mul_div_right _ _ (by positivity), Nat.div_eq_of_lt hlt, Nat.zero_add,
      UInt8.ofNat_toNat]

theorem beBytes_append {k l x y : ℕ} (hx : x < 256 ^ k) (hy : y < 256 ^ l) :
    beBytes (k + l) (x * 256 ^ l + y) = beBytes k x ++ beBytes l y := by
  have h := beBytes_beNat (beBytes k x ++ beBytes l y)
  rwa [List.length_append, length_beBytes, length_beBytes, beNat_append, length_beBytes,
    beNat_beBytes, beNat_beBytes, Nat.mod_eq_of_lt hx, Nat.mod_eq_of_lt hy] at h

theorem drop_beBytes (k w n : ℕ) : (beBytes w n).drop k = beBytes (w - k) n := by
  induction k generalizing w with
  | zero => rfl
  | succ k ih =>
    cases w with
    | zero => rw [Nat.zero_sub, beBytes, List.drop_nil]
    | succ w => rw [beBytes, List.drop_succ_cons, ih, Nat.succ_sub_succ]

@[simp] theorem bytes_toNat (e : Endian) (hm : m.length = 8) : e.bytes (e.toNat m) = m := by
  cases e with
  | big =>
    have h := beBytes_beNat m
    rwa [hm] at h
  | little =>
    have h := beBytes_beNat m.reverse
    rw [List.length_reverse, hm] at h
    rw [toNat, bytes, h, List.reverse_reverse]

@[simp] theorem ntohl64_toNat (e : Endian) (hm : m.length = 8) :
    e.ntohl64 (e.toNat m) = beNat m := by
  cases e with
  | big => rfl
  | little =>
    have h := beBytes_beNat m.reverse
    rw [List.length_reverse, hm] at h
    rw [toNat, ntohl64, h, List.reverse_reverse]

/-- The memory of an integer of which the low bytes are zero, with bytes copied to it. -/
def image (left x : ℕ) (bs : List UInt8) : List UInt8 :=
  beBytes (8 - left) x ++ (bs ++ beBytes (left - bs.length) 0)

section
variable {left x : ℕ} (hleft : left ≤ 8)
include hleft

@[simp] theorem length_image (hbs : bs.length ≤ left) : (image left x bs).length = 8 := by
  simp only [image, List.length_append, length_beBytes]
  omega

omit hleft in
theorem beNat_image (hx : x < 256 ^ (8 - left)) (hbs : bs.length ≤ left) :
    beNat (image left x bs) = x * 256 ^ left + beNat bs * 256 ^ (left - bs.length) := by
  rw [image, beNat_append, beNat_append, List.length_append, length_beBytes, beNat_beBytes,
    beNat_beBytes, Nat.mod_eq_of_lt hx, Nat.zero_mod, Nat.add_zero, Nat.add_sub_cancel' hbs]

theorem image_eq (hx : x < 256 ^ (8 - left)) (hbs : bs.length ≤ left) :
    image left x bs = beBytes 8 (x * 256 ^ left + beNat bs * 256 ^ (left - bs.length)) := by
  have h := beBytes_beNat (image left x bs)
  rw [length_image hleft hbs, beNat_image hx hbs] at h
  exact h.symm

variable (bs) in
/-- Bytes are copied to where zeros are. -/
theorem memcpy_image (e : Endian) (hx : x < 256 ^ (8 - left)) :
    e.memcpy (e.toNat (beBytes 8 (x * 256 ^ left))) (8 - left) bs =
      e.toNat (image left x bs) := by
  have himage : beBytes 8 (x * 256 ^ left) = beBytes (8 - left) x ++ beBytes left 0 := by
    have h := beBytes_append hx (Nat.pow_pos (n := left) (show 0 < 256 by decide))
    rwa [Nat.sub_add_cancel hleft, Nat.add_zero] at h
  rw [memcpy, bytes_toNat e (length_beBytes ..), himage, List.take_left' (length_beBytes ..),
    List.drop_append, List.drop_eq_nil_of_le (by rw [length_beBytes]; omega), List.nil_append,
    length_beBytes, Nat.add_sub_cancel_left, drop_beBytes, List.append_assoc]
  rfl

/-- The top bits of the first byte are taken out. -/
theorem mask_image (e : Endian) {b : UInt8} (hbs : (b :: bs).length ≤ left) :
    e.mask (e.toNat (image left x (b :: bs))) (8 - left) 0x3F =
      e.toNat (image left x ((b &&& 0x3F) :: bs)) := by
  have hmodify (l r : List UInt8) :
      (l ++ b :: r).modify l.length (· &&& 0x3F) = l ++ (b &&& 0x3F) :: r := by
    induction l with
    | nil => rfl
    | cons a l ih => exact congrArg (a :: ·) ih
  have h := hmodify (beBytes (8 - left) x) (bs ++ beBytes (left - (bs.length + 1)) 0)
  rw [length_beBytes] at h
  rw [mask, bytes_toNat e (length_image hleft hbs)]
  exact congrArg e.toNat h

end

theorem beNat_mask (b : UInt8) (bs : List UInt8) :
    beNat ((b &&& 0x3F) :: bs) = beNat (b :: bs) % 2 ^ (8 * (bs.length + 1) - 2) := by
  have hpow : 2 ^ (8 * (bs.length + 1) - 2) = 256 ^ bs.length * 2 ^ 6 := by
    rw [show 8 * (bs.length + 1) - 2 = 8 * bs.length + 6 by omega, pow_add, pow_mul]
    norm_num
  have hmask : (b &&& 0x3F).toNat = b.toNat % 2 ^ 6 := by
    rw [UInt8.toNat_and]
    exact Nat.and_two_pow_sub_one_eq_mod b.toNat 6
  have hlt := beNat_lt bs
  rw [beNat_cons, beNat_cons, hmask, hpow, Nat.mod_mul, Nat.mul_add_mod_self_right,
    Nat.mod_eq_of_lt hlt, Nat.add_comm (b.toNat * _), Nat.add_mul_div_right _ _ (by positivity),
    Nat.div_eq_of_lt hlt, Nat.zero_add]
  ring

/-! ## The reader on a host -/

/-- The reader as it is on a host: until the last byte comes, the accumulator is in
    network byte order. -/
def host (e : Endian) (vird : VarintReader) : VarintReader :=
  if vird.left = 0 then vird else { vird with acc := e.toNat (beBytes 8 vird.acc) }

theorem host_of_left (e : Endian) {vird : VarintReader} (h : vird.left ≠ 0) :
    e.host vird = { vird with acc := e.toNat (beBytes 8 vird.acc) } := if_neg h

/-- The first bytes of a varint that is longer. -/
theorem first_image (e : Endian) {d : UInt8} {data : List UInt8}
    (hlt : (d :: data).length < getUvarintlen d) :
    e.mask (e.memcpy 0 (8 - getUvarintlen d) (d :: data)) (8 - getUvarintlen d) 0x3F =
      e.toNat (beBytes 8 (virdOf (d :: data)).acc) := by
  have hzero : e.toNat (beBytes 8 (0 * 256 ^ getUvarintlen d)) = 0 := by
    rw [Nat.zero_mul]
    cases e <;> rfl
  have hx : 0 < 256 ^ (8 - getUvarintlen d) := by positivity
  have hcopy := memcpy_image (d :: data) (getUvarintlen_le d) e hx
  rw [hzero] at hcopy
  rw [hcopy, mask_image (getUvarintlen_le d) e hlt.le,
    image_eq (getUvarintlen_le d) hx (by exact hlt.le), beNat_mask, Nat.zero_mul, Nat.zero_add]
  rfl

/-- A reader that is to go on reading goes on. -/
theorem varintReaderRead_left (e : Endian) {left vlen x : ℕ} {d : UInt8} {data : List UInt8}
    (fin : Bool) (hleft : left ≠ 0) (hle : left ≤ 8) (hx : x < 256 ^ (8 - left)) :
    e.varintReaderRead (e.host ⟨x * 256 ^ left, left, vlen⟩) (d :: data) fin =
      (Dwnx.varintReaderRead ⟨x * 256 ^ left, left, vlen⟩ (d :: data) fin).map id e.host := by
  rw [host_of_left e (by exact hleft)]
  simp only [varintReaderRead, Dwnx.varintReaderRead, hleft, if_false]
  have hlen : ((d :: data).take (min left (d :: data).length)).length =
      min left (d :: data).length := by
    rw [List.length_take]
    omega
  generalize (d :: data).take (min left (d :: data).length) = bs at hlen
  have hbs : bs.length ≤ left := hlen.trans_le (Nat.min_le_left ..)
  have himage := beNat_image hx hbs
  rw [memcpy_image _ hle e hx, ← hlen]
  by_cases hdone : left - bs.length = 0
  · rw [if_pos hdone, if_neg fun h => h.1 hdone, ntohl64_toNat e (length_image hle hbs), himage,
      hdone]
    rfl
  · have hhost := @host_of_left e
      ⟨x * 256 ^ left + beNat bs * 256 ^ (left - bs.length), left - bs.length, vlen⟩ hdone
    rw [if_neg hdone, image_eq hle hx hbs]
    cases fin with
    | true =>
      rw [if_pos rfl, if_pos ⟨hdone, rfl⟩]
      exact congrArg (Prod.mk _) hhost.symm
    | false =>
      rw [if_neg Bool.false_ne_true, if_neg fun h => Bool.false_ne_true h.2]
      exact congrArg (Prod.mk _) hhost.symm

/-- On any host, the reader reads as it would read into an integer. -/
theorem varintReaderRead_host (e : Endian) {data : List UInt8} (fin : Bool)
    (hbs : getUvarint bs = none) :
    e.varintReaderRead (e.host (virdOf bs)) data fin =
      (Dwnx.varintReaderRead (virdOf bs) data fin).map id e.host := by
  cases data with
  | nil => rfl
  | cons d data =>
  cases bs with
  | nil =>
    change e.varintReaderRead .reset _ _ = _
    simp only [varintReaderRead, Dwnx.varintReaderRead, virdOf_nil, VarintReader.reset, ne_eq,
      not_true_eq_false, or_self, if_true, if_false]
    by_cases hle : getUvarintlen d ≤ (d :: data).length
    · rw [Nat.min_eq_left hle, if_pos le_rfl, if_pos le_rfl, getUvarint,
        if_neg (Nat.not_lt.2 hle)]
      rfl
    · have hlt := Nat.lt_of_not_le hle
      rw [Nat.min_eq_right hlt.le, if_neg hle, if_neg hle, List.take_length, first_image e hlt]
      cases fin with
      | true => rfl
      | false =>
        have hleft : getUvarintlen d - (d :: data).length ≠ 0 := Nat.sub_ne_zero_of_lt hlt
        exact congrArg (Prod.mk _) (host_of_left e (by exact hleft)).symm
  | cons b bs =>
    have hlt : (b :: bs).length < getUvarintlen b := getUvarint_eq_none.1 hbs b rfl
    have hle := getUvarintlen_le b
    refine varintReaderRead_left e fin (Nat.sub_ne_zero_of_lt hlt) (by omega) ?_
    have hmod := Nat.mod_le (beNat (b :: bs)) (2 ^ (8 * (b :: bs).length - 2))
    exact hmod.trans_lt ((beNat_lt (b :: bs)).trans_le
      (Nat.pow_le_pow_right (by decide) (by omega)))

/-! ## Feeding a reader -/

/-- The calls that feed a reader with pieces, each with its mark, as long as a varint
    is to come: the reader, and the number of bytes read. -/
def feed (e : Endian) (vird : VarintReader) :
    List (List UInt8 × Bool) → Except Err (VarintReader × ℕ)
  | [] => .ok (vird, 0)
  | (data, fin) :: pieces => do
    let (nread, vird) := e.varintReaderRead vird data fin
    let nread ← nread
    if vird.done then return (vird, nread)
    let (vird, n) ← e.feed vird pieces
    return (vird, nread + n)

/-- The bytes of the pieces. -/
def bytesOf (pieces : List (List UInt8 × Bool)) : List UInt8 := pieces.flatMap Prod.fst

/-- A piece with the mark ends before `n` bytes have come. -/
def CutShort (n : ℕ) (pieces : List (List UInt8 × Bool)) : Prop :=
  ∃ l data r, pieces = l ++ (data, true) :: r ∧ (bytesOf l ++ data).length < n

theorem cutShort_cons_iff {data : List UInt8} {fin : Bool} {pieces : List (List UInt8 × Bool)} :
    CutShort n ((data, fin) :: pieces) ↔
      fin = true ∧ data.length < n ∨ CutShort (n - data.length) pieces := by
  constructor
  · rintro ⟨l, bs, r, h, hlt⟩
    cases l with
    | nil =>
      cases h
      exact .inl ⟨rfl, hlt⟩
    | cons p l =>
      obtain ⟨rfl, rfl⟩ := List.cons.inj h
      refine .inr ⟨l, bs, r, rfl, ?_⟩
      simp only [bytesOf, List.flatMap_cons, List.length_append] at hlt ⊢
      omega
  · rintro (⟨rfl, hlt⟩ | ⟨l, bs, r, rfl, hlt⟩)
    · exact ⟨[], data, pieces, rfl, hlt⟩
    · refine ⟨(data, fin) :: l, bs, r, rfl, ?_⟩
      simp only [bytesOf, List.flatMap_cons, List.length_append] at hlt ⊢
      omega

theorem length_of_getUvarint {b : UInt8} {v : ℕ} {r : List UInt8} (hb : bs.head? = some b)
    (h : getUvarint bs = some (v, r)) :
    getUvarintlen b ≤ bs.length ∧ r.length = bs.length - getUvarintlen b := by
  obtain ⟨l, rfl, -, hl⟩ := exists_of_getUvarint h
  rw [List.length_append, hl b hb]
  omega

/-- What a reader fed with pieces comes to, that has read `bs`. -/
theorem feed_virdOf (e : Endian) {pieces : List (List UInt8 × Bool)} {b : UInt8}
    (hpieces : ∀ p ∈ pieces, p.1 ≠ []) (hbs : getUvarint bs = none)
    (hb : (bs ++ bytesOf pieces).head? = some b) :
    (CutShort (getUvarintlen b - bs.length) pieces →
      e.feed (e.host (virdOf bs)) pieces = .error .invalidArgument) ∧
    (¬CutShort (getUvarintlen b - bs.length) pieces →
      ∃ vird, e.feed (e.host (virdOf bs)) pieces =
          .ok (vird, min (getUvarintlen b - bs.length) (bytesOf pieces).length) ∧
        (vird.done = true ↔ getUvarintlen b ≤ (bs ++ bytesOf pieces).length) ∧
        ∀ v r, getUvarint (bs ++ bytesOf pieces) = some (v, r) → vird.acc = v) := by
  induction pieces generalizing bs with
  | nil =>
    have hnil : bs ++ bytesOf [] = bs := List.append_nil bs
    rw [hnil] at hb ⊢
    have hne : bs ≠ [] := by
      rintro rfl
      cases hb
    refine ⟨fun ⟨l, data, r, h, _⟩ => ?_, fun _ => ⟨e.host (virdOf bs), ?_, iff_of_false ?_ ?_,
      fun v r h => ?_⟩⟩
    · exact absurd h.symm (List.append_ne_nil_of_right_ne_nil l (List.cons_ne_nil _ _))
    · rw [show (bytesOf []).length = 0 from rfl, Nat.min_zero]
      rfl
    · have hleft := virdOf_done hbs hne
      rw [host_of_left e (beq_eq_false_iff_ne.1 hleft)]
      exact ne_true_of_eq_false hleft
    · exact Nat.not_le.2 (getUvarint_eq_none.1 hbs b hb)
    · cases hbs.symm.trans h
  | cons p pieces ih =>
    obtain ⟨data, fin⟩ := p
    have hdata : data ≠ [] := hpieces _ (List.mem_cons_self ..)
    have happend : bs ++ bytesOf ((data, fin) :: pieces) = (bs ++ data) ++ bytesOf pieces := by
      rw [bytesOf, List.flatMap_cons, List.append_assoc]
      rfl
    rw [happend] at hb ⊢
    have hhead : (bs ++ data).head? = some b := by
      obtain ⟨a, l, hl⟩ := List.exists_cons_of_ne_nil (List.append_ne_nil_of_right_ne_nil bs hdata)
      rw [hl] at hb ⊢
      exact hb
    have hpieces' : ∀ p ∈ pieces, p.1 ≠ [] := fun p hp => hpieces p (List.mem_cons_of_mem _ hp)
    have hread := @varintReaderRead_host _ e data fin hbs
    rw [varintReaderRead_virdOf fin hbs hdata] at hread
    rw [feed, cutShort_cons_iff, hread]
    have hlen : (bytesOf ((data, fin) :: pieces)).length =
        data.length + (bytesOf pieces).length := by
      rw [bytesOf, List.flatMap_cons, List.length_append]
      rfl
    cases hget : getUvarint (bs ++ data) with
    | none =>
      have hlt := getUvarint_eq_none.1 hget b hhead
      rw [List.length_append] at hlt
      cases fin with
      | true => exact ⟨fun _ => rfl, fun h => absurd (.inl ⟨rfl, by omega⟩) h⟩
      | false =>
        obtain ⟨hcut, hfeed⟩ := ih hpieces' hget hb
        have hleft := virdOf_done hget (List.append_ne_nil_of_right_ne_nil bs hdata)
        have hdone : (e.host (virdOf (bs ++ data))).done = false := by
          rw [host_of_left e (beq_eq_false_iff_ne.1 hleft)]
          exact hleft
        have hsub : getUvarintlen b - (bs ++ data).length =
            getUvarintlen b - bs.length - data.length := by
          rw [List.length_append, Nat.sub_sub]
        rw [hsub] at hcut hfeed
        simp only [Prod.map, id, bind, Except.bind, hdone, Bool.false_eq_true, if_false,
          false_and, false_or]
        refine ⟨fun h => ?_, fun h => ?_⟩
        · rw [hcut h]
        · obtain ⟨vird, hfed, hvird⟩ := hfeed h
          refine ⟨vird, ?_, hvird⟩
          rw [hfed, hlen]
          change Except.ok (vird, _) = _
          congr 2
          omega
    | some a =>
      -- the varint ends in this piece
      obtain ⟨v, r⟩ := a
      obtain ⟨hle, hr⟩ := length_of_getUvarint hhead hget
      have hlt : bs.length < getUvarintlen b := by
        cases bs with
        | nil => exact getUvarintlen_pos b
        | cons a bs =>
          cases hhead
          exact getUvarint_eq_none.1 hbs b rfl
      rw [List.length_append] at hle hr
      refine ⟨fun h => ?_, fun _ =>
        ⟨⟨v, 0, (bs ++ data).length - r.length⟩, ?_, ?_, fun v' r' h => ?_⟩⟩
      · rcases h with ⟨-, h⟩ | ⟨l, data', r', -, h⟩ <;> omega
      · rw [hlen]
        change Except.ok ((⟨v, 0, _⟩ : VarintReader), _) = _
        congr 2
        omega
      · refine iff_of_true rfl ?_
        rw [List.length_append, List.length_append]
        omega
      · exact (Prod.mk.inj (Option.some.inj ((getUvarint_append hget).symm.trans h))).1

end Endian

/-! ## Widths -/

/-- `dwnx_put_uvarintw` -/
def putUvarintw (n width : ℕ) : Except Err (List UInt8) :=
  match width with
  | 1 => if n < 64 then .ok [UInt8.ofNat n] else .error (.fault (.assertion .uvarintw))
  | 2 => putUvarintw2 n
  | 4 => if n < 1073741824 then .ok (putTagged 4 n 0x80) else .error (.fault (.assertion .uvarintw))
  | 8 =>
    if n < 4611686018427387904 then .ok (putTagged 8 n 0xC0)
    else .error (.fault (.assertion .uvarintw))
  | _ => .error (.fault .unreachable)

theorem putUvarintw_eq {k n : ℕ} (hk : k < 4) (hn : n < 2 ^ (8 * 2 ^ k - 2)) :
    putUvarintw n (2 ^ k) = .ok (putTagged (2 ^ k) n (UInt8.ofNat (64 * k))) := by
  interval_cases k
  · refine (if_pos hn).trans ?_
    simp [putTagged, beBytes]
  all_goals exact if_pos hn

/-- A varint, however it is cut, is read as a whole, unless a piece marked as the last
    ends before it; and what is written in any width is read back. -/
theorem varint_exact :
    (∀ (e : Endian) (pieces : List (List UInt8 × Bool)) (b : UInt8), (∀ p ∈ pieces, p.1 ≠ []) →
      (Endian.bytesOf pieces).head? = some b →
      (Endian.CutShort (getUvarintlen b) pieces →
        e.feed .reset pieces = .error .invalidArgument) ∧
      (¬Endian.CutShort (getUvarintlen b) pieces → ∃ vird,
        e.feed .reset pieces =
          .ok (vird, min (getUvarintlen b) (Endian.bytesOf pieces).length) ∧
        (vird.done = true ↔ getUvarintlen b ≤ (Endian.bytesOf pieces).length) ∧
        ∀ v r, getUvarint (Endian.bytesOf pieces) = some (v, r) → vird.acc = v)) ∧
    (∀ n r, n ≤ maxVarint → putUvarintlen n = .ok (putUvarint n).length ∧
      getUvarint (putUvarint n ++ r) = some (n, r)) ∧
    ∀ n width r, width ∈ [1, 2, 4, 8] → n < 2 ^ (8 * width - 2) → ∃ bs,
      putUvarintw n width = .ok bs ∧ bs.length = width ∧ getUvarint (bs ++ r) = some (n, r) := by
  refine ⟨fun e pieces b hpieces hb => ?_, fun n r hn => ⟨?_, ?_⟩, fun n width r hwidth hn => ?_⟩
  · exact @Endian.feed_virdOf [] e pieces b hpieces rfl hb
  · rw [length_putUvarint, putUvarintlen_eq hn]
  · exact getUvarint_putUvarint hn r
  · obtain ⟨k, hk, rfl⟩ : ∃ k, k < 4 ∧ width = 2 ^ k := by
      simp only [List.mem_cons, List.not_mem_nil, or_false] at hwidth
      rcases hwidth with rfl | rfl | rfl | rfl
      exacts [⟨0, by decide, rfl⟩, ⟨1, by decide, rfl⟩, ⟨2, by decide, rfl⟩, ⟨3, by decide, rfl⟩]
    exact ⟨_, putUvarintw_eq hk hn, length_putTagged .., getUvarint_putTagged hk hn r⟩

/-- A varint of two bytes, in two pieces and with a byte behind it; and 37 in two bytes. -/
theorem varint_exact_split :
    (∃ vird, Endian.little.feed .reset [([0x7B], false), ([0xBD, 0x00], true)] = .ok (vird, 2) ∧
      vird.acc = 15293) ∧
    Endian.little.feed .reset [([0x7B], true)] = .error .invalidArgument ∧
    ∃ bs, putUvarintw 37 2 = .ok bs ∧ getUvarint bs = some (37, []) := by
  obtain ⟨hfeed, -, hput⟩ := varint_exact
  refine ⟨?_, ?_, ?_⟩
  · obtain ⟨-, hall⟩ := hfeed .little [([0x7B], false), ([0xBD, 0x00], true)] 0x7B (by simp) rfl
    obtain ⟨vird, hread, -, hacc⟩ := hall fun hcut => by
      rw [Endian.cutShort_cons_iff, Endian.cutShort_cons_iff] at hcut
      rcases hcut with ⟨hfin, -⟩ | ⟨-, hlt⟩ | ⟨l, _, _, hnil, -⟩
      · cases hfin
      · exact absurd hlt (by decide)
      · exact absurd hnil.symm (List.append_ne_nil_of_right_ne_nil l (List.cons_ne_nil _ _))
    exact ⟨vird, hread, hacc 15293 [0x00] (by decide)⟩
  · exact (hfeed .little [([0x7B], true)] 0x7B (by simp) rfl).1 ⟨[], [0x7B], [], rfl, by decide⟩
  · obtain ⟨bs, hbs, -, hget⟩ := hput 37 2 [] (by decide) (by decide)
    exact ⟨bs, hbs, List.append_nil bs ▸ hget⟩

end Dwnx
