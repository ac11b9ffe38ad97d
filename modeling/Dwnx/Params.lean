import Dwnx.TransportParams

/-!
# The grammar of the transport parameters

Transport parameters are a sequence of triples: an identifier, a length, and a value of
that length.

* `transportParamsDecode_ok_iff`: the decoder accepts those sequences whose triples
  are valid, and takes the last value of each identifier;
* `transportParams_grammar`: so a triple that is not known makes no difference.
-/

namespace Dwnx

/-- The identifiers of the parameters that are stored. -/
def TransportParamId.known : List ℕ :=
  [initialMaxStreamDataBidiLocal, initialMaxStreamDataBidiRemote, initialMaxStreamDataUni,
    initialMaxData, initialMaxStreamsBidi, initialMaxStreamsUni, maxIdleTimeout, maxRecordSize,
    maxDatagramFrameSize]

/-- A transport parameter, with its integers in any width. -/
structure Triple where
  bytes : List UInt8
  id : ℕ
  value : List UInt8
  spelled : ∃ p, getUvarint bytes = some (id, p) ∧ getUvarint p = some (value.length, value)

namespace Triple

/-- The integer that fills the value. -/
def varint (t : Triple) : Option ℕ :=
  match getUvarint t.value with
  | some (v, []) => some v
  | _ => none

/-- A parameter that is not an error. -/
structure Valid (t : Triple) : Prop where
  allowed : t.id ∉ TransportParamId.forbidden
  varint : t.id ∈ TransportParamId.known → ∃ v, getUvarint t.value = some (v, []) ∧
    (t.id = TransportParamId.initialMaxStreamsBidi ∨ t.id = TransportParamId.initialMaxStreamsUni →
      v ≤ maxStreams)

/-- The bytes of parameters. -/
def flatten (ts : List Triple) : List UInt8 := (ts.map bytes).flatten

/-- The value of the last parameter with an identifier. -/
def last (id : ℕ) (ts : List Triple) : Option ℕ := (ts.reverse.find? (·.id = id)).bind varint

end Triple

/-- The last value of each parameter, and the default of those that are absent. -/
def TransportParams.ofTriples (ts : List Triple) : TransportParams where
  initialMaxStreamsBidi := (Triple.last TransportParamId.initialMaxStreamsBidi ts).getD 0
  initialMaxStreamsUni := (Triple.last TransportParamId.initialMaxStreamsUni ts).getD 0
  initialMaxStreamDataBidiLocal :=
    (Triple.last TransportParamId.initialMaxStreamDataBidiLocal ts).getD 0
  initialMaxStreamDataBidiRemote :=
    (Triple.last TransportParamId.initialMaxStreamDataBidiRemote ts).getD 0
  initialMaxStreamDataUni := (Triple.last TransportParamId.initialMaxStreamDataUni ts).getD 0
  initialMaxData := (Triple.last TransportParamId.initialMaxData ts).getD 0
  -- in milliseconds on the wire, and cut at what fits into 64 bits
  maxIdleTimeout :=
    min ((Triple.last TransportParamId.maxIdleTimeout ts).getD 0) (uint64Max / milliseconds) *
      milliseconds
  maxRecordSize := (Triple.last TransportParamId.maxRecordSize ts).getD defaultMaxRecordSize
  maxDatagramFrameSize := (Triple.last TransportParamId.maxDatagramFrameSize ts).getD 0

/-! ## A single parameter -/

namespace Triple

/-- What the decoder makes of a parameter. -/
def store (dest : TransportParams) (t : Triple) : Option TransportParams :=
  if t.id ∈ TransportParamId.known then t.varint.bind fun v => (dest.store t.id v).join
  else if t.id ∈ TransportParamId.forbidden then none
  else some dest

theorem isSome_store_iff {dest : TransportParams} {id v : ℕ} :
    (dest.store id v).isSome = true ↔ id ∈ TransportParamId.known := by
  unfold TransportParams.store TransportParamId.known
  split_ifs <;> simp_all

/-- A value that fills its length. -/
theorem getVarintParam_append {p value r : List UInt8}
    (h : getUvarint p = some (value.length, value)) :
    getVarintParam (p ++ r) =
      match getUvarint value with
      | some (v, []) => some (v, r)
      | _ => none := by
  rw [getVarintParam, getUvarint_append h]
  dsimp only
  cases value with
  | nil =>
    cases r with
    | nil => rfl
    | cons b r => exact if_pos (.inr (getUvarintlen_pos b).ne')
  | cons b value =>
    have hlen : ¬(b :: value ++ r).length < (b :: value).length := by
      rw [List.length_append]
      omega
    change (if _ then none else getUvarint (b :: value ++ r)) = _
    cases hget : getUvarint (b :: value) with
    | none => exact if_pos (.inr fun hb => by simp [getUvarint, hb] at hget)
    | some vq =>
      obtain ⟨v, q⟩ := vq
      obtain ⟨bs, hbs, -, hb⟩ := exists_of_getUvarint hget
      have hb := hb b rfl
      have hq := congrArg List.length hbs
      rw [List.length_append, hb] at hq
      cases q with
      | nil =>
        have hq' : ¬getUvarintlen b ≠ (b :: value).length := not_not.2 hq.symm
        rw [getUvarint_append hget, if_neg (not_or.2 ⟨hlen, hq'⟩)]
        rfl
      | cons c q =>
        refine if_pos (.inr fun hb => ?_)
        rw [hb, List.length_cons (a := c)] at hq
        omega

theorem decodeParam_bytes (dest : TransportParams) (t : Triple) (r : List UInt8) :
    decodeParam dest (t.bytes ++ r) =
      match t.store dest with
      | none => .error .malformedTransportParam
      | some dest => .ok (dest, r) := by
  obtain ⟨p, hid, hvalue⟩ := t.spelled
  rw [decodeParam_reads, getUvarint_append hid, store]
  dsimp only
  by_cases hknown : t.id ∈ TransportParamId.known
  · rw [if_pos (isSome_store_iff.2 hknown), if_pos hknown, getVarintParam_append hvalue, varint]
    generalize getUvarint t.value = x
    rcases x with _ | ⟨v, _ | ⟨c, q⟩⟩
    · rfl
    · dsimp only
      rw [Option.bind_some]
      rcases dest.store t.id v with _ | _ | d
      all_goals rfl
    · rfl
  · rw [if_neg (isSome_store_iff.not.2 hknown), if_neg hknown]
    by_cases hforbidden : t.id ∈ TransportParamId.forbidden
    · rw [if_pos hforbidden, if_pos hforbidden]
    · rw [if_neg hforbidden, if_neg hforbidden, getUvarint_append hvalue]
      dsimp only
      rw [if_neg (by rw [List.length_append]; omega), List.drop_left]

/-- What is decoded is a parameter. -/
theorem exists_of_decodeParam {dest dest' : TransportParams} {p r : List UInt8}
    (h : decodeParam dest p = .ok (dest', r)) : ∃ t : Triple, p = t.bytes ++ r := by
  -- an identifier, a length and a value, that have bytes of their own
  have htriple {id : ℕ} {q q' v : List UInt8} (hid : getUvarint p = some (id, q))
      (hlen : getUvarint q = some (v.length, q')) (hq' : q' = v ++ r) :
      ∃ t : Triple, p = t.bytes ++ r := by
    obtain ⟨ibs, rfl, hibs, -⟩ := exists_of_getUvarint hid
    obtain ⟨lbs, rfl, hlbs, -⟩ := exists_of_getUvarint hlen
    subst hq'
    refine ⟨⟨ibs ++ (lbs ++ v), id, v, lbs ++ v, ?_, ?_⟩, ?_⟩
    · exact getUvarint_append hibs
    · exact getUvarint_append hlbs
    · simp only [List.append_assoc]
  rw [decodeParam_reads] at h
  split at h
  · cases h
  next id q hid =>
  split at h
  · split at h
    · cases h
    next v r' hv =>
    split at h
    · next hst =>
      obtain ⟨-, rfl⟩ := Prod.mk.inj (Except.ok.inj h)
      simp only [getVarintParam, Option.bind_eq_bind, Option.bind_eq_some_iff, Prod.exists] at hv
      obtain ⟨valuelen, q', hlen, hv⟩ := hv
      split at hv
      · cases hv
      next b bs =>
      split at hv
      · cases hv
      next hfill =>
      obtain ⟨value, hvalue, -, hb⟩ := exists_of_getUvarint hv
      have hb := hb b rfl
      obtain rfl : value.length = valuelen := by omega
      exact htriple hid hlen hvalue
    · cases h
  · split at h
    · cases h
    split at h
    · cases h
    next valuelen q' hlen =>
    split at h
    · cases h
    next hle =>
    obtain ⟨-, rfl⟩ := Prod.mk.inj (Except.ok.inj h)
    have htake : (q'.take valuelen).length = valuelen :=
      List.length_take_of_le (Nat.le_of_not_lt hle)
    refine htriple (v := q'.take valuelen) hid ?_ (List.take_append_drop valuelen q').symm
    rw [htake, hlen]

/-! ## All parameters -/

theorem two_le_length (t : Triple) : 2 ≤ t.bytes.length := by
  obtain ⟨p, hid, hlen⟩ := t.spelled
  obtain ⟨n, hn, hle, rfl⟩ := getUvarint_suffix hid
  obtain ⟨m, hm, hle', -⟩ := getUvarint_suffix hlen
  rw [List.length_drop] at hle'
  omega

@[simp] theorem flatten_cons (t : Triple) (ts : List Triple) :
    flatten (t :: ts) = t.bytes ++ flatten ts := rfl

/-- The decoder stores the parameters one by one. -/
theorem decodeParams_flatten {ts : List Triple} {n : ℕ} (dest : TransportParams)
    (hn : (flatten ts).length ≤ n) :
    decodeParams n dest (flatten ts) =
      match ts.foldlM store dest with
      | none => .error .malformedTransportParam
      | some dest => .ok dest := by
  induction ts generalizing n dest with
  | nil => cases n <;> rfl
  | cons t ts ih =>
    have hlen := t.two_le_length
    rw [flatten_cons, List.length_append] at hn
    obtain ⟨n, rfl⟩ : ∃ m, n = m + 1 := ⟨n - 1, by omega⟩
    rw [flatten_cons, decodeParams, if_pos (by rw [List.length_append]; omega), decodeParam_bytes,
      List.foldlM_cons]
    cases t.store dest with
    | none => rfl
    | some dest => exact ih dest (by omega)

/-- What the decoder accepts are parameters. -/
theorem exists_of_decodeParams {n : ℕ} {dest dest' : TransportParams} {p : List UInt8}
    (h : decodeParams n dest p = .ok dest') : ∃ ts : List Triple, p = flatten ts := by
  induction n generalizing dest p with
  | zero =>
    rcases decodeParams_cases h with ⟨rfl, -⟩ | ⟨_, _, _, hn, -⟩
    · exact ⟨[], rfl⟩
    · cases hn
  | succ n ih =>
    rcases decodeParams_cases h with ⟨rfl, -⟩ | ⟨_, d, r, hn, hd, hrest⟩
    · exact ⟨[], rfl⟩
    · cases hn
      obtain ⟨t, rfl⟩ := exists_of_decodeParam hd
      obtain ⟨ts, rfl⟩ := ih hrest
      exact ⟨t :: ts, rfl⟩

theorem last_append (id : ℕ) (ts : List Triple) (t : Triple) :
    last id (ts ++ [t]) = if t.id = id then t.varint else last id ts := by
  rw [last, List.reverse_append, List.reverse_singleton, List.singleton_append, List.find?_cons]
  by_cases h : t.id = id
  · rw [if_pos h, decide_eq_true h, Option.bind_some]
  · rw [if_neg h, decide_eq_false h, last]

theorem varint_eq_some_iff {t : Triple} {v : ℕ} :
    t.varint = some v ↔ getUvarint t.value = some (v, []) := by
  unfold varint
  rcases getUvarint t.value with _ | ⟨w, _ | ⟨c, q⟩⟩ <;> simp

theorem valid_iff {t : Triple} {v : ℕ} (hknown : t.id ∈ TransportParamId.known)
    (hv : t.varint = some v) :
    t.Valid ↔ (t.id = TransportParamId.initialMaxStreamsBidi ∨
      t.id = TransportParamId.initialMaxStreamsUni → v ≤ maxStreams) := by
  have hallowed : ∀ id ∈ TransportParamId.known, id ∉ TransportParamId.forbidden := by decide
  constructor
  · intro h hid
    obtain ⟨w, hw, hle⟩ := h.varint hknown
    obtain rfl : v = w := Option.some.inj (hv.symm.trans (varint_eq_some_iff.2 hw))
    exact hle hid
  · intro h
    exact ⟨hallowed _ hknown, fun _ => ⟨v, varint_eq_some_iff.1 hv, h⟩⟩

/-- One more parameter is stored, if it is valid. -/
theorem store_ofTriples (ts : List Triple) (t : Triple) (d : TransportParams) :
    t.store (.ofTriples ts) = some d ↔ t.Valid ∧ d = .ofTriples (ts ++ [t]) := by
  have happend (id : ℕ) := last_append id ts t
  have hplain {v : ℕ} (x : TransportParams) :
      (some (some x)).join = some d ↔ (False ∨ False → v ≤ maxStreams) ∧ d = x := by
    rw [Option.join_some, Option.some.injEq, eq_comm]
    exact (and_iff_right fun h => h.elim False.elim False.elim).symm
  have hbounded {v : ℕ} {p : Prop} (hp : (p → v ≤ maxStreams) → v ≤ maxStreams)
      (x : TransportParams) : (some (if v > maxStreams then none else some x)).join = some d ↔
        (p → v ≤ maxStreams) ∧ d = x := by
    rw [Option.join_some]
    split
    · next hlt => exact iff_of_false nofun fun h => Nat.not_le_of_lt hlt (hp h.1)
    · next hle =>
      rw [Option.some.injEq, eq_comm]
      exact (and_iff_right fun _ => Nat.le_of_not_lt hle).symm
  have hidle (v : ℕ) : (if v > uint64Max / milliseconds then uint64Max / milliseconds * milliseconds
      else mul64 v milliseconds) = min v (uint64Max / milliseconds) * milliseconds := by
    have hmul := Nat.div_mul_le_self uint64Max milliseconds
    split
    · next hlt => rw [Nat.min_eq_right hlt.le]
    · next hle =>
      rw [Nat.min_eq_left (Nat.le_of_not_lt hle), mul64_eq]
      exact (Nat.mul_le_mul_right _ (Nat.le_of_not_lt hle)).trans_lt (hmul.trans_lt (by decide))
  by_cases hknown : t.id ∈ TransportParamId.known
  · rw [store, if_pos hknown]
    cases hv : t.varint with
    | none =>
      refine iff_of_false nofun fun h => ?_
      obtain ⟨w, hw, -⟩ := h.1.varint hknown
      cases hv.symm.trans (varint_eq_some_iff.2 hw)
    | some v =>
      rw [Option.bind_some, valid_iff hknown hv]
      rw [hv] at happend
      generalize t.id = id at hknown happend
      simp only [TransportParamId.known, List.mem_cons, List.not_mem_nil, or_false] at hknown
      rcases hknown with rfl | rfl | rfl | rfl | rfl | rfl | rfl | rfl | rfl
      all_goals
        simp only [TransportParams.ofTriples, happend, TransportParams.store,
          TransportParamId.initialMaxStreamDataBidiLocal,
          TransportParamId.initialMaxStreamDataBidiRemote,
          TransportParamId.initialMaxStreamDataUni, TransportParamId.initialMaxData,
          TransportParamId.initialMaxStreamsBidi, TransportParamId.initialMaxStreamsUni,
          TransportParamId.maxIdleTimeout, TransportParamId.maxRecordSize,
          TransportParamId.maxDatagramFrameSize, Nat.reduceEqDiff, if_true, if_false]
      -- a limit of streams is checked, the timeout is converted, all others are stored as they are
      case inr.inr.inr.inr.inl => exact hbounded (fun h => h (.inl trivial)) _
      case inr.inr.inr.inr.inr.inl => exact hbounded (fun h => h (.inr trivial)) _
      case inr.inr.inr.inr.inr.inr.inl =>
        rw [hidle]
        exact hplain _
      all_goals exact hplain _
  · rw [store, if_neg hknown]
    have hsame : TransportParams.ofTriples (ts ++ [t]) = .ofTriples ts := by
      have hne {id : ℕ} (hid : id ∈ TransportParamId.known) : last id (ts ++ [t]) = last id ts := by
        rw [happend, if_neg]
        rintro rfl
        exact hknown hid
      unfold TransportParams.ofTriples
      iterate 9 rw [hne (by decide)]
    rw [hsame]
    by_cases hforbidden : t.id ∈ TransportParamId.forbidden
    · rw [if_pos hforbidden]
      exact iff_of_false nofun fun h => h.1.allowed hforbidden
    · rw [if_neg hforbidden, Option.some.injEq, eq_comm]
      exact (and_iff_right ⟨hforbidden, fun h => absurd h hknown⟩).symm

theorem foldlM_store_iff {ts : List Triple} {d : TransportParams} :
    ts.foldlM store .default = some d ↔ (∀ t ∈ ts, t.Valid) ∧ d = .ofTriples ts := by
  induction ts using List.reverseRecOn generalizing d with
  | nil =>
    have hnil : TransportParams.ofTriples [] = .default := by decide
    rw [hnil]
    exact ⟨fun h => ⟨nofun, (Option.some.inj h).symm⟩, fun h => h.2 ▸ rfl⟩
  | append_singleton ts t ih =>
    rw [List.foldlM_append]
    simp only [Option.bind_eq_bind, Option.bind_eq_some_iff, ih, List.forall_mem_append]
    have hone (dest : TransportParams) : [t].foldlM store dest = t.store dest := by
      rw [List.foldlM_cons]
      cases t.store dest <;> rfl
    simp only [hone]
    constructor
    · rintro ⟨dest, ⟨hts, rfl⟩, h⟩
      obtain ⟨ht, rfl⟩ := (store_ofTriples ts t d).1 h
      exact ⟨⟨hts, fun a ha => List.mem_singleton.1 ha ▸ ht⟩, rfl⟩
    · rintro ⟨⟨hts, ht⟩, rfl⟩
      exact ⟨_, ⟨hts, rfl⟩, (store_ofTriples ts t _).2 ⟨ht t (List.mem_singleton_self t), rfl⟩⟩

end Triple

open Triple

/-- The decoder accepts valid parameters, and takes the last of each. -/
theorem transportParamsDecode_ok_iff {data : List UInt8} {params : TransportParams} :
    transportParamsDecode data = .ok params ↔
      ∃ ts, data = flatten ts ∧ (∀ t ∈ ts, t.Valid) ∧ params = .ofTriples ts := by
  have hflatten (ts : List Triple) := @decodeParams_flatten ts _ .default le_rfl
  constructor
  · intro h
    obtain ⟨ts, rfl⟩ := exists_of_decodeParams h
    rw [transportParamsDecode, hflatten] at h
    split at h
    · cases h
    · next d hd =>
      obtain rfl := Except.ok.inj h
      exact ⟨ts, rfl, foldlM_store_iff.1 hd⟩
  · rintro ⟨ts, rfl, h⟩
    rw [transportParamsDecode, hflatten, foldlM_store_iff.2 h]

/-- A parameter that is not known is skipped. -/
theorem transportParamsDecode_insert (ts ts' : List Triple) {t : Triple}
    (hknown : t.id ∉ TransportParamId.known) (hforbidden : t.id ∉ TransportParamId.forbidden) :
    transportParamsDecode (flatten (ts ++ t :: ts')) =
      transportParamsDecode (flatten (ts ++ ts')) := by
  have hskip (dest : TransportParams) : t.store dest = some dest := by
    rw [store, if_neg hknown, if_neg hforbidden]
  have hfold : (ts ++ t :: ts').foldlM store TransportParams.default =
      (ts ++ ts').foldlM store .default := by
    rw [List.foldlM_append, List.foldlM_append]
    congr 1
    funext dest
    rw [List.foldlM_cons, hskip]
    rfl
  rw [transportParamsDecode, transportParamsDecode, decodeParams_flatten _ le_rfl,
    decodeParams_flatten _ le_rfl, hfold]

theorem exists_of_last {id v : ℕ} {ts : List Triple} (h : last id ts = some v) :
    ∃ t ∈ ts, t.id = id ∧ t.varint = some v := by
  obtain ⟨t, ht, hv⟩ := Option.bind_eq_some_iff.1 h
  exact ⟨t, List.mem_reverse.1 (List.mem_of_find?_eq_some ht),
    of_decide_eq_true (List.find?_some ht :), hv⟩

theorem last_le {id : ℕ} {ts : List Triple} {d : ℕ} (hd : d ≤ maxVarint) :
    (last id ts).getD d ≤ maxVarint := by
  cases h : last id ts with
  | none => exact hd
  | some v =>
    obtain ⟨t, -, -, hv⟩ := exists_of_last h
    exact getUvarint_le (varint_eq_some_iff.1 hv)

/-- What is decoded is in range, and has an idle timeout of whole milliseconds. -/
theorem inRange_of_decode {data : List UInt8} {params : TransportParams}
    (h : transportParamsDecode data = .ok params) : params.InRange ∧ params.received = params := by
  obtain ⟨ts, -, hts, rfl⟩ := transportParamsDecode_ok_iff.1 h
  have hstreams {id : ℕ} (hid : id = TransportParamId.initialMaxStreamsBidi ∨
      id = TransportParamId.initialMaxStreamsUni) : (last id ts).getD 0 ≤ maxStreams := by
    cases h : last id ts with
    | none => exact Nat.zero_le _
    | some v =>
      obtain ⟨t, ht, rfl, hv⟩ := exists_of_last h
      refine (valid_iff ?_ hv).1 (hts t ht) hid
      rcases hid with hid | hid <;> rw [hid] <;> decide
  have hidle : min ((last TransportParamId.maxIdleTimeout ts).getD 0) (uint64Max / milliseconds) *
      milliseconds < 2 ^ 64 :=
    (Nat.mul_le_mul_right _ (Nat.min_le_right _ _)).trans_lt
      ((Nat.div_mul_le_self _ _).trans_lt (by decide))
  have hzero : 0 ≤ maxVarint := Nat.zero_le _
  refine ⟨⟨hstreams (.inl rfl), hstreams (.inr rfl), last_le hzero, last_le hzero, last_le hzero,
    last_le hzero, hidle, last_le (by decide), last_le hzero⟩, ?_⟩
  rw [TransportParams.received, TransportParams.ofTriples]
  dsimp only
  rw [Nat.mul_div_left _ (by decide)]

/-- The grammar of the transport parameters: what is accepted, and what is made of it; that
    all else is refused, without a byte read beyond the end and without a loop that goes on,
    which would be faults; and that nothing is made of a parameter that is not known. -/
theorem transportParams_grammar :
    (∀ data params, transportParamsDecode data = .ok params ↔
      ∃ ts, data = flatten ts ∧ (∀ t ∈ ts, t.Valid) ∧ params = .ofTriples ts) ∧
    (∀ data e, transportParamsDecode data = .error e → e = .malformedTransportParam) ∧
    ∀ (ts ts' : List Triple) (t : Triple), t.id ∉ TransportParamId.known →
      t.id ∉ TransportParamId.forbidden →
      transportParamsDecode (flatten (ts ++ t :: ts')) =
        transportParamsDecode (flatten (ts ++ ts')) :=
  ⟨fun _ _ => transportParamsDecode_ok_iff, fun _ _ => transportParamsDecode_err,
    fun ts ts' _ => transportParamsDecode_insert ts ts'⟩

/-- A parameter that is not known: the identifier 0x21, and one byte. -/
def unknownTriple : Triple := ⟨[0x21, 0x01, 0xFF], 0x21, [0xFF], [0x01, 0xFF], rfl, rfl⟩

/-- `initial_max_data`, with the value 7. -/
def dataTriple : Triple := ⟨[0x04, 0x01, 0x07], 0x04, [0x07], [0x01, 0x07], rfl, rfl⟩

theorem transportParams_grammar_unknown :
    transportParamsDecode [0x21, 0x01, 0xFF, 0x04, 0x01, 0x07] =
      .ok { TransportParams.default with initialMaxData := 7 } := by
  obtain ⟨hok, -, hskip⟩ := transportParams_grammar
  refine (hskip [] [dataTriple] unknownTriple (by decide) (by decide)).trans ((hok _ _).2 ?_)
  refine ⟨[dataTriple], rfl, fun t ht => ?_, by decide⟩
  rw [List.mem_singleton.1 ht]
  exact ⟨by decide, fun _ => ⟨7, rfl, by decide⟩⟩

end Dwnx
