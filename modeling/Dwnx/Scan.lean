import Dwnx.Flow
import Dwnx.Format

/-!
# The two parsers accept the same records

`scanAll` is the parser of `connRead` over the chunks of a record, when the connection
accepts what is read; `frdDecodeAll` decodes the frames of the record one after the other.
Wherever the record is cut, the first takes in the frames that the second decodes, and
ends as it does (`scanAll_frdDecode`). A call of `connRead` performs the acts that the
parser comes to and returns what it does, unless one of them fails or the connection
objects (`connRead_follows`).
-/

namespace Dwnx

namespace Parse

/-! ## The parser over a record -/

/-- The loop of `connRead` over a chunk, and what it has the connection do. -/
def scan (params : TransportParams) : ℕ → Reader → List UInt8 → List Act × Except Err Reader
  | _, reader, [] => ([], .ok reader)
  | 0, _, _ => ([], .error (.fault .outOfFuel))
  | n + 1, reader, p =>
    let x := lenient params reader p
    match x.outcome with
    | .error err => ([x.act], .error err)
    | .ok none => ([x.act], .ok x.next)
    | .ok (some p) =>
      let y := scan params n x.next p
      (x.act :: y.1, y.2)

/-- Chunk after chunk, up to an error. -/
def scanAll (params : TransportParams) : Reader → List (List UInt8) → List Act × Except Err Reader
  | reader, [] => ([], .ok reader)
  | reader, p :: ps =>
    match scan params p.length reader p with
    | (acts, .error err) => (acts, .error err)
    | (acts, .ok reader) =>
      let y := scanAll params reader ps
      (acts ++ y.1, y.2)

/-- The parser is to read `q`, which spells `ts`, or the length of a record that does. -/
inductive Awaits (params : TransportParams) (reader : Reader) (q : List UInt8) (ts : List Token)
    (e : End) : Prop
  | record (h : reader.Ahead q ts e)
  | header {b payload : List UInt8} (hs : reader.rcrd.state = .recordSize)
    (hv : reader.vird = virdOf b) (hb : getUvarint b = none)
    (hget : getUvarint (b ++ q) = some (payload.length, payload)) (hne : payload ≠ [])
    (hmax : payload.length ≤ params.maxRecordSize) (h : Spells (nextAhead payload) ts e)

variable {params : TransportParams} {reader : Reader} {p t : List UInt8} {ts : List Token} {e : End}

/-- A pass of the parser that is accepted is one of the parser. -/
theorem lenient_eq_pass (params : TransportParams) (reader : Reader) (p : List UInt8) :
    ∃ seen, lenient params reader p =
      pass seen { params with maxDatagramFrameSize := uint64Max } reader p ∧
        (reader.rcrd.state ≠ .frameType → seen = true) := by
  unfold lenient
  dsimp only
  split
  · next hs =>
    have hpass (seen : Bool) :
        pass seen { params with maxDatagramFrameSize := uint64Max } reader p =
        field reader p
          (frameType seen { params with maxDatagramFrameSize := uint64Max }) := by
      unfold pass
      rw [hs]
      rfl
    simp only [hpass, field]
    rcases varintReaderRead reader.vird (p.take (reader.rcrd.avail p.length))
        (reader.rcrd.recordLeft == reader.rcrd.avail p.length) with ⟨err | nread, vird⟩
    · exact ⟨true, rfl, fun h => absurd hs h⟩
    · exact ⟨_, rfl, fun h => absurd hs h⟩
  · exact ⟨true, rfl, fun _ => rfl⟩

theorem lenient_ok (h : reader.Ok) (hover : reader.rcrd.state.isOver = false) (hp : p ≠ []) :
    ∃ seen params' body, (lenient params reader p).Sound seen params' body p.length := by
  obtain ⟨seen, heq, hseen⟩ := lenient_eq_pass params reader p
  rw [heq]
  have hphase : ∃ params', reader.rcrd.state.Phase seen params' := by
    by_cases hft : reader.rcrd.state = .frameType
    · exact ⟨seen, by rw [hft]; rfl⟩
    · rw [hseen hft]
      refine ⟨!reader.rcrd.state.isParams, ?_⟩
      cases hs : reader.rcrd.state <;> first
        | exact trivial
        | exact ⟨rfl, rfl⟩
        | rfl
  obtain ⟨params', hphase⟩ := hphase
  exact ⟨seen, params', _, pass_sound _ h hphase hp hover⟩

/-- The length of the record is read. -/
theorem recordSize_awaits {b payload : List UInt8} (hs : reader.rcrd.state = .recordSize)
    (hv : reader.vird = virdOf b) (hb : getUvarint b = none)
    (hget : getUvarint (b ++ (p ++ t)) = some (payload.length, payload)) (hne : payload ≠ [])
    (hmax : payload.length ≤ params.maxRecordSize) (h : Spells (nextAhead payload) ts e)
    (hp : p ≠ []) :
    ∃ r, (lenient params reader p).outcome = .ok r ∧ (lenient params reader p).act.tokens = [] ∧
      Awaits params (lenient params reader p).next (r.getD [] ++ t) ts e := by
  have hpass : lenient params reader p =
      recordSize { params with maxDatagramFrameSize := uint64Max } reader p := by
    unfold lenient pass
    rw [hs]
    rfl
  rw [← List.append_assoc] at hget
  rw [hpass]
  unfold recordSize
  rw [hv, varintReaderRead_virdOf _ hb hp]
  cases hbp : getUvarint (b ++ p) with
  | none =>
    have hnot := virdOf_done hbp (List.append_ne_nil_of_right_ne_nil b hp)
    dsimp only
    rw [if_neg (by simp)]
    dsimp only
    rw [if_neg (by rw [hnot]; simp)]
    exact ⟨none, rfl, rfl, .header hs rfl hbp hget hne hmax h⟩
  | some vr =>
    obtain ⟨v, r⟩ := vr
    rw [getUvarint_append hbp] at hget
    obtain ⟨rfl, hpayload⟩ := Prod.mk.inj (Option.some.inj hget)
    obtain ⟨n, hn, hle, rfl⟩ := getUvarint_append_suffix hb hbp
    have hnread : p.length - (p.drop n).length = n := by
      rw [List.length_drop]
      omega
    have hok : ¬(payload.length > params.maxRecordSize ∨ payload.length = 0) :=
      not_or.2 ⟨Nat.not_lt.2 hmax, (List.length_pos_of_ne_nil hne).ne'⟩
    simp only [VarintReader.done, beq_self_eq_true, if_true, hnread, if_neg hok]
    refine ⟨some (p.drop n), rfl, rfl, .record ?_⟩
    rw [Option.getD_some, hpayload]
    exact .mid (b := []) rfl rfl rfl hne ⟨⟨by rintro ⟨⟩, rfl⟩, by rintro ⟨⟩, by rintro ⟨⟩⟩ h

/-- What the parser is to read after the chunk, and where it stands. -/
structure Goes (params : TransportParams) (reader : Reader) (q : List UInt8) (ts : List Token)
    (e : End) : Prop where
  ok : reader.Ok
  awaits : Awaits params reader q ts e

theorem Goes.notOver (h : Goes params reader p ts e) : reader.rcrd.state.isOver = false := by
  cases h.awaits with
  | record h => cases h with
    | start hs => rw [hs]; rfl
    | mid _ _ _ _ hin => exact hin.state.2
  | header hs => rw [hs]; rfl

/-- Nothing is left to be read at the end of a record. -/
theorem Goes.nil (h : Goes params reader [] ts e) :
    ts = [] ∧ e = .ended ∧ reader.rcrd.state = .recordSize ∧ reader.vird = .reset := by
  cases h.awaits with
  | record ha =>
    generalize hq : ([] : List UInt8) = q at ha
    cases ha with
    | start hs hv => exact ⟨rfl, rfl, hs, hv⟩
    | mid _ _ _ hne => exact absurd hq.symm hne
  | header _ _ hb hget =>
    rw [List.append_nil, hb] at hget
    cases hget

/-- What is read by a pass, resp. a chunk or some, and what is left to be read. -/
def Takes (params : TransportParams) (t : List UInt8) (ts : List Token) (e : End)
    (taken : List Token) : Except Err Reader → Prop
  | .error err => ts = taken ∧ e.Returns t err
  | .ok reader => ∃ ts', ts = taken ++ ts' ∧ Goes params reader t ts' e

theorem lenient_takes (h : Goes params reader (p ++ t) ts e) (hp : p ≠ []) :
    match (lenient params reader p).outcome with
    | .error err => ts = (lenient params reader p).act.tokens ∧ e.Returns t err
    | .ok r => (∃ ts', ts = (lenient params reader p).act.tokens ++ ts' ∧
        Goes params (lenient params reader p).next (r.getD [] ++ t) ts' e) ∧
      ∀ q, r = some q → q.length < p.length := by
  obtain ⟨seen, params', body, hsound⟩ : ∃ seen params' body,
      (lenient params reader p).Sound seen params' body p.length := lenient_ok h.ok h.notOver hp
  have hresult {r : Rest} (hr : (lenient params reader p).outcome = .ok r) :
      (lenient params reader p).result = .ok r := by
    unfold Parsed.outcome at hr
    cases hc : (lenient params reader p).act.check with
    | error err => rw [hc] at hr; cases hr
    | ok u => rw [hc] at hr; exact hr
  have hreads : match (lenient params reader p).outcome with
      | .error err => ts = (lenient params reader p).act.tokens ∧ e.Returns t err
      | .ok r => ∃ ts', ts = (lenient params reader p).act.tokens ++ ts' ∧
        Awaits params (lenient params reader p).next (r.getD [] ++ t) ts' e := by
    cases h.awaits with
    | record ha =>
      generalize hq : p ++ t = q at ha
      cases ha with
      | start => exact absurd (List.append_eq_nil_iff.1 hq).1 hp
      | mid hv hb hleft hne hin hs =>
        subst hq
        have := @lenient_reads _ _ _ params _ h.ok hv hb hleft hp hin ts e hs
        cases hout : (lenient params reader p).outcome with
        | error err =>
          rw [hout] at this
          exact this
        | ok r =>
          rw [hout] at this
          obtain ⟨ts', hts, ha⟩ := this
          exact ⟨ts', hts, .record ha⟩
    | header hs hv hb hget hne hmax hspell =>
      obtain ⟨r, hout, htokens, ha⟩ := recordSize_awaits hs hv hb hget hne hmax hspell hp
      rw [hout]
      exact ⟨ts, by rw [htokens]; rfl, ha⟩
  cases hout : (lenient params reader p).outcome with
  | error err =>
    rw [hout] at hreads
    exact hreads
  | ok r =>
    rw [hout] at hreads
    obtain ⟨ts', hts, ha⟩ := hreads
    refine ⟨⟨ts', hts, (hsound.next r (hresult hout)).1, ha⟩, ?_⟩
    rintro q rfl
    exact hsound.progress q (hresult hout)

/-- A chunk is read. -/
theorem scan_takes (n : ℕ) (hn : p.length ≤ n) (h : Goes params reader (p ++ t) ts e) :
    Takes params t ts e ((scan params n reader p).1.flatMap Act.tokens)
      (scan params n reader p).2 := by
  induction n generalizing reader p ts with
  | zero =>
    obtain rfl : p = [] := List.length_eq_zero_iff.1 (Nat.le_zero.1 hn)
    exact ⟨ts, rfl, h⟩
  | succ n ih =>
    cases p with
    | nil => exact ⟨ts, rfl, h⟩
    | cons b p =>
      have hstep := lenient_takes h (List.cons_ne_nil b p)
      unfold scan
      dsimp only
      cases hout : (lenient params reader (b :: p)).outcome with
      | error err =>
        rw [hout] at hstep
        simpa [Takes] using hstep
      | ok r =>
        rw [hout] at hstep
        obtain ⟨⟨ts', hts, hgoes⟩, hless⟩ := hstep
        cases r with
        | none => exact ⟨ts', by simpa using hts, hgoes⟩
        | some q =>
          have hq := hless q rfl
          rw [Option.getD_some] at hgoes
          have hrest := ih (by rw [List.length_cons] at hq hn; omega) hgoes
          dsimp only
          cases hscan : (scan params n (lenient params reader (b :: p)).next q).2 with
          | error err =>
            rw [hscan] at hrest
            obtain ⟨rfl, he⟩ := hrest
            exact ⟨hts, he⟩
          | ok reader' =>
            rw [hscan] at hrest
            obtain ⟨ts₂, rfl, hgoes'⟩ := hrest
            exact ⟨ts₂, by rw [hts, List.flatMap_cons, List.append_assoc], hgoes'⟩

/-- A record is read, wherever it is cut. -/
theorem scanAll_takes (ps : List (List UInt8)) (h : Goes params reader (ps.flatten ++ t) ts e) :
    Takes params t ts e ((scanAll params reader ps).1.flatMap Act.tokens)
      (scanAll params reader ps).2 := by
  induction ps generalizing reader ts with
  | nil => exact ⟨ts, rfl, h⟩
  | cons p ps ih =>
    rw [List.flatten_cons, List.append_assoc] at h
    have hchunk := scan_takes p.length le_rfl h
    unfold scanAll
    cases hscan : scan params p.length reader p with
    | mk acts r =>
      rw [hscan] at hchunk
      cases r with
      | error err => exact ⟨hchunk.1, hchunk.2.mono (List.suffix_append ..)⟩
      | ok reader' =>
        obtain ⟨ts', hts, hgoes⟩ := hchunk
        have hrest := ih hgoes
        dsimp only
        cases hall : (scanAll params reader' ps).2 with
        | error err =>
          rw [hall] at hrest
          obtain ⟨rfl, he⟩ := hrest
          exact ⟨by rw [hts, List.flatMap_append], he⟩
        | ok reader'' =>
          rw [hall] at hrest
          obtain ⟨ts₂, rfl, hgoes'⟩ := hrest
          exact ⟨ts₂, by rw [hts, List.flatMap_append, List.append_assoc], hgoes'⟩

end Parse

/-! ## What a frame leaves -/

section

variable {p r : List UInt8}

theorem suffix_getUvarint {v : ℕ} (h : getUvarint p = some (v, r)) : r <:+ p := by
  obtain ⟨n, -, -, rfl⟩ := getUvarint_suffix h
  exact List.drop_suffix ..

theorem suffix_getUvarints {k : ℕ} {vs : List ℕ} (h : getUvarints k p = some (vs, r)) :
    r <:+ p := by
  induction k generalizing p vs with
  | zero =>
    cases h
    exact List.suffix_rfl
  | succ k ih =>
    simp only [getUvarints, Option.bind_eq_bind, Option.bind_eq_some_iff, Prod.exists] at h
    obtain ⟨v, q, hv, ws, q', hws, h⟩ := h
    cases h
    exact (ih hws).trans (suffix_getUvarint hv)

theorem suffix_getBytes {data : List UInt8} (h : getBytes p = some (data, r)) : r <:+ p := by
  simp only [getBytes, Option.bind_eq_bind, Option.bind_eq_some_iff, Prod.exists] at h
  obtain ⟨n, q, hq, h⟩ := h
  split at h
  · cases h
  · cases h
    exact ( List.drop_suffix ..).trans (suffix_getUvarint hq)

/-- A field that may be missing. -/
theorem suffix_optional {c : Bool} {v : ℕ}
    (h : (bif c then getUvarint p else some (0, p)) = some (v, r)) : r <:+ p := by
  cases c with
  | false =>
    cases h
    exact List.suffix_rfl
  | true => exact suffix_getUvarint h

theorem suffix_getStream {type : ℕ} {fr : FrameStream} (h : getStream type p = some (fr, r)) :
    r <:+ p := by
  simp only [getStream, Option.bind_eq_bind, Option.bind_eq_some_iff, Prod.exists] at h
  obtain ⟨id, q, hq, offset, q', hq', data, q'', hdata, h⟩ := h
  cases h
  refine .trans ?_ ((suffix_optional hq').trans (suffix_getUvarint hq))
  cases hlen : FrameType.hasBit type FrameType.streamLenBit with
  | false =>
    rw [hlen] at hdata
    cases hdata
    exact List.nil_suffix
  | true =>
    rw [hlen] at hdata
    exact suffix_getBytes hdata

theorem suffix_getConnectionClose {type : ℕ} {fr : FrameConnectionClose}
    (h : getConnectionClose type p = some (fr, r)) : r <:+ p := by
  simp only [getConnectionClose, Option.bind_eq_bind, Option.bind_eq_some_iff, Prod.exists] at h
  obtain ⟨code, q, hq, ftype, q', hq', reason, q'', hreason, h⟩ := h
  cases h
  exact (suffix_getBytes hreason).trans ((suffix_optional hq').trans (suffix_getUvarint hq))

theorem suffix_map {α : Type} {x : Option (α × List UInt8)}
    {f : α × List UInt8 → Frame × List UInt8} {fr : Frame} (hf : ∀ v, (f v).2 = v.2)
    (hx : ∀ a r, x = some (a, r) → r <:+ p) (h : x.map f = some (fr, r)) : r <:+ p := by
  obtain ⟨⟨a, r'⟩, ha, h⟩ := Option.map_eq_some_iff.1 h
  obtain rfl : r' = r := (hf (a, r')).symm.trans (congrArg Prod.snd h)
  exact hx a r' ha

theorem suffix_ite {c : Prop} [Decidable c] {x y : Option (Frame × List UInt8)} {fr : Frame}
    (hx : x = some (fr, r) → r <:+ p) (hy : y = some (fr, r) → r <:+ p)
    (h : (if c then x else y) = some (fr, r)) : r <:+ p := by
  split at h
  · exact hx h
  · exact hy h

/-- A frame is read from the front. -/
theorem suffix_getBody {type : ℕ} {fr : Frame} (h : getBody type p = some (fr, r)) : r <:+ p := by
  have hfields {k : ℕ} {f : List ℕ × List UInt8 → Frame × List UInt8} (hf : ∀ v, (f v).2 = v.2) :
      (getUvarints k p).map f = some (fr, r) → r <:+ p :=
    suffix_map hf fun _ _ => suffix_getUvarints
  unfold getBody at h
  dsimp only at h
  revert h
  refine suffix_ite (fun h => ?_) ?_
  · simp only [Option.bind_eq_bind, Option.bind_eq_some_iff, Prod.exists] at h
    obtain ⟨data, q, hdata, params, -, h⟩ := h
    cases h
    exact suffix_getBytes hdata
  refine suffix_ite (hfields fun _ => rfl) (suffix_ite (fun h => ?_) ?_)
  · cases h
    exact List.drop_suffix ..
  refine suffix_ite (hfields fun _ => rfl) (suffix_ite (hfields fun _ => rfl) ?_)
  refine suffix_ite (hfields fun _ => rfl) (suffix_ite (hfields fun _ => rfl) ?_)
  refine suffix_ite (hfields fun _ => rfl) (suffix_ite (hfields fun _ => rfl) ?_)
  refine suffix_ite (hfields fun _ => rfl) (suffix_ite (hfields fun _ => rfl) ?_)
  refine suffix_ite (suffix_map (fun _ => rfl) fun _ _ => suffix_getConnectionClose) ?_
  refine suffix_ite (fun h => ?_) (suffix_ite (suffix_map (fun _ => rfl) fun _ _ => suffix_getBytes)
    (suffix_ite (suffix_map (fun _ => rfl) fun _ _ => suffix_getStream) nofun))
  cases h
  exact List.nil_suffix

theorem getFrame_eq_some {fr : Frame} (h : getFrame p = some (fr, r)) :
    ∃ type q, getUvarint p = some (type, q) ∧ p.length - q.length = uvarintLen type ∧
      getBody type q = some (fr, r) := by
  simp only [getFrame, Option.bind_eq_bind, Option.bind_eq_some_iff, Prod.exists] at h
  obtain ⟨type, q, hq, h⟩ := h
  split at h
  · cases h
  · next hmin => exact ⟨type, q, hq, not_not.1 hmin, h⟩

/-- A frame takes some bytes. -/
theorem suffix_getFrame {fr : Frame} (h : getFrame p = some (fr, r)) :
    r <:+ p ∧ r.length < p.length := by
  obtain ⟨type, q, hq, hmin, hbody⟩ := getFrame_eq_some h
  have hlt := length_getUvarint hq
  have hsuf := suffix_getBody hbody
  exact ⟨hsuf.trans (suffix_getUvarint hq), hsuf.length_le.trans_lt hlt⟩

end

/-! ## Frame after frame -/

/-- `dwnx_frd_decode` over and over: the frames, and what is left when it fails. -/
def frdDecodeAll : ℕ → List UInt8 → List Frame × List UInt8
  | 0, p => ([], p)
  | n + 1, p =>
    match frdDecode p with
    | .error _ => ([], p)
    | .ok (fr, len) =>
      let y := frdDecodeAll n (p.drop len)
      (fr :: y.1, y.2)

/-- The type of the frame at the front is in its shortest form. -/
def minimalType (p : List UInt8) : Bool :=
  match getUvarint p with
  | none => true
  | some (type, q) => p.length - q.length == uvarintLen type

/-- So are those of the frames that follow, as far as they decode. -/
def minimalTypes : ℕ → List UInt8 → Bool
  | 0, _ => true
  | n + 1, p => minimalType p &&
    match frdDecode p with
    | .error _ => true
    | .ok (_, len) => minimalTypes n (p.drop len)

/-- The frames up to a CONNECTION_CLOSE frame, at which reading ends. -/
def upToClose : List Frame → List Frame
  | [] => []
  | fr :: frs => if fr.isClose then [fr] else fr :: upToClose frs

section

variable {p : List UInt8}

theorem frdDecode_of_some {fr : Frame} {r : List UInt8} (h : getFrame p = some (fr, r)) :
    ∃ len, frdDecode p = .ok (fr, len) ∧ p.drop len = r ∧ 0 < len := by
  obtain ⟨hsuf, hlt⟩ := suffix_getFrame h
  refine ⟨p.length - r.length, by rw [frdDecode_eq, h]; rfl, ?_, Nat.sub_pos_of_lt hlt⟩
  exact (List.suffix_iff_eq_drop.1 hsuf).symm

/-- The decoder fails in one way only. -/
theorem frdDecode_of_none (h : getFrame p = none) : frdDecode p = .error .frameEncoding := by
  rw [frdDecode_eq, h]
  rfl

/-- What is ahead is the next frame. -/
theorem spells_next {fr : Frame} {r : List UInt8} {ts : List Token} {e : End}
    (h : getFrame p = some (fr, r)) (hs : Spells (some (Frame.ahead (fr, r))) ts e) :
    Spells (nextAhead p) ts e := by
  obtain ⟨type, q, hq, -, hbody⟩ := getFrame_eq_some h
  have hnext : nextAhead p = aheadOf type q := by rw [nextAhead, hq]; rfl
  rw [hnext, aheadOf]
  split
  · next hpad =>
    -- one frame for each byte of the padding
    subst hpad
    obtain ⟨rfl, rfl⟩ := Prod.mk.inj (Option.some.inj hbody)
    have hahead : Frame.ahead (.padding (1 + (q.takeWhile (· = 0)).length),
        q.drop (q.takeWhile (· = 0)).length) =
        ([.frame (.padding 1)] ++ List.replicate (q.takeWhile (· = 0)).length (.frame (.padding 1)),
          Left.more (q.drop (q.takeWhile (· = 0)).length)) := by
      rw [Frame.ahead, Nat.add_comm]
      rfl
    rw [hahead] at hs
    rw [Parse.padding_split q]
    exact hs.of_zeros
  · rw [hbody]
    exact hs

theorem spells_none (hmin : minimalType p = true) (h : getFrame p = none) :
    Spells (nextAhead p) [] .failed := by
  have hnone : nextAhead p = none := by
    unfold nextAhead
    cases hq : getUvarint p with
    | none => rfl
    | some vr =>
      obtain ⟨type, q⟩ := vr
      rw [minimalType, hq, beq_iff_eq] at hmin
      have hbody : getBody type q = none := by
        simp only [getFrame, hq, Option.bind_eq_bind, Option.bind_some, hmin] at h
        simpa using h
      rw [Option.bind_some, aheadOf, if_neg, hbody]
      · rfl
      · rintro rfl
        cases hbody
  rw [hnone]
  exact .failed

/-- How a record ends of which these frames decode and `rest` is left. -/
inductive EndOf (frs : List Frame) (rest : List UInt8) : End → Prop
  | closed (h : frs.any Frame.isClose = true) (q : List UInt8) : EndOf frs rest (.closed q)
  | ended (h : frs.any Frame.isClose = false) (hr : rest = []) : EndOf frs rest .ended
  | failed (h : frs.any Frame.isClose = false) (hr : rest ≠ []) : EndOf frs rest .failed

/-- The parser is to read the frames that decode. -/
theorem spells_decode {n : ℕ} (hn : p.length ≤ n) (hmin : minimalTypes n p = true) (hne : p ≠ []) :
    ∃ e, EndOf (frdDecodeAll n p).1 (frdDecodeAll n p).2 e ∧
      Spells (nextAhead p) ((upToClose (frdDecodeAll n p).1).flatMap Frame.tokens) e := by
  induction n generalizing p with
  | zero => exact absurd (List.length_eq_zero_iff.1 (Nat.le_zero.1 hn)) hne
  | succ n ih =>
    rw [minimalTypes, Bool.and_eq_true] at hmin
    obtain ⟨hmin, hmins⟩ := hmin
    cases hget : getFrame p with
    | none =>
      simp only [frdDecodeAll, frdDecode_of_none hget]
      exact ⟨.failed, .failed rfl hne, spells_none hmin hget⟩
    | some fp =>
      obtain ⟨fr, r⟩ := fp
      obtain ⟨len, hdec, rfl, hlen⟩ := frdDecode_of_some hget
      rw [hdec] at hmins
      simp only [frdDecodeAll, hdec, upToClose]
      cases hclose : fr.isClose with
      | true =>
        refine ⟨.closed _, .closed ?_ (p.drop len), spells_next hget ?_⟩
        · rw [List.any_cons, hclose, Bool.true_or]
        · rw [if_pos rfl, List.flatMap_singleton, Frame.ahead, hclose]
          exact .closed ..
      | false =>
        have hany (frs : List Frame) : (fr :: frs).any Frame.isClose = frs.any Frame.isClose := by
          rw [List.any_cons, hclose, Bool.false_or]
        rw [if_neg Bool.false_ne_true, List.flatMap_cons]
        by_cases hrest : p.drop len = []
        · have hnil : frdDecodeAll n ([] : List UInt8) = ([], []) := by cases n <;> rfl
          rw [hrest, hnil]
          refine ⟨.ended, .ended (hany _) rfl, spells_next hget ?_⟩
          rw [Frame.ahead, hclose, hrest, upToClose, List.flatMap_nil, List.append_nil]
          exact .ended ..
        · obtain ⟨e, he, hs⟩ := ih (by rw [List.length_drop]; omega) hmins hrest
          refine ⟨e, ?_, spells_next hget ?_⟩
          · cases he with
            | closed h q => exact .closed ((hany _).trans h) q
            | ended h hr => exact .ended ((hany _).trans h) hr
            | failed h hr => exact .failed ((hany _).trans h) hr
          · rw [Frame.ahead, hclose]
            exact .frame hrest hs

end

namespace Parse

variable {params : TransportParams} {reader : Reader}

/-- Wherever a record is cut, the parser takes in the frames that decode one after the
    other, up to a CONNECTION_CLOSE frame, and ends as the decoder does. -/
theorem scanAll_frdDecode (hok : reader.Ok) (hs : reader.rcrd.state = .recordSize)
    (hv : reader.vird = .reset) {header payload : List UInt8}
    (hheader : getUvarint header = some (payload.length, [])) (hne : payload ≠ [])
    (hmax : payload.length ≤ params.maxRecordSize)
    (hmin : minimalTypes payload.length payload = true)
    {ps : List (List UInt8)} (hps : ps.flatten = header ++ payload) :
    let frs := (frdDecodeAll payload.length payload).1
    let rest := (frdDecodeAll payload.length payload).2
    let (acts, result) := scanAll params reader ps
    acts.flatMap Act.tokens = (upToClose frs).flatMap Frame.tokens ∧
      if frs.any Frame.isClose then result = .error .draining
      else if rest = [] then ∃ reader', result = .ok reader' ∧
        reader'.rcrd.state = .recordSize ∧ reader'.vird = .reset
      else result = .error .frameEncoding ∨ result = .error .malformedTransportParam := by
  obtain ⟨e, hend, hspell⟩ := spells_decode le_rfl hmin hne
  have hget : getUvarint ([] ++ (ps.flatten ++ [])) = some (payload.length, payload) := by
    rw [List.nil_append, List.append_nil, hps]
    exact getUvarint_append hheader
  have hgoes : Goes params reader (ps.flatten ++ []) _ e :=
    ⟨hok, .header (b := []) hs hv rfl hget hne hmax hspell⟩
  have htakes := scanAll_takes ps hgoes
  cases hscan : scanAll params reader ps with
  | mk acts result =>
    rw [hscan] at htakes
    dsimp only at htakes ⊢
    cases result with
    | error err =>
      obtain ⟨hts, he⟩ := htakes
      refine ⟨hts.symm, ?_⟩
      cases hend with
      | closed h q => rw [h, if_pos rfl, he.1]
      | ended => exact he.elim
      | failed h hr =>
        rw [h, if_neg Bool.false_ne_true, if_neg hr]
        exact he.imp (congrArg Except.error) (congrArg Except.error)
    | ok reader' =>
      obtain ⟨ts', hts, hgoes'⟩ := htakes
      obtain ⟨rfl, rfl, hs', hv'⟩ := hgoes'.nil
      refine ⟨by rw [hts, List.append_nil], ?_⟩
      cases hend with
      | ended h hr =>
        rw [h, if_neg Bool.false_ne_true, if_pos hr]
        exact ⟨reader', rfl, hs', hv'⟩

/-- A record of three frames that is cut in the middle of two of them. -/
theorem scanAll_frdDecode_cut :
    (scanAll .default ⟨.reset, .init⟩
      [[9, 16], [5, 11, 4, 2, 65], [66, 0], [0]]).1.flatMap Act.tokens =
        [Frame.maxData ⟨5⟩, .stream ⟨3, true, 4, 0, 2, [[65, 66]]⟩, .padding 2].flatMap
          Frame.tokens := by
  have hok : Reader.Ok ⟨.reset, .init⟩ :=
    ⟨⟨⟨[], rfl, rfl⟩, fun h => absurd rfl h⟩, Nat.zero_le _, FrameUnion.bounded_zero, rfl, nofun⟩
  exact (@scanAll_frdDecode .default ⟨.reset, .init⟩ hok rfl rfl [9]
    [16, 5, 11, 4, 2, 65, 66, 0, 0] (by decide) (by decide) (by decide) (by decide) _ rfl).1

/-! ## The parser of a connection -/

variable {seen : Bool} {p : List UInt8}

/-- The connection objects to what is read: the transport parameters do not come when they
    should, or a datagram is too long. -/
def Refused (x : Parsed) : Prop := ∃ reader, x = fail reader .proto

theorem not_refused_of_ok {x : Parsed} {rest : Rest} (h : x.result = .ok rest) : ¬Refused x := by
  rintro ⟨r, rfl⟩
  cases h

theorem ite_of_accepted {c : Prop} [Decidable c] {x x' z z' : Parsed}
    (hx : c → ¬Refused x → x' = x) (hz : ¬c → ¬Refused z → z' = z)
    (h : ¬Refused (if c then x else z)) : (if c then x' else z') = if c then x else z := by
  split at h
  · next hc => rw [if_pos hc, if_pos hc, hx hc h]
  · next hc => rw [if_neg hc, if_neg hc, hz hc h]

theorem field_of_accepted {k k' : ℕ → ℕ → Reader → List UInt8 → Parsed}
    (hk : ∀ v vlen r q, ¬Refused (k v vlen r q) → k' v vlen r q = k v vlen r q)
    (h : ¬Refused (field reader p k)) : field reader p k' = field reader p k := by
  unfold field at h ⊢
  dsimp only at h ⊢
  split
  · rfl
  · next x heq =>
    rw [heq] at h
    exact ite_of_accepted (fun _ => hk _ _ _ _) (fun _ _ => rfl) h

theorem frameType_of_accepted (hsize : params.maxDatagramFrameSize ≤ uint64Max) {type vlen : ℕ}
    (h : ¬Refused (frameType seen params type vlen reader p)) :
    frameType (decide (type ≠ FrameType.qxTransportParameters))
        { params with maxDatagramFrameSize := uint64Max } type vlen reader p =
      frameType seen params type vlen reader p := by
  unfold frameType at h ⊢
  dsimp only at h ⊢
  by_cases htp : type = FrameType.qxTransportParameters
  · cases seen with
    | true => exact absurd ⟨_, by rw [if_neg (by simp), if_pos htp, if_pos rfl]⟩ h
    | false => simp [htp]
  cases seen with
  | false => exact absurd ⟨_, if_pos ⟨rfl, htp⟩⟩ h
  | true =>
    have hdec : decide (type ≠ FrameType.qxTransportParameters) = true := decide_eq_true htp
    have hnot : ¬((!true) = true ∧ type ≠ FrameType.qxTransportParameters) := by simp
    rw [if_neg hnot, if_neg htp] at h
    rw [hdec, if_neg hnot, if_neg hnot, if_neg htp, if_neg htp]
    refine ite_of_accepted (fun _ _ => rfl) (fun _ h => ?_) h
    refine ite_of_accepted (fun _ _ => rfl) (fun _ h => ?_) h
    refine ite_of_accepted (fun _ _ => rfl) (fun _ h => ?_) h
    refine ite_of_accepted (fun _ _ => rfl) (fun _ h => ?_) h
    refine ite_of_accepted (fun _ _ => rfl) (fun _ h => ?_) h
    refine ite_of_accepted (fun _ _ => rfl) (fun _ h => ?_) h
    refine ite_of_accepted (fun _ _ => rfl) (fun _ h => ?_) h
    refine ite_of_accepted (fun _ _ => rfl) (fun _ h => ?_) h
    refine ite_of_accepted (fun _ _ => rfl) (fun _ h => ?_) h
    refine ite_of_accepted (fun _ _ => rfl) (fun _ h => ?_) h
    refine ite_of_accepted (fun _ _ => rfl) (fun _ h => ?_) h
    refine ite_of_accepted (fun _ h => ?_) (fun _ h => ?_) h
    · split at h
      · exact absurd ⟨_, rfl⟩ h
      · next hlen => rw [if_neg (by unfold uint64Max at *; omega), if_neg hlen]
    refine ite_of_accepted (fun _ h => ?_) (fun _ _ => rfl) h
    split at h
    · exact absurd ⟨_, rfl⟩ h
    · next hlen => rw [if_neg (by unfold uint64Max at *; omega), if_neg hlen]

theorem datagramLen_of_accepted {n vlen : ℕ}
    (h : ¬Refused (datagramLen params n vlen reader p)) :
    datagramLen { params with maxDatagramFrameSize := uint64Max } n vlen reader p =
      datagramLen params n vlen reader p := by
  unfold datagramLen at h ⊢
  dsimp only at h ⊢
  have hsize : ¬add64 (reader.rcrd.typelen + vlen) n > uint64Max := by
    unfold add64 uint64Max
    omega
  split at h
  · exact absurd ⟨_, rfl⟩ h
  · next hlen => rw [if_neg hsize, if_neg hlen]

/-- A pass is accepted unless the connection objects to what is read. -/
theorem lenient_of_accepted (hsize : params.maxDatagramFrameSize ≤ uint64Max)
    (h : ¬Refused (pass seen params reader p)) :
    lenient params reader p = pass seen params reader p := by
  unfold lenient
  dsimp only
  split
  · next hs =>
    have hpass : pass seen params reader p = field reader p (frameType seen params) := by
      unfold pass
      rw [hs]
      rfl
    rw [hpass] at h ⊢
    exact field_of_accepted (fun _ _ _ _ => frameType_of_accepted hsize) h
  · next hs =>
    unfold pass at h ⊢
    cases hplain : plain reader.rcrd.state with
    | some x => rfl
    | none =>
      rw [hplain] at h
      dsimp only at h ⊢
      split at h <;> first
        | rfl
        | exact absurd ‹_› hs
        | exact field_of_accepted (fun _ _ _ _ => datagramLen_of_accepted) h

end Parse

open Exec Parse

variable {env : Env} {e e' : Endp} {p : List UInt8} {ts : ℕ}

theorem perform_of_check {act : Act} {err : Err} {st : St} (h : act.check = .error err) :
    wp (act.perform ts) (fun _ _ => False) (fun _ _ => True) env st := by
  cases act <;> try cases h
  case params data =>
    cases hd : transportParamsDecode data with
    | ok tp => rw [Act.check, hd] at h; cases h
    | error err =>
      simp only [Act.perform, connRecvTransportParams, wp_bind, wp_get', wp_ofExcept, hd]

/-- How a call goes along the acts that the parser comes to: it performs one after the
    other, up to one that fails or to where the connection objects, and once all are
    performed it ends as the parser does. Between two acts only the time at which the last
    record ended is set. -/
inductive Follows (env : Env) (ts : ℕ) :
    St → List Act × Except Err Reader → Except Err Reader → St → Prop
  | ends (st : St) (result : Except Err Reader) : Follows env ts st ([], result) result st
  | fails {st t : St} {act : Act} {acts : List Act} {result : Except Err Reader} {err : Err}
      (h : act.perform ts env st = (.error err, t)) :
      Follows env ts st (act :: acts, result) (.error err) t
  | refuses (st : St) (act : Act) (acts : List Act) (result : Except Err Reader) :
      Follows env ts st (act :: acts, result) (.error .proto) st
  | performs {st t t' u : St} {act : Act} {acts : List Act} {result r : Except Err Reader}
      (h : act.perform ts env st = (.ok (), t)) (ht : t' = t ∨ t' = { t with conn.idleTs := ts })
      (hf : Follows env ts t' (acts, result) r u) : Follows env ts st (act :: acts, result) r u

theorem Follows.of_ok {st t : St} {x : List Act × Except Err Reader} {reader : Reader}
    (h : Follows env ts st x (.ok reader) t) : x.2 = .ok reader := by
  generalize hr : (.ok reader : Except Err Reader) = r at h
  induction h with
  | ends =>
    subst hr
    rfl
  | fails | refuses => cases hr
  | performs _ _ _ ih => exact ih hr

/-- A pass performs its act, and then ends as the parser does, unless the act fails. -/
theorem Parsed.run_follows (x : Parsed) :
    wp (x.run ts)
      (fun rest e' => x.outcome = .ok rest ∧ x.next = e'.reader ∧
        ∃ t, x.act.perform ts env e.st = (.ok (), t) ∧
          (e'.st = t ∨ e'.st = { t with conn.idleTs := ts }))
      (fun err e' => x.act.perform ts env e.st = (.error err, e'.st) ∨
        x.outcome = .error err ∧ ∃ t, x.act.perform ts env e.st = (.ok (), t) ∧
          (e'.st = t ∨ e'.st = { t with conn.idleTs := ts })) env e := by
  rw [Parsed.wp_run]
  refine wp_of_run (fun a t hrun => ?_) fun err t hrun => .inl hrun
  have hout : x.outcome = x.result := by
    cases hc : x.act.check with
    | error err => exact ((perform_of_check hc).of_ok hrun).elim
    | ok u =>
      rw [Parsed.outcome, hc]
      rfl
  rw [wp_ofExcept, hout]
  cases x.result with
  | error err =>
    refine .inr ⟨rfl, t, hrun, ?_⟩
    split
    · exact .inr rfl
    · exact .inl rfl
  | ok rest =>
    refine ⟨rfl, rfl, t, hrun, ?_⟩
    split
    · exact .inr rfl
    · exact .inl rfl

/-- A pass of a connection is the accepted one, unless the connection objects. -/
theorem connReadStep_follows (h : e.reader.Readable) (hp : p ≠ [])
    (hsize : e.st.conn.localParams.maxDatagramFrameSize ≤ uint64Max) {x : Parsed}
    (hx : lenient e.st.conn.localParams e.reader p = x) :
    wp (connReadStep ts p)
      (fun rest e' => x.outcome = .ok rest ∧ x.next = e'.reader ∧
        ∃ t, x.act.perform ts env e.st = (.ok (), t) ∧
          (e'.st = t ∨ e'.st = { t with conn.idleTs := ts }))
      (fun err e' => err = .proto ∧ e'.st = e.st ∨
        x.act.perform ts env e.st = (.error err, e'.st) ∨
        x.outcome = .error err ∧ ∃ t, x.act.perform ts env e.st = (.ok (), t) ∧
          (e'.st = t ∨ e'.st = { t with conn.idleTs := ts })) env e := by
  rw [wp_connReadStep ts h hp]
  by_cases hrefused : Refused (Parse.pass e.st.conn.flags.qxTransportParametersSeen
    e.st.conn.localParams e.reader p)
  · obtain ⟨r, hr⟩ := hrefused
    rw [hr, Parsed.wp_run]
    exact .inl ⟨rfl, rfl⟩
  · rw [← lenient_of_accepted hsize hrefused, hx]
    exact wp_mono (x.run_follows) (fun _ _ h => h) fun _ _ h => .inr h

/-- A pass of `scan`. -/
theorem scan_pass (params : TransportParams) (n : ℕ) (reader : Reader) (hp : p ≠ []) {x : Parsed}
    (hx : lenient params reader p = x) :
    ∃ acts result, scan params (n + 1) reader p = (x.act :: acts, result) ∧
      match x.outcome with
      | .error err => acts = [] ∧ result = .error err
      | .ok none => acts = [] ∧ result = .ok x.next
      | .ok (some q) => scan params n x.next q = (acts, result) := by
  rw [scan.eq_3 _ _ _ _ hp, hx]
  cases x.outcome with
  | error err => exact ⟨_, _, rfl, rfl, rfl⟩
  | ok rest =>
    cases rest with
    | none => exact ⟨_, _, rfl, rfl, rfl⟩
    | some q => exact ⟨_, _, rfl, rfl⟩

section

variable {server : Bool} {settings : Settings} {params : TransportParams}

/-- The loop goes along the acts of `scan`. -/
theorem readLoop_follows {G : Cfg → Prop} (hG : Timed env.Passive G)
    (hrx : ∀ l c c', G c → Step env.Passive l c c' → l ≠ .early → l ≠ .reject → G c')
    (hparams : ∀ c, G c → c.conn.localParams = params)
    (hsize : params.maxDatagramFrameSize ≤ uint64Max) (n : ℕ) {c : Cfg}
    (h : At (AtTime G ts) e c) :
    wp (readLoop ts n p)
      (fun _ e' => Follows env ts e.st (scan params n e.reader p) (.ok e'.reader) e'.st)
      (fun err e' => Follows env ts e.st (scan params n e.reader p) (.error err) e'.st) env e := by
  induction n generalizing e p c with
  | zero => cases p <;> exact .ends ..
  | succ n ih =>
    cases p with
    | nil => exact .ends ..
    | cons b p =>
      have hp : b :: p ≠ [] := List.cons_ne_nil b p
      have hlocal : e.st.conn.localParams = params := by
        rw [h.st]
        exact hparams c h.mem.1
      obtain ⟨acts, result, hscan, hrest⟩ := scan_pass params n e.reader hp rfl
      rw [hscan, readLoop.eq_3 _ _ _ hp, wp_bind]
      refine wp_mono (wp_and (connReadStep_at hG hrx h hp)
        (connReadStep_follows h.reader.ok.toReadable hp (hlocal ▸ hsize) (by rw [hlocal]))) ?_ ?_
      · rintro rest e' ⟨⟨⟨c', hc'⟩, -⟩, hout, hnext, t, hrun, ht⟩
        rw [hout] at hrest
        cases rest with
        | none =>
          obtain ⟨rfl, rfl⟩ := hrest
          rw [hnext]
          exact .performs hrun ht (.ends ..)
        | some q =>
          have hloop := ih (p := q) hc'
          rw [← hnext, hrest] at hloop
          exact wp_mono hloop (fun _ _ hf => .performs hrun ht hf)
            fun _ _ hf => .performs hrun ht hf
      · rintro err e' ⟨-, ⟨rfl, ht⟩ | hrun | ⟨hout, t, hrun, ht⟩⟩
        · rw [ht]
          exact .refuses ..
        · exact .fails hrun
        · rw [hout] at hrest
          obtain ⟨rfl, rfl⟩ := hrest
          exact .performs hrun ht (.ends ..)

/-- What a call of `connRead` does and returns, by what the parser comes to over the chunk. -/
theorem connRead_follows (h : Run env server settings params e) (hts : e.st.conn.lastTs ≤ ts)
    (hsize : params.maxDatagramFrameSize ≤ uint64Max) {data : List UInt8} {r : Except Err Unit}
    (hrun : connRead data ts env e = (r, e')) (hne : data ≠ []) :
    Follows env ts (e.tick ts).st (scan e.st.conn.localParams data.length e.reader data)
      (r.map fun _ => e'.reader) e'.st := by
  have hs := h.sound_new env.Passive
  have hrx (l c c') (h : Steps env.Passive (Cfg.new server settings params) c)
      (hs : Step env.Passive l c c') (_ : l ≠ .early) (_ : l ≠ .reject) := h.tail hs
  have hlocal (c : Cfg) (hc : Steps env.Passive (Cfg.new server settings params) c) :
      c.conn.localParams = { params with maxRecordSize := defaultMaxRecordSize } :=
    (hc.keep (P := fun c => c.conn.localParams =
      { params with maxRecordSize := defaultMaxRecordSize }) hs
      (fun _ _ _ _ hp hstep => hstep.localParams.trans hp) rfl).2
  obtain ⟨c, hc, -⟩ := h.steps
  have htick := tick_at (Steps.timed hs) hc hts
  have hread : connRead data ts env e = readLoop ts data.length data env (e.tick ts) := by
    rw [connRead, run_bind, liftM, zoom, connUpdateTimestamp_run hts, if_neg hne]
    rfl
  rw [hread] at hrun
  rw [h.localParams]
  have hloop := readLoop_follows (p := data) (Steps.timed hs) hrx hlocal hsize data.length htick
  cases r with
  | error err => exact hloop.of_error hrun
  | ok u => exact hloop.of_ok hrun

/-- A call of `connRead` that fails nowhere leaves the parser where `scan` does. -/
theorem connRead_scan (h : Run env server settings params e) (hts : e.st.conn.lastTs ≤ ts)
    (hsize : params.maxDatagramFrameSize ≤ uint64Max) {data : List UInt8}
    (hrun : connRead data ts env e = (.ok (), e')) (hne : data ≠ []) :
    (scan e.st.conn.localParams data.length e.reader data).2 = .ok e'.reader :=
  (connRead_follows h hts hsize hrun hne).of_ok

end

end Dwnx
