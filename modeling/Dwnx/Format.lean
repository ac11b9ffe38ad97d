import Dwnx.Frd
import Dwnx.Refine.Read

/-!
# What a record spells

The parser reads a record as the bytes come, so that what it has the connection do
depends on where they are cut. A `Token` does not: the data of a frame is one token
for each byte, with its place in the frame, and so is padding. `RecordReader.rest` says
which tokens the rest of a frame is, wherever the parser stands in it, in terms of the
format (`getBody`), and `Spells` which tokens a record is.

Every pass of the parser takes tokens from the front of what is ahead of it
(`Parse.pass_reads`).
-/

namespace Dwnx

/-! ## Tokens -/

/-- The least that is read of a frame. -/
inductive Token
  /-- A frame, but for its data. -/
  | frame (fr : Frame)
  /-- A byte of a stream, of which `left` were to come in the frame. -/
  | byte (streamId : ℕ) (fin : Bool) (left : ℕ) (b : UInt8)
  | gram (dgramlen offset : ℕ) (fin : Bool) (b : UInt8)
  | noGram (dgramlen offset : ℕ) (fin : Bool)
  deriving DecidableEq

/-- A token for each byte of `data`; only the last one may say that it is. -/
def spread (f : ℕ → Bool → UInt8 → Token) (fin : Bool) : List UInt8 → List Token
  | [] => []
  | b :: bs => f 0 (fin && bs.isEmpty) b :: spread (fun i => f (i + 1)) fin bs

/-- The data of a stream, of which `left` bytes were to come. -/
def streamTokens (streamId left : ℕ) (fin : Bool) (data : List UInt8) : List Token :=
  spread (fun i fin b => .byte streamId fin (left - i) b) fin data

/-- The data of a datagram, from `offset` on. -/
def gramTokens (dgramlen offset : ℕ) (fin : Bool) (data : List UInt8) : List Token :=
  if data = [] then [.noGram dgramlen offset fin]
  else spread (fun i fin b => .gram dgramlen (offset + i) fin b) fin data

/-- The fields of a CONNECTION_CLOSE frame that are sent. -/
def FrameConnectionClose.sent (fr : FrameConnectionClose) : FrameConnectionClose :=
  if fr.type = FrameType.connectionCloseApp then { fr with frameType := 0 } else fr

/-- A frame without its data. -/
def Frame.head : Frame → List Token
  | .padding n => List.replicate n (.frame (.padding 1))
  | .stream fr => [.frame (.stream { fr with data := [] })]
  | .datagram fr => [.frame (.datagram { fr with data := [] })]
  | .connectionClose fr => [.frame (.connectionClose fr.sent)]
  | fr => [.frame fr]

/-- A frame. Of a DATAGRAM frame that has no length, only the data is read. -/
def Frame.tokens : Frame → List Token
  | .stream fr => (Frame.stream fr).head ++ streamTokens fr.streamId fr.len fr.fin fr.data.flatten
  | .datagram fr =>
    (if fr.type = FrameType.datagram then [] else (Frame.datagram fr).head) ++
      gramTokens fr.len 0 true fr.data.flatten
  | fr => fr.head

/-- What the connection takes in. -/
def Act.tokens : Act → List Token
  | .log fr | .frame fr => fr.head
  | .params data =>
    match transportParamsDecode data with
    | .ok tp => [.frame (.qxTransportParameters tp)]
    | .error _ => []
  | .piece streamId fin left data => streamTokens streamId left fin data
  | .datagram fin dgramlen offset data => gramTokens dgramlen offset fin data
  | .emptyDatagram fr => (Frame.datagram fr).head ++ gramTokens 0 0 true []
  | .nothing | .seen | .alloc => []

/-- Data may be spread in two pieces. -/
theorem spread_append (f : ℕ → Bool → UInt8 → Token) (fin : Bool) (as : List UInt8)
    {bs : List UInt8} (hbs : bs ≠ []) :
    spread f fin (as ++ bs) = spread f false as ++ spread (fun i => f (as.length + i)) fin bs := by
  induction as generalizing f with
  | nil => simp [spread]
  | cons a as ih =>
    have hempty : (as ++ bs).isEmpty = false := by simp [hbs]
    simp only [List.cons_append, spread, hempty, Bool.and_false, Bool.false_and, ih,
      List.length_cons]
    congr 3
    funext i
    congr 1
    omega

/-- The data of a STREAM frame may come in two pieces. -/
theorem streamTokens_append {streamId left : ℕ} {fin : Bool} {as bs : List UInt8} (hbs : bs ≠ []) :
    streamTokens streamId left fin (as ++ bs) =
      streamTokens streamId left false as ++
        streamTokens streamId (left - as.length) fin bs := by
  unfold streamTokens
  rw [spread_append _ _ _ hbs]
  congr 2
  funext i fin b
  rw [Nat.sub_add_eq]

/-- The data of a DATAGRAM frame may come in two pieces. -/
theorem gramTokens_append {dgramlen offset : ℕ} {fin : Bool} {as bs : List UInt8} (has : as ≠ [])
    (hbs : bs ≠ []) :
    gramTokens dgramlen offset fin (as ++ bs) =
      gramTokens dgramlen offset false as ++
        gramTokens dgramlen (offset + as.length) fin bs := by
  unfold gramTokens
  rw [if_neg (by simp [has]), if_neg has, if_neg hbs, spread_append _ _ _ hbs]
  congr 2
  funext i fin b
  rw [Nat.add_assoc]

/-! ## The rest of a frame -/

/-- What is left of a record. -/
inductive Left
  | more (q : List UInt8)
  /-- Nothing is read any more. -/
  | closed (q : List UInt8)

/-- Tokens, and what they leave of the record. -/
abbrev Ahead := Option (List Token × Left)

/-- The frame closes the connection. -/
def Frame.isClose : Frame → Bool
  | .connectionClose _ => true
  | _ => false

/-- A frame is read, and `x.2` is left. Nothing is read after a CONNECTION_CLOSE frame. -/
def Frame.ahead (x : Frame × List UInt8) : List Token × Left :=
  (x.1.tokens, bif x.1.isClose then .closed x.2 else .more x.2)

/-- The frame of which the type is read; padding is a frame for each byte. -/
def aheadOf (type : ℕ) (q : List UInt8) : Ahead :=
  if type = FrameType.padding then some ([.frame (.padding 1)], .more q)
  else (getBody type q).map Frame.ahead

/-- The next frame. -/
def nextAhead (q : List UInt8) : Ahead := (getUvarint q).bind fun vr => aheadOf vr.1 vr.2

/-- A frame of `k` varints. -/
def getFields (k : ℕ) (q : List UInt8) (fr : List ℕ → Frame) : Option (Frame × List UInt8) :=
  (getUvarints k q).map fun vp => (fr vp.1, vp.2)

/-- Transport parameters with their length before them. -/
def getParams (q : List UInt8) : Option (Frame × List UInt8) := do
  let (data, q) ← getBytes q
  let params ← (transportParamsDecode data).toOption
  return (.qxTransportParameters params, q)

namespace FrameStream

/-- The length and the data. -/
def getLength (fr : FrameStream) (q : List UInt8) : Option (Frame × List UInt8) :=
  (getBytes q).map fun dp =>
    (.stream { fr with len := dp.1.length, data := vecsOf dp.1 }, dp.2)

/-- The length, if there is one, and the data. -/
def getData (fr : FrameStream) (q : List UInt8) : Option (Frame × List UInt8) :=
  if fr.hasLength then fr.getLength q
  else some (.stream { fr with len := q.length, data := vecsOf q }, [])

/-- The offset of a STREAM frame and what follows it. -/
def getOffset (fr : FrameStream) (q : List UInt8) : Option (Frame × List UInt8) :=
  (getUvarint q).bind fun vr => { fr with offset := vr.1 }.getData vr.2

/-- The stream identifier of a STREAM frame and what follows it. -/
def getStreamId (fr : FrameStream) (q : List UInt8) : Option (Frame × List UInt8) :=
  (getUvarint q).bind fun vr =>
    if fr.hasOffset then { fr with streamId := vr.1 }.getOffset vr.2
    else { fr with streamId := vr.1, offset := 0 }.getData vr.2

end FrameStream

namespace FrameConnectionClose

/-- The reason of CONNECTION_CLOSE with its length before it. -/
def getReason (fr : FrameConnectionClose) (q : List UInt8) : Option (Frame × List UInt8) :=
  (getBytes q).map fun dp =>
    (.connectionClose { fr with reasonlen := dp.1.length, reason := dp.1 }, dp.2)

/-- The frame type of CONNECTION_CLOSE and what follows it. -/
def getFrameType (fr : FrameConnectionClose) (q : List UInt8) : Option (Frame × List UInt8) :=
  (getUvarint q).bind fun vr => { fr with frameType := vr.1 }.getReason vr.2

/-- The error code of CONNECTION_CLOSE and what follows it. -/
def getErrorCode (fr : FrameConnectionClose) (q : List UInt8) : Option (Frame × List UInt8) :=
  (getUvarint q).bind fun vr =>
    if fr.type = FrameType.connectionCloseApp then { fr with errorCode := vr.1 }.getReason vr.2
    else { fr with errorCode := vr.1 }.getFrameType vr.2

end FrameConnectionClose

namespace RecordReader

/-- The frame of which some fields are read. -/
def getRest (rcrd : RecordReader) (q : List UInt8) : Option (Frame × List UInt8) :=
  let fr := rcrd.fr
  match rcrd.state with
  | .qxTransportParametersLen => getParams q
  | .qxTransportParametersParams =>
    (transportParamsDecode (rcrd.buf.data ++ q.take rcrd.buf.left)).toOption.map fun params =>
      (.qxTransportParameters params, q.drop rcrd.buf.left)
  | .qxPingSeq => getFields 1 q fun vs => .qxPing ⟨fr.qxPing.type, vs.getD 0 0⟩
  | .streamStreamId => fr.stream.getStreamId q
  | .streamOffset => fr.stream.getOffset q
  | .streamLength => fr.stream.getLength q
  | .resetStreamStreamId =>
    getFields 3 q fun vs => .resetStream ⟨vs.getD 0 0, vs.getD 1 0, vs.getD 2 0⟩
  | .resetStreamAppErrorCode =>
    getFields 2 q fun vs => .resetStream ⟨fr.resetStream.streamId, vs.getD 0 0, vs.getD 1 0⟩
  | .resetStreamFinalSize => getFields 1 q fun vs =>
    .resetStream ⟨fr.resetStream.streamId, fr.resetStream.appErrorCode, vs.getD 0 0⟩
  | .stopSendingStreamId => getFields 2 q fun vs => .stopSending ⟨vs.getD 0 0, vs.getD 1 0⟩
  | .stopSendingAppErrorCode =>
    getFields 1 q fun vs => .stopSending ⟨fr.stopSending.streamId, vs.getD 0 0⟩
  | .maxDataMaxData => getFields 1 q fun vs => .maxData ⟨vs.getD 0 0⟩
  | .maxStreamDataStreamId => getFields 2 q fun vs => .maxStreamData ⟨vs.getD 0 0, vs.getD 1 0⟩
  | .maxStreamDataMaxStreamData =>
    getFields 1 q fun vs => .maxStreamData ⟨fr.maxStreamData.streamId, vs.getD 0 0⟩
  | .maxStreamsMaxStreams => getFields 1 q fun vs => .maxStreams ⟨fr.maxStreams.type, vs.getD 0 0⟩
  | .dataBlockedOffset => getFields 1 q fun vs => .dataBlocked ⟨vs.getD 0 0⟩
  | .streamDataBlockedStreamId =>
    getFields 2 q fun vs => .streamDataBlocked ⟨vs.getD 0 0, vs.getD 1 0⟩
  | .streamDataBlockedOffset =>
    getFields 1 q fun vs => .streamDataBlocked ⟨fr.streamDataBlocked.streamId, vs.getD 0 0⟩
  | .streamsBlockedMaxStreams =>
    getFields 1 q fun vs => .streamsBlocked ⟨fr.streamsBlocked.type, vs.getD 0 0⟩
  | .connectionCloseErrorCode => fr.connectionClose.getErrorCode q
  | .connectionCloseFrameType => fr.connectionClose.getFrameType q
  | .connectionCloseReasonlen => fr.connectionClose.getReason q
  | .connectionCloseReason => some (.connectionClose
    { fr.connectionClose with reason := rcrd.buf.data ++ q.take rcrd.buf.left },
      q.drop rcrd.buf.left)
  | .datagramLen => (getBytes q).map fun dp =>
    (.datagram { fr.datagram with len := dp.1.length, data := vecsOf dp.1 }, dp.2)
  | _ => none

/-- What is ahead in the record, of which `q` is left and the varint that is partly
    read. -/
def rest (rcrd : RecordReader) (q : List UInt8) : Ahead :=
  let left := rcrd.fieldLeft
  match rcrd.state with
  | .frameType => nextAhead q
  | .streamData => some (streamTokens rcrd.fr.stream.streamId left rcrd.fr.stream.fin (q.take left),
    .more (q.drop left))
  | .datagramData => some (gramTokens rcrd.fr.datagram.len (sub64 rcrd.fr.datagram.len left) true
    (q.take left), .more (q.drop left))
  | _ => (rcrd.getRest q).map Frame.ahead

end RecordReader

/-! ## Records -/

/-- How the parser comes to the end of a record. -/
inductive End
  | ended
  /-- By a CONNECTION_CLOSE frame, with `q` left. -/
  | closed (q : List UInt8)
  | failed

/-- What the parser then returns, and not before: `t` is not needed for it. -/
def End.Returns (t : List UInt8) : End → Err → Prop
  | .ended, _ => False
  | .closed q, err => err = .draining ∧ t <:+ q
  | .failed, err => err = .frameEncoding ∨ err = .malformedTransportParam

/-- An end that returns for the bytes returns for those after them. -/
theorem End.Returns.mono {t t' : List UInt8} {e : End} {err : Err} (h : e.Returns t err)
    (ht : t' <:+ t) : e.Returns t' err := by
  cases e with
  | ended => exact h
  | closed q => exact ⟨h.1, ht.trans h.2⟩
  | failed => exact h

/-- The tokens of the rest of a record. -/
inductive Spells : Ahead → List Token → End → Prop
  | failed : Spells none [] .failed
  | closed (ts : List Token) (r : List UInt8) : Spells (some (ts, .closed r)) ts (.closed r)
  | ended (ts : List Token) : Spells (some (ts, .more [])) ts .ended
  | frame {ts ts' : List Token} {q : List UInt8} {e : End} (hne : q ≠ [])
    (h : Spells (nextAhead q) ts' e) : Spells (some (ts, .more q)) (ts ++ ts') e

/-- Tokens that come before. -/
theorem Spells.of_append {ts₁ ts₂ ts : List Token} {r : Left} {e : End}
    (h : Spells (some (ts₁ ++ ts₂, r)) ts e) :
    ∃ ts', ts = ts₁ ++ ts' ∧ Spells (some (ts₂, r)) ts' e := by
  cases h with
  | closed => exact ⟨ts₂, rfl, .closed ..⟩
  | ended => exact ⟨ts₂, rfl, .ended _⟩
  | frame hne h => exact ⟨_, List.append_assoc .., .frame hne h⟩

/-- Tokens that come before are spelled, too. -/
theorem Spells.append {ts₁ ts₂ ts : List Token} {r : Left} {e : End}
    (h : Spells (some (ts₂, r)) ts e) : Spells (some (ts₁ ++ ts₂, r)) (ts₁ ++ ts) e := by
  cases h with
  | closed => exact .closed ..
  | ended => exact .ended _
  | frame hne h =>
    rw [← List.append_assoc]
    exact .frame hne h

/-- A padding byte is a frame, or part of one. -/
theorem nextAhead_zero (q : List UInt8) :
    nextAhead (0 :: q) = some ([.frame (.padding 1)], .more q) := by
  unfold nextAhead
  rw [getUvarint_byte (by decide)]
  rfl

/-- A run of padding is a frame for each byte. -/
theorem Spells.zeros {n : ℕ} {q : List UInt8} {ts₁ ts : List Token} {e : End}
    (h : Spells (some (ts₁, .more (List.replicate n 0 ++ q))) ts e) :
    Spells (some (ts₁ ++ List.replicate n (.frame (.padding 1)), .more q)) ts e := by
  induction n generalizing ts₁ ts with
  | zero => simpa using h
  | succ n ih =>
    rw [List.replicate_succ, List.cons_append] at h
    cases h with
    | frame hne h =>
      rw [nextAhead_zero] at h
      exact (ih h).append

/-- Padding is one frame, however many bytes it has. -/
theorem Spells.of_zeros {n : ℕ} {q : List UInt8} {ts₁ ts : List Token} {e : End}
    (h : Spells (some (ts₁ ++ List.replicate n (.frame (.padding 1)), .more q)) ts e) :
    Spells (some (ts₁, .more (List.replicate n 0 ++ q))) ts e := by
  induction n generalizing ts₁ ts with
  | zero => simpa using h
  | succ n ih =>
    obtain ⟨ts', rfl, h'⟩ := h.of_append
    rw [List.replicate_succ, ← List.singleton_append] at h'
    refine .frame (by simp) ?_
    rw [List.replicate_succ, List.cons_append, nextAhead_zero]
    exact ih h'

/-- The frames that are sent in parts know what they are. -/
structure RecordReader.Inside (rcrd : RecordReader) : Prop where
  state : rcrd.state ≠ .recordSize ∧ rcrd.state.isOver = false
  datagramLen : rcrd.state = .datagramLen → rcrd.fr.datagram.type = FrameType.datagramLen
  datagramData : rcrd.state = .datagramData →
    rcrd.fieldLeft ≤ rcrd.fr.datagram.len ∧ rcrd.fr.datagram.len ≤ maxVarint

/-- The parser is to read `q`, which spells `ts`. -/
inductive Reader.Ahead (reader : Reader) : List UInt8 → List Token → End → Prop
  | start (hs : reader.rcrd.state = .recordSize) (hv : reader.vird = .reset) :
    Ahead reader [] [] .ended
  | mid {b q : List UInt8} {ts : List Token} {e : End} (hv : reader.vird = virdOf b)
    (hb : getUvarint b = none) (hleft : reader.rcrd.recordLeft = q.length) (hne : q ≠ [])
    (hin : reader.rcrd.Inside) (h : Spells (reader.rcrd.rest (b ++ q)) ts e) : Ahead reader q ts e

/-- Transport parameters must decode. -/
def Act.check : Act → Except Err Unit
  | .params data => do
    let _ ← transportParamsDecode data
    return ()
  | _ => .ok ()

/-- What a pass comes to if the connection accepts what is read. -/
def Parsed.outcome (x : Parsed) : Except Err Rest := do
  x.act.check
  x.result

/-- A pass takes tokens from the front of `y`, when `t` follows the chunk. -/
def Parsed.Reads (x : Parsed) (t : List UInt8) (y : Ahead) : Prop :=
  ∀ ts e, Spells y ts e →
    match x.outcome with
    | .error err => ts = x.act.tokens ∧ e.Returns t err
    | .ok r => ∃ ts', ts = x.act.tokens ++ ts' ∧ x.next.Ahead (r.getD [] ++ t) ts' e

namespace Parse

/-- The reader after a varint, with `q` left in the record. -/
structure At (reader : Reader) (q : List UInt8) : Prop where
  vird : reader.vird = .reset
  left : reader.rcrd.recordLeft = q.length

variable {reader : Reader} {p t : List UInt8} {y : Ahead}

/-- A refusal, where there is no frame to be read. -/
theorem reads_fail (hy : y = none) : (fail reader .frameEncoding).Reads t y := by
  subst hy
  rintro ts e ⟨⟩
  exact ⟨rfl, .inl rfl⟩

/-- Either branch is taken. -/
theorem reads_ite {c : Prop} [Decidable c] {x x' : Parsed} {u v : Option (Frame × List UInt8)}
    (hx : c → x.Reads t (u.map Frame.ahead)) (hx' : ¬c → x'.Reads t (v.map Frame.ahead)) :
    (if c then x else x').Reads t ((if c then u else v).map Frame.ahead) := by
  split
  · next h => exact hx h
  · next h => exact hx' h

/-- A field that begins with a varint. -/
def isField : ReadState → Bool
  | .recordSize | .frameType | .draining | .closing => false
  | state => !state.isBytes

/-- A field that has not begun is not complete. -/
theorem rest_nil {rcrd : RecordReader} (h : isField rcrd.state = true) : rcrd.rest [] = none := by
  unfold RecordReader.rest RecordReader.getRest
  cases hs : rcrd.state <;> rw [hs] at h <;> first
    | rfl
    | cases h

/-- A field is within a record. -/
theorem inside_of_isField {rcrd : RecordReader} (h : isField rcrd.state = true)
    (hgram : rcrd.state = .datagramLen → rcrd.fr.datagram.type = FrameType.datagramLen) :
    rcrd.Inside where
  state := by cases hs : rcrd.state <;> rw [hs] at h <;> first
    | (cases h; done)
    | exact ⟨nofun, rfl⟩
  datagramLen := hgram
  datagramData hs := by rw [hs] at h; cases h

/-- The parser goes on to another field, with nothing taken in but `act`. -/
theorem reads_goto {act : Act} {state : ReadState} (h : At reader (p ++ t)) (hne : p ++ t ≠ [])
    (hact : act.check = .ok () ∧ act.tokens = [])
    (hin : RecordReader.Inside { reader.rcrd with state := state })
    (hy : y = RecordReader.rest { reader.rcrd with state := state } (p ++ t)) :
    (goto reader act state p).Reads t y := by
  intro ts e hs
  subst hy
  simp only [goto, Parsed.outcome, hact.1, hact.2]
  exact ⟨ts, rfl, .mid (b := []) h.vird rfl h.left hne hin hs⟩

/-- Another field must follow. -/
theorem reads_more {r : Reader} {state : ReadState} {n : ℕ} (h : At reader (p ++ t))
    (hn : n = reader.rcrd.recordLeft) (hs : isField state = true)
    (hgram : state = .datagramLen → reader.rcrd.fr.datagram.type = FrameType.datagramLen)
    (hy : y = RecordReader.rest { reader.rcrd with state := state } (p ++ t)) :
    (if n = 0 then fail r .frameEncoding else goto reader .nothing state p).Reads t y := by
  rw [hn]
  split
  · next h0 =>
    have hnil : p ++ t = [] := List.length_eq_zero_iff.1 (h.left.symm.trans h0)
    exact reads_fail (by rw [hy, hnil, rest_nil hs])
  · next h0 =>
    have hne : p ++ t ≠ [] := fun hnil => h0 (by rw [h.left, hnil]; rfl)
    exact reads_goto h hne ⟨rfl, rfl⟩ (inside_of_isField hs hgram) hy

/-- Another field follows in the record. -/
theorem reads_goOn {state : ReadState} (h : At reader (p ++ t)) (hs : isField state = true)
    (hgram : state = .datagramLen → reader.rcrd.fr.datagram.type = FrameType.datagramLen)
    (hy : y = RecordReader.rest { reader.rcrd with state := state } (p ++ t)) :
    (goOn reader state p).Reads t y := reads_more h rfl hs hgram hy

/-- A field follows the frame type. -/
theorem reads_typed {fr : FrameUnion} {state : ReadState} (h : At reader (p ++ t))
    (hs : isField state = true)
    (hgram : state = .datagramLen → fr.datagram.type = FrameType.datagramLen)
    (hy : y = RecordReader.rest { reader.rcrd with fr := fr, state := state } (p ++ t)) :
    (typed reader fr state p).Reads t y := by
  have h' : At { reader with rcrd.fr := fr } (p ++ t) := ⟨h.vird, h.left⟩
  exact reads_more h' rfl hs hgram hy

/-- A frame is complete. -/
theorem reads_reset {r : Reader} {a : Act} (h : At reader (p ++ t)) (hact : a.check = .ok ())
    (hy : y = some (a.tokens, .more (p ++ t))) :
    Parsed.Reads ⟨r, a, { reader with rcrd := reader.rcrd.reset }, true, .ok (some p)⟩ t y := by
  intro ts e hs
  simp only [Parsed.outcome, hact]
  rw [hy] at hs
  have hleft := h.left
  generalize hq : p ++ t = q at hs hleft
  cases hs with
  | ended =>
    have hreset : reader.rcrd.reset.state = .recordSize := by
      unfold RecordReader.reset
      rw [if_neg (by rw [hleft]; simp)]
    refine ⟨[], (List.append_nil _).symm, ?_⟩
    rw [show (some p).getD [] ++ t = [] from hq]
    exact .start hreset h.vird
  | frame hne hs =>
    have hreset : reader.rcrd.reset = reader.rcrd.nextFrame :=
      if_pos (by rw [hleft]; exact (List.length_pos_of_ne_nil hne).ne')
    refine ⟨_, rfl, ?_⟩
    rw [show (some p).getD [] ++ t = q from hq, hreset]
    exact .mid (b := []) h.vird rfl hleft hne ⟨⟨nofun, rfl⟩, nofun, nofun⟩ hs

/-- Transport parameters are read, if they can be decoded. -/
theorem reads_params {r : Reader} {data : List UInt8} (h : At reader (p ++ t))
    (hy : y = (transportParamsDecode data).toOption.map fun params =>
      ([.frame (.qxTransportParameters params)], .more (p ++ t))) :
    Parsed.Reads ⟨r, .params data, { reader with rcrd := reader.rcrd.reset }, true, .ok (some p)⟩
      t y := by
  cases hd : transportParamsDecode data with
  | error err =>
    rw [hd] at hy
    subst hy
    rintro ts e ⟨⟩
    simp only [Parsed.outcome, Act.check, Act.tokens, hd]
    exact ⟨trivial, .inr (transportParamsDecode_err hd)⟩
  | ok params =>
    refine reads_reset h (by rw [Act.check, hd]; rfl) ?_
    rw [hy, hd]
    simp only [Act.tokens, hd]
    rfl

/-- A varint is read, wherever the bytes of it are cut. -/
theorem reads_field {bs : List UInt8} {k : ℕ → ℕ → Reader → List UInt8 → Parsed}
    {f : ℕ × List UInt8 → Ahead} (hv : reader.vird = virdOf bs) (hbs : getUvarint bs = none)
    (hleft : reader.rcrd.recordLeft = (p ++ t).length) (hp : p ≠ []) (hin : reader.rcrd.Inside)
    (hy : ∀ q, reader.rcrd.rest q = (getUvarint q).bind f)
    (hk : ∀ v vlen q, vlen ≤ 8 → q.length ≤ p.length →
      (k v vlen ⟨.reset, { reader.rcrd with recordLeft := (q ++ t).length }⟩ q).Reads t
        (f (v, q ++ t))) :
    (field reader p k).Reads t (reader.rcrd.rest (bs ++ (p ++ t))) := by
  have hav : reader.rcrd.avail p.length = p.length := by
    unfold RecordReader.avail
    rw [hleft, List.length_append]
    exact Nat.min_eq_left (Nat.le_add_right ..)
  unfold field
  dsimp only
  rw [hav, List.take_length, hv, varintReaderRead_virdOf _ hbs hp, hy, ← List.append_assoc]
  cases hget : getUvarint (bs ++ p) with
  | none =>
    have hnot := virdOf_done hget (List.append_ne_nil_of_right_ne_nil bs hp)
    cases hfin : reader.rcrd.recordLeft == p.length with
    | true =>
      -- the record ends here
      have ht : t = [] := by
        rw [hleft, List.length_append, beq_iff_eq] at hfin
        exact List.length_eq_zero_iff.1 (by omega)
      exact reads_fail (by rw [ht, List.append_nil, hget]; rfl)
    | false =>
      dsimp only
      rw [if_neg Bool.false_ne_true]
      dsimp only
      rw [if_neg (by rw [hnot]; simp)]
      have ht : t ≠ [] := by
        rintro rfl
        rw [hleft, List.append_nil] at hfin
        exact beq_eq_false_iff_ne.1 hfin rfl
      rintro ts e hs
      refine ⟨ts, rfl, .mid rfl hget ?_ ht ⟨hin.state, hin.datagramLen, hin.datagramData⟩ ?_⟩
      · change reader.rcrd.recordLeft - p.length = _
        rw [hleft, List.length_append, Nat.add_sub_cancel_left]
        rfl
      · change Spells (reader.rcrd.rest (bs ++ p ++ t)) ts e
        rw [hy]
        exact hs
  | some vr =>
    obtain ⟨v, r⟩ := vr
    obtain ⟨n, hn, hle, rfl⟩ := getUvarint_append_suffix hbs hget
    have hnread : p.length - (p.drop n).length = n := by
      rw [List.length_drop]
      omega
    have hrest : reader.rcrd.recordLeft - n = (p.drop n ++ t).length := by
      rw [hleft, List.length_append, List.length_append, List.length_drop]
      omega
    simp only [VarintReader.done, beq_self_eq_true, if_true, hnread, hrest]
    rw [getUvarint_append hget]
    refine hk v _ (p.drop n) ?_ (by rw [List.length_drop]; exact Nat.sub_le ..)
    obtain ⟨b, r, hbp⟩ := List.exists_cons_of_ne_nil (List.append_ne_nil_of_right_ne_nil bs hp)
    rw [hbp] at hget ⊢
    rw [(uvarintLen_le_of_get hget).2]
    exact getUvarintlen_le b

/-- The first of the varints is read. -/
theorem getFields_succ (k : ℕ) (q : List UInt8) (fr : List ℕ → Frame) :
    getFields (k + 1) q fr =
      (getUvarint q).bind fun vr => getFields k vr.2 fun vs => fr (vr.1 :: vs) := by
  simp only [getFields, getUvarints, Option.bind_eq_bind, Option.map_bind]
  congr 1
  funext vr
  cases h : getUvarints k vr.2 <;> simp [h]

/-- What is ahead at a field that is only stored. -/
def Plain.ahead (rcrd : RecordReader) (v : ℕ) (q : List UInt8) : Plain → Ahead
  | .field store state => RecordReader.rest { rcrd with fr := store v rcrd.fr, state := state } q
  | .last store frame => some ((frame (store v rcrd.fr)).head, .more q)

/-- What is left of a frame whose fields are only stored. -/
theorem rest_plain {rcrd : RecordReader} {x : Plain} (h : plain rcrd.state = some x)
    (q : List UInt8) :
    rcrd.rest q = (getUvarint q).bind fun vr => x.ahead rcrd vr.1 vr.2 := by
  unfold RecordReader.rest RecordReader.getRest
  cases hs : rcrd.state <;> rw [hs] at h <;> cases h
  case connectionCloseFrameType => exact Option.map_bind ..
  all_goals
    dsimp only
    rw [getFields_succ, Option.map_bind]
    rfl

/-- How much is left of the record makes no difference to what is ahead. -/
theorem Plain.ahead_left {rcrd : RecordReader} {v : ℕ} {q : List UInt8} (x : Plain) (n : ℕ) :
    x.ahead { rcrd with recordLeft := n } v q = x.ahead rcrd v q := by
  cases x <;> rfl

/-- A field that is only stored. -/
theorem reads_plain {x : Plain} {v : ℕ} {state : ReadState} (h : At reader (p ++ t))
    (hx : plain state = some x) :
    (x.parse v reader p).Reads t (x.ahead reader.rcrd v (p ++ t)) := by
  cases x with
  | field store state' =>
    refine reads_goOn ⟨h.vird, h.left⟩ ?_ ?_ rfl
    · cases state <;> cases hx <;> rfl
    · rintro rfl
      cases state <;> cases hx
  | last store frame => exact reads_reset ⟨h.vird, h.left⟩ rfl rfl

/-! ### STREAM frames -/

/-- The header of a STREAM frame is read, with `n` bytes of data. -/
theorem reads_streamHeader {n : ℕ} {fr : FrameStream} (h : At reader (p ++ t))
    (hfr : reader.rcrd.fr.stream = fr) (hn : n ≤ (p ++ t).length)
    (hy : y = some (Frame.ahead (.stream { fr with
      len := n, data := vecsOf ((p ++ t).take n) }, (p ++ t).drop n))) :
    (streamHeader reader n p).Reads t y := by
  subst hfr
  have hahead : y = some ((Frame.stream { reader.rcrd.fr.stream with len := n }).head ++
      streamTokens reader.rcrd.fr.stream.streamId n reader.rcrd.fr.stream.fin ((p ++ t).take n),
      Left.more ((p ++ t).drop n)) := by
    rw [hy, Frame.ahead, Frame.tokens, flatten_vecsOf]
    rfl
  unfold streamHeader
  dsimp only
  split
  · next h0 =>
    refine reads_reset ⟨h.vird, h.left⟩ rfl ?_
    rw [hahead, h0]
    simp [streamTokens, spread, Act.tokens]
  · next h0 =>
    have hne : p ++ t ≠ [] := List.ne_nil_of_length_pos (by omega)
    intro ts e hs
    rw [hahead] at hs
    obtain ⟨ts', hts, hs'⟩ := hs.of_append
    exact ⟨ts', hts, .mid (b := []) h.vird rfl h.left hne ⟨⟨nofun, rfl⟩, nofun, nofun⟩ hs'⟩

/-- The length of a STREAM frame. -/
theorem reads_streamLength {n : ℕ} {fr : FrameStream} (h : At reader (p ++ t))
    (hfr : reader.rcrd.fr.stream = fr) :
    (streamLength n reader p).Reads t
      ((if (p ++ t).length < n then none else some (Frame.stream { fr with
        len := ((p ++ t).take n).length, data := vecsOf ((p ++ t).take n) }, (p ++ t).drop n)).map
          Frame.ahead) := by
  unfold streamLength
  rw [h.left]
  refine reads_ite (fun _ => reads_fail rfl) fun hn => ?_
  have hlen : ((p ++ t).take n).length = n := List.length_take_of_le (Nat.le_of_not_lt hn)
  refine reads_streamHeader h hfr (Nat.le_of_not_lt hn) ?_
  rw [hlen]
  rfl

/-- A STREAM frame without a length runs to the end of the record. -/
theorem reads_getData {fr : FrameStream} (h : At reader (p ++ t))
    (hfr : reader.rcrd.fr.stream = fr) (hlen : fr.hasLength = false) :
    (streamHeader reader reader.rcrd.recordLeft p).Reads t
      ((fr.getData (p ++ t)).map Frame.ahead) := by
  refine reads_streamHeader h hfr h.left.le ?_
  rw [FrameStream.getData, if_neg (by rw [hlen]; simp), h.left, List.take_length, List.drop_length]
  rfl

/-- The offset of a STREAM frame. -/
theorem reads_streamOffset {v : ℕ} {fr : FrameStream} (h : At reader (p ++ t))
    (hfr : reader.rcrd.fr.stream = fr) :
    (streamOffset v reader p).Reads t
      (({ fr with offset := v }.getData (p ++ t)).map Frame.ahead) := by
  subst hfr
  unfold streamOffset
  dsimp only
  split
  · next hlen =>
    refine reads_goOn ⟨h.vird, h.left⟩ rfl nofun ?_
    rw [FrameStream.getData, if_pos hlen]
    rfl
  · next hlen => exact reads_getData ⟨h.vird, h.left⟩ rfl (Bool.eq_false_iff.2 hlen)

/-- The stream identifier of a STREAM frame. -/
theorem reads_streamStreamId {v : ℕ} {fr : FrameStream} (h : At reader (p ++ t))
    (hfr : reader.rcrd.fr.stream = fr) :
    (streamStreamId v reader p).Reads t
      ((if fr.hasOffset then { fr with streamId := v }.getOffset (p ++ t)
        else { fr with streamId := v, offset := 0 }.getData (p ++ t)).map Frame.ahead) := by
  subst hfr
  unfold streamStreamId
  dsimp only
  refine reads_ite (fun _ => reads_goOn ⟨h.vird, h.left⟩ rfl nofun rfl) fun _ => ?_
  split
  · next hlen =>
    have h' : At { reader with
        rcrd.fr.stream.streamId := v
        rcrd.fr.connectionClose.frameType := v
        rcrd.fr.stream.offset := 0 } (p ++ t) := ⟨h.vird, h.left⟩
    refine reads_more h' rfl rfl nofun ?_
    rw [FrameStream.getData, if_pos (by exact hlen)]
    rfl
  · next hlen => exact reads_getData ⟨h.vird, h.left⟩ rfl (Bool.eq_false_iff.2 hlen)

/-! ### Frames that end with a field of bytes -/

/-- Some bytes of a field are in the chunk, of which `left` were to come. -/
theorem reads_bytes {act : ℕ → Act} {left : ℕ} (h : At reader (p ++ t))
    (hfield : reader.rcrd.fieldLeft = left) (hin : reader.rcrd.Inside)
    (hle : left ≤ (p ++ t).length) (hact : ∀ n, (act n).check = .ok ())
    (hdone : left ≤ p.length → y = some ((act left).tokens, Left.more ((p ++ t).drop left)))
    (hmore : p.length < left → t ≠ [] → ∃ ts r, y = some ((act p.length).tokens ++ ts, r) ∧
      (advance reader p.length).rcrd.rest t = some (ts, r)) :
    (bytes reader p act).Reads t y := by
  subst hfield
  have hlen : reader.rcrd.fieldAvail p.length = min reader.rcrd.fieldLeft p.length := by
    unfold RecordReader.fieldAvail RecordReader.avail
    rw [h.left, List.length_append, Nat.min_eq_left (Nat.le_add_right p.length t.length)]
  unfold bytes
  dsimp only
  rw [hlen]
  -- The field ends in the chunk.
  rcases le_or_gt reader.rcrd.fieldLeft p.length with hall | hpart
  · rw [Nat.min_eq_left hall, if_pos rfl]
    have hat : At (advance reader reader.rcrd.fieldLeft)
        (p.drop reader.rcrd.fieldLeft ++ t) := by
      refine ⟨h.vird, ?_⟩
      change reader.rcrd.recordLeft - reader.rcrd.fieldLeft = _
      rw [h.left, List.length_append, List.length_append, List.length_drop]
      omega
    refine reads_reset hat (hact _) ?_
    rw [hdone hall, List.drop_append_of_le_length hall]
  -- The chunk ends in the field, and what is left of it comes first in what follows.
  · rw [Nat.min_eq_right hpart.le, if_neg hpart.ne']
    have ht : t ≠ [] := by
      rintro rfl
      rw [List.append_nil] at hle
      omega
    obtain ⟨ts₂, r, hy, hrest⟩ := hmore hpart ht
    intro ts e hs
    rw [hy] at hs
    obtain ⟨ts', hts, hs'⟩ := hs.of_append
    rw [← hrest] at hs'
    simp only [Parsed.outcome, hact]
    refine ⟨ts', hts, .mid (b := []) h.vird rfl ?_ ht ⟨hin.state, hin.datagramLen, fun hd => ?_⟩
      hs'⟩
    · change reader.rcrd.recordLeft - p.length = _
      rw [h.left, List.length_append, Nat.add_sub_cancel_left]
      rfl
    · have hgram := hin.datagramData hd
      exact ⟨(Nat.sub_le ..).trans hgram.1, hgram.2⟩

/-- Bytes that go beyond the chunk. -/
theorem take_append_of_lt {n : ℕ} (h : p.length < n) (t : List UInt8) :
    (p ++ t).take n = p ++ t.take (n - p.length) := by
  rw [List.take_append, List.take_of_length_le h.le]

/-- What is left after bytes that go beyond the chunk. -/
theorem drop_append_of_lt {n : ℕ} (h : p.length < n) (t : List UInt8) :
    (p ++ t).drop n = t.drop (n - p.length) := by
  rw [List.drop_append, List.drop_eq_nil_of_le h.le, List.nil_append]

/-- There are bytes to be taken. -/
theorem take_ne_nil {n : ℕ} (hn : n ≠ 0) (ht : t ≠ []) : t.take n ≠ [] := by
  rw [Ne, List.take_eq_nil_iff]
  exact not_or.2 ⟨hn, ht⟩

/-- The data of a STREAM frame, as far as it is there. -/
theorem reads_streamData (h : At reader (p ++ t)) (hs : reader.rcrd.state = .streamData)
    (hle : reader.rcrd.fieldLeft ≤ (p ++ t).length) :
    (streamData reader p).Reads t (reader.rcrd.rest (p ++ t)) := by
  have hrest (rcrd : RecordReader) (hs : rcrd.state = .streamData) (q : List UInt8) :
      rcrd.rest q = some (streamTokens rcrd.fr.stream.streamId rcrd.fieldLeft rcrd.fr.stream.fin
        (q.take rcrd.fieldLeft), Left.more (q.drop rcrd.fieldLeft)) := by
    unfold RecordReader.rest
    rw [hs]
  have hin : reader.rcrd.Inside :=
    ⟨by rw [hs]; exact ⟨nofun, rfl⟩, by rw [hs]; nofun, by rw [hs]; nofun⟩
  refine reads_bytes h rfl hin hle (fun _ => rfl) (fun hall => ?_) fun hpart ht => ?_
  · rw [hrest _ hs, List.take_append_of_le_length hall, Act.tokens, beq_self_eq_true, Bool.and_true]
  · have hfin : (reader.rcrd.fieldLeft == p.length) = false := beq_false_of_ne hpart.ne'
    refine ⟨_, _, ?_, hrest (advance reader p.length).rcrd hs t⟩
    rw [hrest _ hs, take_append_of_lt hpart, drop_append_of_lt hpart,
      streamTokens_append (take_ne_nil (by omega) ht), Act.tokens, hfin, Bool.and_false,
      List.take_length]
    rfl

/-- The data of a DATAGRAM frame, as far as it is there. -/
theorem reads_datagramData (h : At reader (p ++ t)) (hp : p ≠ [])
    (hs : reader.rcrd.state = .datagramData) (hin : reader.rcrd.Inside)
    (hle : reader.rcrd.fieldLeft ≤ (p ++ t).length) :
    (datagramData reader p).Reads t (reader.rcrd.rest (p ++ t)) := by
  have hrest (rcrd : RecordReader) (hs : rcrd.state = .datagramData) (q : List UInt8) :
      rcrd.rest q = some (gramTokens rcrd.fr.datagram.len
        (sub64 rcrd.fr.datagram.len rcrd.fieldLeft) true (q.take rcrd.fieldLeft),
          Left.more (q.drop rcrd.fieldLeft)) := by
    unfold RecordReader.rest
    rw [hs]
  refine reads_bytes h rfl hin hle (fun _ => rfl) (fun hall => ?_) fun hpart ht => ?_
  · rw [hrest _ hs, List.take_append_of_le_length hall, Act.tokens, beq_self_eq_true]
  · have hfin : (reader.rcrd.fieldLeft == p.length) = false := beq_false_of_ne hpart.ne'
    obtain ⟨hlen, hmax⟩ := hin.datagramData hs
    have hsub : sub64 reader.rcrd.fr.datagram.len (reader.rcrd.fieldLeft - p.length) =
        sub64 reader.rcrd.fr.datagram.len reader.rcrd.fieldLeft + p.length := by
      unfold maxVarint at hmax
      unfold sub64
      omega
    refine ⟨_, _, ?_, hrest (advance reader p.length).rcrd hs t⟩
    rw [hrest _ hs, take_append_of_lt hpart, drop_append_of_lt hpart,
      gramTokens_append hp (take_ne_nil (by omega) ht), Act.tokens, hfin, List.take_length, ← hsub]
    rfl

/-- A length, and what `f` makes of as many bytes. -/
theorem getBytes_map {f : List UInt8 → Frame} {q : List UInt8} :
    ((getBytes q).map fun dp => (f dp.1, dp.2)) = (getUvarint q).bind fun vr =>
      if vr.2.length < vr.1 then none else some (f (vr.2.take vr.1), vr.2.drop vr.1) := by
  simp only [getBytes, Option.bind_eq_bind, Option.map_bind]
  congr 1
  funext vr
  simp only [Function.comp_apply]
  split <;> rfl

/-- The length of a DATAGRAM frame. -/
theorem reads_datagramLen {params : TransportParams} {n vlen : ℕ} (h : At reader (p ++ t))
    (hmax : (p ++ t).length ≤ maxVarint)
    (htype : reader.rcrd.fr.datagram.type = FrameType.datagramLen) :
    (datagramLen { params with maxDatagramFrameSize := uint64Max } n vlen reader p).Reads t
      ((if (p ++ t).length < n then none else some (Frame.datagram { reader.rcrd.fr.datagram with
        len := ((p ++ t).take n).length, data := vecsOf ((p ++ t).take n) }, (p ++ t).drop n)).map
          Frame.ahead) := by
  have hsize : ¬add64 (reader.rcrd.typelen + vlen) n > uint64Max := by
    unfold add64 uint64Max
    omega
  unfold datagramLen
  dsimp only
  rw [if_neg hsize, h.left]
  refine reads_ite (fun _ => reads_fail rfl) fun hn => ?_
  have hn := Nat.le_of_not_lt hn
  have hlen : ((p ++ t).take n).length = n := List.length_take_of_le hn
  have hahead : some (Frame.ahead (Frame.datagram { reader.rcrd.fr.datagram with
      len := ((p ++ t).take n).length, data := vecsOf ((p ++ t).take n) }, (p ++ t).drop n)) =
      some ((Frame.datagram { reader.rcrd.fr.datagram with len := n }).head ++
        gramTokens n 0 true ((p ++ t).take n), Left.more ((p ++ t).drop n)) := by
    rw [Frame.ahead, Frame.tokens, flatten_vecsOf, hlen]
    simp only [htype]
    rfl
  rw [Option.map_some, hahead]
  -- An empty datagram is complete at once.
  split
  · next h0 =>
    refine reads_reset ⟨h.vird, rfl⟩ rfl ?_
    simp [h0, Act.tokens]
  · next h0 =>
    have hne : p ++ t ≠ [] := List.ne_nil_of_length_pos (by omega)
    have hsub : sub64 n n = 0 := by
      unfold maxVarint at hmax
      unfold sub64
      omega
    intro ts e hs
    obtain ⟨ts', hts, hs'⟩ := hs.of_append
    refine ⟨ts', hts, .mid (b := []) h.vird rfl rfl hne
      ⟨⟨nofun, rfl⟩, nofun, fun _ => ⟨le_rfl, hn.trans hmax⟩⟩ ?_⟩
    change Spells (some (gramTokens n (sub64 n n) true ((p ++ t).take n),
      Left.more ((p ++ t).drop n))) ts' e
    rwa [hsub]

/-! ### Buffered fields -/

/-- A field is buffered. -/
theorem reads_buffer {n : ℕ} {state : ReadState} (h : At reader (p ++ t)) (h0 : n ≠ 0)
    (hn : n ≤ (p ++ t).length) (hs : isField state = false ∧ state.isOver = false)
    (hs' : state ≠ .recordSize ∧ state ≠ .datagramData)
    (hy : y = RecordReader.rest { reader.rcrd with buf := ⟨[], n⟩, state := state } (p ++ t)) :
    (buffer reader n state p).Reads t y := by
  intro ts e h'
  rw [hy] at h'
  have hne : p ++ t ≠ [] := List.ne_nil_of_length_pos (by omega)
  refine ⟨ts, rfl, .mid (b := []) h.vird rfl h.left hne
    ⟨⟨hs'.1, hs.2⟩, ?_, fun hd => absurd hd hs'.2⟩ h'⟩
  rintro rfl
  cases hs.1

/-- The length of the transport parameters. -/
theorem reads_transportParametersLen {n : ℕ} (h : At reader (p ++ t)) :
    (transportParametersLen n reader p).Reads t
      ((if (p ++ t).length < n then none else (transportParamsDecode ((p ++ t).take n)).toOption.map
        fun params => (Frame.qxTransportParameters params, (p ++ t).drop n)).map Frame.ahead) := by
  have hahead (data q : List UInt8) : (((transportParamsDecode data).toOption.map
      fun params => (Frame.qxTransportParameters params, q)).map Frame.ahead) =
      (transportParamsDecode data).toOption.map fun params =>
        ([.frame (.qxTransportParameters params)], .more q) := by
    rw [Option.map_map]
    rfl
  unfold transportParametersLen
  rw [h.left]
  refine reads_ite (fun _ => reads_fail rfl) fun hn => ?_
  have hn := Nat.le_of_not_lt hn
  split
  · next h0 =>
    refine reads_params ⟨h.vird, h.left⟩ ?_
    rw [hahead, h0]
    rfl
  next h0 =>
  split
  · next hall =>
    have hat : At { reader with rcrd.recordLeft := reader.rcrd.recordLeft - n }
        (p.drop n ++ t) := by
      refine ⟨h.vird, ?_⟩
      change reader.rcrd.recordLeft - n = _
      rw [h.left, List.length_append, List.length_append, List.length_drop]
      omega
    rw [← h.left]
    refine reads_params hat ?_
    rw [hahead, List.take_append_of_le_length hall, List.drop_append_of_le_length hall]
  · exact reads_buffer h h0 hn ⟨rfl, rfl⟩ ⟨nofun, nofun⟩ rfl

/-- A buffered field of which `n` bytes are to come. -/
structure Filling (reader : Reader) (q : List UInt8) (n : ℕ) : Prop extends At reader q where
  buf : reader.rcrd.buf.left = n
  pos : 0 < n
  le : n ≤ q.length

/-- As much is buffered as is there. -/
theorem Filling.bufAvail {left : ℕ} (h : Filling reader (p ++ t) left) :
    reader.rcrd.bufAvail p.length = min left p.length := by
  unfold RecordReader.bufAvail RecordReader.avail
  rw [h.buf, h.left, List.length_append,
    Nat.min_eq_left (Nat.le_add_right p.length t.length)]

/-- What a pass leaves of a buffered field. -/
theorem Filling.fill_left {left : ℕ} (h : Filling reader (p ++ t) left) :
    (fill reader (min left p.length) p).rcrd.buf.left = left - p.length := by
  have hleft := h.buf
  have hpos := h.pos
  unfold Buf.left at hleft
  simp only [fill, Buf.left, List.length_append, List.length_take]
  omega

/-- What is buffered comes before what is left. -/
theorem Filling.at_fill {left : ℕ} (h : Filling reader (p ++ t) left) :
    At (fill reader (min left p.length) p) (p.drop (min left p.length) ++ t) where
  vird := h.vird
  left := by
    change reader.rcrd.recordLeft - min left p.length = _
    rw [h.left, List.length_append, List.length_append, List.length_drop]
    omega

/-- The chunk is used up before the field. -/
theorem Filling.stop {left : ℕ} {ts : List Token} {e : End} (h : Filling reader (p ++ t) left)
    (hpart : p.length < left) (hin : reader.rcrd.Inside)
    (hs : Spells ((fill reader (min left p.length) p).rcrd.rest t) ts e) :
    (fill reader (min left p.length) p).Ahead t ts e := by
  have ht : t ≠ [] := by
    rintro rfl
    have := h.le
    rw [List.append_nil] at this
    omega
  have hat := h.at_fill
  rw [Nat.min_eq_right hpart.le, List.drop_length, List.nil_append] at hat
  rw [Nat.min_eq_right hpart.le] at hs ⊢
  exact .mid (b := []) hat.vird rfl hat.left ht ⟨hin.state, hin.datagramLen, hin.datagramData⟩ hs

/-- More of the transport parameters. -/
theorem reads_transportParametersParams {left : ℕ} (h : Filling reader (p ++ t) left)
    (hs : reader.rcrd.state = .qxTransportParametersParams) :
    (transportParametersParams reader p).Reads t (reader.rcrd.rest (p ++ t)) := by
  have hrest (rcrd : RecordReader) (hs : rcrd.state = .qxTransportParametersParams)
      (q : List UInt8) : rcrd.rest q =
        (transportParamsDecode (rcrd.buf.data ++ q.take rcrd.buf.left)).toOption.map fun params =>
          ([.frame (.qxTransportParameters params)], .more (q.drop rcrd.buf.left)) := by
    unfold RecordReader.rest RecordReader.getRest
    rw [hs]
    exact Option.map_map ..
  unfold transportParametersParams
  dsimp only
  rw [h.bufAvail, h.fill_left]
  split
  · next hall =>
    have hall : left ≤ p.length := by omega
    refine reads_params h.at_fill ?_
    rw [hrest _ hs, h.buf, Nat.min_eq_left hall, List.take_append_of_le_length hall,
      List.drop_append_of_le_length hall]
    rfl
  · next hpart =>
    have hpart : p.length < left := by omega
    intro ts e hy
    refine ⟨ts, rfl, h.stop hpart ⟨by rw [hs]; exact ⟨nofun, rfl⟩, by rw [hs]; nofun,
      by rw [hs]; nofun⟩ ?_⟩
    rw [hrest _ hs, h.buf, take_append_of_lt hpart, drop_append_of_lt hpart] at hy
    rw [hrest (fill reader (min left p.length) p).rcrd hs t, h.fill_left]
    simp only [fill, Nat.min_eq_right hpart.le, List.take_length, List.append_assoc]
    exact hy

/-! ### CONNECTION_CLOSE frames -/

/-- CONNECTION_CLOSE is the last frame. -/
theorem reads_connectionClosed {fr : FrameConnectionClose} {reason q : List UInt8}
    (hfr : { reader.rcrd.fr.connectionClose with reason := reason } = fr)
    (hy : y = some (Frame.ahead (.connectionClose fr, q))) (hq : t <:+ q) :
    (connectionClosed reader reason).Reads t y := by
  subst hfr
  intro ts e hs
  rw [hy] at hs
  cases hs
  exact ⟨rfl, rfl, hq⟩

/-- What comes after the chunk is left. -/
theorem suffix_drop {n : ℕ} (h : n ≤ p.length) : t <:+ (p ++ t).drop n := by
  rw [List.drop_append_of_le_length h]
  exact List.suffix_append ..

/-- The length of the reason of CONNECTION_CLOSE. -/
theorem reads_connectionCloseReasonlen {n : ℕ} {fr : FrameConnectionClose} (h : At reader (p ++ t))
    (hfr : reader.rcrd.fr.connectionClose = fr) :
    (connectionCloseReasonlen n reader p).Reads t
      ((if (p ++ t).length < n then none else some (Frame.connectionClose { fr with
        reasonlen := ((p ++ t).take n).length, reason := (p ++ t).take n }, (p ++ t).drop n)).map
          Frame.ahead) := by
  subst hfr
  unfold connectionCloseReasonlen
  rw [h.left]
  refine reads_ite (fun _ => reads_fail rfl) fun hn => ?_
  have hn := Nat.le_of_not_lt hn
  have hlen : ((p ++ t).take n).length = n := List.length_take_of_le hn
  dsimp only
  rw [hlen]
  split
  · next hall => exact
      reads_connectionClosed (by rw [List.take_append_of_le_length hall]) rfl (suffix_drop hall)
  · next hpart => exact reads_buffer ⟨h.vird, h.left⟩ (by omega) hn ⟨rfl, rfl⟩ ⟨nofun, nofun⟩ rfl

/-- The error code of CONNECTION_CLOSE. -/
theorem reads_connectionCloseErrorCode {v : ℕ} {fr : FrameConnectionClose} (h : At reader (p ++ t))
    (hfr : reader.rcrd.fr.connectionClose = fr) :
    (connectionCloseErrorCode v reader p).Reads t
      ((if fr.type = FrameType.connectionCloseApp then
        { fr with errorCode := v }.getReason (p ++ t)
        else { fr with errorCode := v }.getFrameType (p ++ t)).map Frame.ahead) := by
  subst hfr
  unfold connectionCloseErrorCode
  dsimp only
  refine reads_ite (fun _ => ?_) fun _ => ?_
  · exact reads_goOn ⟨h.vird, h.left⟩ rfl nofun rfl
  · exact reads_goOn ⟨h.vird, h.left⟩ rfl nofun rfl

/-- More of the reason of CONNECTION_CLOSE. -/
theorem reads_connectionCloseReason {left : ℕ} (h : Filling reader (p ++ t) left)
    (hs : reader.rcrd.state = .connectionCloseReason) :
    (connectionCloseReason reader p).Reads t (reader.rcrd.rest (p ++ t)) := by
  have hrest (rcrd : RecordReader) (hs : rcrd.state = .connectionCloseReason)
      (q : List UInt8) : rcrd.rest q = some (Frame.ahead (.connectionClose
        { rcrd.fr.connectionClose with reason := rcrd.buf.data ++ q.take rcrd.buf.left },
          q.drop rcrd.buf.left)) := by
    unfold RecordReader.rest RecordReader.getRest
    rw [hs]
    rfl
  unfold connectionCloseReason
  dsimp only
  rw [h.bufAvail, h.fill_left]
  split
  · next hall =>
    have hall : left ≤ p.length := by omega
    refine reads_connectionClosed ?_ (hrest _ hs _) (suffix_drop (h.buf.le.trans hall))
    rw [h.buf, Nat.min_eq_left hall, List.take_append_of_le_length hall]
    rfl
  · next hpart =>
    have hpart : p.length < left := by omega
    intro ts e hy
    refine ⟨ts, rfl, h.stop hpart ⟨by rw [hs]; exact ⟨nofun, rfl⟩, by rw [hs]; nofun,
      by rw [hs]; nofun⟩ ?_⟩
    rw [hrest _ hs, h.buf, take_append_of_lt hpart, drop_append_of_lt hpart] at hy
    rw [hrest (fill reader (min left p.length) p).rcrd hs t, h.fill_left]
    simp only [fill, Nat.min_eq_right hpart.le, List.take_length, List.append_assoc]
    exact hy

/-! ### Frame types -/

/-- The fields of a STREAM frame are read one after another. -/
theorem getStream_eq {type : ℕ} (h : type / 8 = 1) (fr : FrameStream) (q : List UInt8) :
    ((getStream type q).map fun fp => (Frame.stream fp.1, fp.2)) =
      FrameStream.getStreamId { fr with
        flags := type % 8, fin := decide (type % 8 % 2 = 1) } q := by
  have hflags : type - FrameType.stream = type % 8 := by
    change type - 8 = _
    omega
  have hfin : FrameType.hasBit type FrameType.streamFinBit = decide (type % 8 % 2 = 1) := by
    change decide (type / 1 % 2 = 1) = _
    congr 1
    rw [Nat.div_one]
    apply propext
    omega
  have hoff : FrameType.hasBit type FrameType.streamOffBit = decide (type % 8 / 4 % 2 = 1) := by
    change decide (type / 4 % 2 = 1) = _
    congr 1
    apply propext
    omega
  have hlen : FrameType.hasBit type FrameType.streamLenBit = decide (type % 8 / 2 % 2 = 1) := by
    change decide (type / 2 % 2 = 1) = _
    congr 1
    apply propext
    omega
  unfold getStream FrameStream.getStreamId FrameStream.getOffset FrameStream.getData
    FrameStream.getLength FrameStream.hasOffset FrameStream.hasLength
  rw [hflags, hfin, hoff, hlen]
  simp only [Option.bind_eq_bind, Option.map_bind]
  congr 1
  funext vr
  by_cases h4 : type % 8 / 4 % 2 = 1 <;> by_cases h2 : type % 8 / 2 % 2 = 1 <;>
    simp [h4, h2, Option.map_eq_bind, Option.bind_assoc]

/-- What is not sent of a CONNECTION_CLOSE frame does not count. -/
theorem getConnectionClose_ahead {type : ℕ} (fr : FrameConnectionClose) (q : List UInt8)
    (h : type = FrameType.connectionClose ∨ type = FrameType.connectionCloseApp) :
    ((getConnectionClose type q).map fun fp => (Frame.connectionClose fp.1, fp.2)).map
        Frame.ahead =
      (FrameConnectionClose.getErrorCode { fr with type := type } q).map Frame.ahead := by
  unfold getConnectionClose FrameConnectionClose.getErrorCode FrameConnectionClose.getFrameType
    FrameConnectionClose.getReason
  simp only [Option.bind_eq_bind, Option.map_bind]
  congr 1
  funext vr
  rcases h with rfl | rfl
  · have hne : ¬FrameType.connectionClose = FrameType.connectionCloseApp := by decide
    simp [hne, Function.comp_def, Option.map_eq_bind, Option.bind_assoc]
  · have hbit : (FrameType.connectionCloseApp == FrameType.connectionClose) = false := rfl
    simp [hbit, Function.comp_def, Option.map_eq_bind, Option.bind_assoc, Frame.ahead, Frame.tokens,
      Frame.head,
      FrameConnectionClose.sent, Frame.isClose]

/-- Padding in front and what follows it. -/
theorem padding_split (p : List UInt8) :
    p = List.replicate (p.takeWhile (· = 0)).length 0 ++ p.drop (p.takeWhile (· = 0)).length := by
  induction p with
  | nil => rfl
  | cons b p ih =>
    by_cases hb : b = 0
    · simp only [List.takeWhile_cons, hb, decide_true, if_true, List.length_cons,
        List.replicate_succ, List.cons_append, List.drop_succ_cons]
      rw [← ih]
    · simp [hb]

/-- The type of a frame is read, and the connection takes it. -/
theorem reads_frameType {params : TransportParams} {type vlen : ℕ} (h : At reader (p ++ t))
    (hmax : (p ++ t).length ≤ maxVarint) (hvlen : vlen ≤ 8) :
    (frameType (decide (type ≠ FrameType.qxTransportParameters))
      { params with maxDatagramFrameSize := uint64Max } type vlen reader p).Reads t
        (aheadOf type (p ++ t)) := by
  have hat : At { reader with rcrd.typelen := vlen } (p ++ t) := ⟨h.vird, h.left⟩
  -- The types after which only the state changes.
  have hnext {y : Ahead} {state : ReadState} (hs : isField state = true) (hd : state ≠ .datagramLen)
      (hy : y = RecordReader.rest { reader.rcrd with typelen := vlen, state := state } (p ++ t)) :
      (goOn { reader with rcrd.typelen := vlen } state p).Reads t y :=
    reads_goOn hat hs (fun h => absurd h hd) hy
  -- The types that are stored, or of which something is.
  have htyped {y : Ahead} {fr : FrameUnion} {state : ReadState} (hs : isField state = true)
      (hd : state = .datagramLen → fr.datagram.type = FrameType.datagramLen)
      (hy : y = RecordReader.rest { reader.rcrd with
        typelen := vlen, fr := fr, state := state } (p ++ t)) :
      (typed { reader with rcrd.typelen := vlen } fr state p).Reads t y :=
    reads_typed hat hs hd hy
  unfold aheadOf
  by_cases hpad : type = FrameType.padding
  · -- a run of padding is read at once
    subst hpad
    have htake : p.take reader.rcrd.recordLeft = p :=
      List.take_of_length_le (by rw [h.left, List.length_append]; exact Nat.le_add_right ..)
    have hsplit : p = List.replicate (paddingLen reader.rcrd.recordLeft p) 0 ++
        p.drop (paddingLen reader.rcrd.recordLeft p) := by
      unfold paddingLen
      rw [htake]
      exact padding_split p
    generalize hn : paddingLen reader.rcrd.recordLeft p = n at hsplit
    have hat : At
        { reader with rcrd.typelen := vlen, rcrd.recordLeft := reader.rcrd.recordLeft - n }
        (p.drop n ++ t) := by
      refine ⟨h.vird, ?_⟩
      change reader.rcrd.recordLeft - n = _
      have := congrArg List.length hsplit
      rw [List.length_append, List.length_replicate] at this
      rw [h.left, List.length_append, List.length_append]
      omega
    have hframe : frameType (decide (FrameType.padding ≠ FrameType.qxTransportParameters))
        { params with maxDatagramFrameSize := uint64Max } FrameType.padding vlen reader p =
          done { reader with rcrd.typelen := vlen, rcrd.recordLeft := reader.rcrd.recordLeft - n }
            (.log (.padding (n + 1))) (p.drop n) := by
      subst hn
      rfl
    rw [if_pos rfl, hframe]
    intro ts e hs
    refine reads_reset (a := .log (.padding (n + 1))) hat rfl rfl ts e ?_
    rw [hsplit, List.append_assoc] at hs
    exact hs.zeros
  rw [if_neg hpad]
  unfold frameType getBody
  dsimp only
  rw [if_neg (by simp)]
  -- The transport parameters: a length must follow.
  refine reads_ite (fun htp => ?_) fun htp => ?_
  · rw [if_neg (by simp [htp])]
    split
    · next h0 =>
      have hnil : p ++ t = [] := List.length_eq_zero_iff.1 (h.left.symm.trans h0)
      rw [hnil]
      rintro ts e ⟨⟩
      exact ⟨rfl, .inl rfl⟩
    · next h0 =>
      have hne : p ++ t ≠ [] := fun hnil => h0 (by rw [h.left, hnil]; rfl)
      exact reads_goto hat hne ⟨rfl, rfl⟩ (inside_of_isField rfl nofun) rfl
  refine reads_ite (fun _ => htyped rfl nofun rfl) fun _ => ?_
  rw [if_neg hpad, if_neg hpad]
  refine reads_ite (fun _ => hnext rfl nofun rfl) fun _ => ?_
  refine reads_ite (fun _ => hnext rfl nofun rfl) fun _ => ?_
  refine reads_ite (fun _ => hnext rfl nofun rfl) fun _ => ?_
  refine reads_ite (fun _ => hnext rfl nofun rfl) fun _ => ?_
  refine reads_ite (fun _ => htyped rfl nofun rfl) fun _ => ?_
  refine reads_ite (fun _ => hnext rfl nofun rfl) fun _ => ?_
  refine reads_ite (fun _ => hnext rfl nofun rfl) fun _ => ?_
  refine reads_ite (fun _ => htyped rfl nofun rfl) fun _ => ?_
  refine reads_ite (fun hclose => ?_) fun _ => ?_
  · rw [getConnectionClose_ahead reader.rcrd.fr.connectionClose _ hclose]
    exact htyped rfl nofun rfl
  -- Without a limit on datagrams, one that runs to the end of the record is accepted.
  have hsize : ¬(uint64Max = 0 ∨ uint64Max < vlen + reader.rcrd.recordLeft) := by
    rw [h.left]
    unfold maxVarint at hmax
    unfold uint64Max
    omega
  refine reads_ite (fun hgram => ?_) fun _ => ?_
  · rw [if_neg hsize]
    have hahead : (some (Frame.datagram ⟨type, (p ++ t).length, vecsOf (p ++ t)⟩, [])).map
        Frame.ahead = some (gramTokens (p ++ t).length 0 true (p ++ t), Left.more []) := by
      rw [Option.map_some, Frame.ahead, Frame.tokens, flatten_vecsOf, hgram]
      rfl
    rw [hahead]
    -- An empty datagram is complete at once.
    split
    · next h0 =>
      have hnil : p ++ t = [] := List.length_eq_zero_iff.1 (h.left.symm.trans h0)
      exact reads_reset ⟨h.vird, h.left⟩ rfl (by rw [hnil]; rfl)
    · next h0 =>
      have hne : p ++ t ≠ [] := fun hnil => h0 (by rw [h.left, hnil]; rfl)
      have hat : At { reader with
          rcrd.typelen := vlen
          rcrd.fr.datagram.type := type
          rcrd.fr.datagram.len := reader.rcrd.recordLeft
          rcrd.fieldLeft := reader.rcrd.recordLeft } (p ++ t) := ⟨h.vird, h.left⟩
      have hsub : sub64 reader.rcrd.recordLeft reader.rcrd.recordLeft = 0 := by
        rw [h.left]
        unfold maxVarint at hmax
        unfold sub64
        omega
      have hle : reader.rcrd.recordLeft ≤ maxVarint := h.left.le.trans hmax
      refine reads_goto hat hne ⟨rfl, rfl⟩ ⟨⟨nofun, rfl⟩, nofun, fun _ => ⟨le_rfl, hle⟩⟩ ?_
      unfold RecordReader.rest
      dsimp only
      rw [hsub, h.left, List.take_length, List.drop_length]
  -- A datagram with a length.
  refine reads_ite (fun hgram => ?_) fun _ => ?_
  · rw [if_neg (by unfold uint64Max; omega)]
    exact htyped rfl (fun _ => hgram) rfl
  -- What is left is a STREAM frame, or no frame.
  refine reads_ite (fun hstream => ?_) fun _ => reads_fail rfl
  rw [getStream_eq hstream reader.rcrd.fr.stream]
  exact htyped rfl nofun rfl

/-! ## The parser reads the format -/

/-- A pass of the loop of `connRead` when the connection accepts what is read: the
    transport parameters come when they should, and no datagram is too long. -/
def lenient (params : TransportParams) (reader : Reader) (p : List UInt8) : Parsed :=
  let params := { params with maxDatagramFrameSize := uint64Max }
  if reader.rcrd.state = .frameType then
    field reader p fun type =>
      frameType (decide (type ≠ FrameType.qxTransportParameters)) params type
  else pass true params reader p

/-- A reader that is reset has read nothing. -/
theorem virdOf_eq_reset {bs : List UInt8} (hbs : getUvarint bs = none) (h : virdOf bs = .reset) :
    bs = [] := by
  by_contra hne
  have hdone := virdOf_done hbs hne
  rw [h] at hdone
  cases hdone

/-- The frame is still all ahead. -/
theorem rest_of {rcrd : RecordReader} {state : ReadState} (hs : rcrd.state = state)
    (hdata : (state == .frameType || state == .streamData || state == .datagramData) = false)
    (q : List UInt8) :
    rcrd.rest q = (RecordReader.getRest { rcrd with state := state } q).map Frame.ahead := by
  obtain ⟨state', fr, typelen, recordLeft, fieldLeft, buf⟩ := rcrd
  subst hs
  cases state' <;> first
    | (cases hdata; done)
    | rfl

/-- What is left of a frame that is read from what is left. -/
theorem map_ahead {x : Option (Frame × List UInt8)} {q : List UInt8}
    {f : ℕ × List UInt8 → Option (Frame × List UInt8)} (h : x = (getUvarint q).bind f) :
    x.map Frame.ahead = (getUvarint q).bind fun vr => (f vr).map Frame.ahead := by
  rw [h, Option.map_bind]
  rfl

/-- Transport parameters are bytes with their length before them, which are decoded. -/
theorem getParams_eq {q : List UInt8} :
    getParams q = (getUvarint q).bind fun vr =>
      if vr.2.length < vr.1 then none
      else (transportParamsDecode (vr.2.take vr.1)).toOption.map fun params =>
        (.qxTransportParameters params, vr.2.drop vr.1) := by
  simp only [getParams, getBytes, Option.bind_eq_bind, Option.bind_assoc]
  congr 1
  funext vr
  split
  · rfl
  · rw [Option.bind_some]
    cases (transportParamsDecode (vr.2.take vr.1)).toOption <;> rfl

/-- Each pass reads what is ahead. -/
theorem lenient_reads {params : TransportParams} {b : List UInt8} (h : reader.Ok)
    (hv : reader.vird = virdOf b) (hb : getUvarint b = none)
    (hleft : reader.rcrd.recordLeft = (p ++ t).length) (hp : p ≠ []) (hin : reader.rcrd.Inside) :
    (lenient params reader p).Reads t (reader.rcrd.rest (b ++ (p ++ t))) := by
  have hmax : (p ++ t).length ≤ maxVarint := hleft ▸ h.record
  -- The record is not longer than a varint says.
  have hmax' {q : List UInt8} (hq : q.length ≤ p.length) : (q ++ t).length ≤ maxVarint := by
    rw [List.length_append] at hmax ⊢
    omega
  -- A state that reads a varint goes on once it is complete.
  have hfield {k : ℕ → ℕ → Reader → List UInt8 → Parsed} {f : ℕ × List UInt8 → Ahead}
      (hy : ∀ q, reader.rcrd.rest q = (getUvarint q).bind f)
      (hk : ∀ v vlen q, vlen ≤ 8 → q.length ≤ p.length →
        (k v vlen ⟨.reset, { reader.rcrd with recordLeft := (q ++ t).length }⟩ q).Reads t
          (f (v, q ++ t))) := reads_field hv hb hleft hp hin hy hk
  -- A state that reads bytes has no varint begun.
  have hreset (hs : reader.rcrd.state.isBytes = true) : b = [] ∧ At reader (p ++ t) :=
    ⟨virdOf_eq_reset hb (hv.symm.trans (h.bytes hs)), h.bytes hs, hleft⟩
  have hfieldOk := h.field
  unfold lenient
  dsimp only
  split
  -- The frame type.
  · next hs =>
    have hnext (q : List UInt8) : reader.rcrd.rest q = nextAhead q := by
      unfold RecordReader.rest
      rw [hs]
    exact hfield hnext fun type vlen q hvlen hq => reads_frameType ⟨rfl, rfl⟩ (hmax' hq) hvlen
  next hft =>
  unfold pass
  -- The fields that are only stored.
  cases hplain : plain reader.rcrd.state with
  | some x =>
    refine hfield (rest_plain hplain) fun v vlen q _ _ => ?_
    rw [← x.ahead_left (q ++ t).length]
    exact reads_plain ⟨rfl, rfl⟩ hplain
  | none =>
    dsimp only
    have hover := hin.state
    unfold RecordReader.FieldOk at hfieldOk
    -- The states that cannot be, or were dealt with, are refused.
    cases hs : reader.rcrd.state <;> rw [hs] at hplain hover hft hfieldOk hreset <;> try first
      | (cases hplain; done)
      | (cases hover.2; done)
      | exact absurd rfl hover.1
      | exact absurd rfl hft
    case qxTransportParametersLen =>
      refine hfield (fun q => (rest_of hs rfl q).trans (map_ahead getParams_eq)) fun v _ q _ _ => ?_
      exact reads_transportParametersLen ⟨rfl, rfl⟩
    case qxTransportParametersParams =>
      obtain ⟨rfl, hat⟩ := hreset rfl
      exact reads_transportParametersParams
        ⟨hat, rfl, hfieldOk.2.1, hleft ▸ hfieldOk.2.2⟩ hs
    case streamStreamId =>
      refine hfield (fun q => (rest_of hs rfl q).trans (map_ahead rfl)) fun v vlen q _ _ => ?_
      exact reads_streamStreamId ⟨rfl, rfl⟩ rfl
    case streamOffset =>
      refine hfield (fun q => (rest_of hs rfl q).trans (map_ahead rfl)) fun v vlen q _ _ => ?_
      exact reads_streamOffset ⟨rfl, rfl⟩ rfl
    case streamLength =>
      have hget (q : List UInt8) := @getBytes_map (fun data => .stream { reader.rcrd.fr.stream with
        len := data.length, data := vecsOf data }) q
      refine hfield (fun q => (rest_of hs rfl q).trans (map_ahead (hget q))) fun v vlen q _ _ => ?_
      exact reads_streamLength ⟨rfl, rfl⟩ rfl
    case streamData =>
      obtain ⟨rfl, hat⟩ := hreset rfl
      exact reads_streamData hat hs (hleft ▸ hfieldOk.2)
    case connectionCloseErrorCode =>
      refine hfield (fun q => (rest_of hs rfl q).trans (map_ahead rfl)) fun v vlen q _ _ => ?_
      exact reads_connectionCloseErrorCode ⟨rfl, rfl⟩ rfl
    case connectionCloseReasonlen =>
      have hget (q : List UInt8) := @getBytes_map (fun data => .connectionClose
        { reader.rcrd.fr.connectionClose with reasonlen := data.length, reason := data }) q
      refine hfield (fun q => (rest_of hs rfl q).trans (map_ahead (hget q))) fun v vlen q _ _ => ?_
      exact reads_connectionCloseReasonlen ⟨rfl, rfl⟩ rfl
    case connectionCloseReason =>
      obtain ⟨rfl, hat⟩ := hreset rfl
      exact reads_connectionCloseReason ⟨hat, rfl, hfieldOk.2.1, hleft ▸ hfieldOk.2.2⟩ hs
    case datagramLen =>
      have hget (q : List UInt8) := @getBytes_map (fun data => .datagram
        { reader.rcrd.fr.datagram with len := data.length, data := vecsOf data }) q
      refine hfield (fun q => (rest_of hs rfl q).trans (map_ahead (hget q))) fun v vlen q _ hq => ?_
      exact reads_datagramLen ⟨rfl, rfl⟩ (hmax' hq) (hin.datagramLen hs)
    case datagramData =>
      obtain ⟨rfl, hat⟩ := hreset rfl
      exact reads_datagramData hat hp hs hin (hleft ▸ hfieldOk.2)

end Parse

end Dwnx
