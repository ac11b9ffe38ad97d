import Dwnx.Lib.Rising
import Dwnx.Lts.Hearing
import Dwnx.Lts.Notices

/-!
# Credit

The limits that an endpoint sets its peer, on data, on the data of a stream and on streams,
are announced by frames whose values rise, and the last value announced is the limit that
is enforced (`Cfg.CreditOk`). What is granted and not announced yet is what the
application has given, and what was received of streams that are read no more
(`Cfg.GivenOk`).
-/

namespace Dwnx

variable {quiet : Prop} {c c' : Cfg} {id : ℕ} {s s' : Strm} {pushed : Bool} {l : Label}
  {k : Credit} {trace evs : List Event}

/-! ## Limits -/

/-- A limit that an endpoint sets its peer. -/
inductive Credit
  | data
  | streams (uni : Bool)
  | stream (id : ℕ)
  deriving DecidableEq

def Credit.bound : Credit → ℕ
  | .streams _ => maxStreams
  | _ => maxVarint

/-- The limit that a frame sets. -/
def Frame.credit (k : Credit) : Frame → Option ℕ
  | .maxData fr => if k = .data then some fr.maxData else none
  | .maxStreams fr =>
    if k = .streams (decide (fr.type ≠ FrameType.maxStreamsBidi)) then some fr.maxStreams else none
  | .maxStreamData fr => if k = .stream fr.streamId then some fr.maxStreamData else none
  | _ => none

def Event.credit (k : Credit) : Event → Option ℕ
  | .txFr fr => fr.credit k
  | _ => none

/-- The limits announced by frames. -/
def credits (k : Credit) (trace : List Event) : List ℕ := trace.filterMap (Event.credit k)

/-- The limit that the transport parameters of an endpoint set its peer. -/
def TransportParams.credit (params : TransportParams) (server : Bool) : Credit → ℕ
  | .data => params.initialMaxData
  | .streams uni => if uni then params.initialMaxStreamsUni else params.initialMaxStreamsBidi
  | .stream id =>
    if bidiStream id then
      if decide (id % 2 = 1) == server then params.initialMaxStreamDataBidiLocal
      else params.initialMaxStreamDataBidiRemote
    else if decide (id % 2 = 1) == server then 0
    else params.initialMaxStreamDataUni

/-- The limit that is enforced. -/
def Conn.rxLimit (conn : Conn) : Credit → Option ℕ
  | .data => some conn.rx.maxOffset
  | .streams uni => some (if uni then conn.rx.uni.maxStreams else conn.rx.bidi.maxStreams)
  | .stream id => (conn.strms.find id).map (·.rx.maxOffset)

/-- The limit that is announced by the transport parameters. -/
abbrev Conn.rxInitial (conn : Conn) (k : Credit) : ℕ := conn.localParams.credit conn.server k

theorem Conn.rxInitial_stream (conn : Conn) (id : ℕ) :
    conn.rxInitial (.stream id) = (conn.initialMaxStreamData id).1 := by
  rw [rxInitial, TransportParams.credit, initialMaxStreamData, localStream]
  split_ifs <;> rfl

/-- The values announced rise, and the last one is enforced. -/
structure Cfg.CreditOk (k : Credit) (c : Cfg) : Prop where
  rises : ∃ v, Rising (c.conn.rxInitial k :: credits k (recent c.st.trace)) v ∧
    ∀ n, c.conn.rxLimit k = some n → v = n
  bound : ∀ n ∈ credits k (recent c.st.trace), n ≤ k.bound
  unused : ∀ id, k = .stream id → ¬c.conn.Used id → credits k (recent c.st.trace) = []

/-! ## Steps -/

/-- What a step does to a limit. -/
inductive CreditStep (k : Credit) (c c' : Cfg) : Prop
  | same (evs : List Event) (htrace : c'.st.trace = c.st.trace ++ evs)
      (hevs : ∀ e ∈ evs, e.isRejected = false ∧ e.credit k = none)
      (hlimit : ∀ n, c'.conn.rxLimit k = some n → c.conn.rxLimit k = some n)
  | opened {id : ℕ} (hk : k = .stream id) {e : Event} (htrace : c'.st.trace = c.st.trace ++ [e])
      (he : e.isRejected = false ∧ e.credit k = none) (hu : ¬c.conn.Used id)
      (hlimit : ∀ n, c'.conn.rxLimit k = some n → n = c.conn.rxInitial k)
  | raise {fr : Frame} {m n : ℕ} (htrace : c'.st.trace = c.st.trace ++ [.txFr fr])
      (hfr : fr.credit k = some n) (hm : c.conn.rxLimit k = some m) (hlt : m < n)
      (hn : n ≤ k.bound) (hlimit : c'.conn.rxLimit k = some n)

/-- A frame raises one limit. -/
theorem CreditStep.of_frame {fr : Frame} (k₀ : Credit) {m n : ℕ}
    (htrace : c'.st.trace = c.st.trace ++ [.txFr fr])
    (hfr : ∀ k, fr.credit k = if k = k₀ then some n else none) (hm : c.conn.rxLimit k₀ = some m)
    (hlt : m < n) (hn : n ≤ k₀.bound)
    (hlimit : ∀ k, c'.conn.rxLimit k = if k = k₀ then some n else c.conn.rxLimit k) (k : Credit) :
    CreditStep k c c' := by
  by_cases hk : k = k₀
  · subst hk
    exact .raise htrace ((hfr k).trans (if_pos rfl)) hm hlt hn ((hlimit k).trans (if_pos rfl))
  · refine .same [.txFr fr] htrace (fun e he => ?_) fun n h => ?_
    · obtain rfl := List.mem_singleton.1 he
      exact ⟨rfl, (hfr k).trans (if_neg hk)⟩
    · rwa [hlimit, if_neg hk] at h

theorem Changes.rxLimit {conn₁ conn₂ : Conn} (h : Changes conn₁ conn₂ id s s' pushed)
    (k : Credit) :
    conn₂.rxLimit k = if k = .stream id then some s'.rx.maxOffset else conn₁.rxLimit k := by
  cases k with
  | data => rw [h.rest]; rfl
  | streams uni => rw [h.rest]; rfl
  | stream k =>
    rw [Conn.rxLimit, h.find, Conn.rxLimit]
    by_cases hk : k = id
    · subst hk
      rw [if_pos rfl, if_pos rfl]
      rfl
    · rw [if_neg hk, if_neg fun h => hk (Credit.stream.inj h)]

theorem StrmStep.credit {conn : Conn} (h : StrmStep quiet c id s s' pushed c')
    (hch : Changes c'.conn conn id s s' pushed) (hI : Inv c) (k : Credit) :
    CreditStep k c { c' with st.conn := conn } := by
  have hf := hch.found
  rw [h.frame] at hf
  have hlimit (k : Credit) :
      conn.rxLimit k = if k = .stream id then some s'.rx.maxOffset else c.conn.rxLimit k := by
    rw [hch.rxLimit, h.frame]
    rfl
  have hself : c.conn.rxLimit (.stream id) = some s.rx.maxOffset := by rw [Conn.rxLimit, hf]; rfl
  have hsame (evs : List Event) (hs : s'.rx.maxOffset = s.rx.maxOffset)
      (htrace : c'.st.trace = c.st.trace ++ evs)
      (hevs : ∀ e ∈ evs, e.isRejected = false ∧ e.credit k = none) :
      CreditStep k c { c' with st.conn := conn } := by
    refine .same evs htrace hevs fun n h => ?_
    rw [hlimit, hs] at h
    split at h
    · next hk => rw [hk, hself, h]
    · exact h
  cases h with
  | txMaxStreamData q hp hshut hstop hsend huni =>
    have hok := hI.strms id s hf
    have hlt : s.rx.maxOffset < s.rx.unsentMaxOffset := by
      refine lt_of_le_of_ne (hok.rxMaxOffset huni) fun h => ?_
      rw [Strm.shouldSendMaxStreamData_of_eq h.symm] at hsend
      · cases hsend
      · exact (hok.rxMaxOffset huni).trans ((hok.unsentMaxOffset huni).trans (by decide))
    exact CreditStep.of_frame (.stream id) rfl (fun _ => rfl) hself hlt
      (hok.unsentMaxOffset huni) hlimit k
  | extend n _ hs' =>
    subst hs'
    exact hsame [] rfl (List.append_nil _).symm (by simp)
  | _ =>
    first
    | exact hsame [] rfl (List.append_nil _).symm (by simp)
    | exact hsame [_] rfl rfl (by simp [Event.isRejected, Event.credit, Frame.credit])

/-- A stream is added. -/
theorem CreditStep.of_insert {e : Event} (htrace : c'.st.trace = c.st.trace ++ [e])
    (hnone : c.conn.strms.find id = none) (hu : ¬c.conn.Used id)
    (he : e.isRejected = false ∧ ∀ k, e.credit k = none)
    (hfind : c'.conn.strms = c.conn.strms.insert id (c.conn.newStrm id))
    (hrx : c'.conn.rx = c.conn.rx) (k : Credit) : CreditStep k c c' := by
  cases k with
  | stream k =>
    by_cases hk : k = id
    · subst hk
      refine .opened rfl htrace ⟨he.1, he.2 _⟩ hu fun n h => ?_
      rw [Conn.rxLimit, hfind, KeyMap.find_insert hnone, if_pos rfl, Option.map_some,
        c.conn.newStrm_rx] at h
      rw [c.conn.rxInitial_stream]
      exact (Option.some.inj h).symm
    · refine .same [e] htrace (fun e' h => ?_) fun n h => ?_
      · exact List.mem_singleton.1 h ▸ ⟨he.1, he.2 _⟩
      · rwa [Conn.rxLimit, hfind, KeyMap.find_insert hnone, if_neg hk] at h
  | _ =>
    refine .same [e] htrace (fun e' h => List.mem_singleton.1 h ▸ ⟨he.1, he.2 _⟩) fun n h => ?_
    rwa [Conn.rxLimit, hrx] at h

theorem Event.Plain.credit {e : Event} (he : e.Plain) :
    e.isRejected = false ∧ e.credit k = none := by
  cases e with
  | txFr fr =>
    cases fr <;> first
      | exact he.elim
      | exact ⟨rfl, rfl⟩
  | _ => first
    | exact he.elim
    | exact ⟨rfl, rfl⟩

/-- What becomes of the limits. -/
theorem Step.credit (h : Step quiet l c c') (hI : Inv c) (hl : l ≠ .reject) (k : Credit) :
    CreditStep k c c' := by
  cases h with
  | strm hs hch => exact hs.credit hch hI k
  | openBidi =>
    obtain ⟨hb, hl, hnone⟩ := hI.ids.bidi_next
    refine .of_insert (by rfl) hnone (fun hu => ?_) ⟨rfl, fun _ => rfl⟩ (by rfl) (by rfl) k
    have := hu.1 hl
    simp [Conn.nextStreamId, hb] at this
  | openUni =>
    obtain ⟨hb, hl, hnone⟩ := hI.ids.uni_next
    refine .of_insert (by rfl) hnone (fun hu => ?_) ⟨rfl, fun _ => rfl⟩ (by rfl) (by rfl) k
    have := hu.1 hl
    simp [Conn.nextStreamId, hb] at this
  | @accept _ fr id idtr hp hid hlocal hnone _ _ _ hopen =>
    refine .of_insert rfl hnone (fun hu => ?_) ⟨rfl, fun _ => rfl⟩ ?_ ?_ k
    · obtain ⟨hle, ho⟩ := hu.2 hlocal
      exact (Idtr.openId_ok (hI.ids.hasRoom _) hle hopen).1 ho
    · rw [Conn.setIdtr_eq]
    · rw [Conn.setIdtr_eq]
  | event e he =>
    exact .same [e] rfl (fun _ h => List.mem_singleton.1 h ▸ he.credit) fun _ h => h
  | erase hp hf =>
    refine .same [] (List.append_nil _).symm (by simp) fun n h => ?_
    cases k with
    | stream k =>
      obtain ⟨a, ha, rfl⟩ := Option.map_eq_some_iff.1 h
      exact Option.map_eq_some_iff.2 ⟨a, (find_erase_cases ha).2, rfl⟩
    | _ => exact h
  | txMaxData q hp hmax =>
    refine CreditStep.of_frame .data rfl (fun _ => rfl) rfl hmax hI.flow.unsentMaxOffset
      (fun k => ?_) k
    cases k <;> rfl
  | txMaxStreamsBidi q hp hmax =>
    refine CreditStep.of_frame (.streams false) rfl (fun _ => rfl) rfl hmax hI.ids.bidiUnsent
      (fun k => ?_) k
    rcases k with _ | (_ | _) | _ <;> rfl
  | txMaxStreamsUni q hp hmax =>
    refine CreditStep.of_frame (.streams true) rfl (fun _ => rfl) rfl hmax hI.ids.uniUnsent
      (fun k => ?_) k
    rcases k with _ | (_ | _) | _ <;> rfl
  | reject => exact absurd rfl hl
  | _ =>
    first
    | exact .same [] (List.append_nil _).symm (by simp) fun _ h => h
    | exact .same [_] rfl (by simp [Event.isRejected, Event.credit, Frame.credit, Strm.closeEvent])
        fun _ h => h
    | exact .same [_, _] rfl (by simp [Event.isRejected, Event.credit]) fun _ h => h

/-! ## The invariant -/

theorem credits_append (h : ∀ e ∈ evs, e.isRejected = false ∧ e.credit k = none) :
    credits k (recent (trace ++ evs)) = credits k (recent trace) := by
  rw [recent, since_append fun e he => (h e he).1, credits, List.filterMap_append,
    List.filterMap_eq_nil_iff.2 fun e he => (h e he).2, List.append_nil]
  rfl

theorem credits_concat {fr : Frame} {n : ℕ} (h : fr.credit k = some n) :
    credits k (recent (trace ++ [.txFr fr])) = credits k (recent trace) ++ [n] := by
  rw [recent_concat rfl, credits, List.filterMap_append]
  exact congrArg _ (List.filterMap_cons_some h)

/-- Early data is rejected, and all limits are those of the transport parameters. -/
theorem Cfg.CreditOk.of_rejected (htrace : c'.st.trace = trace ++ [.earlyDataRejected])
    (hlimit : ∀ n, c'.conn.rxLimit k = some n → n = c'.conn.rxInitial k) : c'.CreditOk k := by
  have hrecent : recent c'.st.trace = [] := by
    rw [htrace]
    exact since_concat_of_pos rfl
  refine ⟨⟨_, ?_, fun n hn => (hlimit n hn).symm⟩, ?_, fun _ _ _ => ?_⟩
  · rw [hrecent]
    exact .single _
  · rw [hrecent]
    rintro _ ⟨⟩
  · rw [hrecent]
    rfl

/-- Every step keeps what is known of a limit. -/
theorem Step.creditOk (h : Step quiet l c c') (hI : Inv c) (hc : c.CreditOk k) :
    c'.CreditOk k := by
  have hinitial : c'.conn.rxInitial k = c.conn.rxInitial k := by
    rw [Conn.rxInitial, h.server, h.localParams]
  by_cases hl : l = .reject
  · cases h with
    | reject =>
      refine .of_rejected (by rfl) fun n hn => ?_
      cases k with
      | stream k => cases hn
      | _ => exact (Option.some.inj hn).symm
    | _ => cases hl
  obtain ⟨v, hv, hlast⟩ := hc.rises
  have hunused (id : ℕ) (hk : k = .stream id) (hu : ¬c'.conn.Used id) :
      credits k (recent c.st.trace) = [] :=
    hc.unused id hk fun h' => hu (h.used_of_ne hI hl h')
  cases h.credit hI hl k with
  | same evs htrace hevs hlimit =>
    have hcredits : credits k (recent c'.st.trace) = credits k (recent c.st.trace) :=
      htrace ▸ credits_append hevs
    refine ⟨⟨v, ?_, fun n hn => hlast n (hlimit n hn)⟩, ?_, fun id hk hu => ?_⟩
    · rw [hinitial, hcredits]
      exact hv
    · rw [hcredits]
      exact hc.bound
    · rw [hcredits]
      exact hunused id hk hu
  | @opened id hk e htrace he hu hlimit =>
    have hcredits : credits k (recent c'.st.trace) = [] := by
      rw [htrace, credits_append fun e' h => List.mem_singleton.1 h ▸ he]
      exact hc.unused id hk hu
    refine ⟨⟨_, ?_, fun n hn => (hlimit n hn).symm⟩, ?_, fun id hk hu => hcredits⟩
    · rw [hinitial, hcredits]
      exact .single _
    · rw [hcredits]
      rintro _ ⟨⟩
  | @raise fr m n htrace hfr hm hlt hn hlimit =>
    have hcredits : credits k (recent c'.st.trace) = credits k (recent c.st.trace) ++ [n] :=
      htrace ▸ credits_concat hfr
    obtain rfl := hlast m hm
    refine ⟨⟨n, ?_, fun n' hn' => Option.some.inj (hlimit.symm.trans hn')⟩, ?_, fun id hk hu => ?_⟩
    · rw [hinitial, hcredits]
      exact hv.concat hlt
    · rw [hcredits]
      intro n' hn'
      rcases List.mem_append.1 hn' with hn' | hn'
      · exact hc.bound n' hn'
      · exact List.mem_singleton.1 hn' ▸ hn
    · subst hk
      obtain ⟨s, hf, -⟩ := Option.map_eq_some_iff.1 hm
      exact absurd (h.used_of_ne hI hl (hI.ids.used hf)) hu

/-! ## What is granted -/

/-- What an event adds to a limit: what the application grants, and the data that was
    received and is not passed on. -/
def Event.given (k : Limit) : Event → ℕ
  | .extended limit n => if limit = k then n else 0
  | .discarded _ len => if Limit.data = k then len else 0
  | _ => 0

def given (k : Limit) (trace : List Event) : ℕ := (trace.map (Event.given k)).sum

def Limit.credit : Limit → Credit
  | .data => .data
  | .streamsBidi => .streams false
  | .streamsUni => .streams true

/-- The limit that is granted, announced or not. -/
def Conn.unsentLimit (conn : Conn) : Limit → ℕ
  | .data => conn.rx.unsentMaxOffset
  | .streamsBidi => conn.rx.bidi.unsentMaxStreams
  | .streamsUni => conn.rx.uni.unsentMaxStreams

/-- The limit granted is what the history says, up to the greatest that there is. -/
def Cfg.GivenOk (k : Limit) (c : Cfg) : Prop :=
  c.conn.unsentLimit k =
    min k.credit.bound (c.conn.rxInitial k.credit + given k (recent c.st.trace))

theorem extendLimit_eq_min (bound m n : ℕ) : extendLimit bound m n = min bound (m + n) := by
  unfold extendLimit
  split_ifs <;> omega

theorem given_append (l m : List Event) {k : Limit} : given k (l ++ m) = given k l + given k m := by
  rw [given, List.map_append, List.sum_append]
  rfl

/-- A step that gives nothing. -/
theorem Cfg.GivenOk.of_same {k : Limit} (hc : c.GivenOk k) (evs : List Event)
    (htrace : c'.st.trace = c.st.trace ++ evs)
    (hevs : ∀ e ∈ evs, e.isRejected = false ∧ e.given k = 0)
    (hlimit : c'.conn.unsentLimit k = c.conn.unsentLimit k)
    (hinitial : c'.conn.rxInitial k.credit = c.conn.rxInitial k.credit) : c'.GivenOk k := by
  have hzero : given k evs = 0 := by
    rw [given, List.sum_eq_zero_iff]
    intro n hn
    obtain ⟨e, he, rfl⟩ := List.mem_map.1 hn
    exact (hevs e he).2
  rw [GivenOk, hlimit, hinitial, htrace, recent, since_append fun e he => (hevs e he).1,
    given_append, hzero]
  exact hc

/-- A step that extends the limit `k₀` by `n`. -/
theorem Cfg.GivenOk.extend {k k₀ : Limit} {e : Event} {n : ℕ} (hc : c.GivenOk k)
    (htrace : c'.st.trace = c.st.trace ++ [e]) (he : e.isRejected = false)
    (hn : ∀ k, e.given k = if k₀ = k then n else 0)
    (hlimit : ∀ k, c'.conn.unsentLimit k =
      if k₀ = k then extendLimit k.credit.bound (c.conn.unsentLimit k) n
      else c.conn.unsentLimit k)
    (hinitial : c'.conn.rxInitial k.credit = c.conn.rxInitial k.credit) : c'.GivenOk k := by
  by_cases hk : k₀ = k
  · have hgiven : given k [e] = n := by
      rw [given, List.map_singleton, List.sum_singleton, hn, if_pos hk]
    rw [GivenOk, hlimit, if_pos hk, hinitial, htrace, recent_concat he, given_append, hgiven,
      extendLimit_eq_min, hc]
    omega
  · refine hc.of_same [e] htrace (fun e' h => ?_) ((hlimit k).trans (if_neg hk)) hinitial
    obtain rfl := List.mem_singleton.1 h
    exact ⟨he, (hn k).trans (if_neg hk)⟩

theorem Event.Plain.given {e : Event} (he : e.Plain) (k : Limit) :
    e.isRejected = false ∧ e.given k = 0 := by
  cases e <;> first
    | exact he.elim
    | exact ⟨rfl, rfl⟩

theorem StrmStep.given (h : StrmStep quiet c id s s' pushed c') (k : Limit) :
    ∃ evs, c'.st.trace = c.st.trace ++ evs ∧
      ∀ e ∈ evs, e.isRejected = false ∧ e.given k = 0 := by
  cases h <;> first
    | exact ⟨[], (List.append_nil _).symm, by simp⟩
    | exact ⟨[_], rfl, by simp [Event.isRejected, Event.given]⟩

/-- Every step keeps the account of what is granted. -/
theorem Step.givenOk {k : Limit} (h : Step quiet l c c') (hI : Inv c) (hc : c.GivenOk k) :
    c'.GivenOk k := by
  have hinitial : c'.conn.rxInitial k.credit = c.conn.rxInitial k.credit := by
    rw [Conn.rxInitial, h.server, h.localParams]
  cases h with
  | strm hs hch =>
    obtain ⟨evs, htrace, hevs⟩ := hs.given k
    refine hc.of_same evs htrace hevs ?_ hinitial
    dsimp only
    rw [hch.rest, hs.frame]
    cases k <;> rfl
  | event e he =>
    exact hc.of_same [e] rfl (fun _ h => List.mem_singleton.1 h ▸ he.given k) rfl hinitial
  | extendOffset n =>
    exact hc.extend (by rfl) rfl (fun _ => rfl) (fun k => by cases k <;> rfl) hinitial
  | extendStreamsBidi n =>
    exact hc.extend (by rfl) rfl (fun _ => rfl) (fun k => by cases k <;> rfl) hinitial
  | extendStreamsUni n =>
    exact hc.extend (by rfl) rfl (fun _ => rfl) (fun k => by cases k <;> rfl) hinitial
  | skip data =>
    exact hc.extend (by rfl) rfl (fun _ => rfl) (fun k => by cases k <;> rfl) hinitial
  | accept =>
    refine hc.of_same [_] rfl (by simp [Event.isRejected, Event.given]) ?_ hinitial
    dsimp only
    rw [Conn.setIdtr_eq]
    cases k <;> rfl
  | reject =>
    have hrecent : recent (c.st.trace ++ [.earlyDataRejected]) = [] := since_concat_of_pos rfl
    have hle := hI.phase.localParams
    rw [Cfg.GivenOk, Cfg.log_trace, hrecent]
    cases k with
    | data => exact (Nat.min_eq_right hle.initialMaxData).symm
    | streamsBidi => exact (Nat.min_eq_right hle.initialMaxStreamsBidi).symm
    | streamsUni => exact (Nat.min_eq_right hle.initialMaxStreamsUni).symm
  | _ =>
    first
    | exact hc.of_same [] (List.append_nil _).symm (by simp) (by cases k <;> rfl) hinitial
    | exact hc.of_same [_] rfl (by simp [Event.isRejected, Event.given, Strm.closeEvent])
        (by cases k <;> rfl) hinitial
    | exact hc.of_same [_, _] rfl (by simp [Event.isRejected, Event.given]) (by cases k <;> rfl)
        hinitial

/-! ## What is received -/

/-- What the application has granted of connection data. -/
def Event.extendedLen : Event → ℕ
  | .extended .data n => n
  | _ => 0

/-- The data that an event passes on, of any stream. -/
def Event.passedLen : Event → ℕ
  | .recvStreamData _ _ _ data => data.length
  | _ => 0

/-- The data that an event drops, of any stream. -/
def Event.droppedLen : Event → ℕ
  | .discarded _ len => len
  | _ => 0

def extendedLen (trace : List Event) : ℕ := (trace.map Event.extendedLen).sum

def passedLen (trace : List Event) : ℕ := (trace.map Event.passedLen).sum

def droppedLen (trace : List Event) : ℕ := (trace.map Event.droppedLen).sum

/-- The limit on data grows with what the application grants, and with what is dropped. -/
theorem given_data : given .data trace = extendedLen trace + droppedLen trace := by
  have hevent (e : Event) : e.given .data = e.extendedLen + e.droppedLen := by
    cases e with
    | extended limit n => cases limit <;> rfl
    | discarded => exact (Nat.zero_add _).symm
    | _ => rfl
  rw [given, extendedLen, droppedLen, ← List.sum_map_add]
  exact congrArg List.sum (List.map_congr_left fun e _ => hevent e)

/-- The data that an event tells of, passed on or dropped. -/
abbrev Event.takenLen (e : Event) : ℕ := e.passedLen + e.droppedLen

/-- What is still to come of the STREAM frame that is being received. -/
def Cfg.toCome (c : Cfg) : ℕ :=
  match c.body with
  | some b => b.left
  | none => 0

/-- The data received is what was passed on, what was dropped, and what is still to come of
    the frame that announced it. -/
def Cfg.ReceivedOk (c : Cfg) : Prop :=
  (c.st.trace.map Event.takenLen).sum + c.toCome = c.conn.rx.offset

/-- Events that tell of as much data as is no longer to come. -/
theorem Cfg.ReceivedOk.tell {n : ℕ} (hc : c.ReceivedOk) (evs : List Event)
    (htrace : c'.st.trace = c.st.trace ++ evs) (hevs : (evs.map Event.takenLen).sum = n)
    (htoCome : n + c'.toCome = c.toCome) (hrx : c'.conn.rx.offset = c.conn.rx.offset) :
    c'.ReceivedOk := by
  rw [ReceivedOk, htrace, List.map_append, List.sum_append, hevs, Nat.add_assoc, htoCome, hrx]
  exact hc

/-- Events that tell of no data. -/
theorem Cfg.ReceivedOk.of_same (hc : c.ReceivedOk) (evs : List Event)
    (htrace : c'.st.trace = c.st.trace ++ evs) (hevs : ∀ e ∈ evs, e.takenLen = 0)
    (hbody : c'.body = c.body) (hrx : c'.conn.rx.offset = c.conn.rx.offset) : c'.ReceivedOk := by
  refine hc.tell evs htrace (n := 0) ?_ ?_ hrx
  · rw [List.sum_eq_zero_iff]
    intro n hn
    obtain ⟨e, he, rfl⟩ := List.mem_map.1 hn
    exact hevs e he
  · rw [Nat.zero_add, Cfg.toCome, Cfg.toCome, hbody]

theorem Event.Plain.takenLen {e : Event} (he : e.Plain) : e.takenLen = 0 := by
  cases e <;> first
    | exact he.elim
    | rfl

theorem StrmStep.receivedOk {conn : Conn} (h : StrmStep quiet c id s s' pushed c')
    (hch : Changes c'.conn conn id s s' pushed) (hI : Inv c) (hc : c.ReceivedOk) :
    Cfg.ReceivedOk { c' with st.conn := conn } := by
  have hrx : conn.rx = c'.conn.rx := by rw [hch.rest]
  cases h with
  | recvStream fr hp =>
    -- the data of the frame is counted when its header is complete, and comes later
    have hbody : c.toCome = 0 := by rw [Cfg.toCome, (hI.pending.received _ hp).2.2.2]
    rw [Cfg.ReceivedOk, hbody, Nat.add_zero] at hc
    rw [Cfg.ReceivedOk, Cfg.toCome]
    dsimp only
    rw [hrx, hc]
    dsimp only
    by_cases hlen : fr.len = 0
    · rw [if_pos hlen, hlen]
    · rw [if_neg hlen]
  | recvFin fr hp =>
    have hbody : c.toCome = 0 := by rw [Cfg.toCome, (hI.pending.received _ hp).2.2.2]
    exact hc.tell (n := 0) [_] rfl rfl (by rw [hbody]; rfl) (by dsimp only; rw [hrx]; rfl)
  | finData hp hbody =>
    have hbody : c.toCome = 0 := by rw [Cfg.toCome, hbody]
    exact hc.tell (n := 0) [] (List.append_nil _).symm rfl (by rw [hbody]; rfl)
      (by dsimp only; rw [hrx])
  | _ =>
    first
    | exact hc.of_same [] (List.append_nil _).symm (by simp) rfl (by dsimp only; rw [hrx])
    | exact hc.of_same [_] rfl (by simp [Event.passedLen, Event.droppedLen]) rfl
        (by dsimp only; rw [hrx]; rfl)

/-- Every step keeps the account of the data received. -/
theorem Step.receivedOk (h : Step quiet l c c') (hI : Inv c) (hc : c.ReceivedOk) :
    c'.ReceivedOk := by
  cases h with
  | strm hs hch => exact hs.receivedOk hch hI hc
  | event e he =>
    exact hc.of_same [e] rfl (fun _ h => List.mem_singleton.1 h ▸ he.takenLen) rfl rfl
  | @piece _ id left fin s data hp hbody hfind hne hlen =>
    refine hc.tell (n := data.length) [_] rfl rfl ?_ rfl
    rw [Cfg.toCome, Cfg.toCome, hbody]
    exact Nat.add_sub_cancel' hlen
  | @skip _ id left fin s data hp hbody hfind hlen =>
    refine hc.tell (n := data.length) [_] rfl ?_ ?_ rfl
    · rw [List.map_singleton, List.sum_singleton]
      exact Nat.zero_add _
    · rw [Cfg.toCome, Cfg.toCome, hbody]
      exact Nat.add_sub_cancel' hlen
  | bodyDone hp hbody =>
    refine hc.tell (n := 0) [] (List.append_nil _).symm rfl ?_ rfl
    rw [Cfg.toCome, Cfg.toCome, hbody]
    rfl
  | accept =>
    refine hc.of_same [_] rfl (by simp [Event.passedLen, Event.droppedLen]) rfl ?_
    dsimp only
    rw [Conn.setIdtr_eq]
  | _ =>
    first
    | exact hc.of_same [] (List.append_nil _).symm (by simp) rfl rfl
    | exact hc.of_same [_] rfl
        (by simp [Event.passedLen, Event.droppedLen, Strm.closeEvent]) rfl rfl
    | exact hc.of_same [_, _] rfl (by simp [Event.passedLen, Event.droppedLen]) rfl rfl

end Dwnx
