import Dwnx.Lts.Run

/-!
# When streams are named

A stream of the peer is named by callbacks from when it is opened until it is closed,
and lives once. A step is sorted by what it does to the streams that there are and to
the history (`Step.named`); from it follows what the history says of the identifiers of
the peer (`Cfg.RemoteOk`) and of those handed out (`Cfg.LocalOk`).
-/

namespace Dwnx

variable {quiet : Prop} {c c' : Cfg} {id : ℕ} {s s' : Strm} {pushed : Bool} {l : Label}

/-! ## Steps -/

/-- An event that begins or ends no stream. -/
def Event.Keeps : Event → Prop
  | .streamOpen _ => False
  | .streamClose .. => False
  | .opened .. => False
  | .earlyDataRejected => False
  | _ => True

/-- What a step does to the streams that there are, and to the history. -/
inductive NameStep (l : Label) (c c' : Cfg) : Prop
  | keep (evs : List Event) (htrace : c'.st.trace = c.st.trace ++ evs)
      (hkeeps : ∀ e ∈ evs, e.Keeps)
      (hevs : ∀ e ∈ evs, ∀ id, e.streamId? = some id →
        c.conn.strms.find id ≠ none ∧ c.pending ≠ .closing id)
      (hdom : ∀ id, c'.conn.strms.find id = none ↔ c.conn.strms.find id = none)
      (hids : c'.conn.bidiIdtr = c.conn.bidiIdtr ∧ c'.conn.uniIdtr = c.conn.uniIdtr ∧
        c'.conn.tx.bidi.nextStreamId = c.conn.tx.bidi.nextStreamId ∧
        c'.conn.tx.uni.nextStreamId = c.conn.tx.uni.nextStreamId)
      (hpending : ∀ id, c'.pending = .closing id ↔ c.pending = .closing id)
  | opened {id : ℕ} (htrace : c'.st.trace = c.st.trace ++ [.opened (bidiStream id) id])
      (hlocal : c.conn.localStream id = true)
      (hfind : ∀ k, c'.conn.strms.find k = none ↔ k ≠ id ∧ c.conn.strms.find k = none)
      (hidtr : c'.conn.bidiIdtr = c.conn.bidiIdtr ∧ c'.conn.uniIdtr = c.conn.uniIdtr)
      (hnext : id = c.conn.nextStreamId id ∧ c'.conn.nextStreamId id = id + 4 ∧
        ∀ k, bidiStream k ≠ bidiStream id → c'.conn.nextStreamId k = c.conn.nextStreamId k)
      (hpending : c'.pending = c.pending)
  | accept {id : ℕ} {idtr : Idtr} (htrace : c'.st.trace = c.st.trace ++ [.streamOpen id])
      (hlocal : c.conn.localStream id = false) (hle : id ≤ maxVarint)
      (hnone : c.conn.strms.find id = none)
      (hfind : ∀ k, c'.conn.strms.find k = none ↔ k ≠ id ∧ c.conn.strms.find k = none)
      (hopen : (c.conn.idtr id).openId id = .ok idtr)
      (hidtr : c'.conn.bidiIdtr = (if bidiStream id then idtr else c.conn.bidiIdtr) ∧
        c'.conn.uniIdtr = if bidiStream id then c.conn.uniIdtr else idtr)
      (hnext : ∀ k, c'.conn.nextStreamId k = c.conn.nextStreamId k)
      (hpending : c'.pending = c.pending)
  | close {id : ℕ} {s : Strm} (hp : c.pending = .shut id) (hfind : c.conn.strms.find id = some s)
      (he : c' = { c.log [s.closeEvent] with pending := .closing id })
  | erase {id : ℕ} (hp : c.pending = .closing id) (hp' : c'.pending = .idle)
      (htrace : c'.st.trace = c.st.trace)
      (hfind : ∀ k, c'.conn.strms.find k = none ↔ k = id ∨ c.conn.strms.find k = none)
      (hids : c'.conn.bidiIdtr = c.conn.bidiIdtr ∧ c'.conn.uniIdtr = c.conn.uniIdtr ∧
        c'.conn.tx.bidi.nextStreamId = c.conn.tx.bidi.nextStreamId ∧
        c'.conn.tx.uni.nextStreamId = c.conn.tx.uni.nextStreamId)
  | forget (hl : l = .reject) (hparams : c.params = false) (hp : c'.pending = .idle)
      (htrace : c'.st.trace = c.st.trace ++ [.earlyDataRejected])
      (hfind : c'.conn.strms = .empty)
      (hids : c'.conn.bidiIdtr = c.conn.bidiIdtr ∧ c'.conn.uniIdtr = c.conn.uniIdtr ∧
        c'.conn.tx.bidi.nextStreamId = 0 ∧ c'.conn.tx.uni.nextStreamId = 2)

theorem Event.Plain.keeps {e : Event} (he : e.Plain) : e.Keeps := by
  cases e <;> trivial

theorem StrmStep.pending_closing (h : StrmStep quiet c id s s' pushed c') (k : ℕ) :
    c'.pending = .closing k ↔ c.pending = .closing k := by
  cases h with
  | recordSent len fin hp => cases fin <;> simp [hp]
  | _ => first | exact Iff.rfl | simp [*]

theorem StrmStep.named (h : StrmStep quiet c id s s' pushed c')
    (hf : c.conn.strms.find id = some s) :
    ∃ evs, c'.st.trace = c.st.trace ++ evs ∧ (∀ e ∈ evs, e.Keeps) ∧
      ∀ e ∈ evs, ∀ id, e.streamId? = some id →
        c.conn.strms.find id ≠ none ∧ c.pending ≠ .closing id := by
  cases h with
  | recvFin fr hp =>
    refine ⟨[_], rfl, by simp [Event.Keeps], fun e he k hk => ?_⟩
    obtain rfl := List.mem_singleton.1 he
    obtain rfl := Option.some.inj hk
    exact ⟨by simp [hf], by simp [hp]⟩
  | _ =>
    first
    | exact ⟨[], (List.append_nil _).symm, by simp, by simp⟩
    | exact ⟨[_], rfl, by simp [Event.Keeps], by simp [Event.streamId?]⟩

theorem Step.named (h : Step quiet l c c') (hI : Inv c) : NameStep l c c' := by
  have hnil : c.st.trace = c.st.trace ++ [] := (List.append_nil _).symm
  cases h with
  | strm h hc =>
    -- A step of a stream neither makes nor removes one.
    have hframe := h.frame
    have hfound := hc.found
    rw [hframe] at hfound
    obtain ⟨evs, htrace, hkeeps, hevs⟩ := h.named hfound
    refine .keep evs htrace hkeeps hevs (fun k => ?_) ?_ h.pending_closing
    · rw [show _ = _ from (hc.find_eq_none (k := k)).eq, hframe]
    · dsimp only
      rw [hc.rest, hframe]
      exact ⟨rfl, rfl, rfl, rfl⟩
  | openBidi hfree hleft =>
    obtain ⟨hb, hl, hnone⟩ := hI.ids.bidi_next
    refine .opened (hb ▸ rfl) hl (fun k => ?_) ⟨rfl, rfl⟩ ⟨?_, ?_, fun k hk => ?_⟩ rfl
    · dsimp only
      rw [KeyMap.find_insert hnone]
      split <;> simp [*]
    · simp [Conn.nextStreamId, hb]
    · simp [Conn.nextStreamId, hb]
    · rw [hb] at hk
      simp [Conn.nextStreamId, hk]
  | openUni hfree hleft =>
    obtain ⟨hb, hl, hnone⟩ := hI.ids.uni_next
    refine .opened (hb ▸ rfl) hl (fun k => ?_) ⟨rfl, rfl⟩ ⟨?_, ?_, fun k hk => ?_⟩ rfl
    · dsimp only
      rw [KeyMap.find_insert hnone]
      split <;> simp [*]
    · simp [Conn.nextStreamId, hb]
    · simp [Conn.nextStreamId, hb]
    · rw [hb] at hk
      simp [Conn.nextStreamId, hk]
  | event e he _ hid =>
    refine .keep [e] rfl (fun _ h => List.mem_singleton.1 h ▸ he.keeps) ?_
      (fun _ => Iff.rfl) ⟨rfl, rfl, rfl, rfl⟩ fun _ => Iff.rfl
    intro e' he' k hk
    obtain rfl := List.mem_singleton.1 he'
    exact hid k hk
  | @accept _ fr id idtr hp hid hlocal hnone _ _ _ hopen =>
    -- An identifier that was received is a varint.
    have hle : id ≤ maxVarint := by
      have hb := (hI.pending.received _ hp).1
      cases fr <;> first
        | (cases hid; done)
        | (obtain rfl := Option.some.inj hid; exact hb.1)
    refine .accept rfl hlocal hle hnone (fun k => ?_) hopen ?_ (fun k => ?_) rfl
    · dsimp only
      rw [KeyMap.find_insert hnone]
      split <;> simp [*]
    · rw [Conn.setIdtr_eq]
      exact ⟨rfl, rfl⟩
    · rw [Conn.setIdtr_eq]
      rfl
  | piece data hp hbody hfind =>
    refine .keep [_] rfl (by simp [Event.Keeps]) ?_ (fun _ => Iff.rfl)
      ⟨rfl, rfl, rfl, rfl⟩ fun _ => Iff.rfl
    intro e he k hk
    obtain rfl := List.mem_singleton.1 he
    obtain rfl := Option.some.inj hk
    exact ⟨by simp [hfind], by simp [hp]⟩
  | close hp hfind => exact .close hp hfind rfl
  | erase hp hfind =>
    refine .erase hp rfl rfl (fun k => ?_) ⟨rfl, rfl, rfl, rfl⟩
    dsimp only
    rw [KeyMap.find_erase]
    split <;> simp [*]
  | reject _ hparams hp => exact .forget rfl hparams hp rfl rfl ⟨rfl, rfl, rfl, rfl⟩
  | announceStop hp hfind =>
    refine .keep [_, _] rfl (by simp [Event.Keeps]) ?_ (fun _ => Iff.rfl) ⟨rfl, rfl, rfl, rfl⟩
      fun _ => by simp [hp]
    simp [Event.streamId?, hfind, hp]
  | announceBidi hp =>
    exact .keep [_, _] rfl (by simp [Event.Keeps]) (by simp [Event.streamId?]) (fun _ => Iff.rfl)
      ⟨rfl, rfl, rfl, rfl⟩ fun _ => by simp [hp]
  | announceUni hp =>
    exact .keep [_, _] rfl (by simp [Event.Keeps]) (by simp [Event.streamId?]) (fun _ => Iff.rfl)
      ⟨rfl, rfl, rfl, rfl⟩ fun _ => by simp [hp]
  -- The other steps name no stream, or one that is there.
  | _ =>
    first
    | exact .keep [] hnil (by simp) (by simp) (fun _ => Iff.rfl) ⟨rfl, rfl, rfl, rfl⟩
        (fun _ => by first | exact Iff.rfl | simp [*])
    | exact .keep [_] rfl (by simp [Event.Keeps]) (by simp [Event.streamId?])
        (fun _ => Iff.rfl) ⟨rfl, rfl, rfl, rfl⟩ (fun _ => by first | exact Iff.rfl | simp [*])

theorem Step.server (h : Step quiet l c c') : c'.conn.server = c.conn.server := by
  by_cases ht : l = .time
  · subst ht
    cases h
    rfl
  by_cases hs : l = .seen
  · subst hs
    cases h
    rfl
  exact (h.sameInput ht hs).server

theorem Step.localStream (h : Step quiet l c c') (id : ℕ) :
    c'.conn.localStream id = c.conn.localStream id := by
  rw [Conn.localStream, Conn.localStream, h.server]

/-! ## Identifiers in use -/

/-- The identifier has been used. -/
def Conn.Used (conn : Conn) (id : ℕ) : Prop :=
  (conn.localStream id = true → id < conn.nextStreamId id) ∧
    (conn.localStream id = false → id ≤ maxVarint ∧ (conn.idtr id).Opened id)

theorem Conn.nextStreamId_congr {conn : Conn} {k : ℕ} (h : bidiStream k = bidiStream id) :
    conn.nextStreamId k = conn.nextStreamId id := by
  rw [nextStreamId, nextStreamId, h]

/-- A step forgets no identifier, unless it rejects early data. -/
theorem Step.used (h : Step quiet l c c') (hI : Inv c) :
    (∀ id, c.conn.Used id → c'.conn.Used id) ∨
      l = .reject ∧ c'.st.trace = c.st.trace ++ [.earlyDataRejected] ∧ c'.pending = .idle := by
  have hsame {id : ℕ} (hid : c.conn.Used id)
      (hlocal : ∀ k, c'.conn.localStream k = c.conn.localStream k)
      (hids : c'.conn.bidiIdtr = c.conn.bidiIdtr ∧ c'.conn.uniIdtr = c.conn.uniIdtr ∧
        c'.conn.tx.bidi.nextStreamId = c.conn.tx.bidi.nextStreamId ∧
        c'.conn.tx.uni.nextStreamId = c.conn.tx.uni.nextStreamId) : c'.conn.Used id := by
    rw [Conn.Used, hlocal, Conn.nextStreamId, Conn.idtr, hids.1, hids.2.1, hids.2.2.1, hids.2.2.2]
    exact hid
  cases h.named hI with
  | keep _ _ _ _ _ hids => exact .inl fun id hid => hsame hid h.localStream hids
  | @opened k _ hk _ hidtr hnext =>
    refine .inl fun id hid => ⟨fun hl => ?_, fun hl => ?_⟩
    · rw [h.localStream] at hl
      refine (hid.1 hl).trans_le ?_
      -- Another stream of the kind goes up, and the other kind stays.
      by_cases hb : bidiStream id = bidiStream k
      · rw [Conn.nextStreamId_congr hb, Conn.nextStreamId_congr hb, hnext.2.1, ← hnext.1]
        omega
      · rw [hnext.2.2 id hb]
    · rw [h.localStream] at hl
      rw [Conn.idtr, hidtr.1, hidtr.2]
      exact hid.2 hl
  | @accept k idtr _ _ hle _ _ hopen hidtr hnext =>
    -- The identifier is used now, and those used before still are.
    obtain ⟨-, -, hopened⟩ := Idtr.openId_ok (hI.ids.hasRoom k) hle hopen
    refine .inl fun id hid => ⟨fun hl => ?_, fun hl => ?_⟩
    · rw [h.localStream] at hl
      rw [hnext]
      exact hid.1 hl
    · rw [h.localStream] at hl
      obtain ⟨hle', ho⟩ := hid.2 hl
      refine ⟨hle', ?_⟩
      rw [Conn.idtr, hidtr.1, hidtr.2]
      rw [Conn.idtr] at ho
      by_cases hb : bidiStream id = bidiStream k
      · rw [Conn.idtr, ← hb] at hopened
        rw [← hb]
        cases hbid : bidiStream id <;> rw [hbid] at ho hopened <;>
          exact (hopened id hle').2 (.inl ho)
      · cases hbid : bidiStream id <;> cases hbk : bidiStream k <;> rw [hbid, hbk] at hb <;>
          first
          | exact absurd rfl hb
          | (rw [hbid] at ho; exact ho)
  | close _ _ he =>
    subst he
    exact .inl fun _ hid => hid
  | erase _ _ _ _ hids => exact .inl fun id hid => hsame hid h.localStream hids
  | forget hl _ hp htrace => exact .inr ⟨hl, htrace, hp⟩

/-- A stream of the table is used. -/
theorem Conn.IdsOk.used {conn : Conn} (h : conn.IdsOk) (hf : conn.strms.find id = some s) :
    conn.Used id := ⟨h.localId id s hf, fun hl =>
      ⟨(h.remoteId id s hf hl).1, (h.remoteId id s hf hl).2.1⟩⟩

/-- A step that does not reject early data forgets no identifier. -/
theorem Step.used_of_ne (h : Step quiet l c c') (hI : Inv c) (hl : l ≠ .reject)
    (hu : c.conn.Used id) :
    c'.conn.Used id := by
  rcases h.used hI with hused | ⟨hl', -⟩
  · exact hused id hu
  · exact absurd hl' hl

/-- A stream that there is after a step is new, as it was, or stepped. -/
theorem Step.find_cases (h : Step quiet l c c') (hI : Inv c)
    (hf : c'.conn.strms.find id = some s') :
    (¬c.conn.Used id ∧ s' = c.conn.newStrm id) ∨
      ∃ s, c.conn.strms.find id = some s ∧
        (s' = s ∨ ∃ pushed c'', StrmStep quiet c id s s' pushed c'') := by
  cases h with
  | @strm _ _ k a a' _ _ hs hc =>
    rcases hc.cases hf with ⟨rfl, rfl⟩ | ⟨-, hf⟩
    · have hfound := hc.found
      rw [hs.frame] at hfound
      exact .inr ⟨a, hfound, .inr ⟨_, _, hs⟩⟩
    · rw [hs.frame] at hf
      exact .inr ⟨s', hf, .inl rfl⟩
  | openBidi =>
    obtain ⟨hb, hl, hnone⟩ := hI.ids.bidi_next
    rcases find_insert_cases hnone hf with ⟨rfl, rfl⟩ | hf
    · refine .inl ⟨fun hu => ?_, rfl⟩
      have := hu.1 hl
      simp [Conn.nextStreamId, hb] at this
    · exact .inr ⟨s', hf, .inl rfl⟩
  | openUni =>
    obtain ⟨hb, hl, hnone⟩ := hI.ids.uni_next
    rcases find_insert_cases hnone hf with ⟨rfl, rfl⟩ | hf
    · refine .inl ⟨fun hu => ?_, rfl⟩
      have := hu.1 hl
      simp [Conn.nextStreamId, hb] at this
    · exact .inr ⟨s', hf, .inl rfl⟩
  | accept hp hid hlocal hnone _ _ _ hopen =>
    rcases find_insert_cases hnone hf with ⟨rfl, rfl⟩ | hf
    · refine .inl ⟨fun hu => ?_, rfl⟩
      obtain ⟨hle, ho⟩ := hu.2 hlocal
      exact (Idtr.openId_ok (hI.ids.hasRoom _) hle hopen).1 ho
    · exact .inr ⟨s', hf, .inl rfl⟩
  | erase => exact .inr ⟨s', (find_erase_cases hf).2, .inl rfl⟩
  | reject => cases hf
  | _ => exact .inr ⟨s', hf, .inl rfl⟩

/-! ## Streams of the peer -/

/-- The event, which names `id`, comes where it may: the opening first, and nothing
    after the close. -/
def Event.InOrder (pre : List Event) (id : ℕ) (e : Event) : Prop :=
  (e = .streamOpen id ∧ ∀ e' ∈ pre, e'.streamId? ≠ some id) ∨
    e ≠ .streamOpen id ∧ Event.streamOpen id ∈ pre ∧ ∀ rx tx, Event.streamClose id rx tx ∉ pre

/-- What the history says of the streams of the peer. -/
structure Cfg.RemoteOk (c : Cfg) : Prop where
  order : Along (fun pre e => ∀ id, c.conn.localStream id = false → e.streamId? = some id →
    e.InOrder pre id) c.st.trace
  fresh : ∀ id ≤ maxVarint, c.conn.localStream id = false → ¬(c.conn.idtr id).Opened id →
    ∀ e ∈ c.st.trace, e.streamId? ≠ some id
  opened : ∀ id ≤ maxVarint, c.conn.localStream id = false → (c.conn.idtr id).Opened id →
    Event.streamOpen id ∈ c.st.trace
  closed : ∀ id, c.conn.localStream id = false → c.conn.strms.find id ≠ none →
    c.pending ≠ .closing id → ∀ rx tx, Event.streamClose id rx tx ∉ c.st.trace

/-- The event neither opens nor closes a stream. -/
def Event.Within (e : Event) : Prop :=
  ∀ id, e ≠ .streamOpen id ∧ ∀ rx tx, e ≠ .streamClose id rx tx

theorem Event.Keeps.within {e : Event} (h : e.Keeps) : e.Within := by
  intro id
  constructor
  · rintro rfl
    exact h
  · rintro rx tx rfl
    exact h

/-- Events about streams of the table come in order. -/
theorem Cfg.RemoteOk.inOrder (h : c.RemoteOk) (hI : Inv c) (hl : c.conn.localStream id = false)
    (hf : c.conn.strms.find id ≠ none) (hp : c.pending ≠ .closing id) {e : Event}
    (he : e ≠ .streamOpen id) (evs : List Event) (hevs : ∀ e ∈ evs, e.Within) :
    e.InOrder (c.st.trace ++ evs) id := by
  obtain ⟨s, hs⟩ := Option.ne_none_iff_exists'.1 hf
  obtain ⟨hle, hopened, -⟩ := hI.ids.remoteId id s hs hl
  refine .inr ⟨he, List.mem_append_left _ (h.opened id hle hl hopened), fun rx tx hc => ?_⟩
  rcases List.mem_append.1 hc with hc | hc
  exacts [h.closed id hl hf hp rx tx hc, (hevs _ hc id).2 rx tx rfl]

/-- Identifiers of the peer of one kind differ in their upper bits. -/
theorem eq_of_ord_eq {conn : Conn} {k : ℕ} (hl : conn.localStream id = false)
    (hk : conn.localStream k = false) (hkind : bidiStream k = bidiStream id) (h : k / 4 = id / 4) :
    k = id := by
  unfold Conn.localStream at hl hk
  unfold bidiStream at hkind
  have hpar : k % 2 = id % 2 := by
    have : (decide (k % 2 = 1)) = decide (id % 2 = 1) := by
      cases hs : conn.server <;> rw [hs] at hl hk <;> simp_all
    rw [decide_eq_decide] at this
    omega
  rw [decide_eq_decide] at hkind
  omega

/-- Events about streams of the table are added, and no stream of the peer is opened. -/
theorem Cfg.RemoteOk.append (hr : c.RemoteOk) (hI : Inv c)
    (hlocal : ∀ id, c'.conn.localStream id = c.conn.localStream id) (evs : List Event)
    (htrace : c'.st.trace = c.st.trace ++ evs) (hwithin : ∀ e ∈ evs, e.Within)
    (hevs : ∀ e ∈ evs, ∀ id, e.streamId? = some id →
      c.conn.strms.find id ≠ none ∧ c.pending ≠ .closing id)
    (hidtr : c'.conn.bidiIdtr = c.conn.bidiIdtr ∧ c'.conn.uniIdtr = c.conn.uniIdtr)
    (hleft : ∀ id, c.conn.localStream id = false → c'.conn.strms.find id ≠ none →
      c'.pending ≠ .closing id → c.conn.strms.find id ≠ none ∧ c.pending ≠ .closing id) :
    c'.RemoteOk := by
  have hidtr (id : ℕ) : c'.conn.idtr id = c.conn.idtr id := by
    rw [Conn.idtr, Conn.idtr, hidtr.1, hidtr.2]
  refine ⟨?_, fun id hle hl ho e he => ?_, fun id hle hl ho => ?_, fun id hl hf hp rx tx => ?_⟩
  · simp only [hlocal, htrace]
    refine along_append.2 ⟨hr.order, fun pre e post he id hl hid => ?_⟩
    have hmem : e ∈ evs := by simp [he]
    obtain ⟨hf, hp⟩ := hevs e hmem id hid
    exact hr.inOrder hI hl hf hp (hwithin e hmem id).1 _
      fun e' he' => hwithin e' (by simp [he, he'])
  · rw [hlocal] at hl
    rw [hidtr] at ho
    rw [htrace] at he
    rcases List.mem_append.1 he with he | he
    · exact hr.fresh id hle hl ho e he
    · intro hid
      obtain ⟨s, hs⟩ := Option.ne_none_iff_exists'.1 (hevs e he id hid).1
      exact ho (hI.ids.remoteId id s hs hl).2.1
  · rw [htrace]
    exact List.mem_append_left _ (hr.opened id hle (hlocal id ▸ hl) (hidtr id ▸ ho))
  · rw [hlocal] at hl
    obtain ⟨hf, hp⟩ := hleft id hl hf hp
    rw [htrace, List.mem_append, not_or]
    exact ⟨hr.closed id hl hf hp rx tx, fun he => (hwithin _ he id).2 rx tx rfl⟩

/-- One stream of the peer is opened, and no other. -/
theorem Cfg.RemoteOk.accept (hr : c.RemoteOk) (hI : Inv c)
    (hlocal : ∀ id, c'.conn.localStream id = c.conn.localStream id) {idtr : Idtr}
    (htrace : c'.st.trace = c.st.trace ++ [.streamOpen id]) (hid : c.conn.localStream id = false)
    (hle : id ≤ maxVarint)
    (hfind : ∀ k, c'.conn.strms.find k = none ↔ k ≠ id ∧ c.conn.strms.find k = none)
    (hopen : (c.conn.idtr id).openId id = .ok idtr)
    (hidtr : c'.conn.bidiIdtr = (if bidiStream id then idtr else c.conn.bidiIdtr) ∧
      c'.conn.uniIdtr = if bidiStream id then c.conn.uniIdtr else idtr)
    (hpending : c'.pending = c.pending) : c'.RemoteOk := by
  obtain ⟨hnew, -, hopened⟩ := Idtr.openId_ok (hI.ids.hasRoom id) hle hopen
  have hiff (k : ℕ) (hk : k ≤ maxVarint) (hl : c.conn.localStream k = false) :
      (c'.conn.idtr k).Opened k ↔ (c.conn.idtr k).Opened k ∨ k = id := by
    unfold Conn.idtr at hopened ⊢
    rw [hidtr.1, hidtr.2]
    by_cases hb : bidiStream k = bidiStream id
    · rw [hb]
      have hord : k / 4 = id / 4 ↔ k = id :=
        ⟨eq_of_ord_eq hid hl hb, fun h => h ▸ rfl⟩
      rw [← hord, ← hopened k hk]
      cases bidiStream id <;> rfl
    · have hne : k ≠ id := fun h => hb (h ▸ rfl)
      rw [or_iff_left hne]
      cases hbk : bidiStream k <;> cases hbi : bidiStream id <;> rw [hbk, hbi] at hb <;>
        first | exact absurd rfl hb | rfl
  refine ⟨?_, fun k hk hl ho e he => ?_, fun k hk hl ho => ?_, fun k hl hf hp rx tx => ?_⟩
  · simp only [hlocal, htrace]
    refine along_concat.2 ⟨hr.order, fun k hl hk => ?_⟩
    obtain rfl := Option.some.inj hk
    exact .inl ⟨rfl, hr.fresh id hle hid hnew⟩
  · rw [hlocal] at hl
    rw [hiff k hk hl, not_or] at ho
    rw [htrace] at he
    rcases List.mem_append.1 he with he | he
    · exact hr.fresh k hk hl ho.1 e he
    · obtain rfl := List.mem_singleton.1 he
      exact fun h => ho.2 (Option.some.inj h).symm
  · rw [hlocal] at hl
    rw [htrace]
    rcases (hiff k hk hl).1 ho with ho | rfl
    exacts [List.mem_append_left _ (hr.opened k hk hl ho), by simp]
  · rw [hlocal] at hl
    rw [htrace, List.mem_append, not_or]
    refine ⟨?_, by simp⟩
    by_cases hk : k = id
    · subst hk
      exact fun he => hr.fresh k hle hid hnew _ he rfl
    · exact hr.closed k hl (fun hn => hf ((hfind k).2 ⟨hk, hn⟩)) (hpending ▸ hp) rx tx

/-- A stream is closed, which is then what is pending. -/
theorem Cfg.RemoteOk.close (hr : c.RemoteOk) (hI : Inv c) (hp : c.pending = .shut id)
    (hfind : c.conn.strms.find id = some s) :
    { c.log [s.closeEvent] with pending := .closing id : Cfg }.RemoteOk := by
  have hs : s.closeEvent.streamId? = some id := congrArg some (hI.queue.streamId id s hfind)
  refine ⟨?_, fun k hk hl ho e he => ?_, fun k hk hl ho => ?_, fun k hl hf hk rx tx he => ?_⟩
  · refine along_concat.2 ⟨hr.order, fun k hl hk => ?_⟩
    obtain rfl := Option.some.inj (hs.symm.trans hk)
    have := hr.inOrder hI (e := s.closeEvent) hl (by simp [hfind]) (by simp [hp])
      (by rintro ⟨⟩) [] (by simp)
    rwa [List.append_nil] at this
  · rcases List.mem_append.1 he with he | he
    · exact hr.fresh k hk hl ho e he
    · obtain rfl := List.mem_singleton.1 he
      intro hid
      obtain rfl := Option.some.inj (hs.symm.trans hid)
      exact ho (hI.ids.remoteId id s hfind hl).2.1
  · exact List.mem_append_left _ (hr.opened k hk hl ho)
  · rcases List.mem_append.1 he with he | he
    · exact hr.closed k hl hf (by simp [hp]) rx tx he
    · refine hk ?_
      have := congrArg Event.streamId? (List.mem_singleton.1 he)
      rw [hs] at this
      exact congrArg Pending.closing (Option.some.inj this).symm

theorem Step.remoteOk (h : Step quiet l c c') (hI : Inv c) (hr : c.RemoteOk) : c'.RemoteOk := by
  have hlocal := h.localStream
  cases h.named hI with
  | keep evs htrace hkeeps hevs hdom hids hpending =>
    exact hr.append hI hlocal evs htrace (fun e he => (hkeeps e he).within) hevs ⟨hids.1, hids.2.1⟩
      fun id _ hf hp => ⟨fun hn => hf ((hdom id).2 hn), fun hn => hp ((hpending id).2 hn)⟩
  | @opened id htrace hid hfind hidtr _ hpending =>
    refine hr.append hI hlocal _ htrace (by simp [Event.Within]) (by simp [Event.streamId?]) hidtr
      fun k hl hf hp => ⟨fun hn => hf ((hfind k).2 ⟨?_, hn⟩), hpending ▸ hp⟩
    rintro rfl
    cases hl.symm.trans hid
  | accept htrace hid hle _ hfind hopen hidtr _ hpending =>
    exact hr.accept hI hlocal htrace hid hle hfind hopen hidtr hpending
  | close hp hfind he => exact he ▸ hr.close hI hp hfind
  | @erase id hp _ htrace hfind hids =>
    refine hr.append hI hlocal [] (by rw [htrace, List.append_nil]) (by simp) (by simp)
      ⟨hids.1, hids.2.1⟩ fun k _ hf _ => ?_
    obtain ⟨hk, hn⟩ := not_or.1 fun h => hf ((hfind k).2 h)
    refine ⟨hn, ?_⟩
    rw [hp]
    rintro ⟨⟩
    exact hk rfl
  | forget _ _ _ htrace hfind hids =>
    refine hr.append hI hlocal _ htrace (by simp [Event.Within]) (by simp [Event.streamId?])
      ⟨hids.1, hids.2.1⟩ fun k _ hf _ => ?_
    rw [hfind] at hf
    exact absurd rfl hf

/-! ## Streams of the local endpoint -/

/-- Early data has been rejected. -/
def Event.isRejected : Event → Bool
  | .earlyDataRejected => true
  | _ => false

/-- The identifier handed out. -/
def Event.opened? : Event → Option ℕ
  | .opened _ id => some id
  | _ => none

/-- The identifiers handed out since early data was rejected, if it was. -/
def openedIds (trace : List Event) : List ℕ :=
  (since Event.isRejected trace).filterMap Event.opened?

/-- What the history says of the streams of the local endpoint. -/
structure Cfg.LocalOk (c : Cfg) : Prop where
  isLocal : ∀ id ∈ openedIds c.st.trace,
    c.conn.localStream id = true ∧ id < c.conn.nextStreamId id
  nodup : (openedIds c.st.trace).Nodup
  count : ∀ id, (openedIds c.st.trace).countP (fun k => bidiStream k = bidiStream id) =
    c.conn.nextStreamId id / 4

/-- The identifiers handed out are of the local endpoint, and of the kind asked for. -/
def Cfg.KindOk (c : Cfg) : Prop :=
  ∀ bidi id, Event.opened bidi id ∈ c.st.trace →
    c.conn.localStream id = true ∧ bidiStream id = bidi

theorem Step.kindOk (h : Step quiet l c c') (hI : Inv c) (hk : c.KindOk) : c'.KindOk := by
  have hlocal := h.localStream
  have hother {evs : List Event} (htrace : c'.st.trace = c.st.trace ++ evs)
      (hevs : ∀ bidi id, Event.opened bidi id ∉ evs) : c'.KindOk := by
    intro bidi id hid
    rw [htrace, List.mem_append, or_iff_left (hevs bidi id)] at hid
    rw [hlocal]
    exact hk bidi id hid
  cases h.named hI with
  | keep _ htrace hkeeps => exact hother htrace fun _ _ hid => hkeeps _ hid
  | @opened k htrace hlocal' =>
    intro bidi id hid
    rw [hlocal]
    rw [htrace] at hid
    rcases List.mem_append.1 hid with hid | hid
    · exact hk bidi id hid
    · cases List.mem_singleton.1 hid
      exact ⟨hlocal', rfl⟩
  | accept htrace => exact hother htrace (by simp)
  | close _ _ he =>
    subst he
    exact hother rfl (by simp [Strm.closeEvent])
  | erase _ _ htrace => exact hother (htrace.trans (List.append_nil _).symm) (by simp)
  | forget _ _ _ htrace => exact hother htrace (by simp)

theorem openedIds_append {trace evs : List Event} (h : ∀ e ∈ evs, e.Keeps) :
    openedIds (trace ++ evs) = openedIds trace := by
  have hr (e : Event) (he : e ∈ evs) : e.isRejected = false := by
    have := h e he
    cases e <;> first | rfl | exact this.elim
  have ho : evs.filterMap Event.opened? = [] := by
    refine List.filterMap_eq_nil_iff.2 fun e he => ?_
    have := h e he
    cases e <;> first | rfl | exact this.elim
  rw [openedIds, since_append hr, List.filterMap_append, ho, List.append_nil]
  rfl

theorem Step.localOk (h : Step quiet l c c') (hI : Inv c) (hl : c.LocalOk) : c'.LocalOk := by
  have hlocal := h.localStream
  -- Where nothing is opened, nothing changes.
  have hsame (htrace : openedIds c'.st.trace = openedIds c.st.trace)
      (hnext : ∀ k, c'.conn.nextStreamId k = c.conn.nextStreamId k) : c'.LocalOk := by
    refine ⟨fun k hk => ?_, htrace ▸ hl.nodup, fun k => ?_⟩
    · rw [hlocal, hnext]
      exact hl.isLocal k (htrace ▸ hk)
    · rw [htrace, hnext]
      exact hl.count k
  have hother (e : Event) (hr : e.isRejected = false) (ho : e.opened? = none)
      (htrace : c'.st.trace = c.st.trace ++ [e]) :
      openedIds c'.st.trace = openedIds c.st.trace := by
    rw [htrace, openedIds, since_concat_of_neg hr, List.filterMap_append]
    simp [ho, openedIds]
  cases h.named hI with
  | keep _ htrace hkeeps _ _ hids =>
    refine hsame (htrace ▸ openedIds_append hkeeps) fun k => ?_
    rw [Conn.nextStreamId, Conn.nextStreamId, hids.2.2.1, hids.2.2.2]
  | @opened id htrace hid _ _ hnext =>
    have htrace' : openedIds c'.st.trace = openedIds c.st.trace ++ [id] := by
      rw [htrace, openedIds, since_concat_of_neg rfl, List.filterMap_append]
      rfl
    obtain ⟨hid', hnext, hother⟩ := hnext
    -- The identifier handed out is the next of its kind, above all before.
    refine ⟨fun k hk => ?_, ?_, fun k => ?_⟩
    · rw [htrace'] at hk
      rw [hlocal]
      rcases List.mem_append.1 hk with hk | hk
      · refine ⟨(hl.isLocal k hk).1, (hl.isLocal k hk).2.trans_le ?_⟩
        by_cases hb : bidiStream k = bidiStream id
        · rw [Conn.nextStreamId_congr hb, Conn.nextStreamId_congr hb, hnext, ← hid']
          omega
        · rw [hother k hb]
      · obtain rfl := List.mem_singleton.1 hk
        exact ⟨hid, by rw [hnext]; omega⟩
    · rw [htrace']
      refine List.nodup_append.2 ⟨hl.nodup, List.nodup_singleton _, ?_⟩
      rintro a ha b hb rfl
      obtain rfl := List.mem_singleton.1 hb
      have := (hl.isLocal a ha).2
      omega
    -- It counts for its own kind only.
    · rw [htrace', List.countP_append, hl.count, List.countP_singleton]
      by_cases hb : bidiStream id = bidiStream k
      · rw [Conn.nextStreamId_congr hb.symm, Conn.nextStreamId_congr hb.symm, hnext, ← hid']
        simp [hb]
      · rw [hother k fun h => hb h.symm]
        simp [hb]
  | accept htrace _ _ _ _ _ _ hnext => exact hsame (hother _ rfl rfl htrace) hnext
  | close _ _ he =>
    subst he
    exact hsame (hother _ rfl rfl rfl) fun _ => rfl
  | erase _ _ htrace _ hids =>
    refine hsame (htrace ▸ rfl) fun k => ?_
    rw [Conn.nextStreamId, Conn.nextStreamId, hids.2.2.1, hids.2.2.2]
  -- After a rejection nothing has been opened.
  | forget _ _ _ htrace _ hids =>
    have htrace' : openedIds c'.st.trace = [] := by
      rw [htrace, openedIds, since_concat_of_pos rfl]
      rfl
    refine ⟨by simp [htrace'], by simp [htrace'], fun k => ?_⟩
    rw [htrace', Conn.nextStreamId, hids.2.2.1, hids.2.2.2]
    cases bidiStream k <;> rfl

end Dwnx
