import Dwnx.Lts.Names

/-!
# Limits on sending

Unless early data is rejected, no step moves a limit on sending backwards
(`Step.raises`): not the frames that raise limits, nor the transport parameters, which
replace those remembered.
-/

namespace Dwnx

variable {quiet : Prop} {c c' c₀ : Cfg} {id : ℕ} {s s' : Strm} {pushed : Bool} {l : Label}

/-! ## Forward steps -/

/-- A step goes forward if it does not reject early data, and sets it up only once and
    before the parameters of the peer have been taken in. -/
def Forward (quiet : Prop) (c c' : Cfg) : Prop :=
  ∃ l, Step quiet l c c' ∧ l ≠ .reject ∧
    (l = .early → c.params = false ∧ c.conn.flags.earlyTransportParamsSet = false)

/-- A step forward is any but those about early data. -/
theorem Step.forward (h : Step quiet l c c') (he : l ≠ .early) (hr : l ≠ .reject) :
    Forward quiet c c' := ⟨l, h, hr, fun h => absurd h he⟩

/-- Forward steps lead from one configuration to the other. -/
def Forwards (quiet : Prop) : Cfg → Cfg → Prop := Relation.ReflTransGen (Forward quiet)

/-- Steps forward are steps. -/
theorem Forwards.steps (h : Forwards quiet c c') : Steps quiet c c' := by
  induction h with
  | refl => exact .refl
  | tail _ hs ih =>
    obtain ⟨l, hs, -⟩ := hs
    exact ih.tail hs

/-- What every forward step from a sound configuration keeps is kept by any number. -/
theorem Forwards.keep {P : Cfg → Prop} (h : Forwards quiet c₀ c) (h₀ : Sound quiet c₀)
    (hP : ∀ c c', Sound quiet c → P c → Forward quiet c c' → P c') (hp : P c₀) :
    Sound quiet c ∧ P c := by
  induction h with
  | refl => exact ⟨h₀, hp⟩
  | tail _ hs ih =>
    have hc' := hP _ _ ih.1 ih.2 hs
    obtain ⟨l, hs, -⟩ := hs
    exact ⟨hs.sound ih.1, hc'⟩

/-- Runs forward from a sound configuration keep the invariants. -/
theorem Forwards.timed (h₀ : Sound quiet c₀) : Timed quiet (Forwards quiet c₀) where
  inv _ h := (h.steps.sound h₀).toInv
  write _ h := (h.steps.sound h₀).write
  send _ h := (h.steps.sound h₀).send
  step _ _ h hs := h.tail (hs.forward nofun nofun)
  time _ _ h hs := h.tail (hs.forward nofun nofun)

/-! ## Limits -/

/-- No limit of `conn'` is below that of `conn`, on the connection, the streams to be
    opened, and the streams there were. -/
structure Conn.LimitsLe (conn conn' : Conn) : Prop where
  maxOffset : conn.tx.maxOffset ≤ conn'.tx.maxOffset
  bidi : conn.tx.bidi.maxStreams ≤ conn'.tx.bidi.maxStreams
  uni : conn.tx.uni.maxStreams ≤ conn'.tx.uni.maxStreams
  strms : ∀ id s s', conn.findStream id = some s → conn'.findStream id = some s' →
    s.tx.maxOffset ≤ s'.tx.maxOffset

/-- The same, of all streams: one that is there later is new, or has at least the limit
    that it had. -/
structure Conn.Raises (conn conn' : Conn) : Prop where
  maxOffset : conn.tx.maxOffset ≤ conn'.tx.maxOffset
  bidi : conn.tx.bidi.maxStreams ≤ conn'.tx.bidi.maxStreams
  uni : conn.tx.uni.maxStreams ≤ conn'.tx.uni.maxStreams
  used : ∀ id, conn.Used id → conn'.Used id
  strms : ∀ id s', conn'.strms.find id = some s' → ¬conn.Used id ∨
    ∃ s, conn.strms.find id = some s ∧ s.tx.maxOffset ≤ s'.tx.maxOffset

/-- No limit is raised. -/
theorem Conn.Raises.refl (conn : Conn) : conn.Raises conn :=
  ⟨le_rfl, le_rfl, le_rfl, fun _ h => h, fun _ s' h => .inr ⟨s', h, le_rfl⟩⟩

/-- Limits are raised one after another. -/
theorem Conn.Raises.trans {conn₁ conn₂ conn₃ : Conn} (h : conn₁.Raises conn₂)
    (h' : conn₂.Raises conn₃) : conn₁.Raises conn₃ where
  maxOffset := h.maxOffset.trans h'.maxOffset
  bidi := h.bidi.trans h'.bidi
  uni := h.uni.trans h'.uni
  used id hu := h'.used id (h.used id hu)
  strms id s' hf := by
    rcases h'.strms id s' hf with hn | ⟨s₂, hf₂, hle₂⟩
    · exact .inl fun hu => hn (h.used id hu)
    · rcases h.strms id s₂ hf₂ with hn | ⟨s, hf₁, hle₁⟩
      · exact .inl hn
      · exact .inr ⟨s, hf₁, hle₁.trans hle₂⟩

/-- The limits after are no lower. -/
theorem Conn.Raises.limitsLe {conn conn' : Conn} (h : conn.Raises conn') (hids : conn.IdsOk) :
    conn.LimitsLe conn' where
  maxOffset := h.maxOffset
  bidi := h.bidi
  uni := h.uni
  strms id s s' hf hf' := by
    rcases h.strms id s' hf' with hn | ⟨a, ha, hle⟩
    · exact absurd (hids.used hf) hn
    · obtain rfl := Option.some.inj (hf.symm.trans ha)
      exact hle

/-- No step takes credit of a stream back. -/
theorem StrmStep.maxOffset_le (h : StrmStep quiet c id s s' pushed c') :
    s.tx.maxOffset ≤ s'.tx.maxOffset := by
  cases h with
  | maxStreamData fr _ _ hmax => exact hmax.le
  | raise params _ _ hmax => exact hmax.le
  | extend n _ hs' =>
    subst hs'
    exact le_rfl
  | _ => exact le_rfl

/-- The limits that a step leaves alone, or raises. -/
theorem Step.limits_le (h : Step quiet l c c') (hI : Inv c) (hr : l ≠ .reject)
    (he : l = .early → c.params = false ∧ c.conn.flags.earlyTransportParamsSet = false) :
    c.conn.tx.maxOffset ≤ c'.conn.tx.maxOffset ∧
      c.conn.tx.bidi.maxStreams ≤ c'.conn.tx.bidi.maxStreams ∧
      c.conn.tx.uni.maxStreams ≤ c'.conn.tx.uni.maxStreams := by
  have hp := hI.phase
  -- without remembered parameters, nothing may be sent
  have hzero (hparams : c.params = false) (hset : c.conn.flags.earlyTransportParamsSet = false) :
      c.conn.tx.maxOffset = 0 ∧ c.conn.tx.bidi.maxStreams = 0 ∧ c.conn.tx.uni.maxStreams = 0 := by
    rw [hp.maxOffset hparams, hp.bidi hparams, hp.uni hparams, hp.default hparams hset]
    exact ⟨rfl, rfl, rfl⟩
  cases h with
  | strm hs hc =>
    dsimp only
    rw [hc.rest, hs.frame]
    exact ⟨le_rfl, le_rfl, le_rfl⟩
  | rxParams params _ _ _ _ hparams _ hearly =>
    cases hset : c.conn.flags.earlyTransportParamsSet with
    | false =>
      obtain ⟨h1, h2, h3⟩ := hzero hparams hset
      rw [h1, h2, h3]
      exact ⟨Nat.zero_le _, Nat.zero_le _, Nat.zero_le _⟩
    | true =>
      have hw := hearly hset
      rw [hp.maxOffset hparams, hp.bidi hparams, hp.uni hparams]
      exact ⟨hw.initialMaxData, hw.initialMaxStreamsBidi, hw.initialMaxStreamsUni⟩
  | accept =>
    rw [Conn.setIdtr_eq]
    exact ⟨le_rfl, le_rfl, le_rfl⟩
  | recvMaxData _ hmax => exact ⟨hmax.le, le_rfl, le_rfl⟩
  | recvMaxStreamsBidi _ _ hmax => exact ⟨le_rfl, hmax.le, le_rfl⟩
  | recvMaxStreamsUni _ _ hmax => exact ⟨le_rfl, le_rfl, hmax.le⟩
  | set0rtt =>
    obtain ⟨hparams, hset⟩ := he rfl
    obtain ⟨h1, h2, h3⟩ := hzero hparams hset
    rw [h1, h2, h3]
    exact ⟨Nat.zero_le _, Nat.zero_le _, Nat.zero_le _⟩
  | reject => exact absurd rfl hr
  | _ => exact ⟨le_rfl, le_rfl, le_rfl⟩

/-- A step forward takes no limit back. -/
theorem Forward.raises (h : Forward quiet c c') (hI : Inv c) : c.conn.Raises c'.conn := by
  obtain ⟨l, hs, hr, he⟩ := h
  obtain ⟨h1, h2, h3⟩ := hs.limits_le hI hr he
  refine ⟨h1, h2, h3, fun _ hu => hs.used_of_ne hI hr hu, fun id s' hf => ?_⟩
  rcases hs.find_cases hI hf with ⟨hn, -⟩ | ⟨s, hfind, rfl | ⟨_, _, hstrm⟩⟩
  · exact .inl hn
  · exact .inr ⟨s', hfind, le_rfl⟩
  · exact .inr ⟨s, hfind, hstrm.maxOffset_le⟩

/-- Forward steps raise limits, if they change them. -/
theorem Forwards.raises (h : Forwards quiet c₀ c) (h₀ : Sound quiet c₀) :
    c₀.conn.Raises c.conn :=
  (h.keep (P := fun c => c₀.conn.Raises c.conn) h₀
    (fun _ _ hs hr hf => hr.trans (hf.raises hs.toInv)) (.refl _)).2

/-! ## Bounds -/

/-- A step of a stream leaves the parameters alone. -/
theorem StrmStep.params (h : StrmStep quiet c id s s' pushed c') : c'.params = c.params := by
  cases h <;> rfl

/-- Once the parameters of the peer have come, the limits on streams are ones that a
    MAX_STREAMS frame can carry. -/
def Cfg.StreamsOk (c : Cfg) : Prop :=
  c.params = true → c.conn.tx.bidi.maxStreams ≤ maxStreams ∧ c.conn.tx.uni.maxStreams ≤ maxStreams

/-- A step forward keeps what is known of the streams. -/
theorem Forward.streamsOk (h : Forward quiet c c') (hc : c.StreamsOk) : c'.StreamsOk := by
  obtain ⟨l, hs, hr, he⟩ := h
  cases hs with
  | strm hs hc' =>
    intro hparams
    have hp := hs.params
    dsimp only
    rw [hc'.rest, hs.frame]
    exact hc (hp ▸ hparams)
  | rxParams params _ _ _ _ _ hb => exact fun _ => ⟨hb.maxStreamsBidi, hb.maxStreamsUni⟩
  | accept =>
    rw [Cfg.StreamsOk, Conn.setIdtr_eq]
    exact hc
  | recvMaxStreamsBidi _ _ _ hle => exact fun hparams => ⟨hle, (hc hparams).2⟩
  | recvMaxStreamsUni _ _ _ hle => exact fun hparams => ⟨(hc hparams).1, hle⟩
  | set0rtt =>
    intro hparams
    cases hparams.symm.trans (he rfl).1
  | reject => exact absurd rfl hr
  | _ => exact hc

/-! ## Remembered parameters -/

/-- The parameters remembered are `early`, as long as those of the peer have not come. -/
def Cfg.Remembers (c : Cfg) (early : TransportParams) : Prop :=
  c.params = false → c.conn.flags.earlyTransportParamsSet = true ∧ c.conn.remoteParams = early

/-- A step forward keeps what is remembered of early data. -/
theorem Forward.remembers {early : TransportParams} (h : Forward quiet c c')
    (hc : c.Remembers early) : c'.Remembers early := by
  obtain ⟨l, hs, hr, he⟩ := h
  cases hs with
  | strm hs hc' =>
    intro hparams
    have hp := hs.params
    dsimp only
    rw [hc'.rest, hs.frame]
    exact hc (hp ▸ hparams)
  | rxParams => exact nofun
  | accept =>
    rw [Cfg.Remembers, Conn.setIdtr_eq]
    exact hc
  | set0rtt =>
    obtain ⟨hparams, hset⟩ := he rfl
    cases hset.symm.trans (hc hparams).1
  | reject => exact absurd rfl hr
  | _ => exact hc

end Dwnx
