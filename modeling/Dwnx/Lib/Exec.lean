import Mathlib.Tactic.Common

/-!
# Computations with an environment, a state and errors

`Exec ρ ε σ α` is a computation that reads an environment `ρ`, updates a state
`σ` and ends either with a value or with an error. The state reached survives
an error, as the memory of a C program survives a negative return code.

Properties are stated by weakest preconditions: `wp x Q E r s` says that `x`,
run from `s`, ends in a value satisfying `Q` or in an error satisfying `E`.
The rules (`wp_bind`, `wp_ite`, …) are simp lemmas: unfolding a program and
simplifying leaves its verification condition; a call is discharged from the
specification of the callee by `wp_mono`.
-/

/-- A computation reading `ρ`, updating `σ`, ending in a value or an error. -/
def Exec (ρ ε σ α : Type) := ρ → σ → Except ε α × σ

namespace Exec

variable {ρ ε σ τ α β : Type}

instance : Monad (Exec ρ ε σ) where
  pure a := fun _ s => (.ok a, s)
  bind x f := fun r s =>
    match x r s with
    | (.ok a, t) => f a r t
    | (.error e, t) => (.error e, t)

instance : MonadExceptOf ε (Exec ρ ε σ) where
  throw e := fun _ s => (.error e, s)
  tryCatch x h := fun r s =>
    match x r s with
    | (.ok a, t) => (.ok a, t)
    | (.error e, t) => h e r t

instance : MonadStateOf σ (Exec ρ ε σ) where
  get := fun _ s => (.ok s, s)
  set t := fun _ _ => (.ok ⟨⟩, t)
  modifyGet f := fun _ s => (.ok (f s).1, (f s).2)

instance : MonadReaderOf ρ (Exec ρ ε σ) where
  read := fun r s => (.ok r, s)

/-- `y` if `c` holds, and nothing otherwise. -/
def when (c : Prop) [Decidable c] (y : Exec ρ ε σ Unit) : Exec ρ ε σ Unit :=
  if c then y else pure ()

/-- A computed result, as a computation. -/
def ofExcept (x : Except ε α) : Exec ρ ε σ α := fun _ s => (x, s)

/-- A computation on a part of the state: `get` finds the part, `set` puts it
    back. -/
def zoom (get : τ → σ) (set : σ → τ → τ) (x : Exec ρ ε σ α) : Exec ρ ε τ α := fun r t =>
  ((x r (get t)).1, set (x r (get t)).2 t)

/-- A computation is run, and what follows it in the state it leaves. -/
theorem run_bind (x : Exec ρ ε σ α) (f : α → Exec ρ ε σ β) (r : ρ) (s : σ) :
    (x >>= f) r s = match x r s with
      | (.ok a, t) => f a r t
      | (.error e, t) => (.error e, t) := rfl

/-- The handler runs in the state in which the computation failed. -/
theorem run_tryCatch (x : Exec ρ ε σ α) (h : ε → Exec ρ ε σ α) (r : ρ) (s : σ) :
    (tryCatch x h) r s = match x r s with
      | (.ok a, t) => (.ok a, t)
      | (.error e, t) => h e r t := rfl

/-! ## Weakest preconditions -/

/-- `x`, run from `s` in `r`, ends in a value with `Q` or in an error with `E`. -/
def wp (x : Exec ρ ε σ α) (Q : α → σ → Prop) (E : ε → σ → Prop) (r : ρ) (s : σ) : Prop :=
  match x r s with
  | (.ok a, t) => Q a t
  | (.error e, t) => E e t

variable {x : Exec ρ ε σ α} {Q Q' : α → σ → Prop} {E E' : ε → σ → Prop} {r : ρ} {s : σ}

@[simp] theorem wp_pure (a : α) : wp (pure a : Exec ρ ε σ α) Q E r s = Q a s := rfl

@[simp] theorem wp_throw (e : ε) : wp (throw e : Exec ρ ε σ α) Q E r s = E e s := rfl

@[simp] theorem wp_bind (f : α → Exec ρ ε σ β) {Q : β → σ → Prop} :
    wp (x >>= f) Q E r s = wp x (fun a t => wp (f a) Q E r t) E r s := by
  unfold wp
  rw [run_bind]
  rcases x r s with ⟨_ | _, _⟩ <;> rfl

@[simp] theorem wp_tryCatch (h : ε → Exec ρ ε σ α) :
    wp (tryCatch x h) Q E r s = wp x Q (fun e t => wp (h e) Q E r t) r s := by
  unfold wp
  rw [run_tryCatch]
  rcases x r s with ⟨_ | _, _⟩ <;> rfl

@[simp] theorem wp_get {Q : σ → σ → Prop} :
    wp (MonadStateOf.get : Exec ρ ε σ σ) Q E r s = Q s s := rfl

@[simp] theorem wp_get' {Q : σ → σ → Prop} :
    wp (get : Exec ρ ε σ σ) Q E r s = Q s s := rfl

@[simp] theorem wp_set (t : σ) {Q : PUnit → σ → Prop} :
    wp (set t : Exec ρ ε σ PUnit) Q E r s = Q ⟨⟩ t := rfl

@[simp] theorem wp_modify (f : σ → σ) {Q : PUnit → σ → Prop} :
    wp (modify f : Exec ρ ε σ PUnit) Q E r s = Q ⟨⟩ (f s) := rfl

@[simp] theorem wp_read {Q : ρ → σ → Prop} :
    wp (read : Exec ρ ε σ ρ) Q E r s = Q r s := rfl

@[simp] theorem wp_ofExcept (y : Except ε α) :
    wp (ofExcept y : Exec ρ ε σ α) Q E r s =
      match y with | .ok a => Q a s | .error e => E e s := by
  cases y <;> rfl

@[simp] theorem wp_ite (c : Prop) [Decidable c] (y z : Exec ρ ε σ α) :
    wp (if c then y else z) Q E r s = if c then wp y Q E r s else wp z Q E r s := by
  split <;> rfl

@[simp] theorem wp_when (c : Prop) [Decidable c] (y : Exec ρ ε σ Unit) {Q : Unit → σ → Prop} :
    wp (when c y) Q E r s = if c then wp y Q E r s else Q () s := by
  unfold when
  split <;> rfl

@[simp] theorem wp_zoom (get : τ → σ) (set : σ → τ → τ) {Q : α → τ → Prop} {E : ε → τ → Prop}
    (t : τ) : wp (zoom get set x) Q E r t =
      wp x (fun a s => Q a (set s t)) (fun e s => E e (set s t)) r (get t) := by
  unfold wp zoom
  rcases x r (get t) with ⟨_ | _, _⟩ <;> rfl

/-- The rule of consequence: a specification of `x` gives any weaker one. -/
theorem wp_mono (h : wp x Q E r s) (hQ : ∀ a t, Q a t → Q' a t) (hE : ∀ e t, E e t → E' e t) :
    wp x Q' E' r s := by
  unfold wp at h ⊢
  rcases hx : x r s with ⟨_ | _, _⟩ <;> rw [hx] at h
  exacts [hE _ _ h, hQ _ _ h]

/-- Two postconditions that a computation meets, it meets together. -/
theorem wp_and (h : wp x Q E r s) (h' : wp x Q' E' r s) :
    wp x (fun a t => Q a t ∧ Q' a t) (fun e t => E e t ∧ E' e t) r s := by
  unfold wp at h h' ⊢
  rcases hx : x r s with ⟨_ | _, _⟩ <;> rw [hx] at h h'
  exacts [⟨h, h'⟩, ⟨h, h'⟩]

/-- What a specification says of an execution that ended in a value. -/
theorem wp.of_ok (h : wp x Q E r s) {a : α} {t : σ} (hx : x r s = (.ok a, t)) : Q a t := by
  unfold wp at h
  rwa [hx] at h

/-- What a specification says of an execution that ended in an error. -/
theorem wp.of_error (h : wp x Q E r s) {e : ε} {t : σ} (hx : x r s = (.error e, t)) : E e t := by
  unfold wp at h
  rwa [hx] at h

/-- The postcondition from the outcome of the run. -/
theorem wp_of_run (hok : ∀ a t, x r s = (.ok a, t) → Q a t)
    (herr : ∀ e t, x r s = (.error e, t) → E e t) : wp x Q E r s := by
  unfold wp
  rcases hx : x r s with ⟨_ | _, _⟩
  exacts [herr _ _ hx, hok _ _ hx]

/-- An execution that is to end in an error, and in which. -/
theorem wp.exists_error {e₀ : ε} {P : σ → Prop}
    (h : wp x (fun _ _ => False) (fun e t => e = e₀ ∧ P t) r s) :
    ∃ t, x r s = (.error e₀, t) ∧ P t := by
  unfold wp at h
  rcases hx : x r s with ⟨_ | _, t⟩ <;> rw [hx] at h
  · obtain ⟨rfl, ht⟩ := h
    exact ⟨t, rfl, ht⟩
  · exact h.elim

/-- An execution that is not to end in an error, and in which value. -/
theorem wp.exists_ok {P : α → σ → Prop} (h : wp x P (fun _ _ => False) r s) :
    ∃ a t, x r s = (.ok a, t) ∧ P a t := by
  unfold wp at h
  rcases hx : x r s with ⟨_ | a, t⟩ <;> rw [hx] at h
  · exact h.elim
  · exact ⟨a, t, rfl, h⟩

/-! ## Computations that move the state along a relation -/

/-- Wherever `x` is run from, it ends in a state related to the one before, in a value
    or in an error with `P`. -/
def Moves (R : σ → σ → Prop) (P : ε → Prop) (r : ρ) (x : Exec ρ ε σ α) : Prop :=
  ∀ s, wp x (fun _ t => R s t) (fun e t => R s t ∧ P e) r s

namespace Moves

variable {R : σ → σ → Prop} [IsPreorder σ R] {P : ε → Prop} {y : Exec ρ ε σ α}

theorem pure (a : α) : Moves R P r (Pure.pure a : Exec ρ ε σ α) := fun s => refl_of R s

theorem throw {e : ε} (he : P e) : Moves R P r (MonadExcept.throw e : Exec ρ ε σ α) :=
  fun s => ⟨refl_of R s, he⟩

theorem get : Moves R P r (MonadState.get : Exec ρ ε σ σ) := fun s => refl_of R s

theorem read : Moves R P r (MonadReader.read : Exec ρ ε σ ρ) := fun s => refl_of R s

theorem ofExcept {z : Except ε α} (hz : ∀ e, z = .error e → P e) :
    Moves R P r (Exec.ofExcept z : Exec ρ ε σ α) := by
  intro s
  cases z with
  | ok a => exact refl_of R s
  | error e => exact ⟨refl_of R s, hz e rfl⟩

omit [IsPreorder σ R] in
theorem modify {f : σ → σ} (h : ∀ s, R s (f s)) :
    Moves R P r (MonadStateOf.modifyGet fun s => (PUnit.unit, f s) : Exec ρ ε σ PUnit) := h

/-- A computation goes on from where another has led. -/
theorem of_wp {Q : α → σ → Prop} {E : ε → σ → Prop} {f : α → Exec ρ ε σ β} {s : σ}
    (hx : wp x Q E r s)
    (hf : ∀ a t, Q a t → R s t ∧ wp (f a) (fun _ u => R t u) (fun e u => R t u ∧ P e) r t)
    (hE : ∀ e t, E e t → R s t ∧ P e) :
    wp (x >>= f) (fun _ t => R s t) (fun e t => R s t ∧ P e) r s := by
  rw [wp_bind]
  refine wp_mono hx (fun a t ht => ?_) hE
  obtain ⟨h, hw⟩ := hf a t ht
  exact wp_mono hw (fun _ u hu => trans_of R h hu) fun _ u hu => ⟨trans_of R h hu.1, hu.2⟩

theorem bind {f : α → Exec ρ ε σ β} (hx : Moves R P r x) (hf : ∀ a, Moves R P r (f a)) :
    Moves R P r (x >>= f) :=
  fun s => of_wp (hx s) (fun a t h => ⟨h, hf a t⟩) fun _ _ h => h

theorem tryCatch {h : ε → Exec ρ ε σ α} (hx : Moves R P r x) (hh : ∀ e, P e → Moves R P r (h e)) :
    Moves R P r (MonadExcept.tryCatch x h) := by
  intro s
  rw [wp_tryCatch]
  refine wp_mono (hx s) (fun _ _ h => h) fun e t ht => ?_
  exact wp_mono (hh e ht.2 t) (fun _ u hu => trans_of R ht.1 hu)
    fun _ u hu => ⟨trans_of R ht.1 hu.1, hu.2⟩

omit [IsPreorder σ R] in
theorem ite {c : Prop} [Decidable c] (hx : Moves R P r x) (hy : Moves R P r y) :
    Moves R P r (if c then x else y) := by
  split
  exacts [hx, hy]

theorem when {c : Prop} [Decidable c] {z : Exec ρ ε σ Unit} (hz : Moves R P r z) :
    Moves R P r (Exec.when c z) := ite hz (pure ())

end Moves

/-- A step along `S` may have steps along `R` before it and after it. -/
structure Around (R S : σ → σ → Prop) : Prop where
  of : ∀ {s t : σ}, R s t → S s t
  before : ∀ {s t u : σ}, R s t → S t u → S s u
  after : ∀ {s t u : σ}, S s t → R t u → S s u

namespace Around

variable {R S : σ → σ → Prop} {P : ε → Prop} (h : Around R S)

include h

/-- A computation that moves along `R` moves along `S`. -/
theorem moves (hx : Moves R P r x) : Moves S P r x :=
  fun s => wp_mono (hx s) (fun _ _ hs => h.of hs) fun _ _ hs => ⟨h.of hs.1, hs.2⟩

/-- The step along `S` is in what follows. -/
theorem bind {f : α → Exec ρ ε σ β} (hx : Moves R P r x) (hf : ∀ a, Moves S P r (f a)) :
    Moves S P r (x >>= f) := by
  intro s
  rw [wp_bind]
  refine wp_mono (hx s) (fun a t ht => ?_) fun _ _ hs => ⟨h.of hs.1, hs.2⟩
  exact wp_mono (hf a t) (fun _ _ hu => h.before ht hu) fun _ _ hu => ⟨h.before ht hu.1, hu.2⟩

/-- The step along `S` is in what comes first. -/
theorem bind_after {f : α → Exec ρ ε σ β} (hx : Moves S P r x) (hf : ∀ a, Moves R P r (f a)) :
    Moves S P r (x >>= f) := by
  intro s
  rw [wp_bind]
  refine wp_mono (hx s) (fun a t ht => ?_) fun _ _ hs => hs
  exact wp_mono (hf a t) (fun _ _ hu => h.after ht hu) fun _ _ hu => ⟨h.after ht hu.1, hu.2⟩

/-- The handler moves along `R`. -/
theorem tryCatch {f : ε → Exec ρ ε σ α} (hx : Moves S P r x) (hf : ∀ e, Moves R P r (f e)) :
    Moves S P r (MonadExcept.tryCatch x f) := by
  intro s
  rw [wp_tryCatch]
  refine wp_mono (hx s) (fun _ _ hs => hs) fun e t ht => ?_
  exact wp_mono (hf e t) (fun _ _ hu => h.after ht.1 hu) fun _ _ hu => ⟨h.after ht.1 hu.1, hu.2⟩

end Around

end Exec
