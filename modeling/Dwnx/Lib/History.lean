import Mathlib.Data.List.DropRight

/-!
# Properties of histories

A history is a list of events that grows at its end. A safety property says of
every event something about the events before it (`Along`); it is kept by an
extension that meets it at the events added. What happened after the last event
of a kind is a suffix of the history (`since`), empty right after such an event.
-/

variable {α : Type}

/-- `P` holds of every event of the history and those before it. -/
def Along (P : List α → α → Prop) (l : List α) : Prop :=
  ∀ pre a post, l = pre ++ a :: post → P pre a

variable {P Q : List α → α → Prop} {l m : List α} {a : α}

@[simp] theorem along_nil : Along P [] := fun pre a post h => by simp at h

/-- Along a concatenation: along the first part, and along the second after it. -/
theorem along_append : Along P (l ++ m) ↔ Along P l ∧ Along (fun pre a => P (l ++ pre) a) m := by
  constructor
  · refine fun h => ⟨fun pre a post e => h pre a (post ++ m) ?_,
      fun pre a post e => h (l ++ pre) a post ?_⟩
    · rw [e, List.append_assoc, List.cons_append]
    · rw [e, List.append_assoc]
  · rintro ⟨hl, hm⟩ pre a post e
    rcases List.append_eq_append_iff.1 e with ⟨pre', rfl, e'⟩ | ⟨post', e', e''⟩
    · exact hm pre' a post e'
    · cases post' with
      | nil =>
        simp only [List.append_nil, List.nil_append] at e' e''
        subst e'
        simpa using hm [] a post e''.symm
      | cons b post' =>
        obtain ⟨rfl, -⟩ := List.cons.inj e''
        exact hl pre a post' e'

@[simp] theorem along_singleton : Along P [a] ↔ P [] a := by
  constructor
  · exact fun h => h [] a [] rfl
  · intro h pre b post e
    cases pre with
    | nil =>
      obtain ⟨rfl, -⟩ := List.cons.inj e
      exact h
    | cons c pre => simp at e

/-- Along a history that is one step longer. -/
theorem along_concat : Along P (l ++ [a]) ↔ Along P l ∧ P l a := by
  rw [along_append, along_singleton, List.append_nil]

/-- Along a part from the start. -/
theorem Along.of_append (h : Along P (l ++ m)) : Along P l := (along_append.1 h).1

/-- A weaker condition on each step. -/
theorem Along.mono (h : Along P l) (hPQ : ∀ pre a, P pre a → Q pre a) : Along Q l :=
  fun pre a post e => hPQ pre a (h pre a post e)

/-- An extension by events of which `P` asks nothing. -/
theorem Along.append (h : Along P l) (hm : ∀ a ∈ m, ∀ pre, P pre a) : Along P (l ++ m) :=
  along_append.2 ⟨h, fun _ a _ e => hm a (e ▸ List.mem_append_right _ (List.mem_cons_self ..)) _⟩

/-- The condition at each position, so that it can be decided. -/
theorem along_iff_take : Along P l ↔ ∀ k : Fin l.length, P (l.take k) (l.get k) := by
  constructor
  · intro h k
    refine h _ _ (l.drop (k + 1)) ?_
    rw [List.get_eq_getElem, ← List.drop_eq_getElem_cons k.isLt, List.take_append_drop]
  · rintro h pre a post rfl
    simpa using h ⟨pre.length, by simp⟩

instance Along.instDecidable [∀ pre a, Decidable (P pre a)] : Decidable (Along P l) :=
  decidable_of_iff _ along_iff_take.symm

/-! ## The events since the last one of a kind -/

/-- The events after the last one with `p`. -/
def since (p : α → Bool) (l : List α) : List α := l.rtakeWhile fun a => !p a

variable {p : α → Bool}

/-- The recent part of a history that is one step longer. -/
theorem since_concat : since p (l ++ [a]) = if p a then [] else since p l ++ [a] := by
  rw [since, List.rtakeWhile_concat]
  cases p a <;> rfl

/-- Where the last step is of the kind, nothing is recent. -/
theorem since_concat_of_pos (h : p a = true) : since p (l ++ [a]) = [] := by
  rw [since_concat, if_pos h]

/-- Another step is recent. -/
theorem since_concat_of_neg (h : p a = false) : since p (l ++ [a]) = since p l ++ [a] := by
  rw [since_concat, if_neg (by simp [h])]

/-- Steps that are not of the kind are recent. -/
theorem since_append (h : ∀ a ∈ m, p a = false) : since p (l ++ m) = since p l ++ m := by
  induction m using List.reverseRecOn with
  | nil => simp
  | append_singleton m a ih =>
    rw [← List.append_assoc, since_concat_of_neg (h a (by simp)), ih fun b hb => h b (by simp [hb]),
      List.append_assoc]

/-- What is recent has happened. -/
theorem mem_of_mem_since (h : a ∈ since p l) : a ∈ l := (List.rtakeWhile_suffix _ _).subset h
