import Mathlib.Logic.Relation

/-!
# Two parties and the channels between them

A *party* takes steps, in each of which it takes in a word and puts out another
(`Party`). Two parties are joined by a channel in each direction, which keeps what is
put into it, in its order, until it is taken out (`Duplex`). They go in any order, and a
word is cut anywhere on its way.

* `Duplex.reaches_runs`: each party makes a run of its own, and what one has put out is
  what the other has taken in, and then what is in the channel between them.

So what holds of every run of a party against any input holds of it here, and what one
party is known to take in is known by what the other puts out.
-/

/-- A party, by its steps: the word taken in and the word put out. -/
structure Party (σ α : Type*) where
  step : σ → List α → List α → σ → Prop

/-- The states of two parties, and what is on its way from one to the other. -/
structure Duplex (σ τ α : Type*) where
  left : σ
  right : τ
  toRight : List α
  toLeft : List α

variable {σ τ α : Type*} {A : Party σ α} {B : Party τ α} {a₀ a : σ} {b₀ b : τ}
  {inp out u v : List α}

/-! ## Runs of one party -/

namespace Party

/-- The runs of a party, with all that it has taken in and put out. -/
inductive Run (A : Party σ α) (a₀ : σ) : σ → List α → List α → Prop
  | refl : Run A a₀ a₀ [] []
  | step {a a' : σ} {inp out u v : List α} (h : Run A a₀ a inp out) (hs : A.step a u v a') :
      Run A a₀ a' (inp ++ u) (out ++ v)

/-- What holds at the start of a run, and is kept by every step, holds all along. -/
theorem Run.keep {I : σ → List α → List α → Prop} (h : A.Run a₀ a inp out) (h₀ : I a₀ [] [])
    (hI : ∀ a inp out u v a', A.Run a₀ a inp out → I a inp out → A.step a u v a' →
      I a' (inp ++ u) (out ++ v)) : I a inp out := by
  induction h with
  | refl => exact h₀
  | step h hs ih => exact hI _ _ _ _ _ _ h ih hs

/-- A run of a party is one of any that can do more. -/
theorem Run.mono {A' : Party σ α} (h : A.Run a₀ a inp out)
    (hA : ∀ a u v a', A.step a u v a' → A'.step a u v a') : A'.Run a₀ a inp out := by
  induction h with
  | refl => exact .refl
  | step _ hs ih => exact ih.step (hA _ _ _ _ hs)

end Party

/-! ## Two parties -/

namespace Duplex

/-- Either party takes a step, from what is in the channel to it. -/
inductive Step (A : Party σ α) (B : Party τ α) : Duplex σ τ α → Duplex σ τ α → Prop
  | left {d : Duplex σ τ α} {a' : σ} {u v rest : List α} (hs : A.step d.left u v a')
      (hu : d.toLeft = u ++ rest) :
      Step A B d { d with left := a', toRight := d.toRight ++ v, toLeft := rest }
  | right {d : Duplex σ τ α} {b' : τ} {u v rest : List α} (hs : B.step d.right u v b')
      (hu : d.toRight = u ++ rest) :
      Step A B d { d with right := b', toLeft := d.toLeft ++ v, toRight := rest }

/-- Two parties before their first step. -/
def init (a₀ : σ) (b₀ : τ) : Duplex σ τ α := ⟨a₀, b₀, [], []⟩

/-- Steps lead to the two parties from the start. -/
def Reaches (A : Party σ α) (B : Party τ α) (a₀ : σ) (b₀ : τ) : Duplex σ τ α → Prop :=
  Relation.ReflTransGen (Step A B) (init a₀ b₀)

/-- The same two parties, the other way round. -/
def swap (d : Duplex σ τ α) : Duplex τ σ α := ⟨d.right, d.left, d.toLeft, d.toRight⟩

theorem Step.swap {d d' : Duplex σ τ α} (h : Step A B d d') : Step B A d.swap d'.swap := by
  cases h with
  | left hs hu => exact .right hs hu
  | right hs hu => exact .left hs hu

/-- What a party leads to, one that can do more leads to. -/
theorem Reaches.mono_left {A' : Party σ α} {d : Duplex σ τ α} (h : Reaches A B a₀ b₀ d)
    (hA : ∀ a u v a', A.step a u v a' → A'.step a u v a') : Reaches A' B a₀ b₀ d := by
  induction h with
  | refl => exact .refl
  | tail _ hs ih =>
    refine ih.tail ?_
    cases hs with
    | left hs hu => exact .left (hA _ _ _ _ hs) hu
    | right hs hu => exact .right hs hu

/-- Neither party comes first. -/
theorem Reaches.swap {d : Duplex σ τ α} (h : Reaches A B a₀ b₀ d) : Reaches B A b₀ a₀ d.swap := by
  induction h with
  | refl => exact .refl
  | tail _ hs ih => exact ih.tail hs.swap

/-- The runs that the two parties have made. -/
structure Runs (A : Party σ α) (B : Party τ α) (a₀ : σ) (b₀ : τ) (d : Duplex σ τ α)
    (fromLeft fromRight : List α) : Prop where
  left : ∃ taken, A.Run a₀ d.left taken fromLeft ∧ fromRight = taken ++ d.toLeft
  right : ∃ taken, B.Run b₀ d.right taken fromRight ∧ fromLeft = taken ++ d.toRight

theorem Step.runs {d d' : Duplex σ τ α} {x y : List α} (h : Step A B d d')
    (hr : Runs A B a₀ b₀ d x y) : ∃ x' y', Runs A B a₀ b₀ d' x' y' := by
  obtain ⟨i, ha, hy⟩ := hr.left
  obtain ⟨j, hb, hx⟩ := hr.right
  cases h with
  | @left a' u v rest hs hu =>
    refine ⟨x ++ v, y, ⟨i ++ u, ha.step hs, ?_⟩, j, hb, ?_⟩
    · rw [hy, hu, List.append_assoc]
    · rw [hx, List.append_assoc]
  | @right b' u v rest hs hu =>
    refine ⟨x, y ++ v, ⟨i, ha, ?_⟩, j ++ u, hb.step hs, ?_⟩
    · rw [hy, List.append_assoc]
    · rw [hx, hu, List.append_assoc]

/-- Whatever the order of the steps, each party makes a run, and takes in what the other
    has put out, but for what is still on its way. -/
theorem reaches_runs {d : Duplex σ τ α} (h : Reaches A B a₀ b₀ d) :
    ∃ x y, Runs A B a₀ b₀ d x y := by
  induction h with
  | refl => exact ⟨[], [], ⟨[], .refl, rfl⟩, [], .refl, rfl⟩
  | tail _ hs ih =>
    obtain ⟨x, y, hr⟩ := ih
    exact hs.runs hr

end Duplex
