import Scripting.Text

/-!
Walks: computations that go on from place to place and may reach for what is not there. A position
in a list is such a place, and the rest of the list is what lies ahead of it.
-/

namespace Scripting

/-- How a walk ends: with a value, given up after an error was recorded, by reaching for what is
not there, or not within its fuel. -/
inductive Walked (σ α : Type) where
  | done (value : α) (state : σ)
  | aborted (state : σ)
  | astray (state : σ)
  | exhausted (state : σ)

/-- Where a walk has come to, however it ended. -/
def Walked.state {σ α : Type} : Walked σ α → σ
  | done _ s | aborted s | astray s | exhausted s => s

/-- A computation that goes on from place to place. -/
def Walk (σ α : Type) : Type := σ → Walked σ α

namespace Walk

variable {σ α β : Type}

def pure (a : α) : Walk σ α := fun s => .done a s

def bind (x : Walk σ α) (f : α → Walk σ β) : Walk σ β := fun s =>
  match x s with
  | .done a s => f a s
  | .aborted s => .aborted s
  | .astray s => .astray s
  | .exhausted s => .exhausted s

instance : Monad (Walk σ) where
  pure := Walk.pure
  bind := Walk.bind

/-- Looks at the state. -/
def look (f : σ → α) : Walk σ α := fun s => .done (f s) s

def change (f : σ → σ) : Walk σ Unit := fun s => .done () (f s)

/-- What is there, or else the walk has gone astray. -/
def demand : Option α → Walk σ α
  | some a => Pure.pure a
  | none => fun s => .astray s

def exhausted : Walk σ α := fun s => .exhausted s

theorem change_eq (f : σ → σ) (s : σ) : change f s = .done () (f s) :=
  rfl

theorem look_eq (f : σ → α) (s : σ) : look f s = .done (f s) s :=
  rfl

theorem bind_done {x : Walk σ α} {f : α → Walk σ β} {s t : σ} {a : α} (h : x s = .done a t) :
    (x >>= f) s = f a t := by
  simp only [Bind.bind, Walk.bind, h]

theorem bind_aborted {x : Walk σ α} {f : α → Walk σ β} {s t : σ} (h : x s = .aborted t) :
    (x >>= f) s = .aborted t := by
  simp only [Bind.bind, Walk.bind, h]

theorem bind_astray {x : Walk σ α} {f : α → Walk σ β} {s t : σ} (h : x s = .astray t) :
    (x >>= f) s = .astray t := by
  simp only [Bind.bind, Walk.bind, h]

theorem bind_exhausted {x : Walk σ α} {f : α → Walk σ β} {s t : σ} (h : x s = .exhausted t) :
    (x >>= f) s = .exhausted t := by
  simp only [Bind.bind, Walk.bind, h]

theorem bind_eq_done {x : Walk σ α} {f : α → Walk σ β} {s t : σ} {b : β}
    (h : (x >>= f) s = .done b t) : ∃ a u, x s = .done a u ∧ f a u = .done b t := by
  cases hx : x s with
  | done a u => exact ⟨a, u, rfl, (bind_done hx).symm.trans h⟩
  | aborted u =>
      rw [bind_aborted hx] at h
      cases h
  | astray u =>
      rw [bind_astray hx] at h
      cases h
  | exhausted u =>
      rw [bind_exhausted hx] at h
      cases h

end Walk

/-- A position in a list with what lies ahead of it. -/
def Ahead {α : Type} (l : List α) (k : Nat) (rest : List α) : Prop :=
  k ≤ l.length ∧ l.drop k = rest

namespace Ahead

variable {α : Type} {l rest : List α} {k : Nat} {a : α}

theorem length_eq (h : Ahead l k rest) : k + rest.length = l.length := by
  rw [← h.2, List.length_drop]
  exact Nat.add_sub_of_le h.1

theorem get (h : Ahead l k (a :: rest)) : l[k]? = some a := by
  have hd : (l.drop k)[0]? = some a := by
    rw [h.2]
    rfl
  rwa [List.getElem?_drop, Nat.add_zero] at hd

theorem drop (h : Ahead l k rest) {n : Nat} (hn : n ≤ rest.length) :
    Ahead l (k + n) (rest.drop n) := by
  have hl := h.length_eq
  refine ⟨by omega, ?_⟩
  rw [← List.drop_drop, h.2]

theorem next (h : Ahead l k (a :: rest)) : Ahead l (k + 1) rest :=
  h.drop (Nat.succ_le_succ (Nat.zero_le _))

end Ahead

end Scripting
