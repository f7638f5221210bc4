import Mathlib.Logic.Function.Basic
import Mathlib.Tactic.Common

/-!
# Stateful programs that may stop

A program of type `Exec ε σ α` reads and updates a state of type `σ` and either
returns a value of type `α` together with the next state, or stops for good with
a reason of type `ε`.  A kernel panic, a power cut and a hang are all of the
second kind: nothing after them runs.

Two ways of reasoning about such programs are provided.

* Inversion: `bind_eq_ok` takes a sequence that returned apart into the parts
  that returned.
* Triples: `Triple P m Q E` says that, from a state satisfying `P`, the program
  returns with `Q` or stops with `E`.  `Triple.upto` is the rule for counting
  loops; the loop invariant may depend on the number of rounds already made.

`Returns` is for programs that are known to return from a state; its rules follow the
program.  `Ends` only says that the program returns, and leaves what it returns to inversion.
`Settles` and `Stops` are for programs whose outcome is the same from every state.
-/

namespace Xv6
namespace Lib

/-- A program over states `σ` which returns a value and the next state, or stops
with `ε`. -/
def Exec (ε σ α : Type) : Type := σ → Except ε (α × σ)

namespace Exec

variable {ε σ α β : Type}

instance : Monad (Exec ε σ) where
  pure a := fun s => .ok (a, s)
  bind m f := fun s =>
    match m s with
    | .ok (a, t) => f a t
    | .error e => .error e

/-- Stop with the given reason. -/
def stop (e : ε) : Exec ε σ α := fun _ => .error e

/-- The current state. -/
def get : Exec ε σ σ := fun s => .ok (s, s)

/-- Apply a function to the state. -/
def modify (f : σ → σ) : Exec ε σ Unit := fun s => .ok ((), f s)

/-- Run `f 0`, `f 1`, ..., `f (n - 1)` in this order. -/
def upto : Nat → (Nat → Exec ε σ Unit) → Exec ε σ Unit
  | 0, _ => pure ()
  | n + 1, f => do
    upto n f
    f n

@[simp] theorem pure_apply (a : α) (s : σ) :
    (pure a : Exec ε σ α) s = .ok (a, s) := rfl

@[simp] theorem stop_apply (e : ε) (s : σ) :
    (stop e : Exec ε σ α) s = .error e := rfl

@[simp] theorem get_apply (s : σ) : (get : Exec ε σ σ) s = .ok (s, s) := rfl

@[simp] theorem modify_apply (f : σ → σ) (s : σ) :
    (modify f : Exec ε σ Unit) s = .ok ((), f s) := rfl

/-- A choice between programs is a choice between their outcomes. -/
theorem run_ite {p : Prop} [Decidable p] (m m' : Exec ε σ α) (s : σ) :
    (if p then m else m') s = if p then m s else m' s := by
  split
  · rfl
  · rfl

/-- What a sequence does, by the outcome of its first part. -/
theorem bind_apply (m : Exec ε σ α) (f : α → Exec ε σ β) (s : σ) :
    (m >>= f) s = match m s with
      | .ok (a, t) => f a t
      | .error e => .error e := rfl

/-- A sequence continues from whatever its first part returned. -/
theorem bind_of_ok {m : Exec ε σ α} {f : α → Exec ε σ β} {s t : σ} {a : α}
    (h : m s = .ok (a, t)) : (m >>= f) s = f a t := by
  change (match m s with
    | .ok (a, t) => f a t
    | .error e => .error e) = f a t
  rw [h]

/-- A sequence stops where its first part stops. -/
theorem bind_of_error {m : Exec ε σ α} {f : α → Exec ε σ β} {s : σ} {e : ε}
    (h : m s = .error e) : (m >>= f) s = .error e := by
  change (match m s with
    | .ok (a, t) => f a t
    | .error e => .error e) = .error e
  rw [h]

/-- Sequences may be grouped either way. -/
theorem bind_bind {γ : Type} (m : Exec ε σ α) (f : α → Exec ε σ β) (g : β → Exec ε σ γ) :
    (m >>= f) >>= g = m >>= fun a => f a >>= g := by
  funext s
  cases hm : m s with
  | error e => rw [bind_of_error (bind_of_error hm), bind_of_error hm]
  | ok p =>
    obtain ⟨a, t⟩ := p
    rw [bind_apply, bind_of_ok hm, bind_of_ok hm, bind_apply]

/-- A sequence returned exactly when both of its parts did. -/
theorem bind_eq_ok {m : Exec ε σ α} {f : α → Exec ε σ β} {s : σ} {r : β × σ} :
    (m >>= f) s = .ok r ↔ ∃ a t, m s = .ok (a, t) ∧ f a t = .ok r := by
  cases hm : m s with
  | error e =>
    rw [bind_of_error hm]
    simp
  | ok p =>
    obtain ⟨a, t⟩ := p
    rw [bind_of_ok hm]
    constructor
    · intro h
      exact ⟨a, t, rfl, h⟩
    · rintro ⟨a', t', heq, h⟩
      cases heq
      exact h

/-- What relates the states before and after every round of a loop relates the
states before and after the loop. -/
theorem upto_rel {R : σ → σ → Prop} (hrefl : ∀ s, R s s)
    (htrans : ∀ s t u, R s t → R t u → R s u) {f : Nat → Exec ε σ Unit} {n : Nat}
    (hround : ∀ i s a t, i < n → f i s = .ok (a, t) → R s t) {s t : σ} {a : Unit}
    (h : upto n f s = .ok (a, t)) : R s t := by
  induction n generalizing t a with
  | zero =>
    cases h
    exact hrefl s
  | succ n ih =>
    obtain ⟨b, u, hfirst, hlast⟩ := bind_eq_ok.mp h
    exact htrans s u t (ih (fun i s a t hi => hround i s a t (by omega)) hfirst)
      (hround n u a t (by omega) hlast)

/-- From `P` the program returns with `Q` or stops with `E`. -/
def Triple (P : σ → Prop) (m : Exec ε σ α) (Q : α → σ → Prop) (E : ε → Prop) : Prop :=
  ∀ s, P s →
    match m s with
    | .ok (a, t) => Q a t
    | .error e => E e

namespace Triple

variable {P P' : σ → Prop} {m : Exec ε σ α} {Q Q' : α → σ → Prop} {E E' : ε → Prop}

/-- What a returning program has established. -/
theorem of_ok (h : Triple P m Q E) {s t : σ} {a : α} (hs : P s)
    (hm : m s = .ok (a, t)) : Q a t := by
  have := h s hs
  rw [hm] at this
  exact this

/-- What a stopping program has established. -/
theorem of_error (h : Triple P m Q E) {s : σ} {e : ε} (hs : P s) (hm : m s = .error e) : E e := by
  have := h s hs
  rw [hm] at this
  exact this

theorem weaken (h : Triple P m Q E) (hP : ∀ s, P' s → P s)
    (hQ : ∀ a s, Q a s → Q' a s) (hE : ∀ e, E e → E' e) : Triple P' m Q' E' := by
  intro s hs
  cases hm : m s with
  | error e => exact hE e (h.of_error (hP s hs) hm)
  | ok p =>
    obtain ⟨a, t⟩ := p
    exact hQ a t (h.of_ok (hP s hs) hm)

theorem bind {f : α → Exec ε σ β} {R : β → σ → Prop} (hm : Triple P m Q E)
    (hf : ∀ a, Triple (Q a) (f a) R E) : Triple P (m >>= f) R E := by
  intro s hs
  cases h : m s with
  | error e =>
    rw [bind_of_error h]
    exact hm.of_error hs h
  | ok p =>
    obtain ⟨a, t⟩ := p
    rw [bind_of_ok h]
    exact hf a t (hm.of_ok hs h)

theorem stop {e : ε} (h : E e) : Triple P (stop e) Q E := fun _ _ => h

theorem get : Triple (E := E) P get fun a s => a = s ∧ P s := fun _ hs => ⟨rfl, hs⟩

theorem modify {f : σ → σ} {R : σ → Prop} (h : ∀ s, P s → R (f s)) :
    Triple (E := E) P (modify f) fun _ => R := fun s hs => h s hs

theorem ite {p : Prop} [Decidable p] {m' : Exec ε σ α} (hm : p → Triple P m Q E)
    (hm' : ¬p → Triple P m' Q E) : Triple P (if p then m else m') Q E := by
  split
  · exact hm ‹_›
  · exact hm' ‹_›

/-- A program that returns from every state. -/
theorem total (h : ∀ s, ∃ a t, m s = .ok (a, t)) : Triple P m (fun _ _ => True) E := by
  intro s _
  obtain ⟨a, t, hrun⟩ := h s
  rw [hrun]
  trivial

/-- The rule for counting loops: `I i` holds before round `i`. -/
theorem upto {I : Nat → σ → Prop} {f : Nat → Exec ε σ Unit} {n : Nat}
    (h : ∀ i, i < n → Triple (I i) (f i) (fun _ => I (i + 1)) E) :
    Triple (I 0) (upto n f) (fun _ => I n) E := by
  induction n with
  | zero => exact fun s hs => hs
  | succ n ih =>
    refine (ih fun i hi => h i (by omega)).bind fun _ => ?_
    exact h n (by omega)

end Triple

/-- From this state the program returns, with `Q`. -/
def Returns (m : Exec ε σ α) (s : σ) (Q : α → σ → Prop) : Prop :=
  ∃ a t, m s = .ok (a, t) ∧ Q a t

namespace Returns

variable {m : Exec ε σ α} {f : α → Exec ε σ β} {s t : σ} {a : α} {Q : α → σ → Prop}

theorem of_ok (h : m s = .ok (a, t)) (hQ : Q a t) : Returns m s Q := ⟨a, t, h, hQ⟩

theorem bind {R : β → σ → Prop} (h : Returns m s fun a t => Returns (f a) t R) :
    Returns (m >>= f) s R := by
  obtain ⟨a, t, hm, b, u, hf, hR⟩ := h
  exact ⟨b, u, (bind_of_ok hm).trans hf, hR⟩

end Returns

/-- From this state the program returns. -/
def Ends (m : Exec ε σ α) (s : σ) : Prop := ∃ r, m s = .ok r

namespace Ends

variable {m m' : Exec ε σ α} {f : α → Exec ε σ β} {s : σ}

theorem pure (a : α) : Ends (pure a : Exec ε σ α) s := ⟨(a, s), rfl⟩

theorem modify (g : σ → σ) : Ends (modify g : Exec ε σ Unit) s := ⟨((), g s), rfl⟩

/-- The second part is only to end where the first leaves the state. -/
theorem bind (hm : Ends m s) (hf : ∀ a t, m s = .ok (a, t) → Ends (f a) t) :
    Ends (m >>= f) s := by
  obtain ⟨⟨a, t⟩, hrun⟩ := hm
  obtain ⟨r, hrest⟩ := hf a t hrun
  exact ⟨r, (bind_of_ok hrun).trans hrest⟩

theorem ite {p : Prop} [Decidable p] (hm : p → Ends m s) (hm' : ¬p → Ends m' s) :
    Ends (if p then m else m') s := by
  split
  · exact hm ‹_›
  · exact hm' ‹_›

end Ends

/-- From every state the program returns `a`. -/
def Settles (m : Exec ε σ α) (a : α) : Prop := ∀ s, ∃ t, m s = .ok (a, t)

/-- From every state the program stops with `e`. -/
def Stops (m : Exec ε σ α) (e : ε) : Prop := ∀ s, m s = .error e

section Outcome

variable {m : Exec ε σ α} {f : α → Exec ε σ β} {a : α} {b : β} {e : ε}

theorem Settles.pure (a : α) : Settles (pure a : Exec ε σ α) a := fun s => ⟨s, rfl⟩

theorem Settles.bind (hm : Settles m a) (hf : Settles (f a) b) : Settles (m >>= f) b := by
  intro s
  obtain ⟨t, ht⟩ := hm s
  rw [bind_of_ok ht]
  exact hf t

theorem Settles.bind_stops (hm : Settles m a) (hf : Stops (f a) e) : Stops (m >>= f) e := by
  intro s
  obtain ⟨t, ht⟩ := hm s
  rw [bind_of_ok ht]
  exact hf t

theorem Stops.bind (hm : Stops m e) : Stops (m >>= f) e := fun s => bind_of_error (hm s)

/-- Not both, as long as there is a state. -/
theorem Stops.not_settles [Nonempty σ] (hs : Stops m e) : ¬Settles m a := by
  intro hm
  obtain ⟨s⟩ := ‹Nonempty σ›
  obtain ⟨t, ht⟩ := hm s
  rw [hs s] at ht
  cases ht

end Outcome

end Exec
end Lib
end Xv6
