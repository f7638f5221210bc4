import Mathlib.Logic.Function.Basic
import Mathlib.Logic.Relation
import Mathlib.Tactic.Common

/-!
# A lock handed between schedulers and tasks

Several CPUs share a table of tasks under one lock.  The scheduler of a CPU takes the lock,
picks a task that is ready and switches to it with the lock held; the task releases the
lock.  To stop running, a task takes the lock, changes its own phase and switches back to
the scheduler of its CPU, again with the lock held; the scheduler either picks the next task
or releases the lock.

`Step` lists what can happen and `Coherent` is the invariant of the protocol: a task runs on
at most one CPU, that CPU knows it, and the lock is with a CPU exactly while that CPU is
between a switch and a release.
-/

namespace Xv6
namespace Lib
namespace Handoff

open Function

/-- Where a task stands. -/
inductive Phase where
  /-- There is no task. -/
  | absent
  /-- It is being made. -/
  | embryo
  | ready
  | asleep
  /-- It runs without the lock. -/
  | running
  /-- It runs and has the lock from the scheduler. -/
  | taken
  /-- It has ended and is kept in the table. -/
  | dead
deriving DecidableEq

/-- Where the scheduler of a CPU is. -/
inductive Loop where
  | top
  /-- Task `i` runs on the CPU. -/
  | ran (i : Nat)
  /-- Task `i` has switched back. -/
  | back (i : Nat)
deriving DecidableEq

@[ext]
structure Abs where
  phase : Nat → Phase
  loop : Nat → Loop
  lock : Option Nat

namespace Abs

/-- The scheduler of `c` may go on: it takes the free lock, or has got it back. -/
def Turn (a : Abs) (c : Nat) : Prop :=
  (a.loop c = .top ∧ a.lock = none) ∨ ∃ i, a.loop c = .back i

/-- Task `i`, running on `c`, may go on with the lock: it takes the free lock, or has it. -/
def Holds (a : Abs) (c i : Nat) : Prop :=
  a.loop c = .ran i ∧ (a.phase i = .running ∧ a.lock = none ∨ a.phase i = .taken)

end Abs

/-- What can happen. -/
inductive Step (a : Abs) : Abs → Prop
  /-- Tasks are made, dropped and published without running. -/
  | make (n : Nat) : a.phase n = .absent → Step a { a with phase := update a.phase n .embryo }
  | drop (n : Nat) : a.phase n = .embryo → Step a { a with phase := update a.phase n .absent }
  | publish (n : Nat) : a.phase n = .embryo → Step a { a with phase := update a.phase n .ready }
  /-- A task that has ended is removed. -/
  | bury (n : Nat) : a.phase n = .dead → (∀ c, a.loop c ≠ .back n) →
      Step a { a with phase := update a.phase n .absent }
  /-- Some of the tasks that are asleep are woken. -/
  | wake (w : Nat → Prop) [DecidablePred w] : (∀ c i, a.loop c ≠ .back i) → Step a
        { a with phase := fun i => if a.phase i = .asleep ∧ w i then .ready else a.phase i }
  /-- The scheduler of `c` switches to task `i`. -/
  | dispatch (c i : Nat) : a.Turn c → a.phase i = .ready → Step a
        { phase := update a.phase i .taken
          loop := update a.loop c (.ran i)
          lock := some c }
  /-- The scheduler of `c` ends its round. -/
  | rest (c : Nat) : a.Turn c → Step a { a with loop := update a.loop c .top, lock := none }
  /-- The task on `c` releases the lock. -/
  | release (c i : Nat) : a.Holds c i →
      Step a { a with phase := update a.phase i .running, lock := none }
  /-- The task on `c` stops running. -/
  | leave (c i : Nat) (x : Phase) : a.Holds c i → x = .ready ∨ x = .asleep ∨ x = .dead → Step a
        { phase := update a.phase i x
          loop := update a.loop c (.back i)
          lock := some c }

/-- Any number of steps. -/
abbrev Steps : Abs → Abs → Prop := Relation.ReflTransGen Step

/-- The invariant of the protocol. -/
structure Coherent (a : Abs) : Prop where
  ran : ∀ c i, a.loop c = .ran i → a.phase i = .running ∨ a.phase i = .taken
  back : ∀ c i, a.loop c = .back i → a.phase i = .ready ∨ a.phase i = .asleep ∨ a.phase i = .dead
  one : ∀ c c' i, a.loop c = .ran i ∨ a.loop c = .back i → a.loop c' = .ran i ∨ a.loop c' = .back i →
    c = c'
  onCpu : ∀ i, a.phase i = .running ∨ a.phase i = .taken → ∃ c, a.loop c = .ran i
  backLock : ∀ c i, a.loop c = .back i → a.lock = some c
  takenLock : ∀ c i, a.loop c = .ran i → a.phase i = .taken → a.lock = some c
  lock : ∀ c, a.lock = some c →
    (∃ i, a.loop c = .back i) ∨ ∃ i, a.loop c = .ran i ∧ a.phase i = .taken

namespace Coherent

variable {a a' : Abs}

theorem step (h : Coherent a) (hs : Step a a') : Coherent a' := by
  obtain ⟨h1, h2, h3, h4, h5, h6, h7⟩ := h
  cases hs with
  | make n hn => constructor <;> grind
  | drop n hn => constructor <;> grind
  | publish n hn => constructor <;> grind
  | bury n hn hb => constructor <;> grind
  | wake w hw => constructor <;> grind
  | dispatch c i ht hi =>
    constructor
    case onCpu =>
      -- a task that runs elsewhere stays there, since `c` was not running one
      intro j hj
      by_cases hji : j = i
      · exact ⟨c, by simp [hji]⟩
      · obtain ⟨d, hd⟩ := h4 j (by simpa [hji] using hj)
        have hdc : d ≠ c := by grind [Abs.Turn]
        exact ⟨d, by simpa [hdc] using hd⟩
    all_goals grind [Abs.Turn]
  | rest c ht =>
    constructor
    case onCpu =>
      intro j hj
      obtain ⟨d, hd⟩ := h4 j hj
      have hdc : d ≠ c := by grind [Abs.Turn]
      exact ⟨d, by simpa [hdc] using hd⟩
    all_goals grind [Abs.Turn]
  | release c i hh => constructor <;> grind [Abs.Holds]
  | leave c i x hh hx =>
    constructor
    case onCpu =>
      intro j hj
      have hji : j ≠ i := by
        rintro rfl
        grind
      obtain ⟨d, hd⟩ := h4 j (by simpa [hji] using hj)
      have hdc : d ≠ c := by grind [Abs.Holds]
      exact ⟨d, by simpa [hdc] using hd⟩
    all_goals grind [Abs.Holds]

theorem steps (h : Coherent a) (hs : Steps a a') : Coherent a' := by
  induction hs with
  | refl => exact h
  | tail _ hlast ih => exact ih.step hlast

end Coherent

end Handoff
end Lib
end Xv6
