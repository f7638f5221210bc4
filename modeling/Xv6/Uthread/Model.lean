import Mathlib.Logic.Function.Basic
import Mathlib.Data.List.Basic

/-!
# User-level threads (`uthread1.c`, `uthread2.c`, `uthread3.c`)

The three programs keep their threads in an array `all_thread` and switch between them with
the same `thread_switch`.  They differ in the size of the array, in the layout of
`struct thread`, and in what `thread_schedule` does with the thread it leaves.  This module
holds what `thread_schedule` decides, as a function of the states of the threads.
-/

namespace Xv6
namespace Uthread

open Function

/-- The programs that define `struct thread` and link with `uthread_switch.S`. -/
inductive Program where
  | uthread1
  | uthread2
  | uthread3
deriving DecidableEq

/-- `MAX_THREAD`. -/
def Program.maxThread : Program → Nat
  | .uthread1 => 4
  | .uthread2 => 10
  | .uthread3 => 10

/-- The field `state` of a thread.  `uthread1.c` has no `WAIT`. -/
inductive ThreadState where
  | free
  | running
  | runnable
  | wait
deriving DecidableEq

variable {p : Program} {state : Nat → ThreadState} {current next t : Nat}

/-- The loop of `thread_create`: the first thread that is FREE. -/
def Program.firstFree (p : Program) (state : Nat → ThreadState) : Option Nat :=
  (List.range p.maxThread).find? fun t => state t = .free

/-- The first half of `thread_schedule`, which sets `next_thread`.  Where it stays 0 the
program prints "no runnable threads" and exits. -/
def Program.findNext (p : Program) (state : Nat → ThreadState) (current : Nat) : Option Nat :=
  match (List.range p.maxThread).find? fun t => state t = .runnable ∧ t ≠ current with
  | some t => some t
  | none =>
    if state current = .runnable then some current
    -- `uthread2.c` alone lets the thread that runs go on
    else if p = .uthread2 ∧ state current = .running then some current
    else none

/-- The states that `thread_schedule` sets before it calls `thread_switch`. -/
def Program.handOver (p : Program) (state : Nat → ThreadState) (current next : Nat) :
    Nat → ThreadState :=
  let state := update state next .running
  match p with
  -- whatever the state of the thread it leaves
  | .uthread3 => update state current .runnable
  | _ =>
    if current ≠ 0 ∧ state current = .running then update state current .runnable
    else state

theorem firstFree_spec (h : p.firstFree state = some t) :
    t < p.maxThread ∧ state t = .free := by
  unfold Program.firstFree at h
  have hmem := List.mem_of_find?_eq_some h
  have hstate := List.find?_some h
  simp only [decide_eq_true_eq] at hstate
  exact ⟨List.mem_range.mp hmem, hstate⟩

/-- `thread_schedule` goes to another thread that is RUNNABLE, or stays. -/
theorem findNext_spec (h : p.findNext state current = some next) :
    next < p.maxThread ∧ state next = .runnable ∧ next ≠ current ∨
      next = current ∧ (state current = .runnable ∨ p = .uthread2 ∧ state current = .running) := by
  unfold Program.findNext at h
  split at h
  · next t ht =>
    obtain rfl : t = next := Option.some.inj h
    have hmem := List.mem_of_find?_eq_some ht
    have hstate := List.find?_some ht
    simp only [decide_eq_true_eq] at hstate
    exact .inl ⟨List.mem_range.mp hmem, hstate⟩
  · right
    split at h
    · next hrun => exact ⟨(Option.some.inj h).symm, .inl hrun⟩
    · split at h
      · next hrun => exact ⟨(Option.some.inj h).symm, .inr hrun⟩
      · cases h

/-- The next thread is RUNNING, and the one that is left is RUNNABLE or as it was. -/
theorem handOver_eq (p : Program) (state : Nat → ThreadState) (current next : Nat) :
    p.handOver state current next = update state next .running ∨ p.handOver state current next =
        update (update state next .running) current .runnable := by
  unfold Program.handOver
  cases p with
  | uthread1 =>
    dsimp only
    split
    · exact .inr rfl
    · exact .inl rfl
  | uthread2 =>
    dsimp only
    split
    · exact .inr rfl
    · exact .inl rfl
  | uthread3 => exact .inr rfl

/-- Only the two threads of a switch change their states. -/
theorem handOver_of_ne (hc : t ≠ current) (hn : t ≠ next) :
    p.handOver state current next t = state t := by
  rcases handOver_eq p state current next with h | h
  · rw [h, update_of_ne hn]
  · rw [h, update_of_ne hc, update_of_ne hn]

/-- What becomes of a thread depends on its own state and that of the thread that is left. -/
theorem handOver_congr {state' : Nat → ThreadState} (hc : state' current = state current)
    (ht : state' t = state t) :
    p.handOver state' current next t = p.handOver state current next t := by
  have hrun (u : Nat) (hu : state' u = state u) :
      update state' next .running u = update state next .running u := by
    by_cases hun : u = next
    · subst hun
      simp
    · rw [update_of_ne hun, update_of_ne hun, hu]
  have hleft : update (update state' next .running) current .runnable t =
      update (update state next .running) current .runnable t := by
    by_cases htc : t = current
    · subst htc
      simp
    · rw [update_of_ne htc, update_of_ne htc, hrun t ht]
  unfold Program.handOver
  cases p with
  | uthread1 =>
    dsimp only
    rw [hrun current hc]
    split
    · exact hleft
    · exact hrun t ht
  | uthread2 =>
    dsimp only
    rw [hrun current hc]
    split
    · exact hleft
    · exact hrun t ht
  | uthread3 => exact hleft

/-- A switch sets no state to FREE. -/
theorem handOver_ne_free (h : state t ≠ .free ∨ t = next) :
    p.handOver state current next t ≠ .free := by
  have hrun : update state next .running t ≠ .free := by
    by_cases ht : t = next
    · subst ht
      simp
    · rw [update_of_ne ht]
      exact h.resolve_right ht
  rcases handOver_eq p state current next with h | h
  · rw [h]
    exact hrun
  · rw [h]
    by_cases ht : t = current
    · subst ht
      simp
    · rw [update_of_ne ht]
      exact hrun

end Uthread
end Xv6
